import Chatline.NameMap
import Chatline.Value

/-! What a match has read: for each name the readings under it, in the order in which they were
read. A name may be present with no readings. -/
namespace Chatline

abbrev Args := NameMap (List Reading)

namespace Args

/-- Makes a name present, keeping the readings it has. -/
def seed (a : Args) (name : String) : Args :=
  a.alter name fun rs => rs.getD []

def push (a : Args) (name : String) (r : Reading) : Args :=
  a.alter name fun rs => rs.getD [] ++ [r]

/-- Puts a reading in the place of the last one under a name, if there is one. -/
def replaceLast (a : Args) (name : String) (r : Reading) : Args :=
  a.alter name fun rs => (rs.getD []).dropLast ++ [r]

/-- Adds the readings of `b` after those of `a`, name by name. -/
def merge (a b : Args) : Args := a.unionWith (· ++ ·) b

/-- The present names with no readings under them. -/
def ofNames (names : List String) : Args := names.foldl seed ∅

def single (name : String) (r : Reading) : Args := push ∅ name r

/-- The readings under a name; none if the name is absent. -/
def readings (a : Args) (name : String) : List Reading := (a.get? name).getD []

def count (a : Args) (name : String) : Nat := (a.readings name).length

def valuesOf (a : Args) (name : String) : List Value := (a.readings name).map Reading.value

def first? (a : Args) (name : String) : Option Value := (a.valuesOf name).head?

def int? (a : Args) (name : String) : Option Int64 := (a.first? name).bind Value.int?

def text? (a : Args) (name : String) : Option String := (a.first? name).bind Value.text?

def texts (a : Args) (name : String) : List String := (a.valuesOf name).filterMap Value.text?

/-- Whether nothing was read under any name. -/
def isBare (a : Args) : Bool := a.values.all List.isEmpty

end Args
end Chatline
