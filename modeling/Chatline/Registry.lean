import Chatline.Command
import Chatline.Error

/-! The loaded commands, by id. Every operation either gives the next set of commands or an
error, after which the set is what it was. -/
namespace Chatline

/-- What a source offers at one moment: the ids it lists, and a fresh command for an id. -/
structure Supply (σ : Type) where
  ids : Except Error (List String)
  load : String → Except Error (Command σ)

/-- The loaded commands, in the order in which messages are offered to them. -/
abbrev Registry (σ : Type) := NameMap (Command σ)

namespace Registry

variable {σ : Type}

/-- Offers a message to the commands in the order of their ids. -/
def dispatch (r : Registry σ) (message : String) (ctx : Context) (st : σ) : Reaction σ :=
  Command.dispatchAll message ctx r.values st

/-- Fresh commands for ids, up to the first error. -/
def fetch (s : Supply σ) : List String → Except Error (List (String × Command σ))
  | [] => .ok []
  | id :: ids => do
    let c ← s.load id
    let cs ← fetch s ids
    return (id, c) :: cs

def insertAll (r : Registry σ) (cs : List (String × Command σ)) : Registry σ :=
  cs.foldl (fun r c => r.insert c.1 c.2) r

def load (s : Supply σ) (id : String) (r : Registry σ) : Except Error (Registry σ) :=
  if r.contains id then .error (.duplicateCommand id)
  else (s.load id).map (r.insert id)

def unload (id : String) (r : Registry σ) : Except Error (Registry σ) :=
  if r.contains id then .ok (r.erase id) else .error (.unknownCommand id)

def reload (s : Supply σ) (id : String) (r : Registry σ) : Except Error (Registry σ) :=
  if r.contains id then (s.load id).map (r.insert id) else .error (.unknownCommand id)

/-- Loads every listed command that is not loaded, and counts them. -/
def loadAll (s : Supply σ) (r : Registry σ) : Except Error (Registry σ × Nat) := do
  let ids ← s.ids
  let cs ← fetch s (ids.filter fun id => !r.contains id)
  return (r.insertAll cs, cs.length)

/-- Fresh commands for exactly the listed ids, and their number. -/
def reloadAll (s : Supply σ) : Except Error (Registry σ × Nat) := do
  let ids ← s.ids
  let cs ← fetch s ids
  let r : Registry σ := insertAll ∅ cs
  return (r, r.size)

inductive Operation where
  | load (id : String)
  | unload (id : String)
  | reload (id : String)
  | loadAll
  | unloadAll
  | reloadAll

/-- The answer of an operation, a number for those on all commands, and the commands loaded
afterwards. -/
def perform (s : Supply σ) (r : Registry σ) : Operation → Except Error (Option Nat) × Registry σ
  | .load id => single (r.load s id)
  | .unload id => single (r.unload id)
  | .reload id => single (r.reload s id)
  | .loadAll => batch (r.loadAll s)
  | .unloadAll => (.ok (some r.size), ∅)
  | .reloadAll => batch (reloadAll s)
where
  single : Except Error (Registry σ) → Except Error (Option Nat) × Registry σ
    | .ok r' => (.ok none, r')
    | .error e => (.error e, r)
  batch : Except Error (Registry σ × Nat) → Except Error (Option Nat) × Registry σ
    | .ok (r', n) => (.ok (some n), r')
    | .error e => (.error e, r)

def summary (r : Registry σ) : String :=
  "CommandRegistry \x7b commands: " ++ toString r.size ++ ", .. \x7d"

end Registry
end Chatline
