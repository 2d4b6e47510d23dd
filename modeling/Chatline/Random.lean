/-! Random numbers from the ChaCha stream with eight rounds. A generator is a key and the number
of words drawn from its stream, so equal generators give equal numbers for ever. -/
namespace Chatline

namespace ChaCha

abbrev Block := Vector UInt32 16

def rotateLeft (x : UInt32) (k : UInt32) : UInt32 := (x <<< k) ||| (x >>> (32 - k))

def quarterRound (a b c d : Fin 16) (v : Block) : Block :=
  let xa := v.get a + v.get b
  let xd := rotateLeft (v.get d ^^^ xa) 16
  let xc := v.get c + xd
  let xb := rotateLeft (v.get b ^^^ xc) 12
  let xa := xa + xb
  let xd := rotateLeft (xd ^^^ xa) 8
  let xc := xc + xd
  let xb := rotateLeft (xb ^^^ xc) 7
  (((v.set a xa a.isLt).set b xb b.isLt).set c xc c.isLt).set d xd d.isLt

/-- A round on the columns and a round on the diagonals. -/
def doubleRound (v : Block) : Block :=
  let v := quarterRound 0 4 8 12 v
  let v := quarterRound 1 5 9 13 v
  let v := quarterRound 2 6 10 14 v
  let v := quarterRound 3 7 11 15 v
  let v := quarterRound 0 5 10 15 v
  let v := quarterRound 1 6 11 12 v
  let v := quarterRound 2 7 8 13 v
  quarterRound 3 4 9 14 v

/-- The block before the rounds: constants, key, and the number of the block in two words. -/
def input (key : Vector UInt32 8) (block : Nat) : Block :=
  let constants : Vector UInt32 4 := #v[0x61707865, 0x3320646e, 0x79622d32, 0x6b206574]
  let position : Vector UInt32 4 := #v[UInt32.ofNat block, UInt32.ofNat (block / UInt32.size), 0, 0]
  constants ++ key ++ position

def block (key : Vector UInt32 8) (n : Nat) : Block :=
  let start := input key n
  let mixed := doubleRound (doubleRound (doubleRound (doubleRound start)))
  start.zipWith (· + ·) mixed

def word (key : Vector UInt32 8) (n : Nat) : UInt32 :=
  (block key (n / 16)).get ⟨n % 16, Nat.mod_lt n (by decide)⟩

end ChaCha

/-- A place in the stream of a key, as the number of words drawn before it. -/
structure Generator where
  key : Vector UInt32 8
  drawn : Nat := 0

namespace Generator

def seedStep (state : UInt64) : UInt64 := state * 6364136223846793005 + 11634580027462260723

/-- The word of the key that a state of the seed sequence gives. -/
def seedWord (state : UInt64) : UInt32 :=
  let x := (((state >>> 18) ^^^ state) >>> 27).toUInt32
  let k := (state >>> 59).toUInt32
  (x >>> k) ||| (x <<< ((32 - k) % 32))

/-- The states of the seed sequence after a state. -/
def seedStates : Nat → UInt64 → List UInt64
  | 0, _ => []
  | n + 1, state => seedStep state :: seedStates n (seedStep state)

def ofSeed (seed : UInt64) : Generator :=
  { key := Vector.ofFn fun i => seedWord ((seedStates 8 seed)[i.val]?.getD 0) }

def draw32 (g : Generator) : Nat × Generator :=
  ((ChaCha.word g.key g.drawn).toNat, { g with drawn := g.drawn + 1 })

/-- Draws two words, the low one first. -/
def draw64 (g : Generator) : Nat × Generator :=
  ((ChaCha.word g.key g.drawn).toNat + UInt32.size * (ChaCha.word g.key (g.drawn + 1)).toNat,
    { g with drawn := g.drawn + 2 })

/-- The largest low part that is accepted when numbers of so many bits are scaled down to `r`
values. -/
def zone (bits r : Nat) : Nat := r <<< (bits - 1 - r.log2) - 1

/-- A number below `r`, scaled down from a drawn number of so many bits. A number whose low part
lies outside the zone is drawn again, unless no tries are left. -/
def below (draw : Generator → Nat × Generator) (bits r : Nat) : Nat → Generator → Nat × Generator
  | 0, g =>
    let (v, g) := draw g
    (v * r / Nat.pow 2 bits, g)
  | tries + 1, g =>
    let (v, g) := draw g
    if v * r % Nat.pow 2 bits ≤ zone bits r then (v * r / Nat.pow 2 bits, g)
    else below draw bits r tries g

/-- More tries than any stream needs: each fails with a chance below one half. -/
def enoughTries : Nat := 1000

def index (n : Nat) (g : Generator) : Nat × Generator := below draw32 32 n enoughTries g

/-- A throw of a die with so many sides. -/
def die (sides : Nat) (g : Generator) : Nat × Generator :=
  let (v, g) := below draw64 64 sides enoughTries g
  (v + 1, g)

end Generator
end Chatline
