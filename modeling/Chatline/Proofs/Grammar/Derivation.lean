import Chatline.Proofs.Grammar.Tree

/-! The grammar that a group declares, as a relation between tokens and the readings they yield.
Nothing here looks at priorities or at the order in which a scan tries things. -/
namespace Chatline

/-- A child may be missing from a pass through a group of this shape. -/
def Shape.MayLack (shape : Shape) (child : Node) : Prop :=
  shape.sparse = true ∨ child.isOptional = true ∨
    ∃ s cs, child = .group s cs ∧ s.minPasses = 0

theorem Shape.mayVanish_iff {shape : Shape} : shape.mayVanish = true ↔ shape.minPasses = 0 := by
  unfold mayVanish minPasses
  cases shape.repetition <;> simp

theorem Shape.skips_eq_true_iff {shape : Shape} {child : Node} :
    shape.skips child = true ↔ shape.MayLack child := by
  unfold skips MayLack
  cases child with
  | leaf l => simp [Node.mayBeAbsent, Node.isOptional]
  | group s cs => simp [Node.mayBeAbsent, Node.isOptional, mayVanish_iff]

theorem Leaf.literal_of_isGreedy {l : Leaf} (h : l.isGreedy = true) : l.literal = false := by
  simpa using (Bool.and_eq_true_iff.1 h).1

namespace Node

mutual

/-- The tokens that a place may take, and what they yield there. -/
inductive Derives : Node → List String → Yield → Prop
  | literal {l : Leaf} (hl : l.literal = true) : Derives (.leaf l) [l.name] []
  | token {l : Leaf} {t : String} {r : Reading} (hl : l.literal = false)
      (hr : l.read t = .matched r) : Derives (.leaf l) [t] [(l.name, r)]
  | span {l : Leaf} {ts : List String} {r : Reading} (hl : l.isGreedy = true) (hne : ts ≠ [])
      (hr : l.read (Text.spaced ts) = .matched r) : Derives (.leaf l) ts [(l.name, r)]
  | nothing {shape : Shape} : Derives (.group shape []) [] []
  | group {shape : Shape} {children : List Node} {p : Nat} {ts : List String} {ys : Yield}
      (hne : children ≠ []) (hmin : shape.minPasses ≤ p) (hmax : p ≤ shape.maxPasses)
      (h : Passes shape children p ts ys) : Derives (.group shape children) ts ys

/-- So many passes in a row, each with the children in an order that the shape allows. -/
inductive Passes : Shape → List Node → Nat → List String → Yield → Prop
  | none {shape : Shape} {children : List Node} : Passes shape children 0 [] []
  | next {shape : Shape} {children order : List Node} {p : Nat} {ts us : List String}
      {ys zs : Yield} (before : Passes shape children p ts ys) (perm : order.Perm children)
      (declared : shape.flexible = false → order = children) (pass : Visits shape order us zs) :
      Passes shape children (p + 1) (ts ++ us) (ys ++ zs)

/-- One visit to each of the places, in turn. -/
inductive Visits : Shape → List Node → List String → Yield → Prop
  | none {shape : Shape} : Visits shape [] [] []
  | absent {shape : Shape} {child : Node} {later : List Node} {ts : List String} {ys : Yield}
      (h : shape.MayLack child) (rest : Visits shape later ts ys) :
      Visits shape (child :: later) ts ys
  | present {shape : Shape} {child : Node} {later : List Node} {us ts : List String}
      {zs ys : Yield} (h : Derives child us zs) (rest : Visits shape later ts ys) :
      Visits shape (child :: later) (us ++ ts) (zs ++ ys)

end

theorem Visits.append {shape : Shape} {cs ds : List Node} {us ts : List String} {zs ys : Yield}
    (hc : Visits shape cs us zs) (hd : Visits shape ds ts ys) :
    Visits shape (cs ++ ds) (us ++ ts) (zs ++ ys) := by
  induction cs generalizing us zs with
  | nil =>
    cases hc
    exact hd
  | cons c cs ih =>
    cases hc with
    | absent h rest => exact .absent h (ih rest)
    | present h rest =>
      rw [List.append_assoc, List.append_assoc]
      exact .present h (ih rest)

mutual

/-- A place yields readings under the names of its leaves only. -/
theorem Derives.name_mem {n : Node} {ts : List String} {ys : Yield} :
    n.Derives ts ys → ∀ y ∈ ys, y.1 ∈ n.names
  | .literal hl => by simp
  | .token hl hr => by simp [names, leaves, hl]
  | .span hl hne hr => by simp [names, leaves, Leaf.literal_of_isGreedy hl]
  | .nothing => by simp
  | .group hne hmin hmax hp => hp.name_mem

theorem Passes.name_mem {shape : Shape} {children : List Node} {p : Nat} {ts : List String}
    {ys : Yield} : Passes shape children p ts ys →
      ∀ y ∈ ys, y.1 ∈ (Node.group shape children).names
  | .none => by simp
  | .next before perm declared pass => by
    intro y hy
    rcases List.mem_append.1 hy with hy | hy
    · exact before.name_mem y hy
    · obtain ⟨c, hc, hname⟩ := pass.name_mem y hy
      exact names_group_subset (perm.mem_iff.1 hc) hname

theorem Visits.name_mem {shape : Shape} {cs : List Node} {ts : List String} {ys : Yield} :
    Visits shape cs ts ys → ∀ y ∈ ys, ∃ c ∈ cs, y.1 ∈ c.names
  | .none => by simp
  | .absent h rest => by
    intro y hy
    obtain ⟨c, hc, hname⟩ := rest.name_mem y hy
    exact ⟨c, List.mem_cons_of_mem _ hc, hname⟩
  | .present h rest => by
    intro y hy
    rcases List.mem_append.1 hy with hy | hy
    · exact ⟨_, List.mem_cons_self, h.name_mem y hy⟩
    · obtain ⟨c, hc, hname⟩ := rest.name_mem y hy
      exact ⟨c, List.mem_cons_of_mem _ hc, hname⟩

end

end Node
end Chatline
