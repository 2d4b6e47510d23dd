import Chatline.Grammar.Match
import Chatline.Proofs.Args

/-! Grammars as trees: induction on a place, the slots of a group, and the names below a place. -/
namespace Chatline

namespace Node

/-- Induction on a place, with the statement at hand for every child of a group. -/
@[elab_as_elim]
theorem induct {P : Node → Prop} (leaf : ∀ l, P (.leaf l))
    (group : ∀ shape children, (∀ c ∈ children, P c) → P (.group shape children)) : ∀ n, P n
  | .leaf l => leaf l
  | .group shape children => group shape children fun c _ => induct leaf group c

/-- The slot of a child in its group's frame. -/
def slot (n : Node) : Slot := { node := n, attempt := fun ts => n.attempt ts }

theorem slotsOf_eq_map (children : List Node) : slotsOf children = children.map slot := by
  induction children with
  | nil => rfl
  | cons c cs ih =>
    rw [slotsOf, ih]
    rfl

theorem mem_leavesOf {children : List Node} {l : Leaf} :
    l ∈ leavesOf children ↔ ∃ c ∈ children, l ∈ c.leaves := by
  induction children with
  | nil => simp [leavesOf]
  | cons c cs ih => simp [leavesOf, ih]

/-- The names under which the leaves of a place record readings. -/
def names (n : Node) : List String := n.leaves.map Leaf.name

theorem names_group_subset {shape : Shape} {children : List Node} {c : Node} (hc : c ∈ children) :
    c.names ⊆ (Node.group shape children).names := by
  intro name hname
  obtain ⟨l, hl, rfl⟩ := List.mem_map.1 hname
  exact List.mem_map.2 ⟨l, mem_leavesOf.2 ⟨c, hc, hl⟩, rfl⟩

end Node

namespace Group

@[simp] theorem frame_shape (g : Group) : g.frame.shape = g.shape := rfl

@[simp] theorem frame_seed (g : Group) : g.frame.seed = g.seed := rfl

theorem frame_slots (g : Group) : g.frame.slots = g.children.map Node.slot :=
  Node.slotsOf_eq_map g.children

theorem mem_frame_slots {g : Group} {slot : Slot} :
    slot ∈ g.frame.slots ↔ ∃ c ∈ g.children, c.slot = slot := by
  rw [frame_slots, List.mem_map]

theorem map_node_frame_slots (g : Group) : g.frame.slots.map Slot.node = g.children := by
  rw [frame_slots, List.map_map]
  exact List.map_id g.children

/-- A nested group answers as it does when it is a root. -/
theorem attempt_toNode (g : Group) (ts : List String) : g.toNode.attempt ts = g.matchPrefix ts := by
  rw [toNode, Node.attempt]
  rfl

theorem frame_slots_ne_nil {g : Group} (h : g.children ≠ []) : g.frame.slots ≠ [] := by
  rw [frame_slots]
  simpa using h

theorem matchPrefix_of_children_eq_nil {g : Group} (h : g.children = []) (ts : List String) :
    g.matchPrefix ts = .matched { args := g.seed, consumed := 0 } := by
  have hslots : g.frame.slots = [] := by rw [frame_slots, h, List.map_nil]
  unfold matchPrefix Frame.scan
  rw [hslots, List.isEmpty_nil, if_pos rfl]
  rfl

theorem matchPrefix_of_children_ne_nil {g : Group} (h : g.children ≠ []) (ts : List String) :
    g.matchPrefix ts = Scan.run g.frame ts (Scan.start g.frame) := by
  unfold matchPrefix Frame.scan
  rw [if_neg (by simpa using frame_slots_ne_nil h)]

theorem mem_leafNames {g : Group} {name : String} : name ∈ g.leafNames ↔ name ∈ g.toNode.names :=
  List.mem_eraseDups

theorem seed_eq_ofNames (g : Group) : g.seed = Args.ofNames g.toNode.names := by
  apply Args.ext_readings
  · intro k
    simp [seed, mem_leafNames]
  · simp [seed]

theorem contains_seed_of_mem {g : Group} {c : Node} (hc : c ∈ g.children) :
    ∀ name ∈ c.names, g.seed.contains name := by
  intro name hname
  have hmem : name ∈ g.toNode.names := Node.names_group_subset hc hname
  simpa [seed_eq_ofNames] using hmem

end Group
end Chatline
