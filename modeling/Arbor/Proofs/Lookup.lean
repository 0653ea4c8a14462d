import Mathlib.Data.List.Basic
import Arbor.Tree.ListView

/-!
# Looking into a changed tree

A tree is seen through four look-ups: the node at a number, its parent, its children and its slots.
Each change to a tree gets one equation for each look-up. Taking a node away from its owner is seen
by all nodes alike: every slot loses the node, and only the owner had it.
-/

namespace Arbor

/-! ## Slots -/

namespace Slot

theorem mem_nodes_of_child? {c : NodeId} {s : Slot} (h : s.child? = some c) : c ∈ s.nodes := by
  cases s with
  | child held =>
    cases h
    exact List.mem_singleton.2 rfl
  | _ => cases h

theorem mem_nodes_of_childList {c : NodeId} {s : Slot} (h : c ∈ s.childList) : c ∈ s.nodes := by
  cases s with
  | children held => exact h
  | _ => cases h

theorem nodes_without (c : NodeId) (s : Slot) : (s.without c).nodes = s.nodes.filter (· ≠ c) := by
  cases s with
  | child held =>
    cases held with
    | none => simp [without, nodes]
    | some x => by_cases h : x = c <;> simp [without, nodes, h]
  | children held => rfl
  | data held => rfl
  | values held => rfl

theorem without_of_not_mem {c : NodeId} {s : Slot} (h : c ∉ s.nodes) : s.without c = s := by
  cases s with
  | child held =>
    cases held with
    | none => simp [without]
    | some x =>
      have hne : x ≠ c := by simpa [nodes, eq_comm] using h
      simp [without, hne]
  | children held =>
    simp only [without, nodes] at h ⊢
    rw [List.filter_eq_self.2]
    intro x hx
    simpa using fun he : x = c => h (he ▸ hx)
  | data held => rfl
  | values held => rfl

/-- The slot after all nodes `cs` have been taken out of it. -/
def withoutAll (cs : List NodeId) (s : Slot) : Slot :=
  cs.foldl (fun s c => s.without c) s

theorem map_withoutAll_nil (s? : Option Slot) : s?.map (withoutAll []) = s? :=
  Option.map_id'

theorem withoutAll_append (cs ds : List NodeId) (s : Slot) :
    s.withoutAll (cs ++ ds) = (s.withoutAll cs).withoutAll ds :=
  List.foldl_append

theorem withoutAll_of_not_mem {cs : List NodeId} {s : Slot} (h : ∀ c ∈ cs, c ∉ s.nodes) :
    s.withoutAll cs = s := by
  induction cs with
  | nil => rfl
  | cons c cs ih =>
    rw [withoutAll, List.foldl_cons, without_of_not_mem (h c List.mem_cons_self)]
    exact ih fun x hx => h x (List.mem_cons_of_mem _ hx)

theorem nodes_withoutAll (cs : List NodeId) (s : Slot) :
    (s.withoutAll cs).nodes = s.nodes.filter (· ∉ cs) := by
  induction cs generalizing s with
  | nil => simp [withoutAll]
  | cons c cs ih =>
    rw [withoutAll, List.foldl_cons, ← withoutAll, ih, nodes_without, List.filter_filter]
    exact List.filter_congr fun x _ => by simp [Bool.and_comm]

end Slot

theorem Node.mem_children {n : Node} {c : NodeId} :
    c ∈ n.children ↔ ∃ (i : Nat) (s : Slot), n.slots[i]? = some s ∧ c ∈ s.nodes := by
  unfold children
  rw [List.mem_flatMap]
  constructor
  · rintro ⟨s, hs, hc⟩
    obtain ⟨i, hi⟩ := List.mem_iff_getElem?.1 hs
    exact ⟨i, s, hi, hc⟩
  · rintro ⟨i, s, hi, hc⟩
    exact ⟨s, List.mem_of_getElem? hi, hc⟩

/-- Replacing a slot by one that holds `c` as well adds `c` to the children. -/
theorem flatMap_nodes_set {l : List Slot} {i : Nat} {old new : Slot} {c : NodeId}
    (hi : l[i]? = some old) (hp : new.nodes.Perm (c :: old.nodes)) :
    ((l.set i new).flatMap Slot.nodes).Perm (c :: l.flatMap Slot.nodes) := by
  induction l generalizing i with
  | nil => simp at hi
  | cons s l ih =>
    cases i with
    | zero =>
      obtain rfl : s = old := by simpa using hi
      simpa using hp.append_right (l.flatMap Slot.nodes)
    | succ i =>
      have ih := ih (by simpa using hi)
      simp only [List.set_cons_succ, List.flatMap_cons]
      exact (ih.append_left s.nodes).trans List.perm_middle

theorem flatMap_nodes_set_eq {l : List Slot} {i : Nat} {old new : Slot}
    (hi : l[i]? = some old) (h : new.nodes = old.nodes) :
    (l.set i new).flatMap Slot.nodes = l.flatMap Slot.nodes := by
  induction l generalizing i with
  | nil => rfl
  | cons s l ih =>
    cases i with
    | zero =>
      obtain rfl : s = old := by simpa using hi
      simp [h]
    | succ i => simp [ih (by simpa using hi)]

namespace Tree

variable {σ : Signature} {t : Tree σ}

/-! ## The look-ups -/

theorem lt_size_of_node? {id : NodeId} {n : Node} (h : t.node? id = some n) : id < t.size :=
  (Array.getElem?_eq_some_iff.1 h).1

theorem ext_node? {t' : Tree σ} (h : ∀ id, t.node? id = t'.node? id) : t = t' := by
  obtain ⟨nodes⟩ := t
  obtain ⟨nodes'⟩ := t'
  exact congrArg Tree.mk (Array.ext_getElem? h)

theorem exists_node? {id : NodeId} (h : id < t.size) : ∃ n, t.node? id = some n :=
  ⟨t.nodes[id], Array.getElem?_eq_getElem h⟩

theorem parent?_of_node? {id : NodeId} {n : Node} (h : t.node? id = some n) :
    t.parent? id = n.parent := by
  simp [parent?, h]

theorem childNodes_of_node? {id : NodeId} {n : Node} (h : t.node? id = some n) :
    t.childNodes id = n.children := by
  simp [childNodes, h]

theorem slot?_of_node? {id : NodeId} {n : Node} (h : t.node? id = some n) (i : Nat) :
    t.slot? id i = n.slots[i]? := by
  simp [slot?, h]

theorem childNodes_eq_getD (id : NodeId) :
    t.childNodes id = ((t.node? id).map Node.children).getD [] := by
  unfold childNodes
  cases t.node? id <;> rfl

theorem slot?_eq_some {id : NodeId} {i : Nat} {s : Slot} :
    t.slot? id i = some s ↔ ∃ n, t.node? id = some n ∧ n.slots[i]? = some s := by
  simp [slot?, Option.bind_eq_some_iff]

theorem parent?_eq_some {c p : NodeId} :
    t.parent? c = some p ↔ ∃ n, t.node? c = some n ∧ n.parent = some p := by
  simp [parent?, Option.bind_eq_some_iff]

theorem mem_childNodes {p c : NodeId} :
    c ∈ t.childNodes p ↔ ∃ i s, t.slot? p i = some s ∧ c ∈ s.nodes := by
  cases h : t.node? p with
  | none => simp [childNodes, slot?, h]
  | some n => simp only [childNodes_of_node? h, Node.mem_children, slot?_of_node? h]

theorem lt_size_of_mem_childNodes {p c : NodeId} (h : c ∈ t.childNodes p) : p < t.size := by
  cases hn : t.node? p with
  | none => simp [childNodes, hn] at h
  | some n => exact lt_size_of_node? hn

theorem lt_size_of_parent? {c p : NodeId} (h : t.parent? c = some p) : c < t.size := by
  obtain ⟨n, hn, -⟩ := parent?_eq_some.1 h
  exact lt_size_of_node? hn

/-! ## Setting parents and slots -/

theorem node?_setParent (id x : NodeId) (parent : Option NodeId) :
    (t.setParent id parent).node? x =
      (t.node? x).map fun n => { n with parent := if x = id then parent else n.parent } := by
  unfold setParent
  rw [node?_update]
  by_cases h : x = id <;> simp [h, eq_comm (a := id)]

theorem parent?_setParent {id : NodeId} (hid : id < t.size) (x : NodeId) (parent : Option NodeId) :
    (t.setParent id parent).parent? x = if x = id then parent else t.parent? x := by
  unfold parent?
  rw [node?_setParent]
  by_cases hx : x = id
  · subst hx
    obtain ⟨n, hn⟩ := exists_node? hid
    simp [hn]
  · simp [hx]

theorem childNodes_setParent (id x : NodeId) (parent : Option NodeId) :
    (t.setParent id parent).childNodes x = t.childNodes x := by
  rw [childNodes_eq_getD, node?_setParent, childNodes_eq_getD]
  cases t.node? x <;> rfl

theorem slot?_setParent (id x : NodeId) (parent : Option NodeId) (i : Nat) :
    (t.setParent id parent).slot? x i = t.slot? x i := by
  unfold slot?
  rw [node?_setParent]
  cases t.node? x <;> rfl

theorem node?_setSlot (id x : NodeId) (i : Nat) (s : Slot) :
    (t.setSlot id i s).node? x =
      (t.node? x).map fun n => { n with slots := if id = x then n.slots.set i s else n.slots } := by
  unfold setSlot
  rw [node?_update]
  by_cases h : id = x <;> simp [h]

theorem parent?_setSlot (id x : NodeId) (i : Nat) (s : Slot) :
    (t.setSlot id i s).parent? x = t.parent? x := by
  unfold parent?
  rw [node?_setSlot]
  cases t.node? x <;> rfl

theorem childNodes_setSlot_of_ne {id x : NodeId} (h : id ≠ x) (i : Nat) (s : Slot) :
    (t.setSlot id i s).childNodes x = t.childNodes x := by
  simp [childNodes_eq_getD, node?_setSlot, h]

theorem childNodes_setSlot_of_nodes_eq {id : NodeId} {i : Nat} {old new : Slot}
    (hs : t.slot? id i = some old) (hnodes : new.nodes = old.nodes) (x : NodeId) :
    (t.setSlot id i new).childNodes x = t.childNodes x := by
  by_cases hx : id = x
  · subst hx
    obtain ⟨n, hn, hs⟩ := slot?_eq_some.1 hs
    rw [childNodes_eq_getD, node?_setSlot, childNodes_of_node? hn, hn]
    simpa [Node.children] using flatMap_nodes_set_eq hs hnodes
  · exact childNodes_setSlot_of_ne hx i new

theorem perm_childNodes_setSlot {id c : NodeId} {i : Nat} {old new : Slot}
    (hs : t.slot? id i = some old) (hnodes : new.nodes.Perm (c :: old.nodes)) :
    ((t.setSlot id i new).childNodes id).Perm (c :: t.childNodes id) := by
  obtain ⟨n, hn, hs⟩ := slot?_eq_some.1 hs
  rw [childNodes_eq_getD, node?_setSlot, childNodes_of_node? hn, hn]
  simpa [Node.children] using flatMap_nodes_set hs hnodes

theorem slot?_setSlot (id x : NodeId) (i j : Nat) (s : Slot) :
    (t.setSlot id i s).slot? x j =
      (t.slot? x j).map fun old => if id = x ∧ i = j then s else old := by
  unfold slot?
  rw [node?_setSlot]
  cases t.node? x with
  | none => rfl
  | some n =>
    simp only [Option.map_some, Option.bind_some]
    by_cases hx : id = x
    · by_cases hj : i = j
      · subst hj
        simp only [hx, ↓reduceIte, and_self]
        rcases Nat.lt_or_ge i n.slots.length with hlt | hge
        · simp [hlt]
        · simp [hge]
      · simp [hx, hj, List.getElem?_set_ne hj]
    · simp [hx]

/-- Storing what a slot holds changes nothing. -/
theorem setSlot_of_slot? {id : NodeId} {i : Nat} {s : Slot} (h : t.slot? id i = some s) :
    t.setSlot id i s = t := by
  obtain ⟨n, hn, hs⟩ := slot?_eq_some.1 h
  obtain ⟨hi, rfl⟩ := List.getElem?_eq_some_iff.1 hs
  refine ext_node? fun x => ?_
  rw [node?_setSlot]
  by_cases hx : id = x
  · subst hx
    simp [hn]
  · simp [hx]

/-! ## Taking a node away -/

/-- Only the parent of `c` holds `c`. -/
def OwnedOnly (t : Tree σ) (c : NodeId) : Prop :=
  ∀ p, c ∈ t.childNodes p → t.parent? c = some p

theorem map_without_of_ne_parent {c x : NodeId} {n : Node} (ho : t.OwnedOnly c)
    (hn : t.node? x = some n) (hx : t.parent? c ≠ some x) :
    n.slots.map (Slot.without c) = n.slots := by
  have hfix : ∀ s ∈ n.slots, s.without c = id s := by
    refine fun s hs => Slot.without_of_not_mem fun hc => hx (ho x ?_)
    rw [childNodes_of_node? hn]
    exact List.mem_flatMap.2 ⟨s, hs, hc⟩
  rw [List.map_congr_left hfix, List.map_id]

/-- Taking out a node that only its parent holds takes it out of every slot. -/
theorem node?_detach {c : NodeId} (ho : t.OwnedOnly c) (x : NodeId) :
    (t.detach c).node? x =
      (t.node? x).map fun n =>
        { n with
          parent := if x = c then none else n.parent
          slots := n.slots.map (Slot.without c) } := by
  unfold detach
  cases hp : t.parent? c with
  | none =>
    cases hn : t.node? x with
    | none => rfl
    | some n =>
      have hslots := map_without_of_ne_parent ho hn (by simp [hp])
      by_cases hx : x = c
      · subst hx
        have hparent : n.parent = none := by rw [← parent?_of_node? hn, hp]
        simp [hslots, ← hparent]
      · simp [hslots, hx]
  | some p =>
    simp only [node?_setParent, node?_update]
    cases hn : t.node? x with
    | none => simp
    | some n =>
      by_cases hpx : p = x
      · by_cases hx : x = c <;> simp [hpx, hx]
      · have hslots := map_without_of_ne_parent ho hn (by simp [hp, hpx])
        by_cases hx : x = c <;> simp [hpx, hx, hslots]

theorem node?_adopt {c : NodeId} (ho : t.OwnedOnly c) (p x : NodeId) :
    (t.adopt p c).node? x =
      (t.node? x).map fun n =>
        { n with
          parent := if x = c then some p else n.parent
          slots := n.slots.map (Slot.without c) } := by
  unfold adopt
  rw [node?_setParent, node?_detach ho, Option.map_map]
  congr 1
  funext n
  by_cases hx : x = c <;> simp [hx]

theorem parent?_detach {c : NodeId} (ho : t.OwnedOnly c) (x : NodeId) :
    (t.detach c).parent? x = if x = c then none else t.parent? x := by
  unfold parent?
  rw [node?_detach ho]
  by_cases hx : x = c <;> cases t.node? x <;> simp [hx]

theorem childNodes_detach {c : NodeId} (ho : t.OwnedOnly c) (x : NodeId) :
    (t.detach c).childNodes x = (t.childNodes x).filter (· ≠ c) := by
  rw [childNodes_eq_getD, node?_detach ho, childNodes_eq_getD]
  cases t.node? x with
  | none => rfl
  | some n => simp [Node.children, List.flatMap_map, List.filter_flatMap, Slot.nodes_without]

theorem slot?_detach {c : NodeId} (ho : t.OwnedOnly c) (x : NodeId) (i : Nat) :
    (t.detach c).slot? x i = (t.slot? x i).map (Slot.without c) := by
  unfold slot?
  rw [node?_detach ho]
  cases t.node? x <;> simp

theorem slot?_adopt {c : NodeId} (ho : t.OwnedOnly c) (p x : NodeId) (i : Nat) :
    (t.adopt p c).slot? x i = (t.slot? x i).map (Slot.without c) := by
  unfold slot?
  rw [node?_adopt ho]
  cases t.node? x <;> simp

end Tree

end Arbor
