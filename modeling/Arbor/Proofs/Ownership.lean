import Mathlib.Data.List.Nodup
import Arbor.Proofs.Ancestors
import Arbor.Proofs.Conformity

/-!
# Ownership

A tree is a forest when slots and parents agree: a node is held by its parent and by no other node,
it is held once, and parents never lead back to where they started. Two changes carry all others.
Taking a node out keeps a forest, whatever the node. Putting a root into a slot keeps a forest
unless the slot's node is the root or below it.
-/

namespace Arbor

open Relation

/-- Slots and parents agree, no node is held twice, and no node is below itself. -/
structure Tree.Forest {σ : Signature} (t : Tree σ) : Prop where
  owned : ∀ p c, c ∈ t.childNodes p ↔ t.parent? c = some p
  once : ∀ p, (t.childNodes p).Nodup
  acyclic : t.Acyclic

namespace Tree

variable {σ : Signature} {t t' : Tree σ}

theorem nodup_of_slot? {p : NodeId} (h : (t.childNodes p).Nodup) {i : Nat} {s : Slot}
    (hs : t.slot? p i = some s) : s.nodes.Nodup := by
  obtain ⟨n, hn, hs⟩ := slot?_eq_some.1 hs
  rw [childNodes_of_node? hn, Node.children, List.nodup_flatMap] at h
  exact h.1 s (List.mem_of_getElem? hs)

namespace Forest

theorem ownedOnly (h : t.Forest) (c : NodeId) : t.OwnedOnly c :=
  fun p => (h.owned p c).1

theorem lt_size (h : t.Forest) {p c : NodeId} (hc : c ∈ t.childNodes p) : c < t.size :=
  lt_size_of_parent? ((h.owned p c).1 hc)

theorem parentsExist (h : t.Forest) : t.ParentsExist :=
  fun c p hc => lt_size_of_mem_childNodes ((h.owned p c).2 hc)

theorem mem_ancestors (h : t.Forest) {x a : NodeId} : a ∈ t.ancestors x ↔ t.Below x a :=
  h.acyclic.mem_ancestors_iff h.parentsExist

theorem length_ancestors_lt (h : t.Forest) {x : NodeId} (hx : x < t.size) :
    (t.ancestors x).length < t.size :=
  h.acyclic.length_climb_lt h.parentsExist t.size hx

/-- Children have one more ancestor than their parent. -/
theorem length_ancestors_child (h : t.Forest) {c p : NodeId} (hc : t.ChildOf c p) :
    (t.ancestors c).length = (t.ancestors p).length + 1 := by
  rw [h.acyclic.ancestors_of_childOf h.parentsExist hc, List.length_cons]

theorem nodup_slot (h : t.Forest) {p : NodeId} {i : Nat} {s : Slot} (hs : t.slot? p i = some s) :
    s.nodes.Nodup :=
  nodup_of_slot? (h.once p) hs

/-- A node has one place in the tree. -/
theorem eq_place (h : t.Forest) {x y c : NodeId} {i j : Nat} {s s' : Slot}
    (hs : t.slot? x i = some s) (hc : c ∈ s.nodes) (hs' : t.slot? y j = some s')
    (hc' : c ∈ s'.nodes) : x = y ∧ i = j := by
  have hx : t.parent? c = some x := (h.owned x c).1 (mem_childNodes.2 ⟨i, s, hs, hc⟩)
  have hy : t.parent? c = some y := (h.owned y c).1 (mem_childNodes.2 ⟨j, s', hs', hc'⟩)
  obtain rfl : x = y := Option.some.inj (hx.symm.trans hy)
  obtain ⟨n, hn, hi⟩ := slot?_eq_some.1 hs
  rw [slot?_of_node? hn] at hs'
  obtain ⟨hilt, rfl⟩ := List.getElem?_eq_some_iff.1 hi
  obtain ⟨hjlt, rfl⟩ := List.getElem?_eq_some_iff.1 hs'
  have hnd := h.once x
  rw [childNodes_of_node? hn, Node.children, List.nodup_flatMap] at hnd
  have hdisj := List.pairwise_iff_getElem.1 hnd.2
  rcases Nat.lt_trichotomy i j with hij | hij | hij
  · exact absurd hc' (fun hc' => hdisj i j hilt hjlt hij hc hc')
  · exact ⟨rfl, hij⟩
  · exact absurd hc (fun hc => hdisj j i hjlt hilt hij hc' hc)

end Forest

/-! ## Taking nodes out -/

theorem below_of_below_detach {c x y : NodeId} (ho : t.OwnedOnly c) (h : (t.detach c).Below x y) :
    t.Below x y := by
  refine TransGen.mono ?_ x y h
  intro a b hab
  rw [ChildOf, parent?_detach ho] at hab
  split at hab
  · cases hab
  · exact hab

theorem Forest.detach (h : t.Forest) (c : NodeId) : (t.detach c).Forest := by
  have ho := h.ownedOnly c
  refine ⟨fun p x => ?_, fun p => ?_, fun x hx => h.acyclic x (below_of_below_detach ho hx)⟩
  · rw [childNodes_detach ho, parent?_detach ho, List.mem_filter, h.owned]
    by_cases hx : x = c <;> simp [hx]
  · rw [childNodes_detach ho]
    exact (h.once p).filter _

theorem Forest.foldl_detach (h : t.Forest) (cs : List NodeId) :
    (cs.foldl Tree.detach t).Forest := by
  induction cs generalizing t with
  | nil => exact h
  | cons c cs ih => exact ih (h.detach c)

/-- A single slot is empty once what it held is released. -/
theorem Forest.release (h : t.Forest) {id : NodeId} {i : Nat} {held : Option NodeId}
    (hs : t.slot? id i = some (.child held)) :
    (t.release id i).Forest ∧ (t.release id i).slot? id i = some (.child none) ∧
      ∀ x y, (t.release id i).Below x y → t.Below x y := by
  unfold Tree.release
  rw [hs]
  cases held with
  | none => exact ⟨h, hs, fun _ _ hxy => hxy⟩
  | some old =>
    refine ⟨h.detach old, ?_, fun x y => below_of_below_detach (h.ownedOnly old)⟩
    rw [Option.bind_some, Slot.child?, slot?_detach (h.ownedOnly old), hs]
    simp [Slot.without]

/-- Releasing a slot changes no other slot. -/
theorem Forest.slot?_release (h : t.Forest) {id : NodeId} {i : Nat} {held : Option NodeId}
    (hs : t.slot? id i = some (.child held)) (x : NodeId) (j : Nat) :
    (t.release id i).slot? x j =
      (t.slot? x j).map fun s => if id = x ∧ i = j then .child none else s := by
  by_cases hplace : id = x ∧ i = j
  · obtain ⟨rfl, rfl⟩ := hplace
    rw [(h.release hs).2.1, hs]
    simp
  · have hother : ∀ c, held = some c → ∀ s, t.slot? x j = some s → s.without c = s := by
      rintro c rfl s hx
      refine Slot.without_of_not_mem fun hc => hplace ?_
      exact h.eq_place hs (by simp [Slot.nodes]) hx hc
    unfold Tree.release
    rw [hs, Option.bind_some, Slot.child?]
    cases held with
    | none => simp [hplace]
    | some c =>
      simp only [hplace, ↓reduceIte]
      rw [slot?_detach (h.ownedOnly c)]
      exact Option.map_congr fun s hx => hother c rfl s hx

/-! ## Putting nodes in -/

/-- Storing other contents with the same nodes keeps a forest. -/
theorem Forest.setSlot (h : t.Forest) {id : NodeId} {i : Nat} {old new : Slot}
    (hs : t.slot? id i = some old) (hnodes : new.nodes = old.nodes) :
    (t.setSlot id i new).Forest := by
  refine ⟨fun p c => ?_, fun p => ?_, fun x hx => h.acyclic x (TransGen.mono ?_ x x hx)⟩
  · rw [childNodes_setSlot_of_nodes_eq hs hnodes, parent?_setSlot, h.owned]
  · rw [childNodes_setSlot_of_nodes_eq hs hnodes]
    exact h.once p
  · intro a b hab
    rwa [ChildOf, parent?_setSlot] at hab

/-- Storing a root in a slot of another node keeps a forest, unless the node is below the root. -/
theorem Forest.attach (h : t.Forest) {p c : NodeId} (hroot : t.parent? c = none) (hlt : c < t.size)
    (hne : c ≠ p) (hbelow : ¬ t.Below p c) {i : Nat} {old new : Slot}
    (hs : t.slot? p i = some old) (hnodes : new.nodes.Perm (c :: old.nodes)) :
    ((t.setParent c (some p)).setSlot p i new).Forest := by
  have hfree : ∀ x, c ∉ t.childNodes x := fun x hx => by
    rw [h.owned, hroot] at hx
    cases hx
  have hself : (((t.setParent c (some p)).setSlot p i new).childNodes p).Perm
      (c :: t.childNodes p) := by
    have hs : (t.setParent c (some p)).slot? p i = some old := by rwa [slot?_setParent]
    have hperm := perm_childNodes_setSlot hs hnodes
    rwa [childNodes_setParent] at hperm
  refine ⟨fun x y => ?_, fun x => ?_, ?_⟩
  · rw [parent?_setSlot, parent?_setParent hlt]
    by_cases hx : p = x
    · subst hx
      rw [hself.mem_iff, List.mem_cons, h.owned]
      by_cases hy : y = c <;> simp [hy]
    · rw [childNodes_setSlot_of_ne hx, childNodes_setParent]
      by_cases hy : y = c
      · simp [hy, hfree, hx]
      · simp [hy, h.owned]
  · by_cases hx : p = x
    · subst hx
      exact hself.nodup_iff.2 (List.nodup_cons.2 ⟨hfree p, h.once p⟩)
    · rw [childNodes_setSlot_of_ne hx, childNodes_setParent]
      exact h.once x
  · -- The edge from `c` to `p` is the only new one.
    refine acyclic_of_edge (c := c) (p := p) (fun a b hab => ?_) h.acyclic fun hpc => ?_
    · rw [ChildOf, parent?_setSlot, parent?_setParent hlt] at hab
      split at hab
      · next ha => exact .inr ⟨ha, (Option.some.inj hab).symm⟩
      · exact .inl hab
    · rcases reflTransGen_iff_eq_or_transGen.1 hpc with hpc | hpc
      · exact hne hpc
      · exact hbelow hpc

/-- Moving a node into a slot keeps a forest, unless the slot's node is the moved node or below
it. -/
theorem Forest.move (h : t.Forest) {p c : NodeId} (hlt : c < t.size) (hne : c ≠ p)
    (hbelow : ¬ t.Below p c) {i : Nat} {old new : Slot} (hs : t.slot? p i = some old)
    (hnodes : new.nodes.Perm (c :: (old.without c).nodes)) :
    ((t.adopt p c).setSlot p i new).Forest := by
  have ho := h.ownedOnly c
  have hroot : (t.detach c).parent? c = none := by rw [parent?_detach ho, if_pos rfl]
  have hs : (t.detach c).slot? p i = some (old.without c) := by
    rw [slot?_detach ho, hs, Option.map_some]
  have hbelow : ¬ (t.detach c).Below p c := fun hpc => hbelow (below_of_below_detach ho hpc)
  exact (h.detach c).attach hroot (by simpa using hlt) hne hbelow hs hnodes

theorem Forest.putChild (h : t.Forest) {id : NodeId} {p : Place} {held c : Option NodeId}
    (hs : t.slot? id p.index = some (.child held)) (hc : t.checkChild p id c = .ok ()) :
    (t.putChild id p.index c).Forest := by
  obtain ⟨hforest, hempty, hbelow⟩ := h.release hs
  cases c with
  | none => exact hforest.setSlot hempty rfl
  | some c =>
    obtain ⟨⟨n, hn, -⟩, hne, hancestor⟩ := checkAttachable_eq_ok.1 hc
    refine hforest.move (by simpa using lt_size_of_node? hn) hne (fun hpc => ?_) hempty ?_
    · exact hancestor (h.mem_ancestors.2 (hbelow id c hpc))
    · simp [Slot.without, Slot.nodes]

/-- Storing a child fills its place and takes the child out of all other slots. -/
theorem Forest.slot?_putChild (h : t.Forest) {id : NodeId} {i : Nat} {held : Option NodeId}
    (hs : t.slot? id i = some (.child held)) (c x : NodeId) (j : Nat) :
    (t.putChild id i (some c)).slot? x j =
      (t.slot? x j).map fun s => if id = x ∧ i = j then .child (some c) else s.without c := by
  have hforest := (h.release hs).1
  rw [Tree.putChild, slot?_setSlot, slot?_adopt (hforest.ownedOnly c), h.slot?_release hs,
    Option.map_map, Option.map_map]
  refine Option.map_congr fun s _ => ?_
  by_cases hplace : id = x ∧ i = j <;> simp [hplace]

end Tree

/-! ## Lists -/

namespace ListView

variable {σ : Signature} {t : Tree σ} {v : ListView}

theorem lengthWithout_of_nodup {held : List NodeId} (hs : v.slot? t = some (.children held))
    (hnd : held.Nodup) (c : NodeId) : v.lengthWithout t c = (held.filter (· ≠ c)).length := by
  have herase : held.filter (· ≠ c) = held.erase c := by
    rw [hnd.erase_eq_filter]
    exact List.filter_congr fun x _ => by simp [bne, BEq.beq]
  rw [lengthWithout, length, contents_of_slot? hs, values_of_slot? hs, herase, List.length_erase]
  by_cases hc : c ∈ held <;> simp [Slot.childList, Slot.dataList, hc]

/-- A list of a forest holds a node once at most. -/
theorem lengthWithout_eq (h : t.Forest) {held : List NodeId}
    (hs : v.slot? t = some (.children held)) (c : NodeId) :
    v.lengthWithout t c = (held.filter (· ≠ c)).length :=
  lengthWithout_of_nodup hs (h.nodup_slot hs) c

theorem slot?_adopt (h : t.Forest) {held : List NodeId} (hs : v.slot? t = some (.children held))
    (p c : NodeId) : v.slot? (t.adopt p c) = some (.children (held.filter (· ≠ c))) := by
  unfold slot? at hs ⊢
  rw [Tree.slot?_adopt (h.ownedOnly c), hs]
  rfl

theorem putAt_eq (h : t.Forest) {held : List NodeId} (hs : v.slot? t = some (.children held))
    (index : Nat) (c : NodeId) :
    v.putAt t index c = (t.adopt v.binding.target c).setSlot v.binding.target v.place.index
      (.children ((held.filter (· ≠ c)).insertIdx index c)) := by
  have hcontents := contents_of_slot? (slot?_adopt h hs v.binding.target c)
  rw [Slot.childList] at hcontents
  rw [← hcontents]
  rfl

theorem slot?_putAt (h : t.Forest) {held : List NodeId} (hs : v.slot? t = some (.children held))
    (index : Nat) (c x : NodeId) (j : Nat) :
    (v.putAt t index c).slot? x j = (t.slot? x j).map fun s =>
      if v.binding.target = x ∧ v.place.index = j then
        .children ((held.filter (· ≠ c)).insertIdx index c)
      else s.without c := by
  rw [putAt_eq h hs, Tree.slot?_setSlot, Tree.slot?_adopt (h.ownedOnly c), Option.map_map]
  rfl

theorem forest_putAt (h : t.Forest) {index : Nat} {c : NodeId}
    (hc : v.checkInsert t index c = .ok ()) : (v.putAt t index c).Forest := by
  obtain ⟨hl, hattach, hindex⟩ := checkInsert_eq_ok.1 hc
  obtain ⟨⟨n, hn, -⟩, hne, hancestor⟩ := Tree.checkAttachable_eq_ok.1 hattach
  obtain ⟨held, hs⟩ := isChildList_eq_true.1 hl
  rw [lengthWithout_eq h hs] at hindex
  rw [putAt_eq h hs]
  exact h.move (Tree.lt_size_of_node? hn) hne (fun hpc => hancestor (h.mem_ancestors.2 hpc)) hs
    (List.perm_insertIdx c _ hindex)

theorem forest_putValues (h : t.Forest) {held : List Value}
    (hs : v.slot? t = some (.values held)) (xs : List Value) : (v.putValues t xs).Forest :=
  h.setSlot hs rfl

theorem forest_cleared (h : t.Forest) : (v.cleared t).Forest := by
  unfold cleared
  split
  · exact h.foldl_detach _
  · next held hs => exact forest_putValues h hs []
  · exact h

end ListView

/-! ## New nodes -/

namespace Tree

variable {σ : Signature} {t t' : Tree σ}

theorem parent?_extend_of_lt (ns : List Node) {x : NodeId} (hx : x < t.size) :
    (t.extend ns).parent? x = t.parent? x := by
  rw [parent?, node?_extend_of_lt ns hx, parent?]

theorem childNodes_extend_of_lt (ns : List Node) {x : NodeId} (hx : x < t.size) :
    (t.extend ns).childNodes x = t.childNodes x := by
  rw [childNodes, node?_extend_of_lt ns hx, childNodes]

/-- A new node is a root or the child of a new node with a smaller number. -/
theorem parent?_extend_of_ge {ns : List Node} (hg : Grove none t.size [t.size] ns) {x q : Nat}
    (hx : t.size ≤ x) (hq : (t.extend ns).parent? x = some q) : t.size ≤ q ∧ q < x := by
  have hs := stands_extend (t := t) ns
  have hlt := lt_size_of_parent? hq
  rw [size_extend] at hlt
  by_cases hroot : x ∈ [t.size]
  · rw [hg.parent?_root hs hroot] at hq
    cases hq
  · obtain ⟨q', hq', hle, hqx⟩ := hg.parent?_not_root hs hx hlt hroot
    rw [hq'] at hq
    cases hq
    exact ⟨hle, hqx⟩

/-- Old nodes stay below what they were below; new nodes are below nodes with smaller numbers. -/
theorem below_extend (h : t.Forest) {ns : List Node} (hg : Grove none t.size [t.size] ns)
    {x y : Nat} (hxy : (t.extend ns).Below x y) :
    (x < t.size → t.Below x y) ∧ (t.size ≤ x → y < x) := by
  induction hxy with
  | single hxy =>
    refine ⟨fun hx => .single ?_, fun hx => (parent?_extend_of_ge hg hx hxy).2⟩
    rwa [ChildOf, parent?_extend_of_lt ns hx] at hxy
  | @tail y z _ hyz ih =>
    have hold : y < t.size → t.ChildOf y z := fun hy => by
      rwa [ChildOf, parent?_extend_of_lt ns hy] at hyz
    refine ⟨fun hx => ?_, fun hx => ?_⟩
    · have hy : t.Below x y := ih.1 hx
      obtain ⟨c, -, hc⟩ := TransGen.tail'_iff.1 hy
      exact hy.tail (hold (h.parentsExist c y hc))
    · have hyx : y < x := ih.2 hx
      rcases Nat.lt_or_ge y t.size with hy | hy
      · exact Nat.lt_of_lt_of_le (h.parentsExist y z (hold hy)) hx
      · exact Nat.lt_trans (parent?_extend_of_ge hg hy hyz).2 hyx

/-- Adding a block of new nodes keeps a forest. -/
theorem Forest.extend (h : t.Forest) {ns : List Node} (hg : Grove none t.size [t.size] ns) :
    (t.extend ns).Forest := by
  have hs := stands_extend (t := t) ns
  have hsize := size_extend (t := t) ns
  refine ⟨fun p c => ⟨fun hc => ?_, fun hc => ?_⟩, fun p => ?_, fun x hx => ?_⟩
  · rcases Nat.lt_or_ge p t.size with hp | hp
    · rw [childNodes_extend_of_lt ns hp] at hc
      rwa [parent?_extend_of_lt ns (h.lt_size hc), ← h.owned]
    · have hlt := lt_size_of_mem_childNodes hc
      exact (hg.parent?_of_mem_childNodes hs hp (hsize ▸ hlt) hc).2.2
  · rcases Nat.lt_or_ge c t.size with hlt | hge
    · rw [parent?_extend_of_lt ns hlt] at hc
      rwa [childNodes_extend_of_lt ns (h.parentsExist c p hc), h.owned]
    · have hp := (parent?_extend_of_ge hg hge hc).1
      have hlt := lt_size_of_parent? hc
      exact hg.mem_childNodes_of_parent? hs (by simp) hp hge (hsize ▸ hlt) hc
  · rcases Nat.lt_or_ge p t.size with hp | hp
    · rw [childNodes_extend_of_lt ns hp]
      exact h.once p
    · rcases Nat.lt_or_ge p (t.extend ns).size with hlt | hge
      · exact hg.nodup_childNodes hs hp (hsize ▸ hlt)
      · have hnone : (t.extend ns).childNodes p = [] := by
          refine List.eq_nil_iff_forall_not_mem.2 fun c hc => ?_
          exact absurd (lt_size_of_mem_childNodes hc) (Nat.not_lt.2 hge)
        rw [hnone]
        exact .nil
  · rcases Nat.lt_or_ge x t.size with hlt | hge
    · exact h.acyclic x ((below_extend h hg hx).1 hlt)
    · exact absurd ((below_extend h hg hx).2 hge) (Nat.lt_irrefl x)

theorem Forest.deepCopy (h : t.Forest) (id : NodeId) : (t.deepCopy id).Forest := by
  rcases Nat.lt_or_ge id t.size with hid | hid
  · exact h.extend (grove_copyBlock (fun p c hc => h.lt_size hc) _ _ _ hid)
  · have hnone : t.node? id = none := Array.getElem?_eq_none hid
    have hempty : t.copyBlock t.size none t.size id = [] := by
      unfold copyBlock
      cases t.size <;> simp [hnone]
    have hsame : t.deepCopy id = t := by
      rw [deepCopy_eq_extend, hempty]
      simp [Tree.extend]
    rwa [hsame]

/-! ## Reachable trees -/

/-- Every step keeps a forest. -/
theorem Step.forest (hs : t.Step t') (hconf : t.Conforms) (h : t.Forest) : t'.Forest := by
  cases hs with
  | putChild hp hc =>
    obtain ⟨held, hslot, -⟩ := hconf.exists_child hp
    exact h.putChild hslot hc
  | putData hp hv =>
    obtain ⟨⟨n, hof⟩, -, hcat⟩ := locate_eq_ok hp
    obtain ⟨s, hslot, hs⟩ := hconf.slot?_of hof
    obtain ⟨held, rfl⟩ := hs.eq_data (List.mem_singleton.1 hcat)
    exact h.setSlot hslot rfl
  | putAt hv hc => exact ListView.forest_putAt h hc
  | take _ _ => exact h.detach _
  | clear hv => exact ListView.forest_cleared h
  | pushValue hv hl _ =>
    obtain ⟨held, hslot⟩ := ListView.slot?_of_checkDataList hconf hv hl
    exact ListView.forest_putValues h hslot _
  | removeValue hv hl =>
    obtain ⟨held, hslot⟩ := ListView.slot?_of_checkDataList hconf hv hl
    exact ListView.forest_putValues h hslot _
  | alloc hk => exact h.extend (grove_freshBlock σ _ none t.size _)
  | deepCopy => exact h.deepCopy _

theorem forest_empty : (Tree.empty : Tree σ).Forest := by
  have hnone : ∀ x, (Tree.empty : Tree σ).node? x = none := fun x => by simp [node?, Tree.empty]
  have hparent : ∀ x, (Tree.empty : Tree σ).parent? x = none := fun x => by simp [parent?, hnone]
  refine ⟨fun p c => by simp [childNodes, hnone, hparent], fun p => by simp [childNodes, hnone],
    fun x hx => ?_⟩
  obtain ⟨p, hp, -⟩ := TransGen.head'_iff.1 hx
  rw [ChildOf, hparent] at hp
  cases hp

theorem Steps.forest (hσ : σ.Resolved) (hs : t.Steps t') (hconf : t.Conforms) (h : t.Forest) :
    t'.Conforms ∧ t'.Forest :=
  hs.invariant (P := fun t => t.Conforms ∧ t.Forest)
    (fun _ _ ht hs => ⟨hs.conforms hσ ht.1, hs.forest ht.1 ht.2⟩) ⟨hconf, h⟩

theorem forest_apply (hσ : σ.Resolved) (hconf : t.Conforms) (h : t.Forest) (m : Mutation) :
    (t.apply m).1.Conforms ∧ (t.apply m).1.Forest :=
  (steps_apply m).forest hσ hconf h

theorem Reachable.forest (hσ : σ.Resolved) (h : t.Reachable) : t.Forest :=
  (h.steps.forest hσ (Reachable.empty.conforms hσ) forest_empty).2

/-- The nodes in all slots of all nodes. -/
def held (t : Tree σ) : List NodeId :=
  (List.range t.size).flatMap t.childNodes

theorem mem_held {c : NodeId} : c ∈ t.held ↔ ∃ p, c ∈ t.childNodes p := by
  rw [held, List.mem_flatMap]
  constructor
  · rintro ⟨p, -, hc⟩
    exact ⟨p, hc⟩
  · rintro ⟨p, hc⟩
    exact ⟨p, List.mem_range.2 (lt_size_of_mem_childNodes hc), hc⟩

theorem Forest.nodup_held (h : t.Forest) : t.held.Nodup := by
  refine List.nodup_flatMap.2 ⟨fun p _ => h.once p, List.nodup_range.imp ?_⟩
  intro p q hpq c hp hq
  rw [h.owned] at hp hq
  exact hpq (Option.some.inj (hp.symm.trans hq))

end Tree

/-- In a reachable tree of a generated schema all nodes in slots are nodes of the tree. A node is in
a slot of `p` exactly if `p` is its parent, and then it is in one place only of the whole tree.
Parents never lead back: the ancestors of a node are exactly the nodes above it, the node itself is
not among them, and climbing further than the list of ancestors finds no more of them. -/
theorem owned_once_of_reachable {ts : List Template} {s : Schema}
    (hs : Schema.generate ts = .ok s) {t : Tree s.signature} (ht : t.Reachable) :
    (∀ c ∈ t.held, c < t.size) ∧
    (∀ p c, (∃ i slot, t.slot? p i = some slot ∧ c ∈ slot.nodes) ↔ t.parent? c = some p) ∧
    (∀ p c, t.parent? c = some p → t.held.count c = 1) ∧
    (∀ id, ¬ t.Below id id) ∧
    (∀ id a, a ∈ t.ancestors id ↔ t.Below id a) ∧
    (∀ id, id ∉ t.ancestors id) ∧
    ∀ id bound, t.size ≤ bound → t.climb bound id = t.ancestors id := by
  have h : t.Forest := ht.forest (resolved_of_generate hs)
  refine ⟨fun c hc => ?_, fun p c => ?_, fun p c hp => ?_, h.acyclic, fun _ _ => h.mem_ancestors,
    fun id hid => h.acyclic id (h.mem_ancestors.1 hid),
    fun id _ hb => h.acyclic.climb_eq_ancestors h.parentsExist hb id⟩
  · obtain ⟨p, hp⟩ := Tree.mem_held.1 hc
    exact h.lt_size hp
  · rw [← Tree.mem_childNodes, h.owned]
  · exact List.count_eq_one_of_mem h.nodup_held (Tree.mem_held.2 ⟨p, (h.owned p c).2 hp⟩)

/-- Item 0 of the sample tree has been moved from the list of group 1 to its first place. -/
theorem owned_once_groupTree :
    Schema.generate groupTemplates = .ok (Schema.ofTemplates groupTemplates) ∧
      groupTree.Reachable ∧ groupTree.parent? 0 = some 1 ∧ groupTree.held.count 0 = 1 ∧
      ∀ bound, 4 ≤ bound → groupTree.climb bound 0 = [1] := by
  have hall := owned_once_of_reachable generate_groupTemplates reachable_groupTree
  have hparent : groupTree.parent? 0 = some 1 := by decide +kernel
  have hsize : groupTree.size = 4 := by decide +kernel
  have hancestors : groupTree.ancestors 0 = [1] := by decide +kernel
  refine ⟨generate_groupTemplates, reachable_groupTree, hparent, hall.2.2.1 1 0 hparent,
    fun bound hb => ?_⟩
  rw [hall.2.2.2.2.2.2 0 bound (hsize ▸ hb), hancestors]

end Arbor
