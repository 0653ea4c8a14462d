import Arbor.Proofs.Required
import Arbor.Proofs.Traversal

/-!
# Moving one node

Storing a node somewhere moves just this node. It leaves the slot it was in, its new slot is filled,
and a node that had to make room becomes a root. A tree is known by its look-ups, so a move is
described by what it does to all parents and all slots. A walk that does not reach the new place
goes on as before, without the moved node and what is below it.
-/

namespace Arbor

open Relation

namespace Tree

variable {σ : Signature} {t t' : Tree σ}

/-! ## Look-ups -/

/-- A tree is known by its kinds, parents and slots. -/
theorem ext_lookups (hkinds : ∀ x, t.kindId x = t'.kindId x)
    (hparents : ∀ x, t.parent? x = t'.parent? x) (hslots : ∀ x j, t.slot? x j = t'.slot? x j) :
    t = t' := by
  refine ext_node? fun x => ?_
  have hkind := hkinds x
  unfold kindId at hkind
  cases hn : t.node? x with
  | none =>
    cases hn' : t'.node? x with
    | none => rfl
    | some n' => simp [hn, hn'] at hkind
  | some n =>
    cases hn' : t'.node? x with
    | none => simp [hn, hn'] at hkind
    | some n' =>
      have hparent := hparents x
      rw [parent?_of_node? hn, parent?_of_node? hn'] at hparent
      have hslot : n.slots = n'.slots := List.ext_getElem? fun j => by
        rw [← slot?_of_node? hn, ← slot?_of_node? hn', hslots]
      obtain ⟨kind, parent, slots⟩ := n
      obtain ⟨kind', parent', slots'⟩ := n'
      simp_all

theorem KindsKept.kindId_eq (h : t.KindsKept t') (hsize : t'.size = t.size) (x : NodeId) :
    t'.kindId x = t.kindId x := by
  unfold kindId
  cases hn : t.node? x with
  | some n =>
    obtain ⟨n', hn', hkind⟩ := h x n hn
    simp [hn', hkind]
  | none =>
    have hge : ¬ x < t'.size := fun hlt => by
      obtain ⟨n, hn'⟩ := exists_node? (hsize ▸ hlt)
      cases hn.symm.trans hn'
    cases hn' : t'.node? x with
    | none => rfl
    | some n' => exact absurd (lt_size_of_node? hn') hge

theorem parent?_adopt {c : NodeId} (ho : t.OwnedOnly c) (hc : c < t.size) (p x : NodeId) :
    (t.adopt p c).parent? x = if x = c then some p else t.parent? x := by
  unfold adopt
  rw [parent?_setParent (by simpa using hc), parent?_detach ho]
  by_cases hx : x = c <;> simp [hx]

theorem childNodes_of_withoutAll {x : NodeId} {cs : List NodeId} (hsize : t'.size = t.size)
    (h : ∀ j, t'.slot? x j = (t.slot? x j).map (Slot.withoutAll cs)) :
    t'.childNodes x = (t.childNodes x).filter (· ∉ cs) := by
  rcases Nat.lt_or_ge x t.size with hlt | hge
  · obtain ⟨n, hn⟩ := exists_node? hlt
    obtain ⟨n', hn'⟩ := exists_node? (t := t') (hsize ▸ hlt)
    have hslots : n'.slots = n.slots.map (Slot.withoutAll cs) := List.ext_getElem? fun j => by
      rw [← slot?_of_node? hn', h, slot?_of_node? hn, List.getElem?_map]
    rw [childNodes_of_node? hn, childNodes_of_node? hn', Node.children, Node.children, hslots]
    simp [List.flatMap_map, List.filter_flatMap, Slot.nodes_withoutAll]
  · have hnone : ∀ {u : Tree σ}, u.size ≤ x → u.childNodes x = [] := fun hu =>
      List.eq_nil_iff_forall_not_mem.2 fun _ hc =>
        absurd (lt_size_of_mem_childNodes hc) (Nat.not_lt.2 hu)
    rw [hnone hge, hnone (hsize ▸ hge)]
    rfl

namespace Forest

variable (h : t.Forest) {id : NodeId} {i : Nat} {held : Option NodeId}
  (hs : t.slot? id i = some (.child held))
include h hs

/-- Releasing a slot makes a root of what it held. -/
theorem parent?_release (x : NodeId) :
    (t.release id i).parent? x = if held = some x then none else t.parent? x := by
  unfold Tree.release
  rw [hs, Option.bind_some, Slot.child?]
  cases held with
  | none => rfl
  | some old =>
    simp only [Option.some.injEq, eq_comm (a := old)]
    exact parent?_detach (h.ownedOnly old) x

theorem parent?_putChild {c : Option NodeId} (hc : ∀ x ∈ c, x < t.size) (x : NodeId) :
    (t.putChild id i c).parent? x =
      if c = some x then some id else if held = some x then none else t.parent? x := by
  cases c with
  | none =>
    rw [Tree.putChild, parent?_setSlot, h.parent?_release hs]
    simp
  | some c =>
    have hforest := (h.release hs).1
    rw [Tree.putChild, parent?_setSlot, parent?_adopt (hforest.ownedOnly c) (by simpa using hc),
      h.parent?_release hs]
    simp only [Option.some.injEq, eq_comm (a := x)]

end Forest

/-! ## Moves -/

/-- What a move does to a tree: the node `moved`, if there is one, goes to the slot at `target` and
`index`, which becomes `filled`, and the node `freed`, if there is one, becomes a root. All else
stays as it was. -/
structure Moves (t : Tree σ) (moved freed : Option NodeId) (target : NodeId) (index : Nat)
    (filled : Slot) (t' : Tree σ) : Prop where
  size : t'.size = t.size
  kinds : ∀ x, t'.kindId x = t.kindId x
  slot : t'.slot? target index = some filled
  parent : ∀ c ∈ moved, t'.parent? c = some target
  root : ∀ x ∈ freed, t'.parent? x = none
  left : ∀ c ∈ moved, ∀ x j s, t.slot? x j = some s → c ∈ s.nodes → ¬ (x = target ∧ j = index) →
    t.parent? c = some x ∧ t'.slot? x j = some (s.without c) ∧
      ∀ y k s', t.slot? y k = some s' → c ∈ s'.nodes → y = x ∧ k = j
  otherSlots : ∀ x j, ¬ (x = target ∧ j = index) →
    (∀ c ∈ moved, ∀ s, t.slot? x j = some s → c ∉ s.nodes) → t'.slot? x j = t.slot? x j
  otherParents : ∀ x, x ∉ moved → x ∉ freed → t'.parent? x = t.parent? x

/-- A move is known by its look-ups. -/
theorem Forest.moves (h : t.Forest) {moved freed : Option NodeId} {target : NodeId} {index : Nat}
    {old filled : Slot} (hold : t.slot? target index = some old) (hsize : t'.size = t.size)
    (hkinds : ∀ x, t'.kindId x = t.kindId x)
    (hparents : ∀ x, t'.parent? x =
      if moved = some x then some target else if freed = some x then none else t.parent? x)
    (hslots : ∀ x j, t'.slot? x j = (t.slot? x j).map fun s =>
      if target = x ∧ index = j then filled else s.withoutAll moved.toList)
    (hne : ∀ x, freed = some x → moved ≠ some x) :
    t.Moves moved freed target index filled t' := by
  refine ⟨hsize, hkinds, ?_, ?_, ?_, ?_, ?_, ?_⟩
  · rw [hslots, hold]
    simp
  · rintro c rfl
    rw [hparents, if_pos rfl]
  · rintro x rfl
    rw [hparents, if_neg (hne x rfl), if_pos rfl]
  · rintro c rfl x j s hs hc hplace
    refine ⟨(h.owned x c).1 (mem_childNodes.2 ⟨j, s, hs, hc⟩), ?_,
      fun y k s' hs' hc' => h.eq_place hs' hc' hs hc⟩
    rw [hslots, hs, Option.map_some, if_neg fun he => hplace ⟨he.1.symm, he.2.symm⟩]
    rfl
  · intro x j hplace hfree
    rw [hslots]
    refine (Option.map_congr fun s hs => ?_).trans Option.map_id'
    rw [if_neg fun he => hplace ⟨he.1.symm, he.2.symm⟩]
    exact Slot.withoutAll_of_not_mem fun c hc => hfree c (Option.mem_toList.1 hc) s hs
  · exact fun x hmoved hfreed => (hparents x).trans ((if_neg hmoved).trans (if_neg hfreed))

/-- A node that is moved to where it is leaves the tree as it was. -/
theorem Forest.move_self (h : t.Forest) {p c : NodeId} {i : Nat} {s : Slot}
    (hs : t.slot? p i = some s) (hc : c ∈ s.nodes) : (t.adopt p c).setSlot p i s = t := by
  have ho := h.ownedOnly c
  have hparent : t.parent? c = some p := (h.owned p c).1 (mem_childNodes.2 ⟨i, s, hs, hc⟩)
  refine ext_lookups (fun x => ?_) (fun x => ?_) fun x j => ?_
  · exact ((kindsKept_adopt p c).trans (kindsKept_setSlot p i s)).kindId_eq (by simp) x
  · rw [parent?_setSlot, parent?_adopt ho (lt_size_of_parent? hparent)]
    split
    · next hx => rw [hx, hparent]
    · rfl
  · rw [slot?_setSlot, slot?_adopt ho, Option.map_map]
    refine (Option.map_congr fun s' hs' => ?_).trans Option.map_id'
    by_cases hplace : p = x ∧ i = j
    · obtain ⟨rfl, rfl⟩ := hplace
      simpa using Option.some.inj (hs.symm.trans hs')
    · have hfree : c ∉ s'.nodes := fun hc' => hplace (h.eq_place hs hc hs' hc')
      simp [hplace, Slot.without_of_not_mem hfree]

/-- A root that is moved into a slot and taken out again leaves the tree as it was. -/
theorem Forest.detach_move (h : t.Forest) {p c : NodeId} {i : Nat} {s new : Slot}
    (hs : t.slot? p i = some s) (hroot : t.parent? c = none) (hc : c < t.size)
    (hnew : new.without c = s) (h' : ((t.adopt p c).setSlot p i new).Forest) :
    ((t.adopt p c).setSlot p i new).detach c = t := by
  have ho := h.ownedOnly c
  have ho' := h'.ownedOnly c
  have hfree : ∀ x j s', t.slot? x j = some s' → c ∉ s'.nodes := fun x j s' hs' hmem => by
    have hparent := (h.owned x c).1 (mem_childNodes.2 ⟨j, s', hs', hmem⟩)
    cases hroot.symm.trans hparent
  refine ext_lookups (fun x => ?_) (fun x => ?_) fun x j => ?_
  · have hkept := ((kindsKept_adopt (t := t) p c).trans (kindsKept_setSlot p i new)).trans
      (kindsKept_detach c)
    exact hkept.kindId_eq (by simp) x
  · rw [parent?_detach ho', parent?_setSlot, parent?_adopt ho hc]
    by_cases hx : x = c
    · simp [hx, hroot]
    · simp [hx]
  · rw [slot?_detach ho', slot?_setSlot, slot?_adopt ho, Option.map_map, Option.map_map]
    refine (Option.map_congr fun s' hs' => ?_).trans Option.map_id'
    have hkept := Slot.without_of_not_mem (hfree x j s' hs')
    by_cases hplace : p = x ∧ i = j
    · obtain ⟨rfl, rfl⟩ := hplace
      simpa using hnew.trans (Option.some.inj (hs.symm.trans hs'))
    · simp [hplace, hkept]

/-! ## Walks beside a move -/

/-- What comes of a work list when nodes are gone from below it: the same, without these nodes and
all that is below them. -/
theorem Forest.preorder_without (h : t.Forest) {cs : List NodeId} (hcs : ∀ c ∈ cs, c < t.size)
    {ids out : List NodeId} (hout : t.Preorder ids out)
    (hids : ∀ r ∈ ids, r ∈ cs.flatMap t.walk → r ∈ cs)
    (hchildren : ∀ x ∈ out, t'.childNodes x = (t.childNodes x).filter (· ∉ cs)) :
    t'.Preorder (ids.filter (· ∉ cs)) (out.filter (· ∉ cs.flatMap t.walk)) := by
  have hgone : ∀ x, x ∈ cs.flatMap t.walk ↔ ∃ c ∈ cs, ReflTransGen t.ChildOf x c := fun x => by
    rw [List.mem_flatMap]
    exact exists_congr fun c => and_congr_right fun hc => h.mem_walk (hcs c hc)
  induction hout with
  | nil => exact .nil
  | @cons id rest below after hbelow hafter ihb iha =>
    obtain ⟨hid, hrest⟩ := List.forall_mem_cons.1 hids
    obtain ⟨hself, hchildren⟩ := List.forall_mem_cons.1 hchildren
    obtain ⟨hinside, houtside⟩ := List.forall_mem_append.1 hchildren
    have iha := iha hrest houtside
    by_cases hmem : id ∈ cs
    · -- The node is gone, and with it everything below it.
      have hall : below.filter (· ∉ cs.flatMap t.walk) = [] := by
        refine List.filter_eq_nil_iff.2 fun x hx => ?_
        obtain ⟨c, hc, hxc⟩ := (h.mem_preorder hbelow).1 hx
        have hx : x ∈ cs.flatMap t.walk := (hgone x).2 ⟨id, hmem, hxc.tail ((h.owned id c).1 hc)⟩
        simpa using hx
      have hidgone : id ∈ cs.flatMap t.walk := (hgone id).2 ⟨id, hmem, .refl⟩
      rw [List.filter_cons_of_neg (by simpa using hmem),
        List.filter_cons_of_neg (by simpa using hidgone), List.filter_append, hall]
      exact iha
    · have hkept : id ∉ cs.flatMap t.walk := fun hg => hmem (hid hg)
      rw [List.filter_cons_of_pos (by simpa using hmem),
        List.filter_cons_of_pos (by simpa using hkept), List.filter_append]
      refine .cons (hself ▸ ihb (fun r hr hg => ?_) hinside) iha
      obtain ⟨c, hc, hrc⟩ := (hgone r).1 hg
      rcases ReflTransGen.cases_head hrc with rfl | ⟨p, hp, hpc⟩
      · exact hc
      · obtain rfl : id = p := Option.some.inj (((h.owned id r).1 hr).symm.trans hp)
        exact absurd ((hgone id).2 ⟨c, hc, hpc⟩) hkept

theorem Forest.walk_without (h : t.Forest) (h' : t'.Forest) {cs : List NodeId}
    (hcs : ∀ c ∈ cs, c < t.size) {r : NodeId} (hr : r < t.size) (hr' : r < t'.size)
    (hout : r ∉ cs.flatMap t.walk)
    (hchildren : ∀ x ∈ t.walk r, t'.childNodes x = (t.childNodes x).filter (· ∉ cs)) :
    t'.walk r = (t.walk r).filter (· ∉ cs.flatMap t.walk) := by
  have hmem : r ∉ cs := fun hc => hout (List.mem_flatMap.2 ⟨r, hc, (h.mem_walk hr).2 .refl⟩)
  have hpre := h.preorder_without hcs (h.preorder_walk hr)
    (fun x hx hg => absurd (List.mem_singleton.1 hx ▸ hg) hout) hchildren
  rw [List.filter_cons_of_pos (by simpa using hmem), List.filter_nil] at hpre
  exact (h'.preorder_walk hr').unique hpre

/-! ## Storing a child -/

/-- A node may be attached exactly if the field takes it and it is not above its new parent. -/
theorem checkAttachable_iff_takes {p : Place} (hp : p.field.Resolved σ) {parent c : NodeId} :
    t.checkAttachable p parent c = .ok () ↔
      t.Takes p.field c ∧ c ≠ parent ∧ c ∉ t.ancestors parent := by
  rw [checkAttachable_eq_ok, ← takes_iff_checkAccepts hp]

theorem checkChild_iff_takes {p : Place} (hp : p.field.Resolved σ) {parent : NodeId}
    {child : Option NodeId} :
    t.checkChild p parent child = .ok () ↔
      child = none ∧ p.field.decl.required = false ∨
        ∃ c, child = some c ∧ t.Takes p.field c ∧ c ≠ parent ∧ c ∉ t.ancestors parent := by
  cases child with
  | none =>
    unfold checkChild
    cases p.field.decl.required <;> simp
  | some c =>
    rw [checkChild, checkAttachable_iff_takes hp]
    simp

section PutChild

variable (h : t.Forest) {id : NodeId} {p : Place} {held child : Option NodeId}
  (hs : t.slot? id p.index = some (.child held)) (hc : t.checkChild p id child = .ok ())
include h hs hc

omit h hs in
theorem lt_size_of_checkChild {c : NodeId} (hmem : c ∈ child) : c < t.size := by
  obtain rfl : child = some c := hmem
  obtain ⟨⟨n, hn, -⟩, -⟩ := checkAttachable_eq_ok.1 hc
  exact lt_size_of_node? hn

/-- Storing a child moves the child, and what was in its place becomes a root. -/
theorem Forest.moves_putChild : t.Moves child (if held = child then none else held) id p.index
    (.child child) (t.putChild id p.index child) := by
  refine h.moves hs (t.size_putChild _ _ _) (fun x => ?_) (fun x => ?_)
    (h.slot?_putChild_all hs child) fun x hfreed => ?_
  · exact (kindsKept_putChild id p.index child).kindId_eq (t.size_putChild _ _ _) x
  · rw [h.parent?_putChild hs fun x => lt_size_of_checkChild hc]
    split
    · rfl
    · next hmoved =>
      by_cases hsame : held = child
      · simp [hsame, hmoved]
      · simp [hsame]
  · by_cases hsame : held = child
    · simp [hsame] at hfreed
    · rw [if_neg hsame] at hfreed
      exact fun hmoved => hsame (hfreed.trans hmoved.symm)

/-- What has made room for a child keeps everything below it, except for the child. -/
theorem Forest.walk_putChild {old : NodeId} (hold : held = some old) (hne : child ≠ some old) :
    (t.putChild id p.index child).walk old =
      (t.walk old).filter (· ∉ child.toList.flatMap t.walk) := by
  subst hold
  have hparent : t.ChildOf old id :=
    (h.owned id old).1 (mem_childNodes.2 ⟨p.index, _, hs, List.mem_singleton.2 rfl⟩)
  have hlt : old < t.size := lt_size_of_parent? hparent
  have hforest : (t.putChild id p.index child).Forest := h.putChild hs hc
  refine h.walk_without hforest (fun c hmem => ?_) hlt (by simpa using hlt) (fun hgone => ?_)
    fun x hx => ?_
  · exact lt_size_of_checkChild hc (Option.mem_toList.1 hmem)
  · -- If the old child were below the new one, so would be its parent.
    obtain ⟨c, hmem, hx⟩ := List.mem_flatMap.1 hgone
    obtain rfl : child = some c := Option.mem_toList.1 hmem
    obtain ⟨⟨n, hn, -⟩, hself, habove⟩ := checkAttachable_eq_ok.1 hc
    rcases ReflTransGen.cases_head ((h.mem_walk (lt_size_of_node? hn)).1 hx) with rfl | ⟨q, hq, hqc⟩
    · exact hne rfl
    · obtain rfl : id = q := Option.some.inj (hparent.symm.trans hq)
      rcases reflTransGen_iff_eq_or_transGen.1 hqc with rfl | hqc
      · exact hself rfl
      · exact habove (h.mem_ancestors.2 hqc)
  · refine childNodes_of_withoutAll (t.size_putChild _ _ _) fun j => ?_
    rw [h.slot?_putChild_all hs]
    refine Option.map_congr fun s _ => if_neg fun hplace => ?_
    -- The place is above the old child, so the walk does not come to it.
    have hbelow : t.Below id id := .tail' (hplace.1 ▸ (h.mem_walk hlt).1 hx) hparent
    exact h.acyclic id hbelow

omit hc in
/-- Storing what is in its place already changes nothing. -/
theorem Forest.putChild_self : t.putChild id p.index held = t := by
  cases held with
  | none =>
    rw [Tree.putChild, Tree.release, hs]
    exact setSlot_of_slot? hs
  | some c =>
    have hdetached : (t.detach c).detach c = t.detach c := by
      rw [Tree.detach, parent?_detach (h.ownedOnly c), if_pos rfl]
    have hadopt : (t.release id p.index).adopt id c = t.adopt id c := by
      rw [Tree.release, hs]
      show ((t.detach c).detach c).setParent c (some id) = _
      rw [hdetached]
      rfl
    rw [Tree.putChild, hadopt]
    exact h.move_self hs (List.mem_singleton.2 rfl)

end PutChild

end Tree

/-- Storing a child in a reachable tree succeeds exactly if the field is a single child field that
takes the child, and the child is not at or above the field's node; or if there is no child and the
field may be empty. Then only the child moves: it fills the slot and leaves the slot that it was in,
what was in its place becomes a root that keeps all that is below it, up to the child, and all other
slots, parents and kinds stay as they are. Storing the child that is there already changes
nothing. -/
theorem setChild_moves_one {ts : List Template} {s : Schema} (hs : Schema.generate ts = .ok s)
    {t : Tree s.signature} (ht : t.Reachable) (id : NodeId) (field : String)
    (child : Option NodeId) :
    ((∃ t', Edit.setChild id field child t = .ok () t') ↔
      ∃ k, t.kind id = .ok k ∧ ∃ f ∈ k.fields, f.name = field ∧ f.category = .singleChild ∧
        (child = none ∧ f.decl.required = false ∨
          ∃ c, child = some c ∧ t.Takes f c ∧ c ≠ id ∧ c ∉ t.ancestors id)) ∧
    (∀ t', Edit.setChild id field child t = .ok () t' →
      ∃ p held, t.locate id field [.singleChild] = .ok p ∧
        t.slot? id p.index = some (.child held) ∧
        t.Moves child (if held = child then none else held) id p.index (.child child) t' ∧
        (∀ old, held = some old → child ≠ some old →
          t'.walk old = (t.walk old).filter (· ∉ child.toList.flatMap t.walk)) ∧
        (held = child → t' = t)) ∧
    ∀ p c, t.locate id field [.singleChild] = .ok p →
      t.slot? id p.index = some (.child (some c)) →
      Edit.setChild id field (some c) t = .ok () t := by
  have hσ := resolved_of_generate hs
  have hconf := ht.conforms hσ
  have hf := ht.forest hσ
  have hheld : ∀ {p}, t.locate id field [.singleChild] = .ok p →
      p.field.Resolved s.signature ∧
        ∃ held, t.slot? id p.index = some (.child held) ∧ ∀ c ∈ held, t.Takes p.field c := by
    intro p hp
    obtain ⟨⟨n, hof⟩, -⟩ := Tree.locate_eq_ok hp
    exact ⟨Tree.resolved_of_place hσ hof, hconf.exists_child hp⟩
  refine ⟨⟨?_, ?_⟩, fun t' hset => ?_, fun p c hp hslot => ?_⟩
  · rintro ⟨t', hset⟩
    obtain ⟨p, hp, hc, -⟩ := Edit.setChild_eq_ok.1 hset
    obtain ⟨⟨n, hof⟩, hname, hcat⟩ := Tree.locate_eq_ok hp
    have hmem : p.field ∈ p.kind.fields :=
      Signature.fields_of_kinds hof.kind ▸ List.mem_of_getElem? hof.field
    exact ⟨p.kind, Tree.kind_eq_ok.2 ⟨n, hof.node, hof.kind⟩, p.field, hmem, hname,
      List.mem_singleton.1 hcat, (Tree.checkChild_iff_takes (hheld hp).1).1 hc⟩
  · rintro ⟨k, hkind, f, hmem, rfl, hcat, hc⟩
    obtain ⟨n, hn, hk⟩ := Tree.kind_eq_ok.1 hkind
    obtain ⟨i, hi⟩ := List.mem_iff_getElem?.1 hmem
    have hof : Place.Of t id ⟨k, i, f⟩ n := ⟨hn, hk, by rwa [Signature.fields_of_kinds hk]⟩
    have hp := hof.locate_eq hσ (List.mem_singleton.2 hcat)
    exact ⟨_, Edit.setChild_eq_ok.2 ⟨_, hp, (Tree.checkChild_iff_takes (hheld hp).1).2 hc, rfl⟩⟩
  · obtain ⟨p, hp, hc, rfl⟩ := Edit.setChild_eq_ok.1 hset
    obtain ⟨-, held, hslot, -⟩ := hheld hp
    refine ⟨p, held, hp, hslot, hf.moves_putChild hslot hc,
      fun old hold hne => hf.walk_putChild hslot hc hold hne, ?_⟩
    rintro rfl
    exact hf.putChild_self hslot
  · obtain ⟨hres, held, hslot', htakes⟩ := hheld hp
    obtain rfl : some c = held := by
      cases hslot.symm.trans hslot'
      rfl
    have hparent : t.ChildOf c id :=
      (hf.owned id c).1 (Tree.mem_childNodes.2 ⟨p.index, _, hslot, List.mem_singleton.2 rfl⟩)
    refine Edit.setChild_eq_ok.2 ⟨p, hp, (Tree.checkChild_iff_takes hres).2 ?_,
      (hf.putChild_self hslot).symm⟩
    refine .inr ⟨c, rfl, htakes c rfl, ?_, fun habove => ?_⟩
    · rintro rfl
      exact hf.acyclic c (.single hparent)
    · exact hf.acyclic c (.head hparent (hf.mem_ancestors.1 habove))

/-- Section 2 leads section 3 and has the part 0, which leads over to section 1. Part 0 takes the
place of section 2, which is left with nothing below it. -/
theorem setChild_moves_one_sectionTree :
    Schema.generate sectionTemplates = .ok (Schema.ofTemplates sectionTemplates) ∧
      sectionTree.Reachable ∧ sectionTree.walk 2 = [2, 0, 1] ∧
      (∃ t', Edit.setChild 3 "lead" (some 0) sectionTree = .ok () t' ∧
        t'.slot? 3 0 = some (.child (some 0)) ∧ t'.slot? 2 1 = some (.children []) ∧
        t'.parent? 2 = none ∧ t'.walk 2 = [2]) ∧
      Edit.setChild 3 "lead" (some 2) sectionTree = .ok () sectionTree := by
  have hall := setChild_moves_one generate_sectionTemplates reachable_sectionTree 3 "lead"
  have hplace : sectionTree.locate 3 "lead" [.singleChild] = .ok ⟨_, 0, _⟩ := rfl
  have hheld : sectionTree.slot? 3 0 = some (.child (some 2)) := by rfl
  have hset : Edit.setChild 3 "lead" (some 0) sectionTree =
      .ok () (sectionTree.putChild 3 0 (some 0)) := by rfl
  refine ⟨generate_sectionTemplates, reachable_sectionTree, by decide +kernel, ⟨_, hset, ?_⟩,
    (hall none).2.2 _ 2 hplace hheld⟩
  obtain ⟨p, held, hp, hslot, hmoves, hwalk, -⟩ := (hall (some 0)).2.1 _ hset
  obtain rfl := Except.ok.inj (hplace.symm.trans hp)
  cases hheld.symm.trans hslot
  have hleft := (hmoves.left 0 rfl 2 1 (.children [0]) rfl (by decide) (by decide)).2.1
  refine ⟨hmoves.slot, hleft, hmoves.root 2 rfl, (hwalk 2 rfl (by decide)).trans ?_⟩
  decide +kernel

end Arbor
