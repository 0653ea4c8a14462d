import Mathlib.Data.Set.Basic
import Arbor.Proofs.Effect
import Arbor.Proofs.Traversal

/-!
# Locality

A region of a tree is a set of nodes that parents lead neither into nor out of, together with all
numbers that are not in use yet. Mutations write to nodes that they do not name: the previous parent
of a moved node, a child that is replaced, the children of a list that is cleared. All of these are
linked to a named node by a parent. So mutations that name only nodes of a region keep it a region
and leave the nodes outside as they are, for as long as the run goes on. Unions of components are
regions, and so are the copy of a subtree and everything but the copy.
-/

namespace Arbor

open Relation

namespace Tree

variable {σ : Signature} {t t' t'' : Tree σ} {R : Set NodeId}

/-- Parents lead neither into the set `R` nor out of it, and no number outside of `R` is free. -/
structure Region (t : Tree σ) (R : Set NodeId) : Prop where
  links : ∀ c p, t.ChildOf c p → (c ∈ R ↔ p ∈ R)
  free : ∀ x, t.size ≤ x → x ∈ R

/-- From `t` to `t'` the set `R` stays a region, and the nodes outside of it stay as they are. -/
structure Within (R : Set NodeId) (t t' : Tree σ) : Prop where
  region : t'.Region R
  same : ∀ x, x ∉ R → t'.node? x = t.node? x

theorem Within.refl (h : t.Region R) : Within R t t :=
  ⟨h, fun _ _ => rfl⟩

theorem Within.trans (h : Within R t t') (h' : Within R t' t'') : Within R t t'' :=
  ⟨h'.region, fun x hx => (h'.same x hx).trans (h.same x hx)⟩

namespace Region

theorem mem_of_childNodes (h : t.Region R) (hf : t.Forest) {p c : NodeId} (hp : p ∈ R)
    (hc : c ∈ t.childNodes p) : c ∈ R :=
  (h.links c p ((hf.owned p c).1 hc)).2 hp

theorem mem_iff_of_leads (h : t.Region R) {x y : NodeId} (hxy : ReflTransGen t.ChildOf x y) :
    x ∈ R ↔ y ∈ R := by
  induction hxy with
  | refl => exact .rfl
  | tail _ hab ih => exact ih.trans (h.links _ _ hab)

/-! ## Changes to single nodes -/

theorem within_update (h : t.Region R) {id : NodeId} (hid : id ∈ R) {f : Node → Node}
    (hf : ∀ n p, (f n).parent = some p → n.parent = some p ∨ p ∈ R) :
    Within R t (t.update id f) := by
  have hnode : ∀ x, x ≠ id → (t.update id f).node? x = t.node? x := fun x hx => by
    rw [node?_update, if_neg hx.symm]
  refine ⟨⟨fun c p hc => ?_, fun x hx => h.free x (by simpa using hx)⟩, fun x hx => ?_⟩
  · by_cases hcid : c = id
    · subst hcid
      obtain ⟨n', hn', hp⟩ := parent?_eq_some.1 hc
      rw [node?_update, if_pos rfl] at hn'
      obtain ⟨n, hn, rfl⟩ := Option.map_eq_some_iff.1 hn'
      rcases hf n p hp with hp | hp
      · exact h.links c p (parent?_eq_some.2 ⟨n, hn, hp⟩)
      · exact ⟨fun _ => hp, fun _ => hid⟩
    · rw [ChildOf, parent?, hnode c hcid] at hc
      exact h.links c p hc
  · exact hnode x fun he => hx (he ▸ hid)

theorem within_setSlot (h : t.Region R) {id : NodeId} (hid : id ∈ R) (i : Nat) (s : Slot) :
    Within R t (t.setSlot id i s) :=
  h.within_update hid fun _ _ hp => .inl hp

theorem within_setParent (h : t.Region R) {id : NodeId} (hid : id ∈ R) {parent : Option NodeId}
    (hparent : ∀ p ∈ parent, p ∈ R) : Within R t (t.setParent id parent) :=
  h.within_update hid fun _ p hp => .inr (hparent p hp)

theorem within_detach (h : t.Region R) {c : NodeId} (hc : c ∈ R) : Within R t (t.detach c) := by
  unfold Tree.detach
  split
  · exact .refl h
  · next p hp =>
    have hslots : Within R t
        (t.update p fun n => { n with slots := n.slots.map (Slot.without c) }) :=
      h.within_update ((h.links c p hp).1 hc) fun _ _ hp => .inl hp
    exact hslots.trans (hslots.region.within_setParent hc (by simp))

theorem within_adopt (h : t.Region R) {p c : NodeId} (hp : p ∈ R) (hc : c ∈ R) :
    Within R t (t.adopt p c) := by
  have hdetach := h.within_detach hc
  refine hdetach.trans (hdetach.region.within_setParent hc ?_)
  rintro _ ⟨⟩
  exact hp

theorem within_release (h : t.Region R) (hf : t.Forest) {id : NodeId} (hid : id ∈ R) (i : Nat) :
    Within R t (t.release id i) := by
  unfold Tree.release
  split
  · next old hold =>
    obtain ⟨s, hs, hold⟩ := Option.bind_eq_some_iff.1 hold
    have hchild : old ∈ t.childNodes id :=
      mem_childNodes.2 ⟨i, s, hs, Slot.mem_nodes_of_child? hold⟩
    exact h.within_detach (h.mem_of_childNodes hf hid hchild)
  · exact .refl h

theorem within_putChild (h : t.Region R) (hf : t.Forest) {id : NodeId} (hid : id ∈ R) (i : Nat)
    {c : Option NodeId} (hc : ∀ x ∈ c, x ∈ R) : Within R t (t.putChild id i c) := by
  have hrelease := h.within_release hf hid i
  cases c with
  | none => exact hrelease.trans (hrelease.region.within_setSlot hid i _)
  | some c =>
    have hadopt := hrelease.trans (hrelease.region.within_adopt hid (hc c rfl))
    exact hadopt.trans (hadopt.region.within_setSlot hid i _)

theorem within_foldl_detach (h : t.Region R) {cs : List NodeId} (hcs : ∀ c ∈ cs, c ∈ R) :
    Within R t (cs.foldl Tree.detach t) := by
  induction cs generalizing t with
  | nil => exact .refl h
  | cons c cs ih =>
    have hdetach := h.within_detach (hcs c List.mem_cons_self)
    exact hdetach.trans (ih hdetach.region fun x hx => hcs x (List.mem_cons_of_mem _ hx))

/-- Old nodes hold and name old nodes only, so new nodes may join any region. -/
theorem within_extend (h : t.Region R) (hf : t.Forest) {ns : List Node}
    (hf' : (t.extend ns).Forest) : Within R t (t.extend ns) := by
  refine ⟨⟨fun c p hc => ?_, fun x hx => h.free x ?_⟩, fun x hx => ?_⟩
  · rcases Nat.lt_or_ge c t.size with hlt | hge
    · rw [ChildOf, parent?_extend_of_lt ns hlt] at hc
      exact h.links c p hc
    · refine ⟨fun _ => h.free p (Nat.not_lt.1 fun hp => ?_), fun _ => h.free c hge⟩
      have hchild := (hf'.owned p c).2 hc
      rw [childNodes_extend_of_lt ns hp] at hchild
      exact absurd (hf.lt_size hchild) (Nat.not_lt.2 hge)
  · rw [size_extend] at hx
    exact Nat.le_trans (Nat.le_add_right _ _) hx
  · exact node?_extend_of_lt ns (Nat.not_le.1 fun hge => hx (h.free x hge))

end Region

/-! ## Lists -/

theorem mem_childNodes_of_child {id c : NodeId} {field : String}
    (h : t.child id field = .ok (some c)) : c ∈ t.childNodes id := by
  obtain ⟨p, -, h⟩ := bind_eq_ok.1 h
  obtain ⟨s, hs, hc⟩ := Option.bind_eq_some_iff.1 (pure_eq_ok.1 h)
  exact mem_childNodes.2 ⟨p.index, s, hs, Slot.mem_nodes_of_child? hc⟩

theorem mem_childNodes_of_children {id c : NodeId} {field : String} {cs : List NodeId}
    (h : t.children id field = .ok cs) (hc : c ∈ cs) : c ∈ t.childNodes id := by
  obtain ⟨p, -, h⟩ := bind_eq_ok.1 h
  rw [← pure_eq_ok.1 h] at hc
  cases hs : t.slot? id p.index with
  | none => simp [hs] at hc
  | some s =>
    rw [hs] at hc
    exact mem_childNodes.2 ⟨p.index, s, hs, Slot.mem_nodes_of_childList hc⟩

/-- The arguments of a part are in a child of the part. -/
theorem target_of_partGenerics {part : NodeId} {b : ListBinding}
    (h : t.partGenerics part = .ok b) : b.target ∈ t.childNodes part := by
  obtain ⟨_, -, h⟩ := bind_eq_ok.1 h
  obtain ⟨args, hargs, h⟩ := bind_eq_ok.1 h
  cases args with
  | none => cases h
  | some args =>
    cases h
    exact mem_childNodes_of_child hargs

/-- The arguments of a reference are in a child of one of its children. -/
theorem target_of_generics {ref : NodeId} {b : ListBinding} (h : t.generics ref = .ok b) :
    ∃ part ∈ t.childNodes ref, b.target ∈ t.childNodes part := by
  obtain ⟨_, -, h⟩ := bind_eq_ok.1 h
  obtain ⟨parts, hparts, h⟩ := bind_eq_ok.1 h
  cases hlast : parts.getLast? with
  | none =>
    rw [hlast] at h
    cases h
  | some last =>
    rw [hlast] at h
    obtain ⟨b', hb', h⟩ := bind_eq_ok.1 h
    have htarget := target_of_partGenerics hb'
    cases h
    exact ⟨last, mem_childNodes_of_children hparts (List.mem_of_getLast? hlast), htarget⟩

/-- The list at an address belongs to a node of the region that the address is in. -/
theorem Region.target_mem (h : t.Region R) (hf : t.Forest) {a : ListAddress} {v : ListView}
    (ha : t.openAddress a = .ok v) (hnodes : ∀ x ∈ a.nodes, x ∈ R) : v.binding.target ∈ R := by
  cases a with
  | field id field =>
    rw [(openList_eq_ok.1 ha).1]
    exact hnodes id (List.mem_singleton.2 rfl)
  | binding b =>
    rw [(openList_eq_ok.1 ha).1]
    exact hnodes b.target (by simp [ListAddress.nodes])
  | generics id =>
    have hid : id ∈ R := hnodes id (List.mem_singleton.2 rfl)
    obtain ⟨b, hb, hgenerics⟩ := openGenerics_opens ha
    rw [(openList_eq_ok.1 hb).1]
    rcases hgenerics with hpart | href
    · exact h.mem_of_childNodes hf hid (target_of_partGenerics hpart)
    · obtain ⟨part, hpart, htarget⟩ := target_of_generics href
      exact h.mem_of_childNodes hf (h.mem_of_childNodes hf hid hpart) htarget

end Tree

namespace ListView

variable {σ : Signature} {t : Tree σ} {R : Set NodeId} {v : ListView}

theorem within_putAt (h : t.Region R) (hv : v.binding.target ∈ R) {c : NodeId} (hc : c ∈ R)
    (index : Nat) : Tree.Within R t (v.putAt t index c) := by
  have hadopt := h.within_adopt hv hc
  exact hadopt.trans (hadopt.region.within_setSlot hv _ _)

theorem within_putValues (h : t.Region R) (hv : v.binding.target ∈ R) (xs : List Value) :
    Tree.Within R t (v.putValues t xs) :=
  h.within_setSlot hv _ _

theorem within_cleared (h : t.Region R) (hf : t.Forest) (hv : v.binding.target ∈ R) :
    Tree.Within R t (v.cleared t) := by
  unfold cleared
  split
  · next held hs =>
    refine h.within_foldl_detach fun c hc => h.mem_of_childNodes hf hv ?_
    exact Tree.mem_childNodes.2 ⟨v.place.index, .children held, hs, hc⟩
  · exact within_putValues h hv []
  · exact .refl h

end ListView

namespace Tree

variable {σ : Signature} {t t' : Tree σ} {R : Set NodeId} {m : Mutation}

/-- A successful mutation whose nodes are in a region stays within it. -/
theorem Effect.within (he : t.Effect m t') (hconf : t.Conforms) (hf : t.Forest) (h : t.Region R)
    (hm : ∀ x ∈ m.nodes, x ∈ R) : Within R t t' := by
  have hf' : t'.Forest := he.step.forest hconf hf
  -- The nodes of a list address come before those of the edit.
  have haddress : ∀ {a : ListAddress} {e : ListEdit} {v : ListView}, m = .editList a e →
      t.openAddress a = .ok v → v.binding.target ∈ R := by
    rintro a e v rfl ha
    exact h.target_mem hf ha fun x hx => hm x (List.mem_append_left _ hx)
  cases he with
  | @setChild id field p c hp hc =>
    refine h.within_putChild hf (hm id List.mem_cons_self) _ fun x hx => ?_
    exact hm x (List.mem_cons_of_mem _ (Option.mem_toList.2 hx))
  | setData hp hv => exact h.within_setSlot (hm _ (List.mem_singleton.2 rfl)) _ _
  | setRawForm hp _ hv => exact h.within_setSlot (hm _ (List.mem_singleton.2 rfl)) _ _
  | @insert a v e index c ha hins hc =>
    have hnodes : e.nodes = [c] := (ListView.insertion?_eq_some hins).1
    have hc : c ∈ R := hm c (List.mem_append_right _ (hnodes ▸ List.mem_singleton.2 rfl))
    exact ListView.within_putAt h (haddress rfl ha) hc index
  | @remove a v c ha hc =>
    exact h.within_detach (hm c (List.mem_append_right _ (List.mem_singleton.2 rfl)))
  | clear ha => exact ListView.within_cleared h hf (haddress rfl ha)
  | pushValue ha hl hx => exact ListView.within_putValues h (haddress rfl ha) _
  | removeValue ha hl hi => exact ListView.within_putValues h (haddress rfl ha) _
  | deepCopy => exact h.within_extend hf hf'

/-- The changes of a build stay within a region that has the new node and all moved nodes. -/
theorem within_forM_change (hσ : σ.Resolved) (hconf : t.Conforms) (hf : t.Forest)
    (h : t.Region R) {id : NodeId} (hid : id ∈ R) {changes : List Change}
    (hnodes : ∀ c ∈ changes.flatMap Change.nodes, c ∈ R) {u : PUnit}
    (hrun : changes.forM (Edit.change id) t = .ok u t') : Within R t t' := by
  induction changes generalizing t with
  | nil =>
    cases hrun
    exact .refl h
  | cons ch changes ih =>
    obtain ⟨t₁, he, hconf₁, hf₁, hrun⟩ := Edit.effect_of_forM_cons hσ hconf hf hrun
    rw [List.flatMap_cons] at hnodes
    have hfirst : Within R t t₁ := by
      refine he.within hconf hf h fun x hx => ?_
      rw [Change.nodes_mutation] at hx
      rcases List.mem_cons.1 hx with rfl | hx
      · exact hid
      · exact hnodes x (List.mem_append_left _ hx)
    exact hfirst.trans (ih hconf₁ hf₁ hfirst.region
      (fun c hc => hnodes c (List.mem_append_right _ hc)) hrun)

/-- A build whose assigned nodes are in a region stays within it, also when it is refused on the
way. -/
theorem CarriesOut.within {kind : String} {as : List Assignment} {done : List Change}
    (hd : t.CarriesOut kind as done t') (hσ : σ.Resolved) (hconf : t.Conforms) (hf : t.Forest)
    (h : t.Region R) (has : ∀ x ∈ as.flatMap Assignment.nodes, x ∈ R) : Within R t t' := by
  obtain ⟨kid, hstep, hrun⟩ := hd.exists_alloc
  have halloc : Within R t (t.alloc kid) := h.within_extend hf (hstep.forest hconf hf)
  exact halloc.trans (within_forM_change hσ (hstep.conforms hσ hconf) (hstep.forest hconf hf)
    halloc.region (h.free t.size (Nat.le_refl _)) (fun c hc => has c (hd.nodes_subset hc)) hrun)

/-! ## Runs -/

/-- A mutation whose nodes are in a region stays within it, whether it succeeds or not. -/
theorem within_apply (hσ : σ.Resolved) (hconf : t.Conforms) (hf : t.Forest) (h : t.Region R)
    (hm : ∀ x ∈ m.nodes, x ∈ R) : Within R t (t.apply m).1 := by
  rcases t.apply_spec m with hsame | ⟨-, -, -, he⟩ | ⟨kind, as, done, rfl, hd⟩
  · rw [hsame]
    exact .refl h
  · exact he.within hconf hf h hm
  · exact hd.within hσ hconf hf h hm

theorem within_applyAll (hσ : σ.Resolved) (hconf : t.Conforms) (hf : t.Forest) (h : t.Region R)
    {ms : List Mutation} (hms : ∀ m ∈ ms, ∀ x ∈ m.nodes, x ∈ R) :
    Within R t (t.applyAll ms).1 := by
  induction ms generalizing t with
  | nil => exact .refl h
  | cons m ms ih =>
    have hfirst := within_apply hσ hconf hf h (hms m List.mem_cons_self)
    obtain ⟨hconf₁, hf₁⟩ := forest_apply hσ hconf hf m
    exact hfirst.trans (ih hconf₁ hf₁ hfirst.region
      fun m' hm' => hms m' (List.mem_cons_of_mem _ hm'))

/-! ## Components and copies -/

/-- A union of components is a region, together with the numbers that are not in use. -/
theorem region_of_components (hf : t.Forest) {S : Set NodeId}
    (hS : ∀ x < t.size, ∀ y < t.size, t.rootOf x = t.rootOf y → (x ∈ S ↔ y ∈ S)) :
    t.Region {x | x ∈ S ∨ t.size ≤ x} := by
  refine ⟨fun c p hc => ?_, fun x hx => .inr hx⟩
  have hclt : c < t.size := lt_size_of_parent? hc
  have hplt : p < t.size := hf.parentsExist c p hc
  have hroot := hf.acyclic.rootOf_of_childOf hf.parentsExist hc
  show c ∈ S ∨ t.size ≤ c ↔ p ∈ S ∨ t.size ≤ p
  rw [hS c hclt p hplt hroot, iff_false_intro (Nat.not_le.2 hclt),
    iff_false_intro (Nat.not_le.2 hplt)]

/-- No parent leads from a copy to an old node or back. -/
theorem childOf_deepCopy (hf : t.Forest) {id c p : NodeId} (hid : id < t.size)
    (hc : (t.deepCopy id).ChildOf c p) : c < t.size ↔ p < t.size := by
  have hgrove := grove_copyBlock (fun p c hc => hf.lt_size hc) t.size none t.size hid
  rw [deepCopy_eq_extend] at hc
  constructor
  · intro hlt
    rw [ChildOf, parent?_extend_of_lt _ hlt] at hc
    exact hf.parentsExist c p hc
  · intro hlt
    refine Nat.not_le.1 fun hge => ?_
    exact absurd (parent?_extend_of_ge hgrove hge hc).1 (Nat.not_le.2 hlt)

theorem region_copy (hf : t.Forest) {id : NodeId} (hid : id < t.size) :
    (t.deepCopy id).Region {x | t.size ≤ x} := by
  refine ⟨fun c p hc => ?_, fun x hx => ?_⟩
  · show t.size ≤ c ↔ t.size ≤ p
    rw [← Nat.not_lt, childOf_deepCopy hf hid hc, Nat.not_lt]
  · rw [deepCopy_eq_extend, size_extend] at hx
    exact Nat.le_trans (Nat.le_add_right _ _) hx

theorem region_original (hf : t.Forest) {id : NodeId} (hid : id < t.size) :
    (t.deepCopy id).Region {x | x < t.size ∨ (t.deepCopy id).size ≤ x} := by
  refine ⟨fun c p hc => ?_, fun x hx => .inr hx⟩
  have hclt : c < (t.deepCopy id).size := lt_size_of_parent? hc
  have hplt : p < (t.deepCopy id).size := (hf.deepCopy id).parentsExist c p hc
  show c < t.size ∨ (t.deepCopy id).size ≤ c ↔ p < t.size ∨ (t.deepCopy id).size ≤ p
  rw [childOf_deepCopy hf hid hc, iff_false_intro (Nat.not_le.2 hclt),
    iff_false_intro (Nat.not_le.2 hplt)]

theorem size_lt_deepCopy (hf : t.Forest) {id : NodeId} (hid : id < t.size) :
    t.size < (t.deepCopy id).size := by
  have hgrove := grove_copyBlock (fun p c hc => hf.lt_size hc) t.size none t.size hid
  rw [deepCopy_eq_extend, size_extend]
  exact (hgrove.mem_roots (List.mem_singleton.2 rfl)).2

/-- The walk of a copy meets new nodes only. -/
theorem mem_walk_deepCopy (hf : t.Forest) {id : NodeId} (hid : id < t.size) {x : NodeId}
    (hx : x ∈ (t.deepCopy id).walk t.size) : t.size ≤ x ∧ x < (t.deepCopy id).size := by
  have hlt := size_lt_deepCopy hf hid
  have hleads := ((hf.deepCopy id).mem_walk hlt).1 hx
  exact ⟨((region_copy hf hid).mem_iff_of_leads hleads).2 (Nat.le_refl t.size),
    Forest.lt_size_of_leads hlt hleads⟩

end Tree

/-- Let `S` be a union of components of a reachable tree. A run of mutations that name only nodes of
`S` and nodes allocated since leaves every other node as it was. So mutations within the copy of a
subtree never change the subtree, and mutations within the subtree never change the copy. -/
theorem unchanged_outside_components {ts : List Template} {s : Schema}
    (hs : Schema.generate ts = .ok s) {t : Tree s.signature} (ht : t.Reachable) :
    (∀ S : Set NodeId,
      (∀ x < t.size, ∀ y < t.size, t.rootOf x = t.rootOf y → (x ∈ S ↔ y ∈ S)) →
      ∀ ms : List Mutation, (∀ m ∈ ms, ∀ x ∈ m.nodes, x ∈ S ∨ t.size ≤ x) →
      ∀ x < t.size, x ∉ S → (t.applyAll ms).1.node? x = t.node? x) ∧
    ∀ id < t.size, ∀ ms : List Mutation,
      ((∀ m ∈ ms, ∀ x ∈ m.nodes,
          x ∈ (t.deepCopy id).walk t.size ∨ (t.deepCopy id).size ≤ x) →
        ∀ x ∈ t.walk id, ((t.deepCopy id).applyAll ms).1.node? x = t.node? x) ∧
      ((∀ m ∈ ms, ∀ x ∈ m.nodes, x ∈ t.walk id ∨ (t.deepCopy id).size ≤ x) →
        ∀ x ∈ (t.deepCopy id).walk t.size,
          ((t.deepCopy id).applyAll ms).1.node? x = (t.deepCopy id).node? x) := by
  have hσ := resolved_of_generate hs
  have hconf := ht.conforms hσ
  have hf := ht.forest hσ
  refine ⟨fun S hS ms hms x hx hxS => ?_, fun id hid ms => ?_⟩
  · refine (Tree.within_applyAll hσ hconf hf (Tree.region_of_components hf hS) hms).same x ?_
    exact not_or.2 ⟨hxS, Nat.not_le.2 hx⟩
  · have hstep : t.Step (t.deepCopy id) := .deepCopy
    have hconf' := hstep.conforms hσ hconf
    have hf' := hstep.forest hconf hf
    have hold : ∀ x ∈ t.walk id, x < t.size := fun x hx =>
      Tree.Forest.lt_size_of_leads hid ((hf.mem_walk hid).1 hx)
    refine ⟨fun hms x hx => ?_, fun hms x hx => ?_⟩
    · have hms : ∀ m ∈ ms, ∀ y ∈ m.nodes, y ∈ {y | t.size ≤ y} := by
        intro m hm y hy
        rcases hms m hm y hy with hy | hy
        · exact (Tree.mem_walk_deepCopy hf hid hy).1
        · exact (Tree.region_copy hf hid).free y hy
      have hwithin := Tree.within_applyAll hσ hconf' hf' (Tree.region_copy hf hid) hms
      rw [hwithin.same x (Nat.not_le.2 (hold x hx))]
      exact Tree.node?_extend_of_lt _ (hold x hx)
    · have hms : ∀ m ∈ ms, ∀ y ∈ m.nodes, y ∈ {y | y < t.size ∨ (t.deepCopy id).size ≤ y} :=
        fun m hm y hy => (hms m hm y hy).imp_left (hold y)
      have hwithin := Tree.within_applyAll hσ hconf' hf' (Tree.region_original hf hid) hms
      obtain ⟨hge, hlt⟩ := Tree.mem_walk_deepCopy hf hid hx
      exact hwithin.same x (not_or.2 ⟨Nat.not_lt.2 hge, Nat.not_le.2 hlt⟩)

/-- Section 4 is taken into a new section and from there into a copy of that section, and a list is
cleared on the way. The other component does not change. Neither does section 2 when its copy, the
sections 5 to 7, is taken apart and put together in another way. -/
theorem unchanged_outside_sectionTree :
    Schema.generate sectionTemplates = .ok (Schema.ofTemplates sectionTemplates) ∧
      sectionTree.Reachable ∧ sectionTree.rootOf 1 = 3 ∧
      (sectionTree.applyAll
        [.build "Section" [.children "parts" [4]], .deepCopy 5, .setChild 6 "lead" (some 4),
          .editList (.field 6 "parts") .clear]).1.node? 1 = sectionTree.node? 1 ∧
      2 ∈ sectionTree.walk 2 ∧
      ((sectionTree.deepCopy 2).applyAll
        [.editList (.field 5 "parts") (.remove 6), .setChild 7 "lead" (some 5)]).1.node? 2 =
          sectionTree.node? 2 := by
  have hall := unchanged_outside_components generate_sectionTemplates reachable_sectionTree
  have hwalk : 2 ∈ sectionTree.walk 2 := by decide +kernel
  refine ⟨generate_sectionTemplates, reachable_sectionTree, by decide +kernel, ?_, hwalk, ?_⟩
  · refine hall.1 {x | x = 4} ?_ _ ?_ 1 (by decide +kernel) (by decide)
    · show ∀ x < sectionTree.size, ∀ y < sectionTree.size,
        sectionTree.rootOf x = sectionTree.rootOf y → (x = 4 ↔ y = 4)
      decide +kernel
    · show ∀ m ∈ _, ∀ x ∈ Mutation.nodes m, x = 4 ∨ sectionTree.size ≤ x
      decide +kernel
  · exact (hall.2 2 (by decide +kernel) _).1 (by decide +kernel) 2 hwalk

end Arbor
