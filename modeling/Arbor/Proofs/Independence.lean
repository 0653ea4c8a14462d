import Arbor.Proofs.Bare

/-!
# Structure does not depend on data

Two trees agree when they have the same nodes and no reader of kinds, parents or child fields tells
them apart. Conforming trees that agree are the same once their data is taken out, because the kind
of a node fixes which of its slots hold data. So whatever two reachable trees that agree hold in
their data fields, they answer alike and go on to agree; and a tree agrees with what a write to a
data field makes of it.
-/

namespace Arbor

namespace Tree

variable {σ : Signature} {t t' : Tree σ}

/-- The trees have the same nodes, and readers of kinds, parents and child fields cannot tell them
apart. -/
structure Agree (t t' : Tree σ) : Prop where
  size : t.size = t'.size
  kinds : ∀ id, t.kindId id = t'.kindId id
  parents : ∀ id, t.parent? id = t'.parent? id
  child : ∀ id field, t.child id field = t'.child id field
  children : ∀ id field, t.children id field = t'.children id field

theorem agree_of_bare_eq (h : t.bare = t'.bare) : t.Agree t' where
  size := by rw [← t.size_bare, h, size_bare]
  kinds id := by rw [← t.kindId_bare, h, kindId_bare]
  parents id := by rw [← t.parent?_bare, h, parent?_bare]
  child id field := by rw [← t.child_bare, h, child_bare]
  children id field := by rw [← t.children_bare, h, children_bare]

/-- Slots of agreeing trees at one place hold the same nodes. -/
theorem Agree.bare_slot_eq (h : t.Agree t') (hσ : σ.Resolved) {id : NodeId} {p : Place}
    {n n' : Node} (hp : p.Of t id n) (hp' : p.Of t' id n') {s s' : Slot}
    (hs : t.slot? id p.index = some s) (hs' : t'.slot? id p.index = some s')
    (hconf : s.Conforms t p.field) (hconf' : s'.Conforms t' p.field) : s.bare = s'.bare := by
  cases s with
  | child held =>
    obtain ⟨held', rfl⟩ := hconf'.eq_child hconf.1
    have hcat : p.field.category ∈ [Category.singleChild] := List.mem_singleton.2 hconf.1
    have hread := h.child id p.field.name
    rw [child_of_locate (hp.locate_eq hσ hcat), child_of_locate (hp'.locate_eq hσ hcat), hs,
      hs'] at hread
    obtain rfl : held = held' := Except.ok.inj hread
    rfl
  | children held =>
    obtain ⟨held', rfl⟩ := hconf'.eq_children hconf.1
    have hcat : p.field.category ∈ [Category.listChild] := List.mem_singleton.2 hconf.1
    have hread := h.children id p.field.name
    rw [children_of_locate (hp.locate_eq hσ hcat), children_of_locate (hp'.locate_eq hσ hcat), hs,
      hs'] at hread
    obtain rfl : held = held' := Except.ok.inj hread
    rfl
  | data held =>
    obtain ⟨held', rfl⟩ := hconf'.eq_data hconf.1
    rfl
  | values held =>
    obtain ⟨held', rfl⟩ := hconf'.eq_values hconf.1
    rfl

/-- Nodes of agreeing trees are the same but for data. -/
theorem Agree.bare_node_eq (h : t.Agree t') (hσ : σ.Resolved) {id : NodeId} {n n' : Node}
    (hn : t.node? id = some n) (hn' : t'.node? id = some n') (hconf : n.Conforms t)
    (hconf' : n'.Conforms t') : n.bare = n'.bare := by
  have hkind : n.kind = n'.kind := by simpa [kindId, hn, hn'] using h.kinds id
  have hparent : n.parent = n'.parent := by
    rw [← parent?_of_node? hn, h.parents id, parent?_of_node? hn']
  obtain ⟨k, hk⟩ : ∃ k, σ.kinds[n.kind]? = some k := ⟨_, List.getElem?_eq_getElem hconf.kind⟩
  have hfields : List.Forall₂ (Slot.Conforms t') (σ.fields n.kind) n'.slots := hkind ▸ hconf'.slots
  have hslots : n.slots.map Slot.bare = n'.slots.map Slot.bare := by
    refine List.ext_getElem? fun i => ?_
    rw [List.getElem?_map, List.getElem?_map]
    cases hf : (σ.fields n.kind)[i]? with
    | none =>
      have hlen := List.getElem?_eq_none_iff.1 hf
      rw [List.getElem?_eq_none (hconf.slots.length_eq ▸ hlen),
        List.getElem?_eq_none (hfields.length_eq ▸ hlen)]
    | some f =>
      obtain ⟨s, hs, hsconf⟩ := forall₂_getElem? hconf.slots hf
      obtain ⟨s', hs', hsconf'⟩ := forall₂_getElem? hfields hf
      have hp : Place.Of t id ⟨k, i, f⟩ n := ⟨hn, hk, hf⟩
      have hp' : Place.Of t' id ⟨k, i, f⟩ n' := ⟨hn', hkind ▸ hk, hkind ▸ hf⟩
      rw [hs, hs', Option.map_some, Option.map_some, h.bare_slot_eq hσ hp hp'
        (by rwa [slot?_of_node? hn]) (by rwa [slot?_of_node? hn']) hsconf hsconf']
  simp only [Node.bare, hkind, hparent, hslots]

/-- Conforming trees that agree are the same but for data. -/
theorem Agree.bare_eq (h : t.Agree t') (hσ : σ.Resolved) (hconf : t.Conforms)
    (hconf' : t'.Conforms) : t.bare = t'.bare := by
  refine ext_node? fun id => ?_
  rw [node?_bare, node?_bare]
  rcases Nat.lt_or_ge id t.size with hid | hid
  · obtain ⟨n, hn⟩ := exists_node? hid
    obtain ⟨n', hn'⟩ := exists_node? (h.size ▸ hid : id < t'.size)
    rw [hn, hn', Option.map_some, Option.map_some,
      h.bare_node_eq hσ hn hn' (hconf id n hn) (hconf' id n' hn')]
  · have hnone : t.node? id = none := Array.getElem?_eq_none hid
    have hnone' : t'.node? id = none := Array.getElem?_eq_none (h.size ▸ hid : t'.size ≤ id)
    rw [hnone, hnone']

/-! ## Writing data -/

/-- Storing data where data is changes nothing else. -/
theorem bare_setSlot_of_slot? {id : NodeId} {i : Nat} {old new : Slot}
    (hs : t.slot? id i = some old) (hbare : new.bare = old.bare) :
    (t.setSlot id i new).bare = t.bare := by
  rw [bare_setSlot, hbare]
  exact setSlot_of_slot? (by rw [slot?_bare, hs, Option.map_some])

end Tree

/-- The mutation writes to a data field or to a list of values, if it finds one. -/
def Mutation.WritesData {σ : Signature} (t : Tree σ) : Mutation → Prop
  | setData .. | setRawForm .. => True
  | editList _ (.pushValue _) | editList _ (.removeValue _) => True
  | editList a .clear => ∀ v, t.openAddress a = .ok v → v.isChildList t = false
  | _ => False

namespace Tree

variable {σ : Signature} {t t' : Tree σ} {m : Mutation}

theorem bare_putData (hconf : t.Conforms) {id : NodeId} {field : String} {p : Place}
    (hp : t.locate id field [.singleData] = .ok p) (v : Option Value) :
    (t.setSlot id p.index (.data v)).bare = t.bare := by
  obtain ⟨⟨n, hof⟩, -, hcat⟩ := locate_eq_ok hp
  obtain ⟨s, hs, hsconf⟩ := hconf.slot?_of hof
  obtain ⟨held, rfl⟩ := hsconf.eq_data (List.mem_singleton.1 hcat)
  exact bare_setSlot_of_slot? hs rfl

theorem bare_putValues_of (hconf : t.Conforms) {a : ListAddress} {v : ListView}
    (ha : t.openAddress a = .ok v) (hl : v.isChildList t = false) (xs : List Value) :
    (v.putValues t xs).bare = t.bare := by
  have hl := ListView.checkDataList_eq_ok.2 hl
  obtain ⟨held, hs⟩ := ListView.slot?_of_checkDataList hconf (openAddress_self ha) hl
  exact bare_setSlot_of_slot? hs rfl

/-- A successful write to data changes nothing else. -/
theorem Effect.bare_eq (he : t.Effect m t') (hconf : t.Conforms) (hm : m.WritesData t) :
    t'.bare = t.bare := by
  cases he with
  | setChild hp hc => cases hm
  | setData hp hv => exact bare_putData hconf hp _
  | setRawForm hp _ hv => exact bare_putData hconf hp _
  | @insert a v e index c ha hins hc =>
    cases e with
    | addToEnd | addToStart | insert => cases hm
    | remove | clear | pushValue | removeValue => cases hins
  | remove ha hc => cases hm
  | @clear a v ha =>
    have hl := hm v ha
    unfold ListView.cleared
    split
    · next held hs =>
      rw [ListView.isChildList, hs] at hl
      cases hl
    · exact bare_putValues_of hconf ha hl []
    · rfl
  | pushValue ha hl _ =>
    exact bare_putValues_of hconf ha (ListView.checkDataList_eq_ok.1 hl) _
  | removeValue ha hl _ =>
    exact bare_putValues_of hconf ha (ListView.checkDataList_eq_ok.1 hl) _
  | deepCopy => cases hm

theorem bare_apply_of_writesData (hconf : t.Conforms) (hm : m.WritesData t) :
    (t.apply m).1.bare = t.bare := by
  have hbuild : m.isBuild = false := by
    cases m with
    | build kind as => cases hm
    | _ => rfl
  rcases t.apply_cases hbuild with ⟨e, he⟩ | ⟨r, -, he⟩
  · rw [he]
  · exact he.bare_eq hconf hm

end Tree

/-- Take two reachable trees of a generated schema that agree on their nodes, kinds, parents and
child fields. Whatever their data fields hold, every run of mutations without removals of values
gives both the same answers and leaves trees that agree again, and so does an edit through an open
view of a list. Walks, children, ancestors, roots and the comparison of shapes cannot tell them
apart. In particular no write of data has an influence on the comparison of shapes. -/
theorem structure_independent_of_data {ts : List Template} {s : Schema}
    (hs : Schema.generate ts = .ok s) {t t' : Tree s.signature} (ht : t.Reachable)
    (ht' : t'.Reachable) (h : t.Agree t') :
    (∀ ms : List Mutation, (∀ m ∈ ms, ∀ a index, m ≠ .editList a (.removeValue index)) →
      (t.applyAll ms).2 = (t'.applyAll ms).2 ∧ (t.applyAll ms).1.Agree (t'.applyAll ms).1) ∧
    (∀ (v : ListView) (e : ListEdit), (∀ index, e ≠ .removeValue index) →
      ((v.edit e).outcome t).2 = ((v.edit e).outcome t').2 ∧
        ((v.edit e).outcome t).1.Agree ((v.edit e).outcome t').1) ∧
    (∀ a b, t.walk a = t'.walk a ∧ t.childNodes a = t'.childNodes a ∧
      t.ancestors a = t'.ancestors a ∧ t.rootOf a = t'.rootOf a ∧
      t.structurallyEqual a b = t'.structurallyEqual a b) ∧
    ∀ m : Mutation, m.WritesData t →
      ∀ a b, (t.apply m).1.structurallyEqual a b = t.structurallyEqual a b := by
  have hσ := resolved_of_generate hs
  have hconf := ht.conforms hσ
  have hbare : t.bare = t'.bare := h.bare_eq hσ hconf (ht'.conforms hσ)
  refine ⟨fun ms hms => ?_, fun v e he => ?_, fun a b => ⟨?_, ?_, ?_, ?_, ?_⟩, fun m hm a b => ?_⟩
  · obtain ⟨hanswers, htrees⟩ := Tree.applyAll_of_bare_eq hbare hms
    exact ⟨hanswers, Tree.agree_of_bare_eq htrees⟩
  · obtain ⟨hanswer, htree⟩ := v.blind_edit he t t' hbare
    exact ⟨hanswer, Tree.agree_of_bare_eq htree⟩
  · rw [← t.walk_bare, hbare, Tree.walk_bare]
  · rw [← t.childNodes_bare, hbare, Tree.childNodes_bare]
  · rw [← t.ancestors_bare, hbare, Tree.ancestors_bare]
  · rw [← t.rootOf_bare, hbare, Tree.rootOf_bare]
  · rw [← t.structurallyEqual_bare, hbare, Tree.structurallyEqual_bare]
  · rw [← Tree.structurallyEqual_bare, Tree.bare_apply_of_writesData hconf hm,
      Tree.structurallyEqual_bare]

/-- The sample tree with another level of item 0. -/
def relevelledTree : Tree (Schema.ofTemplates groupTemplates).signature :=
  (groupTree.apply (.setData 0 "level" (some (.int 3)))).1

/-- Group 1 is copied with its item, a build is refused on the way and leaves item 6 behind, and
item 0 is moved to the copy. The level of item 0 has no part in this. -/
theorem structure_independent_groupTree :
    groupTree.Reachable ∧ relevelledTree.Reachable ∧ groupTree.Agree relevelledTree ∧
      groupTree.data 0 "level" = .ok (some (.int 7)) ∧
      relevelledTree.data 0 "level" = .ok (some (.int 3)) ∧
      (groupTree.applyAll [.deepCopy 1, .build "Item" [.raw "level" "5"],
        .editList (.field 4 "rest") (.addToEnd 0)]).2 =
      (relevelledTree.applyAll [.deepCopy 1, .build "Item" [.raw "level" "5"],
        .editList (.field 4 "rest") (.addToEnd 0)]).2 := by
  have hreach : relevelledTree.Reachable := reachable_groupTree.step (by decide +kernel)
  have hagree : groupTree.Agree relevelledTree := Tree.agree_of_bare_eq (by decide +kernel)
  have hall := structure_independent_of_data generate_groupTemplates reachable_groupTree hreach hagree
  exact ⟨reachable_groupTree, hreach, hagree, rfl, rfl, (hall.1 _ (by simp)).1⟩

end Arbor
