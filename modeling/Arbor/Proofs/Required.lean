import Arbor.Proofs.Effect

/-!
# Required fields

No mutation that writes to a required field leaves it empty, and the nodes that are taken out of a
list are in no single field. But a node that is attached somewhere is first taken out of its
previous place, whether the field there is required or not. This is the only way in which a required
field becomes absent.
-/

namespace Arbor

/-! ## Taking nodes out of a slot -/

namespace Slot

theorem withoutAll_child (cs : List NodeId) (held : NodeId) :
    (child (some held)).withoutAll cs = if held ∈ cs then child none else child (some held) := by
  induction cs with
  | nil => rfl
  | cons c cs ih =>
    by_cases hc : held = c
    · subst hc
      have hempty : (child none).withoutAll cs = child none :=
        withoutAll_of_not_mem fun _ _ => List.not_mem_nil
      simpa [withoutAll, without] using hempty
    · simpa [withoutAll, without, hc] using ih

/-- A filled slot loses what it holds exactly if that is one of the nodes taken out. -/
theorem isFilled_withoutAll {cs : List NodeId} {s : Slot} (h : s.isFilled = true) :
    (s.withoutAll cs).isFilled = false ↔ ∃ c ∈ cs, s = child (some c) := by
  cases s with
  | child held =>
    obtain ⟨c, rfl⟩ := Option.isSome_iff_exists.1 h
    rw [withoutAll_child]
    by_cases hc : c ∈ cs <;> simp [hc, isFilled]
  | data held =>
    rw [withoutAll_of_not_mem (by simp [nodes]), h]
    simp
  | children held => cases h
  | values held => cases h

end Slot

/-- Storing a child, or none, fills its place and takes the child out of all other slots. -/
theorem Tree.Forest.slot?_putChild_all {σ : Signature} {t : Tree σ} (h : t.Forest) {id : NodeId}
    {i : Nat} {held : Option NodeId} (hs : t.slot? id i = some (.child held)) (c : Option NodeId)
    (x : NodeId) (j : Nat) :
    (t.putChild id i c).slot? x j = (t.slot? x j).map fun s =>
      if id = x ∧ i = j then .child c else s.withoutAll c.toList := by
  cases c with
  | none =>
    rw [Tree.putChild, slot?_setSlot, h.slot?_release hs, Option.map_map]
    refine Option.map_congr fun s _ => ?_
    by_cases hplace : id = x ∧ i = j <;> simp [hplace, Slot.withoutAll]
  | some c => exact h.slot?_putChild hs c x j

/-! ## What mutations write to and attach -/

namespace Mutation

/-- The nodes that a mutation attaches when it succeeds. -/
def attached : Mutation → List NodeId
  | build _ assignments => assignments.flatMap Assignment.nodes
  | setChild _ _ c => c.toList
  | editList _ edit => edit.attached
  | setData .. | setRawForm .. | deepCopy _ => []

/-- The single field that a mutation writes to. -/
def written? : Mutation → Option (NodeId × String)
  | setChild id field _ | setData id field _ | setRawForm id field _ => some (id, field)
  | build .. | editList .. | deepCopy _ => none

end Mutation

section Effects

variable {σ : Signature} {t t' : Tree σ} {m : Mutation} {id : NodeId} {n : Node} {p : Place}

/-- A node has one place at each position. -/
theorem Place.Of.eq_of_index {n' : Node} {q : Place} (hof' : q.Of t id n') (hof : p.Of t id n)
    (h : q.index = p.index) : q = p := by
  obtain rfl : n' = n := Option.some.inj (hof'.node.symm.trans hof.node)
  have hkind : q.kind = p.kind := Option.some.inj (hof'.kind.symm.trans hof.kind)
  have hfield : q.field = p.field := Option.some.inj ((h ▸ hof'.field).symm.trans hof.field)
  cases q
  cases p
  simp_all

/-- A located field is at the place `p` exactly if it has the name of the field there. -/
theorem Place.Of.same_iff (hσ : σ.Resolved) (hof : p.Of t id n) {x : NodeId} {field : String}
    {expected : List Category} {q : Place} (hq : t.locate x field expected = .ok q) :
    (x = id ∧ q.index = p.index) ↔ (x, field) = (id, p.field.name) := by
  obtain ⟨⟨n', hof'⟩, rfl, -⟩ := Tree.locate_eq_ok hq
  rw [Prod.mk.injEq]
  refine and_congr_right fun hx => ?_
  subst hx
  constructor
  · intro hindex
    rw [hof'.eq_of_index hof hindex]
  · obtain rfl : n' = n := Option.some.inj (hof'.node.symm.trans hof.node)
    exact hσ.index_eq hof'.field hof.field

/-- A view of a list is not at the place of a single field. -/
theorem ListView.ne_place {v : ListView} (hv : t.openList v.binding = .ok v) (hof : p.Of t id n)
    (hlist : p.field.decl.isList = false) :
    ¬ (v.binding.target = id ∧ v.place.index = p.index) := by
  rintro ⟨rfl, hindex⟩
  obtain ⟨⟨n', hof'⟩, -, hcat⟩ := Tree.locate_eq_ok (Tree.openList_eq_ok.1 hv).2
  rw [hof'.eq_of_index hof hindex] at hcat
  rw [← Field.isList_category] at hlist
  rcases List.mem_pair.1 hcat with hcat | hcat <;> rw [hcat] at hlist <;> cases hlist

namespace Tree

/-- A mutation that writes to a required field fills it. -/
theorem Effect.isFilled_of_written (he : t.Effect m t') (hσ : σ.Resolved) (hconf : t.Conforms)
    (hf : t.Forest) (hof : p.Of t id n) (hreq : p.field.decl.required = true)
    (hm : m.written? = some (id, p.field.name)) :
    ∃ s, t'.slot? id p.index = some s ∧ s.isFilled = true := by
  obtain ⟨old, hold, hslot⟩ := hconf.slot?_of hof
  -- The mutation has located the field at the same place, and so its checks are about this field.
  have hsame : ∀ {x : NodeId} {field : String} {expected : List Category} {q : Place},
      t.locate x field expected = .ok q → some (x, field) = some (id, p.field.name) →
      x = id ∧ q = p := by
    intro x field expected q hq hwritten
    obtain ⟨rfl, hindex⟩ := (hof.same_iff hσ hq).2 (Option.some.inj hwritten)
    obtain ⟨⟨n', hof'⟩, -, -⟩ := locate_eq_ok hq
    exact ⟨rfl, hof'.eq_of_index hof hindex⟩
  cases he with
  | @setChild x field q c hq hc =>
    obtain ⟨rfl, rfl⟩ := hsame hq hm
    cases c with
    | none => simp [checkChild, hreq] at hc
    | some c =>
      obtain ⟨held, rfl⟩ := hslot.eq_child (List.mem_singleton.1 (locate_eq_ok hq).2.2)
      rw [hf.slot?_putChild hold, hold]
      exact ⟨.child (some c), by simp, rfl⟩
  | @setData x field q v hq hv =>
    obtain ⟨rfl, rfl⟩ := hsame hq hm
    cases v with
    | none => simp [Place.checkValue, hreq] at hv
    | some v =>
      rw [slot?_setSlot, hold]
      exact ⟨.data (some v), by simp, rfl⟩
  | @setRawForm x field q text v hq _ hv =>
    obtain ⟨rfl, rfl⟩ := hsame hq hm
    rw [slot?_setSlot, hold]
    exact ⟨.data (some v), by simp, rfl⟩
  | _ => cases hm

/-- Taking nodes out one by one changes the slots as taking each out does. -/
theorem Forest.slot?_foldl_detach (hf : t.Forest) (cs : List NodeId) (x : NodeId) (i : Nat) :
    (cs.foldl Tree.detach t).slot? x i = (t.slot? x i).map (Slot.withoutAll cs) := by
  induction cs generalizing t with
  | nil => exact (Slot.map_withoutAll_nil _).symm
  | cons c cs ih =>
    rw [List.foldl_cons, ih (hf.detach c), slot?_detach (hf.ownedOnly c), Option.map_map]
    rfl

/-- Nodes of a list are in no single slot. -/
theorem Forest.withoutAll_of_list (hf : t.Forest) {v : ListView}
    (hv : t.openList v.binding = .ok v) (hof : p.Of t id n) (hlist : p.field.decl.isList = false)
    {held cs : List NodeId} (hs : v.slot? t = some (.children held)) (hcs : cs ⊆ held) :
    (t.slot? id p.index).map (Slot.withoutAll cs) = t.slot? id p.index := by
  cases hold : t.slot? id p.index with
  | none => rfl
  | some old =>
    rw [Option.map_some, Slot.withoutAll_of_not_mem fun c hc hmem => ?_]
    exact ListView.ne_place hv hof hlist (hf.eq_place hs (hcs hc) hold hmem)

/-- A single slot that a mutation does not write to loses the nodes that the mutation attaches, and
nothing else. -/
theorem Effect.slot?_of_not_written (he : t.Effect m t') (hσ : σ.Resolved) (hconf : t.Conforms)
    (hf : t.Forest) (hof : p.Of t id n) (hlist : p.field.decl.isList = false)
    (hm : m.written? ≠ some (id, p.field.name)) :
    t'.slot? id p.index = (t.slot? id p.index).map (Slot.withoutAll m.attached) := by
  -- The mutation writes to another place, for no two fields of a node have the same name.
  have hother : ∀ {x : NodeId} {field : String} {expected : List Category} {q : Place},
      t.locate x field expected = .ok q → some (x, field) ≠ some (id, p.field.name) →
      ¬ (x = id ∧ q.index = p.index) :=
    fun hq hwritten hplace => hwritten (congrArg some ((hof.same_iff hσ hq).1 hplace))
  have hset : ∀ {x : NodeId} {i : Nat} {s : Slot}, ¬ (x = id ∧ i = p.index) →
      (t.setSlot x i s).slot? id p.index = (t.slot? id p.index).map (Slot.withoutAll []) := by
    intro x i s hplace
    rw [slot?_setSlot, Slot.map_withoutAll_nil]
    simp [hplace]
  cases he with
  | @setChild x field q c hq hc =>
    obtain ⟨held, hs, -⟩ := hconf.exists_child hq
    rw [hf.slot?_putChild_all hs]
    simp only [hother hq hm, ↓reduceIte]
    rfl
  | setData hq _ => exact hset (hother hq hm)
  | setRawForm hq _ _ => exact hset (hother hq hm)
  | @insert a v e index c ha hins hc =>
    obtain ⟨held, hs⟩ := ListView.isChildList_eq_true.1 (ListView.checkInsert_eq_ok.1 hc).1
    have hplace := ListView.ne_place (openAddress_self ha) hof hlist
    rw [ListView.slot?_putAt hf hs, Mutation.attached, (ListView.insertion?_eq_some hins).2]
    simp only [hplace, ↓reduceIte]
    rfl
  | @remove a v c ha hc =>
    obtain ⟨held, hs, hmem⟩ := ListView.checkElement_eq_ok.1 hc
    rw [slot?_detach (hf.ownedOnly c)]
    have hkept := hf.withoutAll_of_list (openAddress_self ha) hof hlist hs
      (List.cons_subset.2 ⟨hmem, List.nil_subset _⟩)
    exact hkept.trans (Slot.map_withoutAll_nil _).symm
  | @clear a v ha =>
    rw [Mutation.attached, ListEdit.attached, Slot.map_withoutAll_nil, ListView.cleared]
    split
    · next held hs =>
      rw [hf.slot?_foldl_detach]
      exact hf.withoutAll_of_list (openAddress_self ha) hof hlist hs fun _ hc => hc
    · exact (hset (ListView.ne_place (openAddress_self ha) hof hlist)).trans
        (Slot.map_withoutAll_nil _)
    · rfl
  | pushValue ha _ _ => exact hset (ListView.ne_place (openAddress_self ha) hof hlist)
  | removeValue ha _ _ => exact hset (ListView.ne_place (openAddress_self ha) hof hlist)
  | deepCopy =>
    rw [deepCopy_eq_extend, Mutation.attached, Slot.map_withoutAll_nil, slot?, slot?,
      node?_extend_of_lt _ (lt_size_of_node? hof.node)]

/-! ## Builds -/

/-- The changes of a build take the nodes that they move out of all slots of other nodes. -/
theorem slot?_forM_of_ne (hσ : σ.Resolved) (hconf : t.Conforms) (hf : t.Forest) {base : NodeId}
    {changes : List Change} {u : PUnit} (hrun : changes.forM (Edit.change base) t = .ok u t')
    {x : NodeId} (hx : base ≠ x) (j : Nat) :
    t'.slot? x j = (t.slot? x j).map (Slot.withoutAll (changes.flatMap Change.nodes)) := by
  induction changes generalizing t with
  | nil =>
    cases hrun
    exact (Slot.map_withoutAll_nil _).symm
  | cons ch changes ih =>
    obtain ⟨t₁, hch, hrun⟩ := Edit.forM_cons_eq_ok.1 hrun
    obtain ⟨p, hdone⟩ := Edit.change_done hconf hf hch
    rw [ih (hdone.step.conforms hσ hconf) (hdone.step.forest hconf hf) hrun, hdone.puts,
      Option.map_map, List.flatMap_cons]
    refine Option.map_congr fun s _ => ?_
    rw [Slot.withoutAll_append, Function.comp_apply, if_neg fun hplace => hx hplace.1]

theorem CarriesOut.slot? {kind : String} {as : List Assignment} {done : List Change}
    (hd : t.CarriesOut kind as done t') (hσ : σ.Resolved) (hconf : t.Conforms) (hf : t.Forest)
    (hid : id < t.size) (j : Nat) :
    t'.slot? id j = (t.slot? id j).map (Slot.withoutAll (done.flatMap Change.nodes)) := by
  obtain ⟨kid, hstep, hrun⟩ := hd.exists_alloc
  rw [slot?_forM_of_ne hσ (hstep.conforms hσ hconf) (hstep.forest hconf hf) hrun
    (Nat.ne_of_gt hid), alloc_eq_extend, Tree.slot?, Tree.slot?, node?_extend_of_lt _ hid]

/-! ## How a required field becomes absent -/

/-- The mutation attaches `c` at another place than the field `name` of `id`. A build may have done
so and still be refused, any other mutation has to succeed. -/
inductive MovesAway (t : Tree σ) (id : NodeId) (name : String) (c : NodeId) : Mutation → Prop where
  | call {m : Mutation} {r : Option NodeId} :
      m.isBuild = false → (t.apply m).2 = .ok r → c ∈ m.attached →
      m.written? ≠ some (id, name) → MovesAway t id name c m
  | build {kind : String} {as : List Assignment} {done : List Change} {t' : Tree σ} :
      t.CarriesOut kind as done t' → c ∈ done.flatMap Change.nodes →
      MovesAway t id name c (.build kind as)

theorem not_movesAway {name : String} {c : NodeId}
    (h : m.attached = [] ∨ m.written? = some (id, name) ∨
      m.isBuild = false ∧ ∃ e, (t.apply m).2 = .error e) : ¬ t.MovesAway id name c m := by
  intro hmoves
  cases hmoves with
  | call hb hr hc hw =>
    rcases h with h | h | ⟨-, e, he⟩
    · rw [h] at hc
      cases hc
    · exact hw h
    · cases hr.symm.trans he
  | @build kind as done t' hd hc =>
    rcases h with h | h | h
    · have hassigned := hd.nodes_subset hc
      rw [show as.flatMap Assignment.nodes = [] from h] at hassigned
      cases hassigned
    · cases h
    · cases h.1

/-- A child that is moved away leaves its slot empty, required or not. -/
theorem MovesAway.slot?_apply {c : NodeId} (h : t.MovesAway id p.field.name c m)
    (hσ : σ.Resolved) (hconf : t.Conforms) (hf : t.Forest) (hof : p.Of t id n)
    (hlist : p.field.decl.isList = false)
    (hheld : t.slot? id p.index = some (.child (some c))) :
    (t.apply m).1.slot? id p.index = some (.child none) := by
  cases h with
  | call hb hr hc hw =>
    rcases apply_cases t hb with ⟨e, he⟩ | ⟨_, -, he⟩
    · rw [he] at hr
      cases hr
    · rw [he.slot?_of_not_written hσ hconf hf hof hlist hw, hheld, Option.map_some,
        Slot.withoutAll_child, if_pos hc]
  | build hd hc =>
    rw [hd.apply_eq, hd.slot? hσ hconf hf (lt_size_of_node? hof.node), hheld, Option.map_some,
      Slot.withoutAll_child, if_pos hc]

/-- If a required field that was filled is empty after a mutation, its child has been moved away. -/
theorem movesAway_of_empty (hσ : σ.Resolved) (hconf : t.Conforms) (hf : t.Forest)
    (hof : p.Of t id n) (hlist : p.field.decl.isList = false)
    (hreq : p.field.decl.required = true) {held left : Slot}
    (hheld : t.slot? id p.index = some held) (hfilled : held.isFilled = true)
    (hleft : (t.apply m).1.slot? id p.index = some left) (hempty : left.isFilled = false) :
    ∃ c, held = .child (some c) ∧ t.MovesAway id p.field.name c m := by
  -- Nodes have been taken out of the slot, and so one of them was the child in it.
  have htaken : ∀ {cs : List NodeId},
      (t.apply m).1.slot? id p.index = (t.slot? id p.index).map (Slot.withoutAll cs) →
      ∃ c ∈ cs, held = .child (some c) := by
    intro cs hslot
    rw [hleft, hheld] at hslot
    rw [Option.some.inj hslot] at hempty
    exact (Slot.isFilled_withoutAll hfilled).1 hempty
  rcases t.apply_spec m with hsame | ⟨hb, r, hr, he⟩ | ⟨kind, as, done, rfl, hd⟩
  · rw [hsame, hheld] at hleft
    obtain rfl := Option.some.inj hleft
    exact absurd (hempty.symm.trans hfilled) Bool.false_ne_true
  · by_cases hw : m.written? = some (id, p.field.name)
    · obtain ⟨s, hs, hfill⟩ := he.isFilled_of_written hσ hconf hf hof hreq hw
      obtain rfl := Option.some.inj (hs.symm.trans hleft)
      exact absurd (hempty.symm.trans hfill) Bool.false_ne_true
    · obtain ⟨c, hc, hcheld⟩ := htaken (he.slot?_of_not_written hσ hconf hf hof hlist hw)
      exact ⟨c, hcheld, .call hb hr hc hw⟩
  · obtain ⟨c, hc, hcheld⟩ := htaken (hd.slot? hσ hconf hf (lt_size_of_node? hof.node) _)
    exact ⟨c, hcheld, .build hd hc⟩

end Tree

end Effects

/-- A filled required field of a reachable tree is empty after a mutation exactly if it was the
field of a child that the mutation has attached somewhere else. So mutations that attach nothing,
that write to the field itself or that are refused without being builds never leave it empty. -/
theorem required_emptied_iff {ts : List Template} {s : Schema} (hs : Schema.generate ts = .ok s)
    {t : Tree s.signature} (ht : t.Reachable) (m : Mutation) {id : NodeId} {name : String}
    {p : Place} (hp : t.locate id name [.singleChild, .singleData] = .ok p)
    (hreq : p.field.decl.required = true) {held : Slot} (hheld : t.slot? id p.index = some held)
    (hfilled : held.isFilled = true) :
    ∃ left, (t.apply m).1.slot? id p.index = some left ∧
      (left.isFilled = false ↔ ∃ c, held = .child (some c) ∧ t.MovesAway id name c m) ∧
      (m.attached = [] ∨ m.written? = some (id, name) ∨
          m.isBuild = false ∧ (∃ e, (t.apply m).2 = .error e) →
        left.isFilled = true) := by
  have hσ := resolved_of_generate hs
  have hconf := ht.conforms hσ
  have hf := ht.forest hσ
  obtain ⟨⟨n, hof⟩, rfl, hcat⟩ := Tree.locate_eq_ok hp
  have hlist : p.field.decl.isList = false := by
    rw [← Field.isList_category]
    rcases List.mem_pair.1 hcat with hcat | hcat <;> rw [hcat] <;> rfl
  obtain ⟨_, hof'⟩ := hof.kept (Tree.steps_apply m).kindsKept
  obtain ⟨left, hleft, -⟩ := (Tree.forest_apply hσ hconf hf m).1.slot?_of hof'
  have hiff : left.isFilled = false ↔
      ∃ c, held = .child (some c) ∧ t.MovesAway id p.field.name c m := by
    constructor
    · exact Tree.movesAway_of_empty hσ hconf hf hof hlist hreq hheld hfilled hleft
    · rintro ⟨c, rfl, hmoves⟩
      have hempty := hmoves.slot?_apply hσ hconf hf hof hlist hheld
      obtain rfl := Option.some.inj (hempty.symm.trans hleft)
      rfl
  refine ⟨left, hleft, hiff, fun hm => ?_⟩
  rw [← Bool.not_eq_false, hiff]
  rintro ⟨c, -, hmoves⟩
  exact Tree.not_movesAway hm hmoves

/-- A box has to hold an item, a crate may hold one. Texts stand for the level 42, which no crate
has. -/
def crateTemplates : List Template :=
  [{ name := "Item" },
   { name := "Box", fields := [(FieldDecl.child "item" "Item").asRequired] },
   { name := "Crate"
     fields := [.child "item" "Item",
      ((FieldDecl.data "level" .int).bounded 0 9).withCodec (.constant 42)] }]

/-- Item 0 is in box 1. -/
def crateTree : Tree (Schema.ofTemplates crateTemplates).signature :=
  (Tree.empty.applyAll [.build "Item" [], .build "Box" [.child "item" 0]]).1

theorem generate_crateTemplates :
    Schema.generate crateTemplates = .ok (Schema.ofTemplates crateTemplates) := by
  rfl

theorem reachable_crateTree : crateTree.Reachable :=
  Tree.Reachable.empty.applyAll (by decide +kernel)

/-- The crate takes the item before the build finds that the level is out of bounds. -/
theorem carriesOut_crateTree : ∃ t', crateTree.CarriesOut "Crate"
    [.child "item" 0, .raw "level" "5"] [.setChild "item" 0] t' :=
  ⟨_, 2, _, [.setData "level" (.int 42)], rfl, rfl, rfl, fun ch hch => by
    obtain rfl := Option.some.inj hch
    exact ⟨_, rfl⟩⟩

/-- A build that is refused has taken the item out of the box. -/
theorem required_emptied_crateTree :
    Schema.generate crateTemplates = .ok (Schema.ofTemplates crateTemplates) ∧
      crateTree.Reachable ∧ crateTree.slot? 1 0 = some (.child (some 0)) ∧
      (crateTree.apply (.build "Crate" [.child "item" 0, .raw "level" "5"])).2 =
        .error (.contract "Crate" "level" (.outOfBounds 42 0 9)) ∧
      ∃ left, (crateTree.apply (.build "Crate" [.child "item" 0, .raw "level" "5"])).1.slot? 1 0 =
        some left ∧ left.isFilled = false := by
  have hplace : crateTree.locate 1 "item" [.singleChild, .singleData] = .ok ⟨_, 0, _⟩ := rfl
  have hheld : crateTree.slot? 1 0 = some (.child (some 0)) := by rfl
  obtain ⟨t', hd⟩ := carriesOut_crateTree
  obtain ⟨left, hleft, hiff, -⟩ := required_emptied_iff generate_crateTemplates reachable_crateTree
    (.build "Crate" [.child "item" 0, .raw "level" "5"]) hplace rfl hheld rfl
  refine ⟨generate_crateTemplates, reachable_crateTree, hheld, by rfl, left, hleft, ?_⟩
  exact hiff.2 ⟨0, rfl, .build hd (List.mem_singleton.2 rfl)⟩

end Arbor
