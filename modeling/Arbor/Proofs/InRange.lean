import Arbor.Proofs.Assigned
import Arbor.Proofs.Finds

/-!
# Numbers in range

In a reachable tree all numbers are in range. Mutations keep them so, also between the single writes
that they consist of, and they insert into a list at a position that the list has by then. No
operation that starts from nodes of the tree ever misses a node. An allocation and a copy are one
write each, which adds all their nodes; what they do node by node is not looked into here, only in
`Arbor.Proofs.Stepwise`, which says what it comes to.
-/

namespace Arbor

/-! ## Views -/

section Views

variable {σ : Signature} {t t' : Tree σ}

theorem Tree.KindsKept.locate_eq (h : t.KindsKept t') {id : NodeId} {k : Kind}
    (hk : t.kind id = .ok k) (field : String) (expected : List Category) :
    t'.locate id field expected = t.locate id field expected := by
  obtain ⟨n, hn, hkind⟩ := Tree.kind_eq_ok.1 hk
  obtain ⟨n', hn', hsame⟩ := h id n hn
  have hk' : t'.kind id = .ok k := Tree.kind_eq_ok.2 ⟨n', hn', hsame ▸ hkind⟩
  rw [Tree.locate, Tree.locate, hk, hk']

theorem Tree.KindsKept.openList (h : t.KindsKept t') {b : ListBinding} {v : ListView}
    (hv : t.openList b = .ok v) : t'.openList b = .ok v := by
  obtain ⟨hbinding, hplace⟩ := Tree.openList_eq_ok.1 hv
  obtain ⟨k, hk, -⟩ := bind_eq_ok.1 hplace
  exact Tree.openList_eq_ok.2 ⟨hbinding, (h.locate_eq hk _ _).trans hplace⟩

/-- What holds of a tree also between the writes of a mutation, when a node may name an owner that
does not hold it yet. -/
structure Tree.Midway (t : Tree σ) : Prop where
  conforms : t.Conforms
  parentsExist : t.ParentsExist
  ownedOnly : ∀ c, t.OwnedOnly c
  once : ∀ p, (t.childNodes p).Nodup

theorem Tree.Forest.midway (hf : t.Forest) (hconf : t.Conforms) : t.Midway :=
  ⟨hconf, hf.parentsExist, hf.ownedOnly, hf.once⟩

theorem Tree.Midway.inRange (h : t.Midway) : t.InRange :=
  h.conforms.inRange h.parentsExist

theorem ListView.inRange {v : ListView} (h : t.Midway) (hv : t.openList v.binding = .ok v) :
    v.InRange t := by
  obtain ⟨n, hof⟩ := place_of hv
  refine ⟨hof.inRange h.inRange, fun c hc => ?_, fun index c hc => ?_, fun index hl hi => ?_⟩
  · exact Nat.le_add_right_of_le (List.length_pos_of_mem hc)
  · obtain ⟨hlist, -, hindex⟩ := checkInsert_eq_ok.1 hc
    obtain ⟨held, hs⟩ := isChildList_eq_true.1 hlist
    -- Taking the node away may shorten this very list, and the check has counted with that.
    have hadopt : v.slot? (t.adopt v.binding.target c) =
        some (.children (held.filter (· ≠ c))) := by
      unfold slot? at hs ⊢
      rw [Tree.slot?_adopt (h.ownedOnly c), hs]
      rfl
    rw [contents_of_slot? hadopt]
    rwa [lengthWithout_of_nodup hs (Tree.nodup_of_slot? (h.once _) hs)] at hindex
  · obtain ⟨held, hs⟩ := slot?_of_checkDataList h.conforms hv hl
    have hcontents : v.contents t = [] := contents_of_slot? hs
    have hlt : index < v.length t := by
      by_contra hge
      simp [checkIndex, hge] at hi
    simpa [length, hcontents] using hlt

/-! ## Mutations -/

/-- The trees that a mutation passes between its writes, the first and the last among them. A copy
is one write, and so is the allocation that a build starts with: no tree stands for a moment at
which only some of their nodes are there. -/
inductive Tree.Passes : Tree σ → Mutation → Tree σ → Prop where
  | start {t : Tree σ} {m : Mutation} : Passes t m t
  | finish {t : Tree σ} {m : Mutation} : Passes t m (t.apply m).1
  /-- What the field held before has become a root. -/
  | released {t : Tree σ} {id : NodeId} {field : String} {p : Place} {c : Option NodeId} :
      t.locate id field [.singleChild] = .ok p → t.checkChild p id c = .ok () →
      Passes t (.setChild id field c) (t.release id p.index)
  /-- The new child has left its owner and is not stored yet. -/
  | adopted {t : Tree σ} {id c : NodeId} {field : String} {p : Place} :
      t.locate id field [.singleChild] = .ok p → t.checkChild p id (some c) = .ok () →
      Passes t (.setChild id field (some c)) ((t.release id p.index).adopt id c)
  | inserted {t : Tree σ} {a : ListAddress} {v : ListView} {e : ListEdit} {index : Nat}
      {c : NodeId} :
      t.openAddress a = .ok v → v.insertion? t e = some (index, c) →
      v.checkInsert t index c = .ok () → Passes t (.editList a e) (t.adopt v.binding.target c)
  | cleared {t : Tree σ} {a : ListAddress} {v : ListView} {cs : List NodeId} :
      t.openAddress a = .ok v → cs <+: v.contents t →
      Passes t (.editList a .clear) (cs.foldl Tree.detach t)
  /-- A build passes the trees of its changes, one after the other. -/
  | built {t u w : Tree σ} {kind : String} {as : List Assignment} {kid : KindId} {k : Kind}
      {done rest : List Change} {ch : Change} :
      σ.kindNamed? kind = some (kid, k) → t.draft k as = .ok (done ++ ch :: rest) →
      done.forM (Edit.change t.size) (t.alloc kid) = .ok ⟨⟩ u →
      Passes u (ch.mutation t.size) w → Passes t (.build kind as) w

theorem Tree.Forest.release_of_locate (hf : t.Forest) (hconf : t.Conforms) {id : NodeId}
    {field : String} {p : Place} (hp : t.locate id field [.singleChild] = .ok p) :
    (t.release id p.index).Forest := by
  obtain ⟨held, hs, -⟩ := hconf.exists_child hp
  exact (hf.release hs).1

theorem Tree.Forest.midway_adopt (hf : t.Forest) (hconf : t.Conforms) {p : NodeId}
    (hp : p < t.size) (c : NodeId) : (t.adopt p c).Midway := by
  have hparent : ∀ x, x ≠ c → (t.adopt p c).parent? x = t.parent? x := fun x hx => by
    rw [Tree.parent?, Tree.node?_adopt (hf.ownedOnly c), Tree.parent?]
    cases t.node? x with
    | none => rfl
    | some n => exact if_neg hx
  have hchildren : ∀ x, (t.adopt p c).childNodes x = (t.childNodes x).filter (· ≠ c) := fun x => by
    rw [Tree.adopt, Tree.childNodes_setParent, Tree.childNodes_detach (hf.ownedOnly c)]
  refine ⟨hconf.adopt p c, fun x q hq => ?_, fun x q hx => ?_, fun q => ?_⟩
  · rw [Tree.size_adopt]
    by_cases hx : x = c
    · subst hx
      obtain ⟨n', hn', hq⟩ := Tree.parent?_eq_some.1 hq
      rw [Tree.node?_adopt (hf.ownedOnly x)] at hn'
      obtain ⟨n, -, rfl⟩ := Option.map_eq_some_iff.1 hn'
      rw [if_pos rfl] at hq
      cases hq
      exact hp
    · exact hf.parentsExist x q ((hparent x hx).symm.trans hq)
  · rw [hchildren, List.mem_filter, decide_eq_true_iff] at hx
    rw [hparent x hx.2]
    exact hf.ownedOnly x q hx.1
  · rw [hchildren]
    exact (hf.once q).filter _

theorem Edit.steps_of_forM {id : NodeId} {changes : List Change} {u : PUnit}
    (hrun : changes.forM (Edit.change id) t = .ok u t') : t.Steps t' := by
  have hsteps := Edit.steps_forM id changes t
  rwa [Edit.outcome, hrun] at hsteps

theorem Tree.Passes.midway (hσ : σ.Resolved) {m : Mutation} {u : Tree σ} (h : t.Passes m u)
    (hconf : t.Conforms) (hf : t.Forest) : u.Midway ∧ t.KindsKept u := by
  induction h with
  | start => exact ⟨hf.midway hconf, .refl _⟩
  | @finish t m =>
    obtain ⟨hconf', hf'⟩ := Tree.forest_apply hσ hconf hf m
    exact ⟨hf'.midway hconf', (Tree.steps_apply m).kindsKept⟩
  | @released t id field p c hp hc =>
    have hf' := hf.release_of_locate hconf hp
    exact ⟨hf'.midway (hconf.release id p.index), Tree.kindsKept_release id p.index⟩
  | @adopted t id c field p hp hc =>
    have hf' := hf.release_of_locate hconf hp
    obtain ⟨⟨n, hof⟩, -⟩ := Tree.locate_eq_ok hp
    have hid : id < (t.release id p.index).size := by
      rw [Tree.size_release]
      exact Tree.lt_size_of_node? hof.node
    exact ⟨hf'.midway_adopt (hconf.release id p.index) hid c,
      (Tree.kindsKept_release id p.index).trans (Tree.kindsKept_adopt id c)⟩
  | @inserted t a v e index c hv he hc =>
    obtain ⟨n, hof⟩ := ListView.place_of (Tree.openAddress_self hv)
    exact ⟨hf.midway_adopt hconf (Tree.lt_size_of_node? hof.node) c,
      Tree.kindsKept_adopt v.binding.target c⟩
  | @cleared t a v cs hv hcs =>
    exact ⟨(hf.foldl_detach cs).midway (hconf.foldl_detach cs), Tree.kindsKept_foldl_detach cs⟩
  | @built t u w kind as kid k done rest ch hkind hdraft hrun hpass ih =>
    have hlt := (List.getElem?_eq_some_iff.1 (Signature.kindNamed?_eq_some hkind).1).1
    -- The change starts from a finished tree, so the induction hypothesis is about a forest again.
    have hsteps : t.Steps u := .head (.alloc hlt) (Edit.steps_of_forM hrun)
    obtain ⟨hconf', hf'⟩ := hsteps.forest hσ hconf hf
    obtain ⟨hmidway, hkept⟩ := ih hconf' hf'
    exact ⟨hmidway, hsteps.kindsKept.trans hkept⟩

end Views

/-! ## Answers of mutations -/

namespace Edit

variable {σ : Signature} {α β : Type} {P : α → Prop} {Q : β → Prop} {t : Tree σ}

theorem finds_ask_bind {f : Tree σ → Except Error α} {g : α → Edit σ β} (hf : Finds P (f t))
    (hg : ∀ a, f t = .ok a → P a → Finds Q ((g a).outcome t).2) :
    Finds Q ((ask f >>= g).outcome t).2 := by
  rw [outcome_ask_bind]
  cases hft : f t with
  | ok a => exact hg a hft (by rwa [hft] at hf)
  | error e => rwa [hft] at hf

theorem finds_bind_pure {e : Edit σ α} (he : Finds P (e.outcome t).2) (f : α → β)
    (hf : ∀ a, (e.outcome t).2 = .ok a → P a → Q (f a)) :
    Finds Q ((e >>= fun a => pure (f a)).outcome t).2 := by
  rw [outcome_bind_pure_snd]
  exact he.map hf

end Edit

namespace Tree.InRange

variable {σ : Signature} {t : Tree σ} (h : t.InRange)
include h

theorem finds_checkAttachable {c : NodeId} (hc : c < t.size) (p : Place) (parent : NodeId) :
    Finds (fun _ => True) (t.checkAttachable p parent c) := by
  refine (h.finds_kindId hc).bind fun kind _ _ => (σ.finds_checkAccepts p kind).bind fun _ _ _ => ?_
  split
  · exact .contract
  · exact True.intro

theorem finds_setChild {id : NodeId} (hid : id < t.size) (field : String) {c : Option NodeId}
    (hc : ∀ x ∈ c, x < t.size) :
    Finds (fun _ => True) ((Edit.setChild id field c).outcome t).2 := by
  refine Edit.finds_ask_bind (h.finds_locate hid field _) fun p _ _ =>
    Edit.finds_ask_bind (P := fun _ => True) ?_ fun _ _ _ => True.intro
  cases c with
  | none =>
    rw [checkChild]
    split
    · exact .contract
    · exact True.intro
  | some c => exact h.finds_checkAttachable (hc c rfl) p id

theorem finds_setData {id : NodeId} (hid : id < t.size) (field : String) (v : Option Value) :
    Finds (fun _ => True) ((Edit.setData id field v).outcome t).2 :=
  Edit.finds_ask_bind (h.finds_locate hid field _) fun p _ _ =>
    Edit.finds_ask_bind (p.finds_checkValue v) fun _ _ _ => True.intro

theorem finds_setRawForm {id : NodeId} (hid : id < t.size) (field : String)
    (text : Option String) :
    Finds (fun _ => True) ((Edit.setRawForm id field text).outcome t).2 :=
  Edit.finds_ask_bind (h.finds_locate hid field _) fun p _ _ =>
    Edit.finds_ask_bind (p.finds_decode text) fun v _ _ => h.finds_setData hid field (some v)

theorem finds_insert {c : NodeId} (hc : c < t.size) (v : ListView) (index : Nat) :
    Finds (fun _ => True) ((v.insert index c : Edit σ Unit).outcome t).2 := by
  rw [ListView.outcome_insert]
  unfold ListView.checkInsert
  split
  · refine (h.finds_checkAttachable hc v.place v.binding.target).bind fun _ _ _ => ?_
    dsimp only
    split
    · exact .contract
    · exact True.intro
  · exact .contract

omit h in
theorem finds_checkDataList (v : ListView) : Finds (fun _ => True) (v.checkDataList t) := by
  unfold ListView.checkDataList
  split
  · exact .contract
  · exact True.intro

theorem finds_edit (v : ListView) {e : ListEdit} (he : ∀ c ∈ e.nodes, c < t.size) :
    Finds (fun _ => True) ((v.edit e : Edit σ Unit).outcome t).2 := by
  cases e with
  | addToEnd c => exact h.finds_insert (he c List.mem_cons_self) v (v.lengthWithout t c)
  | addToStart c => exact h.finds_insert (he c List.mem_cons_self) v 0
  | insert index c => exact h.finds_insert (he c List.mem_cons_self) v index
  | remove c =>
    refine Edit.finds_ask_bind (P := fun _ => True) ?_ fun _ _ _ => True.intro
    unfold ListView.checkElement
    split
    · exact True.intro
    · exact .contract
  | clear => exact True.intro
  | pushValue x =>
    exact Edit.finds_ask_bind (finds_checkDataList v) fun _ _ _ =>
      Edit.finds_ask_bind (v.place.finds_checkValue (some x)) fun _ _ _ => True.intro
  | removeValue index =>
    refine Edit.finds_ask_bind (finds_checkDataList v) fun _ _ _ =>
      Edit.finds_ask_bind (P := fun _ => True) ?_ fun _ _ _ => True.intro
    unfold ListView.checkIndex
    split
    · exact True.intro
    · exact .contract

theorem finds_openList {b : ListBinding} (hb : b.target < t.size) :
    Finds (fun v => t.openList v.binding = .ok v) (t.openList b) := by
  have hfinds : Finds (fun _ => True) (t.openList b) :=
    (h.finds_locate hb b.field _).bind fun _ _ _ => True.intro
  exact hfinds.mono fun v hv _ => openList_self hv

theorem finds_openGenerics {id : NodeId} (hid : id < t.size) :
    Finds (fun v => t.openList v.binding = .ok v) (t.openGenerics id) := by
  refine (h.finds_kind hid).bind fun k _ _ => ?_
  split
  · exact (h.finds_partGenerics hid).bind fun b _ hb => h.finds_openList hb.target
  · exact (h.finds_generics hid).bind fun b _ hb => h.finds_openList hb.target

theorem finds_openAddress {a : ListAddress} (ha : ∀ x ∈ a.nodes, x < t.size) :
    Finds (fun v => t.openList v.binding = .ok v) (t.openAddress a) := by
  cases a with
  | field id field => exact h.finds_openList (ha id List.mem_cons_self)
  | binding b => exact h.finds_openList (ha b.target (List.mem_cons_of_mem _ List.mem_cons_self))
  | generics id => exact h.finds_openGenerics (ha id List.mem_cons_self)

theorem finds_placeOnce {c : NodeId} (hc : c < t.size) (p : Place) (placed : List NodeId) :
    Finds (fun _ => True) (t.placeOnce p placed c) := by
  refine (h.finds_kindId hc).bind fun kind _ _ => (σ.finds_checkAccepts p kind).bind fun _ _ _ => ?_
  split
  · exact .contract
  · exact True.intro

theorem finds_checkAssignment (k : Kind) (d : Draft) {a : Assignment}
    (ha : ∀ c ∈ a.nodes, c < t.size) : Finds (fun _ => True) (t.checkAssignment k d a) := by
  refine (k.finds_resolve a.field _).bind fun p _ _ => ?_
  cases a with
  | child field c =>
    exact (h.finds_placeOnce (ha c List.mem_cons_self) p d.placed).bind fun _ _ _ => True.intro
  | children field cs =>
    exact (Finds.foldlM (fun placed c hc => h.finds_placeOnce (ha c hc) p placed) d.placed).bind
      fun _ _ _ => True.intro
  | data field v => exact (p.finds_checkValue (some v)).bind fun _ _ _ => True.intro
  | values field vs =>
    exact (Finds.forM fun v _ => p.finds_checkValue (some v)).bind fun _ _ _ => True.intro
  | raw field text => exact (p.finds_decode (some text)).bind fun _ _ _ => True.intro

theorem finds_draft (k : Kind) {as : List Assignment}
    (has : ∀ c ∈ as.flatMap Assignment.nodes, c < t.size) :
    Finds (fun _ => True) (t.draft k as) := by
  refine (Finds.foldlM (fun d a ha => h.finds_checkAssignment k d fun c hc =>
    has c (List.mem_flatMap.2 ⟨a, ha, hc⟩)) _).bind fun d _ _ => ?_
  split
  · exact .contract
  · exact True.intro

end Tree.InRange

theorem Change.finds_checkValue (k : Kind) (ch : Change) :
    Finds (fun _ => True) (ch.checkValue k) := by
  refine (k.finds_resolve ch.field _).bind fun p _ _ => ?_
  cases ch with
  | setChild field c => exact True.intro
  | append field c => exact True.intro
  | setData field v => exact p.finds_checkValue (some v)
  | push field v => exact p.finds_checkValue (some v)

namespace Tree

variable {σ : Signature} {t : Tree σ}

theorem finds_build (hσ : σ.Resolved) (hconf : t.Conforms) (hf : t.Forest) (kind : String)
    {as : List Assignment} (has : ∀ c ∈ as.flatMap Assignment.nodes, c < t.size) :
    Finds (fun _ => True) ((Edit.build kind as).outcome t).2 := by
  refine Edit.finds_ask_bind (P := fun found => σ.kindNamed? kind = some found) ?_
    fun found _ hkind => Edit.finds_ask_bind ((hconf.inRange hf.parentsExist).finds_draft _ has)
      fun changes hdraft _ => ?_
  · cases σ.kindNamed? kind with
    | none => exact .contract
    | some found => rfl
  · have hk := (Signature.kindNamed?_eq_some hkind).1
    have hchanges : Finds (fun _ => True)
        ((changes.forM (Edit.change t.size)).outcome (t.alloc found.1)).2 := by
      rw [outcome_changes hσ hconf hf hk hdraft (.refl _)]
      exact Finds.forM fun ch _ => ch.finds_checkValue found.2
    exact Edit.finds_bind_pure hchanges (fun _ => t.size) fun _ _ _ => True.intro

/-- The answer of a mutation that names nodes of the tree: no node is missing, and a new node is one
of the tree. -/
theorem finds_apply (hσ : σ.Resolved) (hconf : t.Conforms) (hf : t.Forest) {m : Mutation}
    (hm : ∀ x ∈ m.nodes, x < t.size) :
    Finds (fun r => ∀ x ∈ r, x < (t.apply m).1.size) (t.apply m).2 := by
  have hrange := hconf.inRange hf.parentsExist
  have hnone : ∀ x ∈ (none : Option NodeId), x < (t.apply m).1.size := fun _ hx => by cases hx
  cases m with
  | build kind as =>
    refine Edit.finds_bind_pure (finds_build hσ hconf hf kind hm) some fun id hid _ x hx => ?_
    cases hx
    obtain ⟨kid, k, changes, hk, -, -, rfl, hrun⟩ :=
      Edit.build_eq_ok (Edit.eq_ok_of_outcome hid)
    obtain ⟨-, ⟨root, hroot, -⟩, -⟩ := building_start hσ hconf hf hk
    have hkept := (Edit.steps_of_forM hrun).kindsKept
    have hlt := hkept.lt_size (lt_size_of_node? hroot)
    rwa [← Edit.outcome_bind_pure_fst _ some] at hlt
  | setChild id field c =>
    refine Edit.finds_bind_pure (hrange.finds_setChild (hm id List.mem_cons_self) field
      fun x hx => hm x ?_) _ fun _ _ _ => hnone
    exact List.mem_cons_of_mem _ (Option.mem_toList.2 hx)
  | setData id field v =>
    exact Edit.finds_bind_pure (hrange.finds_setData (hm id List.mem_cons_self) field v) _
      fun _ _ _ => hnone
  | setRawForm id field text =>
    exact Edit.finds_bind_pure (hrange.finds_setRawForm (hm id List.mem_cons_self) field text) _
      fun _ _ _ => hnone
  | editList a e =>
    refine Edit.finds_ask_bind (hrange.finds_openAddress fun x hx =>
      hm x (List.mem_append_left _ hx)) fun v _ _ => ?_
    exact Edit.finds_bind_pure (hrange.finds_edit v fun c hc => hm c (List.mem_append_right _ hc)) _
      fun _ _ _ => hnone
  | deepCopy id =>
    intro x hx
    cases hx
    exact size_lt_deepCopy hf (hm id List.mem_cons_self)

end Tree

/-! ## The main statement -/

/-- What the operations count on in a tree, also between two writes: all numbers that it holds, all
fields that are located and all lists that are opened are in range. -/
structure Tree.Safe {σ : Signature} (t : Tree σ) : Prop where
  inRange : t.InRange
  locate : ∀ id < t.size, ∀ field expected,
    Finds (fun p => p.InRange t id) (t.locate id field expected)
  view : ∀ v : ListView, t.openList v.binding = .ok v → v.InRange t

theorem Tree.Midway.safe {σ : Signature} {t : Tree σ} (h : t.Midway) : t.Safe where
  inRange := h.inRange
  locate _ hid := h.inRange.finds_locate hid
  view _ := ListView.inRange h

/-- What every reader of a node, every traversal from it and every view of its lists come upon: no
node or kind is missing, and all numbers are in range. -/
structure Tree.Reads {σ : Signature} (t : Tree σ) (id : NodeId) : Prop where
  kindId : Finds (· < σ.kinds.length) (t.kindId id)
  kind : Finds (· ∈ σ.kinds) (t.kind id)
  ancestors : ∀ a ∈ t.ancestors id, a < t.size
  rootOf : t.rootOf id < t.size
  walk : ∀ x ∈ t.walk id, x < t.size
  child : ∀ field, Finds (fun c => ∀ x ∈ c, x < t.size) (t.child id field)
  children : ∀ field, Finds (fun cs => ∀ x ∈ cs, x < t.size) (t.children id field)
  data : ∀ field, Finds (fun _ => True) (t.data id field)
  dataList : ∀ field, Finds (fun _ => True) (t.dataList id field)
  rawForm : ∀ field, Finds (fun _ => True) (t.rawForm id field)
  openList : ∀ owner field, Finds (fun v => v.InRange t) (t.openList ⟨owner, id, field⟩)
  openGenerics : Finds (fun v => v.InRange t) (t.openGenerics id)
  generics : Finds (fun b => b.InRange t) (t.generics id)
  partGenerics : Finds (fun b => b.InRange t) (t.partGenerics id)
  hasGenerics : Finds (fun _ => True) (t.hasGenerics id)
  typeName : Finds (fun _ => True) (t.typeName id)
  partTypeName : Finds (fun _ => True) (t.partTypeName id)

theorem Tree.Safe.reads {σ : Signature} {t : Tree σ} (hsafe : t.Safe) {id : NodeId}
    (hid : id < t.size) : t.Reads id := by
  have h := hsafe.inRange
  exact {
    kindId := h.finds_kindId hid
    kind := h.finds_kind hid
    ancestors := fun _ => h.ancestors_lt_size
    rootOf := h.rootOf_lt_size hid
    walk := h.visit_lt_size fun x hx => List.mem_singleton.1 hx ▸ hid
    child := h.finds_child hid
    children := h.finds_children hid
    data := h.finds_data hid
    dataList := h.finds_dataList hid
    rawForm := h.finds_rawForm hid
    openList := fun owner field => (h.finds_openList hid).mono fun v _ => hsafe.view v
    openGenerics := (h.finds_openGenerics hid).mono fun v _ => hsafe.view v
    generics := h.finds_generics hid
    partGenerics := h.finds_partGenerics hid
    hasGenerics := h.finds_hasGenerics hid
    typeName := h.finds_refText _ id hid
    partTypeName := h.finds_partText hid (h.finds_refText _) }

theorem Schema.exists_kindSpec {s : Schema} {t : Tree s.signature} (h : t.InRange) {id : NodeId}
    (hid : id < t.size) : ∃ n k, t.node? id = some n ∧ s.kinds[n.kind]? = some k ∧
      n.slots.length = k.fields.length := by
  obtain ⟨n, k, hn, hk, hlength⟩ := h.exists_kind hid
  rw [Schema.signature, List.getElem?_map] at hk
  obtain ⟨spec, hspec, rfl⟩ := Option.map_eq_some_iff.1 hk
  exact ⟨n, spec, hn, hspec, hlength⟩

theorem Schema.finds_derive {s : Schema} (hs : ∀ k ∈ s.kinds, ∀ a ∈ k.accessors, a.Sound)
    {t : Tree s.signature} (h : t.InRange) {id : NodeId} (hid : id < t.size) (name : String) :
    Finds (Derived.InRange t) (s.derive t id name) := by
  obtain ⟨n, k, hn, hk, -⟩ := Schema.exists_kindSpec h hid
  simp only [derive, hn, Option.bind_some, hk]
  cases ha : accessor? k name with
  | none => exact .contract
  | some a => exact hs k (List.mem_of_getElem? hk) a (List.mem_of_find?_eq_some ha) _ t h id hid

/-- In a reachable tree over a generated schema, every number that an operation uses is in range.
Readers, traversals and derived accessors of a node find every node and kind they look up, and
validation finds the node and the kind of all that it walks through. A mutation that names nodes of
the tree never misses one; the trees between its writes are in range as well, and fields are located
there as before, where an allocation or a copy is one write and there is no tree within it. A view
stays open and in range whatever happens to the tree. -/
theorem in_range_of_reachable {ts : List Template} {s : Schema} (hs : Schema.generate ts = .ok s)
    {t : Tree s.signature} (ht : t.Reachable) :
    s.signature.InRange ∧ t.Safe ∧
    (∀ id < t.size, t.Reads id ∧
      (∀ x ∈ t.walk id, ∃ n k, t.node? x = some n ∧ s.kinds[n.kind]? = some k ∧
        n.slots.length = k.fields.length) ∧
      ((∀ k ∈ s.kinds, ∀ a ∈ k.accessors, a.Sound) →
        ∀ name, Finds (Derived.InRange t) (s.derive t id name))) ∧
    (∀ template ∈ Standard.templates, ∀ a ∈ template.accessors, a.Sound) ∧
    (∀ m : Mutation, (∀ x ∈ m.nodes, x < t.size) →
      Finds (fun r => ∀ x ∈ r, x < (t.apply m).1.size) (t.apply m).2 ∧
      ∀ u, t.Passes m u → u.Safe ∧ ∀ id < t.size, id < u.size ∧
        ∀ field expected, u.locate id field expected = t.locate id field expected) ∧
    ∀ b v, t.openList b = .ok v → ∀ ms,
      (t.applyAll ms).1.openList b = .ok v ∧ v.InRange (t.applyAll ms).1 := by
  have hσ := resolved_of_generate hs
  have hconf := ht.conforms hσ
  have hf := ht.forest hσ
  have hsafe := (hf.midway hconf).safe
  refine ⟨inRange_of_generate hs, hsafe, fun id hid => ⟨hsafe.reads hid, fun x hx => ?_, ?_⟩,
    fun _ hmem _ => Accessor.sound_of_standard hmem,
    fun m hm => ⟨Tree.finds_apply hσ hconf hf hm, fun u hu => ?_⟩, fun b v hv ms => ?_⟩
  · exact Schema.exists_kindSpec hsafe.inRange ((hsafe.reads hid).walk x hx)
  · exact fun hsound => Schema.finds_derive hsound hsafe.inRange hid
  · obtain ⟨hmidway, hkept⟩ := hu.midway hσ hconf hf
    refine ⟨hmidway.safe, fun id hid => ⟨hkept.lt_size hid, ?_⟩⟩
    obtain ⟨n, k, hn, hk, -⟩ := hsafe.inRange.exists_kind hid
    exact hkept.locate_eq (Tree.kind_eq_ok.2 ⟨n, hn, hk⟩)
  · have hsteps := Tree.steps_applyAll (t := t) ms
    obtain ⟨hconf', hf'⟩ := hsteps.forest hσ hconf hf
    have hv' := hsteps.kindsKept.openList hv
    exact ⟨hv', (hf'.midway hconf').safe.view v (Tree.openList_self hv')⟩

/-- The item in the first field of the group moves to the list of the same group. -/
theorem in_range_groupTree :
    Schema.generate groupTemplates = .ok (Schema.ofTemplates groupTemplates) ∧
      groupTree.Reachable ∧ groupTree.child 1 "first" = .ok (some 0) ∧ groupTree.Reads 1 ∧
      (groupTree.apply (.editList (.field 1 "rest") (.addToEnd 0))).2 = .ok none ∧
      (groupTree.adopt 1 0).Safe ∧ ∃ v, groupTree.list 1 "rest" = .ok v ∧
        v.InRange (groupTree.apply (.editList (.field 1 "rest") (.addToEnd 0))).1 := by
  obtain ⟨-, -, hreads, -, hmutation, hview⟩ :=
    in_range_of_reachable generate_groupTemplates reachable_groupTree
  have hadopted : groupTree.Passes (.editList (.field 1 "rest") (.addToEnd 0))
      (groupTree.adopt 1 0) :=
    @Tree.Passes.inserted _ groupTree (.field 1 "rest") ⟨⟨1, 1, "rest"⟩, _⟩ (.addToEnd 0) 0 0
      rfl rfl rfl
  exact ⟨generate_groupTemplates, reachable_groupTree, rfl, (hreads 1 (by decide)).1, rfl,
    ((hmutation _ (by decide)).2 _ hadopted).1, _, rfl,
    (hview ⟨1, 1, "rest"⟩ _ rfl [.editList (.field 1 "rest") (.addToEnd 0)]).2⟩

end Arbor
