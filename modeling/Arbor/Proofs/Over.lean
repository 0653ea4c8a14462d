import Arbor.Proofs.Effect
import Arbor.Proofs.Finds
import Arbor.Handle

/-!
# Trees over a larger signature

A signature may be extended by further kinds after its own. The nodes of a tree also make up a tree
over the extended signature. `Tree.over` is this tree: it reads the same, and a mutation does the
same to it and gives the same answer, as long as no build names one of the further kinds.
-/

namespace Arbor

/-- The signature `σ'` has the kinds of `σ`, each at its place, and perhaps more after them. -/
def Signature.ExtendedBy (σ σ' : Signature) : Prop :=
  ∃ more, σ'.kinds = σ.kinds ++ more

namespace Signature.ExtendedBy

variable {σ σ' : Signature} (h : σ.ExtendedBy σ') {id : KindId} (hid : id < σ.kinds.length)
include h hid

theorem kinds_eq : σ'.kinds[id]? = σ.kinds[id]? := by
  obtain ⟨more, hmore⟩ := h
  rw [hmore, List.getElem?_append_left hid]

theorem fields_eq : σ'.fields id = σ.fields id := by
  rw [fields, fields, h.kinds_eq hid]

theorem accepts_eq (a : Accepts) : σ'.accepts a id = σ.accepts a id := by
  cases a with
  | kind expected => rfl
  | family family => simp only [accepts, h.kinds_eq hid]

omit hid in
theorem acceptsName_eq {a : Accepts} (ha : ∀ i, a = .kind i → i < σ.kinds.length) :
    σ'.acceptsName a = σ.acceptsName a := by
  cases a with
  | kind i => simp only [acceptsName, h.kinds_eq (ha i rfl)]
  | family family => rfl

theorem checkAccepts_eq {p : Place}
    (hp : ∀ i, p.field.accepts = some (.kind i) → i < σ.kinds.length) :
    σ'.checkAccepts p id = σ.checkAccepts p id := by
  unfold checkAccepts
  rw [h.kinds_eq hid]
  cases ha : p.field.accepts with
  | none => rfl
  | some a =>
    have hname : σ'.acceptsName a = σ.acceptsName a :=
      h.acceptsName_eq fun i hi => hp i (hi ▸ ha)
    cases σ.kinds[id]? with
    | none => simp only [hname]
    | some child => simp only [h.accepts_eq hid, hname]

end Signature.ExtendedBy

/-- The same nodes over another signature. -/
def Tree.over {σ : Signature} (σ' : Signature) (t : Tree σ) : Tree σ' :=
  ⟨t.nodes⟩

/-- Every node is of a kind of the signature. -/
def Tree.KindsKnown {σ : Signature} (t : Tree σ) : Prop :=
  ∀ id n, t.node? id = some n → n.kind < σ.kinds.length

theorem Tree.Conforms.kindsKnown {σ : Signature} {t : Tree σ} (h : t.Conforms) : t.KindsKnown :=
  fun id n hn => (h id n hn).kind

/-! ## Reading nodes -/

namespace Tree

section Nodes

variable {σ : Signature} (σ' : Signature) (t : Tree σ)

@[simp]
theorem size_over : (t.over σ').size = t.size :=
  rfl

@[simp]
theorem node?_over (id : NodeId) : (t.over σ').node? id = t.node? id :=
  rfl

@[simp]
theorem slot?_over (id : NodeId) (i : Nat) : (t.over σ').slot? id i = t.slot? id i :=
  rfl

@[simp]
theorem kindId_over (id : NodeId) : (t.over σ').kindId id = t.kindId id :=
  rfl

theorem climb_over (bound : Nat) (id : NodeId) :
    (t.over σ').climb bound id = t.climb bound id := by
  induction bound generalizing id with
  | zero => rfl
  | succ bound ih =>
    have hparent : (t.over σ').parent? id = t.parent? id := rfl
    simp only [climb, hparent, ih]

@[simp]
theorem ancestors_over (id : NodeId) : (t.over σ').ancestors id = t.ancestors id :=
  climb_over σ' t t.size id

@[simp]
theorem rootOf_over (id : NodeId) : (t.over σ').rootOf id = t.rootOf id := by
  simp only [rootOf, ancestors_over]

theorem visit_over (bound : Nat) (ids : List NodeId) :
    (t.over σ').visit bound ids = t.visit bound ids := by
  induction bound generalizing ids with
  | zero => rfl
  | succ bound ih =>
    cases ids with
    | nil => rfl
    | cons id rest => exact congrArg (id :: ·) (ih _)

@[simp]
theorem walk_over (id : NodeId) : (t.over σ').walk id = t.walk id :=
  visit_over σ' t t.size [id]

theorem sameShape_over (bound : Nat) (a b : NodeId) :
    (t.over σ').sameShape bound a b = t.sameShape bound a b := by
  induction bound generalizing a b with
  | zero => rfl
  | succ bound ih =>
    have hsame : (t.over σ').sameShape bound = t.sameShape bound := funext fun a => funext (ih a)
    simp only [sameShape, node?_over, hsame]

@[simp]
theorem structurallyEqual_over (a b : NodeId) :
    (t.over σ').structurallyEqual a b = t.structurallyEqual a b :=
  sameShape_over σ' t t.size a b

theorem copyBlock_over (bound : Nat) (parent : Option NodeId) (base id : NodeId) :
    (t.over σ').copyBlock bound parent base id = t.copyBlock bound parent base id := by
  induction bound generalizing parent base id with
  | zero => rfl
  | succ bound ih =>
    have hblock : (t.over σ').copyBlock bound (some base) = t.copyBlock bound (some base) :=
      funext fun b => funext (ih (some base) b)
    simp only [copyBlock, node?_over, hblock]

theorem deepCopy_over (id : NodeId) : (t.over σ').deepCopy id = (t.deepCopy id).over σ' := by
  rw [deepCopy, copyBlock_over]
  rfl

theorem detach_over (c : NodeId) : (t.over σ').detach c = (t.detach c).over σ' := by
  have hparent : (t.over σ').parent? c = t.parent? c := rfl
  rw [detach, detach, hparent]
  cases t.parent? c <;> rfl

theorem foldl_detach_over (cs : List NodeId) :
    cs.foldl detach (t.over σ') = (cs.foldl detach t).over σ' := by
  induction cs generalizing t with
  | nil => rfl
  | cons c cs ih => rw [List.foldl_cons, List.foldl_cons, detach_over, ih]

theorem adopt_over (p c : NodeId) : (t.over σ').adopt p c = (t.adopt p c).over σ' := by
  rw [adopt, detach_over]
  rfl

theorem release_over (id : NodeId) (i : Nat) :
    (t.over σ').release id i = (t.release id i).over σ' := by
  rw [release, release, slot?_over]
  cases (t.slot? id i).bind Slot.child? with
  | none => rfl
  | some old => exact detach_over σ' t old

theorem putChild_over (id : NodeId) (i : Nat) (c : Option NodeId) :
    (t.over σ').putChild id i c = (t.putChild id i c).over σ' := by
  cases c with
  | none =>
    rw [putChild, release_over]
    rfl
  | some c =>
    rw [putChild, release_over, adopt_over]
    rfl

end Nodes

/-! ## Reading kinds -/

section Kinds

variable {σ σ' : Signature} {t : Tree σ} (h : σ.ExtendedBy σ') (ht : t.KindsKnown)
include h ht

theorem kind_over (id : NodeId) : (t.over σ').kind id = t.kind id := by
  unfold kind
  rw [node?_over]
  cases hn : t.node? id with
  | none => rfl
  | some n => simp only [Option.bind_some, h.kinds_eq (ht id n hn)]

theorem family?_over (id : NodeId) : (t.over σ').family? id = t.family? id := by
  rw [family?, family?, kind_over h ht]

theorem locate_over (id : NodeId) (field : String) (expected : List Category) :
    (t.over σ').locate id field expected = t.locate id field expected := by
  rw [locate, locate, kind_over h ht]

theorem child_over (id : NodeId) (field : String) :
    (t.over σ').child id field = t.child id field := by
  simp only [child, locate_over h ht, slot?_over]

theorem children_over (id : NodeId) (field : String) :
    (t.over σ').children id field = t.children id field := by
  simp only [children, locate_over h ht, slot?_over]

theorem data_over (id : NodeId) (field : String) : (t.over σ').data id field = t.data id field := by
  simp only [data, locate_over h ht, slot?_over]

theorem dataList_over (id : NodeId) (field : String) :
    (t.over σ').dataList id field = t.dataList id field := by
  simp only [dataList, locate_over h ht, slot?_over]

theorem rawForm_over (id : NodeId) (field : String) :
    (t.over σ').rawForm id field = t.rawForm id field := by
  simp only [rawForm, locate_over h ht, slot?_over]

theorem openList_over (b : ListBinding) : (t.over σ').openList b = t.openList b := by
  simp only [openList, locate_over h ht]

theorem expectKind_over (id : NodeId) (kind accessor : String) :
    (t.over σ').expectKind id kind accessor = t.expectKind id kind accessor := by
  simp only [expectKind, kind_over h ht]

theorem partGenerics_over (part : NodeId) :
    (t.over σ').partGenerics part = t.partGenerics part := by
  simp only [partGenerics, expectKind_over h ht, child_over h ht]

theorem generics_over (ref : NodeId) : (t.over σ').generics ref = t.generics ref := by
  simp only [generics, expectKind_over h ht, children_over h ht, partGenerics_over h ht]

theorem hasGenerics_over (ref : NodeId) : (t.over σ').hasGenerics ref = t.hasGenerics ref := by
  simp only [hasGenerics, expectKind_over h ht, children_over h ht, generics_over h ht]

theorem openGenerics_over (id : NodeId) : (t.over σ').openGenerics id = t.openGenerics id := by
  simp only [openGenerics, kind_over h ht, openList_over h ht, partGenerics_over h ht,
    generics_over h ht]

theorem openAddress_over (a : ListAddress) : (t.over σ').openAddress a = t.openAddress a := by
  cases a with
  | field id field => exact openList_over h ht _
  | binding b => exact openList_over h ht b
  | generics id => exact openGenerics_over h ht id

theorem argumentText_over (refText : NodeId → Except Error String) :
    (t.over σ').argumentText refText = t.argumentText refText := by
  funext arg
  simp only [argumentText, data_over h ht]

theorem partText_over (refText : NodeId → Except Error String) :
    (t.over σ').partText refText = t.partText refText := by
  funext part
  simp only [partText, expectKind_over h ht, child_over h ht, data_over h ht,
    partGenerics_over h ht, children_over h ht, argumentText_over h ht]

theorem referenceText_over (refText : NodeId → Except Error String) :
    (t.over σ').referenceText refText = t.referenceText refText := by
  funext ref
  simp only [referenceText, expectKind_over h ht, children_over h ht, data_over h ht,
    partText_over h ht]

theorem refText_over (bound : Nat) : (t.over σ').refText bound = t.refText bound := by
  induction bound with
  | zero => rfl
  | succ bound ih =>
    funext ref
    simp only [refText, referenceText_over h ht, ih]

theorem typeName_over (ref : NodeId) : (t.over σ').typeName ref = t.typeName ref := by
  rw [typeName, typeName, size_over, refText_over h ht]

theorem partTypeName_over (part : NodeId) :
    (t.over σ').partTypeName part = t.partTypeName part := by
  rw [partTypeName, partTypeName, size_over, refText_over h ht, partText_over h ht]

end Kinds

end Tree

/-! ## Checks -/

/-- A kind that the field accepts is one of the signature. -/
def Place.Known (σ : Signature) (p : Place) : Prop :=
  ∀ i, p.field.accepts = some (.kind i) → i < σ.kinds.length

theorem Signature.InRange.known_of_place? {σ : Signature} (hσ : σ.InRange) {k : Kind}
    (hk : k ∈ σ.kinds) {name : String} {p : Place} (hp : k.place? name = some p) : p.Known σ := by
  obtain ⟨-, hfield, -⟩ := Kind.place?_eq_some hp
  exact hσ.accepted k hk p.field (List.mem_of_getElem? hfield)

namespace Tree

variable {σ σ' : Signature} {t : Tree σ}

theorem known_of_locate (hσ : σ.InRange) {id : NodeId} {field : String} {expected : List Category}
    {p : Place} (hp : t.locate id field expected = .ok p) : p.Known σ := by
  obtain ⟨k, hk, hresolve⟩ := bind_eq_ok.1 hp
  obtain ⟨n, -, hkind⟩ := kind_eq_ok.1 hk
  exact hσ.known_of_place? (List.mem_of_getElem? hkind) (Kind.resolve_eq_ok.1 hresolve).1

theorem known_of_openAddress (hσ : σ.InRange) {a : ListAddress} {v : ListView}
    (hv : t.openAddress a = .ok v) : v.place.Known σ :=
  known_of_locate hσ (openList_eq_ok.1 (openAddress_self hv)).2

section Checks

variable (h : σ.ExtendedBy σ') (ht : t.KindsKnown) {p : Place} (hp : p.Known σ)
include h ht hp

theorem checkKind_over (c : NodeId) :
    ((t.over σ').kindId c >>= σ'.checkAccepts p) = (t.kindId c >>= σ.checkAccepts p) := by
  rw [kindId_over]
  cases hc : t.kindId c with
  | error e => rfl
  | ok kind =>
    obtain ⟨n, hn, rfl⟩ := kindId_eq_ok.1 hc
    exact h.checkAccepts_eq (ht c n hn) hp

theorem checkAttachable_over (parent c : NodeId) :
    (t.over σ').checkAttachable p parent c = t.checkAttachable p parent c := by
  have hkind := checkKind_over h ht hp c
  simp only [checkAttachable, ancestors_over, ← bind_assoc, hkind]

theorem checkChild_over (parent : NodeId) (c : Option NodeId) :
    (t.over σ').checkChild p parent c = t.checkChild p parent c := by
  cases c with
  | none => rfl
  | some c => exact checkAttachable_over h ht hp parent c

theorem placeOnce_over : (t.over σ').placeOnce p = t.placeOnce p := by
  funext placed c
  have hkind := checkKind_over h ht hp c
  simp only [placeOnce, ← bind_assoc, hkind]

end Checks

theorem draft_over (h : σ.ExtendedBy σ') (ht : t.KindsKnown) (hσ : σ.InRange) {k : Kind}
    (hk : k ∈ σ.kinds) (as : List Assignment) : (t.over σ').draft k as = t.draft k as := by
  have hcheck : (t.over σ').checkAssignment k = t.checkAssignment k := by
    funext d a
    unfold checkAssignment
    cases hp : k.resolve a.field [a.category] with
    | error e => rfl
    | ok p =>
      have hknown := hσ.known_of_place? hk (Kind.resolve_eq_ok.1 hp).1
      simp only [bind, Except.bind, placeOnce_over h ht hknown]
  rw [draft, draft, hcheck]

end Tree

namespace ListView

variable {σ σ' : Signature} {t : Tree σ} (v : ListView)

theorem checkInsert_over (h : σ.ExtendedBy σ') (ht : t.KindsKnown) (hv : v.place.Known σ)
    (index : Nat) (c : NodeId) :
    v.checkInsert (t.over σ') index c = v.checkInsert t index c := by
  have hlist : v.isChildList (t.over σ') = v.isChildList t := rfl
  have hlength : v.lengthWithout (t.over σ') c = v.lengthWithout t c := rfl
  simp only [checkInsert, hlist, hlength, Tree.checkAttachable_over h ht hv]

theorem putAt_over (index : Nat) (c : NodeId) :
    v.putAt (t.over σ') index c = (v.putAt t index c).over σ' := by
  simp only [putAt, Tree.adopt_over]
  rfl

theorem cleared_over : v.cleared (t.over σ') = (v.cleared t).over σ' := by
  have hslot : v.slot? (t.over σ') = v.slot? t := rfl
  rw [cleared, cleared, hslot]
  split
  · exact Tree.foldl_detach_over σ' t _
  · rfl
  · rfl

end ListView

/-! ## New nodes -/

/-- No new node starts with more levels than its signature has kinds, so further kinds add none. -/
theorem Tree.alloc_over {σ σ' : Signature} (h : σ.ExtendedBy σ') (hσ : σ.Resolved) (t : Tree σ)
    {kind : KindId} (hkind : kind < σ.kinds.length) :
    (t.over σ').alloc kind = (t.alloc kind).over σ' := by
  have hlength : σ.kinds.length ≤ σ'.kinds.length := by
    obtain ⟨more, hmore⟩ := h
    simp [hmore]
  rw [alloc, hσ.freshBlock_eq (fun _ hlt => h.fields_eq hlt) (.nil hkind) (Nat.le_refl _) hlength]
  rfl

/-! ## Edits -/

/-- The edit `e'` does over the larger signature what `e` does to the tree, and answers alike. -/
def Edit.Mirrors {σ σ' : Signature} {α : Type} (e' : Edit σ' α) (e : Edit σ α) (t : Tree σ) :
    Prop :=
  e'.outcome (t.over σ') = ((e.outcome t).1.over σ', (e.outcome t).2)

namespace Edit

variable {σ σ' : Signature} {α β : Type} {t : Tree σ}

theorem mirrors_pure (a : α) : Mirrors (pure a : Edit σ' α) (pure a : Edit σ α) t :=
  rfl

theorem mirrors_bind {x' : Edit σ' α} {x : Edit σ α} {f' : α → Edit σ' β} {f : α → Edit σ β}
    (hx : x'.Mirrors x t) (hf : ∀ a u, x t = .ok a u → (f' a).Mirrors (f a) u) :
    (x' >>= f').Mirrors (x >>= f) t := by
  unfold Mirrors at hx ⊢
  rw [outcome_bind, outcome_bind]
  unfold outcome at hx
  cases hxt : x t with
  | ok a u =>
    rw [hxt] at hx
    cases hxt' : x' (t.over σ') with
    | ok a' u' =>
      rw [hxt'] at hx
      cases hx
      exact hf a u hxt
    | error e' u' =>
      rw [hxt'] at hx
      cases hx
  | error e u =>
    rw [hxt] at hx
    cases hxt' : x' (t.over σ') with
    | ok a' u' =>
      rw [hxt'] at hx
      cases hx
    | error e' u' =>
      rw [hxt'] at hx
      cases hx
      rfl

theorem mirrors_ask_bind {f' : Tree σ' → Except Error α} {f : Tree σ → Except Error α}
    {g' : α → Edit σ' β} {g : α → Edit σ β} (hf : f' (t.over σ') = f t)
    (hg : ∀ a, f t = .ok a → (g' a).Mirrors (g a) t) : (ask f' >>= g').Mirrors (ask f >>= g) t := by
  unfold Mirrors
  rw [outcome_ask_bind, outcome_ask_bind, hf]
  cases hft : f t with
  | ok a => exact hg a hft
  | error e => rfl

theorem mirrors_modify {f' : Tree σ' → Tree σ'} {f : Tree σ → Tree σ}
    (hf : f' (t.over σ') = (f t).over σ') :
    Mirrors (modify f' : Edit σ' PUnit) (modify f : Edit σ PUnit) t := by
  show (f' (t.over σ'), Except.ok _) = ((f t).over σ', Except.ok _)
  rw [hf]

theorem mirrors_deepCopy (id : NodeId) :
    Mirrors (deepCopy id : Edit σ' NodeId) (deepCopy id : Edit σ NodeId) t := by
  show ((t.over σ').deepCopy id, Except.ok t.size) = ((t.deepCopy id).over σ', Except.ok t.size)
  rw [Tree.deepCopy_over]

variable (h : σ.ExtendedBy σ')
include h

theorem mirrors_alloc (hσ : σ.Resolved) {kind : KindId} (hkind : kind < σ.kinds.length) :
    Mirrors (alloc kind : Edit σ' NodeId) (alloc kind : Edit σ NodeId) t := by
  show ((t.over σ').alloc kind, Except.ok t.size) = ((t.alloc kind).over σ', Except.ok t.size)
  rw [Tree.alloc_over h hσ t hkind]

variable (ht : t.KindsKnown)
include ht

theorem mirrors_setData (id : NodeId) (field : String) (v : Option Value) :
    Mirrors (setData id field v : Edit σ' Unit) (setData id field v) t :=
  mirrors_ask_bind (Tree.locate_over h ht id field _) fun _ _ =>
    mirrors_ask_bind rfl fun _ _ => mirrors_modify rfl

theorem mirrors_setRawForm (id : NodeId) (field : String) (text : Option String) :
    Mirrors (setRawForm id field text : Edit σ' Unit) (setRawForm id field text) t :=
  mirrors_ask_bind (Tree.locate_over h ht id field _) fun _ _ =>
    mirrors_ask_bind rfl fun v _ => mirrors_setData h ht id field (some v)

theorem mirrors_insert {v : ListView} (hv : v.place.Known σ) (index : Nat) (c : NodeId) :
    Mirrors (v.insert index c : Edit σ' Unit) (v.insert index c) t :=
  mirrors_ask_bind (v.checkInsert_over h ht hv index c) fun _ _ =>
    mirrors_modify (v.putAt_over index c)

theorem mirrors_edit {v : ListView} (hv : v.place.Known σ) (e : ListEdit) :
    Mirrors (v.edit e : Edit σ' Unit) (v.edit e) t := by
  cases e with
  | addToEnd c => exact mirrors_insert h ht hv (v.lengthWithout t c) c
  | addToStart c => exact mirrors_insert h ht hv 0 c
  | insert index c => exact mirrors_insert h ht hv index c
  | remove c =>
    exact mirrors_ask_bind rfl fun _ _ => mirrors_modify (Tree.detach_over σ' t c)
  | clear => exact mirrors_modify v.cleared_over
  | pushValue x =>
    exact mirrors_ask_bind rfl fun _ _ => mirrors_ask_bind rfl fun _ _ => mirrors_modify rfl
  | removeValue index =>
    exact mirrors_ask_bind rfl fun _ _ => mirrors_ask_bind rfl fun _ _ => mirrors_modify rfl

variable (hσ : σ.InRange)
include hσ

theorem mirrors_setChild (id : NodeId) (field : String) (c : Option NodeId) :
    Mirrors (setChild id field c : Edit σ' Unit) (setChild id field c) t :=
  mirrors_ask_bind (Tree.locate_over h ht id field _) fun p hp =>
    mirrors_ask_bind (Tree.checkChild_over h ht (Tree.known_of_locate hσ hp) id c) fun _ _ =>
      mirrors_modify (Tree.putChild_over σ' t id p.index c)

theorem mirrors_editList (a : ListAddress) (e : ListEdit) :
    Mirrors (ask (fun t : Tree σ' => t.openAddress a) >>= fun v => v.edit e)
      (ask (fun t : Tree σ => t.openAddress a) >>= fun v => v.edit e) t :=
  mirrors_ask_bind (Tree.openAddress_over h ht a) fun _ hv =>
    mirrors_edit h ht (Tree.known_of_openAddress hσ hv) e

theorem mirrors_change (id : NodeId) (ch : Change) :
    Mirrors (change id ch : Edit σ' Unit) (change id ch) t := by
  cases ch with
  | setChild field c => exact mirrors_setChild h ht hσ id field (some c)
  | append field c => exact mirrors_editList h ht hσ (.field id field) (.addToEnd c)
  | setData field v => exact mirrors_setData h ht id field (some v)
  | push field x => exact mirrors_editList h ht hσ (.field id field) (.pushValue x)

end Edit

section Runs

variable {σ σ' : Signature} {t : Tree σ} (h : σ.ExtendedBy σ') (hσ : σ.Resolved) (hσ' : σ.InRange)
include h hσ hσ'

theorem Edit.mirrors_forM_change (ht : t.Conforms) (id : NodeId) (changes : List Change) :
    Mirrors (changes.forM (change id) : Edit σ' PUnit) (changes.forM (change id)) t := by
  induction changes generalizing t with
  | nil => exact mirrors_pure _
  | cons ch changes ih =>
    refine mirrors_bind (mirrors_change h ht.kindsKnown hσ' id ch) fun _ u hu => ih ?_
    exact (effect_of_change hu).step.conforms hσ ht

theorem Edit.mirrors_build (ht : t.Conforms) {kind : String} (as : List Assignment)
    (hkind : σ'.kindNamed? kind = σ.kindNamed? kind) :
    Mirrors (build kind as : Edit σ' NodeId) (build kind as) t := by
  -- From here on both builds are of a kind of the smaller signature.
  refine mirrors_ask_bind (by rw [hkind]) fun found hfound => ?_
  have hk : σ.kinds[found.1]? = some found.2 := by
    obtain ⟨-, hk, -⟩ := kindNamed_eq_ok (t := t) (ask_eq_ok.2 ⟨hfound, rfl⟩)
    exact hk
  refine mirrors_ask_bind (Tree.draft_over h ht.kindsKnown hσ' (List.mem_of_getElem? hk) as)
    fun changes _ => ?_
  have hlt := (List.getElem?_eq_some_iff.1 hk).1
  refine mirrors_bind (mirrors_alloc h hσ hlt) fun id w hw => ?_
  have hw' : w.Conforms := by
    cases hw
    exact (Tree.Step.alloc hlt).conforms hσ ht
  exact mirrors_bind (mirrors_forM_change h hσ hσ' hw' id changes) fun _ _ _ => mirrors_pure id

/-- A mutation that builds no kind beyond the signature answers over a larger signature as over its
own, and leaves the same nodes. -/
theorem Mutation.mirrors_run (ht : t.Conforms) {m : Mutation}
    (hm : ∀ kind as, m = .build kind as → σ'.kindNamed? kind = σ.kindNamed? kind) :
    Edit.Mirrors (m.run : Edit σ' (Option NodeId)) m.run t := by
  have hknown := ht.kindsKnown
  cases m with
  | build kind as =>
    exact Edit.mirrors_bind (Edit.mirrors_build h hσ hσ' ht as (hm kind as rfl)) fun _ _ _ =>
      Edit.mirrors_pure _
  | setChild id field c =>
    exact Edit.mirrors_bind (Edit.mirrors_setChild h hknown hσ' id field c) fun _ _ _ =>
      Edit.mirrors_pure _
  | setData id field v =>
    exact Edit.mirrors_bind (Edit.mirrors_setData h hknown id field v) fun _ _ _ =>
      Edit.mirrors_pure _
  | setRawForm id field text =>
    exact Edit.mirrors_bind (Edit.mirrors_setRawForm h hknown id field text) fun _ _ _ =>
      Edit.mirrors_pure _
  | editList a e =>
    exact Edit.mirrors_ask_bind (Tree.openAddress_over h hknown a) fun _ hv =>
      Edit.mirrors_bind (Edit.mirrors_edit h hknown (Tree.known_of_openAddress hσ' hv) e)
        fun _ _ _ => Edit.mirrors_pure _
  | deepCopy id =>
    exact Edit.mirrors_bind (Edit.mirrors_deepCopy id) fun _ _ _ => Edit.mirrors_pure _

theorem Tree.applyAll_over (ht : t.Conforms) {ms : List Mutation}
    (hms : ∀ kind as, .build kind as ∈ ms → σ'.kindNamed? kind = σ.kindNamed? kind) :
    (t.over σ').applyAll ms = ((t.applyAll ms).1.over σ', (t.applyAll ms).2) := by
  induction ms generalizing t with
  | nil => rfl
  | cons m ms ih =>
    have hfirst : (t.over σ').apply m = ((t.apply m).1.over σ', (t.apply m).2) :=
      Mutation.mirrors_run h hσ hσ' ht fun kind as hm => hms kind as (hm ▸ List.mem_cons_self)
    have hrest := ih ((steps_apply m).conforms hσ ht) fun kind as hm =>
      hms kind as (List.mem_cons_of_mem _ hm)
    simp only [applyAll, hfirst, hrest]

end Runs

end Arbor
