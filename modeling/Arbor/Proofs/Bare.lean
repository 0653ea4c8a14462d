import Arbor.Proofs.Effect
import Arbor.Tree.Walk

/-!
# Trees without data

`t.bare` is the tree `t` with all data taken out. What a structural reader finds in a tree it finds
in the bare tree too, and each change to a tree comes to the same change of the bare tree. So trees
that differ in data only take the same course: every mutation but the removal of a value by its
position gives them the same answer, and they still differ in data only.
-/

namespace Arbor

/-! ## Taking out data -/

/-- The slot with its data taken out. -/
def Slot.bare : Slot → Slot
  | child held => child held
  | children held => children held
  | data _ => data none
  | values _ => values []

def Node.bare (n : Node) : Node :=
  { n with slots := n.slots.map Slot.bare }

/-- The tree with all data taken out. -/
def Tree.bare {σ : Signature} (t : Tree σ) : Tree σ :=
  ⟨t.nodes.map Node.bare⟩

namespace Slot

@[simp]
theorem bare_bare (s : Slot) : s.bare.bare = s.bare := by
  cases s <;> rfl

@[simp]
theorem nodes_bare (s : Slot) : s.bare.nodes = s.nodes := by
  cases s <;> rfl

@[simp]
theorem child?_bare (s : Slot) : s.bare.child? = s.child? := by
  cases s <;> rfl

@[simp]
theorem childList_bare (s : Slot) : s.bare.childList = s.childList := by
  cases s <;> rfl

theorem bare_without (c : NodeId) (s : Slot) : (s.without c).bare = s.bare.without c := by
  cases s with
  | child held => by_cases h : held = some c <;> simp [without, bare, h]
  | children held => rfl
  | data held => rfl
  | values held => rfl

theorem agree_bare (same : NodeId → NodeId → Bool) (s u : Slot) :
    s.bare.agree same u.bare = s.agree same u := by
  cases s with
  | child held => cases held <;> cases u <;> rfl
  | children held => cases u <;> rfl
  | data held => cases u <;> rfl
  | values held => cases u <;> rfl

end Slot

namespace Node

@[simp]
theorem bare_bare (n : Node) : n.bare.bare = n.bare := by
  simp [bare, Function.comp_def]

@[simp]
theorem children_bare (n : Node) : n.bare.children = n.children := by
  simp [bare, children, List.flatMap_map]

end Node

/-! ## Reading bare trees -/

namespace Tree

variable {σ : Signature} {t t' : Tree σ}

@[simp]
theorem size_bare : t.bare.size = t.size := by
  simp [bare, size]

@[simp]
theorem node?_bare (id : NodeId) : t.bare.node? id = (t.node? id).map Node.bare := by
  simp [bare, node?]

@[simp]
theorem bare_bare : t.bare.bare = t.bare :=
  ext_node? fun id => by simp [Function.comp_def]

@[simp]
theorem parent?_bare (id : NodeId) : t.bare.parent? id = t.parent? id := by
  unfold parent?
  rw [node?_bare]
  cases t.node? id <;> rfl

@[simp]
theorem slot?_bare (id : NodeId) (i : Nat) : t.bare.slot? id i = (t.slot? id i).map Slot.bare := by
  unfold slot?
  rw [node?_bare]
  cases t.node? id <;> simp [Node.bare]

@[simp]
theorem childNodes_bare (id : NodeId) : t.bare.childNodes id = t.childNodes id := by
  rw [childNodes_eq_getD, childNodes_eq_getD, node?_bare]
  cases t.node? id <;> simp

@[simp]
theorem kindId_bare (id : NodeId) : t.bare.kindId id = t.kindId id := by
  unfold kindId
  rw [node?_bare]
  cases t.node? id <;> rfl

@[simp]
theorem kind_bare (id : NodeId) : t.bare.kind id = t.kind id := by
  unfold kind
  rw [node?_bare]
  cases t.node? id <;> rfl

@[simp]
theorem locate_bare (id : NodeId) (field : String) (expected : List Category) :
    t.bare.locate id field expected = t.locate id field expected := by
  simp [locate]

theorem bind_child?_bare (s : Option Slot) :
    (s.map Slot.bare).bind Slot.child? = s.bind Slot.child? := by
  cases s <;> simp

theorem getD_childList_bare (s : Option Slot) :
    ((s.map Slot.bare).map Slot.childList).getD [] = (s.map Slot.childList).getD [] := by
  cases s <;> simp

@[simp]
theorem child_bare (id : NodeId) (field : String) : t.bare.child id field = t.child id field := by
  simp only [child, locate_bare, slot?_bare, bind_child?_bare]

@[simp]
theorem children_bare (id : NodeId) (field : String) :
    t.bare.children id field = t.children id field := by
  simp only [children, locate_bare, slot?_bare, getD_childList_bare]

theorem climb_bare (bound : Nat) (id : NodeId) : t.bare.climb bound id = t.climb bound id := by
  induction bound generalizing id with
  | zero => rfl
  | succ bound ih => simp only [climb, parent?_bare, ih]

@[simp]
theorem ancestors_bare (id : NodeId) : t.bare.ancestors id = t.ancestors id := by
  rw [ancestors, ancestors, size_bare, climb_bare]

@[simp]
theorem rootOf_bare (id : NodeId) : t.bare.rootOf id = t.rootOf id := by
  simp [rootOf]

theorem visit_bare (bound : Nat) (ids : List NodeId) :
    t.bare.visit bound ids = t.visit bound ids := by
  induction bound generalizing ids with
  | zero => rfl
  | succ bound ih => cases ids <;> simp [visit, ih]

@[simp]
theorem walk_bare (id : NodeId) : t.bare.walk id = t.walk id := by
  rw [walk, walk, size_bare, visit_bare]

theorem sameShape_bare (bound : Nat) (a b : NodeId) :
    t.bare.sameShape bound a b = t.sameShape bound a b := by
  induction bound generalizing a b with
  | zero => rfl
  | succ bound ih =>
    have hsame : t.bare.sameShape bound = t.sameShape bound := funext fun a => funext (ih a)
    unfold sameShape
    rw [node?_bare, node?_bare, hsame]
    cases t.node? a with
    | none => rfl
    | some x =>
      cases t.node? b with
      | none => rfl
      | some y =>
        simp only [Option.map_some, Node.bare, List.zip_map, List.all_map, Function.comp_def,
          Prod.map, Slot.agree_bare]

@[simp]
theorem structurallyEqual_bare (a b : NodeId) :
    t.bare.structurallyEqual a b = t.structurallyEqual a b := by
  rw [structurallyEqual, structurallyEqual, size_bare, sameShape_bare]

/-! ## Checks on bare trees -/

@[simp]
theorem checkAttachable_bare (p : Place) (parent c : NodeId) :
    t.bare.checkAttachable p parent c = t.checkAttachable p parent c := by
  simp [checkAttachable]

@[simp]
theorem checkChild_bare (p : Place) (parent : NodeId) (c : Option NodeId) :
    t.bare.checkChild p parent c = t.checkChild p parent c := by
  cases c <;> simp [checkChild]

@[simp]
theorem openList_bare (b : ListBinding) : t.bare.openList b = t.openList b := by
  simp [openList]

@[simp]
theorem list_bare (id : NodeId) (field : String) : t.bare.list id field = t.list id field := by
  simp [list]

@[simp]
theorem partGenerics_bare (part : NodeId) : t.bare.partGenerics part = t.partGenerics part := by
  simp [partGenerics, expectKind]

@[simp]
theorem generics_bare (ref : NodeId) : t.bare.generics ref = t.generics ref := by
  simp [generics, expectKind]

@[simp]
theorem openAddress_bare (a : ListAddress) : t.bare.openAddress a = t.openAddress a := by
  cases a <;> simp [openAddress, openGenerics]

@[simp]
theorem draft_bare (k : Kind) (as : List Assignment) : t.bare.draft k as = t.draft k as := by
  have hplace : ∀ p, t.bare.placeOnce p = t.placeOnce p := fun p => by
    funext placed c
    simp [placeOnce]
  have hcheck : t.bare.checkAssignment k = t.checkAssignment k := by
    funext d a
    cases a <;> simp [checkAssignment, hplace]
  rw [draft, draft, hcheck]

end Tree

namespace ListView

variable {σ : Signature} {t : Tree σ} (v : ListView)

theorem slot?_bare : v.slot? t.bare = (v.slot? t).map Slot.bare :=
  Tree.slot?_bare _ _

@[simp]
theorem contents_bare : v.contents t.bare = v.contents t := by
  rw [contents, contents, slot?_bare, Tree.getD_childList_bare]

@[simp]
theorem isChildList_bare : v.isChildList t.bare = v.isChildList t := by
  rw [isChildList, isChildList, slot?_bare]
  cases v.slot? t with
  | none => rfl
  | some s => cases s <;> rfl

/-- The length of a list of values is no matter of structure, that of a list of nodes is. -/
theorem lengthWithout_bare (h : v.isChildList t = true) (c : NodeId) :
    v.lengthWithout t.bare c = v.lengthWithout t c := by
  obtain ⟨held, hs⟩ := isChildList_eq_true.1 h
  have hs' : v.slot? t.bare = some (.children held) := by
    rw [slot?_bare, hs]
    rfl
  simp only [lengthWithout, length, contents_bare, values_of_slot? hs, values_of_slot? hs',
    Slot.dataList]

theorem checkInsert_bare (index : Nat) (c : NodeId) :
    v.checkInsert t.bare index c = v.checkInsert t index c := by
  unfold checkInsert
  rw [isChildList_bare]
  cases h : v.isChildList t with
  | false => rfl
  | true => simp only [↓reduceIte, Tree.checkAttachable_bare, v.lengthWithout_bare h]

theorem checkElement_bare (c : NodeId) : v.checkElement t.bare c = v.checkElement t c := by
  simp [checkElement]

theorem checkDataList_bare : v.checkDataList t.bare = v.checkDataList t := by
  simp [checkDataList]

end ListView

/-! ## Changing bare trees -/

namespace Tree

variable {σ : Signature} {t : Tree σ}

theorem bare_update (id : NodeId) {f g : Node → Node} (h : ∀ n, (f n).bare = g n.bare) :
    (t.update id f).bare = t.bare.update id g := by
  refine ext_node? fun x => ?_
  rw [node?_bare, node?_update, node?_update, node?_bare]
  split
  · simp [Function.comp_def, h]
  · rfl

theorem bare_setParent (id : NodeId) (p : Option NodeId) :
    (t.setParent id p).bare = t.bare.setParent id p :=
  bare_update id fun _ => rfl

theorem bare_setSlot (id : NodeId) (i : Nat) (s : Slot) :
    (t.setSlot id i s).bare = t.bare.setSlot id i s.bare :=
  bare_update id fun n => by simp [Node.bare, List.map_set]

theorem bare_detach (c : NodeId) : (t.detach c).bare = t.bare.detach c := by
  unfold detach
  rw [parent?_bare]
  cases t.parent? c with
  | none => rfl
  | some p =>
    have hslots : (t.update p fun n => { n with slots := n.slots.map (Slot.without c) }).bare =
        t.bare.update p fun n => { n with slots := n.slots.map (Slot.without c) } :=
      bare_update p fun n => by simp [Node.bare, Function.comp_def, Slot.bare_without]
    simp only [bare_setParent, hslots]

theorem bare_foldl_detach (cs : List NodeId) :
    (cs.foldl detach t).bare = cs.foldl detach t.bare := by
  induction cs generalizing t with
  | nil => rfl
  | cons c cs ih => rw [List.foldl_cons, List.foldl_cons, ih, bare_detach]

theorem bare_adopt (p c : NodeId) : (t.adopt p c).bare = t.bare.adopt p c := by
  rw [adopt, adopt, bare_setParent, bare_detach]

theorem bare_release (id : NodeId) (i : Nat) : (t.release id i).bare = t.bare.release id i := by
  unfold release
  rw [slot?_bare, bind_child?_bare]
  cases (t.slot? id i).bind Slot.child? with
  | none => rfl
  | some old => exact bare_detach old

theorem bare_putChild (id : NodeId) (i : Nat) (c : Option NodeId) :
    (t.putChild id i c).bare = t.bare.putChild id i c := by
  cases c with
  | none => rw [putChild, putChild, bare_setSlot, bare_release, Slot.bare]
  | some c => rw [putChild, putChild, bare_setSlot, bare_adopt, bare_release, Slot.bare]

theorem bare_extend (ns : List Node) : (t.extend ns).bare = t.bare.extend (ns.map Node.bare) := by
  refine congrArg Tree.mk (Array.ext' ?_)
  simp [extend, bare]

theorem bare_alloc (kind : KindId) : (t.alloc kind).bare = (t.bare.alloc kind).bare := by
  simp only [alloc_eq_extend, bare_extend, size_bare, bare_bare]

end Tree

theorem layOut_map {α : Type} (block : NodeId → α → List Node) (f : Node → Node) (base : NodeId)
    (as : List α) : layOut (fun b a => (block b a).map f) base as =
      ((layOut block base as).1, (layOut block base as).2.map f) := by
  induction as generalizing base with
  | nil => rfl
  | cons a as ih => simp [layOut, ih]

theorem refill_bare (ss : List Slot) (ids : List NodeId) :
    refill (ss.map Slot.bare) ids = (refill ss ids).map Slot.bare := by
  induction ss generalizing ids with
  | nil => rfl
  | cons s ss ih =>
    cases s with
    | child held => cases held <;> simp [refill, Slot.bare, ih]
    | children held => simp [refill, Slot.bare, ih]
    | data held => simp [refill, Slot.bare, ih]
    | values held => simp [refill, Slot.bare, ih]

namespace Tree

variable {σ : Signature} {t : Tree σ}

theorem copyBlock_bare (bound : Nat) (parent : Option NodeId) (base id : NodeId) :
    t.bare.copyBlock bound parent base id = (t.copyBlock bound parent base id).map Node.bare := by
  induction bound generalizing parent base id with
  | zero =>
    unfold copyBlock
    rw [node?_bare]
    cases t.node? id with
    | none => rfl
    | some n => simp [Node.bare, refill_bare]
  | succ bound ih =>
    have hbelow : t.bare.copyBlock bound (some base) =
        fun b c => (t.copyBlock bound (some base) b c).map Node.bare :=
      funext fun b => funext fun c => ih (some base) b c
    unfold copyBlock
    rw [node?_bare, hbelow]
    cases t.node? id with
    | none => rfl
    | some n => simp [layOut_map, Node.bare, refill_bare, Node.children, List.flatMap_map]

theorem bare_deepCopy (id : NodeId) : (t.deepCopy id).bare = (t.bare.deepCopy id).bare := by
  simp only [deepCopy_eq_extend, bare_extend, size_bare, bare_bare, copyBlock_bare, List.map_map,
    Function.comp_def, Node.bare_bare]

end Tree

namespace ListView

variable {σ : Signature} {t : Tree σ} (v : ListView)

theorem bare_putAt (index : Nat) (c : NodeId) :
    (v.putAt t index c).bare = v.putAt t.bare index c := by
  simp only [putAt, Tree.bare_setSlot, Slot.bare, ← Tree.bare_adopt, contents_bare]

theorem bare_putValues (xs : List Value) : (v.putValues t xs).bare = v.putValues t.bare [] :=
  Tree.bare_setSlot _ _ _

theorem bare_cleared : (v.cleared t).bare = (v.cleared t.bare).bare := by
  unfold cleared
  rw [slot?_bare]
  cases v.slot? t with
  | none => simp
  | some s =>
    cases s with
    | children held => simp [Slot.bare, Tree.bare_foldl_detach]
    | values held => simp [Slot.bare, bare_putValues]
    | child held => simp [Slot.bare]
    | data held => simp [Slot.bare]

end ListView

/-! ## Edits that do not look at data -/

namespace Edit

variable {σ : Signature} {α β : Type}

/-- Trees that differ in data only give the edit the same answer and still differ in data only. -/
def Blind (e : Edit σ α) : Prop :=
  ∀ t t', t.bare = t'.bare → (e.outcome t).2 = (e.outcome t').2 ∧
    (e.outcome t).1.bare = (e.outcome t').1.bare

theorem blind_pure (a : α) : Blind (pure a : Edit σ α) :=
  fun _ _ h => ⟨rfl, h⟩

theorem outcome_bind_eq (x : Edit σ α) (f : α → Edit σ β) (t : Tree σ) :
    (x >>= f).outcome t =
      match (x.outcome t).2 with
      | .ok a => (f a).outcome (x.outcome t).1
      | .error e => ((x.outcome t).1, .error e) := by
  rw [outcome_bind]
  unfold outcome
  cases x t <;> rfl

theorem blind_bind {x : Edit σ α} {f : α → Edit σ β} (hx : x.Blind) (hf : ∀ a, (f a).Blind) :
    (x >>= f).Blind := by
  intro t t' h
  obtain ⟨hanswer, htree⟩ := hx t t' h
  rw [outcome_bind_eq, outcome_bind_eq, hanswer]
  cases (x.outcome t').2 with
  | ok a => exact hf a _ _ htree
  | error e => exact ⟨rfl, htree⟩

theorem blind_ask {f : Tree σ → Except Error α} (hf : ∀ t : Tree σ, f t.bare = f t) :
    (ask f).Blind := by
  intro t t' h
  have hsame : f t = f t' := by rw [← hf t, h, hf]
  unfold outcome ask
  rw [hsame]
  cases f t' <;> exact ⟨rfl, h⟩

theorem blind_modify {f : Tree σ → Tree σ} (hf : ∀ t : Tree σ, (f t).bare = (f t.bare).bare) :
    Blind (modify f : Edit σ PUnit) := by
  intro t t' h
  refine ⟨rfl, ?_⟩
  show (f t).bare = (f t').bare
  rw [hf t, h, ← hf]

theorem blind_forM {f : α → Edit σ PUnit} (as : List α) (hf : ∀ a, (f a).Blind) :
    (as.forM f).Blind := by
  induction as with
  | nil => exact blind_pure _
  | cons a as ih => exact blind_bind (hf a) fun _ => ih

theorem blind_setChild (id : NodeId) (field : String) (c : Option NodeId) :
    (setChild id field c : Edit σ Unit).Blind := by
  refine blind_bind (blind_ask fun t => ?_) fun p =>
    blind_bind (blind_ask fun t => ?_) fun _ => blind_modify fun t => ?_
  · exact t.locate_bare id field _
  · exact t.checkChild_bare p id c
  · rw [← Tree.bare_putChild, Tree.bare_bare]

theorem blind_setData (id : NodeId) (field : String) (v : Option Value) :
    (setData id field v : Edit σ Unit).Blind := by
  refine blind_bind (blind_ask fun t => ?_) fun p =>
    blind_bind (blind_ask fun _ => rfl) fun _ => blind_modify fun t => ?_
  · exact t.locate_bare id field _
  · rw [Tree.bare_setSlot, Tree.bare_setSlot, Tree.bare_bare]

theorem blind_setRawForm (id : NodeId) (field : String) (text : Option String) :
    (setRawForm id field text : Edit σ Unit).Blind :=
  blind_bind (blind_ask fun t => t.locate_bare id field _) fun _ =>
    blind_bind (blind_ask fun _ => rfl) fun _ => blind_setData id field _

theorem blind_alloc (kind : KindId) : (alloc kind : Edit σ NodeId).Blind := by
  intro t t' h
  have hsize : t.size = t'.size := by rw [← t.size_bare, h, t'.size_bare]
  refine ⟨congrArg Except.ok hsize, ?_⟩
  show (t.alloc kind).bare = (t'.alloc kind).bare
  rw [Tree.bare_alloc, h, ← Tree.bare_alloc]

theorem blind_deepCopy (id : NodeId) : (deepCopy id : Edit σ NodeId).Blind := by
  intro t t' h
  have hsize : t.size = t'.size := by rw [← t.size_bare, h, t'.size_bare]
  refine ⟨congrArg Except.ok hsize, ?_⟩
  show (t.deepCopy id).bare = (t'.deepCopy id).bare
  rw [Tree.bare_deepCopy, h, ← Tree.bare_deepCopy]

end Edit

namespace ListView

variable {σ : Signature} (v : ListView)

theorem blind_insert (index : Nat) (c : NodeId) : (v.insert index c : Edit σ Unit).Blind := by
  refine Edit.blind_bind (Edit.blind_ask fun t => ?_) fun _ => Edit.blind_modify fun t => ?_
  · exact v.checkInsert_bare index c
  · rw [← bare_putAt, Tree.bare_bare]

/-- The position at the end is known from structure wherever it is used. -/
theorem blind_addToEnd (c : NodeId) : (v.addToEnd c : Edit σ Unit).Blind := by
  intro t t' h
  show ((v.insert (v.lengthWithout t c) c).outcome t).2 =
      ((v.insert (v.lengthWithout t' c) c).outcome t').2 ∧
    ((v.insert (v.lengthWithout t c) c).outcome t).1.bare =
      ((v.insert (v.lengthWithout t' c) c).outcome t').1.bare
  have hlist : v.isChildList t = v.isChildList t' := by
    rw [← v.isChildList_bare, h, v.isChildList_bare]
  cases hl : v.isChildList t with
  | true =>
    have hlength : v.lengthWithout t c = v.lengthWithout t' c := by
      rw [← v.lengthWithout_bare hl, h, v.lengthWithout_bare (hlist ▸ hl)]
    rw [hlength]
    exact v.blind_insert _ c t t' h
  | false =>
    -- A list of values refuses the node before it looks at the position.
    have hrefused : ∀ index, v.checkInsert t' index c = .error (v.place.breach .notChildList) := by
      intro index
      rw [checkInsert, ← hlist, hl]
      rfl
    obtain ⟨hanswer, htree⟩ := v.blind_insert (v.lengthWithout t c) c t t' h
    rw [hanswer, htree]
    simp only [insert, Edit.outcome_ask_bind, hrefused, and_self]

theorem blind_edit {e : ListEdit} (he : ∀ index, e ≠ .removeValue index) :
    (v.edit e : Edit σ Unit).Blind := by
  cases e with
  | addToEnd c => exact v.blind_addToEnd c
  | addToStart c => exact v.blind_insert 0 c
  | insert index c => exact v.blind_insert index c
  | remove c =>
    refine Edit.blind_bind (Edit.blind_ask fun t => v.checkElement_bare c) fun _ =>
      Edit.blind_modify fun t => ?_
    rw [← Tree.bare_detach, Tree.bare_bare]
  | clear => exact Edit.blind_modify fun t => v.bare_cleared
  | pushValue x =>
    refine Edit.blind_bind (Edit.blind_ask fun t => v.checkDataList_bare) fun _ =>
      Edit.blind_bind (Edit.blind_ask fun _ => rfl) fun _ => Edit.blind_modify fun t => ?_
    rw [bare_putValues, bare_putValues, Tree.bare_bare]
  | removeValue index => exact absurd rfl (he index)

end ListView

theorem Edit.blind_change {σ : Signature} (id : NodeId) (ch : Change) :
    (change id ch : Edit σ Unit).Blind := by
  cases ch with
  | setChild field c => exact blind_setChild id field (some c)
  | append field c =>
    exact blind_bind (blind_ask fun t => t.list_bare id field) fun v => v.blind_addToEnd c
  | setData field x => exact blind_setData id field (some x)
  | push field x =>
    exact blind_bind (blind_ask fun t => t.list_bare id field) fun v =>
      v.blind_edit (e := .pushValue x) (by simp)

theorem Edit.blind_build {σ : Signature} (kind : String) (as : List Assignment) :
    (build kind as : Edit σ NodeId).Blind := by
  refine blind_bind (blind_ask fun _ => rfl) fun (kid, k) => ?_
  refine blind_bind (blind_ask fun t => t.draft_bare k as) fun changes => ?_
  refine blind_bind (blind_alloc kid) fun id => ?_
  exact blind_bind (blind_forM changes fun ch => blind_change id ch) fun _ => blind_pure id

theorem Mutation.blind_run {σ : Signature} {m : Mutation}
    (hm : ∀ a index, m ≠ .editList a (.removeValue index)) :
    (m.run : Edit σ (Option NodeId)).Blind := by
  cases m with
  | build kind as => exact Edit.blind_bind (Edit.blind_build kind as) fun _ => Edit.blind_pure _
  | setChild id field c =>
    exact Edit.blind_bind (Edit.blind_setChild id field c) fun _ => Edit.blind_pure _
  | setData id field v =>
    exact Edit.blind_bind (Edit.blind_setData id field v) fun _ => Edit.blind_pure _
  | setRawForm id field text =>
    exact Edit.blind_bind (Edit.blind_setRawForm id field text) fun _ => Edit.blind_pure _
  | editList a e =>
    refine Edit.blind_bind (Edit.blind_ask fun t => t.openAddress_bare a) fun v => ?_
    refine Edit.blind_bind (v.blind_edit fun index he => ?_) fun _ => Edit.blind_pure _
    exact hm a index (he ▸ rfl)
  | deepCopy id => exact Edit.blind_bind (Edit.blind_deepCopy id) fun _ => Edit.blind_pure _

/-! ## Runs of mutations -/

namespace Tree

variable {σ : Signature} {t t' : Tree σ}

theorem applyAll_cons (m : Mutation) (ms : List Mutation) :
    t.applyAll (m :: ms) =
      (((t.apply m).1.applyAll ms).1, (t.apply m).2 :: ((t.apply m).1.applyAll ms).2) :=
  rfl

/-- A run without removals of values gives trees that differ in data only the same answers. -/
theorem applyAll_of_bare_eq (h : t.bare = t'.bare) {ms : List Mutation}
    (hms : ∀ m ∈ ms, ∀ a index, m ≠ .editList a (.removeValue index)) :
    (t.applyAll ms).2 = (t'.applyAll ms).2 ∧ (t.applyAll ms).1.bare = (t'.applyAll ms).1.bare := by
  induction ms generalizing t t' with
  | nil => exact ⟨rfl, h⟩
  | cons m ms ih =>
    have hfirst : (t.apply m).2 = (t'.apply m).2 ∧ (t.apply m).1.bare = (t'.apply m).1.bare :=
      Mutation.blind_run (hms m List.mem_cons_self) t t' h
    obtain ⟨hanswers, htrees⟩ := ih hfirst.2 fun m' hm' => hms m' (List.mem_cons_of_mem _ hm')
    rw [applyAll_cons, applyAll_cons, hfirst.1, hanswers]
    exact ⟨rfl, htrees⟩

end Tree

end Arbor
