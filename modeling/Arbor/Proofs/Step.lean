import Mathlib.Logic.Relation
import Arbor.Mutation

/-!
# Mutations as runs of steps

`Step t t'` lists the changes that a tree goes through, each with the checks that come before it.
Every mutation is a run of steps, also when it is refused on the way; so what holds of the empty
tree and is kept by each step holds of every reachable tree.
-/

namespace Arbor

open Relation

/-! ## Running edits -/

namespace Edit

variable {σ : Signature} {α β : Type}

theorem bind_apply (x : Edit σ α) (f : α → Edit σ β) (t : Tree σ) :
    (x >>= f) t =
      match x t with
      | .ok a t' => f a t'
      | .error e t' => .error e t' := by
  simp only [bind, EStateM.bind]
  cases x t <;> rfl

theorem bind_eq_ok {x : Edit σ α} {f : α → Edit σ β} {t t' : Tree σ} {b : β} :
    (x >>= f) t = .ok b t' ↔ ∃ a u, x t = .ok a u ∧ f a u = .ok b t' := by
  rw [bind_apply]
  cases x t with
  | error e u => simp
  | ok a u =>
    constructor
    · exact fun h => ⟨a, u, rfl, h⟩
    · rintro ⟨_, _, h, hf⟩
      cases h
      exact hf

theorem ask_eq_ok {f : Tree σ → Except Error α} {t t' : Tree σ} {a : α} :
    ask f t = .ok a t' ↔ f t = .ok a ∧ t' = t := by
  unfold ask
  cases f t with
  | ok b => simp [eq_comm]
  | error e => simp

theorem ask_bind_eq_ok {f : Tree σ → Except Error α} {g : α → Edit σ β} {t t' : Tree σ} {b : β} :
    (ask f >>= g) t = .ok b t' ↔ ∃ a, f t = .ok a ∧ g a t = .ok b t' := by
  rw [bind_eq_ok]
  constructor
  · rintro ⟨a, u, ha, hg⟩
    obtain ⟨hf, rfl⟩ := ask_eq_ok.1 ha
    exact ⟨a, hf, hg⟩
  · rintro ⟨a, hf, hg⟩
    exact ⟨a, t, ask_eq_ok.2 ⟨hf, rfl⟩, hg⟩

theorem exists_unit {p : Unit → Prop} : (∃ u, p u) ↔ p () :=
  ⟨fun ⟨(), h⟩ => h, fun h => ⟨(), h⟩⟩

theorem modify_eq_ok {f : Tree σ → Tree σ} {t t' : Tree σ} {u : PUnit} :
    (modify f : Edit σ PUnit) t = .ok u t' ↔ t' = f t := by
  constructor
  · rintro ⟨⟩
    rfl
  · rintro rfl
    rfl

theorem setChild_eq_ok {id : NodeId} {field : String} {c : Option NodeId} {t t' : Tree σ}
    {u : Unit} :
    setChild id field c t = .ok u t' ↔ ∃ p, t.locate id field [.singleChild] = .ok p ∧
      t.checkChild p id c = .ok () ∧ t' = t.putChild id p.index c := by
  simp only [setChild, ask_bind_eq_ok, modify_eq_ok, exists_unit]

theorem setData_eq_ok {id : NodeId} {field : String} {v : Option Value} {t t' : Tree σ} {u : Unit} :
    setData id field v t = .ok u t' ↔ ∃ p, t.locate id field [.singleData] = .ok p ∧
      p.checkValue v = .ok () ∧ t' = t.setSlot id p.index (.data v) := by
  simp only [setData, ask_bind_eq_ok, modify_eq_ok, exists_unit]

theorem outcome_bind (x : Edit σ α) (f : α → Edit σ β) (t : Tree σ) :
    (x >>= f).outcome t =
      match x t with
      | .ok a t' => (f a).outcome t'
      | .error e t' => (t', .error e) := by
  unfold outcome
  rw [bind_apply]
  cases x t <;> rfl

/-- A setter answers as its check does. -/
theorem outcome_setChild {t : Tree σ} {id : NodeId} {field : String} {p : Place}
    (hp : t.locate id field [.singleChild] = .ok p) (c : Option NodeId) :
    ((setChild id field c).outcome t).2 = t.checkChild p id c := by
  unfold setChild outcome
  simp only [bind_apply, ask, hp]
  cases t.checkChild p id c <;> rfl

theorem outcome_setData {t : Tree σ} {id : NodeId} {field : String} {p : Place}
    (hp : t.locate id field [.singleData] = .ok p) (v : Option Value) :
    ((setData id field v).outcome t).2 = p.checkValue v := by
  unfold setData outcome
  simp only [bind_apply, ask, hp]
  cases p.checkValue v <;> rfl

end Edit

namespace ListView

variable {σ : Signature} {v : ListView} {t t' : Tree σ} {u : Unit}

theorem insert_eq_ok {index : Nat} {c : NodeId} :
    v.insert index c t = .ok u t' ↔
      v.checkInsert t index c = .ok () ∧ t' = v.putAt t index c := by
  simp only [insert, Edit.ask_bind_eq_ok, Edit.modify_eq_ok, Edit.exists_unit]

theorem addToEnd_eq_ok {c : NodeId} :
    v.addToEnd c t = .ok u t' ↔ v.checkInsert t (v.lengthWithout t c) c = .ok () ∧
      t' = v.putAt t (v.lengthWithout t c) c :=
  insert_eq_ok

theorem pushValue_eq_ok {x : Value} :
    v.pushValue x t = .ok u t' ↔ v.checkDataList t = .ok () ∧
      v.place.checkValue (some x) = .ok () ∧ t' = v.putValues t (v.values t ++ [x]) := by
  simp only [pushValue, Edit.ask_bind_eq_ok, Edit.modify_eq_ok, Edit.exists_unit]

end ListView

/-! ## Steps -/

namespace Tree

variable {σ : Signature}

/-- One change to a tree, with the checks that it has passed. -/
inductive Step (t : Tree σ) : Tree σ → Prop where
  | putChild {id : NodeId} {field : String} {p : Place} {c : Option NodeId} :
      t.locate id field [.singleChild] = .ok p → t.checkChild p id c = .ok () →
      Step t (t.putChild id p.index c)
  | putData {id : NodeId} {field : String} {p : Place} {v : Option Value} :
      t.locate id field [.singleData] = .ok p → p.checkValue v = .ok () →
      Step t (t.setSlot id p.index (.data v))
  | putAt {v : ListView} {index : Nat} {c : NodeId} :
      t.openList v.binding = .ok v → v.checkInsert t index c = .ok () →
      Step t (v.putAt t index c)
  | take {v : ListView} {c : NodeId} :
      t.openList v.binding = .ok v → v.checkElement t c = .ok () → Step t (t.detach c)
  | clear {v : ListView} : t.openList v.binding = .ok v → Step t (v.cleared t)
  | pushValue {v : ListView} {x : Value} :
      t.openList v.binding = .ok v → v.checkDataList t = .ok () →
      v.place.checkValue (some x) = .ok () → Step t (v.putValues t (v.values t ++ [x]))
  | removeValue {v : ListView} {index : Nat} :
      t.openList v.binding = .ok v → v.checkDataList t = .ok () →
      Step t (v.putValues t ((v.values t).eraseIdx index))
  | alloc {kind : KindId} : kind < σ.kinds.length → Step t (t.alloc kind)
  | deepCopy {id : NodeId} : Step t (t.deepCopy id)

/-- Any number of steps. -/
def Steps : Tree σ → Tree σ → Prop :=
  ReflTransGen Step

end Tree

/-! ## Edits as runs -/

namespace Edit

variable {σ : Signature} {α β : Type} {t : Tree σ}

/-- Whatever the answer, the tree after the edit is reached by steps. -/
def Runs (e : Edit σ α) (t : Tree σ) : Prop :=
  t.Steps (e.outcome t).1

theorem runs_pure (a : α) : Runs (pure a : Edit σ α) t :=
  .refl

theorem runs_bind {x : Edit σ α} {f : α → Edit σ β} (hx : x.Runs t)
    (hf : ∀ a t', x t = .ok a t' → (f a).Runs t') : (x >>= f).Runs t := by
  unfold Runs
  rw [outcome_bind]
  unfold Runs outcome at hx
  cases hr : x t with
  | ok a t' =>
    rw [hr] at hx
    exact hx.trans (hf a t' hr)
  | error e t' =>
    rw [hr] at hx
    exact hx

theorem runs_ask {f : Tree σ → Except Error α} : (ask f).Runs t := by
  unfold Runs outcome ask
  cases f t <;> exact .refl

theorem runs_ask_bind {f : Tree σ → Except Error α} {g : α → Edit σ β}
    (hg : ∀ a, f t = .ok a → (g a).Runs t) : (ask f >>= g).Runs t := by
  refine runs_bind runs_ask fun a t' h => ?_
  obtain ⟨ha, rfl⟩ := ask_eq_ok.1 h
  exact hg a ha

theorem runs_modify {f : Tree σ → Tree σ} (h : t.Step (f t)) : Runs (modify f : Edit σ PUnit) t :=
  .single h

theorem runs_forM {f : α → Edit σ PUnit} (as : List α) (hf : ∀ a t, (f a).Runs t) :
    (as.forM f).Runs t := by
  induction as generalizing t with
  | nil => exact runs_pure _
  | cons a as ih => exact runs_bind (hf a t) fun _ _ _ => ih

theorem runs_setChild (id : NodeId) (field : String) (c : Option NodeId) :
    (setChild id field c).Runs t :=
  runs_ask_bind fun _ hp => runs_ask_bind fun _ hc => runs_modify (.putChild hp hc)

theorem runs_setData (id : NodeId) (field : String) (v : Option Value) :
    (setData id field v).Runs t :=
  runs_ask_bind fun _ hp => runs_ask_bind fun _ hv => runs_modify (.putData hp hv)

theorem runs_setRawForm (id : NodeId) (field : String) (text : Option String) :
    (setRawForm id field text).Runs t :=
  runs_ask_bind fun _ _ => runs_ask_bind fun _ _ => runs_setData id field _

end Edit

namespace ListView

variable {σ : Signature} {t : Tree σ} {v : ListView}

theorem runs_insert (hv : t.openList v.binding = .ok v) (index : Nat) (c : NodeId) :
    (v.insert index c : Edit σ Unit).Runs t :=
  Edit.runs_ask_bind fun _ hc => Edit.runs_modify (.putAt hv hc)

theorem runs_edit (hv : t.openList v.binding = .ok v) (e : ListEdit) :
    (v.edit e : Edit σ Unit).Runs t := by
  cases e with
  | addToEnd c => exact runs_insert hv (v.lengthWithout t c) c
  | addToStart c => exact runs_insert hv 0 c
  | insert index c => exact runs_insert hv index c
  | remove c => exact Edit.runs_ask_bind fun _ hc => Edit.runs_modify (.take hv hc)
  | clear => exact Edit.runs_modify (.clear hv)
  | pushValue x =>
    exact Edit.runs_ask_bind fun _ hl => Edit.runs_ask_bind fun _ hx =>
      Edit.runs_modify (.pushValue hv hl hx)
  | removeValue index =>
    exact Edit.runs_ask_bind fun _ hl => Edit.runs_ask_bind fun _ _ =>
      Edit.runs_modify (.removeValue hv hl)

end ListView

namespace Tree

variable {σ : Signature} {t : Tree σ}

theorem openList_self {b : ListBinding} {v : ListView} (h : t.openList b = .ok v) :
    t.openList v.binding = .ok v := by
  have hb : v.binding = b := by
    unfold openList at h
    cases hp : t.locate b.target b.field [.listChild, .listData] with
    | error e => rw [hp] at h; cases h
    | ok p => rw [hp] at h; cases h; rfl
  rw [hb, h]

theorem openGenerics_opens {id : NodeId} {v : ListView} (h : t.openGenerics id = .ok v) :
    ∃ b, t.openList b = .ok v ∧ (t.partGenerics id = .ok b ∨ t.generics id = .ok b) := by
  unfold openGenerics at h
  cases hk : t.kind id with
  | error e => rw [hk] at h; cases h
  | ok k =>
    rw [hk] at h
    simp only [bind, Except.bind] at h
    split at h
    · cases hg : t.partGenerics id with
      | error e => rw [hg] at h; cases h
      | ok b => rw [hg] at h; exact ⟨b, h, .inl rfl⟩
    · cases hg : t.generics id with
      | error e => rw [hg] at h; cases h
      | ok b => rw [hg] at h; exact ⟨b, h, .inr rfl⟩

theorem openAddress_self {a : ListAddress} {v : ListView} (h : t.openAddress a = .ok v) :
    t.openList v.binding = .ok v := by
  cases a with
  | field id field => exact openList_self h
  | binding b => exact openList_self h
  | generics id =>
    obtain ⟨b, hb, -⟩ := openGenerics_opens h
    exact openList_self hb

end Tree

/-- The kind of a name has this name. -/
theorem Signature.kindNamed?_eq_some {σ : Signature} {name : String} {found : KindId × Kind}
    (h : σ.kindNamed? name = some found) :
    σ.kinds[found.1]? = some found.2 ∧ found.2.name = name := by
  unfold kindNamed? kindId? at h
  simp only [bind, Option.bind_eq_some_iff, List.findIdx?_eq_some_iff_getElem] at h
  obtain ⟨i, ⟨hi, hname, -⟩, k, hk, h⟩ := h
  cases h
  refine ⟨hk, ?_⟩
  rw [List.getElem?_eq_getElem hi] at hk
  cases hk
  simpa using hname

namespace Edit

variable {σ : Signature} {t : Tree σ}

theorem runs_change (id : NodeId) (c : Change) : (change id c : Edit σ Unit).Runs t := by
  cases c with
  | setChild field c => exact runs_setChild id field (some c)
  | append field c =>
    exact runs_ask_bind fun v hv => ListView.runs_edit (Tree.openList_self hv) (.addToEnd c)
  | setData field x => exact runs_setData id field (some x)
  | push field x =>
    exact runs_ask_bind fun v hv => ListView.runs_edit (Tree.openList_self hv) (.pushValue x)

theorem kindNamed_eq_ok {name : String} {found : KindId × Kind} {t' : Tree σ}
    (h : kindNamed name t = .ok found t') :
    t' = t ∧ σ.kinds[found.1]? = some found.2 ∧ found.2.name = name := by
  unfold kindNamed at h
  obtain ⟨hfound, rfl⟩ := ask_eq_ok.1 h
  refine ⟨rfl, ?_⟩
  cases hf : σ.kindNamed? name with
  | none => rw [hf] at hfound; cases hfound
  | some found' =>
    rw [hf] at hfound
    cases hfound
    exact Signature.kindNamed?_eq_some hf

theorem runs_build (kind : String) (as : List Assignment) : (build kind as).Runs t := by
  refine runs_bind runs_ask fun found t' h => ?_
  obtain ⟨rfl, hk, -⟩ := kindNamed_eq_ok h
  refine runs_ask_bind fun changes _ => runs_bind ?_ fun id t' _ => ?_
  · exact .single (.alloc (List.getElem?_eq_some_iff.1 hk).1)
  · exact runs_bind (runs_forM changes fun c _ => runs_change id c) fun _ _ _ => runs_pure id

end Edit

/-! ## Mutations as runs -/

namespace Tree

variable {σ : Signature} {t : Tree σ}

/-- A mutation is a run of steps, whether it succeeds or not. -/
theorem steps_apply (m : Mutation) : t.Steps (t.apply m).1 := by
  show m.run.Runs t
  cases m with
  | build kind as => exact Edit.runs_bind (Edit.runs_build kind as) fun _ _ _ => Edit.runs_pure _
  | setChild id field c =>
    exact Edit.runs_bind (Edit.runs_setChild id field c) fun _ _ _ => Edit.runs_pure _
  | setData id field v =>
    exact Edit.runs_bind (Edit.runs_setData id field v) fun _ _ _ => Edit.runs_pure _
  | setRawForm id field text =>
    exact Edit.runs_bind (Edit.runs_setRawForm id field text) fun _ _ _ => Edit.runs_pure _
  | editList a e =>
    exact Edit.runs_ask_bind fun v hv =>
      Edit.runs_bind (ListView.runs_edit (openAddress_self hv) e) fun _ _ _ => Edit.runs_pure _
  | deepCopy id => exact Edit.runs_bind (.single .deepCopy) fun _ _ _ => Edit.runs_pure _

theorem steps_applyAll (ms : List Mutation) : t.Steps (t.applyAll ms).1 := by
  induction ms generalizing t with
  | nil => exact .refl
  | cons m ms ih => exact (steps_apply m).trans ih

/-- What each step keeps is kept along a run. -/
theorem Steps.invariant {P : Tree σ → Prop} (hstep : ∀ t t', P t → t.Step t' → P t')
    {t' : Tree σ} (h : t.Steps t') (ht : P t) : P t' := by
  induction h with
  | refl => exact ht
  | tail _ hs ih => exact hstep _ _ ih hs

theorem Reachable.steps (h : t.Reachable) : Tree.empty.Steps t := by
  induction h with
  | empty => exact .refl
  | step _ _ ih => exact ih.trans (steps_apply _)

/-- What holds of the empty tree and is kept by each step holds of every reachable tree. -/
theorem Reachable.invariant {P : Tree σ → Prop} (hempty : P Tree.empty)
    (hstep : ∀ t t', P t → t.Step t' → P t') (h : t.Reachable) : P t :=
  h.steps.invariant hstep hempty

/-! ## Runs of mutations -/

/-- Each mutation of the run names only nodes that the tree has by then. -/
def Known : Tree σ → List Mutation → Prop
  | _, [] => True
  | t, m :: ms => (∀ id ∈ m.nodes, id < t.size) ∧ Known (t.apply m).1 ms

instance decidableKnown : ∀ (t : Tree σ) (ms : List Mutation), Decidable (t.Known ms)
  | _, [] => .isTrue trivial
  | t, m :: ms =>
    have := decidableKnown (t.apply m).1 ms
    inferInstanceAs (Decidable ((∀ id ∈ m.nodes, id < t.size) ∧ Known (t.apply m).1 ms))

theorem Reachable.applyAll (h : t.Reachable) {ms : List Mutation} (hms : t.Known ms) :
    (t.applyAll ms).1.Reachable := by
  induction ms generalizing t with
  | nil => exact h
  | cons m ms ih => exact ih (h.step hms.1) hms.2

end Tree

end Arbor
