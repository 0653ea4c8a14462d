import Arbor.Proofs.Build

/-!
# Effects

`t.Effect m t'` says what a mutation other than a build does when it succeeds: the checks that it
has passed and the tree that it leaves. Such a mutation checks everything before its first change,
so it leaves the tree as it was when it is refused. A build carries out mutations of this kind on
its new node, one after the other, and ends with the first one that is refused.
-/

namespace Arbor

/-! ## Edits that change nothing when they fail -/

namespace Edit

variable {σ : Signature} {α β : Type} {t : Tree σ}

theorem eq_ok_of_outcome {e : Edit σ α} {a : α} (h : (e.outcome t).2 = .ok a) :
    e t = .ok a (e.outcome t).1 := by
  unfold outcome at h ⊢
  cases he : e t with
  | ok b t' =>
    rw [he] at h
    cases h
    rfl
  | error err t' =>
    rw [he] at h
    cases h

theorem eq_error_of_outcome {e : Edit σ α} {err : Error} (h : (e.outcome t).2 = .error err) :
    e t = .error err (e.outcome t).1 := by
  unfold outcome at h ⊢
  cases he : e t with
  | ok b t' =>
    rw [he] at h
    cases h
  | error err' t' =>
    rw [he] at h
    cases h
    rfl

theorem outcome_ask_bind (f : Tree σ → Except Error α) (g : α → Edit σ β) (t : Tree σ) :
    (ask f >>= g).outcome t =
      match f t with
      | .ok a => (g a).outcome t
      | .error e => (t, .error e) := by
  rw [outcome_bind]
  unfold ask
  cases f t <;> rfl

theorem outcome_bind_pure_fst (e : Edit σ α) (f : α → β) (t : Tree σ) :
    ((e >>= fun a => pure (f a)).outcome t).1 = (e.outcome t).1 := by
  rw [outcome_bind, outcome]
  cases e t <;> rfl

/-- The edit leaves the tree as it was when it fails. -/
def Atomic (e : Edit σ α) : Prop :=
  ∀ t err t', e t = .error err t' → t' = t

theorem atomic_modify (f : Tree σ → Tree σ) : Atomic (modify f : Edit σ PUnit) := by
  intro t err t' h
  cases h

theorem atomic_ask_bind {f : Tree σ → Except Error α} {g : α → Edit σ β}
    (hg : ∀ a, (g a).Atomic) : (ask f >>= g).Atomic := by
  intro t err t' h
  rw [bind_apply] at h
  unfold ask at h
  cases hf : f t with
  | ok a =>
    rw [hf] at h
    exact hg a t err t' h
  | error e =>
    rw [hf] at h
    cases h
    rfl

theorem atomic_bind_pure {e : Edit σ α} (he : e.Atomic) (f : α → β) :
    (e >>= fun a => pure (f a)).Atomic := by
  intro t err t' h
  rw [bind_apply] at h
  cases hr : e t with
  | ok a u =>
    rw [hr] at h
    cases h
  | error e' u =>
    rw [hr] at h
    cases h
    exact he t err t' hr

theorem atomic_setChild (id : NodeId) (field : String) (c : Option NodeId) :
    (setChild id field c : Edit σ Unit).Atomic :=
  atomic_ask_bind fun _ => atomic_ask_bind fun _ => atomic_modify _

theorem atomic_setData (id : NodeId) (field : String) (v : Option Value) :
    (setData id field v : Edit σ Unit).Atomic :=
  atomic_ask_bind fun _ => atomic_ask_bind fun _ => atomic_modify _

theorem atomic_setRawForm (id : NodeId) (field : String) (text : Option String) :
    (setRawForm id field text : Edit σ Unit).Atomic :=
  atomic_ask_bind fun _ => atomic_ask_bind fun _ => atomic_setData id field _

theorem atomic_deepCopy (id : NodeId) : (deepCopy id : Edit σ NodeId).Atomic := by
  intro t err t' h
  cases h

end Edit

namespace ListView

variable {σ : Signature} (v : ListView)

theorem atomic_insert (index : Nat) (c : NodeId) : (v.insert index c : Edit σ Unit).Atomic :=
  Edit.atomic_ask_bind fun _ => Edit.atomic_modify _

theorem atomic_edit (e : ListEdit) : (v.edit e : Edit σ Unit).Atomic := by
  cases e with
  | addToEnd c => exact fun t => v.atomic_insert (v.lengthWithout t c) c t
  | addToStart c => exact v.atomic_insert 0 c
  | insert index c => exact v.atomic_insert index c
  | remove c => exact Edit.atomic_ask_bind fun _ => Edit.atomic_modify _
  | clear => exact Edit.atomic_modify _
  | pushValue x =>
    exact Edit.atomic_ask_bind fun _ => Edit.atomic_ask_bind fun _ => Edit.atomic_modify _
  | removeValue index =>
    exact Edit.atomic_ask_bind fun _ => Edit.atomic_ask_bind fun _ => Edit.atomic_modify _

end ListView

namespace Mutation

def isBuild : Mutation → Bool
  | build .. => true
  | setChild .. | setData .. | setRawForm .. | editList .. | deepCopy .. => false

theorem atomic_run {σ : Signature} {m : Mutation} (hm : m.isBuild = false) :
    (m.run : Edit σ (Option NodeId)).Atomic := by
  cases m with
  | build kind as => cases hm
  | setChild id field c => exact Edit.atomic_bind_pure (Edit.atomic_setChild id field c) _
  | setData id field v => exact Edit.atomic_bind_pure (Edit.atomic_setData id field v) _
  | setRawForm id field text =>
    exact Edit.atomic_bind_pure (Edit.atomic_setRawForm id field text) _
  | editList a e =>
    exact Edit.atomic_ask_bind fun v => Edit.atomic_bind_pure (v.atomic_edit e) _
  | deepCopy id => exact Edit.atomic_bind_pure (Edit.atomic_deepCopy id) _

end Mutation

/-! ## What successful mutations do -/

/-- The node that an edit attaches when it succeeds. -/
def ListEdit.attached : ListEdit → List NodeId
  | addToEnd c | addToStart c | insert _ c => [c]
  | remove _ | clear | pushValue _ | removeValue _ => []

namespace ListView

variable {σ : Signature} {v : ListView} {t t' : Tree σ} {u : Unit}

/-- The position at which an edit inserts a node, and the node, if it inserts one. -/
def insertion? (v : ListView) (t : Tree σ) : ListEdit → Option (Nat × NodeId)
  | .addToEnd c => some (v.lengthWithout t c, c)
  | .addToStart c => some (0, c)
  | .insert index c => some (index, c)
  | .remove _ | .clear | .pushValue _ | .removeValue _ => none

theorem insertion?_eq_some {e : ListEdit} {index : Nat} {c : NodeId}
    (h : v.insertion? t e = some (index, c)) : e.nodes = [c] ∧ e.attached = [c] := by
  cases e with
  | addToEnd c' | addToStart c' | insert index' c' =>
    cases h
    exact ⟨rfl, rfl⟩
  | _ => cases h

theorem remove_eq_ok {c : NodeId} :
    v.remove c t = .ok u t' ↔ v.checkElement t c = .ok () ∧ t' = t.detach c := by
  simp only [remove, Edit.ask_bind_eq_ok, Edit.modify_eq_ok, Edit.exists_unit]

theorem removeValue_eq_ok {index : Nat} :
    v.removeValue index t = .ok u t' ↔ v.checkDataList t = .ok () ∧
      v.checkIndex t index = .ok () ∧ t' = v.putValues t ((v.values t).eraseIdx index) := by
  simp only [removeValue, Edit.ask_bind_eq_ok, Edit.modify_eq_ok, Edit.exists_unit]

end ListView

theorem Edit.setRawForm_eq_ok {σ : Signature} {t t' : Tree σ} {id : NodeId} {field : String}
    {text : Option String} {u : Unit} :
    setRawForm id field text t = .ok u t' ↔ ∃ p, t.locate id field [.singleData] = .ok p ∧
      ∃ v, p.decode text = .ok v ∧ p.checkValue (some v) = .ok () ∧
        t' = t.setSlot id p.index (.data (some v)) := by
  simp only [setRawForm, ask_bind_eq_ok, setData_eq_ok]
  constructor
  · rintro ⟨p, hp, v, hv, q, hq, hrest⟩
    obtain rfl : p = q := Except.ok.inj (hp.symm.trans hq)
    exact ⟨p, hp, v, hv, hrest⟩
  · rintro ⟨p, hp, v, hv, hrest⟩
    exact ⟨p, hp, v, hv, p, hp, hrest⟩

namespace Tree

variable {σ : Signature}

/-- A successful mutation, other than a build, with the checks that it has passed. -/
inductive Effect (t : Tree σ) : Mutation → Tree σ → Prop where
  | setChild {id : NodeId} {field : String} {p : Place} {c : Option NodeId} :
      t.locate id field [.singleChild] = .ok p → t.checkChild p id c = .ok () →
      Effect t (.setChild id field c) (t.putChild id p.index c)
  | setData {id : NodeId} {field : String} {p : Place} {v : Option Value} :
      t.locate id field [.singleData] = .ok p → p.checkValue v = .ok () →
      Effect t (.setData id field v) (t.setSlot id p.index (.data v))
  | setRawForm {id : NodeId} {field : String} {p : Place} {text : Option String} {v : Value} :
      t.locate id field [.singleData] = .ok p → p.decode text = .ok v →
      p.checkValue (some v) = .ok () →
      Effect t (.setRawForm id field text) (t.setSlot id p.index (.data (some v)))
  | insert {a : ListAddress} {v : ListView} {e : ListEdit} {index : Nat} {c : NodeId} :
      t.openAddress a = .ok v → v.insertion? t e = some (index, c) →
      v.checkInsert t index c = .ok () → Effect t (.editList a e) (v.putAt t index c)
  | remove {a : ListAddress} {v : ListView} {c : NodeId} :
      t.openAddress a = .ok v → v.checkElement t c = .ok () →
      Effect t (.editList a (.remove c)) (t.detach c)
  | clear {a : ListAddress} {v : ListView} :
      t.openAddress a = .ok v → Effect t (.editList a .clear) (v.cleared t)
  | pushValue {a : ListAddress} {v : ListView} {x : Value} :
      t.openAddress a = .ok v → v.checkDataList t = .ok () →
      v.place.checkValue (some x) = .ok () →
      Effect t (.editList a (.pushValue x)) (v.putValues t (v.values t ++ [x]))
  | removeValue {a : ListAddress} {v : ListView} {index : Nat} :
      t.openAddress a = .ok v → v.checkDataList t = .ok () → v.checkIndex t index = .ok () →
      Effect t (.editList a (.removeValue index)) (v.putValues t ((v.values t).eraseIdx index))
  | deepCopy {id : NodeId} : Effect t (.deepCopy id) (t.deepCopy id)

variable {t t' : Tree σ} {m : Mutation}

theorem Effect.step (h : t.Effect m t') : t.Step t' := by
  cases h with
  | setChild hp hc => exact .putChild hp hc
  | setData hp hv => exact .putData hp hv
  | setRawForm hp _ hv => exact .putData hp hv
  | insert ha _ hc => exact .putAt (openAddress_self ha) hc
  | remove ha hc => exact .take (openAddress_self ha) hc
  | clear ha => exact .clear (openAddress_self ha)
  | pushValue ha hl hx => exact .pushValue (openAddress_self ha) hl hx
  | removeValue ha hl _ => exact .removeValue (openAddress_self ha) hl
  | deepCopy => exact .deepCopy

theorem effect_of_edit {a : ListAddress} {v : ListView} (ha : t.openAddress a = .ok v)
    {e : ListEdit} {u : Unit} (h : v.edit e t = .ok u t') : t.Effect (.editList a e) t' := by
  cases e with
  | addToEnd c =>
    obtain ⟨hc, rfl⟩ := ListView.addToEnd_eq_ok.1 h
    exact .insert ha rfl hc
  | addToStart c =>
    obtain ⟨hc, rfl⟩ := ListView.insert_eq_ok.1 h
    exact .insert ha rfl hc
  | insert index c =>
    obtain ⟨hc, rfl⟩ := ListView.insert_eq_ok.1 h
    exact .insert ha rfl hc
  | remove c =>
    obtain ⟨hc, rfl⟩ := ListView.remove_eq_ok.1 h
    exact .remove ha hc
  | clear =>
    obtain rfl := Edit.modify_eq_ok.1 h
    exact .clear ha
  | pushValue x =>
    obtain ⟨hl, hx, rfl⟩ := ListView.pushValue_eq_ok.1 h
    exact .pushValue ha hl hx
  | removeValue index =>
    obtain ⟨hl, hi, rfl⟩ := ListView.removeValue_eq_ok.1 h
    exact .removeValue ha hl hi

theorem effect_of_run (hm : m.isBuild = false) {r : Option NodeId} (h : m.run t = .ok r t') :
    t.Effect m t' := by
  cases m with
  | build kind as => cases hm
  | setChild id field c =>
    obtain ⟨_, u, h, hr⟩ := Edit.bind_eq_ok.1 h
    cases hr
    obtain ⟨p, hp, hc, rfl⟩ := Edit.setChild_eq_ok.1 h
    exact .setChild hp hc
  | setData id field v =>
    obtain ⟨_, u, h, hr⟩ := Edit.bind_eq_ok.1 h
    cases hr
    obtain ⟨p, hp, hv, rfl⟩ := Edit.setData_eq_ok.1 h
    exact .setData hp hv
  | setRawForm id field text =>
    obtain ⟨_, u, h, hr⟩ := Edit.bind_eq_ok.1 h
    cases hr
    obtain ⟨p, hp, v, hdecode, hv, rfl⟩ := Edit.setRawForm_eq_ok.1 h
    exact .setRawForm hp hdecode hv
  | editList a e =>
    obtain ⟨v, ha, h⟩ := Edit.ask_bind_eq_ok.1 h
    obtain ⟨_, u, h, hr⟩ := Edit.bind_eq_ok.1 h
    cases hr
    exact effect_of_edit ha h
  | deepCopy id =>
    obtain ⟨_, u, h, hr⟩ := Edit.bind_eq_ok.1 h
    cases hr
    cases h
    exact .deepCopy

/-- A mutation other than a build is refused and changes nothing, or has its effect. -/
theorem apply_cases (t : Tree σ) (hm : m.isBuild = false) :
    (∃ e, t.apply m = (t, .error e)) ∨
      ∃ r, (t.apply m).2 = .ok r ∧ t.Effect m (t.apply m).1 := by
  cases hr : (t.apply m).2 with
  | ok r => exact .inr ⟨r, rfl, effect_of_run hm (Edit.eq_ok_of_outcome hr)⟩
  | error e =>
    have hsame := Mutation.atomic_run hm _ _ _ (Edit.eq_error_of_outcome hr)
    exact .inl ⟨e, Prod.ext hsame hr⟩

end Tree

/-- A mutation that is refused leaves the whole tree as it was, unless it is a build. The same is
true of an edit through a view of a list, however long the view has been open. -/
theorem refused_unchanged {σ : Signature} (t : Tree σ) :
    (∀ (m : Mutation) (e : Error), m.isBuild = false → (t.apply m).2 = .error e →
      (t.apply m).1 = t) ∧
    ∀ (v : ListView) (edit : ListEdit) (e : Error), ((v.edit edit).outcome t).2 = .error e →
      ((v.edit edit).outcome t).1 = t :=
  ⟨fun _ _ hm h => Mutation.atomic_run hm _ _ _ (Edit.eq_error_of_outcome h),
    fun v edit _ h => v.atomic_edit edit _ _ _ (Edit.eq_error_of_outcome h)⟩

/-- Item 0 has the first place of group 1. It stays there when it is moved to a position that the
list of the group does not have. -/
theorem refused_unchanged_groupTree :
    groupTree.parent? 0 = some 1 ∧
      (groupTree.apply (.editList (.field 1 "rest") (.insert 18446744073709551615 0))).2 =
        .error (.contract "Group" "rest" (.outOfRange 18446744073709551615 0)) ∧
      (groupTree.apply (.editList (.field 1 "rest") (.insert 18446744073709551615 0))).1 =
        groupTree := by
  have hrefused :
      (groupTree.apply (.editList (.field 1 "rest") (.insert 18446744073709551615 0))).2 =
        .error (.contract "Group" "rest" (.outOfRange 18446744073709551615 0)) := by rfl
  exact ⟨by decide +kernel, hrefused, (refused_unchanged groupTree).1 _ _ rfl hrefused⟩

/-! ## Builds as runs of mutations -/

/-- The mutation of the new node `id` that a change of a build comes to. -/
def Change.mutation (id : NodeId) : Change → Mutation
  | setChild field c => .setChild id field (some c)
  | append field c => .editList (.field id field) (.addToEnd c)
  | setData field v => .setData id field (some v)
  | push field v => .editList (.field id field) (.pushValue v)

theorem Change.isBuild_mutation (id : NodeId) (ch : Change) : (ch.mutation id).isBuild = false := by
  cases ch <;> rfl

theorem Change.nodes_mutation (id : NodeId) (ch : Change) :
    (ch.mutation id).nodes = id :: ch.nodes := by
  cases ch <;> rfl

namespace Edit

variable {σ : Signature} {t t' : Tree σ} {id : NodeId}

theorem run_mutation (id : NodeId) (ch : Change) :
    ((ch.mutation id).run : Edit σ (Option NodeId)) = (change id ch >>= fun _ => pure none) := by
  cases ch with
  | setChild field c => rfl
  | append field c =>
    simp only [Change.mutation, Mutation.run, change, bind_assoc]
    rfl
  | setData field v => rfl
  | push field v =>
    simp only [Change.mutation, Mutation.run, change, bind_assoc]
    rfl

/-- A change of a build has the effect of its mutation. -/
theorem effect_of_change {ch : Change} {u : Unit} (h : change id ch t = .ok u t') :
    t.Effect (ch.mutation id) t' := by
  refine Tree.effect_of_run (ch.isBuild_mutation id) (r := none) ?_
  rw [run_mutation, bind_apply, h]
  rfl

theorem atomic_change (ch : Change) : (change id ch : Edit σ Unit).Atomic := by
  intro t err t' h
  refine Mutation.atomic_run (ch.isBuild_mutation id) t err t' ?_
  rw [run_mutation, bind_apply, h]

theorem forM_cons_eq_ok {ch : Change} {changes : List Change} {u : PUnit} :
    (ch :: changes).forM (change id) t = .ok u t' ↔
      ∃ t₁, change id ch t = .ok () t₁ ∧ changes.forM (change id) t₁ = .ok u t' :=
  bind_eq_ok.trans exists_unit

/-- The first of several changes has the effect of its mutation, and the others go on from there. -/
theorem effect_of_forM_cons (hσ : σ.Resolved) (hconf : t.Conforms) (hf : t.Forest) {ch : Change}
    {changes : List Change} {u : PUnit} (h : (ch :: changes).forM (change id) t = .ok u t') :
    ∃ t₁, t.Effect (ch.mutation id) t₁ ∧ t₁.Conforms ∧ t₁.Forest ∧
      changes.forM (change id) t₁ = .ok u t' := by
  obtain ⟨t₁, hch, hrun⟩ := forM_cons_eq_ok.1 h
  have he := effect_of_change hch
  exact ⟨t₁, he, he.step.conforms hσ hconf, he.step.forest hconf hf, hrun⟩

theorem outcome_forM_cons (id : NodeId) (ch : Change) (changes : List Change) (t : Tree σ) :
    ((ch :: changes).forM (change id)).outcome t =
      match change id ch t with
      | .ok _ t' => (changes.forM (change id)).outcome t'
      | .error e t' => (t', .error e) := by
  show (change id ch >>= fun _ => changes.forM (change id)).outcome t = _
  rw [outcome_bind]
  cases change id ch t <;> rfl

/-- Changes are carried out up to the first one that is refused. -/
theorem exists_forM_change (id : NodeId) (changes : List Change) (t : Tree σ) :
    ∃ done rest t', changes = done ++ rest ∧ done.forM (change id) t = .ok ⟨⟩ t' ∧
      (∀ ch ∈ rest.head?, ∃ e, change id ch t' = .error e t') ∧
      ((changes.forM (change id)).outcome t).1 = t' := by
  induction changes generalizing t with
  | nil => exact ⟨[], [], t, rfl, rfl, by simp, rfl⟩
  | cons ch changes ih =>
    rw [outcome_forM_cons]
    cases hch : change id ch t with
    | ok u t₁ =>
      obtain ⟨done, rest, t', rfl, hrun, hrest, hout⟩ := ih t₁
      exact ⟨ch :: done, rest, t', rfl, forM_cons_eq_ok.2 ⟨t₁, hch, hrun⟩, hrest, hout⟩
    | error e t₁ =>
      obtain rfl := atomic_change ch t e t₁ hch
      exact ⟨[], ch :: changes, t₁, rfl, rfl, by simp [hch], rfl⟩

theorem outcome_forM_of_refused {done rest : List Change}
    (hrun : done.forM (change id) t = .ok ⟨⟩ t')
    (hrest : ∀ ch ∈ rest.head?, ∃ e, change id ch t' = .error e t') :
    (((done ++ rest).forM (change id)).outcome t).1 = t' := by
  induction done generalizing t with
  | nil =>
    cases hrun
    cases rest with
    | nil => rfl
    | cons ch rest =>
      obtain ⟨e, hch⟩ := hrest ch rfl
      rw [List.nil_append, outcome_forM_cons, hch]
  | cons ch done ih =>
    obtain ⟨t₁, hch, hrun⟩ := forM_cons_eq_ok.1 hrun
    rw [List.cons_append, outcome_forM_cons, hch]
    exact ih hrun

end Edit

namespace Tree

variable {σ : Signature} {t t' : Tree σ} {kind : String} {as : List Assignment}

/-- The build passes its checks and carries out the changes `done`, which lead to `t'`: those are
all the changes that its assignments come to, or the next one is refused. -/
def CarriesOut (t : Tree σ) (kind : String) (as : List Assignment) (done : List Change)
    (t' : Tree σ) : Prop :=
  ∃ kid k rest, σ.kindNamed? kind = some (kid, k) ∧ t.draft k as = .ok (done ++ rest) ∧
    done.forM (Edit.change t.size) (t.alloc kid) = .ok ⟨⟩ t' ∧
    ∀ ch ∈ rest.head?, ∃ e, Edit.change t.size ch t' = .error e t'

/-- The tree after a build, once its checks have been passed. -/
theorem apply_build (t : Tree σ) (kind : String) (as : List Assignment) :
    (t.apply (.build kind as)).1 =
      match σ.kindNamed? kind with
      | none => t
      | some (kid, k) =>
        match t.draft k as with
        | .error _ => t
        | .ok changes => ((changes.forM (Edit.change t.size)).outcome (t.alloc kid)).1 := by
  have hbuild : (t.apply (.build kind as)).1 = ((Edit.build kind as).outcome t).1 :=
    Edit.outcome_bind_pure_fst _ _ t
  rw [hbuild, Edit.build, Edit.kindNamed, Edit.outcome_ask_bind]
  cases σ.kindNamed? kind with
  | none => rfl
  | some found =>
    simp only
    rw [Edit.outcome_ask_bind]
    cases t.draft found.2 as with
    | error e => rfl
    | ok changes =>
      exact Edit.outcome_bind_pure_fst (changes.forM (Edit.change t.size)) _ (t.alloc found.1)

/-- A build is refused by its checks and changes nothing, or it carries out changes. -/
theorem apply_build_cases (t : Tree σ) (kind : String) (as : List Assignment) :
    (t.apply (.build kind as)).1 = t ∨
      ∃ done, t.CarriesOut kind as done (t.apply (.build kind as)).1 := by
  rw [apply_build]
  cases hkind : σ.kindNamed? kind with
  | none => exact .inl rfl
  | some found =>
    simp only
    cases hdraft : t.draft found.2 as with
    | error e => exact .inl rfl
    | ok changes =>
      obtain ⟨done, rest, t', rfl, hrun, hrest, hout⟩ :=
        Edit.exists_forM_change t.size changes (t.alloc found.1)
      simp only [hout]
      exact .inr ⟨done, found.1, found.2, rest, hkind, hdraft, hrun, hrest⟩

theorem CarriesOut.apply_eq {done : List Change} (h : t.CarriesOut kind as done t') :
    (t.apply (.build kind as)).1 = t' := by
  obtain ⟨kid, k, rest, hkind, hdraft, hrun, hrest⟩ := h
  rw [apply_build, hkind]
  simp only [hdraft]
  exact Edit.outcome_forM_of_refused hrun hrest

theorem CarriesOut.exists_alloc {done : List Change} (h : t.CarriesOut kind as done t') :
    ∃ kid, t.Step (t.alloc kid) ∧ done.forM (Edit.change t.size) (t.alloc kid) = .ok ⟨⟩ t' := by
  obtain ⟨kid, k, rest, hkind, -, hrun, -⟩ := h
  have hlt := (List.getElem?_eq_some_iff.1 (Signature.kindNamed?_eq_some hkind).1).1
  exact ⟨kid, .alloc hlt, hrun⟩

theorem CarriesOut.nodes_subset {done : List Change} (h : t.CarriesOut kind as done t') :
    done.flatMap Change.nodes ⊆ as.flatMap Assignment.nodes := by
  obtain ⟨kid, k, rest, -, hdraft, -⟩ := h
  rw [← nodes_draft hdraft, List.flatMap_append]
  exact List.subset_append_left _ _

/-- A mutation changes nothing, or it has its effect, or it is a build that carries out changes. -/
theorem apply_spec (t : Tree σ) (m : Mutation) :
    (t.apply m).1 = t ∨
      (m.isBuild = false ∧ ∃ r, (t.apply m).2 = .ok r ∧ t.Effect m (t.apply m).1) ∨
      ∃ kind as done, m = .build kind as ∧ t.CarriesOut kind as done (t.apply m).1 := by
  cases hb : m.isBuild with
  | false =>
    rcases apply_cases t hb with ⟨e, he⟩ | ⟨r, hr, he⟩
    · exact .inl (congrArg Prod.fst he)
    · exact .inr (.inl ⟨rfl, r, hr, he⟩)
  | true =>
    cases m with
    | build kind as =>
      rcases apply_build_cases t kind as with hsame | ⟨done, hd⟩
      · exact .inl hsame
      · exact .inr (.inr ⟨kind, as, done, rfl, hd⟩)
    | _ => cases hb

end Tree

end Arbor
