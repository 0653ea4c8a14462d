import Mathlib.Data.List.Nodup
import Mathlib.Data.List.Perm.Basic
import Arbor.Proofs.Search

/-!
# Well-formed declarations

`WellFormed ts` says, rule by rule and without looking at the order of the templates, when a list
of templates declares a schema. The generator finds no fault in a list exactly when it is well
formed; the lemmas go through the generator's checks one by one and say which rule each decides.
-/

namespace Arbor

open Relation

/-! ## The rules -/

/-- A child type takes the kind of its name, or every kind of the family that it names. -/
def TypeTakes (type name : String) (family : Option Family) : Prop :=
  match Family.ofName? type with
  | some f => family = some f
  | none => name = type

/-- The value has the declared type and lies within the declared bounds. -/
def FieldDecl.Holds (d : FieldDecl) (v : Value) : Prop :=
  d.type = .data v.type ∧
    ∀ lo hi, d.bounds = some (lo, hi) → ∃ n, v = .int n ∧ lo ≤ n ∧ n ≤ hi

/-- The rules for a declared field. -/
structure FieldDecl.WellFormed (ts : List Template) (d : FieldDecl) : Prop where
  listPlain : d.isList = true → d.required = false ∧ d.initial = none
  childKnown : ∀ type, d.type = .child type →
    (Family.ofName? type).isSome = true ∨ ∃ t ∈ ts, t.name = type
  codecTyped : ∀ codec, d.rawForm = some codec → d.type = .data codec.type
  boundsInt : ∀ lo hi, d.bounds = some (lo, hi) → d.type = .data .int ∧ lo ≤ hi
  initialData : ∀ v, d.initial = some (.data v) → d.Holds v
  initialNode : ∀ kind, d.initial = some (.newNode kind) →
    ∃ type, d.type = .child type ∧ ∃ t ∈ ts, t.name = kind ∧ TypeTakes type t.name t.family

/-- The rules for a template. -/
structure Template.WellFormed (ts : List Template) (t : Template) : Prop where
  notFamily : Family.ofName? t.name = none
  fieldNames : (t.fields.map FieldDecl.name).Nodup
  checkNames : (t.checks.map Check.name).Nodup
  accessorNames : (t.accessors.map Accessor.name).Nodup
  fields : ∀ d ∈ t.fields, d.WellFormed ts

/-- A new node of the kind `a` starts with a new node of the kind `b`. -/
def Leads (ts : List Template) (a b : String) : Prop :=
  ∃ t ∈ ts, t.name = a ∧ ∃ d ∈ t.fields, d.initial = some (.newNode b)

/-- The rules for a list of templates. -/
structure WellFormed (ts : List Template) : Prop where
  kindNames : (ts.map Template.name).Nodup
  templates : ∀ t ∈ ts, t.WellFormed ts
  notRecursive : ∀ a, ¬ TransGen (Leads ts) a a

theorem WellFormed.perm {ts ts' : List Template} (hp : ts.Perm ts') (h : WellFormed ts) :
    WellFormed ts' := by
  have hsub : ∀ t ∈ ts, t ∈ ts' := fun t ht => hp.mem_iff.1 ht
  have hd : ∀ d : FieldDecl, d.WellFormed ts → d.WellFormed ts' := by
    intro d hd
    refine ⟨hd.listPlain, fun type htype => ?_, hd.codecTyped, hd.boundsInt, hd.initialData,
      fun kind hkind => ?_⟩
    · rcases hd.childKnown type htype with hf | ⟨t, ht, hn⟩
      · exact .inl hf
      · exact .inr ⟨t, hsub t ht, hn⟩
    · obtain ⟨type, htype, t, ht, hn⟩ := hd.initialNode kind hkind
      exact ⟨type, htype, t, hsub t ht, hn⟩
  refine ⟨(hp.map _).nodup_iff.1 h.kindNames, fun t ht => ?_, fun a hcycle => ?_⟩
  · have ht := h.templates t (hp.mem_iff.2 ht)
    exact ⟨ht.notFamily, ht.fieldNames, ht.checkNames, ht.accessorNames,
      fun d hmem => hd d (ht.fields d hmem)⟩
  · refine h.notRecursive a (TransGen.mono ?_ a a hcycle)
    rintro x y ⟨t, ht, hxy⟩
    exact ⟨t, hp.mem_iff.2 ht, hxy⟩

/-! ## Names -/

theorem repeated?_eq_none {seen names : List String} :
    repeated? seen names = none ↔ names.Nodup ∧ ∀ name ∈ names, name ∉ seen := by
  induction names generalizing seen with
  | nil => simp [repeated?]
  | cons name names ih =>
    unfold repeated?
    by_cases hs : name ∈ seen
    · simp [hs]
    · simp only [hs, ↓reduceIte, ih, List.nodup_cons, List.mem_cons, not_or, forall_eq_or_imp,
        not_false_eq_true, true_and]
      constructor
      · rintro ⟨hnd, hfresh⟩
        exact ⟨⟨fun hm => (hfresh name hm).1 rfl, hnd⟩, fun x hx => (hfresh x hx).2⟩
      · rintro ⟨⟨hn, hnd⟩, hfresh⟩
        exact ⟨hnd, fun x hx => ⟨fun h => hn (h ▸ hx), hfresh x hx⟩⟩

namespace Template

theorem memberFault?_eq_none {member : Member} {names : List String} :
    memberFault? member names = none ↔ names.Nodup := by
  simp [memberFault?, repeated?_eq_none]

theorem nameFault?_eq_none {seen : List String} {ts : List Template} :
    nameFault? seen ts = none ↔
      (∀ t ∈ ts, Family.ofName? t.name = none) ∧ repeated? seen (ts.map Template.name) = none := by
  induction ts generalizing seen with
  | nil => simp [nameFault?, repeated?]
  | cons t ts ih =>
    unfold nameFault?
    cases hf : Family.ofName? t.name with
    | some f => simp [hf]
    | none =>
      by_cases hs : t.name ∈ seen
      · simp [hs, repeated?]
      · simp [hs, repeated?, hf, ih]

end Template

/-! ## Fields -/

namespace FieldDecl

variable {names : List String} {d : FieldDecl}

theorem listFault?_eq_none :
    d.listFault? = none ↔ (d.isList = true → d.required = false ∧ d.initial = none) := by
  unfold listFault?
  cases d.isList <;> cases d.required <;> cases d.initial <;> simp

theorem accepts?_isSome {type : String} (htype : d.type = .child type) :
    (d.accepts? names).isSome = true ↔ (Family.ofName? type).isSome = true ∨ type ∈ names := by
  unfold accepts?
  simp only [htype]
  cases Family.ofName? type with
  | some f => simp
  | none => simp [List.isSome_idxOf?]

theorem childFault?_eq_none :
    d.childFault? names = none ↔
      ∀ type, d.type = .child type → (Family.ofName? type).isSome = true ∨ type ∈ names := by
  unfold childFault?
  cases htype : d.type with
  | data _ => simp
  | child type =>
    have h : (d.accepts? names).isSome = true ↔ _ := accepts?_isSome htype
    cases hs : (d.accepts? names).isSome <;> simp_all

theorem codecFault?_eq_none :
    d.codecFault? = none ↔ ∀ codec, d.rawForm = some codec → d.type = .data codec.type := by
  unfold codecFault?
  cases d.rawForm with
  | none => simp
  | some codec =>
    cases d.type with
    | child _ => simp
    | data type => by_cases h : type = codec.type <;> simp [h]

theorem boundsFault?_eq_none :
    d.boundsFault? = none ↔
      ∀ lo hi, d.bounds = some (lo, hi) → d.type = .data .int ∧ lo ≤ hi := by
  unfold boundsFault?
  cases d.bounds with
  | none => simp
  | some bounds =>
    obtain ⟨lo, hi⟩ := bounds
    by_cases ht : d.type = .data .int <;> by_cases hle : lo ≤ hi <;> simp [ht, hle]

/-- For a value of the declared type, lying within the bounds is what `admits` computes. -/
theorem holds_iff (hb : ∀ lo hi, d.bounds = some (lo, hi) → d.type = .data .int ∧ lo ≤ hi)
    {v : Value} : d.Holds v ↔ d.type = .data v.type ∧ d.admits v = true := by
  unfold Holds
  refine and_congr_right fun htype => ?_
  unfold admits
  cases hbounds : d.bounds with
  | none => simp
  | some bounds =>
    obtain ⟨lo, hi⟩ := bounds
    obtain ⟨hint, -⟩ := hb lo hi hbounds
    rw [hint] at htype
    cases v <;> simp_all [Value.type]

theorem initialFault?_eq_none
    (hb : ∀ lo hi, d.bounds = some (lo, hi) → d.type = .data .int ∧ lo ≤ hi) :
    d.initialFault? names = none ↔
      (∀ v, d.initial = some (.data v) → d.Holds v) ∧
      (∀ kind, d.initial = some (.newNode kind) →
        (∃ type, d.type = .child type) ∧ kind ∈ names) := by
  unfold initialFault?
  simp only [holds_iff hb]
  cases d.initial with
  | none => simp
  | some i =>
    cases i with
    | data v =>
      cases d.type with
      | child _ => simp
      | data type =>
        by_cases ht : v.type = type
        · simp [ht]
        · simp [ht, Ne.symm ht]
    | newNode kind =>
      cases d.type with
      | data _ => simp
      | child _ => simp

end FieldDecl

/-! ## Kinds and their positions -/

theorem idxOf?_eq_some_of_nodup {names : List String} (hnd : names.Nodup) {name : String}
    {i : Nat} :
    names.idxOf? name = some i ↔ names[i]? = some name := by
  rw [List.idxOf?_eq_some_iff, List.getElem?_eq_some_iff]
  constructor
  · rintro ⟨hi, hname, -⟩
    exact ⟨hi, by simpa using hname⟩
  · rintro ⟨hi, rfl⟩
    refine ⟨hi, by simp, fun j hj => ?_⟩
    have hne : names[j] ≠ names[i] := fun h => Nat.ne_of_lt hj ((hnd.getElem_inj_iff).1 h)
    simpa using hne

section Templates

variable {ts : List Template}

theorem kinds_ofTemplates (i : Nat) :
    (Schema.ofTemplates ts).signature.kinds[i]? =
      ts[i]?.map fun t => (t.resolve (ts.map Template.name)).toKind := by
  simp [Schema.signature, Schema.ofTemplates, Function.comp_def]

theorem kinds_of_template {i : Nat} {t : Template} (ht : ts[i]? = some t) :
    (Schema.ofTemplates ts).signature.kinds[i]? =
      some (t.resolve (ts.map Template.name)).toKind := by
  rw [kinds_ofTemplates, ht, Option.map_some]

theorem exists_template {i : Nat} {k : Kind}
    (hk : (Schema.ofTemplates ts).signature.kinds[i]? = some k) :
    ∃ t, ts[i]? = some t ∧ (t.resolve (ts.map Template.name)).toKind = k := by
  rwa [kinds_ofTemplates, Option.map_eq_some_iff] at hk

/-- The kind at the position `i` is accepted by a child field exactly when the declared type takes
it. -/
theorem accepts_ofTemplates_iff (hnd : (ts.map Template.name).Nodup) {d : FieldDecl} {a : Accepts}
    (ha : d.accepts? (ts.map Template.name) = some a) {i : KindId} {t : Template}
    (ht : ts[i]? = some t) :
    (Schema.ofTemplates ts).signature.accepts a i = true ↔
      ∃ type, d.type = .child type ∧ TypeTakes type t.name t.family := by
  unfold FieldDecl.accepts? at ha
  cases htype : d.type with
  | data _ => simp [htype] at ha
  | child type =>
    simp only [htype] at ha
    simp only [FieldType.child.injEq, exists_eq_left', TypeTakes]
    cases hf : Family.ofName? type with
    | some f =>
      simp only [hf, Option.some.injEq] at ha
      subst ha
      simp [Signature.accepts, kinds_ofTemplates, ht, Template.resolve]
    | none =>
      simp only [hf, Option.map_eq_some_iff] at ha
      obtain ⟨j, hj, rfl⟩ := ha
      have hname : (ts.map Template.name)[i]? = some t.name := by simp [ht]
      rw [← (idxOf?_eq_some_of_nodup hnd)] at hname
      simp only [Signature.accepts, beq_iff_eq]
      constructor
      · rintro rfl
        rw [idxOf?_eq_some_of_nodup hnd] at hj hname
        exact Option.some.inj (hname.symm.trans hj)
      · rintro rfl
        exact Option.some.inj (hj.symm.trans hname)

theorem initialKind?_eq_some {names : List String} {d : FieldDecl} {i : KindId} :
    d.initialKind? names = some i ↔
      ∃ kind, d.initial = some (.newNode kind) ∧ names.idxOf? kind = some i := by
  unfold FieldDecl.initialKind?
  cases d.initial with
  | none => simp
  | some initial => cases initial <;> simp

theorem unacceptedInitial?_eq_none {σ : Signature} {k : Kind} :
    σ.unacceptedInitial? k = none ↔
      ∀ f ∈ k.fields, ∀ a i, f.accepts = some a → f.initialKind = some i →
        σ.accepts a i = true := by
  unfold Signature.unacceptedInitial?
  rw [List.findSome?_eq_none_iff]
  refine forall₂_congr fun f _ => ?_
  cases f.accepts with
  | none => simp
  | some a =>
    cases f.initialKind with
    | none => simp
    | some i => simp

theorem starts_ofTemplates_iff {i j : KindId} :
    (Schema.ofTemplates ts).signature.Starts i j ↔
      ∃ t, ts[i]? = some t ∧ ∃ d ∈ t.fields, ∃ kind, d.initial = some (.newNode kind) ∧
        (ts.map Template.name).idxOf? kind = some j := by
  rw [Signature.starts_iff, kinds_ofTemplates]
  cases ts[i]? with
  | none => simp
  | some t =>
    simp [Template.resolve, Kind.initialKinds, FieldDecl.resolve, initialKind?_eq_some]

/-- The kinds lead to each other as their names do, if every initial node is of a declared kind. -/
theorem transGen_starts_iff (hnd : (ts.map Template.name).Nodup)
    (hknown : ∀ t ∈ ts, ∀ d ∈ t.fields, ∀ kind, d.initial = some (.newNode kind) →
      kind ∈ ts.map Template.name) {i j : KindId} {a b : Template} (ha : ts[i]? = some a)
    (hb : ts[j]? = some b) :
    TransGen (Schema.ofTemplates ts).signature.Starts i j ↔ TransGen (Leads ts) a.name b.name := by
  have hidx : ∀ (i : KindId) (t : Template), ts[i]? = some t →
      (ts.map Template.name).idxOf? t.name = some i := by
    intro i t ht
    rw [idxOf?_eq_some_of_nodup hnd]
    simp [ht]
  constructor
  · intro h
    have hlift := h.lift (fun i => ((ts.map Template.name)[i]?).getD "") (p := Leads ts) ?_
    · simpa [Function.onFun, ha, hb] using hlift
    · intro i j hij
      obtain ⟨t, ht, d, hd, kind, hinit, hj⟩ := starts_ofTemplates_iff.1 hij
      rw [idxOf?_eq_some_of_nodup hnd] at hj
      exact ⟨t, List.mem_of_getElem? ht, by simp [ht], d, hd, by simpa [hj] using hinit⟩
  · intro h
    have hlift := h.lift (fun name => ((ts.map Template.name).idxOf? name).getD 0)
      (p := (Schema.ofTemplates ts).signature.Starts) ?_
    · simpa [Function.onFun, hidx i a ha, hidx j b hb] using hlift
    · rintro x y ⟨t, ht, rfl, d, hd, hinit⟩
      obtain ⟨i, hi⟩ := List.mem_iff_getElem?.1 ht
      obtain ⟨j, hy⟩ := Option.isSome_iff_exists.1 (List.isSome_idxOf?.2 (hknown t ht d hd y hinit))
      simp only [Function.onFun, hidx i t hi, hy, Option.getD_some]
      exact starts_ofTemplates_iff.2 ⟨t, hi, d, hd, y, hinit, hy⟩

theorem notRecursive_ofTemplates_iff (hnd : (ts.map Template.name).Nodup)
    (hknown : ∀ t ∈ ts, ∀ d ∈ t.fields, ∀ kind, d.initial = some (.newNode kind) →
      kind ∈ ts.map Template.name) :
    (∀ i, ¬ TransGen (Schema.ofTemplates ts).signature.Starts i i) ↔
      ∀ a, ¬ TransGen (Leads ts) a a := by
  constructor
  · intro h a hcycle
    obtain ⟨_, ⟨t, ht, rfl, _⟩, -⟩ := TransGen.head'_iff.1 hcycle
    obtain ⟨i, hi⟩ := List.mem_iff_getElem?.1 ht
    exact h i ((transGen_starts_iff hnd hknown hi hi).2 hcycle)
  · intro h i hcycle
    obtain ⟨_, hstart, -⟩ := TransGen.head'_iff.1 hcycle
    obtain ⟨t, ht, _⟩ := starts_ofTemplates_iff.1 hstart
    exact h t.name ((transGen_starts_iff hnd hknown ht ht).1 hcycle)

/-- Initial nodes are accepted by their fields, provided that they are on child fields and of
declared kinds. -/
theorem initialAccepted_ofTemplates_iff (hnd : (ts.map Template.name).Nodup)
    (hchild : ∀ t ∈ ts, ∀ d ∈ t.fields, ∀ type, d.type = .child type →
      (d.accepts? (ts.map Template.name)).isSome = true)
    (hknown : ∀ t ∈ ts, ∀ d ∈ t.fields, ∀ kind, d.initial = some (.newNode kind) →
      (∃ type, d.type = .child type) ∧ kind ∈ ts.map Template.name) :
    (∀ k ∈ (Schema.ofTemplates ts).signature.kinds,
        (Schema.ofTemplates ts).signature.unacceptedInitial? k = none) ↔
      ∀ t ∈ ts, ∀ d ∈ t.fields, ∀ kind, d.initial = some (.newNode kind) →
        ∃ type, d.type = .child type ∧ ∃ t' ∈ ts, t'.name = kind ∧
          TypeTakes type t'.name t'.family := by
  have hkinds : (Schema.ofTemplates ts).signature.kinds =
      ts.map fun t => (t.resolve (ts.map Template.name)).toKind := by
    simp [Schema.signature, Schema.ofTemplates, Function.comp_def]
  simp only [unacceptedInitial?_eq_none, hkinds, List.forall_mem_map, Template.resolve,
    FieldDecl.resolve]
  refine forall₂_congr fun t ht => forall₂_congr fun d hd => ?_
  constructor
  · intro h kind hinit
    obtain ⟨⟨type, htype⟩, hkind⟩ := hknown t ht d hd kind hinit
    obtain ⟨a, ha⟩ := Option.isSome_iff_exists.1 (hchild t ht d hd type htype)
    obtain ⟨i, hi⟩ := Option.isSome_iff_exists.1 (List.isSome_idxOf?.2 hkind)
    have hacc := h a i ha (initialKind?_eq_some.2 ⟨kind, hinit, hi⟩)
    rw [idxOf?_eq_some_of_nodup hnd, List.getElem?_map, Option.map_eq_some_iff] at hi
    obtain ⟨t', ht', rfl⟩ := hi
    obtain ⟨type', htype', htakes⟩ := (accepts_ofTemplates_iff hnd ha ht').1 hacc
    exact ⟨type', htype', t', List.mem_of_getElem? ht', rfl, htakes⟩
  · intro h a i ha hi
    obtain ⟨kind, hinit, hi⟩ := initialKind?_eq_some.1 hi
    rw [idxOf?_eq_some_of_nodup hnd] at hi
    obtain ⟨type, htype, t', ht', hname, htakes⟩ := h kind hinit
    obtain ⟨j, hj⟩ := List.mem_iff_getElem?.1 ht'
    have hij : i = j := by
      have hj' : (ts.map Template.name)[j]? = some kind := by simp [hj, hname]
      rw [← idxOf?_eq_some_of_nodup hnd] at hi hj'
      exact Option.some.inj (hi.symm.trans hj')
    subst hij
    exact (accepts_ofTemplates_iff hnd ha hj).2 ⟨type, htype, htakes⟩

theorem fieldFault?_eq_none {names : List String} {d : FieldDecl} :
    d.fault? names = none ↔
      (d.isList = true → d.required = false ∧ d.initial = none) ∧
      (∀ type, d.type = .child type → (Family.ofName? type).isSome = true ∨ type ∈ names) ∧
      (∀ codec, d.rawForm = some codec → d.type = .data codec.type) ∧
      (∀ lo hi, d.bounds = some (lo, hi) → d.type = .data .int ∧ lo ≤ hi) ∧
      (∀ v, d.initial = some (.data v) → d.Holds v) ∧
      (∀ kind, d.initial = some (.newNode kind) →
        (∃ type, d.type = .child type) ∧ kind ∈ names) := by
  unfold FieldDecl.fault?
  simp only [Option.or_eq_none_iff, FieldDecl.listFault?_eq_none, FieldDecl.childFault?_eq_none,
    FieldDecl.codecFault?_eq_none, FieldDecl.boundsFault?_eq_none]
  refine and_congr_right fun _ => and_congr_right fun _ => and_congr_right fun _ =>
    and_congr_right fun hb => FieldDecl.initialFault?_eq_none hb

theorem WellFormed.initial_known (h : WellFormed ts) : ∀ t ∈ ts, ∀ d ∈ t.fields, ∀ kind,
    d.initial = some (.newNode kind) →
      (∃ type, d.type = .child type) ∧ kind ∈ ts.map Template.name := by
  intro t ht d hd kind hkind
  obtain ⟨type, htype, t', ht', hname, -⟩ :=
    ((h.templates t ht).fields d hd).initialNode kind hkind
  exact ⟨⟨type, htype⟩, List.mem_map.2 ⟨t', ht', hname⟩⟩

theorem WellFormed.type_known (h : WellFormed ts) : ∀ t ∈ ts, ∀ d ∈ t.fields, ∀ type,
    d.type = .child type →
      (Family.ofName? type).isSome = true ∨ type ∈ ts.map Template.name := by
  intro t ht d hd type htype
  simpa using ((h.templates t ht).fields d hd).childKnown type htype

/-- The generator finds no fault in exactly the well-formed lists of templates. -/
theorem fault?_eq_none_iff : Schema.fault? ts = none ↔ WellFormed ts := by
  unfold Schema.fault? Signature.initialFault? Template.fault?
  simp only [Option.or_eq_none_iff, Template.nameFault?_eq_none, repeated?_eq_none,
    List.findSome?_eq_none_iff, Option.map_eq_none_iff, Template.memberFault?_eq_none,
    fieldFault?_eq_none, Signature.recursive?_eq_none]
  constructor
  · rintro ⟨⟨hfam, hnd, -⟩, htemplates, haccept, hrec⟩
    have hinit : ∀ t ∈ ts, ∀ d ∈ t.fields, ∀ kind, d.initial = some (.newNode kind) →
        (∃ type, d.type = .child type) ∧ kind ∈ ts.map Template.name :=
      fun t ht d hd => ((htemplates t ht).2.2.2 d hd).2.2.2.2.2
    have hchild : ∀ t ∈ ts, ∀ d ∈ t.fields, ∀ type, d.type = .child type →
        (d.accepts? (ts.map Template.name)).isSome = true := fun t ht d hd type htype =>
      (FieldDecl.accepts?_isSome htype).2 (((htemplates t ht).2.2.2 d hd).2.1 type htype)
    have hnode := (initialAccepted_ofTemplates_iff hnd hchild hinit).1 haccept
    refine ⟨hnd, fun t ht => ?_, ?_⟩
    · obtain ⟨hfields, hchecks, haccessors, hdecls⟩ := htemplates t ht
      refine ⟨hfam t ht, hfields, hchecks, haccessors, fun d hd => ?_⟩
      obtain ⟨hlist, htype, hcodec, hbounds, hdata, -⟩ := hdecls d hd
      exact ⟨hlist, by simpa using htype, hcodec, hbounds, hdata, hnode t ht d hd⟩
    · exact (notRecursive_ofTemplates_iff hnd fun t ht d hd kind h => (hinit t ht d hd kind h).2).1
        hrec
  · intro h
    have hinit := h.initial_known
    have htype := h.type_known
    refine ⟨⟨fun t ht => (h.templates t ht).notFamily, h.kindNames, by simp⟩, fun t ht => ?_, ?_,
      ?_⟩
    · have ht' := h.templates t ht
      refine ⟨ht'.fieldNames, ht'.checkNames, ht'.accessorNames, fun d hd => ?_⟩
      have hd' := ht'.fields d hd
      exact ⟨hd'.listPlain, htype t ht d hd, hd'.codecTyped, hd'.boundsInt, hd'.initialData,
        hinit t ht d hd⟩
    · refine (initialAccepted_ofTemplates_iff h.kindNames (fun t ht d hd type hd' => ?_) hinit).2
        fun t ht d hd => ((h.templates t ht).fields d hd).initialNode
      exact (FieldDecl.accepts?_isSome hd').2 (htype t ht d hd type hd')
    · exact (notRecursive_ofTemplates_iff h.kindNames
        fun t ht d hd kind hk => (hinit t ht d hd kind hk).2).2 h.notRecursive

/-! ## Generation -/

/-- Generation gives the schema of the templates exactly if they are well formed. -/
theorem generate_eq_ok_iff {s : Schema} :
    Schema.generate ts = .ok s ↔ WellFormed ts ∧ s = Schema.ofTemplates ts := by
  rw [← fault?_eq_none_iff]
  unfold Schema.generate
  cases Schema.fault? ts with
  | none => simp [eq_comm]
  | some e => simp

theorem exists_generate_iff : (∃ s, Schema.generate ts = .ok s) ↔ WellFormed ts := by
  simp [generate_eq_ok_iff]

theorem nameFault?_isSchema {seen : List String} {e : Error}
    (h : Template.nameFault? seen ts = some e) : ∃ kind fault, e = .schema kind fault := by
  induction ts generalizing seen with
  | nil => simp [Template.nameFault?] at h
  | cons t ts ih =>
    unfold Template.nameFault? at h
    split at h
    · exact ⟨_, _, (Option.some.inj h).symm⟩
    · split at h
      · exact ⟨_, _, (Option.some.inj h).symm⟩
      · exact ih h

theorem initialFault?_isSchema {σ : Signature} {e : Error} (h : σ.initialFault? = some e) :
    ∃ kind fault, e = .schema kind fault := by
  unfold Signature.initialFault? at h
  rcases Option.or_eq_some_iff.1 h with h | ⟨-, h⟩
  · obtain ⟨k, _, h⟩ := List.exists_of_findSome?_eq_some h
    obtain ⟨f, _, h⟩ := List.exists_of_findSome?_eq_some h
    split at h
    · split at h
      · cases h
      · exact ⟨_, _, (Option.some.inj h).symm⟩
    · cases h
  · obtain ⟨⟨k, _⟩, _, h⟩ := Option.map_eq_some_iff.1 h
    exact ⟨_, _, h.symm⟩

/-- Every fault is reported as an error about a declaration. -/
theorem fault?_isSchema {e : Error} (h : Schema.fault? ts = some e) :
    ∃ kind fault, e = .schema kind fault := by
  unfold Schema.fault? at h
  rcases Option.or_eq_some_iff.1 h with h | ⟨-, h⟩
  · exact nameFault?_isSchema h
  rcases Option.or_eq_some_iff.1 h with h | ⟨-, h⟩
  · obtain ⟨t, _, h⟩ := List.exists_of_findSome?_eq_some h
    obtain ⟨f, _, h⟩ := Option.map_eq_some_iff.1 h
    exact ⟨_, _, h.symm⟩
  · exact initialFault?_isSchema h

end Templates

/-- A schema is generated from exactly the well-formed lists of templates, in whatever order they
stand; for all others the answer is an error about a declaration. -/
theorem generate_ok_iff_wellFormed (ts : List Template) :
    ((∃ s, Schema.generate ts = .ok s) ↔ WellFormed ts) ∧
      (WellFormed ts ∨ ∃ kind fault, Schema.generate ts = .error (.schema kind fault)) ∧
      ∀ ts', ts.Perm ts' →
        ((∃ s, Schema.generate ts = .ok s) ↔ ∃ s, Schema.generate ts' = .ok s) := by
  refine ⟨exists_generate_iff, ?_, fun ts' hp => ?_⟩
  · cases hf : Schema.fault? ts with
    | none => exact .inl (fault?_eq_none_iff.1 hf)
    | some e =>
      obtain ⟨kind, fault, rfl⟩ := fault?_isSchema hf
      exact .inr ⟨kind, fault, by simp [Schema.generate, hf]⟩
  · rw [exists_generate_iff, exists_generate_iff]
    exact ⟨.perm hp, .perm hp.symm⟩

end Arbor
