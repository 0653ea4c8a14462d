import Arbor.Proofs.Check
import Arbor.Proofs.WellFormed

/-!
# Signatures of generated schemas

What generation leaves behind in the signature: child fields accept what their declared type takes,
initial nodes are of kinds that their fields accept, initial values are values that their fields
hold, and no kind starts with a node of itself, however far down.
-/

namespace Arbor

open Relation

/-- What generation has established for a field of the signature. -/
structure Field.Resolved (σ : Signature) (f : Field) : Prop where
  listPlain : f.decl.isList = true → f.decl.required = false ∧ f.decl.initial = none
  boundsInt : ∀ lo hi, f.decl.bounds = some (lo, hi) → f.decl.type = .data .int ∧ lo ≤ hi
  accepts : ∀ a, f.accepts = some a → ∃ type, f.decl.type = .child type ∧
    ∀ i k, σ.kinds[i]? = some k → (σ.accepts a i = true ↔ TypeTakes type k.name k.family)
  childKnown : ∀ type, f.decl.type = .child type → ∃ a, f.accepts = some a
  initialData : ∀ v, f.decl.initial = some (.data v) → f.decl.Holds v
  initialNode : ∀ kind, f.decl.initial = some (.newNode kind) → ∃ i, f.initialKind = some i
  initialKind : ∀ i, f.initialKind = some i → ∃ kind type k, f.decl.initial = some (.newNode kind) ∧
    f.decl.type = .child type ∧ σ.kinds[i]? = some k ∧ k.name = kind ∧
    TypeTakes type k.name k.family

/-- What generation has established for the signature. -/
structure Signature.Resolved (σ : Signature) : Prop where
  fields : ∀ (i : KindId) (k : Kind), σ.kinds[i]? = some k → ∀ f ∈ k.fields, f.Resolved σ
  fieldNames : ∀ (i : KindId) (k : Kind), σ.kinds[i]? = some k → (k.fields.map Field.name).Nodup
  notRecursive : ∀ i, ¬ TransGen σ.Starts i i

namespace WellFormed

variable {ts : List Template}

theorem resolved_field (h : WellFormed ts) {t : Template} (ht : t ∈ ts) {d : FieldDecl}
    (hd : d ∈ t.fields) :
    (d.resolve (ts.map Template.name)).Resolved (Schema.ofTemplates ts).signature := by
  have hknown := h.type_known t ht d hd
  have hd := (h.templates t ht).fields d hd
  refine ⟨hd.listPlain, hd.boundsInt, fun a ha => ?_, fun type htype => ?_, hd.initialData,
    fun kind hkind => ?_, fun i hi => ?_⟩
  · have htype : ∃ type, d.type = .child type := by
      cases htype : d.type with
      | child type => exact ⟨type, rfl⟩
      | data type => simp [FieldDecl.resolve, FieldDecl.accepts?, htype] at ha
    obtain ⟨type, htype⟩ := htype
    refine ⟨type, htype, fun i k hk => ?_⟩
    obtain ⟨t', ht', rfl⟩ := exists_template hk
    rw [accepts_ofTemplates_iff h.kindNames ha ht', htype]
    simp [Template.resolve]
  · exact Option.isSome_iff_exists.1 ((FieldDecl.accepts?_isSome htype).2 (hknown type htype))
  · obtain ⟨type, -, t', ht', hname, -⟩ := hd.initialNode kind hkind
    have hmem : kind ∈ ts.map Template.name := List.mem_map.2 ⟨t', ht', hname⟩
    obtain ⟨i, hi⟩ := Option.isSome_iff_exists.1 (List.isSome_idxOf?.2 hmem)
    exact ⟨i, initialKind?_eq_some.2 ⟨kind, hkind, hi⟩⟩
  · obtain ⟨kind, hkind, hi⟩ := initialKind?_eq_some.1 hi
    obtain ⟨type, htype, t', ht', hname, htakes⟩ := hd.initialNode kind hkind
    obtain ⟨j, hj⟩ := List.mem_iff_getElem?.1 ht'
    have hij : j = i := by
      have hj' : (ts.map Template.name)[j]? = some kind := by simp [hj, hname]
      rw [← idxOf?_eq_some_of_nodup h.kindNames] at hj'
      exact Option.some.inj (hj'.symm.trans hi)
    subst hij
    exact ⟨kind, type, _, hkind, htype, kinds_of_template hj, hname, htakes⟩

theorem transGen_leads_iff (h : WellFormed ts) {i j : KindId} {a b : Template}
    (ha : ts[i]? = some a) (hb : ts[j]? = some b) :
    TransGen (Leads ts) a.name b.name ↔ TransGen (Schema.ofTemplates ts).signature.Starts i j :=
  (transGen_starts_iff h.kindNames
    (fun t ht d hd kind hk => (h.initial_known t ht d hd kind hk).2) ha hb).symm

theorem resolved (h : WellFormed ts) : (Schema.ofTemplates ts).signature.Resolved := by
  refine ⟨fun i k hk f hf => ?_, fun i k hk => ?_, ?_⟩
  · obtain ⟨t, ht, rfl⟩ := exists_template hk
    obtain ⟨d, hd, rfl⟩ := List.mem_map.1 hf
    exact h.resolved_field (List.mem_of_getElem? ht) hd
  · obtain ⟨t, ht, rfl⟩ := exists_template hk
    have hnames : (t.resolve (ts.map Template.name)).fields.map Field.name =
        t.fields.map FieldDecl.name := by
      simp [Template.resolve, FieldDecl.resolve, Field.name, Function.comp_def]
    rw [hnames]
    exact (h.templates t (List.mem_of_getElem? ht)).fieldNames
  · exact (notRecursive_ofTemplates_iff h.kindNames
      fun t ht d hd kind hk => (h.initial_known t ht d hd kind hk).2).2 h.notRecursive

end WellFormed

/-- The signature of a generated schema is resolved. -/
theorem resolved_of_generate {ts : List Template} {s : Schema} (h : Schema.generate ts = .ok s) :
    s.signature.Resolved := by
  obtain ⟨hts, rfl⟩ := generate_eq_ok_iff.1 h
  exact hts.resolved

/-! ## Categories -/

namespace Field

variable {σ : Signature} {f : Field}

theorem category_singleChild : f.category = .singleChild ↔
    (∃ type, f.decl.type = .child type) ∧ f.decl.isList = false := by
  unfold category FieldDecl.category FieldDecl.isList
  cases f.decl.type <;> cases f.decl.multiplicity <;> simp

theorem category_singleData : f.category = .singleData ↔
    (∃ type, f.decl.type = .data type) ∧ f.decl.isList = false := by
  unfold category FieldDecl.category FieldDecl.isList
  cases f.decl.type <;> cases f.decl.multiplicity <;> simp

theorem isList_category : f.category.isList = f.decl.isList := by
  unfold category FieldDecl.category FieldDecl.isList
  cases f.decl.type <;> cases f.decl.multiplicity <;> rfl

/-- A field with an initial value is a single field. -/
theorem Resolved.isList_of_initial (h : f.Resolved σ) {i : Initial}
    (hi : f.decl.initial = some i) : f.decl.isList = false := by
  cases hl : f.decl.isList with
  | false => rfl
  | true =>
    have := (h.listPlain hl).2
    rw [hi] at this
    cases this

theorem Resolved.category_of_initialKind (h : f.Resolved σ) {i : KindId}
    (hi : f.initialKind = some i) : f.category = .singleChild := by
  obtain ⟨kind, type, -, hinit, htype, -⟩ := h.initialKind i hi
  exact category_singleChild.2 ⟨⟨type, htype⟩, h.isList_of_initial hinit⟩

theorem Resolved.category_of_initialData (h : f.Resolved σ) {v : Value}
    (hv : f.decl.initial = some (.data v)) : f.category = .singleData :=
  category_singleData.2 ⟨⟨_, (h.initialData v hv).1⟩, h.isList_of_initial hv⟩

end Field

theorem Signature.Resolved.of_mem {σ : Signature} (h : σ.Resolved) {kind : KindId} {f : Field}
    (hf : f ∈ σ.fields kind) : f.Resolved σ := by
  unfold Signature.fields at hf
  cases hk : σ.kinds[kind]? with
  | none => simp [hk] at hf
  | some k =>
    rw [hk] at hf
    exact h.fields kind k hk f hf

theorem Signature.Resolved.exists_kind {σ : Signature} (h : σ.Resolved) {a b : KindId}
    (hab : σ.Starts a b) : ∃ k, σ.kinds[b]? = some k := by
  obtain ⟨f, hf, hb⟩ := List.mem_filterMap.1 hab
  obtain ⟨_, _, k, -, -, hk, -⟩ := (h.of_mem hf).initialKind b hb
  exact ⟨k, hk⟩

/-- Fields of one kind with the same name are the same field. -/
theorem Signature.Resolved.index_eq {σ : Signature} (h : σ.Resolved) {kind : KindId} {i j : Nat}
    {f g : Field} (hf : (σ.fields kind)[i]? = some f) (hg : (σ.fields kind)[j]? = some g)
    (hname : f.name = g.name) : i = j := by
  cases hk : σ.kinds[kind]? with
  | none => simp [Signature.fields, hk] at hf
  | some k =>
    rw [Signature.fields_of_kinds hk] at hf hg
    have hlt : i < (k.fields.map Field.name).length := by
      rw [List.length_map]
      exact (List.getElem?_eq_some_iff.1 hf).1
    refine (List.getElem?_inj hlt (h.fieldNames kind k hk)).1 ?_
    simp [hf, hg, hname]

/-- A field is found by its name. -/
theorem Signature.Resolved.place?_eq {σ : Signature} (h : σ.Resolved) {kind : KindId} {k : Kind}
    (hk : σ.kinds[kind]? = some k) {i : Nat} {f : Field} (hf : k.fields[i]? = some f) :
    k.place? f.name = some ⟨k, i, f⟩ := by
  obtain ⟨hi, rfl⟩ := List.getElem?_eq_some_iff.1 hf
  have hfind : k.fields.findIdx? (·.name == k.fields[i].name) = some i := by
    refine List.findIdx?_eq_some_iff_getElem.2 ⟨hi, by simp, fun j hj hname => ?_⟩
    have hthis : (σ.fields kind)[i]? = some k.fields[i] := by rwa [Signature.fields_of_kinds hk]
    have hother : (σ.fields kind)[j]? = some k.fields[j] := by
      rw [Signature.fields_of_kinds hk, List.getElem?_eq_getElem]
    exact absurd (h.index_eq hother hthis (by simpa using hname)) (Nat.ne_of_lt hj)
  unfold Kind.place?
  rw [hfind]
  simp [hi]

theorem Place.Of.locate_eq {σ : Signature} {t : Tree σ} {id : NodeId} {p : Place} {n : Node}
    (hp : p.Of t id n) (hσ : σ.Resolved) {expected : List Category}
    (hcat : p.field.category ∈ expected) : t.locate id p.field.name expected = .ok p := by
  have hfield := hp.field
  rw [Signature.fields_of_kinds hp.kind] at hfield
  exact bind_eq_ok.2 ⟨p.kind, Tree.kind_eq_ok.2 ⟨n, hp.node, hp.kind⟩,
    Kind.resolve_eq_ok.2 ⟨hσ.place?_eq hp.kind hfield, hcat⟩⟩

end Arbor
