import Arbor.Proofs.Completeness
import Arbor.Proofs.References

/-!
# Validation of subtrees

All nodes of a validation report to one sink, and whether a node's checks run is decided by the
size of the sink before and after its required fields have been looked at. If the checks only add to
the sink, what a node adds does not depend on what is there already: the diagnostics of a subtree
are those of its nodes, one after the other in pre-order.

A standard tree has no diagnostics below a node just if no node there lacks a required field, every
try statement is caught or has a finally block, and every catch clause declares one variable.
-/

namespace Arbor

/-! ## Checks -/

namespace Check

/-- What the check reports of a node. -/
def findings (c : Check) {σ : Signature} (t : Tree σ) (id : NodeId) : List Diagnostic :=
  (c.run σ t id .empty).toList

/-- The check adds its findings to the sink, whatever is there already. -/
def Appends (c : Check) : Prop :=
  ∀ (σ : Signature) (t : Tree σ) (id : NodeId) (sink : Sink),
    (c.run σ t id sink).toList = sink.toList ++ c.findings t id

theorem toList_foldl_run {σ : Signature} {t : Tree σ} {id : NodeId} {checks : List Check}
    (h : ∀ c ∈ checks, c.Appends) (sink : Sink) :
    (checks.foldl (fun sink c => c.run σ t id sink) sink).toList =
      sink.toList ++ checks.flatMap (·.findings t id) := by
  induction checks generalizing sink with
  | nil => simp
  | cons c checks ih =>
    rw [List.foldl_cons, ih fun d hd => h d (List.mem_cons_of_mem _ hd), h c List.mem_cons_self,
      List.flatMap_cons, List.append_assoc]

end Check

/-! ## The shared sink -/

namespace Schema

variable {s : Schema} {t : Tree s.signature} {id : NodeId}

theorem checked_eq {n : Node} {k : KindSpec} (hn : t.node? id = some n)
    (hk : s.kinds[n.kind]? = some k) (hchecks : ∀ c ∈ k.checks, c.Appends) :
    s.checked t id = k.checks.flatMap (·.findings t id) := by
  simp only [checked, hn, hk, Check.toList_foldl_run hchecks, Sink.toList_empty, List.nil_append]

/-- A sink grows by the names of the absent fields, so its size tells whether there are any. -/
theorem size_foldl_reportMissing_eq_iff {names : List String} {sink : Sink} :
    (names.foldl (Sink.reportMissing · id ·) sink).size = sink.size ↔ names = [] := by
  rw [Sink.size_eq_length, Sink.size_eq_length, toList_foldl_reportMissing, List.length_append,
    List.length_map, Nat.add_eq_left, List.length_eq_zero_iff]

section Appending

variable (hs : ∀ k ∈ s.kinds, ∀ c ∈ k.checks, c.Appends)
include hs

/-- A node adds the same diagnostics to every sink. -/
theorem toList_validateInto (sink : Sink) (id : NodeId) :
    (s.validateInto t sink id).toList = sink.toList ++ s.validate t id := by
  rw [validate_eq]
  unfold validateInto
  cases hn : t.node? id with
  | none => simp [missing, checked, hn]
  | some n =>
    cases hk : s.kinds[n.kind]? with
    | none => simp [missing, checked, hn, hk]
    | some k =>
      have hchecks := hs k (List.mem_of_getElem? hk)
      have hmissing : s.missing t id = n.missing k.toKind := by simp [missing, hn, hk]
      -- what the sink held before has dropped out of the test for missing fields
      simp only [hk, hmissing, size_foldl_reportMissing_eq_iff]
      by_cases hnone : n.missing k.toKind = []
      · rw [if_pos hnone, if_pos hnone, Check.toList_foldl_run hchecks, checked_eq hn hk hchecks,
          hnone]
        rfl
      · rw [if_neg hnone, if_neg hnone, toList_foldl_reportMissing]

theorem toList_foldl_validateInto (ids : List NodeId) (sink : Sink) :
    (ids.foldl (s.validateInto t) sink).toList = sink.toList ++ ids.flatMap (s.validate t) := by
  induction ids generalizing sink with
  | nil => simp
  | cons id ids ih =>
    rw [List.foldl_cons, ih, toList_validateInto hs, List.flatMap_cons, List.append_assoc]

/-- A subtree has the diagnostics of its nodes, in pre-order. -/
theorem validateTree_eq_flatMap (root : NodeId) :
    s.validateTree t root = (t.walk root).flatMap (s.validate t) :=
  toList_foldl_validateInto hs _ _

end Appending

end Schema

/-! ## Absent fields -/

namespace Tree

variable {σ : Signature} (t : Tree σ)

/-- Whether reading a single field of the node gives something. -/
def isPresent (id : NodeId) (f : Field) : Bool :=
  if f.decl.isChild then
    match t.child id f.name with
    | .ok held => held.isSome
    | .error _ => false
  else
    match t.data id f.name with
    | .ok held => held.isSome
    | .error _ => false

/-- The required single fields of a kind that are absent from the node, in the order of the
declaration. -/
def absentFields (id : NodeId) (k : Kind) : List Field :=
  k.fields.filter fun f => f.decl.required && !f.decl.isList && !t.isPresent id f

variable {t}

theorem Conforms.isPresent_eq (hconf : t.Conforms) (hσ : σ.Resolved) {id : NodeId} {p : Place}
    {n : Node} (hp : p.Of t id n) {s : Slot} (hs : t.slot? id p.index = some s)
    (hsingle : p.field.decl.isList = false) : t.isPresent id p.field = s.isFilled := by
  obtain ⟨s', hs', hslot, hread⟩ := hconf.readAs hσ hp
  obtain rfl : s = s' := Option.some.inj (hs.symm.trans hs')
  unfold isPresent
  cases s with
  | child held =>
    obtain ⟨⟨type, htype⟩, -⟩ := Field.category_singleChild.1 hslot.1
    have hread : t.child id p.field.name = .ok held := hread
    simp [FieldDecl.isChild, htype, hread, Slot.isFilled]
  | data held =>
    obtain ⟨⟨type, htype⟩, -⟩ := Field.category_singleData.1 hslot.1
    have hread : t.data id p.field.name = .ok held := hread
    simp [FieldDecl.isChild, htype, hread, Slot.isFilled]
  | children held =>
    rw [← Field.isList_category, hslot.1] at hsingle
    cases hsingle
  | values held =>
    rw [← Field.isList_category, hslot.1] at hsingle
    cases hsingle

theorem filterMap_zip_slots {present : Field → Bool} {fs : List Field} {ss : List Slot}
    (h : List.Forall₂ (fun f s => f.decl.isList = false → present f = s.isFilled) fs ss) :
    ((fs.zip ss).filterMap fun (f, s) =>
      if f.decl.required && !f.decl.isList && !s.isFilled then some f.name else none) =
      (fs.filter fun f => f.decl.required && !f.decl.isList && !present f).map Field.name := by
  induction h with
  | nil => rfl
  | @cons f s fs ss hf _ ih =>
    have hsame : (f.decl.required && !f.decl.isList && !s.isFilled) =
        (f.decl.required && !f.decl.isList && !present f) := by
      cases hlist : f.decl.isList with
      | true => simp
      | false => rw [hf hlist]
    rw [List.zip_cons_cons, List.filterMap_cons, List.filter_cons, ih]
    simp only [hsame]
    cases f.decl.required && !f.decl.isList && !present f <;> rfl

/-- Validation looks at the slots of a node, and misses the fields that reading finds absent. -/
theorem Conforms.missing_eq (hconf : t.Conforms) (hσ : σ.Resolved) {id : NodeId} {n : Node}
    (hn : t.node? id = some n) {k : Kind} (hk : σ.kinds[n.kind]? = some k) :
    n.missing k = (t.absentFields id k).map Field.name := by
  have hfields := Signature.fields_of_kinds hk
  have hlen := (hconf id n hn).slots.length_eq
  rw [hfields] at hlen
  refine filterMap_zip_slots (List.forall₂_iff_get.2 ⟨hlen, fun i hi hi' hsingle => ?_⟩)
  have hp : Place.Of t id ⟨k, i, k.fields.get ⟨i, hi⟩⟩ n :=
    ⟨hn, hk, by rw [hfields]; exact List.getElem?_eq_getElem hi⟩
  refine hconf.isPresent_eq hσ hp ?_ hsingle
  rw [slot?_of_node? hn]
  exact List.getElem?_eq_getElem hi'

end Tree

/-- A node is reported for its absent fields, or else for what the checks of its kind find. -/
theorem Schema.exists_validate_eq {s : Schema} (hσ : s.signature.Resolved)
    (hs : ∀ k ∈ s.kinds, ∀ c ∈ k.checks, c.Appends) {t : Tree s.signature} (hconf : t.Conforms)
    {id : NodeId} (hid : id < t.size) :
    ∃ n k, t.node? id = some n ∧ s.kinds[n.kind]? = some k ∧
      (t.absentFields id k.toKind ≠ [] →
        s.validate t id = (t.absentFields id k.toKind).map fun f => absent id f.name) ∧
      (t.absentFields id k.toKind = [] → s.validate t id = k.checks.flatMap (·.findings t id)) := by
  obtain ⟨n, hn⟩ := Tree.exists_node? hid
  have hlt : n.kind < s.kinds.length := by
    simpa [signature] using (hconf id n hn).kind
  have hk : s.kinds[n.kind]? = some s.kinds[n.kind] := List.getElem?_eq_getElem hlt
  have hkind : s.signature.kinds[n.kind]? = some s.kinds[n.kind].toKind := by
    rw [signature, List.getElem?_map, hk]
    rfl
  have hmissing := (missing_of_node? hn hkind).trans (hconf.missing_eq hσ hn hkind)
  refine ⟨n, _, hn, hk, fun hsome => ?_, fun hnone => ?_⟩
  · rw [validate_eq, hmissing, if_neg (by simpa using hsome), List.map_map]
    rfl
  · rw [validate_eq, hmissing, hnone]
    exact checked_eq hn hk (hs _ (List.mem_of_getElem? hk))

/-! ## The standard checks -/

theorem Sink.toList_report_if (c : Prop) [Decidable c] (sink : Sink) (id : NodeId)
    (message : String) : (if c then sink.report id message else sink).toList =
      sink.toList ++ if c then [⟨id, message⟩] else [] := by
  split <;> simp

namespace Standard

/-- The checks of a standard kind. -/
def checksOf (name : String) : List Check :=
  if name = "Try" then [notLoneTry]
  else if name = "Catch" then [catchDeclaresOneVariable]
  else []

theorem map_checks_templates :
    templates.map Template.checks = templates.map fun d => checksOf d.name :=
  rfl

theorem checks_eq {d : Template} (hd : d ∈ templates) : d.checks = checksOf d.name :=
  List.map_inj_left.1 map_checks_templates d hd

theorem appends_notLoneTry : notLoneTry.Appends := by
  intro σ t id sink
  simp only [Check.findings, notLoneTry, Sink.toList_report_if, Sink.toList_empty, List.nil_append]

theorem appends_catchDeclaresOneVariable : catchDeclaresOneVariable.Appends := by
  intro σ t id sink
  simp only [Check.findings, catchDeclaresOneVariable]
  cases t.child id "exception_declaration" with
  | error e => simp
  | ok held =>
    cases held with
    | none => simp
    | some declaration =>
      simp only [← ite_not (_ = 1), Sink.toList_report_if, Sink.toList_empty, List.nil_append]

theorem appends_checks : ∀ k ∈ schema.kinds, ∀ c ∈ k.checks, c.Appends := by
  intro k hk c hc
  obtain ⟨d, hd, rfl⟩ := List.mem_map.1 hk
  rcases eq_of_mem_checks hd hc with rfl | rfl
  · exact appends_catchDeclaresOneVariable
  · exact appends_notLoneTry

section Findings

variable {σ : Signature} {t : Tree σ} {id : NodeId}

theorem findings_notLoneTry {catches : List NodeId} {block : Option NodeId}
    (hcatches : t.children id "catches" = .ok catches) (hblock : t.child id "finally" = .ok block) :
    notLoneTry.findings t id = [] ↔ catches ≠ [] ∨ block ≠ none := by
  simp only [Check.findings, notLoneTry, hcatches, hblock]
  cases catches <;> cases block <;> simp

theorem findings_catchDeclaresOneVariable {declaration : NodeId} {entries : List NodeId}
    (hdeclaration : t.child id "exception_declaration" = .ok (some declaration))
    (hentries : t.children declaration "variables" = .ok entries) :
    catchDeclaresOneVariable.findings t id = [] ↔ entries.length = 1 := by
  simp only [Check.findings, catchDeclaresOneVariable, hdeclaration, hentries]
  split <;> simp_all

end Findings

theorem exists_try : ∃ d ∈ templates, d.name = "Try" ∧ d.fields =
    [(FieldDecl.child "body" "Block").asRequired, .children "catches" "Catch",
      .child "finally" "Block"] :=
  ⟨_, List.mem_append_left _ (List.mem_append_left _ (List.mem_of_getElem? (i := 9) rfl)), rfl, rfl⟩

theorem exists_catch : ∃ d ∈ templates, d.name = "Catch" ∧ d.fields =
    [(FieldDecl.child "exception_declaration" "VariableDeclaration").asRequired,
      (FieldDecl.child "body" "Block").asRequired] :=
  ⟨_, List.mem_append_left _ (List.mem_append_left _ (List.mem_of_getElem? (i := 1) rfl)), rfl, rfl⟩

theorem exists_variableDeclaration : ∃ d ∈ templates, d.name = "VariableDeclaration" ∧ d.fields =
    [(FieldDecl.child "type_reference" "TypeReference").asRequired,
      .children "variables" "VariableDeclarationEntry"] :=
  ⟨_, List.mem_append_left _ (List.mem_append_left _ (List.mem_of_getElem? (i := 10) rfl)), rfl,
    rfl⟩

end Standard

/-- The node lacks no required field. If it is a try statement, it has a catch clause or a finally
block; if it is a catch clause, its declaration declares exactly one variable. -/
structure Tree.Valid {σ : Signature} (t : Tree σ) (id : NodeId) : Prop where
  complete : ∀ k, t.kind id = .ok k → ∀ f ∈ k.fields, f.decl.required = true →
    f.decl.isList = false → t.isPresent id f = true
  tryAnswered : t.HasKind "Try" id →
    (∃ catches, t.children id "catches" = .ok catches ∧ catches ≠ []) ∨
      ∃ block, t.child id "finally" = .ok (some block)
  catchDeclares : t.HasKind "Catch" id → ∃ declaration entry,
    t.child id "exception_declaration" = .ok (some declaration) ∧
      t.children declaration "variables" = .ok [entry]

theorem Tree.absentFields_eq_nil_iff {σ : Signature} {t : Tree σ} {id : NodeId} {k : Kind} :
    t.absentFields id k = [] ↔ ∀ f ∈ k.fields, f.decl.required = true → f.decl.isList = false →
      t.isPresent id f = true := by
  simp [absentFields, List.filter_eq_nil_iff]

namespace Standard

theorem wellFormed_templates : WellFormed templates :=
  (generate_eq_ok_iff.1 generate_templates).1

variable {t : Tree schema.signature} {id : NodeId}

theorem findings_of_try (hconf : t.Conforms) (hid : t.HasKind "Try" id) :
    notLoneTry.findings t id = [] ↔
      (∃ catches, t.children id "catches" = .ok catches ∧ catches ≠ []) ∨
        ∃ block, t.child id "finally" = .ok (some block) := by
  obtain ⟨d, hd, hname, hfields⟩ := exists_try
  obtain ⟨n, -, hslots⟩ := exists_slots_of_template wellFormed_templates hconf hd (hname ▸ hid)
  simp only [hfields, List.forall₂_cons_left_iff, List.forall₂_nil_left_iff] at hslots
  obtain ⟨_, _, -, ⟨s, _, ⟨hcatches, hcatchesRead⟩, ⟨u, _, ⟨hblock, hblockRead⟩, -⟩, -⟩, -⟩ :=
    hslots
  obtain ⟨catches, rfl⟩ := hcatches.eq_children rfl
  obtain ⟨block, rfl⟩ := hblock.eq_child rfl
  have hcatches : t.children id "catches" = .ok catches := hcatchesRead
  have hblock : t.child id "finally" = .ok block := hblockRead
  rw [findings_notLoneTry hcatches hblock, hcatches, hblock]
  simp [Option.ne_none_iff_exists']

theorem exists_variables (hconf : t.Conforms) (hid : t.HasKind "VariableDeclaration" id) :
    ∃ entries, t.children id "variables" = .ok entries := by
  obtain ⟨d, hd, hname, hfields⟩ := exists_variableDeclaration
  obtain ⟨n, -, hslots⟩ := exists_slots_of_template wellFormed_templates hconf hd (hname ▸ hid)
  simp only [hfields, List.forall₂_cons_left_iff, List.forall₂_nil_left_iff] at hslots
  obtain ⟨_, _, -, ⟨s, _, ⟨hentries, hentriesRead⟩, -⟩, -⟩ := hslots
  obtain ⟨entries, rfl⟩ := hentries.eq_children rfl
  exact ⟨entries, hentriesRead⟩

/-- A complete catch clause has a declaration, and the declaration has a list of variables. -/
theorem exists_declaration (hconf : t.Conforms) (hid : t.HasKind "Catch" id)
    (hcomplete : ∀ k, t.kind id = .ok k → t.absentFields id k = []) :
    ∃ declaration entries, t.child id "exception_declaration" = .ok (some declaration) ∧
      t.children declaration "variables" = .ok entries := by
  obtain ⟨d, hd, hname, hfields⟩ := exists_catch
  have hkind := kind_of_fits wellFormed_templates hd (HandleType.fits_kind.2 (hname ▸ hid))
  obtain ⟨n, -, hslots⟩ := exists_slots_of_template wellFormed_templates hconf hd (hname ▸ hid)
  simp only [hfields, List.forall₂_cons_left_iff, List.forall₂_nil_left_iff] at hslots
  obtain ⟨s, _, ⟨hdecl, hdeclRead⟩, -⟩ := hslots
  obtain ⟨held, rfl⟩ := hdecl.eq_child rfl
  have hread : t.child id "exception_declaration" = .ok held := hdeclRead
  have hpresent := Tree.absentFields_eq_nil_iff.1 (hcomplete _ hkind) _
    (List.mem_map_of_mem (hfields ▸ List.mem_cons_self)) rfl rfl
  have hheld : held.isSome = true := by
    simpa [Tree.isPresent, FieldDecl.resolve, FieldDecl.isChild, FieldDecl.asRequired,
      FieldDecl.child, Field.name, hread] using hpresent
  obtain ⟨declaration, rfl⟩ := Option.isSome_iff_exists.1 hheld
  obtain ⟨entries, hentries⟩ :=
    exists_variables hconf ((hdecl.2 declaration rfl).hasKind rfl (by decide))
  exact ⟨declaration, entries, hread, hentries⟩

theorem findings_of_catch (hconf : t.Conforms) (hid : t.HasKind "Catch" id)
    (hcomplete : ∀ k, t.kind id = .ok k → t.absentFields id k = []) :
    catchDeclaresOneVariable.findings t id = [] ↔ ∃ declaration entry,
      t.child id "exception_declaration" = .ok (some declaration) ∧
        t.children declaration "variables" = .ok [entry] := by
  obtain ⟨declaration, entries, hdecl, hentries⟩ := exists_declaration hconf hid hcomplete
  rw [findings_catchDeclaresOneVariable hdecl hentries, List.length_eq_one_iff, hdecl]
  constructor
  · rintro ⟨entry, rfl⟩
    exact ⟨declaration, entry, rfl, hentries⟩
  · rintro ⟨_, entry, hsame, hentry⟩
    cases hsame
    exact ⟨entry, Except.ok.inj (hentries.symm.trans hentry)⟩

/-- The checks of a complete node find nothing just if the node is valid. -/
theorem findings_checksOf (hconf : t.Conforms) {kind : String} (hkind : t.HasKind kind id)
    (hcomplete : ∀ k, t.kind id = .ok k → t.absentFields id k = []) :
    (∀ c ∈ checksOf kind, c.findings t id = []) ↔ t.Valid id := by
  constructor
  · intro hnothing
    refine ⟨fun k hk => Tree.absentFields_eq_nil_iff.1 (hcomplete k hk), fun htry => ?_,
      fun hcatch => ?_⟩
    · obtain rfl := htry.name_eq hkind
      exact (findings_of_try hconf htry).1 (hnothing _ List.mem_cons_self)
    · obtain rfl := hcatch.name_eq hkind
      exact (findings_of_catch hconf hcatch hcomplete).1 (hnothing _ List.mem_cons_self)
  · intro hvalid c hc
    unfold checksOf at hc
    split at hc
    · next hname =>
      rw [hname] at hkind
      rw [List.mem_singleton.1 hc]
      exact (findings_of_try hconf hkind).2 (hvalid.tryAnswered hkind)
    · split at hc
      · next hname =>
        rw [hname] at hkind
        rw [List.mem_singleton.1 hc]
        exact (findings_of_catch hconf hkind hcomplete).2 (hvalid.catchDeclares hkind)
      · cases hc

/-- A node of a standard tree has no diagnostics just if it is valid. -/
theorem validate_eq_nil_iff (hconf : t.Conforms) (hid : id < t.size) :
    schema.validate t id = [] ↔ t.Valid id := by
  obtain ⟨n, k, hn, hk, hsome, hnone⟩ := Schema.exists_validate_eq
    (resolved_of_generate generate_templates) appends_checks hconf hid
  obtain ⟨d, hd, rfl⟩ := List.mem_map.1 (List.mem_of_getElem? hk)
  have hkind : t.kind id = .ok (d.resolve (templates.map Template.name)).toKind := by
    refine Tree.kind_eq_ok.2 ⟨n, hn, ?_⟩
    rw [Schema.signature, List.getElem?_map, hk]
    rfl
  -- the checks of a node with absent fields do not run, and such a node is not valid anyway
  by_cases habsent : t.absentFields id (d.resolve (templates.map Template.name)).toKind = []
  · have hcomplete : ∀ k, t.kind id = .ok k → t.absentFields id k = [] := by
      intro k hk
      cases hkind.symm.trans hk
      exact habsent
    have hchecks : (d.resolve (templates.map Template.name)).checks = checksOf d.name :=
      checks_eq hd
    rw [hnone habsent, List.flatMap_eq_nil_iff, hchecks]
    exact findings_checksOf hconf ⟨_, hkind, rfl⟩ hcomplete
  · constructor
    · intro hnil
      rw [hsome habsent, List.map_eq_nil_iff] at hnil
      exact absurd hnil habsent
    · intro hvalid
      exact absurd (Tree.absentFields_eq_nil_iff.2 (hvalid.complete _ hkind)) habsent

end Standard

/-- Over a schema whose checks only add to the sink, a subtree of a reachable tree has the
diagnostics of its nodes in pre-order. A node that lacks required fields has one diagnostic for each
of them, in the order of the declaration, and no others; a node that lacks none has those that the
checks of its kind find, in the order of the declaration. A subtree over the standard schema has no
diagnostics just if all its nodes are valid. -/
theorem validation_in_preorder :
    (∀ (ts : List Template) (s : Schema), Schema.generate ts = .ok s →
      (∀ k ∈ s.kinds, ∀ c ∈ k.checks, c.Appends) →
      ∀ t : Tree s.signature, t.Reachable →
        (∀ root < t.size, s.validateTree t root = (t.walk root).flatMap (s.validate t)) ∧
        ∀ id < t.size, ∃ n k, t.node? id = some n ∧ s.kinds[n.kind]? = some k ∧
          (t.absentFields id k.toKind ≠ [] → s.validate t id =
            (t.absentFields id k.toKind).map fun f =>
              ⟨id, "missing required field " ++ ticked f.name⟩) ∧
          (t.absentFields id k.toKind = [] →
            s.validate t id = k.checks.flatMap (·.findings t id))) ∧
    ∀ t : Tree Standard.schema.signature, t.Reachable → ∀ root < t.size,
      (Standard.schema.validateTree t root = [] ↔ ∀ id ∈ t.walk root, t.Valid id) := by
  refine ⟨fun ts s hs hchecks t ht => ⟨fun root _ => Schema.validateTree_eq_flatMap hchecks root,
    fun id hid => ?_⟩, fun t ht root hroot => ?_⟩
  · have hσ := resolved_of_generate hs
    exact Schema.exists_validate_eq hσ hchecks (ht.conforms hσ) hid
  · have hσ := resolved_of_generate Standard.generate_templates
    have hconf := ht.conforms hσ
    rw [Schema.validateTree_eq_flatMap Standard.appends_checks, List.flatMap_eq_nil_iff]
    refine forall₂_congr fun id hid => Standard.validate_eq_nil_iff hconf ?_
    exact Tree.Forest.lt_size_of_leads hroot (((ht.forest hσ).mem_walk hroot).1 hid)

/-- The block 4 holds the try statement 3, whose body it has taken away, and the try statement 1,
which has a body but neither a catch clause nor a finally block. -/
def blockTree : Tree Standard.schema.signature :=
  (Tree.empty.applyAll
    [.build "Block" [],
     .build "Try" [.child "body" 0],
     .build "Block" [],
     .build "Try" [.child "body" 2],
     .build "Block" [.children "contents" [3, 1, 2]]]).1

theorem reachable_blockTree : blockTree.Reachable :=
  Tree.Reachable.empty.applyAll (by decide +kernel)

/-- Node 3 is reported for its body alone, and this keeps no other node from being checked. -/
theorem validation_in_preorder_blockTree :
    blockTree.Reachable ∧ 4 < blockTree.size ∧ blockTree.walk 4 = [4, 3, 1, 0, 2] ∧
      Standard.schema.validateTree blockTree 4 =
        [⟨3, "missing required field `body`"⟩,
         ⟨1, "try statement with no catches and no finally"⟩] ∧
      (¬ ∀ id ∈ blockTree.walk 4, blockTree.Valid id) ∧
      ∀ id ∈ blockTree.walk 0, blockTree.Valid id := by
  have hwalk : blockTree.walk 4 = [4, 3, 1, 0, 2] := by decide +kernel
  have hnodes : [4, 3, 1, 0, 2].flatMap (Standard.schema.validate blockTree) =
      [⟨3, "missing required field `body`"⟩,
       ⟨1, "try statement with no catches and no finally"⟩] := by decide +kernel
  have hempty : Standard.schema.validateTree blockTree 0 = [] := by decide +kernel
  have h4 : 4 < blockTree.size := by decide +kernel
  obtain ⟨hgenerated, hstandard⟩ := validation_in_preorder
  have htree := (hgenerated Standard.templates Standard.schema Standard.generate_templates
    Standard.appends_checks blockTree reachable_blockTree).1 4 h4
  rw [hwalk, hnodes] at htree
  refine ⟨reachable_blockTree, h4, hwalk, htree, fun hvalid => ?_, ?_⟩
  · rw [(hstandard blockTree reachable_blockTree 4 h4).2 hvalid] at htree
    cases htree
  · exact (hstandard blockTree reachable_blockTree 0 (by decide +kernel)).1 hempty

end Arbor
