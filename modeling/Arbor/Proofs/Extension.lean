import Arbor.Proofs.Over
import Arbor.Validation

/-!
# Further templates

Templates may be followed by further ones. The kinds of the first templates stay what they are: each
child type and each initial node is resolved to the same kind as before. So a run that builds no
further kind gives the same answers over both schemas, and it ends with the same nodes, which read
the same.
-/

namespace Arbor

/-! ## Resolving with further names -/

theorem idxOf?_append_of_mem {names : List String} {name : String} (h : name ∈ names)
    (more : List String) : (names ++ more).idxOf? name = names.idxOf? name := by
  cases hi : names.idxOf? name with
  | none => exact absurd h (List.idxOf?_eq_none_iff.1 hi)
  | some i =>
    unfold List.idxOf? at hi ⊢
    rw [List.findIdx?_append, hi]
    rfl

section Resolve

variable {ts : List Template}

theorem FieldDecl.WellFormed.accepts?_append {d : FieldDecl} (h : d.WellFormed ts)
    (more : List String) :
    d.accepts? (ts.map Template.name ++ more) = d.accepts? (ts.map Template.name) := by
  unfold accepts?
  cases htype : d.type with
  | data type => rfl
  | child kind =>
    simp only
    cases hfamily : Family.ofName? kind with
    | some family => rfl
    | none =>
      obtain hfam | ⟨t, ht, hname⟩ := h.childKnown kind htype
      · simp [hfamily] at hfam
      · have hmem : kind ∈ ts.map Template.name := List.mem_map.2 ⟨t, ht, hname⟩
        simp only [idxOf?_append_of_mem hmem]

theorem FieldDecl.WellFormed.initialKind?_append {d : FieldDecl} (h : d.WellFormed ts)
    (more : List String) :
    d.initialKind? (ts.map Template.name ++ more) = d.initialKind? (ts.map Template.name) := by
  unfold initialKind?
  split
  · rename_i kind hinitial
    obtain ⟨_, -, t, ht, hname, -⟩ := h.initialNode kind hinitial
    exact idxOf?_append_of_mem (List.mem_map.2 ⟨t, ht, hname⟩) more
  · rfl

theorem Template.WellFormed.resolve_append {t : Template} (h : t.WellFormed ts)
    (more : List String) :
    t.resolve (ts.map Template.name ++ more) = t.resolve (ts.map Template.name) := by
  have hfields : t.fields.map (FieldDecl.resolve (ts.map Template.name ++ more)) =
      t.fields.map (FieldDecl.resolve (ts.map Template.name)) := by
    refine List.map_congr_left fun d hd => ?_
    rw [FieldDecl.resolve, FieldDecl.resolve, (h.fields d hd).accepts?_append,
      (h.fields d hd).initialKind?_append]
  rw [resolve, resolve, hfields]

/-- The schema of templates with further ones after them. -/
theorem WellFormed.kinds_append (h : WellFormed ts) (more : List Template) :
    (Schema.ofTemplates (ts ++ more)).kinds = (Schema.ofTemplates ts).kinds ++
      more.map (Template.resolve ((ts ++ more).map Template.name)) := by
  have hkinds : ts.map (Template.resolve ((ts ++ more).map Template.name)) =
      (Schema.ofTemplates ts).kinds := by
    rw [List.map_append]
    exact List.map_congr_left fun t ht => (h.templates t ht).resolve_append _
  rw [← hkinds, ← List.map_append]
  rfl

end Resolve

namespace Signature

variable {σ σ' : Signature} {more : List Kind} (hmore : σ'.kinds = σ.kinds ++ more) {name : String}
  (hname : name ∉ more.map Kind.name)
include hmore hname

theorem kindId?_append : σ'.kindId? name = σ.kindId? name := by
  have hnone : more.findIdx? (·.name == name) = none := by
    simpa using hname
  rw [kindId?, kindId?, hmore, List.findIdx?_append, hnone]
  simp

theorem kindNamed?_append : σ'.kindNamed? name = σ.kindNamed? name := by
  rw [kindNamed?, kindNamed?, kindId?_append hmore hname]
  cases hid : σ.kindId? name with
  | none => rfl
  | some id =>
    have hlt : id < σ.kinds.length := (List.findIdx?_eq_some_iff_getElem.1 hid).1
    have hkinds : σ'.kinds[id]? = σ.kinds[id]? := ExtendedBy.kinds_eq ⟨more, hmore⟩ hlt
    simp only [Option.bind_eq_bind, Option.bind_some, hkinds]

end Signature

section Names

variable {ts more : List Template} (h : WellFormed ts) {name : String}
  (hname : ∀ b ∈ more, b.name ≠ name)
include h hname

theorem WellFormed.exists_kinds_append : ∃ kinds,
    (Schema.ofTemplates (ts ++ more)).signature.kinds =
      (Schema.ofTemplates ts).signature.kinds ++ kinds ∧ name ∉ kinds.map Kind.name := by
  refine ⟨(more.map (Template.resolve ((ts ++ more).map Template.name))).map KindSpec.toKind,
    ?_, fun hmem => ?_⟩
  · rw [Schema.signature, h.kinds_append more, List.map_append]
    rfl
  · rw [List.map_map, List.map_map] at hmem
    obtain ⟨b, hb, hb'⟩ := List.mem_map.1 hmem
    exact hname b hb hb'

theorem WellFormed.kindId?_append : (Schema.ofTemplates (ts ++ more)).signature.kindId? name =
    (Schema.ofTemplates ts).signature.kindId? name := by
  obtain ⟨kinds, hkinds, hnew⟩ := h.exists_kinds_append hname
  exact Signature.kindId?_append hkinds hnew

theorem WellFormed.kindNamed?_append :
    (Schema.ofTemplates (ts ++ more)).signature.kindNamed? name =
      (Schema.ofTemplates ts).signature.kindNamed? name := by
  obtain ⟨kinds, hkinds, hnew⟩ := h.exists_kinds_append hname
  exact Signature.kindNamed?_append hkinds hnew

end Names

/-! ## Checks and accessors -/

/-- The check looks at the nodes of a tree and their kinds only: it reports the same where the
signature has further kinds. -/
def Check.NodesOnly (c : Check) : Prop :=
  ∀ (σ σ' : Signature) (t : Tree σ), σ.ExtendedBy σ' → t.KindsKnown →
    ∀ id sink, c.run σ' (t.over σ') id sink = c.run σ t id sink

/-- The accessor looks at the nodes of a tree and their kinds only. -/
def Accessor.NodesOnly (a : Accessor) : Prop :=
  ∀ (σ σ' : Signature) (t : Tree σ), σ.ExtendedBy σ' → t.KindsKnown →
    ∀ id, a.compute σ' (t.over σ') id = a.compute σ t id

/-- All checks and accessors of a template look at nodes only. -/
structure Template.NodesOnly (t : Template) : Prop where
  checks : ∀ c ∈ t.checks, c.NodesOnly
  accessors : ∀ a ∈ t.accessors, a.NodesOnly

theorem Template.nodesOnly_of_standard {t : Template} (ht : t ∈ Standard.templates) :
    t.NodesOnly := by
  constructor
  · intro c hc
    obtain rfl | rfl := Standard.eq_of_mem_checks ht hc <;> intro σ σ' t h ht id sink
    · simp only [Standard.catchDeclaresOneVariable, Tree.child_over h ht, Tree.children_over h ht]
    · simp only [Standard.notLoneTry, Tree.child_over h ht, Tree.children_over h ht]
  · intro a ha
    have hmem : a ∈ Standard.templates.flatMap Template.accessors :=
      List.mem_flatMap.2 ⟨t, ht, ha⟩
    simp only [Standard.accessors_templates, List.mem_cons, List.not_mem_nil, or_false] at hmem
    obtain rfl | rfl | rfl | rfl | rfl := hmem <;> intro σ σ' t h ht id
    · exact congrArg (Except.map Derived.text) (Tree.typeName_over h ht id)
    · exact congrArg (Except.map Derived.bool) (Tree.hasGenerics_over h ht id)
    · exact congrArg (Except.map Derived.list) (Tree.generics_over h ht id)
    · exact congrArg (Except.map Derived.text) (Tree.partTypeName_over h ht id)
    · exact congrArg (Except.map Derived.list) (Tree.partGenerics_over h ht id)

namespace Schema

variable {s s' : Schema}

/-- The schema `s'` has the kinds of `s`, each at its place, and perhaps more after them. -/
def ExtendedBy (s s' : Schema) : Prop :=
  ∃ more, s'.kinds = s.kinds ++ more

theorem ExtendedBy.signature (h : s.ExtendedBy s') : s.signature.ExtendedBy s'.signature := by
  obtain ⟨more, hmore⟩ := h
  exact ⟨more.map KindSpec.toKind, by simp [Schema.signature, hmore]⟩

section Over

variable {t : Tree s.signature} (h : s.ExtendedBy s') (ht : t.KindsKnown)
include h ht

theorem ExtendedBy.kinds_eq {id : NodeId} {n : Node} (hn : t.node? id = some n) :
    s'.kinds[n.kind]? = s.kinds[n.kind]? := by
  obtain ⟨more, hmore⟩ := h
  have hlt : n.kind < s.kinds.length := by simpa [Schema.signature] using ht id n hn
  rw [hmore, List.getElem?_append_left hlt]

theorem derive_over (hs : ∀ k ∈ s.kinds, ∀ a ∈ k.accessors, a.NodesOnly) (id : NodeId)
    (name : String) : s'.derive (t.over s'.signature) id name = s.derive t id name := by
  unfold derive
  rw [Tree.node?_over]
  cases hn : t.node? id with
  | none => rfl
  | some n =>
    simp only [Option.bind_some, h.kinds_eq ht hn]
    cases hk : s.kinds[n.kind]? with
    | none => rfl
    | some k =>
      simp only
      cases ha : accessor? k name with
      | none => rfl
      | some a =>
        have ha' := hs k (List.mem_of_getElem? hk) a (List.mem_of_find?_eq_some ha)
        exact ha' _ _ t h.signature ht id

theorem validateInto_over (hs : ∀ k ∈ s.kinds, ∀ c ∈ k.checks, c.NodesOnly) :
    s'.validateInto (t.over s'.signature) = s.validateInto t := by
  funext sink id
  unfold validateInto
  rw [Tree.node?_over]
  cases hn : t.node? id with
  | none => rfl
  | some n =>
    simp only [h.kinds_eq ht hn]
    cases hk : s.kinds[n.kind]? with
    | none => rfl
    | some k =>
      have hchecks : ∀ sink, k.checks.foldl
          (fun sink c => c.run s'.signature (t.over s'.signature) id sink) sink =
            k.checks.foldl (fun sink c => c.run s.signature t id sink) sink := fun sink =>
        List.foldl_ext _ _ sink fun sink c hc =>
          hs k (List.mem_of_getElem? hk) c hc _ _ t h.signature ht id sink
      simp only [hchecks]

theorem validate_over (hs : ∀ k ∈ s.kinds, ∀ c ∈ k.checks, c.NodesOnly) (id : NodeId) :
    s'.validate (t.over s'.signature) id = s.validate t id := by
  rw [validate, validate, validateInto_over h ht hs]

theorem validateTree_over (hs : ∀ k ∈ s.kinds, ∀ c ∈ k.checks, c.NodesOnly) (root : NodeId) :
    s'.validateTree (t.over s'.signature) root = s.validateTree t root := by
  rw [validateTree, validateTree, validateInto_over h ht hs, Tree.walk_over]

end Over

theorem exists_template {ts : List Template} {k : KindSpec} (hk : k ∈ (ofTemplates ts).kinds) :
    ∃ template ∈ ts, k.checks = template.checks ∧ k.accessors = template.accessors := by
  obtain ⟨template, hmem, rfl⟩ := List.mem_map.1 hk
  exact ⟨template, hmem, rfl, rfl⟩

end Schema

/-! ## The main statement -/

/-- Everything that is read off two trees, which may be over different signatures, is the same. -/
structure Tree.ReadsAs {σ σ' : Signature} (t' : Tree σ') (t : Tree σ) : Prop where
  nodes : t'.nodes = t.nodes
  kindId : ∀ id, t'.kindId id = t.kindId id
  kind : ∀ id, t'.kind id = t.kind id
  family? : ∀ id, t'.family? id = t.family? id
  ancestors : ∀ id, t'.ancestors id = t.ancestors id
  rootOf : ∀ id, t'.rootOf id = t.rootOf id
  walk : ∀ id, t'.walk id = t.walk id
  structurallyEqual : ∀ a b, t'.structurallyEqual a b = t.structurallyEqual a b
  child : ∀ id field, t'.child id field = t.child id field
  children : ∀ id field, t'.children id field = t.children id field
  data : ∀ id field, t'.data id field = t.data id field
  dataList : ∀ id field, t'.dataList id field = t.dataList id field
  rawForm : ∀ id field, t'.rawForm id field = t.rawForm id field
  openAddress : ∀ a, t'.openAddress a = t.openAddress a
  contents : ∀ v : ListView, v.contents t' = v.contents t
  values : ∀ v : ListView, v.values t' = v.values t
  generics : ∀ id, t'.generics id = t.generics id
  partGenerics : ∀ id, t'.partGenerics id = t.partGenerics id
  hasGenerics : ∀ id, t'.hasGenerics id = t.hasGenerics id
  typeName : ∀ id, t'.typeName id = t.typeName id
  partTypeName : ∀ id, t'.partTypeName id = t.partTypeName id
  fits : ∀ (h : HandleType) id, h.fits t' id = h.fits t id

theorem Tree.readsAs_over {σ σ' : Signature} {t : Tree σ} (h : σ.ExtendedBy σ')
    (ht : t.KindsKnown) : (t.over σ').ReadsAs t where
  nodes := rfl
  kindId := kindId_over σ' t
  kind := kind_over h ht
  family? := family?_over h ht
  ancestors := ancestors_over σ' t
  rootOf := rootOf_over σ' t
  walk := walk_over σ' t
  structurallyEqual := structurallyEqual_over σ' t
  child := child_over h ht
  children := children_over h ht
  data := data_over h ht
  dataList := dataList_over h ht
  rawForm := rawForm_over h ht
  openAddress := openAddress_over h ht
  contents _ := rfl
  values _ := rfl
  generics := generics_over h ht
  partGenerics := partGenerics_over h ht
  hasGenerics := hasGenerics_over h ht
  typeName := typeName_over h ht
  partTypeName := partTypeName_over h ht
  fits handle id := by rw [HandleType.fits, HandleType.fits, kind_over h ht]

/-- Further templates leave the schema of the templates before them as it is: its kinds come first,
unchanged and under the same numbers and names. A run of mutations that builds none of the further
kinds gives the same answers over both schemas, and it ends with trees of the same nodes that read
the same. Derived accessors and validation agree as well, if the checks and accessors of the first
templates look at nodes only; those of the standard templates do. -/
theorem further_templates_conservative {ts more : List Template} {s s' : Schema}
    (hs : Schema.generate ts = .ok s) (hs' : Schema.generate (ts ++ more) = .ok s') :
    s.kinds.length = ts.length ∧ s'.kinds.take ts.length = s.kinds ∧
    (∀ name, (∀ b ∈ more, b.name ≠ name) → s'.signature.kindId? name = s.signature.kindId? name) ∧
    (∀ ms : List Mutation, (∀ kind as, .build kind as ∈ ms → ∀ b ∈ more, b.name ≠ kind) →
      ∀ (t : Tree s.signature) answers, Tree.empty.applyAll ms = (t, answers) →
      ∃ t' : Tree s'.signature, Tree.empty.applyAll ms = (t', answers) ∧ t'.ReadsAs t ∧
        ((∀ template ∈ ts, template.NodesOnly) →
          (∀ id name, s'.derive t' id name = s.derive t id name) ∧
          (∀ id, s'.validate t' id = s.validate t id) ∧
          ∀ id, s'.validateTree t' id = s.validateTree t id)) ∧
    ∀ template ∈ Standard.templates, template.NodesOnly := by
  have hσ := resolved_of_generate hs
  have hrange := inRange_of_generate hs
  obtain ⟨hts, rfl⟩ := generate_eq_ok_iff.1 hs
  obtain ⟨-, rfl⟩ := generate_eq_ok_iff.1 hs'
  have hkinds := hts.kinds_append more
  have hlength : (Schema.ofTemplates ts).kinds.length = ts.length := List.length_map _
  have hext : (Schema.ofTemplates ts).ExtendedBy (Schema.ofTemplates (ts ++ more)) := ⟨_, hkinds⟩
  refine ⟨hlength, ?_, fun name hname => hts.kindId?_append hname, fun ms hms t answers hrun => ?_,
    fun _ => Template.nodesOnly_of_standard⟩
  · rw [hkinds, ← hlength, List.take_left]
  · have hempty : (Tree.empty : Tree (Schema.ofTemplates ts).signature).Conforms :=
      Tree.Reachable.empty.conforms hσ
    have hconf := (Tree.steps_applyAll ms).conforms hσ hempty
    have hover := Tree.applyAll_over hext.signature hσ hrange hempty fun kind as hm =>
      hts.kindNamed?_append (hms kind as hm)
    rw [hrun] at hconf hover
    have ht := hconf.kindsKnown
    refine ⟨t.over _, hover, Tree.readsAs_over hext.signature ht, fun honly => ?_⟩
    have hchecks : ∀ k ∈ (Schema.ofTemplates ts).kinds, ∀ c ∈ k.checks, c.NodesOnly := by
      intro k hk
      obtain ⟨template, hmem, hsame, -⟩ := Schema.exists_template hk
      exact hsame ▸ (honly template hmem).checks
    have haccessors : ∀ k ∈ (Schema.ofTemplates ts).kinds, ∀ a ∈ k.accessors, a.NodesOnly := by
      intro k hk
      obtain ⟨template, hmem, -, hsame⟩ := Schema.exists_template hk
      exact hsame ▸ (honly template hmem).accessors
    exact ⟨Schema.derive_over hext ht haccessors, Schema.validate_over hext ht hchecks,
      Schema.validateTree_over hext ht hchecks⟩

/-- A shelf starts with a group and holds items. -/
def shelfTemplates : List Template :=
  [{ name := "Shelf"
     fields := [(FieldDecl.child "group" "Group").startingWith (.newNode "Group"),
      .children "items" "Item"] }]

/-- A group is built and refuses itself, a text stands for no level of an item, and the item leaves
the list of the group for its field. -/
def grouping : List Mutation :=
  [.build "Item" [.data "level" (.int 7)],
   .build "Group" [.children "rest" [0]],
   .setChild 1 "first" (some 1),
   .build "Item" [.raw "level" "5"],
   .setChild 1 "first" (some 0)]

theorem further_templates_shelf :
    Schema.generate groupTemplates = .ok (Schema.ofTemplates groupTemplates) ∧
      Schema.generate (groupTemplates ++ shelfTemplates) =
        .ok (Schema.ofTemplates (groupTemplates ++ shelfTemplates)) ∧
      ∃ t : Tree (Schema.ofTemplates (groupTemplates ++ shelfTemplates)).signature,
        Tree.empty.applyAll grouping = (t,
          [.ok (some 0), .ok (some 1),
           .error (.contract "Group" "first" (.notAccepted "Item" "Group" none)),
           .error (.contract "Item" "level" (.outOfBounds 42 0 9)), .ok none]) ∧
        t.node? 1 = some ⟨1, none, [.child (some 0), .children []]⟩ := by
  have hshelf : Schema.generate (groupTemplates ++ shelfTemplates) =
      .ok (Schema.ofTemplates (groupTemplates ++ shelfTemplates)) := rfl
  obtain ⟨-, -, -, hruns, -⟩ := further_templates_conservative generate_groupTemplates hshelf
  have hbuilds : ∀ kind as, .build kind as ∈ grouping → ∀ b ∈ shelfTemplates, b.name ≠ kind := by
    intro kind as hm b hb
    obtain rfl := List.mem_singleton.1 hb
    simp only [grouping, List.mem_cons, List.not_mem_nil, Mutation.build.injEq, reduceCtorEq,
      or_false, false_or] at hm
    obtain ⟨rfl, -⟩ | ⟨rfl, -⟩ | ⟨rfl, -⟩ := hm <;> decide
  obtain ⟨t', hrun, hreads, -⟩ := hruns grouping hbuilds _ _ rfl
  refine ⟨generate_groupTemplates, hshelf, t', hrun, ?_⟩
  rw [Tree.node?, hreads.nodes]
  rfl

end Arbor
