import Arbor.Handle
import Arbor.Proofs.Conformity
import Arbor.Standard

/-!
# Typed handles

A declared field calls for one way to be reached through a handle, and a template for one handle. A
handle that a template calls for serves: its getters read the slots as they are, a child that is
known to be what a field takes is refused only above the handle's own node, and values are refused
only out of bounds. The table of handles lists just those that the standard templates call for.
-/

namespace Arbor

/-! ## The handles that templates call for -/

/-- What a child field of a declared type takes. -/
def HandleType.ofType (type : String) : HandleType :=
  match Family.ofName? type with
  | some f => .family f
  | none => .kind type

/-- How a declared field is reached through a handle. -/
def FieldDecl.access (d : FieldDecl) : Access :=
  match d.type, d.multiplicity with
  | .child type, .single => .child (.ofType type)
  | .child _, .list => .children
  | .data type, .single => if d.rawForm.isSome then .operator type else .data type
  | .data type, .list => .values type

/-- The handle that a template calls for. -/
def HandleSpec.ofTemplate (t : Template) : HandleSpec where
  kind := t.name
  family := t.family
  fields := t.fields.map fun d => (d.name, d.access)

/-- The table of handles lists what the standard templates call for, and nothing else. -/
theorem Handle.specs_eq : Handle.specs = Standard.templates.map HandleSpec.ofTemplate := by
  decide +kernel

/-! ## Casts -/

namespace HandleType

variable {σ : Signature} {t : Tree σ} {id : NodeId}

theorem cast?_eq_some {h : HandleType} {n : Handle h} :
    h.cast? t id = some n ↔ h.fits t id = true ∧ n.id = id := by
  unfold cast?
  cases n with
  | mk x =>
    by_cases hf : h.fits t id = true <;> simp [hf, eq_comm]

theorem fits_kind {name : String} :
    (kind name).fits t id = true ↔ ∃ k, t.kind id = .ok k ∧ k.name = name := by
  unfold fits
  cases t.kind id <;> simp

theorem fits_family {f : Family} :
    (family f).fits t id = true ↔ ∃ k, t.kind id = .ok k ∧ k.family = some f := by
  unfold fits
  cases t.kind id <;> simp

theorem fits_ofType {type : String} :
    (ofType type).fits t id = true ↔ ∃ k, t.kind id = .ok k ∧ TypeTakes type k.name k.family := by
  unfold ofType TypeTakes
  cases Family.ofName? type with
  | some f => exact fits_family
  | none => exact fits_kind

end HandleType

/-! ## Payloads -/

namespace Value

theorem get?_of (type : DataType) (x : type.Carrier) : get? type (of type x) = some x := by
  cases type <;> rfl

theorem exists_of_type {type : DataType} {v : Value} (h : v.type = type) :
    ∃ x : type.Carrier, v = of type x := by
  subst h
  cases v with
  | bool b => exact ⟨b, rfl⟩
  | int n => exact ⟨n, rfl⟩
  | text s => exact ⟨s, rfl⟩
  | binaryOperator op => exact ⟨op, rfl⟩
  | unaryOperator op => exact ⟨op, rfl⟩
  | wildcard w => exact ⟨w, rfl⟩

theorem type_of (type : DataType) (x : type.Carrier) : (of type x).type = type := by
  cases type <;> rfl

theorem exists_payload {type : DataType} {held : Option Value} (h : ∀ v ∈ held, v.type = type) :
    ∃ x : Option type.Carrier, held = x.map (of type) ∧ held.bind (get? type) = x := by
  cases held with
  | none => exact ⟨none, rfl, rfl⟩
  | some v =>
    obtain ⟨x, rfl⟩ := exists_of_type (h v rfl)
    exact ⟨some x, rfl, get?_of type x⟩

theorem exists_payloads {type : DataType} {held : List Value} (h : ∀ v ∈ held, v.type = type) :
    ∃ xs : List type.Carrier, held = xs.map (of type) ∧ held.filterMap (get? type) = xs := by
  induction held with
  | nil => exact ⟨[], rfl, rfl⟩
  | cons v held ih =>
    obtain ⟨x, rfl⟩ := exists_of_type (h v List.mem_cons_self)
    obtain ⟨xs, rfl, hxs⟩ := ih fun v hv => h v (List.mem_cons_of_mem _ hv)
    exact ⟨x :: xs, rfl, by rw [List.filterMap_cons_some (get?_of type x), hxs]⟩

end Value

/-! ## Serving a field -/

namespace Handle

variable {σ : Signature} {h : HandleType}

/-- A child field at the position `i` of a kind, reached through a handle. -/
structure ServesChild (n : Handle h) (t : Tree σ) (kind : String) (i : Nat) (d : FieldDecl)
    (takes : HandleType) : Prop where
  getter : ∃ held, t.slot? n.id i = some (.child held) ∧ n.child t d.name = .ok held
  setter : ∀ (c : NodeId) (child : Handle takes), takes.cast? t c = some child →
    ((n.setChild d.name child).outcome t).2 =
      if c = n.id ∨ c ∈ t.ancestors n.id then .error (.contract kind d.name (.cycle c)) else .ok ()
  clear : ((n.clearChild d.name).outcome t).2 =
    if d.required then .error (.contract kind d.name .absent) else .ok ()

/-- A list of children. -/
structure ServesChildren (n : Handle h) (t : Tree σ) (i : Nat) (d : FieldDecl) : Prop where
  getter : ∃ held, t.slot? n.id i = some (.children held) ∧ n.children t d.name = .ok held
  list : ∃ v, n.list t d.name = .ok v ∧ v.slot? t = t.slot? n.id i

/-- A data field: the getter gives the payload that is stored, and the setter refuses payloads out
of bounds. -/
structure ServesData (n : Handle h) (t : Tree σ) (kind : String) (i : Nat) (d : FieldDecl)
    (type : DataType) : Prop where
  getter : ∃ held : Option type.Carrier,
    t.slot? n.id i = some (.data (held.map (Value.of type))) ∧ n.data t type d.name = .ok held
  setter : ∀ x : type.Carrier,
    (d.admits (Value.of type x) = true ∧
      ((n.setData type d.name (some x)).outcome t).2 = .ok ()) ∨
    ∃ m lo hi, Value.of type x = .int m ∧ d.bounds = some (lo, hi) ∧ ¬ (lo ≤ m ∧ m ≤ hi) ∧
      ((n.setData type d.name (some x)).outcome t).2 =
        .error (.contract kind d.name (.outOfBounds m lo hi))
  clear : ((n.setData type d.name none).outcome t).2 =
    if d.required then .error (.contract kind d.name .absent) else .ok ()

/-- A list of values: the getter gives one payload for each value that is stored. -/
structure ServesValues (n : Handle h) (t : Tree σ) (i : Nat) (d : FieldDecl)
    (type : DataType) : Prop where
  getter : ∃ held : List type.Carrier,
    t.slot? n.id i = some (.values (held.map (Value.of type))) ∧ n.values t type d.name = .ok held
  list : ∃ v, n.list t d.name = .ok v ∧ v.slot? t = t.slot? n.id i

/-- The handle serves the field `d` at the position `i` of a kind. -/
def Serves (n : Handle h) (t : Tree σ) (kind : String) (i : Nat) (d : FieldDecl) : Access → Prop
  | .child takes => n.ServesChild t kind i d takes
  | .children => n.ServesChildren t i d
  | .data type | .operator type => n.ServesData t kind i d type
  | .values type => n.ServesValues t i d type

end Handle

/-! ## Handles of a place -/

namespace Handle

variable {σ : Signature} {t : Tree σ} {h : HandleType} {n : Handle h} {p : Place} {node : Node}
  (hσ : σ.Resolved) (hconf : t.Conforms) (hp : p.Of t n.id node)
include hσ hconf hp

theorem servesChild {type : String} (htype : p.field.decl.type = .child type)
    (hcat : p.field.category = .singleChild) :
    n.ServesChild t p.kind.name p.index p.field.decl (.ofType type) := by
  have hlocate := hp.locate_eq hσ (List.mem_singleton.2 hcat)
  obtain ⟨s, hslot, hs⟩ := hconf.slot?_of hp
  obtain ⟨held, rfl⟩ := hs.eq_child hcat
  refine ⟨⟨held, hslot, ?_⟩, fun c child hc => ?_, ?_⟩
  · rw [Handle.child, ← Field.name, Tree.child_of_locate hlocate, hslot]
    rfl
  · obtain ⟨hfits, rfl⟩ := HandleType.cast?_eq_some.1 hc
    obtain ⟨k, hk, htakes⟩ := HandleType.fits_ofType.1 hfits
    obtain ⟨m, hm, hkind⟩ := Tree.kind_eq_ok.1 hk
    obtain ⟨m', hm', haccepts⟩ := (Tree.takes_iff_checkAccepts (Tree.resolved_of_place hσ hp)).1
      ⟨type, m, k, htype, hm, hkind, htakes⟩
    exact (Edit.outcome_setChild hlocate _).trans (Tree.checkAttachable_of_accepts hm' haccepts)
  · exact Edit.outcome_setChild hlocate none

omit hconf in
theorem serves_list (hcat : p.field.category ∈ [Category.listChild, .listData]) :
    ∃ v, n.list t p.field.name = .ok v ∧ v.slot? t = t.slot? n.id p.index :=
  ⟨⟨⟨n.id, n.id, p.field.name⟩, p⟩, Tree.openList_eq_ok.2 ⟨rfl, hp.locate_eq hσ hcat⟩, rfl⟩

theorem servesChildren (hcat : p.field.category = .listChild) :
    n.ServesChildren t p.index p.field.decl := by
  have hlocate := hp.locate_eq hσ (List.mem_singleton.2 hcat)
  obtain ⟨s, hslot, hs⟩ := hconf.slot?_of hp
  obtain ⟨held, rfl⟩ := hs.eq_children hcat
  refine ⟨⟨held, hslot, ?_⟩, serves_list hσ hp (by simp [hcat])⟩
  rw [Handle.children, ← Field.name, Tree.children_of_locate hlocate, hslot]
  rfl

theorem servesData {type : DataType} (htype : p.field.decl.type = .data type)
    (hcat : p.field.category = .singleData) :
    n.ServesData t p.kind.name p.index p.field.decl type := by
  have hlocate := hp.locate_eq hσ (List.mem_singleton.2 hcat)
  obtain ⟨s, hslot, hs⟩ := hconf.slot?_of hp
  obtain ⟨held, rfl⟩ := hs.eq_data hcat
  refine ⟨?_, fun x => ?_, Edit.outcome_setData hlocate none⟩
  · have hheld : ∀ v ∈ held, v.type = type := fun v hv =>
      FieldType.data.inj ((hs.2 v hv).1.symm.trans htype)
    obtain ⟨x, rfl, hx⟩ := Value.exists_payload hheld
    refine ⟨x, hslot, ?_⟩
    rw [Handle.data, ← Field.name, Tree.data_of_locate hlocate, hslot]
    exact congrArg Except.ok hx
  · have hof : p.field.decl.type = .data (Value.of type x).type := by rw [Value.type_of, htype]
    have hcases := Place.checkValue_cases hof
    rw [← Edit.outcome_setData hlocate] at hcases
    exact hcases

theorem servesValues {type : DataType} (htype : p.field.decl.type = .data type)
    (hcat : p.field.category = .listData) : n.ServesValues t p.index p.field.decl type := by
  have hlocate := hp.locate_eq hσ (List.mem_singleton.2 hcat)
  obtain ⟨s, hslot, hs⟩ := hconf.slot?_of hp
  obtain ⟨held, rfl⟩ := hs.eq_values hcat
  have hheld : ∀ v ∈ held, v.type = type := fun v hv =>
    FieldType.data.inj ((hs.2 v hv).1.symm.trans htype)
  obtain ⟨xs, rfl, hxs⟩ := Value.exists_payloads hheld
  refine ⟨⟨xs, hslot, ?_⟩, serves_list hσ hp (by simp [hcat])⟩
  rw [Handle.values, ← Field.name, Tree.dataList_of_locate hlocate, hslot]
  exact congrArg Except.ok hxs

/-- A handle serves a field in the way that its declaration calls for. -/
theorem serves_access :
    n.Serves t p.kind.name p.index p.field.decl p.field.decl.access := by
  have hcat : p.field.category = p.field.decl.category := rfl
  unfold FieldDecl.category at hcat
  unfold FieldDecl.access
  cases htype : p.field.decl.type with
  | child type =>
    cases hm : p.field.decl.multiplicity with
    | single => exact servesChild hσ hconf hp htype (by rw [hcat, htype, hm])
    | list => exact servesChildren hσ hconf hp (by rw [hcat, htype, hm])
  | data type =>
    cases hm : p.field.decl.multiplicity with
    | single =>
      have hserves := servesData hσ hconf hp htype (by rw [hcat, htype, hm])
      cases p.field.decl.rawForm with
      | none => exact hserves
      | some codec => exact hserves
    | list => exact servesValues hσ hconf hp htype (by rw [hcat, htype, hm])

end Handle

/-! ## Handles of a template -/

section Templates

variable {ts : List Template} {declared : Template} {t : Tree (Schema.ofTemplates ts).signature}
  {id : NodeId}

/-- Kinds have distinct names, so a node that fits the name of a template is of its kind. -/
theorem kind_of_fits (hts : WellFormed ts) (hd : declared ∈ ts)
    (h : (HandleType.kind declared.name).fits t id = true) :
    t.kind id = .ok (declared.resolve (ts.map Template.name)).toKind := by
  obtain ⟨k, hk, hname⟩ := HandleType.fits_kind.1 h
  obtain ⟨n, -, hkind⟩ := Tree.kind_eq_ok.1 hk
  obtain ⟨other, hother, rfl⟩ := exists_template hkind
  have hsame : other = declared :=
    List.inj_on_of_nodup_map hts.kindNames (List.mem_of_getElem? hother) hd hname
  rw [hk, hsame]

/-- The handle of a template serves all fields of the template. -/
theorem serves_of_template (hts : WellFormed ts) (ht : t.Reachable) (hd : declared ∈ ts)
    {n : Handle (.kind declared.name)} (hn : (HandleType.kind declared.name).cast? t id = some n)
    {i : Nat} {d : FieldDecl} (hi : declared.fields[i]? = some d) :
    n.Serves t declared.name i d d.access := by
  obtain ⟨hfits, hid⟩ := HandleType.cast?_eq_some.1 hn
  obtain ⟨node, hnode, hkind⟩ := Tree.kind_eq_ok.1 (kind_of_fits hts hd hfits)
  have hfield : ((Schema.ofTemplates ts).signature.fields node.kind)[i]? =
      some (d.resolve (ts.map Template.name)) := by
    rw [Signature.fields_of_kinds hkind]
    simp [Template.resolve, hi]
  have hp : Place.Of t n.id ⟨_, i, d.resolve (ts.map Template.name)⟩ node :=
    ⟨hid ▸ hnode, hkind, hfield⟩
  exact Handle.serves_access hts.resolved (ht.conforms hts.resolved) hp

end Templates

/-- In a reachable tree over the standard templates and any that follow them, each handle of the
table serves every field it lists: the template of its kind declares the field, and reading and
writing go as the declaration says. A node cast to a handle also casts to the handle's family. -/
theorem standard_handles_serve {more : List Template} {s : Schema}
    (hs : Schema.generate (Standard.templates ++ more) = .ok s) {t : Tree s.signature}
    (ht : t.Reachable) {spec : HandleSpec} (hspec : spec ∈ Handle.specs) {id : NodeId}
    {n : Handle spec.type} (hn : spec.type.cast? t id = some n) :
    (∃ declared ∈ Standard.templates, declared.name = spec.kind ∧
      ∀ field access, (field, access) ∈ spec.fields →
        ∃ i d, declared.fields[i]? = some d ∧ d.name = field ∧
          n.Serves t spec.kind i d access) ∧
    ∀ f, spec.family = some f → (HandleType.family f).cast? t id = some (n.ofFamily f) := by
  obtain ⟨hts, rfl⟩ := generate_eq_ok_iff.1 hs
  rw [Handle.specs_eq] at hspec
  obtain ⟨declared, hdeclared, rfl⟩ := List.mem_map.1 hspec
  have hd : declared ∈ Standard.templates ++ more := List.mem_append_left _ hdeclared
  refine ⟨⟨declared, hdeclared, rfl, fun field access hmem => ?_⟩, fun f hf => ?_⟩
  · obtain ⟨d, hdmem, heq⟩ := List.mem_map.1 hmem
    cases heq
    obtain ⟨i, hi⟩ := List.mem_iff_getElem?.1 hdmem
    exact ⟨i, d, hi, rfl, serves_of_template hts ht hd hn hi⟩
  · obtain ⟨hfits, hid⟩ := HandleType.cast?_eq_some.1 hn
    refine HandleType.cast?_eq_some.2 ⟨HandleType.fits_family.2 ?_, hid⟩
    exact ⟨_, kind_of_fits hts hd hfits, hf⟩

/-- A further expression with a statement in it. -/
def lambdaTemplates : List Template :=
  [Standard.expression "Lambda" [(Standard.stmt "body").asRequired]]

theorem generate_lambdaTemplates : Schema.generate (Standard.templates ++ lambdaTemplates) =
    .ok (Schema.ofTemplates (Standard.templates ++ lambdaTemplates)) := by
  have hfault : Schema.fault? (Standard.templates ++ lambdaTemplates) = none := by decide +kernel
  simp [Schema.generate, hfault]

/-- The loop 4 has the condition 2 and stands in the body of the expression 1. Node 5 is another
expression. -/
def lambdaTree : Tree (Schema.ofTemplates (Standard.templates ++ lambdaTemplates)).signature :=
  (Tree.empty.applyAll
    [.build "EmptyStatement" [],
     .build "Lambda" [.child "body" 0],
     .build "This" [],
     .build "EmptyStatement" [],
     .build "While" [.child "condition" 2, .child "statement" 3],
     .setChild 1 "body" (some 4),
     .build "Lambda" [.child "body" 0]]).1

theorem reachable_lambdaTree : lambdaTree.Reachable :=
  Tree.Reachable.empty.applyAll (by decide +kernel)

/-- The loop refuses the expression it stands in as its condition and takes the other one, though
no standard template declares their kind. -/
theorem standard_handles_serve_lambdaTree :
    lambdaTree.Reachable ∧
      ∃ (loop : Handle (.kind "While")) (outer other : Handle (.family .expression)),
        (HandleType.kind "While").cast? lambdaTree 4 = some loop ∧
        (HandleType.family .expression).cast? lambdaTree 1 = some outer ∧
        (HandleType.family .expression).cast? lambdaTree 5 = some other ∧
        (HandleType.family .statement).cast? lambdaTree 4 = some (loop.ofFamily .statement) ∧
        ((loop.setChild "condition" outer).outcome lambdaTree).2 =
          .error (.contract "While" "condition" (.cycle 1)) ∧
        ((loop.setChild "condition" other).outcome lambdaTree).2 = .ok () := by
  have hloop : (HandleType.kind "While").cast? lambdaTree 4 = some ⟨4⟩ := by decide +kernel
  have houter : (HandleType.family .expression).cast? lambdaTree 1 = some ⟨1⟩ := by decide +kernel
  have hother : (HandleType.family .expression).cast? lambdaTree 5 = some ⟨5⟩ := by decide +kernel
  have hspec : ⟨"While", some .statement, [("condition", Handle.expr), ("statement", Handle.stmt)]⟩ ∈
      Handle.specs := by decide
  obtain ⟨⟨declared, -, -, hfields⟩, hfamily⟩ :=
    standard_handles_serve generate_lambdaTemplates reachable_lambdaTree hspec hloop
  obtain ⟨i, d, -, hname, hserves⟩ := hfields "condition" Handle.expr List.mem_cons_self
  have hset := Handle.ServesChild.setter hserves
  rw [hname] at hset
  refine ⟨reachable_lambdaTree, ⟨4⟩, ⟨1⟩, ⟨5⟩, hloop, houter, hother, hfamily .statement rfl, ?_, ?_⟩
  · exact (hset 1 ⟨1⟩ houter).trans (if_pos (by decide +kernel))
  · exact (hset 5 ⟨5⟩ hother).trans (if_neg (by decide +kernel))

end Arbor
