import Mathlib.Data.List.Forall2
import Arbor.Serial
import Arbor.Proofs.RawForm

/-!
# Schemas from their JSON

Two JSON values are the same if they differ at most in the order of the members of their objects.
Every part of a declaration can be read off its JSON: alternatives have tags of their own, no value
is written as `null`, and names tell operators, types and marks apart. What is left out (the kinds
that a field accepts, the kinds of initial nodes, the positions of fields and kinds) is computed
from the declarations and the names of the kinds. So the JSON of a generated schema determines the
schema, except for what the codecs, checks and accessors behind their names do.
-/

namespace Arbor

/-! ## Same values -/

namespace Json

/-- The values are equal, where the members of an object may stand in any order. -/
inductive Same : Json → Json → Prop where
  | null : Same .null .null
  | bool (b : Bool) : Same (.bool b) (.bool b)
  | int (n : Int) : Same (.int n) (.int n)
  | str (s : String) : Same (.str s) (.str s)
  | arr {xs ys : List Json} : List.Forall₂ Same xs ys → Same (.arr xs) (.arr ys)
  | obj {xs ys : List (String × Json)} :
      (∀ key, Option.Rel Same (xs.lookup key) (ys.lookup key)) → Same (.obj xs) (.obj ys)

namespace Same

theorem refl : ∀ j : Json, Same j j
  | .null => .null
  | .bool b => .bool b
  | .int n => .int n
  | .str s => .str s
  | .arr items => .arr (List.forall₂_same.2 fun j _ => refl j)
  | .obj members => .obj fun key => by
    cases h : members.lookup key with
    | none => exact .none
    | some j =>
      obtain ⟨_, _, hmembers, -⟩ := List.lookup_eq_some_iff.1 h
      have hmem : (key, j) ∈ members := by simp [hmembers]
      have hlt := List.sizeOf_lt_of_mem hmem
      exact .some (refl j)
termination_by j => sizeOf j
decreasing_by
  · have hlt := List.sizeOf_lt_of_mem ‹_ ∈ items›
    simp only [Json.arr.sizeOf_spec]
    omega
  · simp only [Json.obj.sizeOf_spec, Prod.mk.sizeOf_spec] at hlt ⊢
    omega

theorem of_obj {xs ys : List (String × Json)} (h : Same (.obj xs) (.obj ys)) (key : String) :
    Option.Rel Same (xs.lookup key) (ys.lookup key) := by
  cases h with
  | obj h => exact h key

theorem of_lookup {xs ys : List (String × Json)} (h : Same (.obj xs) (.obj ys)) (key : String)
    {a b : Json} (ha : xs.lookup key = some a) (hb : ys.lookup key = some b) : Same a b := by
  have hkey := h.of_obj key
  rw [ha, hb] at hkey
  cases hkey with
  | some h => exact h

/-- Objects of one member have the same member. -/
theorem of_tagged {tag tag' : String} {a b : Json} (h : Same (.obj [(tag, a)]) (.obj [(tag', b)])) :
    tag = tag' ∧ Same a b := by
  have htag : tag = tag' := by
    by_contra hne
    have hkey := h.of_obj tag
    have hb : [(tag', b)].lookup tag = none := by
      rw [List.lookup_cons, beq_false_of_ne hne, List.lookup_nil]
    rw [hb, List.lookup_cons_self] at hkey
    cases hkey
  subst htag
  exact ⟨rfl, h.of_lookup tag List.lookup_cons_self List.lookup_cons_self⟩

theorem of_arr {xs ys : List Json} (h : Same (.arr xs) (.arr ys)) : List.Forall₂ Same xs ys := by
  cases h with
  | arr h => exact h

theorem of_str {a b : String} (h : Same (.str a) (.str b)) : a = b := by
  cases h
  rfl

theorem of_int {a b : Int} (h : Same (.int a) (.int b)) : a = b := by
  cases h
  rfl

theorem of_bool {a b : Bool} (h : Same (.bool a) (.bool b)) : a = b := by
  cases h
  rfl

theorem of_strs {α : Type} {name : α → String} {as bs : List α}
    (h : Same (.arr (as.map fun a => .str (name a))) (.arr (bs.map fun b => .str (name b)))) :
    as.map name = bs.map name := by
  have hnames := h.of_arr
  rw [List.forall₂_map_left_iff, List.forall₂_map_right_iff] at hnames
  exact forall₂_iff_map_eq.1 (hnames.imp fun _ _ h => h.of_str)

theorem eq_null_of_left {j : Json} (h : Same .null j) : j = .null := by
  cases h
  rfl

theorem eq_null_of_right {j : Json} (h : Same j .null) : j = .null := by
  cases h
  rfl

/-- An option is determined by its JSON if its value is, and no value is written as `null`. -/
theorem of_option {α : Type} {f : α → Json} (hnull : ∀ a, f a ≠ .null)
    (hf : ∀ a b, Same (f a) (f b) → a = b) {a b : Option α}
    (h : Same (.ofOption f a) (.ofOption f b)) : a = b := by
  cases a <;> cases b
  case none.none => rfl
  case none.some b => exact absurd (eq_null_of_left h) (hnull b)
  case some.none a => exact absurd (eq_null_of_right h) (hnull a)
  case some.some a b => rw [hf a b h]

end Same

end Json

/-! ## Parts of a declaration -/

theorem DataType.name_injective {a b : DataType} (h : a.name = b.name) : a = b := by
  cases a <;> cases b <;> simp_all [name]

theorem Wildcard.name_injective {a b : Wildcard} (h : a.name = b.name) : a = b := by
  cases a <;> cases b <;> simp_all [name]

theorem Family.name_injective {a b : Family} (h : a.name = b.name) : a = b := by
  cases a <;> cases b <;> simp_all [name]

theorem Multiplicity.name_injective {a b : Multiplicity} (h : a.name = b.name) : a = b := by
  cases a <;> cases b <;> simp_all [name]

theorem BinaryOperator.name_injective {a b : BinaryOperator} (h : a.name = b.name) : a = b := by
  have hnames : (all.map name).Nodup := by decide +kernel
  exact List.inj_on_of_nodup_map hnames (closed.complete a) (closed.complete b) h

theorem UnaryOperator.name_injective {a b : UnaryOperator} (h : a.name = b.name) : a = b := by
  cases a <;> cases b <;> simp_all [name]

theorem Value.eq_of_same {v w : Value} (h : v.toJson.Same w.toJson) : v = w := by
  obtain ⟨htag, hpayload⟩ := h.of_tagged
  have htype : v.type = w.type := DataType.name_injective htag
  cases v <;> cases w <;> cases htype
  case bool.bool => rw [hpayload.of_bool]
  case int.int => rw [Int64.toInt_inj.1 hpayload.of_int]
  case text.text => rw [hpayload.of_str]
  case binaryOperator.binaryOperator => rw [BinaryOperator.name_injective hpayload.of_str]
  case unaryOperator.unaryOperator => rw [UnaryOperator.name_injective hpayload.of_str]
  case wildcard.wildcard => rw [Wildcard.name_injective hpayload.of_str]

theorem FieldType.eq_of_same {a b : FieldType} (h : a.toJson.Same b.toJson) : a = b := by
  cases a <;> cases b
  case child.child => rw [h.of_tagged.2.of_str]
  case data.data => rw [DataType.name_injective h.of_tagged.2.of_str]
  case child.data => exact absurd h.of_tagged.1 (by decide)
  case data.child => exact absurd h.of_tagged.1 (by decide)

theorem Initial.eq_of_same {a b : Initial} (h : a.toJson.Same b.toJson) : a = b := by
  cases a <;> cases b
  case data.data => rw [Value.eq_of_same h.of_tagged.2]
  case newNode.newNode => rw [h.of_tagged.2.of_str]
  case data.newNode => exact absurd h.of_tagged.1 (by decide)
  case newNode.data => exact absurd h.of_tagged.1 (by decide)

theorem Initial.toJson_ne_null (a : Initial) : a.toJson ≠ .null := by
  cases a <;> intro h <;> cases h

/-! ## Fields -/

/-- The fields agree in all that is declared, the behaviour of the codec aside, and in all that is
resolved. -/
structure Field.Agrees (f g : Field) : Prop where
  name : f.name = g.name
  type : f.decl.type = g.decl.type
  multiplicity : f.decl.multiplicity = g.decl.multiplicity
  required : f.decl.required = g.decl.required
  initial : f.decl.initial = g.decl.initial
  bounds : f.decl.bounds = g.decl.bounds
  codec : f.decl.rawForm.map Codec.name = g.decl.rawForm.map Codec.name
  accepts : f.accepts = g.accepts
  initialKind : f.initialKind = g.initialKind

namespace FieldDecl

variable {d d' : FieldDecl}

theorem lookup_bounds (d : FieldDecl) (c : Json) :
    (d.members ++ [("classification", c)]).lookup "bounds" =
      d.bounds.map fun b => .arr [.int b.1.toInt, .int b.2.toInt] := by
  unfold members boundsMember
  cases d.bounds <;> rfl

theorem bounds_eq_of_same {c c' : Json}
    (h : Json.Same (.obj (d.members ++ [("classification", c)]))
      (.obj (d'.members ++ [("classification", c')]))) : d.bounds = d'.bounds := by
  have hbounds := h.of_obj "bounds"
  rw [lookup_bounds, lookup_bounds] at hbounds
  generalize d.bounds = bounds, d'.bounds = bounds' at hbounds ⊢
  cases bounds <;> cases bounds'
  case none.none => rfl
  case none.some => cases hbounds
  case some.none => cases hbounds
  case some.some b b' =>
    cases hbounds with
    | some h =>
      have hends := h.of_arr
      simp only [List.forall₂_cons] at hends
      have hmin : b.1 = b'.1 := Int64.toInt_inj.1 hends.1.of_int
      have hmax : b.2 = b'.2 := Int64.toInt_inj.1 hends.2.1.of_int
      rw [Prod.ext hmin hmax]

theorem codec_eq_of_same (h : Json.Same (.ofOption (fun c : Codec => .str c.name) d.rawForm)
    (.ofOption (fun c : Codec => .str c.name) d'.rawForm)) :
    d.rawForm.map Codec.name = d'.rawForm.map Codec.name := by
  have hstr : ∀ o : Option Codec, Json.ofOption (fun c : Codec => .str c.name) o =
      .ofOption .str (o.map Codec.name) := by
    intro o
    cases o <;> rfl
  rw [hstr, hstr] at h
  exact h.of_option (fun _ hnull => by cases hnull) fun _ _ hname => hname.of_str

theorem accepts?_congr (h : d.type = d'.type) (names : List String) :
    d.accepts? names = d'.accepts? names := by
  rw [accepts?, accepts?, h]

theorem initialKind?_congr (h : d.initial = d'.initial) (names : List String) :
    d.initialKind? names = d'.initialKind? names := by
  rw [initialKind?, initialKind?, h]

/-- What the JSON leaves out of a field is computed from what it says. -/
theorem agrees_of_same {names : List String}
    (h : (d.resolve names).toJson.Same (d'.resolve names).toJson) :
    (d.resolve names).Agrees (d'.resolve names) := by
  have htype : d.type = d'.type := FieldType.eq_of_same (h.of_lookup "field_type" rfl rfl)
  have hinitial : d.initial = d'.initial :=
    (h.of_lookup "initial" rfl rfl).of_option Initial.toJson_ne_null fun _ _ => Initial.eq_of_same
  exact {
    name := (h.of_lookup "name" rfl rfl).of_str
    type := htype
    multiplicity := Multiplicity.name_injective (h.of_lookup "multiplicity" rfl rfl).of_str
    required := (h.of_lookup "required" rfl rfl).of_bool
    initial := hinitial
    bounds := bounds_eq_of_same h
    codec := codec_eq_of_same (h.of_lookup "raw_form" rfl rfl)
    accepts := accepts?_congr htype names
    initialKind := initialKind?_congr hinitial names }

end FieldDecl

/-! ## Kinds -/

/-- The kinds agree in their names and families, in the names of their checks and accessors, in
their fields and in where a field is found by its name. -/
structure KindSpec.Agrees (k l : KindSpec) : Prop where
  name : k.name = l.name
  family : k.family = l.family
  checks : k.checks.map Check.name = l.checks.map Check.name
  accessors : k.accessors.map Accessor.name = l.accessors.map Accessor.name
  fields : List.Forall₂ Field.Agrees k.fields l.fields
  fieldIndex : ∀ name, (k.place? name).map Place.index = (l.place? name).map Place.index

/-- The position of a field is that of its name among the names of the fields. -/
theorem Kind.map_index_place? (k : Kind) (name : String) :
    (k.place? name).map Place.index = (k.fields.map Field.name).idxOf? name := by
  have hnames : (k.fields.map Field.name).idxOf? name = k.fields.findIdx? (·.name == name) := by
    rw [List.idxOf?, List.findIdx?_map]
    rfl
  rw [hnames]
  unfold place?
  cases hi : k.fields.findIdx? (·.name == name) with
  | none => rfl
  | some i =>
    have hlt : i < k.fields.length := (List.findIdx?_eq_some_iff_getElem.1 hi).1
    simp [hlt]

theorem Template.agrees_of_same {names : List String} {t t' : Template}
    (h : (t.resolve names).toJson.Same (t'.resolve names).toJson) :
    (t.resolve names).Agrees (t'.resolve names) := by
  have hfields : List.Forall₂ Field.Agrees (t.resolve names).fields (t'.resolve names).fields := by
    have hsame := (h.of_lookup "fields" rfl rfl).of_arr
    simp only [resolve, List.map_map, List.forall₂_map_left_iff, List.forall₂_map_right_iff]
      at hsame ⊢
    exact hsame.imp fun _ _ => FieldDecl.agrees_of_same
  exact {
    name := (h.of_lookup "name" rfl rfl).of_str
    family := (h.of_lookup "family" rfl rfl).of_option (fun _ hnull => by cases hnull)
      fun _ _ hname => Family.name_injective hname.of_str
    checks := (h.of_lookup "checks" rfl rfl).of_strs
    accessors := (h.of_lookup "accessors" rfl rfl).of_strs
    fields := hfields
    fieldIndex := fun name => by
      rw [Kind.map_index_place?, Kind.map_index_place?,
        forall₂_iff_map_eq.1 (hfields.imp fun _ _ h => h.name)] }

/-! ## Schemas -/

/-- The number of a kind is the position of its name among the templates. -/
theorem kindId?_ofTemplates (ts : List Template) (name : String) :
    (Schema.ofTemplates ts).signature.kindId? name = (ts.map Template.name).idxOf? name := by
  rw [Signature.kindId?, Schema.signature, Schema.ofTemplates, List.map_map, List.findIdx?_map,
    List.idxOf?, List.findIdx?_map]
  rfl

/-- If the JSON values of two generated schemas are the same, the schemas have the same kinds in the
same order, up to what their checks, accessors and codecs do, and kinds are found under the same
names. -/
theorem schema_determined_by_json {ts ts' : List Template} {s s' : Schema}
    (hs : Schema.generate ts = .ok s) (hs' : Schema.generate ts' = .ok s')
    (h : s.toJson.Same s'.toJson) :
    List.Forall₂ KindSpec.Agrees s.kinds s'.kinds ∧
      ∀ name, s.signature.kindId? name = s'.signature.kindId? name := by
  obtain ⟨-, rfl⟩ := generate_eq_ok_iff.1 hs
  obtain ⟨-, rfl⟩ := generate_eq_ok_iff.1 hs'
  have hsame : List.Forall₂ (fun t t' =>
      (Template.resolve (ts.map Template.name) t).toJson.Same
        (Template.resolve (ts'.map Template.name) t').toJson) ts ts' := by
    have hkinds := (h.of_lookup "kinds" rfl rfl).of_arr
    simpa only [Schema.ofTemplates, List.map_map, List.forall₂_map_left_iff,
      List.forall₂_map_right_iff, Function.comp_apply] using hkinds
  have hnames : ts.map Template.name = ts'.map Template.name :=
    forall₂_iff_map_eq.1 (hsame.imp fun _ _ h => (h.of_lookup "name" rfl rfl).of_str)
  -- child types and initial nodes are resolved by the names alone, so both sides resolve alike
  refine ⟨?_, fun name => ?_⟩
  · rw [← hnames] at hsame
    rw [Schema.ofTemplates, Schema.ofTemplates, ← hnames, List.forall₂_map_left_iff,
      List.forall₂_map_right_iff]
    exact hsame.imp fun _ _ => Template.agrees_of_same
  · rw [kindId?_ofTemplates, kindId?_ofTemplates, hnames]

/-- A cabinet starts with a drawer. Texts stand for the level `n` of a drawer, and the check of a
drawer reports `message`. -/
def cabinetTemplates (n : Int64) (message : String) : List Template :=
  [{ name := "Drawer"
     fields := [((FieldDecl.data "level" .int).bounded 0 9).withCodec (.constant n)]
     checks := [⟨"labelled", fun _ _ id sink => sink.report id message⟩] },
   { name := "Cabinet"
     family := some .statement
     fields := [(FieldDecl.child "top" "Drawer").startingWith (.newNode "Drawer"),
      .children "contents" "Statement"] }]

/-- Schemas of cabinets differ in a codec and in a check, and they agree in all that is declared and
resolved. -/
theorem schema_determined_by_json_cabinet :
    Schema.generate (cabinetTemplates 1 "no label") =
        .ok (Schema.ofTemplates (cabinetTemplates 1 "no label")) ∧
      Schema.generate (cabinetTemplates 2 "") = .ok (Schema.ofTemplates (cabinetTemplates 2 "")) ∧
      (Schema.ofTemplates (cabinetTemplates 1 "no label")).toJson.Same
        (Schema.ofTemplates (cabinetTemplates 2 "")).toJson ∧
      List.Forall₂ KindSpec.Agrees (Schema.ofTemplates (cabinetTemplates 1 "no label")).kinds
        (Schema.ofTemplates (cabinetTemplates 2 "")).kinds := by
  have hs : Schema.generate (cabinetTemplates 1 "no label") =
      .ok (Schema.ofTemplates (cabinetTemplates 1 "no label")) := rfl
  have hs' : Schema.generate (cabinetTemplates 2 "") =
      .ok (Schema.ofTemplates (cabinetTemplates 2 "")) := rfl
  have hsame : (Schema.ofTemplates (cabinetTemplates 1 "no label")).toJson.Same
      (Schema.ofTemplates (cabinetTemplates 2 "")).toJson := Json.Same.refl _
  exact ⟨hs, hs', hsame, (schema_determined_by_json hs hs' hsame).1⟩

end Arbor
