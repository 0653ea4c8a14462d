import Arbor.Json
import Arbor.Schema

/-!
# Schemas as JSON

What a declaration says and what it comes to, as a JSON value. Alternatives are objects of one
member, named for the alternative. Bounds are left out where there are none.
-/

namespace Arbor

def Value.toJson (v : Value) : Json :=
  .obj [(v.type.name,
    match v with
    | .bool b => .bool b
    | .int n => .int n.toInt
    | .text s => .str s
    | .binaryOperator op => .str op.name
    | .unaryOperator op => .str op.name
    | .wildcard w => .str w.name)]

def FieldType.toJson : FieldType → Json
  | child kind => .obj [("Child", .str kind)]
  | data type => .obj [("Data", .str type.name)]

def Initial.toJson : Initial → Json
  | data v => .obj [("Data", v.toJson)]
  | newNode kind => .obj [("NewNode", .str kind)]

def Family.toJson (f : Family) : Json :=
  .str f.name

namespace FieldDecl

def boundsMember (d : FieldDecl) : List (String × Json) :=
  match d.bounds with
  | some (min, max) => [("bounds", .arr [.int min.toInt, .int max.toInt])]
  | none => []

def members (d : FieldDecl) : List (String × Json) :=
  [("name", .str d.name),
   ("field_type", d.type.toJson),
   ("multiplicity", .str d.multiplicity.name),
   ("required", .bool d.required),
   ("initial", .ofOption Initial.toJson d.initial),
   ("raw_form", .ofOption (fun c => .str c.name) d.rawForm)] ++ d.boundsMember

def toJson (d : FieldDecl) : Json :=
  .obj d.members

end FieldDecl

def Classification.toJson (c : Classification) : Json :=
  .obj
    [("category", .str c.category.name),
     ("nullable", .bool c.nullable),
     ("initial", .ofOption Initial.toJson c.initial),
     ("structural", .bool c.structural),
     ("accessors", .arr (c.accessors.map fun a => .str a.name))]

/-- The members of the declaration, and then its classification. -/
def Field.toJson (f : Field) : Json :=
  .obj (f.decl.members ++ [("classification", f.decl.classification.toJson)])

def KindSpec.toJson (k : KindSpec) : Json :=
  .obj
    [("name", .str k.name),
     ("family", .ofOption Family.toJson k.family),
     ("fields", .arr (k.fields.map Field.toJson)),
     ("checks", .arr (k.checks.map fun c => .str c.name)),
     ("accessors", .arr (k.accessors.map fun a => .str a.name))]

def Schema.toJson (s : Schema) : Json :=
  .obj [("kinds", .arr (s.kinds.map KindSpec.toJson))]

end Arbor
