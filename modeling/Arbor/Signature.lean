import Arbor.Error

/-!
# Signatures

A signature is a list of node kinds with their fields resolved: child fields say which kinds they
accept, and initial nodes say which kind they are of. It is all that a tree needs to know. A kind
is addressed by its position, a field by its position in its kind.
-/

namespace Arbor

abbrev KindId := Nat

/-- What a child field accepts: one kind, or every kind of a family. -/
inductive Accepts where
  | kind (id : KindId)
  | family (family : Family)
  deriving DecidableEq, Repr

structure Field where
  decl : FieldDecl
  /-- Absent for data fields. -/
  accepts : Option Accepts
  /-- The kind of the node that a new owner starts with. -/
  initialKind : Option KindId

namespace Field

def name (f : Field) : String :=
  f.decl.name

def category (f : Field) : Category :=
  f.decl.category

end Field

structure Kind where
  name : String
  family : Option Family
  fields : List Field

structure Signature where
  kinds : List Kind

/-- A field of a kind together with its position. -/
structure Place where
  kind : Kind
  index : Nat
  field : Field

def Place.breach (p : Place) (b : Breach) : Error :=
  .contract p.kind.name p.field.name b

namespace Kind

def shown (k : Kind) : String :=
  kindText k.name k.family

def place? (k : Kind) (name : String) : Option Place := do
  let index ← k.fields.findIdx? (·.name == name)
  let field ← k.fields[index]?
  return ⟨k, index, field⟩

/-- The field of this name, if it has one of the expected categories. -/
def resolve (k : Kind) (name : String) (expected : List Category) : Except Error Place :=
  match k.place? name with
  | none => .error (.contract k.name name .noSuchField)
  | some p =>
    if p.field.category ∈ expected then .ok p else .error (p.breach (.wrongCategory p.field.category))

/-- The child fields with their positions, in the order they are declared. -/
def childFields (k : Kind) : List (Nat × Field) :=
  (k.fields.zipIdx.filter fun (f, _) => f.decl.isChild).map fun (f, i) => (i, f)

/-- The kinds of the nodes that a new node of this kind starts with. -/
def initialKinds (k : Kind) : List KindId :=
  k.fields.filterMap Field.initialKind

end Kind

namespace Place

/-- Fails unless the value may be stored here; absence is a value too. -/
def checkValue (p : Place) : Option Value → Except Error Unit
  | none => if p.field.decl.required then .error (p.breach .absent) else .ok ()
  | some v =>
    match p.field.decl.type with
    | .child _ => .error (p.breach .dataInChild)
    | .data type =>
      if v.type ≠ type then .error (p.breach (.wrongType type v.type))
      else
        match p.field.decl.bounds, v with
        | some (min, max), .int n =>
          if p.field.decl.admits v then .ok () else .error (p.breach (.outOfBounds n min max))
        | _, _ => .ok ()

def codec (p : Place) : Except Error Codec :=
  match p.field.decl.rawForm with
  | some codec => .ok codec
  | none => .error (p.breach .noCodec)

/-- The value that the field's codec reads from a text. A malformed text is reported under the
name of the field. -/
def decode (p : Place) (text : Option String) : Except Error Value := do
  let codec ← p.codec
  match codec.parse text with
  | .ok v => .ok v
  | .error r => .error (r.error.inField (p.kind.name ++ "." ++ p.field.name))

end Place

namespace Signature

variable (σ : Signature)

def kindId? (name : String) : Option KindId :=
  σ.kinds.findIdx? (·.name == name)

def kindNamed? (name : String) : Option (KindId × Kind) := do
  let id ← σ.kindId? name
  return (id, ← σ.kinds[id]?)

/-- The fields of a kind, none for an unknown kind. -/
def fields (id : KindId) : List Field :=
  match σ.kinds[id]? with
  | some k => k.fields
  | none => []

def accepts (a : Accepts) (id : KindId) : Bool :=
  match a with
  | .kind expected => expected == id
  | .family family => (σ.kinds[id]?.bind Kind.family) == some family

/-- The name of what a field accepts. -/
def acceptsName : Accepts → String
  | .kind id => (σ.kinds[id]?.map Kind.name).getD ""
  | .family family => family.name

/-- Fails unless a node of kind `id` may be stored in the field. -/
def checkAccepts (p : Place) (id : KindId) : Except Error Unit :=
  match p.field.accepts, σ.kinds[id]? with
  | none, _ => .error (p.breach .childInData)
  | some a, some child =>
    if σ.accepts a id then .ok ()
    else .error (p.breach (.notAccepted (σ.acceptsName a) child.name child.family))
  | some a, none => .error (p.breach (.notAccepted (σ.acceptsName a) "" none))

end Signature

end Arbor
