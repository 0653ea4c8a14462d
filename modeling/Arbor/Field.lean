import Arbor.Codec

/-!
# Field declarations

A field of a node kind is declared with a type, a multiplicity and a few marks. What the
declaration comes to (its category, whether it may be absent, which accessors it gets) is computed
from it by `classification`.
-/

namespace Arbor

/-- The families a node kind may belong to. A child field may ask for any kind of a family. -/
inductive Family where
  | statement
  | expression
  deriving DecidableEq, Repr

namespace Family

def name : Family → String
  | statement => "Statement"
  | expression => "Expression"

def ofName? (s : String) : Option Family :=
  [statement, expression].find? (·.name == s)

end Family

inductive FieldType where
  /-- Holds nodes of the named kind or family. -/
  | child (kind : String)
  | data (type : DataType)
  deriving DecidableEq, Repr

inductive Multiplicity where
  | single
  | list
  deriving DecidableEq, Repr

def Multiplicity.name : Multiplicity → String
  | single => "Single"
  | list => "List"

/-- What a single field holds in a new node. -/
inductive Initial where
  | data (v : Value)
  /-- A new node of the named kind, allocated for each new owner. -/
  | newNode (kind : String)
  deriving DecidableEq, Repr

/-- The written form of an initial value. -/
def Initial.written : Initial → String
  | data v => "Data(" ++ v.written ++ ")"
  | newNode kind => "NewNode(" ++ Text.quoted kind ++ ")"

structure FieldDecl where
  name : String
  type : FieldType
  multiplicity : Multiplicity
  required : Bool := false
  initial : Option Initial := none
  rawForm : Option Codec := none
  /-- The least and the greatest number an `int` field accepts. -/
  bounds : Option (Int64 × Int64) := none

namespace FieldDecl

/-! ## Building declarations -/

def child (name kind : String) : FieldDecl where
  name := name
  type := .child kind
  multiplicity := .single

def children (name kind : String) : FieldDecl where
  name := name
  type := .child kind
  multiplicity := .list

def data (name : String) (type : DataType) : FieldDecl where
  name := name
  type := .data type
  multiplicity := .single

def values (name : String) (type : DataType) : FieldDecl where
  name := name
  type := .data type
  multiplicity := .list

def asRequired (d : FieldDecl) : FieldDecl :=
  { d with required := true }

def startingWith (d : FieldDecl) (i : Initial) : FieldDecl :=
  { d with initial := some i }

def withCodec (d : FieldDecl) (c : Codec) : FieldDecl :=
  { d with rawForm := some c }

def bounded (d : FieldDecl) (min max : Int64) : FieldDecl :=
  { d with bounds := some (min, max) }

/-! ## Reading declarations -/

def isChild (d : FieldDecl) : Bool :=
  match d.type with
  | .child _ => true
  | .data _ => false

def isList (d : FieldDecl) : Bool :=
  d.multiplicity = .list

/-- Whether a value lies within the bounds. Only numbers can lie outside. -/
def admits (d : FieldDecl) (v : Value) : Bool :=
  match d.bounds, v with
  | some (min, max), .int n => min ≤ n ∧ n ≤ max
  | _, _ => true

end FieldDecl

/-! ## Classification -/

/-- What a slot of the field holds. -/
inductive Category where
  | singleChild
  | listChild
  | singleData
  | listData
  deriving DecidableEq, Repr

namespace Category

def name : Category → String
  | singleChild => "SingleChild"
  | listChild => "ListChild"
  | singleData => "SingleData"
  | listData => "ListData"

def isChild : Category → Bool
  | singleChild | listChild => true
  | singleData | listData => false

def isList : Category → Bool
  | listChild | listData => true
  | singleChild | singleData => false

end Category

/-- One piece of the interface a field gets. -/
inductive AccessorShape where
  | getter
  | setter
  | listAccessor
  /-- The field has to be given when a node is built. -/
  | constructorParam
  deriving DecidableEq, Repr

def AccessorShape.name : AccessorShape → String
  | getter => "Getter"
  | setter => "Setter"
  | listAccessor => "ListAccessor"
  | constructorParam => "ConstructorParam"

structure Classification where
  category : Category
  /-- Single fields that are not required may be absent. -/
  nullable : Bool
  initial : Option Initial
  /-- Child fields make up the shape of a tree; data fields do not. -/
  structural : Bool
  accessors : List AccessorShape
  deriving DecidableEq, Repr

namespace FieldDecl

def category (d : FieldDecl) : Category :=
  match d.type, d.multiplicity with
  | .child _, .single => .singleChild
  | .child _, .list => .listChild
  | .data _, .single => .singleData
  | .data _, .list => .listData

/-- Whether a build has to assign the field: it may not be absent and nothing else fills it. -/
def mustBeGiven (d : FieldDecl) : Bool :=
  d.required && !d.isList && d.initial.isNone

def accessors (d : FieldDecl) : List AccessorShape :=
  if d.isList then [.getter, .listAccessor]
  else if d.mustBeGiven then [.getter, .setter, .constructorParam]
  else [.getter, .setter]

def classification (d : FieldDecl) : Classification where
  category := d.category
  nullable := !d.isList && !d.required
  initial := d.initial
  structural := d.isChild
  accessors := d.accessors

end FieldDecl

end Arbor
