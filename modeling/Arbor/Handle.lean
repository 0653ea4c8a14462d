import Arbor.TypeName

/-!
# Typed handles

A handle is the number of a node known to be of one kind or of one family. `specs` lists, for every
kind of the standard catalogue, what can be read and written through its handle.
-/

namespace Arbor

/-- What a handle says about its node. -/
inductive HandleType where
  | kind (name : String)
  | family (family : Family)
  deriving DecidableEq, Repr

structure Handle (h : HandleType) where
  id : NodeId
  deriving DecidableEq, Repr

namespace HandleType

variable {σ : Signature}

def fits (h : HandleType) (t : Tree σ) (id : NodeId) : Bool :=
  match t.kind id with
  | .error _ => false
  | .ok k =>
    match h with
    | .kind name => k.name == name
    | .family f => k.family == some f

def cast? (h : HandleType) (t : Tree σ) (id : NodeId) : Option (Handle h) :=
  if h.fits t id then some ⟨id⟩ else none

end HandleType

/-! ## Reading and writing through a handle -/

namespace Handle

variable {σ : Signature} {h : HandleType} (n : Handle h) (t : Tree σ)

def child (field : String) : Except Error (Option NodeId) :=
  t.child n.id field

def children (field : String) : Except Error (List NodeId) :=
  t.children n.id field

def list (field : String) : Except Error ListView :=
  t.list n.id field

/-- The payload that a data field holds; a value of another type reads as absent. -/
def data (type : DataType) (field : String) : Except Error (Option type.Carrier) := do
  return (← t.data n.id field).bind (Value.get? type)

def rawForm (field : String) : Except Error (Option String) :=
  t.rawForm n.id field

/-- The payloads of a list of values; values of another type are left out. -/
def values (type : DataType) (field : String) : Except Error (List type.Carrier) := do
  return (← t.dataList n.id field).filterMap (Value.get? type)

/-- Stores a child that is known to be what the field takes. -/
def setChild {takes : HandleType} (field : String) (c : Handle takes) : Edit σ Unit :=
  Edit.setChild n.id field (some c.id)

def clearChild (field : String) : Edit σ Unit :=
  Edit.setChild n.id field none

def setData (type : DataType) (field : String) (payload : Option type.Carrier) : Edit σ Unit :=
  Edit.setData n.id field (payload.map (Value.of type))

def setRawForm (field : String) (text : Option String) : Edit σ Unit :=
  Edit.setRawForm n.id field text

/-- The same node as a member of its family. -/
def ofFamily (family : Family) : Handle (.family family) :=
  ⟨n.id⟩

end Handle

/-! ## The handles of the standard kinds -/

/-- How a field is reached through a handle. -/
inductive Access where
  | child (takes : HandleType)
  | children
  | data (type : DataType)
  /-- A data field that is also read and written as text. -/
  | operator (type : DataType)
  | values (type : DataType)
  deriving DecidableEq, Repr

structure HandleSpec where
  kind : String
  family : Option Family
  fields : List (String × Access)
  deriving DecidableEq, Repr

namespace HandleSpec

def type (s : HandleSpec) : HandleType :=
  .kind s.kind

def access? (s : HandleSpec) (field : String) : Option Access :=
  (s.fields.find? (·.1 == field)).map (·.2)

end HandleSpec

namespace Handle

def expr : Access := .child (.family .expression)

def stmt : Access := .child (.family .statement)

/-- A child field that takes the handles of one kind. -/
def one (kind : String) : Access := .child (.kind kind)

def statementSpecs : List HandleSpec :=
  [⟨"Assert", some .statement, [("assertion", expr), ("message", expr)]⟩,
   ⟨"Catch", some .statement,
     [("exception_declaration", one "VariableDeclaration"), ("body", one "Block")]⟩,
   ⟨"Block", some .statement, [("contents", .children)]⟩,
   ⟨"DoWhile", some .statement, [("condition", expr), ("statement", stmt)]⟩,
   ⟨"While", some .statement, [("condition", expr), ("statement", stmt)]⟩,
   ⟨"For", some .statement,
     [("initialization", stmt), ("condition", expr), ("increments", .children),
      ("statement", stmt)]⟩,
   ⟨"ForEach", some .statement,
     [("element", one "VariableDeclaration"), ("iterable", expr), ("statement", stmt)]⟩,
   ⟨"If", some .statement,
     [("condition", expr), ("statement", stmt), ("else_statement", stmt)]⟩,
   ⟨"Synchronized", some .statement, [("lock", expr), ("body", one "Block")]⟩,
   ⟨"Try", some .statement,
     [("body", one "Block"), ("catches", .children), ("finally", one "Block")]⟩,
   ⟨"VariableDeclaration", some .statement,
     [("type_reference", one "TypeReference"), ("variables", .children)]⟩,
   ⟨"EmptyStatement", some .statement, []⟩,
   ⟨"LabelledStatement", some .statement, [("label", one "Identifier"), ("statement", stmt)]⟩,
   ⟨"Switch", some .statement, [("condition", expr), ("body", one "Block")]⟩,
   ⟨"Case", some .statement, [("condition", expr)]⟩,
   ⟨"Default", some .statement, []⟩]

def expressionSpecs : List HandleSpec :=
  [⟨"InlineIfExpression", some .expression,
     [("condition", expr), ("if_true", expr), ("if_false", expr)]⟩,
   ⟨"IncrementExpression", some .expression,
     [("operand", expr), ("decrement", .data .bool), ("prefix", .data .bool)]⟩,
   ⟨"BinaryExpression", some .expression,
     [("left", expr), ("right", expr), ("operator", .operator .binaryOperator)]⟩,
   ⟨"UnaryExpression", some .expression,
     [("operand", expr), ("operator", .operator .unaryOperator)]⟩,
   ⟨"Cast", some .expression, [("type_reference", one "TypeReference"), ("operand", expr)]⟩,
   ⟨"IdentifierExpression", some .expression, [("identifier", one "Identifier")]⟩,
   ⟨"InstanceOf", some .expression,
     [("object_reference", expr), ("type_reference", one "TypeReference")]⟩,
   ⟨"ConstructorInvocation", some .expression,
     [("qualifier", expr), ("constructor_type_arguments", one "TypeArguments"),
      ("type_reference", one "TypeReference"), ("arguments", .children),
      ("anonymous_class_body", one "ClassBody")]⟩,
   ⟨"MethodInvocation", some .expression,
     [("operand", expr), ("method_type_arguments", one "TypeArguments"),
      ("name", one "Identifier"), ("arguments", .children)]⟩,
   ⟨"Select", some .expression, [("operand", expr), ("identifier", one "Identifier")]⟩,
   ⟨"ArrayAccess", some .expression, [("operand", expr), ("index_expression", expr)]⟩,
   ⟨"ArrayCreation", some .expression,
     [("component_type_reference", one "TypeReference"), ("dimensions", .children),
      ("initializer", one "ArrayInitializer")]⟩,
   ⟨"ArrayInitializer", some .expression, [("expressions", .children)]⟩,
   ⟨"This", some .expression, [("qualifier", one "TypeReference")]⟩,
   ⟨"Super", some .expression, [("qualifier", one "TypeReference")]⟩,
   ⟨"ClassLiteral", some .expression, [("type_reference", one "TypeReference")]⟩]

def helperSpecs : List HandleSpec :=
  [⟨"VariableDeclarationEntry", none, [("name", one "Identifier"), ("initializer", expr)]⟩,
   ⟨"Identifier", none, [("name", .data .text)]⟩,
   ⟨"TypeVariable", none, [("name", one "Identifier"), ("extending", .children)]⟩,
   ⟨"TypeReference", none,
     [("wildcard", .data .wildcard), ("array_dimensions", .data .int), ("parts", .children)]⟩,
   ⟨"TypeReferencePart", none,
     [("identifier", one "Identifier"), ("type_arguments", one "TypeArguments")]⟩,
   ⟨"TypeArguments", none, [("generics", .children)]⟩,
   ⟨"ClassBody", none, []⟩,
   ⟨"ArrayDimension", none, [("dimension", expr)]⟩,
   ⟨"KeywordModifier", none, [("name", .data .text)]⟩,
   ⟨"Modifiers", none, [("keywords", .values .text)]⟩]

def specs : List HandleSpec :=
  statementSpecs ++ expressionSpecs ++ helperSpecs

def spec? (kind : String) : Option HandleSpec :=
  specs.find? (·.kind == kind)

end Handle

end Arbor
