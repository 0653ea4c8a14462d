import Arbor.Validation

/-!
# The standard catalogue

The node kinds of a C-family language: statements, expressions, and helper kinds of no family.
-/

namespace Arbor.Standard

/-! ## Checks -/

/-- A try statement needs a catch clause or a finally block. -/
def notLoneTry : Check where
  name := "not_lone_try"
  run _ t id sink :=
    let noCatches := match t.children id "catches" with
      | .ok catches => catches.isEmpty
      | .error _ => true
    let noFinally := match t.child id "finally" with
      | .ok block => block.isNone
      | .error _ => false
    if noCatches && noFinally then sink.report id "try statement with no catches and no finally"
    else sink

/-- A catch clause declares one variable. -/
def catchDeclaresOneVariable : Check where
  name := "catch_declares_one_variable"
  run _ t id sink :=
    match t.child id "exception_declaration" with
    | .ok (some declaration) =>
      let count := match t.children declaration "variables" with
        | .ok entries => entries.length
        | .error _ => 0
      if count = 1 then sink
      else sink.report id "catch declaration must declare exactly one variable"
    | _ => sink

/-! ## Accessors -/

def typeName : Accessor where
  name := "type_name"
  compute _ t id := (t.typeName id).map .text

def hasGenerics : Accessor where
  name := "has_generics"
  compute _ t id := (t.hasGenerics id).map .bool

def generics : Accessor where
  name := "generics"
  compute _ t id := (t.generics id).map .list

def partTypeName : Accessor where
  name := "type_name"
  compute _ t id := (t.partTypeName id).map .text

def partGenerics : Accessor where
  name := "generics"
  compute _ t id := (t.partGenerics id).map .list

/-! ## Templates -/

/-- A single child field that holds any expression. -/
def expr (name : String) : FieldDecl := .child name "Expression"

/-- A single child field that holds any statement. -/
def stmt (name : String) : FieldDecl := .child name "Statement"

def statement (name : String) (fields : List FieldDecl) : Template where
  name := name
  family := some .statement
  fields := fields

def expression (name : String) (fields : List FieldDecl) : Template where
  name := name
  family := some .expression
  fields := fields

def helper (name : String) (fields : List FieldDecl) : Template where
  name := name
  fields := fields

def statements : List Template :=
  [statement "Assert" [(expr "assertion").asRequired, expr "message"],
   { statement "Catch"
      [(FieldDecl.child "exception_declaration" "VariableDeclaration").asRequired,
       (FieldDecl.child "body" "Block").asRequired] with
     checks := [catchDeclaresOneVariable] },
   statement "Block" [.children "contents" "Statement"],
   statement "DoWhile" [(expr "condition").asRequired, (stmt "statement").asRequired],
   statement "While" [(expr "condition").asRequired, (stmt "statement").asRequired],
   statement "For"
     [stmt "initialization", expr "condition", .children "increments" "Statement",
      (stmt "statement").asRequired],
   statement "ForEach"
     [(FieldDecl.child "element" "VariableDeclaration").asRequired, (expr "iterable").asRequired,
      (stmt "statement").asRequired],
   statement "If"
     [(expr "condition").asRequired, (stmt "statement").asRequired, stmt "else_statement"],
   statement "Synchronized" [(expr "lock").asRequired, (FieldDecl.child "body" "Block").asRequired],
   { statement "Try"
      [(FieldDecl.child "body" "Block").asRequired, .children "catches" "Catch",
       .child "finally" "Block"] with
     checks := [notLoneTry] },
   statement "VariableDeclaration"
     [(FieldDecl.child "type_reference" "TypeReference").asRequired,
      .children "variables" "VariableDeclarationEntry"],
   statement "EmptyStatement" [],
   statement "LabelledStatement"
     [(FieldDecl.child "label" "Identifier").asRequired, (stmt "statement").asRequired],
   statement "Switch" [(expr "condition").asRequired, (FieldDecl.child "body" "Block").asRequired],
   statement "Case" [(expr "condition").asRequired],
   statement "Default" []]

def expressions : List Template :=
  [expression "InlineIfExpression"
     [(expr "condition").asRequired, (expr "if_true").asRequired, (expr "if_false").asRequired],
   expression "IncrementExpression"
     [(expr "operand").asRequired,
      (FieldDecl.data "decrement" .bool).startingWith (.data (.bool false)),
      (FieldDecl.data "prefix" .bool).startingWith (.data (.bool false))],
   expression "BinaryExpression"
     [(expr "left").asRequired, (expr "right").asRequired,
      ((FieldDecl.data "operator" .binaryOperator).asRequired).withCodec .binaryOperator],
   expression "UnaryExpression"
     [(expr "operand").asRequired,
      ((FieldDecl.data "operator" .unaryOperator).asRequired).withCodec .unaryOperator],
   expression "Cast"
     [(FieldDecl.child "type_reference" "TypeReference").asRequired, (expr "operand").asRequired],
   expression "IdentifierExpression" [(FieldDecl.child "identifier" "Identifier").asRequired],
   expression "InstanceOf"
     [(expr "object_reference").asRequired,
      (FieldDecl.child "type_reference" "TypeReference").asRequired],
   expression "ConstructorInvocation"
     [expr "qualifier", .child "constructor_type_arguments" "TypeArguments",
      (FieldDecl.child "type_reference" "TypeReference").asRequired,
      .children "arguments" "Expression", .child "anonymous_class_body" "ClassBody"],
   expression "MethodInvocation"
     [expr "operand", .child "method_type_arguments" "TypeArguments",
      (FieldDecl.child "name" "Identifier").asRequired, .children "arguments" "Expression"],
   expression "Select"
     [(expr "operand").asRequired, (FieldDecl.child "identifier" "Identifier").asRequired],
   expression "ArrayAccess" [(expr "operand").asRequired, (expr "index_expression").asRequired],
   expression "ArrayCreation"
     [(FieldDecl.child "component_type_reference" "TypeReference").asRequired,
      .children "dimensions" "ArrayDimension", .child "initializer" "ArrayInitializer"],
   expression "ArrayInitializer" [.children "expressions" "Expression"],
   expression "This" [.child "qualifier" "TypeReference"],
   expression "Super" [.child "qualifier" "TypeReference"],
   expression "ClassLiteral" [(FieldDecl.child "type_reference" "TypeReference").asRequired]]

/-- The most array dimensions of a type reference. -/
def maxArrayDimensions : Int64 := 255

def helpers : List Template :=
  [helper "VariableDeclarationEntry"
     [(FieldDecl.child "name" "Identifier").asRequired, expr "initializer"],
   helper "Identifier" [(FieldDecl.data "name" .text).asRequired],
   helper "TypeVariable"
     [(FieldDecl.child "name" "Identifier").asRequired, .children "extending" "TypeReference"],
   { helper "TypeReference"
      [((FieldDecl.data "wildcard" .wildcard).asRequired).startingWith (.data (.wildcard .none)),
       ((FieldDecl.data "array_dimensions" .int).bounded 0 maxArrayDimensions).startingWith
         (.data (.int 0)),
       .children "parts" "TypeReferencePart"] with
     accessors := [typeName, hasGenerics, generics] },
   { helper "TypeReferencePart"
      [(FieldDecl.child "identifier" "Identifier").asRequired,
       ((FieldDecl.child "type_arguments" "TypeArguments").asRequired).startingWith
         (.newNode "TypeArguments")] with
     accessors := [partTypeName, partGenerics] },
   helper "TypeArguments" [.children "generics" "TypeReference"],
   helper "ClassBody" [],
   helper "ArrayDimension" [expr "dimension"],
   helper "KeywordModifier" [(FieldDecl.data "name" .text).asRequired],
   helper "Modifiers" [.values "keywords" .text]]

def templates : List Template :=
  statements ++ expressions ++ helpers

theorem checks_templates :
    templates.flatMap Template.checks = [catchDeclaresOneVariable, notLoneTry] :=
  rfl

theorem eq_of_mem_checks {d : Template} (hd : d ∈ templates) {c : Check} (hc : c ∈ d.checks) :
    c = catchDeclaresOneVariable ∨ c = notLoneTry := by
  have hmem : c ∈ templates.flatMap Template.checks := List.mem_flatMap.2 ⟨d, hd, hc⟩
  simpa only [checks_templates, List.mem_cons, List.not_mem_nil, or_false] using hmem

theorem accessors_templates : templates.flatMap Template.accessors =
    [typeName, hasGenerics, generics, partTypeName, partGenerics] :=
  rfl

/-- The standard schema. -/
def schema : Schema :=
  .ofTemplates templates

theorem fault?_templates : Schema.fault? templates = none := by
  decide +kernel

theorem generate_templates : Schema.generate templates = .ok schema := by
  simp [Schema.generate, fault?_templates, schema]

end Arbor.Standard
