import Arbor.Tree.ListView

/-!
# Type names

Views derived from type references. A type reference is a list of parts; a part has an identifier
and type arguments, which are type references again. The name `util.seq.List<? super T>[]` has three
parts, one argument and one array dimension.
-/

namespace Arbor

/-- What a derived accessor yields. -/
inductive Derived where
  | text (s : String)
  | bool (b : Bool)
  | list (b : ListBinding)
  deriving DecidableEq, Repr

namespace Derived

def text? : Derived → Option String
  | text s => some s
  | bool _ | list _ => none

def bool? : Derived → Option Bool
  | bool b => some b
  | text _ | list _ => none

def list? : Derived → Option ListBinding
  | list b => some b
  | text _ | bool _ => none

end Derived

namespace TypeName

def reference : String := "TypeReference"

def part : String := "TypeReferencePart"

end TypeName

namespace Tree

variable {σ : Signature} (t : Tree σ)

def expectKind (id : NodeId) (kind accessor : String) : Except Error Unit := do
  let k ← t.kind id
  if k.name = kind then .ok () else .error (.contract k.name accessor (.accessorOf kind))

/-! ## Generics -/

/-- The list of arguments of a part. -/
def partGenerics (part : NodeId) : Except Error ListBinding := do
  t.expectKind part TypeName.part "generics"
  match ← t.child part "type_arguments" with
  | some args => .ok ⟨part, args, "generics"⟩
  | none => .error (.contract TypeName.part "type_arguments" .missing)

/-- The arguments of the last part of a reference, reported as the reference's own. -/
def generics (ref : NodeId) : Except Error ListBinding := do
  t.expectKind ref TypeName.reference "generics"
  match (← t.children ref "parts").getLast? with
  | some last => return { ← t.partGenerics last with owner := ref }
  | none => .error (.contract TypeName.reference "generics" .noParts)

def hasGenerics (ref : NodeId) : Except Error Bool := do
  t.expectKind ref TypeName.reference "has_generics"
  if (← t.children ref "parts").isEmpty then .ok false
  else do
    let b ← t.generics ref
    return !(← t.children b.target b.field).isEmpty

/-- Opens the arguments of a reference or of a part. -/
def openGenerics (id : NodeId) : Except Error ListView := do
  let k ← t.kind id
  if k.name = TypeName.part then t.openList (← t.partGenerics id)
  else t.openList (← t.generics id)

/-! ## Names -/

/-- The text of a type argument, given the texts of references. -/
def argumentText (refText : NodeId → Except Error String) (arg : NodeId) : Except Error String := do
  match ((← t.data arg "wildcard").bind Value.wildcard?).getD .none with
  | .none => refText arg
  | .unbound => .ok "?"
  | .upper => return "? extends " ++ (← refText arg)
  | .lower => return "? super " ++ (← refText arg)

/-- The text of a part, given the texts of references. -/
def partText (refText : NodeId → Except Error String) (part : NodeId) : Except Error String := do
  t.expectKind part TypeName.part "type_name"
  match ← t.child part "identifier" with
  | none => .error (.contract TypeName.part "identifier" .missing)
  | some identifier => do
    let name := ((← t.data identifier "name").bind Value.text?).getD ""
    let b ← t.partGenerics part
    let args ← (← t.children b.target b.field).mapM (t.argumentText refText)
    return if args.isEmpty then name else name ++ "<" ++ ", ".intercalate args ++ ">"

/-- Adds a part to a name; a dot parts it from what is there already. -/
def dotted (name part : String) : String :=
  if name = "" then part else name ++ "." ++ part

/-- The text of a reference, given the texts of the references nested in it. -/
def referenceText (refText : NodeId → Except Error String) (ref : NodeId) :
    Except Error String := do
  t.expectKind ref TypeName.reference "type_name"
  let parts ← (← t.children ref "parts").mapM (t.partText refText)
  let dims := ((← t.data ref "array_dimensions").bind Value.int?).getD 0
  return parts.foldl dotted "" ++ String.join (List.replicate dims.toInt.toNat "[]")

/-- The text of a reference, with references nested `bound` deep at most. -/
def refText : Nat → NodeId → Except Error String
  | 0, _ => .ok ""
  | bound + 1, ref => t.referenceText (refText bound) ref

def typeName (ref : NodeId) : Except Error String :=
  t.refText t.size ref

def partTypeName (part : NodeId) : Except Error String :=
  t.partText (t.refText t.size) part

end Tree

end Arbor
