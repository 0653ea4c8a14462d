import Arbor.Operator
import Arbor.Text.Quoted

/-!
# Values

The scalars that a data field holds, and their types. Whole numbers have 64 bits with a sign.
-/

namespace Arbor

/-- The wildcard mark of a type argument: `T` for `none`, `?` for `unbound`, and `? extends T` and
`? super T` for a wildcard with an upper and a lower bound. -/
inductive Wildcard where
  | none
  | unbound
  | upper
  | lower
  deriving DecidableEq, Repr, Inhabited

namespace Wildcard

def all : List Wildcard :=
  [none, unbound, upper, lower]

def name : Wildcard → String
  | none => "None"
  | unbound => "Unbound"
  | upper => "Extends"
  | lower => "Super"

end Wildcard

inductive DataType where
  | bool
  | int
  | text
  | binaryOperator
  | unaryOperator
  | wildcard
  deriving DecidableEq, Repr

namespace DataType

def all : List DataType :=
  [bool, int, text, binaryOperator, unaryOperator, wildcard]

/-- The name of the type in declarations and in JSON. -/
def name : DataType → String
  | bool => "Bool"
  | int => "Int"
  | text => "Str"
  | binaryOperator => "BinaryOperator"
  | unaryOperator => "UnaryOperator"
  | wildcard => "Wildcard"

/-- The type in the words of a message. -/
def label : DataType → String
  | bool => "bool"
  | int => "int"
  | text => "string"
  | binaryOperator => "binary operator"
  | unaryOperator => "unary operator"
  | wildcard => "wildcard"

/-- The payloads of the values of a type. -/
abbrev Carrier : DataType → Type
  | bool => Bool
  | int => Int64
  | text => String
  | binaryOperator => BinaryOperator
  | unaryOperator => UnaryOperator
  | wildcard => Wildcard

end DataType

inductive Value where
  | bool (b : Bool)
  | int (n : Int64)
  | text (s : String)
  | binaryOperator (op : BinaryOperator)
  | unaryOperator (op : UnaryOperator)
  | wildcard (w : Wildcard)
  deriving DecidableEq, Repr

namespace Value

def type : Value → DataType
  | bool _ => .bool
  | int _ => .int
  | text _ => .text
  | binaryOperator _ => .binaryOperator
  | unaryOperator _ => .unaryOperator
  | wildcard _ => .wildcard

def bool? : Value → Option Bool
  | bool b => some b
  | _ => none

def int? : Value → Option Int64
  | int n => some n
  | _ => none

def text? : Value → Option String
  | text s => some s
  | _ => none

def binaryOperator? : Value → Option BinaryOperator
  | binaryOperator op => some op
  | _ => none

def unaryOperator? : Value → Option UnaryOperator
  | unaryOperator op => some op
  | _ => none

def wildcard? : Value → Option Wildcard
  | wildcard w => some w
  | _ => none

/-- The value of a payload of the given type. -/
def of : (type : DataType) → type.Carrier → Value
  | .bool, b => bool b
  | .int, n => int n
  | .text, s => text s
  | .binaryOperator, op => binaryOperator op
  | .unaryOperator, op => unaryOperator op
  | .wildcard, w => wildcard w

/-- The payload of a value, if it has the given type. -/
def get? : (type : DataType) → Value → Option type.Carrier
  | .bool, v => v.bool?
  | .int, v => v.int?
  | .text, v => v.text?
  | .binaryOperator, v => v.binaryOperator?
  | .unaryOperator, v => v.unaryOperator?
  | .wildcard, v => v.wildcard?

/-- What stands between the parentheses of the value's written form. -/
def payload : Value → String
  | bool b => if b then "true" else "false"
  | int n => toString n
  | text s => Text.quoted s
  | binaryOperator op => op.name
  | unaryOperator op => op.name
  | wildcard w => w.name

/-- The written form `Type(payload)`. -/
def written (v : Value) : String :=
  v.type.name ++ "(" ++ v.payload ++ ")"

end Value

end Arbor
