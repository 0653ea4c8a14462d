import Arbor.Text.Blank
import Arbor.Value

/-!
# Raw-form codecs

A codec ties a data field to a text form. The codecs of the two operator registries trim their
input and accept exactly the symbols of the registry; writing is total on the registry. Other codecs
may also fail in other ways than by finding a text malformed.
-/

namespace Arbor

/-- Why a text has no value: the place or operator it was meant for, the text as it was handed in,
and the complaint. -/
structure Malformed where
  label : String
  text : Option String
  complaint : String
  deriving DecidableEq, Repr

/-- Why a codec reads no value from a text. It may find the text malformed, or report an error of
another class in words of its own. -/
inductive Refusal where
  | malformed (cause : Malformed)
  | schema (kind message : String)
  | contract (kind field message : String)
  deriving DecidableEq, Repr

structure Codec where
  name : String
  type : DataType
  parse : Option String → Except Refusal Value
  /-- There is no text for a value the codec does not know. -/
  generate : Value → Option String

namespace Operator

variable {α : Type} [Operator α]

/-- How messages call an operator of the registry. -/
def label (α : Type) [Operator α] : String :=
  (category α).name ++ " operator"

/-- The operator a text stands for, blanks around the symbol aside. -/
def parse : Option String → Except Malformed α
  | none => .error ⟨label α, none, "missing operator"⟩
  | some text =>
    match ofSymbol? (Text.trim text) with
    | some op => .ok op
    | none => .error ⟨label α, some text, "unknown " ++ label α ++ ": " ++ Text.trim text⟩

/-- The value a text stands for, if it stands for an operator. -/
def read (value : α → Value) (text : Option String) : Except Refusal Value :=
  match parse text with
  | .ok op => .ok (value op)
  | .error cause => .error (.malformed cause)

end Operator

namespace Codec

def binaryOperator : Codec where
  name := "binary_operator"
  type := .binaryOperator
  parse := Operator.read .binaryOperator
  generate v := v.binaryOperator?.map BinaryOperator.symbol

def unaryOperator : Codec where
  name := "unary_operator"
  type := .unaryOperator
  parse := Operator.read .unaryOperator
  generate v := v.unaryOperator?.map UnaryOperator.symbol

end Codec

end Arbor
