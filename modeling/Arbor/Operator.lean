/-!
# Operators

The two closed registries of operators of a C-family language. Every operator has a symbol and a
name; symbols differ within a registry, and some occur in both.
-/

namespace Arbor

inductive OperatorCategory where
  | binary
  | unary
  deriving DecidableEq, Repr

def OperatorCategory.name : OperatorCategory → String
  | binary => "binary"
  | unary => "unary"

/-- A registry of operators, in the order they are listed. -/
class Operator (α : Type) where
  category : OperatorCategory
  all : List α
  symbol : α → String
  name : α → String

namespace Operator

variable {α : Type} [Operator α]

/-- The operator written `s`, with no blanks around it. -/
def ofSymbol? (s : String) : Option α :=
  (all : List α).find? (symbol · == s)

def ofName? (s : String) : Option α :=
  (all : List α).find? (name · == s)

/-- What the registries have in common: a symbol and the registry it belongs to. -/
structure Descriptor where
  symbol : String
  category : OperatorCategory
  deriving DecidableEq, Repr

def descriptor (op : α) : Descriptor :=
  ⟨symbol op, category α⟩

end Operator

/-! ## Binary operators -/

inductive BinaryOperator where
  | plusAssign
  | minusAssign
  | multiplyAssign
  | divideAssign
  | remainderAssign
  | andAssign
  | xorAssign
  | orAssign
  | shiftLeftAssign
  | shiftRightAssign
  | bitwiseShiftRightAssign
  | assign
  | logicalOr
  | logicalAnd
  | bitwiseOr
  | bitwiseXor
  | bitwiseAnd
  | equals
  | notEquals
  | greater
  | greaterOrEqual
  | less
  | lessOrEqual
  | shiftLeft
  | shiftRight
  | bitwiseShiftRight
  | plus
  | minus
  | multiply
  | divide
  | remainder
  deriving DecidableEq, Repr

namespace BinaryOperator

def all : List BinaryOperator :=
  [.plusAssign, .minusAssign, .multiplyAssign, .divideAssign, .remainderAssign, .andAssign,
   .xorAssign, .orAssign, .shiftLeftAssign, .shiftRightAssign, .bitwiseShiftRightAssign, .assign,
   .logicalOr, .logicalAnd, .bitwiseOr, .bitwiseXor, .bitwiseAnd, .equals, .notEquals, .greater,
   .greaterOrEqual, .less, .lessOrEqual, .shiftLeft, .shiftRight, .bitwiseShiftRight, .plus,
   .minus, .multiply, .divide, .remainder]

def symbol : BinaryOperator → String
  | plusAssign => "+="
  | minusAssign => "-="
  | multiplyAssign => "*="
  | divideAssign => "/="
  | remainderAssign => "%="
  | andAssign => "&="
  | xorAssign => "^="
  | orAssign => "|="
  | shiftLeftAssign => "<<="
  | shiftRightAssign => ">>="
  | bitwiseShiftRightAssign => ">>>="
  | assign => "="
  | logicalOr => "||"
  | logicalAnd => "&&"
  | bitwiseOr => "|"
  | bitwiseXor => "^"
  | bitwiseAnd => "&"
  | equals => "=="
  | notEquals => "!="
  | greater => ">"
  | greaterOrEqual => ">="
  | less => "<"
  | lessOrEqual => "<="
  | shiftLeft => "<<"
  | shiftRight => ">>"
  | bitwiseShiftRight => ">>>"
  | plus => "+"
  | minus => "-"
  | multiply => "*"
  | divide => "/"
  | remainder => "%"

def name : BinaryOperator → String
  | plusAssign => "PlusAssign"
  | minusAssign => "MinusAssign"
  | multiplyAssign => "MultiplyAssign"
  | divideAssign => "DivideAssign"
  | remainderAssign => "RemainderAssign"
  | andAssign => "AndAssign"
  | xorAssign => "XorAssign"
  | orAssign => "OrAssign"
  | shiftLeftAssign => "ShiftLeftAssign"
  | shiftRightAssign => "ShiftRightAssign"
  | bitwiseShiftRightAssign => "BitwiseShiftRightAssign"
  | assign => "Assign"
  | logicalOr => "LogicalOr"
  | logicalAnd => "LogicalAnd"
  | bitwiseOr => "BitwiseOr"
  | bitwiseXor => "BitwiseXor"
  | bitwiseAnd => "BitwiseAnd"
  | equals => "Equals"
  | notEquals => "NotEquals"
  | greater => "Greater"
  | greaterOrEqual => "GreaterOrEqual"
  | less => "Less"
  | lessOrEqual => "LessOrEqual"
  | shiftLeft => "ShiftLeft"
  | shiftRight => "ShiftRight"
  | bitwiseShiftRight => "BitwiseShiftRight"
  | plus => "Plus"
  | minus => "Minus"
  | multiply => "Multiply"
  | divide => "Divide"
  | remainder => "Remainder"

instance : Operator BinaryOperator := ⟨.binary, all, symbol, name⟩

def isComparison (op : BinaryOperator) : Bool :=
  op ∈ [equals, notEquals, greaterOrEqual, lessOrEqual, greater, less]

/-- Assignments are the operators that end in an equals sign and compare nothing. -/
def isAssignment (op : BinaryOperator) : Bool :=
  op.symbol.toList.getLast? == some '=' && !op.isComparison

end BinaryOperator

/-! ## Unary operators -/

inductive UnaryOperator where
  | binaryNot
  | logicalNot
  | unaryPlus
  | unaryMinus
  deriving DecidableEq, Repr

namespace UnaryOperator

def all : List UnaryOperator :=
  [.binaryNot, .logicalNot, .unaryPlus, .unaryMinus]

def symbol : UnaryOperator → String
  | binaryNot => "~"
  | logicalNot => "!"
  | unaryPlus => "+"
  | unaryMinus => "-"

def name : UnaryOperator → String
  | binaryNot => "BinaryNot"
  | logicalNot => "LogicalNot"
  | unaryPlus => "UnaryPlus"
  | unaryMinus => "UnaryMinus"

instance : Operator UnaryOperator := ⟨.unary, all, symbol, name⟩

end UnaryOperator

/-- The descriptors of both registries, binary operators first. -/
def Operator.descriptors : List Operator.Descriptor :=
  BinaryOperator.all.map descriptor ++ UnaryOperator.all.map descriptor

end Arbor
