import Arbor.Command.Line
import Arbor.Report
import Arbor.Standard

/-!
# Running commands

Every command reads the standard schema or the operator registries and yields a page, or fails with
an error of the library.
-/

namespace Arbor.Command

def operatorRows (α : Type) [Operator α] : Page :=
  (Operator.all : List α).flatMap Page.operatorRow

/-- The line for a decoded operator. -/
def operatorLine {α : Type} [Operator α] (op : α) : Page :=
  Page.line (Operator.name op ++ " " ++ Operator.symbol op)

def parseLine (α : Type) [Operator α] (text : String) : Except Error Page :=
  match (Operator.parse (some text) : Except Malformed α) with
  | .ok op => .ok (operatorLine op)
  | .error cause => .error (.rawForm cause)

namespace Task

def run : Task → Except Error Page
  | kinds family =>
    let rows := Standard.schema.kinds.filter fun k => family.all (k.family == ·)
    .ok (rows.flatMap fun k => Page.kindRow k.toKind)
  | describe kind json =>
    match Standard.schema.kindNamed? kind with
    | some k => .ok (if json then Page.json k.toJson else Page.describe k)
    | none => .error (.contract kind "*" .unknownKind)
  | schema => .ok (Page.json Standard.schema.toJson)
  | operators none => .ok (operatorRows BinaryOperator ++ operatorRows UnaryOperator)
  | operators (some .binary) => .ok (operatorRows BinaryOperator)
  | operators (some .unary) => .ok (operatorRows UnaryOperator)
  | parseOperator .binary text => parseLine BinaryOperator text
  | parseOperator .unary text => parseLine UnaryOperator text

end Task

def versionText : String := "trellis 0.1.0\n"

def helpText : String :=
  "Inspect the node schema and operator registries of a C-family syntax tree.\n\n" ++
  "Usage: trellis [OPTIONS] <COMMAND>\n\n" ++
  "Commands:\n" ++
  "  kinds      List node kinds\n" ++
  "  describe   Show the classified fields, checks and accessors of one kind\n" ++
  "  schema     Print the whole schema as JSON\n" ++
  "  operators  List the operator registries\n" ++
  "  parse-op   Decode an operator symbol through its raw-form codec\n" ++
  "  help       Print this message\n\n" ++
  "Options:\n" ++
  "      --color <COLOR>  When to colour output [default: auto] [possible values: auto, always, never]\n" ++
  "  -v, --verbose...     Raise the log level; repeat for more detail\n" ++
  "  -h, --help           Print help\n" ++
  "  -V, --version        Print version\n"

/-- How a run of the program ends. -/
structure Outcome where
  exit : Nat
  output : String
  error : Option Error := none
  deriving DecidableEq, Repr

/-- Runs the program, where `terminal` says whether colours are written when the line leaves it
open. A line that cannot be read ends with 2, an error of the library with 1. -/
def execute (terminal : Bool) (args : List String) : Outcome :=
  match Request.ofArguments args with
  | .error _ => ⟨2, "", none⟩
  | .ok .version => ⟨0, versionText, none⟩
  | .ok .help => ⟨0, helpText, none⟩
  | .ok (.run colour task) =>
    match task.run with
    | .error e => ⟨1, "", some e⟩
    | .ok page =>
      let coloured := match colour with
        | .always => true
        | .never => false
        | .auto => terminal
      ⟨0, page.render coloured, none⟩

end Arbor.Command
