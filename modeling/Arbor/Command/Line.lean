import Arbor.Operator
import Arbor.Field

/-!
# Command lines

The arguments of the program: options that hold everywhere, a command, and the options and operands
of the command. `Level.read` reads one level of a line by its description; `Request.ofArguments`
puts the levels together.

An option that takes a word takes it from behind an equals sign or from the next argument, and may
be given once on its level. A bare `--` ends the options. An operand may start with a hyphen if its
description says so and the argument is not an option of the level.
-/

namespace Arbor.Command

/-! ## Levels -/

inductive OptionKind where
  /-- Takes one of the words. -/
  | word (words : List String)
  | flag
  /-- A flag that may be repeated. -/
  | counter
  | version
  | help
  deriving DecidableEq, Repr

structure OptionSpec where
  long : String
  short : Option Char := none
  kind : OptionKind
  deriving DecidableEq, Repr

structure Operand where
  name : String
  /-- The words it may be; any text where there are none. -/
  words : List String := []
  hyphen : Bool := false
  deriving DecidableEq, Repr

structure Level where
  options : List OptionSpec
  operands : List Operand := []
  commands : List String := []
  deriving DecidableEq, Repr

/-- Why reading ends early. -/
inductive Stop where
  | usage
  | version
  | help
  deriving DecidableEq, Repr

/-- The options and operands found so far, with their texts. -/
abbrev Found := List (String × String)

def Found.get? (found : Found) (name : String) : Option String :=
  (found.find? (·.1 == name)).map (·.2)

namespace Level

variable (l : Level)

def long? (name : String) : Option OptionSpec :=
  l.options.find? (·.long == name)

def short? (c : Char) : Option OptionSpec :=
  l.options.find? (·.short == some c)

/-- Notes an option or operand that may be given once. -/
def note (found : Found) (name text : String) : Except Stop Found :=
  if (found.get? name).isSome then .error .usage else .ok ((name, text) :: found)

def takeWord (found : Found) (name : String) (words : List String) (text : String) :
    Except Stop Found :=
  if text ∈ words then note found name text else .error .usage

/-- Notes an option that takes no word. -/
def takeFlag (found : Found) (o : OptionSpec) : Except Stop Found :=
  match o.kind with
  | .flag => note found o.long ""
  | .counter => .ok found
  | .version => .error .version
  | .help => .error .help
  | .word _ => .error .usage

/-- The letters of an argument such as `-vv`. -/
def takeLetters : Found → List Char → Except Stop Found
  | found, [] => .ok found
  | found, c :: cs =>
    match l.short? c with
    | some o => do takeLetters (← takeFlag found o) cs
    | none => .error .usage

/-- The operands that are still to come, less the one that `text` is. -/
def takeOperand (operands : List Operand) (found : Found) (text : String) :
    Except Stop (List Operand × Found) :=
  match operands with
  | [] => .error .usage
  | o :: rest =>
    if o.words.isEmpty || text ∈ o.words then .ok (rest, (o.name, text) :: found) else .error .usage

/-- Takes all arguments behind a bare `--` as operands. -/
def takeOperands : List Operand → Found → List String → Except Stop Found
  | operands, found, [] => if operands.isEmpty then .ok found else .error .usage
  | operands, found, arg :: args => do
    let (operands, found) ← takeOperand operands found arg
    takeOperands operands found args

/-- An argument by its form. -/
inductive Form where
  | escape
  /-- `--name` or `--name=word`. -/
  | long (name : String) (word : Option String)
  /-- `-abc`. -/
  | letters (cs : List Char)
  | plain

def form (arg : String) : Form :=
  match arg.toList with
  | ['-', '-'] => .escape
  | '-' :: '-' :: cs =>
    let word := cs.dropWhile (· ≠ '=')
    .long (String.ofList (cs.takeWhile (· ≠ '=')))
      (if word.isEmpty then none else some (String.ofList word.tail))
  | '-' :: c :: cs => .letters (c :: cs)
  | _ => .plain

/-- Whether the argument is an operand that starts with a hyphen. -/
def isHyphenOperand (operands : List Operand) (arg : String) : Bool :=
  (operands.head?.any Operand.hyphen) &&
    match form arg with
    | .long name _ => (l.long? name).isNone
    | .letters cs => cs.any fun c => (l.short? c).isNone
    | .escape | .plain => false

/-- Reads arguments up to a command or to the end. Gives what was found, and the command with the
arguments behind it. -/
def read (operands : List Operand) (found : Found) :
    List String → Except Stop (Found × Option (String × List String))
  | [] => if operands.isEmpty then .ok (found, none) else .error .usage
  | arg :: args =>
    if arg ∈ l.commands then .ok (found, some (arg, args))
    else if l.isHyphenOperand operands arg then do
      let (operands, found) ← takeOperand operands found arg
      read operands found args
    else
      match form arg with
      | .escape => do return (← takeOperands operands found args, none)
      | .letters cs => do read operands (← l.takeLetters found cs) args
      | .plain => do
        let (operands, found) ← takeOperand operands found arg
        read operands found args
      | .long name word =>
        match l.long? name with
        | none => .error .usage
        | some o =>
          match o.kind, word, args with
          | .word words, some text, args => do read operands (← takeWord found name words text) args
          | .word words, none, text :: args => do
            read operands (← takeWord found name words text) args
          | .word _, none, [] => .error .usage
          | _, some _, _ => .error .usage
          | _, none, args => do read operands (← takeFlag found o) args

end Level

/-! ## Requests -/

/-- When to write colours; `auto` leaves it to the terminal. -/
inductive ColourMode where
  | auto
  | always
  | never
  deriving DecidableEq, Repr

def ColourMode.ofWord? : String → Option ColourMode
  | "auto" => some .auto
  | "always" => some .always
  | "never" => some .never
  | _ => none

inductive Task where
  /-- Lists the kinds, all or those of one family; helper kinds have none. -/
  | kinds (family : Option (Option Family))
  | describe (kind : String) (json : Bool)
  | schema
  | operators (category : Option OperatorCategory)
  | parseOperator (category : OperatorCategory) (text : String)
  deriving DecidableEq, Repr

inductive Request where
  | run (colour : ColourMode) (task : Task)
  | version
  | help
  deriving DecidableEq, Repr

def familyOfWord? : String → Option (Option Family)
  | "statement" => some (some .statement)
  | "expression" => some (some .expression)
  | "none" => some none
  | _ => none

def categoryOfWord? : String → Option OperatorCategory
  | "binary" => some .binary
  | "unary" => some .unary
  | _ => none

/-- The options of every level. -/
def globalOptions : List OptionSpec :=
  [{ long := "color", kind := .word ["auto", "always", "never"] },
   { long := "verbose", short := some 'v', kind := .counter },
   { long := "help", short := some 'h', kind := .help }]

def topLevel : Level where
  options := globalOptions ++ [{ long := "version", short := some 'V', kind := .version }]
  commands := ["kinds", "describe", "schema", "operators", "parse-op", "help"]

def categoryWords : List String := ["binary", "unary"]

/-- The level of a command and what its findings ask for. Only `help` has no level. -/
def levelOf : String → Option (Level × (Found → Option Task))
  | "kinds" =>
    some ({ options :=
              globalOptions ++
                [{ long := "family", kind := .word ["statement", "expression", "none"] }] },
      fun found => some (.kinds ((found.get? "family").bind familyOfWord?)))
  | "describe" =>
    some ({ options := globalOptions ++ [{ long := "json", kind := .flag }]
            operands := [{ name := "kind" }] },
      fun found => do return .describe (← found.get? "kind") (found.get? "json").isSome)
  | "schema" => some ({ options := globalOptions }, fun _ => some .schema)
  | "operators" =>
    some ({ options := globalOptions ++ [{ long := "category", kind := .word categoryWords }] },
      fun found => some (.operators ((found.get? "category").bind categoryOfWord?)))
  | "parse-op" =>
    some ({ options := globalOptions
            operands := [{ name := "category", words := categoryWords },
                         { name := "text", hyphen := true }] },
      fun found => do
        return .parseOperator (← (found.get? "category").bind categoryOfWord?) (← found.get? "text"))
  | _ => none

/-- What the arguments behind `help` ask for: the help of the program, or of one command. No options
are read there. -/
def helpOn : List String → Except Stop Request
  | [] => .ok .help
  | [command] => if command ∈ topLevel.commands then .ok .help else .error .usage
  | _ => .error .usage

/-- What a line asks for. A colour mode behind the command wins over one before it. -/
def Request.ofArguments (args : List String) : Except Stop Request :=
  match topLevel.read [] [] args with
  | .error .version => .ok .version
  | .error .help => .ok .help
  | .error .usage => .error .usage
  | .ok (_, none) => .error .usage
  | .ok (outer, some (command, rest)) =>
    match levelOf command with
    | none => helpOn rest
    | some (level, task?) =>
      match level.read level.operands [] rest with
      | .error .help => .ok .help
      | .error stop => .error stop
      | .ok (inner, _) =>
        let colour := ((inner.get? "color").or (outer.get? "color")).bind ColourMode.ofWord?
        match task? inner with
        | some task => .ok (.run (colour.getD .auto) task)
        | none => .error .usage

end Arbor.Command
