import Arbor.Serial
import Arbor.Text.Column

/-!
# Reports

Listings of kinds, fields and operators, as pages of styled text. A page is shown with or without
the terminal's escape sequences for colours.
-/

namespace Arbor

inductive Colour where
  | green
  | yellow
  | magenta
  | cyan
  deriving DecidableEq, Repr

/-- The digit that selects the colour. -/
def Colour.digit : Colour → String
  | green => "2"
  | yellow => "3"
  | magenta => "5"
  | cyan => "6"

structure Style where
  colour : Colour
  bold : Bool := false
  deriving DecidableEq, Repr

structure Span where
  text : String
  style : Option Style := none
  deriving DecidableEq, Repr

abbrev Page := List Span

namespace Span

def escape (code : String) : String :=
  "\x1b[" ++ code ++ "m"

/-- A styled text stands between two resets, also if it is empty. -/
def render (coloured : Bool) (s : Span) : String :=
  match s.style with
  | some style =>
    if coloured then
      escape "0" ++ (if style.bold then escape "1" else "") ++ escape ("3" ++ style.colour.digit) ++
        s.text ++ escape "0"
    else s.text
  | none => s.text

end Span

namespace Page

def render (coloured : Bool) (p : Page) : String :=
  String.join (p.map (Span.render coloured))

def line (text : String) : Page :=
  [⟨text ++ "\n", none⟩]

def styled (colour : Colour) (bold : Bool) (text : String) : Page :=
  [⟨text, some ⟨colour, bold⟩⟩]

def json (j : Json) : Page :=
  line j.text

/-! ## Kinds -/

def kindRow (k : Kind) : Page :=
  styled .cyan true (Text.column 26 k.name) ++
    line (match k.family with
      | some family => family.name
      | none => "-")

/-- The remarks at the end of a field's row. -/
def notes (d : FieldDecl) : List String :=
  (if d.required then ["required"] else []) ++
  (if d.classification.nullable then ["nullable"] else []) ++
  (match d.initial with
    | some i => ["initial=" ++ i.written]
    | none => []) ++
  (match d.bounds with
    | some (min, max) => ["bounds=" ++ rangeText min max]
    | none => []) ++
  (match d.rawForm with
    | some codec => ["raw-form=" ++ codec.name]
    | none => [])

def fieldRow (d : FieldDecl) : Page :=
  let type := match d.type with
    | .child kind => kind
    | .data type => type.label
  let cells := "  " ++ Text.column 28 d.name ++ Text.column 14 d.category.name ++ Text.column 22 type
  ⟨cells, none⟩ :: styled .magenta false (" ".intercalate (notes d)) ++ line ""

/-- A kind with its fields, checks and accessors. -/
def describe (k : KindSpec) : Page :=
  styled .cyan true k.name ++
  line (match k.family with
    | some family => " : " ++ family.name
    | none => "") ++
  (if k.fields.isEmpty then line "  (no fields)" else []) ++
  k.fields.flatMap (fun f => fieldRow f.decl) ++
  k.checks.flatMap (fun c => styled .yellow false "  check    " ++ line c.name) ++
  k.accessors.flatMap (fun a => styled .green false "  derived  " ++ line a.name)

/-! ## Operators -/

def operatorRow {α : Type} [Operator α] (op : α) : Page :=
  styled .yellow true (Text.column 6 (Operator.symbol op)) ++
    line (Text.column 8 (Operator.category α).name ++ Operator.name op)

end Page

end Arbor
