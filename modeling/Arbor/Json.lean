import Arbor.Text.Quoted

/-!
# JSON

JSON values with the members of an object in a fixed order, and their text: members and items on
lines of their own, two spaces deeper than the bracket around them.
-/

namespace Arbor

inductive Json where
  | null
  | bool (b : Bool)
  | int (n : Int)
  | str (s : String)
  | arr (items : List Json)
  | obj (members : List (String × Json))

namespace Json

/-- The text of an optional value, `null` when there is none. -/
def ofOption {α : Type} (f : α → Json) : Option α → Json
  | none => .null
  | some a => f a

/-! ## Text -/

/-- Control characters are escaped, with four hexadecimal digits where no short form exists. All
other characters stand for themselves. -/
def escapedChar (c : Char) : String :=
  if c = '"' then "\\\""
  else if c = '\\' then "\\\\"
  else if c = '\n' then "\\n"
  else if c = '\r' then "\\r"
  else if c = '\t' then "\\t"
  else if c.toNat = 0x08 then "\\b"
  else if c.toNat = 0x0C then "\\f"
  else if c.toNat < 0x10 then "\\u000" ++ Text.hex c.toNat
  else if c.toNat < 0x20 then "\\u00" ++ Text.hex c.toNat
  else String.singleton c

def string (s : String) : String :=
  "\"" ++ String.join (s.toList.map escapedChar) ++ "\""

/-- The start of a line `depth` brackets deep. -/
def newline (depth : Nat) : String :=
  "\n" ++ String.ofList (List.replicate (2 * depth) ' ')

mutual

/-- The text of a value that stands `depth` brackets deep. -/
def textAt (depth : Nat) : Json → String
  | .null => "null"
  | .bool b => if b then "true" else "false"
  | .int n => toString n
  | .str s => string s
  | .arr [] => "[]"
  | .arr (j :: js) => "[" ++ itemsAt (depth + 1) (j :: js) ++ newline depth ++ "]"
  | .obj [] => "\x7b\x7d"
  | .obj (m :: ms) => "\x7b" ++ membersAt (depth + 1) (m :: ms) ++ newline depth ++ "\x7d"

def itemsAt (depth : Nat) : List Json → String
  | [] => ""
  | [j] => newline depth ++ textAt depth j
  | j :: js => newline depth ++ textAt depth j ++ "," ++ itemsAt depth js

def membersAt (depth : Nat) : List (String × Json) → String
  | [] => ""
  | [(k, j)] => newline depth ++ string k ++ ": " ++ textAt depth j
  | (k, j) :: ms => newline depth ++ string k ++ ": " ++ textAt depth j ++ "," ++ membersAt depth ms

end

def text (j : Json) : String :=
  textAt 0 j

end Json

end Arbor
