import Arbor.Field

/-!
# Errors

Every way to fail is a cause of its own; its wording is in one place. A `Fault` is a mistake in
the declarations, a `Breach` is a change that would break the contract of a node, and a `Malformed`
text is one that no codec reads. Only codecs report faults and breaches in words of their own.
-/

namespace Arbor

/-- Nodes are numbered in the order they are allocated, from zero. -/
abbrev NodeId := Nat

/-- How messages write a node. -/
def NodeId.shown (id : NodeId) : String :=
  "#" ++ toString id

/-! ## Faulty declarations -/

/-- The parts of a template whose names must differ. -/
inductive Member where
  | field
  | check
  | accessor
  deriving DecidableEq, Repr

def Member.name : Member → String
  | field => "field"
  | check => "check"
  | accessor => "accessor"

inductive Fault where
  | familyName
  | repeatedKind
  | repeatedMember (member : Member) (name : String)
  | requiredList (field : String)
  | initialOfList (field : String)
  | unknownChild (field kind : String)
  | codecOfChild (field codec : String)
  | codecType (codec : String) (decodes : DataType) (field : String) (holds : DataType)
  | boundsOfNonInt (field : String)
  | emptyBounds (field : String) (min max : Int64)
  | initialType (field : String) (given holds : DataType)
  | initialOutOfBounds (field : String)
  | unknownInitial (field kind : String)
  | dataInChild (field : String)
  | nodeInData (field : String)
  | initialNotAccepted (kind field : String)
  | recursiveInitial
  /-- In the words of a codec. -/
  | worded (message : String)
  deriving DecidableEq, Repr

/-- A range as messages write it, both ends included. -/
def rangeText (min max : Int64) : String :=
  toString min ++ "..=" ++ toString max

/-- A name as messages quote it. -/
def ticked (name : String) : String :=
  "`" ++ name ++ "`"

def Fault.message : Fault → String
  | familyName => "node kind name collides with a root family name"
  | repeatedKind => "node kind declared twice"
  | repeatedMember member name => member.name ++ " " ++ ticked name ++ " declared twice"
  | requiredList field =>
    "list field " ++ ticked field ++ " cannot be required; an empty list is its absent state"
  | initialOfList field => "list field " ++ ticked field ++ " cannot declare an initial value"
  | unknownChild field kind =>
    "field " ++ ticked field ++ " refers to unknown node kind " ++ ticked kind
  | codecOfChild field codec =>
    "child field " ++ ticked field ++ " cannot bind raw-form codec " ++ ticked codec
  | codecType codec decodes field holds =>
    "raw-form codec " ++ ticked codec ++ " decodes " ++ decodes.label ++ " but field " ++
      ticked field ++ " holds " ++ holds.label
  | boundsOfNonInt field => "field " ++ ticked field ++ " declares bounds but does not hold int"
  | emptyBounds field min max =>
    "field " ++ ticked field ++ " declares the empty range " ++ rangeText min max
  | initialType field given holds =>
    "initial value of field " ++ ticked field ++ " is " ++ given.label ++ " but the field holds " ++
      holds.label
  | initialOutOfBounds field => "initial value of field " ++ ticked field ++ " is outside its bounds"
  | unknownInitial field kind =>
    "initial value of field " ++ ticked field ++ " creates unknown node kind " ++ ticked kind
  | dataInChild field => "child field " ++ ticked field ++ " cannot start with a data value"
  | nodeInData field => "data field " ++ ticked field ++ " cannot start with a node"
  | initialNotAccepted kind field =>
    "initial node " ++ ticked kind ++ " is not accepted by field " ++ ticked field
  | recursiveInitial => "initial values create nodes of this kind recursively"
  | worded message => message

/-! ## Broken contracts -/

inductive Breach where
  | unknownKind
  | noSuchField
  | wrongCategory (actual : Category)
  | absent
  | childInData
  | notAccepted (expected kind : String) (family : Option Family)
  | cycle (child : NodeId)
  | dataInChild
  | wrongType (expected given : DataType)
  | outOfBounds (given min max : Int64)
  | noCodec
  | noText (type : DataType)
  | assignedTwice (child : NodeId)
  | notChildList
  | notDataList
  | outOfRange (index length : Nat)
  | notElement (child : NodeId)
  | noSuchAccessor
  | accessorOf (kind : String)
  | missing
  | noParts
  /-- In the words of a codec. -/
  | worded (message : String)
  deriving DecidableEq, Repr

/-- A kind with its family, as messages and listings write it. -/
def kindText (name : String) : Option Family → String
  | some family => name ++ " : " ++ family.name
  | none => name

def Breach.message : Breach → String
  | unknownKind => "unknown node kind"
  | noSuchField => "node kind has no such field"
  | wrongCategory actual => "field is a " ++ actual.name ++ " field"
  | absent => "required field cannot be absent"
  | childInData => "data fields do not hold children"
  | notAccepted expected kind family => "expected " ++ expected ++ ", got " ++ kindText kind family
  | cycle child => "attaching " ++ NodeId.shown child ++ " would create a cycle"
  | dataInChild => "child fields do not hold data"
  | wrongType expected given => "expected " ++ expected.label ++ ", got " ++ given.label
  | outOfBounds given min max => (Value.int given).written ++ " is outside " ++ rangeText min max
  | noCodec => "field has no raw-form codec"
  | noText type => "stored value is not a " ++ type.label
  | assignedTwice child => NodeId.shown child ++ " is assigned more than once"
  | notChildList => "field is not a child list"
  | notDataList => "field is not a data list"
  | outOfRange index length =>
    "index " ++ toString index ++ " out of bounds for list of length " ++ toString length
  | notElement child => NodeId.shown child ++ " is not an element of this list"
  | noSuchAccessor => "node kind has no such accessor"
  | accessorOf kind => "accessor is only defined on " ++ kind
  | missing => "required field is absent"
  | noParts => "type reference has no parts"
  | worded message => message

/-! ## Errors -/

inductive Error where
  | schema (kind : String) (fault : Fault)
  | contract (kind field : String) (breach : Breach)
  | rawForm (cause : Malformed)
  /-- The tree has no node of this number. -/
  | noSuchNode (id : NodeId)
  deriving DecidableEq, Repr

namespace Error

/-- The class of an error. -/
def name : Error → String
  | schema .. => "Schema"
  | contract .. => "Contract"
  | rawForm .. => "RawForm"
  | noSuchNode .. => "NoSuchNode"

/-- The code under which an error is reported. -/
def code : Error → String
  | schema .. => "trellis::schema"
  | contract .. => "trellis::contract"
  | rawForm .. => "trellis::raw_form"
  | noSuchNode .. => "trellis::no_such_node"

def message : Error → String
  | schema kind fault => "schema error in " ++ ticked kind ++ ": " ++ fault.message
  | contract kind field breach =>
    "contract violation on " ++ ticked (kind ++ "." ++ field) ++ ": " ++ breach.message
  | rawForm cause => "malformed raw form for " ++ ticked cause.label ++ ": " ++ cause.complaint
  | noSuchNode id => "no node " ++ NodeId.shown id

def help? : Error → Option String
  | schema .. => some "fix the node template declaration; schema errors abort generation"
  | rawForm .. => some "expected one of the symbols listed by `trellis operators`"
  | contract .. | noSuchNode .. => none

/-- The error as it is reported for a field. The label of a malformed text gives way to that of the
field, and all other errors stay as they are. -/
def inField (label : String) : Error → Error
  | rawForm cause => rawForm { cause with label := label }
  | e => e

end Error

/-- The error that a codec reports. -/
def Refusal.error : Refusal → Error
  | malformed cause => .rawForm cause
  | schema kind message => .schema kind (.worded message)
  | contract kind field message => .contract kind field (.worded message)

end Arbor
