import Arbor.Diagnostic
import Arbor.TypeName

/-!
# Schemas

A template declares one node kind: its family, its fields, the checks that validation runs and the
accessors that are derived. A list of templates is resolved into a schema, unless it has a fault;
then the first fault is reported under the name of its kind.

Faults are looked for in this order: names of the kinds, template by template; names and fields
within each template; initial nodes that their field does not accept; initial nodes that lead back
to their own kind.
-/

namespace Arbor

/-- A check looks at a node and reports what is wrong with it. -/
structure Check where
  name : String
  run : (σ : Signature) → Tree σ → NodeId → Sink → Sink

structure Accessor where
  name : String
  compute : (σ : Signature) → Tree σ → NodeId → Except Error Derived

structure Template where
  name : String
  family : Option Family := none
  fields : List FieldDecl := []
  checks : List Check := []
  accessors : List Accessor := []

structure KindSpec extends Kind where
  checks : List Check
  accessors : List Accessor

structure Schema where
  kinds : List KindSpec

namespace Schema

def signature (s : Schema) : Signature :=
  ⟨s.kinds.map KindSpec.toKind⟩

def kindNamed? (s : Schema) (name : String) : Option KindSpec :=
  s.kinds.find? (·.name == name)

/-- The codecs in use, with the kinds and fields that use them. -/
def codecs (s : Schema) : List (String × String × Codec) :=
  s.kinds.flatMap fun k =>
    k.fields.filterMap fun f => f.decl.rawForm.map fun c => (k.name, f.name, c)

end Schema

/-! ## Resolving templates -/

namespace FieldDecl

/-- What a child field accepts, where the kinds have the given names. -/
def accepts? (names : List String) (d : FieldDecl) : Option Accepts :=
  match d.type with
  | .child kind =>
    match Family.ofName? kind with
    | some family => some (.family family)
    | none => (names.idxOf? kind).map .kind
  | .data _ => none

def initialKind? (names : List String) (d : FieldDecl) : Option KindId :=
  match d.initial with
  | some (.newNode kind) => names.idxOf? kind
  | _ => none

def resolve (names : List String) (d : FieldDecl) : Field :=
  ⟨d, d.accepts? names, d.initialKind? names⟩

end FieldDecl

namespace Template

def resolve (names : List String) (t : Template) : KindSpec where
  name := t.name
  family := t.family
  fields := t.fields.map (FieldDecl.resolve names)
  checks := t.checks
  accessors := t.accessors

end Template

/-- The schema that a list of templates stands for, faults aside. -/
def Schema.ofTemplates (ts : List Template) : Schema :=
  ⟨ts.map (Template.resolve (ts.map Template.name))⟩

/-! ## Faults of a field -/

namespace FieldDecl

def listFault? (d : FieldDecl) : Option Fault :=
  if d.isList && d.required then some (.requiredList d.name)
  else if d.isList && d.initial.isSome then some (.initialOfList d.name)
  else none

def childFault? (names : List String) (d : FieldDecl) : Option Fault :=
  match d.type with
  | .child kind => if (d.accepts? names).isSome then none else some (.unknownChild d.name kind)
  | .data _ => none

def codecFault? (d : FieldDecl) : Option Fault :=
  match d.rawForm, d.type with
  | some codec, .child _ => some (.codecOfChild d.name codec.name)
  | some codec, .data type =>
    if type = codec.type then none else some (.codecType codec.name codec.type d.name type)
  | none, _ => none

def boundsFault? (d : FieldDecl) : Option Fault :=
  match d.bounds with
  | some (min, max) =>
    if d.type ≠ .data .int then some (.boundsOfNonInt d.name)
    else if min ≤ max then none
    else some (.emptyBounds d.name min max)
  | none => none

def initialFault? (names : List String) (d : FieldDecl) : Option Fault :=
  match d.initial, d.type with
  | none, _ => none
  | some (.data v), .data type =>
    if v.type ≠ type then some (.initialType d.name v.type type)
    else if d.admits v then none
    else some (.initialOutOfBounds d.name)
  | some (.newNode kind), .child _ =>
    if kind ∈ names then none else some (.unknownInitial d.name kind)
  | some (.data _), .child _ => some (.dataInChild d.name)
  | some (.newNode _), .data _ => some (.nodeInData d.name)

/-- The first fault of a declaration, where the kinds have the given names. -/
def fault? (names : List String) (d : FieldDecl) : Option Fault :=
  d.listFault?.or <| (d.childFault? names).or <| d.codecFault?.or <| d.boundsFault?.or <|
    d.initialFault? names

end FieldDecl

/-! ## Faults of templates -/

/-- The first name that stands earlier in the list or among `seen`. -/
def repeated? (seen : List String) : List String → Option String
  | [] => none
  | name :: names => if name ∈ seen then some name else repeated? (name :: seen) names

namespace Template

def memberFault? (member : Member) (names : List String) : Option Fault :=
  (repeated? [] names).map (.repeatedMember member)

/-- The first fault within a template, where the kinds have the given names. -/
def fault? (names : List String) (t : Template) : Option Fault :=
  (memberFault? .field (t.fields.map FieldDecl.name)).or <|
    (memberFault? .check (t.checks.map Check.name)).or <|
    (memberFault? .accessor (t.accessors.map Accessor.name)).or <|
    t.fields.findSome? (FieldDecl.fault? names)

/-- The first fault in the names of the kinds. -/
def nameFault? (seen : List String) : List Template → Option Error
  | [] => none
  | t :: ts =>
    if (Family.ofName? t.name).isSome then some (.schema t.name .familyName)
    else if t.name ∈ seen then some (.schema t.name .repeatedKind)
    else nameFault? (t.name :: seen) ts

end Template

/-! ## Faults between kinds -/

namespace Signature

variable (σ : Signature)

/-- The first field that starts with a node it does not accept. -/
def unacceptedInitial? (k : Kind) : Option Error :=
  k.fields.findSome? fun f =>
    match f.accepts, f.initialKind with
    | some a, some id =>
      if σ.accepts a id then none
      else
        let kind := (σ.kinds[id]?.map Kind.name).getD ""
        some (.schema k.name (.initialNotAccepted kind f.name))
    | _, _ => none

/-- The kinds of the nodes that a new node starts with. -/
def initialKinds (id : KindId) : List KindId :=
  (σ.fields id).filterMap Field.initialKind

/-- Follows initial nodes from the kinds in `frontier`, the last one found first, without entering a
kind twice. Says whether `start` turned up, and nothing if the budget ran out before. -/
def search (start : KindId) : Nat → (seen frontier : List KindId) → Option Bool
  | _, _, [] => some false
  | 0, _, _ :: _ => none
  | budget + 1, seen, next :: rest =>
    if next = start then some true
    else if next ∈ seen then search start budget seen rest
    else search start budget (next :: seen) ((σ.initialKinds next).reverse ++ rest)

/-- The number of fields that start with a node. A search follows each of them once at most. -/
def initialCount : Nat :=
  (σ.kinds.flatMap Kind.initialKinds).length

/-- Whether the initial values of a kind lead back to it. -/
def isRecursive (id : KindId) : Bool :=
  σ.search id σ.initialCount [id] (σ.initialKinds id).reverse == some true

/-- The first kind whose initial values lead back to it. -/
def recursive? : Option Error :=
  (σ.kinds.zipIdx.find? fun (_, id) => σ.isRecursive id).map fun (k, _) =>
    .schema k.name .recursiveInitial

/-- The first fault in how kinds start with nodes of each other. -/
def initialFault? : Option Error :=
  (σ.kinds.findSome? σ.unacceptedInitial?).or σ.recursive?

end Signature

namespace Schema

/-- The first fault of a list of templates. -/
def fault? (ts : List Template) : Option Error :=
  let names := ts.map Template.name
  (Template.nameFault? [] ts).or <|
    (ts.findSome? fun t => (t.fault? names).map (.schema t.name)).or <|
    (ofTemplates ts).signature.initialFault?

/-- The schema of a list of templates, or the first fault. -/
def generate (ts : List Template) : Except Error Schema :=
  match fault? ts with
  | some e => .error e
  | none => .ok (ofTemplates ts)

/-! ## Derived accessors -/

def accessor? (k : KindSpec) (name : String) : Option Accessor :=
  k.accessors.find? (·.name == name)

/-- What the named accessor of the node's kind yields. -/
def derive (s : Schema) (t : Tree s.signature) (id : NodeId) (accessor : String) :
    Except Error Derived :=
  match (t.node? id).bind fun n => s.kinds[n.kind]? with
  | none => .error (.noSuchNode id)
  | some k =>
    match accessor? k accessor with
    | some a => a.compute s.signature t id
    | none => .error (.contract k.name accessor .noSuchAccessor)

end Schema

end Arbor
