import Arbor.Tree.Block
import Arbor.Tree.ListView

/-!
# Building nodes

A build names a kind and assigns fields. All assignments are checked, texts are decoded and the
required fields are looked for before the node is allocated; then the assignments are carried out in
order. A decoded text meets the type and the bounds of its field only then: if it fails, the node
stays in the tree with the assignments carried out so far.
-/

namespace Arbor

inductive Assignment where
  | child (field : String) (c : NodeId)
  | children (field : String) (cs : List NodeId)
  | data (field : String) (v : Value)
  | values (field : String) (vs : List Value)
  /-- A value in the text form of the field's codec. -/
  | raw (field : String) (text : String)
  deriving DecidableEq, Repr

namespace Assignment

def field : Assignment → String
  | child field _ | children field _ | data field _ | values field _ | raw field _ => field

def category : Assignment → Category
  | child .. => .singleChild
  | children .. => .listChild
  | data .. | raw .. => .singleData
  | values .. => .listData

end Assignment

/-- One step of carrying out a build. -/
inductive Change where
  | setChild (field : String) (c : NodeId)
  | append (field : String) (c : NodeId)
  | setData (field : String) (v : Value)
  | push (field : String) (v : Value)
  deriving DecidableEq, Repr

/-- What the checks of a build have gathered: the positions of the assigned fields, the children
that have found a place, and the changes to carry out. -/
structure Draft where
  assigned : List Nat
  placed : List NodeId
  changes : List Change
  deriving DecidableEq, Repr

namespace Tree

variable {σ : Signature} (t : Tree σ)

/-! ## Checks -/

/-- Finds a place for a child; a node has one place in a build. -/
def placeOnce (p : Place) (placed : List NodeId) (c : NodeId) : Except Error (List NodeId) := do
  σ.checkAccepts p (← t.kindId c)
  if c ∈ placed then .error (p.breach (.assignedTwice c)) else .ok (c :: placed)

def checkAssignment (k : Kind) (d : Draft) (a : Assignment) : Except Error Draft := do
  let p ← k.resolve a.field [a.category]
  let assigned := p.index :: d.assigned
  match a with
  | .child field c =>
    return ⟨assigned, ← t.placeOnce p d.placed c, d.changes ++ [.setChild field c]⟩
  | .children field cs =>
    return ⟨assigned, ← cs.foldlM (t.placeOnce p) d.placed, d.changes ++ cs.map (.append field)⟩
  | .data field v =>
    p.checkValue (some v)
    return ⟨assigned, d.placed, d.changes ++ [.setData field v]⟩
  | .values field vs =>
    vs.forM fun v => p.checkValue (some v)
    return ⟨assigned, d.placed, d.changes ++ vs.map (.push field)⟩
  | .raw field text =>
    return ⟨assigned, d.placed, d.changes ++ [.setData field (← p.decode (some text))]⟩

/-- The first field that a build has to assign and did not. -/
def ungiven? (k : Kind) (assigned : List Nat) : Option Field :=
  (k.fields.zipIdx.find? fun (f, i) => f.decl.mustBeGiven && i ∉ assigned).map (·.1)

/-- The changes that a build of the kind `k` comes to. -/
def draft (k : Kind) (as : List Assignment) : Except Error (List Change) := do
  let d ← as.foldlM (t.checkAssignment k) ⟨[], [], []⟩
  match ungiven? k d.assigned with
  | some f => .error (.contract k.name f.name .absent)
  | none => .ok d.changes

end Tree

/-! ## Carrying out -/

namespace Edit

variable {σ : Signature}

/-- Adds a new root of a kind and gives its number. -/
def alloc (kind : KindId) : Edit σ NodeId := do
  let t ← get
  modify fun t => t.alloc kind
  return t.size

/-- Adds a copy of the subtree of `id` as a new root and gives its number. -/
def deepCopy (id : NodeId) : Edit σ NodeId := do
  let t ← get
  modify fun t => t.deepCopy id
  return t.size

def change (id : NodeId) : Change → Edit σ Unit
  | .setChild field c => setChild id field (some c)
  | .append field c => do
    let v ← ask fun t => t.list id field
    v.addToEnd c
  | .setData field x => setData id field (some x)
  | .push field x => do
    let v ← ask fun t => t.list id field
    v.pushValue x

/-- The kind of this name, with its number. -/
def kindNamed (name : String) : Edit σ (KindId × Kind) :=
  ask fun _ =>
    match σ.kindNamed? name with
    | some found => .ok found
    | none => .error (.contract name "*" .unknownKind)

/-- Builds a node of the named kind and gives its number. -/
def build (kind : String) (as : List Assignment) : Edit σ NodeId := do
  let (kid, k) ← kindNamed kind
  let changes ← ask fun t => t.draft k as
  let id ← alloc kid
  changes.forM (change id)
  return id

end Edit

end Arbor
