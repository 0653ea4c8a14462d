import Arbor.Signature

/-!
# Trees

A tree over a signature is a store of nodes addressed by number. A node has a kind, at most one
parent, and one slot for each field of its kind. Nodes without a parent are roots, and a tree may
have any number of them.
-/

namespace Arbor

/-- The contents of one field of one node. -/
inductive Slot where
  | child (held : Option NodeId)
  | children (held : List NodeId)
  | data (held : Option Value)
  | values (held : List Value)
  deriving DecidableEq, Repr

namespace Slot

def empty : Category → Slot
  | .singleChild => .child none
  | .listChild => .children []
  | .singleData => .data none
  | .listData => .values []

/-- The nodes in the slot, in order. -/
def nodes : Slot → List NodeId
  | child held => held.toList
  | children held => held
  | data _ | values _ => []

def child? : Slot → Option NodeId
  | child held => held
  | children _ | data _ | values _ => none

def data? : Slot → Option Value
  | data held => held
  | child _ | children _ | values _ => none

def dataList : Slot → List Value
  | values held => held
  | child _ | children _ | data _ => []

def childList : Slot → List NodeId
  | children held => held
  | child _ | data _ | values _ => []

/-- Whether a single slot holds something. -/
def isFilled : Slot → Bool
  | child held => held.isSome
  | data held => held.isSome
  | children _ | values _ => false

/-- The slot after the node `c` has been taken out of it. -/
def without (c : NodeId) : Slot → Slot
  | child held => if held = some c then child none else child held
  | children held => children (held.filter (· ≠ c))
  | data held => data held
  | values held => values held

end Slot

structure Node where
  kind : KindId
  parent : Option NodeId
  slots : List Slot
  deriving DecidableEq, Repr

/-- The children of a node, field by field in the order of the declaration. -/
def Node.children (n : Node) : List NodeId :=
  n.slots.flatMap Slot.nodes

structure Tree (σ : Signature) where
  nodes : Array Node
  deriving DecidableEq, Repr

namespace Tree

variable {σ : Signature} (t : Tree σ)

def empty : Tree σ := ⟨#[]⟩

/-- How many nodes have ever been allocated. -/
def size : Nat :=
  t.nodes.size

def node? (id : NodeId) : Option Node :=
  t.nodes[id]?

def parent? (id : NodeId) : Option NodeId :=
  (t.node? id).bind Node.parent

def slot? (id : NodeId) (index : Nat) : Option Slot :=
  (t.node? id).bind fun n => n.slots[index]?

def childNodes (id : NodeId) : List NodeId :=
  match t.node? id with
  | some n => n.children
  | none => []

/-! ## Kinds and fields of a node -/

def kindId (id : NodeId) : Except Error KindId :=
  match t.node? id with
  | some n => .ok n.kind
  | none => .error (.noSuchNode id)

def kind (id : NodeId) : Except Error Kind :=
  match (t.node? id).bind fun n => σ.kinds[n.kind]? with
  | some k => .ok k
  | none => .error (.noSuchNode id)

def family? (id : NodeId) : Option Family :=
  match t.kind id with
  | .ok k => k.family
  | .error _ => none

/-- The field of this name on the node's kind, if it has one of the expected categories. -/
def locate (id : NodeId) (field : String) (expected : List Category) : Except Error Place := do
  (← t.kind id).resolve field expected

/-! ## Reading fields -/

def child (id : NodeId) (field : String) : Except Error (Option NodeId) := do
  let p ← t.locate id field [.singleChild]
  return (t.slot? id p.index).bind Slot.child?

def children (id : NodeId) (field : String) : Except Error (List NodeId) := do
  let p ← t.locate id field [.listChild]
  return ((t.slot? id p.index).map Slot.childList).getD []

def data (id : NodeId) (field : String) : Except Error (Option Value) := do
  let p ← t.locate id field [.singleData]
  return (t.slot? id p.index).bind Slot.data?

def dataList (id : NodeId) (field : String) : Except Error (List Value) := do
  let p ← t.locate id field [.listData]
  return ((t.slot? id p.index).map Slot.dataList).getD []

/-- The text of a data field by its codec, if the field is filled. -/
def rawForm (id : NodeId) (field : String) : Except Error (Option String) := do
  let p ← t.locate id field [.singleData]
  let codec ← p.codec
  match (t.slot? id p.index).bind Slot.data? with
  | none => .ok none
  | some v =>
    match codec.generate v with
    | some text => .ok (some text)
    | none => .error (p.breach (.noText codec.type))

/-! ## Ancestors -/

/-- The parents above a node, nearest first, `bound` of them at most. -/
def climb : Nat → NodeId → List NodeId
  | 0, _ => []
  | bound + 1, id =>
    match t.parent? id with
    | some p => p :: climb bound p
    | none => []

/-- The nodes above `id`, nearest first. No node of a tree has more ancestors than the tree has
nodes. -/
def ancestors (id : NodeId) : List NodeId :=
  t.climb t.size id

def rootOf (id : NodeId) : NodeId :=
  (t.ancestors id).getLastD id

end Tree

end Arbor
