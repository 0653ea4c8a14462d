import Arbor.Tree.Edit

/-!
# List fields

A binding points at a list field of a target node and names the node the list is reported to belong
to. Opening it gives a view, through which the list is read and edited. Positions of an insertion
count the list without the inserted node, so a move within a list reads as if the node had already
been taken out.
-/

namespace Arbor

structure ListBinding where
  owner : NodeId
  target : NodeId
  field : String
  deriving DecidableEq, Repr

/-- An opened binding. -/
structure ListView where
  binding : ListBinding
  place : Place

/-- One change to a list. -/
inductive ListEdit where
  | addToEnd (c : NodeId)
  | addToStart (c : NodeId)
  | insert (index : Nat) (c : NodeId)
  | remove (c : NodeId)
  | clear
  | pushValue (v : Value)
  | removeValue (index : Nat)
  deriving DecidableEq, Repr

namespace Tree

variable {σ : Signature} (t : Tree σ)

def openList (b : ListBinding) : Except Error ListView := do
  return ⟨b, ← t.locate b.target b.field [.listChild, .listData]⟩

/-- The list field of a node, owned by the node itself. -/
def list (id : NodeId) (field : String) : Except Error ListView :=
  t.openList ⟨id, id, field⟩

end Tree

namespace ListView

variable {σ : Signature} (v : ListView) (t : Tree σ)

def slot? : Option Slot :=
  t.slot? v.binding.target v.place.index

/-! ## Reading -/

/-- The nodes of the list; none for a list of values. -/
def contents : List NodeId :=
  ((v.slot? t).map Slot.childList).getD []

/-- The values of the list; none for a list of nodes. -/
def values : List Value :=
  ((v.slot? t).map Slot.dataList).getD []

def length : Nat :=
  (v.contents t).length + (v.values t).length

/-- The length of the list of nodes once `c` is taken out of it. -/
def lengthWithout (c : NodeId) : Nat :=
  v.length t - (if c ∈ v.contents t then 1 else 0)

def isChildList : Bool :=
  match v.slot? t with
  | some (.children _) => true
  | _ => false

/-! ## Changes to the list -/

/-- Stores the node `c` at a position and takes it away from its previous owner. -/
def putAt (index : Nat) (c : NodeId) : Tree σ :=
  let t' := t.adopt v.binding.target c
  t'.setSlot v.binding.target v.place.index (.children ((v.contents t').insertIdx index c))

def putValues (xs : List Value) : Tree σ :=
  t.setSlot v.binding.target v.place.index (.values xs)

/-- Empties the list; its nodes become roots. -/
def cleared : Tree σ :=
  match v.slot? t with
  | some (.children held) => held.foldl Tree.detach t
  | some (.values _) => v.putValues t []
  | _ => t

/-! ## Checks -/

def checkInsert (index : Nat) (c : NodeId) : Except Error Unit :=
  if v.isChildList t then do
    t.checkAttachable v.place v.binding.target c
    let length := v.lengthWithout t c
    if index > length then .error (v.place.breach (.outOfRange index length)) else .ok ()
  else .error (v.place.breach .notChildList)

def checkElement (c : NodeId) : Except Error Unit :=
  if c ∈ v.contents t then .ok () else .error (v.place.breach (.notElement c))

def checkDataList : Except Error Unit :=
  if v.isChildList t then .error (v.place.breach .notDataList) else .ok ()

def checkIndex (index : Nat) : Except Error Unit :=
  if index < v.length t then .ok ()
  else .error (v.place.breach (.outOfRange index (v.length t)))

end ListView

/-! ## Editing -/

namespace ListView

variable {σ : Signature} (v : ListView)

def insert (index : Nat) (c : NodeId) : Edit σ Unit := do
  Edit.ask fun t => v.checkInsert t index c
  modify fun t => v.putAt t index c

def addToEnd (c : NodeId) : Edit σ Unit := do
  let t ← get
  v.insert (v.lengthWithout t c) c

def addToStart (c : NodeId) : Edit σ Unit :=
  v.insert 0 c

/-- Takes the node `c` out of the list; it becomes a root. -/
def remove (c : NodeId) : Edit σ Unit := do
  Edit.ask fun t => v.checkElement t c
  modify fun t => t.detach c

def clear : Edit σ Unit :=
  modify fun t => v.cleared t

def pushValue (x : Value) : Edit σ Unit := do
  Edit.ask fun t => v.checkDataList t
  Edit.ask fun _ => v.place.checkValue (some x)
  modify fun t => v.putValues t (v.values t ++ [x])

def removeValue (index : Nat) : Edit σ Unit := do
  Edit.ask fun t => v.checkDataList t
  Edit.ask fun t => v.checkIndex t index
  modify fun t => v.putValues t ((v.values t).eraseIdx index)

def edit : ListEdit → Edit σ Unit
  | .addToEnd c => v.addToEnd c
  | .addToStart c => v.addToStart c
  | .insert index c => v.insert index c
  | .remove c => v.remove c
  | .clear => v.clear
  | .pushValue x => v.pushValue x
  | .removeValue index => v.removeValue index

end ListView

end Arbor
