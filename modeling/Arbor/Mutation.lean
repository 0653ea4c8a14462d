import Arbor.Tree.Build
import Arbor.TypeName

/-!
# Mutations

Every way to change a tree, as data. `Tree.apply` carries one out and gives the tree after it, also
when the mutation is refused: a refused build may leave its node behind. A tree is reachable when
mutations that name nodes of the tree lead to it from the empty tree.
-/

namespace Arbor

/-- How a list is addressed. -/
inductive ListAddress where
  | field (id : NodeId) (field : String)
  | binding (b : ListBinding)
  /-- The type arguments of a type reference or of one of its parts. -/
  | generics (id : NodeId)
  deriving DecidableEq, Repr

inductive Mutation where
  | build (kind : String) (assignments : List Assignment)
  | setChild (id : NodeId) (field : String) (c : Option NodeId)
  | setData (id : NodeId) (field : String) (v : Option Value)
  | setRawForm (id : NodeId) (field : String) (text : Option String)
  | editList (address : ListAddress) (edit : ListEdit)
  | deepCopy (id : NodeId)
  deriving DecidableEq, Repr

/-! ## The nodes that a mutation names -/

def ListAddress.nodes : ListAddress → List NodeId
  | field id _ => [id]
  | binding b => [b.owner, b.target]
  | generics id => [id]

def ListEdit.nodes : ListEdit → List NodeId
  | addToEnd c | addToStart c | insert _ c | remove c => [c]
  | clear | pushValue _ | removeValue _ => []

def Assignment.nodes : Assignment → List NodeId
  | child _ c => [c]
  | children _ cs => cs
  | data .. | values .. | raw .. => []

def Mutation.nodes : Mutation → List NodeId
  | build _ assignments => assignments.flatMap Assignment.nodes
  | setChild id _ c => id :: c.toList
  | setData id .. => [id]
  | setRawForm id .. => [id]
  | editList address edit => address.nodes ++ edit.nodes
  | deepCopy id => [id]

/-! ## Carrying out mutations -/

namespace Tree

variable {σ : Signature} (t : Tree σ)

def openAddress : ListAddress → Except Error ListView
  | .field id field => t.list id field
  | .binding b => t.openList b
  | .generics id => t.openGenerics id

end Tree

/-- Carries out a mutation. The answer is the number of the node that it made, if it makes one. -/
def Mutation.run {σ : Signature} : Mutation → Edit σ (Option NodeId)
  | build kind assignments => do
    let id ← Edit.build kind assignments
    return some id
  | setChild id field c => do
    Edit.setChild id field c
    return none
  | setData id field v => do
    Edit.setData id field v
    return none
  | setRawForm id field text => do
    Edit.setRawForm id field text
    return none
  | editList address edit => do
    let v ← Edit.ask fun t => t.openAddress address
    v.edit edit
    return none
  | deepCopy id => do
    let copy ← Edit.deepCopy id
    return some copy

namespace Tree

variable {σ : Signature}

/-- The tree after a mutation, and its answer. -/
def apply (t : Tree σ) (m : Mutation) : Tree σ × Except Error (Option NodeId) :=
  m.run.outcome t

/-- The tree after a list of mutations, and all their answers. -/
def applyAll : Tree σ → List Mutation → Tree σ × List (Except Error (Option NodeId))
  | t, [] => (t, [])
  | t, m :: ms =>
    let (t', answer) := t.apply m
    let (t'', answers) := applyAll t' ms
    (t'', answer :: answers)

inductive Reachable : Tree σ → Prop where
  | empty : Reachable empty
  | step {t : Tree σ} {m : Mutation} :
      Reachable t → (∀ id ∈ m.nodes, id < t.size) → Reachable (t.apply m).1

end Tree

end Arbor
