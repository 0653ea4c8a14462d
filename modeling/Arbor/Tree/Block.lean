import Arbor.Tree.Basic

/-!
# Blocks of new nodes

New nodes join a tree in blocks. The root of a block has the block's first number, and the blocks
of its children follow, in order and without gaps. A new node of a kind starts with the block that
the initial values of the kind call for; a copy of a subtree is a block of the same shape.
-/

namespace Arbor

/-- Puts one block after the other, the first at `base`. Gives the first number of each block, and
the nodes of all of them. -/
def layOut {α : Type} (block : NodeId → α → List Node) : NodeId → List α → List NodeId × List Node
  | _, [] => ([], [])
  | base, a :: as =>
    let first := block base a
    let (ids, rest) := layOut block (base + first.length) as
    (base :: ids, first ++ rest)

/-! ## Initial values -/

/-- The slots of a new node, given the numbers of the nodes it starts with. -/
def initialSlots : List Field → List NodeId → List Slot
  | [], _ => []
  | f :: fs, ids =>
    match f.initialKind, f.decl.initial with
    | some _, _ => .child ids.head? :: initialSlots fs ids.tail
    | none, some (.data v) => .data (some v) :: initialSlots fs ids
    | none, _ => .empty f.category :: initialSlots fs ids

/-- A new node of a kind with the nodes it starts with, `bound` levels of them at most. -/
def Signature.freshBlock (σ : Signature) : Nat → Option NodeId → NodeId → KindId → List Node
  | 0, parent, _, kind => [⟨kind, parent, initialSlots (σ.fields kind) []⟩]
  | bound + 1, parent, base, kind =>
    let (ids, below) :=
      layOut (σ.freshBlock bound (some base)) (base + 1) ((σ.fields kind).filterMap Field.initialKind)
    ⟨kind, parent, initialSlots (σ.fields kind) ids⟩ :: below

/-- The slots of a copy, given the numbers of the copied children. -/
def refill : List Slot → List NodeId → List Slot
  | [], _ => []
  | .child (some _) :: ss, ids => .child ids.head? :: refill ss ids.tail
  | .children held :: ss, ids =>
    .children (ids.take held.length) :: refill ss (ids.drop held.length)
  | s :: ss, ids => s :: refill ss ids

namespace Tree

variable {σ : Signature} (t : Tree σ)

/-- Adds a new root of a kind; its number is the old size. Initial values never lead from a kind
back to itself, so the number of kinds bounds their depth. -/
def alloc (kind : KindId) : Tree σ :=
  ⟨t.nodes ++ σ.freshBlock σ.kinds.length none t.size kind⟩

/-! ## Copies -/

/-- A copy of the subtree of `id`, `bound` levels below it at most. -/
def copyBlock : Nat → Option NodeId → NodeId → NodeId → List Node
  | 0, parent, _, id =>
    match t.node? id with
    | some n => [⟨n.kind, parent, refill n.slots []⟩]
    | none => []
  | bound + 1, parent, base, id =>
    match t.node? id with
    | some n =>
      let (ids, below) := layOut (copyBlock bound (some base)) (base + 1) n.children
      ⟨n.kind, parent, refill n.slots ids⟩ :: below
    | none => []

/-- Adds a copy of the subtree of `id` as a new root; its number is the old size. -/
def deepCopy (id : NodeId) : Tree σ :=
  ⟨t.nodes ++ t.copyBlock t.size none t.size id⟩

end Tree

end Arbor
