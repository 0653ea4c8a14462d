import Arbor.Tree.Basic

/-!
# Walks and shapes

A walk visits a node and everything below it, parents before children. Two nodes have the same
shape when their kinds agree and their children agree field by field; data is not looked at.
-/

namespace Arbor

namespace Tree

variable {σ : Signature} (t : Tree σ)

/-- Visits the nodes of a work list and puts the children of each in its place, for `bound` visits
at most. -/
def visit : Nat → List NodeId → List NodeId
  | 0, _ => []
  | _ + 1, [] => []
  | bound + 1, id :: rest => id :: visit bound (t.childNodes id ++ rest)

/-- The node `id` and all nodes below it, in pre-order. A walk visits no node twice, so the size of
the tree bounds it. -/
def walk (id : NodeId) : List NodeId :=
  t.visit t.size [id]

end Tree

/-- Whether two slots agree, given when two children do. Data slots always agree. -/
def Slot.agree (same : NodeId → NodeId → Bool) : Slot → Slot → Bool
  | .child none, .child none => true
  | .child (some x), .child (some y) => same x y
  | .child _, .child _ => false
  | .children xs, .children ys => xs.length == ys.length && (xs.zip ys).all fun (x, y) => same x y
  | _, _ => true

namespace Tree

variable {σ : Signature} (t : Tree σ)

/-- Whether two nodes have the same shape down to a depth of `bound` nodes. -/
def sameShape : Nat → NodeId → NodeId → Bool
  | 0, _, _ => false
  | bound + 1, a, b =>
    match t.node? a, t.node? b with
    | some x, some y =>
      x.kind == y.kind && (x.slots.zip y.slots).all fun (s, u) => s.agree (sameShape bound) u
    | _, _ => false

/-- Whether the subtrees of `a` and `b` have the same kinds and the same topology. -/
def structurallyEqual (a b : NodeId) : Bool :=
  t.sameShape t.size a b

end Tree

end Arbor
