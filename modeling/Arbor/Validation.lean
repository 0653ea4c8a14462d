import Arbor.Schema
import Arbor.Tree.Walk

/-!
# Validation

Validation never fails; it gathers diagnostics. A node with an absent required field is reported for
that alone; the checks of its kind run only when all of them are present.
-/

namespace Arbor

/-- The required single fields of a node that are absent, in the order of the declaration. -/
def Node.missing (n : Node) (k : Kind) : List String :=
  (k.fields.zip n.slots).filterMap fun (f, s) =>
    if f.decl.required && !f.decl.isList && !s.isFilled then some f.name else none

/-- Reports an absent required field. -/
def Sink.reportMissing (s : Sink) (id : NodeId) (field : String) : Sink :=
  s.report id ("missing required field " ++ ticked field)

namespace Schema

variable (s : Schema) (t : Tree s.signature)

/-- Adds the diagnostics of one node to a sink. All nodes of a validation share the sink; the checks
run if the node has added nothing to it so far. -/
def validateInto (sink : Sink) (id : NodeId) : Sink :=
  match t.node? id with
  | none => sink
  | some n =>
    match s.kinds[n.kind]? with
    | none => sink
    | some k =>
      let reported := (n.missing k.toKind).foldl (Sink.reportMissing · id ·) sink
      if reported.size = sink.size then
        k.checks.foldl (fun sink c => c.run s.signature t id sink) reported
      else reported

/-- The diagnostics of one node. -/
def validate (id : NodeId) : List Diagnostic :=
  (s.validateInto t .empty id).toList

/-- The diagnostics of a node and of all nodes below it, in pre-order. -/
def validateTree (root : NodeId) : List Diagnostic :=
  ((t.walk root).foldl (s.validateInto t) .empty).toList

end Schema

end Arbor
