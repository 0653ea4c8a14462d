import Arbor.Error

/-!
# Diagnostics

A diagnostic says what is wrong with a node. A validation collects them in a sink, in the order in
which they are reported.
-/

namespace Arbor

/-- A finding of validation. -/
structure Diagnostic where
  node : NodeId
  message : String
  deriving DecidableEq, Repr

def Diagnostic.shown (d : Diagnostic) : String :=
  NodeId.shown d.node ++ ": " ++ d.message

structure Sink where
  diagnostics : Array Diagnostic
  deriving DecidableEq, Repr

namespace Sink

def empty : Sink := ⟨#[]⟩

def report (s : Sink) (node : NodeId) (message : String) : Sink :=
  ⟨s.diagnostics.push ⟨node, message⟩⟩

def size (s : Sink) : Nat :=
  s.diagnostics.size

def isEmpty (s : Sink) : Bool :=
  s.diagnostics.isEmpty

def toList (s : Sink) : List Diagnostic :=
  s.diagnostics.toList

@[simp]
theorem toList_empty : empty.toList = [] :=
  rfl

@[simp]
theorem toList_report (s : Sink) (node : NodeId) (message : String) :
    (s.report node message).toList = s.toList ++ [⟨node, message⟩] := by
  simp [report, toList]

theorem size_eq_length (s : Sink) : s.size = s.toList.length := by
  simp [size, toList]

end Sink

end Arbor
