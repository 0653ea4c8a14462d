import Arbor.Tree.Basic

/-!
# Editing single fields

An edit changes a tree and may fail on the way; what was done before a failure stays done. Attaching
a node takes it away from its parent first, so a node never has two owners, and a node is never
attached below itself. The edits of this module check everything before their first change.
-/

namespace Arbor

/-! ## Edits -/

/-- A change to a tree that may fail. What was done before a failure stays done. -/
abbrev Edit (σ : Signature) := EStateM Error (Tree σ)

namespace Edit

variable {σ : Signature} {α : Type}

/-- Reads the tree and leaves it as it is. -/
def ask (f : Tree σ → Except Error α) : Edit σ α := fun t =>
  match f t with
  | .ok a => .ok a t
  | .error e => .error e t

/-- The tree after an edit, and its answer. -/
def outcome (e : Edit σ α) (t : Tree σ) : Tree σ × Except Error α :=
  match e t with
  | .ok a t' => (t', .ok a)
  | .error err t' => (t', .error err)

end Edit

/-! ## Changes to a tree -/

namespace Tree

variable {σ : Signature} (t : Tree σ)

def update (id : NodeId) (f : Node → Node) : Tree σ :=
  ⟨t.nodes.modify id f⟩

def setParent (id : NodeId) (parent : Option NodeId) : Tree σ :=
  t.update id fun n => { n with parent := parent }

def setSlot (id : NodeId) (index : Nat) (s : Slot) : Tree σ :=
  t.update id fun n => { n with slots := n.slots.set index s }

/-- Takes a node out of the slot of its parent; it becomes a root. -/
def detach (c : NodeId) : Tree σ :=
  match t.parent? c with
  | none => t
  | some p =>
    (t.update p fun n => { n with slots := n.slots.map (Slot.without c) }).setParent c none

/-- Takes a node away from its owner and names `parent` as the new one. The caller stores it. -/
def adopt (parent c : NodeId) : Tree σ :=
  (t.detach c).setParent c (some parent)

/-- Detaches what a single slot holds. -/
def release (id : NodeId) (index : Nat) : Tree σ :=
  match (t.slot? id index).bind Slot.child? with
  | some old => t.detach old
  | none => t

/-- Replaces what a single slot holds. What it held before becomes a root, and the new child leaves
its previous owner. -/
def putChild (id : NodeId) (index : Nat) : Option NodeId → Tree σ
  | none => (t.release id index).setSlot id index (.child none)
  | some c => ((t.release id index).adopt id c).setSlot id index (.child (some c))

/-! ## Looking up a node after a change -/

@[simp]
theorem size_update (id : NodeId) (f : Node → Node) : (t.update id f).size = t.size := by
  simp [update, size]

theorem node?_update (id other : NodeId) (f : Node → Node) :
    (t.update id f).node? other = if id = other then (t.node? other).map f else t.node? other := by
  simp [update, node?, Array.getElem?_modify]

@[simp]
theorem size_setParent (id : NodeId) (parent : Option NodeId) :
    (t.setParent id parent).size = t.size :=
  t.size_update id _

@[simp]
theorem size_setSlot (id : NodeId) (index : Nat) (s : Slot) :
    (t.setSlot id index s).size = t.size :=
  t.size_update id _

@[simp]
theorem size_detach (c : NodeId) : (t.detach c).size = t.size := by
  unfold detach
  split <;> simp

@[simp]
theorem size_adopt (parent c : NodeId) : (t.adopt parent c).size = t.size := by
  simp [adopt]

@[simp]
theorem size_release (id : NodeId) (index : Nat) : (t.release id index).size = t.size := by
  unfold release
  split <;> simp

@[simp]
theorem size_putChild (id : NodeId) (index : Nat) (c : Option NodeId) :
    (t.putChild id index c).size = t.size := by
  cases c <;> simp [putChild]

/-! ## Checks -/

/-- Fails unless `c` may be stored in the field `p` of the node `parent`. -/
def checkAttachable (p : Place) (parent c : NodeId) : Except Error Unit := do
  σ.checkAccepts p (← t.kindId c)
  if c = parent ∨ c ∈ t.ancestors parent then .error (p.breach (.cycle c)) else .ok ()

/-- Fails unless the field `p` of the node `parent` may hold this child, or be empty. -/
def checkChild (p : Place) (parent : NodeId) : Option NodeId → Except Error Unit
  | none => if p.field.decl.required then .error (p.breach .absent) else .ok ()
  | some c => t.checkAttachable p parent c

end Tree

/-! ## Setters -/

namespace Edit

variable {σ : Signature}

/-- Stores a child in a single field, or empties the field. -/
def setChild (id : NodeId) (field : String) (c : Option NodeId) : Edit σ Unit := do
  let p ← ask fun t => t.locate id field [.singleChild]
  ask fun t => t.checkChild p id c
  modify fun t => t.putChild id p.index c

/-- Stores a value in a single data field, or empties the field. -/
def setData (id : NodeId) (field : String) (v : Option Value) : Edit σ Unit := do
  let p ← ask fun t => t.locate id field [.singleData]
  ask fun _ => p.checkValue v
  modify fun t => t.setSlot id p.index (.data v)

/-- Stores the value that the field's codec reads from a text. -/
def setRawForm (id : NodeId) (field : String) (text : Option String) : Edit σ Unit := do
  let p ← ask fun t => t.locate id field [.singleData]
  let v ← ask fun _ => p.decode text
  setData id field (some v)

end Edit

end Arbor
