import Arbor.Proofs.Fresh
import Arbor.Proofs.Renumbering

/-!
# New nodes one by one

`Tree.alloc` and `Tree.deepCopy` add a block of nodes in one write. Here the same nodes are added
one by one. A node is pushed behind all others, then each node below it is added by the same
procedure and told its parent. An allocation starts from empty slots and writes them one after the
other; a copy starts without slots and writes all of them at the end. The recursion has no limit of
its own, so it is given a bound, and there is no outcome if the bound is used up. It never is, and
the outcome is the tree with the block.
-/

namespace Arbor

variable {σ : Signature}

/-! ## Writing behind a tree -/

namespace Tree

variable {t : Tree σ}

theorem extend_extend (ms ns : List Node) : (t.extend ms).extend ns = t.extend (ms ++ ns) := by
  refine ext_node? fun x => ?_
  rw [node?_extend, toList_extend, node?_extend, List.append_assoc]

/-- A write to the first node behind a tree. -/
theorem update_extend (n : Node) (ns : List Node) (f : Node → Node) :
    (t.extend (n :: ns)).update t.size f = t.extend (f n :: ns) := by
  have hlength : t.nodes.toList.length = t.size := Array.length_toList
  refine ext_node? fun x => ?_
  rw [node?_update, node?_extend, node?_extend]
  rcases Nat.lt_trichotomy x t.size with hx | rfl | hx
  · rw [if_neg (Nat.ne_of_gt hx), List.getElem?_append_left (hlength ▸ hx),
      List.getElem?_append_left (hlength ▸ hx)]
  · simp [hlength]
  · obtain ⟨k, rfl⟩ := Nat.exists_eq_add_of_lt hx
    have hle : t.nodes.toList.length ≤ t.size + k + 1 := by omega
    rw [if_neg (Nat.ne_of_lt hx), List.getElem?_append_right hle, List.getElem?_append_right hle,
      hlength, Nat.add_assoc, Nat.add_sub_cancel_left, List.getElem?_cons_succ,
      List.getElem?_cons_succ]

/-- The tree has grown to `u`: there are perhaps more nodes behind its own. -/
def GrownTo (t u : Tree σ) : Prop :=
  ∃ ns, u = t.extend ns

theorem GrownTo.extend {u : Tree σ} (h : t.GrownTo u) (ns : List Node) :
    t.GrownTo (u.extend ns) := by
  obtain ⟨ms, rfl⟩ := h
  exact ⟨ms ++ ns, extend_extend ms ns⟩

theorem GrownTo.node?_eq {u : Tree σ} (h : t.GrownTo u) {id : NodeId} (hid : id < t.size) :
    u.node? id = t.node? id := by
  obtain ⟨ns, rfl⟩ := h
  exact node?_extend_of_lt ns hid

/-- Adds what `add` adds for `a`, and tells the first node of it its parent. -/
def addUnder {α : Type} (add : Tree σ → α → Option (Tree σ)) (parent : NodeId) (t : Tree σ)
    (a : α) : Option (Tree σ) := do
  return (← add t a).setParent t.size (some parent)

/-- Whatever the tree has grown to, a block is added for `a` and is told its parent. -/
def Adds {α : Type} (t : Tree σ) (add : Tree σ → α → Option (Tree σ)) (parent : NodeId)
    (block : NodeId → α → List Node) (a : α) : Prop :=
  ∀ u, t.GrownTo u → u.addUnder add parent a = some (u.extend (block u.size a))

end Tree

theorem layOut_append {α : Type} (block : NodeId → α → List Node) (base : NodeId) (as bs : List α) :
    layOut block base (as ++ bs) =
      ((layOut block base as).1 ++
          (layOut block (base + (layOut block base as).2.length) bs).1,
        (layOut block base as).2 ++
          (layOut block (base + (layOut block base as).2.length) bs).2) := by
  induction as generalizing base with
  | nil => rfl
  | cons a as ih => simp [layOut, ih, Nat.add_assoc]

/-! ## Allocations -/

/-- A node of the kind before it is given its initial values. -/
def Signature.blank (σ : Signature) (kind : KindId) : Node :=
  ⟨kind, none, (σ.fields kind).map fun f => .empty f.category⟩

namespace Tree

/-- Gives the field at a position of the node `id` its initial value. -/
def startField (alloc : Tree σ → KindId → Option (Tree σ)) (id : NodeId) (t : Tree σ)
    (f : Field × Nat) : Option (Tree σ) :=
  match f.1.decl.initial, f.1.initialKind with
  | some (.data v), _ => some (t.setSlot id f.2 (.data (some v)))
  | some (.newNode _), some kind => do
    let u ← t.addUnder alloc id kind
    return u.setSlot id f.2 (.child (some t.size))
  | _, _ => some t

/-- Allocates a node of a kind and then gives one field after the other its initial value. There is
no outcome once the bound is used up. -/
def allocStepwise : Nat → Tree σ → KindId → Option (Tree σ)
  | 0, _, _ => none
  | bound + 1, t, kind =>
    (σ.fields kind).zipIdx.foldlM (startField (allocStepwise bound) t.size)
      (t.extend [σ.blank kind])

variable {t : Tree σ} {kind : KindId}

theorem setParent_freshBlock (bound : Nat) (kind : KindId) (parent : Option NodeId) :
    (t.extend (σ.freshBlock bound none t.size kind)).setParent t.size parent =
      t.extend (σ.freshBlock bound parent t.size kind) := by
  cases bound with
  | zero => exact update_extend _ _ _
  | succ bound => exact update_extend _ _ _

/-- Storing into the slot at which the first node behind a tree has arrived. -/
theorem setSlot_extend (parent : Option NodeId) (done : List Slot) (old new : Slot)
    (rest : List Slot) (ns : List Node) :
    (t.extend (⟨kind, parent, done ++ old :: rest⟩ :: ns)).setSlot t.size done.length new =
      t.extend (⟨kind, parent, done ++ new :: rest⟩ :: ns) := by
  rw [setSlot, update_extend]
  simp

variable {alloc : Tree σ → KindId → Option (Tree σ)} {block : NodeId → KindId → List Node}

/-- A field that starts with a node has it allocated behind the nodes that are there by then. -/
theorem startField_of_newNode {f : Field} {name : String}
    (hinit : f.decl.initial = some (.newNode name)) {next : KindId}
    (hk : f.initialKind = some next) (hadds : t.Adds alloc t.size block next)
    (done rest : List Slot) (old : Slot) (below : List Node) :
    startField alloc t.size (t.extend (⟨kind, none, done ++ old :: rest⟩ :: below))
        (f, done.length) =
      some (t.extend (⟨kind, none, done ++ .child (some (t.size + 1 + below.length)) :: rest⟩ ::
        (below ++ block (t.size + 1 + below.length) next))) := by
  have hsize : (t.extend (⟨kind, none, done ++ old :: rest⟩ :: below)).size =
      t.size + 1 + below.length := by
    rw [size_extend, List.length_cons, Nat.add_assoc, Nat.add_comm 1]
  have hadded := hadds (t.extend (⟨kind, none, done ++ old :: rest⟩ :: below)) ⟨_, rfl⟩
  rw [hsize, extend_extend, List.cons_append] at hadded
  simp only [startField, hinit, hk, hadded, hsize]
  exact congrArg some (setSlot_extend ..)

/-- While the fields of a new node are gone through, those that are done have their initial values
and those to come are empty. The nodes below stand in the order of the fields. -/
theorem foldlM_startField {fs : List Field} (hfs : ∀ f ∈ fs, f.Resolved σ)
    (hadds : ∀ next ∈ fs.filterMap Field.initialKind, t.Adds alloc t.size block next)
    (done : List Slot) (below : List Node) :
    (fs.zipIdx done.length).foldlM (startField alloc t.size)
        (t.extend (⟨kind, none, done ++ fs.map fun f => .empty f.category⟩ :: below)) =
      let laid := layOut block (t.size + 1 + below.length) (fs.filterMap Field.initialKind)
      some (t.extend (⟨kind, none, done ++ initialSlots fs laid.1⟩ :: (below ++ laid.2))) := by
  induction fs generalizing done below with
  | nil => simp [initialSlots, layOut]
  | cons f fs ih =>
    obtain ⟨hf, hfs⟩ := List.forall_mem_cons.1 hfs
    rw [List.zipIdx_cons, List.foldlM_cons, List.map_cons]
    cases hk : f.initialKind with
    | some next =>
      obtain ⟨name, -, -, hinit, -⟩ := hf.initialKind next hk
      rw [List.filterMap_cons_some hk] at hadds ⊢
      obtain ⟨hnext, hadds⟩ := List.forall_mem_cons.1 hadds
      rw [startField_of_newNode hinit hk hnext]
      have hrest := ih hfs hadds (done ++ [.child (some (t.size + 1 + below.length))])
        (below ++ block (t.size + 1 + below.length) next)
      simpa [initialSlots, layOut, hk, Nat.add_assoc] using hrest
    | none =>
      rw [List.filterMap_cons_none hk] at hadds ⊢
      cases hinit : f.decl.initial with
      | none =>
        have hstart : ∀ u : Tree σ, startField alloc t.size u (f, done.length) = some u := by
          simp only [startField, hinit, implies_true]
        have hrest := ih hfs hadds (done ++ [.empty f.category]) below
        rw [hstart]
        simpa [initialSlots, hk, hinit] using hrest
      | some i =>
        cases i with
        | data v =>
          have hrest := ih hfs hadds (done ++ [.data (some v)]) below
          simp only [startField, hinit, setSlot_extend]
          simpa [initialSlots, hk, hinit] using hrest
        | newNode name => exact absurd hinit (hf.ne_newNode hk name)

/-- An allocation node by node adds a block. The bound is not used up if it allows for all kinds
that are not on the path to the kind. -/
theorem allocStepwise_of_trail (hσ : σ.Resolved) {bound : Nat} {path : List KindId} {kind : KindId}
    (htrail : Trail σ path kind) (hb : σ.kinds.length ≤ bound + path.length) (t : Tree σ) :
    t.allocStepwise bound kind = some (t.extend (σ.freshBlock bound none t.size kind)) := by
  have hlt := htrail.length_lt hσ
  induction bound generalizing path kind t with
  | zero => omega
  | succ bound ih =>
    have hadds : ∀ next ∈ (σ.fields kind).filterMap Field.initialKind,
        t.Adds (allocStepwise bound) t.size (σ.freshBlock bound (some t.size)) next := by
      intro next hnext u _
      have hmore := htrail.cons hσ hnext
      have hlen : σ.kinds.length ≤ bound + (kind :: path).length := by
        rw [List.length_cons]
        omega
      rw [addUnder, ih hmore hlen u (hmore.length_lt hσ)]
      exact congrArg some (setParent_freshBlock bound next _)
    exact foldlM_startField (fun f hf => hσ.of_mem hf) hadds [] []

/-- Node by node, an allocation leaves what `Tree.alloc` leaves. -/
theorem allocStepwise_eq (hσ : σ.Resolved) {kind : KindId} (hkind : kind < σ.kinds.length)
    {bound : Nat} (hb : σ.kinds.length ≤ bound) (t : Tree σ) :
    t.allocStepwise bound kind = some (t.alloc kind) := by
  have htrail : Trail σ [] kind := .nil hkind
  rw [allocStepwise_of_trail hσ htrail hb, alloc_eq_extend,
    hσ.freshBlock_eq (fun _ _ => rfl) htrail (Nat.le_refl _) hb]

end Tree

/-! ## Copies -/

namespace Tree

section Copying

variable (copy : Tree σ → NodeId → Option (Tree σ)) (parent : NodeId)

/-- Copies nodes one after the other, and gives the numbers of their copies. -/
def copyAll (t : Tree σ) : List NodeId → Option (Tree σ × List NodeId)
  | [] => some (t, [])
  | c :: cs => do
    let u ← t.addUnder copy parent c
    let (v, ids) ← copyAll u cs
    return (v, t.size :: ids)

/-- Copies the nodes in slots, slot by slot, and gives the slots with the copies in them. -/
def copySlots (t : Tree σ) : List Slot → Option (Tree σ × List Slot)
  | [] => some (t, [])
  | .child (some c) :: ss => do
    let u ← t.addUnder copy parent c
    let (v, slots) ← copySlots u ss
    return (v, .child (some t.size) :: slots)
  | .children cs :: ss => do
    let (u, ids) ← t.copyAll copy parent cs
    let (v, slots) ← copySlots u ss
    return (v, .children ids :: slots)
  | s :: ss => do
    let (v, slots) ← copySlots t ss
    return (v, s :: slots)

end Copying

/-- Copies a node without its slots, then what is in the slots, and writes the slots at the end.
There is no outcome once the bound is used up. -/
def copyStepwise : Nat → Tree σ → NodeId → Option (Tree σ)
  | 0, _, _ => none
  | bound + 1, t, id => do
    let n ← t.node? id
    let (u, slots) ←
      (t.extend [⟨n.kind, none, []⟩]).copySlots (copyStepwise bound) t.size n.slots
    return u.update t.size fun m => { m with slots := slots }

variable {t : Tree σ}

theorem setParent_copyBlock {id : NodeId} (hid : id < t.size) (u : Tree σ) (bound : Nat)
    (parent : Option NodeId) :
    (u.extend (t.copyBlock bound none u.size id)).setParent u.size parent =
      u.extend (t.copyBlock bound parent u.size id) := by
  obtain ⟨n, hn⟩ := exists_node? hid
  cases bound with
  | zero =>
    simp only [copyBlock, hn]
    exact update_extend _ _ _
  | succ bound =>
    simp only [copyBlock, hn]
    exact update_extend _ _ _

section Copies

variable {copy : Tree σ → NodeId → Option (Tree σ)} {parent : NodeId}
  {block : NodeId → NodeId → List Node} {u : Tree σ}

theorem copyAll_eq {cs : List NodeId} (hcopies : ∀ c ∈ cs, t.Adds copy parent block c)
    (hu : t.GrownTo u) :
    u.copyAll copy parent cs =
      some (u.extend (layOut block u.size cs).2, (layOut block u.size cs).1) := by
  induction cs generalizing u with
  | nil => simp [copyAll, layOut, extend]
  | cons c cs ih =>
    obtain ⟨hc, hcs⟩ := List.forall_mem_cons.1 hcopies
    simp [copyAll, layOut, hc u hu, ih hcs (hu.extend _), size_extend, extend_extend]

/-- The slots of a node are copied one after the other, and so the copies stand in the order of its
children. -/
theorem copySlots_eq {ss : List Slot}
    (hcopies : ∀ c ∈ ss.flatMap Slot.nodes, t.Adds copy parent block c) (hu : t.GrownTo u) :
    u.copySlots copy parent ss =
      some (u.extend (layOut block u.size (ss.flatMap Slot.nodes)).2,
        refill ss (layOut block u.size (ss.flatMap Slot.nodes)).1) := by
  induction ss generalizing u with
  | nil => simp [copySlots, layOut, extend, refill]
  | cons s ss ih =>
    rw [List.flatMap_cons] at hcopies ⊢
    obtain ⟨hs, hss⟩ := List.forall_mem_append.1 hcopies
    cases s with
    | child held =>
      cases held with
      | none => simp [copySlots, refill, Slot.nodes, ih hss hu]
      | some c =>
        have hc := hs c (List.mem_singleton.2 rfl) u hu
        simp [copySlots, refill, Slot.nodes, layOut, hc, ih hss (hu.extend _), size_extend,
          extend_extend]
    | children cs =>
      have hcs : ∀ c ∈ cs, t.Adds copy parent block c := hs
      have hlength := length_layOut block u.size cs
      simp [copySlots, refill, Slot.nodes, layOut_append, copyAll_eq hcs hu, ih hss (hu.extend _),
        size_extend, extend_extend, ← hlength]
    | data held => simp [copySlots, refill, Slot.nodes, ih hss hu]
    | values held => simp [copySlots, refill, Slot.nodes, ih hss hu]

/-- A copy node by node adds a block, whatever the tree has grown to. The bound is not used up if it
makes up for the ancestors that the node lacks. -/
theorem copyStepwise_of_grown (hf : t.Forest) {id : NodeId} (hid : id < t.size) {bound : Nat}
    (hb : t.size ≤ bound + (t.ancestors id).length) (hu : t.GrownTo u) :
    u.copyStepwise bound id = some (u.extend (t.copyBlock bound none u.size id)) := by
  have hdepth := hf.length_ancestors_lt hid
  induction bound generalizing id u with
  | zero => omega
  | succ bound ih =>
    obtain ⟨n, hn⟩ := exists_node? hid
    have hcopies : ∀ c ∈ n.slots.flatMap Slot.nodes, t.Adds (copyStepwise bound) u.size
        (t.copyBlock bound (some u.size)) c := by
      intro c hc v hv
      have hchild : c ∈ t.childNodes id := childNodes_of_node? hn ▸ hc
      have hlt := hf.lt_size hchild
      have hlength := hf.length_ancestors_child ((hf.owned id c).1 hchild)
      have hcopy := ih hlt (by omega) hv (hf.length_ancestors_lt hlt)
      rw [addUnder, hcopy]
      exact congrArg some (setParent_copyBlock hlt v bound _)
    have hslots := copySlots_eq hcopies (hu.extend [⟨n.kind, none, []⟩])
    rw [size_extend, List.length_singleton, extend_extend, List.singleton_append] at hslots
    simp only [copyStepwise, hu.node?_eq hid, hn, copyBlock, Option.bind_eq_bind, Option.bind_some,
      hslots]
    exact congrArg some (update_extend _ _ _)

/-- Node by node, a copy leaves what `Tree.deepCopy` leaves. -/
theorem copyStepwise_eq (hf : t.Forest) {id : NodeId} (hid : id < t.size) {bound : Nat}
    (hb : t.size ≤ bound) : t.copyStepwise bound id = some (t.deepCopy id) := by
  have hself : t.GrownTo t := ⟨[], by simp [Tree.extend]⟩
  rw [copyStepwise_of_grown hf hid (Nat.le_add_right_of_le hb) hself, deepCopy_eq_extend,
    hf.copyBlock_eq hid (Nat.le_add_right_of_le hb) (Nat.le_add_right _ _)]

end Copies

end Tree

/-- Over a generated schema, to allocate a node and to copy a node of a reachable tree comes to the
same whether the new nodes are added in one write or one by one, and the bounds on the recursion are
never used up. -/
theorem blocks_stepwise {ts : List Template} {s : Schema} (hs : Schema.generate ts = .ok s)
    {t : Tree s.signature} (ht : t.Reachable) :
    (∀ kind < s.signature.kinds.length, ∀ bound, s.signature.kinds.length ≤ bound →
      t.allocStepwise bound kind = some (t.alloc kind)) ∧
    ∀ id < t.size, ∀ bound, t.size ≤ bound →
      t.copyStepwise bound id = some (t.deepCopy id) := by
  have hσ := resolved_of_generate hs
  exact ⟨fun kind hkind bound hb => Tree.allocStepwise_eq hσ hkind hb t,
    fun id hid bound hb => Tree.copyStepwise_eq (ht.forest hσ) hid hb⟩

end Arbor
