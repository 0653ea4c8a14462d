import Mathlib.Algebra.GroupWithZero.Nat
import Arbor.Proofs.Fresh
import Arbor.Proofs.Renumbering

/-!
# Allocation

A new node is allocated together with the nodes it starts with, those they start with, and so on.
Kinds do not lead back to themselves, so this comes to an end: the bound of a block is longer than
any path through initial nodes, and no larger bound gives another block. How many nodes a kind comes
with is then a number that adds up over its initial nodes, and the new nodes are numbered in the
order of a walk.
-/

namespace Arbor

open Relation

/-! ## The size of a block -/

namespace Signature

variable (σ : Signature)

/-- How many nodes a new node of a kind comes with, itself included, `bound` levels of them at
most. -/
def freshCountTo : Nat → KindId → Nat
  | 0, _ => 1
  | bound + 1, kind => 1 + ((σ.initialKinds kind).map (freshCountTo bound)).sum

/-- How many nodes a new node of a kind comes with, itself included. -/
def freshCount (kind : KindId) : Nat :=
  σ.freshCountTo σ.kinds.length kind

end Signature

theorem length_layOut_nodes {α : Type} {block : NodeId → α → List Node} {count : α → Nat}
    (h : ∀ base a, (block base a).length = count a) (base : NodeId) (as : List α) :
    (layOut block base as).2.length = (as.map count).sum := by
  induction as generalizing base with
  | nil => rfl
  | cons a as ih => simp [layOut, ih, h]

section Bounds

variable {σ : Signature}

theorem length_freshBlock (bound : Nat) (parent : Option NodeId) (base : NodeId) (kind : KindId) :
    (σ.freshBlock bound parent base kind).length = σ.freshCountTo bound kind := by
  induction bound generalizing parent base kind with
  | zero => rfl
  | succ bound ih =>
    rw [Signature.freshBlock, List.length_cons, length_layOut_nodes fun base kind => ih _ base kind,
      Nat.add_comm]
    rfl

theorem Signature.Resolved.freshCountTo_eq (hσ : σ.Resolved) {bound bound' : Nat}
    {path : List KindId} {kind : KindId} (htrail : Trail σ path kind)
    (hb : σ.kinds.length ≤ bound + path.length) (hb' : σ.kinds.length ≤ bound' + path.length) :
    σ.freshCountTo bound kind = σ.freshCountTo bound' kind := by
  rw [← length_freshBlock bound none 0, ← length_freshBlock bound' none 0,
    hσ.freshBlock_eq (fun _ _ => rfl) htrail hb' hb]

/-- What a kind comes with adds up over its initial nodes. -/
theorem Signature.Resolved.freshCount_eq (hσ : σ.Resolved) {kind : KindId}
    (hkind : kind < σ.kinds.length) :
    σ.freshCount kind = 1 + ((σ.initialKinds kind).map σ.freshCount).sum := by
  have htrail : Trail σ [] kind := .nil hkind
  have hmore : σ.freshCount kind = σ.freshCountTo (σ.kinds.length + 1) kind :=
    hσ.freshCountTo_eq htrail (by simp) (by simp)
  rw [hmore]
  rfl

end Bounds

/-! ## Where blocks stand -/

/-- The slot of a field of the new node `x` holds what the field declares for new nodes. -/
def Field.StartsAs {σ : Signature} (f : Field) (t : Tree σ) (x : NodeId) (s : Slot) : Prop :=
  match f.decl.initial with
  | some (.newNode name) => ∃ c k, s = .child (some c) ∧ x < c ∧ t.parent? c = some x ∧
      t.kind c = .ok k ∧ k.name = name
  | some (.data v) => s = .data (some v)
  | none => s = .empty f.category

section Standing

variable {σ : Signature} {t : Tree σ}

/-- What a new slot holds, with the name of the kind that an initial node was declared by. -/
theorem Field.StartsWith.startsAs {f : Field} (hf : f.Resolved σ) {x : NodeId} {s : Slot}
    (h : f.StartsWith (fun kind c => t.IsKind kind c ∧ x < c ∧ t.parent? c = some x) s) :
    f.StartsAs t x s := by
  unfold StartsWith at h
  unfold StartsAs
  cases hk : f.initialKind with
  | some kind =>
    obtain ⟨name, -, k, hinit, -, hkind, hname, -⟩ := hf.initialKind kind hk
    rw [hk] at h
    obtain ⟨c, rfl, ⟨n, hn, rfl⟩, hlt, hparent⟩ := h
    rw [hinit]
    exact ⟨c, k, rfl, hlt, hparent, Tree.kind_eq_ok.2 ⟨n, hn, hkind⟩, hname⟩
  | none =>
    rw [hk] at h
    cases hi : f.decl.initial with
    | none => rwa [hi] at h
    | some i =>
      cases i with
      | data v => rwa [hi] at h
      | newNode name => exact absurd hi (hf.ne_newNode hk name)

namespace Tree

/-- A new node of the kind stands at `x`, with all that it starts with. -/
def StandsFresh (t : Tree σ) (kind : KindId) (x : NodeId) : Prop :=
  ∃ bound parent path, Trail σ path kind ∧ σ.kinds.length ≤ bound + path.length ∧
    t.Stands x (σ.freshBlock bound parent x kind)

theorem StandsFresh.isKind {kind : KindId} {x : NodeId} (h : t.StandsFresh kind x) :
    t.IsKind kind x := by
  obtain ⟨bound, parent, path, -, -, hstands⟩ := h
  exact isKind_freshBlock hstands

/-- A new node holds nothing but its initial values, and new nodes stand at its children. -/
theorem StandsFresh.exists_slots (hσ : σ.Resolved) {kind : KindId} {x : NodeId}
    (h : t.StandsFresh kind x) : ∃ n, t.node? x = some n ∧ n.kind = kind ∧
      n.slots = initialSlots (σ.fields kind) (t.childNodes x) ∧
      List.Forall₂ (fun c j => t.StandsFresh j c) (t.childNodes x) (σ.initialKinds kind) := by
  obtain ⟨bound, parent, path, htrail, hbound, hstands⟩ := h
  have hlt := htrail.length_lt hσ
  obtain ⟨bound, rfl⟩ : ∃ m, bound = m + 1 := ⟨bound - 1, by omega⟩
  have hnode := hstands.head
  have hchildren := childNodes_of_node? hnode
  have hlength := length_layOut (σ.freshBlock bound (some x)) (x + 1) (σ.initialKinds kind)
  rw [Node.children, nodes_initialSlots, ← Signature.initialKinds, ← hlength,
    List.take_length] at hchildren
  refine ⟨_, hnode, rfl, by rw [hchildren]; rfl, ?_⟩
  obtain ⟨hlen, hblocks⟩ := List.forall₂_iff_zip.1 (stands_layOut hstands.tail).1
  rw [hchildren]
  refine List.forall₂_iff_zip.2 ⟨hlen, fun {c j} hcj => ?_⟩
  refine ⟨bound, some x, kind :: path, htrail.cons hσ (List.of_mem_zip hcj).2, ?_, hblocks hcj⟩
  rw [List.length_cons]
  omega

/-- What holds at the start of a work list and goes down to children holds of all that comes of
it. -/
theorem Preorder.forall_mem {P : NodeId → Prop} {ids out : List NodeId} (h : t.Preorder ids out)
    (hids : ∀ x ∈ ids, P x) (hdown : ∀ x, P x → ∀ c ∈ t.childNodes x, P c) : ∀ x ∈ out, P x := by
  induction h with
  | nil => exact hids
  | @cons id rest below after _ _ ihb iha =>
    obtain ⟨hid, hrest⟩ := List.forall_mem_cons.1 hids
    refine List.forall_mem_cons.2 ⟨hid, fun x hx => ?_⟩
    rcases List.mem_append.1 hx with hx | hx
    · exact ihb (hdown id hid) x hx
    · exact iha hrest x hx

theorem KindsKept.size_le {t' : Tree σ} (h : t.KindsKept t') : t.size ≤ t'.size := by
  refine Nat.le_of_not_lt fun hlt => ?_
  obtain ⟨n, hn⟩ := exists_node? hlt
  obtain ⟨n', hn', -⟩ := h t'.size n hn
  exact Nat.lt_irrefl _ (lt_size_of_node? hn')

/-! ## The allocated nodes -/

theorem size_alloc (kind : KindId) : (t.alloc kind).size = t.size + σ.freshCount kind := by
  rw [alloc_eq_extend, size_extend, length_freshBlock, Signature.freshCount]

/-- The new nodes, in the order of their numbers, are what comes of the new root. -/
theorem preorder_alloc (kind : KindId) :
    (t.alloc kind).Preorder [t.size] (List.range' t.size (σ.freshCount kind)) := by
  have hgrove := grove_freshBlock σ σ.kinds.length none t.size kind
  have hpreorder := hgrove.preorder (stands_extend (t := t) _)
  rwa [length_freshBlock] at hpreorder

theorem walk_alloc (kind : KindId) :
    (t.alloc kind).walk t.size = List.range' t.size (σ.freshCount kind) := by
  refine (preorder_alloc kind).visit_eq ?_
  rw [List.length_range', size_alloc]
  exact Nat.le_add_left _ _

/-- Every new node is of some kind and stands there with all that it starts with. -/
theorem standsFresh_alloc (hσ : σ.Resolved) {kind : KindId} (hkind : kind < σ.kinds.length)
    {x : NodeId} (hx : t.size ≤ x) (hlt : x < (t.alloc kind).size) :
    ∃ j, (t.alloc kind).StandsFresh j x := by
  have hroot : (t.alloc kind).StandsFresh kind t.size :=
    ⟨_, none, [], .nil hkind, Nat.le_add_right _ _, stands_extend (t := t) _⟩
  refine (preorder_alloc kind).forall_mem (P := fun x => ∃ j, (t.alloc kind).StandsFresh j x)
    (by simpa using ⟨kind, hroot⟩) ?_ x ?_
  · rintro y ⟨j, hy⟩ c hc
    obtain ⟨n, -, -, -, hchildren⟩ := hy.exists_slots hσ
    obtain ⟨i, hi⟩ := List.mem_iff_getElem?.1 hc
    obtain ⟨next, -, hnext⟩ := forall₂_getElem? hchildren hi
    exact ⟨next, hnext⟩
  · rw [size_alloc] at hlt
    exact List.mem_range'_1.2 ⟨hx, hlt⟩

/-- Every new node holds its initial values and nothing else. -/
theorem startsAs_alloc (hσ : σ.Resolved) {kind : KindId} (hkind : kind < σ.kinds.length)
    {x : NodeId} (hx : t.size ≤ x) (hlt : x < (t.alloc kind).size) :
    ∃ n, (t.alloc kind).node? x = some n ∧
      List.Forall₂ (fun f s => f.StartsAs (t.alloc kind) x s) (σ.fields n.kind) n.slots := by
  obtain ⟨j, hstands⟩ := standsFresh_alloc hσ hkind hx hlt
  obtain ⟨n, hn, rfl, hslots, hchildren⟩ := hstands.exists_slots hσ
  have hids : List.Forall₂ (fun c next => (t.alloc kind).IsKind next c ∧ x < c ∧
      (t.alloc kind).parent? c = some x) ((t.alloc kind).childNodes x) (σ.initialKinds n.kind) := by
    obtain ⟨hlen, hzip⟩ := List.forall₂_iff_zip.1 hchildren
    refine List.forall₂_iff_zip.2 ⟨hlen, fun {c next} hcn => ⟨(hzip hcn).isKind, ?_⟩⟩
    have hgrove := grove_freshBlock σ σ.kinds.length none t.size kind
    rw [alloc_eq_extend, size_extend] at hlt
    obtain ⟨hbehind, -, hparent⟩ :=
      hgrove.parent?_of_mem_childNodes (stands_extend (t := t) _) hx hlt (List.of_mem_zip hcn).1
    exact ⟨hbehind, hparent⟩
  obtain ⟨hlen, hstarts⟩ := List.forall₂_iff_zip.1 (startsWith_initialSlots hids)
  rw [← hslots] at hlen hstarts
  refine ⟨n, hn, List.forall₂_iff_zip.2 ⟨hlen, fun {f s} hfs => ?_⟩⟩
  exact (hstarts hfs).startsAs (hσ.of_mem (List.of_mem_zip hfs).1)

end Tree

end Standing

/-- A kind of a generated schema comes with one node and what its initial nodes come with, and the
bound of its block is never in the way. To allocate it in any tree leaves the old nodes as they are
and adds that many nodes behind them, in the order of a walk from the new root. Each of them holds
what its kind declares for new nodes: a new node of its own, a value, or nothing. However the tree
is changed after that, a later allocation uses none of these nodes. -/
theorem alloc_adds_block {ts : List Template} {s : Schema} (hs : Schema.generate ts = .ok s)
    {kind : KindId} (hkind : kind < s.signature.kinds.length) :
    s.signature.freshCount kind =
      1 + ((s.signature.initialKinds kind).map s.signature.freshCount).sum ∧
    ∀ t : Tree s.signature,
      (∀ bound, s.signature.kinds.length ≤ bound →
        s.signature.freshBlock bound none t.size kind =
          s.signature.freshBlock s.signature.kinds.length none t.size kind) ∧
      ∃ t', Edit.alloc kind t = .ok t.size t' ∧
        t'.size = t.size + s.signature.freshCount kind ∧
        (∀ x < t.size, t'.node? x = t.node? x) ∧
        t'.kindId t.size = .ok kind ∧ t'.parent? t.size = none ∧
        t'.walk t.size = List.range' t.size (s.signature.freshCount kind) ∧
        (∀ x, t.size ≤ x → x < t'.size → ∃ n, t'.node? x = some n ∧
          List.Forall₂ (fun f slot => f.StartsAs t' x slot) (s.signature.fields n.kind) n.slots) ∧
        ∀ (ms : List Mutation) (u : Tree s.signature), (t'.applyAll ms).1 = u →
          ∀ other < s.signature.kinds.length, ∃ u', Edit.alloc other u = .ok u.size u' ∧
            ∀ x ∈ t'.walk t.size, x ∉ u'.walk u.size := by
  have hσ := resolved_of_generate hs
  refine ⟨hσ.freshCount_eq hkind, fun t => ⟨fun bound hbound => ?_, t.alloc kind, rfl,
    Tree.size_alloc kind, fun x hx => Tree.node?_extend_of_lt _ hx, ?_, ?_, Tree.walk_alloc kind,
    fun x hx hlt => Tree.startsAs_alloc hσ hkind hx hlt, ?_⟩⟩
  · exact hσ.freshBlock_eq (fun _ _ => rfl) (.nil hkind) (Nat.le_add_right _ _)
      (Nat.le_add_right_of_le hbound) _ _
  · exact Tree.kindId_eq_ok.2 (isKind_freshBlock (Tree.stands_extend _))
  · have hgrove := grove_freshBlock s.signature s.signature.kinds.length none t.size kind
    exact hgrove.parent?_root (Tree.stands_extend _) (List.mem_singleton.2 rfl)
  · rintro ms _ rfl other -
    refine ⟨_, rfl, fun x hx hx' => ?_⟩
    have hgrown := (Tree.steps_applyAll ms).kindsKept.size_le (t := t.alloc kind)
    rw [Tree.walk_alloc, List.mem_range'_1] at hx hx'
    rw [Tree.size_alloc] at hgrown
    omega

/-- A frame starts with a pair and a leaf, and a pair with two leaves, which start with a mark. -/
def frameTemplates : List Template :=
  [{ name := "Leaf"
     fields := [(FieldDecl.data "mark" .int).startingWith (.data (.int 3)), .data "note" .text] },
   { name := "Pair"
     fields := [(FieldDecl.child "left" "Leaf").asRequired.startingWith (.newNode "Leaf"),
      (FieldDecl.child "right" "Leaf").startingWith (.newNode "Leaf")] },
   { name := "Frame"
     fields := [(FieldDecl.child "pair" "Pair").startingWith (.newNode "Pair"),
      .children "items" "Leaf",
      (FieldDecl.child "leaf" "Leaf").startingWith (.newNode "Leaf")] }]

theorem generate_frameTemplates :
    Schema.generate frameTemplates = .ok (Schema.ofTemplates frameTemplates) := by
  rfl

/-- A leaf, whose place is taken before anything else is built. -/
def leafTree : Tree (Schema.ofTemplates frameTemplates).signature :=
  (Tree.empty.applyAll [.build "Leaf" [.data "note" (.text "x")]]).1

/-- The frame 1 comes with the pair 2, its leaves 3 and 4, and the leaf 5. -/
theorem alloc_adds_block_leafTree :
    Schema.generate frameTemplates = .ok (Schema.ofTemplates frameTemplates) ∧
      2 < (Schema.ofTemplates frameTemplates).signature.kinds.length ∧
      ∃ t', Edit.alloc 2 leafTree = .ok 1 t' ∧ t'.size = 1 + 5 ∧ t'.walk 1 = [1, 2, 3, 4, 5] ∧
        t'.node? 0 = some ⟨0, none, [.data (some (.int 3)), .data (some (.text "x"))]⟩ ∧
        (∃ c k, t'.slot? 2 1 = some (.child (some c)) ∧ 2 < c ∧ t'.parent? c = some 2 ∧
          t'.kind c = .ok k ∧ k.name = "Leaf") ∧
        t'.slot? 1 1 = some (.children []) ∧
        ∀ u u', (t'.applyAll [.setChild 2 "right" none]).1 = u →
          Edit.alloc 1 u = .ok u.size u' → 4 ∉ u'.walk u.size := by
  have hkind : 2 < (Schema.ofTemplates frameTemplates).signature.kinds.length := by decide +kernel
  obtain ⟨-, halloc⟩ := alloc_adds_block generate_frameTemplates hkind
  have hcount : (Schema.ofTemplates frameTemplates).signature.freshCount 2 = 5 := by decide +kernel
  obtain ⟨-, t', hrun, hsize, hold, -, -, hwalk, hstarts, hlater⟩ := halloc leafTree
  rw [hcount] at hsize hwalk
  have hframe := hstarts 1 (by decide +kernel) (by rw [hsize]; decide +kernel)
  have hpair := hstarts 2 (by decide +kernel) (by rw [hsize]; decide +kernel)
  obtain rfl : leafTree.alloc 2 = t' := by
    cases hrun
    rfl
  refine ⟨generate_frameTemplates, hkind, _, hrun, hsize, hwalk, hold 0 (by decide +kernel), ?_, ?_,
    fun u u' hu hrun' => ?_⟩
  · obtain ⟨n, hn, hslots⟩ := hpair
    obtain rfl : n = ⟨1, some 1, [.child (some 3), .child (some 4)]⟩ :=
      Option.some.inj (hn.symm.trans rfl)
    obtain ⟨slot, hslot, c, k, rfl, hc⟩ := forall₂_getElem? hslots (i := 1) rfl
    exact ⟨c, k, (Tree.slot?_of_node? hn 1).trans hslot, hc⟩
  · obtain ⟨n, hn, hslots⟩ := hframe
    obtain rfl : n = ⟨2, none, [.child (some 2), .children [], .child (some 5)]⟩ :=
      Option.some.inj (hn.symm.trans rfl)
    obtain ⟨slot, hslot, rfl⟩ := forall₂_getElem? hslots (i := 1) rfl
    exact (Tree.slot?_of_node? hn 1).trans hslot
  · obtain ⟨u'', hrun'', hfree⟩ := hlater _ u hu 1 (by decide +kernel)
    cases hrun'.symm.trans hrun''
    exact hfree 4 (by rw [hwalk]; decide +kernel)

end Arbor
