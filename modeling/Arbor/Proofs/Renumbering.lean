import Arbor.Proofs.Copy

/-!
# Copies as renumberings

A copied subtree stands behind the tree as a block without gaps, in the order of a walk. So the
number of a copied node is known from its position in the walk of the original, and the copy is the
original with other numbers: the same kinds and the same values, and children and parents replaced
by their copies. Nodes that a renumbering relates have the same shape.
-/

namespace Arbor

open Relation

/-! ## Groves are walked in order -/

/-- What comes of the roots of a grove are its numbers, one after the other. -/
theorem Grove.preorder {σ : Signature} {t : Tree σ} {parent : Option NodeId} {base : Nat}
    {roots : List NodeId} {ns : List Node} (h : Grove parent base roots ns)
    (hs : t.Stands base ns) : t.Preorder roots (List.range' base ns.length) := by
  induction h with
  | nil => exact .nil
  | @cons _ base n roots below rest hn hbelow hrest ihb ihr =>
    obtain ⟨hsb, hsr⟩ := hs.tail.append
    have hnumbers : List.range' base (n :: (below ++ rest)).length =
        base :: (List.range' (base + 1) below.length ++
          List.range' (base + 1 + below.length) rest.length) := by
      rw [List.length_cons, List.range'_succ, List.length_append, List.range'_append_1]
    rw [hnumbers]
    refine .cons ?_ (ihr hsr)
    rw [Tree.childNodes_of_node? hs.head]
    exact ihb hsb

/-! ## Renumbered slots -/

/-- The slot with other numbers for the nodes in it. -/
def Slot.renumber (f : NodeId → NodeId) : Slot → Slot
  | child held => child (held.map f)
  | children held => children (held.map f)
  | data held => data held
  | values held => values held

theorem Slot.Match.eq_renumber {R : NodeId → NodeId → Prop} {f : NodeId → NodeId} {s s' : Slot}
    (h : Slot.Match R s s') (hR : ∀ a b, R a b → f a = b) : s' = s.renumber f := by
  cases h with
  | child held =>
    cases held with
    | some hab => rw [renumber, Option.map_some, hR _ _ hab]
    | none => rfl
  | children held =>
    have heq := List.forall₂_map_left_iff.2 (held.imp hR)
    rw [List.forall₂_eq_eq_eq] at heq
    rw [renumber, heq]
  | data held => rfl
  | values held => rfl

theorem eq_map_renumber {R : NodeId → NodeId → Prop} {f : NodeId → NodeId} {ss ss' : List Slot}
    (h : List.Forall₂ (Slot.Match R) ss ss') (hR : ∀ a b, R a b → f a = b) :
    ss' = ss.map (Slot.renumber f) := by
  have heq := List.forall₂_map_left_iff.2 (h.imp fun _ _ hs => (hs.eq_renumber hR).symm)
  rw [List.forall₂_eq_eq_eq] at heq
  exact heq.symm

theorem Slot.Match.agree {R : NodeId → NodeId → Prop} {same : NodeId → NodeId → Bool}
    {s s' : Slot} (h : Slot.Match R s s') (hsame : ∀ a b, R a b → same a b = true) :
    s.agree same s' = true := by
  cases h with
  | child held =>
    cases held with
    | some hab => exact hsame _ _ hab
    | none => rfl
  | children held =>
    obtain ⟨hlen, hzip⟩ := List.forall₂_iff_zip.1 held
    simp only [Slot.agree, hlen, beq_self_eq_true, Bool.true_and, List.all_eq_true]
    exact fun x hx => hsame _ _ (hzip hx)
  | data held => rfl
  | values held => rfl

namespace Tree

variable {σ : Signature} {t : Tree σ}

/-! ## Shapes -/

/-- Nodes in a bisimulation have the same shape. -/
theorem Bisim.sameShape {R : NodeId → NodeId → Prop} (h : Bisim R t t) (hf : t.Forest)
    {a b : NodeId} (hab : R a b) {bound : Nat} (hb : t.size ≤ bound + (t.ancestors a).length) :
    t.sameShape bound a b = true := by
  induction bound generalizing a b with
  | zero =>
    have hdepth := hf.length_ancestors_lt (h a b hab).lt_size.1
    omega
  | succ bound ih =>
    obtain ⟨n, n', -, hn, hn', -, hkind, hslots⟩ := h.deeper hf hab
    obtain ⟨-, hzip⟩ := List.forall₂_iff_zip.1 hslots
    simp only [Tree.sameShape, hn, hn', hkind, beq_self_eq_true, Bool.true_and, List.all_eq_true]
    refine fun x hx => (hzip hx).agree fun c d ⟨hcd, hlt⟩ => ih hcd ?_
    omega

/-! ## Bounds -/

/-- The bound of a copy is never in the way: children have one more ancestor than their parent. -/
theorem Forest.copyBlock_eq (h : t.Forest) {a : NodeId} (ha : a < t.size) {bound bound' : Nat}
    (hb : t.size ≤ bound + (t.ancestors a).length)
    (hb' : t.size ≤ bound' + (t.ancestors a).length) (parent : Option NodeId) (base : NodeId) :
    t.copyBlock bound parent base a = t.copyBlock bound' parent base a := by
  induction bound generalizing a bound' parent base with
  | zero =>
    have hdepth := h.length_ancestors_lt ha
    omega
  | succ bound ih =>
    cases bound' with
    | zero =>
      have hdepth := h.length_ancestors_lt ha
      omega
    | succ bound' =>
      obtain ⟨n, hn⟩ := exists_node? ha
      have hbelow : ∀ c ∈ n.children, ∀ start, t.copyBlock bound (some base) start c =
          t.copyBlock bound' (some base) start c := by
        intro c hc start
        have hchild : t.ChildOf c a := (h.owned a c).1 (childNodes_of_node? hn ▸ hc)
        have hdepth := h.length_ancestors_child hchild
        exact ih (lt_size_of_parent? hchild) (by omega) (by omega) (some base) start
      simp only [copyBlock, hn, layOut_congr hbelow]

/-! ## The copied nodes -/

/-- The number that the copy of the node `a` gets when the subtree of `id` is copied. -/
def copyNumber (t : Tree σ) (id a : NodeId) : NodeId :=
  t.size + (t.walk id).idxOf a

theorem mem_zip_range' {l : List NodeId} {base a b : NodeId} :
    (a, b) ∈ l.zip (List.range' base l.length) ↔ ∃ j, l[j]? = some a ∧ b = base + j := by
  simp only [List.mem_iff_getElem?, List.getElem?_zip_eq_some]
  refine exists_congr fun j => and_congr_right fun hj => ?_
  rw [List.getElem?_range' (List.getElem?_eq_some_iff.1 hj).1, Option.some.injEq, Nat.one_mul]
  exact eq_comm

section Copies

variable (hconf : t.Conforms) (hf : t.Forest) {id : NodeId} (hid : id < t.size)
include hf hid

theorem copyNumber_eq {j : Nat} {a : NodeId} (hj : (t.walk id)[j]? = some a) :
    t.copyNumber id a = t.size + j := by
  obtain ⟨hlt, rfl⟩ := List.getElem?_eq_some_iff.1 hj
  rw [copyNumber, (hf.nodup_walk hid).idxOf_getElem]

theorem copyNumber_self : t.copyNumber id id = t.size :=
  copyNumber_eq hf hid (by rw [hf.walk_eq hid, List.getElem?_cons_zero])

theorem mem_walk_of_mem_childNodes {a c : NodeId} (ha : a ∈ t.walk id)
    (hc : c ∈ t.childNodes a) : c ∈ t.walk id :=
  (hf.mem_walk hid).2 (.head ((hf.owned a c).1 hc) ((hf.mem_walk hid).1 ha))

/-- All nodes of a walk but the first have their parent in it. -/
theorem exists_parent_of_mem_walk {a : NodeId} (ha : a ∈ t.walk id) (hne : a ≠ id) :
    ∃ p ∈ t.walk id, t.parent? a = some p := by
  rcases ReflTransGen.cases_head ((hf.mem_walk hid).1 ha) with rfl | ⟨p, hp, hleads⟩
  · exact absurd rfl hne
  · exact ⟨p, (hf.mem_walk hid).2 hleads, hp⟩

include hconf

/-- The copy is walked in the order of its numbers, and it is as long as the walk it copies. -/
theorem walk_deepCopy : (t.deepCopy id).walk t.size = List.range' t.size (t.walk id).length ∧
    (t.deepCopy id).size = t.size + (t.walk id).length := by
  have hgrove := grove_copyBlock (t := t) (fun p c hc => hf.lt_size hc) t.size none t.size hid
  have hf' := hf.deepCopy id
  have hbisim : Bisim (CopiedTo t (t.deepCopy id)) t (t.deepCopy id) := bisim_copiedTo hconf hf
  have hcopied := copiedTo_deepCopy hid
  have hwalk : (t.deepCopy id).walk t.size =
      List.range' t.size (t.copyBlock t.size none t.size id).length :=
    (hf'.preorder_walk (hbisim _ _ hcopied).lt_size.2).unique (hgrove.preorder (stands_extend _))
  have hlength := (hbisim.walk hf hf' hcopied).1.length_eq
  rw [hwalk, List.length_range'] at hlength
  rw [hwalk, hlength]
  exact ⟨rfl, size_extend _⟩

/-- To be copied to a number is a bisimulation. -/
theorem bisim_copyNumber :
    Bisim (fun a b => a ∈ t.walk id ∧ t.copyNumber id a = b) t (t.deepCopy id) := by
  have hzip := ((bisim_copiedTo hconf hf).walk hf (hf.deepCopy id) (copiedTo_deepCopy hid)).2
  rw [(walk_deepCopy hconf hf hid).1] at hzip
  have hiff : ∀ a b, (a, b) ∈ (t.walk id).zip (List.range' t.size (t.walk id).length) ↔
      a ∈ t.walk id ∧ t.copyNumber id a = b := by
    intro a b
    rw [mem_zip_range']
    constructor
    · rintro ⟨j, hj, rfl⟩
      exact ⟨List.mem_of_getElem? hj, copyNumber_eq hf hid hj⟩
    · rintro ⟨ha, rfl⟩
      obtain ⟨j, hj⟩ := List.mem_iff_getElem?.1 ha
      exact ⟨j, hj, copyNumber_eq hf hid hj⟩
  simpa only [hiff] using hzip

/-- The copy of a node has the copy of its parent as parent, but the copy of the first node has
none. -/
theorem parent?_copyNumber {a : NodeId} (ha : a ∈ t.walk id) :
    (t.deepCopy id).parent? (t.copyNumber id a) =
      if a = id then none else (t.parent? a).map (t.copyNumber id) := by
  by_cases hroot : a = id
  · subst hroot
    have hgrove := grove_copyBlock (t := t) (fun p c hc => hf.lt_size hc) t.size none t.size hid
    rw [copyNumber_self hf hid, if_pos rfl]
    exact hgrove.parent?_root (stands_extend _) (List.mem_singleton.2 rfl)
  · obtain ⟨p, hp, hparent⟩ := exists_parent_of_mem_walk hf hid ha hroot
    rw [if_neg hroot, hparent, Option.map_some]
    have hchildren := (bisim_copyNumber hconf hf hid p _ ⟨hp, rfl⟩).childNodes
    have hmem := (hf.owned p a).2 hparent
    obtain ⟨j, hj⟩ := List.mem_iff_getElem?.1 hmem
    have hrel := forall₂_getElem?_rel hchildren j
    rw [hj] at hrel
    generalize hcopy : ((t.deepCopy id).childNodes (t.copyNumber id p))[j]? = copy at hrel
    cases hrel with
    | some hab =>
      rw [hab.2]
      exact ((hf.deepCopy id).owned _ _).1 (List.mem_of_getElem? hcopy)

/-- A copied node is the original with other numbers. -/
theorem node?_copyNumber {a : NodeId} (ha : a ∈ t.walk id) {n : Node} (hn : t.node? a = some n) :
    (t.deepCopy id).node? (t.copyNumber id a) = some
      { kind := n.kind
        parent := if a = id then none else n.parent.map (t.copyNumber id)
        slots := n.slots.map (Slot.renumber (t.copyNumber id)) } := by
  obtain ⟨m, n', -, hm, hn', -, hkind, hslots⟩ := bisim_copyNumber hconf hf hid a _ ⟨ha, rfl⟩
  obtain rfl : n = m := Option.some.inj (hn.symm.trans hm)
  have hparent := parent?_copyNumber hconf hf hid ha
  rw [parent?_of_node? hn', parent?_of_node? hn] at hparent
  have hslots := eq_map_renumber hslots fun c d hcd => hcd.2
  rw [hn', ← hkind, ← hparent, ← hslots]

theorem structurallyEqual_deepCopy : (t.deepCopy id).structurallyEqual id t.size = true := by
  have hbisim : Bisim (fun a b => a ∈ t.walk id ∧ t.copyNumber id a = b) (t.deepCopy id)
      (t.deepCopy id) := by
    intro a b hab
    obtain ⟨n, n', k, hn, hrest⟩ := bisim_copyNumber hconf hf hid a b hab
    exact ⟨n, n', k, (node?_extend_of_lt _ (lt_size_of_node? hn)).trans hn, hrest⟩
  have hfirst : id ∈ t.walk id := (hf.mem_walk hid).2 .refl
  exact hbisim.sameShape (hf.deepCopy id) ⟨hfirst, copyNumber_self hf hid⟩ (Nat.le_add_right _ _)

end Copies

end Tree

/-- Copying a node of a reachable tree adds a block of as many nodes as the walk of the node has,
and its bound is never in the way. The old nodes stay as they are, and the walk of the copy visits
the new numbers in order. The copy at each position of the walk is the node at this position of the
original with other numbers, those of the copies at the positions of its children and its parent;
only the first node has no parent. So original and copy have the same shape. -/
theorem copy_renumbers {ts : List Template} {s : Schema} (hs : Schema.generate ts = .ok s)
    {t : Tree s.signature} (ht : t.Reachable) {id : NodeId} (hid : id < t.size) :
    (∀ bound, t.size ≤ bound →
      t.copyBlock bound none t.size id = t.copyBlock t.size none t.size id) ∧
    ∃ t', Edit.deepCopy id t = .ok t.size t' ∧ t'.size = t.size + (t.walk id).length ∧
      (∀ x < t.size, t'.node? x = t.node? x) ∧
      t'.walk t.size = List.range' t.size (t.walk id).length ∧
      (∀ (j : Nat) a, (t.walk id)[j]? = some a → t.copyNumber id a = t.size + j ∧
        ∃ n, t.node? a = some n ∧ (∀ c ∈ n.children, c ∈ t.walk id) ∧
          (a ≠ id → ∃ p ∈ t.walk id, n.parent = some p) ∧
          t'.node? (t.size + j) = some
            { kind := n.kind
              parent := if a = id then none else n.parent.map (t.copyNumber id)
              slots := n.slots.map (Slot.renumber (t.copyNumber id)) }) ∧
      t'.structurallyEqual id t.size = true := by
  have hσ := resolved_of_generate hs
  have hconf := ht.conforms hσ
  have hf := ht.forest hσ
  obtain ⟨hwalk, hsize⟩ := Tree.walk_deepCopy hconf hf hid
  refine ⟨fun bound hb => hf.copyBlock_eq hid (by omega) (by omega) none t.size, t.deepCopy id, rfl,
    hsize, fun x hx => Tree.node?_extend_of_lt _ hx, hwalk, fun j a hj => ?_,
    Tree.structurallyEqual_deepCopy hconf hf hid⟩
  have hnumber := Tree.copyNumber_eq hf hid hj
  have ha := List.mem_of_getElem? hj
  obtain ⟨n, hn⟩ := Tree.exists_node? (Tree.Forest.lt_size_of_leads hid ((hf.mem_walk hid).1 ha))
  refine ⟨hnumber, n, hn, fun c hc => ?_, fun hne => ?_, ?_⟩
  · exact Tree.mem_walk_of_mem_childNodes hf hid ha (Tree.childNodes_of_node? hn ▸ hc)
  · rw [← Tree.parent?_of_node? hn]
    exact Tree.exists_parent_of_mem_walk hf hid ha hne
  · rw [← hnumber]
    exact Tree.node?_copyNumber hconf hf hid ha hn

/-- Section 2 is copied with its part 0 and with section 1 below that, but without section 3 above
it. -/
theorem copy_renumbers_sectionTree :
    Schema.generate sectionTemplates = .ok (Schema.ofTemplates sectionTemplates) ∧
      sectionTree.Reachable ∧ sectionTree.walk 2 = [2, 0, 1] ∧ sectionTree.parent? 2 = some 3 ∧
      ∃ t', Edit.deepCopy 2 sectionTree = .ok 5 t' ∧ t'.size = 8 ∧ t'.walk 5 = [5, 6, 7] ∧
        t'.node? 5 = some ⟨0, none, [.child none, .children [6]]⟩ ∧
        t'.node? 6 = some ⟨0, some 5, [.child (some 7), .children []]⟩ ∧
        t'.structurallyEqual 2 5 = true := by
  have hwalk : sectionTree.walk 2 = [2, 0, 1] := by decide +kernel
  have hid : 2 < sectionTree.size := by decide +kernel
  obtain ⟨-, t', hcopy, hsize, -, hwalk', hnodes, hshape⟩ :=
    copy_renumbers generate_sectionTemplates reachable_sectionTree hid
  obtain ⟨-, n, hn, -, -, hroot⟩ := hnodes 0 2 (by rw [hwalk]; rfl)
  obtain ⟨-, m, hm, -, -, hpart⟩ := hnodes 1 0 (by rw [hwalk]; rfl)
  have htwo : sectionTree.node? 2 = some ⟨0, some 3, [.child none, .children [0]]⟩ := by rfl
  have hzero : sectionTree.node? 0 = some ⟨0, some 2, [.child (some 1), .children []]⟩ := by rfl
  obtain rfl := Option.some.inj (htwo.symm.trans hn)
  obtain rfl := Option.some.inj (hzero.symm.trans hm)
  rw [hwalk] at hsize hwalk'
  exact ⟨generate_sectionTemplates, reachable_sectionTree, hwalk, by decide +kernel, t', hcopy,
    hsize, hwalk', hroot, hpart, hshape⟩

end Arbor
