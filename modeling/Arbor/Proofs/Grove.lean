import Mathlib.Data.List.Nodup
import Arbor.Proofs.Lookup
import Arbor.Tree.Block

/-!
# Groves

A grove is a list of nodes that stand in a tree one after the other from a number `base` on: a root,
the grove of its children, and then the grove of the roots that follow. The blocks of new nodes are
groves with one root. In a grove every child stands behind its parent, and parents and children tell
of each other.
-/

namespace Arbor

/-- `Grove parent base roots ns`: the nodes `ns` stand from `base` on, in pre-order, and their roots
have the numbers `roots` and the parent `parent`. -/
inductive Grove : Option NodeId → Nat → List NodeId → List Node → Prop where
  | nil {parent : Option NodeId} {base : Nat} : Grove parent base [] []
  | cons {parent : Option NodeId} {base : Nat} {n : Node} {roots : List NodeId}
      {below rest : List Node} : n.parent = parent →
      Grove (some base) (base + 1) n.children below →
      Grove parent (base + 1 + below.length) roots rest →
      Grove parent base (base :: roots) (n :: (below ++ rest))

namespace Grove

variable {parent : Option NodeId} {base : Nat} {roots : List NodeId} {ns rest : List Node}

/-! ## Building groves -/

theorem single {n : Node} {below : List Node} (hn : n.parent = parent)
    (h : Grove (some base) (base + 1) n.children below) :
    Grove parent base [base] (n :: below) := by
  simpa using Grove.cons hn h Grove.nil

theorem append (h : Grove parent base [base] ns)
    (hrest : Grove parent (base + ns.length) roots rest) :
    Grove parent base (base :: roots) (ns ++ rest) := by
  cases h with
  | @cons _ _ n _ below rest' hn hbelow hrest' =>
    cases hrest'
    have hlen : base + (n :: (below ++ [])).length = base + 1 + below.length := by simp; omega
    rw [hlen] at hrest
    simpa using Grove.cons hn hbelow hrest

theorem layOut {α : Type} {block : NodeId → α → List Node} {as : List α}
    (h : ∀ base, ∀ a ∈ as, Grove parent base [base] (block base a)) :
    Grove parent base (layOut block base as).1 (layOut block base as).2 := by
  induction as generalizing base with
  | nil => exact .nil
  | cons a as ih =>
    refine (h base a List.mem_cons_self).append ?_
    exact ih fun b x hx => h b x (List.mem_cons_of_mem _ hx)

/-! ## Numbers -/

theorem mem_roots (h : Grove parent base roots ns) {r : Nat} (hr : r ∈ roots) :
    base ≤ r ∧ r < base + ns.length := by
  induction h with
  | nil => simp at hr
  | cons _ _ _ _ ih =>
    simp only [List.length_cons, List.length_append]
    rcases List.mem_cons.1 hr with rfl | hr
    · omega
    · have := ih hr
      omega

theorem nodup_roots (h : Grove parent base roots ns) : roots.Nodup := by
  induction h with
  | nil => exact .nil
  | cons _ _ hrest _ ih =>
    refine List.nodup_cons.2 ⟨fun hb => ?_, ih⟩
    have := hrest.mem_roots hb
    omega

end Grove

/-! ## Groves in a tree -/

namespace Tree

variable {σ : Signature} {t : Tree σ}

/-- The nodes `ns` stand in the tree from `base` on. -/
def Stands (t : Tree σ) (base : Nat) (ns : List Node) : Prop :=
  ∀ j < ns.length, t.node? (base + j) = ns[j]?

theorem Stands.head {base : Nat} {n : Node} {ns : List Node} (h : t.Stands base (n :: ns)) :
    t.node? base = some n := by
  simpa using h 0 (by simp)

theorem Stands.append {base : Nat} {ns rest : List Node} (h : t.Stands base (ns ++ rest)) :
    t.Stands base ns ∧ t.Stands (base + ns.length) rest := by
  refine ⟨fun j hj => ?_, fun j hj => ?_⟩
  · have hnode := h j (List.length_append ▸ Nat.lt_add_right _ hj)
    rwa [List.getElem?_append_left hj] at hnode
  · have hnode := h (ns.length + j) (List.length_append ▸ Nat.add_lt_add_left hj _)
    rwa [List.getElem?_append_right (Nat.le_add_right _ _), Nat.add_sub_cancel_left,
      ← Nat.add_assoc] at hnode

theorem Stands.tail {base : Nat} {n : Node} {ns : List Node} (h : t.Stands base (n :: ns)) :
    t.Stands (base + 1) ns := by
  intro j hj
  rw [Nat.add_assoc, Nat.add_comm 1, h (j + 1) (by simpa using hj), List.getElem?_cons_succ]

end Tree

namespace Grove

variable {σ : Signature} {t : Tree σ} {parent : Option NodeId} {base : Nat} {roots : List NodeId}
  {ns : List Node}

theorem parent?_root (h : Grove parent base roots ns) (hs : t.Stands base ns) {r : Nat}
    (hr : r ∈ roots) : t.parent? r = parent := by
  induction h with
  | nil => simp at hr
  | cons hn _ _ _ ih =>
    rcases List.mem_cons.1 hr with rfl | hr
    · rw [Tree.parent?_of_node? hs.head, hn]
    · exact ih hs.tail.append.2 hr

theorem parent?_not_root (h : Grove parent base roots ns) (hs : t.Stands base ns) {x : Nat}
    (hx : base ≤ x) (hlt : x < base + ns.length) (hr : x ∉ roots) :
    ∃ q : Nat, t.parent? x = some q ∧ base ≤ q ∧ q < x := by
  induction h with
  | nil => simp at hlt; omega
  | @cons _ base n roots below rest hn hbelow hrest ihb ihr =>
    simp only [List.length_cons, List.length_append, List.mem_cons, not_or] at hlt hr
    obtain ⟨hsb, hsr⟩ := hs.tail.append
    rcases Nat.lt_or_ge x (base + 1 + below.length) with hxb | hxr
    · by_cases hid : x ∈ n.children
      · exact ⟨base, hbelow.parent?_root hsb hid, Nat.le_refl _, by omega⟩
      · obtain ⟨q, hq, hle, hqx⟩ := ihb hsb (by omega) hxb hid
        exact ⟨q, hq, by omega, hqx⟩
    · obtain ⟨q, hq, hle, hqx⟩ := ihr hsr hxr (by omega) hr.2
      exact ⟨q, hq, by omega, hqx⟩

/-- A child stands behind its parent in the grove and names it. -/
theorem parent?_of_mem_childNodes (h : Grove parent base roots ns) (hs : t.Stands base ns)
    {x c : Nat} (hx : base ≤ x) (hlt : x < base + ns.length) (hc : c ∈ t.childNodes x) :
    x < c ∧ c < base + ns.length ∧ t.parent? c = some x := by
  induction h with
  | nil => simp at hlt; omega
  | @cons _ base n roots below rest hn hbelow hrest ihb ihr =>
    simp only [List.length_cons, List.length_append] at hlt ⊢
    obtain ⟨hsb, hsr⟩ := hs.tail.append
    rcases Nat.lt_or_ge x (base + 1 + below.length) with hxb | hxr
    · rcases Nat.eq_or_lt_of_le hx with rfl | hx
      · rw [Tree.childNodes_of_node? hs.head] at hc
        have hb := hbelow.mem_roots hc
        exact ⟨by omega, by omega, hbelow.parent?_root hsb hc⟩
      · obtain ⟨hxc, hcl, hp⟩ := ihb hsb hx hxb
        exact ⟨hxc, by omega, hp⟩
    · obtain ⟨hxc, hcl, hp⟩ := ihr hsr hxr (by omega)
      exact ⟨hxc, by omega, hp⟩

/-- A node of the grove that names a node of the grove as its parent is held by it. -/
theorem mem_childNodes_of_parent? (h : Grove parent base roots ns) (hs : t.Stands base ns)
    (hparent : ∀ q : Nat, parent = some q → q < base) {x c : Nat} (hx : base ≤ x) (hc : base ≤ c)
    (hcl : c < base + ns.length) (hp : t.parent? c = some x) : c ∈ t.childNodes x := by
  induction h with
  | nil => simp at hcl; omega
  | @cons parent base n roots below rest hn hbelow hrest ihb ihr =>
    simp only [List.length_cons, List.length_append] at hcl
    obtain ⟨hsb, hsr⟩ := hs.tail.append
    rcases Nat.eq_or_lt_of_le hc with rfl | hc
    · rw [Tree.parent?_of_node? hs.head, hn] at hp
      have := hparent x hp
      omega
    rcases Nat.lt_or_ge c (base + 1 + below.length) with hcb | hcr
    · by_cases hid : c ∈ n.children
      · rw [hbelow.parent?_root hsb hid] at hp
        cases hp
        rwa [Tree.childNodes_of_node? hs.head]
      · obtain ⟨q, hq, hle, _⟩ := hbelow.parent?_not_root hsb hc hcb hid
        rw [hq] at hp
        cases hp
        exact ihb hsb (fun q' hq' => by cases hq'; omega) hle hc hcb
    · by_cases hid : c ∈ roots
      · rw [hrest.parent?_root hsr hid] at hp
        have := hparent x hp
        omega
      · obtain ⟨q, hq, hle, _⟩ := hrest.parent?_not_root hsr hcr (by omega) hid
        rw [hq] at hp
        cases hp
        exact ihr hsr (fun q' hq' => by have := hparent q' hq'; omega) hle hcr (by omega)

theorem nodup_childNodes (h : Grove parent base roots ns) (hs : t.Stands base ns) {x : Nat}
    (hx : base ≤ x) (hlt : x < base + ns.length) : (t.childNodes x).Nodup := by
  induction h with
  | nil => simp at hlt; omega
  | @cons _ base n roots below rest hn hbelow hrest ihb ihr =>
    simp only [List.length_cons, List.length_append] at hlt
    obtain ⟨hsb, hsr⟩ := hs.tail.append
    rcases Nat.lt_or_ge x (base + 1 + below.length) with hxb | hxr
    · rcases Nat.eq_or_lt_of_le hx with rfl | hx
      · rw [Tree.childNodes_of_node? hs.head]
        exact hbelow.nodup_roots
      · exact ihb hsb hx hxb
    · exact ihr hsr hxr (by omega)

end Grove

/-! ## The blocks of new nodes -/

theorem length_layOut {α : Type} (block : NodeId → α → List Node) (base : NodeId) (as : List α) :
    (layOut block base as).1.length = as.length := by
  induction as generalizing base with
  | nil => rfl
  | cons a as ih => simp [layOut, ih]

theorem layOut_congr {α : Type} {block block' : NodeId → α → List Node} {as : List α}
    (h : ∀ a ∈ as, ∀ base, block base a = block' base a) (base : NodeId) :
    layOut block base as = layOut block' base as := by
  induction as generalizing base with
  | nil => rfl
  | cons a as ih =>
    obtain ⟨ha, has⟩ := List.forall_mem_cons.1 h
    simp only [layOut, ha, ih has]

theorem Slot.nodes_empty (c : Category) : (Slot.empty c).nodes = [] := by
  cases c <;> rfl

theorem nodes_initialSlots (fs : List Field) (ids : List NodeId) :
    (initialSlots fs ids).flatMap Slot.nodes =
      ids.take (fs.filterMap Field.initialKind).length := by
  induction fs generalizing ids with
  | nil => simp [initialSlots]
  | cons f fs ih =>
    unfold initialSlots
    cases hk : f.initialKind with
    | some kind =>
      simp only [List.flatMap_cons, ih, List.filterMap_cons_some hk, List.length_cons]
      cases ids <;> simp [Slot.nodes]
    | none =>
      rw [List.filterMap_cons_none hk, ← ih]
      cases f.decl.initial with
      | none => simp [Slot.nodes_empty]
      | some i =>
        cases i with
        | data v => simp [Slot.nodes]
        | newNode kind => simp [Slot.nodes_empty]

theorem nodes_refill (ss : List Slot) (ids : List NodeId) :
    (refill ss ids).flatMap Slot.nodes = ids.take (ss.flatMap Slot.nodes).length := by
  induction ss generalizing ids with
  | nil => simp [refill]
  | cons s ss ih =>
    cases s with
    | child held =>
      cases held with
      | none => simp [refill, ih, Slot.nodes]
      | some c => cases ids <;> simp [refill, ih, Slot.nodes]
    | children held => simp [refill, ih, Slot.nodes, List.take_add]
    | data held => simp [refill, ih, Slot.nodes]
    | values held => simp [refill, ih, Slot.nodes]

/-- A new node and the nodes it starts with form a grove. -/
theorem grove_freshBlock (σ : Signature) (bound : Nat) (parent : Option NodeId) (base : Nat)
    (kind : KindId) : Grove parent base [base] (σ.freshBlock bound parent base kind) := by
  induction bound generalizing parent base kind with
  | zero =>
    refine .single rfl ?_
    simp [Node.children, nodes_initialSlots, Grove.nil]
  | succ bound ih =>
    refine .single rfl ?_
    have hids := length_layOut (σ.freshBlock bound (some base)) (base + 1)
      ((σ.fields kind).filterMap Field.initialKind)
    simp only [Node.children, nodes_initialSlots]
    rw [← hids, List.take_length]
    exact .layOut fun b k _ => ih (some base) b k

namespace Tree

variable {σ : Signature} {t : Tree σ}

/-- The copy of a subtree forms a grove. -/
theorem grove_copyBlock (hbelow : ∀ p c, c ∈ t.childNodes p → c < t.size) (bound : Nat)
    (parent : Option NodeId) (base : Nat) {id : NodeId} (hid : id < t.size) :
    Grove parent base [base] (t.copyBlock bound parent base id) := by
  induction bound generalizing parent base id with
  | zero =>
    obtain ⟨n, hn⟩ := exists_node? hid
    unfold copyBlock
    rw [hn]
    refine .single rfl ?_
    simp [Node.children, nodes_refill, Grove.nil]
  | succ bound ih =>
    obtain ⟨n, hn⟩ := exists_node? hid
    unfold copyBlock
    rw [hn]
    refine .single rfl ?_
    have hids := length_layOut (t.copyBlock bound (some base)) (base + 1) n.children
    simp only [Node.children, nodes_refill]
    unfold Node.children at hids
    rw [← hids, List.take_length]
    refine .layOut fun b c hc => ih (some base) b (hbelow id c ?_)
    rwa [childNodes_of_node? hn]

/-- The tree with the nodes `ns` added behind all others. -/
def extend (t : Tree σ) (ns : List Node) : Tree σ :=
  ⟨t.nodes ++ ns⟩

theorem alloc_eq_extend (kind : KindId) :
    t.alloc kind = t.extend (σ.freshBlock σ.kinds.length none t.size kind) := rfl

theorem deepCopy_eq_extend (id : NodeId) :
    t.deepCopy id = t.extend (t.copyBlock t.size none t.size id) := rfl

theorem toList_extend (ns : List Node) : (t.extend ns).nodes.toList = t.nodes.toList ++ ns :=
  Array.toList_appendList

theorem node?_extend (ns : List Node) (x : NodeId) :
    (t.extend ns).node? x = (t.nodes.toList ++ ns)[x]? := by
  unfold node?
  rw [← Array.getElem?_toList, toList_extend]

theorem size_extend (ns : List Node) : (t.extend ns).size = t.size + ns.length := by
  unfold size
  rw [← Array.length_toList, toList_extend, List.length_append, Array.length_toList]

theorem node?_extend_of_lt (ns : List Node) {x : NodeId} (hx : x < t.size) :
    (t.extend ns).node? x = t.node? x := by
  have hx : x < t.nodes.toList.length := hx
  rw [node?_extend, List.getElem?_append_left hx]
  simp [node?]

theorem stands_extend (ns : List Node) : (t.extend ns).Stands t.size ns := by
  intro j hj
  have hx : t.nodes.toList.length = t.size := Array.length_toList
  rw [node?_extend, List.getElem?_append_right (by omega), hx, Nat.add_sub_cancel_left]

end Tree

end Arbor
