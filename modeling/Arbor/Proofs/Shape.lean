import Arbor.Proofs.Bare
import Arbor.Proofs.Bisimulation

/-!
# Shapes

The shape of a node is its kind together with what its child fields hold, in the order they are
declared: a shape or nothing, or a list of shapes. Nodes are compared without shapes, by going down
both at once, slot by slot, and passing over all pairs of slots that hold no nodes. In a conforming
tree the slots of two nodes of one kind pair up field by field, so both ways come to the same
question: whether the nodes are twins once data is taken out and their children agree.
-/

namespace Arbor

mutual

/-- A kind, and what each child field of the kind holds. -/
inductive Shape where
  | node (kind : KindId) (branches : List Branch)

inductive Branch where
  | single (held : Option Shape)
  | list (held : List Shape)

end

/-- What a child field holds, given the shapes of nodes. -/
def Field.branch (f : Field) (shape : NodeId → Shape) (s : Option Slot) : Branch :=
  if f.decl.isList then .list (((s.map Slot.childList).getD []).map shape)
  else .single ((s.bind Slot.child?).map shape)

namespace Tree

variable {σ : Signature} (t : Tree σ)

/-- What the child fields of a node hold, given the shapes of nodes. -/
def branches (shape : NodeId → Shape) (id : NodeId) (k : Kind) : List Branch :=
  k.childFields.map fun (i, f) => f.branch shape (t.slot? id i)

/-- The shape of a node down to a depth of `bound` nodes. -/
def shapeTo : Nat → NodeId → Shape
  | 0, _ => .node 0 []
  | bound + 1, id =>
    match t.node? id, t.kind id with
    | some n, .ok k => .node n.kind (t.branches (shapeTo bound) id k)
    | _, _ => .node 0 []

def shape (id : NodeId) : Shape :=
  t.shapeTo t.size id

end Tree

/-! ## Slots of one field -/

theorem rel_iff_map_eq {shape : NodeId → Shape} {x y : Option NodeId} :
    Option.Rel (fun a b => shape a = shape b) x y ↔ x.map shape = y.map shape := by
  constructor
  · rintro (hab | _)
    · exact congrArg some hab
    · rfl
  · intro h
    cases x <;> cases y <;> simp at h
    · exact .none
    · exact .some h

namespace Slot

variable {R : NodeId → NodeId → Prop} {same : NodeId → NodeId → Bool}

theorem match_child_iff {x y : Option NodeId} :
    Slot.Match R (.child x) (.child y) ↔ Option.Rel R x y :=
  ⟨fun h => h.child?, .child⟩

theorem match_children_iff {xs ys : List NodeId} :
    Slot.Match R (.children xs) (.children ys) ↔ List.Forall₂ R xs ys :=
  ⟨fun h => h.childList, .children⟩

theorem agree_child_iff {x y : Option NodeId} :
    (Slot.child x).agree same (.child y) = true ↔ Option.Rel (fun a b => same a b = true) x y := by
  constructor
  · intro h
    cases x with
    | none =>
      cases y with
      | none => exact .none
      | some y => cases h
    | some x =>
      cases y with
      | none => cases h
      | some y => exact .some h
  · rintro (hab | _)
    · exact hab
    · rfl

theorem agree_children_iff {xs ys : List NodeId} :
    (Slot.children xs).agree same (.children ys) = true ↔
      List.Forall₂ (fun a b => same a b = true) xs ys := by
  rw [List.forall₂_iff_zip]
  simp [agree]

namespace Conforms

variable {σ : Signature} {t : Tree σ} {f : Field} {s u : Slot}

/-- Slots of one field agree exactly if they match once data is taken out. -/
theorem agree_iff (hs : s.Conforms t f) (hu : u.Conforms t f) :
    s.agree same u = true ↔ Slot.Match (fun a b => same a b = true) s.bare u.bare := by
  cases hcat : f.category with
  | singleChild =>
    obtain ⟨x, rfl⟩ := hs.eq_child hcat
    obtain ⟨y, rfl⟩ := hu.eq_child hcat
    exact agree_child_iff.trans match_child_iff.symm
  | listChild =>
    obtain ⟨xs, rfl⟩ := hs.eq_children hcat
    obtain ⟨ys, rfl⟩ := hu.eq_children hcat
    exact agree_children_iff.trans match_children_iff.symm
  | singleData =>
    obtain ⟨x, rfl⟩ := hs.eq_data hcat
    obtain ⟨y, rfl⟩ := hu.eq_data hcat
    exact ⟨fun _ => .data none, fun _ => rfl⟩
  | listData =>
    obtain ⟨xs, rfl⟩ := hs.eq_values hcat
    obtain ⟨ys, rfl⟩ := hu.eq_values hcat
    exact ⟨fun _ => .values [], fun _ => rfl⟩

/-- Slots of one child field have the same branch exactly if they match once data is taken out, and
those of a data field match in any case. -/
theorem branch_iff (hs : s.Conforms t f) (hu : u.Conforms t f) {shape : NodeId → Shape} :
    (f.decl.isChild = true → f.branch shape (some s) = f.branch shape (some u)) ↔
      Slot.Match (fun a b => shape a = shape b) s.bare u.bare := by
  have hchild : f.decl.isChild = f.category.isChild := by
    unfold FieldDecl.isChild Field.category FieldDecl.category
    cases f.decl.type <;> cases f.decl.multiplicity <;> rfl
  unfold Field.branch
  rw [hchild, ← Field.isList_category]
  cases hcat : f.category with
  | singleChild =>
    obtain ⟨x, rfl⟩ := hs.eq_child hcat
    obtain ⟨y, rfl⟩ := hu.eq_child hcat
    simp [Category.isChild, Category.isList, child?, bare, match_child_iff, rel_iff_map_eq]
  | listChild =>
    obtain ⟨xs, rfl⟩ := hs.eq_children hcat
    obtain ⟨ys, rfl⟩ := hu.eq_children hcat
    simp [Category.isChild, Category.isList, childList, bare, match_children_iff,
      forall₂_iff_map_eq]
  | singleData =>
    obtain ⟨x, rfl⟩ := hs.eq_data hcat
    obtain ⟨y, rfl⟩ := hu.eq_data hcat
    refine ⟨fun _ => .data none, fun _ h => ?_⟩
    cases h
  | listData =>
    obtain ⟨xs, rfl⟩ := hs.eq_values hcat
    obtain ⟨ys, rfl⟩ := hu.eq_values hcat
    refine ⟨fun _ => .values [], fun _ h => ?_⟩
    cases h

end Conforms

end Slot

/-! ## Nodes without data -/

theorem Kind.mem_childFields {k : Kind} {i : Nat} {f : Field} :
    (i, f) ∈ k.childFields ↔ k.fields[i]? = some f ∧ f.decl.isChild = true := by
  simp [childFields, List.mem_zipIdx_iff_getElem?]

namespace Tree

variable {σ : Signature}

/-- A field of the kind that two nodes have in common, and the slots of both nodes for it. -/
structure CommonField (t : Tree σ) (n m : Node) (i : Nat) (f : Field) (s u : Slot) : Prop where
  field : (σ.fields n.kind)[i]? = some f
  left : n.slots[i]? = some s
  right : m.slots[i]? = some u
  leftConforms : s.Conforms t f
  rightConforms : u.Conforms t f

section Common

variable {t : Tree σ} {a b : NodeId} {n m : Node} (hconf : t.Conforms) (hn : t.node? a = some n)
  (hm : t.node? b = some m) (hkind : m.kind = n.kind)
include hconf hn hm hkind

theorem exists_commonField {i : Nat} {f : Field} (hf : (σ.fields n.kind)[i]? = some f) :
    ∃ s u, t.CommonField n m i f s u := by
  obtain ⟨s, hs, hsf⟩ := forall₂_getElem? (hconf a n hn).slots hf
  obtain ⟨u, hu, huf⟩ := forall₂_getElem? (hconf b m hm).slots (hkind.symm ▸ hf)
  exact ⟨s, u, hf, hs, hu, hsf, huf⟩

theorem length_slots_eq : n.slots.length = m.slots.length := by
  rw [← (hconf a n hn).slots.length_eq, ← (hconf b m hm).slots.length_eq, hkind]

/-- The slots that a comparison pairs belong to one field. -/
theorem mem_zip_slots {s u : Slot} :
    (s, u) ∈ n.slots.zip m.slots ↔ ∃ i f, t.CommonField n m i f s u := by
  rw [List.mem_iff_getElem?]
  refine exists_congr fun i => ?_
  rw [List.getElem?_zip_eq_some]
  constructor
  · rintro ⟨hs, hu⟩
    have hlt : i < (σ.fields n.kind).length := by
      rw [(hconf a n hn).slots.length_eq]
      exact (List.getElem?_eq_some_iff.1 hs).1
    obtain ⟨s', u', hcommon⟩ :=
      exists_commonField hconf hn hm hkind (List.getElem?_eq_getElem hlt)
    obtain rfl := Option.some.inj (hs.symm.trans hcommon.left)
    obtain rfl := Option.some.inj (hu.symm.trans hcommon.right)
    exact ⟨_, hcommon⟩
  · rintro ⟨f, hcommon⟩
    exact ⟨hcommon.left, hcommon.right⟩

end Common

variable {t : Tree σ} {R : NodeId → NodeId → Prop} {a b : NodeId} {n m : Node}
  (hconf : t.Conforms) (hn : t.node? a = some n) (hm : t.node? b = some m)
include hconf hn hm

/-- Nodes of a conforming tree are twins without data if they are of one kind and their slots match
without data, field by field. -/
theorem twin_bare_iff : Twin R t.bare t.bare a b ↔
    m.kind = n.kind ∧ ∀ i f s u, t.CommonField n m i f s u → Slot.Match R s.bare u.bare := by
  have hbare : t.bare.node? a = some n.bare := by rw [node?_bare, hn, Option.map_some]
  have hbare' : t.bare.node? b = some m.bare := by rw [node?_bare, hm, Option.map_some]
  constructor
  · rintro ⟨_, _, k, hn', hm', -, hkind, hmatch⟩
    obtain rfl := Option.some.inj (hbare.symm.trans hn')
    obtain rfl := Option.some.inj (hbare'.symm.trans hm')
    have hmatch := List.forall₂_map_left_iff.1 (List.forall₂_map_right_iff.1 hmatch)
    refine ⟨hkind, fun i f s u hcommon => (List.forall₂_iff_zip.1 hmatch).2 ?_⟩
    exact (mem_zip_slots hconf hn hm hkind).2 ⟨i, f, hcommon⟩
  · rintro ⟨hkind, hmatch⟩
    refine ⟨_, _, _, hbare, hbare', List.getElem?_eq_getElem (hconf a n hn).kind, hkind, ?_⟩
    refine List.forall₂_map_left_iff.2 (List.forall₂_map_right_iff.2 ?_)
    refine List.forall₂_iff_zip.2 ⟨length_slots_eq hconf hn hm hkind, fun {s u} hsu => ?_⟩
    obtain ⟨i, f, hcommon⟩ := (mem_zip_slots hconf hn hm hkind).1 hsu
    exact hmatch i f s u hcommon

/-- One level of a comparison asks whether two nodes are twins without data. -/
theorem sameShape_succ_iff (bound : Nat) : t.sameShape (bound + 1) a b = true ↔
    Twin (fun x y => t.sameShape bound x y = true) t.bare t.bare a b := by
  rw [twin_bare_iff hconf hn hm]
  simp only [sameShape, hn, hm, Bool.and_eq_true, beq_iff_eq, List.all_eq_true,
    eq_comm (a := n.kind)]
  refine and_congr_right fun hkind => ⟨fun h i f s u hcommon => ?_, fun h su hsu => ?_⟩
  · rw [← hcommon.leftConforms.agree_iff hcommon.rightConforms]
    exact h (s, u) ((mem_zip_slots hconf hn hm hkind).2 ⟨i, f, hcommon⟩)
  · obtain ⟨i, f, hcommon⟩ := (mem_zip_slots hconf hn hm hkind).1 hsu
    exact (hcommon.leftConforms.agree_iff hcommon.rightConforms).2 (h i f _ _ hcommon)

/-- Nodes of one kind have the same branches if they are twins without data. -/
theorem branches_eq_iff {shape : NodeId → Shape} {k : Kind} (hk : σ.kinds[n.kind]? = some k)
    (hkind : m.kind = n.kind) : t.branches shape a k = t.branches shape b k ↔
      Twin (fun x y => shape x = shape y) t.bare t.bare a b := by
  rw [twin_bare_iff hconf hn hm, branches, branches, List.map_inj_left]
  simp only [hkind, true_and, Prod.forall, Kind.mem_childFields, ← Signature.fields_of_kinds hk,
    slot?_of_node? hn, slot?_of_node? hm]
  constructor
  · intro h i f s u hcommon
    have hbranch := h i f
    rw [hcommon.left, hcommon.right] at hbranch
    exact (hcommon.leftConforms.branch_iff hcommon.rightConforms).1 fun hchild =>
      hbranch ⟨hcommon.field, hchild⟩
  · rintro h i f ⟨hf, hchild⟩
    obtain ⟨s, u, hcommon⟩ := exists_commonField hconf hn hm hkind hf
    rw [hcommon.left, hcommon.right]
    exact (hcommon.leftConforms.branch_iff hcommon.rightConforms).2 (h i f s u hcommon) hchild

end Tree

/-! ## Comparisons without an answer -/

theorem allM_eq_some {α : Type} {p? : α → Option Bool} {p : α → Bool} {l : List α}
    (h : ∀ a ∈ l, p? a = some (p a)) : l.allM p? = some (l.all p) := by
  induction l with
  | nil => rfl
  | cons a l ih =>
    obtain ⟨ha, hl⟩ := List.forall_mem_cons.1 h
    rw [List.allM, ha, List.all_cons]
    cases p a with
    | true => exact ih hl
    | false => rfl

/-- `Slot.agree`, where the question whether two children are the same may be without an answer. It
is not asked again after the first two that are not. -/
def Slot.agree? (same? : NodeId → NodeId → Option Bool) : Slot → Slot → Option Bool
  | .child none, .child none => some true
  | .child (some x), .child (some y) => same? x y
  | .child _, .child _ => some false
  | .children xs, .children ys =>
    if xs.length == ys.length then (xs.zip ys).allM fun (x, y) => same? x y else some false
  | _, _ => some true

theorem Slot.agree?_eq_some {same? : NodeId → NodeId → Option Bool} {same : NodeId → NodeId → Bool}
    {s u : Slot} (h : ∀ x ∈ s.nodes, ∀ y, same? x y = some (same x y)) :
    s.agree? same? u = some (s.agree same u) := by
  cases s with
  | child x =>
    cases u with
    | child y =>
      cases x with
      | none => cases y <;> rfl
      | some x =>
        cases y with
        | none => rfl
        | some y => exact h x (List.mem_singleton.2 rfl) y
    | _ => cases x <;> rfl
  | children xs =>
    cases u with
    | children ys =>
      have hall := allM_eq_some (l := xs.zip ys) fun xy hxy => h xy.1 (List.of_mem_zip hxy).1 xy.2
      by_cases hlength : xs.length = ys.length
      · simpa [agree?, agree, hlength] using hall
      · simp [agree?, agree, hlength]
    | _ => rfl
  | data v => cases u <;> rfl
  | values vs => cases u <;> rfl

namespace Tree

variable {σ : Signature} {t : Tree σ}

/-- `Tree.sameShape`, without an answer once the bound is used up. -/
def sameShape? (t : Tree σ) : Nat → NodeId → NodeId → Option Bool
  | 0, _, _ => none
  | bound + 1, a, b =>
    match t.node? a, t.node? b with
    | some x, some y =>
      if x.kind == y.kind then
        (x.slots.zip y.slots).allM fun (s, u) => s.agree? (sameShape? t bound) u
      else some false
    | _, _ => some false

/-- A comparison goes down one level at a time, so a bound that makes up for the ancestors that the
first node lacks is never used up. -/
theorem Forest.sameShape?_eq (hf : t.Forest) {a : NodeId} (ha : a < t.size) (b : NodeId)
    {bound : Nat} (hbound : t.size ≤ bound + (t.ancestors a).length) :
    t.sameShape? bound a b = some (t.sameShape bound a b) := by
  have hdepth := hf.length_ancestors_lt ha
  induction bound generalizing a b with
  | zero => omega
  | succ bound ih =>
    obtain ⟨n, hn⟩ := exists_node? ha
    simp only [sameShape?, sameShape, hn]
    cases t.node? b with
    | none => rfl
    | some m =>
      have hslots : ∀ su ∈ n.slots.zip m.slots,
          su.1.agree? (t.sameShape? bound) su.2 = some (su.1.agree (t.sameShape bound) su.2) := by
        intro su hsu
        refine Slot.agree?_eq_some fun x hx y => ?_
        have hchild : x ∈ t.childNodes a := by
          rw [childNodes_of_node? hn]
          exact List.mem_flatMap.2 ⟨su.1, (List.of_mem_zip hsu).1, hx⟩
        have hlength := hf.length_ancestors_child ((hf.owned a x).1 hchild)
        exact ih (hf.lt_size hchild) y (by omega) (hf.length_ancestors_lt (hf.lt_size hchild))
      simp only [allM_eq_some hslots]
      cases n.kind == m.kind <;> rfl

end Tree

/-! ## Shapes of nodes -/

theorem Field.branch_congr (f : Field) {shape shape' : NodeId → Shape} {s : Option Slot}
    (h : ∀ x, s = some x → ∀ c ∈ x.nodes, shape c = shape' c) :
    f.branch shape s = f.branch shape' s := by
  cases s with
  | none => rfl
  | some s =>
    have hs := h s rfl
    unfold Field.branch
    split
    · refine congrArg Branch.list (List.map_congr_left fun c hc => hs c ?_)
      exact Slot.mem_nodes_of_childList hc
    · refine congrArg Branch.single (Option.map_congr fun c hc => hs c ?_)
      exact Slot.mem_nodes_of_child? hc

namespace Tree

variable {σ : Signature} {t : Tree σ} {a b : NodeId}

theorem Forest.bare (h : t.Forest) : t.bare.Forest := by
  refine ⟨fun p c => ?_, fun p => ?_, ?_⟩
  · rw [childNodes_bare, parent?_bare]
    exact h.owned p c
  · rw [childNodes_bare]
    exact h.once p
  · have hchild : t.bare.ChildOf = t.ChildOf := by
      funext c p
      rw [ChildOf, ChildOf, parent?_bare]
    unfold Acyclic Below
    rw [hchild]
    exact h.acyclic

/-- The branches of a node depend on the shapes of its children only. -/
theorem branches_congr {shape shape' : NodeId → Shape}
    (h : ∀ c ∈ t.childNodes a, shape c = shape' c) (k : Kind) :
    t.branches shape a k = t.branches shape' a k := by
  refine List.map_congr_left fun p _ => p.2.branch_congr fun s hs c hc => h c ?_
  exact mem_childNodes.2 ⟨p.1, s, hs, hc⟩

/-- The bound of a shape is never in the way. -/
theorem Forest.shapeTo_eq (h : t.Forest) (ha : a < t.size) {bound bound' : Nat}
    (hb : t.size ≤ bound + (t.ancestors a).length)
    (hb' : t.size ≤ bound' + (t.ancestors a).length) : t.shapeTo bound a = t.shapeTo bound' a := by
  have hdepth := h.length_ancestors_lt ha
  induction bound generalizing a bound' with
  | zero => omega
  | succ bound ih =>
    obtain ⟨bound', rfl⟩ : ∃ m, bound' = m + 1 := ⟨bound' - 1, by omega⟩
    have hbelow : ∀ c ∈ t.childNodes a, t.shapeTo bound c = t.shapeTo bound' c := by
      intro c hc
      have hlt := h.lt_size hc
      have hlength := h.length_ancestors_child ((h.owned a c).1 hc)
      exact ih hlt (by omega) (by omega) (h.length_ancestors_lt hlt)
    unfold shapeTo
    simp only [branches_congr hbelow]

section Shapes

variable (hconf : t.Conforms) (hf : t.Forest)
include hf

/-- The shape of a node is made of the shapes of its children. -/
theorem shape_eq {n : Node} {k : Kind} (hn : t.node? a = some n)
    (hk : σ.kinds[n.kind]? = some k) : t.shape a = .node n.kind (t.branches t.shape a k) := by
  have hmore : t.shapeTo (t.size + 1) a = t.shape a :=
    hf.shapeTo_eq (lt_size_of_node? hn) (by omega) (by omega)
  rw [← hmore, shapeTo, hn, kind_eq_ok.2 ⟨n, hn, hk⟩]
  rfl

include hconf

theorem shape_eq_shape_iff (ha : a < t.size) (hb : b < t.size) :
    t.shape a = t.shape b ↔ Twin (fun x y => t.shape x = t.shape y) t.bare t.bare a b := by
  obtain ⟨n, hn⟩ := exists_node? ha
  obtain ⟨m, hm⟩ := exists_node? hb
  have hk := List.getElem?_eq_getElem (hconf a n hn).kind
  have hk' := List.getElem?_eq_getElem (hconf b m hm).kind
  rw [shape_eq hf hn hk, shape_eq hf hm hk', Shape.node.injEq]
  constructor
  · rintro ⟨hkind, hbranches⟩
    simp only [← hkind] at hbranches
    exact (branches_eq_iff hconf hn hm hk hkind.symm).1 hbranches
  · intro htwin
    have hkind := ((twin_bare_iff hconf hn hm).1 htwin).1
    simp only [hkind]
    exact ⟨trivial, (branches_eq_iff hconf hn hm hk hkind).2 htwin⟩

/-- A comparison with room for all levels decides whether two nodes have the same shape. -/
theorem sameShape_iff (ha : a < t.size) (hb : b < t.size) {bound : Nat}
    (hbound : t.size ≤ bound + (t.ancestors a).length) :
    t.sameShape bound a b = true ↔ t.shape a = t.shape b := by
  have hdepth := hf.length_ancestors_lt ha
  induction bound generalizing a b with
  | zero => omega
  | succ bound ih =>
    obtain ⟨n, hn⟩ := exists_node? ha
    obtain ⟨m, hm⟩ := exists_node? hb
    rw [sameShape_succ_iff hconf hn hm, shape_eq_shape_iff hconf hf ha hb]
    -- Below `a` there is one level less to go and one more ancestor.
    have hbelow : ∀ x y, (x, y) ∈ (t.bare.childNodes a).zip (t.bare.childNodes b) →
        (t.sameShape bound x y = true ↔ t.shape x = t.shape y) := by
      intro x y hxy
      obtain ⟨hx, hy⟩ := List.of_mem_zip hxy
      rw [childNodes_bare] at hx hy
      have hlength := hf.length_ancestors_child ((hf.owned a x).1 hx)
      exact ih (hf.lt_size hx) (hf.lt_size hy) (by omega) (hf.length_ancestors_lt (hf.lt_size hx))
    exact ⟨fun h => h.of_zip fun x y hxy => (hbelow x y hxy).1,
      fun h => h.of_zip fun x y hxy => (hbelow x y hxy).2⟩

/-- To have the same shape is a bisimulation of the tree without data. -/
theorem bisim_shape :
    Bisim (fun x y => (x < t.size ∧ y < t.size) ∧ t.shape x = t.shape y) t.bare t.bare := by
  rintro x y ⟨⟨hx, hy⟩, hxy⟩
  refine ((shape_eq_shape_iff hconf hf hx hy).1 hxy).of_zip fun c d hcd hshape => ⟨?_, hshape⟩
  obtain ⟨hc, hd⟩ := List.of_mem_zip hcd
  rw [childNodes_bare] at hc hd
  exact ⟨hf.lt_size hc, hf.lt_size hd⟩

/-- The walks of nodes of the same shape meet the same kinds, one after the other. -/
theorem map_kindId_walk_eq (ha : a < t.size) (hb : b < t.size) (hab : t.shape a = t.shape b) :
    (t.walk a).map t.kindId = (t.walk b).map t.kindId := by
  have hbisim := bisim_shape hconf hf
  have hwalk := (hbisim.walk hf.bare hf.bare ⟨⟨ha, hb⟩, hab⟩).1
  rw [walk_bare, walk_bare] at hwalk
  have hkinds : List.Forall₂ (fun x y => t.kindId x = t.kindId y) (t.walk a) (t.walk b) := by
    refine hwalk.imp fun x y hxy => ?_
    obtain ⟨n, m, -, hn, hm, -, hkind, -⟩ := hbisim x y hxy
    rw [← kindId_bare x, ← kindId_bare y, kindId_eq_ok.2 ⟨n, hn, rfl⟩,
      kindId_eq_ok.2 ⟨m, hm, hkind⟩]
  exact forall₂_iff_map_eq.1 hkinds

end Shapes

end Tree

/-- In a reachable tree of a generated schema every node has a shape: its kind, and for each child
field of the kind, in the order they are declared, the shape that a single field holds, if it holds
one, or the shapes in a list. The comparison of two nodes ends before any bound from the size of the
tree on is used up, and says whether their shapes are equal. So it is an equivalence of nodes, and
the walks of two nodes that are found equal are equally long and meet the same kinds. -/
theorem structurallyEqual_iff_shape_eq {ts : List Template} {s : Schema}
    (hs : Schema.generate ts = .ok s) {t : Tree s.signature} (ht : t.Reachable) :
    (∀ a < t.size, ∃ n k, t.node? a = some n ∧ s.signature.kinds[n.kind]? = some k ∧
      t.shape a = .node n.kind (k.childFields.map fun (i, f) =>
        if f.decl.isList then .list (((t.slot? a i).map Slot.childList).getD [] |>.map t.shape)
        else .single (((t.slot? a i).bind Slot.child?).map t.shape))) ∧
    (∀ a < t.size, ∀ b < t.size,
      (∀ bound, t.size ≤ bound → t.sameShape? bound a b = some (t.structurallyEqual a b) ∧
        t.sameShape bound a b = t.structurallyEqual a b) ∧
      (t.structurallyEqual a b = true ↔ t.shape a = t.shape b) ∧
      (t.structurallyEqual a b = true → (t.walk a).length = (t.walk b).length ∧
        (t.walk a).map t.kindId = (t.walk b).map t.kindId)) ∧
    Equivalence fun a b : Fin t.size => t.structurallyEqual a b = true := by
  have hσ := resolved_of_generate hs
  have hconf := ht.conforms hσ
  have hf := ht.forest hσ
  have hiff : ∀ a < t.size, ∀ b < t.size, ∀ bound, t.size ≤ bound →
      (t.sameShape bound a b = true ↔ t.shape a = t.shape b) := fun a ha b hb bound hbound =>
    Tree.sameShape_iff hconf hf ha hb (Nat.le_add_right_of_le hbound)
  refine ⟨fun a ha => ?_, fun a ha b hb => ⟨fun bound hbound => ?_, ?_, fun hab => ?_⟩, ?_⟩
  · obtain ⟨n, hn⟩ := Tree.exists_node? ha
    have hk := List.getElem?_eq_getElem (hconf a n hn).kind
    exact ⟨n, _, hn, hk, Tree.shape_eq hf hn hk⟩
  · have hsame : t.sameShape bound a b = t.structurallyEqual a b := by
      rw [Bool.eq_iff_iff, hiff a ha b hb bound hbound]
      exact (hiff a ha b hb t.size (Nat.le_refl _)).symm
    exact ⟨by rw [hf.sameShape?_eq ha b (Nat.le_add_right_of_le hbound), hsame], hsame⟩
  · exact hiff a ha b hb t.size (Nat.le_refl _)
  · have hshape := (hiff a ha b hb t.size (Nat.le_refl _)).1 hab
    have hkinds := Tree.map_kindId_walk_eq hconf hf ha hb hshape
    exact ⟨by simpa using congrArg List.length hkinds, hkinds⟩
  · have hfin : (fun a b : Fin t.size => t.structurallyEqual a b = true) =
        InvImage Eq fun a : Fin t.size => t.shape a := by
      funext a b
      exact propext (hiff a a.2 b b.2 t.size (Nat.le_refl _))
    rw [hfin]
    exact InvImage.equivalence Eq _ eq_equivalence

/-- Section 1 lies below section 3 and section 4 stands alone, and both hold nothing. Section 0
leads nowhere but to section 1, while section 3, which it lies below, leads further. -/
theorem structurallyEqual_sectionTree :
    Schema.generate sectionTemplates = .ok (Schema.ofTemplates sectionTemplates) ∧
      sectionTree.Reachable ∧
      sectionTree.shape 1 = .node 0 [.single none, .list []] ∧
      sectionTree.shape 0 = .node 0 [.single (some (.node 0 [.single none, .list []])), .list []] ∧
      sectionTree.shape 1 = sectionTree.shape 4 ∧ sectionTree.shape 0 ≠ sectionTree.shape 3 ∧
      sectionTree.structurallyEqual 4 1 = true ∧ sectionTree.structurallyEqual 0 3 = false := by
  obtain ⟨hshape, hequal, hequiv⟩ :=
    structurallyEqual_iff_shape_eq generate_sectionTemplates reachable_sectionTree
  have hone : 1 < sectionTree.size := by decide +kernel
  have hfour : 4 < sectionTree.size := by decide +kernel
  have hzero : 0 < sectionTree.size := by decide +kernel
  have hthree : 3 < sectionTree.size := by decide +kernel
  have hsame : sectionTree.structurallyEqual 1 4 = true := by decide +kernel
  have hother : sectionTree.structurallyEqual 0 3 = false := by decide +kernel
  have hleaf : sectionTree.shape 1 = .node 0 [.single none, .list []] := by
    obtain ⟨n, k, hn, hk, heq⟩ := hshape 1 hone
    obtain rfl : n = ⟨0, some 0, [.child none, .children []]⟩ := Option.some.inj (hn.symm.trans rfl)
    obtain rfl := Option.some.inj hk
    exact heq
  have hlead : sectionTree.shape 0 = .node 0 [.single (some (sectionTree.shape 1)), .list []] := by
    obtain ⟨n, k, hn, hk, heq⟩ := hshape 0 hzero
    obtain rfl : n = ⟨0, some 2, [.child (some 1), .children []]⟩ :=
      Option.some.inj (hn.symm.trans rfl)
    obtain rfl := Option.some.inj hk
    exact heq
  refine ⟨generate_sectionTemplates, reachable_sectionTree, hleaf, hleaf ▸ hlead,
    (hequal 1 hone 4 hfour).2.1.1 hsame, fun h => ?_,
    hequiv.symm (x := ⟨1, hone⟩) (y := ⟨4, hfour⟩) hsame, hother⟩
  rw [← (hequal 0 hzero 3 hthree).2.1, hother] at h
  cases h

end Arbor
