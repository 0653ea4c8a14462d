import Mathlib.Data.List.Perm.Subperm
import Mathlib.Logic.Relation
import Arbor.Proofs.Lookup

/-!
# Ancestors

`t.Below x y`: parents lead from `x` to `y` in one or more steps. The list of ancestors climbs at
most as many steps as the tree has nodes. In a tree without cycles a climb meets no node twice, so
it never runs into this bound, and the list holds exactly the nodes that `Below` leads to.
-/

namespace Arbor

open Relation

/-! ## Relations with one more edge -/

section Edge

variable {α : Type} {r r' : α → α → Prop} {c p x y : α}

/-- A path over `r` and the edge from `c` to `p` takes the edge or does not. -/
theorem transGen_cases_edge (h : ∀ a b, r' a b → r a b ∨ a = c ∧ b = p) (hxy : TransGen r' x y) :
    TransGen r x y ∨ ReflTransGen r x c ∧ ReflTransGen r p y := by
  induction hxy with
  | single hab =>
    rcases h _ _ hab with hab | ⟨rfl, rfl⟩
    · exact .inl (.single hab)
    · exact .inr ⟨.refl, .refl⟩
  | tail _ hab ih =>
    rcases h _ _ hab with hab | ⟨rfl, rfl⟩
    · rcases ih with ih | ⟨hc, hp⟩
      · exact .inl (ih.tail hab)
      · exact .inr ⟨hc, hp.tail hab⟩
    · rcases ih with ih | ⟨hc, -⟩
      · exact .inr ⟨ih.to_reflTransGen, .refl⟩
      · exact .inr ⟨hc, .refl⟩

/-- One more edge from `c` to `p` closes no cycle unless `p` leads to `c`. -/
theorem acyclic_of_edge (h : ∀ a b, r' a b → r a b ∨ a = c ∧ b = p)
    (hr : ∀ x, ¬ TransGen r x x) (hpc : ¬ ReflTransGen r p c) : ∀ x, ¬ TransGen r' x x := by
  intro x hx
  rcases transGen_cases_edge h hx with hx | ⟨hc, hp⟩
  · exact hr x hx
  · exact hpc (hp.trans hc)

end Edge

namespace Tree

variable {σ : Signature} {t : Tree σ}

/-- The node `p` is the parent of `c`. -/
def ChildOf (t : Tree σ) (c p : NodeId) : Prop :=
  t.parent? c = some p

/-- Parents lead from `x` to `y` in one or more steps. -/
def Below (t : Tree σ) : NodeId → NodeId → Prop :=
  TransGen t.ChildOf

/-- No node is below itself. -/
def Acyclic (t : Tree σ) : Prop :=
  ∀ x, ¬ t.Below x x

/-- Every parent is a node of the tree. -/
def ParentsExist (t : Tree σ) : Prop :=
  ∀ c p, t.ChildOf c p → p < t.size

/-! ## Climbing -/

theorem below_of_mem_climb {bound : Nat} {x a : NodeId} (h : a ∈ t.climb bound x) :
    t.Below x a := by
  induction bound generalizing x with
  | zero => simp [climb] at h
  | succ bound ih =>
    unfold climb at h
    split at h
    · next p hp =>
      rcases List.mem_cons.1 h with rfl | h
      · exact .single hp
      · exact .head hp (ih h)
    · simp at h

/-- A climb that stops before its bound has reached a node without a parent. -/
theorem mem_climb_of_childOf {bound : Nat} {x a p : NodeId}
    (hlen : (t.climb bound x).length < bound) (ha : a ∈ x :: t.climb bound x)
    (hp : t.ChildOf a p) : p ∈ t.climb bound x := by
  induction bound generalizing x with
  | zero => simp at hlen
  | succ bound ih =>
    cases hx : t.parent? x with
    | none =>
      simp only [climb, hx, List.mem_singleton] at ha
      rw [ha, ChildOf, hx] at hp
      cases hp
    | some q =>
      simp only [climb, hx, List.length_cons, List.mem_cons] at hlen ha ⊢
      rcases ha with rfl | ha
      · rw [ChildOf, hx] at hp
        exact .inl (Option.some.inj hp).symm
      · exact .inr (ih (by omega) (List.mem_cons.2 ha))

theorem climb_eq_of_length_lt {bound : Nat} {x : NodeId} (hlen : (t.climb bound x).length < bound)
    {more : Nat} (hmore : bound ≤ more) : t.climb more x = t.climb bound x := by
  induction bound generalizing x more with
  | zero => simp at hlen
  | succ bound ih =>
    obtain ⟨more, rfl⟩ : ∃ m, more = m + 1 := ⟨more - 1, by omega⟩
    cases hx : t.parent? x with
    | none => simp [climb, hx]
    | some p =>
      simp only [climb, hx, List.length_cons] at hlen ⊢
      rw [ih (by omega) (by omega)]

/-- A climb in a tree without cycles meets no node twice. -/
theorem Acyclic.nodup_climb (h : t.Acyclic) (bound : Nat) (x : NodeId) :
    (x :: t.climb bound x).Nodup := by
  induction bound generalizing x with
  | zero => simp [climb]
  | succ bound ih =>
    refine List.nodup_cons.2 ⟨fun hx => h x (below_of_mem_climb hx), ?_⟩
    cases hx : t.parent? x with
    | none => simp [climb, hx]
    | some p =>
      simp only [climb, hx]
      exact ih p

theorem ParentsExist.lt_size_of_mem_climb (h : t.ParentsExist) {bound : Nat} {x a : NodeId}
    (ha : a ∈ t.climb bound x) : a < t.size := by
  rcases TransGen.tail'_iff.1 (below_of_mem_climb ha) with ⟨c, _, hc⟩
  exact h c a hc

/-- Without cycles there are fewer ancestors than nodes. -/
theorem Acyclic.length_climb_lt (h : t.Acyclic) (hp : t.ParentsExist) (bound : Nat) {x : NodeId}
    (hx : x < t.size) : (t.climb bound x).length < t.size := by
  have hsub : x :: t.climb bound x ⊆ List.range t.size := by
    intro a ha
    rcases List.mem_cons.1 ha with rfl | ha
    · exact List.mem_range.2 hx
    · exact List.mem_range.2 (hp.lt_size_of_mem_climb ha)
  have hlen := (List.subperm_of_subset (h.nodup_climb bound x) hsub).length_le
  simp only [List.length_cons, List.length_range] at hlen
  omega

theorem climb_of_size_le {x : NodeId} (hx : t.size ≤ x) (bound : Nat) : t.climb bound x = [] := by
  have hparent : t.parent? x = none := by
    cases h : t.parent? x with
    | none => rfl
    | some p => exact absurd (lt_size_of_parent? h) (Nat.not_lt.2 hx)
  cases bound <;> simp [climb, hparent]

/-- The bound of a climb is never in the way. -/
theorem Acyclic.climb_eq_ancestors (h : t.Acyclic) (hp : t.ParentsExist) {bound : Nat}
    (hb : t.size ≤ bound) (x : NodeId) : t.climb bound x = t.ancestors x := by
  rcases Nat.lt_or_ge x t.size with hx | hx
  · exact climb_eq_of_length_lt (h.length_climb_lt hp t.size hx) hb
  · rw [ancestors, climb_of_size_le hx, climb_of_size_le hx]

/-- The list of ancestors holds exactly the nodes above. -/
theorem Acyclic.mem_ancestors_iff (h : t.Acyclic) (hp : t.ParentsExist) {x a : NodeId} :
    a ∈ t.ancestors x ↔ t.Below x a := by
  refine ⟨below_of_mem_climb, fun ha => ?_⟩
  have hx : x < t.size := by
    obtain ⟨p, hp, _⟩ := TransGen.head'_iff.1 ha
    exact lt_size_of_parent? hp
  have hlen := h.length_climb_lt hp t.size hx
  unfold ancestors
  induction ha with
  | single hc => exact mem_climb_of_childOf hlen List.mem_cons_self hc
  | tail _ hc ih => exact mem_climb_of_childOf hlen (List.mem_cons_of_mem _ ih) hc

/-! ## Roots -/

theorem ancestors_of_root {x : NodeId} (hx : t.parent? x = none) : t.ancestors x = [] := by
  unfold ancestors
  cases t.size <;> simp [climb, hx]

theorem Acyclic.ancestors_of_childOf (h : t.Acyclic) (hp : t.ParentsExist) {x p : NodeId}
    (hx : t.ChildOf x p) : t.ancestors x = p :: t.ancestors p := by
  have hmore : t.climb (t.size + 1) x = t.ancestors x :=
    h.climb_eq_ancestors hp (Nat.le_add_right _ _) x
  rw [← hmore, climb, hx, ancestors]

/-- A node has the root of its parent. -/
theorem Acyclic.rootOf_of_childOf (h : t.Acyclic) (hp : t.ParentsExist) {x p : NodeId}
    (hx : t.ChildOf x p) : t.rootOf x = t.rootOf p := by
  rw [rootOf, h.ancestors_of_childOf hp hx, List.getLastD_cons, rootOf]

/-- Parents lead from a node to its root, and the root has no parent. -/
theorem Acyclic.leads_rootOf (h : t.Acyclic) (hp : t.ParentsExist) (x : NodeId) :
    ReflTransGen t.ChildOf x (t.rootOf x) ∧ t.parent? (t.rootOf x) = none := by
  -- The list of ancestors gets shorter with each parent.
  induction hl : t.ancestors x generalizing x with
  | nil =>
    have hroot : t.rootOf x = x := by rw [rootOf, hl, List.getLastD_nil]
    rw [hroot]
    refine ⟨.refl, ?_⟩
    cases hx : t.parent? x with
    | none => rfl
    | some p =>
      rw [h.ancestors_of_childOf hp hx] at hl
      cases hl
  | cons a l ih =>
    cases hx : t.parent? x with
    | none =>
      rw [ancestors_of_root hx] at hl
      cases hl
    | some p =>
      rw [h.ancestors_of_childOf hp hx] at hl
      obtain ⟨-, hl⟩ := List.cons.inj hl
      obtain ⟨hleads, hroot⟩ := ih p hl
      rw [h.rootOf_of_childOf hp hx]
      exact ⟨.head hx hleads, hroot⟩

/-- Of two nodes that parents lead to from one node, parents lead from one to the other. -/
theorem leads_total {x a b : NodeId} (ha : ReflTransGen t.ChildOf x a)
    (hb : ReflTransGen t.ChildOf x b) :
    ReflTransGen t.ChildOf a b ∨ ReflTransGen t.ChildOf b a := by
  refine ReflTransGen.total_of_right_unique (fun c p q hp hq => ?_) ha hb
  exact Option.some.inj (hp.symm.trans hq)

theorem eq_of_leads_of_root {a b : NodeId} (ha : t.parent? a = none)
    (hab : ReflTransGen t.ChildOf a b) : a = b := by
  rcases ReflTransGen.cases_head hab with hab | ⟨p, hp, -⟩
  · exact hab
  · rw [ChildOf, ha] at hp
    cases hp

end Tree

end Arbor
