import Mathlib.Data.List.Nodup
import Mathlib.Data.List.Perm.Basic
import Mathlib.Logic.Relation
import Arbor.Schema

/-!
# The search for recursive initial values

`σ.Starts a b`: a new node of kind `a` starts with a node of kind `b`. A kind is recursive when
`Starts` leads from it back to it in one or more steps. `search` finds this out with a work list
and a budget: it enters no kind twice, so the budget `initialCount` is never used up.
-/

namespace Arbor

open Relation

namespace Signature

variable {σ : Signature}

/-- A new node of kind `a` starts with a node of kind `b`. -/
def Starts (σ : Signature) (a b : KindId) : Prop :=
  b ∈ σ.initialKinds a

theorem starts_iff {a b : KindId} :
    σ.Starts a b ↔ ∃ k, σ.kinds[a]? = some k ∧ b ∈ k.initialKinds := by
  unfold Starts initialKinds fields Kind.initialKinds
  cases σ.kinds[a]? with
  | none => simp
  | some k => simp

/-! ## The budget -/

/-- The fields with initial nodes of the kinds that a search has not entered. -/
def pending (σ : Signature) (seen : List KindId) : Nat :=
  (((List.range σ.kinds.length).filter (· ∉ seen)).flatMap σ.initialKinds).length

theorem initialKinds_of_le {a : KindId} (h : σ.kinds.length ≤ a) : σ.initialKinds a = [] := by
  simp [initialKinds, fields, List.getElem?_eq_none h]

theorem pending_cons {seen : List KindId} {a : KindId} (ha : a ∉ seen) :
    σ.pending (a :: seen) + (σ.initialKinds a).length = σ.pending seen := by
  rcases Nat.lt_or_ge a σ.kinds.length with hlt | hge
  · have hmem : a ∈ (List.range σ.kinds.length).filter (· ∉ seen) := by simp [hlt, ha]
    have hfilter : (List.range σ.kinds.length).filter (· ∉ a :: seen) =
        ((List.range σ.kinds.length).filter (· ∉ seen)).erase a := by
      rw [(List.nodup_range.filter _).erase_eq_filter, List.filter_filter]
      refine List.filter_congr fun x _ => ?_
      by_cases hx : x = a <;> simp [hx]
    unfold pending
    rw [hfilter, ((List.perm_cons_erase hmem).flatMap_right σ.initialKinds).length_eq,
      List.flatMap_cons, List.length_append, Nat.add_comm]
  · have hfilter : (List.range σ.kinds.length).filter (· ∉ a :: seen) =
        (List.range σ.kinds.length).filter (· ∉ seen) := by
      refine List.filter_congr fun x hx => ?_
      have hne : x ≠ a := Nat.ne_of_lt (Nat.lt_of_lt_of_le (List.mem_range.1 hx) hge)
      simp [hne]
    unfold pending
    rw [hfilter, initialKinds_of_le hge, List.length_nil, Nat.add_zero]

theorem pending_nil : σ.pending [] = σ.initialCount := by
  have hkinds : (List.range σ.kinds.length).map σ.initialKinds =
      σ.kinds.map Kind.initialKinds := by
    refine List.ext_getElem (by simp) fun i _ h => ?_
    have hi : i < σ.kinds.length := by simpa using h
    simp [initialKinds, fields, Kind.initialKinds, hi]
  unfold pending initialCount
  rw [List.flatMap_def, List.flatMap_def, ← hkinds]
  simp

/-- A search has an answer if its budget covers the frontier and all that is pending. -/
theorem search_ne_none (start : KindId) :
    ∀ {budget : Nat} {seen frontier : List KindId},
      frontier.length + σ.pending seen ≤ budget → σ.search start budget seen frontier ≠ none := by
  intro budget seen frontier
  fun_induction σ.search start budget seen frontier with
  | case1 => intro _; simp
  | case2 => intro h; simp at h
  | case3 => intro _; simp
  | case4 budget seen next rest _ hseen ih =>
    intro h
    refine ih ?_
    simp only [List.length_cons] at h
    omega
  | case5 budget seen next rest _ hseen ih =>
    intro h
    refine ih ?_
    have hp := pending_cons (σ := σ) hseen
    simp only [List.length_cons, List.length_append, List.length_reverse] at h ⊢
    omega

/-! ## The answer -/

/-- A search that says yes has found a path. -/
theorem search_true {start : KindId} {budget : Nat} {seen frontier : List KindId}
    (h : σ.search start budget seen frontier = some true) :
    ∃ x ∈ frontier, ReflTransGen σ.Starts x start := by
  fun_induction σ.search start budget seen frontier with
  | case1 => simp at h
  | case2 => simp at h
  | case3 => exact ⟨_, List.mem_cons_self, .refl⟩
  | case4 _ _ _ _ _ _ ih =>
    obtain ⟨x, hx, hr⟩ := ih h
    exact ⟨x, List.mem_cons_of_mem _ hx, hr⟩
  | case5 budget seen next rest _ _ ih =>
    obtain ⟨x, hx, hr⟩ := ih h
    rcases List.mem_append.1 hx with hx | hx
    · exact ⟨next, List.mem_cons_self, .head (List.mem_reverse.1 hx) hr⟩
    · exact ⟨x, List.mem_cons_of_mem _ hx, hr⟩

/-- What a search has seen is closed under `Starts`, up to its frontier. -/
def Covered (σ : Signature) (start : KindId) (seen frontier : List KindId) : Prop :=
  ∀ a ∈ seen, ∀ b, σ.Starts a b → b ∈ frontier ∨ b ∈ seen ∧ b ≠ start

theorem search_false {start : KindId} {budget : Nat} {seen frontier : List KindId}
    (h : σ.search start budget seen frontier = some false) (hc : σ.Covered start seen frontier) :
    ∃ seen', (∀ a ∈ seen, a ∈ seen') ∧ σ.Covered start seen' [] := by
  fun_induction σ.search start budget seen frontier with
  | case1 _ seen => exact ⟨seen, fun _ ha => ha, hc⟩
  | case2 => simp at h
  | case3 => simp at h
  | case4 budget seen next rest hne hseen ih =>
    refine ih h fun a ha b hab => ?_
    rcases hc a ha b hab with hb | hb
    · rcases List.mem_cons.1 hb with rfl | hb
      · exact .inr ⟨hseen, hne⟩
      · exact .inl hb
    · exact .inr hb
  | case5 budget seen next rest hne hseen ih =>
    have hc' : σ.Covered start (next :: seen) ((σ.initialKinds next).reverse ++ rest) := by
      intro a ha b hab
      rcases List.mem_cons.1 ha with rfl | ha
      · exact .inl (List.mem_append_left _ (List.mem_reverse.2 hab))
      · rcases hc a ha b hab with hb | ⟨hb, hbs⟩
        · rcases List.mem_cons.1 hb with rfl | hb
          · exact .inr ⟨List.mem_cons_self, hne⟩
          · exact .inl (List.mem_append_right _ hb)
        · exact .inr ⟨List.mem_cons_of_mem _ hb, hbs⟩
    obtain ⟨seen', hsub, hclosed⟩ := ih h hc'
    exact ⟨seen', fun a ha => hsub a (List.mem_cons_of_mem _ ha), hclosed⟩

theorem Covered.not_transGen {start : KindId} {seen : List KindId} (hc : σ.Covered start seen [])
    (hs : start ∈ seen) : ¬ TransGen σ.Starts start start := by
  have key : ∀ b, TransGen σ.Starts start b → b ∈ seen ∧ b ≠ start := by
    intro b hb
    induction hb with
    | single hab => simpa using hc start hs _ hab
    | tail _ hab ih => simpa using hc _ ih.1 _ hab
  intro hcycle
  exact (key start hcycle).2 rfl

theorem search_initial_ne_none (id : KindId) :
    σ.search id σ.initialCount [id] (σ.initialKinds id).reverse ≠ none := by
  refine search_ne_none id ?_
  rw [List.length_reverse]
  have h : σ.pending [id] + (σ.initialKinds id).length = σ.pending [] := pending_cons (by simp)
  rw [pending_nil] at h
  omega

/-- A kind is found to be recursive exactly when its initial values lead back to it. -/
theorem isRecursive_iff {id : KindId} : σ.isRecursive id = true ↔ TransGen σ.Starts id id := by
  unfold isRecursive
  constructor
  · intro h
    obtain ⟨x, hx, hr⟩ := search_true (by simpa using h)
    exact .head' (List.mem_reverse.1 hx) hr
  · intro hcycle
    cases hs : σ.search id σ.initialCount [id] (σ.initialKinds id).reverse with
    | none => exact absurd hs (search_initial_ne_none id)
    | some found =>
      cases found with
      | true => rfl
      | false =>
        have hc : σ.Covered id [id] (σ.initialKinds id).reverse := by
          intro a ha b hab
          rw [List.mem_singleton.1 ha] at hab
          exact .inl (List.mem_reverse.2 hab)
        obtain ⟨seen, hsub, hclosed⟩ := search_false hs hc
        exact absurd hcycle (hclosed.not_transGen (hsub id (by simp)))

theorem recursive?_eq_none : σ.recursive? = none ↔ ∀ id, ¬ TransGen σ.Starts id id := by
  have hfind : σ.recursive? = none ↔ ∀ id < σ.kinds.length, σ.isRecursive id = false := by
    unfold recursive?
    simp only [Option.map_eq_none_iff, List.find?_eq_none, Bool.not_eq_true]
    constructor
    · intro h id hid
      exact h (σ.kinds[id], id) (List.mk_mem_zipIdx_iff_getElem?.2 (by simp [hid]))
    · rintro h ⟨k, id⟩ hmem
      have hk := List.mk_mem_zipIdx_iff_getElem?.1 hmem
      exact h id (List.getElem?_eq_some_iff.1 hk).1
  rw [hfind]
  constructor
  · intro h id hcycle
    rcases Nat.lt_or_ge id σ.kinds.length with hlt | hge
    · have := isRecursive_iff.2 hcycle
      rw [h id hlt] at this
      cases this
    · obtain ⟨b, hb, _⟩ := TransGen.head'_iff.1 hcycle
      rw [Starts, initialKinds_of_le hge] at hb
      cases hb
  · intro h id _
    cases hr : σ.isRecursive id with
    | false => rfl
    | true => exact absurd (isRecursive_iff.1 hr) (h id)

end Signature

end Arbor
