import Arbor.Proofs.Assigned

/-!
# Refused builds

A build that its checks refuse has changed nothing. After the checks no child is refused, and no
value that was given as it is. But the values that codecs read from texts meet their fields only
then: a build with such a value that its field does not hold is refused with its node allocated and
all children before the value moved.
-/

namespace Arbor

/-- The assignment is a text that stands for a value that its field does not hold. -/
inductive Assignment.Misread (k : Kind) : Assignment → Prop where
  | raw {field text : String} {p : Place} {v : Value} :
      k.place? field = some p → p.decode (some text) = .ok v → p.checkValue (some v) ≠ .ok () →
      Misread k (.raw field text)

section Answers

variable {σ : Signature} {t : Tree σ} {k : Kind}

/-- Of the values that have passed the checks of a build, those that were read from texts may still
be refused. -/
theorem Assignment.Checked.misread_iff {a : Assignment} {p : Place} (h : a.Checked t k p) :
    (∃ ch ∈ a.changes k, ch.checkValue k ≠ .ok ()) ↔ a.Misread k := by
  have hvalue : ∀ ch ∈ a.changes k, ch.checkValue k = ch.checkValueAt p := by
    intro ch hch
    obtain ⟨hfield, hcat, -⟩ := Assignment.mem_changes hch
    exact Change.checkValue_of_resolve (by rw [hfield, hcat, h.place])
  constructor
  · rintro ⟨ch, hch, hne⟩
    rw [hvalue ch hch] at hne
    cases a with
    | child field c =>
      obtain rfl := List.mem_singleton.1 hch
      exact absurd rfl hne
    | children field cs =>
      obtain ⟨c, -, rfl⟩ := List.mem_map.1 hch
      exact absurd rfl hne
    | data field v =>
      obtain rfl := List.mem_singleton.1 hch
      exact absurd (h.values v (List.mem_singleton.2 rfl)) hne
    | values field vs =>
      obtain ⟨v, hv, rfl⟩ := List.mem_map.1 hch
      exact absurd (h.values v hv) hne
    | raw field text =>
      have hplace : k.place? field = some p := (Kind.resolve_eq_ok.1 h.place).1
      obtain ⟨v, hv⟩ := h.decoded field text rfl
      rw [Assignment.changes, Kind.decoded?_of_decode hplace hv] at hch
      obtain rfl := List.mem_singleton.1 hch
      exact .raw hplace hv hne
  · intro hmisread
    cases hmisread with
    | @raw field text q v hplace hv hne =>
      obtain rfl := Option.some.inj (hplace.symm.trans (Kind.resolve_eq_ok.1 h.place).1)
      have hmem : .setData field v ∈ Assignment.changes k (.raw field text) :=
        List.mem_map_of_mem (Option.mem_toList.2 (Kind.decoded?_of_decode hplace hv))
      exact ⟨_, hmem, by rwa [hvalue _ hmem]⟩

/-- The values of checked assignments all pass exactly if no text is misread. -/
theorem Assignment.forM_checkValue_eq_ok {as : List Assignment}
    (h : ∀ a ∈ as, ∃ p, a.Checked t k p) :
    (as.flatMap (Assignment.changes k)).forM (Change.checkValue k) = .ok () ↔
      ∀ a ∈ as, ¬ a.Misread k := by
  rw [forM_eq_ok, List.forall_mem_flatMap]
  refine forall₂_congr fun a ha => ?_
  obtain ⟨p, hp⟩ := h a ha
  rw [← hp.misread_iff]
  push Not
  rfl

namespace Tree

/-- The tree has the kind and the assignments pass the checks that come before the allocation. -/
def Drafts (t : Tree σ) (kind : String) (as : List Assignment) (k : Kind) : Prop :=
  ∃ kid changes, σ.kindNamed? kind = some (kid, k) ∧ t.draft k as = .ok changes

/-- A build that is not drafted is refused and changes nothing. -/
theorem apply_build_of_not_drafts {kind : String} {as : List Assignment}
    (h : ∀ k, ¬ t.Drafts kind as k) : (t.apply (.build kind as)).1 = t := by
  rw [apply_build]
  cases hkind : σ.kindNamed? kind with
  | none => rfl
  | some found =>
    simp only
    cases hdraft : t.draft found.2 as with
    | error e => rfl
    | ok changes => exact absurd ⟨found.1, changes, hkind, hdraft⟩ (h found.2)

/-- A build that is drafted allocates its node, and it is refused exactly if it has a text that is
misread. -/
theorem apply_build_of_drafts (hσ : σ.Resolved) (hconf : t.Conforms) (hf : t.Forest)
    {kind : String} {as : List Assignment} (h : t.Drafts kind as k) :
    t.size < (t.apply (.build kind as)).1.size ∧
      ((∃ e, (t.apply (.build kind as)).2 = .error e) ↔ ∃ a ∈ as, a.Misread k) := by
  obtain ⟨kid, changes, hkind, hdraft⟩ := h
  have hk := (Signature.kindNamed?_eq_some hkind).1
  obtain ⟨-, ⟨root, hroot, -⟩, -⟩ := building_start hσ hconf hf hk
  constructor
  · rw [apply_build, hkind]
    simp only [hdraft]
    have hsteps := Edit.steps_forM t.size changes (t.alloc kid)
    obtain ⟨n, hn, -⟩ := hsteps.kindsKept t.size root hroot
    exact lt_size_of_node? hn
  · rw [answer_build hkind hdraft, outcome_changes hσ hconf hf hk hdraft (.refl _)]
    obtain ⟨hchecked, rfl⟩ := changes_of_draft hdraft
    have hok := Assignment.forM_checkValue_eq_ok hchecked
    cases hanswer : (as.flatMap (Assignment.changes k)).forM (Change.checkValue k) with
    | ok u =>
      constructor
      · rintro ⟨e, he⟩
        cases he
      · rintro ⟨a, ha, hmisread⟩
        exact absurd hmisread (hok.1 hanswer a ha)
    | error e =>
      refine ⟨fun _ => ?_, fun _ => ⟨e, rfl⟩⟩
      by_contra hnone
      push Not at hnone
      cases hanswer.symm.trans (hok.2 hnone)

end Tree

end Answers

/-- A build of a reachable tree is refused and has changed the tree exactly if it passes the checks
that come before the allocation and has a text that stands for a value that its field does not hold.
So a refused build leaves the whole tree as it was if it has no such text. -/
theorem refused_build_changes_iff {ts : List Template} {s : Schema}
    (hs : Schema.generate ts = .ok s) {t : Tree s.signature} (ht : t.Reachable) (kind : String)
    (as : List Assignment) :
    ((∃ e, (t.apply (.build kind as)).2 = .error e) ∧ (t.apply (.build kind as)).1 ≠ t ↔
      ∃ k, t.Drafts kind as k ∧ ∃ a ∈ as, a.Misread k) ∧
    ((∀ k ∈ s.signature.kinds, ∀ a ∈ as, ¬ a.Misread k) →
      ∀ e, (t.apply (.build kind as)).2 = .error e → (t.apply (.build kind as)).1 = t) := by
  have hσ := resolved_of_generate hs
  have hconf := ht.conforms hσ
  have hf := ht.forest hσ
  have hiff : (∃ e, (t.apply (.build kind as)).2 = .error e) ∧ (t.apply (.build kind as)).1 ≠ t ↔
      ∃ k, t.Drafts kind as k ∧ ∃ a ∈ as, a.Misread k := by
    constructor
    · rintro ⟨hrefused, hchanged⟩
      obtain ⟨k, hdrafts⟩ : ∃ k, t.Drafts kind as k := by
        by_contra hnone
        exact hchanged (Tree.apply_build_of_not_drafts (not_exists.1 hnone))
      exact ⟨k, hdrafts, (Tree.apply_build_of_drafts hσ hconf hf hdrafts).2.1 hrefused⟩
    · rintro ⟨k, hdrafts, hmisread⟩
      obtain ⟨hsize, hrefused⟩ := Tree.apply_build_of_drafts hσ hconf hf hdrafts
      exact ⟨hrefused.2 hmisread, fun hsame => Nat.ne_of_lt hsize (congrArg Tree.size hsame).symm⟩
  refine ⟨hiff, fun hnone e he => ?_⟩
  by_contra hchanged
  obtain ⟨k, ⟨kid, _, hkind, -⟩, a, ha, hmisread⟩ := hiff.1 ⟨⟨e, he⟩, hchanged⟩
  have hk : k ∈ s.signature.kinds :=
    List.mem_of_getElem? (Signature.kindNamed?_eq_some hkind).1
  exact hnone k hk a ha hmisread

/-- A box is no item, so the crate is refused, and nothing has happened to the box. -/
theorem refused_build_unchanged_crateTree :
    Schema.generate crateTemplates = .ok (Schema.ofTemplates crateTemplates) ∧
      crateTree.Reachable ∧
      (crateTree.apply (.build "Crate" [.child "item" 1])).2 =
        .error (.contract "Crate" "item" (.notAccepted "Item" "Box" none)) ∧
      (crateTree.apply (.build "Crate" [.child "item" 1])).1 = crateTree := by
  have hrefused : (crateTree.apply (.build "Crate" [.child "item" 1])).2 =
      .error (.contract "Crate" "item" (.notAccepted "Item" "Box" none)) := by rfl
  refine ⟨generate_crateTemplates, reachable_crateTree, hrefused,
    (refused_build_changes_iff generate_crateTemplates reachable_crateTree _ _).2 ?_ _ hrefused⟩
  intro k _ a ha hmisread
  obtain rfl := List.mem_singleton.1 ha
  cases hmisread

/-- The level that the text stands for is out of bounds. The build is refused with the crate
allocated, and the crate has taken the item out of the box. -/
theorem refused_build_changes_crateTree :
    Schema.generate crateTemplates = .ok (Schema.ofTemplates crateTemplates) ∧
      crateTree.Reachable ∧ crateTree.size = 2 ∧ crateTree.parent? 0 = some 1 ∧
      (crateTree.apply (.build "Crate" [.child "item" 0, .raw "level" "5"])).2 =
        .error (.contract "Crate" "level" (.outOfBounds 42 0 9)) ∧
      (crateTree.apply (.build "Crate" [.child "item" 0, .raw "level" "5"])).1.size = 3 ∧
      (crateTree.apply (.build "Crate" [.child "item" 0, .raw "level" "5"])).1.parent? 0 =
        some 2 :=
  ⟨generate_crateTemplates, reachable_crateTree, by decide +kernel, by decide +kernel, by rfl,
    by decide +kernel, by decide +kernel⟩

end Arbor
