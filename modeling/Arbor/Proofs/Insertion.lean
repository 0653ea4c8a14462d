import Arbor.Proofs.Moves

/-!
# Insertions

The position of an insertion counts the list without the inserted node. So an insertion within a
list, from another list and of a root all read the same: the other nodes of the list keep their
order and the inserted node stands among them where it was asked for. Asked for again it stays
there, and a root that is taken out again leaves no trace.
-/

namespace Arbor

theorem filter_ne_of_not_mem {l : List NodeId} {c : NodeId} (hc : c ∉ l) :
    l.filter (· ≠ c) = l := by
  refine List.filter_eq_self.2 fun x hx => ?_
  have hne : x ≠ c := fun he => hc (he ▸ hx)
  simpa using hne

theorem filter_ne_insertIdx {l : List NodeId} {c : NodeId} (hc : c ∉ l) (i : Nat) :
    (l.insertIdx i c).filter (· ≠ c) = l := by
  induction l generalizing i with
  | nil => cases i <;> simp
  | cons x l ih =>
    cases i with
    | zero => rw [List.insertIdx_zero, List.filter_cons_of_neg (by simp), filter_ne_of_not_mem hc]
    | succ i =>
      have hne : x ≠ c := (List.ne_of_not_mem_cons hc).symm
      rw [List.insertIdx_succ_cons, List.filter_cons_of_pos (by simpa using hne),
        ih (List.not_mem_of_not_mem_cons hc)]

namespace ListView

variable {σ : Signature} {t : Tree σ} {v : ListView} {i : Nat} {c : NodeId}

/-- The nodes of the list other than `c`. -/
def others (v : ListView) (t : Tree σ) (c : NodeId) : List NodeId :=
  (v.contents t).filter (· ≠ c)

/-- The node `c` may be stored in the list. -/
structure Admits (v : ListView) (t : Tree σ) (c : NodeId) : Prop where
  category : v.place.field.category = .listChild
  takes : t.Takes v.place.field c
  ne : c ≠ v.binding.target
  notAbove : c ∉ t.ancestors v.binding.target

theorem others_of_slot? {held : List NodeId} (hs : v.slot? t = some (.children held))
    (c : NodeId) : v.others t c = held.filter (· ≠ c) := by
  rw [others, contents_of_slot? hs]
  rfl

theorem not_mem_others (v : ListView) (t : Tree σ) (c : NodeId) : c ∉ v.others t c := by
  simp [others]

theorem isChildList_iff (hconf : t.Conforms) (hv : t.openList v.binding = .ok v) :
    v.isChildList t = true ↔ v.place.field.category = .listChild := by
  refine ⟨category_of_isChildList hconf hv, fun hcat => ?_⟩
  obtain ⟨n, hof⟩ := place_of hv
  obtain ⟨s, hs, hfits⟩ := hconf.slot?_of hof
  obtain ⟨held, rfl⟩ := hfits.eq_children hcat
  exact isChildList_eq_true.2 ⟨held, hs⟩

theorem checkInsert_iff_admits (hσ : σ.Resolved) (hconf : t.Conforms) (hf : t.Forest)
    (hv : t.openList v.binding = .ok v) :
    v.checkInsert t i c = .ok () ↔ v.Admits t c ∧ i ≤ (v.others t c).length := by
  obtain ⟨n, hof⟩ := place_of hv
  rw [checkInsert_eq_ok, Tree.checkAttachable_iff_takes (Tree.resolved_of_place hσ hof)]
  constructor
  · rintro ⟨hl, ⟨htakes, hne, habove⟩, hi⟩
    obtain ⟨held, hs⟩ := isChildList_eq_true.1 hl
    rw [lengthWithout_eq hf hs, ← others_of_slot? hs] at hi
    exact ⟨⟨(isChildList_iff hconf hv).1 hl, htakes, hne, habove⟩, hi⟩
  · rintro ⟨⟨hcat, htakes, hne, habove⟩, hi⟩
    have hl := (isChildList_iff hconf hv).2 hcat
    obtain ⟨held, hs⟩ := isChildList_eq_true.1 hl
    rw [others_of_slot? hs, ← lengthWithout_eq hf hs] at hi
    exact ⟨hl, ⟨htakes, hne, habove⟩, hi⟩

/-- At the end is behind all other nodes. -/
theorem addToEnd_iff_insert (hf : t.Forest) {t' : Tree σ} :
    v.addToEnd c t = .ok () t' ↔ v.insert (v.others t c).length c t = .ok () t' := by
  rw [addToEnd_eq_ok, insert_eq_ok]
  cases hl : v.isChildList t with
  | false => simp [checkInsert_eq_ok, hl]
  | true =>
    obtain ⟨held, hs⟩ := isChildList_eq_true.1 hl
    rw [lengthWithout_eq hf hs, others_of_slot? hs]

section PutAt

variable (hf : t.Forest) (hc : v.checkInsert t i c = .ok ())
include hf hc

theorem slot?_putAt_self :
    v.slot? (v.putAt t i c) = some (.children ((v.others t c).insertIdx i c)) := by
  obtain ⟨held, hs⟩ := isChildList_eq_true.1 (checkInsert_eq_ok.1 hc).1
  have hold : t.slot? v.binding.target v.place.index = some (.children held) := hs
  rw [others_of_slot? hs, slot?, slot?_putAt hf hs, hold, Option.map_some, if_pos ⟨rfl, rfl⟩]

theorem mem_putAt : c ∈ (v.others t c).insertIdx i c := by
  obtain ⟨hl, -, hi⟩ := checkInsert_eq_ok.1 hc
  obtain ⟨held, hs⟩ := isChildList_eq_true.1 hl
  rw [lengthWithout_eq hf hs, ← others_of_slot? hs] at hi
  exact (List.mem_insertIdx hi).2 (.inl rfl)

/-- An insertion moves the inserted node. -/
theorem moves_putAt : t.Moves (some c) none v.binding.target v.place.index
    (.children ((v.others t c).insertIdx i c)) (v.putAt t i c) := by
  obtain ⟨hl, hattach, -⟩ := checkInsert_eq_ok.1 hc
  obtain ⟨⟨n, hn, -⟩, -⟩ := Tree.checkAttachable_eq_ok.1 hattach
  obtain ⟨held, hs⟩ := isChildList_eq_true.1 hl
  have hsize : (v.putAt t i c).size = t.size := by simp [putAt]
  refine hf.moves hs hsize (fun x => ?_) (fun x => ?_) (fun x j => ?_) (fun x hx => by cases hx)
  · exact (Tree.kindsKept_putAt v i c).kindId_eq hsize x
  · rw [putAt, Tree.parent?_setSlot,
      Tree.parent?_adopt (hf.ownedOnly c) (Tree.lt_size_of_node? hn)]
    simp [eq_comm]
  · rw [slot?_putAt hf hs, others_of_slot? hs]
    rfl

/-- The same insertion once more changes nothing. -/
theorem insert_putAt : v.insert i c (v.putAt t i c) = .ok () (v.putAt t i c) := by
  obtain ⟨hl, hattach, hi⟩ := checkInsert_eq_ok.1 hc
  obtain ⟨⟨n, hn, hacc⟩, hne, -⟩ := Tree.checkAttachable_eq_ok.1 hattach
  have hforest := forest_putAt hf hc
  have hslot := slot?_putAt_self hf hc
  have hmem := mem_putAt hf hc
  have hothers : ((v.others t c).insertIdx i c).filter (· ≠ c) = v.others t c :=
    filter_ne_insertIdx (v.not_mem_others t c) i
  refine insert_eq_ok.2 ⟨checkInsert_eq_ok.2 ⟨isChildList_eq_true.2 ⟨_, hslot⟩, ?_, ?_⟩, ?_⟩
  · obtain ⟨n', hn', hkind⟩ := Tree.kindsKept_putAt v i c c n hn
    refine Tree.checkAttachable_eq_ok.2 ⟨⟨n', hn', hkind ▸ hacc⟩, hne, fun habove => ?_⟩
    -- The inserted node is now below the list's node, so it cannot be above it.
    have hparent := (moves_putAt hf hc).parent c rfl
    exact hforest.acyclic c (.head hparent (hforest.mem_ancestors.1 habove))
  · obtain ⟨held, hs⟩ := isChildList_eq_true.1 hl
    rwa [lengthWithout_eq hforest hslot, hothers, others_of_slot? hs, ← lengthWithout_eq hf hs]
  · rw [putAt_eq hforest hslot, hothers]
    exact (hforest.move_self hslot hmem).symm

/-- A root that is taken out of the list again leaves the tree as it was. -/
theorem remove_putAt (hroot : t.parent? c = none) :
    v.remove c (v.putAt t i c) = .ok () t := by
  obtain ⟨hl, hattach, -⟩ := checkInsert_eq_ok.1 hc
  obtain ⟨⟨n, hn, -⟩, -⟩ := Tree.checkAttachable_eq_ok.1 hattach
  obtain ⟨held, hs⟩ := isChildList_eq_true.1 hl
  refine remove_eq_ok.2 ⟨checkElement_eq_ok.2 ⟨_, slot?_putAt_self hf hc, mem_putAt hf hc⟩, ?_⟩
  have hforest := forest_putAt hf hc
  have hfree : c ∉ held := fun hmem => by
    have hparent := (hf.owned _ c).1 (Tree.mem_childNodes.2 ⟨v.place.index, _, hs, hmem⟩)
    cases hroot.symm.trans hparent
  rw [putAt_eq hf hs, filter_ne_of_not_mem hfree] at hforest ⊢
  refine (hf.detach_move hs hroot (Tree.lt_size_of_node? hn) ?_ hforest).symm
  rw [Slot.without, filter_ne_insertIdx hfree]

end PutAt

end ListView

/-- A node is inserted into a list of a reachable tree exactly if the list is one of nodes that
takes it, it is not at or above the list's node, and the position is not behind the other nodes of
the list. Then only this node moves, to its position among the others; at the end it comes behind
all of them and at the start before all. The same insertion once more changes nothing, and removing
an inserted root restores the tree. -/
theorem insertion_moves_one {ts : List Template} {s : Schema} (hs : Schema.generate ts = .ok s)
    {t : Tree s.signature} (ht : t.Reachable) {a : ListAddress} {v : ListView}
    (hv : t.openAddress a = .ok v) (c : NodeId) :
    (∀ i, (∃ t', v.insert i c t = .ok () t') ↔ v.Admits t c ∧ i ≤ (v.others t c).length) ∧
    (∀ i t', v.insert i c t = .ok () t' →
      t.Moves (some c) none v.binding.target v.place.index
        (.children ((v.others t c).insertIdx i c)) t' ∧
      v.insert i c t' = .ok () t' ∧
      (t.parent? c = none → v.remove c t' = .ok () t)) ∧
    ((∃ t', v.addToEnd c t = .ok () t') ↔ v.Admits t c) ∧
    (∀ t', v.addToEnd c t = .ok () t' →
      t.Moves (some c) none v.binding.target v.place.index (.children (v.others t c ++ [c])) t') ∧
    ((∃ t', v.addToStart c t = .ok () t') ↔ v.Admits t c) ∧
    ∀ t', v.addToStart c t = .ok () t' →
      t.Moves (some c) none v.binding.target v.place.index (.children (c :: v.others t c)) t' := by
  have hσ := resolved_of_generate hs
  have hconf := ht.conforms hσ
  have hf := ht.forest hσ
  have hself := Tree.openAddress_self hv
  have hinsert : ∀ i, (∃ t', v.insert i c t = .ok () t') ↔
      v.Admits t c ∧ i ≤ (v.others t c).length := fun i => by
    simp only [ListView.insert_eq_ok, exists_and_left, exists_eq, and_true,
      ListView.checkInsert_iff_admits hσ hconf hf hself]
  have hmoves : ∀ {i t'}, v.insert i c t = .ok () t' →
      t.Moves (some c) none v.binding.target v.place.index
        (.children ((v.others t c).insertIdx i c)) t' := fun h => by
    obtain ⟨hc, rfl⟩ := ListView.insert_eq_ok.1 h
    exact ListView.moves_putAt hf hc
  refine ⟨hinsert, fun i t' h => ⟨hmoves h, ?_⟩, ?_, fun t' h => ?_, ?_, fun t' h => hmoves h⟩
  · obtain ⟨hc, rfl⟩ := ListView.insert_eq_ok.1 h
    exact ⟨ListView.insert_putAt hf hc, ListView.remove_putAt hf hc⟩
  · simp only [ListView.addToEnd_iff_insert hf, hinsert, Nat.le_refl, and_true]
  · have hend := hmoves ((ListView.addToEnd_iff_insert hf).1 h)
    rwa [List.insertIdx_length_self] at hend
  · exact (hinsert 0).trans (and_iff_left (Nat.zero_le _))

/-- Section 3 has the parts 0, 1 and 2, and section 4 is a root. -/
def partsTree : Tree (Schema.ofTemplates sectionTemplates).signature :=
  (Tree.empty.applyAll
    [.build "Section" [],
     .build "Section" [],
     .build "Section" [],
     .build "Section" [.children "parts" [0, 1, 2]],
     .build "Section" []]).1

theorem reachable_partsTree : partsTree.Reachable :=
  Tree.Reachable.empty.applyAll (by decide +kernel)

/-- Part 0 moves behind the other two, and no further. Section 4 comes between the parts and goes
again. -/
theorem insertion_moves_one_partsTree :
    Schema.generate sectionTemplates = .ok (Schema.ofTemplates sectionTemplates) ∧
      partsTree.Reachable ∧ ∃ v, partsTree.openAddress (.field 3 "parts") = .ok v ∧
        v.contents partsTree = [0, 1, 2] ∧
        (∃ t', v.insert 2 0 partsTree = .ok () t' ∧
          t'.slot? 3 1 = some (.children [1, 2, 0])) ∧
        (¬ ∃ t', v.insert 3 0 partsTree = .ok () t') ∧
        ∃ t', v.insert 1 4 partsTree = .ok () t' ∧ t'.slot? 3 1 = some (.children [0, 4, 1, 2]) ∧
          v.insert 1 4 t' = .ok () t' ∧ v.remove 4 t' = .ok () partsTree := by
  have hv : partsTree.openAddress (.field 3 "parts") = .ok ⟨⟨3, 3, "parts"⟩, ⟨_, 1, _⟩⟩ := rfl
  have hall := insertion_moves_one generate_sectionTemplates reachable_partsTree hv
  refine ⟨generate_sectionTemplates, reachable_partsTree, _, hv, by rfl, ?_, ?_, ?_⟩
  · exact ⟨_, rfl, ((hall 0).2.1 2 _ rfl).1.slot⟩
  · rw [(hall 0).1 3]
    exact fun h => absurd h.2 (by decide +kernel)
  · obtain ⟨hmoves, hagain, hremove⟩ := (hall 4).2.1 1 _ rfl
    exact ⟨_, rfl, hmoves.slot, hagain, hremove (by decide +kernel)⟩

end Arbor
