import Arbor.Proofs.Ownership
import Arbor.Tree.Walk

/-!
# Traversal

A walk keeps a work list and stops after a bounded number of visits. `Preorder ids out` says without
a bound what comes of the work list `ids`: each of its nodes, followed by what comes of the node's
children. In a forest every work list comes to an end, a walk never runs into its bound, and the
upward view of ancestors agrees with the downward view of walks: a walk visits exactly the nodes
that its start is an ancestor of. So the walks of all roots share out the nodes of the tree.
-/

namespace Arbor

open Relation

namespace Tree

variable {σ : Signature} {t : Tree σ}

/-- The nodes `ids`, each followed by everything below it, are `out`. -/
inductive Preorder (t : Tree σ) : List NodeId → List NodeId → Prop where
  | nil : Preorder t [] []
  | cons {id : NodeId} {rest below after : List NodeId} :
      Preorder t (t.childNodes id) below → Preorder t rest after →
      Preorder t (id :: rest) (id :: (below ++ after))

/-! ## The work list -/

theorem visit_nil (bound : Nat) : t.visit bound [] = [] := by
  cases bound <;> rfl

namespace Preorder

variable {ids rest out : List NodeId}

/-- Once everything below the first nodes of a work list is visited, the visit goes on with the
others. -/
theorem visit_append (h : t.Preorder ids out) (rest : List NodeId) (bound : Nat) :
    t.visit (out.length + bound) (ids ++ rest) = out ++ t.visit bound rest := by
  induction h generalizing rest bound with
  | nil => simp
  | @cons id ids below after _ _ ihb iha =>
    have hlen : (id :: (below ++ after)).length + bound =
        below.length + (after.length + bound) + 1 := by
      simp only [List.length_cons, List.length_append]
      omega
    rw [hlen, List.cons_append, visit, ihb, iha]
    simp

theorem visit_eq (h : t.Preorder ids out) {bound : Nat} (hb : out.length ≤ bound) :
    t.visit bound ids = out := by
  have hvisit := h.visit_append [] (bound - out.length)
  rwa [visit_nil, List.append_nil, List.append_nil, Nat.add_sub_cancel' hb] at hvisit

theorem unique (h : t.Preorder ids out) {out' : List NodeId} (h' : t.Preorder ids out') :
    out = out' := by
  rw [← h.visit_eq (Nat.le_add_right _ out'.length), h'.visit_eq (Nat.le_add_left _ _)]

theorem of_singleton {r : NodeId} (h : t.Preorder [r] out) :
    ∃ below, t.Preorder (t.childNodes r) below ∧ out = r :: below := by
  cases h with
  | @cons _ _ below after hbelow hafter =>
    cases hafter
    exact ⟨below, hbelow, by simp⟩

/-- A work list ends if the children of all its nodes do. -/
theorem exists_of_children (h : ∀ id ∈ ids, ∃ below, t.Preorder (t.childNodes id) below) :
    ∃ out, t.Preorder ids out := by
  induction ids with
  | nil => exact ⟨[], .nil⟩
  | cons id ids ih =>
    obtain ⟨below, hbelow⟩ := h id List.mem_cons_self
    obtain ⟨after, hafter⟩ := ih fun x hx => h x (List.mem_cons_of_mem _ hx)
    exact ⟨_, .cons hbelow hafter⟩

end Preorder

/-- No node of the list is at or below another one. -/
def Apart (t : Tree σ) (ids : List NodeId) : Prop :=
  ids.Pairwise fun a b => ¬ ReflTransGen t.ChildOf a b ∧ ¬ ReflTransGen t.ChildOf b a

/-! ## Forests -/

namespace Forest

variable {ids out : List NodeId}

/-- In a forest every work list ends: the number of ancestors grows on the way down and stays below
the size of the tree. -/
theorem exists_preorder_children (h : t.Forest) (id : NodeId) :
    ∃ below, t.Preorder (t.childNodes id) below := by
  induction hm : t.size - (t.ancestors id).length using Nat.strongRecOn generalizing id with
  | _ m ih =>
    refine Preorder.exists_of_children fun c hc => ih _ ?_ c rfl
    have hparent : t.ChildOf c id := (h.owned id c).1 hc
    have hlt := h.length_ancestors_lt (h.lt_size hc)
    rw [h.length_ancestors_child hparent] at hlt ⊢
    omega

/-- What comes of a work list are the nodes at or below its nodes. -/
theorem mem_preorder (h : t.Forest) (hout : t.Preorder ids out) {n : NodeId} :
    n ∈ out ↔ ∃ r ∈ ids, ReflTransGen t.ChildOf n r := by
  induction hout with
  | nil => simp
  | @cons id ids below after _ _ ihb iha =>
    have hchild : ∀ c, c ∈ t.childNodes id ↔ t.ChildOf c id := h.owned id
    simp only [List.mem_cons, List.mem_append, ihb, iha, exists_eq_or_imp,
      ReflTransGen.cases_tail_iff t.ChildOf n id, hchild, or_assoc, eq_comm (a := id)]
    simp only [and_comm]

theorem apart_childNodes (h : t.Forest) (id : NodeId) : t.Apart (t.childNodes id) := by
  have hnot : ∀ a ∈ t.childNodes id, ∀ b ∈ t.childNodes id, a ≠ b →
      ¬ ReflTransGen t.ChildOf a b := by
    intro a ha b hb hne hab
    rcases ReflTransGen.cases_head hab with hab | ⟨p, hp, hpb⟩
    · exact hne hab
    · obtain rfl : p = id := Option.some.inj (hp.symm.trans ((h.owned id a).1 ha))
      exact h.acyclic p (.tail' hpb ((h.owned p b).1 hb))
  refine (h.once id).imp_of_mem fun ha hb hne => ?_
  exact ⟨hnot _ ha _ hb hne, hnot _ hb _ ha hne.symm⟩

/-- Nothing is visited twice from nodes that are apart. -/
theorem nodup_preorder (h : t.Forest) (hout : t.Preorder ids out) (hids : t.Apart ids) :
    out.Nodup := by
  induction hout with
  | nil => exact .nil
  | @cons id ids below after hbelow hafter ihb iha =>
    obtain ⟨hhead, hrest⟩ := List.pairwise_cons.1 hids
    have hup : ∀ n ∈ below, t.Below n id := by
      intro n hn
      obtain ⟨c, hc, hnc⟩ := (h.mem_preorder hbelow).1 hn
      exact .tail' hnc ((h.owned id c).1 hc)
    have hoff : ∀ n ∈ after, ¬ ReflTransGen t.ChildOf n id := by
      intro n hn hnid
      obtain ⟨r, hr, hnr⟩ := (h.mem_preorder hafter).1 hn
      rcases leads_total hnid hnr with hle | hle
      · exact (hhead r hr).1 hle
      · exact (hhead r hr).2 hle
    refine List.nodup_cons.2 ⟨fun hid => ?_, List.nodup_append.2
      ⟨ihb (h.apart_childNodes id), iha hrest, fun a ha b hb hab => ?_⟩⟩
    · rcases List.mem_append.1 hid with hid | hid
      · exact h.acyclic id (hup id hid)
      · exact hoff id hid .refl
    · subst hab
      exact hoff a hb (hup a ha).to_reflTransGen

theorem lt_size_of_leads {n r : NodeId} (hr : r < t.size) (hn : ReflTransGen t.ChildOf n r) :
    n < t.size := by
  rcases ReflTransGen.cases_head hn with rfl | ⟨p, hp, -⟩
  · exact hr
  · exact lt_size_of_parent? hp

theorem length_preorder_le (h : t.Forest) (hout : t.Preorder ids out) (hids : t.Apart ids)
    (hlt : ∀ r ∈ ids, r < t.size) : out.length ≤ t.size := by
  have hsub : out ⊆ List.range t.size := by
    intro n hn
    obtain ⟨r, hr, hnr⟩ := (h.mem_preorder hout).1 hn
    exact List.mem_range.2 (lt_size_of_leads (hlt r hr) hnr)
  have hlen := (List.subperm_of_subset (h.nodup_preorder hout hids) hsub).length_le
  rwa [List.length_range] at hlen

/-! ## Walks -/

/-- The bound of a walk is never in the way. -/
theorem preorder_visit (h : t.Forest) {r : NodeId} (hr : r < t.size) {bound : Nat}
    (hb : t.size ≤ bound) : t.Preorder [r] (t.visit bound [r]) := by
  obtain ⟨out, hout⟩ := Preorder.exists_of_children fun id (_ : id ∈ [r]) =>
    h.exists_preorder_children id
  have hlen := h.length_preorder_le hout (List.pairwise_singleton _ r) (by simpa using hr)
  rwa [hout.visit_eq (Nat.le_trans hlen hb)]

theorem preorder_walk (h : t.Forest) {r : NodeId} (hr : r < t.size) : t.Preorder [r] (t.walk r) :=
  h.preorder_visit hr (Nat.le_refl _)

theorem preorder_flatMap_walk (h : t.Forest) (hids : ∀ r ∈ ids, r < t.size) :
    t.Preorder ids (ids.flatMap t.walk) := by
  induction ids with
  | nil => exact .nil
  | cons r ids ih =>
    obtain ⟨below, hbelow, hwalk⟩ := (h.preorder_walk (hids r List.mem_cons_self)).of_singleton
    rw [List.flatMap_cons, hwalk]
    exact .cons hbelow (ih fun x hx => hids x (List.mem_cons_of_mem _ hx))

/-- A walk is the recursive pre-order. -/
theorem walk_eq (h : t.Forest) {r : NodeId} (hr : r < t.size) :
    t.walk r = r :: (t.childNodes r).flatMap t.walk := by
  obtain ⟨below, hbelow, hwalk⟩ := (h.preorder_walk hr).of_singleton
  rw [hwalk, hbelow.unique (h.preorder_flatMap_walk fun c hc => h.lt_size hc)]

theorem nodup_walk (h : t.Forest) {r : NodeId} (hr : r < t.size) : (t.walk r).Nodup :=
  h.nodup_preorder (h.preorder_walk hr) (List.pairwise_singleton _ r)

theorem mem_walk (h : t.Forest) {r : NodeId} (hr : r < t.size) {n : NodeId} :
    n ∈ t.walk r ↔ ReflTransGen t.ChildOf n r := by
  simpa using h.mem_preorder (h.preorder_walk hr)

theorem mem_walk_iff_ancestors (h : t.Forest) {r : NodeId} (hr : r < t.size) {n : NodeId} :
    n ∈ t.walk r ↔ n = r ∨ r ∈ t.ancestors n := by
  rw [h.mem_walk hr, h.mem_ancestors, reflTransGen_iff_eq_or_transGen, eq_comm]
  rfl

/-! ## Roots -/

theorem leads_rootOf (h : t.Forest) (n : NodeId) :
    ReflTransGen t.ChildOf n (t.rootOf n) ∧ t.parent? (t.rootOf n) = none :=
  h.acyclic.leads_rootOf h.parentsExist n

theorem rootOf_lt_size (h : t.Forest) {n : NodeId} (hn : n < t.size) : t.rootOf n < t.size := by
  rcases ReflTransGen.cases_tail (h.leads_rootOf n).1 with hroot | ⟨c, -, hc⟩
  · rwa [hroot]
  · exact h.parentsExist c _ hc

/-- The root of a node is the only root that parents lead to. -/
theorem eq_rootOf (h : t.Forest) {n r : NodeId} (hroot : t.parent? r = none)
    (hn : ReflTransGen t.ChildOf n r) : r = t.rootOf n := by
  obtain ⟨hleads, hnone⟩ := h.leads_rootOf n
  rcases leads_total hn hleads with hle | hle
  · exact eq_of_leads_of_root hroot hle
  · exact (eq_of_leads_of_root hnone hle).symm

end Forest

/-- The nodes without a parent. -/
def roots (t : Tree σ) : List NodeId :=
  (List.range t.size).filter fun id => (t.parent? id).isNone

theorem mem_roots {r : NodeId} : r ∈ t.roots ↔ r < t.size ∧ t.parent? r = none := by
  simp [roots]

theorem apart_roots : t.Apart t.roots := by
  have hnd : t.roots.Nodup := List.nodup_range.filter _
  refine hnd.imp_of_mem fun ha hb hne => ⟨fun hab => ?_, fun hba => ?_⟩
  · exact hne (eq_of_leads_of_root (mem_roots.1 ha).2 hab)
  · exact hne (eq_of_leads_of_root (mem_roots.1 hb).2 hba).symm

/-- The walks of the roots share out the nodes of a forest. -/
theorem Forest.perm_walks (h : t.Forest) : (t.roots.flatMap t.walk).Perm (List.range t.size) := by
  have hlt : ∀ r ∈ t.roots, r < t.size := fun r hr => (mem_roots.1 hr).1
  have hout := h.preorder_flatMap_walk hlt
  refine (List.perm_ext_iff_of_nodup (h.nodup_preorder hout apart_roots) List.nodup_range).2 ?_
  intro n
  rw [h.mem_preorder hout, List.mem_range]
  constructor
  · rintro ⟨r, hr, hnr⟩
    exact Forest.lt_size_of_leads (hlt r hr) hnr
  · intro hn
    obtain ⟨hleads, hnone⟩ := h.leads_rootOf n
    exact ⟨t.rootOf n, mem_roots.2 ⟨h.rootOf_lt_size hn, hnone⟩, hleads⟩

end Tree

/-- In a reachable tree of a generated schema a walk ends by itself and is the recursive pre-order
of its start. It visits no node twice, and it visits just its start and the nodes that the start is
an ancestor of. The root of a node is the only node without a parent whose walk visits it, and the
walks of all nodes without a parent together visit each node of the tree once. -/
theorem walks_partition_of_reachable {ts : List Template} {s : Schema}
    (hs : Schema.generate ts = .ok s) {t : Tree s.signature} (ht : t.Reachable) :
    (∀ r < t.size,
      (∀ bound, t.size ≤ bound → t.visit bound [r] = t.walk r) ∧
      t.walk r = r :: (t.childNodes r).flatMap t.walk ∧
      (t.walk r).Nodup ∧
      ∀ n, n ∈ t.walk r ↔ n = r ∨ r ∈ t.ancestors n) ∧
    (∀ n < t.size, t.rootOf n < t.size ∧ t.parent? (t.rootOf n) = none ∧
      n ∈ t.walk (t.rootOf n) ∧
      ∀ r < t.size, t.parent? r = none → n ∈ t.walk r → r = t.rootOf n) ∧
    (t.roots.flatMap t.walk).Perm (List.range t.size) := by
  have h : t.Forest := ht.forest (resolved_of_generate hs)
  refine ⟨fun r hr => ⟨fun bound hb => ?_, h.walk_eq hr, h.nodup_walk hr,
    fun n => h.mem_walk_iff_ancestors hr⟩, fun n hn => ?_, h.perm_walks⟩
  · exact (h.preorder_visit hr hb).unique (h.preorder_walk hr)
  · obtain ⟨hleads, hnone⟩ := h.leads_rootOf n
    have hlt := h.rootOf_lt_size hn
    exact ⟨hlt, hnone, (h.mem_walk hlt).2 hleads,
      fun r hr hroot hnr => h.eq_rootOf hroot ((h.mem_walk hr).1 hnr)⟩

/-- A section has a leading section and further parts. -/
def sectionTemplates : List Template :=
  [{ name := "Section"
     fields := [.child "lead" "Section", .children "parts" "Section"] }]

/-- Section 2 has the parts 0 and 1 and leads section 3. Then part 1 is moved below part 0, and
section 4 is left alone. -/
def sectionTree : Tree (Schema.ofTemplates sectionTemplates).signature :=
  (Tree.empty.applyAll
    [.build "Section" [],
     .build "Section" [],
     .build "Section" [.children "parts" [0, 1]],
     .build "Section" [.child "lead" 2],
     .setChild 0 "lead" (some 1),
     .build "Section" []]).1

theorem generate_sectionTemplates :
    Schema.generate sectionTemplates = .ok (Schema.ofTemplates sectionTemplates) := by
  rfl

theorem reachable_sectionTree : sectionTree.Reachable :=
  Tree.Reachable.empty.applyAll (by decide +kernel)

/-- The parents lead from section 1 over 0 and 2 to 3, and the walk of 3 comes back the same way. -/
theorem walks_partition_sectionTree :
    Schema.generate sectionTemplates = .ok (Schema.ofTemplates sectionTemplates) ∧
      sectionTree.Reachable ∧ sectionTree.ancestors 1 = [0, 2, 3] ∧ 1 ∈ sectionTree.walk 3 ∧
      sectionTree.walk 3 = [3, 2, 0, 1] ∧ sectionTree.roots = [3, 4] ∧
      ([3, 4].flatMap sectionTree.walk).Perm (List.range 5) := by
  have hall := walks_partition_of_reachable generate_sectionTemplates reachable_sectionTree
  have hsize : sectionTree.size = 5 := by decide +kernel
  have hancestors : sectionTree.ancestors 1 = [0, 2, 3] := by decide +kernel
  have hroots : sectionTree.roots = [3, 4] := by decide +kernel
  refine ⟨generate_sectionTemplates, reachable_sectionTree, hancestors, ?_, by decide +kernel,
    hroots, hsize ▸ hroots ▸ hall.2.2⟩
  exact ((hall.1 3 (by decide +kernel)).2.2.2 1).2 (.inr (by decide +kernel))

end Arbor
