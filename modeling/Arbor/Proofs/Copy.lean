import Arbor.Proofs.Bisimulation
import Arbor.Standard

/-!
# Copies

A copy of a subtree is a block of new nodes. Each of them stands where the copy of one node of the
subtree begins, which makes a bisimulation between the old tree and the new one. The old nodes are
in a bisimulation with themselves. So after a copy the nodes at the same position of the walks of
original and copy give the same answers, and the original nodes give the answers they gave before.

Validation is among the answers if the checks of the schema see no more of a tree than a
bisimulation shows. The checks of the standard catalogue are of this sort.
-/

namespace Arbor

/-! ## Validation -/

/-- Two diagnostics give the same message about related nodes. -/
structure Diagnostic.Match (R : NodeId → NodeId → Prop) (d d' : Diagnostic) : Prop where
  node : R d.node d'.node
  message : d.message = d'.message

theorem Diagnostic.Match.eq {R : NodeId → NodeId → Prop} (hR : ∀ a b, R a b → a = b)
    {d d' : Diagnostic} (h : d.Match R d') : d = d' := by
  cases d with
  | mk node message =>
    cases d' with
    | mk node' message' => exact congrArg₂ Diagnostic.mk (hR _ _ h.node) h.message

/-- Two sinks hold matching diagnostics, in the same order. -/
def Sink.Match (R : NodeId → NodeId → Prop) (sink sink' : Sink) : Prop :=
  List.Forall₂ (Diagnostic.Match R) sink.toList sink'.toList

/-- A check is faithful if it reports the same about nodes that a bisimulation relates. -/
def Check.Faithful (c : Check) : Prop :=
  ∀ (σ : Signature) (t t' : Tree σ) (R : NodeId → NodeId → Prop), Tree.Bisim R t t' →
    ∀ a b, R a b → ∀ sink sink' : Sink, sink.Match R sink' →
      (c.run σ t a sink).Match R (c.run σ t' b sink')

section Validation

variable {R : NodeId → NodeId → Prop} {sink sink' : Sink} {a b : NodeId}

theorem Sink.Match.report (h : sink.Match R sink') (hab : R a b) (message : String) :
    (sink.report a message).Match R (sink'.report b message) := by
  unfold Sink.Match
  rw [Sink.toList_report, Sink.toList_report]
  exact List.rel_append h (.cons ⟨hab, rfl⟩ .nil)

theorem Sink.match_ite {c c' : Prop} [Decidable c] [Decidable c'] {other other' : Sink} (hc : c = c')
    (h : sink.Match R sink') (hother : other.Match R other') :
    (if c then sink else other).Match R (if c' then sink' else other') := by
  subst hc
  split
  · exact h
  · exact hother

theorem Sink.Match.size_eq (h : sink.Match R sink') : sink.size = sink'.size := by
  rw [Sink.size_eq_length, Sink.size_eq_length, List.Forall₂.length_eq h]

theorem Sink.Match.reportMissing (h : sink.Match R sink') (hab : R a b) (names : List String) :
    (names.foldl (Sink.reportMissing · a ·) sink).Match R
      (names.foldl (Sink.reportMissing · b ·) sink') := by
  induction names generalizing sink sink' with
  | nil => exact h
  | cons name names ih => exact ih (h.report hab _)

theorem missing_eq_of_match {n n' : Node} (h : List.Forall₂ (Slot.Match R) n.slots n'.slots)
    (k : Kind) : n.missing k = n'.missing k := by
  unfold Node.missing
  generalize k.fields = fs, n.slots = ss, n'.slots = ss' at h ⊢
  induction h generalizing fs with
  | nil => rfl
  | cons hs _ ih =>
    cases fs with
    | nil => rfl
    | cons f fs =>
      rw [List.zip_cons_cons, List.zip_cons_cons, List.filterMap_cons, List.filterMap_cons, ih]
      simp only [hs.isFilled]

theorem Sink.Match.checks {σ : Signature} {t t' : Tree σ} (h : sink.Match R sink')
    (hR : Tree.Bisim R t t') (hab : R a b) {checks : List Check} (hc : ∀ c ∈ checks, c.Faithful) :
    (checks.foldl (fun sink c => c.run σ t a sink) sink).Match R
      (checks.foldl (fun sink c => c.run σ t' b sink) sink') := by
  induction checks generalizing sink sink' with
  | nil => exact h
  | cons c checks ih =>
    have hfirst := hc c List.mem_cons_self σ t t' R hR a b hab sink sink' h
    exact ih hfirst fun c' hc' => hc c' (List.mem_cons_of_mem _ hc')

namespace Schema

variable {s : Schema} {t t' : Tree s.signature}

theorem validateInto_match (hs : ∀ k ∈ s.kinds, ∀ c ∈ k.checks, c.Faithful) (hR : Tree.Bisim R t t')
    (hab : R a b) (h : sink.Match R sink') :
    (s.validateInto t sink a).Match R (s.validateInto t' sink' b) := by
  obtain ⟨n, n', k, hn, hn', hk, hkind, hslots⟩ := hR a b hab
  unfold validateInto
  simp only [hn, hn', hkind]
  cases hspec : s.kinds[n.kind]? with
  | none => exact h
  | some spec =>
    have hreported := h.reportMissing hab (n.missing spec.toKind)
    simp only [← missing_eq_of_match hslots spec.toKind, ← hreported.size_eq, ← h.size_eq]
    split
    · exact hreported.checks hR hab (hs spec (List.mem_of_getElem? hspec))
    · exact hreported

theorem foldl_validateInto_match (hs : ∀ k ∈ s.kinds, ∀ c ∈ k.checks, c.Faithful)
    (hR : Tree.Bisim R t t') {ids ids' : List NodeId} (hids : List.Forall₂ R ids ids')
    (h : sink.Match R sink') :
    (ids.foldl (s.validateInto t) sink).Match R (ids'.foldl (s.validateInto t') sink') := by
  induction hids generalizing sink sink' with
  | nil => exact h
  | cons hab _ ih => exact ih (validateInto_match hs hR hab h)

theorem validateTree_match (hs : ∀ k ∈ s.kinds, ∀ c ∈ k.checks, c.Faithful) (hR : Tree.Bisim R t t')
    {r r' : NodeId} (hwalk : List.Forall₂ R (t.walk r) (t'.walk r')) :
    List.Forall₂ (Diagnostic.Match R) (s.validateTree t r) (s.validateTree t' r') :=
  foldl_validateInto_match hs hR hwalk .nil

end Schema

end Validation

/-! ### The standard checks -/

namespace Standard

theorem faithful_notLoneTry : notLoneTry.Faithful := by
  intro σ t t' R hR a b hab sink sink' h
  have hcatches := (hR a b hab).children "catches"
  have hfinally := (hR a b hab).child "finally"
  simp only [notLoneTry]
  generalize t.children a "catches" = x, t'.children b "catches" = x' at hcatches ⊢
  generalize t.child a "finally" = y, t'.child b "finally" = y' at hfinally ⊢
  refine Sink.match_ite (congrArg₂ (fun c f : Bool => (c && f) = true) ?_ ?_) (h.report hab _) h
  · cases hcatches with
    | ok hcatches => exact forall₂_isEmpty hcatches
    | error e => rfl
  · cases hfinally with
    | ok hblock => cases hblock <;> rfl
    | error e => rfl

theorem faithful_catchDeclaresOneVariable : catchDeclaresOneVariable.Faithful := by
  intro σ t t' R hR a b hab sink sink' h
  have hdecl := (hR a b hab).child "exception_declaration"
  simp only [catchDeclaresOneVariable]
  generalize t.child a "exception_declaration" = x, t'.child b "exception_declaration" = x'
    at hdecl ⊢
  rcases hdecl with @⟨_, _, @⟨c, c', hc⟩ | _⟩ | e
  · have hentries := (hR c c' hc).children "variables"
    dsimp only
    generalize t.children c "variables" = y, t'.children c' "variables" = y' at hentries ⊢
    refine Sink.match_ite (congrArg (· = 1) ?_) h (h.report hab _)
    cases hentries with
    | ok hentries => exact hentries.length_eq
    | error e => rfl
  · exact h
  · exact h

theorem faithful_checks : ∀ k ∈ schema.kinds, ∀ c ∈ k.checks, c.Faithful := by
  intro k hk c hc
  obtain ⟨d, hd, rfl⟩ := List.mem_map.1 hk
  rcases eq_of_mem_checks hd hc with rfl | rfl
  · exact faithful_catchDeclaresOneVariable
  · exact faithful_notLoneTry

end Standard

/-! ## The copied nodes -/

theorem match_refill {R : NodeId → NodeId → Prop} {ss : List Slot} {ids : List NodeId}
    (h : List.Forall₂ R (ss.flatMap Slot.nodes) ids) :
    List.Forall₂ (Slot.Match R) ss (refill ss ids) := by
  induction ss generalizing ids with
  | nil => exact .nil
  | cons s ss ih =>
    cases s with
    | child held =>
      cases held with
      | none => exact .cons (.child .none) (ih h)
      | some c =>
        cases h with
        | cons hc h => exact .cons (.child (.some hc)) (ih h)
    | children held =>
      rw [List.flatMap_cons] at h
      have htake := List.forall₂_take held.length h
      have hdrop := List.forall₂_drop held.length h
      simp only [Slot.nodes, List.take_left, List.drop_left] at htake hdrop
      exact .cons (.children htake) (ih hdrop)
    | data held => exact .cons (.data held) (ih h)
    | values held => exact .cons (.values held) (ih h)

namespace Tree

variable {σ : Signature} {t t' : Tree σ}

/-- The node `b` of `t'` begins a copy of the subtree of `a`, down to its leaves. -/
def CopiedTo (t t' : Tree σ) (a b : NodeId) : Prop :=
  a < t.size ∧ ∃ bound parent, t.size ≤ bound + (t.ancestors a).length ∧
    t'.Stands b (t.copyBlock bound parent b a)

theorem bisim_copiedTo (hconf : t.Conforms) (hf : t.Forest) : Bisim (CopiedTo t t') t t' := by
  rintro a b ⟨ha, bound, parent, hbound, hstands⟩
  obtain ⟨n, hn⟩ := exists_node? ha
  have hk := List.getElem?_eq_getElem (hconf a n hn).kind
  -- A node has fewer ancestors than there are nodes, so the bound leaves room for its children.
  have hdepth := hf.length_ancestors_lt ha
  obtain ⟨bound, rfl⟩ : ∃ m, bound = m + 1 := ⟨bound - 1, by omega⟩
  unfold copyBlock at hstands
  rw [hn] at hstands
  refine ⟨n, _, _, hn, hstands.head, hk, rfl, match_refill ?_⟩
  obtain ⟨hlen, hids⟩ := List.forall₂_iff_zip.1 (stands_layOut hstands.tail).1.flip
  refine List.forall₂_iff_zip.2 ⟨hlen, fun {c b'} hcb => ?_⟩
  have hc : c ∈ t.childNodes a := childNodes_of_node? hn ▸ (List.of_mem_zip hcb).1
  refine ⟨hf.lt_size hc, bound, some b, ?_, hids hcb⟩
  rw [hf.length_ancestors_child ((hf.owned a c).1 hc)]
  omega

theorem copiedTo_deepCopy {id : NodeId} (hid : id < t.size) :
    CopiedTo t (t.deepCopy id) id t.size :=
  ⟨hid, t.size, none, Nat.le_add_right _ _, stands_extend _⟩

/-- Nodes that are not touched are in a bisimulation with themselves. -/
theorem bisim_extend (hconf : t.Conforms) (hf : t.Forest) (ns : List Node) :
    Bisim (fun a b => a < t.size ∧ a = b) t (t.extend ns) := by
  rintro a _ ⟨ha, rfl⟩
  obtain ⟨n, hn⟩ := exists_node? ha
  have hk := List.getElem?_eq_getElem (hconf a n hn).kind
  refine ⟨n, n, _, hn, (node?_extend_of_lt ns ha).trans hn, hk, rfl, ?_⟩
  refine List.forall₂_same.2 fun s hs => Slot.match_self fun c hc => ⟨?_, rfl⟩
  refine hf.lt_size (p := a) ?_
  rw [childNodes_of_node? hn]
  exact List.mem_flatMap.2 ⟨s, hs, hc⟩

/-! ## Answers -/

/-- What is derived from the node `a` of `t` is also derived from the node `b` of `t'`; lists are
bound to related nodes. -/
structure SameAnswers (R : NodeId → NodeId → Prop) (t t' : Tree σ) (a b : NodeId) : Prop where
  typeName : t.typeName a = t'.typeName b
  partTypeName : t.partTypeName a = t'.partTypeName b
  hasGenerics : t.hasGenerics a = t'.hasGenerics b
  generics : Alike (ListBinding.Match R) (t.generics a) (t'.generics b)
  partGenerics : Alike (ListBinding.Match R) (t.partGenerics a) (t'.partGenerics b)
  rawForm : ∀ field, t.rawForm a field = t'.rawForm b field

theorem Bisim.sameAnswers {R : NodeId → NodeId → Prop} (h : Bisim R t t') (hf : t.Forest)
    (hsize : t.size ≤ t'.size) {a b : NodeId} (hab : R a b) : SameAnswers R t t' a b where
  typeName := h.typeName_eq hf hsize hab
  partTypeName := h.partTypeName_eq hf hsize hab
  hasGenerics := h.hasGenerics_eq hab
  generics := h.generics hab
  partGenerics := h.partGenerics hab
  rawForm := (h a b hab).rawForm_eq

theorem SameAnswers.of_eq {R : NodeId → NodeId → Prop} {a b : NodeId}
    (h : SameAnswers R t t' a b) (h' : SameAnswers Eq t t' a a) : SameAnswers R t' t' a b where
  typeName := h'.typeName.symm.trans h.typeName
  partTypeName := h'.partTypeName.symm.trans h.partTypeName
  hasGenerics := h'.hasGenerics.symm.trans h.hasGenerics
  generics := by
    have hsame := (h'.generics.imp fun x y hxy => hxy.eq).eq
    exact hsame ▸ h.generics
  partGenerics := by
    have hsame := (h'.partGenerics.imp fun x y hxy => hxy.eq).eq
    exact hsame ▸ h.partGenerics
  rawForm field := (h'.rawForm field).symm.trans (h.rawForm field)

/-- The nodes `a` and `b` have the same position in the walks of `r` and `r'`. -/
def Counterpart (t : Tree σ) (r r' a b : NodeId) : Prop :=
  ∃ j : Nat, (t.walk r)[j]? = some a ∧ (t.walk r')[j]? = some b

theorem mem_zip_walk {r r' a b : NodeId} :
    (a, b) ∈ (t.walk r).zip (t.walk r') ↔ t.Counterpart r r' a b := by
  simp only [List.mem_iff_getElem?, List.getElem?_zip_eq_some, Counterpart]

section Extend

variable (hconf : t.Conforms) (hf : t.Forest) {ns : List Node} (hf' : (t.extend ns).Forest)
  {a : NodeId} (ha : a < t.size)
include hconf hf ha

theorem sameAnswers_extend : SameAnswers Eq t (t.extend ns) a a :=
  let h := (bisim_extend hconf hf ns).sameAnswers hf (by rw [size_extend]; omega) ⟨ha, rfl⟩
  { h with
    generics := h.generics.imp fun _ _ hm => hm.imp fun _ _ hab => hab.2
    partGenerics := h.partGenerics.imp fun _ _ hm => hm.imp fun _ _ hab => hab.2 }

include hf' in
theorem walk_extend : (t.extend ns).walk a = t.walk a := by
  have hwalk := ((bisim_extend hconf hf ns).walk hf hf' ⟨ha, rfl⟩).1
  have heq := hwalk.imp fun _ _ h => h.2
  rw [List.forall₂_eq_eq_eq] at heq
  exact heq.symm

end Extend

end Tree

theorem Schema.validateTree_extend {s : Schema} (hs : ∀ k ∈ s.kinds, ∀ c ∈ k.checks, c.Faithful)
    {t : Tree s.signature} (hconf : t.Conforms) (hf : t.Forest) {ns : List Node}
    (hf' : (t.extend ns).Forest) {a : NodeId} (ha : a < t.size) :
    s.validateTree (t.extend ns) a = s.validateTree t a := by
  have hR := Tree.bisim_extend hconf hf ns
  have hmatch := (validateTree_match hs hR (hR.walk hf hf' ⟨ha, rfl⟩).1).imp fun _ _ h =>
    Diagnostic.Match.eq (fun _ _ hab => hab.2) h
  rw [List.forall₂_eq_eq_eq] at hmatch
  exact hmatch.symm

/-- After a copy of a subtree of a standard tree, the nodes at the same position of the walks of
original and copy give the same names, flags and raw forms, or the same errors; their lists are
bound to nodes at the same position. Validation reports the same of the copy as of the original, in
the same order. All nodes that were there before give the answers they gave before. -/
theorem copy_answers_alike {t : Tree Standard.schema.signature} (ht : t.Reachable) {id : NodeId}
    (hid : id < t.size) :
    ∃ t' c, t.apply (.deepCopy id) = (t', .ok (some c)) ∧
      (t'.walk id).length = (t'.walk c).length ∧
      (∀ a b, t'.Counterpart id c a b → Tree.SameAnswers (t'.Counterpart id c) t' t' a b) ∧
      List.Forall₂ (Diagnostic.Match (t'.Counterpart id c))
        (Standard.schema.validateTree t' id) (Standard.schema.validateTree t' c) ∧
      ∀ a < t.size, Tree.SameAnswers Eq t t' a a ∧ t'.walk a = t.walk a ∧
        Standard.schema.validateTree t' a = Standard.schema.validateTree t a := by
  have hσ := resolved_of_generate Standard.generate_templates
  have hconf := ht.conforms hσ
  have hf := ht.forest hσ
  have hf' := hf.deepCopy id
  have hsize : t.size ≤ (t.deepCopy id).size := by
    rw [Tree.deepCopy_eq_extend, Tree.size_extend]
    exact Nat.le_add_right _ _
  have hkept : ∀ a < t.size, Tree.SameAnswers Eq t (t.deepCopy id) a a ∧
      (t.deepCopy id).walk a = t.walk a ∧
      Standard.schema.validateTree (t.deepCopy id) a = Standard.schema.validateTree t a :=
    fun a ha => ⟨Tree.sameAnswers_extend hconf hf ha, Tree.walk_extend hconf hf hf' ha,
      Standard.schema.validateTree_extend Standard.faithful_checks hconf hf hf' ha⟩
  obtain ⟨hwalk, hpos⟩ :=
    (Tree.bisim_copiedTo hconf hf).walk hf hf' (Tree.copiedTo_deepCopy hid)
  rw [← (hkept id hid).2.1] at hwalk hpos
  simp only [Tree.mem_zip_walk] at hpos
  refine ⟨t.deepCopy id, t.size, rfl, hwalk.length_eq, fun a b hab => ?_, ?_, hkept⟩
  · exact (hpos.sameAnswers hf hsize hab).of_eq (hkept a (hpos a b hab).lt_size.1).1
  · rw [(hkept id hid).2.2]
    refine Schema.validateTree_match Standard.faithful_checks hpos ?_
    rw [← (hkept id hid).2.1]
    exact List.forall₂_iff_zip.2 ⟨hwalk.length_eq, Tree.mem_zip_walk.1⟩

/-- Node 10 catches a variable of the type `Map<? super K>[][]`, which node 7 stands for, but
declares no name for it. -/
def catchTree : Tree Standard.schema.signature :=
  (Tree.empty.applyAll
    [.build "Identifier" [.data "name" (.text "K")],
     .build "TypeReferencePart" [.child "identifier" 0],
     .build "TypeReference" [.children "parts" [1], .data "wildcard" (.wildcard .lower)],
     .build "Identifier" [.data "name" (.text "Map")],
     .build "TypeReferencePart" [.child "identifier" 4],
     .editList (.field 6 "generics") (.addToEnd 3),
     .build "TypeReference" [.children "parts" [5], .data "array_dimensions" (.int 2)],
     .build "VariableDeclaration" [.child "type_reference" 7],
     .build "Block" [],
     .build "Catch" [.child "exception_declaration" 8, .child "body" 9]]).1

theorem reachable_catchTree : catchTree.Reachable :=
  Tree.Reachable.empty.applyAll (by decide +kernel)

/-- Node 11 is the copy of node 10. Node 13 is the counterpart of node 7 and has its name, and the
copy lacks a variable just as the original. -/
theorem copy_answers_alike_catchTree :
    catchTree.Reachable ∧ 10 < catchTree.size ∧
      ∃ t', catchTree.apply (.deepCopy 10) = (t', .ok (some 11)) ∧ t'.Counterpart 10 11 7 13 ∧
        t'.typeName 13 = .ok "Map<? super K>[][]" ∧
        Alike (ListBinding.Match (t'.Counterpart 10 11)) (.ok ⟨7, 6, "generics"⟩) (t'.generics 13) ∧
        List.Forall₂ (Diagnostic.Match (t'.Counterpart 10 11))
          [⟨10, "catch declaration must declare exactly one variable"⟩]
          (Standard.schema.validateTree t' 11) := by
  have hid : 10 < catchTree.size := by decide +kernel
  have hpos : (catchTree.deepCopy 10).Counterpart 10 11 7 13 := ⟨2, by decide +kernel⟩
  have hname : catchTree.typeName 7 = .ok "Map<? super K>[][]" := by decide +kernel
  have hbound : (catchTree.deepCopy 10).generics 7 = .ok ⟨7, 6, "generics"⟩ := by decide +kernel
  have hvalid : Standard.schema.validateTree catchTree 10 =
      [⟨10, "catch declaration must declare exactly one variable"⟩] := by decide +kernel
  obtain ⟨t', c, hcopy, -, hanswers, hmatch, hkept⟩ := copy_answers_alike reachable_catchTree hid
  have hnew : catchTree.apply (.deepCopy 10) = (catchTree.deepCopy 10, .ok (some 11)) := by
    decide +kernel
  rw [hnew, Prod.mk.injEq] at hcopy
  obtain ⟨rfl, hc⟩ := hcopy
  cases hc
  have h7 := hanswers 7 13 hpos
  refine ⟨reachable_catchTree, hid, _, hnew, hpos, ?_, hbound ▸ h7.generics, ?_⟩
  · rw [← h7.typeName, ← (hkept 7 (by decide +kernel)).1.typeName, hname]
  · rwa [(hkept 10 hid).2.2, hvalid] at hmatch

end Arbor
