import Arbor.Proofs.Build

/-!
# Complete nodes

A build sees to it that its node lacks no required field. The nodes that come with it through
initial values are allocated without such a check. They lack exactly the required fields that have
no initial value, so all fresh nodes are complete exactly if no kind that the built kind leads to
declares such a field.
-/

namespace Arbor

open Relation

/-! ## Validation of a single node -/

namespace Schema

variable (s : Schema) (t : Tree s.signature)

/-- The required fields that a node lacks. -/
def missing (id : NodeId) : List String :=
  match t.node? id with
  | none => []
  | some n =>
    match s.kinds[n.kind]? with
    | none => []
    | some k => n.missing k.toKind

/-- The diagnostics of the checks of a node's kind. -/
def checked (id : NodeId) : List Diagnostic :=
  match t.node? id with
  | none => []
  | some n =>
    match s.kinds[n.kind]? with
    | none => []
    | some k => Sink.toList (k.checks.foldl (fun sink c => c.run s.signature t id sink) .empty)

/-- The diagnostic of an absent required field. -/
def absent (id : NodeId) (field : String) : Diagnostic :=
  ⟨id, "missing required field " ++ ticked field⟩

variable {s t}

theorem toList_foldl_reportMissing (id : NodeId) (names : List String) (sink : Sink) :
    (names.foldl (Sink.reportMissing · id ·) sink).toList =
      sink.toList ++ names.map (absent id) := by
  induction names generalizing sink with
  | nil => simp
  | cons name names ih =>
    rw [List.foldl_cons, ih, Sink.reportMissing, Sink.toList_report]
    simp [absent]

/-- Validation reports each absent required field of a node, or runs the checks of its kind if there
is none. -/
theorem validate_eq (id : NodeId) :
    s.validate t id =
      if s.missing t id = [] then s.checked t id else (s.missing t id).map (absent id) := by
  unfold validate validateInto missing checked
  cases t.node? id with
  | none => rfl
  | some n =>
    simp only
    cases s.kinds[n.kind]? with
    | none => rfl
    | some k =>
      simp only [Sink.size_eq_length, toList_foldl_reportMissing]
      by_cases hm : n.missing k.toKind = []
      · simp [hm]
      · simp [hm, toList_foldl_reportMissing]

theorem missing_of_node? {id : NodeId} {n : Node} (hn : t.node? id = some n) {k : Kind}
    (hk : s.signature.kinds[n.kind]? = some k) : s.missing t id = n.missing k := by
  rw [signature, List.getElem?_map, Option.map_eq_some_iff] at hk
  obtain ⟨spec, hspec, rfl⟩ := hk
  simp [missing, hn, hspec]

end Schema

/-! ## Fresh nodes after a build -/

section Builds

variable {σ : Signature} {t t' : Tree σ}

theorem Node.Initial.congr {n n' : Node} (h : n.Initial σ) (hkind : n'.kind = n.kind)
    (hslots : n'.slots = n.slots) : n'.Initial σ := by
  obtain ⟨ids, hids, heq⟩ := h
  exact ⟨ids, by rw [hkind, hids], by rw [hslots, heq, hkind]⟩

/-- A fresh node below the new one is after the build as it was allocated. -/
theorem Building.node?_nested {t₀ : Tree σ} {base : NodeId} {kind : KindId} {done : List String}
    {placed : List NodeId} (h : Building t₀ t base kind done placed) {x : NodeId} (hx : base < x)
    {n : Node} (hn : t₀.node? x = some n) :
    ∃ n', t.node? x = some n' ∧ n'.kind = n.kind ∧ n'.slots = n.slots := by
  obtain ⟨n', hn', hkind⟩ := h.kept x n hn
  refine ⟨n', hn', hkind, List.ext_getElem? fun j => ?_⟩
  rw [← Tree.slot?_of_node? hn', ← Tree.slot?_of_node? hn, h.nested x hx]

/-- The new node has all its required fields. -/
theorem Building.missing_eq_nil {t₀ : Tree σ} {base : NodeId} {kind : KindId} {done : List String}
    {placed : List NodeId} (h : Building t₀ t base kind done placed) {k : Kind}
    (hk : σ.kinds[kind]? = some k)
    (hgiven : ∀ f ∈ k.fields, f.decl.mustBeGiven = true → f.name ∈ done) {n : Node}
    (hn : t.node? base = some n) : n.missing k = [] := by
  rw [Node.missing_eq_nil_iff]
  intro i f s hf hs hreq hlist
  have hfilled := h.filled i f (Signature.fields_of_kinds hk ▸ hf) hlist ?_
  · obtain ⟨s', hs', hfilled⟩ := hfilled
    rw [Tree.slot?_of_node? hn, hs] at hs'
    cases hs'
    exact hfilled
  · cases hinit : f.decl.initial with
    | some i => exact .inr rfl
    | none =>
      refine .inl (hgiven f (List.mem_of_getElem? hf) ?_)
      simp [FieldDecl.mustBeGiven, hreq, hlist, hinit]

/-- After a build the new node lacks nothing. The nodes below it have their initial values, and they
are of exactly the kinds that the built kind leads to. -/
theorem Edit.build_fresh (hσ : σ.Resolved) (hconf : t.Conforms) (hforest : t.Forest) {name : String}
    {as : List Assignment} {id : NodeId} (hb : Edit.build name as t = .ok id t') :
    ∃ kind k, σ.kinds[kind]? = some k ∧ k.name = name ∧ id = t.size ∧
      (∃ n, t'.node? id = some n ∧ n.kind = kind ∧ n.missing k = []) ∧
      (∀ x : Nat, t.size < x → x < t'.size →
        ∃ n, t'.node? x = some n ∧ n.Initial σ ∧ TransGen σ.Starts kind n.kind) ∧
      ∀ k', TransGen σ.Starts kind k' →
        ∃ (x : Nat) (n : Node), t.size < x ∧ t'.node? x = some n ∧ n.Initial σ ∧ n.kind = k' := by
  obtain ⟨kind, k, changes, hk, hname, hdraft, rfl, hrun⟩ := Edit.build_eq_ok hb
  have hlt : kind < σ.kinds.length := (List.getElem?_eq_some_iff.1 hk).1
  obtain ⟨hnodup, hold, hgiven⟩ := Tree.draft_eq_ok hdraft
  obtain ⟨root, below, hblock, hrootkind, hrootinit, hbelow, hkinds⟩ :=
    freshBlock_eq_cons hσ t.size hlt
  obtain ⟨hroot, hsize, hnodes⟩ := Tree.node?_alloc_of_ge hblock
  have hstart := Tree.building_alloc hσ hconf hforest hlt hroot hrootkind hrootinit
  obtain ⟨placed, hend⟩ := hstart.forM hσ (Tree.holdsBehind_alloc kind)
    ⟨root, hroot, hrootkind⟩ hold (by simpa using hnodup) hrun
  refine ⟨kind, k, hk, hname, rfl, ?_, fun x hx hxlt => ?_, fun k' hk' => ?_⟩
  · obtain ⟨n, hn, hkind⟩ := hend.kept t.size root hroot
    refine ⟨n, hn, hkind.trans hrootkind, hend.missing_eq_nil hk (fun f hf hgiv => ?_) hn⟩
    simpa using hgiven f hf hgiv
  · rw [hend.size, hsize] at hxlt
    obtain ⟨j, rfl⟩ := Nat.exists_eq_add_of_le hx
    have hj : j < below.length := by omega
    have hn := (hnodes j hj).trans (List.getElem?_eq_getElem hj)
    obtain ⟨n', hn', hkind, hslots⟩ := hend.node?_nested hx hn
    obtain ⟨hinit, hreach⟩ := hbelow _ (List.getElem_mem hj)
    exact ⟨n', hn', hinit.congr hkind hslots, hkind ▸ hreach⟩
  · obtain ⟨n, hn, rfl⟩ := hkinds k' hk'
    obtain ⟨j, hj, hget⟩ := List.getElem_of_mem hn
    have hx : t.size < t.size + 1 + j := by omega
    have hnode := (hnodes j hj).trans (List.getElem?_eq_getElem hj)
    obtain ⟨n', hn', hkind, hslots⟩ := hend.node?_nested hx hnode
    rw [hget] at hkind hslots
    exact ⟨t.size + 1 + j, n', hx, hn', (hbelow n hn).1.congr hkind hslots, hkind⟩

end Builds

/-- After a successful build the new node lacks no required field. All nodes that the build has
allocated are complete exactly if no kind that the built kind leads to through initial nodes has a
required single field without an initial value. Validation reports just the absent fields of a node
that lacks some, and else what the checks of its kind find. -/
theorem build_complete_iff {ts : List Template} {s : Schema} (hs : Schema.generate ts = .ok s)
    {t t' : Tree s.signature} (ht : t.Reachable) {kind : String} {as : List Assignment}
    {id : NodeId} (hb : Edit.build kind as t = .ok id t') :
    s.missing t' id = [] ∧
    ((∀ x : Nat, t.size ≤ x → x < t'.size → s.missing t' x = []) ↔
      ∀ declared ∈ ts, TransGen (Leads ts) kind declared.name →
        ∀ d ∈ declared.fields, d.mustBeGiven = false) ∧
    ∀ x, s.validate t' x =
      if s.missing t' x = [] then s.checked t' x else (s.missing t' x).map (Schema.absent x) := by
  have hσ := resolved_of_generate hs
  obtain ⟨kid, k, hk, rfl, rfl, ⟨n, hn, rfl, hcomplete⟩, hnested, hkinds⟩ :=
    Edit.build_fresh hσ (ht.conforms hσ) (ht.forest hσ) hb
  have hmissing : s.missing t' t.size = [] := (Schema.missing_of_node? hn hk).trans hcomplete
  refine ⟨hmissing, ?_, Schema.validate_eq⟩
  obtain ⟨hts, rfl⟩ := generate_eq_ok_iff.1 hs
  obtain ⟨built, hbuilt, rfl⟩ := exists_template hk
  constructor
  · intro hall declared hdeclared hleads d hd
    obtain ⟨i, hi⟩ := List.mem_iff_getElem?.1 hdeclared
    have hstarts := (hts.transGen_leads_iff hbuilt hi).1 hleads
    obtain ⟨x, m, hx, hm, hinit, rfl⟩ := hkinds i hstarts
    have hki := kinds_of_template hi
    have hnil := hall x (Nat.le_of_lt hx) (Tree.lt_size_of_node? hm)
    rw [Schema.missing_of_node? hm hki, hinit.missing_eq_nil_iff hσ hki] at hnil
    exact hnil _ (List.mem_map_of_mem hd)
  · intro hall x hx hxlt
    rcases Nat.eq_or_lt_of_le hx with rfl | hx
    · exact hmissing
    · obtain ⟨m, hm, hinit, hstarts⟩ := hnested x hx hxlt
      obtain ⟨_, -, hlast⟩ := TransGen.tail'_iff.1 hstarts
      obtain ⟨km, hkm⟩ := hσ.exists_kind hlast
      obtain ⟨declared, hdeclared, rfl⟩ := exists_template hkm
      rw [Schema.missing_of_node? hm hkm, hinit.missing_eq_nil_iff hσ hkm]
      intro f hf
      obtain ⟨d, hd, rfl⟩ := List.mem_map.1 hf
      exact hall declared (List.mem_of_getElem? hdeclared)
        ((hts.transGen_leads_iff hbuilt hdeclared).2 hstarts) d hd

/-- An outer node starts with an inner node, which has the one field `d`. -/
def nestedTemplates (d : FieldDecl) : List Template :=
  [{ name := "Inner", fields := [d] },
   { name := "Outer"
     fields := [(FieldDecl.child "inner" "Inner").asRequired.startingWith (.newNode "Inner"),
      (FieldDecl.data "label" .text).asRequired] }]

/-- The tree after an outer node has been built. -/
def nestedTree (d : FieldDecl) : Tree (Schema.ofTemplates (nestedTemplates d)).signature :=
  ((Edit.build "Outer" [.data "label" (.text "a")]).outcome Tree.empty).1

/-- A flag that a build has to give. -/
def givenFlag : FieldDecl :=
  (FieldDecl.data "flag" .bool).asRequired

/-- A required flag that is set at the start. -/
def initialFlag : FieldDecl :=
  givenFlag.startingWith (.data (.bool true))

theorem generate_initialFlag : Schema.generate (nestedTemplates initialFlag) =
    .ok (Schema.ofTemplates (nestedTemplates initialFlag)) := by
  rfl

theorem build_initialFlag : Edit.build "Outer" [.data "label" (.text "a")] Tree.empty =
    .ok 0 (nestedTree initialFlag) := by
  rfl

/-- The label of an outer node has to be given, but outer nodes are not among those that an outer
node starts with. -/
theorem build_complete_initialFlag :
    Schema.generate (nestedTemplates initialFlag) =
        .ok (Schema.ofTemplates (nestedTemplates initialFlag)) ∧
      (nestedTree initialFlag).size = 2 ∧
      ∀ x < 2, (Schema.ofTemplates (nestedTemplates initialFlag)).missing
        (nestedTree initialFlag) x = [] := by
  have hsize : (nestedTree initialFlag).size = 2 := by decide +kernel
  have hts : WellFormed (nestedTemplates initialFlag) :=
    (generate_eq_ok_iff.1 generate_initialFlag).1
  have hiff := (build_complete_iff generate_initialFlag .empty build_initialFlag).2.1
  refine ⟨generate_initialFlag, hsize, fun x hx => hiff.2 ?_ x (Nat.zero_le x) (hsize ▸ hx)⟩
  intro declared hdeclared hleads d hd
  simp only [nestedTemplates, List.mem_cons, List.not_mem_nil, or_false] at hdeclared
  rcases hdeclared with rfl | rfl
  · rw [List.mem_singleton.1 hd]
    rfl
  · exact absurd hleads (hts.notRecursive "Outer")

/-- Without an initial value the flag is absent in the inner node of a successful build, and
validation says so. -/
theorem build_incomplete_givenFlag :
    Schema.generate (nestedTemplates givenFlag) =
        .ok (Schema.ofTemplates (nestedTemplates givenFlag)) ∧
      Edit.build "Outer" [.data "label" (.text "a")] Tree.empty = .ok 0 (nestedTree givenFlag) ∧
      (nestedTree givenFlag).size = 2 ∧ (nestedTree givenFlag).parent? 1 = some 0 ∧
      (Schema.ofTemplates (nestedTemplates givenFlag)).validate (nestedTree givenFlag) 1 =
        [⟨1, "missing required field `flag`"⟩] :=
  ⟨rfl, rfl, by decide +kernel, by decide +kernel, by decide +kernel⟩

end Arbor
