import Arbor.Proofs.Atomicity

/-!
# When builds succeed

What a build needs can be read off its assignments and the tree it starts from: fields that take
what is assigned to them, each node once, and a value for every field that has none by itself. The
checks of a build establish this up to the values that stand in texts, and these are checked when
they are stored. Nothing else is refused then, wherever the assigned nodes were before.
-/

namespace Arbor

/-! ## What a build needs -/

section Needs

variable {σ : Signature}

/-- The field takes what the assignment has for it. -/
structure Assignment.Suits (t : Tree σ) (a : Assignment) (f : Field) : Prop where
  name : f.name = a.field
  category : f.category = a.category
  nodes : ∀ c ∈ a.nodes, t.Takes f c
  values : ∀ v ∈ a.plainValues, f.decl.Holds v
  text : ∀ field text, a = .raw field text → ∃ codec v, f.decl.rawForm = some codec ∧
    codec.parse (some text) = .ok v ∧ f.decl.Holds v

/-- The assignments make up a node of the kind. -/
structure Tree.Buildable (t : Tree σ) (k : Kind) (as : List Assignment) : Prop where
  suits : ∀ a ∈ as, ∃ f ∈ k.fields, a.Suits t f
  once : (as.flatMap Assignment.nodes).Nodup
  given : ∀ f ∈ k.fields, f.decl.required = true → f.decl.isList = false →
    f.decl.initial = none → ∃ a ∈ as, a.field = f.name

theorem FieldDecl.mustBeGiven_iff {d : FieldDecl} :
    d.mustBeGiven = true ↔ d.required = true ∧ d.isList = false ∧ d.initial = none := by
  simp [mustBeGiven, and_assoc]

end Needs

/-! ## Passing the checks -/

section Checks

variable {σ : Signature} {t : Tree σ} {k : Kind}

namespace Tree

theorem placeOnce_of_fits {p : Place} {placed : List NodeId} {c : NodeId} (hc : t.Fits p c)
    (hnew : c ∉ placed) : t.placeOnce p placed c = .ok (c :: placed) := by
  obtain ⟨n, hn, hacc⟩ := hc
  exact bind_eq_ok.2 ⟨n.kind, kindId_eq_ok.2 ⟨n, hn, rfl⟩, bind_eq_ok.2 ⟨(), hacc, if_neg hnew⟩⟩

theorem foldlM_placeOnce_of_fits {p : Place} {cs placed : List NodeId}
    (hcs : ∀ c ∈ cs, t.Fits p c) (hnodup : (cs.reverse ++ placed).Nodup) :
    cs.foldlM (t.placeOnce p) placed = .ok (cs.reverse ++ placed) := by
  induction cs generalizing placed with
  | nil => rfl
  | cons c cs ih =>
    obtain ⟨hc, hcs⟩ := List.forall_mem_cons.1 hcs
    rw [List.reverse_cons, List.append_assoc] at hnodup ⊢
    have hnew : c ∉ placed := (List.nodup_cons.1 (List.nodup_append.1 hnodup).2.1).1
    rw [List.foldlM_cons]
    exact bind_eq_ok.2 ⟨c :: placed, placeOnce_of_fits hc hnew, ih hcs hnodup⟩

/-- An assignment passes the checks if its nodes have found no place yet. -/
theorem checkAssignment_of_checked {a : Assignment} {p : Place} (h : a.Checked t k p) {d : Draft}
    (hnodup : (a.nodes.reverse ++ d.placed).Nodup) :
    t.checkAssignment k d a =
      .ok ⟨p.index :: d.assigned, a.nodes.reverse ++ d.placed, d.changes ++ a.changes k⟩ := by
  refine bind_eq_ok.2 ⟨p, h.place, ?_⟩
  cases a with
  | child field c =>
    have hplace := placeOnce_of_fits (h.fits c (List.mem_singleton.2 rfl))
      (List.nodup_cons.1 hnodup).1
    exact bind_eq_ok.2 ⟨_, hplace, rfl⟩
  | children field cs => exact bind_eq_ok.2 ⟨_, foldlM_placeOnce_of_fits h.fits hnodup, rfl⟩
  | data field v => exact bind_eq_ok.2 ⟨(), h.values v (List.mem_singleton.2 rfl), rfl⟩
  | values field vs => exact bind_eq_ok.2 ⟨(), forM_eq_ok.2 h.values, rfl⟩
  | raw field text =>
    obtain ⟨v, hv⟩ := h.decoded field text rfl
    have hplace : k.place? field = some p := (Kind.resolve_eq_ok.1 h.place).1
    refine bind_eq_ok.2 ⟨v, hv, ?_⟩
    rw [Assignment.changes, Kind.decoded?_of_decode hplace hv]
    rfl

theorem foldlM_checkAssignment_of_checked {as : List Assignment}
    (h : ∀ a ∈ as, ∃ p, a.Checked t k p) {d : Draft}
    (hnodup : ((as.flatMap Assignment.nodes).reverse ++ d.placed).Nodup) :
    ∃ d', as.foldlM (t.checkAssignment k) d = .ok d' ∧ d.assigned ⊆ d'.assigned ∧
      ∀ a ∈ as, ∃ p, a.Checked t k p ∧ p.index ∈ d'.assigned := by
  induction as generalizing d with
  | nil => exact ⟨d, rfl, List.Subset.refl _, by simp⟩
  | cons a as ih =>
    obtain ⟨⟨p, hp⟩, h⟩ := List.forall_mem_cons.1 h
    rw [List.flatMap_cons, List.reverse_append, List.append_assoc] at hnodup
    obtain ⟨d', hd', hsub, has⟩ := ih h
      (d := ⟨p.index :: d.assigned, a.nodes.reverse ++ d.placed, d.changes ++ a.changes k⟩) hnodup
    refine ⟨d', ?_, List.Subset.trans (List.subset_cons_self _ _) hsub,
      List.forall_mem_cons.2 ⟨?_, has⟩⟩
    · rw [List.foldlM_cons]
      have hfirst := checkAssignment_of_checked hp (List.nodup_append.1 hnodup).2.1
      exact bind_eq_ok.2 ⟨_, hfirst, hd'⟩
    · exact ⟨p, hp, hsub List.mem_cons_self⟩

/-- A build passes its checks exactly if each assignment does, no node is assigned twice and no
field is left out that has to be given. -/
theorem exists_draft_iff (hσ : σ.Resolved) {kid : KindId} (hk : σ.kinds[kid]? = some k)
    {as : List Assignment} :
    (∃ changes, t.draft k as = .ok changes) ↔
      (∀ a ∈ as, ∃ p, a.Checked t k p) ∧ (as.flatMap Assignment.nodes).Nodup ∧
        ∀ f ∈ k.fields, f.decl.mustBeGiven = true → ∃ a ∈ as, a.field = f.name := by
  constructor
  · rintro ⟨changes, h⟩
    obtain ⟨hnodup, -, hgiven⟩ := draft_eq_ok h
    obtain ⟨hchecked, hchanges⟩ := changes_of_draft h
    refine ⟨hchecked, nodes_draft h ▸ hnodup, fun f hf hmust => ?_⟩
    obtain ⟨ch, hch, hname⟩ := List.mem_map.1 (hgiven f hf hmust)
    obtain ⟨a, ha, hch⟩ := List.mem_flatMap.1 (hchanges ▸ hch)
    exact ⟨a, ha, (Assignment.mem_changes hch).1.symm.trans hname⟩
  · rintro ⟨hchecked, hnodup, hgiven⟩
    obtain ⟨d, hd, -, hassigned⟩ := foldlM_checkAssignment_of_checked hchecked (d := ⟨[], [], []⟩)
      (by simpa using hnodup)
    have hungiven : ungiven? k d.assigned = none := by
      refine Option.map_eq_none_iff.2 (List.find?_eq_none.2 fun ⟨f, i⟩ hfi => ?_)
      have hf : k.fields[i]? = some f := List.mem_zipIdx_iff_getElem?.1 hfi
      intro hmissing
      obtain ⟨hmust, hmissing⟩ := by simpa using hmissing
      obtain ⟨a, ha, hname⟩ := hgiven f (List.mem_of_getElem? hf) hmust
      obtain ⟨p, hp, hi⟩ := hassigned a ha
      have hplace := (Kind.resolve_eq_ok.1 hp.place).1
      rw [hname, hσ.place?_eq hk hf] at hplace
      cases hplace
      exact hmissing hi
    refine ⟨d.changes, bind_eq_ok.2 ⟨d, hd, ?_⟩⟩
    rw [hungiven]

end Tree

/-- An assignment suits a field of the kind exactly if it passes the checks and its text, if it is
one, is not misread. -/
theorem Assignment.suits_iff (hσ : σ.Resolved) {kid : KindId} (hk : σ.kinds[kid]? = some k)
    {a : Assignment} :
    (∃ f ∈ k.fields, a.Suits t f) ↔ (∃ p, a.Checked t k p) ∧ ¬ a.Misread k := by
  constructor
  · rintro ⟨f, hf, h⟩
    have hres : f.Resolved σ := hσ.fields kid k hk f hf
    obtain ⟨i, hi⟩ := List.mem_iff_getElem?.1 hf
    have hplace : k.place? a.field = some ⟨k, i, f⟩ := h.name ▸ hσ.place?_eq hk hi
    refine ⟨⟨⟨k, i, f⟩, ?_, fun c hc => ?_, fun v hv => ?_, ?_⟩, ?_⟩
    · exact Kind.resolve_eq_ok.2 ⟨hplace, List.mem_singleton.2 h.category⟩
    · exact (Tree.takes_iff_checkAccepts (p := ⟨k, i, f⟩) hres).1 (h.nodes c hc)
    · exact (Tree.holds_iff_checkValue (p := ⟨k, i, f⟩) hres).1 (h.values v hv)
    · rintro field text rfl
      obtain ⟨codec, v, hcodec, hv, -⟩ := h.text field text rfl
      exact ⟨v, Place.decode_eq_ok.2 ⟨codec, hcodec, hv⟩⟩
    · intro hmisread
      cases hmisread with
      | @raw field text p v hp hv hne =>
        obtain rfl : p = ⟨k, i, f⟩ := Option.some.inj (hp.symm.trans hplace)
        obtain ⟨codec, w, hcodec, hw, hholds⟩ := h.text field text rfl
        obtain ⟨codec', hcodec', hv⟩ := Place.decode_eq_ok.1 hv
        obtain rfl : codec' = codec := Option.some.inj (hcodec'.symm.trans hcodec)
        obtain rfl : v = w := Except.ok.inj (hv.symm.trans hw)
        exact hne ((Tree.holds_iff_checkValue hres).1 hholds)
  · rintro ⟨⟨p, hp⟩, hread⟩
    obtain ⟨hplace, hcat⟩ := Kind.resolve_eq_ok.1 hp.place
    obtain ⟨rfl, hfield, hname⟩ := Kind.place?_eq_some hplace
    have hmem : p.field ∈ p.kind.fields := List.mem_of_getElem? hfield
    have hres := hσ.fields kid p.kind hk p.field hmem
    refine ⟨p.field, hmem, hname, List.mem_singleton.1 hcat, fun c hc => ?_, fun v hv => ?_, ?_⟩
    · exact (Tree.takes_iff_checkAccepts hres).2 (hp.fits c hc)
    · exact (Tree.holds_iff_checkValue hres).2 (hp.values v hv)
    · rintro field text rfl
      obtain ⟨v, hv⟩ := hp.decoded field text rfl
      obtain ⟨codec, hcodec, hparse⟩ := Place.decode_eq_ok.1 hv
      refine ⟨codec, v, hcodec, hparse, (Tree.holds_iff_checkValue hres).2 ?_⟩
      by_contra hne
      exact hread (.raw hplace hv hne)

/-- The assignments make up a node of the kind exactly if they pass the checks and no text is
misread. -/
theorem Tree.buildable_iff (hσ : σ.Resolved) {kid : KindId} (hk : σ.kinds[kid]? = some k)
    {as : List Assignment} :
    t.Buildable k as ↔ (∃ changes, t.draft k as = .ok changes) ∧ ∀ a ∈ as, ¬ a.Misread k := by
  rw [exists_draft_iff hσ hk]
  constructor
  · intro h
    have hsuits := fun a ha => (Assignment.suits_iff hσ hk).1 (h.suits a ha)
    refine ⟨⟨fun a ha => (hsuits a ha).1, h.once, fun f hf hmust => ?_⟩,
      fun a ha => (hsuits a ha).2⟩
    obtain ⟨hreq, hlist, hinit⟩ := FieldDecl.mustBeGiven_iff.1 hmust
    exact h.given f hf hreq hlist hinit
  · rintro ⟨⟨hchecked, hnodup, hgiven⟩, hread⟩
    exact ⟨fun a ha => (Assignment.suits_iff hσ hk).2 ⟨hchecked a ha, hread a ha⟩, hnodup,
      fun f hf hreq hlist hinit =>
        hgiven f hf (FieldDecl.mustBeGiven_iff.2 ⟨hreq, hlist, hinit⟩)⟩

end Checks

/-! ## Carrying out -/

/-- Where kinds have distinct names, a kind is found by its name. -/
theorem Signature.kindNamed?_of_nodup {σ : Signature} (hnd : (σ.kinds.map Kind.name).Nodup)
    {kid : KindId} {k : Kind} (hk : σ.kinds[kid]? = some k) :
    σ.kindNamed? k.name = some (kid, k) := by
  obtain ⟨hlt, rfl⟩ := List.getElem?_eq_some_iff.1 hk
  have hfind : σ.kindId? σ.kinds[kid].name = some kid := by
    refine List.findIdx?_eq_some_iff_getElem.2 ⟨hlt, by simp, fun j hj hname => ?_⟩
    have hj' : j < (σ.kinds.map Kind.name).length := by
      rw [List.length_map]
      exact Nat.lt_trans hj hlt
    refine Nat.ne_of_lt hj ((List.getElem?_inj hj' hnd).1 ?_)
    rw [List.getElem?_map, List.getElem?_map, List.getElem?_eq_getElem (Nat.lt_trans hj hlt), hk]
    exact congrArg some (by simpa using hname)
  simp [kindNamed?, hfind, hlt]

/-- The kinds of a generated schema have distinct names. -/
theorem nodup_kindNames_of_generate {ts : List Template} {s : Schema}
    (hs : Schema.generate ts = .ok s) : (s.signature.kinds.map Kind.name).Nodup := by
  obtain ⟨hts, rfl⟩ := generate_eq_ok_iff.1 hs
  have hnames : (Schema.ofTemplates ts).signature.kinds.map Kind.name = ts.map Template.name := by
    simp [Schema.signature, Schema.ofTemplates, Template.resolve, Function.comp_def]
  rw [hnames]
  exact hts.kindNames

section Outcomes

variable {σ : Signature} {t t₁ : Tree σ} {k : Kind}

namespace Edit

theorem exists_forM_ok_iff {id : NodeId} {changes : List Change} :
    (∃ t', changes.forM (change id) t = .ok ⟨⟩ t') ↔
      ((changes.forM (change id)).outcome t).2 = .ok ⟨⟩ := by
  unfold outcome
  cases changes.forM (change id) t <;> simp

theorem outcome_forM_append {id : NodeId} {done : List Change}
    (h : done.forM (change id) t = .ok ⟨⟩ t₁) (rest : List Change) :
    ((done ++ rest).forM (change id)).outcome t = (rest.forM (change id)).outcome t₁ := by
  have happend : (done ++ rest).forM (change id) =
      (done.forM (change id) >>= fun _ => rest.forM (change id) : Edit σ PUnit) := List.forM_append
  rw [happend, outcome_bind, h]

end Edit

namespace Tree

variable (hσ : σ.Resolved) (hconf : t.Conforms) (hf : t.Forest) {kid : KindId}
  (hk : σ.kinds[kid]? = some k) {as : List Assignment} {changes : List Change}
include hσ hconf hf hk

/-- The changes of a build all succeed exactly if no text is misread. -/
theorem exists_changes_iff (hdraft : t.draft k as = .ok changes) :
    (∃ t', changes.forM (Edit.change t.size) (t.alloc kid) = .ok ⟨⟩ t') ↔
      ∀ a ∈ as, ¬ a.Misread k := by
  obtain ⟨hchecked, hchanges⟩ := changes_of_draft hdraft
  rw [Edit.exists_forM_ok_iff, outcome_changes hσ hconf hf hk hdraft (.refl _), hchanges]
  exact Assignment.forM_checkValue_eq_ok hchecked

/-- Once the checks of a build have passed, an assignment that is not a text succeeds whenever those
before it have. -/
theorem changes_succeed {before after : List Assignment} {a : Assignment}
    (hdraft : t.draft k (before ++ a :: after) = .ok changes)
    (ha : ∀ field text, a ≠ .raw field text)
    (hbefore : (before.flatMap (Assignment.changes k)).forM (Edit.change t.size) (t.alloc kid) =
      .ok ⟨⟩ t₁) :
    ∃ t₂, (a.changes k).forM (Edit.change t.size) t₁ = .ok ⟨⟩ t₂ := by
  obtain ⟨hchecked, hchanges⟩ := changes_of_draft hdraft
  have hpart : (before.flatMap (Assignment.changes k) ++ a.changes k).Sublist changes := by
    rw [hchanges, List.flatMap_append, List.flatMap_cons, ← List.append_assoc]
    exact List.sublist_append_left _ _
  have hdone := Edit.exists_forM_ok_iff.1 ⟨t₁, hbefore⟩
  rw [outcome_changes hσ hconf hf hk hdraft ((List.sublist_append_left _ _).trans hpart)] at hdone
  rw [Edit.exists_forM_ok_iff, ← Edit.outcome_forM_append hbefore,
    outcome_changes hσ hconf hf hk hdraft hpart, forM_eq_ok, List.forall_mem_append]
  refine ⟨forM_eq_ok.1 hdone, fun ch hch => ?_⟩
  obtain ⟨p, hp⟩ := hchecked a (List.mem_append_right _ List.mem_cons_self)
  by_contra hrefused
  cases hp.misread_iff.1 ⟨ch, hch, hrefused⟩ with
  | raw => exact ha _ _ rfl

end Tree

end Outcomes

/-- A build over a reachable tree succeeds exactly if its kind is declared and the assignments make
up a node of this kind. Once its checks have passed, the changes of every assignment but a text
succeed, whatever tree the assignments before it have led to. -/
theorem build_succeeds_iff {ts : List Template} {s : Schema} (hs : Schema.generate ts = .ok s)
    {t : Tree s.signature} (ht : t.Reachable) (kind : String) (as : List Assignment) :
    ((∃ id t', Edit.build kind as t = .ok id t') ↔
      ∃ k ∈ s.signature.kinds, k.name = kind ∧ t.Buildable k as) ∧
    ∀ kid k changes, s.signature.kindNamed? kind = some (kid, k) → t.draft k as = .ok changes →
      changes = as.flatMap (Assignment.changes k) ∧
      ∀ before a after t₁, as = before ++ a :: after → (∀ field text, a ≠ .raw field text) →
        (before.flatMap (Assignment.changes k)).forM (Edit.change t.size) (t.alloc kid) =
          .ok ⟨⟩ t₁ →
        ∃ t₂, (a.changes k).forM (Edit.change t.size) t₁ = .ok ⟨⟩ t₂ := by
  have hσ := resolved_of_generate hs
  have hconf := ht.conforms hσ
  have hf := ht.forest hσ
  refine ⟨⟨?_, ?_⟩, fun kid k changes hkind hdraft => ?_⟩
  · rintro ⟨id, t', hbuild⟩
    obtain ⟨kid, k, changes, hkind, hdraft, -, hrun⟩ := Edit.build_eq_ok_iff.1 hbuild
    obtain ⟨hk, hname⟩ := Signature.kindNamed?_eq_some hkind
    have hread := (Tree.exists_changes_iff hσ hconf hf hk hdraft).1 ⟨t', hrun⟩
    exact ⟨k, List.mem_of_getElem? hk, hname,
      (Tree.buildable_iff hσ hk).2 ⟨⟨changes, hdraft⟩, hread⟩⟩
  · rintro ⟨k, hmem, rfl, hbuildable⟩
    obtain ⟨kid, hk⟩ := List.mem_iff_getElem?.1 hmem
    have hkind := Signature.kindNamed?_of_nodup (nodup_kindNames_of_generate hs) hk
    obtain ⟨⟨changes, hdraft⟩, hread⟩ := (Tree.buildable_iff hσ hk).1 hbuildable
    obtain ⟨t', hrun⟩ := (Tree.exists_changes_iff hσ hconf hf hk hdraft).2 hread
    exact ⟨t.size, t', Edit.build_eq_ok_iff.2 ⟨kid, k, changes, hkind, hdraft, rfl, hrun⟩⟩
  · have hk := (Signature.kindNamed?_eq_some hkind).1
    refine ⟨(Tree.changes_of_draft hdraft).2, ?_⟩
    rintro before a after t₁ rfl ha hbefore
    exact Tree.changes_succeed hσ hconf hf hk hdraft ha hbefore

/-- Item 0 is in box 1, and a crate can still be built with it. A level that stands in a text is out
of bounds; the crate that has it takes the item, but it cannot be built. -/
theorem build_succeeds_crateTree :
    Schema.generate crateTemplates = .ok (Schema.ofTemplates crateTemplates) ∧
      crateTree.Reachable ∧ crateTree.parent? 0 = some 1 ∧
      (∃ k ∈ (Schema.ofTemplates crateTemplates).signature.kinds, k.name = "Crate" ∧
        crateTree.Buildable k [.child "item" 0, .data "level" (.int 9)]) ∧
      (¬ ∃ k ∈ (Schema.ofTemplates crateTemplates).signature.kinds, k.name = "Crate" ∧
        crateTree.Buildable k [.child "item" 0, .raw "level" "5"]) ∧
      ∃ t', Edit.setChild 2 "item" (some 0) (crateTree.alloc 2) = .ok () t' := by
  have hall := build_succeeds_iff generate_crateTemplates reachable_crateTree "Crate"
  refine ⟨generate_crateTemplates, reachable_crateTree, by decide +kernel, (hall _).1.1 ⟨2, _, rfl⟩,
    fun hbuildable => ?_, ?_⟩
  · obtain ⟨id, t', hbuild⟩ := (hall _).1.2 hbuildable
    cases hbuild
  · obtain ⟨t', h⟩ := ((hall [.child "item" 0, .raw "level" "5"]).2 2 _ _ rfl rfl).2 [] _ _ _ rfl
      (by simp) rfl
    obtain ⟨t₁, hset, -⟩ := Edit.forM_cons_eq_ok.1 h
    exact ⟨t₁, hset⟩

end Arbor
