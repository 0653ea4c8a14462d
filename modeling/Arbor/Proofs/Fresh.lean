import Arbor.Proofs.Conformity
import Arbor.Validation

/-!
# Fresh nodes

A new node comes with a block of nodes below it, one for each initial node that its kind leads to.
Kinds do not lead back to themselves, so a path through them is shorter than their number, and the
bound of the block is never met: every fresh node has all of its initial values. What it lacks are
the fields that a build has to give.
-/

namespace Arbor

open Relation

variable {σ : Signature}

/-! ## Paths through initial nodes -/

/-- All kinds of `path` are distinct and lead to `kind`. -/
structure Trail (σ : Signature) (path : List KindId) (kind : KindId) : Prop where
  nodup : path.Nodup
  leads : ∀ a ∈ path, TransGen σ.Starts a kind
  lt : ∀ a ∈ kind :: path, a < σ.kinds.length

namespace Trail

variable {path : List KindId} {kind next : KindId}

theorem nil (h : kind < σ.kinds.length) : Trail σ [] kind :=
  ⟨.nil, by simp, by simpa using h⟩

theorem nodup_cons (h : Trail σ path kind) (hσ : σ.Resolved) : (kind :: path).Nodup :=
  List.nodup_cons.2 ⟨fun hk => hσ.notRecursive kind (h.leads kind hk), h.nodup⟩

theorem cons (h : Trail σ path kind) (hσ : σ.Resolved) (hnext : σ.Starts kind next) :
    Trail σ (kind :: path) next := by
  refine ⟨h.nodup_cons hσ, fun a ha => ?_, fun a ha => ?_⟩
  · rcases List.mem_cons.1 ha with rfl | ha
    · exact .single hnext
    · exact (h.leads a ha).tail hnext
  · rcases List.mem_cons.1 ha with rfl | ha
    · obtain ⟨k, hk⟩ := hσ.exists_kind hnext
      exact (List.getElem?_eq_some_iff.1 hk).1
    · exact h.lt a ha

/-- A path through distinct kinds is shorter than their number. -/
theorem length_lt (h : Trail σ path kind) (hσ : σ.Resolved) : path.length < σ.kinds.length := by
  have hsub : kind :: path ⊆ List.range σ.kinds.length :=
    fun a ha => List.mem_range.2 (h.lt a ha)
  have hlen := (List.subperm_of_subset (h.nodup_cons hσ) hsub).length_le
  rw [List.length_cons, List.length_range] at hlen
  omega

end Trail

/-! ## The nodes of a block -/

theorem mem_layOut {α : Type} {block : NodeId → α → List Node} {base : NodeId} {as : List α}
    {n : Node} (h : n ∈ (layOut block base as).2) : ∃ id, ∃ a ∈ as, n ∈ block id a := by
  induction as generalizing base with
  | nil => simp [layOut] at h
  | cons a as ih =>
    rcases List.mem_append.1 h with h | h
    · exact ⟨base, a, List.mem_cons_self, h⟩
    · obtain ⟨id, a', ha', hn⟩ := ih h
      exact ⟨id, a', List.mem_cons_of_mem _ ha', hn⟩

theorem subset_layOut {α : Type} (block : NodeId → α → List Node) (base : NodeId) {as : List α}
    {a : α} (ha : a ∈ as) : ∃ id, block id a ⊆ (layOut block base as).2 := by
  induction as generalizing base with
  | nil => simp at ha
  | cons a' as ih =>
    rcases List.mem_cons.1 ha with rfl | ha
    · exact ⟨base, List.subset_append_left _ _⟩
    · obtain ⟨id, hsub⟩ := ih (base + (block base a').length) ha
      exact ⟨id, List.subset_append_of_subset_right _ hsub⟩

/-- The bound of a block is never in the way if it allows for all kinds that are not on the path to
it. Nor does the block depend on more of the signature than the fields of its kinds. -/
theorem Signature.Resolved.freshBlock_eq {σ' : Signature} (hσ : σ.Resolved)
    (hfields : ∀ kind < σ.kinds.length, σ'.fields kind = σ.fields kind) {bound bound' : Nat}
    {path : List KindId} {kind : KindId} (htrail : Trail σ path kind)
    (hb : σ.kinds.length ≤ bound + path.length) (hb' : σ.kinds.length ≤ bound' + path.length)
    (parent : Option NodeId) (base : NodeId) :
    σ'.freshBlock bound' parent base kind = σ.freshBlock bound parent base kind := by
  -- The trail to the kind is shorter than the list of kinds, so neither bound is used up here.
  have hlt := htrail.length_lt hσ
  induction bound generalizing bound' path kind parent base with
  | zero => omega
  | succ bound ih =>
    obtain ⟨bound', rfl⟩ : ∃ m, bound' = m + 1 := ⟨bound' - 1, by omega⟩
    have hbelow : ∀ next ∈ (σ.fields kind).filterMap Field.initialKind, ∀ start,
        σ'.freshBlock bound' (some base) start next =
          σ.freshBlock bound (some base) start next := by
      intro next hnext start
      have hmore := htrail.cons hσ hnext
      refine ih hmore ?_ ?_ _ _ (hmore.length_lt hσ) <;> rw [List.length_cons] <;> omega
    have hkind := hfields kind (htrail.lt kind List.mem_cons_self)
    simp only [Signature.freshBlock, hkind, layOut_congr hbelow]

/-- The node holds its initial values and nothing else. -/
def Node.Initial (σ : Signature) (n : Node) : Prop :=
  ∃ ids : List NodeId, ids.length = (σ.initialKinds n.kind).length ∧
    n.slots = initialSlots (σ.fields n.kind) ids

/-- Every node of a block has its initial values, if the bound allows for all kinds that are not on
the path to it. -/
theorem initial_freshBlock (hσ : σ.Resolved) {bound : Nat} {parent : Option NodeId} {base : NodeId}
    {path : List KindId} {kind : KindId} (htrail : Trail σ path kind)
    (hbound : σ.kinds.length ≤ bound + path.length) :
    ∀ n ∈ σ.freshBlock bound parent base kind, n.Initial σ ∧ ReflTransGen σ.Starts kind n.kind := by
  induction bound generalizing parent base path kind with
  | zero =>
    -- The path would have to go through all kinds.
    have hlt := htrail.length_lt hσ
    omega
  | succ bound ih =>
    intro n hn
    rcases List.mem_cons.1 hn with rfl | hn
    · exact ⟨⟨_, length_layOut _ _ _, rfl⟩, .refl⟩
    · obtain ⟨id, next, hnext, hn⟩ := mem_layOut hn
      have hlen : σ.kinds.length ≤ bound + (kind :: path).length := by
        rw [List.length_cons]
        omega
      obtain ⟨hinit, hreach⟩ := ih (htrail.cons hσ hnext) hlen n hn
      exact ⟨hinit, .head hnext hreach⟩

/-- Every kind that the kind leads to has a node in the block. -/
theorem exists_freshBlock (hσ : σ.Resolved) {bound : Nat} {parent : Option NodeId} {base : NodeId}
    {path : List KindId} {kind : KindId} (htrail : Trail σ path kind)
    (hbound : σ.kinds.length ≤ bound + path.length) {k : KindId}
    (hk : ReflTransGen σ.Starts kind k) :
    ∃ n ∈ σ.freshBlock bound parent base kind, n.kind = k := by
  induction bound generalizing parent base path kind with
  | zero =>
    have hlt := htrail.length_lt hσ
    omega
  | succ bound ih =>
    rcases ReflTransGen.cases_head hk with rfl | ⟨next, hnext, hk⟩
    · exact ⟨_, List.mem_cons_self, rfl⟩
    · have hlen : σ.kinds.length ≤ bound + (kind :: path).length := by
        rw [List.length_cons]
        omega
      obtain ⟨id, hsub⟩ := subset_layOut (σ.freshBlock bound (some base)) (base + 1) hnext
      obtain ⟨n, hn, rfl⟩ : ∃ n ∈ σ.freshBlock bound (some base) id next, n.kind = k :=
        ih (htrail.cons hσ hnext) hlen hk
      exact ⟨n, List.mem_cons_of_mem _ (hsub hn), rfl⟩

/-- A new node of a kind is followed by nodes of exactly the kinds that the kind leads to, all of
them with their initial values. -/
theorem freshBlock_eq_cons (hσ : σ.Resolved) (base : NodeId) {kind : KindId}
    (hkind : kind < σ.kinds.length) :
    ∃ root below, σ.freshBlock σ.kinds.length none base kind = root :: below ∧
      root.kind = kind ∧ root.Initial σ ∧
      (∀ n ∈ below, n.Initial σ ∧ TransGen σ.Starts kind n.kind) ∧
      ∀ k, TransGen σ.Starts kind k → ∃ n ∈ below, n.kind = k := by
  obtain ⟨bound, hbound⟩ := Nat.exists_eq_add_one_of_ne_zero (Nat.ne_zero_of_lt hkind)
  have htrail : Trail σ [] kind := .nil hkind
  have hlen : σ.kinds.length ≤ bound + [kind].length := by
    rw [List.length_singleton]
    omega
  rw [hbound]
  refine ⟨_, _, rfl, rfl, ⟨_, length_layOut _ _ _, rfl⟩, fun n hn => ?_, fun k hk => ?_⟩
  · obtain ⟨id, next, hnext, hn⟩ := mem_layOut hn
    obtain ⟨hinit, hreach⟩ := initial_freshBlock hσ (htrail.cons hσ hnext) hlen n hn
    exact ⟨hinit, .head' hnext hreach⟩
  · obtain ⟨next, hnext, hk⟩ := TransGen.head'_iff.1 hk
    obtain ⟨id, hsub⟩ := subset_layOut (σ.freshBlock bound (some base)) (base + 1) hnext
    obtain ⟨n, hn, rfl⟩ : ∃ n ∈ σ.freshBlock bound (some base) id next, n.kind = k :=
      exists_freshBlock hσ (htrail.cons hσ hnext) hlen hk
    exact ⟨n, hsub hn, rfl⟩

/-! ## What a node lacks -/

namespace Node

variable {n : Node} {k : Kind}

theorem missing_eq_nil_iff :
    n.missing k = [] ↔ ∀ (i : Nat) (f : Field) (s : Slot), k.fields[i]? = some f →
      n.slots[i]? = some s → f.decl.required = true → f.decl.isList = false →
      s.isFilled = true := by
  unfold missing
  rw [List.filterMap_eq_nil_iff]
  constructor
  · intro h i f s hf hs hreq hlist
    have hmem : (f, s) ∈ k.fields.zip n.slots :=
      List.mem_of_getElem? (List.getElem?_zip_eq_some.2 ⟨hf, hs⟩)
    simpa [hreq, hlist] using h (f, s) hmem
  · rintro h ⟨f, s⟩ hmem
    obtain ⟨i, hi⟩ := List.getElem?_of_mem hmem
    obtain ⟨hf, hs⟩ := List.getElem?_zip_eq_some.1 hi
    have hfilled := h i f s hf hs
    cases hreq : f.decl.required <;> cases hlist : f.decl.isList <;> simp_all

end Node

/-! ## What a new slot holds -/

/-- The slot holds what the field declares for new nodes: a node of which `P` holds if the field
starts with a node, and otherwise a value or nothing. -/
def Field.StartsWith (P : KindId → NodeId → Prop) (f : Field) (s : Slot) : Prop :=
  match f.initialKind, f.decl.initial with
  | some kind, _ => ∃ x, s = .child (some x) ∧ P kind x
  | none, some (.data v) => s = .data (some v)
  | none, _ => s = .empty f.category

theorem startsWith_initialSlots {P : KindId → NodeId → Prop} {fs : List Field} {ids : List NodeId}
    (hids : List.Forall₂ (fun id kind => P kind id) ids (fs.filterMap Field.initialKind)) :
    List.Forall₂ (Field.StartsWith P) fs (initialSlots fs ids) := by
  induction fs generalizing ids with
  | nil => exact .nil
  | cons f fs ih =>
    unfold initialSlots
    cases hk : f.initialKind with
    | some kind =>
      rw [List.filterMap_cons_some hk] at hids
      cases hids with
      | @cons id _ ids _ hid hids =>
        exact .cons (by simpa [Field.StartsWith, hk] using hid) (ih hids)
    | none =>
      rw [List.filterMap_cons_none hk] at hids
      cases hi : f.decl.initial with
      | none => exact .cons (by simp [Field.StartsWith, hk, hi]) (ih hids)
      | some i =>
        cases i with
        | data v => exact .cons (by simp [Field.StartsWith, hk, hi]) (ih hids)
        | newNode kind => exact .cons (by simp [Field.StartsWith, hk, hi]) (ih hids)

/-- A field without an initial kind is not declared to start with a node. -/
theorem Field.Resolved.ne_newNode {f : Field} (hf : f.Resolved σ) (hk : f.initialKind = none)
    (name : String) : f.decl.initial ≠ some (.newNode name) := by
  intro hinit
  obtain ⟨kind, hkind⟩ := hf.initialNode name hinit
  cases hk.symm.trans hkind

/-- A single field of a new node is filled just if it has an initial value. -/
theorem Field.StartsWith.isFilled {P : KindId → NodeId → Prop} {f : Field} {s : Slot}
    (h : f.StartsWith P s) (hf : f.Resolved σ) : s.isFilled = f.decl.initial.isSome := by
  unfold StartsWith at h
  cases hk : f.initialKind with
  | some kind =>
    obtain ⟨_, _, _, hinit, -⟩ := hf.initialKind kind hk
    rw [hk] at h
    obtain ⟨x, rfl, -⟩ := h
    rw [hinit]
    rfl
  | none =>
    rw [hk] at h
    cases hi : f.decl.initial with
    | none =>
      rw [hi] at h
      subst h
      cases f.category <;> rfl
    | some i =>
      cases i with
      | data v =>
        rw [hi] at h
        subst h
        rfl
      | newNode name => exact absurd hi (hf.ne_newNode hk name)

theorem Node.Initial.isFilled (hσ : σ.Resolved) {n : Node} (h : n.Initial σ) {i : Nat} {f : Field}
    (hf : (σ.fields n.kind)[i]? = some f) :
    ∃ s, n.slots[i]? = some s ∧ s.isFilled = f.decl.initial.isSome := by
  obtain ⟨ids, hids, hslots⟩ := h
  have hany : List.Forall₂ (fun _ _ => True) ids (σ.initialKinds n.kind) :=
    List.forall₂_iff_zip.2 ⟨hids, fun _ => trivial⟩
  rw [hslots]
  obtain ⟨s, hs, hstarts⟩ := forall₂_getElem? (startsWith_initialSlots hany) hf
  exact ⟨s, hs, hstarts.isFilled (hσ.of_mem (List.mem_of_getElem? hf))⟩

/-- A node with its initial values lacks nothing exactly if no field has to be given. -/
theorem Node.Initial.missing_eq_nil_iff (hσ : σ.Resolved) {n : Node} (h : n.Initial σ) {k : Kind}
    (hk : σ.kinds[n.kind]? = some k) :
    n.missing k = [] ↔ ∀ f ∈ k.fields, f.decl.mustBeGiven = false := by
  have hfields := Signature.fields_of_kinds hk
  rw [Node.missing_eq_nil_iff]
  constructor
  · intro hall f hf
    obtain ⟨i, hi⟩ := List.getElem?_of_mem hf
    obtain ⟨s, hs, hfilled⟩ := h.isFilled hσ (hfields ▸ hi)
    have hall := hall i f s hi hs
    rw [hfilled] at hall
    unfold FieldDecl.mustBeGiven
    cases hreq : f.decl.required <;> cases hlist : f.decl.isList <;>
      cases hinit : f.decl.initial <;> simp_all
  · intro hall i f s hi hs hreq hlist
    obtain ⟨s', hs', hfilled⟩ := h.isFilled hσ (hfields ▸ hi)
    obtain rfl : s = s' := Option.some.inj (hs.symm.trans hs')
    have hgiven := hall f (List.mem_of_getElem? hi)
    unfold FieldDecl.mustBeGiven at hgiven
    rw [hfilled]
    cases hinit : f.decl.initial <;> simp_all

end Arbor
