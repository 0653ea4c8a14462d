import Arbor.Proofs.Conformity
import Arbor.Proofs.Locality
import Arbor.Standard

/-!
# Finding nodes

Nodes, kinds, fields and slots are addressed by number. `Tree.InRange` says that all numbers in a
tree are in range. Then a reader that starts from a node of the tree finds every node and every kind
on its way, and so do the accessors of the standard catalogue.
-/

namespace Arbor

/-! ## Answers that find their nodes -/

/-- The answer is not that a node does not exist, and a result satisfies `P`. -/
def Finds {α : Type} (P : α → Prop) : Except Error α → Prop
  | .ok a => P a
  | .error e => ∀ id, e ≠ .noSuchNode id

namespace Finds

variable {α β γ : Type} {P P' : α → Prop} {Q : β → Prop} {x : Except Error α}

theorem contract {kind field : String} {b : Breach} : Finds P (.error (.contract kind field b)) :=
  fun _ h => by cases h

theorem mono (h : Finds P x) (hP : ∀ a, x = .ok a → P a → P' a) : Finds P' x := by
  cases x with
  | ok a => exact hP a rfl h
  | error e => exact h

theorem bind {f : α → Except Error β} (h : Finds P x) (hf : ∀ a, x = .ok a → P a → Finds Q (f a)) :
    Finds Q (x >>= f) := by
  cases x with
  | ok a => exact hf a rfl h
  | error e => exact h

theorem map {f : α → β} (h : Finds P x) (hf : ∀ a, x = .ok a → P a → Q (f a)) :
    Finds Q (x.map f) := by
  cases x with
  | ok a => exact hf a rfl h
  | error e => exact h

theorem mapM {f : γ → Except Error β} {as : List γ} (h : ∀ a ∈ as, Finds (fun _ => True) (f a)) :
    Finds (fun _ => True) (as.mapM f) := by
  induction as with
  | nil => exact True.intro
  | cons a as ih =>
    obtain ⟨ha, has⟩ := List.forall_mem_cons.1 h
    rw [List.mapM_cons]
    exact ha.bind fun _ _ _ => (ih has).bind fun _ _ _ => True.intro

theorem forM {f : γ → Except Error Unit} {as : List γ} (h : ∀ a ∈ as, Finds (fun _ => True) (f a)) :
    Finds (fun _ => True) (as.forM f) := by
  induction as with
  | nil => exact True.intro
  | cons a as ih =>
    obtain ⟨ha, has⟩ := List.forall_mem_cons.1 h
    exact ha.bind fun _ _ _ => ih has

theorem foldlM {f : β → γ → Except Error β} {as : List γ}
    (h : ∀ b, ∀ a ∈ as, Finds (fun _ => True) (f b a)) (b : β) :
    Finds (fun _ => True) (as.foldlM f b) := by
  induction as generalizing b with
  | nil => exact True.intro
  | cons a as ih =>
    rw [List.foldlM_cons]
    exact (h b a List.mem_cons_self).bind fun b' _ _ =>
      ih (fun b c hc => h b c (List.mem_cons_of_mem _ hc)) b'

end Finds

/-! ## Checks find no node missing -/

theorem Kind.finds_resolve (k : Kind) (name : String) (expected : List Category) :
    Finds (fun _ => True) (k.resolve name expected) := by
  unfold resolve
  cases k.place? name with
  | none => exact .contract
  | some p =>
    simp only
    split
    · exact True.intro
    · exact .contract

namespace Place

theorem finds_checkValue (p : Place) (v : Option Value) :
    Finds (fun _ => True) (p.checkValue v) := by
  unfold checkValue
  split
  · split
    · exact .contract
    · exact True.intro
  · split
    · exact .contract
    · split
      · exact .contract
      · split
        · split
          · exact True.intro
          · exact .contract
        · exact True.intro

theorem finds_codec (p : Place) : Finds (fun _ => True) p.codec := by
  unfold codec
  split
  · exact True.intro
  · exact .contract

theorem finds_decode (p : Place) (text : Option String) :
    Finds (fun _ => True) (p.decode text) := by
  refine p.finds_codec.bind fun codec _ _ => ?_
  split
  · exact True.intro
  · next r _ =>
    intro id h
    cases r <;> cases h

end Place

theorem Signature.finds_checkAccepts (σ : Signature) (p : Place) (id : KindId) :
    Finds (fun _ => True) (σ.checkAccepts p id) := by
  unfold checkAccepts
  split
  · exact .contract
  · split
    · exact True.intro
    · exact .contract
  · exact .contract

/-! ## Numbers in range -/

/-- Every kind that a field accepts or starts with exists, and so does every kind found by name. -/
structure Signature.InRange (σ : Signature) : Prop where
  accepted : ∀ k ∈ σ.kinds, ∀ f ∈ k.fields, ∀ id, f.accepts = some (.kind id) →
    id < σ.kinds.length
  initial : ∀ k ∈ σ.kinds, ∀ f ∈ k.fields, ∀ id, f.initialKind = some id → id < σ.kinds.length
  named : ∀ name id k, σ.kindNamed? name = some (id, k) → id < σ.kinds.length

section Definitions

variable {σ : Signature}

/-- Every node has a kind and a slot for each of its fields, and its parent and its children are
nodes. -/
structure Tree.InRange (t : Tree σ) : Prop where
  kind : ∀ id n, t.node? id = some n → n.kind < σ.kinds.length
  slots : ∀ id n k, t.node? id = some n → σ.kinds[n.kind]? = some k →
    n.slots.length = k.fields.length
  parent : ∀ id p, t.parent? id = some p → p < t.size
  child : ∀ id, ∀ c ∈ t.childNodes id, c < t.size

/-- The position is one of the fields of its kind and one of the slots of the node. -/
structure Place.InRange (p : Place) (t : Tree σ) (id : NodeId) : Prop where
  field : p.kind.fields[p.index]? = some p.field
  slot : ∃ n, t.node? id = some n ∧ p.index < n.slots.length

structure ListBinding.InRange (b : ListBinding) (t : Tree σ) : Prop where
  owner : b.owner < t.size
  target : b.target < t.size

/-- The numbers that reading and editing through a view count with. -/
structure ListView.InRange (v : ListView) (t : Tree σ) : Prop where
  place : v.place.InRange t v.binding.target
  /-- The length that an insertion counts takes one off the length of a list with an element. -/
  length : ∀ c ∈ v.contents t, 1 ≤ v.length t
  /-- A node is inserted after it has left its owner, which may be this list. -/
  insert : ∀ index c, v.checkInsert t index c = .ok () →
    index ≤ (v.contents (t.adopt v.binding.target c)).length
  erase : ∀ index, v.checkDataList t = .ok () → v.checkIndex t index = .ok () →
    index < (v.values t).length

/-- The nodes that a derived list names exist. -/
def Derived.InRange (t : Tree σ) : Derived → Prop
  | list b => b.InRange t
  | text _ | bool _ => True

/-- On every tree with its numbers in range, the accessor finds the nodes that it looks up. -/
def Accessor.Sound (a : Accessor) : Prop :=
  ∀ (σ : Signature) (t : Tree σ), t.InRange → ∀ id < t.size,
    Finds (Derived.InRange t) (a.compute σ t id)

end Definitions

theorem FieldDecl.lt_length_of_accepts? {names : List String} {d : FieldDecl} {id : KindId}
    (h : d.accepts? names = some (.kind id)) : id < names.length := by
  unfold accepts? at h
  split at h
  · split at h
    · cases h
    · obtain ⟨i, hi, hid⟩ := Option.map_eq_some_iff.1 h
      cases hid
      exact (List.idxOf?_eq_some_iff.1 hi).1
  · cases h

theorem inRange_of_generate {ts : List Template} {s : Schema} (h : Schema.generate ts = .ok s) :
    s.signature.InRange := by
  have hresolved := resolved_of_generate h
  refine ⟨fun k hk f hf id hacc => ?_, fun k hk f hf id hinit => ?_, fun name id k hnamed => ?_⟩
  · obtain ⟨-, rfl⟩ := generate_eq_ok_iff.1 h
    simp only [Schema.signature, Schema.ofTemplates, List.map_map, List.mem_map,
      Function.comp_apply] at hk
    obtain ⟨template, -, rfl⟩ := hk
    obtain ⟨d, -, rfl⟩ := List.mem_map.1 hf
    have hlt := FieldDecl.lt_length_of_accepts? hacc
    simpa [Schema.signature, Schema.ofTemplates] using hlt
  · obtain ⟨i, hi⟩ := List.getElem?_of_mem hk
    obtain ⟨_, _, k', -, -, hk', -⟩ := (hresolved.fields i k hi f hf).initialKind id hinit
    exact (List.getElem?_eq_some_iff.1 hk').1
  · exact (List.getElem?_eq_some_iff.1 (Signature.kindNamed?_eq_some hnamed).1).1

theorem Slot.Conforms.lt_size {σ : Signature} {t : Tree σ} {f : Field} {s : Slot}
    (h : s.Conforms t f) {c : NodeId} (hc : c ∈ s.nodes) : c < t.size := by
  have hlt : t.Takes f c → c < t.size := fun ⟨_, _, _, _, hn, _⟩ => Tree.lt_size_of_node? hn
  cases s with
  | child held => exact hlt (h.2 c (Option.mem_toList.1 hc))
  | children held => exact hlt (h.2 c hc)
  | data held => cases hc
  | values held => cases hc

section InRange

variable {σ : Signature} {t t' : Tree σ}

theorem Tree.Conforms.inRange (h : t.Conforms) (hp : t.ParentsExist) : t.InRange where
  kind id n hn := (h id n hn).kind
  slots id n k hn hk := by
    rw [← Signature.fields_of_kinds hk]
    exact (h id n hn).slots.length_eq.symm
  parent := hp
  child id c hc := by
    obtain ⟨i, s, hs, hcs⟩ := Tree.mem_childNodes.1 hc
    obtain ⟨n, hn, hi⟩ := Tree.slot?_eq_some.1 hs
    obtain ⟨f, -, hconf⟩ := forall₂_getElem? (h id n hn).slots.flip hi
    exact Slot.Conforms.lt_size (f := f) hconf hcs

theorem Place.Of.inRange (h : t.InRange) {id : NodeId} {p : Place} {n : Node} (hp : p.Of t id n) :
    p.InRange t id := by
  have hfield : p.kind.fields[p.index]? = some p.field := by
    rw [← Signature.fields_of_kinds hp.kind]
    exact hp.field
  refine ⟨hfield, n, hp.node, ?_⟩
  rw [h.slots id n p.kind hp.node hp.kind]
  exact (List.getElem?_eq_some_iff.1 hfield).1

theorem Tree.KindsKept.lt_size (h : t.KindsKept t') {id : NodeId} (hid : id < t.size) :
    id < t'.size := by
  obtain ⟨n, hn⟩ := Tree.exists_node? hid
  obtain ⟨n', hn', -⟩ := h id n hn
  exact Tree.lt_size_of_node? hn'

end InRange

/-! ## Reading -/

namespace Tree

namespace InRange

variable {σ : Signature} {t : Tree σ} (h : t.InRange) {id : NodeId} (hid : id < t.size)
include h hid

theorem exists_kind :
    ∃ n k, t.node? id = some n ∧ σ.kinds[n.kind]? = some k ∧ n.slots.length = k.fields.length := by
  obtain ⟨n, hn⟩ := exists_node? hid
  have hk := List.getElem?_eq_getElem (h.kind id n hn)
  exact ⟨n, _, hn, hk, h.slots id n _ hn hk⟩

theorem finds_kindId : Finds (· < σ.kinds.length) (t.kindId id) := by
  obtain ⟨n, hn⟩ := exists_node? hid
  simp only [kindId, hn]
  exact h.kind id n hn

theorem finds_kind : Finds (fun k => k ∈ σ.kinds) (t.kind id) := by
  obtain ⟨n, k, hn, hk, -⟩ := h.exists_kind hid
  rw [kind_eq_ok.2 ⟨n, hn, hk⟩]
  exact List.mem_of_getElem? hk

theorem finds_locate (field : String) (expected : List Category) :
    Finds (fun p => p.InRange t id) (t.locate id field expected) := by
  have hfinds : Finds (fun _ => True) (t.locate id field expected) :=
    (h.finds_kind hid).bind fun k _ _ => k.finds_resolve field expected
  refine hfinds.mono fun p hp _ => ?_
  obtain ⟨⟨n, hof⟩, -⟩ := locate_eq_ok hp
  exact hof.inRange h

theorem finds_child (field : String) : Finds (fun c => ∀ x ∈ c, x < t.size) (t.child id field) := by
  have hfinds : Finds (fun _ => True) (t.child id field) :=
    (h.finds_locate hid field _).bind fun _ _ _ => True.intro
  refine hfinds.mono fun c hc _ x hx => ?_
  cases hx
  exact h.child id x (mem_childNodes_of_child hc)

theorem finds_children (field : String) :
    Finds (fun cs => ∀ x ∈ cs, x < t.size) (t.children id field) := by
  have hfinds : Finds (fun _ => True) (t.children id field) :=
    (h.finds_locate hid field _).bind fun _ _ _ => True.intro
  exact hfinds.mono fun cs hcs _ x hx => h.child id x (mem_childNodes_of_children hcs hx)

theorem finds_data (field : String) : Finds (fun _ => True) (t.data id field) :=
  (h.finds_locate hid field _).bind fun _ _ _ => True.intro

theorem finds_dataList (field : String) : Finds (fun _ => True) (t.dataList id field) :=
  (h.finds_locate hid field _).bind fun _ _ _ => True.intro

theorem finds_rawForm (field : String) : Finds (fun _ => True) (t.rawForm id field) := by
  refine (h.finds_locate hid field _).bind fun p _ _ => p.finds_codec.bind fun codec _ _ => ?_
  split
  · exact True.intro
  · split
    · exact True.intro
    · exact .contract

omit hid in
theorem ancestors_lt_size {a : NodeId} (ha : a ∈ t.ancestors id) : a < t.size :=
  ParentsExist.lt_size_of_mem_climb h.parent ha

theorem rootOf_lt_size : t.rootOf id < t.size := by
  rw [rootOf, List.getLastD_eq_getLast?]
  cases hlast : (t.ancestors id).getLast? with
  | none => exact hid
  | some a => exact h.ancestors_lt_size (List.mem_of_getLast? hlast)

end InRange

theorem InRange.visit_lt_size {σ : Signature} {t : Tree σ} (h : t.InRange) {bound : Nat}
    {ids : List NodeId} (hids : ∀ x ∈ ids, x < t.size) : ∀ x ∈ t.visit bound ids, x < t.size := by
  induction bound generalizing ids with
  | zero => simp [visit]
  | succ bound ih =>
    cases ids with
    | nil => simp [visit]
    | cons id rest =>
      obtain ⟨hid, hrest⟩ := List.forall_mem_cons.1 hids
      refine List.forall_mem_cons.2 ⟨hid, ih fun x hx => ?_⟩
      obtain hx | hx := List.mem_append.1 hx
      · exact h.child id x hx
      · exact hrest x hx

/-! ## Type names -/

namespace InRange

variable {σ : Signature} {t : Tree σ} (h : t.InRange) {id : NodeId} (hid : id < t.size)
include h hid

theorem finds_expectKind (kind accessor : String) :
    Finds (fun _ => True) (t.expectKind id kind accessor) := by
  refine (h.finds_kind hid).bind fun k _ _ => ?_
  split
  · exact True.intro
  · exact .contract

theorem finds_partGenerics : Finds (fun b => b.InRange t) (t.partGenerics id) := by
  refine (h.finds_expectKind hid _ _).bind fun _ _ _ => (h.finds_child hid _).bind fun c _ hc => ?_
  cases c with
  | none => exact .contract
  | some args => exact ⟨hid, hc args rfl⟩

theorem finds_generics : Finds (fun b => b.InRange t) (t.generics id) := by
  refine (h.finds_expectKind hid _ _).bind fun _ _ _ =>
    (h.finds_children hid _).bind fun parts _ hparts => ?_
  cases hlast : parts.getLast? with
  | none => exact .contract
  | some last =>
    have hlt := hparts last (List.mem_of_getLast? hlast)
    exact (h.finds_partGenerics hlt).bind fun b _ hb => ⟨hid, hb.target⟩

theorem finds_hasGenerics : Finds (fun _ => True) (t.hasGenerics id) := by
  refine (h.finds_expectKind hid _ _).bind fun _ _ _ =>
    (h.finds_children hid _).bind fun _ _ _ => ?_
  split
  · exact True.intro
  · exact (h.finds_generics hid).bind fun b _ hb =>
      (h.finds_children hb.target _).bind fun _ _ _ => True.intro

variable {refText : NodeId → Except Error String}
  (href : ∀ x < t.size, Finds (fun _ => True) (refText x))
include href

theorem finds_argumentText : Finds (fun _ => True) (t.argumentText refText id) := by
  refine (h.finds_data hid _).bind fun v _ _ => ?_
  split
  · exact href id hid
  · exact True.intro
  · exact (href id hid).bind fun _ _ _ => True.intro
  · exact (href id hid).bind fun _ _ _ => True.intro

theorem finds_partText : Finds (fun _ => True) (t.partText refText id) := by
  refine (h.finds_expectKind hid _ _).bind fun _ _ _ => (h.finds_child hid _).bind fun c _ hc => ?_
  cases c with
  | none => exact .contract
  | some identifier =>
    refine (h.finds_data (hc identifier rfl) _).bind fun _ _ _ =>
      (h.finds_partGenerics hid).bind fun b _ hb =>
      (h.finds_children hb.target _).bind fun args _ hargs => ?_
    exact (Finds.mapM fun arg harg => h.finds_argumentText (hargs arg harg) href).bind
      fun _ _ _ => True.intro

end InRange

theorem InRange.finds_refText {σ : Signature} {t : Tree σ} (h : t.InRange) (bound : Nat) :
    ∀ id < t.size, Finds (fun _ => True) (t.refText bound id) := by
  induction bound with
  | zero => exact fun _ _ => True.intro
  | succ bound ih =>
    intro id hid
    refine (h.finds_expectKind hid _ _).bind fun _ _ _ =>
      (h.finds_children hid _).bind fun parts _ hparts => ?_
    refine (Finds.mapM fun part hpart => h.finds_partText (hparts part hpart) ih).bind
      fun _ _ _ => ?_
    exact (h.finds_data hid _).bind fun _ _ _ => True.intro

end Tree

theorem Accessor.sound_of_standard {template : Template} (ht : template ∈ Standard.templates)
    {a : Accessor} (ha : a ∈ template.accessors) : a.Sound := by
  have hmem : a ∈ Standard.templates.flatMap Template.accessors :=
    List.mem_flatMap.2 ⟨template, ht, ha⟩
  simp only [Standard.accessors_templates, List.mem_cons, List.not_mem_nil, or_false] at hmem
  obtain rfl | rfl | rfl | rfl | rfl := hmem
  · exact fun σ t h id hid => (h.finds_refText _ id hid).map fun _ _ _ => True.intro
  · exact fun σ t h id hid => (h.finds_hasGenerics hid).map fun _ _ _ => True.intro
  · exact fun σ t h id hid => (h.finds_generics hid).map fun _ _ hb => hb
  · exact fun σ t h id hid =>
      (h.finds_partText hid (h.finds_refText _)).map fun _ _ _ => True.intro
  · exact fun σ t h id hid => (h.finds_partGenerics hid).map fun _ _ hb => hb

end Arbor
