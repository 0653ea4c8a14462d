import Mathlib.Data.List.Forall2
import Arbor.Proofs.Grove
import Arbor.Proofs.Resolved
import Arbor.Proofs.Step

/-!
# Conformity

A tree conforms to its signature when every node is of a known kind and has one slot for each field
of its kind, of the shape that the field's category gives it: children of kinds that the declared
type takes, values of the declared type and within the declared bounds. New nodes conform because
generation has checked the initial values; all other changes check what they store. Kinds never
change, so what conforms keeps conforming while the tree grows.
-/

namespace Arbor

/-! ## Conforming slots -/

/-- The node `c` is of a kind that the field's declared type takes. -/
def Tree.Takes {σ : Signature} (t : Tree σ) (f : Field) (c : NodeId) : Prop :=
  ∃ type n k, f.decl.type = .child type ∧ t.node? c = some n ∧ σ.kinds[n.kind]? = some k ∧
    TypeTakes type k.name k.family

/-- The slot has the shape of the field's category, and the field takes all that is in it. -/
def Slot.Conforms {σ : Signature} (t : Tree σ) (f : Field) : Slot → Prop
  | child held => f.category = .singleChild ∧ ∀ c ∈ held, t.Takes f c
  | children held => f.category = .listChild ∧ ∀ c ∈ held, t.Takes f c
  | data held => f.category = .singleData ∧ ∀ v ∈ held, f.decl.Holds v
  | values held => f.category = .listData ∧ ∀ v ∈ held, f.decl.Holds v

/-- The node is of a known kind and has one conforming slot for each field of the kind. -/
structure Node.Conforms {σ : Signature} (t : Tree σ) (n : Node) : Prop where
  kind : n.kind < σ.kinds.length
  slots : List.Forall₂ (Slot.Conforms t) (σ.fields n.kind) n.slots

/-- All nodes of the tree conform. -/
def Tree.Conforms {σ : Signature} (t : Tree σ) : Prop :=
  ∀ id n, t.node? id = some n → n.Conforms t

/-! ## Kinds stay -/

/-- All nodes of `t` are nodes of `t'`, of the same kinds. -/
def Tree.KindsKept {σ : Signature} (t t' : Tree σ) : Prop :=
  ∀ id n, t.node? id = some n → ∃ n', t'.node? id = some n' ∧ n'.kind = n.kind

section Kept

variable {σ : Signature} {t t' : Tree σ}

theorem Tree.KindsKept.refl (t : Tree σ) : t.KindsKept t :=
  fun _ n hn => ⟨n, hn, rfl⟩

theorem Tree.KindsKept.trans {t'' : Tree σ} (h : t.KindsKept t') (h' : t'.KindsKept t'') :
    t.KindsKept t'' := by
  intro id n hn
  obtain ⟨n', hn', hk⟩ := h id n hn
  obtain ⟨n'', hn'', hk'⟩ := h' id n' hn'
  exact ⟨n'', hn'', hk'.trans hk⟩

theorem Tree.Takes.mono (h : t.KindsKept t') {f : Field} {c : NodeId} (hc : t.Takes f c) :
    t'.Takes f c := by
  obtain ⟨type, n, k, htype, hn, hk, htakes⟩ := hc
  obtain ⟨n', hn', hkind⟩ := h c n hn
  exact ⟨type, n', k, htype, hn', hkind ▸ hk, htakes⟩

theorem Slot.Conforms.mono (h : t.KindsKept t') {f : Field} {s : Slot} (hs : s.Conforms t f) :
    s.Conforms t' f := by
  cases s with
  | child held => exact ⟨hs.1, fun c hc => (hs.2 c hc).mono h⟩
  | children held => exact ⟨hs.1, fun c hc => (hs.2 c hc).mono h⟩
  | data held => exact hs
  | values held => exact hs

theorem Node.Conforms.mono (h : t.KindsKept t') {n : Node} (hn : n.Conforms t) : n.Conforms t' :=
  ⟨hn.kind, hn.slots.imp fun _ _ hs => hs.mono h⟩

theorem Place.Of.kept (h : t.KindsKept t') {id : NodeId} {p : Place} {n : Node}
    (hp : p.Of t id n) : ∃ n', p.Of t' id n' := by
  obtain ⟨n', hn', hkind⟩ := h id n hp.node
  exact ⟨n', hn', hkind ▸ hp.kind, hkind ▸ hp.field⟩

theorem Slot.conforms_empty (f : Field) : (Slot.empty f.category).Conforms t f := by
  cases hc : f.category <;> exact ⟨hc, by simp⟩

theorem Slot.Conforms.without {f : Field} {s : Slot} (hs : s.Conforms t f) (c : NodeId) :
    (s.without c).Conforms t f := by
  cases s with
  | child held =>
    by_cases hc : held = some c
    · simp only [Slot.without, hc, ↓reduceIte]
      exact ⟨hs.1, by simp⟩
    · simpa only [Slot.without, hc, ↓reduceIte] using hs
  | children held => exact ⟨hs.1, fun x hx => hs.2 x (List.mem_of_mem_filter hx)⟩
  | data held => exact hs
  | values held => exact hs

/-- A slot that conforms to a field has the shape of the field's category. -/
theorem Slot.Conforms.eq_child {f : Field} {s : Slot} (hs : s.Conforms t f)
    (hcat : f.category = .singleChild) : ∃ held, s = .child held := by
  cases s with
  | child held => exact ⟨held, rfl⟩
  | _ => cases hs.1.symm.trans hcat

theorem Slot.Conforms.eq_children {f : Field} {s : Slot} (hs : s.Conforms t f)
    (hcat : f.category = .listChild) : ∃ held, s = .children held := by
  cases s with
  | children held => exact ⟨held, rfl⟩
  | _ => cases hs.1.symm.trans hcat

theorem Slot.Conforms.eq_data {f : Field} {s : Slot} (hs : s.Conforms t f)
    (hcat : f.category = .singleData) : ∃ held, s = .data held := by
  cases s with
  | data held => exact ⟨held, rfl⟩
  | _ => cases hs.1.symm.trans hcat

theorem Slot.Conforms.eq_values {f : Field} {s : Slot} (hs : s.Conforms t f)
    (hcat : f.category = .listData) : ∃ held, s = .values held := by
  cases s with
  | values held => exact ⟨held, rfl⟩
  | _ => cases hs.1.symm.trans hcat

end Kept

/-! ## Changes to single nodes -/

theorem forall₂_getElem? {α β : Type} {R : α → β → Prop} {l : List α} {l' : List β}
    (h : List.Forall₂ R l l') {i : Nat} {a : α} (ha : l[i]? = some a) :
    ∃ b, l'[i]? = some b ∧ R a b := by
  induction h generalizing i with
  | nil => simp at ha
  | cons hab _ ih =>
    cases i with
    | zero =>
      cases ha
      exact ⟨_, rfl, hab⟩
    | succ i => exact ih (by simpa using ha)

theorem forall₂_set {α β : Type} {R : α → β → Prop} {l : List α} {l' : List β}
    (h : List.Forall₂ R l l') {i : Nat} {a : α} {b : β} (ha : l[i]? = some a) (hb : R a b) :
    List.Forall₂ R l (l'.set i b) := by
  induction h generalizing i with
  | nil => exact .nil
  | cons hab hrest ih =>
    cases i with
    | zero =>
      cases ha
      exact .cons hb hrest
    | succ i => exact .cons hab (ih (by simpa using ha))

theorem forall₂_iff_map_eq {α β γ : Type} {f : α → γ} {g : β → γ} {as : List α} {bs : List β} :
    List.Forall₂ (fun a b => f a = g b) as bs ↔ as.map f = bs.map g := by
  rw [← List.forall₂_eq_eq_eq, List.forall₂_map_left_iff, List.forall₂_map_right_iff]

namespace Tree

variable {σ : Signature} {t : Tree σ}

theorem kindsKept_update (id : NodeId) {f : Node → Node} (hf : ∀ n, (f n).kind = n.kind) :
    t.KindsKept (t.update id f) := by
  intro x n hn
  by_cases hx : id = x
  · exact ⟨f n, by simp [node?_update, hx, hn], hf n⟩
  · exact ⟨n, by simp [node?_update, hx, hn], rfl⟩

theorem kindsKept_setParent (id : NodeId) (p : Option NodeId) : t.KindsKept (t.setParent id p) :=
  kindsKept_update id fun _ => rfl

theorem kindsKept_setSlot (id : NodeId) (i : Nat) (s : Slot) : t.KindsKept (t.setSlot id i s) :=
  kindsKept_update id fun _ => rfl

theorem kindsKept_detach (c : NodeId) : t.KindsKept (t.detach c) := by
  unfold detach
  split
  · exact .refl t
  · next p _ =>
    have hslots : t.KindsKept (t.update p fun n => { n with slots := n.slots.map (.without c) }) :=
      kindsKept_update p fun _ => rfl
    exact hslots.trans (kindsKept_setParent c none)

theorem kindsKept_adopt (p c : NodeId) : t.KindsKept (t.adopt p c) :=
  (kindsKept_detach c).trans (kindsKept_setParent c (some p))

theorem kindsKept_release (id : NodeId) (i : Nat) : t.KindsKept (t.release id i) := by
  unfold release
  split
  · exact kindsKept_detach _
  · exact .refl t

theorem kindsKept_putChild (id : NodeId) (i : Nat) (c : Option NodeId) :
    t.KindsKept (t.putChild id i c) := by
  cases c with
  | none => exact (kindsKept_release id i).trans (kindsKept_setSlot id i _)
  | some c =>
    exact ((kindsKept_release id i).trans (kindsKept_adopt id c)).trans (kindsKept_setSlot id i _)

theorem kindsKept_putAt (v : ListView) (index : Nat) (c : NodeId) :
    t.KindsKept (v.putAt t index c) :=
  (kindsKept_adopt _ _).trans (kindsKept_setSlot _ _ _)

theorem kindsKept_foldl_detach (cs : List NodeId) : t.KindsKept (cs.foldl detach t) := by
  induction cs generalizing t with
  | nil => exact .refl t
  | cons c cs ih => exact (kindsKept_detach c).trans ih

theorem kindsKept_extend (ns : List Node) : t.KindsKept (t.extend ns) := by
  intro id n hn
  exact ⟨n, (node?_extend_of_lt ns (lt_size_of_node? hn)).trans hn, rfl⟩

theorem Step.kindsKept {t' : Tree σ} (h : t.Step t') : t.KindsKept t' := by
  cases h with
  | putChild => exact kindsKept_putChild _ _ _
  | putData => exact kindsKept_setSlot _ _ _
  | putAt => exact kindsKept_putAt _ _ _
  | take => exact kindsKept_detach _
  | @clear v _ =>
    unfold ListView.cleared
    split
    · exact kindsKept_foldl_detach _
    · exact kindsKept_setSlot _ _ _
    · exact .refl t
  | pushValue => exact kindsKept_setSlot _ _ _
  | removeValue => exact kindsKept_setSlot _ _ _
  | alloc => exact kindsKept_extend _
  | deepCopy => exact kindsKept_extend _

/-- No run of steps changes the kind of a node. -/
theorem Steps.kindsKept {t' : Tree σ} (h : t.Steps t') : t.KindsKept t' :=
  h.invariant (fun _ _ hk hs => hk.trans hs.kindsKept) (.refl t)

theorem Conforms.update (h : t.Conforms) (id : NodeId) {f : Node → Node}
    (hk : ∀ n, (f n).kind = n.kind)
    (hf : ∀ n, t.node? id = some n → (f n).Conforms t) : (t.update id f).Conforms := by
  intro x n hn
  refine Node.Conforms.mono (kindsKept_update id hk) ?_
  rw [node?_update] at hn
  split at hn
  · next hx =>
    subst hx
    obtain ⟨m, hm, rfl⟩ := Option.map_eq_some_iff.1 hn
    exact hf m hm
  · exact h x n hn

theorem Conforms.setParent (h : t.Conforms) (id : NodeId) (p : Option NodeId) :
    (t.setParent id p).Conforms :=
  h.update id (fun _ => rfl) fun n hn => ⟨(h id n hn).kind, (h id n hn).slots⟩

theorem Conforms.setSlot (h : t.Conforms) {id : NodeId} {p : Place} {n : Node} (hp : p.Of t id n)
    {s : Slot} (hs : s.Conforms t p.field) : (t.setSlot id p.index s).Conforms := by
  refine h.update id (fun _ => rfl) fun m hm => ?_
  obtain rfl : n = m := Option.some.inj (hp.node.symm.trans hm)
  exact ⟨(h id n hm).kind, forall₂_set (h id n hm).slots hp.field hs⟩

theorem Conforms.detach (h : t.Conforms) (c : NodeId) : (t.detach c).Conforms := by
  unfold Tree.detach
  split
  · exact h
  · next p _ =>
    have hslots : (t.update p fun n => { n with slots := n.slots.map (.without c) }).Conforms := by
      refine h.update p (fun _ => rfl) fun n hn => ?_
      have hn := h p n hn
      exact ⟨hn.kind, List.forall₂_map_right_iff.2 (hn.slots.imp fun _ _ hs => hs.without c)⟩
    exact hslots.setParent c none

theorem Conforms.adopt (h : t.Conforms) (p c : NodeId) : (t.adopt p c).Conforms :=
  (h.detach c).setParent c (some p)

theorem Conforms.release (h : t.Conforms) (id : NodeId) (i : Nat) : (t.release id i).Conforms := by
  unfold Tree.release
  split
  · exact h.detach _
  · exact h

theorem Conforms.foldl_detach (h : t.Conforms) (cs : List NodeId) :
    (cs.foldl Tree.detach t).Conforms := by
  induction cs generalizing t with
  | nil => exact h
  | cons c cs ih => exact ih (h.detach c)

/-- The slot at a place conforms to its field. -/
theorem Conforms.slot?_of (h : t.Conforms) {id : NodeId} {p : Place} {n : Node} (hp : p.Of t id n) :
    ∃ s, t.slot? id p.index = some s ∧ s.Conforms t p.field := by
  obtain ⟨s, hs, hconf⟩ := forall₂_getElem? (h id n hp.node).slots hp.field
  exact ⟨s, by rw [slot?_of_node? hp.node, hs], hconf⟩

/-- The slot of a single child field holds nothing or a node that the field takes. -/
theorem Conforms.exists_child (h : t.Conforms) {id : NodeId} {field : String} {p : Place}
    (hp : t.locate id field [.singleChild] = .ok p) :
    ∃ held, t.slot? id p.index = some (.child held) ∧ ∀ c ∈ held, t.Takes p.field c := by
  obtain ⟨⟨n, hof⟩, -, hcat⟩ := locate_eq_ok hp
  obtain ⟨s, hslot, hs⟩ := h.slot?_of hof
  obtain ⟨held, rfl⟩ := hs.eq_child (List.mem_singleton.1 hcat)
  exact ⟨held, hslot, hs.2⟩

/-! ## What the checks let through -/

theorem takes_of_checkAccepts {p : Place} (hp : p.field.Resolved σ) {c : NodeId} {n : Node}
    (hn : t.node? c = some n) (h : σ.checkAccepts p n.kind = .ok ()) : t.Takes p.field c := by
  obtain ⟨a, ha, hlt, hacc⟩ := Signature.checkAccepts_eq_ok.1 h
  obtain ⟨type, htype, hiff⟩ := hp.accepts a ha
  have hk := List.getElem?_eq_getElem hlt
  exact ⟨type, n, _, htype, hn, hk, (hiff _ _ hk).1 hacc⟩

theorem takes_iff_checkAccepts {p : Place} (hp : p.field.Resolved σ) {c : NodeId} :
    t.Takes p.field c ↔ ∃ n, t.node? c = some n ∧ σ.checkAccepts p n.kind = .ok () := by
  constructor
  · rintro ⟨type, n, k, htype, hn, hk, htakes⟩
    obtain ⟨a, ha⟩ := hp.childKnown type htype
    obtain ⟨type', htype', hiff⟩ := hp.accepts a ha
    obtain rfl : type' = type := FieldType.child.inj (htype'.symm.trans htype)
    exact ⟨n, hn, Signature.checkAccepts_eq_ok.2
      ⟨a, ha, (List.getElem?_eq_some_iff.1 hk).1, (hiff _ k hk).2 htakes⟩⟩
  · rintro ⟨n, hn, hacc⟩
    exact takes_of_checkAccepts hp hn hacc

theorem holds_iff_checkValue {p : Place} (hp : p.field.Resolved σ) {v : Value} :
    p.field.decl.Holds v ↔ p.checkValue (some v) = .ok () :=
  (FieldDecl.holds_iff hp.boundsInt).trans Place.checkValue_some.symm

theorem resolved_of_place (hσ : σ.Resolved) {id : NodeId} {p : Place} {n : Node}
    (hp : p.Of t id n) : p.field.Resolved σ :=
  hσ.of_mem (List.mem_of_getElem? hp.field)

theorem Conforms.putChild (h : t.Conforms) (hσ : σ.Resolved) {id : NodeId} {p : Place} {n : Node}
    (hp : p.Of t id n) (hcat : p.field.category = .singleChild) {c : Option NodeId}
    (hc : t.checkChild p id c = .ok ()) : (t.putChild id p.index c).Conforms := by
  cases c with
  | none =>
    obtain ⟨_, hp'⟩ := hp.kept (kindsKept_release id p.index)
    exact (h.release id p.index).setSlot hp' ⟨hcat, by simp⟩
  | some c =>
    obtain ⟨⟨m, hm, hacc⟩, -⟩ := checkAttachable_eq_ok.1 hc
    have hkept : t.KindsKept ((t.release id p.index).adopt id c) :=
      (kindsKept_release id p.index).trans (kindsKept_adopt id c)
    obtain ⟨_, hp'⟩ := hp.kept hkept
    have htakes := (takes_of_checkAccepts (resolved_of_place hσ hp) hm hacc).mono hkept
    refine ((h.release id p.index).adopt id c).setSlot hp' ⟨hcat, ?_⟩
    rintro _ ⟨⟩
    exact htakes

theorem Conforms.putData (h : t.Conforms) (hσ : σ.Resolved) {id : NodeId} {p : Place} {n : Node}
    (hp : p.Of t id n) (hcat : p.field.category = .singleData) {v : Option Value}
    (hv : p.checkValue v = .ok ()) : (t.setSlot id p.index (.data v)).Conforms := by
  refine h.setSlot hp ⟨hcat, ?_⟩
  rintro _ ⟨⟩
  exact (holds_iff_checkValue (resolved_of_place hσ hp)).2 hv

end Tree

/-! ## Lists -/

namespace ListView

variable {σ : Signature} {t : Tree σ} {v : ListView}

theorem place_of (hv : t.openList v.binding = .ok v) : ∃ n, v.place.Of t v.binding.target n :=
  (Tree.locate_eq_ok (Tree.openList_eq_ok.1 hv).2).1

theorem category_of_isChildList (h : t.Conforms) (hv : t.openList v.binding = .ok v)
    (hl : v.isChildList t = true) : v.place.field.category = .listChild := by
  obtain ⟨n, hp⟩ := place_of hv
  obtain ⟨s, hs, hconf⟩ := h.slot?_of hp
  obtain ⟨held, hheld⟩ := isChildList_eq_true.1 hl
  cases hs.symm.trans hheld
  exact hconf.1

/-- A list that is not of nodes is of values that its field holds. -/
theorem holds_of_checkDataList (h : t.Conforms) (hv : t.openList v.binding = .ok v)
    (hl : v.checkDataList t = .ok ()) :
    v.place.field.category = .listData ∧ ∀ x ∈ v.values t, v.place.field.decl.Holds x := by
  obtain ⟨n, hp⟩ := place_of hv
  obtain ⟨s, hs, hconf⟩ := h.slot?_of hp
  have hcat := (Tree.locate_eq_ok (Tree.openList_eq_ok.1 hv).2).2.2
  have hs : v.slot? t = some s := hs
  rw [values_of_slot? hs]
  cases s with
  | child held => simp [hconf.1] at hcat
  | children held => simp [checkDataList_eq_ok, isChildList, hs] at hl
  | data held => simp [hconf.1] at hcat
  | values held => exact hconf

theorem slot?_of_checkDataList (h : t.Conforms) (hv : t.openList v.binding = .ok v)
    (hl : v.checkDataList t = .ok ()) : ∃ held, v.slot? t = some (.values held) := by
  obtain ⟨n, hp⟩ := place_of hv
  obtain ⟨s, hs, hconf⟩ := h.slot?_of hp
  obtain ⟨held, rfl⟩ := hconf.eq_values (holds_of_checkDataList h hv hl).1
  exact ⟨held, hs⟩

theorem conforms_putAt (h : t.Conforms) (hσ : σ.Resolved) (hv : t.openList v.binding = .ok v)
    {index : Nat} {c : NodeId} (hc : v.checkInsert t index c = .ok ()) :
    (v.putAt t index c).Conforms := by
  obtain ⟨hl, hattach, -⟩ := checkInsert_eq_ok.1 hc
  obtain ⟨⟨m, hm, hacc⟩, -⟩ := Tree.checkAttachable_eq_ok.1 hattach
  obtain ⟨n, hp⟩ := place_of hv
  have hkept : t.KindsKept (t.adopt v.binding.target c) := Tree.kindsKept_adopt _ c
  have htakes := (Tree.takes_of_checkAccepts (Tree.resolved_of_place hσ hp) hm hacc).mono hkept
  have hcat := category_of_isChildList h hv hl
  obtain ⟨_, hp'⟩ := hp.kept hkept
  have h' := h.adopt v.binding.target c
  obtain ⟨s, hs, hconf⟩ := h'.slot?_of hp'
  refine h'.setSlot hp' ⟨hcat, fun x hx => ?_⟩
  rcases List.eq_or_mem_of_mem_insertIdx hx with rfl | hx
  · exact htakes
  · rw [contents_of_slot? hs] at hx
    cases s with
    | children held => exact hconf.2 x hx
    | child held => simp [Slot.childList] at hx
    | data held => simp [Slot.childList] at hx
    | values held => simp [Slot.childList] at hx

theorem conforms_putValues (h : t.Conforms) (hv : t.openList v.binding = .ok v)
    (hcat : v.place.field.category = .listData) {xs : List Value}
    (hxs : ∀ x ∈ xs, v.place.field.decl.Holds x) : (v.putValues t xs).Conforms := by
  obtain ⟨n, hp⟩ := place_of hv
  exact h.setSlot hp ⟨hcat, hxs⟩

theorem conforms_cleared (h : t.Conforms) (hv : t.openList v.binding = .ok v) :
    (v.cleared t).Conforms := by
  unfold cleared
  split
  · exact h.foldl_detach _
  · next held hs =>
    have hl : v.checkDataList t = .ok () := by simp [checkDataList_eq_ok, isChildList, hs]
    exact conforms_putValues h hv (holds_of_checkDataList h hv hl).1 (by simp)
  · exact h

end ListView

/-! ## New nodes -/

section Blocks

variable {σ : Signature} {t : Tree σ}

/-- Blocks that are laid out in the tree stand there one by one. -/
theorem stands_layOut {α : Type} {block : NodeId → α → List Node} {base : Nat} {as : List α}
    (h : t.Stands base (layOut block base as).2) :
    List.Forall₂ (fun id a => t.Stands id (block id a)) (layOut block base as).1 as ∧
      ∀ n ∈ (layOut block base as).2,
        ∃ id, ∃ a ∈ as, t.Stands id (block id a) ∧ n ∈ block id a := by
  induction as generalizing base with
  | nil => exact ⟨.nil, by simp [layOut]⟩
  | cons a as ih =>
    obtain ⟨hfirst, hrest⟩ := h.append
    obtain ⟨hall, hmem⟩ := ih hrest
    refine ⟨.cons hfirst hall, fun n hn => ?_⟩
    rcases List.mem_append.1 hn with hn | hn
    · exact ⟨base, a, List.mem_cons_self, hfirst, hn⟩
    · obtain ⟨id, a', ha', hs⟩ := hmem n hn
      exact ⟨id, a', List.mem_cons_of_mem _ ha', hs⟩

/-- The node `id` is of the kind `kind`. -/
def Tree.IsKind (t : Tree σ) (kind : KindId) (id : NodeId) : Prop :=
  ∃ n, t.node? id = some n ∧ n.kind = kind

theorem Field.Resolved.takes {f : Field} (hf : f.Resolved σ) {kind : KindId} {id : NodeId}
    (hk : f.initialKind = some kind) (hid : t.IsKind kind id) : t.Takes f id := by
  obtain ⟨_, type, k, -, htype, hkind, -, htakes⟩ := hf.initialKind kind hk
  obtain ⟨n, hn, rfl⟩ := hid
  exact ⟨type, n, k, htype, hn, hkind, htakes⟩

theorem conforms_initialSlots {fs : List Field} (hfs : ∀ f ∈ fs, f.Resolved σ) {ids : List NodeId}
    (hids : List.Forall₂ (fun id kind => t.IsKind kind id) ids
      ((fs.filterMap Field.initialKind).take ids.length)) :
    List.Forall₂ (Slot.Conforms t) fs (initialSlots fs ids) := by
  induction fs generalizing ids with
  | nil => exact .nil
  | cons f fs ih =>
    have hf := hfs f List.mem_cons_self
    have hfs : ∀ f ∈ fs, f.Resolved σ := fun g hg => hfs g (List.mem_cons_of_mem _ hg)
    unfold initialSlots
    cases hk : f.initialKind with
    | some kind =>
      have hcat := hf.category_of_initialKind hk
      rw [List.filterMap_cons_some hk] at hids
      cases ids with
      | nil => exact .cons ⟨hcat, by simp⟩ (ih hfs (by simp))
      | cons id ids =>
        obtain ⟨hid, hids⟩ := List.forall₂_cons.1 hids
        refine .cons ⟨hcat, ?_⟩ (ih hfs hids)
        rintro _ ⟨⟩
        exact hf.takes hk hid
    | none =>
      rw [List.filterMap_cons_none hk] at hids
      cases hi : f.decl.initial with
      | none => exact .cons (Slot.conforms_empty f) (ih hfs hids)
      | some i =>
        cases i with
        | data v =>
          refine .cons ⟨hf.category_of_initialData hi, ?_⟩ (ih hfs hids)
          rintro _ ⟨⟩
          exact hf.initialData v hi
        | newNode kind => exact .cons (Slot.conforms_empty f) (ih hfs hids)

theorem isKind_freshBlock {bound : Nat} {parent : Option NodeId} {base : NodeId} {kind : KindId}
    (hs : t.Stands base (σ.freshBlock bound parent base kind)) : t.IsKind kind base := by
  cases bound with
  | zero => exact ⟨_, hs.head, rfl⟩
  | succ bound => exact ⟨_, hs.head, rfl⟩

/-- The nodes that a new node starts with conform wherever they stand. -/
theorem conforms_freshBlock (hσ : σ.Resolved) {bound : Nat} {parent : Option NodeId} {base : NodeId}
    {kind : KindId} (hkind : kind < σ.kinds.length)
    (hs : t.Stands base (σ.freshBlock bound parent base kind)) :
    ∀ n ∈ σ.freshBlock bound parent base kind, n.Conforms t := by
  induction bound generalizing parent base kind with
  | zero =>
    intro n hn
    rw [List.mem_singleton.1 hn]
    exact ⟨hkind, conforms_initialSlots (fun f hf => hσ.of_mem hf) (by simp)⟩
  | succ bound ih =>
    obtain ⟨hids, hmem⟩ := stands_layOut hs.tail
    intro n hn
    rcases List.mem_cons.1 hn with rfl | hn
    · refine ⟨hkind, conforms_initialSlots (fun f hf => hσ.of_mem hf) ?_⟩
      rw [length_layOut, List.take_length]
      exact hids.imp fun id k hk => isKind_freshBlock hk
    · obtain ⟨id, k, hk, hstands, hn⟩ := hmem n hn
      obtain ⟨k', hk'⟩ := hσ.exists_kind hk
      exact ih (List.getElem?_eq_some_iff.1 hk').1 hstands n hn

/-- A copy conforms when each copied child is taken wherever its source is. -/
theorem conforms_refill {t' : Tree σ} {fs : List Field} {ss : List Slot}
    (h : List.Forall₂ (Slot.Conforms t) fs ss) {ids : List NodeId}
    (hids : List.Forall₂ (fun id c => ∀ f, t.Takes f c → t'.Takes f id) ids
      ((ss.flatMap Slot.nodes).take ids.length)) :
    List.Forall₂ (Slot.Conforms t') fs (refill ss ids) := by
  induction h generalizing ids with
  | nil => exact .nil
  | @cons f s fs ss hs _ ih =>
    cases s with
    | child held =>
      cases held with
      | none => exact .cons ⟨hs.1, by simp⟩ (ih hids)
      | some c =>
        cases ids with
        | nil => exact .cons ⟨hs.1, by simp⟩ (ih (by simp))
        | cons id ids =>
          obtain ⟨hid, hids⟩ := List.forall₂_cons.1 hids
          refine .cons ⟨hs.1, ?_⟩ (ih hids)
          rintro _ ⟨⟩
          exact hid f (hs.2 c rfl)
    | children held =>
      rw [List.flatMap_cons] at hids
      refine .cons ⟨hs.1, fun id hid => ?_⟩ (ih ?_)
      · have htake := List.forall₂_take held.length hids
        obtain ⟨i, hi⟩ := List.getElem?_of_mem hid
        obtain ⟨c, hc, htakes⟩ := forall₂_getElem? htake hi
        refine htakes f (hs.2 c (List.mem_of_getElem? (i := i) ?_))
        simp only [Slot.nodes, List.getElem?_take] at hc
        grind
      · have hdrop := List.forall₂_drop held.length hids
        rw [List.drop_take] at hdrop
        simpa [Slot.nodes] using hdrop
    | data held => exact .cons hs (ih hids)
    | values held => exact .cons hs (ih hids)

theorem takes_copyBlock {t' : Tree σ} {bound : Nat} {parent : Option NodeId} {base id : NodeId}
    (hs : t'.Stands base (t.copyBlock bound parent base id)) {f : Field} (h : t.Takes f id) :
    t'.Takes f base := by
  obtain ⟨type, n, k, htype, hn, hk, htakes⟩ := h
  cases bound with
  | zero =>
    unfold Tree.copyBlock at hs
    rw [hn] at hs
    exact ⟨type, _, k, htype, hs.head, hk, htakes⟩
  | succ bound =>
    unfold Tree.copyBlock at hs
    rw [hn] at hs
    exact ⟨type, _, k, htype, hs.head, hk, htakes⟩

/-- The nodes of a copy conform wherever they stand. -/
theorem conforms_copyBlock (h : t.Conforms) {t' : Tree σ} {bound : Nat} {parent : Option NodeId}
    {base id : NodeId} (hs : t'.Stands base (t.copyBlock bound parent base id)) :
    ∀ n ∈ t.copyBlock bound parent base id, n.Conforms t' := by
  induction bound generalizing parent base id with
  | zero =>
    unfold Tree.copyBlock
    split
    · next n hn =>
      intro m hm
      rw [List.mem_singleton.1 hm]
      exact ⟨(h id n hn).kind, conforms_refill (h id n hn).slots (by simp)⟩
    · simp
  | succ bound ih =>
    unfold Tree.copyBlock at hs ⊢
    split
    · next n hn =>
      rw [hn] at hs
      obtain ⟨hids, hmem⟩ := stands_layOut hs.tail
      intro m hm
      rcases List.mem_cons.1 hm with rfl | hm
      · refine ⟨(h id n hn).kind, conforms_refill (h id n hn).slots ?_⟩
        rw [length_layOut]
        unfold Node.children at hids ⊢
        rw [List.take_length]
        exact hids.imp fun b c hc f => takes_copyBlock hc
      · obtain ⟨b, c, -, hstands, hm⟩ := hmem m hm
        exact ih hstands m hm
    · simp

end Blocks

/-! ## Reachable trees -/

namespace Tree

variable {σ : Signature} {t t' : Tree σ}

theorem Conforms.extend (h : t.Conforms) {ns : List Node}
    (hns : ∀ n ∈ ns, n.Conforms (t.extend ns)) : (t.extend ns).Conforms := by
  intro id n hn
  rcases Nat.lt_or_ge id t.size with hid | hid
  · rw [node?_extend_of_lt ns hid] at hn
    exact (h id n hn).mono (kindsKept_extend ns)
  · have hlen : t.nodes.toList.length ≤ id := by rwa [Array.length_toList]
    rw [node?_extend, List.getElem?_append_right hlen] at hn
    exact hns n (List.mem_of_getElem? hn)

/-- Every step keeps a conforming tree conforming. -/
theorem Step.conforms (hσ : σ.Resolved) (hs : t.Step t') (h : t.Conforms) : t'.Conforms := by
  cases hs with
  | putChild hp hc =>
    obtain ⟨⟨n, hof⟩, -, hcat⟩ := locate_eq_ok hp
    exact h.putChild hσ hof (List.mem_singleton.1 hcat) hc
  | putData hp hv =>
    obtain ⟨⟨n, hof⟩, -, hcat⟩ := locate_eq_ok hp
    exact h.putData hσ hof (List.mem_singleton.1 hcat) hv
  | putAt hv hc => exact ListView.conforms_putAt h hσ hv hc
  | take _ _ => exact h.detach _
  | clear hv => exact ListView.conforms_cleared h hv
  | @pushValue v x hv hl hx =>
    obtain ⟨hcat, hheld⟩ := ListView.holds_of_checkDataList h hv hl
    obtain ⟨n, hof⟩ := ListView.place_of hv
    refine ListView.conforms_putValues h hv hcat fun y hy => ?_
    rcases List.mem_append.1 hy with hy | hy
    · exact hheld y hy
    · rw [List.mem_singleton.1 hy]
      exact (holds_iff_checkValue (resolved_of_place hσ hof)).2 hx
  | removeValue hv hl =>
    obtain ⟨hcat, hheld⟩ := ListView.holds_of_checkDataList h hv hl
    exact ListView.conforms_putValues h hv hcat fun y hy => hheld y (List.mem_of_mem_eraseIdx hy)
  | alloc hk => exact h.extend (conforms_freshBlock hσ hk (stands_extend _))
  | deepCopy => exact h.extend (conforms_copyBlock h (stands_extend _))

theorem Steps.conforms (hσ : σ.Resolved) (hs : t.Steps t') (h : t.Conforms) : t'.Conforms :=
  hs.invariant (fun _ _ ht hs => hs.conforms hσ ht) h

theorem Reachable.conforms (hσ : σ.Resolved) (h : t.Reachable) : t.Conforms :=
  h.invariant (by intro id n hn; simp [node?, Tree.empty] at hn) fun _ _ ht hs => hs.conforms hσ ht

end Tree

/-- In a reachable tree of a generated schema every node is of a declared kind and has one slot for
each declared field, and the slot conforms to the field. No mutations change the kind of a node. -/
theorem slots_conform_of_reachable {ts : List Template} {s : Schema}
    (hs : Schema.generate ts = .ok s) {t : Tree s.signature} (ht : t.Reachable) :
    (∀ id n, t.node? id = some n → ∃ declared k, ts[n.kind]? = some declared ∧
      s.signature.kinds[n.kind]? = some k ∧ k.fields.map Field.decl = declared.fields ∧
      List.Forall₂ (Slot.Conforms t) k.fields n.slots) ∧
    ∀ ms id n, t.node? id = some n →
      ∃ n', (t.applyAll ms).1.node? id = some n' ∧ n'.kind = n.kind := by
  refine ⟨fun id n hn => ?_, fun ms id n hn => (Tree.steps_applyAll ms).kindsKept id n hn⟩
  have hconf := ht.conforms (resolved_of_generate hs) id n hn
  obtain ⟨-, rfl⟩ := generate_eq_ok_iff.1 hs
  obtain ⟨k, hk⟩ : ∃ k, (Schema.ofTemplates ts).signature.kinds[n.kind]? = some k :=
    ⟨_, List.getElem?_eq_getElem hconf.kind⟩
  have hslots := hconf.slots
  rw [Signature.fields_of_kinds hk] at hslots
  obtain ⟨declared, hd, rfl⟩ := exists_template hk
  refine ⟨declared, _, hd, hk, ?_, hslots⟩
  simp [Template.resolve, FieldDecl.resolve, Function.comp_def]

/-- Reads every text as the number `n`. -/
def Codec.constant (n : Int64) : Codec where
  name := "constant"
  type := .int
  parse _ := .ok (.int n)
  generate _ := none

/-- Items have a level up to 9, and texts stand for the level 42. A group starts with an item. -/
def groupTemplates : List Template :=
  [{ name := "Item"
     fields := [((FieldDecl.data "level" .int).bounded 0 9).withCodec (.constant 42)] },
   { name := "Group"
     fields := [(FieldDecl.child "first" "Item").startingWith (.newNode "Item"),
      .children "rest" "Item"] }]

/-- Item 0 is put into the list of group 1, item 3 is left behind by a build that fails, and then
item 0 takes the place of item 2, which the group started with. -/
def groupTree : Tree (Schema.ofTemplates groupTemplates).signature :=
  ((((Tree.empty.apply (.build "Item" [.data "level" (.int 7)])).1.apply
    (.build "Group" [.children "rest" [0]])).1.apply
    (.build "Item" [.raw "level" "5"])).1.apply
    (.setChild 1 "first" (some 0))).1

theorem generate_groupTemplates :
    Schema.generate groupTemplates = .ok (Schema.ofTemplates groupTemplates) := by
  rfl

theorem reachable_groupTree : groupTree.Reachable :=
  .step (.step (.step (.step .empty (by decide)) (by decide +kernel)) (by decide +kernel))
    (by decide +kernel)

theorem node?_groupTree : groupTree.node? 1 = some ⟨1, none, [.child (some 0), .children []]⟩ := by
  decide +kernel

theorem slots_conform_groupTree :
    Schema.generate groupTemplates = .ok (Schema.ofTemplates groupTemplates) ∧
      groupTree.Reachable ∧ ∃ declared k, groupTemplates[1]? = some declared ∧
        (Schema.ofTemplates groupTemplates).signature.kinds[1]? = some k ∧
        k.fields.map Field.decl = declared.fields ∧
        List.Forall₂ (Slot.Conforms groupTree) k.fields [.child (some 0), .children []] :=
  ⟨generate_groupTemplates, reachable_groupTree,
    (slots_conform_of_reachable generate_groupTemplates reachable_groupTree).1 1 _ node?_groupTree⟩

end Arbor
