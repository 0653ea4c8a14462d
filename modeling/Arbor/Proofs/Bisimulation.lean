import Mathlib.Data.List.Forall2
import Arbor.Proofs.Traversal
import Arbor.TypeName

/-!
# Bisimulations

A bisimulation relates nodes of two trees. Related nodes have the same kind, hold the same data, and
their children are related, field by field and in order. What is read and derived from a node
depends only on what is at and below it, so related nodes give the same answers; an answer that
names nodes names related ones.

The walks of two related nodes run side by side. To have the same position in them is a bisimulation
again.
-/

namespace Arbor

/-! ## Answers -/

/-- Two answers are alike: both are the same error, or their results are related. -/
inductive Alike {α β : Type} (r : α → β → Prop) : Except Error α → Except Error β → Prop where
  | ok {a : α} {b : β} : r a b → Alike r (.ok a) (.ok b)
  | error (e : Error) : Alike r (.error e) (.error e)

namespace Alike

variable {α β γ δ : Type} {r : α → β → Prop} {s : γ → δ → Prop}

theorem refl (x : Except Error α) : Alike Eq x x := by
  cases x with
  | ok a => exact .ok rfl
  | error e => exact .error e

theorem eq {x y : Except Error α} (h : Alike Eq x y) : x = y := by
  cases h with
  | ok hab => rw [hab]
  | error e => rfl

theorem imp {r' : α → β → Prop} {x : Except Error α} {y : Except Error β} (h : Alike r x y)
    (himp : ∀ a b, r a b → r' a b) : Alike r' x y := by
  cases h with
  | ok hab => exact .ok (himp _ _ hab)
  | error e => exact .error e

theorem bind {x : Except Error α} {y : Except Error β} {f : α → Except Error γ}
    {g : β → Except Error δ} (h : Alike r x y) (hf : ∀ a b, r a b → Alike s (f a) (g b)) :
    Alike s (x >>= f) (y >>= g) := by
  cases h with
  | ok hab => exact hf _ _ hab
  | error e => exact .error e

theorem mapM {as : List α} {bs : List β} {f : α → Except Error γ} {g : β → Except Error δ}
    (h : List.Forall₂ r as bs) (hf : ∀ a b, r a b → Alike s (f a) (g b)) :
    Alike (List.Forall₂ s) (as.mapM f) (bs.mapM g) := by
  induction h with
  | nil => exact .ok .nil
  | cons hab _ ih =>
    simp only [List.mapM_cons]
    exact (hf _ _ hab).bind fun _ _ hx => ih.bind fun _ _ hxs => .ok (.cons hx hxs)

end Alike

theorem forall₂_getElem?_rel {α β : Type} {r : α → β → Prop} {l : List α} {l' : List β}
    (h : List.Forall₂ r l l') (i : Nat) : Option.Rel r l[i]? l'[i]? := by
  induction h generalizing i with
  | nil => exact .none
  | cons hab _ ih =>
    cases i with
    | zero => exact .some hab
    | succ i => simpa using ih i

theorem forall₂_isEmpty {α β : Type} {r : α → β → Prop} {l : List α} {l' : List β}
    (h : List.Forall₂ r l l') : l.isEmpty = l'.isEmpty := by
  cases h <;> rfl

/-! ## Slots -/

/-- Two slots hold the same data, or nodes that are related in order. -/
inductive Slot.Match (R : NodeId → NodeId → Prop) : Slot → Slot → Prop where
  | child {held held' : Option NodeId} : Option.Rel R held held' →
      Match R (.child held) (.child held')
  | children {held held' : List NodeId} : List.Forall₂ R held held' →
      Match R (.children held) (.children held')
  | data (held : Option Value) : Match R (.data held) (.data held)
  | values (held : List Value) : Match R (.values held) (.values held)

namespace Slot.Match

variable {R S : NodeId → NodeId → Prop} {s s' : Slot}

theorem child? (h : Slot.Match R s s') : Option.Rel R s.child? s'.child? := by
  cases h with
  | child h => exact h
  | _ => exact .none

theorem childList (h : Slot.Match R s s') : List.Forall₂ R s.childList s'.childList := by
  cases h with
  | children h => exact h
  | _ => exact .nil

theorem data? (h : Slot.Match R s s') : s.data? = s'.data? := by
  cases h <;> rfl

theorem isFilled (h : Slot.Match R s s') : s.isFilled = s'.isFilled := by
  cases h with
  | child h => cases h <;> rfl
  | _ => rfl

theorem nodes (h : Slot.Match R s s') : List.Forall₂ R s.nodes s'.nodes := by
  cases h with
  | child h =>
    cases h with
    | some hab => exact .cons hab .nil
    | none => exact .nil
  | children h => exact h
  | _ => exact .nil

/-- To match, slots need to relate only the pairs of nodes that stand side by side. -/
theorem of_zip (h : Slot.Match R s s') (hS : ∀ a b, (a, b) ∈ s.nodes.zip s'.nodes → R a b → S a b) :
    Slot.Match S s s' := by
  cases h with
  | child h =>
    cases h with
    | some hab => exact .child (.some (hS _ _ (List.mem_singleton.2 rfl) hab))
    | none => exact .child .none
  | children h =>
    obtain ⟨hlen, hzip⟩ := List.forall₂_iff_zip.1 h
    exact .children (List.forall₂_iff_zip.2 ⟨hlen, fun hab => hS _ _ hab (hzip hab)⟩)
  | data held => exact .data held
  | values held => exact .values held

end Slot.Match

theorem Slot.match_self {R : NodeId → NodeId → Prop} {s : Slot} (h : ∀ c ∈ s.nodes, R c c) :
    Slot.Match R s s := by
  cases s with
  | child held =>
    cases held with
    | none => exact .child .none
    | some c => exact .child (.some (h c (List.mem_singleton.2 rfl)))
  | children held => exact .children (List.forall₂_same.2 h)
  | data held => exact .data held
  | values held => exact .values held

section Slots

variable {R S : NodeId → NodeId → Prop} {ss ss' : List Slot}

theorem forall₂_nodes (h : List.Forall₂ (Slot.Match R) ss ss') :
    List.Forall₂ R (ss.flatMap Slot.nodes) (ss'.flatMap Slot.nodes) := by
  induction h with
  | nil => exact .nil
  | cons hs _ ih => exact List.rel_append hs.nodes ih

theorem forall₂_match_of_zip (h : List.Forall₂ (Slot.Match R) ss ss')
    (hS : ∀ a b, (a, b) ∈ (ss.flatMap Slot.nodes).zip (ss'.flatMap Slot.nodes) → R a b → S a b) :
    List.Forall₂ (Slot.Match S) ss ss' := by
  induction h with
  | nil => exact .nil
  | cons hs _ ih =>
    simp only [List.flatMap_cons, List.zip_append hs.nodes.length_eq, List.mem_append] at hS
    exact .cons (hs.of_zip fun a b hab => hS a b (.inl hab)) (ih fun a b hab => hS a b (.inr hab))

end Slots

/-- Two bindings name the same field of related nodes. -/
structure ListBinding.Match (R : NodeId → NodeId → Prop) (x y : ListBinding) : Prop where
  owner : R x.owner y.owner
  target : R x.target y.target
  field : x.field = y.field

namespace ListBinding.Match

variable {R S : NodeId → NodeId → Prop} {x y : ListBinding}

theorem imp (h : x.Match R y) (himp : ∀ a b, R a b → S a b) : x.Match S y :=
  ⟨himp _ _ h.owner, himp _ _ h.target, h.field⟩

theorem eq (h : x.Match Eq y) : x = y := by
  cases x with
  | mk owner target field =>
    obtain ⟨rfl, rfl, rfl⟩ := h
    rfl

end ListBinding.Match

namespace Tree

variable {σ : Signature}

/-! ## Twins -/

/-- Two nodes are of the same kind, and their slots match. -/
def Twin (R : NodeId → NodeId → Prop) (t t' : Tree σ) (a b : NodeId) : Prop :=
  ∃ n n' k, t.node? a = some n ∧ t'.node? b = some n' ∧ σ.kinds[n.kind]? = some k ∧
    n'.kind = n.kind ∧ List.Forall₂ (Slot.Match R) n.slots n'.slots

namespace Twin

variable {R S : NodeId → NodeId → Prop} {t t' : Tree σ} {a b : NodeId}

theorem lt_size (h : Twin R t t' a b) : a < t.size ∧ b < t'.size := by
  obtain ⟨n, n', k, hn, hn', -⟩ := h
  exact ⟨lt_size_of_node? hn, lt_size_of_node? hn'⟩

theorem kind_eq (h : Twin R t t' a b) : t.kind a = t'.kind b := by
  obtain ⟨n, n', k, hn, hn', hk, hkind, -⟩ := h
  rw [kind_eq_ok.2 ⟨n, hn, hk⟩, kind_eq_ok.2 ⟨n', hn', hkind ▸ hk⟩]

theorem locate_eq (h : Twin R t t' a b) (field : String) (expected : List Category) :
    t.locate a field expected = t'.locate b field expected := by
  rw [locate, locate, h.kind_eq]

theorem expectKind_eq (h : Twin R t t' a b) (kind accessor : String) :
    t.expectKind a kind accessor = t'.expectKind b kind accessor := by
  rw [expectKind, expectKind, h.kind_eq]

theorem slot?_cases (h : Twin R t t' a b) (i : Nat) :
    (t.slot? a i = none ∧ t'.slot? b i = none) ∨
      ∃ s s', t.slot? a i = some s ∧ t'.slot? b i = some s' ∧ Slot.Match R s s' := by
  obtain ⟨n, n', k, hn, hn', -, -, hslots⟩ := h
  rw [slot?_of_node? hn, slot?_of_node? hn']
  have hrel := forall₂_getElem?_rel hslots i
  generalize n.slots[i]? = x, n'.slots[i]? = y at hrel ⊢
  cases hrel with
  | some hs => exact .inr ⟨_, _, rfl, rfl, hs⟩
  | none => exact .inl ⟨rfl, rfl⟩

theorem childNodes (h : Twin R t t' a b) : List.Forall₂ R (t.childNodes a) (t'.childNodes b) := by
  obtain ⟨n, n', k, hn, hn', -, -, hslots⟩ := h
  rw [childNodes_of_node? hn, childNodes_of_node? hn']
  exact forall₂_nodes hslots

/-- To be twins, nodes need to relate only the pairs of children that stand side by side. -/
theorem of_zip (h : Twin R t t' a b)
    (hS : ∀ x y, (x, y) ∈ (t.childNodes a).zip (t'.childNodes b) → R x y → S x y) :
    Twin S t t' a b := by
  obtain ⟨n, n', k, hn, hn', hk, hkind, hslots⟩ := h
  rw [childNodes_of_node? hn, childNodes_of_node? hn'] at hS
  exact ⟨n, n', k, hn, hn', hk, hkind, forall₂_match_of_zip hslots hS⟩

theorem mono (h : Twin R t t' a b) (hS : ∀ x y, R x y → S x y) : Twin S t t' a b :=
  h.of_zip fun x y _ => hS x y

/-! ### Reading fields -/

theorem child (h : Twin R t t' a b) (field : String) :
    Alike (Option.Rel R) (t.child a field) (t'.child b field) := by
  unfold Tree.child
  rw [h.locate_eq]
  refine (Alike.refl _).bind ?_
  rintro p _ rfl
  refine .ok ?_
  rcases h.slot?_cases p.index with ⟨hs, hs'⟩ | ⟨s, s', hs, hs', hm⟩ <;> rw [hs, hs']
  · exact .none
  · exact hm.child?

theorem children (h : Twin R t t' a b) (field : String) :
    Alike (List.Forall₂ R) (t.children a field) (t'.children b field) := by
  unfold Tree.children
  rw [h.locate_eq]
  refine (Alike.refl _).bind ?_
  rintro p _ rfl
  refine .ok ?_
  rcases h.slot?_cases p.index with ⟨hs, hs'⟩ | ⟨s, s', hs, hs', hm⟩ <;> rw [hs, hs']
  · exact .nil
  · exact hm.childList

theorem data?_eq (h : Twin R t t' a b) (i : Nat) :
    (t.slot? a i).bind Slot.data? = (t'.slot? b i).bind Slot.data? := by
  rcases h.slot?_cases i with ⟨hs, hs'⟩ | ⟨s, s', hs, hs', hm⟩ <;> rw [hs, hs']
  exact hm.data?

theorem data_eq (h : Twin R t t' a b) (field : String) : t.data a field = t'.data b field := by
  unfold Tree.data
  simp only [h.locate_eq, h.data?_eq]

theorem rawForm_eq (h : Twin R t t' a b) (field : String) :
    t.rawForm a field = t'.rawForm b field := by
  unfold Tree.rawForm
  simp only [h.locate_eq, h.data?_eq]

end Twin

/-! ## Bisimulations -/

/-- Related nodes are twins. -/
def Bisim (R : NodeId → NodeId → Prop) (t t' : Tree σ) : Prop :=
  ∀ a b, R a b → Twin R t t' a b

/-- `Tree.refText`, where `stop` answers for the references at which the bound is used up. -/
def refTextOr (t : Tree σ) (stop : NodeId → Except Error String) :
    Nat → NodeId → Except Error String
  | 0 => stop
  | bound + 1 => t.referenceText (refTextOr t stop bound)

theorem refText_eq_refTextOr (t : Tree σ) (bound : Nat) :
    t.refText bound = t.refTextOr (fun _ => .ok "") bound := by
  induction bound with
  | zero => rfl
  | succ bound ih =>
    funext ref
    rw [refText, refTextOr, ih]

namespace Bisim

variable {R : NodeId → NodeId → Prop} {t t' : Tree σ} {a b : NodeId}

/-! ### Generics -/

theorem partGenerics (h : Bisim R t t') (hab : R a b) :
    Alike (ListBinding.Match R) (t.partGenerics a) (t'.partGenerics b) := by
  have htwin := h a b hab
  unfold Tree.partGenerics
  rw [htwin.expectKind_eq]
  refine (Alike.refl _).bind fun _ _ _ => (htwin.child _).bind ?_
  rintro _ _ (hargs | _)
  · exact .ok ⟨hab, hargs, rfl⟩
  · exact .error _

theorem generics (h : Bisim R t t') (hab : R a b) :
    Alike (ListBinding.Match R) (t.generics a) (t'.generics b) := by
  have htwin := h a b hab
  unfold Tree.generics
  rw [htwin.expectKind_eq]
  refine (Alike.refl _).bind fun _ _ _ => (htwin.children _).bind fun parts parts' hparts => ?_
  have hlast := forall₂_getElem?_rel hparts (parts.length - 1)
  rw [← List.getLast?_eq_getElem?, hparts.length_eq, ← List.getLast?_eq_getElem?] at hlast
  generalize parts.getLast? = x, parts'.getLast? = y at hlast ⊢
  cases hlast with
  | some hxy =>
    exact (h.partGenerics hxy).bind fun _ _ hm => .ok ⟨hab, hm.target, hm.field⟩
  | none => exact .error _

theorem bound_children (h : Bisim R t t') {x y : ListBinding} (hxy : x.Match R y) :
    Alike (List.Forall₂ R) (t.children x.target x.field) (t'.children y.target y.field) :=
  hxy.field ▸ (h _ _ hxy.target).children x.field

theorem hasGenerics_eq (h : Bisim R t t') (hab : R a b) : t.hasGenerics a = t'.hasGenerics b := by
  have htwin := h a b hab
  refine Alike.eq ?_
  unfold Tree.hasGenerics
  rw [htwin.expectKind_eq]
  refine (Alike.refl _).bind fun _ _ _ => (htwin.children _).bind fun parts parts' hparts => ?_
  rw [forall₂_isEmpty hparts]
  split
  · exact .refl _
  · refine (h.generics hab).bind fun x y hxy => (h.bound_children hxy).bind fun _ _ hargs => ?_
    rw [forall₂_isEmpty hargs]
    exact .refl _

/-! ### Names -/

section Names

variable {text text' : NodeId → Except Error String}

theorem argumentText_eq (h : Bisim R t t') (htext : ∀ x y, R x y → text x = text' y)
    (hab : R a b) : t.argumentText text a = t'.argumentText text' b := by
  unfold Tree.argumentText
  rw [(h a b hab).data_eq, htext a b hab]

theorem partText_eq (h : Bisim R t t') (htext : ∀ x y, R x y → text x = text' y) (hab : R a b) :
    t.partText text a = t'.partText text' b := by
  have htwin := h a b hab
  refine Alike.eq ?_
  unfold Tree.partText
  rw [htwin.expectKind_eq]
  refine (Alike.refl _).bind fun _ _ _ => (htwin.child _).bind ?_
  rintro _ _ (hident | _)
  · simp only [(h _ _ hident).data_eq]
    refine (Alike.refl _).bind ?_
    rintro v _ rfl
    refine (h.partGenerics hab).bind fun x y hxy => (h.bound_children hxy).bind fun _ _ hargs => ?_
    refine (Alike.mapM (s := Eq) hargs fun x y hxy => ?_).bind fun texts texts' htexts => ?_
    · rw [h.argumentText_eq htext hxy]
      exact .refl _
    · rw [List.forall₂_eq_eq_eq] at htexts
      rw [htexts]
      exact .refl _
  · exact .error _

end Names

/-- Related children have more ancestors than their parents. -/
theorem deeper (h : Bisim R t t') (hf : t.Forest) (hab : R a b) :
    Twin (fun x y => R x y ∧ (t.ancestors a).length < (t.ancestors x).length) t t' a b := by
  refine (h a b hab).of_zip fun x y hxy hR => ⟨hR, ?_⟩
  have hchild : t.ChildOf x a := (hf.owned a x).1 (List.of_mem_zip hxy).1
  rw [hf.length_ancestors_child hchild]
  exact Nat.lt_succ_self _

theorem below_depth (h : Bisim R t t') (hf : t.Forest) (d : Nat) :
    Bisim (fun x y => R x y ∧ d ≤ (t.ancestors x).length) t t' := by
  rintro a b ⟨hab, hd⟩
  exact (h.deeper hf hab).mono fun x y ⟨hxy, hlt⟩ => ⟨hxy, by omega⟩

/-- The text of a reference depends on the texts of references with more ancestors only: parts and
their arguments stand below the reference. -/
theorem referenceText_eq (h : Bisim R t t') (hf : t.Forest) (hab : R a b)
    {text text' : NodeId → Except Error String}
    (htext : ∀ x y, R x y → (t.ancestors a).length < (t.ancestors x).length → text x = text' y) :
    t.referenceText text a = t'.referenceText text' b := by
  have hbelow := h.below_depth hf ((t.ancestors a).length + 1)
  have hpart : ∀ x y, R x y ∧ (t.ancestors a).length < (t.ancestors x).length →
      t.partText text x = t'.partText text' y := fun x y hxy =>
    hbelow.partText_eq (fun x y ⟨hxy, hlt⟩ => htext x y hxy hlt) hxy
  refine Alike.eq ?_
  unfold Tree.referenceText
  rw [(h a b hab).expectKind_eq, (h a b hab).data_eq]
  refine (Alike.refl _).bind fun _ _ _ => ((h.deeper hf hab).children _).bind ?_
  intro parts parts' hparts
  refine (Alike.mapM (s := Eq) hparts fun x y hxy => ?_).bind fun texts texts' htexts => ?_
  · rw [hpart x y hxy]
    exact .refl _
  · rw [List.forall₂_eq_eq_eq] at htexts
    rw [htexts]
    exact .refl _

/-- References nested in a reference have more ancestors than it, so the bound on the nesting is
never used up: it does not matter what the answers would be if it were. -/
theorem refTextOr_eq (h : Bisim R t t') (hf : t.Forest) (hab : R a b)
    (stop stop' : NodeId → Except Error String) {bound bound' : Nat}
    (hb : t.size ≤ bound + (t.ancestors a).length)
    (hb' : t.size ≤ bound' + (t.ancestors a).length) :
    t.refTextOr stop bound a = t'.refTextOr stop' bound' b := by
  have hdepth : (t.ancestors a).length < t.size := hf.length_ancestors_lt (h a b hab).lt_size.1
  induction bound generalizing bound' a b with
  | zero => omega
  | succ bound ih =>
    cases bound' with
    | zero => omega
    | succ bound' =>
      -- What the bound loses with a level, the references below have in ancestors.
      refine h.referenceText_eq hf hab fun x y hxy hlt => ih hxy (by omega) (by omega) ?_
      exact hf.length_ancestors_lt (h x y hxy).lt_size.1

theorem refText_eq (h : Bisim R t t') (hf : t.Forest) (hab : R a b) {bound bound' : Nat}
    (hb : t.size ≤ bound + (t.ancestors a).length)
    (hb' : t.size ≤ bound' + (t.ancestors a).length) :
    t.refText bound a = t'.refText bound' b := by
  rw [refText_eq_refTextOr, refText_eq_refTextOr]
  exact h.refTextOr_eq hf hab _ _ hb hb'

theorem typeName_eq (h : Bisim R t t') (hf : t.Forest) (hsize : t.size ≤ t'.size) (hab : R a b) :
    t.typeName a = t'.typeName b :=
  h.refText_eq hf hab (by omega) (by omega)

theorem partTypeName_eq (h : Bisim R t t') (hf : t.Forest) (hsize : t.size ≤ t'.size)
    (hab : R a b) : t.partTypeName a = t'.partTypeName b :=
  h.partText_eq (fun _ _ => h.typeName_eq hf hsize) hab

/-! ### Walks -/

/-- What comes of related work lists is related. The children of nodes at the same position stand
side by side at other positions. -/
theorem preorder (h : Bisim R t t') {ids ids' out : List NodeId} (hids : List.Forall₂ R ids ids')
    (hout : t.Preorder ids out) :
    ∃ out', t'.Preorder ids' out' ∧ List.Forall₂ R out out' ∧ ids.zip ids' ⊆ out.zip out' ∧
      ∀ a b, (a, b) ∈ out.zip out' →
        (t.childNodes a).zip (t'.childNodes b) ⊆ out.zip out' := by
  induction hout generalizing ids' with
  | nil =>
    cases hids
    exact ⟨[], .nil, .nil, by simp, by simp⟩
  | @cons id rest below after _ _ ihb iha =>
    cases hids with
    | @cons _ id' _ rest' hid hrest =>
      obtain ⟨below', hbelow', hb, hbzip, hbin⟩ := ihb (h _ _ hid).childNodes
      obtain ⟨after', hafter', ha, hazip, hain⟩ := iha hrest
      refine ⟨_, .cons hbelow' hafter', .cons hid (List.rel_append hb ha), ?_, ?_⟩
      · rw [List.zip_cons_cons, List.zip_cons_cons, List.zip_append hb.length_eq]
        exact List.cons_subset_cons _ (List.subset_append_of_subset_right _ hazip)
      · intro a b hab
        rw [List.zip_cons_cons, List.zip_append hb.length_eq] at hab ⊢
        refine List.subset_cons_of_subset _ ?_
        rcases List.mem_cons.1 hab with hab | hab
        · cases hab
          exact List.subset_append_of_subset_left _ hbzip
        · rcases List.mem_append.1 hab with hab | hab
          · exact List.subset_append_of_subset_left _ (hbin a b hab)
          · exact List.subset_append_of_subset_right _ (hain a b hab)

/-- The walks of related nodes visit related nodes, and to have the same position in them is a
bisimulation. -/
theorem walk (h : Bisim R t t') (hf : t.Forest) (hf' : t'.Forest) {r r' : NodeId} (hr : R r r') :
    List.Forall₂ R (t.walk r) (t'.walk r') ∧
      Bisim (fun a b => (a, b) ∈ (t.walk r).zip (t'.walk r')) t t' := by
  obtain ⟨hlt, hlt'⟩ := (h r r' hr).lt_size
  obtain ⟨out', hout', hwalk, -, hin⟩ := h.preorder (.cons hr .nil) (hf.preorder_walk hlt)
  rw [hout'.unique (hf'.preorder_walk hlt')] at hwalk hin
  refine ⟨hwalk, fun a b hab => ?_⟩
  have hR : R a b := (List.forall₂_iff_zip.1 hwalk).2 hab
  exact (h a b hR).of_zip fun x y hxy _ => hin a b hab hxy

end Bisim

end Tree

end Arbor
