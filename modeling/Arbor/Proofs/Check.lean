import Arbor.Proofs.Lookup

/-!
# What a passed check says

The program fails early: an edit looks up the field it works on, checks what it is given, and
changes the tree only then. Each look-up and check gets one lemma that says what is known once it
has passed.
-/

namespace Arbor

theorem bind_eq_ok {ε α β : Type} {x : Except ε α} {f : α → Except ε β} {b : β} :
    (x >>= f) = .ok b ↔ ∃ a, x = .ok a ∧ f a = .ok b := by
  cases x <;> simp [bind, Except.bind]

theorem pure_eq_ok {ε α : Type} {a b : α} : (pure a : Except ε α) = .ok b ↔ a = b := by
  simp [pure, Except.pure]

/-! ## Fields -/

/-- The place of a name is a field of this name. -/
theorem Kind.place?_eq_some {k : Kind} {name : String} {p : Place} (h : k.place? name = some p) :
    p.kind = k ∧ k.fields[p.index]? = some p.field ∧ p.field.name = name := by
  unfold place? at h
  simp only [bind, Option.bind_eq_some_iff, List.findIdx?_eq_some_iff_getElem] at h
  obtain ⟨i, ⟨hi, hname, -⟩, f, hf, h⟩ := h
  cases h
  refine ⟨rfl, hf, ?_⟩
  rw [List.getElem?_eq_getElem hi] at hf
  cases hf
  simpa using hname

theorem Kind.resolve_eq_ok {k : Kind} {name : String} {expected : List Category} {p : Place} :
    k.resolve name expected = .ok p ↔ k.place? name = some p ∧ p.field.category ∈ expected := by
  unfold resolve
  cases k.place? name with
  | none => simp
  | some q =>
    by_cases hq : q.field.category ∈ expected
    · simp only [hq, ↓reduceIte, Except.ok.injEq, Option.some.injEq]
      exact ⟨fun h => ⟨h, h ▸ hq⟩, fun h => h.1⟩
    · simp only [hq, ↓reduceIte, reduceCtorEq, Option.some.injEq, false_iff, not_and]
      rintro rfl
      exact hq

theorem Signature.fields_of_kinds {σ : Signature} {id : KindId} {k : Kind}
    (h : σ.kinds[id]? = some k) : σ.fields id = k.fields := by
  simp [fields, h]

/-- What a place says about a node: it is the field at its position in the node's kind. -/
structure Place.Of {σ : Signature} (t : Tree σ) (id : NodeId) (p : Place) (n : Node) : Prop where
  node : t.node? id = some n
  kind : σ.kinds[n.kind]? = some p.kind
  field : (σ.fields n.kind)[p.index]? = some p.field

namespace Tree

variable {σ : Signature} {t : Tree σ}

theorem kind_eq_ok {id : NodeId} {k : Kind} :
    t.kind id = .ok k ↔ ∃ n, t.node? id = some n ∧ σ.kinds[n.kind]? = some k := by
  unfold kind
  cases t.node? id with
  | none => simp
  | some n =>
    simp only [Option.bind_some, Option.some.injEq, exists_eq_left']
    cases σ.kinds[n.kind]? <;> simp

theorem kindId_eq_ok {id : NodeId} {k : KindId} :
    t.kindId id = .ok k ↔ ∃ n, t.node? id = some n ∧ n.kind = k := by
  unfold kindId
  cases t.node? id <;> simp

/-- A located field is a field of the node's kind, has the name and one of the categories. -/
theorem locate_eq_ok {id : NodeId} {field : String} {expected : List Category} {p : Place}
    (h : t.locate id field expected = .ok p) :
    (∃ n, p.Of t id n) ∧ p.field.name = field ∧ p.field.category ∈ expected := by
  obtain ⟨k, hk, h⟩ := bind_eq_ok.1 h
  obtain ⟨n, hn, hk⟩ := kind_eq_ok.1 hk
  obtain ⟨h, hcat⟩ := Kind.resolve_eq_ok.1 h
  obtain ⟨rfl, hfield, hname⟩ := Kind.place?_eq_some h
  exact ⟨⟨n, hn, hk, by rw [Signature.fields_of_kinds hk, hfield]⟩, hname, hcat⟩

section Located

variable {id : NodeId} {field : String} {p : Place}

theorem child_of_locate (h : t.locate id field [.singleChild] = .ok p) :
    t.child id field = .ok ((t.slot? id p.index).bind Slot.child?) := by
  rw [child, h]
  rfl

theorem children_of_locate (h : t.locate id field [.listChild] = .ok p) :
    t.children id field = .ok (((t.slot? id p.index).map Slot.childList).getD []) := by
  rw [children, h]
  rfl

theorem data_of_locate (h : t.locate id field [.singleData] = .ok p) :
    t.data id field = .ok ((t.slot? id p.index).bind Slot.data?) := by
  rw [data, h]
  rfl

theorem dataList_of_locate (h : t.locate id field [.listData] = .ok p) :
    t.dataList id field = .ok (((t.slot? id p.index).map Slot.dataList).getD []) := by
  rw [dataList, h]
  rfl

end Located

theorem openList_eq_ok {b : ListBinding} {v : ListView} :
    t.openList b = .ok v ↔
      v.binding = b ∧ t.locate b.target b.field [.listChild, .listData] = .ok v.place := by
  unfold openList
  simp only [bind_eq_ok, pure_eq_ok]
  constructor
  · rintro ⟨p, hp, rfl⟩
    exact ⟨rfl, hp⟩
  · rintro ⟨rfl, hp⟩
    exact ⟨v.place, hp, rfl⟩

end Tree

/-! ## Values -/

/-- A value may be stored exactly if it has the declared type and lies within the bounds. -/
theorem Place.checkValue_some {p : Place} {v : Value} :
    p.checkValue (some v) = .ok () ↔
      p.field.decl.type = .data v.type ∧ p.field.decl.admits v = true := by
  unfold checkValue
  cases p.field.decl.type with
  | child kind => simp
  | data type =>
    by_cases ht : v.type = type
    · subst ht
      unfold FieldDecl.admits
      cases p.field.decl.bounds with
      | none => simp
      | some bounds => cases v <;> simp
    · simp [ht, Ne.symm ht]

/-- A value of the declared type is refused only if it is a number out of bounds. -/
theorem Place.checkValue_cases {p : Place} {v : Value} (htype : p.field.decl.type = .data v.type) :
    (p.field.decl.admits v = true ∧ p.checkValue (some v) = .ok ()) ∨
      ∃ m lo hi, v = .int m ∧ p.field.decl.bounds = some (lo, hi) ∧ ¬ (lo ≤ m ∧ m ≤ hi) ∧
        p.checkValue (some v) = .error (p.breach (.outOfBounds m lo hi)) := by
  by_cases hadmits : p.field.decl.admits v = true
  · exact .inl ⟨hadmits, checkValue_some.2 ⟨htype, hadmits⟩⟩
  · refine .inr ?_
    unfold checkValue
    unfold FieldDecl.admits at hadmits ⊢
    cases hbounds : p.field.decl.bounds with
    | none => simp [hbounds] at hadmits
    | some bounds =>
      obtain ⟨lo, hi⟩ := bounds
      cases v with
      | int m =>
        have hout : ¬ (lo ≤ m ∧ m ≤ hi) := by simpa [hbounds] using hadmits
        exact ⟨m, lo, hi, rfl, rfl, hout, by simp [htype, hout]⟩
      | _ => simp [hbounds] at hadmits

theorem Place.decode_eq_ok {p : Place} {text : Option String} {v : Value} :
    p.decode text = .ok v ↔ ∃ c, p.field.decl.rawForm = some c ∧ c.parse text = .ok v := by
  unfold decode codec
  cases p.field.decl.rawForm with
  | none => simp [bind, Except.bind]
  | some c =>
    simp only [bind, Except.bind, Option.some.injEq, exists_eq_left']
    cases c.parse text <;> simp

/-! ## Children -/

theorem Signature.checkAccepts_eq_ok {σ : Signature} {p : Place} {id : KindId} :
    σ.checkAccepts p id = .ok () ↔
      ∃ a, p.field.accepts = some a ∧ id < σ.kinds.length ∧ σ.accepts a id = true := by
  unfold checkAccepts
  cases p.field.accepts with
  | none => simp
  | some a =>
    rcases Nat.lt_or_ge id σ.kinds.length with hlt | hge
    · simp [hlt]
    · simp only [List.getElem?_eq_none hge, reduceCtorEq, Option.some.injEq, exists_eq_left',
        false_iff, not_and]
      intro hlt
      exact absurd hlt (Nat.not_lt.2 hge)

namespace Tree

variable {σ : Signature} {t : Tree σ}

/-- A node may be attached exactly if its kind is accepted and it is not above its new parent. -/
theorem checkAttachable_eq_ok {p : Place} {parent c : NodeId} :
    t.checkAttachable p parent c = .ok () ↔
      (∃ n, t.node? c = some n ∧ σ.checkAccepts p n.kind = .ok ()) ∧
        c ≠ parent ∧ c ∉ t.ancestors parent := by
  unfold checkAttachable
  simp only [bind_eq_ok, kindId_eq_ok]
  constructor
  · rintro ⟨_, ⟨n, hn, rfl⟩, _, hacc, h⟩
    split at h
    · cases h
    · next hcycle => exact ⟨⟨n, hn, hacc⟩, not_or.1 hcycle⟩
  · rintro ⟨⟨n, hn, hacc⟩, hcycle⟩
    exact ⟨n.kind, ⟨n, hn, rfl⟩, (), hacc, if_neg (not_or.2 hcycle)⟩

/-- A node of an accepted kind is refused only above its new parent. -/
theorem checkAttachable_of_accepts {p : Place} {parent c : NodeId} {n : Node}
    (hn : t.node? c = some n) (hacc : σ.checkAccepts p n.kind = .ok ()) :
    t.checkAttachable p parent c =
      if c = parent ∨ c ∈ t.ancestors parent then .error (p.breach (.cycle c)) else .ok () := by
  unfold checkAttachable
  rw [kindId_eq_ok.2 ⟨n, hn, rfl⟩]
  show (σ.checkAccepts p n.kind >>= fun _ => _) = _
  rw [hacc]
  rfl

end Tree

/-! ## Lists -/

namespace ListView

variable {σ : Signature} {v : ListView} {t : Tree σ}

theorem isChildList_eq_true :
    v.isChildList t = true ↔ ∃ held, v.slot? t = some (.children held) := by
  unfold isChildList
  cases v.slot? t with
  | none => simp
  | some s => cases s <;> simp

theorem contents_of_slot? {s : Slot} (h : v.slot? t = some s) : v.contents t = s.childList := by
  simp [contents, h]

theorem values_of_slot? {s : Slot} (h : v.slot? t = some s) : v.values t = s.dataList := by
  simp [values, h]

theorem checkInsert_eq_ok {index : Nat} {c : NodeId} :
    v.checkInsert t index c = .ok () ↔
      v.isChildList t = true ∧ t.checkAttachable v.place v.binding.target c = .ok () ∧
        index ≤ v.lengthWithout t c := by
  unfold checkInsert
  cases hl : v.isChildList t with
  | false => simp
  | true =>
    simp only [↓reduceIte, bind_eq_ok, true_and]
    constructor
    · rintro ⟨_, ha, h⟩
      split at h
      · cases h
      · next hi => exact ⟨ha, Nat.not_lt.1 hi⟩
    · rintro ⟨ha, hi⟩
      exact ⟨(), ha, if_neg (Nat.not_lt.2 hi)⟩

theorem checkElement_eq_ok {c : NodeId} :
    v.checkElement t c = .ok () ↔ ∃ held, v.slot? t = some (.children held) ∧ c ∈ held := by
  have hcontents : v.checkElement t c = .ok () ↔ c ∈ v.contents t := by
    unfold checkElement
    split <;> simp_all
  rw [hcontents, contents]
  cases v.slot? t with
  | none => simp
  | some s => cases s <;> simp [Slot.childList]

theorem checkDataList_eq_ok : v.checkDataList t = .ok () ↔ v.isChildList t = false := by
  unfold checkDataList
  cases v.isChildList t <;> simp

end ListView

end Arbor
