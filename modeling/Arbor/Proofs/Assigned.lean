import Mathlib.Data.List.Flatten
import Arbor.Proofs.Completeness
import Arbor.Proofs.Required

/-!
# Carrying out assignments

The checks of a build turn its assignments into changes of the new node. While these are carried out
the new node stays a root and the nodes that are still to be moved are in none of its slots. So each
change does to its field what it says and nothing else to the new node, all other nodes lose what is
moved, and a change is refused only if its value is.
-/

namespace Arbor

/-! ## From assignments to changes -/

/-- The value that a field of the kind reads from a text, if it reads one. -/
def Kind.decoded? (k : Kind) (field text : String) : Option Value :=
  (k.place? field).bind fun p => (p.decode (some text)).toOption

theorem Kind.decoded?_of_decode {k : Kind} {field text : String} {p : Place} {v : Value}
    (hp : k.place? field = some p) (hv : p.decode (some text) = .ok v) :
    k.decoded? field text = some v := by
  simp [decoded?, hp, hv, Except.toOption]

namespace Change

/-- Fails unless the field takes the value of the change. A change that moves a node has none. -/
def checkValueAt (p : Place) : Change → Except Error Unit
  | setChild .. | append .. => .ok ()
  | setData _ v | push _ v => p.checkValue (some v)

/-- Fails unless the field that the change names takes its value. -/
def checkValue (k : Kind) (ch : Change) : Except Error Unit := do
  ch.checkValueAt (← k.resolve ch.field [ch.category])

theorem checkValue_of_resolve {k : Kind} {ch : Change} {p : Place}
    (hp : k.resolve ch.field [ch.category] = .ok p) : ch.checkValue k = ch.checkValueAt p := by
  rw [checkValue, hp]
  rfl

end Change

namespace Assignment

/-- The changes that an assignment to a new node of the kind comes to. -/
def changes (k : Kind) : Assignment → List Change
  | child field c => [.setChild field c]
  | children field cs => cs.map (.append field)
  | data field v => [.setData field v]
  | values field vs => vs.map (.push field)
  | raw field text => (k.decoded? field text).toList.map (.setData field)

/-- The values that an assignment gives as they are. -/
def plainValues : Assignment → List Value
  | data _ v => [v]
  | values _ vs => vs
  | child .. | children .. | raw .. => []

end Assignment

section Checked

variable {σ : Signature} {t t' : Tree σ} {k : Kind}

/-- The node is of a kind that the field accepts. -/
def Tree.Fits (t : Tree σ) (p : Place) (c : NodeId) : Prop :=
  ∃ n, t.node? c = some n ∧ σ.checkAccepts p n.kind = .ok ()

theorem Tree.Fits.mono (h : t.KindsKept t') {p : Place} {c : NodeId} (hc : t.Fits p c) :
    t'.Fits p c := by
  obtain ⟨n, hn, hacc⟩ := hc
  obtain ⟨n', hn', hkind⟩ := h c n hn
  exact ⟨n', hn', hkind ▸ hacc⟩

/-- What the checks of a build establish for a single assignment. -/
structure Assignment.Checked (t : Tree σ) (k : Kind) (a : Assignment) (p : Place) : Prop where
  place : k.resolve a.field [a.category] = .ok p
  fits : ∀ c ∈ a.nodes, t.Fits p c
  values : ∀ v ∈ a.plainValues, p.checkValue (some v) = .ok ()
  decoded : ∀ field text, a = .raw field text → ∃ v, p.decode (some text) = .ok v

namespace Tree

theorem fits_of_placeOnce {p : Place} {placed placed' : List NodeId} {c : NodeId}
    (h : t.placeOnce p placed c = .ok placed') : t.Fits p c := by
  obtain ⟨kind, hkind, h⟩ := bind_eq_ok.1 h
  obtain ⟨⟨⟩, hacc, -⟩ := bind_eq_ok.1 h
  obtain ⟨n, hn, rfl⟩ := kindId_eq_ok.1 hkind
  exact ⟨n, hn, hacc⟩

theorem fits_of_foldlM {p : Place} {cs placed placed' : List NodeId}
    (h : cs.foldlM (t.placeOnce p) placed = .ok placed') : ∀ c ∈ cs, t.Fits p c := by
  induction cs generalizing placed with
  | nil => simp
  | cons c cs ih =>
    rw [List.foldlM_cons] at h
    obtain ⟨next, hnext, h⟩ := bind_eq_ok.1 h
    exact List.forall_mem_cons.2 ⟨fits_of_placeOnce hnext, ih h⟩

end Tree

theorem forM_eq_ok {ε α : Type} {f : α → Except ε Unit} {as : List α} {u : Unit} :
    as.forM f = .ok u ↔ ∀ a ∈ as, f a = .ok () := by
  induction as with
  | nil => exact ⟨fun _ => by simp, fun _ => rfl⟩
  | cons a as ih =>
    rw [List.forall_mem_cons, ← ih]
    show (f a >>= fun _ => as.forM f) = .ok u ↔ _
    rw [bind_eq_ok]
    exact ⟨fun ⟨_, ha, has⟩ => ⟨ha, has⟩, fun ⟨ha, has⟩ => ⟨_, ha, has⟩⟩

namespace Tree

/-- An assignment that passes the checks adds its changes to the draft. -/
theorem checkAssignment_eq_ok {d d' : Draft} {a : Assignment}
    (h : t.checkAssignment k d a = .ok d') :
    (∃ p, a.Checked t k p) ∧ d'.changes = d.changes ++ a.changes k := by
  obtain ⟨p, hp, h⟩ := bind_eq_ok.1 h
  cases a with
  | child field c =>
    obtain ⟨placed, hplaced, h⟩ := bind_eq_ok.1 h
    cases h
    have hfits := fits_of_placeOnce hplaced
    exact ⟨⟨p, hp, by simpa [Assignment.nodes] using hfits, by simp [Assignment.plainValues],
      by simp⟩, rfl⟩
  | children field cs =>
    obtain ⟨placed, hplaced, h⟩ := bind_eq_ok.1 h
    cases h
    exact ⟨⟨p, hp, fits_of_foldlM hplaced, by simp [Assignment.plainValues], by simp⟩, rfl⟩
  | data field v =>
    obtain ⟨_, hv, h⟩ := bind_eq_ok.1 h
    cases h
    exact ⟨⟨p, hp, by simp [Assignment.nodes], by simpa [Assignment.plainValues] using hv,
      by simp⟩, rfl⟩
  | values field vs =>
    obtain ⟨_, hvs, h⟩ := bind_eq_ok.1 h
    cases h
    exact ⟨⟨p, hp, by simp [Assignment.nodes], forM_eq_ok.1 hvs, by simp⟩, rfl⟩
  | raw field text =>
    obtain ⟨v, hv, h⟩ := bind_eq_ok.1 h
    cases h
    have hdecoded := Kind.decoded?_of_decode (Kind.resolve_eq_ok.1 hp).1 hv
    refine ⟨⟨p, hp, by simp [Assignment.nodes], by simp [Assignment.plainValues], ?_⟩, ?_⟩
    · rintro _ _ ⟨⟩
      exact ⟨v, hv⟩
    · simp [Assignment.changes, show k.decoded? field text = some v from hdecoded]

theorem foldlM_checkAssignment_eq_ok {as : List Assignment} {d d' : Draft}
    (h : as.foldlM (t.checkAssignment k) d = .ok d') :
    (∀ a ∈ as, ∃ p, a.Checked t k p) ∧
      d'.changes = d.changes ++ as.flatMap (Assignment.changes k) := by
  induction as generalizing d with
  | nil =>
    cases h
    simp
  | cons a as ih =>
    rw [List.foldlM_cons] at h
    obtain ⟨next, hnext, h⟩ := bind_eq_ok.1 h
    obtain ⟨ha, hnext⟩ := checkAssignment_eq_ok hnext
    obtain ⟨has, hlast⟩ := ih h
    exact ⟨List.forall_mem_cons.2 ⟨ha, has⟩, by rw [hlast, hnext, List.flatMap_cons,
      List.append_assoc]⟩

/-- A build that passes its checks carries out the changes of its assignments in order. -/
theorem changes_of_draft {as : List Assignment} {changes : List Change}
    (h : t.draft k as = .ok changes) :
    (∀ a ∈ as, ∃ p, a.Checked t k p) ∧ changes = as.flatMap (Assignment.changes k) := by
  obtain ⟨d, hd, h⟩ := bind_eq_ok.1 h
  cases hungiven : ungiven? k d.assigned with
  | some f => simp [hungiven] at h
  | none =>
    simp only [hungiven, Except.ok.injEq] at h
    subst h
    simpa using foldlM_checkAssignment_eq_ok hd

end Tree

end Checked

/-! ## One change -/

namespace ListView

variable {σ : Signature} {t : Tree σ} {v : ListView}

theorem outcome_insert (index : Nat) (c : NodeId) :
    ((v.insert index c : Edit σ Unit).outcome t).2 = v.checkInsert t index c := by
  unfold insert
  rw [Edit.outcome_ask_bind]
  cases v.checkInsert t index c <;> rfl

theorem outcome_addToEnd {c : NodeId} : ((v.addToEnd c : Edit σ Unit).outcome t).2 =
    v.checkInsert t (v.lengthWithout t c) c :=
  outcome_insert _ c

theorem outcome_pushValue (hl : v.checkDataList t = .ok ()) (x : Value) :
    ((v.pushValue x : Edit σ Unit).outcome t).2 = v.place.checkValue (some x) := by
  unfold pushValue
  rw [Edit.outcome_ask_bind, hl]
  simp only
  rw [Edit.outcome_ask_bind]
  cases v.place.checkValue (some x) <;> rfl

end ListView

section Changes

variable {σ : Signature} {t t' : Tree σ} {base : NodeId} {ch : Change} {u : Unit}

/-- A change of a root is refused only for its value, if the moved node fits. -/
theorem Edit.outcome_change (hconf : t.Conforms) {n : Node} (hn : t.node? base = some n) {k : Kind}
    (hk : σ.kinds[n.kind]? = some k) (hroot : t.parent? base = none) {p : Place}
    (hp : k.resolve ch.field [ch.category] = .ok p)
    (hfits : ∀ c ∈ ch.nodes, c ≠ base ∧ t.Fits p c) :
    ((Edit.change base ch).outcome t).2 = ch.checkValue k := by
  obtain ⟨hplace, hcat⟩ := Kind.resolve_eq_ok.1 hp
  rw [List.mem_singleton] at hcat
  have hlocate : ∀ {expected : List Category}, ch.category ∈ expected →
      t.locate base ch.field expected = .ok p := fun hmem =>
    Arbor.bind_eq_ok.2 ⟨k, Tree.kind_eq_ok.2 ⟨n, hn, hk⟩,
      Kind.resolve_eq_ok.2 ⟨hplace, hcat ▸ hmem⟩⟩
  have hself : t.locate base ch.field [ch.category] = .ok p := hlocate (List.mem_singleton.2 rfl)
  have hattach : ∀ c ∈ ch.nodes, t.checkAttachable p base c = .ok () := fun c hc =>
    Tree.checkAttachable_eq_ok.2 ⟨(hfits c hc).2, (hfits c hc).1, by
      rw [Tree.ancestors_of_root hroot]
      exact List.not_mem_nil⟩
  obtain ⟨⟨m, hof⟩, -⟩ := Tree.locate_eq_ok hself
  obtain ⟨s, hslot, hs⟩ := hconf.slot?_of hof
  rw [Change.checkValue_of_resolve hp]
  cases ch with
  | setChild field c =>
    exact (Edit.outcome_setChild hself (some c)).trans (hattach c (List.mem_singleton.2 rfl))
  | append field c =>
    obtain ⟨held, rfl⟩ := hs.eq_children hcat
    have hv : t.list base field = .ok ⟨⟨base, base, field⟩, p⟩ :=
      Tree.openList_eq_ok.2 ⟨rfl, hlocate (by simp [Change.category])⟩
    rw [Edit.change, Edit.outcome_ask_bind, hv]
    exact ListView.outcome_addToEnd.trans (ListView.checkInsert_eq_ok.2
      ⟨ListView.isChildList_eq_true.2 ⟨held, hslot⟩, hattach c (List.mem_singleton.2 rfl),
        Nat.le_refl _⟩)
  | setData field x => exact Edit.outcome_setData hself (some x)
  | push field x =>
    obtain ⟨held, rfl⟩ := hs.eq_values hcat
    have hv : t.list base field = .ok ⟨⟨base, base, field⟩, p⟩ :=
      Tree.openList_eq_ok.2 ⟨rfl, hlocate (by simp [Change.category])⟩
    have hslot : (⟨⟨base, base, field⟩, p⟩ : ListView).slot? t = some (.values held) := hslot
    rw [Edit.change, Edit.outcome_ask_bind, hv]
    exact ListView.outcome_pushValue
      (ListView.checkDataList_eq_ok.2 (by simp [ListView.isChildList, hslot])) x

/-- The node that is changed stays a root. -/
theorem Edit.parent?_change (hconf : t.Conforms) (hf : t.Forest) (hf' : t'.Forest)
    (h : Edit.change base ch t = .ok u t') (hroot : t.parent? base = none) :
    t'.parent? base = none := by
  obtain ⟨p, hdone⟩ := Edit.change_done hconf hf h
  refine Option.eq_none_iff_forall_ne_some.2 fun x hx => ?_
  have hne : base ≠ x := fun hself => hf'.acyclic base (.single (hself ▸ hx))
  obtain ⟨j, s', hs', hmem⟩ := Tree.mem_childNodes.1 ((hf'.owned x base).2 hx)
  rw [hdone.puts] at hs'
  obtain ⟨s, hs, rfl⟩ := Option.map_eq_some_iff.1 hs'
  rw [if_neg fun hplace => hne hplace.1, Slot.nodes_withoutAll] at hmem
  have hheld := (hf.owned x base).1 (Tree.mem_childNodes.2 ⟨j, s, hs, List.mem_of_mem_filter hmem⟩)
  cases hroot.symm.trans hheld

end Changes

/-! ## Runs of changes -/

section Runs

variable {σ : Signature} {t₀ t t' : Tree σ} {base : NodeId} {kind : KindId} {done : List String}
  {placed : List NodeId} {changes : List Change}

namespace Building

/-- A change of a build does to the fields of the new node what it says. -/
theorem slot?_change (hσ : σ.Resolved) (h : Building t₀ t base kind done placed)
    (h₀ : t₀.HoldsBehind base) (hkind : t₀.IsKind kind base) {ch : Change}
    (hold : ∀ c ∈ ch.nodes, c < base) (hplaced : ∀ c ∈ ch.nodes, c ∉ placed) {u : Unit}
    (hrun : Edit.change base ch t = .ok u t') {i : Nat} {f : Field}
    (hi : (σ.fields kind)[i]? = some f) :
    t'.slot? base i = (t.slot? base i).map fun s => if ch.field = f.name then ch.put s else s := by
  obtain ⟨p, hdone⟩ := Edit.change_done h.conforms h.forest hrun
  have hfield := h.field_of_place hkind hdone.place
  have hplace : (base = base ∧ p.index = i) ↔ ch.field = f.name := by
    rw [← hdone.name]
    constructor
    · rintro ⟨-, rfl⟩
      exact congrArg Field.name (Option.some.inj (hfield.symm.trans hi))
    · exact fun hfname => ⟨rfl, hσ.index_eq hfield hi hfname⟩
  rw [hdone.puts]
  refine Option.map_congr fun s hs => ?_
  have hkept : s.withoutAll ch.nodes = s := Slot.withoutAll_of_not_mem fun c hc hmem =>
    h.not_mem_childNodes h₀ (Nat.le_refl base) (hold c hc) (hplaced c hc)
      (Tree.mem_childNodes.2 ⟨i, s, hs, hmem⟩)
  rw [hkept]
  exact if_congr hplace rfl rfl

/-- The changes of a build do to a field of the new node what those of them say that name it. -/
theorem slot?_forM (hσ : σ.Resolved) (h : Building t₀ t base kind done placed)
    (h₀ : t₀.HoldsBehind base) (hkind : t₀.IsKind kind base)
    (hold : ∀ c ∈ changes.flatMap Change.nodes, c < base)
    (hnodup : (changes.flatMap Change.nodes ++ placed).Nodup) {u : PUnit}
    (hrun : changes.forM (Edit.change base) t = .ok u t') {i : Nat} {f : Field}
    (hi : (σ.fields kind)[i]? = some f) :
    t'.slot? base i = (t.slot? base i).map fun s =>
      (changes.filter (·.field = f.name)).foldl (fun s ch => ch.put s) s := by
  induction changes generalizing t done placed with
  | nil =>
    cases hrun
    exact Option.map_id'.symm
  | cons ch changes ih =>
    obtain ⟨t₁, hch, hrun⟩ := Edit.forM_cons_eq_ok.1 hrun
    obtain ⟨hplaced, hnodup⟩ := Change.nodup_cons hnodup
    rw [List.flatMap_cons] at hold
    have hfirst : ∀ c ∈ ch.nodes, c < base := fun c hc => hold c (List.mem_append_left _ hc)
    have hrest : ∀ c ∈ changes.flatMap Change.nodes, c < base := fun c hc =>
      hold c (List.mem_append_right _ hc)
    rw [ih (h.change hσ h₀ hkind hfirst hplaced hch) hrest hnodup hrun,
      h.slot?_change hσ h₀ hkind hfirst hplaced hch hi, Option.map_map]
    refine Option.map_congr fun s _ => ?_
    by_cases hname : ch.field = f.name <;> simp [hname]

/-- While changes of fitting nodes are carried out, the first one to be refused is the first one
whose value is refused. -/
theorem outcome_forM (hσ : σ.Resolved) (h : Building t₀ t base kind done placed)
    (h₀ : t₀.HoldsBehind base) (hkind : t₀.IsKind kind base) (hroot : t.parent? base = none)
    {k : Kind} (hk : σ.kinds[kind]? = some k)
    (hold : ∀ c ∈ changes.flatMap Change.nodes, c < base)
    (hnodup : (changes.flatMap Change.nodes ++ placed).Nodup)
    (hfits : ∀ ch ∈ changes, ∃ p, k.resolve ch.field [ch.category] = .ok p ∧
      ∀ c ∈ ch.nodes, t₀.Fits p c) :
    ((changes.forM (Edit.change base)).outcome t).2 = changes.forM (Change.checkValue k) := by
  induction changes generalizing t done placed with
  | nil => rfl
  | cons ch changes ih =>
    obtain ⟨hplaced, hnodup⟩ := Change.nodup_cons hnodup
    rw [List.flatMap_cons] at hold
    have hfirst : ∀ c ∈ ch.nodes, c < base := fun c hc => hold c (List.mem_append_left _ hc)
    obtain ⟨⟨p, hp, hfit⟩, hrest⟩ := List.forall_mem_cons.1 hfits
    have hanswer : ((Edit.change base ch).outcome t).2 = ch.checkValue k := by
      obtain ⟨n₀, hn₀, hkind₀⟩ := hkind
      obtain ⟨n, hn, hsame⟩ := h.kept base n₀ hn₀
      exact Edit.outcome_change h.conforms hn (hsame.trans hkind₀ ▸ hk) hroot hp fun c hc =>
        ⟨Nat.ne_of_lt (hfirst c hc), (hfit c hc).mono h.kept⟩
    rw [Edit.outcome_forM_cons]
    show _ = (ch.checkValue k >>= fun _ => changes.forM (Change.checkValue k))
    rw [← hanswer, Edit.outcome]
    cases hch : Edit.change base ch t with
    | error e t₁ => rfl
    | ok u t₁ =>
      have h₁ := h.change hσ h₀ hkind hfirst hplaced hch
      have hroot₁ := Edit.parent?_change h.conforms h.forest h₁.forest hch hroot
      exact ih h₁ hroot₁ (fun c hc => hold c (List.mem_append_right _ hc)) hnodup hrest

end Building

end Runs

/-! ## Builds -/

theorem Edit.outcome_bind_pure_snd {σ : Signature} {α β : Type} (e : Edit σ α) (f : α → β)
    (t : Tree σ) : ((e >>= fun a => pure (f a)).outcome t).2 = (e.outcome t).2.map f := by
  rw [outcome_bind, outcome]
  cases e t <;> rfl

theorem Edit.steps_forM {σ : Signature} (id : NodeId) (changes : List Change) (t : Tree σ) :
    t.Steps ((changes.forM (Edit.change id)).outcome t).1 :=
  Edit.runs_forM changes fun ch _ => Edit.runs_change id ch

section Builds

variable {σ : Signature} {t : Tree σ} {k : Kind}

/-- The fresh node that a build starts from is a root of the built kind. -/
theorem Tree.building_start (hσ : σ.Resolved) (hconf : t.Conforms) (hf : t.Forest) {kid : KindId}
    (hk : σ.kinds[kid]? = some k) :
    Building (t.alloc kid) (t.alloc kid) t.size kid [] [] ∧ (t.alloc kid).IsKind kid t.size ∧
      (t.alloc kid).parent? t.size = none := by
  have hlt : kid < σ.kinds.length := (List.getElem?_eq_some_iff.1 hk).1
  obtain ⟨root, below, hblock, hrootkind, hinit, -⟩ := freshBlock_eq_cons hσ t.size hlt
  have hroot := (node?_alloc_of_ge hblock).1
  refine ⟨building_alloc hσ hconf hf hlt hroot hrootkind hinit, ⟨root, hroot, hrootkind⟩, ?_⟩
  exact (grove_freshBlock σ _ none t.size kid).parent?_root (stands_extend _)
    (List.mem_singleton.2 rfl)

theorem Assignment.mem_changes {a : Assignment} {ch : Change} (h : ch ∈ a.changes k) :
    ch.field = a.field ∧ ch.category = a.category ∧ ch.nodes ⊆ a.nodes := by
  cases a with
  | child field c =>
    obtain rfl := List.mem_singleton.1 h
    exact ⟨rfl, rfl, fun _ hc => hc⟩
  | children field cs =>
    obtain ⟨c, hc, rfl⟩ := List.mem_map.1 h
    exact ⟨rfl, rfl, List.cons_subset.2 ⟨hc, List.nil_subset _⟩⟩
  | data field v =>
    obtain rfl := List.mem_singleton.1 h
    exact ⟨rfl, rfl, fun _ hc => hc⟩
  | values field vs =>
    obtain ⟨v, -, rfl⟩ := List.mem_map.1 h
    exact ⟨rfl, rfl, List.nil_subset _⟩
  | raw field text =>
    obtain ⟨v, -, rfl⟩ := List.mem_map.1 h
    exact ⟨rfl, rfl, List.nil_subset _⟩

/-- Once its checks are passed, a build answers as its changes do. -/
theorem Tree.answer_build {kind : String} {as : List Assignment} {kid : KindId}
    {changes : List Change} (hkind : σ.kindNamed? kind = some (kid, k))
    (hdraft : t.draft k as = .ok changes) :
    (t.apply (.build kind as)).2 =
      ((changes.forM (Edit.change t.size)).outcome (t.alloc kid)).2.map fun _ => some t.size := by
  have hbuild : (t.apply (.build kind as)).2 = ((Edit.build kind as).outcome t).2.map some :=
    Edit.outcome_bind_pure_snd _ _ t
  rw [hbuild, Edit.build, Edit.kindNamed, Edit.outcome_ask_bind, hkind]
  simp only
  rw [Edit.outcome_ask_bind, hdraft]
  have hlast := Edit.outcome_bind_pure_snd (changes.forM (Edit.change t.size)) (fun _ => t.size)
    (t.alloc kid)
  refine (congrArg (Except.map some) hlast).trans ?_
  cases ((changes.forM (Edit.change t.size)).outcome (t.alloc kid)).2 <;> rfl

/-- The changes of a build, or some of them, answer as the checks of their values do. -/
theorem Tree.outcome_changes (hσ : σ.Resolved) (hconf : t.Conforms) (hf : t.Forest) {kid : KindId}
    (hk : σ.kinds[kid]? = some k) {as : List Assignment} {changes part : List Change}
    (hdraft : t.draft k as = .ok changes) (hpart : part.Sublist changes) :
    ((part.forM (Edit.change t.size)).outcome (t.alloc kid)).2 =
      part.forM (Change.checkValue k) := by
  obtain ⟨hstart, hkind, hroot⟩ := building_start hσ hconf hf hk
  obtain ⟨hnodup, hold, -⟩ := draft_eq_ok hdraft
  obtain ⟨hchecked, heq⟩ := changes_of_draft hdraft
  have hnodes : (part.flatMap Change.nodes).Sublist (changes.flatMap Change.nodes) :=
    hpart.flatMap _
  refine hstart.outcome_forM hσ (holdsBehind_alloc kid) hkind hroot hk
    (fun c hc => hold c (hnodes.subset hc)) (by simpa using hnodup.sublist hnodes) fun ch hch => ?_
  obtain ⟨a, ha, hch⟩ := List.mem_flatMap.1 (heq ▸ hpart.subset hch)
  obtain ⟨p, hp⟩ := hchecked a ha
  obtain ⟨hfield, hcat, hnodes⟩ := Assignment.mem_changes hch
  have hkept : t.KindsKept (t.alloc kid) := kindsKept_extend _
  exact ⟨p, by rw [hfield, hcat, hp.place], fun c hc => (hp.fits c (hnodes hc)).mono hkept⟩

end Builds

end Arbor
