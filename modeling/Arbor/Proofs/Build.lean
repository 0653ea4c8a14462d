import Arbor.Proofs.Fresh
import Arbor.Proofs.Ownership

/-!
# Builds

A build checks its assignments, allocates the node and carries the assignments out. The checks see
to it that the assigned children are old nodes and have one place each. So no change undoes an
earlier one or reaches into the fresh nodes below: at the end the new node has every field that was
assigned or has an initial value, and all nodes below it are as they were allocated.
-/

namespace Arbor

open Relation

/-! ## Checked assignments -/

namespace Change

def field : Change → String
  | setChild field _ | append field _ | setData field _ | push field _ => field

def category : Change → Category
  | setChild .. => .singleChild
  | append .. => .listChild
  | setData .. => .singleData
  | push .. => .listData

/-- The nodes that a change moves. -/
def nodes : Change → List NodeId
  | setChild _ c | append _ c => [c]
  | setData .. | push .. => []

/-- What the change makes of the slot of its field. -/
def put : Change → Slot → Slot
  | setChild _ c, _ => .child (some c)
  | append _ c, s => .children (s.childList ++ [c])
  | setData _ v, _ => .data (some v)
  | push _ v, s => .values (s.dataList ++ [v])

theorem flatMap_nodes_append (field : String) (cs : List NodeId) :
    (cs.map (append field)).flatMap nodes = cs := by
  induction cs with
  | nil => rfl
  | cons c cs ih => simpa [nodes] using ih

theorem flatMap_nodes_push (field : String) (vs : List Value) :
    (vs.map (push field)).flatMap nodes = [] := by
  induction vs with
  | nil => rfl
  | cons v vs ih => exact ih

end Change

section Drafts

variable {σ : Signature} {t : Tree σ} {k : Kind}

/-- What is known of a draft while assignments are checked: the changes move each placed node once,
and every assigned single field has a change. -/
structure Draft.Sound (t : Tree σ) (k : Kind) (d : Draft) : Prop where
  nodup : d.placed.Nodup
  known : ∀ c ∈ d.placed, c < t.size
  nodes : (d.changes.flatMap Change.nodes).Perm d.placed
  assigned : ∀ i ∈ d.assigned, ∀ f, k.fields[i]? = some f → f.decl.isList = false →
    f.name ∈ d.changes.map Change.field

/-- A draft stays sound when the checks of one assignment have passed. -/
theorem Draft.Sound.add {d : Draft} (h : d.Sound t k) {name : String} {p : Place}
    (hp : k.place? name = some p) (cs : List NodeId) {placed : List NodeId}
    (hplaced : placed = cs.reverse ++ d.placed) (hnodup : placed.Nodup)
    (hknown : ∀ c ∈ cs, c < t.size) {changes : List Change}
    (hnodes : changes.flatMap Change.nodes = cs)
    (hchanges : p.field.decl.isList = false → name ∈ changes.map Change.field) :
    Draft.Sound t k ⟨p.index :: d.assigned, placed, d.changes ++ changes⟩ := by
  obtain ⟨-, hfield, hname⟩ := Kind.place?_eq_some hp
  refine ⟨hnodup, fun c hc => ?_, ?_, fun i hi f hf hlist => ?_⟩
  · rw [hplaced, List.mem_append, List.mem_reverse] at hc
    exact hc.elim (hknown c) (h.known c)
  · rw [List.flatMap_append, hnodes, hplaced]
    exact List.perm_append_comm.trans (cs.reverse_perm.symm.append h.nodes)
  · rw [List.map_append, List.mem_append]
    rcases List.mem_cons.1 hi with rfl | hi
    · obtain rfl : p.field = f := Option.some.inj (hfield.symm.trans hf)
      exact .inr (hname ▸ hchanges hlist)
    · exact .inl (h.assigned i hi f hf hlist)

namespace Tree

theorem placeOnce_eq_ok {p : Place} {placed placed' : List NodeId} {c : NodeId}
    (h : t.placeOnce p placed c = .ok placed') :
    c < t.size ∧ c ∉ placed ∧ placed' = c :: placed := by
  obtain ⟨kind, hkind, h⟩ := bind_eq_ok.1 h
  obtain ⟨_, -, h⟩ := bind_eq_ok.1 h
  obtain ⟨n, hn, -⟩ := kindId_eq_ok.1 hkind
  split at h
  · cases h
  · next hc =>
    cases h
    exact ⟨lt_size_of_node? hn, hc, rfl⟩

/-- Children that have all found a place are distinct, and none of them had a place before. -/
theorem foldlM_placeOnce_eq_ok {p : Place} {cs placed placed' : List NodeId}
    (h : cs.foldlM (t.placeOnce p) placed = .ok placed') (hnodup : placed.Nodup) :
    placed' = cs.reverse ++ placed ∧ placed'.Nodup ∧ ∀ c ∈ cs, c < t.size := by
  induction cs generalizing placed with
  | nil =>
    cases h
    exact ⟨rfl, hnodup, by simp⟩
  | cons c cs ih =>
    rw [List.foldlM_cons] at h
    obtain ⟨next, hnext, h⟩ := bind_eq_ok.1 h
    obtain ⟨hlt, hc, rfl⟩ := placeOnce_eq_ok hnext
    obtain ⟨heq, hnodup, hcs⟩ := ih h (List.nodup_cons.2 ⟨hc, hnodup⟩)
    exact ⟨by simpa using heq, hnodup, by simpa using ⟨hlt, hcs⟩⟩

theorem sound_checkAssignment {d d' : Draft} {a : Assignment} (h : d.Sound t k)
    (hd : t.checkAssignment k d a = .ok d') : d'.Sound t k := by
  obtain ⟨p, hp, hd⟩ := bind_eq_ok.1 hd
  obtain ⟨hp, hcat⟩ := Kind.resolve_eq_ok.1 hp
  rw [List.mem_singleton] at hcat
  cases a with
  | child field c =>
    obtain ⟨placed, hplaced, hd⟩ := bind_eq_ok.1 hd
    obtain ⟨hlt, hc, rfl⟩ := placeOnce_eq_ok hplaced
    cases hd
    exact h.add hp [c] rfl (List.nodup_cons.2 ⟨hc, h.nodup⟩) (by simpa using hlt) rfl
      fun _ => List.mem_singleton.2 rfl
  | children field cs =>
    obtain ⟨placed, hplaced, hd⟩ := bind_eq_ok.1 hd
    obtain ⟨hplaced, hnodup, hcs⟩ := foldlM_placeOnce_eq_ok hplaced h.nodup
    cases hd
    refine h.add hp cs hplaced hnodup hcs (Change.flatMap_nodes_append field cs) fun hlist => ?_
    rw [← Field.isList_category, hcat] at hlist
    cases hlist
  | data field v =>
    obtain ⟨_, -, hd⟩ := bind_eq_ok.1 hd
    cases hd
    exact h.add hp [] rfl h.nodup (by simp) rfl fun _ => List.mem_singleton.2 rfl
  | values field vs =>
    obtain ⟨_, -, hd⟩ := bind_eq_ok.1 hd
    cases hd
    refine h.add hp [] rfl h.nodup (by simp) (Change.flatMap_nodes_push field vs)
      fun hlist => ?_
    rw [← Field.isList_category, hcat] at hlist
    cases hlist
  | raw field text =>
    obtain ⟨v, -, hd⟩ := bind_eq_ok.1 hd
    cases hd
    exact h.add hp [] rfl h.nodup (by simp) rfl fun _ => List.mem_singleton.2 rfl

theorem sound_foldlM {as : List Assignment} {d d' : Draft} (h : d.Sound t k)
    (hd : as.foldlM (t.checkAssignment k) d = .ok d') : d'.Sound t k := by
  induction as generalizing d with
  | nil =>
    cases hd
    exact h
  | cons a as ih =>
    rw [List.foldlM_cons] at hd
    obtain ⟨next, hnext, hd⟩ := bind_eq_ok.1 hd
    exact ih (sound_checkAssignment h hnext) hd

theorem nodes_checkAssignment {d d' : Draft} {a : Assignment}
    (hd : t.checkAssignment k d a = .ok d') :
    d'.changes.flatMap Change.nodes = d.changes.flatMap Change.nodes ++ a.nodes := by
  obtain ⟨p, -, hd⟩ := bind_eq_ok.1 hd
  cases a with
  | child field c =>
    obtain ⟨placed, -, hd⟩ := bind_eq_ok.1 hd
    cases hd
    simp [Change.nodes, Assignment.nodes]
  | children field cs =>
    obtain ⟨placed, -, hd⟩ := bind_eq_ok.1 hd
    cases hd
    simp [Change.flatMap_nodes_append, Assignment.nodes]
  | data field v =>
    obtain ⟨_, -, hd⟩ := bind_eq_ok.1 hd
    cases hd
    simp [Change.nodes, Assignment.nodes]
  | values field vs =>
    obtain ⟨_, -, hd⟩ := bind_eq_ok.1 hd
    cases hd
    simp [Change.flatMap_nodes_push, Assignment.nodes]
  | raw field text =>
    obtain ⟨v, -, hd⟩ := bind_eq_ok.1 hd
    cases hd
    simp [Change.nodes, Assignment.nodes]

theorem nodes_foldlM {as : List Assignment} {d d' : Draft}
    (hd : as.foldlM (t.checkAssignment k) d = .ok d') :
    d'.changes.flatMap Change.nodes =
      d.changes.flatMap Change.nodes ++ as.flatMap Assignment.nodes := by
  induction as generalizing d with
  | nil =>
    cases hd
    simp
  | cons a as ih =>
    rw [List.foldlM_cons] at hd
    obtain ⟨next, hnext, hd⟩ := bind_eq_ok.1 hd
    rw [ih hd, nodes_checkAssignment hnext, List.flatMap_cons, List.append_assoc]

/-- The changes of a build move the assigned nodes, in the order of the assignments. -/
theorem nodes_draft {as : List Assignment} {changes : List Change}
    (h : t.draft k as = .ok changes) :
    changes.flatMap Change.nodes = as.flatMap Assignment.nodes := by
  obtain ⟨d, hd, h⟩ := bind_eq_ok.1 h
  cases hungiven : ungiven? k d.assigned with
  | some f => simp [hungiven] at h
  | none =>
    simp only [hungiven, Except.ok.injEq] at h
    subst h
    simpa using nodes_foldlM hd

/-- A build that passes its checks moves old nodes only, each of them once, and gives every field
that it has to give. -/
theorem draft_eq_ok {as : List Assignment} {changes : List Change}
    (h : t.draft k as = .ok changes) :
    (changes.flatMap Change.nodes).Nodup ∧ (∀ c ∈ changes.flatMap Change.nodes, c < t.size) ∧
      ∀ f ∈ k.fields, f.decl.mustBeGiven = true → f.name ∈ changes.map Change.field := by
  obtain ⟨d, hd, h⟩ := bind_eq_ok.1 h
  have hempty : Draft.Sound t k ⟨[], [], []⟩ := ⟨.nil, by simp, .nil, by simp⟩
  have hsound : d.Sound t k := sound_foldlM hempty hd
  cases hungiven : ungiven? k d.assigned with
  | some f => simp [hungiven] at h
  | none =>
    simp only [hungiven, Except.ok.injEq] at h
    subst h
    refine ⟨hsound.nodes.nodup_iff.2 hsound.nodup,
      fun c hc => hsound.known c (hsound.nodes.mem_iff.1 hc), fun f hf hgiven => ?_⟩
    obtain ⟨i, hi⟩ := List.getElem?_of_mem hf
    have hall := List.find?_eq_none.1 (Option.map_eq_none_iff.1 hungiven) (f, i)
      (List.mem_zipIdx_iff_getElem?.2 hi)
    have hassigned : i ∈ d.assigned := by simpa [hgiven] using hall
    have hlist : f.decl.isList = false := by
      unfold FieldDecl.mustBeGiven at hgiven
      simp_all
    exact hsound.assigned i hassigned f hi hlist

end Tree

end Drafts

/-! ## Carrying out changes -/

section Changes

variable {σ : Signature} {t t' : Tree σ}

/-- What the change does to all slots: it takes the moved node out of every slot, and then it puts
into the slot of its field what it has for it. -/
def Change.Puts (ch : Change) (id : NodeId) (p : Place) (t t' : Tree σ) : Prop :=
  ∀ x j, t'.slot? x j = (t.slot? x j).map fun s =>
    if id = x ∧ p.index = j then ch.put (s.withoutAll ch.nodes) else s.withoutAll ch.nodes

/-- What a change of the node `id` comes to: one step, which puts something into the place `p`. -/
structure Change.Done (ch : Change) (id : NodeId) (p : Place) (t t' : Tree σ) : Prop where
  step : t.Step t'
  size : t'.size = t.size
  place : ∃ n, p.Of t id n
  name : p.field.name = ch.field
  category : p.field.category = ch.category
  puts : ch.Puts id p t t'

theorem Change.puts_append (hf : t.Forest) {v : ListView} {held : List NodeId}
    (hs : v.slot? t = some (.children held)) (field : String) (c : NodeId) :
    (append field c).Puts v.binding.target v.place t (v.putAt t (v.lengthWithout t c) c) := by
  intro x j
  rw [ListView.slot?_putAt hf hs]
  refine Option.map_congr fun s hslot => ?_
  by_cases hplace : v.binding.target = x ∧ v.place.index = j
  · obtain ⟨rfl, rfl⟩ := hplace
    obtain rfl : .children held = s := Option.some.inj (hs.symm.trans hslot)
    rw [if_pos ⟨rfl, rfl⟩, if_pos ⟨rfl, rfl⟩, ListView.lengthWithout_eq hf hs,
      List.insertIdx_length_self]
    rfl
  · rw [if_neg hplace, if_neg hplace]
    rfl

theorem Change.puts_push {v : ListView} {held : List Value}
    (hs : v.slot? t = some (.values held)) (field : String) (x : Value) :
    (push field x).Puts v.binding.target v.place t (v.putValues t (v.values t ++ [x])) := by
  intro y j
  rw [ListView.putValues, Tree.slot?_setSlot, ListView.values_of_slot? hs]
  refine Option.map_congr fun s hslot => ?_
  by_cases hplace : v.binding.target = y ∧ v.place.index = j
  · obtain ⟨rfl, rfl⟩ := hplace
    obtain rfl : .values held = s := Option.some.inj (hs.symm.trans hslot)
    rw [if_pos ⟨rfl, rfl⟩, if_pos ⟨rfl, rfl⟩]
    rfl
  · rw [if_neg hplace, if_neg hplace]
    rfl

/-- A successful change does to the tree what `Change.Done` says. -/
theorem Edit.change_done (hconf : t.Conforms) (h : t.Forest) {id : NodeId} {ch : Change} {u : Unit}
    (hrun : Edit.change id ch t = .ok u t') : ∃ p, ch.Done id p t t' := by
  cases ch with
  | setChild field c =>
    obtain ⟨p, hp, hc, rfl⟩ := Edit.setChild_eq_ok.1 hrun
    obtain ⟨hof, hname, hcat⟩ := Tree.locate_eq_ok hp
    obtain ⟨held, hslot, -⟩ := hconf.exists_child hp
    exact ⟨p, .putChild hp hc, t.size_putChild _ _ _, hof, hname, List.mem_singleton.1 hcat,
      h.slot?_putChild hslot c⟩
  | append field c =>
    obtain ⟨v, hv, hrun⟩ := Edit.ask_bind_eq_ok.1 hrun
    obtain ⟨hcheck, rfl⟩ := ListView.addToEnd_eq_ok.1 hrun
    have hself := Tree.openList_self hv
    have hlist := (ListView.checkInsert_eq_ok.1 hcheck).1
    obtain ⟨held, hs⟩ := ListView.isChildList_eq_true.1 hlist
    obtain ⟨hb, hp⟩ := Tree.openList_eq_ok.1 hv
    obtain ⟨hof, hname, -⟩ := Tree.locate_eq_ok hp
    have hputs := Change.puts_append h hs field c
    rw [hb] at hputs
    exact ⟨v.place, .putAt hself hcheck, by simp [ListView.putAt], hof, hname,
      ListView.category_of_isChildList hconf hself hlist, hputs⟩
  | setData field v =>
    obtain ⟨p, hp, hv, rfl⟩ := Edit.setData_eq_ok.1 hrun
    obtain ⟨hof, hname, hcat⟩ := Tree.locate_eq_ok hp
    exact ⟨p, .putData hp hv, t.size_setSlot _ _ _, hof, hname, List.mem_singleton.1 hcat,
      fun x j => t.slot?_setSlot id x p.index j _⟩
  | push field x =>
    obtain ⟨v, hv, hrun⟩ := Edit.ask_bind_eq_ok.1 hrun
    obtain ⟨hl, hx, rfl⟩ := ListView.pushValue_eq_ok.1 hrun
    have hself := Tree.openList_self hv
    obtain ⟨held, hs⟩ := ListView.slot?_of_checkDataList hconf hself hl
    obtain ⟨hb, hp⟩ := Tree.openList_eq_ok.1 hv
    obtain ⟨hof, hname, -⟩ := Tree.locate_eq_ok hp
    have hputs := Change.puts_push hs field x
    rw [hb] at hputs
    exact ⟨v.place, .pushValue hself hl hx, t.size_setSlot _ _ _, hof, hname,
      (ListView.holds_of_checkDataList hconf hself hl).1, hputs⟩

namespace Change.Done

variable {ch : Change} {id : NodeId} {p : Place}

/-- A change of a single field fills it. -/
theorem filled (h : ch.Done id p t t') (hconf : t.Conforms)
    (hlist : p.field.decl.isList = false) :
    ∃ s, t'.slot? id p.index = some s ∧ s.isFilled = true := by
  obtain ⟨n, hof⟩ := h.place
  obtain ⟨s, hs, -⟩ := hconf.slot?_of hof
  refine ⟨ch.put (s.withoutAll ch.nodes), by rw [h.puts, hs]; simp, ?_⟩
  rw [← Field.isList_category, h.category] at hlist
  cases ch with
  | setChild field c => rfl
  | setData field v => rfl
  | append field c => cases hlist
  | push field v => cases hlist

/-- The changed field holds what it held and what the change moves, at most. -/
theorem held (h : ch.Done id p t t') {s : Slot} (hs : t'.slot? id p.index = some s) {c : NodeId}
    (hc : c ∈ s.nodes) : c ∈ ch.nodes ∨ c ∈ t.childNodes id := by
  rw [h.puts] at hs
  obtain ⟨old, hold, rfl⟩ := Option.map_eq_some_iff.1 hs
  rw [if_pos ⟨rfl, rfl⟩] at hc
  cases ch with
  | setChild field x => exact .inl (by simpa [put, Slot.nodes, nodes] using hc)
  | append field x =>
    rcases List.mem_append.1 hc with hc | hc
    · have hmem := Slot.mem_nodes_of_childList hc
      rw [Slot.nodes_withoutAll] at hmem
      exact .inr (Tree.mem_childNodes.2 ⟨_, _, hold, List.mem_of_mem_filter hmem⟩)
    · exact .inl hc
  | setData field v => cases hc
  | push field v => cases hc

/-- Any other slot stays as it is, unless it loses a node that the change moves. -/
theorem frame (h : ch.Done id p t t') {x : NodeId} {j : Nat} (hplace : ¬ (id = x ∧ p.index = j))
    (hnot : ∀ c ∈ ch.nodes, c ∉ t.childNodes x) : t'.slot? x j = t.slot? x j := by
  rw [h.puts]
  cases hs : t.slot? x j with
  | none => rfl
  | some s =>
    have hkept : s.withoutAll ch.nodes = s := Slot.withoutAll_of_not_mem fun c hc hmem =>
      hnot c hc (Tree.mem_childNodes.2 ⟨j, s, hs, hmem⟩)
    rw [Option.map_some, if_neg hplace, hkept]

end Change.Done

/-- What holds while a build carries out its changes, where `t₀` is the tree with the fresh nodes.
The changes so far have given the fields `done` and moved the nodes `placed`. -/
structure Building (t₀ t : Tree σ) (base : NodeId) (kind : KindId) (done : List String)
    (placed : List NodeId) : Prop where
  conforms : t.Conforms
  forest : t.Forest
  kept : t₀.KindsKept t
  size : t.size = t₀.size
  nested : ∀ x, base < x → ∀ j, t.slot? x j = t₀.slot? x j
  held : ∀ c ∈ t.childNodes base, c ∈ placed ∨ base < c
  filled : ∀ (i : Nat) f, (σ.fields kind)[i]? = some f → f.decl.isList = false →
    f.name ∈ done ∨ f.decl.initial.isSome = true →
    ∃ s, t.slot? base i = some s ∧ s.isFilled = true

/-- No change of a build moves a node that an earlier one has moved. -/
theorem Change.nodup_cons {ch : Change} {changes : List Change} {placed : List NodeId}
    (h : ((ch :: changes).flatMap Change.nodes ++ placed).Nodup) :
    (∀ c ∈ ch.nodes, c ∉ placed) ∧
      (changes.flatMap Change.nodes ++ (ch.nodes ++ placed)).Nodup := by
  rw [List.flatMap_cons] at h
  have hperm : (ch.nodes ++ changes.flatMap Change.nodes ++ placed).Perm
      (changes.flatMap Change.nodes ++ (ch.nodes ++ placed)) := by
    rw [← List.append_assoc]
    exact List.perm_append_comm.append_right placed
  exact ⟨fun c hc hp => (List.nodup_append.1 h).2.2 c (List.mem_append_left _ hc) c hp rfl,
    hperm.nodup_iff.1 h⟩

/-- The node `base` and the nodes behind it hold only nodes behind it. -/
def Tree.HoldsBehind (t : Tree σ) (base : NodeId) : Prop :=
  ∀ x, base ≤ x → ∀ c ∈ t.childNodes x, base < c

namespace Building

variable {t₀ : Tree σ} {base : NodeId} {kind : KindId} {done : List String} {placed : List NodeId}

/-- A node that is still to be moved is not in a slot of the fresh nodes. -/
theorem not_mem_childNodes (h : Building t₀ t base kind done placed) (h₀ : t₀.HoldsBehind base)
    {x c : NodeId} (hx : base ≤ x) (hold : c < base) (hplaced : c ∉ placed) :
    c ∉ t.childNodes x := by
  intro hc
  have hbehind : ¬ base < c := Nat.lt_asymm hold
  rcases Nat.eq_or_lt_of_le hx with rfl | hlt
  · rcases h.held c hc with hc | hc
    · exact hplaced hc
    · exact hbehind hc
  · obtain ⟨j, s, hs, hc⟩ := Tree.mem_childNodes.1 hc
    rw [h.nested x hlt] at hs
    exact hbehind (h₀ x hx c (Tree.mem_childNodes.2 ⟨j, s, hs, hc⟩))

/-- The place of a changed field, in the kind of the new node. -/
theorem field_of_place (h : Building t₀ t base kind done placed) (hkind : t₀.IsKind kind base)
    {p : Place} (hp : ∃ n, p.Of t base n) : (σ.fields kind)[p.index]? = some p.field := by
  obtain ⟨n, hof⟩ := hp
  obtain ⟨n₀, hn₀, rfl⟩ := hkind
  obtain ⟨n', hn', hkind⟩ := h.kept base n₀ hn₀
  obtain rfl : n = n' := Option.some.inj (hof.node.symm.trans hn')
  exact hkind ▸ hof.field

/-- One change of a build gives one more field and moves nothing that was moved before. -/
theorem change (hσ : σ.Resolved) (h : Building t₀ t base kind done placed)
    (h₀ : t₀.HoldsBehind base) (hkind : t₀.IsKind kind base) {ch : Change}
    (hold : ∀ c ∈ ch.nodes, c < base) (hplaced : ∀ c ∈ ch.nodes, c ∉ placed) {u : Unit}
    (hrun : Edit.change base ch t = .ok u t') :
    Building t₀ t' base kind (ch.field :: done) (ch.nodes ++ placed) := by
  obtain ⟨p, hdone⟩ := Edit.change_done h.conforms h.forest hrun
  -- The moved nodes are old and not yet placed, so no fresh node loses one of them.
  have hframe : ∀ x, base ≤ x → ∀ j, ¬ (base = x ∧ p.index = j) → t'.slot? x j = t.slot? x j :=
    fun x hx j hplace => hdone.frame hplace fun c hc =>
      h.not_mem_childNodes h₀ hx (hold c hc) (hplaced c hc)
  have hfield := h.field_of_place hkind hdone.place
  refine ⟨hdone.step.conforms hσ h.conforms, hdone.step.forest h.conforms h.forest,
    h.kept.trans hdone.step.kindsKept, hdone.size.trans h.size, fun x hx j => ?_, fun c hc => ?_,
    fun i f hf hlist hgiven => ?_⟩
  · have hne : ¬ (base = x ∧ p.index = j) := fun hplace => Nat.ne_of_lt hx hplace.1
    rw [hframe x (Nat.le_of_lt hx) j hne, h.nested x hx]
  · obtain ⟨j, s, hs, hc⟩ := Tree.mem_childNodes.1 hc
    have hcases : c ∈ ch.nodes ∨ c ∈ t.childNodes base := by
      by_cases hj : p.index = j
      · subst hj
        exact hdone.held hs hc
      · rw [hframe base (Nat.le_refl _) j fun hplace => hj hplace.2] at hs
        exact .inr (Tree.mem_childNodes.2 ⟨j, s, hs, hc⟩)
    rcases hcases with hc | hc
    · exact .inl (List.mem_append_left _ hc)
    · exact (h.held c hc).imp_left (List.mem_append_right _)
  · by_cases hi : p.index = i
    · subst hi
      obtain rfl : p.field = f := Option.some.inj (hfield.symm.trans hf)
      exact hdone.filled h.conforms hlist
    · rw [hframe base (Nat.le_refl _) i fun hplace => hi hplace.2]
      refine h.filled i f hf hlist (hgiven.imp_left fun hname => ?_)
      rcases List.mem_cons.1 hname with hname | hname
      · exact absurd (hσ.index_eq hfield hf (hdone.name.trans hname.symm)) hi
      · exact hname

/-- The changes of a build together give all their fields. -/
theorem forM (hσ : σ.Resolved) (h : Building t₀ t base kind done placed)
    (h₀ : t₀.HoldsBehind base) (hkind : t₀.IsKind kind base) {changes : List Change}
    (hold : ∀ c ∈ changes.flatMap Change.nodes, c < base)
    (hnodup : (changes.flatMap Change.nodes ++ placed).Nodup) {u : PUnit}
    (hrun : changes.forM (Edit.change base) t = .ok u t') :
    ∃ placed', Building t₀ t' base kind ((changes.map Change.field).reverse ++ done) placed' := by
  induction changes generalizing t done placed with
  | nil =>
    cases hrun
    exact ⟨placed, h⟩
  | cons ch changes ih =>
    obtain ⟨_, t₁, hch, hrun⟩ := Edit.bind_eq_ok.1 hrun
    obtain ⟨hplaced, hnodup⟩ := Change.nodup_cons hnodup
    rw [List.flatMap_cons] at hold
    have h₁ := h.change hσ h₀ hkind (fun c hc => hold c (List.mem_append_left _ hc)) hplaced hch
    obtain ⟨placed', h'⟩ := ih h₁ (fun c hc => hold c (List.mem_append_right _ hc)) hnodup hrun
    exact ⟨placed', by simpa using h'⟩

end Building

/-! ## Builds -/

namespace Tree

theorem node?_alloc_of_ge {kind : KindId} {root : Node} {below : List Node}
    (hblock : σ.freshBlock σ.kinds.length none t.size kind = root :: below) :
    (t.alloc kind).node? t.size = some root ∧ (t.alloc kind).size = t.size + 1 + below.length ∧
      ∀ j < below.length, (t.alloc kind).node? (t.size + 1 + j) = below[j]? := by
  have hs : (t.alloc kind).Stands t.size (root :: below) := by
    rw [alloc_eq_extend, hblock]
    exact stands_extend _
  refine ⟨hs.head, ?_, hs.tail⟩
  rw [alloc_eq_extend, hblock, size_extend, List.length_cons]
  omega

theorem holdsBehind_alloc (kind : KindId) : (t.alloc kind).HoldsBehind t.size := by
  intro x hx c hc
  have hlt := lt_size_of_mem_childNodes hc
  rw [alloc_eq_extend, size_extend] at hlt
  have hgrove := grove_freshBlock σ σ.kinds.length none t.size kind
  have hxc := (hgrove.parent?_of_mem_childNodes (stands_extend _) hx hlt hc).1
  exact Nat.lt_of_le_of_lt hx hxc

/-- A build starts from the tree with its fresh nodes. -/
theorem building_alloc (hσ : σ.Resolved) (hconf : t.Conforms) (h : t.Forest) {kind : KindId}
    (hkind : kind < σ.kinds.length) {root : Node} (hroot : (t.alloc kind).node? t.size = some root)
    (hrootkind : root.kind = kind) (hinit : root.Initial σ) :
    Building (t.alloc kind) (t.alloc kind) t.size kind [] [] := by
  have hstep : t.Step (t.alloc kind) := .alloc hkind
  refine ⟨hstep.conforms hσ hconf, hstep.forest hconf h, .refl _, rfl, fun _ _ _ => rfl,
    fun c hc => .inr (holdsBehind_alloc kind _ (Nat.le_refl _) c hc), fun i f hf _ hgiven => ?_⟩
  obtain ⟨s, hs, hfilled⟩ := hinit.isFilled hσ (hrootkind ▸ hf)
  rw [slot?_of_node? hroot]
  refine ⟨s, hs, hfilled.trans ?_⟩
  simpa using hgiven

end Tree

/-- A build succeeds exactly if its kind is known, its checks pass and all its changes succeed. -/
theorem Edit.build_eq_ok_iff {name : String} {as : List Assignment} {id : NodeId} :
    Edit.build name as t = .ok id t' ↔
      ∃ kind k changes, σ.kindNamed? name = some (kind, k) ∧ t.draft k as = .ok changes ∧
        id = t.size ∧ changes.forM (Edit.change t.size) (t.alloc kind) = .ok ⟨⟩ t' := by
  constructor
  · intro h
    obtain ⟨⟨kind, k⟩, hfound, hrest⟩ := Edit.ask_bind_eq_ok.1 h
    obtain ⟨changes, hdraft, hrest⟩ := Edit.ask_bind_eq_ok.1 hrest
    obtain ⟨_, _, halloc, hrest⟩ := Edit.bind_eq_ok.1 hrest
    cases halloc
    obtain ⟨_, _, hrun, hrest⟩ := Edit.bind_eq_ok.1 hrest
    cases hrest
    cases hkind : σ.kindNamed? name with
    | none => simp [hkind] at hfound
    | some found =>
      simp only [hkind, Except.ok.injEq] at hfound
      exact ⟨kind, k, changes, by rw [hfound], hdraft, rfl, hrun⟩
  · rintro ⟨kind, k, changes, hkind, hdraft, rfl, hrun⟩
    refine Edit.ask_bind_eq_ok.2 ⟨(kind, k), by rw [hkind], ?_⟩
    refine Edit.ask_bind_eq_ok.2 ⟨changes, hdraft, ?_⟩
    refine Edit.bind_eq_ok.2 ⟨t.size, t.alloc kind, rfl, ?_⟩
    exact Edit.bind_eq_ok.2 ⟨⟨⟩, t', hrun, rfl⟩

/-- What a successful build has gone through. -/
theorem Edit.build_eq_ok {name : String} {as : List Assignment} {id : NodeId}
    (h : Edit.build name as t = .ok id t') :
    ∃ kind k changes, σ.kinds[kind]? = some k ∧ k.name = name ∧ t.draft k as = .ok changes ∧
      id = t.size ∧ changes.forM (Edit.change t.size) (t.alloc kind) = .ok ⟨⟩ t' := by
  obtain ⟨kind, k, changes, hkind, hdraft, hid, hrun⟩ := Edit.build_eq_ok_iff.1 h
  obtain ⟨hk, hname⟩ := Signature.kindNamed?_eq_some hkind
  exact ⟨kind, k, changes, hk, hname, hdraft, hid, hrun⟩

end Changes

end Arbor
