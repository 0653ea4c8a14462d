import Arbor.Proofs.Assigned

/-!
# Built nodes

What a successful build leaves behind. A single field of the new node holds what was assigned to it
last, or else its initial value; a list holds all that was assigned to it, in order. Old nodes lose
the assigned children and are otherwise as they were. A child that was assigned and then replaced,
and an initial node that was replaced, are roots.
-/

namespace Arbor

/-! ## What a field is given -/

namespace Slot

def category : Slot → Category
  | child _ => .singleChild
  | children _ => .listChild
  | data _ => .singleData
  | values _ => .listData

/-- The slot after nodes or values have been given to it one by one: a single slot holds the last of
them, a list holds all of them. -/
def given (cs : List NodeId) (vs : List Value) : Slot → Slot
  | child held => child (cs.getLast?.or held)
  | children held => children (held ++ cs)
  | data held => data (vs.getLast?.or held)
  | values held => values (held ++ vs)

end Slot

namespace Change

/-- The value that a change stores. -/
def values : Change → List Value
  | setData _ v | push _ v => [v]
  | setChild .. | append .. => []

/-- Of changes that each replace what the slot holds the last one counts. -/
theorem foldl_put_last {α : Type} (wrap : Option α → Slot) (given : Change → List α)
    {chs : List Change}
    (h : ∀ ch ∈ chs, ∃ a, given ch = [a] ∧ ∀ s, ch.put s = wrap (some a)) (held : Option α) :
    chs.foldl (fun s ch => ch.put s) (wrap held) =
      wrap ((chs.flatMap given).getLast?.or held) := by
  induction chs generalizing held with
  | nil => rfl
  | cons ch chs ih =>
    obtain ⟨⟨a, hgiven, hput⟩, hchs⟩ := List.forall_mem_cons.1 h
    rw [List.foldl_cons, hput, ih hchs, List.flatMap_cons, hgiven, List.singleton_append,
      List.getLast?_cons]
    cases (chs.flatMap given).getLast? <;> rfl

/-- Of changes that each add to what the slot holds all count. -/
theorem foldl_put_all {α : Type} (wrap : List α → Slot) (given : Change → List α)
    {chs : List Change} (h : ∀ ch ∈ chs, ∀ held, ch.put (wrap held) = wrap (held ++ given ch))
    (held : List α) :
    chs.foldl (fun s ch => ch.put s) (wrap held) = wrap (held ++ chs.flatMap given) := by
  induction chs generalizing held with
  | nil => simp
  | cons ch chs ih =>
    obtain ⟨hch, hchs⟩ := List.forall_mem_cons.1 h
    rw [List.foldl_cons, hch, ih hchs, List.flatMap_cons, List.append_assoc]

/-- What changes of the same category make of a slot of this category. -/
theorem foldl_put {chs : List Change} {s : Slot} (h : ∀ ch ∈ chs, ch.category = s.category) :
    chs.foldl (fun s ch => ch.put s) s = s.given (chs.flatMap nodes) (chs.flatMap values) := by
  cases s with
  | child held =>
    refine foldl_put_last .child nodes (fun ch hch => ?_) held
    cases ch with
    | setChild field c => exact ⟨c, rfl, fun _ => rfl⟩
    | _ => cases h _ hch
  | children held =>
    refine foldl_put_all .children nodes (fun ch hch held => ?_) held
    cases ch with
    | append field c => rfl
    | _ => cases h _ hch
  | data held =>
    refine foldl_put_last .data values (fun ch hch => ?_) held
    cases ch with
    | setData field v => exact ⟨v, rfl, fun _ => rfl⟩
    | _ => cases h _ hch
  | values held =>
    refine foldl_put_all .values values (fun ch hch held => ?_) held
    cases ch with
    | push field v => rfl
    | _ => cases h _ hch

end Change

namespace Assignment

/-- The values that an assignment stores, texts as they are read. -/
def storedValues (k : Kind) : Assignment → List Value
  | data _ v => [v]
  | values _ vs => vs
  | raw field text => (k.decoded? field text).toList
  | child .. | children .. => []

/-- The nodes that the assignments give to a field, in order. -/
def nodesFor (field : String) (as : List Assignment) : List NodeId :=
  (as.filter (·.field = field)).flatMap nodes

/-- The values that the assignments give to a field of the kind, in order. -/
def valuesFor (k : Kind) (field : String) (as : List Assignment) : List Value :=
  (as.filter (·.field = field)).flatMap (storedValues k)

variable {k : Kind}

theorem nodes_changes (a : Assignment) : (a.changes k).flatMap Change.nodes = a.nodes := by
  cases a with
  | child field c => rfl
  | children field cs => exact Change.flatMap_nodes_append field cs
  | data field v => rfl
  | values field vs => exact Change.flatMap_nodes_push field vs
  | raw field text =>
    rw [changes]
    cases k.decoded? field text <;> rfl

theorem values_changes (a : Assignment) :
    (a.changes k).flatMap Change.values = a.storedValues k := by
  cases a with
  | child field c => rfl
  | children field cs => simp [changes, storedValues, Change.values, List.flatMap_map]
  | data field v => rfl
  | values field vs => simp [changes, storedValues, Change.values, List.flatMap_map]
  | raw field text => simp [changes, storedValues, Change.values, List.flatMap_map]

/-- The changes of a field are those of the assignments to it. -/
theorem filter_changes (field : String) (as : List Assignment) :
    (as.flatMap (changes k)).filter (·.field = field) =
      (as.filter (·.field = field)).flatMap (changes k) := by
  induction as with
  | nil => rfl
  | cons a as ih =>
    rw [List.flatMap_cons, List.filter_append, ih]
    by_cases ha : a.field = field
    · rw [List.filter_cons_of_pos (by simpa using ha), List.flatMap_cons,
        List.filter_eq_self.2 fun ch hch => by simpa [(mem_changes hch).1] using ha]
    · rw [List.filter_cons_of_neg (by simpa using ha),
        List.filter_eq_nil_iff.2 fun ch hch => by simpa [(mem_changes hch).1] using ha,
        List.nil_append]

theorem nodes_filter_changes (field : String) (as : List Assignment) :
    ((as.flatMap (changes k)).filter (·.field = field)).flatMap Change.nodes =
      nodesFor field as := by
  rw [filter_changes, List.flatMap_assoc, nodesFor]
  simp only [nodes_changes]

theorem values_filter_changes (field : String) (as : List Assignment) :
    ((as.flatMap (changes k)).filter (·.field = field)).flatMap Change.values =
      valuesFor k field as := by
  rw [filter_changes, List.flatMap_assoc, valuesFor]
  simp only [values_changes]

end Assignment

/-! ## What a new node starts with -/

section Starts

variable {σ : Signature} {t : Tree σ}

/-- Every field of a new node holds its initial value. -/
theorem Tree.startsWith_alloc {kid : KindId} (hkid : kid < σ.kinds.length) {i : Nat} {f : Field}
    (hf : (σ.fields kid)[i]? = some f) :
    ∃ s, (t.alloc kid).slot? t.size i = some s ∧ f.StartsWith (t.alloc kid).IsKind s := by
  have hstands : (t.alloc kid).Stands t.size (σ.freshBlock σ.kinds.length none t.size kid) :=
    stands_extend _
  obtain ⟨bound, hbound⟩ := Nat.exists_eq_add_one_of_ne_zero (Nat.ne_zero_of_lt hkid)
  rw [hbound] at hstands
  obtain ⟨hids, -⟩ := stands_layOut hstands.tail
  rw [slot?_of_node? hstands.head]
  have hkinds := hids.imp fun _ _ hid => isKind_freshBlock hid
  exact forall₂_getElem? (startsWith_initialSlots hkinds) hf

end Starts

/-! ## The tree after a build -/

section Slots

variable {σ : Signature} {t t' : Tree σ} {kid : KindId} {k : Kind} {as : List Assignment}

theorem Slot.Conforms.category {f : Field} {s : Slot} (h : s.Conforms t f) :
    s.category = f.category := by
  cases s <;> exact h.1.symm

/-- The changes of a field are of the field's category. -/
theorem Tree.category_of_draft (hσ : σ.Resolved) (hk : σ.kinds[kid]? = some k)
    {changes : List Change} (hdraft : t.draft k as = .ok changes) {i : Nat} {f : Field}
    (hf : k.fields[i]? = some f) {ch : Change} (hch : ch ∈ changes) (hname : ch.field = f.name) :
    ch.category = f.category := by
  obtain ⟨hchecked, rfl⟩ := changes_of_draft hdraft
  obtain ⟨a, ha, hch⟩ := List.mem_flatMap.1 hch
  obtain ⟨p, hp⟩ := hchecked a ha
  obtain ⟨hfield, hcat, -⟩ := Assignment.mem_changes hch
  obtain ⟨hplace, hpcat⟩ := Kind.resolve_eq_ok.1 hp.place
  rw [← hfield, hname, hσ.place?_eq hk hf] at hplace
  obtain rfl := Option.some.inj hplace
  exact hcat.trans (List.mem_singleton.1 hpcat).symm

/-- What a successful build does to the slots: the fields of the new node are given what was
assigned to them, old nodes lose the assigned children, and the other fresh nodes stay as they
are. -/
structure Tree.BuiltSlots (t : Tree σ) (kid : KindId) (k : Kind) (as : List Assignment)
    (t' : Tree σ) : Prop where
  new : ∀ i f, k.fields[i]? = some f → ∃ start, (t.alloc kid).slot? t.size i = some start ∧
    f.StartsWith (t.alloc kid).IsKind start ∧ start.category = f.category ∧
    t'.slot? t.size i =
      some (start.given (Assignment.nodesFor f.name as) (Assignment.valuesFor k f.name as))
  fresh : ∀ x, t.size < x → ∀ j, t'.slot? x j = (t.alloc kid).slot? x j
  old : ∀ x, x < t.size → ∀ j,
    t'.slot? x j = (t.slot? x j).map (Slot.withoutAll (as.flatMap Assignment.nodes))

theorem Tree.builtSlots_of_forM (hσ : σ.Resolved) (hconf : t.Conforms) (hf : t.Forest)
    (hk : σ.kinds[kid]? = some k) {changes : List Change} (hdraft : t.draft k as = .ok changes)
    {u : PUnit} (hrun : changes.forM (Edit.change t.size) (t.alloc kid) = .ok u t') :
    t.BuiltSlots kid k as t' := by
  have hlt : kid < σ.kinds.length := (List.getElem?_eq_some_iff.1 hk).1
  obtain ⟨hstart, hkind, -⟩ := building_start hσ hconf hf hk
  obtain ⟨hnodup, hold, -⟩ := draft_eq_ok hdraft
  have hnodup : (changes.flatMap Change.nodes ++ []).Nodup := by simpa using hnodup
  have hbehind := holdsBehind_alloc (t := t) kid
  refine ⟨fun i f hi => ?_, fun x hx j => ?_, fun x hx j => ?_⟩
  · have hi' : (σ.fields kid)[i]? = some f := by rwa [Signature.fields_of_kinds hk]
    obtain ⟨start, hs, hstarts⟩ := startsWith_alloc (t := t) hlt hi'
    obtain ⟨root, hroot, hrootkind⟩ := hkind
    have hof : Place.Of (t.alloc kid) t.size ⟨k, i, f⟩ root :=
      ⟨hroot, hrootkind ▸ hk, hrootkind ▸ hi'⟩
    obtain ⟨s, hs', hsconf⟩ := hstart.conforms.slot?_of hof
    obtain rfl : start = s := Option.some.inj (hs.symm.trans hs')
    refine ⟨start, hs, hstarts, hsconf.category, ?_⟩
    have hcat : ∀ ch ∈ changes.filter (·.field = f.name), ch.category = start.category := by
      intro ch hch
      obtain ⟨hch, hname⟩ := List.mem_filter.1 hch
      exact (category_of_draft hσ hk hdraft hi hch (by simpa using hname)).trans
        hsconf.category.symm
    rw [hstart.slot?_forM hσ hbehind ⟨root, hroot, hrootkind⟩ hold hnodup hrun hi', hs,
      Option.map_some, Change.foldl_put hcat, (changes_of_draft hdraft).2,
      Assignment.nodes_filter_changes, Assignment.values_filter_changes]
  · obtain ⟨_, hend⟩ := hstart.forM hσ hbehind hkind hold hnodup hrun
    exact hend.nested x hx j
  · rw [slot?_forM_of_ne hσ hstart.conforms hstart.forest hrun (Nat.ne_of_gt hx),
      nodes_draft hdraft, alloc_eq_extend, slot?, slot?, node?_extend_of_lt _ hx]

/-- The node that a new node of the kind starts with in the field at a position. -/
def Tree.initialNode? (t : Tree σ) (kid : KindId) (i : Nat) : Option NodeId :=
  ((t.alloc kid).slot? t.size i).bind Slot.child?

def Field.initialValue? (f : Field) : Option Value :=
  match f.decl.initial with
  | some (.data v) => some v
  | _ => none

/-- Apart from the number of an initial node, the declaration says what a field starts with. -/
theorem Field.StartsWith.eq {P : KindId → NodeId → Prop} {f : Field} {s : Slot}
    (h : f.StartsWith P s) (hcat : s.category = f.category) :
    s = match f.category with
      | .singleChild => .child s.child?
      | .listChild => .children []
      | .singleData => .data f.initialValue?
      | .listData => .values [] := by
  unfold StartsWith at h
  split at h
  · obtain ⟨x, rfl, -⟩ := h
    rw [← hcat]
    rfl
  · next v _ hinit =>
    subst h
    rw [← hcat]
    simp [Slot.category, initialValue?, hinit]
  · next hdata =>
    subst h
    cases f.category with
    | singleData =>
      have hnone : f.initialValue? = none := by
        unfold initialValue?
        split
        · next v hv => exact absurd hv (hdata v)
        · rfl
      rw [hnone]
      rfl
    | _ => rfl

namespace Tree.BuiltSlots

/-- What the fields of the new node hold, by their categories. -/
theorem slot?_new (h : t.BuiltSlots kid k as t') {i : Nat} {f : Field}
    (hi : k.fields[i]? = some f) :
    t'.slot? t.size i = some (match f.category with
      | .singleChild => .child ((Assignment.nodesFor f.name as).getLast?.or (t.initialNode? kid i))
      | .listChild => .children (Assignment.nodesFor f.name as)
      | .singleData => .data ((Assignment.valuesFor k f.name as).getLast?.or f.initialValue?)
      | .listData => .values (Assignment.valuesFor k f.name as)) := by
  obtain ⟨start, hs, hstarts, hcat, hslot⟩ := h.new i f hi
  rw [hslot, hstarts.eq hcat, initialNode?, hs]
  cases f.category <;> simp [Slot.given]

/-- An old node holds what it held, apart from the assigned children. -/
theorem mem_childNodes_old (h : t.BuiltSlots kid k as t') {x c : NodeId} (hx : x < t.size) :
    c ∈ t'.childNodes x ↔ c ∈ t.childNodes x ∧ c ∉ as.flatMap Assignment.nodes := by
  rw [mem_childNodes, mem_childNodes]
  constructor
  · rintro ⟨j, s', hs', hc⟩
    rw [h.old x hx] at hs'
    obtain ⟨s, hs, rfl⟩ := Option.map_eq_some_iff.1 hs'
    rw [Slot.nodes_withoutAll] at hc
    obtain ⟨hc, hnot⟩ := List.mem_filter.1 hc
    exact ⟨⟨j, s, hs, hc⟩, by simpa using hnot⟩
  · rintro ⟨⟨j, s, hs, hc⟩, hnot⟩
    refine ⟨j, _, (h.old x hx j).trans (congrArg _ hs), ?_⟩
    rw [Slot.nodes_withoutAll]
    exact List.mem_filter.2 ⟨hc, by simpa using hnot⟩

/-- A node that the new node holds was assigned to a field of it, last if the field is single, or
nothing was assigned to the field and it starts with the node. -/
theorem mem_childNodes_new (h : t.BuiltSlots kid k as t') (hk : σ.kinds[kid]? = some k)
    (hconf : t'.Conforms) (hkind : t'.IsKind kid t.size) {c : NodeId}
    (hc : c ∈ t'.childNodes t.size) :
    ∃ i f, k.fields[i]? = some f ∧
      (c ∈ Assignment.nodesFor f.name as ∧
          (f.category = .singleChild → (Assignment.nodesFor f.name as).getLast? = some c) ∨
        Assignment.nodesFor f.name as = [] ∧ t.initialNode? kid i = some c) := by
  obtain ⟨i, s, hs, hc⟩ := mem_childNodes.1 hc
  obtain ⟨n, hn, rfl⟩ := hkind
  have hlen := (hconf t.size n hn).slots.length_eq
  rw [Signature.fields_of_kinds hk] at hlen
  rw [slot?_of_node? hn] at hs
  have hi : i < k.fields.length := hlen ▸ (List.getElem?_eq_some_iff.1 hs).1
  have hi := List.getElem?_eq_getElem hi
  refine ⟨i, _, hi, ?_⟩
  rw [← slot?_of_node? hn, h.slot?_new hi] at hs
  obtain rfl := Option.some.inj hs
  cases hcat : (k.fields[i]).category with
  | singleChild =>
    rw [hcat] at hc
    have hc : (Assignment.nodesFor (k.fields[i]).name as).getLast?.or (t.initialNode? n.kind i) =
        some c := Option.mem_toList.1 hc
    cases hlast : (Assignment.nodesFor (k.fields[i]).name as).getLast? with
    | none =>
      rw [hlast] at hc
      exact .inr ⟨List.getLast?_eq_none_iff.1 hlast, hc⟩
    | some d =>
      rw [hlast] at hc
      obtain rfl : d = c := Option.some.inj hc
      exact .inl ⟨List.mem_of_getLast? hlast, fun _ => rfl⟩
  | listChild =>
    rw [hcat] at hc
    exact .inl ⟨hc, by simp⟩
  | _ =>
    rw [hcat] at hc
    cases hc

end Tree.BuiltSlots

/-! ## Parents after a build -/

/-- What a successful build has gone through and does to the slots. -/
structure Tree.AfterBuild (t : Tree σ) (kid : KindId) (k : Kind) (as : List Assignment)
    (t' : Tree σ) : Prop extends t.BuiltSlots kid k as t' where
  declared : σ.kinds[kid]? = some k
  forest : t.Forest
  forestAlloc : (t.alloc kid).Forest
  conforms' : t'.Conforms
  forest' : t'.Forest
  kind : t'.IsKind kid t.size
  nodup : (as.flatMap Assignment.nodes).Nodup
  known : ∀ c ∈ as.flatMap Assignment.nodes, c < t.size

namespace Tree

theorem size_lt_initialNode? {i : Nat} {x : NodeId} (hx : t.initialNode? kid i = some x) :
    x ∈ (t.alloc kid).childNodes t.size ∧ t.size < x := by
  obtain ⟨s, hs, hchild⟩ := Option.bind_eq_some_iff.1 hx
  have hmem : x ∈ (t.alloc kid).childNodes t.size :=
    mem_childNodes.2 ⟨i, s, hs, Slot.mem_nodes_of_child? hchild⟩
  exact ⟨hmem, holdsBehind_alloc kid t.size (Nat.le_refl _) x hmem⟩

namespace AfterBuild

theorem mem_assigned {field : String} {c : NodeId} (hc : c ∈ Assignment.nodesFor field as) :
    c ∈ as.flatMap Assignment.nodes := by
  obtain ⟨a, ha, hc⟩ := List.mem_flatMap.1 hc
  exact List.mem_flatMap.2 ⟨a, List.mem_of_mem_filter ha, hc⟩

/-- A node has a parent after a build only if it is a child of an old node and was not assigned, or
is held by the new node, or was allocated below it. -/
theorem parent?_cases (h : t.AfterBuild kid k as t') {c x : NodeId} (hc : t'.parent? c = some x) :
    (x < t.size ∧ t.parent? c = some x ∧ c ∉ as.flatMap Assignment.nodes) ∨
      (x = t.size ∧ c ∈ t'.childNodes t.size) ∨
      (t.size < x ∧ (t.alloc kid).parent? c = some x ∧ t.size < c) := by
  have hmem := (h.forest'.owned x c).2 hc
  rcases Nat.lt_trichotomy x t.size with hx | rfl | hx
  · obtain ⟨hmem, hnot⟩ := (h.mem_childNodes_old hx).1 hmem
    exact .inl ⟨hx, (h.forest.owned x c).1 hmem, hnot⟩
  · exact .inr (.inl ⟨rfl, hmem⟩)
  · obtain ⟨j, s, hs, hc⟩ := mem_childNodes.1 hmem
    rw [h.fresh x hx] at hs
    have hmem := mem_childNodes.2 ⟨j, s, hs, hc⟩
    exact .inr (.inr ⟨hx, (h.forestAlloc.owned x c).1 hmem,
      holdsBehind_alloc kid x (Nat.le_of_lt hx) c hmem⟩)

/-- The new node is a root. -/
theorem parent?_new (h : t.AfterBuild kid k as t') : t'.parent? t.size = none := by
  refine Option.eq_none_iff_forall_ne_some.2 fun x hx => ?_
  rcases h.parent?_cases hx with ⟨-, hp, -⟩ | ⟨rfl, -⟩ | ⟨-, -, hlt⟩
  · exact Nat.lt_irrefl _ (lt_size_of_parent? hp)
  · exact h.forest'.acyclic t.size (.single hx)
  · exact Nat.lt_irrefl _ hlt

/-- An old node that was not assigned stays where it was. -/
theorem parent?_old (h : t.AfterBuild kid k as t') {c : NodeId} (hlt : c < t.size)
    (hnot : c ∉ as.flatMap Assignment.nodes) : t'.parent? c = t.parent? c := by
  refine Option.ext fun x => ⟨fun hx => ?_, fun hx => ?_⟩
  · rcases h.parent?_cases hx with ⟨-, hp, -⟩ | ⟨rfl, hmem⟩ | ⟨-, -, hgt⟩
    · exact hp
    · obtain ⟨i, f, hi, ⟨hc, -⟩ | ⟨-, hinit⟩⟩ :=
        h.mem_childNodes_new h.declared h.conforms' h.kind hmem
      · exact absurd (mem_assigned hc) hnot
      · exact absurd (size_lt_initialNode? hinit).2 (Nat.lt_asymm hlt)
    · exact absurd hgt (Nat.lt_asymm hlt)
  · refine (h.forest'.owned x c).1 ((h.mem_childNodes_old (h.forest.parentsExist c x hx)).2 ?_)
    exact ⟨(h.forest.owned x c).2 hx, hnot⟩

/-- A child that is replaced by a later assignment to its field ends as a root. -/
theorem parent?_replaced (h : t.AfterBuild kid k as t') {before after : List Assignment}
    {field : String} {c : NodeId} (has : as = before ++ .child field c :: after)
    (hlater : Assignment.nodesFor field after ≠ [])
    (hsingle : ∀ (i : Nat) (f : Field), k.fields[i]? = some f → f.name = field →
      f.category = .singleChild) :
    t'.parent? c = none := by
  have hnodes : as.flatMap Assignment.nodes =
      before.flatMap Assignment.nodes ++ c :: after.flatMap Assignment.nodes := by
    simp [has, Assignment.nodes]
  have hassigned : c ∈ as.flatMap Assignment.nodes := by simp [hnodes]
  have honce := h.nodup
  rw [hnodes, List.nodup_middle, List.nodup_cons, List.mem_append, not_or] at honce
  refine Option.eq_none_iff_forall_ne_some.2 fun x hx => ?_
  rcases h.parent?_cases hx with ⟨-, -, hnot⟩ | ⟨rfl, hmem⟩ | ⟨-, -, hgt⟩
  · exact hnot hassigned
  · obtain ⟨i, f, hi, ⟨hc, hlast⟩ | ⟨-, hinit⟩⟩ :=
      h.mem_childNodes_new h.declared h.conforms' h.kind hmem
    · by_cases hname : field = f.name
      · -- The last node that the field is given is one of those after `c`.
        have hfor : Assignment.nodesFor f.name as =
            Assignment.nodesFor f.name before ++ c :: Assignment.nodesFor f.name after := by
          simp [has, Assignment.nodesFor, Assignment.nodes, Assignment.field, hname]
        have hlast := hlast (hsingle i f hi hname.symm)
        rw [hfor, List.getLast?_append_of_ne_nil _ (List.cons_ne_nil _ _),
          List.getLast?_cons_of_ne_nil (hname ▸ hlater)] at hlast
        exact honce.1.2 (mem_assigned (List.mem_of_getLast? hlast))
      · have hfor : Assignment.nodesFor f.name as =
            Assignment.nodesFor f.name before ++ Assignment.nodesFor f.name after := by
          simp [has, Assignment.nodesFor, Assignment.field, hname]
        rw [hfor] at hc
        exact (List.mem_append.1 hc).elim (fun hc => honce.1.1 (mem_assigned hc))
          fun hc => honce.1.2 (mem_assigned hc)
    · exact Nat.lt_asymm (h.known c hassigned) (size_lt_initialNode? hinit).2
  · exact Nat.lt_asymm (h.known c hassigned) hgt

/-- An initial node that is replaced ends as a root. -/
theorem parent?_replacedInitial (h : t.AfterBuild kid k as t') {i : Nat} {f : Field}
    (hi : k.fields[i]? = some f) {x : NodeId} (hx : t.initialNode? kid i = some x)
    (hgiven : Assignment.nodesFor f.name as ≠ []) : t'.parent? x = none := by
  obtain ⟨hmem, hlt⟩ := size_lt_initialNode? hx
  have hparent := (h.forestAlloc.owned t.size x).1 hmem
  refine Option.eq_none_iff_forall_ne_some.2 fun y hy => ?_
  rcases h.parent?_cases hy with ⟨-, hp, -⟩ | ⟨rfl, hheld⟩ | ⟨hgt, hp, -⟩
  · exact Nat.lt_asymm hlt (lt_size_of_parent? hp)
  · obtain ⟨j, g, hj, ⟨hc, -⟩ | ⟨hnone, hinit⟩⟩ :=
      h.mem_childNodes_new h.declared h.conforms' h.kind hheld
    · exact Nat.lt_asymm hlt (h.known x (mem_assigned hc))
    · obtain ⟨s, hs, hsx⟩ := Option.bind_eq_some_iff.1 hx
      obtain ⟨s', hs', hsx'⟩ := Option.bind_eq_some_iff.1 hinit
      have hij := (h.forestAlloc.eq_place hs (Slot.mem_nodes_of_child? hsx) hs'
        (Slot.mem_nodes_of_child? hsx')).2
      obtain rfl : f = g := Option.some.inj ((hij ▸ hi).symm.trans hj)
      exact hgiven hnone
  · cases hparent.symm.trans hp
    exact Nat.lt_irrefl _ hgt

end AfterBuild

/-! ## Successful builds -/

/-- What a successful build of a node of the kind `k` leaves behind. -/
structure Built (t : Tree σ) (kid : KindId) (k : Kind) (as : List Assignment) (t' : Tree σ) :
    Prop where
  size : t'.size = (t.alloc kid).size
  kind : t'.IsKind kid t.size
  matched : ∀ a ∈ as, ∃ p, k.resolve a.field [a.category] = .ok p
  initial : ∀ (i : Nat) (f : Field), k.fields[i]? = some f →
    match f.initialKind with
    | some kind => ∃ x, t.initialNode? kid i = some x ∧ t.size < x ∧ t'.IsKind kind x
    | none => t.initialNode? kid i = none
  fields : ∀ (i : Nat) (f : Field), k.fields[i]? = some f →
    t'.slot? t.size i = some (match f.category with
      | .singleChild => .child ((Assignment.nodesFor f.name as).getLast?.or (t.initialNode? kid i))
      | .listChild => .children (Assignment.nodesFor f.name as)
      | .singleData => .data ((Assignment.valuesFor k f.name as).getLast?.or f.initialValue?)
      | .listData => .values (Assignment.valuesFor k f.name as))
  required : ∀ (i : Nat) (f : Field), k.fields[i]? = some f → f.decl.required = true →
    f.decl.isList = false → ∃ s, t'.slot? t.size i = some s ∧ s.isFilled = true
  owned : ∀ c ∈ t'.childNodes t.size, t'.parent? c = some t.size
  root : t'.parent? t.size = none
  replaced : ∀ before field c after, as = before ++ .child field c :: after →
    Assignment.nodesFor field after ≠ [] → t'.parent? c = none
  replacedInitial : ∀ (i : Nat) (f : Field) (x : NodeId), k.fields[i]? = some f →
    t.initialNode? kid i = some x → Assignment.nodesFor f.name as ≠ [] → t'.parent? x = none
  oldKinds : t.KindsKept t'
  oldSlots : ∀ x, x < t.size → ∀ j,
    t'.slot? x j = (t.slot? x j).map (Slot.withoutAll (as.flatMap Assignment.nodes))
  oldParents : ∀ x, x < t.size → x ∉ as.flatMap Assignment.nodes → t'.parent? x = t.parent? x

theorem initialNode?_of_startsWith {i : Nat} {f : Field} {s : Slot}
    (hs : (t.alloc kid).slot? t.size i = some s) (h : f.StartsWith (t.alloc kid).IsKind s)
    (hkept : (t.alloc kid).KindsKept t') :
    match f.initialKind with
    | some kind => ∃ x, t.initialNode? kid i = some x ∧ t.size < x ∧ t'.IsKind kind x
    | none => t.initialNode? kid i = none := by
  unfold Field.StartsWith at h
  cases hk : f.initialKind with
  | some kind =>
    rw [hk] at h
    obtain ⟨x, rfl, n, hn, hkind⟩ := h
    have hx : t.initialNode? kid i = some x := by simp [initialNode?, hs, Slot.child?]
    obtain ⟨n', hn', hkind'⟩ := hkept x n hn
    exact ⟨x, hx, (size_lt_initialNode? hx).2, n', hn', hkind'.trans hkind⟩
  | none =>
    rw [hk] at h
    have hchild : s.child? = none := by
      split at h
      · next hnone => cases hnone
      · rw [h]
        rfl
      · rw [h]
        cases f.category <;> rfl
    simp [initialNode?, hs, hchild]

theorem built_of_forM (hσ : σ.Resolved) (hconf : t.Conforms) (hf : t.Forest)
    (hk : σ.kinds[kid]? = some k) {changes : List Change} (hdraft : t.draft k as = .ok changes)
    {u : PUnit} (hrun : changes.forM (Edit.change t.size) (t.alloc kid) = .ok u t') :
    t.Built kid k as t' := by
  have hslots := builtSlots_of_forM hσ hconf hf hk hdraft hrun
  obtain ⟨hstart, ⟨root, hroot, hrootkind⟩, -⟩ := building_start hσ hconf hf hk
  obtain ⟨hnodup, hold, hgiven⟩ := draft_eq_ok hdraft
  obtain ⟨_, hend⟩ := hstart.forM hσ (holdsBehind_alloc kid) ⟨root, hroot, hrootkind⟩ hold
    (by simpa using hnodup) hrun
  rw [nodes_draft hdraft] at hnodup hold
  obtain ⟨n, hn, hsame⟩ := hend.kept t.size root hroot
  have hkind : t'.IsKind kid t.size := ⟨n, hn, hsame.trans hrootkind⟩
  have hafter : t.AfterBuild kid k as t' :=
    ⟨hslots, hk, hf, hstart.forest, hend.conforms, hend.forest, hkind, hnodup, hold⟩
  have hmatched : ∀ a ∈ as, ∃ p, k.resolve a.field [a.category] = .ok p := fun a ha =>
    ((changes_of_draft hdraft).1 a ha).imp fun _ hp => hp.place
  refine
    { size := hend.size
      kind := hkind
      matched := hmatched
      initial := fun i f hi => ?_
      fields := fun i f hi => hslots.slot?_new hi
      required := fun i f hi hreq hlist => ?_
      owned := fun c hc => (hend.forest.owned t.size c).1 hc
      root := hafter.parent?_new
      replaced := fun before field c after has hlater => ?_
      replacedInitial := fun i f x hi hx hne => hafter.parent?_replacedInitial hi hx hne
      oldKinds := (kindsKept_extend _).trans hend.kept
      oldSlots := hslots.old
      oldParents := fun x hx hnot => hafter.parent?_old hx hnot }
  · obtain ⟨start, hs, hstarts, -⟩ := hslots.new i f hi
    exact initialNode?_of_startsWith hs hstarts hend.kept
  · refine hend.filled i f (Signature.fields_of_kinds hk ▸ hi) hlist ?_
    cases hinit : f.decl.initial with
    | some v => exact .inr rfl
    | none =>
      have hmust : f.decl.mustBeGiven = true := by
        simp [FieldDecl.mustBeGiven, hreq, hlist, hinit]
      exact .inl (by simpa using hgiven f (List.mem_of_getElem? hi) hmust)
  · refine hafter.parent?_replaced has hlater fun i f hi hname => ?_
    obtain ⟨p, hp⟩ := hmatched (.child field c) (by simp [has])
    obtain ⟨hplace, hcat⟩ := Kind.resolve_eq_ok.1 hp
    have hplace : k.place? field = some p := hplace
    rw [← hname, hσ.place?_eq hk hi] at hplace
    obtain rfl := Option.some.inj hplace
    exact List.mem_singleton.1 hcat

end Tree

end Slots

/-- A successful build of a reachable tree gives the old size as the number of its node and leaves
behind what `Tree.Built` says. -/
theorem built_of_build {ts : List Template} {s : Schema} (hs : Schema.generate ts = .ok s)
    {t t' : Tree s.signature} (ht : t.Reachable) {kind : String} {as : List Assignment}
    {id : NodeId} (hb : Edit.build kind as t = .ok id t') :
    id = t.size ∧
      ∃ kid k, s.signature.kinds[kid]? = some k ∧ k.name = kind ∧ t.Built kid k as t' := by
  have hσ := resolved_of_generate hs
  obtain ⟨kid, k, changes, hk, hname, hdraft, rfl, hrun⟩ := Edit.build_eq_ok hb
  exact ⟨rfl, kid, k, hk, hname,
    Tree.built_of_forM hσ (ht.conforms hσ) (ht.forest hσ) hk hdraft hrun⟩

/-- A new group is given item 0 as its first, which group 1 has to give up, then the list with item
2, and then item 3 in the place of item 0. -/
def regrouping : List Assignment :=
  [.child "first" 0, .children "rest" [2], .child "first" 3]

/-- Item 0 is left without an owner, and so is item 5, which the new group would have started
with. -/
theorem built_groupTree :
    Schema.generate groupTemplates = .ok (Schema.ofTemplates groupTemplates) ∧
      groupTree.Reachable ∧ groupTree.slot? 1 0 = some (.child (some 0)) ∧
      ∃ t', Edit.build "Group" regrouping groupTree = .ok 4 t' ∧ t'.size = 6 ∧
        t'.slot? 4 0 = some (.child (some 3)) ∧ t'.slot? 4 1 = some (.children [2]) ∧
        t'.slot? 1 0 = some (.child none) ∧ t'.parent? 0 = none ∧ t'.parent? 5 = none := by
  have hheld : groupTree.slot? 1 0 = some (.child (some 0)) := by decide +kernel
  have hbuild : Edit.build "Group" regrouping groupTree =
      .ok 4 ((Edit.build "Group" regrouping).outcome groupTree).1 := by rfl
  refine ⟨generate_groupTemplates, reachable_groupTree, hheld, _, hbuild, ?_⟩
  obtain ⟨-, kid, k, hk, hname, h⟩ :=
    built_of_build generate_groupTemplates reachable_groupTree hbuild
  rcases kid with _ | _ | kid
  · cases hk
    exact absurd hname (by decide)
  · cases hk
    refine ⟨h.size.trans (by decide +kernel), h.fields 0 _ rfl, h.fields 1 _ rfl, ?_,
      h.replaced [] "first" 0 _ rfl (by decide), h.replacedInitial 0 _ 5 rfl ?_ (by decide)⟩
    · rw [h.oldSlots 1 (by decide +kernel), hheld]
      rfl
    · decide +kernel
  · cases hk

end Arbor
