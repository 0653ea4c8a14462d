import Arbor.Proofs.Handles
import Arbor.Proofs.Traversal

/-!
# Type references

The nodes that spell a type are of four standard kinds: references have parts, a part has an
identifier and type arguments, and type arguments list references again. Each kind gets a view that
says what is read from a node of the kind. In a conforming tree over the standard templates and any
others, all nodes of these kinds have their views, and what they hold is of the right kinds.

The text of a reference is computed from the views alone.
-/

namespace Arbor

theorem map_eq_ok {ε α β : Type} {x : Except ε α} {f : α → β} {b : β} :
    x.map f = .ok b ↔ ∃ a, x = .ok a ∧ f a = b := by
  cases x <;> simp [Except.map]

/-! ## The fields of a template -/

/-- What is read from the node under the name of a field is what the slot holds. -/
def Slot.ReadAs {σ : Signature} (t : Tree σ) (id : NodeId) (name : String) : Slot → Prop
  | child held => t.child id name = .ok held
  | children held => t.children id name = .ok held
  | data held => t.data id name = .ok held
  | values held => t.dataList id name = .ok held

namespace Tree

variable {σ : Signature} {t : Tree σ}

theorem Conforms.readAs (hconf : t.Conforms) (hσ : σ.Resolved) {id : NodeId} {p : Place} {n : Node}
    (hp : p.Of t id n) : ∃ s, t.slot? id p.index = some s ∧ s.Conforms t p.field ∧
      s.ReadAs t id p.field.name := by
  obtain ⟨s, hslot, hs⟩ := hconf.slot?_of hp
  have hlocate := hp.locate_eq hσ (List.mem_singleton.2 rfl)
  refine ⟨s, hslot, hs, ?_⟩
  cases s with
  | child held =>
    rw [hs.1] at hlocate
    rw [Slot.ReadAs, child_of_locate hlocate, hslot]
    rfl
  | children held =>
    rw [hs.1] at hlocate
    rw [Slot.ReadAs, children_of_locate hlocate, hslot]
    rfl
  | data held =>
    rw [hs.1] at hlocate
    rw [Slot.ReadAs, data_of_locate hlocate, hslot]
    rfl
  | values held =>
    rw [hs.1] at hlocate
    rw [Slot.ReadAs, dataList_of_locate hlocate, hslot]
    rfl

/-- The node is of the kind of this name. -/
def HasKind (t : Tree σ) (name : String) (id : NodeId) : Prop :=
  ∃ k, t.kind id = .ok k ∧ k.name = name

instance (name : String) (id : NodeId) : Decidable (t.HasKind name id) :=
  decidable_of_iff _ HandleType.fits_kind

theorem HasKind.lt_size {name : String} {id : NodeId} (h : t.HasKind name id) : id < t.size := by
  obtain ⟨k, hk, -⟩ := h
  obtain ⟨n, hn, -⟩ := kind_eq_ok.1 hk
  exact lt_size_of_node? hn

theorem HasKind.name_eq {name name' : String} {id : NodeId} (h : t.HasKind name id)
    (h' : t.HasKind name' id) : name = name' := by
  obtain ⟨k, hk, rfl⟩ := h
  obtain ⟨k', hk', rfl⟩ := h'
  cases hk.symm.trans hk'
  rfl

theorem HasKind.expectKind {name : String} {id : NodeId} (h : t.HasKind name id)
    (accessor : String) : t.expectKind id name accessor = .ok () := by
  obtain ⟨k, hk, rfl⟩ := h
  rw [Tree.expectKind, hk]
  exact if_pos rfl

theorem Takes.hasKind {f : Field} {c : NodeId} (h : t.Takes f c) {name : String}
    (htype : f.decl.type = .child name) (hname : Family.ofName? name = none) :
    t.HasKind name c := by
  obtain ⟨type, n, k, htype', hn, hk, htakes⟩ := h
  cases htype.symm.trans htype'
  rw [TypeTakes, hname] at htakes
  exact ⟨k, kind_eq_ok.2 ⟨n, hn, hk⟩, htakes⟩

end Tree

section Templates

variable {ts : List Template} {t : Tree (Schema.ofTemplates ts).signature}

/-- A node of a template's kind has one slot for each declared field, and reading a field gives what
its slot holds. -/
theorem exists_slots_of_template (hts : WellFormed ts) (hconf : t.Conforms) {declared : Template}
    (hd : declared ∈ ts) {id : NodeId} (hid : t.HasKind declared.name id) :
    ∃ n, t.node? id = some n ∧
      List.Forall₂ (fun d s => s.Conforms t (d.resolve (ts.map Template.name)) ∧
        s.ReadAs t id d.name) declared.fields n.slots := by
  obtain ⟨n, hn, hk⟩ := Tree.kind_eq_ok.1 (kind_of_fits hts hd (HandleType.fits_kind.2 hid))
  have hfields := Signature.fields_of_kinds hk
  have hslots := (hconf id n hn).slots
  rw [hfields] at hslots
  refine ⟨n, hn, List.forall₂_iff_get.2 ⟨?_, fun i hi hi' => ?_⟩⟩
  · simpa [Template.resolve] using hslots.length_eq
  · have hfield : (declared.resolve (ts.map Template.name)).fields[i]? =
        some ((declared.fields.get ⟨i, hi⟩).resolve (ts.map Template.name)) := by
      simp [Template.resolve, hi]
    have hp : Place.Of t id ⟨_, i, _⟩ n := ⟨hn, hk, hfields ▸ hfield⟩
    obtain ⟨s, hslot, hs⟩ := hconf.readAs hts.resolved hp
    rw [Tree.slot?_of_node? hn, List.getElem?_eq_getElem hi'] at hslot
    cases hslot
    exact hs

end Templates

/-! ## Views -/

section Views

variable {σ : Signature}

/-- The node is a type reference with these parts, this wildcard and this number of array
dimensions. -/
@[mk_iff]
structure Tree.IsReference (t : Tree σ) (r : NodeId) (parts : List NodeId) (w : Wildcard)
    (dims : Nat) : Prop where
  kind : t.HasKind TypeName.reference r
  parts : t.children r "parts" = .ok parts
  wildcard : (t.data r "wildcard").map (fun v => (v.bind Value.wildcard?).getD .none) = .ok w
  dims : (t.data r "array_dimensions").map (fun v => ((v.bind Value.int?).getD 0).toInt) =
    .ok (dims : Int)

/-- The node is a part of a type reference with this identifier and these type arguments, as far as
they are there. -/
@[mk_iff]
structure Tree.IsPart (t : Tree σ) (p : NodeId) (identifier arguments : Option NodeId) : Prop where
  kind : t.HasKind TypeName.part p
  identifier : t.child p "identifier" = .ok identifier
  arguments : t.child p "type_arguments" = .ok arguments

/-- The node lists these references as type arguments. -/
@[mk_iff]
structure Tree.IsArguments (t : Tree σ) (a : NodeId) (types : List NodeId) : Prop where
  kind : t.HasKind "TypeArguments" a
  types : t.children a "generics" = .ok types

/-- The node is an identifier with this name. -/
@[mk_iff]
structure Tree.IsIdentifier (t : Tree σ) (i : NodeId) (name : String) : Prop where
  kind : t.HasKind "Identifier" i
  name : (t.data i "name").map (fun v => (v.bind Value.text?).getD "") = .ok name

namespace Tree

variable {t : Tree σ}

instance (r : NodeId) (parts : List NodeId) (w : Wildcard) (dims : Nat) :
    Decidable (t.IsReference r parts w dims) :=
  decidable_of_iff _ (isReference_iff t r parts w dims).symm

instance (p : NodeId) (i a : Option NodeId) : Decidable (t.IsPart p i a) :=
  decidable_of_iff _ (isPart_iff t p i a).symm

instance (a : NodeId) (types : List NodeId) : Decidable (t.IsArguments a types) :=
  decidable_of_iff _ (isArguments_iff t a types).symm

instance (i : NodeId) (name : String) : Decidable (t.IsIdentifier i name) :=
  decidable_of_iff _ (isIdentifier_iff t i name).symm

theorem IsReference.unique {r : NodeId} {parts parts' : List NodeId} {w w' : Wildcard}
    {dims dims' : Nat} (h : t.IsReference r parts w dims) (h' : t.IsReference r parts' w' dims') :
    parts = parts' ∧ w = w' ∧ dims = dims' := by
  have hdims := Except.ok.inj (h.dims.symm.trans h'.dims)
  exact ⟨Except.ok.inj (h.parts.symm.trans h'.parts),
    Except.ok.inj (h.wildcard.symm.trans h'.wildcard), Int.ofNat.inj hdims⟩

theorem IsPart.unique {p : NodeId} {i i' a a' : Option NodeId} (h : t.IsPart p i a)
    (h' : t.IsPart p i' a') : i = i' ∧ a = a' :=
  ⟨Except.ok.inj (h.identifier.symm.trans h'.identifier),
    Except.ok.inj (h.arguments.symm.trans h'.arguments)⟩

theorem IsArguments.unique {a : NodeId} {types types' : List NodeId} (h : t.IsArguments a types)
    (h' : t.IsArguments a types') : types = types' :=
  Except.ok.inj (h.types.symm.trans h'.types)

theorem IsIdentifier.unique {i : NodeId} {name name' : String} (h : t.IsIdentifier i name)
    (h' : t.IsIdentifier i name') : name = name' :=
  Except.ok.inj (h.name.symm.trans h'.name)

end Tree

/-- All nodes that spell types have their views, and hold nodes of the kinds that belong there. -/
structure Tree.SpellsTypes (t : Tree σ) : Prop where
  reference : ∀ r, t.HasKind TypeName.reference r → ∃ parts w dims, t.IsReference r parts w dims ∧
    t.childNodes r = parts ∧ ∀ p ∈ parts, t.HasKind TypeName.part p
  part : ∀ p, t.HasKind TypeName.part p → ∃ i a, t.IsPart p i a ∧
    t.childNodes p = i.toList ++ a.toList ∧ (∀ x ∈ i, t.HasKind "Identifier" x) ∧
    ∀ x ∈ a, t.HasKind "TypeArguments" x
  arguments : ∀ a, t.HasKind "TypeArguments" a → ∃ types, t.IsArguments a types ∧
    t.childNodes a = types ∧ ∀ g ∈ types, t.HasKind TypeName.reference g
  identifier : ∀ i, t.HasKind "Identifier" i → (∃ name, t.IsIdentifier i name) ∧ t.childNodes i = []

end Views

/-! ## The standard templates -/

namespace Standard

theorem exists_reference : ∃ d ∈ templates, d.name = TypeName.reference ∧ d.fields =
    [((FieldDecl.data "wildcard" .wildcard).asRequired).startingWith (.data (.wildcard .none)),
      ((FieldDecl.data "array_dimensions" .int).bounded 0 maxArrayDimensions).startingWith
        (.data (.int 0)),
      .children "parts" "TypeReferencePart"] :=
  ⟨_, List.mem_append_right _ (List.mem_of_getElem? (i := 3) rfl), rfl, rfl⟩

theorem exists_part : ∃ d ∈ templates, d.name = TypeName.part ∧ d.fields =
    [(FieldDecl.child "identifier" "Identifier").asRequired,
      ((FieldDecl.child "type_arguments" "TypeArguments").asRequired).startingWith
        (.newNode "TypeArguments")] :=
  ⟨_, List.mem_append_right _ (List.mem_of_getElem? (i := 4) rfl), rfl, rfl⟩

theorem exists_arguments : ∃ d ∈ templates, d.name = "TypeArguments" ∧ d.fields =
    [.children "generics" "TypeReference"] :=
  ⟨_, List.mem_append_right _ (List.mem_of_getElem? (i := 5) rfl), rfl, rfl⟩

theorem exists_identifier : ∃ d ∈ templates, d.name = "Identifier" ∧ d.fields =
    [(FieldDecl.data "name" .text).asRequired] :=
  ⟨_, List.mem_append_right _ (List.mem_of_getElem? (i := 1) rfl), rfl, rfl⟩

end Standard

/-- A number that is bounded from below by zero is a count. -/
theorem FieldDecl.exists_count {d : FieldDecl} {hi : Int64} (hbounds : d.bounds = some (0, hi))
    {held : Option Value} (h : ∀ v ∈ held, d.Holds v) :
    ∃ n : Nat, ((held.bind Value.int?).getD 0).toInt = n := by
  cases held with
  | none => exact ⟨0, rfl⟩
  | some v =>
    obtain ⟨n, rfl, hlo, -⟩ := (h v rfl).2 0 hi hbounds
    exact Int.eq_ofNat_of_zero_le (Int64.le_iff_toInt_le.1 hlo)

section Spelling

variable {ts : List Template} {t : Tree (Schema.ofTemplates ts).signature}
  (hts : WellFormed ts) (hstd : Standard.templates ⊆ ts) (hconf : t.Conforms)
include hts hstd hconf

theorem exists_isReference {r : NodeId} (hr : t.HasKind TypeName.reference r) :
    ∃ parts w dims, t.IsReference r parts w dims ∧ t.childNodes r = parts ∧
      ∀ p ∈ parts, t.HasKind TypeName.part p := by
  obtain ⟨d, hd, hname, hfields⟩ := Standard.exists_reference
  obtain ⟨n, hn, hslots⟩ := exists_slots_of_template hts hconf (hstd hd) (hname ▸ hr)
  simp only [hfields, List.forall₂_cons_left_iff, List.forall₂_nil_left_iff] at hslots
  obtain ⟨s, _, ⟨hwild, hwildRead⟩, ⟨u, _, ⟨hdims, hdimsRead⟩,
    ⟨v, _, ⟨hparts, hpartsRead⟩, rfl, rfl⟩, rfl⟩, hslots⟩ := hslots
  obtain ⟨mark, rfl⟩ := hwild.eq_data rfl
  obtain ⟨number, rfl⟩ := hdims.eq_data rfl
  obtain ⟨parts, rfl⟩ := hparts.eq_children rfl
  obtain ⟨dims, hcount⟩ := FieldDecl.exists_count rfl hdims.2
  refine ⟨parts, _, dims, ⟨hr, hpartsRead, congrArg (Except.map _) hwildRead,
    (congrArg (Except.map _) hdimsRead).trans (congrArg Except.ok hcount)⟩, ?_,
    fun p hp => (hparts.2 p hp).hasKind rfl (by decide)⟩
  rw [Tree.childNodes_of_node? hn, Node.children, hslots]
  simp [Slot.nodes]

theorem exists_isPart {p : NodeId} (hp : t.HasKind TypeName.part p) :
    ∃ i a, t.IsPart p i a ∧ t.childNodes p = i.toList ++ a.toList ∧
      (∀ x ∈ i, t.HasKind "Identifier" x) ∧ ∀ x ∈ a, t.HasKind "TypeArguments" x := by
  obtain ⟨d, hd, hname, hfields⟩ := Standard.exists_part
  obtain ⟨n, hn, hslots⟩ := exists_slots_of_template hts hconf (hstd hd) (hname ▸ hp)
  simp only [hfields, List.forall₂_cons_left_iff, List.forall₂_nil_left_iff] at hslots
  obtain ⟨s, _, ⟨hident, hidentRead⟩, ⟨u, _, ⟨hargs, hargsRead⟩, rfl, rfl⟩, hslots⟩ := hslots
  obtain ⟨i, rfl⟩ := hident.eq_child rfl
  obtain ⟨a, rfl⟩ := hargs.eq_child rfl
  refine ⟨i, a, ⟨hp, hidentRead, hargsRead⟩, ?_,
    fun x hx => (hident.2 x hx).hasKind rfl (by decide),
    fun x hx => (hargs.2 x hx).hasKind rfl (by decide)⟩
  rw [Tree.childNodes_of_node? hn, Node.children, hslots]
  simp [Slot.nodes]

theorem exists_isArguments {a : NodeId} (ha : t.HasKind "TypeArguments" a) :
    ∃ types, t.IsArguments a types ∧ t.childNodes a = types ∧
      ∀ g ∈ types, t.HasKind TypeName.reference g := by
  obtain ⟨d, hd, hname, hfields⟩ := Standard.exists_arguments
  obtain ⟨n, hn, hslots⟩ := exists_slots_of_template hts hconf (hstd hd) (hname ▸ ha)
  simp only [hfields, List.forall₂_cons_left_iff, List.forall₂_nil_left_iff] at hslots
  obtain ⟨s, _, ⟨htypes, htypesRead⟩, rfl, hslots⟩ := hslots
  obtain ⟨types, rfl⟩ := htypes.eq_children rfl
  refine ⟨types, ⟨ha, htypesRead⟩, ?_, fun g hg => (htypes.2 g hg).hasKind rfl (by decide)⟩
  rw [Tree.childNodes_of_node? hn, Node.children, hslots]
  simp [Slot.nodes]

theorem exists_isIdentifier {i : NodeId} (hi : t.HasKind "Identifier" i) :
    (∃ name, t.IsIdentifier i name) ∧ t.childNodes i = [] := by
  obtain ⟨d, hd, hname, hfields⟩ := Standard.exists_identifier
  obtain ⟨n, hn, hslots⟩ := exists_slots_of_template hts hconf (hstd hd) (hname ▸ hi)
  simp only [hfields, List.forall₂_cons_left_iff, List.forall₂_nil_left_iff] at hslots
  obtain ⟨s, _, ⟨htext, htextRead⟩, rfl, hslots⟩ := hslots
  obtain ⟨held, rfl⟩ := htext.eq_data rfl
  refine ⟨⟨_, hi, congrArg (Except.map _) htextRead⟩, ?_⟩
  rw [Tree.childNodes_of_node? hn, Node.children, hslots]
  rfl

theorem spellsTypes : t.SpellsTypes where
  reference _ hr := exists_isReference hts hstd hconf hr
  part _ hp := exists_isPart hts hstd hconf hp
  arguments _ ha := exists_isArguments hts hstd hconf ha
  identifier _ hi := exists_isIdentifier hts hstd hconf hi

end Spelling

/-! ## What the views hold -/

namespace Tree

variable {σ : Signature} {t : Tree σ}

namespace SpellsTypes

variable (h : t.SpellsTypes)
include h

theorem of_reference {r : NodeId} {parts : List NodeId} {w : Wildcard} {dims : Nat}
    (hr : t.IsReference r parts w dims) :
    t.childNodes r = parts ∧ ∀ p ∈ parts, t.HasKind TypeName.part p := by
  obtain ⟨parts', w', dims', hr', hheld⟩ := h.reference r hr.kind
  rwa [(hr.unique hr').1]

theorem of_part {p : NodeId} {i a : Option NodeId} (hp : t.IsPart p i a) :
    t.childNodes p = i.toList ++ a.toList ∧ (∀ x ∈ i, t.HasKind "Identifier" x) ∧
      ∀ x ∈ a, t.HasKind "TypeArguments" x := by
  obtain ⟨i', a', hp', hheld⟩ := h.part p hp.kind
  obtain ⟨rfl, rfl⟩ := hp.unique hp'
  exact hheld

/-- A part lacks its identifier, or else its type arguments, or it has both. -/
theorem part_cases {p : NodeId} (hp : t.HasKind TypeName.part p) :
    (∃ a, t.IsPart p none a) ∨ (∃ i name, t.IsPart p (some i) none ∧ t.IsIdentifier i name) ∨
      ∃ i a name types, t.IsPart p (some i) (some a) ∧ t.IsIdentifier i name ∧
        t.IsArguments a types := by
  obtain ⟨i, a, hp, -, hident, harguments⟩ := h.part p hp
  cases i with
  | none => exact .inl ⟨a, hp⟩
  | some i =>
    obtain ⟨⟨name, hname⟩, -⟩ := h.identifier i (hident i rfl)
    cases a with
    | none => exact .inr (.inl ⟨i, name, hp, hname⟩)
    | some a =>
      obtain ⟨types, htypes, -⟩ := h.arguments a (harguments a rfl)
      exact .inr (.inr ⟨i, a, name, types, hp, hname, htypes⟩)

theorem of_arguments {a : NodeId} {types : List NodeId} (ha : t.IsArguments a types) :
    t.childNodes a = types ∧ ∀ g ∈ types, t.HasKind TypeName.reference g := by
  obtain ⟨types', ha', hheld⟩ := h.arguments a ha.kind
  rwa [ha.unique ha']

end SpellsTypes

/-- The reference `g` is a type argument of a part of `r`. -/
def ArgumentOf (t : Tree σ) (g r : NodeId) : Prop :=
  ∃ parts w dims p i a types, t.IsReference r parts w dims ∧ p ∈ parts ∧ t.IsPart p i (some a) ∧
    t.IsArguments a types ∧ g ∈ types

namespace SpellsTypes

variable (h : t.SpellsTypes)
include h

theorem childOf_part {r p : NodeId} {parts : List NodeId} {w : Wildcard} {dims : Nat}
    (hf : t.Forest) (hr : t.IsReference r parts w dims) (hp : p ∈ parts) : t.ChildOf p r := by
  rw [← (h.of_reference hr).1] at hp
  exact (hf.owned r p).1 hp

theorem childOf_arguments {p a : NodeId} {i : Option NodeId} (hf : t.Forest)
    (hp : t.IsPart p i (some a)) : t.ChildOf a p := by
  refine (hf.owned p a).1 ?_
  rw [(h.of_part hp).1]
  exact List.mem_append_right _ (List.mem_singleton.2 rfl)

theorem childOf_argument {a g : NodeId} {types : List NodeId} (hf : t.Forest)
    (ha : t.IsArguments a types) (hg : g ∈ types) : t.ChildOf g a := by
  rw [← (h.of_arguments ha).1] at hg
  exact (hf.owned a g).1 hg

/-- Arguments of the parts of a reference have more ancestors than the reference, so what goes from
references to these arguments as often as there are nodes comes to all of them. -/
theorem bounded_induction (hf : t.Forest) {P : Nat → NodeId → Prop}
    (step : ∀ bound r, t.HasKind TypeName.reference r →
      (∀ g, t.ArgumentOf g r → P bound g) → P (bound + 1) r)
    {bound : Nat} {r : NodeId} (hr : t.HasKind TypeName.reference r)
    (hbound : t.size ≤ bound + (t.ancestors r).length) : P bound r := by
  induction bound generalizing r with
  | zero =>
    have hdepth := hf.length_ancestors_lt hr.lt_size
    omega
  | succ bound ih =>
    refine step bound r hr fun g hg => ?_
    obtain ⟨parts, w, dims, p, i, a, types, hr, hp, hpart, ha, hg⟩ := hg
    refine ih ((h.of_arguments ha).2 g hg) ?_
    have hpr := hf.length_ancestors_child (h.childOf_part hf hr hp)
    have hap := hf.length_ancestors_child (h.childOf_arguments hf hpart)
    have hga := hf.length_ancestors_child (h.childOf_argument hf ha hg)
    omega

end SpellsTypes

end Tree

/-! ## Texts -/

/-- How a type argument limits the types it stands for. -/
inductive Bound where
  | exact
  | upper
  | lower
  deriving DecidableEq, Repr

namespace Bound

/-- What is written before the type. -/
def mark : Bound → String
  | exact => ""
  | upper => "? extends "
  | lower => "? super "

/-- The bound that a wildcard gives to a type; an unbound one has no type. -/
def ofWildcard? : Wildcard → Option Bound
  | .none => some exact
  | .unbound => none
  | .upper => some upper
  | .lower => some lower

theorem ofWildcard?_eq_none {w : Wildcard} : ofWildcard? w = none ↔ w = .unbound := by
  cases w <;> simp [ofWildcard?]

end Bound

/-- The text of a part, with its arguments if it has any. -/
def withArguments (name : String) (arguments : List String) : String :=
  if arguments.isEmpty then name else name ++ "<" ++ ", ".intercalate arguments ++ ">"

/-- The brackets of an array type. -/
def brackets (dims : Nat) : String :=
  String.join (List.replicate dims "[]")

namespace Tree

variable {σ : Signature} {t : Tree σ} {text : NodeId → Except Error String}

theorem IsReference.argumentText_of_unbound {g : NodeId} {parts : List NodeId} {dims : Nat}
    (h : t.IsReference g parts .unbound dims) : t.argumentText text g = .ok "?" := by
  obtain ⟨v, hv, hmark⟩ := map_eq_ok.1 h.wildcard
  simp only [argumentText, hv, hmark, bind, Except.bind]

theorem IsReference.argumentText_eq {g : NodeId} {parts : List NodeId} {w : Wildcard} {dims : Nat}
    (h : t.IsReference g parts w dims) {b : Bound} (hb : Bound.ofWildcard? w = some b) :
    t.argumentText text g = (text g).map (b.mark ++ ·) := by
  obtain ⟨v, hv, hmark⟩ := map_eq_ok.1 h.wildcard
  simp only [argumentText, hv, hmark, bind, Except.bind]
  cases w with
  | unbound => cases hb
  | _ =>
    cases hb
    cases text g <;> simp [Except.map, Bound.mark, pure, Except.pure]

theorem IsPart.partText_of_no_identifier {p : NodeId} {a : Option NodeId} (h : t.IsPart p none a) :
    t.partText text p = .error (.contract TypeName.part "identifier" .missing) := by
  rw [partText, h.kind.expectKind, h.identifier]
  rfl

theorem IsPart.partText_of_no_arguments {p i : NodeId} {name : String}
    (h : t.IsPart p (some i) none) (hi : t.IsIdentifier i name) :
    t.partText text p = .error (.contract TypeName.part "type_arguments" .missing) := by
  obtain ⟨v, hv, -⟩ := map_eq_ok.1 hi.name
  simp only [partText, partGenerics, h.kind.expectKind, h.identifier, h.arguments, hv, bind,
    Except.bind]

theorem IsPart.partText_eq {p i a : NodeId} {name : String} {types : List NodeId}
    (h : t.IsPart p (some i) (some a)) (hi : t.IsIdentifier i name) (ha : t.IsArguments a types) :
    t.partText text p = (types.mapM (t.argumentText text)).map (withArguments name) := by
  obtain ⟨v, hv, rfl⟩ := map_eq_ok.1 hi.name
  simp only [partText, partGenerics, h.kind.expectKind, h.identifier, h.arguments, hv, ha.types,
    bind, Except.bind]
  cases types.mapM (t.argumentText text) <;> rfl

theorem IsReference.refText_succ {r : NodeId} {parts : List NodeId} {w : Wildcard} {dims : Nat}
    (h : t.IsReference r parts w dims) (bound : Nat) :
    t.refText (bound + 1) r = (parts.mapM (t.partText (t.refText bound))).map fun texts =>
      texts.foldl dotted "" ++ brackets dims := by
  obtain ⟨v, hv, hdims⟩ := map_eq_ok.1 h.dims
  simp only [refText, referenceText, h.kind.expectKind, h.parts, hv, hdims, bind, Except.bind,
    Int.toNat_natCast]
  cases parts.mapM (t.partText (t.refText bound)) <;> rfl

end Tree

end Arbor
