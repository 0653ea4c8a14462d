import Arbor.Proofs.Copy
import Arbor.Proofs.References

/-!
# Reached parts

The text of a type reference needs its parts and the parts of the type arguments below them, except
below unbound arguments. It is there just if each of these parts has an identifier and type
arguments. If not, the error says what the first of them lacks that a walk from the reference comes
to.
-/

namespace Arbor

namespace Tree

variable {σ : Signature}

/-- The reference `r` reaches its parts and, through the type arguments of a part that it reaches,
the parts of each argument that is not unbound. -/
inductive Reaches (t : Tree σ) (r : NodeId) : NodeId → Prop where
  | own {p : NodeId} {parts : List NodeId} {w : Wildcard} {dims : Nat} :
      t.IsReference r parts w dims → p ∈ parts → Reaches t r p
  | nested {p a g q : NodeId} {i : Option NodeId} {types parts : List NodeId} {w : Wildcard}
      {dims : Nat} :
      Reaches t r p → t.IsPart p i (some a) → t.IsArguments a types → g ∈ types →
      t.IsReference g parts w dims → w ≠ .unbound → q ∈ parts → Reaches t r q

/-- The part has an identifier and type arguments. -/
def Complete (t : Tree σ) (p : NodeId) : Prop :=
  ∃ i a, t.IsPart p (some i) (some a)

/-- The error says what the part lacks: its identifier, or else its type arguments. -/
inductive Lacks (t : Tree σ) (p : NodeId) : Error → Prop where
  | identifier {a : Option NodeId} : t.IsPart p none a →
      Lacks t p (.contract TypeName.part "identifier" .missing)
  | arguments {i : NodeId} : t.IsPart p (some i) none →
      Lacks t p (.contract TypeName.part "type_arguments" .missing)

theorem Lacks.not_complete {t : Tree σ} {p : NodeId} {e : Error} (h : t.Lacks p e) :
    ¬ t.Complete p := by
  rintro ⟨i, a, hp⟩
  cases h with
  | identifier h => cases (h.unique hp).1
  | arguments h => cases (h.unique hp).2

/-! ## Reaching -/

variable {t : Tree σ} {r g p q : NodeId}

theorem Reaches.hasKind (hspells : t.SpellsTypes) (h : t.Reaches r q) :
    t.HasKind TypeName.part q := by
  cases h with
  | own hr hq => exact (hspells.of_reference hr).2 q hq
  | nested _ _ _ _ hg _ hq => exact (hspells.of_reference hg).2 q hq

theorem not_reaches_of_hasKind (hspells : t.SpellsTypes) {kind : String} (hkind : t.HasKind kind q)
    (hne : kind ≠ TypeName.part) : ¬ t.Reaches r q :=
  fun h => hne (hkind.name_eq (h.hasKind hspells))

theorem Reaches.leads (hspells : t.SpellsTypes) (hf : t.Forest) (h : t.Reaches r q) :
    Relation.ReflTransGen t.ChildOf q r := by
  induction h with
  | own hr hp => exact .single (hspells.childOf_part hf hr hp)
  | nested _ hp ha hg hview _ hq ih =>
    have hpath := ih.head (hspells.childOf_arguments hf hp)
    exact (hpath.head (hspells.childOf_argument hf ha hg)).head (hspells.childOf_part hf hview hq)

theorem Reaches.through {a : NodeId} {i : Option NodeId} {types parts : List NodeId} {w : Wildcard}
    {dims : Nat} (hrp : t.Reaches r p) (hp : t.IsPart p i (some a)) (ha : t.IsArguments a types)
    (hg : g ∈ types) (hview : t.IsReference g parts w dims) (hw : w ≠ .unbound)
    (h : t.Reaches g q) : t.Reaches r q := by
  induction h with
  | own hview' hq =>
    obtain ⟨rfl, -⟩ := hview.unique hview'
    exact .nested hrp hp ha hg hview hw hq
  | nested _ hp ha hg hview hw hq ih => exact .nested ih hp ha hg hview hw hq

/-- Above a node other than `g` there is nothing new on the way to `g`. -/
theorem leads_of_childOf {x y : NodeId} (hxy : t.ChildOf x y)
    (hxg : Relation.ReflTransGen t.ChildOf x g) (hne : x ≠ g) :
    Relation.ReflTransGen t.ChildOf y g := by
  rcases Relation.ReflTransGen.cases_head hxg with rfl | ⟨y', hxy', hyg⟩
  · exact absurd rfl hne
  · cases hxy.symm.trans hxy'
    exact hyg

/-- What is reached below another reference is reached from there, and that reference is not
unbound. -/
theorem Reaches.of_leads (hspells : t.SpellsTypes) (hf : t.Forest) {parts : List NodeId}
    {w : Wildcard} {dims : Nat} (hview : t.IsReference g parts w dims)
    (hrg : ¬ Relation.ReflTransGen t.ChildOf r g) (h : t.Reaches r q)
    (hqg : Relation.ReflTransGen t.ChildOf q g) : w ≠ .unbound ∧ t.Reaches g q := by
  -- On the way up from `q` the kinds repeat, so `g` can only be met where a reference is.
  have hpart : ∀ {x}, t.Reaches r x → x ≠ g := by
    rintro x hx rfl
    exact not_reaches_of_hasKind hspells hview.kind (by decide) hx
  induction h with
  | own hr hq =>
    exact absurd (leads_of_childOf (hspells.childOf_part hf hr hq) hqg (hpart (.own hr hq))) hrg
  | @nested p a g' q i types parts' w' dims' hrp hp ha hg' hview' hw' hq ih =>
    have hq' : t.Reaches r q := .nested hrp hp ha hg' hview' hw' hq
    have hg'g := leads_of_childOf (hspells.childOf_part hf hview' hq) hqg (hpart hq')
    by_cases heq : g' = g
    · subst heq
      obtain ⟨rfl, rfl, rfl⟩ := hview.unique hview'
      exact ⟨hw', .own hview hq⟩
    · have hag := leads_of_childOf (hspells.childOf_argument hf ha hg') hg'g heq
      have hne : a ≠ g := by
        rintro rfl
        exact absurd (ha.kind.name_eq hview.kind) (by decide)
      have hpg := leads_of_childOf (hspells.childOf_arguments hf hp) hag hne
      obtain ⟨hw, hgp⟩ := ih hpg
      exact ⟨hw, .nested hgp hp ha hg' hview' hw' hq⟩

/-! ## What answers tell -/

/-- What an answer tells about the parts in a list, of which only those count that have the property
`R`. A result tells that all of them are complete. An error tells what the first one lacks that is
not. -/
def Tells (t : Tree σ) (R : NodeId → Prop) (l : List NodeId) {α : Type} : Except Error α → Prop
  | .ok _ => ∀ q ∈ l, R q → t.Complete q
  | .error e => ∃ before p after, l = before ++ p :: after ∧
    (∀ q ∈ before, R q → t.Complete q) ∧ R p ∧ t.Lacks p e

namespace Tells

variable {R R' : NodeId → Prop} {l : List NodeId} {α β : Type} {x : Except Error α}

theorem map (h : t.Tells R l x) (f : α → β) : t.Tells R l (x.map f) := by
  cases x with
  | ok a => exact h
  | error e => exact h

theorem congr (h : t.Tells R l x) (hR : ∀ q ∈ l, R q ↔ R' q) : t.Tells R' l x := by
  cases x with
  | ok a => exact fun q hq hq' => h q hq ((hR q hq).2 hq')
  | error e =>
    obtain ⟨before, p, after, rfl, hbefore, hp, hlacks⟩ := h
    refine ⟨before, p, after, rfl, fun q hq hq' => hbefore q hq ?_, ?_, hlacks⟩
    · exact (hR q (List.mem_append_left _ hq)).2 hq'
    · exact (hR p (List.mem_append_right _ List.mem_cons_self)).1 hp

theorem append_left {pre : List NodeId} (hpre : ∀ q ∈ pre, R q → t.Complete q)
    (h : t.Tells R l x) : t.Tells R (pre ++ l) x := by
  cases x with
  | ok a =>
    intro q hq
    rcases List.mem_append.1 hq with hq | hq
    · exact hpre q hq
    · exact h q hq
  | error e =>
    obtain ⟨before, p, after, rfl, hbefore, hp, hlacks⟩ := h
    refine ⟨pre ++ before, p, after, by rw [List.append_assoc], fun q hq => ?_, hp, hlacks⟩
    rcases List.mem_append.1 hq with hq | hq
    · exact hpre q hq
    · exact hbefore q hq

theorem cons (hq : R q → t.Complete q) (h : t.Tells R l x) : t.Tells R (q :: l) x := by
  rw [← List.singleton_append]
  exact append_left (by simpa using hq) h

theorem append_right {e : Error} (h : t.Tells R l (.error e : Except Error α))
    (post : List NodeId) : t.Tells R (l ++ post) (.error e : Except Error β) := by
  obtain ⟨before, p, after, rfl, hbefore, hp, hlacks⟩ := h
  exact ⟨before, p, after ++ post, by simp, hbefore, hp, hlacks⟩

/-- Answers that are asked for one after the other tell about their lists one after the other. -/
theorem mapM {γ : Type} {cs : List γ} {answer : γ → Except Error α} {part : γ → List NodeId}
    (h : ∀ c ∈ cs, t.Tells R (part c) (answer c)) :
    t.Tells R (cs.flatMap part) (cs.mapM answer) := by
  induction cs with
  | nil => exact fun q hq => absurd hq List.not_mem_nil
  | cons c cs ih =>
    obtain ⟨hc, hcs⟩ := List.forall_mem_cons.1 h
    rw [List.flatMap_cons, List.mapM_cons]
    cases ha : answer c with
    | error e =>
      rw [ha] at hc
      exact hc.append_right _
    | ok a =>
      rw [ha] at hc
      have hrest := append_left hc (ih hcs)
      cases hm : cs.mapM answer with
      | error e =>
        rw [hm] at hrest
        exact hrest
      | ok as =>
        rw [hm] at hrest
        exact hrest

end Tells

/-! ## The text of a reference -/

section Texts

variable (hspells : t.SpellsTypes) (hf : t.Forest) {text : NodeId → Except Error String}
include hspells hf

/-- What an argument of a reached part tells about the parts that are reached below it. -/
theorem tells_argumentText {a : NodeId} {i : Option NodeId} {types : List NodeId}
    (hrp : t.Reaches r p) (hp : t.IsPart p i (some a)) (ha : t.IsArguments a types) (hg : g ∈ types)
    (h : t.Tells (t.Reaches g) (t.walk g) (text g)) :
    t.Tells (t.Reaches r) (t.walk g) (t.argumentText text g) := by
  obtain ⟨parts, w, dims, hview, -⟩ := hspells.reference g ((hspells.of_arguments ha).2 g hg)
  have hrg : ¬ Relation.ReflTransGen t.ChildOf r g := by
    have hpr := (hrp.leads hspells hf).head (hspells.childOf_arguments hf hp)
    have hgr : t.Below g r := .head' (hspells.childOf_argument hf ha hg) hpr
    exact fun hback => hf.acyclic g (hgr.trans_left hback)
  have hbelow : ∀ q ∈ t.walk g, t.Reaches r q → w ≠ .unbound ∧ t.Reaches g q := fun q hq hrq =>
    hrq.of_leads hspells hf hview hrg ((hf.mem_walk hview.kind.lt_size).1 hq)
  cases hb : Bound.ofWildcard? w with
  | none =>
    obtain rfl := Bound.ofWildcard?_eq_none.1 hb
    rw [hview.argumentText_of_unbound]
    exact fun q hq hrq => absurd rfl (hbelow q hq hrq).1
  | some b =>
    have hw : w ≠ .unbound := fun hw => by
      rw [Bound.ofWildcard?_eq_none.2 hw] at hb
      cases hb
    rw [hview.argumentText_eq hb]
    refine (h.map _).congr fun q hq => ⟨fun hgq => ?_, fun hrq => (hbelow q hq hrq).2⟩
    exact hrp.through hp ha hg hview hw hgq

theorem walk_of_complete {i a : NodeId} {types : List NodeId} (hp : t.IsPart p (some i) (some a))
    (ha : t.IsArguments a types) : t.walk p = p :: i :: a :: types.flatMap t.walk := by
  obtain ⟨hchildren, hident, harguments⟩ := hspells.of_part hp
  have hi := hident i rfl
  rw [hf.walk_eq hp.kind.lt_size, hchildren]
  simp [hf.walk_eq hi.lt_size, (hspells.identifier i hi).2, hf.walk_eq ha.kind.lt_size,
    (hspells.of_arguments ha).1]

theorem tells_partText (hrp : t.Reaches r p)
    (h : ∀ i a types, t.IsPart p i (some a) → t.IsArguments a types → ∀ g ∈ types,
      t.Tells (t.Reaches g) (t.walk g) (text g)) :
    t.Tells (t.Reaches r) (t.walk p) (t.partText text p) := by
  have hkind := hrp.hasKind hspells
  rcases hspells.part_cases hkind with ⟨a, hp⟩ | ⟨i, name, hp, hname⟩ |
    ⟨i, a, name, types, hp, hname, ha⟩
  · rw [hp.partText_of_no_identifier, hf.walk_eq hkind.lt_size]
    exact ⟨[], p, _, rfl, by simp, hrp, .identifier hp⟩
  · rw [hp.partText_of_no_arguments hname, hf.walk_eq hkind.lt_size]
    exact ⟨[], p, _, rfl, by simp, hrp, .arguments hp⟩
  · rw [hp.partText_eq hname ha, walk_of_complete hspells hf hp ha]
    have hargs := Tells.mapM fun g hg =>
      tells_argumentText hspells hf hrp hp ha hg (h (some i) a types hp ha g hg)
    -- The identifier and the type arguments are no parts.
    have hident : ¬ t.Reaches r i := not_reaches_of_hasKind hspells hname.kind (by decide)
    have harguments : ¬ t.Reaches r a := not_reaches_of_hasKind hspells ha.kind (by decide)
    exact .cons (fun _ => ⟨i, a, hp⟩) (.cons (absurd · hident) (.cons (absurd · harguments)
      (hargs.map _)))

/-- The text of a reference tells about the parts that the reference reaches, in the order of a
walk. The bound is not in the way if it makes up for the ancestors that the reference lacks. -/
theorem tells_refText {bound : Nat} (hr : t.HasKind TypeName.reference r)
    (hbound : t.size ≤ bound + (t.ancestors r).length) :
    t.Tells (t.Reaches r) (t.walk r) (t.refText bound r) := by
  refine hspells.bounded_induction hf
    (P := fun bound r => t.Tells (t.Reaches r) (t.walk r) (t.refText bound r)) ?_ hr hbound
  intro bound r hr ih
  obtain ⟨parts, w, dims, hview, hchildren, -⟩ := hspells.reference r hr
  have hparts := Tells.mapM fun p hp => tells_partText hspells hf (.own hview hp)
    fun i a types hpart ha g hg =>
      ih g ⟨parts, w, dims, p, i, a, types, hview, hp, hpart, ha, hg⟩
  rw [hview.refText_succ, hf.walk_eq hr.lt_size, hchildren]
  exact .cons (absurd · (not_reaches_of_hasKind hspells hr (by decide))) (hparts.map _)

end Texts

/-! ## Generics -/

section Generics

variable {parts : List NodeId} {w : Wildcard} {dims : Nat}

theorem IsPart.partGenerics_eq {i a : Option NodeId} (hp : t.IsPart p i a) :
    t.partGenerics p = a.elim (.error (.contract TypeName.part "type_arguments" .missing))
      (.ok ⟨p, ·, "generics"⟩) := by
  rw [partGenerics, hp.kind.expectKind, hp.arguments]
  cases a <;> rfl

theorem IsReference.generics_eq (hr : t.IsReference r parts w dims) :
    t.generics r = parts.getLast?.elim (.error (.contract TypeName.reference "generics" .noParts))
      fun last => (t.partGenerics last).map ({ · with owner := r }) := by
  simp only [generics, hr.kind.expectKind, hr.parts, bind, Except.bind]
  cases parts.getLast? with
  | none => rfl
  | some last => cases t.partGenerics last <;> rfl

theorem IsReference.hasGenerics_of_nil (hr : t.IsReference r [] w dims) :
    t.hasGenerics r = .ok false := by
  rw [hasGenerics, hr.kind.expectKind, hr.parts]
  rfl

theorem IsReference.hasGenerics_eq (hr : t.IsReference r parts w dims) (hparts : parts ≠ []) :
    t.hasGenerics r = t.generics r >>= fun b =>
      (t.children b.target b.field).map fun types => !types.isEmpty := by
  have hempty : parts.isEmpty = false := by simpa using hparts
  rw [hasGenerics, hr.kind.expectKind, hr.parts]
  simp only [bind, Except.bind, hempty]
  rfl

variable (hspells : t.SpellsTypes) (hr : t.IsReference r parts w dims)
include hspells hr

/-- The generics of a reference are those of its last part. -/
theorem generics_eq_ok {b : ListBinding} :
    t.generics r = .ok b ↔ ∃ last a, parts.getLast? = some last ∧
      t.child last "type_arguments" = .ok (some a) ∧ t.HasKind "TypeArguments" a ∧
      b = ⟨r, a, "generics"⟩ := by
  rw [hr.generics_eq]
  cases hlast : parts.getLast? with
  | none => simp
  | some last =>
    have hkind := (hspells.of_reference hr).2 last (List.mem_of_getLast? hlast)
    obtain ⟨i, a, hp, -, -, harguments⟩ := hspells.part last hkind
    rw [Option.elim_some, hp.partGenerics_eq]
    constructor
    · intro h
      cases a with
      | none => cases h
      | some a =>
        cases h
        exact ⟨last, a, rfl, hp.arguments, harguments a rfl, rfl⟩
    · rintro ⟨_, a', hlast', ha', -, rfl⟩
      cases hlast'
      cases hp.arguments.symm.trans ha'
      rfl

/-- The generics of a reference can be read, and whether there are any is what they say. -/
theorem hasGenerics_of_generics {b : ListBinding} (hb : t.generics r = .ok b) :
    ∃ types, t.children b.target b.field = .ok types ∧ t.hasGenerics r = .ok (!types.isEmpty) := by
  obtain ⟨last, a, hlast, -, ha, rfl⟩ := (generics_eq_ok hspells hr).1 hb
  obtain ⟨types, htypes, -⟩ := hspells.arguments a ha
  have hparts : parts ≠ [] := List.ne_nil_of_mem (List.mem_of_getLast? hlast)
  refine ⟨types, htypes.types, ?_⟩
  rw [hr.hasGenerics_eq hparts, hb]
  exact congrArg (Except.map _) htypes.types

end Generics

end Tree

/-- In a reachable tree over the standard templates and any others, the text of a reference is there
just if all parts that the reference reaches have an identifier and type arguments; the bound on the
nesting is never in the way, nor ever used up, for it does not matter what would be answered then.
If it is not there, the error says what the first part lacks that is
not complete, in the order of a walk from the reference, which is the order of the text. The
generics of a reference are those of its last part, and are there just if that part exists and has
type arguments. A reference without parts has none, and any other has some just if the list that
they are bound to is not empty. -/
theorem typeName_ok_iff_complete {ts : List Template} {s : Schema} (hs : Schema.generate ts = .ok s)
    (hstd : Standard.templates ⊆ ts) {t : Tree s.signature} (ht : t.Reachable) {r : NodeId}
    (hr : t.HasKind TypeName.reference r) :
    (∀ bound, t.size ≤ bound → t.refText bound r = t.typeName r ∧
      ∀ stop, t.refTextOr stop bound r = t.typeName r) ∧
    ((∃ text, t.typeName r = .ok text) ↔ ∀ p, t.Reaches r p → t.Complete p) ∧
    (∀ e, t.typeName r = .error e → ∃ before p after, t.walk r = before ++ p :: after ∧
      (∀ q ∈ before, t.Reaches r q → t.Complete q) ∧ t.Reaches r p ∧ t.Lacks p e) ∧
    ∃ parts, t.children r "parts" = .ok parts ∧
      (∀ b, t.generics r = .ok b ↔ ∃ last a, parts.getLast? = some last ∧
        t.child last "type_arguments" = .ok (some a) ∧ t.HasKind "TypeArguments" a ∧
        b = ⟨r, a, "generics"⟩) ∧
      (parts = [] → t.hasGenerics r = .ok false) ∧
      (parts ≠ [] → ((∃ flag, t.hasGenerics r = .ok flag) ↔ ∃ b, t.generics r = .ok b)) ∧
      ∀ b, t.generics r = .ok b → ∃ types, t.children b.target b.field = .ok types ∧
        t.hasGenerics r = .ok (!types.isEmpty) := by
  have hσ := resolved_of_generate hs
  have hconf := ht.conforms hσ
  have hf := ht.forest hσ
  obtain ⟨hts, rfl⟩ := generate_eq_ok_iff.1 hs
  have hspells := spellsTypes hts hstd hconf
  have htells : t.Tells (t.Reaches r) (t.walk r) (t.typeName r) :=
    Tree.tells_refText hspells hf hr (Nat.le_add_right _ _)
  obtain ⟨parts, w, dims, hview, -⟩ := hspells.reference r hr
  refine ⟨fun bound hbound => ?_, ⟨?_, fun hall => ?_⟩, fun e he => ?_, parts, hview.parts,
    fun b => Tree.generics_eq_ok hspells hview, ?_, fun hparts => ⟨?_, ?_⟩,
    fun b hb => Tree.hasGenerics_of_generics hspells hview hb⟩
  · have hsame : t.extend [] = t := by simp [Tree.extend]
    have hbisim := Tree.bisim_extend hconf hf []
    rw [hsame] at hbisim
    have hany : ∀ stop, t.refTextOr stop bound r = t.typeName r := fun stop => by
      rw [Tree.typeName, Tree.refText_eq_refTextOr]
      exact hbisim.refTextOr_eq hf ⟨hr.lt_size, rfl⟩ stop _ (Nat.le_add_right_of_le hbound)
        (Nat.le_add_right _ _)
    exact ⟨by rw [Tree.refText_eq_refTextOr, hany], hany⟩
  · rintro ⟨text, htext⟩ p hp
    rw [htext] at htells
    exact htells p ((hf.mem_walk hr.lt_size).2 (hp.leads hspells hf)) hp
  · cases htext : t.typeName r with
    | ok text => exact ⟨text, rfl⟩
    | error e =>
      rw [htext] at htells
      obtain ⟨-, p, -, -, -, hp, hlacks⟩ := htells
      exact absurd (hall p hp) hlacks.not_complete
  · rwa [he] at htells
  · rintro rfl
    exact hview.hasGenerics_of_nil
  · rintro ⟨flag, hflag⟩
    rw [hview.hasGenerics_eq hparts] at hflag
    obtain ⟨b, hb, -⟩ := bind_eq_ok.1 hflag
    exact ⟨b, hb⟩
  · rintro ⟨b, hb⟩
    obtain ⟨types, -, hflag⟩ := Tree.hasGenerics_of_generics hspells hview hb
    exact ⟨_, hflag⟩

/-- Reference 10 stood for `Map<?, K>`. The part 1 of its unbound argument 3 lost its identifier to
part 4 of the argument 6, which then lost its type arguments to part 1. -/
def bereftTree : Tree Standard.schema.signature :=
  (Tree.empty.applyAll
    [.build "Identifier" [.data "name" (.text "K")],
     .build "TypeReferencePart" [.child "identifier" 0],
     .build "TypeReference" [.children "parts" [1], .data "wildcard" (.wildcard .unbound)],
     .build "TypeReferencePart" [.child "identifier" 0],
     .build "TypeReference" [.children "parts" [4]],
     .build "Identifier" [.data "name" (.text "Map")],
     .build "TypeReferencePart" [.child "identifier" 7],
     .editList (.field 9 "generics") (.addToEnd 3),
     .editList (.field 9 "generics") (.addToEnd 6),
     .build "TypeReference" [.children "parts" [8]],
     .setChild 1 "type_arguments" (some 5)]).1

theorem reachable_bereftTree : bereftTree.Reachable :=
  Tree.Reachable.empty.applyAll (by decide +kernel)

/-- The walk from 10 comes to part 1 before part 4, but part 1 is not reached. -/
theorem typeName_ok_iff_complete_bereftTree :
    Schema.generate Standard.templates = .ok Standard.schema ∧ bereftTree.Reachable ∧
      bereftTree.HasKind TypeName.reference 10 ∧
      bereftTree.walk 10 = [10, 8, 7, 9, 3, 1, 5, 6, 4, 0] ∧
      bereftTree.Lacks 1 (.contract TypeName.part "identifier" .missing) ∧
      bereftTree.typeName 10 = .error (.contract TypeName.part "type_arguments" .missing) ∧
      (∃ before p after, [10, 8, 7, 9, 3, 1, 5, 6, 4, 0] = before ++ p :: after ∧
        (∀ q ∈ before, bereftTree.Reaches 10 q → bereftTree.Complete q) ∧
        bereftTree.Reaches 10 p ∧
        bereftTree.Lacks p (.contract TypeName.part "type_arguments" .missing)) ∧
      bereftTree.generics 10 = .ok ⟨10, 9, "generics"⟩ ∧ bereftTree.hasGenerics 10 = .ok true := by
  have hkind : bereftTree.HasKind TypeName.reference 10 := by decide +kernel
  have hwalk : bereftTree.walk 10 = [10, 8, 7, 9, 3, 1, 5, 6, 4, 0] := by decide +kernel
  have hpart : bereftTree.IsPart 1 none (some 5) := by decide +kernel
  have herror : bereftTree.typeName 10 =
      .error (.contract TypeName.part "type_arguments" .missing) := by decide +kernel
  have hbound : bereftTree.generics 10 = .ok ⟨10, 9, "generics"⟩ := by decide +kernel
  have htypes : bereftTree.children 9 "generics" = .ok [3, 6] := by decide +kernel
  obtain ⟨-, -, hfirst, parts, -, -, -, -, hgenerics⟩ := typeName_ok_iff_complete
    Standard.generate_templates (List.Subset.refl _) reachable_bereftTree hkind
  obtain ⟨types, htypes', hflag⟩ := hgenerics _ hbound
  cases htypes.symm.trans htypes'
  exact ⟨Standard.generate_templates, reachable_bereftTree, hkind, hwalk, .identifier hpart, herror,
    hwalk ▸ hfirst _ herror, hbound, hflag⟩

end Arbor
