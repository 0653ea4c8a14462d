import Arbor.Proofs.References

/-!
# Type expressions

A type expression is what a type reference stands for: named parts with type arguments, and array
dimensions. It is written as a text, up to how the texts of its parts are joined. A reference has a
text just if it stands for a type, and the text is that type as it is written.

The parts are not joined as one would expect. A dot is put before a part only if something has been
written before, so parts at the start that are written as nothing leave no dot behind. This shortens
the text of a type exactly if the type, or one that is written within it, starts with such a part
and has another one.
-/

namespace Arbor

mutual

/-- A type: its parts, from the outermost name on, and the number of its array dimensions. -/
inductive TypeExpr where
  | mk (parts : List TypePart) (dims : Nat)

/-- A name with type arguments. -/
inductive TypePart where
  | mk (name : String) (args : List TypeArgument)

/-- A type argument: an unbound wildcard, or a type with a bound. -/
inductive TypeArgument where
  | any
  | of (bound : Bound) (type : TypeExpr)

end

def TypePart.args : TypePart → List TypeArgument
  | mk _ args => args

namespace TypeExpr

theorem sizeOf_lt_of_mem_args {parts : List TypePart} {p : TypePart} (hp : p ∈ parts) {b : Bound}
    {e : TypeExpr} (he : .of b e ∈ p.args) : sizeOf e < sizeOf parts := by
  have hpart := List.sizeOf_lt_of_mem hp
  have harg := List.sizeOf_lt_of_mem he
  cases p
  simp only [TypePart.args, TypePart.mk.sizeOf_spec, TypeArgument.of.sizeOf_spec] at hpart harg
  omega

/-- What holds of a type whenever it holds of the types among the arguments of its parts holds of
all types. -/
theorem nested_induction {P : TypeExpr → Prop}
    (step : ∀ parts dims, (∀ p ∈ parts, ∀ b e, .of b e ∈ p.args → P e) → P ⟨parts, dims⟩) :
    ∀ e, P e
  | ⟨parts, dims⟩ => step parts dims fun _ hp _ e he =>
    have := sizeOf_lt_of_mem_args hp he
    nested_induction step e
termination_by e => sizeOf e

end TypeExpr

/-! ## Writing -/

section Written

variable (join : List String → String)

mutual

/-- The text of a type, where `join` joins the texts of its parts. -/
def TypeExpr.written : TypeExpr → String
  | ⟨parts, dims⟩ => join (TypePart.texts parts) ++ brackets dims

def TypePart.written : TypePart → String
  | ⟨name, args⟩ => withArguments name (TypeArgument.texts args)

def TypeArgument.written : TypeArgument → String
  | .any => "?"
  | .of b e => b.mark ++ e.written

def TypePart.texts : List TypePart → List String
  | [] => []
  | p :: ps => p.written :: TypePart.texts ps

def TypeArgument.texts : List TypeArgument → List String
  | [] => []
  | a :: as => a.written :: TypeArgument.texts as

end

theorem TypePart.texts_eq (ps : List TypePart) : texts join ps = ps.map (written join) := by
  induction ps with
  | nil => rfl
  | cons p ps ih => rw [texts, ih, List.map_cons]

theorem TypeArgument.texts_eq (as : List TypeArgument) : texts join as = as.map (written join) := by
  induction as with
  | nil => rfl
  | cons a as ih => rw [texts, ih, List.map_cons]

end Written

/-! ## Denotation -/

section Denotation

variable {σ : Signature}

mutual

/-- The reference stands for the type. -/
inductive Tree.Denotes (t : Tree σ) : NodeId → TypeExpr → Prop where
  | mk {r : NodeId} {parts : List NodeId} {w : Wildcard} {dims : Nat} {ps : List TypePart} :
      t.IsReference r parts w dims → List.Forall₂ (PartDenotes t) parts ps →
      Denotes t r ⟨ps, dims⟩

/-- The part of a reference stands for the named part of a type. -/
inductive Tree.PartDenotes (t : Tree σ) : NodeId → TypePart → Prop where
  | mk {p i a : NodeId} {name : String} {types : List NodeId} {args : List TypeArgument} :
      t.IsPart p (some i) (some a) → t.IsIdentifier i name → t.IsArguments a types →
      List.Forall₂ (ArgumentDenotes t) types args → PartDenotes t p ⟨name, args⟩

/-- The reference stands for the type argument. Of an unbound one only the wildcard counts. -/
inductive Tree.ArgumentDenotes (t : Tree σ) : NodeId → TypeArgument → Prop where
  | any {g : NodeId} {parts : List NodeId} {dims : Nat} :
      t.IsReference g parts .unbound dims → ArgumentDenotes t g .any
  | of {g : NodeId} {parts : List NodeId} {w : Wildcard} {dims : Nat} {b : Bound} {e : TypeExpr} :
      t.IsReference g parts w dims → Bound.ofWildcard? w = some b → Denotes t g e →
      ArgumentDenotes t g (.of b e)

end

namespace Tree

variable {t : Tree σ}

theorem IsReference.denotes_iff {r : NodeId} {parts : List NodeId} {w : Wildcard} {dims : Nat}
    (h : t.IsReference r parts w dims) {e : TypeExpr} :
    t.Denotes r e ↔ ∃ ps, List.Forall₂ t.PartDenotes parts ps ∧ e = ⟨ps, dims⟩ := by
  constructor
  · rintro ⟨h', hparts⟩
    obtain ⟨rfl, rfl, rfl⟩ := h.unique h'
    exact ⟨_, hparts, rfl⟩
  · rintro ⟨ps, hparts, rfl⟩
    exact ⟨h, hparts⟩

theorem IsPart.partDenotes_iff {p i a : NodeId} {name : String} {types : List NodeId}
    (h : t.IsPart p (some i) (some a)) (hi : t.IsIdentifier i name) (ha : t.IsArguments a types)
    {q : TypePart} :
    t.PartDenotes p q ↔ ∃ args, List.Forall₂ t.ArgumentDenotes types args ∧ q = ⟨name, args⟩ := by
  constructor
  · rintro ⟨h', hi', ha', hargs⟩
    obtain ⟨hident, harguments⟩ := h.unique h'
    cases hident
    cases harguments
    cases hi.unique hi'
    cases ha.unique ha'
    exact ⟨_, hargs, rfl⟩
  · rintro ⟨args, hargs, rfl⟩
    exact ⟨h, hi, ha, hargs⟩

theorem IsReference.argumentDenotes_any {g : NodeId} {parts : List NodeId} {dims : Nat}
    (h : t.IsReference g parts .unbound dims) {x : TypeArgument} :
    t.ArgumentDenotes g x ↔ x = .any := by
  constructor
  · rintro (h' | ⟨h', hb, -⟩)
    · rfl
    · obtain ⟨-, rfl, -⟩ := h.unique h'
      cases hb
  · rintro rfl
    exact .any h

theorem IsReference.argumentDenotes_of {g : NodeId} {parts : List NodeId} {w : Wildcard}
    {dims : Nat} (h : t.IsReference g parts w dims) {b : Bound} (hb : Bound.ofWildcard? w = some b)
    {x : TypeArgument} : t.ArgumentDenotes g x ↔ ∃ e, t.Denotes g e ∧ x = .of b e := by
  constructor
  · rintro (h' | ⟨h', hb', he⟩)
    · obtain ⟨-, rfl, -⟩ := h.unique h'
      cases hb
    · obtain ⟨-, rfl, -⟩ := h.unique h'
      cases hb.symm.trans hb'
      exact ⟨_, he, rfl⟩
  · rintro ⟨e, he, rfl⟩
    exact .of h hb he

theorem forall₂_unique {α β : Type} {R : α → β → Prop} {as : List α} {bs bs' : List β}
    (h : List.Forall₂ R as bs) (h' : List.Forall₂ R as bs')
    (hR : ∀ b ∈ bs, ∀ a b', R a b → R a b' → b = b') : bs = bs' := by
  induction h generalizing bs' with
  | nil =>
    cases h'
    rfl
  | cons hab _ ih =>
    cases h' with
    | cons hab' hrest' =>
      obtain ⟨hb, hbs⟩ := List.forall_mem_cons.1 hR
      rw [hb _ _ hab hab', ih hrest' hbs]

/-- A reference stands for one type only. -/
theorem Denotes.unique {r : NodeId} {e e' : TypeExpr} (h : t.Denotes r e) (h' : t.Denotes r e') :
    e = e' := by
  -- The views of the nodes on the way are unique, so both types branch alike down to the arguments.
  induction e using TypeExpr.nested_induction generalizing r e' with
  | step ps dims ih =>
    cases h with
    | mk hr hparts =>
      obtain ⟨ps', hparts', rfl⟩ := hr.denotes_iff.1 h'
      refine congrArg (TypeExpr.mk · dims) (forall₂_unique hparts hparts' ?_)
      intro q hq p q' hpq hpq'
      cases hpq with
      | mk hp hi ha hargs =>
        obtain ⟨args', hargs', rfl⟩ := (hp.partDenotes_iff hi ha).1 hpq'
        refine congrArg (TypePart.mk _) (forall₂_unique hargs hargs' ?_)
        intro x hx g x' hgx hgx'
        cases hgx with
        | any hg => exact (hg.argumentDenotes_any.1 hgx').symm
        | @of _ _ _ _ b e hg hb he =>
          obtain ⟨e', he', rfl⟩ := (hg.argumentDenotes_of hb).1 hgx'
          exact congrArg (TypeArgument.of b) (ih _ hq b e hx he he')

end Tree

end Denotation

/-! ## The text of a reference -/

/-- The answer is a result just if something has the property `D`, and then it is what `f` makes of
it. -/
def Gives {α β : Type} (D : α → Prop) (f : α → β) (x : Except Error β) : Prop :=
  ∀ b, x = .ok b ↔ ∃ a, D a ∧ b = f a

namespace Gives

variable {α β γ : Type} {D : α → Prop} {f : α → β} {x : Except Error β}

theorem error (hD : ∀ a, ¬ D a) (e : Error) : Gives D f (.error e) := by
  intro b
  constructor
  · intro h
    cases h
  · rintro ⟨a, ha, -⟩
    exact absurd ha (hD a)

theorem map (h : Gives D f x) (g : β → γ) : Gives D (fun a => g (f a)) (x.map g) := by
  intro c
  simp only [map_eq_ok, h _]
  constructor
  · rintro ⟨_, ⟨a, ha, rfl⟩, rfl⟩
    exact ⟨a, ha, rfl⟩
  · rintro ⟨a, ha, rfl⟩
    exact ⟨f a, ⟨a, ha, rfl⟩, rfl⟩

/-- A property can be changed for one whose bearers are made from those of the first. -/
theorem of_iff {D' : γ → Prop} {g : γ → β} {k : α → γ} (h : Gives D (fun a => g (k a)) x)
    (hD : ∀ c, D' c ↔ ∃ a, D a ∧ c = k a) : Gives D' g x := by
  intro b
  rw [h b]
  constructor
  · rintro ⟨a, ha, rfl⟩
    exact ⟨k a, (hD _).2 ⟨a, ha, rfl⟩, rfl⟩
  · rintro ⟨c, hc, rfl⟩
    obtain ⟨a, ha, rfl⟩ := (hD c).1 hc
    exact ⟨a, ha, rfl⟩

theorem mapM {D : γ → α → Prop} {answer : γ → Except Error β} {cs : List γ}
    (h : ∀ c ∈ cs, Gives (D c) f (answer c)) :
    Gives (List.Forall₂ D cs) (List.map f) (cs.mapM answer) := by
  intro bs
  induction cs generalizing bs with
  | nil =>
    simp only [List.mapM_nil, pure_eq_ok, List.forall₂_nil_left_iff, exists_eq_left, List.map_nil]
    exact eq_comm
  | cons c cs ih =>
    obtain ⟨hc, hcs⟩ := List.forall_mem_cons.1 h
    simp only [List.mapM_cons, bind_eq_ok, pure_eq_ok, hc _, ih hcs, List.forall₂_cons_left_iff]
    constructor
    · rintro ⟨_, ⟨a, ha, rfl⟩, _, ⟨as, has, rfl⟩, rfl⟩
      exact ⟨a :: as, ⟨a, as, ha, has, rfl⟩, rfl⟩
    · rintro ⟨_, ⟨a, as, ha, has, rfl⟩, rfl⟩
      exact ⟨f a, ⟨a, ha, rfl⟩, as.map f, ⟨as, has, rfl⟩, rfl⟩

end Gives

section Texts

variable {σ : Signature} {t : Tree σ}

theorem gives_argumentText {text : NodeId → Except Error String} {join : List String → String}
    {g : NodeId} {parts : List NodeId} {w : Wildcard} {dims : Nat}
    (hg : t.IsReference g parts w dims)
    (h : Gives (t.Denotes g) (TypeExpr.written join) (text g)) :
    Gives (t.ArgumentDenotes g) (TypeArgument.written join) (t.argumentText text g) := by
  cases hb : Bound.ofWildcard? w with
  | none =>
    obtain rfl := Bound.ofWildcard?_eq_none.1 hb
    rw [hg.argumentText_of_unbound]
    intro s
    simp only [hg.argumentDenotes_any, exists_eq_left, Except.ok.injEq]
    exact eq_comm
  | some b =>
    rw [hg.argumentText_eq hb]
    exact Gives.of_iff (k := .of b) (h.map (b.mark ++ ·)) fun _ => hg.argumentDenotes_of hb

theorem gives_partText (hspells : t.SpellsTypes) {text : NodeId → Except Error String}
    {join : List String → String} {p : NodeId} (hp : t.HasKind TypeName.part p)
    (h : ∀ i a types, t.IsPart p i (some a) → t.IsArguments a types → ∀ g ∈ types,
      Gives (t.Denotes g) (TypeExpr.written join) (text g)) :
    Gives (t.PartDenotes p) (TypePart.written join) (t.partText text p) := by
  rcases hspells.part_cases hp with ⟨a, hpart⟩ | ⟨i, name, hpart, hname⟩ |
    ⟨i, a, name, types, hpart, hname, htypes⟩
  · rw [hpart.partText_of_no_identifier]
    refine .error ?_ _
    rintro _ ⟨hpart', -⟩
    cases (hpart.unique hpart').1
  · rw [hpart.partText_of_no_arguments hname]
    refine .error ?_ _
    rintro _ ⟨hpart', -⟩
    cases (hpart.unique hpart').2
  · have hargs : ∀ g ∈ types, Gives (t.ArgumentDenotes g) (TypeArgument.written join)
        (t.argumentText text g) := by
      intro g hg
      have hkind := (hspells.of_arguments htypes).2 g hg
      obtain ⟨parts, w, dims, hview, -⟩ := hspells.reference g hkind
      exact gives_argumentText hview (h _ a types hpart htypes g hg)
    rw [hpart.partText_eq hname htypes]
    refine Gives.of_iff (k := .mk name) ?_ fun _ => hpart.partDenotes_iff hname htypes
    simp only [TypePart.written, TypeArgument.texts_eq]
    exact (Gives.mapM hargs).map (withArguments name)

/-- A reference has a text just if it stands for a type, and the text is that of the type. The bound
is not in the way if it makes up for the ancestors that the reference lacks. -/
theorem gives_refText (hspells : t.SpellsTypes) (hf : t.Forest) {bound : Nat} {r : NodeId}
    (hr : t.HasKind TypeName.reference r) (hbound : t.size ≤ bound + (t.ancestors r).length) :
    Gives (t.Denotes r) (TypeExpr.written (List.foldl Tree.dotted "")) (t.refText bound r) := by
  refine hspells.bounded_induction hf (P := fun bound r => Gives (t.Denotes r)
    (TypeExpr.written (List.foldl Tree.dotted "")) (t.refText bound r)) ?_ hr hbound
  intro bound r hr ih
  obtain ⟨parts, w, dims, hview, -, hkinds⟩ := hspells.reference r hr
  have hparts : ∀ p ∈ parts, Gives (t.PartDenotes p) (TypePart.written (List.foldl Tree.dotted ""))
      (t.partText (t.refText bound) p) := fun p hp =>
    gives_partText hspells (hkinds p hp) fun i a types hpart htypes g hg =>
      ih g ⟨parts, w, dims, p, i, a, types, hview, hp, hpart, htypes, hg⟩
  rw [hview.refText_succ]
  refine Gives.of_iff (k := fun ps => .mk ps dims) ?_ fun _ => hview.denotes_iff
  simp only [TypeExpr.written, TypePart.texts_eq]
  exact (Gives.mapM hparts).map fun texts => texts.foldl Tree.dotted "" ++ brackets dims

end Texts

/-! ## Joining with dots -/

/-- Joins the texts of parts with dots. Empty texts at the start are passed over. -/
def joinParts (texts : List String) : String :=
  ".".intercalate (texts.dropWhile (· = ""))

theorem foldl_dotted_of_ne {name : String} (h : name ≠ "") (texts : List String) :
    texts.foldl Tree.dotted name = ".".intercalate (name :: texts) := by
  induction texts generalizing name with
  | nil => rw [List.foldl_nil, String.intercalate_singleton]
  | cons text texts ih =>
    have hname : name ++ "." ++ text ≠ "" := by simp [h]
    rw [List.foldl_cons, Tree.dotted, if_neg h, ih hname, String.intercalate_cons_append,
      String.intercalate_cons_cons]

theorem joinParts_cons_empty (texts : List String) : joinParts ("" :: texts) = joinParts texts := by
  rw [joinParts, List.dropWhile_cons_of_pos (by simp), joinParts]

theorem joinParts_cons_of_ne {text : String} (h : text ≠ "") (texts : List String) :
    joinParts (text :: texts) = ".".intercalate (text :: texts) := by
  rw [joinParts, List.dropWhile_cons_of_neg (by simpa using h)]

/-- Parts that are added one after the other come to be joined, empty ones at the start aside. -/
theorem foldl_dotted (texts : List String) : texts.foldl Tree.dotted "" = joinParts texts := by
  induction texts with
  | nil => rfl
  | cons text texts ih =>
    rw [List.foldl_cons, Tree.dotted, if_pos rfl]
    by_cases h : text = ""
    · rw [h, ih, joinParts_cons_empty]
    · rw [foldl_dotted_of_ne h, joinParts_cons_of_ne h]

theorem length_joinParts_le (texts : List String) :
    (joinParts texts).length ≤ (".".intercalate texts).length := by
  induction texts with
  | nil => exact Nat.le_refl _
  | cons text texts ih =>
    by_cases h : text = ""
    · rw [h, joinParts_cons_empty]
      refine Nat.le_trans ih ?_
      cases texts with
      | nil => simp
      | cons next texts => simp [String.intercalate_cons_cons]
    · exact Nat.le_of_eq (congrArg String.length (joinParts_cons_of_ne h texts))

/-- The text `c` is `p` if `Q` holds, and is shorter than `p` if not. -/
structure Shortens (Q : Prop) (c p : String) : Prop where
  eq : Q → c = p
  lt : ¬ Q → c.length < p.length

namespace Shortens

variable {Q Q' : Prop} {c c' p p' : String}

theorem same (hQ : Q) (s : String) : Shortens Q s s :=
  ⟨fun _ => rfl, fun h => absurd hQ h⟩

theorem length_le (h : Shortens Q c p) : c.length ≤ p.length := by
  by_cases hQ : Q
  · exact Nat.le_of_eq (congrArg String.length (h.eq hQ))
  · exact Nat.le_of_lt (h.lt hQ)

theorem eq_iff (h : Shortens Q c p) : c = p ↔ Q := by
  refine ⟨fun heq => ?_, h.eq⟩
  by_contra hQ
  have hlt := h.lt hQ
  rw [heq] at hlt
  exact Nat.lt_irrefl _ hlt

theorem iff (h : Shortens Q c p) (hQ : Q ↔ Q') : Shortens Q' c p :=
  ⟨fun h' => h.eq (hQ.2 h'), fun h' => h.lt fun hq => h' (hQ.1 hq)⟩

theorem append (h : Shortens Q c p) (h' : Shortens Q' c' p') :
    Shortens (Q ∧ Q') (c ++ c') (p ++ p') := by
  refine ⟨fun ⟨hQ, hQ'⟩ => by rw [h.eq hQ, h'.eq hQ'], fun hnot => ?_⟩
  have hle := h.length_le
  have hle' := h'.length_le
  rw [String.length_append, String.length_append]
  by_cases hQ : Q
  · have hlt := h'.lt fun hQ' => hnot ⟨hQ, hQ'⟩
    omega
  · have hlt := h.lt hQ
    omega

theorem intercalate {α : Type} {l : List α} {Q : α → Prop} {f g : α → String}
    (h : ∀ a ∈ l, Shortens (Q a) (f a) (g a)) (sep : String) :
    Shortens (∀ a ∈ l, Q a) (sep.intercalate (l.map f)) (sep.intercalate (l.map g)) := by
  induction l with
  | nil => exact same (by simp) _
  | cons a l ih =>
    obtain ⟨ha, hl⟩ := List.forall_mem_cons.1 h
    cases l with
    | nil => simpa using ha
    | cons b l =>
      simp only [List.map_cons, String.intercalate_cons_cons] at ih ⊢
      refine ((ha.append (same trivial sep)).append (ih hl)).iff ?_
      rw [and_true]
      exact List.forall_mem_cons.symm

theorem withArguments {α : Type} {l : List α} {Q : α → Prop} {f g : α → String}
    (h : ∀ a ∈ l, Shortens (Q a) (f a) (g a)) (name : String) :
    Shortens (∀ a ∈ l, Q a) (withArguments name (l.map f)) (withArguments name (l.map g)) := by
  cases l with
  | nil => exact same (by simp) _
  | cons a l =>
    have hname := same trivial (name ++ "<")
    exact ((hname.append (intercalate h ", ")).append (same trivial ">")).iff (by simp)

/-- To pass over texts at the start shortens a text, unless only one text is passed over and no
other follows. -/
theorem joinParts {α : Type} {l : List α} {Q : α → Prop} {f g : α → String}
    (h : ∀ a ∈ l, Shortens (Q a) (f a) (g a)) :
    Shortens ((∀ a b rest, l = a :: b :: rest → f a ≠ "") ∧ ∀ a ∈ l, Q a)
      (joinParts (l.map f)) (".".intercalate (l.map g)) := by
  cases l with
  | nil => exact same (by simp) _
  | cons a l =>
    by_cases ha : f a = ""
    · cases l with
      | nil =>
        have htext : Arbor.joinParts (List.map f [a]) = ".".intercalate (List.map f [a]) := by
          rw [List.map_singleton, ha]
          rfl
        exact htext ▸ (intercalate h ".").iff (by simp)
      | cons b rest =>
        refine ⟨fun hall => absurd ha (hall.1 a b rest rfl), fun _ => ?_⟩
        -- The dot behind the blank text is lost, and what follows gets no longer.
        calc
          _ = (Arbor.joinParts ((b :: rest).map f)).length := by
            rw [List.map_cons, ha, joinParts_cons_empty]
          _ ≤ (".".intercalate ((b :: rest).map f)).length := length_joinParts_le _
          _ ≤ (".".intercalate ((b :: rest).map g)).length :=
            (intercalate (List.forall_mem_cons.1 h).2 ".").length_le
          _ < (".".intercalate ((a :: b :: rest).map g)).length := by
            have hdot : ".".length = 1 := rfl
            simp only [List.map_cons, String.intercalate_cons_cons, String.length_append]
            omega
    · rw [List.map_cons, joinParts_cons_of_ne ha, ← List.map_cons]
      refine (intercalate h ".").iff (iff_and_self.2 ?_)
      rintro - _ b rest heq
      cases heq
      exact ha

end Shortens

namespace TypeExpr

/-- The type `x` is `e`, or is written within the type arguments of `e`. -/
inductive Within (x : TypeExpr) : TypeExpr → Prop where
  | self : Within x x
  | nested {parts : List TypePart} {dims : Nat} {p : TypePart} {b : Bound} {e : TypeExpr} :
      p ∈ parts → .of b e ∈ p.args → Within x e → Within x ⟨parts, dims⟩

/-- The type has several parts, and the first has no name and no arguments. -/
def StartsBlank : TypeExpr → Prop
  | ⟨parts, _⟩ => ∃ p rest, parts = ⟨"", []⟩ :: p :: rest

/-- No type that is written starts with a blank part. -/
def Plain (e : TypeExpr) : Prop :=
  ∀ x : TypeExpr, x.Within e → ¬ x.StartsBlank

theorem plain_mk {parts : List TypePart} {dims : Nat} : Plain ⟨parts, dims⟩ ↔
    ¬ StartsBlank ⟨parts, dims⟩ ∧ ∀ p ∈ parts, ∀ b e, .of b e ∈ p.args → e.Plain := by
  constructor
  · intro h
    exact ⟨h _ .self, fun p hp b e he x hx => h x (.nested hp he hx)⟩
  · rintro ⟨hstart, hnested⟩ x hx
    cases hx with
    | self => exact hstart
    | nested hp he hx => exact hnested _ hp _ _ he x hx

end TypeExpr

theorem withArguments_eq_empty {name : String} {arguments : List String} :
    withArguments name arguments = "" ↔ name = "" ∧ arguments = [] := by
  cases arguments with
  | nil => simp [withArguments]
  | cons x xs => simp [withArguments]

namespace TypePart

theorem written_eq_empty {join : List String → String} {p : TypePart} :
    p.written join = "" ↔ p = ⟨"", []⟩ := by
  cases p with
  | mk name args =>
    rw [written, withArguments_eq_empty, TypeArgument.texts_eq, List.map_eq_nil_iff, mk.injEq]

/-- The text of a part is shorter than with plain joins if this is so of a type in its arguments. -/
theorem shortens_written {p : TypePart}
    (h : ∀ b e, .of b e ∈ p.args →
      Shortens e.Plain (e.written joinParts) (e.written ".".intercalate)) :
    Shortens (∀ b e, .of b e ∈ p.args → e.Plain) (p.written joinParts)
      (p.written ".".intercalate) := by
  cases p with
  | mk name args =>
    have hargs : ∀ x ∈ args, Shortens (∀ b e, x = .of b e → e.Plain) (x.written joinParts)
        (x.written ".".intercalate) := by
      intro x hx
      cases x with
      | any => exact .same (by simp) _
      | of b e =>
        refine ((Shortens.same trivial b.mark).append (h b e hx)).iff ?_
        simp
    simp only [written, TypeArgument.texts_eq]
    refine (Shortens.withArguments hargs name).iff ?_
    exact ⟨fun h b e he => h _ he b e rfl, fun h x hx b e hxe => h b e (hxe ▸ hx)⟩

end TypePart

namespace TypeExpr

/-- The text of a type is shorter than with plain joins, unless the type is plain. -/
theorem shortens_written (e : TypeExpr) :
    Shortens e.Plain (e.written joinParts) (e.written ".".intercalate) := by
  induction e using nested_induction with
  | step parts dims ih =>
    have hparts : ∀ p ∈ parts, Shortens (∀ b e, .of b e ∈ p.args → e.Plain) (p.written joinParts)
        (p.written ".".intercalate) := fun p hp => TypePart.shortens_written (ih p hp)
    simp only [written, TypePart.texts_eq]
    refine ((Shortens.joinParts hparts).append (.same trivial (brackets dims))).iff ?_
    simp only [and_true, plain_mk, StartsBlank, ne_eq, TypePart.written_eq_empty, not_exists]
    refine and_congr_left' ⟨fun h p rest hparts => h _ p rest hparts rfl, ?_⟩
    rintro h _ p rest hparts rfl
    exact h p rest hparts

end TypeExpr

/-! ## The main statement -/

/-- In a reachable tree over the standard templates and any others, a reference that has a text
stands for one type, and the text is that type as it is written when empty parts at the start are
passed over. It is the type written with a dot between all its parts just if the type is plain. -/
theorem typeName_eq_written {ts : List Template} {s : Schema} (hs : Schema.generate ts = .ok s)
    (hstd : Standard.templates ⊆ ts) {t : Tree s.signature} (ht : t.Reachable) {r : NodeId}
    (hr : t.HasKind TypeName.reference r) {text : String} (htext : t.typeName r = .ok text) :
    ∃ e, (∀ e', t.Denotes r e' ↔ e' = e) ∧ text = e.written joinParts ∧
      (text = e.written ".".intercalate ↔ e.Plain) := by
  have hσ := resolved_of_generate hs
  have hconf := ht.conforms hσ
  have hf := ht.forest hσ
  obtain ⟨hts, rfl⟩ := generate_eq_ok_iff.1 hs
  have hgives := gives_refText (spellsTypes hts hstd hconf) hf hr (Nat.le_add_right _ _)
  obtain ⟨e, he, rfl⟩ := (hgives text).1 htext
  have hjoin : List.foldl Tree.dotted "" = joinParts := funext foldl_dotted
  rw [hjoin]
  refine ⟨e, fun e' => ⟨fun he' => he'.unique he, fun heq => heq ▸ he⟩, rfl, ?_⟩
  exact e.shortens_written.eq_iff

/-- Reference 11 stands for `Map<? super K, ?>.[][]`, whose last part has an empty name. -/
def mapTree : Tree Standard.schema.signature :=
  (Tree.empty.applyAll
    [.build "Identifier" [.data "name" (.text "K")],
     .build "TypeReferencePart" [.child "identifier" 0],
     .build "TypeReference" [.children "parts" [1], .data "wildcard" (.wildcard .lower)],
     .build "TypeReference" [.data "wildcard" (.wildcard .unbound)],
     .build "Identifier" [.data "name" (.text "Map")],
     .build "TypeReferencePart" [.child "identifier" 5],
     .editList (.field 7 "generics") (.addToEnd 3),
     .editList (.field 7 "generics") (.addToEnd 4),
     .build "Identifier" [.data "name" (.text "")],
     .build "TypeReferencePart" [.child "identifier" 8],
     .build "TypeReference" [.children "parts" [6, 9], .data "array_dimensions" (.int 2)]]).1

theorem reachable_mapTree : mapTree.Reachable :=
  Tree.Reachable.empty.applyAll (by decide +kernel)

theorem typeName_eq_written_mapTree :
    Schema.generate Standard.templates = .ok Standard.schema ∧ mapTree.Reachable ∧
      mapTree.HasKind TypeName.reference 11 ∧
      mapTree.typeName 11 = .ok "Map<? super K, ?>.[][]" ∧
      ∃ e, mapTree.Denotes 11 e ∧ e.Plain ∧
        "Map<? super K, ?>.[][]" = e.written ".".intercalate := by
  have hkind : mapTree.HasKind TypeName.reference 11 := by decide +kernel
  have htext : mapTree.typeName 11 = .ok "Map<? super K, ?>.[][]" := by decide +kernel
  have hviews : mapTree.IsReference 11 [6, 9] .none 2 ∧
      (mapTree.IsPart 6 (some 5) (some 7) ∧ mapTree.IsIdentifier 5 "Map" ∧
        mapTree.IsArguments 7 [3, 4]) ∧
      (mapTree.IsPart 9 (some 8) (some 10) ∧ mapTree.IsIdentifier 8 "" ∧
        mapTree.IsArguments 10 []) ∧
      (mapTree.IsReference 3 [1] .lower 0 ∧ mapTree.IsPart 1 (some 0) (some 2) ∧
        mapTree.IsIdentifier 0 "K" ∧ mapTree.IsArguments 2 []) ∧
      mapTree.IsReference 4 [] .unbound 0 := by decide +kernel
  obtain ⟨h11, ⟨h6, h5, h7⟩, ⟨h9, h8, h10⟩, ⟨h3, h1, h0, h2⟩, h4⟩ := hviews
  have hargument : mapTree.Denotes 3 ⟨[⟨"K", []⟩], 0⟩ := .mk h3 (.cons (.mk h1 h0 h2 .nil) .nil)
  have hmap : mapTree.PartDenotes 6 ⟨"Map", [.of .lower ⟨[⟨"K", []⟩], 0⟩, .any]⟩ :=
    .mk h6 h5 h7 (.cons (.of h3 rfl hargument) (.cons (.any h4) .nil))
  obtain ⟨e, honly, -, hplain⟩ := typeName_eq_written Standard.generate_templates
    (List.Subset.refl _) reachable_mapTree hkind htext
  obtain rfl := (honly _).1 (.mk h11 (.cons hmap (.cons (.mk h9 h8 h10 .nil) .nil)))
  have hwritten : TypeExpr.Plain
      ⟨[⟨"Map", [.of .lower ⟨[⟨"K", []⟩], 0⟩, .any]⟩, ⟨"", []⟩], 2⟩ := by
    simp [TypeExpr.plain_mk, TypeExpr.StartsBlank, TypePart.args]
  exact ⟨Standard.generate_templates, reachable_mapTree, hkind, htext, _, (honly _).2 rfl, hwritten,
    hplain.2 hwritten⟩

/-- Reference 6 has two parts, and the name of the first is empty. -/
def blankTree : Tree Standard.schema.signature :=
  (Tree.empty.applyAll
    [.build "Identifier" [.data "name" (.text "")],
     .build "TypeReferencePart" [.child "identifier" 0],
     .build "Identifier" [.data "name" (.text "a")],
     .build "TypeReferencePart" [.child "identifier" 3],
     .build "TypeReference" [.children "parts" [1, 4]]]).1

/-- With a dot between its parts the type is written `.a`, but the text of the reference is `a`. -/
theorem typeName_drops_dot_blankTree :
    blankTree.Reachable ∧ blankTree.HasKind TypeName.reference 6 ∧
      blankTree.typeName 6 = .ok "a" ∧
      ∃ e, (∀ e', blankTree.Denotes 6 e' ↔ e' = e) ∧ e.written ".".intercalate = ".a" := by
  have hviews : blankTree.IsReference 6 [1, 4] .none 0 ∧
      (blankTree.IsPart 1 (some 0) (some 2) ∧ blankTree.IsIdentifier 0 "" ∧
        blankTree.IsArguments 2 []) ∧
      (blankTree.IsPart 4 (some 3) (some 5) ∧ blankTree.IsIdentifier 3 "a" ∧
        blankTree.IsArguments 5 []) := by decide +kernel
  obtain ⟨h6, ⟨h1, h0, h2⟩, ⟨h4, h3, h5⟩⟩ := hviews
  have he : blankTree.Denotes 6 ⟨[⟨"", []⟩, ⟨"a", []⟩], 0⟩ :=
    .mk h6 (.cons (.mk h1 h0 h2 .nil) (.cons (.mk h4 h3 h5 .nil) .nil))
  refine ⟨Tree.Reachable.empty.applyAll (by decide +kernel), h6.kind, by decide +kernel, _,
    fun e' => ⟨fun he' => he'.unique he, fun heq => heq ▸ he⟩, ?_⟩
  decide +kernel

end Arbor
