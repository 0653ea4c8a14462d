import Mathlib.Data.List.TakeWhile
import Arbor.Proofs.RawForm

/-!
# The texts of operators

Trimming a text takes the blanks off its two ends and nothing else: a text is its trimmed form
between blanks, and blanks around a text do not change its trimmed form. So a closed registry reads
exactly the texts that consist of a symbol between blanks. Every other text is refused with an error
that holds the text as it was given and ends with its trimmed form.
-/

namespace Arbor

/-! ## Trimming -/

namespace Text

/-- The text has no characters but blanks. -/
def Blank (s : String) : Prop :=
  ∀ c ∈ s.toList, isBlank c = true

theorem dropWhile_blanks {before : List Char} (h : ∀ c ∈ before, isBlank c = true)
    (cs : List Char) : (before ++ cs).dropWhile isBlank = cs.dropWhile isBlank := by
  rw [List.dropWhile_append, List.dropWhile_eq_nil_iff.2 h]
  rfl

theorem trimList_blanks {before after : List Char} (hb : ∀ c ∈ before, isBlank c = true)
    (ha : ∀ c ∈ after, isBlank c = true) (cs : List Char) :
    trimList (before ++ cs ++ after) = trimList cs := by
  unfold trimList
  rw [List.append_assoc, dropWhile_blanks hb, List.dropWhile_append]
  split
  · -- nothing is left of `cs`, so the blanks after it are dropped from the front
    next hempty => rw [List.dropWhile_eq_nil_iff.2 ha, List.isEmpty_iff.1 hempty]
  · have hrev : ∀ c ∈ after.reverse, isBlank c = true := fun c hc => ha c (List.mem_reverse.1 hc)
    rw [List.reverse_append, dropWhile_blanks hrev]

theorem exists_blanks_trimList (cs : List Char) :
    ∃ before after, (∀ c ∈ before, isBlank c = true) ∧ (∀ c ∈ after, isBlank c = true) ∧
      cs = before ++ trimList cs ++ after := by
  let rest := (cs.dropWhile isBlank).reverse
  refine ⟨cs.takeWhile isBlank, (rest.takeWhile isBlank).reverse, fun c hc =>
    List.mem_takeWhile_imp hc, fun c hc => List.mem_takeWhile_imp (List.mem_reverse.1 hc), ?_⟩
  have hrest : trimList cs ++ (rest.takeWhile isBlank).reverse = cs.dropWhile isBlank := by
    rw [trimList, ← List.reverse_append, List.takeWhile_append_dropWhile, List.reverse_reverse]
  rw [List.append_assoc, hrest, List.takeWhile_append_dropWhile]

theorem trim_blanks {before after : String} (hb : Blank before) (ha : Blank after)
    (text : String) : trim (before ++ text ++ after) = trim text := by
  rw [trim, String.toList_append, String.toList_append, trimList_blanks hb ha, trim]

/-- A text is its trimmed form between blanks. -/
theorem exists_blanks_trim (text : String) :
    ∃ before after, Blank before ∧ Blank after ∧ text = before ++ trim text ++ after := by
  obtain ⟨before, after, hb, ha, htext⟩ := exists_blanks_trimList text.toList
  refine ⟨String.ofList before, String.ofList after, ?_, ?_, ?_⟩
  · simpa [Blank] using hb
  · simpa [Blank] using ha
  · rw [trim, ← String.ofList_append, ← String.ofList_append, ← htext, String.ofList_toList]

end Text

/-! ## The language of a registry -/

namespace Operator

variable {α : Type} [Operator α]

/-- The text is the symbol of the operator, with any blanks around it. -/
def Spells (text : String) (op : α) : Prop :=
  ∃ before after, Text.Blank before ∧ Text.Blank after ∧ text = before ++ symbol op ++ after

theorem Closed.spells_iff (h : Closed α) {text : String} {op : α} :
    Spells text op ↔ symbol op = Text.trim text := by
  constructor
  · rintro ⟨before, after, hb, ha, rfl⟩
    rw [Text.trim_blanks hb ha, h.plain]
  · intro hop
    obtain ⟨before, after, hb, ha, htext⟩ := Text.exists_blanks_trim text
    exact ⟨before, after, hb, ha, by rwa [hop]⟩

theorem Closed.symbol_injective (h : Closed α) {op other : α} (heq : symbol op = symbol other) :
    op = other :=
  List.inj_on_of_nodup_map h.symbols (h.complete op) (h.complete other) heq

/-- The error for a text that is not a symbol between blanks. -/
theorem parse_of_ofSymbol?_eq_none {text : String}
    (h : (ofSymbol? (Text.trim text) : Option α) = none) :
    (parse (some text) : Except Malformed α) =
      .error ⟨label α, some text, "unknown " ++ label α ++ ": " ++ Text.trim text⟩ := by
  rw [parse, h]

/-- The message of an error ends as its complaint does. -/
theorem exists_message_eq (label : String) (text : Option String) (start rest : String) :
    ∃ before, (Error.rawForm ⟨label, text, start ++ rest⟩).message = before ++ rest :=
  ⟨"malformed raw form for " ++ ticked label ++ ": " ++ start, (String.append_assoc ..).symm⟩

/-- The registry reads the texts that spell an operator and refuses all others, and it has one
operator for a text at most. -/
structure ReadsExactly (α : Type) [Operator α] : Prop where
  reads_iff : ∀ (text : String) (op : α), parse (some text) = .ok op ↔ Spells text op
  reads_symbol : ∀ op : α, parse (some (symbol op)) = .ok op
  symbol_read : ∀ (text : String) (op : α), parse (some text) = .ok op →
    symbol op = Text.trim text
  unambiguous : ∀ (text : String) (op other : α), Spells text op → Spells text other → op = other
  refuses : ∀ text : String, (∀ op : α, ¬ Spells text op) →
    ∃ m, (parse (some text) : Except Malformed α) = .error m ∧ m.text = some text ∧
      (∃ start, m.complaint = start ++ Text.trim text) ∧
      ∃ start, (Error.rawForm m).message = start ++ Text.trim text
  refuses_absent : ∃ m, (parse none : Except Malformed α) = .error m ∧ m.text = none

theorem Closed.readsExactly (h : Closed α) : ReadsExactly α where
  reads_iff text op := by rw [h.parse_eq_ok, h.spells_iff]
  reads_symbol op := h.parse_eq_ok.2 (h.plain op).symm
  symbol_read _ _ := h.parse_eq_ok.1
  unambiguous text op other hop hother :=
    h.symbol_injective ((h.spells_iff.1 hop).trans (h.spells_iff.1 hother).symm)
  refuses text hno := by
    have hnone : (ofSymbol? (Text.trim text) : Option α) = none := by
      refine Option.eq_none_iff_forall_ne_some.2 fun op hop => hno op ?_
      exact h.spells_iff.2 (h.ofSymbol?_eq_some.1 hop)
    exact ⟨_, parse_of_ofSymbol?_eq_none hnone, rfl, ⟨_, rfl⟩, exists_message_eq ..⟩
  refuses_absent := ⟨_, rfl, rfl⟩

end Operator

/-- Both registries read exactly the texts that consist of a symbol between blanks. -/
theorem operators_read_exactly :
    Operator.ReadsExactly BinaryOperator ∧ Operator.ReadsExactly UnaryOperator :=
  ⟨BinaryOperator.closed.readsExactly, UnaryOperator.closed.readsExactly⟩

end Arbor
