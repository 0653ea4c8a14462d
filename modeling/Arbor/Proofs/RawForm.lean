import Arbor.Proofs.Effect
import Arbor.Standard

/-!
# Raw forms

A registry of operators is closed: it lists every operator, no two operators share a symbol, and a
symbol has no blanks at its ends. So its codec reads a text exactly if the text is a symbol between
blanks, and writes every operator as its symbol. In a tree the values behind a codec have the type
of the codec, because generation has compared the types and every write of data is checked. So
reading a field as text never fails, and writing back what was read changes nothing.
-/

namespace Arbor

/-! ## Closed registries -/

namespace Operator

/-- The registry lists all operators, under symbols that differ and are not cut by trimming. -/
structure Closed (α : Type) [Operator α] : Prop where
  complete : ∀ op : α, op ∈ all
  symbols : ((all : List α).map symbol).Nodup
  plain : ∀ op : α, Text.trim (symbol op) = symbol op

variable {α : Type} [Operator α]

theorem Closed.ofSymbol?_eq_some (h : Closed α) {text : String} {op : α} :
    ofSymbol? text = some op ↔ symbol op = text := by
  constructor
  · intro hfind
    simpa using List.find?_some hfind
  · rintro rfl
    have hinj := List.inj_on_of_nodup_map h.symbols
    cases hfind : (ofSymbol? (symbol op) : Option α) with
    | none =>
      have hno := List.find?_eq_none.1 hfind op (h.complete op)
      simp at hno
    | some other =>
      have hsame : symbol other = symbol op := by simpa using List.find?_some hfind
      rw [hinj (h.complete other) (h.complete op) hsame]

/-- A text is read as an operator exactly if it is the operator's symbol between blanks. -/
theorem Closed.parse_eq_ok (h : Closed α) {text : String} {op : α} :
    parse (some text) = .ok op ↔ symbol op = Text.trim text := by
  rw [← h.ofSymbol?_eq_some, parse]
  cases (ofSymbol? (Text.trim text) : Option α) <;> simp

theorem Closed.parse_of_not_mem (h : Closed α) {text : String}
    (ht : Text.trim text ∉ (all : List α).map symbol) :
    ∃ complaint, (parse (some text) : Except Malformed α) =
      .error ⟨label α, some text, complaint⟩ := by
  have hnone : (ofSymbol? (Text.trim text) : Option α) = none := by
    cases hfind : (ofSymbol? (Text.trim text) : Option α) with
    | none => rfl
    | some op => exact absurd (List.mem_map.2 ⟨op, h.complete op, h.ofSymbol?_eq_some.1 hfind⟩) ht
  exact ⟨_, by rw [parse, hnone]⟩

end Operator

theorem BinaryOperator.closed : Operator.Closed BinaryOperator where
  complete op := by cases op <;> decide
  symbols := by decide +kernel
  plain op := by cases op <;> decide +kernel

theorem UnaryOperator.closed : Operator.Closed UnaryOperator where
  complete op := by cases op <;> decide
  symbols := by decide +kernel
  plain op := by cases op <;> decide +kernel

/-! ## Codecs of closed registries -/

/-- The symbols of the operators that are values of the type. -/
def DataType.symbols : DataType → List String
  | binaryOperator => BinaryOperator.all.map BinaryOperator.symbol
  | unaryOperator => UnaryOperator.all.map UnaryOperator.symbol
  | bool | int | text | wildcard => []

namespace Codec

/-- The codec writes each value of its type as a symbol, and reads the symbols between blanks and
nothing else. -/
structure Exact (c : Codec) (symbols : List String) : Prop where
  writes : ∀ v, v.type = c.type → ∃ text, c.generate v = some text
  reads_written : ∀ v text, c.generate v = some text → c.parse (some text) = .ok v
  reads : ∀ text, Text.trim text ∈ symbols →
    ∃ v, v.type = c.type ∧ c.parse (some text) = .ok v ∧ c.generate v = some (Text.trim text)
  refuses : ∀ text, Text.trim text ∉ symbols →
    ∃ label complaint, c.parse (some text) = .error (.malformed ⟨label, some text, complaint⟩)

/-- A codec is exact if it reads and writes the operators of a closed registry. -/
theorem exact_of_closed {α : Type} [Operator α] (h : Operator.Closed α) {c : Codec}
    (value : α → Value) (hparse : ∀ text, c.parse text = Operator.read value text)
    (hgenerate : ∀ v text, c.generate v = some text ↔
      ∃ op, v = value op ∧ text = Operator.symbol op)
    (htype : ∀ v, v.type = c.type ↔ ∃ op, v = value op) :
    c.Exact ((Operator.all : List α).map Operator.symbol) where
  writes v hv := by
    obtain ⟨op, rfl⟩ := (htype v).1 hv
    exact ⟨Operator.symbol op, (hgenerate _ _).2 ⟨op, rfl, rfl⟩⟩
  reads_written v text hv := by
    obtain ⟨op, rfl, rfl⟩ := (hgenerate v text).1 hv
    rw [hparse, Operator.read, h.parse_eq_ok.2 (h.plain op).symm]
  reads text ht := by
    obtain ⟨op, -, hop⟩ := List.mem_map.1 ht
    refine ⟨value op, (htype _).2 ⟨op, rfl⟩, ?_, (hgenerate _ _).2 ⟨op, rfl, hop.symm⟩⟩
    rw [hparse, Operator.read, h.parse_eq_ok.2 hop]
  refuses text ht := by
    obtain ⟨complaint, hrefused⟩ := h.parse_of_not_mem ht
    refine ⟨Operator.label α, complaint, ?_⟩
    rw [hparse, Operator.read, hrefused]

theorem exact_binaryOperator : binaryOperator.Exact binaryOperator.type.symbols := by
  refine exact_of_closed BinaryOperator.closed Value.binaryOperator (fun _ => rfl) (fun v text => ?_)
    fun v => ?_
  · cases v <;> simp [binaryOperator, Value.binaryOperator?, Operator.symbol, eq_comm]
  · cases v <;> simp [binaryOperator, Value.type]

theorem exact_unaryOperator : unaryOperator.Exact unaryOperator.type.symbols := by
  refine exact_of_closed UnaryOperator.closed Value.unaryOperator (fun _ => rfl) (fun v text => ?_)
    fun v => ?_
  · cases v <;> simp [unaryOperator, Value.unaryOperator?, Operator.symbol, eq_comm]
  · cases v <;> simp [unaryOperator, Value.type]

end Codec

/-! ## Fields with a codec -/

/-- Generation has compared the type of a codec with the type of its field. -/
theorem codec_typed_of_generate {ts : List Template} {s : Schema} (hs : Schema.generate ts = .ok s)
    {kind : KindId} {k : Kind} (hk : s.signature.kinds[kind]? = some k) {f : Field}
    (hf : f ∈ k.fields) {c : Codec} (hc : f.decl.rawForm = some c) :
    f.decl.type = .data c.type := by
  obtain ⟨hts, rfl⟩ := generate_eq_ok_iff.1 hs
  obtain ⟨declared, hd, rfl⟩ := exists_template hk
  obtain ⟨d, hd', rfl⟩ := List.mem_map.1 hf
  exact ((hts.templates declared (List.mem_of_getElem? hd)).fields d hd').codecTyped c hc

theorem Schema.mem_codecs {s : Schema} {kind : KindId} {k : Kind}
    (hk : s.signature.kinds[kind]? = some k) {f : Field} (hf : f ∈ k.fields) {c : Codec}
    (hc : f.decl.rawForm = some c) : (k.name, f.name, c) ∈ s.codecs := by
  obtain ⟨spec, hspec, rfl⟩ := List.mem_map.1 (List.mem_of_getElem? hk)
  refine List.mem_flatMap.2 ⟨spec, hspec, List.mem_filterMap.2 ⟨f, hf, ?_⟩⟩
  rw [hc]
  rfl

namespace Place

variable {p : Place} {c : Codec}

theorem codec_eq_ok (hc : p.field.decl.rawForm = some c) : p.codec = .ok c := by
  rw [codec, hc]

/-- What a codec refuses is reported for the field. -/
theorem decode_of_error (hc : p.field.decl.rawForm = some c) {text : Option String} {r : Refusal}
    (hv : c.parse text = .error r) :
    p.decode text = .error (r.error.inField (p.kind.name ++ "." ++ p.field.name)) := by
  rw [decode, codec_eq_ok hc]
  simp [bind, Except.bind, hv]

end Place

namespace Tree

variable {σ : Signature} {t t' : Tree σ} {id : NodeId} {field : String} {p : Place} {c : Codec}

theorem apply_setRawForm_of_ok {text : Option String}
    (h : Edit.setRawForm id field text t = .ok () t') :
    t.apply (.setRawForm id field text) = (t', .ok none) := by
  show (Edit.setRawForm id field text >>= fun _ => pure none).outcome t = _
  rw [Edit.outcome_bind, h]
  rfl

/-- A text that the codec does not read is refused under the name of the field. -/
theorem apply_setRawForm_of_error {text : Option String}
    (hp : t.locate id field [.singleData] = .ok p) {e : Error} (hv : p.decode text = .error e) :
    t.apply (.setRawForm id field text) = (t, .error e) := by
  have hrun : Edit.setRawForm id field text t = .error e t := by
    simp only [Edit.setRawForm, Edit.bind_apply, Edit.ask, hp, hv]
  show (Edit.setRawForm id field text >>= fun _ => pure none).outcome t = _
  rw [Edit.outcome_bind, hrun]

/-- From `t` to `t'` at most the slot at position `i` of the node `id` changes. -/
structure OnlySlot (id : NodeId) (i : Nat) (t t' : Tree σ) : Prop where
  size : t'.size = t.size
  kinds : ∀ x, t'.kindId x = t.kindId x
  parents : ∀ x, t'.parent? x = t.parent? x
  slots : ∀ x j, x ≠ id ∨ j ≠ i → t'.slot? x j = t.slot? x j

theorem onlySlot_setSlot (id : NodeId) (i : Nat) (s : Slot) : OnlySlot id i t (t.setSlot id i s) where
  size := t.size_setSlot id i s
  kinds x := by
    unfold kindId
    rw [node?_setSlot]
    cases t.node? x <;> rfl
  parents x := parent?_setSlot id x i s
  slots x j hx := by
    have hplace : ¬ (id = x ∧ i = j) := by
      rintro ⟨rfl, rfl⟩
      exact hx.elim (absurd rfl) (absurd rfl)
    rw [slot?_setSlot]
    simp [hplace]

/-- A value of the type of its codec fits the field: fields with bounds hold numbers. -/
theorem checkValue_of_type (hf : p.field.Resolved σ) {type : DataType}
    (htype : p.field.decl.type = .data type) (hint : type ≠ .int) {v : Value}
    (hv : v.type = type) : p.checkValue (some v) = .ok () := by
  refine Place.checkValue_some.2 ((FieldDecl.holds_iff hf.boundsInt).1 ⟨hv ▸ htype, ?_⟩)
  intro lo hi hbounds
  rw [(hf.boundsInt lo hi hbounds).1] at htype
  cases htype
  exact absurd rfl hint

end Tree

/-- A field with an exact codec, in a tree where the field holds values of the codec's type. -/
structure Tree.CodedField {σ : Signature} (t : Tree σ) (id : NodeId) (p : Place) (c : Codec)
    (held : Option Value) : Prop where
  locate : t.locate id p.field.name [.singleData] = .ok p
  codec : p.field.decl.rawForm = some c
  slot : t.slot? id p.index = some (.data held)
  typed : ∀ v ∈ held, v.type = c.type
  stores : ∀ v : Value, v.type = c.type → p.checkValue (some v) = .ok ()

namespace Tree.CodedField

variable {σ : Signature} {t : Tree σ} {id : NodeId} {p : Place} {c : Codec} {held : Option Value}
  {symbols : List String}

theorem data_eq (h : t.CodedField id p c held) : t.data id p.field.name = .ok held := by
  rw [data_of_locate h.locate, h.slot]
  rfl

theorem setRawForm_eq (h : t.CodedField id p c held) {text : String} {v : Value}
    (hv : c.parse (some text) = .ok v) (htype : v.type = c.type) :
    t.apply (.setRawForm id p.field.name (some text)) =
      (t.setSlot id p.index (.data (some v)), .ok none) :=
  apply_setRawForm_of_ok (Edit.setRawForm_eq_ok.2
    ⟨p, h.locate, v, Place.decode_eq_ok.2 ⟨c, h.codec, hv⟩, h.stores v htype, rfl⟩)

theorem after_setSlot (h : t.CodedField id p c held) {v : Value} (hv : v.type = c.type) :
    (t.setSlot id p.index (.data (some v))).CodedField id p c (some v) where
  locate := by
    have hkind : (t.setSlot id p.index (.data (some v))).kind id = t.kind id := by
      unfold kind
      rw [node?_setSlot]
      cases t.node? id <;> rfl
    rw [Tree.locate, hkind]
    exact h.locate
  codec := h.codec
  slot := by rw [slot?_setSlot, h.slot]; simp
  typed := by
    rintro _ ⟨⟩
    exact hv
  stores := h.stores

/-- Reading the field as text never fails, since the codec writes all values of its type. -/
theorem rawForm_eq (h : t.CodedField id p c held) (hc : c.Exact symbols) :
    t.rawForm id p.field.name = .ok (held.bind c.generate) := by
  unfold Tree.rawForm
  rw [h.locate]
  simp only [bind, Except.bind, Place.codec_eq_ok h.codec, h.slot, Option.bind, Slot.data?]
  cases hheld : held with
  | none => rfl
  | some v =>
    obtain ⟨text, htext⟩ := hc.writes v (h.typed v hheld)
    simp only [htext]

theorem generate_eq_none (h : t.CodedField id p c held) (hc : c.Exact symbols) :
    held.bind c.generate = none ↔ held = none := by
  cases hheld : held with
  | none => simp
  | some v =>
    obtain ⟨text, htext⟩ := hc.writes v (h.typed v hheld)
    simp [htext]

/-- Writing back the text that was read changes nothing. -/
theorem setRawForm_rawForm (h : t.CodedField id p c held) (hc : c.Exact symbols) {text : String}
    (ht : t.rawForm id p.field.name = .ok (some text)) :
    t.apply (.setRawForm id p.field.name (some text)) = (t, .ok none) := by
  rw [h.rawForm_eq hc, Except.ok.injEq, Option.bind_eq_some_iff] at ht
  obtain ⟨v, rfl, hwritten⟩ := ht
  rw [h.setRawForm_eq (hc.reads_written v _ hwritten) (h.typed v rfl), setSlot_of_slot? h.slot]

/-- A symbol between blanks is stored, and read back without the blanks. -/
theorem setRawForm_of_mem (h : t.CodedField id p c held) (hc : c.Exact symbols) {text : String}
    (ht : Text.trim text ∈ symbols) :
    ∃ t', t.apply (.setRawForm id p.field.name (some text)) = (t', .ok none) ∧
      t'.rawForm id p.field.name = .ok (some (Text.trim text)) ∧ OnlySlot id p.index t t' := by
  obtain ⟨v, htype, hparse, hgenerate⟩ := hc.reads text ht
  refine ⟨_, h.setRawForm_eq hparse htype, ?_, onlySlot_setSlot id p.index _⟩
  rw [(h.after_setSlot htype).rawForm_eq hc, Option.bind_some, hgenerate]

theorem setRawForm_of_not_mem (h : t.CodedField id p c held) (hc : c.Exact symbols) {text : String}
    (ht : Text.trim text ∉ symbols) :
    ∃ complaint, t.apply (.setRawForm id p.field.name (some text)) =
      (t, .error (.rawForm ⟨p.kind.name ++ "." ++ p.field.name, some text, complaint⟩)) := by
  obtain ⟨label, complaint, hparse⟩ := hc.refuses text ht
  exact ⟨complaint, apply_setRawForm_of_error h.locate (Place.decode_of_error h.codec hparse)⟩

end Tree.CodedField

/-- In a reachable tree every field with an operator codec holds operators of its codec only. -/
theorem codedField_of_reachable {ts : List Template} {s : Schema} (hs : Schema.generate ts = .ok s)
    {t : Tree s.signature} (ht : t.Reachable) {id : NodeId} {k : Kind} (hk : t.kind id = .ok k)
    {i : Nat} {f : Field} (hf : k.fields[i]? = some f) (hcat : f.category = .singleData) {c : Codec}
    (hc : f.decl.rawForm = some c) (hint : c.type ≠ .int) :
    ∃ held, t.CodedField id ⟨k, i, f⟩ c held := by
  have hσ := resolved_of_generate hs
  obtain ⟨n, hn, hkind⟩ := Tree.kind_eq_ok.1 hk
  have hof : Place.Of t id ⟨k, i, f⟩ n := ⟨hn, hkind, by rwa [Signature.fields_of_kinds hkind]⟩
  obtain ⟨slot, hslot, hconf⟩ := (ht.conforms hσ).slot?_of hof
  obtain ⟨held, rfl⟩ := hconf.eq_data hcat
  have htype := codec_typed_of_generate hs hkind (List.mem_of_getElem? hf) hc
  refine ⟨held, hof.locate_eq hσ (List.mem_singleton.2 hcat), hc, hslot, fun v hv => ?_,
    fun v hv => Tree.checkValue_of_type (Tree.resolved_of_place hσ hof) htype hint hv⟩
  exact (FieldType.data.inj (htype.symm.trans (hconf.2 v hv).1)).symm

/-- Take a generated schema whose codecs are those of the two operator registries, a reachable tree
and a node with a single data field that has a codec. Reading the field as text never fails, and
there is no text exactly if the field is empty. Writing the text back that was read changes nothing.
A text is accepted exactly if it is a symbol of the field's registry between blanks; then the symbol
is what is read afterwards, and nothing else has changed. Any other text is refused under the names
of the kind and the field, and the error has the text as it was given. -/
theorem rawForm_round_trip {ts : List Template} {s : Schema} (hs : Schema.generate ts = .ok s)
    (hcodecs : ∀ kind field c, (kind, field, c) ∈ s.codecs →
      c = .binaryOperator ∨ c = .unaryOperator)
    {t : Tree s.signature} (ht : t.Reachable) {id : NodeId} {k : Kind} (hk : t.kind id = .ok k)
    {i : Nat} {f : Field} (hf : k.fields[i]? = some f) (hcat : f.category = .singleData) {c : Codec}
    (hc : f.decl.rawForm = some c) :
    (∃ text?, t.rawForm id f.name = .ok text? ∧ (text? = none ↔ t.data id f.name = .ok none)) ∧
    (∀ text, t.rawForm id f.name = .ok (some text) →
      t.apply (.setRawForm id f.name (some text)) = (t, .ok none)) ∧
    ∀ text,
      ((∃ r, (t.apply (.setRawForm id f.name (some text))).2 = .ok r) ↔
        Text.trim text ∈ c.type.symbols) ∧
      (Text.trim text ∈ c.type.symbols →
        (t.apply (.setRawForm id f.name (some text))).1.rawForm id f.name =
          .ok (some (Text.trim text)) ∧
        Tree.OnlySlot id i t (t.apply (.setRawForm id f.name (some text))).1) ∧
      (Text.trim text ∉ c.type.symbols → ∃ complaint,
        t.apply (.setRawForm id f.name (some text)) =
          (t, .error (.rawForm ⟨k.name ++ "." ++ f.name, some text, complaint⟩))) := by
  obtain ⟨n, -, hkind⟩ := Tree.kind_eq_ok.1 hk
  have hcodec := hcodecs _ _ _ (Schema.mem_codecs hkind (List.mem_of_getElem? hf) hc)
  have hexact : c.Exact c.type.symbols ∧ c.type ≠ .int := by
    rcases hcodec with rfl | rfl
    · exact ⟨Codec.exact_binaryOperator, by decide⟩
    · exact ⟨Codec.exact_unaryOperator, by decide⟩
  obtain ⟨held, h⟩ := codedField_of_reachable hs ht hk hf hcat hc hexact.2
  refine ⟨?_, fun text htext => h.setRawForm_rawForm hexact.1 htext, fun text => ⟨?_, ?_, ?_⟩⟩
  · have hdata : t.data id f.name = .ok held := h.data_eq
    refine ⟨_, h.rawForm_eq hexact.1, (h.generate_eq_none hexact.1).trans ?_⟩
    rw [hdata, Except.ok.injEq]
  · constructor
    · rintro ⟨r, hr⟩
      by_contra hmem
      obtain ⟨complaint, hrefused⟩ := h.setRawForm_of_not_mem hexact.1 hmem
      rw [hrefused] at hr
      cases hr
    · intro hmem
      obtain ⟨t', happly, -⟩ := h.setRawForm_of_mem hexact.1 hmem
      exact ⟨none, by rw [happly]⟩
  · intro hmem
    obtain ⟨t', happly, hread, honly⟩ := h.setRawForm_of_mem hexact.1 hmem
    rw [happly]
    exact ⟨hread, honly⟩
  · exact fun hmem => h.setRawForm_of_not_mem hexact.1 hmem

theorem Standard.codecs_schema : Standard.schema.codecs =
    [("BinaryExpression", "operator", .binaryOperator),
     ("UnaryExpression", "operator", .unaryOperator)] :=
  rfl

/-- Node 4 is an assignment to `a`; its operator was given with blanks around it. -/
def assignTree : Tree Standard.schema.signature :=
  (Tree.empty.applyAll
    [.build "Identifier" [.data "name" (.text "a")],
     .build "IdentifierExpression" [.child "identifier" 0],
     .build "Identifier" [.data "name" (.text "b")],
     .build "IdentifierExpression" [.child "identifier" 2],
     .build "BinaryExpression" [.child "left" 1, .child "right" 3, .raw "operator" " += "]]).1

theorem reachable_assignTree : assignTree.Reachable :=
  Tree.Reachable.empty.applyAll (by decide +kernel)

theorem node?_assignTree : assignTree.node? 4 = some ⟨18, none,
    [.child (some 1), .child (some 3), .data (some (.binaryOperator .plusAssign))]⟩ := by
  decide +kernel

/-- The operator of node 4 is written back, then replaced by one between an ideographic space and a
plain one, and a text that is no symbol is refused with its blanks. -/
theorem rawForm_round_trip_assignTree :
    assignTree.Reachable ∧ assignTree.rawForm 4 "operator" = .ok (some "+=") ∧
      assignTree.apply (.setRawForm 4 "operator" (some "+=")) = (assignTree, .ok none) ∧
      (assignTree.apply (.setRawForm 4 "operator" (some "\u3000>>>= "))).1.rawForm 4 "operator" =
        .ok (some ">>>=") ∧
      ∃ complaint, assignTree.apply (.setRawForm 4 "operator" (some " @ ")) =
        (assignTree, .error (.rawForm ⟨"BinaryExpression.operator", some " @ ", complaint⟩)) := by
  have hcodecs : ∀ kind field c, (kind, field, c) ∈ Standard.schema.codecs →
      c = .binaryOperator ∨ c = .unaryOperator := by
    rw [Standard.codecs_schema]
    rintro kind field c hc
    simp only [List.mem_cons, Prod.mk.injEq, List.not_mem_nil, or_false] at hc
    exact hc.imp (·.2.2) (·.2.2)
  have hk : assignTree.kind 4 = .ok _ := Tree.kind_eq_ok.2 ⟨_, node?_assignTree, rfl⟩
  have hread : assignTree.rawForm 4 "operator" = .ok (some "+=") := by decide +kernel
  have hall := rawForm_round_trip Standard.generate_templates hcodecs reachable_assignTree hk
    (i := 2) rfl rfl rfl
  exact ⟨reachable_assignTree, hread, hall.2.1 _ hread,
    ((hall.2.2 "\u3000>>>= ").2.1 (by decide +kernel)).1,
    (hall.2.2 " @ ").2.2 (by decide +kernel)⟩

end Arbor
