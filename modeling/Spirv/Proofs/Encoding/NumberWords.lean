import Mathlib
import Spirv.Proofs.Encoding.Module

/-!
How many words the numbers of a text take.

A number is written as its type says if that is an integer of at most 64 bits or a floating-point
number of 32 or 64 bits, and then takes as many words as numbers of the type do. Any other number is
kept as it is spelled, in one word if that is enough and in two if it is not, also where a number has
one word and where the type of a number gives it one.
-/

namespace Spirv

/-- Numbers of the type are written as it says, however they are spelled. -/
def NumberType.isKept (t : NumberType) : Bool :=
  if t.isInteger then 1 ≤ t.width && t.width ≤ 64 else t.width = 32 || t.width = 64

lemma PackedString.pack_ne_nil (s : List Char) : pack s ≠ [] := by
  have hbytes : ∀ (acc : List Word) (bytes : List UInt8), packBytes acc bytes ≠ [] := by
    intro acc bytes
    fun_induction packBytes acc bytes <;> simp_all
  exact hbytes [] _

namespace Literal

/-- The number that the text spells loses nothing in 32 bits. -/
def FitsWord (text : List Char) : Prop :=
  match Digits.hex? text, Digits.signed? text with
  | some n, _ | none, some (false, n) => n < 2 ^ 32
  | none, some (true, n) => n ≤ 2 ^ 31
  | none, none => ∃ d, Decimal.read? text = some d ∧
      (singleOfDouble? (BinaryFormat.double.ofDecimal d.m d.exponent)).isSome

lemma wide_ne_nil (bits : BitVec 64) (width : ℕ) : wide bits width ≠ [] := by
  rw [wide]
  split <;> simp

lemma words_ne_nil (l : Literal) : l.words ≠ [] := by
  cases l with
  | int32 | uint32 | float32 => simp [words]
  | int64 | uint64 | float64 => exact wide_ne_nil _ 64
  | string s => exact PackedString.pack_ne_nil s

lemma length_of_ofUnsigned {n : Nat} {l : Literal} (h : ofUnsigned n = .ok l) :
    l.words.length = if n < 2 ^ 32 then 1 else 2 := by
  rw [ofUnsigned] at h
  split at h
  next hn =>
    obtain rfl := Except.ok.inj h
    rw [if_pos hn]
    rfl
  next hn =>
  split at h
  next =>
    obtain rfl := Except.ok.inj h
    rw [if_neg hn]
    rfl
  next => simp at h

lemma length_of_ofNegative {n : Nat} {l : Literal} (h : ofNegative n = .ok l) :
    l.words.length = if n ≤ 2 ^ 31 then 1 else 2 := by
  rw [ofNegative] at h
  split at h
  next hn =>
    obtain rfl := Except.ok.inj h
    rw [if_pos hn]
    rfl
  next hn =>
  split at h
  next =>
    obtain rfl := Except.ok.inj h
    rw [if_neg hn]
    rfl
  next => simp at h

lemma length_ofDecimal (d : Decimal) : (ofDecimal d).words.length =
    if (singleOfDouble? (BinaryFormat.double.ofDecimal d.m d.exponent)).isSome then 1 else 2 := by
  rw [ofDecimal]
  split
  next h =>
    rw [h]
    rfl
  next h =>
    rw [h]
    rfl

open Classical in
/-- A number takes one word if it fits and two if it does not. -/
lemma length_words {text : List Char} {l : Literal} (h : read text = .ok l)
    (hs : ∀ s, l ≠ .string s) : l.words.length = if FitsWord text then 1 else 2 := by
  have hquote : text.head? ≠ some '"' := fun hq => by
    obtain ⟨s, rfl⟩ := Assembly.exists_string_of_read hq h
    exact hs s rfl
  rw [read, if_neg hquote] at h
  unfold FitsWord
  split at h
  next n hn => simp [hn, length_of_ofUnsigned h]
  next hhex =>
  split at h
  next n hn => simp [hhex, hn, length_of_ofNegative h]
  next n hn => simp [hhex, hn, length_of_ofUnsigned h]
  next hsigned =>
  split at h
  next d hd =>
    obtain rfl := Except.ok.inj h
    simp [hhex, hsigned, hd, length_ofDecimal]
  next => simp at h

end Literal

namespace Assembly

/-! ### The types that statements declare -/

/-- The numeric type that statements declare an id as, the last of them if several do. -/
def numberOf? (before : List Statement) (id : Word) : Option NumberType :=
  before.reverse.findSome? fun st => if st.operandWords[0]? = some id then st.number? else none

/-- The type of the result that statements give an id to, the last of them if several do. -/
def typeOf? (before : List Statement) (id : Word) : Option Word :=
  before.reverse.findSome? fun st =>
    if st.opcode.hasType ∧ st.operandWords[1]? = some id then st.operandWords[0]? else none

/-- The numeric type that governs the numbers of a statement that stands after others. -/
def Statement.governing? (before : List Statement) (st : Statement) : Option NumberType := do
  let first ← st.operandWords[0]?
  let type ← if st.opcode = .opSwitch then typeOf? before first else some first
  numberOf? before type

/-- The maps of types answer as the statements do. -/
structure Recalls (d : Declared) (before : List Statement) : Prop where
  numbers : ∀ id, d.numberTypes[id]? = numberOf? before id
  types : ∀ id, d.valueTypes[id]? = typeOf? before id

lemma recalls_empty : Recalls .empty [] where
  numbers _ := by simp [Declared.empty, numberOf?]
  types _ := by simp [Declared.empty, typeOf?]

lemma numberOf?_snoc (before : List Statement) (st : Statement) (id : Word) :
    numberOf? (before ++ [st]) id =
      if st.operandWords[0]? = some id then st.number?.or (numberOf? before id)
      else numberOf? before id := by
  rw [numberOf?, List.reverse_append, List.reverse_singleton, List.singleton_append,
    List.findSome?_cons, ← numberOf?]
  split
  next t ht => split at ht <;> simp_all
  next hnone => split at hnone <;> simp_all

lemma typeOf?_snoc (before : List Statement) (st : Statement) (id : Word) :
    typeOf? (before ++ [st]) id =
      if st.opcode.hasType ∧ st.operandWords[1]? = some id then st.operandWords[0]?.or (typeOf? before id)
      else typeOf? before id := by
  rw [typeOf?, List.reverse_append, List.reverse_singleton, List.singleton_append,
    List.findSome?_cons, ← typeOf?]
  split
  next t ht => split at ht <;> simp_all
  next hnone => split at hnone <;> simp_all

lemma Recalls.learn {d : Declared} {before : List Statement} (h : Recalls d before)
    (st : Statement) : Recalls (d.learn st.opcode st.operandWords.toArray) (before ++ [st]) where
  numbers id := by
    rw [numberOf?_snoc, ← h.numbers, Statement.number?, Statement.words]
    unfold Declared.learn Binary.declaredNumber?
    rcases st.operandWords with _ | ⟨first, _ | ⟨width, rest⟩⟩
    · split <;> simp_all
    · split <;> simp_all
    · by_cases hint : st.opcode = .opTypeInt
      · rcases rest with _ | ⟨signedness, rest⟩
        · simp [hint]
        · simp [hint, Std.HashMap.getElem?_insert]
      by_cases hfloat : st.opcode = .opTypeFloat
      · simp [hfloat, Std.HashMap.getElem?_insert]
      · split <;> simp_all
  types id := by
    rw [typeOf?_snoc, ← h.types]
    unfold Declared.learn
    rcases st.operandWords with _ | ⟨type, _ | ⟨result, rest⟩⟩
    · simp
    · simp
    · by_cases htype : st.opcode.hasType
      · simp [htype, Opcode.hasResult_of_hasType htype, Std.HashMap.getElem?_insert]
      · simp [htype]

/-! ### Operands -/

/-- The operand is a number that is kept as it is spelled. -/
structure Filled.Spelled (f : Filled) : Prop where
  read : ∃ l, Literal.read f.token.chars = .ok l ∧ (∀ s, l ≠ .string s) ∧ f.words = l.words
  one_iff : f.words.length = 1 ↔ Literal.FitsWord f.token.chars
  le_two : f.words.length ≤ 2

/-- If the operand is a number it takes the words that it has to, where `number?` governs it. -/
structure Filled.Sized (number? : Option NumberType) (f : Filled) : Prop where
  integer : f.slot.kind? = some .integer → f.Spelled
  kept : f.slot.kind? = some .typedNumber → ∀ t, number? = some t → t.isKept →
    f.words.length = t.wordCount
  spelled : f.slot.kind? = some .typedNumber → (∀ t, number? = some t → t.isKept = false) →
    f.Spelled

variable {s s' : State} {d : Declared} {op : Opcode} {result? : Option Token} {done ws : List Word}
  {p : Pattern} {tokens : List Token} {fs : List Filled} {e : Encoded} {f : Filled}
  {slot : Slot} {rest : Pattern} {r : Reading}

lemma spelled_of_readNumber (hr : readNumber f.token.chars = .ok f.reading)
    (ha : s.accept done.toArray f.reading = .ok (s', (done ++ f.words).toArray)) : f.Spelled := by
  obtain ⟨l, hl, hs, hreading⟩ := readNumber_eq_ok hr
  rw [hreading, accept_value_iff] at ha
  have hlen := Literal.length_words hl hs
  rw [← ha.2] at hlen
  refine ⟨⟨l, hl, hs, ha.2⟩, ?_, ?_⟩ <;> rw [hlen] <;> split <;> simp_all

lemma readTyped_of_isKept {t : NumberType} {chars : List Char} (hk : t.isKept)
    (h : readTyped (some t) chars = .ok r) : ∃ bits, r = .value (Literal.wide bits t.width) [] := by
  rcases readTyped_eq_ok h with ⟨bits, hr, -⟩ | ⟨hinteger, hfloat, -⟩
  · exact ⟨bits, hr⟩
  · unfold NumberType.isKept at hk
    grind

lemma readTyped_of_not_isKept {t : NumberType} (hk : t.isKept = false) (chars : List Char) :
    readTyped (some t) chars = readNumber chars := by
  unfold NumberType.isKept at hk
  unfold readTyped
  grind

/-- A number whose type is kept takes as many words as the type, any other those of its spelling. -/
lemma sized_of_readTyped {number? : Option NumberType}
    (hr : readTyped number? f.token.chars = .ok f.reading)
    (ha : s.accept done.toArray f.reading = .ok (s', (done ++ f.words).toArray)) :
    (∀ t, number? = some t → t.isKept → f.words.length = t.wordCount) ∧
      ((∀ t, number? = some t → t.isKept = false) → f.Spelled) := by
  rcases number? with _ | t
  · exact ⟨nofun, fun _ => spelled_of_readNumber hr ha⟩
  by_cases hk : t.isKept
  · refine ⟨fun _ ht _ => ?_, fun h => by simp [h t rfl] at hk⟩
    obtain rfl := Option.some.inj ht
    obtain ⟨bits, hreading⟩ := readTyped_of_isKept hk hr
    rw [hreading, accept_value_iff] at ha
    rw [ha.2]
    refine length_wide ?_
    rw [NumberType.isKept] at hk
    split at hk <;> simp at hk <;> omega
  · rw [readTyped_of_not_isKept (by simpa using hk)] at hr
    refine ⟨fun _ ht hk' => ?_, fun _ => spelled_of_readNumber hr ha⟩
    exact absurd (Option.some.inj ht ▸ hk') hk

/-! ### Operands one after the other -/

/-- A value has at least one word. -/
def Reading.IsFull : Reading → Prop
  | value ws _ | importing _ ws => ws ≠ []
  | id _ | raw _ => True

lemma isFull_of_readId {refuse : Fault → Refusal} {chars : List Char}
    (h : readId refuse chars = .ok r) : r.IsFull := by
  obtain ⟨name, -, rfl⟩ := exists_name_of_readId h
  trivial

lemma isFull_of_readNumber {chars : List Char} (h : readNumber chars = .ok r) : r.IsFull := by
  obtain ⟨l, -, -, rfl⟩ := readNumber_eq_ok h
  exact l.words_ne_nil

lemma isFull_of_readTyped {number? : Option NumberType} {chars : List Char}
    (h : readTyped number? chars = .ok r) : r.IsFull := by
  rcases number? with _ | t
  · exact isFull_of_readNumber h
  by_cases hk : t.isKept
  · obtain ⟨bits, rfl⟩ := readTyped_of_isKept hk h
    exact Literal.wide_ne_nil bits t.width
  · exact isFull_of_readNumber (readTyped_of_not_isKept (by simpa using hk) chars ▸ h)

lemma isFull_of_readKind {k : OperandKind} {chars : List Char} {before : Array Word}
    (h : readKind d op before chars k = .ok r) : r.IsFull := by
  cases k with
  | id | typeId | resultId | scopeId | memorySemanticsId => exact isFull_of_readId h
  | integer => exact isFull_of_readNumber h
  | typedNumber =>
    rw [readKind] at h
    split at h
    · exact isFull_of_readNumber h
    · exact isFull_of_readTyped h
  | string =>
    obtain ⟨s, -, rfl⟩ := readString_eq_ok h
    split <;> exact PackedString.pack_ne_nil s
  | extended =>
    obtain ⟨-, row, -, -, rfl⟩ := exists_row_of_readExtended h
    simp [Reading.IsFull]
  | specOpcode =>
    obtain ⟨named, -, rfl⟩ := exists_op_of_readSpecOpcode h
    simp [Reading.IsFull]
  | named c =>
    rcases readNamed_eq_ok h with ⟨-, mask, -, rfl⟩ | ⟨-, row, -, rfl⟩
    all_goals simp [Reading.IsFull]

lemma isFull_of_readOperand {chars : List Char} {before : Array Word} (hraw : isRaw chars = false)
    (h : readOperand d op before slot chars = .ok r) : r.IsFull := by
  by_cases hs : slot = .free
  · subst hs
    unfold readOperand readFree at h
    simp only [hraw, Bool.false_eq_true, if_false] at h
    split at h
    next l _ =>
      obtain rfl := Except.ok.inj h
      exact l.words_ne_nil
    next => simp at h
    next => exact isFull_of_readId h
  · obtain ⟨k, hk⟩ := exists_kind_of_readOperand hraw hs h
    exact isFull_of_readKind (readKind_of_readOperand hraw hk h)

lemma ne_nil_of_accept (hr : r.IsFull)
    (ha : s.accept done.toArray r = .ok (s', (done ++ ws).toArray)) : ws ≠ [] := by
  cases r with
  | id name =>
    obtain ⟨w, -, -, -, rfl⟩ := accept_id_iff.mp ha
    simp
  | raw w =>
    obtain ⟨-, rfl⟩ := by simpa [State.accept] using ha
    simp
  | value => exact (accept_value_iff.mp ha).2 ▸ hr
  | importing => exact (accept_importing_iff.mp ha).1 ▸ hr

/-- Putting an operand down changes no type. -/
lemma types_of_accept {done done' : Array Word} (ha : s.accept done r = .ok (s', done')) :
    s'.declared.numberTypes = s.declared.numberTypes ∧
      s'.declared.valueTypes = s.declared.valueTypes := by
  cases r with
  | id name =>
    rw [State.accept] at ha
    split at ha
    next =>
      obtain ⟨rfl, -⟩ := by simpa using ha
      exact ⟨rfl, rfl⟩
    next => simp at ha
  | raw | value =>
    obtain ⟨rfl, -⟩ := by simpa [State.accept] using ha
    exact ⟨rfl, rfl⟩
  | importing =>
    obtain ⟨rfl, -⟩ := by simpa [State.accept] using ha
    split <;> exact ⟨rfl, rfl⟩

/-- Filling slots changes no type. -/
lemma Fills.types_eq (h : Fills op result? s done p tokens fs e) :
    e.state.declared.numberTypes = s.declared.numberTypes ∧
      e.state.declared.valueTypes = s.declared.valueTypes := by
  induction h with
  | full | stop => exact ⟨rfl, rfl⟩
  | result _ _ _ accept _ ih | operand _ _ _ _ accept _ ih =>
    obtain ⟨hn, hv⟩ := types_of_accept accept
    exact ⟨ih.1.trans hn, ih.2.trans hv⟩

/-- Only the first operand word and the types decide what governs a number. -/
lemma governing?_congr {d d' : Declared} {before before' : Array Word}
    (hn : d.numberTypes = d'.numberTypes) (hv : d.valueTypes = d'.valueTypes)
    (h0 : before[0]? = before'[0]?) : d.governing? op before = d'.governing? op before' := by
  simp [Declared.governing?, hn, hv, h0]

/-- An operand is sized by what the words before it and after it say together. -/
lemma sized_of_readOperand (hraw : isRaw f.token.chars = false)
    (take : p.take? = some (f.slot, rest)) (hfirst : done = [] → p = op.operands)
    (hr : readOperand s.declared op done.toArray f.slot f.token.chars = .ok f.reading)
    (ha : s.accept done.toArray f.reading = .ok (s', (done ++ f.words).toArray)) (more : List Word) :
    f.Sized (s.declared.governing? op (done ++ more).toArray) := by
  have htyped : f.slot.kind? = some .typedNumber →
      readTyped (s.declared.governing? op (done ++ more).toArray) f.token.chars = .ok f.reading := by
    intro hk
    have hne : done ≠ [] := fun hb => kind?_ne_of_take?_operands (hfirst hb ▸ take) hk
    have hread := readKind_of_readOperand hraw hk hr
    rw [readKind] at hread
    split at hread
    next hquote =>
      -- a quoted word is no number
      obtain ⟨l, hl, hs, -⟩ := readNumber_eq_ok hread
      obtain ⟨str, hstr⟩ := exists_string_of_read hquote hl
      exact absurd hstr (hs str)
    next =>
      have hfirst : (done ++ more).toArray[0]? = done.toArray[0]? := by
        obtain ⟨first, rest, rfl⟩ := List.exists_cons_of_ne_nil hne
        simp
      rwa [governing?_congr rfl rfl hfirst]
  exact ⟨fun hk => spelled_of_readNumber (readKind_of_readOperand hraw hk hr) ha,
    fun hk => (sized_of_readTyped (htyped hk) ha).1, fun hk => (sized_of_readTyped (htyped hk) ha).2⟩

/-- The operands of an instruction are sized as its first word and the types say. -/
lemma Fills.sized (h : Fills op result? s done p tokens fs e)
    (hraw : ∀ token, token ∈ result? ∨ token ∈ tokens → isRaw token.chars = false)
    (hfirst : done = [] → p = op.operands) :
    ∀ f ∈ fs, f.Sized (s.declared.governing? op (done ++ Filled.wordsOf fs).toArray) := by
  induction h with
  | full | stop => simp
  | @result s s' done ws p rest tokens token r fs e take result read accept more ih =>
    have hraw' := hraw token (.inl result)
    have hread := (readOperand_of_readId s.declared op done.toArray hraw' read).1
    have hne := ne_nil_of_accept (isFull_of_readId read) accept
    obtain ⟨hn, hv⟩ := types_of_accept accept
    rw [Filled.wordsOf_cons, List.forall_mem_cons]
    refine ⟨sized_of_readOperand hraw' take hfirst hread accept _, fun f hf => ?_⟩
    rw [← List.append_assoc, ← governing?_congr hn hv rfl]
    exact ih hraw (by simp [hne]) f hf
  | @operand s s' done ws p rest slot tokens token r fs e take result start read accept more ih =>
    have hraw' := hraw token (.inr (.head _))
    have hne := ne_nil_of_accept (isFull_of_readOperand hraw' read) accept
    obtain ⟨hn, hv⟩ := types_of_accept accept
    rw [Filled.wordsOf_cons, List.forall_mem_cons]
    refine ⟨sized_of_readOperand hraw' take hfirst read accept _, fun f hf => ?_⟩
    rw [← List.append_assoc, ← governing?_congr hn hv rfl]
    exact ih (fun t ht => hraw t (ht.imp_right (.tail _))) (by simp [hne]) f hf

/-! ### Statement after statement -/

variable {form : Form} {st : Statement} {before sts : List Statement} {toks : List Token}

/-- What the types so far and the first operand word govern is what the statements do. -/
lemma Recalls.governing?_eq {d : Declared} (h : Recalls d before) (st : Statement) :
    d.governing? st.opcode st.operandWords.toArray = st.governing? before := by
  simp [Declared.governing?, Statement.governing?, h.numbers, h.types]

lemma Fills.sized_recalls (h : Fills op result? s [] op.operands tokens fs e)
    (hr : Recalls s.declared before)
    (hraw : ∀ token, token ∈ result? ∨ token ∈ tokens → isRaw token.chars = false)
    (front : List Token) (name : Token) :
    (∀ f ∈ fs, f.Sized (Statement.governing? before ⟨front, name, op, fs⟩)) ∧
      Recalls (finished op e).state.declared (before ++ [⟨front, name, op, fs⟩]) := by
  have hwords : e.words = (Filled.wordsOf fs).toArray := Array.ext' (by simp [h.words_eq])
  obtain ⟨hn, hv⟩ := h.types_eq
  have hr' : Recalls e.state.declared before :=
    ⟨fun id => hn ▸ hr.numbers id, fun id => hv ▸ hr.types id⟩
  refine ⟨?_, ?_⟩
  · rw [← hr.governing?_eq]
    exact h.sized hraw fun _ => rfl
  · rw [finished, hwords]
    exact hr'.learn ⟨front, name, op, fs⟩

lemma Encodes.sized (h : Encodes form s toks st e) (hr : Recalls s.declared before)
    (hraw : ∀ token ∈ toks, isRaw token.chars = false) :
    (∀ f ∈ st.operands, f.Sized (st.governing? before)) ∧
      Recalls e.state.declared (before ++ [st]) := by
  cases h with
  | plain _ _ _ fills =>
    exact fills.sized_recalls hr (fun t ht => hraw t (.tail _ (ht.resolve_left (by simp)))) _ _
  | assigned _ _ _ _ _ _ fills =>
    refine fills.sized_recalls hr (fun t ht => ?_) _ _
    rcases ht with ht | ht
    · exact Option.some.inj ht ▸ hraw _ (.head _)
    · exact hraw t (by simp [ht])

/-- Each number of the statements is sized as the statements before it say. -/
lemma EncodesAll.sized (h : EncodesAll form s toks sts s') (hr : Recalls s.declared before)
    (hraw : ∀ token ∈ toks, isRaw token.chars = false) :
    ∀ us st vs, sts = us ++ st :: vs → ∀ f ∈ st.operands, f.Sized (st.governing? (before ++ us)) := by
  induction h generalizing before with
  | nil => simp
  | @cons s s' tokens st sts e first more ih =>
    obtain ⟨hst, hr'⟩ := first.sized hr hraw
    have hsts := ih hr' fun t ht => hraw t (first.tokens_eq ▸ List.mem_append_right _ ht)
    intro us st' vs he
    rcases us with _ | ⟨u, us⟩
    · obtain ⟨rfl, -⟩ : st = st' ∧ sts = vs := by simpa using he
      simpa using hst
    · obtain ⟨rfl, hmore⟩ : st = u ∧ sts = us ++ st' :: vs := by simpa using he
      simpa using hsts us st' vs hmore

/-- **How many words the numbers of a text take.** A literal integer takes one word if it fits in one
and two if it does not. A number that a type governs takes as many words as the type if that is an
integer of at most 64 bits or a floating-point number of 32 or 64 bits; otherwise it too takes one
word if it fits and two if it does not. -/
theorem assemble_sized {o : AssemblyOptions} {text : String} {a : Assembly}
    (h : assemble o text = .ok a)
    (hraw : ∀ token ∈ (TokenText.ofText text).tokens, isRaw token.chars = false) :
    (∃ sts, Says o text sts) ∧ ∀ sts, Says o text sts → a.words.drop 5 = codeOf sts ∧
      ∀ before st after, sts = before ++ st :: after →
        ∀ f ∈ st.operands, f.Sized (st.governing? before) := by
  refine ⟨?_, fun sts ⟨s', hsts⟩ => ⟨?_, hsts.sized recalls_empty hraw⟩⟩
  · rw [assemble] at h
    dsimp only at h
    split at h
    next => simp at h
    next s body henc =>
      obtain ⟨sts, hsts, -⟩ := exists_encodesAll hraw henc
      exact ⟨sts, s, hsts⟩
  · rw [assemble_of_encodesAll hsts] at h
    obtain rfl := Except.ok.inj h
    simp [Header.words]

/-- The width of a type takes one word, and so does a number of the type. -/
theorem assemble_sized_sample : ∃ a f g, assemble ⟨.assignment, 0, false⟩ Sample.text = .ok a ∧
    Sample.declaresType.operands[1]? = some f ∧ f.words.length = 1 ∧
      Sample.namesConstant.operands[2]? = some g ∧ g.words.length = 1 := by
  obtain ⟨s', hs⟩ := Sample.says_text 0
  have ha := assemble_of_encodesAll hs
  obtain ⟨-, h⟩ := assemble_sized ha (by rw [Sample.tokens_text]; decide)
  obtain ⟨-, h⟩ := h _ ⟨s', hs⟩
  have hwidth := h [] _ _ rfl ⟨.one .integer, ⟨"32".toList, ⟨0, 15, 15⟩⟩, .value [32] [], [32]⟩
    (.tail _ (.head _))
  have hfive := h [Sample.declaresType] _ [] rfl
    ⟨.one .typedNumber, ⟨"-5".toList, ⟨0, 39, 39⟩⟩, .value [0xFFFFFFFB] [], [0xFFFFFFFB]⟩
    (.tail _ (.tail _ (.head _)))
  refine ⟨_, _, _, ha, rfl, (hwidth.integer rfl).one_iff.mpr ?_, rfl,
    hfive.kept rfl ⟨.signed, 32⟩ (by decide) (by decide)⟩
  rw [Literal.FitsWord, show Digits.hex? "32".toList = none by cbv,
    show Digits.signed? "32".toList = some (false, 32) by cbv]
  decide

/-! ### A constant of 16 bits -/

namespace Sample

def halfText : String := "%i = OpTypeFloat 16 %n = OpConstant %i 0.1"

def declaresHalf : Statement where
  front := [⟨"%i".toList, ⟨0, 0, 0⟩⟩, ⟨"=".toList, ⟨0, 3, 3⟩⟩]
  name := ⟨"OpTypeFloat".toList, ⟨0, 5, 5⟩⟩
  opcode := .opTypeFloat
  operands := [⟨.resultId, ⟨"%i".toList, ⟨0, 0, 0⟩⟩, .id "i", [1]⟩,
    ⟨.one .integer, ⟨"16".toList, ⟨0, 17, 17⟩⟩, .value [16] [], [16]⟩]

/-- A tenth in the double format. -/
def tenth : Filled := ⟨.one .typedNumber, ⟨"0.1".toList, ⟨0, 39, 39⟩⟩,
  .value [0x9999999A, 0x3FB99999] [], [0x9999999A, 0x3FB99999]⟩

def namesTenth : Statement where
  front := [⟨"%n".toList, ⟨0, 20, 20⟩⟩, ⟨"=".toList, ⟨0, 23, 23⟩⟩]
  name := ⟨"OpConstant".toList, ⟨0, 25, 25⟩⟩
  opcode := .opConstant
  operands := [⟨.typeId, ⟨"%i".toList, ⟨0, 36, 36⟩⟩, .id "i", [1]⟩,
    ⟨.resultId, ⟨"%n".toList, ⟨0, 20, 20⟩⟩, .id "n", [2]⟩, tenth]

lemma tokens_halfText :
    (TokenText.ofText halfText).tokens = declaresHalf.tokens ++ namesTenth.tokens := by cbv

lemma says_halfText (g : Word) :
    Says ⟨.assignment, g, false⟩ halfText [declaresHalf, namesTenth] := by
  let half : Declared := ⟨∅, ∅, (∅ : Std.HashMap Word NumberType).insert 1 ⟨.float, 16⟩⟩
  have htenth : readOperand half .opConstant #[1, 2] (.one .typedNumber) "0.1".toList
      = .ok (.value [0x9999999A, 0x3FB99999] []) := by
    have hgov : half.governing? .opConstant #[1, 2] = some ⟨.float, 16⟩ := by
      simp [Declared.governing?, half]
    have hread : Literal.read "0.1".toList = .ok (.float64 0x3FB999999999999A) := by decide +kernel
    rw [readOperand, if_neg (by decide), readKind, if_neg (by decide), hgov,
      readTyped_of_not_isKept (by decide), readNumber, hread]
    rfl
  have hfirst : Encodes .assignment ⟨.empty, .empty⟩ (declaresHalf.tokens ++ namesTenth.tokens)
      declaresHalf (finished .opTypeFloat
        ⟨⟨symbols, .empty⟩, ([1, 16] : List Word).toArray, namesTenth.tokens⟩) := by
    refine .assigned rfl (by decide) rfl rfl (by decide) (by decide +kernel) ?_ (by decide)
    refine .result rfl rfl rfl (accept_newType .empty) ?_
    exact .operand rfl (by simp) (by cbv) (by cbv) rfl (.full rfl)
  have hsecond : Encodes .assignment ⟨symbols, half⟩ namesTenth.tokens namesTenth
      (finished .opConstant
        ⟨⟨named, half⟩, ([1, 2, 0x9999999A, 0x3FB99999] : List Word).toArray, []⟩) := by
    refine .assigned rfl (by decide) rfl rfl (by decide) (by decide +kernel) ?_ (by decide)
    refine .operand rfl (by simp) (by cbv) (by cbv) (accept_type half) ?_
    refine .result rfl rfl rfl (accept_constant half) ?_
    exact .operand rfl (by simp) (by cbv) htenth rfl (.full rfl)
  rw [Says, tokens_halfText]
  exact ⟨_, .cons hfirst (.cons hsecond .nil)⟩

end Sample

/-- **A number of 16 bits may take two words,** one more than its type gives it. -/
theorem exists_two_words_of_half : ∃ a, assemble ⟨.assignment, 0, false⟩ Sample.halfText = .ok a ∧
    Says ⟨.assignment, 0, false⟩ Sample.halfText [Sample.declaresHalf, Sample.namesTenth] ∧
      (∀ token ∈ (TokenText.ofText Sample.halfText).tokens, isRaw token.chars = false) ∧
      Sample.namesTenth.governing? [Sample.declaresHalf] = some ⟨.float, 16⟩ ∧
      Sample.tenth ∈ Sample.namesTenth.operands ∧
      Sample.tenth.slot.kind? = some .typedNumber ∧
      Sample.tenth.words.length ≠ NumberType.wordCount ⟨.float, 16⟩ := by
  obtain ⟨s', h⟩ := Sample.says_halfText 0
  refine ⟨_, assemble_of_encodesAll h, ⟨s', h⟩, ?_, by decide, by simp [Sample.namesTenth], rfl,
    by decide⟩
  rw [Sample.tokens_halfText]
  decide

end Assembly

end Spirv
