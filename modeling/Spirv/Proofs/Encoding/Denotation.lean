import Mathlib
import Spirv.Proofs.Encoding.Declared
import Spirv.Proofs.Encoding.Statement
import Spirv.Proofs.Encoding.Symbols

/-!
What a word of a text stands for as an operand.

`Denotes` ties the word to the words of a module, to the table of symbols and, for a number, to the
type that it is held in. A word that the assembler takes for a slot denotes the words that it is
written as, and these are an operand of the slot's kind where they stand.
-/

namespace Spirv.Assembly

/-- The word of a text stands for the operand words, where `set?` is the set of an extended
instruction and `number?` the type of a number. -/
inductive Denotes (names : SymbolTable) (set? : Option ExtendedSet) :
    OperandKind → List Char → List Word → Option NumberType → Prop where
  | id {k : OperandKind} {name : List Char} {w : Word} (kind : k.isId)
    (id : names.id? (String.ofList name) = some w) : Denotes names set? k ('%' :: name) [w] none
  | integer {chars : List Char} {l : Literal} {w : Word} (read : Literal.read chars = .ok l)
    (words : l.words = [w]) : Denotes names set? .integer chars [w] (some ⟨.unsigned, 32⟩)
  | typedInteger {chars : List Char} {t : NumberType} {bits : BitVec 64} (integer : t.isInteger)
    (read : Literal.readInteger t.width (t.numberClass = .signed) chars = .ok bits) :
    Denotes names set? .typedNumber chars (Literal.wide bits t.width) (some t)
  | typedFloat {chars : List Char} {t : NumberType} {bits : BitVec 64}
    (float : t.isInteger = false) (read : Literal.readFloat t.width chars = .ok bits) :
    Denotes names set? .typedNumber chars (Literal.wide bits t.width) (some t)
  | string {chars s : List Char} {ws : List Word} (read : Quoted.decode chars = some s)
    (bytes : Text.Utf8.decode (PackedString.bytesOf ws) = s) : Denotes names set? .string chars ws none
  | extended {chars : List Char} {set : ExtendedSet} {row : NamedValue} (set_eq : set? = some set)
    (row_eq : set.ofName? (String.ofList chars) = some row) :
    Denotes names set? .extended chars [row.value] none
  | specOpcode {chars : List Char} {op : Opcode}
    (op_eq : Opcode.ofName? (String.ofList chars) = some op) :
    Denotes names set? .specOpcode chars [op.value.toUInt32] none
  | value {chars : List Char} {c : Category} {row : NamedValue} (enumeration : c.isMask = false)
    (row_eq : c.ofName? (String.ofList chars) = some row) :
    Denotes names set? (.named c) chars [row.value] none
  | mask {chars : List Char} {c : Category} {w : Word} (mask : c.isMask)
    (value : (Slot.named c).maskOfText (String.ofList chars) = .ok w) :
    Denotes names set? (.named c) chars [w] none

/-- Symbols that are added do not change what is denoted. -/
lemma Denotes.extend {names names' : SymbolTable} {set? : Option ExtendedSet} {k : OperandKind}
    {chars : List Char} {ws : List Word} {number? : Option NumberType}
    (h : Denotes names set? k chars ws number?) (he : names.Extends names') :
    Denotes names' set? k chars ws number? := by
  cases h with
  | id kind id => exact .id kind (he _ _ id)
  | integer read words => exact .integer read words
  | typedInteger integer read => exact .typedInteger integer read
  | typedFloat float read => exact .typedFloat float read
  | string read bytes => exact .string read bytes
  | extended set_eq row_eq => exact .extended set_eq row_eq
  | specOpcode op_eq => exact .specOpcode op_eq
  | value enumeration row_eq => exact .value enumeration row_eq
  | mask mask value => exact .mask mask value

/-- The slots that must be filled after an operand. -/
def Reading.needs : Reading → List Slot
  | value _ needs => needs
  | _ => []

@[simp] lemma Reading.needs_value (ws : List Word) (needs : List Slot) :
    (value ws needs).needs = needs := rfl

@[simp] lemma Reading.needs_id (name : String) : (id name).needs = [] := rfl

@[simp] lemma Reading.needs_importing (set? : Option ExtendedSet) (ws : List Word) :
    (importing set? ws).needs = [] := rfl

/-! ### Putting operands down -/

section

variable {s s' : State} {done ws : List Word}

lemma accept_id_iff {name : String} :
    s.accept done.toArray (.id name) = .ok (s', (done ++ ws).toArray) ↔
      ∃ w t, s.symbols.assign name = .ok (w, t) ∧ s' = ⟨t, s.declared⟩ ∧ ws = [w] := by
  rw [State.accept]
  rcases s.symbols.assign name with e | ⟨w, t⟩
  · simp
  · simp [eq_comm]

lemma accept_value_iff {us : List Word} {needs : List Slot} :
    s.accept done.toArray (.value us needs) = .ok (s', (done ++ ws).toArray) ↔ s' = s ∧ ws = us := by
  simp [State.accept, eq_comm]

lemma accept_importing_iff {us : List Word} {set? : Option ExtendedSet} :
    s.accept done.toArray (.importing set? us) = .ok (s', (done ++ ws).toArray) ↔ ws = us ∧
      s' = ⟨s.symbols, { s.declared with
        imports := done.head?.elim s.declared.imports (s.declared.imports.insert · set?) }⟩ := by
  rcases done with _ | ⟨w, done⟩ <;> simp [State.accept, eq_comm, and_comm]

end

/-! ### Reading words -/

section

variable {chars : List Char} {r : Reading}

lemma readNumber_eq_ok (h : readNumber chars = .ok r) :
    ∃ l, Literal.read chars = .ok l ∧ (∀ s, l ≠ .string s) ∧ r = .value l.words [] := by
  unfold readNumber at h
  split at h
  next => simp at h
  next l hne hl => exact ⟨l, hl, fun s hs => hne s hs, (Except.ok.inj h).symm⟩
  next => simp at h
  next => simp at h

/-- A quoted word is a string. -/
lemma exists_string_of_read {l : Literal} (hquote : chars.head? = some '"')
    (h : Literal.read chars = .ok l) : ∃ s, l = .string s := by
  rw [Literal.read, if_pos hquote] at h
  rcases hs : Literal.readString chars with e | s
  · simp [hs, Except.map] at h
  · simp only [hs, Except.map, Except.ok.injEq] at h
    exact ⟨s, h.symm⟩

lemma quoted_of_read {s : List Char} (h : Literal.read chars = .ok (.string s)) :
    Quoted.decode chars = some s := by
  rw [Literal.read] at h
  split at h
  next =>
    rw [Literal.readString] at h
    rcases hq : Quoted.decode chars with _ | s'
    · simp [hq, Except.map] at h
    · simp only [hq] at h
      split at h
      next => simp [Except.map] at h
      next => simpa [Except.map] using h
  next =>
    exfalso
    unfold Literal.ofNegative Literal.ofUnsigned Literal.ofDecimal at h
    repeat' split at h
    all_goals simp at h

lemma readString_eq_ok {op : Opcode} (h : readString op chars = .ok r) :
    ∃ s, Quoted.decode chars = some s ∧ r = if op = .opExtInstImport then
      .importing (ExtendedSet.ofImportName? (String.ofList s)) (PackedString.pack s)
      else .value (PackedString.pack s) [] := by
  unfold readString at h
  split at h
  next s hs =>
    refine ⟨s, quoted_of_read hs, ?_⟩
    split at h
    next hop => rw [if_pos hop, Except.ok.inj h]
    next hop => rw [if_neg hop, Except.ok.inj h]
  next => simp at h
  next => simp at h
  next => simp at h

lemma exists_raw_of_readRaw (h : readRaw chars = .ok r) : ∃ w, r = .raw w := by
  unfold readRaw at h
  split at h
  next w _ => exact ⟨w, (Except.ok.inj h).symm⟩
  next => simp at h

lemma exists_raw_of_readOperand {d : Declared} {op : Opcode} {done : Array Word} {slot : Slot}
    (hraw : isRaw chars = true) (h : readOperand d op done slot chars = .ok r) : ∃ w, r = .raw w := by
  rw [readOperand.eq_def, if_pos hraw] at h
  exact exists_raw_of_readRaw h

/-- What is read as an id is a name. -/
lemma exists_name_of_readId {refuse : Fault → Refusal} (h : readId refuse chars = .ok r) :
    ∃ name, chars = '%' :: name ∧ r = .id (String.ofList name) := by
  unfold readId at h
  split at h
  next name => exact ⟨name, rfl, (Except.ok.inj h).symm⟩
  next => simp at h

lemma chars_of_readId {refuse : Fault → Refusal} {name : String}
    (h : readId refuse chars = .ok (.id name)) : ∃ n, chars = '%' :: n ∧ String.ofList n = name := by
  obtain ⟨n, hn, hname⟩ := exists_name_of_readId h
  exact ⟨n, hn, (Reading.id.inj hname).symm⟩

/-- The name of an extended instruction is found in a set. -/
lemma exists_row_of_readExtended {set? : Option ExtendedSet} (h : readExtended set? chars = .ok r) :
    ∃ set row, set? = some set ∧ set.ofName? (String.ofList chars) = some row ∧
      r = .value [row.value] row.operands := by
  rw [readExtended] at h
  rcases set? with _ | set
  · simp [ExtendedSet.instructionOfName] at h
  rcases hrow : set.ofName? (String.ofList chars) with _ | row
  · simp [ExtendedSet.instructionOfName, hrow] at h
  · exact ⟨set, row, rfl, hrow, by simpa [ExtendedSet.instructionOfName, hrow] using h.symm⟩

lemma exists_op_of_readSpecOpcode (h : readSpecOpcode chars = .ok r) :
    ∃ op, Opcode.ofName? (String.ofList chars) = some op ∧
      r = .value [op.value.toUInt32] op.constantOperands := by
  rw [readSpecOpcode] at h
  split at h
  next op hop => exact ⟨op, hop, (Except.ok.inj h).symm⟩
  next => simp at h

/-- A mask is the bits that are named, any other value the one of the name. -/
lemma readNamed_eq_ok {category : Category} (h : readNamed category chars = .ok r) :
    (category.isMask = true ∧ ∃ mask,
        (Slot.named category).maskOfText (String.ofList chars) = .ok mask ∧
          r = .value [mask] (category.maskOperands mask)) ∨
      category.isMask = false ∧ ∃ row, category.ofName? (String.ofList chars) = some row ∧
        r = .value [row.value] row.operands := by
  rw [readNamed] at h
  split at h
  next hm =>
    split at h
    next mask hmask => exact .inl ⟨hm, mask, hmask, (Except.ok.inj h).symm⟩
    next => simp at h
  next hm =>
    split at h
    next row hrow => exact .inr ⟨by simpa using hm, row, hrow, (Except.ok.inj h).symm⟩
    next => simp at h

/-- A number is read as its type says if there is such a number to read, else by its spelling. -/
lemma readTyped_eq_ok {t : NumberType} (h : readTyped (some t) chars = .ok r) :
    (∃ bits, r = .value (Literal.wide bits t.width) [] ∧
        (t.isInteger = true ∧ Literal.readInteger t.width (t.numberClass = .signed) chars = .ok bits ∨
          t.isInteger = false ∧ Literal.readFloat t.width chars = .ok bits)) ∨
      (t.isInteger = true → ¬(1 ≤ t.width ∧ t.width ≤ 64)) ∧
        (t.isInteger = false → ¬(t.width = 32 ∨ t.width = 64)) ∧ readNumber chars = .ok r := by
  rw [readTyped] at h
  split at h
  next hinteger =>
    simp only [Bool.and_eq_true, decide_eq_true_eq] at hinteger
    split at h
    next bits hbits => exact .inl ⟨bits, (Except.ok.inj h).symm, .inl ⟨hinteger.1.1, hbits⟩⟩
    next => simp at h
    next => simp at h
  next hinteger =>
  split at h
  next hfloat =>
    split at h
    next bits hbits =>
      exact .inl ⟨bits, (Except.ok.inj h).symm, .inr ⟨by simp_all, hbits⟩⟩
    next => simp at h
  next hfloat => exact .inr ⟨by simp_all, by simp_all, h⟩

lemma refusal_of_readExtended {set? : Option ExtendedSet} {refusal : Refusal}
    (h : readExtended set? chars = .error refusal) :
    refusal = .fatal (.unknownExtended (String.ofList chars)) := by
  rw [readExtended] at h
  split at h
  next => simp at h
  next => exact (Except.error.inj h).symm

lemma refusal_of_readSpecOpcode {refusal : Refusal} (h : readSpecOpcode chars = .error refusal) :
    refusal = .fatal (.unknownSpecOpcode (String.ofList chars)) := by
  rw [readSpecOpcode] at h
  split at h
  next => simp at h
  next => exact (Except.error.inj h).symm

lemma refusal_of_readNamed {category : Category} {refusal : Refusal}
    (h : readNamed category chars = .error refusal) :
    refusal = .fatal (.badValue category (String.ofList chars)) := by
  rw [readNamed] at h
  -- the names of bits and the name of a value are refused alike
  split at h
  all_goals
    split at h
    next => simp at h
    next => exact (Except.error.inj h).symm

/-- A slot for one operand is filled by what is of its kind. -/
lemma readKind_of_readOperand {d : Declared} {op : Opcode} {done : Array Word} {slot : Slot}
    {k : OperandKind} (hraw : isRaw chars = false) (hk : slot.kind? = some k)
    (h : readOperand d op done slot chars = .ok r) : readKind d op done chars k = .ok r := by
  unfold readOperand at h
  simp only [hraw, Bool.false_eq_true, if_false] at h
  split at h
  next => simp [Slot.kind?] at hk
  next =>
    obtain rfl : OperandKind.id = k := by simpa [Slot.kind?] using hk
    obtain ⟨name, rfl, rfl⟩ := exists_name_of_readId h
    rfl
  next => exact (Option.some.inj hk) ▸ h
  next => exact (Option.some.inj hk) ▸ h
  next => exact (Option.some.inj hk) ▸ h
  next => simp at h
  next => simp at h
  next => simp at h

end

/-! ### Operands -/

/-- What is asked of an operand of a text, whatever stands before it: a number that no type governs
takes one word, no string has the character zero in it, an import names a known set, and no constant
is computed by an extended instruction. -/
structure Filled.Regular (op : Opcode) (f : Filled) : Prop where
  short : f.slot.kind? = some .integer →
    ∀ l, Literal.read f.token.chars = .ok l → l.words.length = 1
  zero : f.slot.kind? = some .string → ∀ s, Quoted.decode f.token.chars = some s → '\x00' ∉ s
  known : f.slot.kind? = some .string → op = .opExtInstImport →
    ∀ s, Quoted.decode f.token.chars = some s →
      (ExtendedSet.ofImportName? (String.ofList s)).isSome
  spec : f.slot.kind? = some .specOpcode → String.ofList f.token.chars ≠ "ExtInst"

/-- What is asked of an operand of the kind at a place for the reader to take it as it is meant. -/
structure Filled.Fits (c : Context) (k : OperandKind) (f : Filled) : Prop where
  kind : f.slot.kind? = some k
  regular : f.Regular c.opcode
  /-- The id of an extended instruction's set is that of an import. -/
  set : k = .id → c.NamesSet → ∀ w ∈ f.words, ∃ set, Imports c.earlier w set
  new : k = .resultId → ∀ w ∈ f.words, ∀ i ∈ c.earlier, i.resultId ≠ w
  governs : k = .typedNumber → ∃ t, c.Governs t ∧ (t.isInteger ∨ t.width = 32 ∨ t.width = 64)
  extended : k = .extended → c.opcode = .opExtInst

variable {c : Context} {s s' : State} {f : Filled} {k : OperandKind}

/-- The operand is one of the kind where it stands, and its token denotes it. -/
def Filled.Holds (c : Context) (names : SymbolTable) (k : OperandKind) (f : Filled) : Prop :=
  ∃ number?, Operand c k f.words number? f.reading.needs ∧
    ∀ set?, (∀ set, c.UsesSet set → set? = some set) →
      Denotes names set? k f.token.chars f.words number?

lemma holds_id (hk : k.isId) (hf : f.Fits c k) (hr : readId .fatal f.token.chars = .ok f.reading)
    (hid : ∀ name, f.reading = .id name →
      ∃ w, f.words = [w] ∧ w ≠ 0 ∧ s'.symbols.id? name = some w) : f.Holds c s'.symbols k := by
  obtain ⟨name, hchars, hreading⟩ := exists_name_of_readId hr
  obtain ⟨w, hw, hne, hsym⟩ := hid _ hreading
  refine ⟨none, ?_, fun set? _ => ?_⟩
  · rw [hreading, hw, Reading.needs_id]
    cases k with
    | id => exact .id hne fun hn => hf.set rfl hn w (by simp [hw])
    | typeId => exact .typeId hne
    | resultId => exact .resultId hne (hf.new rfl w (by simp [hw]))
    | scopeId => exact .scopeId hne
    | memorySemanticsId => exact .memorySemanticsId hne
    | _ => simp [OperandKind.isId] at hk
  · rw [hchars, hw]
    exact .id hk hsym

lemma holds_integer (hf : f.Fits c .integer) (hr : readNumber f.token.chars = .ok f.reading)
    (ha : s.accept c.before.toArray f.reading = .ok (s', (c.before ++ f.words).toArray)) :
    f.Holds c s'.symbols .integer := by
  obtain ⟨l, hl, -, hreading⟩ := readNumber_eq_ok hr
  rw [hreading, accept_value_iff] at ha
  obtain ⟨w, hw⟩ := List.length_eq_one_iff.mp (hf.regular.short hf.kind l hl)
  rw [Filled.Holds, hreading, ha.2, hw, Reading.needs_value]
  exact ⟨_, .integer w, fun _ _ => .integer hl hw⟩

lemma length_wide {bits : BitVec 64} {t : NumberType} (h : 1 ≤ t.width ∧ t.width ≤ 64) :
    (Literal.wide bits t.width).length = t.wordCount := by
  rw [NumberType.wordCount, Literal.wide]
  split <;> simp only [List.length_cons, List.length_nil] <;> omega

lemma holds_typedNumber (hd : Declares s.declared c.earlier) (hdec : Decodable c.earlier)
    (hf : f.Fits c .typedNumber)
    (hr : readKind s.declared c.opcode c.before.toArray f.token.chars .typedNumber = .ok f.reading)
    (ha : s.accept c.before.toArray f.reading = .ok (s', (c.before ++ f.words).toArray)) :
    f.Holds c s'.symbols .typedNumber := by
  obtain ⟨t, hgov, hform⟩ := hf.governs rfl
  have hw := hgov.1
  have hfin : ∀ {bits : BitVec 64}, f.reading = .value (Literal.wide bits t.width) [] →
      (∀ set?, Denotes s'.symbols set? .typedNumber f.token.chars (Literal.wide bits t.width)
        (some t)) → f.Holds c s'.symbols .typedNumber := by
    intro bits hreading hden
    rw [hreading, accept_value_iff] at ha
    rw [Filled.Holds, hreading, ha.2, Reading.needs_value]
    exact ⟨some t, .typedNumber hgov (length_wide hw), fun set? _ => hden set?⟩
  rw [readKind] at hr
  split at hr
  next hquote =>
    -- a quoted word is no number
    obtain ⟨l, hl, hne, -⟩ := readNumber_eq_ok hr
    obtain ⟨str, hs⟩ := exists_string_of_read hquote hl
    exact absurd hs (hne str)
  next =>
  rw [hd.governing? hdec hgov] at hr
  rcases readTyped_eq_ok hr with
    ⟨bits, hreading, ⟨hi, hbits⟩ | ⟨hi, hbits⟩⟩ | ⟨hinteger, hfloat, -⟩
  · exact hfin hreading fun _ => .typedInteger hi hbits
  · exact hfin hreading fun _ => .typedFloat hi hbits
  -- the type is one that numbers are read of
  · rcases hi : t.isInteger with _ | _
    · exact absurd (hform.resolve_left (by simp [hi])) (hfloat hi)
    · exact absurd hw (hinteger hi)

lemma holds_string (hf : f.Fits c .string)
    (hr : readString c.opcode f.token.chars = .ok f.reading)
    (ha : s.accept c.before.toArray f.reading = .ok (s', (c.before ++ f.words).toArray)) :
    f.Holds c s'.symbols .string := by
  obtain ⟨str, hstr, hreading⟩ := readString_eq_ok hr
  obtain ⟨hs, hbytes⟩ := PackedString.isString_pack (hf.regular.zero hf.kind str hstr)
  have hdecode : Text.Utf8.decode (PackedString.bytesOf (PackedString.pack str)) = str := by
    rw [hbytes, Text.Utf8.decode_encode]
  have hden : ∀ set?, Denotes s'.symbols set? .string f.token.chars (PackedString.pack str) none :=
    fun _ => .string hstr hdecode
  rw [Filled.Holds]
  split at hreading
  next hop =>
    rw [hreading, accept_importing_iff] at ha
    rw [hreading, ha.1, Reading.needs_importing]
    refine ⟨none, .string hs fun _ => ?_, fun set? _ => hden set?⟩
    rw [setNamed?, hdecode]
    exact hf.regular.known hf.kind hop str hstr
  next hop =>
    rw [hreading, accept_value_iff] at ha
    rw [hreading, ha.2, Reading.needs_value]
    exact ⟨none, .string hs fun hi => absurd hi hop, fun set? _ => hden set?⟩

lemma holds_extended (hd : Declares s.declared c.earlier) (hf : f.Fits c .extended)
    (hr : readExtended (s.declared.extendedSet? c.before.toArray) f.token.chars = .ok f.reading)
    (ha : s.accept c.before.toArray f.reading = .ok (s', (c.before ++ f.words).toArray)) :
    f.Holds c s'.symbols .extended := by
  obtain ⟨set, row, hset, hrow, hreading⟩ := exists_row_of_readExtended hr
  have huses : c.UsesSet set := ⟨hf.extended rfl, hd.extendedSet?_eq_some_iff.mp hset⟩
  have hmem := ExtendedSet.mem_instructions_of_ofName? hrow
  rw [hreading, accept_value_iff] at ha
  rw [Filled.Holds, hreading, ha.2, Reading.needs_value]
  exact ⟨none, .extended huses (ExtendedSet.ofValue?_value hmem),
    fun set? hset? => .extended (hset? set huses) hrow⟩

lemma holds_specOpcode (hr : readSpecOpcode f.token.chars = .ok f.reading)
    (ha : s.accept c.before.toArray f.reading = .ok (s', (c.before ++ f.words).toArray)) :
    f.Holds c s'.symbols .specOpcode := by
  obtain ⟨op, hop, hreading⟩ := exists_op_of_readSpecOpcode hr
  rw [hreading, accept_value_iff] at ha
  rw [Filled.Holds, hreading, ha.2, Reading.needs_value]
  exact ⟨none, .specOpcode op, fun _ _ => .specOpcode hop⟩

/-- A mask written by the names of its bits has no other bits. -/
lemma isSome_of_maskOfText {category : Category} (hm : category.isMask) {text : String} {w : Word}
    (h : (Slot.named category).maskOfText text = .ok w) :
    ∀ i ∈ w.setBits, (category.ofValue? (Word.bit i)).isSome := by
  have hor : ∀ (names : List String) (start w : Word),
      (∀ i ∈ start.setBits, (category.ofValue? (Word.bit i)).isSome) →
      (names.foldlM (fun mask name => do
        return mask ||| (← (Slot.named category).valueOfName name).value) start
          : Except LookupError Word) = .ok w →
      ∀ i ∈ w.setBits, (category.ofValue? (Word.bit i)).isSome := by
    intro names
    induction names with
    | nil =>
      intro start w hstart hw
      obtain rfl : start = w := by simpa [pure, Except.pure] using hw
      exact hstart
    | cons name names ih =>
      intro start w hstart hw
      have hname : (Slot.named category).valueOfName name
          = (category.ofName? name).elim (.error .notFound) .ok := rfl
      rw [List.foldlM_cons, hname] at hw
      rcases hrow : category.ofName? name with _ | row
      · simp [hrow, bind, Except.bind] at hw
      · simp only [hrow, Option.elim_some, bind, Except.bind, pure, Except.pure] at hw
        refine ih (start ||| row.value) w (fun i hi => ?_) hw
        -- a bit of the whole is one of what came before or of the row
        have hbit : i ∈ start.setBits ∨ i ∈ row.value.setBits := by
          simp only [Word.mem_setBits, UInt32.toNat_or, Nat.testBit_or, Bool.or_eq_true] at hi ⊢
          exact hi.2.imp (⟨hi.1, ·⟩) (⟨hi.1, ·⟩)
        exact hbit.elim (hstart i)
          (Category.isSome_of_mem_setBits hm (Category.mem_values_of_ofName? hrow))
  rw [Slot.maskOfText] at h
  split at h
  next => simp at h
  next => exact hor _ 0 w (by simp [Word.setBits]) h

lemma holds_named {category : Category} (hr : readNamed category f.token.chars = .ok f.reading)
    (ha : s.accept c.before.toArray f.reading = .ok (s', (c.before ++ f.words).toArray)) :
    f.Holds c s'.symbols (.named category) := by
  rcases readNamed_eq_ok hr with ⟨hm, mask, hmask, hreading⟩ | ⟨henum, row, hrow, hreading⟩
  all_goals rw [hreading, accept_value_iff] at ha
  · rw [Filled.Holds, hreading, ha.2, Reading.needs_value]
    exact ⟨none, .mask hm (isSome_of_maskOfText hm hmask), fun _ _ => .mask hm hmask⟩
  · obtain ⟨row', hrow', hneeds⟩ :=
      Category.exists_ofValue?_value (Category.mem_values_of_ofName? hrow)
    rw [Filled.Holds, hreading, ha.2, Reading.needs_value, ← hneeds]
    exact ⟨none, .value henum hrow', fun _ _ => .value henum hrow⟩

/-- **What the assembler takes for a slot is an operand of its kind, and its token denotes it.** -/
theorem Filled.holds (hd : Declares s.declared c.earlier) (hdec : Decodable c.earlier)
    (hf : f.Fits c k) (hraw : isRaw f.token.chars = false)
    (hr : readOperand s.declared c.opcode c.before.toArray f.slot f.token.chars = .ok f.reading)
    (ha : s.accept c.before.toArray f.reading = .ok (s', (c.before ++ f.words).toArray))
    (hid : ∀ name, f.reading = .id name →
      ∃ w, f.words = [w] ∧ w ≠ 0 ∧ s'.symbols.id? name = some w) : f.Holds c s'.symbols k := by
  have hr := readKind_of_readOperand hraw hf.kind hr
  cases k with
  | id | typeId | resultId | scopeId | memorySemanticsId => exact holds_id rfl hf hr hid
  | integer => exact holds_integer hf hr ha
  | typedNumber => exact holds_typedNumber hd hdec hf hr ha
  | string => exact holds_string hf hr ha
  | extended => exact holds_extended hd hf hr ha
  | specOpcode => exact holds_specOpcode hr ha
  | named category => exact holds_named hr ha

end Spirv.Assembly
