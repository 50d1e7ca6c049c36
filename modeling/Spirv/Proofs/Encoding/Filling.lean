import Mathlib
import Spirv.Proofs.Encoding.Denotation

/-!
The operands that the assembler puts into slots fill these slots for the reader.

Both walk along the same pattern. `Placed` says what a pattern can still hold at a place; with it
each step of the assembler is a step of the reader, and the two patterns stay equal.
-/

namespace Spirv.Assembly

open SymbolTable (Valid)

variable {c : Context} {s s' : State} {names : List String} {f : Filled} {k : OperandKind}
  {p rest : Pattern} {slot : Slot}

/-! ### One operand -/

/-- What a word can be read as, a raw one aside. -/
lemma readKind_cases {d : Declared} {op : Opcode} {done : Array Word} {chars : List Char}
    {r : Reading} (h : readKind d op done chars k = .ok r) :
    (∃ name, chars = '%' :: name ∧ r = .id (String.ofList name)) ∨
      (∃ ws needs, r = .value ws needs) ∨
      op = .opExtInstImport ∧ k = .string ∧ ∃ set? ws, r = .importing set? ws := by
  have hnumber : readNumber chars = .ok r → ∃ ws needs, r = .value ws needs := by
    intro h
    obtain ⟨l, -, -, hr⟩ := readNumber_eq_ok h
    exact ⟨_, _, hr⟩
  cases k with
  | id | typeId | resultId | scopeId | memorySemanticsId => exact .inl (exists_name_of_readId h)
  | integer => exact .inr (.inl (hnumber h))
  | typedNumber =>
    refine .inr (.inl ?_)
    rw [readKind] at h
    split at h
    · exact hnumber h
    rcases hgov : d.governing? op done with _ | t <;> rw [hgov] at h
    · exact hnumber h
    rcases readTyped_eq_ok h with ⟨bits, hr, -⟩ | ⟨-, -, hr⟩
    · exact ⟨_, _, hr⟩
    · exact hnumber hr
  | string =>
    obtain ⟨str, -, hr⟩ := readString_eq_ok h
    split at hr
    next hop => exact .inr (.inr ⟨hop, rfl, _, _, hr⟩)
    next => exact .inr (.inl ⟨_, _, hr⟩)
  | extended =>
    obtain ⟨-, row, -, -, hr⟩ := exists_row_of_readExtended h
    exact .inr (.inl ⟨_, _, hr⟩)
  | specOpcode =>
    obtain ⟨op, -, hr⟩ := exists_op_of_readSpecOpcode h
    exact .inr (.inl ⟨_, _, hr⟩)
  | named category =>
    rcases readNamed_eq_ok h with ⟨-, mask, -, hr⟩ | ⟨-, row, -, hr⟩
    all_goals exact .inr (.inl ⟨_, _, hr⟩)

lemma patternAfter_eq {r : Reading} (hs : slot ≠ .free) (hr : ∀ w, r ≠ .raw w) :
    r.patternAfter slot rest = r.needs ++ rest := by
  cases r <;> simp_all [Reading.patternAfter, Reading.needs]

/-- Putting an operand down may number a name and changes no other. -/
lemma valid_of_accept {done ws : List Word} {r : Reading} (hv : Valid names s.symbols)
    (hlen : names.length + 2 < 2 ^ 32) (hname : ∀ name, r = .id name → name ∈ names)
    (ha : s.accept done.toArray r = .ok (s', (done ++ ws).toArray)) :
    (Valid names s'.symbols ∧ s.symbols.Extends s'.symbols) ∧ ∀ name, r = .id name →
      ∃ w, ws = [w] ∧ w ≠ 0 ∧ s'.symbols.id? name = some w := by
  cases r with
  | id name =>
    obtain ⟨w, t, hassign, rfl, rfl⟩ := accept_id_iff.mp ha
    obtain ⟨hv', hext, hw⟩ := hv.assign hlen (hname name rfl) hassign
    refine ⟨⟨hv', hext⟩, ?_⟩
    rintro _ ⟨⟩
    exact ⟨w, rfl, hv'.nonzero name w hw, hw⟩
  | value us needs =>
    obtain ⟨rfl, rfl⟩ := accept_value_iff.mp ha
    exact ⟨⟨hv, .refl _⟩, by simp⟩
  | importing set? us =>
    obtain ⟨rfl, rfl⟩ := accept_importing_iff.mp ha
    exact ⟨⟨hv, .refl _⟩, by simp⟩
  | raw w =>
    obtain ⟨rfl, -⟩ := by simpa [State.accept] using ha
    exact ⟨⟨hv, .refl _⟩, by simp⟩

lemma declared_of_accept {done ws : List Word} {r : Reading}
    (hr : ∀ set? us, r ≠ .importing set? us)
    (ha : s.accept done.toArray r = .ok (s', (done ++ ws).toArray)) : s'.declared = s.declared := by
  cases r with
  | id name =>
    obtain ⟨w, t, -, rfl, -⟩ := accept_id_iff.mp ha
    rfl
  | value us needs =>
    obtain ⟨rfl, -⟩ := accept_value_iff.mp ha
    rfl
  | importing set? us => exact absurd rfl (hr set? us)
  | raw w =>
    obtain ⟨rfl, -⟩ := by simpa [State.accept] using ha
    rfl

/-- A slot that one operand fills, not a free one, is of a kind. -/
lemma exists_kind_of_readOperand {d : Declared} {op : Opcode} {done : Array Word}
    {chars : List Char} {r : Reading} (hraw : isRaw chars = false) (hs : slot ≠ .free)
    (h : readOperand d op done slot chars = .ok r) : ∃ k, slot.kind? = some k := by
  unfold readOperand at h
  cases slot <;> simp_all [Slot.kind?]

/-- After an operand that is no raw word come the slots that it asks for. -/
lemma patternAfter_of_readOperand {d : Declared} {op : Opcode} {done : Array Word}
    {chars : List Char} {r : Reading} (hraw : isRaw chars = false) (hk : slot.kind? = some k)
    (h : readOperand d op done slot chars = .ok r) (rest : Pattern) :
    r.patternAfter slot rest = r.needs ++ rest := by
  refine patternAfter_eq ?_ ?_
  · rintro rfl
    simp [Slot.kind?] at hk
  · rintro w rfl
    rcases readKind_cases (readKind_of_readOperand hraw hk h) with
      ⟨_, -, hr⟩ | ⟨_, _, hr⟩ | ⟨-, -, _, _, hr⟩ <;> simp at hr

/-- A result in front of an instruction is read as one among the operands would be. -/
lemma readOperand_of_readId (d : Declared) (op : Opcode) (done : Array Word) {chars : List Char}
    {r : Reading} (hraw : isRaw chars = false) (h : readId .fatal chars = .ok r) :
    readOperand d op done .resultId chars = .ok r ∧
      ∀ rest, r.patternAfter .resultId rest = rest := by
  constructor
  · unfold readOperand
    simpa [hraw, readKind] using h
  · obtain ⟨name, -, rfl⟩ := exists_name_of_readId h
    intro rest
    rw [patternAfter_eq (by simp) (by simp)]
    rfl

/-- What is read as a name is one. -/
lemma name_of_readOperand {d : Declared} {op : Opcode} {done : Array Word} {chars : List Char}
    {name : String} (hraw : isRaw chars = false)
    (h : readOperand d op done slot chars = .ok (.id name)) :
    ∃ n, chars = '%' :: n ∧ String.ofList n = name := by
  by_cases hs : slot = .free
  · subst hs
    unfold readOperand at h
    simp only [hraw, Bool.false_eq_true, if_false] at h
    unfold readFree at h
    split at h
    next => simp at h
    next => simp at h
    next => exact chars_of_readId h
  · obtain ⟨k, hk⟩ := exists_kind_of_readOperand hraw hs h
    rcases readKind_cases (readKind_of_readOperand hraw hk h) with
      ⟨n, hchars, hn⟩ | ⟨_, _, hr⟩ | ⟨-, -, _, _, hr⟩
    · exact ⟨n, hchars, by simpa using hn.symm⟩
    · simp at hr
    · simp at hr

lemma exists_name_of_isId {d : Declared} {op : Opcode} {done : Array Word} {chars : List Char}
    {r : Reading} (hraw : isRaw chars = false) (hk : slot.kind? = some k) (hid : k.isId)
    (h : readOperand d op done slot chars = .ok r) : ∃ name, r = .id name := by
  have hread : readId .fatal chars = .ok r := by
    have := readKind_of_readOperand hraw hk h
    cases k <;> first | exact this | simp [OperandKind.isId] at hid
  obtain ⟨name, -, hname⟩ := exists_name_of_readId hread
  exact ⟨_, hname⟩

/-- What fills a slot for an id is a name or a raw word. -/
lemma name_or_raw_of_isId {d : Declared} {op : Opcode} {done : Array Word} {chars : List Char}
    {r : Reading} (hk : slot.kind? = some k) (hid : k.isId)
    (h : readOperand d op done slot chars = .ok r) : (∃ name, r = .id name) ∨ ∃ w, r = .raw w := by
  by_cases hraw : isRaw chars
  · exact .inr (exists_raw_of_readOperand hraw h)
  · exact .inl (exists_name_of_isId (by simpa using hraw) hk hid h)

/-- An operand that is an id is written as the id of its name. -/
def Filled.Named (names : SymbolTable) (f : Filled) : Prop :=
  ∀ k, f.slot.kind? = some k → k.isId → ∃ name w, f.token.chars = '%' :: name ∧ f.words = [w] ∧
    names.id? (String.ofList name) = some w

/-- An operand and those after it number the names that they are. -/
lemma names_cons {op : Opcode} {d : Declared} {done : List Word} {fs : List Filled} {e : Encoded}
    {token : Token} {r : Reading} {ws : List Word} (hv : Valid names s.symbols)
    (hlen : names.length + 2 < 2 ^ 32) (hraw : isRaw token.chars = false)
    (hname : String.ofList token.chars.tail ∈ names)
    (hread : readOperand d op done.toArray slot token.chars = .ok r)
    (ha : s.accept done.toArray r = .ok (s', (done ++ ws).toArray))
    (ih : Valid names s'.symbols → (Valid names e.state.symbols ∧
      s'.symbols.Extends e.state.symbols) ∧ ∀ f ∈ fs, f.Named e.state.symbols) :
    (Valid names e.state.symbols ∧ s.symbols.Extends e.state.symbols) ∧
      ∀ f ∈ ⟨slot, token, r, ws⟩ :: fs, Filled.Named e.state.symbols f := by
  have hnames : ∀ name, r = .id name → name ∈ names := by
    rintro name rfl
    obtain ⟨n, hchars, rfl⟩ := name_of_readOperand hraw hread
    simpa [hchars] using hname
  obtain ⟨⟨hv', hext⟩, hid⟩ := valid_of_accept hv hlen hnames ha
  obtain ⟨⟨hv'', hext'⟩, hfs⟩ := ih hv'
  refine ⟨⟨hv'', hext.trans hext'⟩, List.forall_mem_cons.mpr ⟨fun k hk hkid => ?_, hfs⟩⟩
  obtain ⟨name, rfl⟩ := exists_name_of_isId hraw hk hkid hread
  obtain ⟨n, hchars, rfl⟩ := name_of_readOperand hraw hread
  obtain ⟨w, hw, -, hsym⟩ := hid _ rfl
  exact ⟨n, w, hchars, hw, hext' _ _ hsym⟩

/-- Operands number the names that they are, and no other symbol changes. -/
lemma Fills.valid {op : Opcode} {result? : Option Token} {done : List Word} {tokens : List Token}
    {fs : List Filled} {e : Encoded} (h : Fills op result? s done p tokens fs e)
    (hlen : names.length + 2 < 2 ^ 32)
    (htok : ∀ token, token ∈ result? ∨ token ∈ tokens →
      isRaw token.chars = false ∧ String.ofList token.chars.tail ∈ names)
    (hv : Valid names s.symbols) :
    (Valid names e.state.symbols ∧ s.symbols.Extends e.state.symbols) ∧
      ∀ f ∈ fs, f.Named e.state.symbols := by
  induction h with
  | full | stop => exact ⟨⟨hv, .refl _⟩, by simp⟩
  | @result s s' done ws p rest tokens token r fs e take result read accept more ih =>
    obtain ⟨hraw, hname⟩ := htok token (.inl result)
    exact names_cons hv hlen hraw hname
      (readOperand_of_readId s.declared op done.toArray hraw read).1 accept (ih htok)
  | @operand s s' done ws p rest slot tokens token r fs e take result start read accept more ih =>
    obtain ⟨hraw, hname⟩ := htok token (.inr (.head _))
    exact names_cons hv hlen hraw hname read accept
      (ih fun t ht => htok t (ht.imp_right (.tail _)))

/-! ### Patterns -/

/-- What is still to fill at a place. -/
structure Placed (c : Context) (p : Pattern) : Prop where
  free : .free ∉ p
  first : c.before = [] → p = c.opcode.operands
  /-- Only an extended instruction is numbered by a set. -/
  extended : c.opcode ≠ .opExtInst → ∀ s ∈ p, .extended ∉ s.kinds
  /-- The first operands of an extended instruction are its result and its set. -/
  set : c.opcode = .opExtInst → c.before.length ≤ 2 →
    p = c.opcode.operands.drop c.before.length

lemma free_notMem_operands (op : Opcode) : .free ∉ op.operands := by
  rw [op.operands_eq, Opcode.resultSlots]
  intro h
  rcases List.mem_append.mp h with h | h
  · rcases List.mem_append.mp h with h | h <;> split at h <;> simp at h
  · simpa [Slot.isInner] using Opcode.isInner_of_mem h

lemma placed_operands (earlier : List Instruction) (op : Opcode) :
    Placed ⟨earlier, op, []⟩ op.operands where
  free := free_notMem_operands op
  first _ := rfl
  extended hop _ hs := Opcode.extended_notMem hop hs
  set _ _ := rfl

/-- What is left of a pattern are its slots and what they repeat. -/
lemma exists_mem_of_take? (ht : p.take? = some (slot, rest)) {t : Slot} (h : t ∈ slot :: rest) :
    (t = .free → .free ∈ p) ∧ ∀ k ∈ t.kinds, ∃ u ∈ p, k ∈ u.kinds := by
  rcases p with _ | ⟨u, p⟩
  · simp [Pattern.take?] at ht
  have hmem : t ∈ p → (t = .free → .free ∈ u :: p) ∧ ∀ k ∈ t.kinds, ∃ v ∈ u :: p, k ∈ v.kinds :=
    fun h => ⟨fun he => .tail _ (he ▸ h), fun k hk => ⟨t, .tail _ h, hk⟩⟩
  cases u with
  | many l =>
    obtain ⟨rfl, rfl⟩ := by simpa [Pattern.take?] using ht
    rcases List.mem_cons.mp h with rfl | h
    · exact ⟨by simp, fun k hk => ⟨.many l, by simp, hk⟩⟩
    rcases List.mem_cons.mp h with rfl | h
    · exact ⟨by simp, fun k hk => ⟨.many l, by simp, hk⟩⟩
    · exact hmem h
  | pairs l m =>
    obtain ⟨rfl, rfl⟩ := by simpa [Pattern.take?] using ht
    rcases List.mem_cons.mp h with rfl | h
    · exact ⟨by simp, fun k hk => ⟨.pairs l m, by simp, by simp_all [Slot.kinds]⟩⟩
    rcases List.mem_cons.mp h with rfl | h
    · exact ⟨by simp, fun k hk => ⟨.pairs l m, by simp, by simp_all [Slot.kinds]⟩⟩
    rcases List.mem_cons.mp h with rfl | h
    · exact ⟨by simp, fun k hk => ⟨.pairs l m, by simp, hk⟩⟩
    · exact hmem h
  | _ =>
    obtain ⟨rfl, rfl⟩ := by simpa [Pattern.take?] using ht
    rcases List.mem_cons.mp h with rfl | h
    · exact ⟨by simp, fun k hk => ⟨_, by simp, hk⟩⟩
    · exact hmem h

lemma Operand.extended_notMem_needs {ws : List Word} {number? : Option NumberType}
    {needs : List Slot} (ho : Operand c k ws number? needs) (hop : c.opcode ≠ .opExtInst)
    (hspec : ∀ op : Opcode, ws = [op.value.toUInt32] → k = .specOpcode → op ≠ .opExtInst) {t : Slot}
    (ht : t ∈ needs) : .extended ∉ t.kinds := by
  cases ho with
  | extended uses => exact absurd uses.1 hop
  | specOpcode op =>
    exact Opcode.extended_notMem (hspec op rfl rfl) ((List.dropWhile_sublist _).mem ht)
  | value _ row_eq => exact Category.extended_notMem (Category.mem_values_of_ofValue? row_eq) ht
  | @mask category w _ bits =>
    obtain ⟨i, -, hi⟩ := List.mem_flatMap.mp ht
    rcases hr : category.ofValue? (Word.bit i) with _ | row
    · simp [hr] at hi
    · exact Category.extended_notMem (Category.mem_values_of_ofValue? hr) (by simpa [hr] using hi)
  | _ => simp at ht

lemma Placed.push (h : Placed c p) (ht : p.take? = some (slot, rest)) (hk : slot.kind? = some k)
    {ws : List Word} {number? : Option NumberType} {needs : List Slot}
    (ho : Operand c k ws number? needs)
    (hspec : ∀ op : Opcode, ws = [op.value.toUInt32] → k = .specOpcode → op ≠ .opExtInst) :
    Placed (c.push ws) (needs ++ rest) where
  free hf := by
    rcases List.mem_append.mp hf with hf | hf
    · simpa [Slot.isInner] using ho.isInner_of_mem hf
    · exact h.free ((exists_mem_of_take? ht (.tail _ hf)).1 rfl)
  first hb := by simp [ho.ne_nil] at hb
  extended hop t hmem hkind := by
    rcases List.mem_append.mp hmem with hmem | hmem
    · exact Operand.extended_notMem_needs ho hop hspec hmem hkind
    · obtain ⟨u, hu, hku⟩ := (exists_mem_of_take? ht (.tail _ hmem)).2 _ hkind
      exact h.extended hop u hu hku
  set hop hb := by
    have hlen := List.length_pos_iff.mpr ho.ne_nil
    simp only [Context.push_before, Context.push_opcode, List.length_append] at hb hop ⊢
    have hp := h.set hop (by omega)
    rw [hop] at hp ⊢
    have hcase : c.before.length = 0 ∨ c.before.length = 1 := by omega
    rcases hcase with h0 | h1
    · rw [h0] at hp hb ⊢
      obtain ⟨rfl, rfl⟩ := by simpa [hp, Pattern.take?, Opcode.operands, Opcode.signature] using ht
      obtain rfl : OperandKind.typeId = k := by simpa [Slot.kind?] using hk
      cases ho
      rfl
    · rw [h1] at hp hb ⊢
      obtain ⟨rfl, rfl⟩ := by simpa [hp, Pattern.take?, Opcode.operands, Opcode.signature] using ht
      obtain rfl : OperandKind.resultId = k := by simpa [Slot.kind?] using hk
      cases ho
      rfl

/-- The first operand of an instruction is no number that a type governs. -/
lemma kind?_ne_of_take?_operands {op : Opcode} (ht : Pattern.take? op.operands = some (slot, rest)) :
    slot.kind? ≠ some .typedNumber := by
  intro hk
  generalize hp : op.operands = p at ht
  rcases p with _ | ⟨t, p⟩
  · simp [Pattern.take?] at ht
  have hmem : t ∈ op.operands.head? := by simp [hp]
  have hnot := Opcode.typedNumber_notMem hmem
  cases t <;> simp_all [Pattern.take?, Slot.kinds] <;>
    obtain ⟨rfl, rfl⟩ := ht <;> simp_all [Slot.kind?]

/-- Before a number that a type governs another operand stands. -/
lemma Placed.before_ne_nil (h : Placed c p) (ht : p.take? = some (slot, rest))
    (hk : slot.kind? = some .typedNumber) : c.before ≠ [] :=
  fun hb => kind?_ne_of_take?_operands (h.first hb ▸ ht) hk

/-- The set of an extended instruction stands right before its number. -/
lemma Placed.take?_set (h : Placed c p) (hn : c.NamesSet) (ht : p.take? = some (slot, rest)) :
    slot = .id ∧ rest = [.extended, .many .id] := by
  have hp := h.set hn.1 (by rw [hn.2])
  rw [hn.1, hn.2] at hp
  simpa [hp, Pattern.take?, Opcode.operands, Opcode.signature, eq_comm] using ht

/-- One step of the assembler. -/
lemma Filled.step (hv : Valid names s.symbols) (hlen : names.length + 2 < 2 ^ 32)
    (hd : Declares s.declared c.earlier) (hdec : Decodable c.earlier) (hp : Placed c p)
    (ht : p.take? = some (f.slot, rest)) (hraw : isRaw f.token.chars = false)
    (hname : String.ofList f.token.chars.tail ∈ names)
    (hr : readOperand s.declared c.opcode c.before.toArray f.slot f.token.chars = .ok f.reading)
    (ha : s.accept c.before.toArray f.reading = .ok (s', (c.before ++ f.words).toArray)) :
    ∃ k, f.slot.kind? = some k ∧ (f.Fits c k → f.Holds c s'.symbols k) ∧
      f.reading.patternAfter f.slot rest = f.reading.needs ++ rest ∧
      (Valid names s'.symbols ∧ s.symbols.Extends s'.symbols) ∧
      ((c.opcode = .opExtInstImport → k ≠ .string) → s'.declared = s.declared) := by
  have hfree : f.slot ≠ .free := fun hs => hp.free ((exists_mem_of_take? ht (.head _)).1 hs)
  obtain ⟨k, hk⟩ := exists_kind_of_readOperand hraw hfree hr
  have hcases := readKind_cases (readKind_of_readOperand hraw hk hr)
  have hnames : ∀ name, f.reading = .id name → name ∈ names := by
    rintro name hid
    rcases hcases with ⟨n, hchars, hn⟩ | ⟨ws, needs, hn⟩ | ⟨-, -, set?, ws, hn⟩
    · obtain rfl : String.ofList n = name := by simpa [hid] using hn.symm
      simpa [hchars] using hname
    all_goals simp [hid] at hn
  obtain ⟨hv', hid⟩ := valid_of_accept hv hlen hnames ha
  refine ⟨k, hk, fun hf => f.holds hd hdec hf hraw hr ha hid,
    patternAfter_of_readOperand hraw hk hr rest, hv', fun hop => ?_⟩
  refine declared_of_accept (fun set? ws hw => ?_) ha
  rcases hcases with ⟨n, -, hn⟩ | ⟨us, needs, hn⟩ | ⟨himport, hstring, -⟩
  · simp [hw] at hn
  · simp [hw] at hn
  · exact hop himport hstring

/-! ### All operands of an instruction -/

/-- The operand of the text and that of the module are the same. -/
def Matches (names : SymbolTable) (set? : Option ExtendedSet) (f : Filled) (q : Piece) : Prop :=
  f.slot.kind? = some q.kind ∧ q.words = f.words ∧
    Denotes names set? q.kind f.token.chars q.words q.number?

lemma Matches.extend {names names' : SymbolTable} {set? : Option ExtendedSet} {q : Piece}
    (h : Matches names set? f q) (he : names.Extends names') : Matches names' set? f q :=
  ⟨h.1, h.2.1, h.2.2.extend he⟩

lemma wordsOf_of_matches {names : SymbolTable} {set? : Option ExtendedSet} {fs : List Filled}
    {ps : List Piece} (h : List.Forall₂ (Matches names set?) fs ps) :
    Piece.wordsOf ps = Filled.wordsOf fs := by
  induction h with
  | nil => rfl
  | cons hm _ ih => rw [Piece.wordsOf_cons, Filled.wordsOf_cons, hm.2.1, ih]

lemma eq_nil_of_take? (h : p.take? = none) : p = [] := by
  unfold Pattern.take? at h
  split at h <;> simp_all

/-- What may be absent where a pattern starts may be absent from it. -/
lemma isOptional_of_take? (ht : p.take? = some (slot, rest)) (h : slot.isOptional) :
    ∀ t ∈ p.head?, t.isOptional := by
  rcases p with _ | ⟨t, p⟩
  · simp
  have hs : slot = t ∨ t.isOptional := by
    cases t <;> simp_all [Pattern.take?, Slot.isOptional]
  simpa using hs.elim (fun he => he ▸ h) id

/-- The set that the number of an extended instruction needs is imported. -/
lemma Fills.exists_imports {op : Opcode} {result? : Option Token} {earlier : List Instruction}
    {done : List Word} {tokens : List Token} {fs : List Filled} {e : Encoded} {w : Word}
    (h : Fills op result? s (done ++ [w]) (.extended :: rest) tokens fs e)
    (hraw : ∀ token ∈ tokens, isRaw token.chars = false) (hlen : done.length = 2)
    (hd : Declares s.declared earlier) : ∃ set, Imports earlier w set := by
  cases h with
  | full take => simp [Pattern.take?] at take
  | stop take optional =>
    obtain ⟨rfl, rfl⟩ := by simpa [Pattern.take?] using take
    simp [Slot.isOptional] at optional
  | result take => simp [Pattern.take?] at take
  | @operand _ _ _ _ _ _ _ tokens token _ _ _ take _ _ read =>
    obtain ⟨rfl, rfl⟩ := by simpa [Pattern.take?] using take
    have hread := readKind_of_readOperand (hraw token (by simp)) (k := .extended) rfl read
    obtain ⟨set, -, hset, -⟩ := exists_row_of_readExtended hread
    have hd : Declares s.declared (Context.mk earlier op (done ++ [w])).earlier := hd
    obtain ⟨id, hid, himports⟩ := hd.extendedSet?_eq_some_iff.mp hset
    obtain rfl : w = id := by simpa [← hlen] using hid
    exact ⟨set, himports⟩

section

variable {op : Opcode} {result? : Option Token} {earlier : List Instruction} {done : List Word}
  {tokens : List Token} {fs : List Filled} {e : Encoded} {set? : Option ExtendedSet}

/-- The operands are still to come at a place that the assembler and the reader agree on. -/
structure Faces (names : List String) (earlier : List Instruction) (op : Opcode)
    (set? : Option ExtendedSet) (s : State) (done : List Word) (p : Pattern) (fs : List Filled) :
    Prop where
  valid : Valid names s.symbols
  declares : Declares s.declared earlier
  placed : Placed ⟨earlier, op, done⟩ p
  regular : ∀ f ∈ fs, f.Regular op
  new : ∀ f ∈ fs, f.slot.kind? = some .resultId → ∀ w ∈ f.words, ∀ i ∈ earlier, i.resultId ≠ w
  governs : ∀ f ∈ fs, f.slot.kind? = some .typedNumber →
    ∃ t, Context.Governs ⟨earlier, op, done ++ Filled.wordsOf fs⟩ t ∧
      (t.isInteger ∨ t.width = 32 ∨ t.width = 64)
  set : ∀ set, Context.UsesSet ⟨earlier, op, done ++ Filled.wordsOf fs⟩ set → set? = some set

/-- The reader takes the operands as they are meant. -/
def Reads (names : SymbolTable) (earlier : List Instruction) (op : Opcode)
    (set? : Option ExtendedSet) (done : List Word) (p : Pattern) (fs : List Filled) : Prop :=
  ∃ ps, Filling ⟨earlier, op, done⟩ p ps ∧ List.Forall₂ (Matches names set?) fs ps

/-- Only the first operand word tells which type governs the numbers. -/
lemma Governs.of_head? {c' : Context} {t : NumberType} (h : c.Governs t)
    (he : c'.earlier = c.earlier) (hop : c'.opcode = c.opcode)
    (hb : c'.before.head? = c.before.head?) : c'.Governs t := by
  rw [Context.Governs, Context.typeId] at h ⊢
  simpa [he, hop, hb, List.headD_eq_head?_getD] using h

lemma UsesSet.append {ws : List Word} {set : ExtendedSet} (h : c.UsesSet set) :
    Context.UsesSet ⟨c.earlier, c.opcode, c.before ++ ws⟩ set := by
  obtain ⟨hop, id, hid, himports⟩ := h
  exact ⟨hop, id, by rw [List.getElem?_append_left (List.getElem?_eq_some_iff.mp hid).1, hid],
    himports⟩

/-- Only its own name stands for an opcode. -/
lemma text_of_denotes {names : SymbolTable} {chars : List Char} {op : Opcode}
    {number? : Option NumberType}
    (h : Denotes names set? .specOpcode chars [op.value.toUInt32] number?) :
    String.ofList chars = op.name := by
  generalize hws : [op.value.toUInt32] = ws at h
  cases h with
  | id kind => simp [OperandKind.isId] at kind
  | @specOpcode _ op' op_eq =>
    have hvalue : op.value = op'.value := UInt16.toUInt32_inj.mp (by simpa using hws)
    have hop := op.ofValue?_value
    rw [hvalue, op'.ofValue?_value] at hop
    have hname : op'.name = String.ofList chars := by simpa using List.find?_some op_eq
    rw [← hname, Option.some.inj hop]

/-- The first of the operands that are still to come fits its place. -/
lemma Faces.fits {k : OperandKind} (h : Faces names earlier op set? s done p (f :: fs))
    (ht : p.take? = some (f.slot, rest)) (hk : f.slot.kind? = some k)
    (hraw : isRaw f.token.chars = false)
    (hread : readOperand s.declared op done.toArray f.slot f.token.chars = .ok f.reading)
    (ha : s.accept done.toArray f.reading = .ok (s', (done ++ f.words).toArray))
    (hs' : s'.declared = s.declared)
    (more : Fills op result? s' (done ++ f.words) (f.reading.needs ++ rest) tokens fs e)
    (htok : ∀ token ∈ tokens, isRaw token.chars = false) : f.Fits ⟨earlier, op, done⟩ k where
  kind := hk
  regular := h.regular f (.head _)
  set := by
    rintro rfl hn w hw
    obtain ⟨-, rfl⟩ := h.placed.take?_set hn ht
    have hid := readKind_of_readOperand hraw hk hread
    obtain ⟨name, -, hreading⟩ := exists_name_of_readId hid
    obtain ⟨v, t, -, -, hws⟩ := accept_id_iff.mp (hreading ▸ ha)
    obtain rfl : w = v := by simpa [hws] using hw
    rw [hreading, hws] at more
    exact more.exists_imports htok hn.2 (hs' ▸ h.declares)
  new := by
    rintro rfl
    exact h.new f (.head _) hk
  governs := by
    rintro rfl
    obtain ⟨t, hgov, hform⟩ := h.governs f (.head _) hk
    have hne := h.placed.before_ne_nil ht hk
    refine ⟨t, Governs.of_head? hgov rfl rfl ?_, hform⟩
    rw [List.head?_append_of_ne_nil _ hne]
  extended := by
    rintro rfl
    by_contra hx
    obtain ⟨u, hu, hku⟩ := (exists_mem_of_take? ht (.head _)).2 .extended (by
      cases hslot : f.slot <;> simp_all [Slot.kind?, Slot.kinds])
    exact h.placed.extended hx u hu hku

/-- If the reader takes the operands after the first, it takes the first as well. -/
lemma Faces.cons (h : Faces names earlier op set? s done p (f :: fs))
    (hop : op = .opExtInstImport → f.slot.kind? ≠ some .string) (hdec : Decodable earlier)
    (hlen : names.length + 2 < 2 ^ 32)
    (ht : p.take? = some (f.slot, rest)) (hraw : isRaw f.token.chars = false)
    (hname : String.ofList f.token.chars.tail ∈ names)
    (hread : readOperand s.declared op done.toArray f.slot f.token.chars = .ok f.reading)
    (ha : s.accept done.toArray f.reading = .ok (s', (done ++ f.words).toArray))
    (more : Fills op result? s' (done ++ f.words) (f.reading.patternAfter f.slot rest) tokens fs e)
    (htok : ∀ token, token ∈ result? ∨ token ∈ tokens →
      isRaw token.chars = false ∧ String.ofList token.chars.tail ∈ names)
    (ih : Faces names earlier op set? s' (done ++ f.words) (f.reading.patternAfter f.slot rest) fs →
      Reads e.state.symbols earlier op set? (done ++ f.words)
        (f.reading.patternAfter f.slot rest) fs) :
    Reads e.state.symbols earlier op set? done p (f :: fs) := by
  obtain ⟨k, hk, hholds, hafter, ⟨hv', hext⟩, hdecl⟩ :=
    Filled.step h.valid hlen h.declares hdec h.placed ht hraw hname hread ha
  have hs' : s'.declared = s.declared := hdecl fun hi hs => hop hi (hs ▸ hk)
  have hext' := (more.valid hlen htok hv').1.2
  rw [hafter] at more ih
  have hfits : f.Fits ⟨earlier, op, done⟩ k :=
    h.fits ht hk hraw hread ha hs' more fun t ht => (htok t (.inr ht)).1
  obtain ⟨number?, hoperand, hdenotes⟩ := hholds hfits
  have hdenotes := hdenotes set? fun set hu => h.set set (UsesSet.append hu)
  have hspec : ∀ op' : Opcode, f.words = [op'.value.toUInt32] → k = .specOpcode →
      op' ≠ .opExtInst := by
    rintro op' hws rfl rfl
    exact (h.regular f (.head _)).spec hk (text_of_denotes (hws ▸ hdenotes))
  have hassoc : done ++ Filled.wordsOf (f :: fs) = done ++ f.words ++ Filled.wordsOf fs := by
    rw [Filled.wordsOf_cons, List.append_assoc]
  obtain ⟨ps, hfill, hmatch⟩ := ih {
    valid := hv'
    declares := hs' ▸ h.declares
    placed := h.placed.push ht hk hoperand hspec
    regular := fun g hg => h.regular g (.tail _ hg)
    new := fun g hg => h.new g (.tail _ hg)
    governs := fun g hg => hassoc ▸ h.governs g (.tail _ hg)
    set := fun set => hassoc ▸ h.set set }
  exact ⟨⟨k, f.words, number?⟩ :: ps, .next ht hk hoperand hfill,
    .cons ⟨hk, rfl, hdenotes.extend hext'⟩ hmatch⟩

/-- **The operands of a text fill the slots for the reader as they do for the assembler.** -/
theorem Fills.reads (h : Fills op result? s done p tokens fs e)
    (hop : op ≠ .opExtInstImport) (hdec : Decodable earlier) (hlen : names.length + 2 < 2 ^ 32)
    (htok : ∀ token, token ∈ result? ∨ token ∈ tokens →
      isRaw token.chars = false ∧ String.ofList token.chars.tail ∈ names)
    (hf : Faces names earlier op set? s done p fs) :
    Reads e.state.symbols earlier op set? done p fs := by
  induction h with
  | full take =>
    rw [eq_nil_of_take? take]
    exact ⟨[], .done (by simp), .nil⟩
  | stop take optional => exact ⟨[], .done (isOptional_of_take? take optional), .nil⟩
  | @result s s' done ws p rest tokens token r fs e take result read accept more ih =>
    obtain ⟨hraw, hname⟩ := htok token (.inl result)
    obtain ⟨hread, hafter⟩ :=
      readOperand_of_readId s.declared op done.toArray hraw read
    rw [← hafter rest] at more ih
    exact hf.cons (fun hi => absurd hi hop) hdec hlen take hraw hname hread accept more htok
      (ih htok)
  | @operand s s' done ws p rest slot tokens token r fs e take result start read accept more ih =>
    obtain ⟨hraw, hname⟩ := htok token (.inr (.head _))
    have htok' := fun t (ht : t ∈ result? ∨ t ∈ tokens) => htok t (ht.imp_right (.tail _))
    exact hf.cons (fun hi => absurd hi hop) hdec hlen take hraw hname read accept more htok'
      (ih htok')

lemma ne_importing_of_readFree {chars : List Char} {r : Reading} (h : readFree chars = .ok r)
    (set? : Option ExtendedSet) (us : List Word) : r ≠ .importing set? us := by
  unfold readFree at h
  split at h
  next =>
    obtain rfl := Except.ok.inj h
    simp
  next => simp at h
  next =>
    obtain ⟨name, -, rfl⟩ := exists_name_of_readId h
    simp

/-- Only the string of an import names a set. -/
lemma ne_importing_of_readOperand {d : Declared} {op : Opcode} {done : Array Word}
    {chars : List Char} {r : Reading} (hop : op = .opExtInstImport → slot.kind? ≠ some .string)
    (h : readOperand d op done slot chars = .ok r) (set? : Option ExtendedSet) (us : List Word) :
    r ≠ .importing set? us := by
  rintro rfl
  by_cases hraw : isRaw chars
  · obtain ⟨w, hr⟩ := exists_raw_of_readOperand hraw h
    simp at hr
  by_cases hs : slot = .free
  · rw [hs, readOperand.eq_def, if_neg hraw] at h
    exact ne_importing_of_readFree h set? us rfl
  · obtain ⟨k, hk⟩ := exists_kind_of_readOperand (by simpa using hraw) hs h
    rcases readKind_cases (readKind_of_readOperand (by simpa using hraw) hk h) with
      ⟨_, -, hr⟩ | ⟨_, _, hr⟩ | ⟨himport, rfl, -⟩
    · simp at hr
    · simp at hr
    · exact hop himport hk

/-- Only an import declares something before its instruction ends. -/
lemma Fills.declared_eq (h : Fills op result? s done p tokens fs e) (hop : op ≠ .opExtInstImport) :
    e.state.declared = s.declared := by
  induction h with
  | full | stop => rfl
  | result _ _ read accept _ ih =>
    obtain ⟨name, -, rfl⟩ := exists_name_of_readId read
    rw [ih, declared_of_accept (by simp) accept]
  | operand _ _ _ read accept _ ih =>
    rw [ih, declared_of_accept (ne_importing_of_readOperand (absurd · hop) read) accept]

lemma setNamed?_pack {str : List Char} (h : '\x00' ∉ str) :
    setNamed? (PackedString.pack str) = ExtendedSet.ofImportName? (String.ofList str) := by
  rw [setNamed?, (PackedString.isString_pack h).2, Text.Utf8.decode_encode]

/-- An operand that must be there is, and its token stands in front of the instruction or after it. -/
lemma Fills.exists_of_one (h : Fills op result? s done (.one k :: p) tokens fs e) :
    ∃ f gs s' tokens', fs = f :: gs ∧ f.slot = .one k ∧
      (k = .resultId ∧ result? = some f.token ∧ isRaw f.token.chars = false ∧ tokens' = tokens ∨
        (k = .resultId → result? = none) ∧ tokens = f.token :: tokens') ∧
      readOperand s.declared op done.toArray (.one k) f.token.chars = .ok f.reading ∧
      s.accept done.toArray f.reading = .ok (s', (done ++ f.words).toArray) ∧
      Fills op result? s' (done ++ f.words) (f.reading.patternAfter (.one k) p) tokens' gs e := by
  cases h with
  | full take => simp [Pattern.take?] at take
  | stop take optional =>
    obtain ⟨rfl, rfl⟩ := by simpa [Pattern.take?] using take
    simp [Slot.isOptional] at optional
  | @result _ _ _ _ _ _ _ token _ _ _ take result read accept more =>
    obtain ⟨rfl, rfl⟩ := by simpa [Pattern.take?] using take
    obtain ⟨name, hname, -⟩ := exists_name_of_readId read
    have hraw : isRaw token.chars = false := by simp [hname, isRaw]
    obtain ⟨hread, hafter⟩ := readOperand_of_readId s.declared op done.toArray hraw read
    exact ⟨_, _, _, _, rfl, rfl, .inl ⟨rfl, result, hraw, rfl⟩, hread, accept, (hafter p).symm ▸ more⟩
  | operand take result _ read accept more =>
    obtain ⟨rfl, rfl⟩ := by simpa [Pattern.take?] using take
    exact ⟨_, _, _, _, rfl, rfl, .inr ⟨fun hk => result (hk ▸ rfl), rfl⟩, read, accept, more⟩

/-- The name of an import is its last operand, and the set is declared for its result. -/
lemma Fills.importName {w : Word}
    (h : Fills .opExtInstImport result? s [w] [.string] tokens fs e)
    (hraw : ∀ token ∈ tokens, isRaw token.chars = false)
    (hreg : ∀ f ∈ fs, f.Regular .opExtInstImport) :
    ∃ token str set, fs = [⟨.string, token, .importing (some set) (PackedString.pack str),
        PackedString.pack str⟩] ∧ Quoted.decode token.chars = some str ∧ '\x00' ∉ str ∧
      ExtendedSet.ofImportName? (String.ofList str) = some set ∧ e.state = ⟨s.symbols,
        { s.declared with imports := s.declared.imports.insert w (some set) }⟩ := by
  obtain ⟨⟨_, token, r, ws⟩, gs, s', tokens', rfl, rfl, hplace, hread, haccept, more⟩ :=
    h.exists_of_one
  obtain rfl : tokens = token :: tokens' := by simpa using hplace
  obtain ⟨str, hstr, hr⟩ := readString_eq_ok (readKind_of_readOperand (k := .string)
    (hraw token (.head _)) rfl hread)
  rw [if_pos rfl] at hr
  subst hr
  obtain ⟨rfl, rfl⟩ := accept_importing_iff.mp haccept
  have hf := hreg _ (.head _)
  obtain ⟨set, hset⟩ := Option.isSome_iff_exists.mp (hf.known rfl rfl str hstr)
  -- no slot is left after the name
  rw [patternAfter_eq (by simp) (by simp)] at more
  obtain ⟨rfl, rfl⟩ : gs = [] ∧ e = ⟨_, _, tokens'⟩ := by
    cases more with
    | full => exact ⟨rfl, rfl⟩
    | _ take => simp [Pattern.take?] at take
  exact ⟨token, str, set, by rw [hset], hstr, hf.zero rfl str hstr, hset, by simp [hset]⟩

/-- The result of an import comes first. -/
lemma Fills.importResult
    (h : Fills .opExtInstImport result? s [] [.resultId, .string] tokens fs e)
    (hraw : ∀ token, token ∈ result? ∨ token ∈ tokens → isRaw token.chars = false) :
    ∃ s' f fs' tokens' w, fs = f :: fs' ∧ (f.slot = .resultId ∧ f.words = [w]) ∧
      (f.token ∈ result? ∨ f.token ∈ tokens) ∧ (∀ t ∈ tokens', t ∈ tokens) ∧
      readOperand s.declared .opExtInstImport #[] f.slot f.token.chars = .ok f.reading ∧
      s.accept #[] f.reading = .ok (s', [w].toArray) ∧ s'.declared = s.declared ∧
      f.reading.patternAfter f.slot [.string] = [.string] ∧
      Fills .opExtInstImport result? s' [w] [.string] tokens' fs' e := by
  obtain ⟨⟨_, token, r, ws⟩, gs, s', tokens', rfl, rfl, hplace, hread, haccept, more⟩ :=
    h.exists_of_one
  have htoken : (token ∈ result? ∨ token ∈ tokens) ∧ ∀ t ∈ tokens', t ∈ tokens := by
    rcases hplace with ⟨-, hresult, -, rfl⟩ | ⟨-, rfl⟩
    · exact ⟨.inl hresult, fun _ => id⟩
    · exact ⟨.inr (.head _), fun _ => .tail _⟩
  obtain ⟨name, rfl⟩ := exists_name_of_isId (hraw token htoken.1) rfl rfl hread
  obtain ⟨w, t, -, rfl, rfl⟩ := accept_id_iff.mp haccept
  exact ⟨_, _, gs, tokens', w, rfl, ⟨rfl, rfl⟩, htoken.1, htoken.2, hread, haccept, rfl, rfl, more⟩

/-- An import is read as it is meant, and its set is declared. -/
lemma Fills.reads_import
    (h : Fills .opExtInstImport result? s [] [.resultId, .string] tokens fs e)
    (hdec : Decodable earlier) (hlen : names.length + 2 < 2 ^ 32)
    (htok : ∀ token, token ∈ result? ∨ token ∈ tokens →
      isRaw token.chars = false ∧ String.ofList token.chars.tail ∈ names)
    (hf : Faces names earlier .opExtInstImport set? s [] [.resultId, .string] fs) :
    Reads e.state.symbols earlier .opExtInstImport set? [] [.resultId, .string] fs ∧
      ∃ w ws set, Filled.wordsOf fs = w :: ws ∧ setNamed? ws = some set ∧ e.state.declared
        = { s.declared with imports := s.declared.imports.insert w (some set) } := by
  obtain ⟨s', f, fs', tokens', w, rfl, ⟨hslot, hwords⟩, htoken, hsub, read, accept, hdecl, hafter,
    more⟩ := h.importResult fun t ht => (htok t ht).1
  have htok' : ∀ t, t ∈ result? ∨ t ∈ tokens' → _ := fun t ht => htok t (ht.imp_right (hsub t))
  obtain ⟨token, str, set, rfl, hstr, hzero, hset, hstate⟩ :=
    more.importName (fun t ht => (htok' t (.inr ht)).1) fun g hg => hf.regular g (.tail _ hg)
  obtain ⟨hs, hbytes⟩ := PackedString.isString_pack hzero
  have hnamed := setNamed?_pack hzero
  have htake : Pattern.take? [.resultId, .string] = some (f.slot, [.string]) := by
    rw [hslot]
    rfl
  refine ⟨?_, w, PackedString.pack str, set, by simp [hwords], hnamed.trans hset, ?_⟩
  · refine hf.cons (fun _ => by simp [hslot, Slot.kind?]) hdec hlen htake (htok _ htoken).1
      (htok _ htoken).2 read (by rwa [hwords]) (by rwa [hwords, hafter]) htok' fun _ => ?_
    rw [hafter]
    refine ⟨[⟨.string, _, none⟩], .next rfl rfl (.string hs fun _ => by simp [hnamed, hset])
      (.done (by simp)), .cons ⟨rfl, rfl, .string hstr ?_⟩ .nil⟩
    rw [hbytes, Text.Utf8.decode_encode]
  · rw [hstate, hdecl]

end

end Spirv.Assembly
