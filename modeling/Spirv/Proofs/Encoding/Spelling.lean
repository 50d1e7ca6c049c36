import Mathlib
import Spirv.Proofs.Encoding.Filling
import Spirv.Proofs.Listing.Words
import Spirv.Proofs.Number.Untyped

/-!
How operands are spelled.

A word that is taken as an operand is `%` and a name, a raw number, a string in quotes, or made of
letters, digits and the signs of numbers and masks. Whether a slot takes `%` and a name does not
depend on the name. And no word that is taken leaves a quote open or ends in a backslash, so it is
cut off in the same way whatever comes after it.
-/

namespace Spirv

open Text

/-! ### Numbers -/

/-- Whether the character is a letter, a digit or a sign of a number or a mask. -/
def isBare (c : Char) : Bool :=
  c.isAlphanum || c = '_' || c = '|' || c = '-' || c = '+' || c = '.'

/-- The word is not empty and made of letters, digits and signs. -/
def IsBare (w : List Char) : Prop := w ≠ [] ∧ ∀ c ∈ w, isBare c = true

lemma isBare_of_isAlphanum {c : Char} (h : c.isAlphanum = true) : isBare c = true := by
  simp [isBare, h]

lemma isBare_of_isDigit {c : Char} (h : c.isDigit = true) : isBare c = true :=
  isBare_of_isAlphanum (by simp [Char.isAlphanum, h])

lemma IsBare.cons {c : Char} {w : List Char} (hc : isBare c = true)
    (hw : ∀ x ∈ w, isBare x = true) : IsBare (c :: w) :=
  ⟨List.cons_ne_nil _ _, List.forall_mem_cons.mpr ⟨hc, hw⟩⟩

namespace Digits

variable {text : List Char} {b n : ℕ}

lemma Spells.isBare (hb : b ≤ 16) (h : Spells b text n) : IsBare text :=
  ⟨h.ne_nil, h.forall_mem fun hc => isBare_of_isAlphanum (hc.isAlphanum hb)⟩

lemma SpellsHex.isBare (h : SpellsHex text n) : IsBare text := by
  obtain ⟨mark, digits⟩ := h
  refine .cons (by decide) (List.forall_mem_cons.mpr ⟨?_, (digits.isBare le_rfl).2⟩)
  rcases mark with rfl | rfl <;> decide

lemma isBare_of_signed? {x : Bool × ℕ} (h : signed? text = some x) : IsBare text := by
  unfold signed? at h
  split at h
  next digits =>
    obtain ⟨n, hn, -⟩ := Option.map_eq_some_iff.mp h
    exact .cons (by decide) ((decimal?_iff.mp hn).isBare (by omega)).2
  next =>
    obtain ⟨n, hn, -⟩ := Option.map_eq_some_iff.mp h
    exact (decimal?_iff.mp hn).isBare (by omega)

end Digits

namespace Decimal

variable {text : List Char} {negative : Bool} {d : Decimal}

lemma isBare_of_unsigned? (h : unsigned? negative text = some d) : IsBare text := by
  rcases unsigned?_iff.mp h with ⟨m, hm, -⟩ | magnitude
  · exact hm.isBare (by omega)
  · obtain ⟨c, hc, -⟩ := magnitude.exists_not_isDigit
    exact ⟨List.ne_nil_of_mem hc, magnitude.forall_mem (fun c => isBare_of_isDigit) (by decide)⟩

lemma isBare_of_read? (h : read? text = some d) : IsBare text := by
  unfold read? at h
  split at h
  next => exact .cons (by decide) (isBare_of_unsigned? h).2
  next => exact isBare_of_unsigned? h

end Decimal

namespace Literal

/-- A literal is a string in quotes or a number. -/
lemma spelling_of_read {w : List Char} {l : Literal} (h : read w = .ok l) :
    (∃ s, Quoted.decode w = some s) ∨ IsBare w := by
  by_cases hquote : w.head? = some '"'
  · obtain ⟨s, rfl⟩ := Assembly.exists_string_of_read hquote h
    exact .inl ⟨s, Assembly.quoted_of_read h⟩
  refine .inr ?_
  rw [read, if_neg hquote] at h
  split at h
  next n hhex => exact (Digits.hex?_iff.mp hhex).isBare
  next =>
  split at h
  next hsigned => exact Digits.isBare_of_signed? hsigned
  next hsigned => exact Digits.isBare_of_signed? hsigned
  next =>
  split at h
  next hdecimal => exact Decimal.isBare_of_read? hdecimal
  next => simp at h

lemma isBare_of_readInteger {width : ℕ} {signed : Bool} {w : List Char} {bits : BitVec 64}
    (h : readInteger width signed w = .ok bits) : IsBare w := by
  unfold readInteger at h
  split at h
  next => simp at h
  split at h
  next n hhex => exact (Digits.hex?_iff.mp hhex).isBare
  next =>
  split at h
  next => simp at h
  next hsigned => exact Digits.isBare_of_signed? hsigned

lemma isBare_of_readFloat {width : ℕ} {w : List Char} {bits : BitVec 64}
    (h : readFloat width w = .ok bits) : IsBare w := by
  unfold readFloat at h
  split at h
  next => simp at h
  next hdecimal => exact Decimal.isBare_of_read? hdecimal

end Literal

/-! ### Names -/

lemma isBare_of_isName {w : List Char} (h : isName w = true) : IsBare w := by
  simp only [isName, Bool.and_eq_true, Bool.not_eq_true', List.isEmpty_eq_false_iff,
    List.all_eq_true, Bool.or_eq_true, decide_eq_true_eq] at h
  refine ⟨h.1.1, fun c hc => ?_⟩
  rcases h.1.2 c hc with hc | rfl
  · exact isBare_of_isAlphanum hc
  · decide

lemma Opcode.isName_of_ofName? {name : String} {op : Opcode} (h : ofName? name = some op) :
    isName name.toList = true := by
  have hname : op.name = name := by simpa using List.find?_some h
  exact hname ▸ op.isName_name

lemma Category.isName_of_ofName? {c : Category} {name : String} {row : NamedValue}
    (h : c.ofName? name = some row) : isName name.toList = true := by
  have hname : row.name = name := by simpa using List.find?_some h
  exact hname ▸ isName_of_mem (mem_values_of_ofName? h)

lemma ExtendedSet.isName_of_ofName? {set : ExtendedSet} {name : String} {row : NamedValue}
    (h : set.ofName? name = some row) : isName name.toList = true := by
  have hname : row.name = name := by simpa using List.find?_some h
  exact hname ▸ isName_of_mem (mem_instructions_of_ofName? h)

lemma IsBare.append {v w : List Char} (hv : IsBare v) (hw : ∀ c ∈ w, isBare c = true) :
    IsBare (v ++ w) :=
  ⟨List.append_ne_nil_of_left_ne_nil hv.1 w, List.forall_mem_append.mpr ⟨hv.2, hw⟩⟩

lemma isBare_of_intercalate {part : List Char} {parts : List (List Char)}
    (h : ∀ w ∈ part :: parts, isName w = true) : IsBare (['|'].intercalate (part :: parts)) := by
  induction parts generalizing part with
  | nil => simpa [List.intercalate] using isBare_of_isName (h part (.head _))
  | cons next parts ih =>
    obtain ⟨hpart, hparts⟩ := List.forall_mem_cons.mp h
    rw [List.intercalate_cons_cons, List.append_assoc]
    exact (isBare_of_isName hpart).append (IsBare.cons (by decide) (ih hparts).2).2

/-- A mask is written by names with bars between them. -/
lemma Slot.isBare_of_maskOfText {c : Category} {text : String} {w : Word}
    (h : (Slot.named c).maskOfText text = .ok w) : IsBare text.toList := by
  have hnames : ∀ (names : List String) (start w : Word),
      (names.foldlM (fun mask name => do
        return mask ||| (← (Slot.named c).valueOfName name).value) start
          : Except LookupError Word) = .ok w → ∀ name ∈ names, isName name.toList = true := by
    intro names
    induction names with
    | nil => simp
    | cons name names ih =>
      intro start w hw
      have hname : (Slot.named c).valueOfName name
          = (c.ofName? name).elim (.error .notFound) .ok := rfl
      rw [List.foldlM_cons, hname] at hw
      rcases hrow : c.ofName? name with _ | row
      · simp [hrow, bind, Except.bind] at hw
      · simp only [hrow, Option.elim_some, bind, Except.bind, pure, Except.pure] at hw
        exact List.forall_mem_cons.mpr ⟨Category.isName_of_ofName? hrow, ih _ w hw⟩
  rw [maskOfText] at h
  split at h
  next => simp at h
  next =>
  have hparts : ∀ part ∈ text.toList.splitOn '|', isName part = true := fun part hpart => by
    simpa using hnames _ _ _ h (String.ofList part) (List.mem_map_of_mem hpart)
  have hjoin : ['|'].intercalate (text.toList.splitOn '|') = text.toList :=
    List.intercalate_splitOn '|'
  rw [← hjoin]
  rcases hsplit : text.toList.splitOn '|' with _ | ⟨part, parts⟩
  · simp at hsplit
  rw [hsplit] at hparts
  exact isBare_of_intercalate hparts

/-! ### Operands -/

namespace Assembly

variable {d : Declared} {op : Opcode} {done : Array Word} {slot : Slot} {k : OperandKind}
  {w name : List Char} {r : Reading}

/-- What a word that is taken as an operand may be. -/
inductive Spelling : List Char → Reading → Prop where
  | id (name : List Char) : Spelling ('%' :: name) (.id (String.ofList name))
  | raw {digits : List Char} (v : Word) (alphanum : ∀ c ∈ digits, c.isAlphanum = true) :
    Spelling ('!' :: digits) (.raw v)
  | string {w s : List Char} {r : Reading} (quoted : Quoted.decode w = some s)
    (value : ∀ name, r ≠ .id name) : Spelling w r
  | bare {w : List Char} {r : Reading} (bare : IsBare w) (value : ∀ name, r ≠ .id name) : Spelling w r

lemma value_ne_id (ws : List Word) (needs : List Slot) (name : String) :
    Reading.value ws needs ≠ .id name := by simp

lemma spelling_of_readId {refuse : Fault → Refusal} (h : readId refuse w = .ok r) : Spelling w r := by
  obtain ⟨name, rfl, rfl⟩ := exists_name_of_readId h
  exact .id name

lemma spelling_of_readRaw (hraw : isRaw w = true) (h : readRaw w = .ok r) : Spelling w r := by
  obtain ⟨digits, rfl⟩ := List.head?_eq_some_iff.mp (by simpa [isRaw] using hraw)
  unfold readRaw at h
  split at h
  next v hv =>
    exact Except.ok.inj h ▸ .raw v (Digits.spells_of_readImmediate hv).isAlphanum
  next => simp at h

lemma spelling_of_read {l : Literal} {ws : List Word} {needs : List Slot}
    (h : Literal.read w = .ok l) : Spelling w (.value ws needs) := by
  rcases Literal.spelling_of_read h with ⟨s, hs⟩ | hbare
  · exact .string hs (value_ne_id _ _)
  · exact .bare hbare (value_ne_id _ _)

lemma spelling_of_readNumber (h : readNumber w = .ok r) : Spelling w r := by
  obtain ⟨l, hl, -, rfl⟩ := readNumber_eq_ok h
  exact spelling_of_read hl

lemma spelling_of_readTyped {type? : Option NumberType} (h : readTyped type? w = .ok r) :
    Spelling w r := by
  rcases type? with _ | type
  · exact spelling_of_readNumber h
  rcases readTyped_eq_ok h with ⟨bits, rfl, ⟨-, hbits⟩ | ⟨-, hbits⟩⟩ | ⟨-, -, h⟩
  · exact .bare (Literal.isBare_of_readInteger hbits) (value_ne_id _ _)
  · exact .bare (Literal.isBare_of_readFloat hbits) (value_ne_id _ _)
  · exact spelling_of_readNumber h

lemma spelling_of_readString (h : readString op w = .ok r) : Spelling w r := by
  obtain ⟨s, hs, rfl⟩ := readString_eq_ok h
  refine .string hs fun name => ?_
  split <;> simp

lemma isBare_of_readExtended {set : Option ExtendedSet} (h : readExtended set w = .ok r) :
    IsBare w ∧ ∀ name, r ≠ .id name := by
  obtain ⟨_, row, -, hname, rfl⟩ := exists_row_of_readExtended h
  exact ⟨by simpa using isBare_of_isName (ExtendedSet.isName_of_ofName? hname), value_ne_id _ _⟩

lemma isBare_of_readSpecOpcode (h : readSpecOpcode w = .ok r) :
    IsBare w ∧ ∀ name, r ≠ .id name := by
  obtain ⟨op, hop, rfl⟩ := exists_op_of_readSpecOpcode h
  exact ⟨by simpa using isBare_of_isName (Opcode.isName_of_ofName? hop), value_ne_id _ _⟩

lemma isBare_of_readNamed {c : Category} (h : readNamed c w = .ok r) :
    IsBare w ∧ ∀ name, r ≠ .id name := by
  rcases readNamed_eq_ok h with ⟨-, mask, hmask, rfl⟩ | ⟨-, row, hrow, rfl⟩
  · exact ⟨by simpa using Slot.isBare_of_maskOfText hmask, value_ne_id _ _⟩
  · exact ⟨by simpa using isBare_of_isName (Category.isName_of_ofName? hrow), value_ne_id _ _⟩

lemma spelling_of_readKind (h : readKind d op done w k = .ok r) : Spelling w r := by
  cases k with
  | id | typeId | resultId | scopeId | memorySemanticsId => exact spelling_of_readId h
  | integer => exact spelling_of_readNumber h
  | typedNumber =>
    rw [readKind] at h
    split at h
    · exact spelling_of_readNumber h
    · exact spelling_of_readTyped h
  | string => exact spelling_of_readString h
  | extended => exact .bare (isBare_of_readExtended h).1 (isBare_of_readExtended h).2
  | specOpcode => exact .bare (isBare_of_readSpecOpcode h).1 (isBare_of_readSpecOpcode h).2
  | named c => exact .bare (isBare_of_readNamed h).1 (isBare_of_readNamed h).2

lemma spelling_of_readFree (h : readFree w = .ok r) : Spelling w r := by
  unfold readFree at h
  split at h
  next l hl => exact Except.ok.inj h ▸ spelling_of_read hl
  next => simp at h
  next => exact spelling_of_readId h

lemma spelling_of_readFreely (h : (if isRaw w then readRaw w else readFree w) = .ok r) :
    Spelling w r := by
  split at h
  next hraw => exact spelling_of_readRaw hraw h
  next => exact spelling_of_readFree h

/-- A word that is taken for a slot is spelled as what it stands for. -/
theorem spelling_of_readOperand (h : readOperand d op done slot w = .ok r) : Spelling w r := by
  by_cases hraw : isRaw w
  · rw [readOperand.eq_def, if_pos hraw] at h
    exact spelling_of_readRaw hraw h
  by_cases hslot : slot = .free
  · subst hslot
    rw [readOperand.eq_def, if_neg hraw] at h
    exact spelling_of_readFree h
  · have hraw : isRaw w = false := by simpa using hraw
    obtain ⟨k, hk⟩ := exists_kind_of_readOperand hraw hslot h
    exact spelling_of_readKind (readKind_of_readOperand hraw hk h)

lemma isPlain_of_isBare {c : Char} (h : isBare c = true) : isPlain c = true :=
  Listing.isPlain_of (p := isBare) (by decide) h

/-- `%` and a name that an id may have are one word. -/
lemma isWord_id (h : SymbolTable.isValidName (String.ofList name) = true) : IsWord ('%' :: name) := by
  simp only [SymbolTable.isValidName, Bool.and_eq_true, List.all_eq_true, String.toList_ofList,
    Bool.or_eq_true, decide_eq_true_eq] at h
  refine isWord_of_isPlain (by simp) (List.forall_mem_cons.mpr ⟨by decide, fun c hc => ?_⟩)
  rcases h.2 c hc with hc | rfl
  · exact isPlain_of_isBare (isBare_of_isAlphanum hc)
  · decide

/-- A word that has been put down is cut off alike wherever it stands, and it is not `=`. -/
lemma Spelling.isWord {s : State} {next : State × Array Word} (h : Spelling w r)
    (ha : s.accept done r = .ok next) : IsWord w ∧ w ≠ ['='] := by
  cases h with
  | id name =>
    refine ⟨isWord_id ?_, by simp⟩
    rw [State.accept] at ha
    split at ha
    next id symbols hassign =>
      unfold SymbolTable.assign at hassign
      split at hassign
      next => simp at hassign
      next hname => simpa using hname
    next => simp at ha
  | raw v alphanum =>
    exact ⟨isWord_of_isPlain (by simp) (List.forall_mem_cons.mpr ⟨by decide, fun c hc =>
      isPlain_of_isBare (isBare_of_isAlphanum (alphanum c hc))⟩), by simp⟩
  | string quoted =>
    refine ⟨(Quoted.decode_eq_some_iff.mp quoted).isWord, ?_⟩
    rintro rfl
    simp [Quoted.decode] at quoted
  | bare bare =>
    refine ⟨isWord_of_isPlain bare.1 fun c hc => isPlain_of_isBare (bare.2 c hc), ?_⟩
    rintro rfl
    exact absurd (bare.2 '=' (.head _)) (by decide)

/-! ### Ids -/

/-- What is done with `%` and a name: the name is not looked at. -/
inductive OnIds (read : List Char → Except Refusal Reading) : Prop where
  | take (h : ∀ name, read ('%' :: name) = .ok (.id (String.ofList name)))
  | mismatch (fault : String → Fault)
    (h : ∀ name, read ('%' :: name) = .error (.mismatch (fault (String.ofList ('%' :: name)))))
  | fatal (fault : String → Fault)
    (h : ∀ name, read ('%' :: name) = .error (.fatal (fault (String.ofList ('%' :: name)))))

lemma not_isBare_percent (name : List Char) : ¬IsBare ('%' :: name) :=
  fun h => absurd (h.2 '%' (.head _)) (by decide)

section

variable (name : List Char)

lemma hex?_percent : Digits.hex? ('%' :: name) = none := by
  simp [Digits.hex?]

lemma signed?_percent : Digits.signed? ('%' :: name) = none := by
  simp [Digits.signed?, Digits.decimal?, Digits.read?]

lemma decimal_read?_percent : Decimal.read? ('%' :: name) = none := by
  simp [Decimal.read?, Decimal.unsigned?]

lemma literal_read_percent : Literal.read ('%' :: name) = .error .invalid := by
  rw [Literal.read, if_neg (by simp), hex?_percent, signed?_percent, decimal_read?_percent]

lemma readNumber_percent : readNumber ('%' :: name)
    = .error (.mismatch (.badNumber (String.ofList ('%' :: name)))) := by
  rw [readNumber, literal_read_percent]

lemma readTyped_percent (type? : Option NumberType) : readTyped type? ('%' :: name)
    = .error (.mismatch (.badNumber (String.ofList ('%' :: name)))) := by
  rcases type? with _ | type
  · exact readNumber_percent name
  have hinteger : ∀ signed, 1 ≤ type.width → type.width ≤ 64 →
      Literal.readInteger type.width signed ('%' :: name) = .error .invalid := by
    intro signed hlow hhigh
    rw [Literal.readInteger, if_neg (by simp; omega), hex?_percent, signed?_percent]
  rw [readTyped]
  split
  next h =>
    simp only [Bool.and_eq_true, decide_eq_true_eq] at h
    rw [hinteger _ h.1.2 h.2]
  next =>
  split
  next => rw [Literal.readFloat, decimal_read?_percent]
  next => exact readNumber_percent name

end

lemma onIds_readKind (d : Declared) (op : Opcode) (done : Array Word) (k : OperandKind) :
    OnIds fun w => readKind d op done w k := by
  -- what would read a name there reads letters, digits and signs only
  have hbare : ∀ {read : List Char → Except Refusal Reading} (fault : String → Fault),
      (∀ {w r}, read w = .ok r → IsBare w ∧ ∀ name, r ≠ .id name) →
      (∀ w e, read w = .error e → e = .fatal (fault (String.ofList w))) → OnIds read := by
    intro read fault hok herror
    refine .fatal fault fun name => ?_
    rcases hread : read ('%' :: name) with e | r
    · rw [herror _ _ hread]
    · exact absurd (hok hread).1 (not_isBare_percent name)
  cases k with
  | id | typeId | resultId | scopeId | memorySemanticsId => exact .take fun _ => rfl
  | integer => exact .mismatch _ readNumber_percent
  | typedNumber =>
    refine .mismatch .badNumber fun name => ?_
    rw [readKind, if_neg (by simp), readTyped_percent]
  | string =>
    refine .mismatch .badString fun name => ?_
    rw [readKind, readString, literal_read_percent]
  | extended =>
    exact hbare .unknownExtended isBare_of_readExtended fun _ _ => refusal_of_readExtended
  | specOpcode =>
    exact hbare .unknownSpecOpcode isBare_of_readSpecOpcode fun _ _ => refusal_of_readSpecOpcode
  | named c =>
    exact hbare (.badValue c) isBare_of_readNamed fun _ _ => refusal_of_readNamed

lemma readFree_percent (name : List Char) :
    readFree ('%' :: name) = .ok (.id (String.ofList name)) := by
  rw [readFree, literal_read_percent]
  rfl

/-- **Whether a slot takes an id does not depend on its name.** -/
theorem onIds_readOperand (d : Declared) (op : Opcode) (done : Array Word) (slot : Slot) :
    OnIds (readOperand d op done slot) := by
  have hkind : ∀ {k : OperandKind},
      (∀ name, readOperand d op done slot ('%' :: name) = readKind d op done ('%' :: name) k) →
      OnIds (readOperand d op done slot) := by
    intro k h
    cases onIds_readKind d op done k with
    | take hk => exact .take fun name => (h name).trans (hk name)
    | mismatch fault hk => exact .mismatch fault fun name => (h name).trans (hk name)
    | fatal fault hk => exact .fatal fault fun name => (h name).trans (hk name)
  cases slot with
  | free => exact .take readFree_percent
  | one k | second k => exact hkind fun _ => rfl
  | optional k => exact hkind (k := k) fun name => by cases k <;> rfl
  | nothing | many | pairs => exact .fatal (.unexpected _) fun _ => rfl

end Assembly

end Spirv
