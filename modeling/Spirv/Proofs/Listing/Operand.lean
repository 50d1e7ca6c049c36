import Mathlib
import Spirv.Proofs.Encoding.Filling
import Spirv.Proofs.Encoding.RawText
import Spirv.Proofs.Listing.Words

/-!
Operands that are listed are read back as their words.

Each operand is listed as one word of text, save a number that is infinite or none, which is listed
as raw words. The word is read as an operand of the same kind at the same place: a name finds the row
that it was taken from, a mask the bits that it names, a string its characters.
-/

namespace Spirv

open Text Assembly

namespace Listing

/-! ### Masks -/

/-- Names joined by bars are read as the mask of their values. -/
lemma maskOfText_names {c : Category} {rows : List NamedValue} (hne : rows ≠ [])
    (hrows : ∀ row ∈ rows, row ∈ c.values) :
    (Slot.named c).maskOfText ("|".intercalate (rows.map (·.name)))
      = .ok ((rows.map (·.value)).foldl (· ||| ·) 0) := by
  have hname : ∀ row ∈ rows, isName row.name.toList = true := fun row hr =>
    Category.isName_of_mem (hrows row hr)
  have hsplit : ((("|".intercalate (rows.map (·.name))).toList.splitOn '|').map String.ofList)
      = rows.map (·.name) := by
    rw [String.toList_intercalate, show "|".toList = ['|'] from rfl,
      List.splitOn_intercalate _ _ (by simpa using hne)]
    · simp [Function.comp_def]
    · intro l hl hbar
      obtain ⟨row, hr, rfl⟩ : ∃ row ∈ rows, row.name.toList = l := by simpa using hl
      exact notMem_of_isName (hname row hr) (by decide) hbar
  have hempty : ((rows.map (·.name)).contains "") = false := by
    rw [List.contains_eq_mem, decide_eq_false_iff_not, List.mem_map]
    rintro ⟨row, hr, hnil⟩
    simpa [hnil, isName] using hname row hr
  have hfold : ∀ start : Word, (rows.map (·.name)).foldlM (fun mask name => do
      return mask ||| (← (Slot.named c).valueOfName name).value) start
        = (.ok ((rows.map (·.value)).foldl (· ||| ·) start) : Except LookupError Word) := by
    clear hne hname hsplit hempty
    induction rows with
    | nil => exact fun _ => rfl
    | cons row rows ih =>
      obtain ⟨hrow, hrows⟩ := List.forall_mem_cons.mp hrows
      intro start
      have hvalue : (Slot.named c).valueOfName row.name = .ok row := by
        have hlookup : (Slot.named c).valueOfName row.name
            = (c.ofName? row.name).elim (.error .notFound) .ok := rfl
        rw [hlookup, Category.ofName?_name hrow, Option.elim_some]
      rw [List.map_cons, List.foldlM_cons, hvalue]
      exact ih hrows _
  rw [Slot.maskOfText, hsplit]
  simp only [hempty]
  exact hfold 0

/-- A value or a mask is read back from its names. -/
lemma readNamed_named {c : Context} {category : Category} {w : Word} {number? : Option NumberType}
    {needs : List Slot} (ho : Operand c (.named category) [w] number? needs) :
    (IsOperand (named category w).toList ∧ isRaw (named category w).toList = false) ∧
      readNamed category (named category w).toList = .ok (.value [w] needs) := by
  generalize hws : [w] = ws at ho
  cases ho with
  | @value _ v row enumeration row_eq =>
    obtain rfl : w = v := by simpa using hws
    have hmem := Category.mem_values_of_ofValue? row_eq
    have hvalue : row.value = w := by simpa using List.find?_some row_eq
    have htext : named category w = row.name := by simp [named, enumeration, row_eq]
    rw [htext]
    refine ⟨isOperand_of_isName (Category.isName_of_mem hmem), ?_⟩
    simp [readNamed, enumeration, Category.ofName?_name hmem, hvalue]
  | @mask _ v hmask bits =>
    obtain rfl : w = v := by simpa using hws
    -- the rows that are named, for no bits the row of the empty mask
    obtain ⟨rows, hne, htext, hmem, hvalue⟩ : ∃ rows : List NamedValue, rows ≠ [] ∧
        named category w = "|".intercalate (rows.map (·.name)) ∧
        (∀ row ∈ rows, row ∈ category.values) ∧ (rows.map (·.value)).foldl (· ||| ·) 0 = w := by
      by_cases h0 : w = 0
      · obtain ⟨row, hrow, hvalue⟩ := Category.exists_ofValue?_zero hmask
        refine ⟨[row], by simp, by simp [named, hmask, mask, h0, hrow], ?_, by simp [hvalue, h0]⟩
        simpa using Category.mem_values_of_ofValue? hrow
      · obtain ⟨rows, hrows⟩ := Category.RowsOf.exists_of_isSome bits
        have hfold := Word.foldl_setBits w
        rw [← hrows.map_value] at hfold
        refine ⟨rows, ?_, by simp [named, hmask, mask, h0, hrows.mapM_eq], hrows.mem_values, hfold⟩
        rintro rfl
        exact h0 hfold.symm
    have hread := maskOfText_names hne hmem
    rw [hvalue, ← htext] at hread
    refine ⟨?_, by simp [readNamed, hmask, hread]⟩
    obtain ⟨row, rows, rfl⟩ := List.exists_cons_of_ne_nil hne
    obtain ⟨hrow, hrows⟩ := List.forall_mem_cons.mp hmem
    have hbar : "|".toList = ['|'] := rfl
    rw [htext, String.toList_intercalate, hbar, List.map_cons, List.map_cons]
    refine isOperand_of_names (Category.isName_of_mem hrow) fun v hv => ?_
    obtain ⟨r, hr, rfl⟩ : ∃ r ∈ rows, r.name.toList = v := by simpa using hv
    exact Category.isName_of_mem (hrows r hr)

/-! ### Raw words -/

lemma spellsRaw_rawWord (w : Word) : SpellsRaw (rawWord w).toList w := by
  obtain ⟨k, htext⟩ : ∃ k, rawWord w
      = String.ofList ("!0x".toList ++ List.replicate k '0' ++ Nat.toDigits 16 w.toNat) := ⟨_, rfl⟩
  have hchars : (rawWord w).toList
      = '!' :: '0' :: 'x' :: (List.replicate k '0' ++ Nat.toDigits 16 w.toNat) := by
    simp [htext]
  have hdigits := Digits.spells_toDigits (b := 16) (by omega) w.toNat
  exact hchars ▸ .intro (.hex (.intro (.inl rfl) (hdigits.padded (by omega) k)))

/-- A number without a decimal is listed as raw words. -/
lemma number_eq_raw {t : NumberType} {ws : List Word} (hw : 1 ≤ t.width ∧ t.width ≤ 64)
    (hlen : ws.length = t.wordCount) (hf : ¬ t.IsFinite ws) : number (some t) ws = raw ws := by
  have hlt := numberBits_lt hw hlen
  rw [hlen] at hlt
  obtain ⟨cls, width⟩ := t
  simp only [NumberType.IsFinite, Classical.not_imp, not_and_or] at hf
  obtain ⟨rfl, ⟨rfl, hinf⟩ | ⟨rfl, hinf⟩⟩ := hf
  · have hmod : numberBits ws % 2 ^ 32 = numberBits ws := Nat.mod_eq_of_lt hlt
    simp only [number, if_true, float, hmod, hinf, if_false]
  · have h32 : ¬ 64 = 32 := by decide
    simp only [number, h32, if_true, float, hinf, if_false]

/-! ### Strings -/

lemma string_eq_encode {ws : List Word} {s : List Char}
    (hbytes : Utf8.encode s = PackedString.bytesOf ws) : string ws = String.ofList (Quoted.encode s) := by
  rw [← Utf8.decode_encode s, hbytes]
  rfl

lemma readString_string {op : Opcode} {ws : List Word} {s : List Char}
    (hs : PackedString.IsString ws) (hz : PackedString.ZeroPadded ws)
    (hbytes : Utf8.encode s = PackedString.bytesOf ws)
    (hlen : (Utf8.encode s).length ≤ Literal.maxStringBytes) :
    (IsOperand (string ws).toList ∧ isRaw (string ws).toList = false) ∧
      readString op (string ws).toList = .ok (if op = .opExtInstImport then
        .importing (setNamed? ws) ws else .value ws []) := by
  have hdecode : Utf8.decode (PackedString.bytesOf ws) = s := by
    rw [← hbytes, Utf8.decode_encode]
  have hpack : PackedString.pack s = ws := by
    rw [PackedString.pack, hbytes, PackedString.packBytes_bytesOf hs hz]
  rw [string_eq_encode hbytes, String.toList_ofList]
  refine ⟨⟨⟨isWord_encode s, startsWithOp_of_ne (by decide), by simp [Quoted.encode]⟩, rfl⟩, ?_⟩
  rw [readString, Literal.read_encode hlen, setNamed?, hdecode]
  simp only [hpack]
  split <;> rfl

end Listing

/-! ### Operands of any kind -/

namespace Piece

/-- The text of an operand, where `set?` is the set of an extended instruction. -/
def text (set? : Option ExtendedSet) (q : Piece) : String :=
  match q.kind with
  | .string => Listing.string q.words
  | .typedNumber => Listing.number q.number? q.words
  | .extended => Listing.extended set? (q.words.headD 0)
  | .specOpcode => Listing.specOpcode (q.words.headD 0)
  | .named c => Listing.named c (q.words.headD 0)
  | .integer => toString (q.words.headD 0).toNat
  | .id | .typeId | .resultId | .scopeId | .memorySemanticsId => Listing.id (q.words.headD 0)

/-- What is asked of an operand for its text to say all that its words do. -/
structure Lossless (q : Piece) : Prop where
  /-- The bytes of a string are UTF-8 and not too many, and only zeros follow them. -/
  string : q.kind = .string → PackedString.ZeroPadded q.words ∧ ∃ s : List Char,
    Utf8.encode s = PackedString.bytesOf q.words ∧ (Utf8.encode s).length ≤ Literal.maxStringBytes
  number : q.kind = .typedNumber → ∀ t, q.number? = some t → t.Canonical q.words

/-- The operand is listed as a single word. -/
def IsFinite (q : Piece) : Prop := ∀ t, q.number? = some t → t.IsFinite q.words

end Piece

namespace Listing

lemma operand_eq {i : Instruction} {q : Piece} {r : OperandRecord} (h : Recorded i q r) :
    operand i r = q.text i.extendedSet? := by
  obtain ⟨hslot, hws, hnumber⟩ := h
  obtain ⟨k, ws, number?⟩ := q
  rw [operand, hslot, hws, hnumber, Piece.text]
  cases k <;> simp [Slot.isId, OperandKind.isId, Slot.category?]

variable {c : Context} {d : Declared} {set? : Option ExtendedSet} {k : OperandKind}
  {ws : List Word} {number? : Option NumberType} {needs : List Slot}

/-- **An operand that is no id is read back as its words** and asks for the same operands after it. -/
theorem readKind_text (ho : Operand c k ws number? needs) (hid : k.isId = false)
    (himport : c.opcode = .opExtInstImport → k ≠ .string) (hd : Declares d c.earlier)
    (hdec : Decodable c.earlier) (hset : ∀ set, c.UsesSet set → set? = some set)
    (hl : Piece.Lossless ⟨k, ws, number?⟩) (hf : Piece.IsFinite ⟨k, ws, number?⟩) :
    (IsOperand (Piece.text set? ⟨k, ws, number?⟩).toList ∧
      isRaw (Piece.text set? ⟨k, ws, number?⟩).toList = false) ∧
      readKind d c.opcode c.before.toArray (Piece.text set? ⟨k, ws, number?⟩).toList k
        = .ok (.value ws needs) := by
  cases ho with
  | integer w =>
    obtain ⟨hoperand, hraw, -⟩ := isOperand_of_isNumeral (.toString w.toNat)
    exact ⟨⟨hoperand, hraw⟩, readNumber_toString⟩
  | @typedNumber _ t governs length =>
    obtain ⟨hnumeral, hread⟩ :=
      readTyped_number governs.1 length (hl.number rfl t rfl) (hf t rfl)
    obtain ⟨hoperand, hraw, hquote⟩ := isOperand_of_isNumeral hnumeral
    have htext : Piece.text set? ⟨.typedNumber, ws, some t⟩ = number (some t) ws := rfl
    rw [htext]
    refine ⟨⟨hoperand, hraw⟩, ?_⟩
    rw [readKind, if_neg hquote, hd.governing? hdec governs, hread]
  | string hs _ =>
    obtain ⟨hz, s, hbytes, hlen⟩ := hl.string rfl
    obtain ⟨hoperand, hread⟩ := readString_string hs hz hbytes hlen
    exact ⟨hoperand, hread.trans (by rw [if_neg fun h => himport h rfl])⟩
  | @extended w set row uses row_eq =>
    have hmem := ExtendedSet.mem_instructions_of_ofValue? row_eq
    have hvalue : row.value = w := by simpa using List.find?_some row_eq
    have htext : Piece.text set? ⟨.extended, [w], none⟩ = row.name := by
      simp [Piece.text, extended, hset set uses, row_eq]
    have hset' : d.extendedSet? c.before.toArray = some set :=
      hd.extendedSet?_eq_some_iff.mpr uses.2
    rw [htext]
    refine ⟨isOperand_of_isName (ExtendedSet.isName_of_mem hmem), ?_⟩
    simp [readKind, readExtended, hset', ExtendedSet.instructionOfName,
      ExtendedSet.ofName?_name hmem, hvalue]
  | specOpcode op =>
    have htext : Piece.text set? ⟨.specOpcode, [op.value.toUInt32], none⟩ = op.name := by
      simp [Piece.text, specOpcode, op.value.toNat_lt, Opcode.ofValue?_value]
    rw [htext]
    refine ⟨isOperand_of_isName op.isName_name, ?_⟩
    simp [readKind, readSpecOpcode, op.ofName?_name]
  | value enumeration row_eq => exact readNamed_named (c := c) (.value enumeration row_eq)
  | mask mask bits => exact readNamed_named (c := c) (.mask mask bits)
  | _ => simp [OperandKind.isId] at hid

end Listing

end Spirv
