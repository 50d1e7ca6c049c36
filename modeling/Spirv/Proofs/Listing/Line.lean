import Mathlib
import Spirv.Proofs.Decoding.Identity
import Spirv.Proofs.Encoding.Forms
import Spirv.Proofs.Listing.Operand

/-!
The lines that instructions are listed as.

The words of an operand are set one after the other, each behind a blank: a single word for most
operands, a raw word for each of its words for a number without a decimal. So an instruction is
listed as the words of a line, in either form, and what stands on the line is told apart from the
start of the next one.
-/

namespace Spirv

open Text Assembly Piece

/-- What is asked of an instruction for its text to say all that its words do. -/
structure Instruction.Faithful (i : Instruction) : Prop where
  /-- The bytes of a string are UTF-8 and not too many, and only zeros follow them. -/
  string : ∀ r ∈ i.operands, r.slot = .string → PackedString.ZeroPadded (i.wordsOf r) ∧
    ∃ s : List Char, Utf8.encode s = PackedString.bytesOf (i.wordsOf r) ∧
      (Utf8.encode s).length ≤ Literal.maxStringBytes
  /-- A number is held in the one way that text gives it. -/
  number : ∀ r ∈ i.operands, r.slot = .typedNumber → ∀ t, r.number? = some t →
    t.Canonical (i.wordsOf r)
  /-- A number that is infinite or none is the last operand. -/
  finite : ∀ r ∈ i.operands.toList.dropLast, ∀ t, r.number? = some t → t.IsFinite (i.wordsOf r)

/-- The operand that a record tells of. -/
def Instruction.piece (i : Instruction) (r : OperandRecord) : Piece :=
  ⟨r.slot.kind?.getD .id, i.wordsOf r, r.number?⟩

instance (t : NumberType) (ws : List Word) : Decidable (t.IsFinite ws) :=
  inferInstanceAs (Decidable (_ → _))

namespace Piece

instance (q : Piece) : Decidable q.IsFinite :=
  decidable_of_iff (∀ t ∈ q.number?, t.IsFinite q.words) Iff.rfl

/-- The words that an operand is listed as, where `set?` is the set of an extended instruction. -/
def texts (set? : Option ExtendedSet) (q : Piece) : List (List Char) :=
  if q.IsFinite then [(q.text set?).toList] else q.words.map fun w => (Listing.rawWord w).toList

lemma texts_of_isFinite {q : Piece} (h : q.IsFinite) (set? : Option ExtendedSet) :
    q.texts set? = [(q.text set?).toList] := if_pos h

lemma texts_of_not_isFinite {q : Piece} (h : ¬ q.IsFinite) (set? : Option ExtendedSet) :
    q.texts set? = q.words.map fun w => (Listing.rawWord w).toList := if_neg h

end Piece

namespace Operand

variable {c : Context} {q : Piece} {needs : List Slot}

/-- Only a number that a type governs may lack a decimal. -/
lemma exists_typedNumber (h : Operand c q.kind q.words q.number? needs) (hf : ¬ q.IsFinite) :
    ∃ t, (q.kind = .typedNumber ∧ q.number? = some t) ∧
      (1 ≤ t.width ∧ t.width ≤ 64) ∧ q.words.length = t.wordCount ∧ ¬ t.IsFinite q.words := by
  obtain ⟨k, ws, number?⟩ := q
  simp only [Piece.IsFinite, not_forall] at hf h ⊢
  obtain ⟨t, ht, hf⟩ := hf
  cases h with
  | typedNumber governs length =>
    obtain rfl := Option.some.inj ht
    exact ⟨_, ⟨rfl, rfl⟩, governs.1, length, hf⟩
  | integer =>
    obtain rfl := Option.some.inj ht
    exact absurd (fun h => by simp at h) hf
  | _ => simp at ht

lemma isFinite_of_ne (h : Operand c q.kind q.words q.number? needs) (hk : q.kind ≠ .typedNumber) :
    q.IsFinite := by
  by_contra hf
  obtain ⟨t, ⟨htyped, -⟩, -⟩ := h.exists_typedNumber hf
  exact hk htyped

end Operand

lemma Assembly.Line.mem_words {l : Line} {form : Form} {word : List Char}
    (h : word ∈ l.words form) :
    l.result? = some word ∨ word = ['='] ∨ word = l.name ∨ word ∈ l.operands := by
  rcases hresult : l.result? with _ | result
  · rw [words_of_none hresult, List.mem_cons] at h
    exact .inr (.inr h)
  · cases form with
    | assignment =>
      rw [words_assignment hresult] at h
      simp only [List.mem_cons] at h
      rcases h with rfl | h
      · exact .inl rfl
      · exact .inr h
    | canonical =>
      rw [words_canonical hresult] at h
      simp only [List.mem_cons, List.mem_append] at h
      rcases h with h | h | rfl | h
      · exact .inr (.inr (.inl h))
      · exact .inr (.inr (.inr (List.mem_of_mem_take h)))
      · exact .inl rfl
      · exact .inr (.inr (.inr (List.mem_of_mem_drop h)))

namespace Listing

/-! ### The words of an operand -/

lemma isOperand_id (w : Word) : IsOperand (id w).toList ∧ (id w).toList.head? = some '%' := by
  have hchars : (id w).toList = '%' :: Nat.toDigits 10 w.toNat := by simp [id]
  rw [hchars]
  refine ⟨isOperand_of_isPlain (List.forall_mem_cons.mpr ⟨by decide, fun x hx => ?_⟩)
    (startsWithOp_of_ne (by decide)) (by decide), rfl⟩
  exact isPlain_of_isDigit (Digits.isDigit_of_mem_toDigits hx)

section

variable {c : Context} {q : Piece} {needs : List Slot} {set? : Option ExtendedSet}

lemma text_of_isId (h : q.kind.isId) : q.text set? = id (q.words.headD 0) := by
  obtain ⟨k, ws, number?⟩ := q
  cases k <;> simp [OperandKind.isId] at h <;> rfl

lemma texts_id {k : OperandKind} (hk : k.isId) (w : Word) :
    Piece.texts set? ⟨k, [w], none⟩ = [(id w).toList] := by
  rw [Piece.texts_of_isFinite (fun _ ht => by simp at ht), text_of_isId hk, List.headD_cons]

/-- The text of an operand is its words with blanks between. -/
lemma toList_text (h : Operand c q.kind q.words q.number? needs) :
    (q.text set?).toList = [' '].intercalate (q.texts set?) := by
  by_cases hf : q.IsFinite
  · rw [Piece.texts_of_isFinite hf]
    simp [List.intercalate]
  · obtain ⟨t, ⟨hk, hn⟩, hw, hlen, hinf⟩ := h.exists_typedNumber hf
    have htext : q.text set? = raw q.words := by
      rw [Piece.text, hk, hn]
      exact number_eq_raw hw hlen hinf
    rw [Piece.texts_of_not_isFinite hf, htext, raw, String.toList_intercalate, List.map_map]
    rfl

lemma texts_ne_nil (h : Operand c q.kind q.words q.number? needs) : q.texts set? ≠ [] := by
  by_cases hf : q.IsFinite
  · simp [Piece.texts_of_isFinite hf]
  · simpa [Piece.texts_of_not_isFinite hf] using h.ne_nil

/-- The words of an operand are ones that may stand anywhere. -/
lemma isOperand_of_mem_texts (h : Operand c q.kind q.words q.number? needs)
    (hdec : Decodable c.earlier) (hset : ∀ set, c.UsesSet set → set? = some set)
    (hl : q.Lossless) : ∀ word ∈ q.texts set?, IsOperand word := by
  by_cases hf : q.IsFinite
  · rw [Piece.texts_of_isFinite hf]
    refine List.forall_mem_singleton.mpr ?_
    by_cases hid : q.kind.isId
    · rw [text_of_isId hid]
      exact (isOperand_id _).1
    by_cases hs : q.kind = .string
    · obtain ⟨hz, s, hbytes, hlen⟩ := hl.string hs
      have hstring : PackedString.IsString q.words := by
        obtain ⟨k, ws, number?⟩ := q
        obtain rfl : k = .string := hs
        cases h with
        | string hs => exact hs
      have htext : q.text set? = string q.words := by rw [Piece.text, hs]
      obtain ⟨⟨hoperand, -⟩, -⟩ : _ ∧ readString c.opcode _ = _ :=
        readString_string hstring hz hbytes hlen
      rw [htext]
      exact hoperand
    · obtain ⟨d, hd⟩ := Declares.exists_declares hdec
      exact (readKind_text h (by simpa using hid) (fun _ => hs) hd hdec hset hl hf).1.1
  · rw [Piece.texts_of_not_isFinite hf]
    intro word hword
    obtain ⟨w, -, rfl⟩ := List.mem_map.mp hword
    exact (spellsRaw_rawWord w).isOperand

lemma isOperand_of_filling {p : Pattern} {ps : List Piece} (h : Filling c p ps)
    (hdec : Decodable c.earlier)
    (hset : ∀ set, (c.push (wordsOf ps)).UsesSet set → set? = some set)
    (hl : ∀ q ∈ ps, q.Lossless) : ∀ q ∈ ps, ∀ word ∈ q.texts set?, IsOperand word := by
  intro q hq
  obtain ⟨front, needs, ⟨tail, htail⟩, ho⟩ := h.exists_operand q hq
  refine isOperand_of_mem_texts ho hdec (fun set h => hset set ?_) (hl q hq)
  rw [← htail, ← Context.push_push]
  exact UsesSet.append h

end

section

variable {α : Type} {sep : List α}

lemma intercalate_append {us vs : List (List α)} (hu : us ≠ []) (hv : vs ≠ []) :
    sep.intercalate (us ++ vs) = sep.intercalate us ++ sep ++ sep.intercalate vs := by
  obtain ⟨v, vs, rfl⟩ := List.exists_cons_of_ne_nil hv
  induction us with
  | nil => exact absurd rfl hu
  | cons u us ih =>
    rcases us with _ | ⟨u', us⟩
    · simp [List.intercalate]
    · have ih := ih (by simp)
      simp only [List.cons_append] at ih ⊢
      rw [List.intercalate_cons_cons, ih, List.intercalate_cons_cons]
      simp

/-- Words are joined by groups as they are one by one. -/
lemma intercalate_flatten {groups : List (List (List α))} (h : ∀ g ∈ groups, g ≠ []) :
    sep.intercalate groups.flatten = sep.intercalate (groups.map sep.intercalate) := by
  induction groups with
  | nil => rfl
  | cons g groups ih =>
    obtain ⟨hg, h⟩ := List.forall_mem_cons.mp h
    rcases groups with _ | ⟨g', groups⟩
    · simp [List.intercalate]
    · have hne : (g' :: groups).flatten ≠ [] := by simp [h g' (.head _)]
      rw [List.flatten_cons, intercalate_append hg hne, ih h, List.map_cons, List.map_cons,
        List.map_cons, List.intercalate_cons_cons]

end

/-! ### The words of an instruction -/

/-- The line that an instruction is listed as. -/
def line (i : Instruction) : Line where
  result? := if i.hasResult then some (id i.resultId).toList else none
  name := i.opcode.mnemonic.toList
  operands := ((i.operands.toList.map i.piece).filter (·.kind ≠ .resultId)).flatMap
    (Piece.texts i.extendedSet?)

section

variable {earlier : List Instruction} {i : Instruction} {ps : List Piece} {rs : List OperandRecord}

lemma map_operand (h : List.Forall₂ (Recorded i) ps rs) :
    rs.map (operand i) = ps.map (Piece.text i.extendedSet?) := by
  induction h with
  | nil => rfl
  | cons h _ ih => rw [List.map_cons, List.map_cons, operand_eq h, ih]

lemma map_piece (h : List.Forall₂ (Recorded i) ps rs) : rs.map i.piece = ps := by
  induction h with
  | nil => rfl
  | @cons q r _ _ h _ ih =>
    obtain ⟨hslot, hws, hnumber⟩ := h
    rw [List.map_cons, ih, Instruction.piece, hslot, hws, hnumber]
    rfl

lemma filter_recorded (h : List.Forall₂ (Recorded i) ps rs) :
    List.Forall₂ (Recorded i) (ps.filter (·.kind ≠ .resultId))
      (rs.filter (·.slot ≠ .resultId)) := by
  refine List.rel_filter (fun q r hqr => ?_) h
  simp [hqr.1]

lemma hasResult_eq (h : Decodes earlier i ps) : i.hasResult = i.opcode.hasResult := by
  have := h.resultId_eq_zero_iff
  rcases hr : i.opcode.hasResult with _ | _ <;> simp_all [Instruction.hasResult]

lemma opcode?_line (i : Instruction) : (line i).opcode? = some i.opcode := by
  have hname : (line i).name.drop 2 = i.opcode.name.toList := by simp [line, Opcode.mnemonic]
  rw [Line.opcode?, hname, String.ofList_toList, i.opcode.ofName?_name]

lemma operands_line (h : Decodes earlier i ps) : (line i).operands
    = (ps.filter (·.kind ≠ .resultId)).flatMap (Piece.texts i.extendedSet?) := by
  rw [line, map_piece h.recorded]

/-- In binary order the words of a line are those of the operands in order. -/
lemma words_canonical_line (h : Decodes earlier i ps) : (line i).words .canonical
    = i.opcode.mnemonic.toList :: ps.flatMap (Piece.texts i.extendedSet?) := by
  have hwords := operands_line h
  obtain ⟨pre, qs, hpre, rfl, hf⟩ := filling_operands_iff.mp h.filling
  have hqs : qs.filter (·.kind ≠ .resultId) = qs := List.filter_eq_self.mpr fun q hq => by
    simpa using (hf.kind_ne (fun s hs => Opcode.isInner_of_mem hs) q hq).2
  have hplace : (line i).place = if i.opcode.hasType then 1 else 0 := by
    simp [Line.place, opcode?_line]
  have hresult := h.resultId
  rw [Context.resultId] at hresult
  rw [List.filter_append, hqs, List.flatMap_append] at hwords
  rw [List.flatMap_append]
  have hsome : i.opcode.hasResult = true → (line i).result? = some (id i.resultId).toList :=
    fun hr => if_pos (by rw [hasResult_eq h, hr])
  cases hpre with
  | absent hr =>
    have hnone : (line i).result? = none := if_neg (by simp [hasResult_eq h, hr])
    rw [Line.words_of_none hnone, hwords]
    rfl
  | @untyped r hr ht =>
    obtain rfl : i.resultId = r := by simpa [hr, ht] using hresult
    rw [Line.words_canonical (hsome hr), hwords, hplace, ht]
    simp [line, texts_id (k := .resultId) rfl]
  | @typed t r ht =>
    have hr := Opcode.hasResult_of_hasType ht
    obtain rfl : i.resultId = r := by simpa [hr, ht] using hresult
    rw [Line.words_canonical (hsome hr), hwords, hplace, ht]
    simp [line, texts_id (k := .resultId) rfl, texts_id (k := .typeId) rfl]

/-- Operands that are joined with blanks are joined word by word. -/
lemma toList_join {set? : Option ExtendedSet}
    (h : ∀ q ∈ ps, ∃ c needs, Operand c q.kind q.words q.number? needs) (front : List String) :
    (" ".intercalate (front ++ ps.map (Piece.text set?))).toList
      = [' '].intercalate (front.map String.toList ++ ps.flatMap (Piece.texts set?)) := by
  have hgroups : front.map String.toList ++ ps.flatMap (Piece.texts set?)
      = (front.map (fun w => [w.toList]) ++ ps.map (Piece.texts set?)).flatten := by
    rw [List.flatten_append, ← List.flatMap_def, ← List.flatMap_def, List.map_eq_flatMap]
  rw [hgroups, intercalate_flatten, String.toList_intercalate, List.map_append, List.map_append,
    List.map_map, List.map_map, List.map_map]
  · congr 2
    · simp [List.intercalate]
    · refine List.map_congr_left fun q hq => ?_
      obtain ⟨c, needs, ho⟩ := h q hq
      exact toList_text ho
  · intro g hg
    rcases List.mem_append.mp hg with hg | hg
    · obtain ⟨w, -, rfl⟩ := List.mem_map.mp hg
      exact List.cons_ne_nil _ _
    · obtain ⟨q, hq, rfl⟩ := List.mem_map.mp hg
      obtain ⟨c, needs, ho⟩ := h q hq
      exact texts_ne_nil ho

/-- An instruction is listed as the words of its line. -/
lemma toList_instruction (h : Decodes earlier i ps) (form : Form) :
    (instruction form i).toList = [' '].intercalate ((line i).words form) := by
  have hop : ∀ q ∈ ps, ∃ c needs, Operand c q.kind q.words q.number? needs := fun q hq => by
    obtain ⟨front, needs, -, ho⟩ := h.filling.exists_operand q hq
    exact ⟨_, needs, ho⟩
  rw [instruction]
  by_cases hfront : form = .assignment ∧ i.hasResult = true
  · obtain ⟨rfl, hr⟩ := hfront
    have hresult : (line i).result? = some (id i.resultId).toList := if_pos hr
    rw [Line.words_assignment hresult, operands_line h, hr, if_pos (by rfl)]
    dsimp only
    rw [map_operand (filter_recorded h.recorded)]
    exact toList_join (fun q hq => hop q (List.mem_of_mem_filter hq))
      [id i.resultId, "=", i.opcode.mnemonic]
  · have hcanonical : (line i).words form = (line i).words .canonical := by
      cases form with
      | canonical => rfl
      | assignment =>
        have hnone : (line i).result? = none := if_neg fun hr => hfront ⟨rfl, hr⟩
        rw [Line.words_of_none hnone, Line.words_of_none hnone]
    rw [hcanonical, words_canonical_line h, if_neg (by simpa using hfront), map_operand h.recorded]
    exact toList_join hop [i.opcode.mnemonic]

/-- The operands of a faithful instruction say all that their words do. -/
lemma lossless_of_faithful (h : Decodes earlier i ps) (hi : i.Faithful) :
    (∀ q ∈ ps, q.Lossless) ∧ ∀ q ∈ ps.dropLast, q.IsFinite := by
  have hrec := h.recorded
  constructor
  · intro q hq
    obtain ⟨r, hr, hslot, hws, hnumber⟩ := Recorded.exists_record_of_mem hrec hq
    have hr := Array.mem_toList_iff.mp hr
    exact ⟨fun hk => hws ▸ hi.string r hr (by rw [hslot, hk]),
      fun hk t ht => hws ▸ hi.number r hr (by rw [hslot, hk]) t (hnumber ▸ ht)⟩
  · intro q hq t ht
    have hdrop : List.Forall₂ (Recorded i) ps.dropLast i.operands.toList.dropLast := by
      rw [List.dropLast_eq_take, List.dropLast_eq_take, hrec.length_eq]
      exact List.forall₂_take _ hrec
    obtain ⟨r, hr, -, hws, hnumber⟩ := Recorded.exists_record_of_mem hdrop hq
    exact hws ▸ hi.finite r hr t (hnumber ▸ ht)

section

variable (h : Decodes earlier i ps) (hdec : Decodable earlier) (hi : i.Faithful)

include h hdec hi

lemma isOperand_of_mem_operands : ∀ word ∈ (line i).operands, IsOperand word := by
  intro word hword
  rw [operands_line h, List.mem_flatMap] at hword
  obtain ⟨q, hq, hword⟩ := hword
  have hset : ∀ set, Context.UsesSet ⟨earlier, i.opcode, [] ++ wordsOf ps⟩ set →
      i.extendedSet? = some set := fun set => (h.set set).mpr
  exact isOperand_of_filling h.filling hdec hset (lossless_of_faithful h hi).1 q
    (List.mem_of_mem_filter hq) word hword

/-- A line is the words of one instruction and no more. -/
lemma proper_line : (line i).Proper where
  name := i.opcode.startsWithOp_mnemonic
  result op hop := by
    obtain rfl := Option.some.inj ((opcode?_line i).symm.trans hop)
    rw [← hasResult_eq h, line]
    split <;> simp_all
  percent result hresult := by
    rw [line] at hresult
    split at hresult
    · obtain rfl := Option.some.inj hresult
      exact (isOperand_id _).2
    · simp at hresult
  operands word hword := by
    have hword := isOperand_of_mem_operands h hdec hi word hword
    exact ⟨hword.ne, hword.unlike⟩

/-- The words of a line are words of a text. -/
lemma isWord_of_mem_words (form : Form) : ∀ word ∈ (line i).words form, IsWord word := by
  intro word hword
  rcases Line.mem_words hword with hresult | rfl | rfl | hoperand
  · rw [line] at hresult
    split at hresult
    · obtain rfl := Option.some.inj hresult
      exact (isOperand_id _).1.word
    · simp at hresult
  · exact isWord_of_isPlain (List.cons_ne_nil _ _) (List.forall_mem_singleton.mpr (by decide))
  · have hname : (line i).name = 'O' :: 'p' :: i.opcode.name.toList := by
      simp [line, Opcode.mnemonic]
    rw [hname]
    exact isWord_of_isPlain (List.cons_ne_nil _ _) (List.forall_mem_cons.mpr ⟨by decide,
      List.forall_mem_cons.mpr ⟨by decide, isPlain_of_isName i.opcode.isName_name⟩⟩)
  · exact (isOperand_of_mem_operands h hdec hi word hoperand).word

end

end

end Listing

end Spirv
