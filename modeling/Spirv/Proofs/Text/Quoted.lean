import Mathlib
import Spirv.Literal
import Spirv.Proofs.Text.Words
import Spirv.Text.Utf8

/-!
Strings in quotes.

Between the quotes a backslash and a character spell the character, and any character but a quote, a
backslash or a line break spells itself. A string is read as it is spelled in quotes, and any other text
is refused: one whose last quote stands behind a backslash, one that goes on behind its closing quote. In
a text a string in quotes is one word, whatever it holds.
-/

namespace Spirv

open Text

variable {text body s : List Char}

namespace Quoted

/-- The characters spell the string, each by itself or behind a backslash. -/
inductive SpellsBody : List Char → List Char → Prop where
  | nil : SpellsBody [] []
  | plain {c : Char} {body s : List Char} (plain : c ≠ '"' ∧ c ≠ '\\' ∧ c ≠ '\n')
    (rest : SpellsBody body s) : SpellsBody (c :: body) (c :: s)
  | escaped {body s : List Char} (c : Char) (rest : SpellsBody body s) :
    SpellsBody ('\\' :: c :: body) (c :: s)

/-- Characters in quotes that spell the string. -/
inductive Spells : List Char → List Char → Prop where
  | intro {body s : List Char} (spells : SpellsBody body s) : Spells ('"' :: (body ++ ['"'])) s

/-! ### Reading -/

lemma SpellsBody.decodeRest (h : SpellsBody body s) (acc : List Char) :
    decodeRest acc (body ++ ['"']) = some (acc.reverse ++ s) := by
  induction h generalizing acc with
  | nil => simp [Quoted.decodeRest]
  | @plain c body s plain rest ih =>
    have hspecial : isSpecial c = false := by simp [isSpecial, plain]
    rw [List.cons_append, Quoted.decodeRest, hspecial]
    · simp [ih]
    · simp [plain.1]
    · simp [plain.2.1]
  | escaped c rest ih => simp [Quoted.decodeRest, ih]

lemma exists_body_of_decodeRest {acc : List Char} (h : decodeRest acc text = some s) :
    ∃ body rest, text = body ++ ['"'] ∧ s = acc.reverse ++ rest ∧ SpellsBody body rest := by
  fun_induction decodeRest acc text with
  | case1 => simp at h
  | case2 acc => exact ⟨[], [], rfl, by simpa using h.symm, .nil⟩
  | case3 acc c text ih =>
    obtain ⟨body, rest, rfl, rfl, hbody⟩ := ih h
    exact ⟨'\\' :: c :: body, c :: rest, rfl, by simp, .escaped c hbody⟩
  | case4 => simp at h
  | case5 acc c text _ _ hc ih =>
    obtain ⟨body, rest, rfl, rfl, hbody⟩ := ih h
    have hplain : c ≠ '"' ∧ c ≠ '\\' ∧ c ≠ '\n' := by simpa [isSpecial, and_assoc] using hc
    exact ⟨c :: body, c :: rest, rfl, by simp, .plain hplain hbody⟩

/-- A string is read as it is spelled. -/
lemma decode_eq_some_iff : decode text = some s ↔ Spells text s := by
  constructor
  · intro h
    unfold decode at h
    split at h
    next text =>
      obtain ⟨body, rest, rfl, rfl, hbody⟩ := exists_body_of_decodeRest h
      exact .intro hbody
    next => simp at h
  · rintro ⟨hbody⟩
    exact hbody.decodeRest []

lemma spellsBody_escape (s : List Char) : SpellsBody (s.flatMap escape) s := by
  induction s with
  | nil => exact .nil
  | cons c s ih =>
    rw [List.flatMap_cons, escape]
    split
    next => exact .escaped c ih
    next hc => exact .plain (by simpa [isSpecial, and_assoc] using hc) ih

lemma spells_encode (s : List Char) : Spells (encode s) s :=
  .intro (spellsBody_escape s)

/-- A string is read back from its quotes. -/
theorem decode_encode (s : List Char) : decode (encode s) = some s :=
  decode_eq_some_iff.mpr (spells_encode s)

/-! ### Cutting off -/

/-- No quote, blank or comment between the quotes ends the word. -/
lemma SpellsBody.go (h : SpellsBody body s) (word rest : List Char) :
    splitWord.go true false word (body ++ rest)
      = splitWord.go true false (body.reverse ++ word) rest := by
  induction h generalizing word with
  | nil => rfl
  | plain plain _ ih =>
    rw [List.cons_append, splitWord.go]
    simp [plain, ih]
  | escaped c _ ih =>
    rw [List.cons_append, List.cons_append, splitWord.go]
    simp [splitWord.go, ih]

/-- A string in quotes is one word, however it is spelled. -/
lemma Spells.isWord (h : Spells text s) : IsWord text := by
  obtain ⟨hbody⟩ := h
  refine ⟨⟨_, _, rfl, by decide⟩, fun rest hrest => ?_⟩
  rw [splitWord, List.cons_append, splitWord.go]
  simp only [Bool.false_eq_true, if_false, Char.reduceEq, if_true, Bool.not_false]
  rw [List.append_assoc, hbody.go, List.singleton_append, splitWord.go]
  simp [go_of_head? hrest]

end Quoted

/-- A string in quotes is one word, whatever it holds. -/
lemma Text.isWord_encode (s : List Char) : IsWord (Quoted.encode s) :=
  (Quoted.spells_encode s).isWord

namespace Literal

lemma byteCount_eq (s : List Char) : byteCount s = (Utf8.encode s).length := by
  have hfold : ∀ n, s.foldl (fun n c => n + c.utf8Size) n = n + (Utf8.encode s).length := by
    induction s with
    | nil => simp [Utf8.encode]
    | cons c s ih =>
      intro n
      rw [List.foldl_cons, ih]
      simp [Utf8.encode, Nat.add_assoc]
  simpa [byteCount] using hfold 0

lemma readString_of_spells (h : Quoted.Spells text s) : readString text
    = if (Utf8.encode s).length ≤ maxStringBytes then .ok s else .error .tooLong := by
  rw [readString, Quoted.decode_eq_some_iff.mpr h]
  simp only [byteCount_eq]
  split
  next hlarge => rw [if_neg hlarge.not_ge]
  next hlarge => rw [if_pos (not_lt.mp hlarge)]

lemma readString_encode (h : (Utf8.encode s).length ≤ maxStringBytes) :
    readString (Quoted.encode s) = .ok s := by
  rw [readString_of_spells (Quoted.spells_encode s), if_pos h]

lemma read_encode (h : (Utf8.encode s).length ≤ maxStringBytes) :
    read (Quoted.encode s) = .ok (.string s) := by
  have hquote : (Quoted.encode s).head? = some '"' := rfl
  rw [read, if_pos hquote, readString_encode h]
  rfl

/-- A text that spells no string is invalid. -/
lemma readString_of_not_spells (h : ¬ ∃ s, Quoted.Spells text s) :
    readString text = .error .invalid := by
  have hdecode : Quoted.decode text = none :=
    Option.eq_none_iff_forall_ne_some.mpr fun s hs => h ⟨s, Quoted.decode_eq_some_iff.mp hs⟩
  rw [readString, hdecode]

/-- **Strings are read as they are spelled in quotes.** A string is read if the text spells it and it has
no more than 65535 bytes, and is too long if it has more. A text that spells no string is invalid. -/
theorem readString_eq_iff (text : List Char) :
    (∀ s, readString text = .ok s ↔ Quoted.Spells text s ∧ (Utf8.encode s).length ≤ 65535) ∧
      ∀ e, readString text = .error e ↔
        e = .tooLong ∧ (∃ s, Quoted.Spells text s ∧ 65535 < (Utf8.encode s).length) ∨
          e = .invalid ∧ ¬ ∃ s, Quoted.Spells text s := by
  refine ⟨fun s => ⟨fun h => ?_, fun ⟨hs, hlen⟩ => ?_⟩, fun e => ⟨fun h => ?_, ?_⟩⟩
  · by_cases hspells : ∃ s, Quoted.Spells text s
    · obtain ⟨s', hs⟩ := hspells
      rw [readString_of_spells hs] at h
      split at h
      next hlen =>
        obtain rfl := Except.ok.inj h
        exact ⟨hs, hlen⟩
      next => simp at h
    · simp [readString_of_not_spells hspells] at h
  · exact (readString_of_spells hs).trans (if_pos hlen)
  · by_cases hspells : ∃ s, Quoted.Spells text s
    · obtain ⟨s, hs⟩ := hspells
      rw [readString_of_spells hs] at h
      split at h
      next => simp at h
      next hlarge => exact .inl ⟨(Except.error.inj h).symm, s, hs, not_le.mp hlarge⟩
    · rw [readString_of_not_spells hspells] at h
      exact .inr ⟨(Except.error.inj h).symm, hspells⟩
  · rintro (⟨rfl, s, hs, hlarge⟩ | ⟨rfl, hnone⟩)
    · exact (readString_of_spells hs).trans (if_neg hlarge.not_ge)
    · exact readString_of_not_spells hnone

/-- A quote behind a backslash closes nothing. -/
example : readString ['"', 'a', '\\', '"'] = .error .invalid := rfl

end Literal

end Spirv
