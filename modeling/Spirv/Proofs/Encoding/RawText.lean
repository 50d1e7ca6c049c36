import Mathlib
import Spirv.Proofs.Encoding.Forms
import Spirv.Proofs.Encoding.Parts
import Spirv.Proofs.Listing.Words
import Spirv.Proofs.Number.Numeral
import Spirv.Proofs.Text.Scanning

/-!
Texts of raw words.

Any words can be written as a text: each as `!` and an integer, in the base that its writer likes, with
blanks and comments in between. Nothing in such a text starts an instruction after the first word, and
nothing is an id. So it is one instruction, which is as long as the text has words, and no id is given.
-/

namespace Spirv

open Text Digits Listing

namespace Text

lemma Cut.append {gap text : List Char} {ws : List (List Char)} (hgap : Cut gap [])
    (h : Cut text ws) : Cut (gap ++ text) ws := by
  generalize hnone : ([] : List (List Char)) = none at hgap
  induction hgap with
  | nil => exact h
  | blank blank _ ih => exact .blank blank (ih hnone)
  | comment line _ ih => simpa using Cut.comment line (ih hnone)
  | word => simp at hnone

/-- A gap starts with a break. -/
lemma Cut.isBreak {gap : List Char} (h : Cut gap []) : ∀ c ∈ gap.head?, isBreak c = true := by
  generalize hnone : ([] : List (List Char)) = none at h
  cases h with
  | nil => simp
  | blank blank => simp [Text.isBreak, blank]
  | comment => simp [Text.isBreak]
  | word => simp at hnone

end Text

namespace Assembly

/-- `!` and an integer that spells the word. -/
inductive SpellsRaw : List Char → Word → Prop where
  | intro {text : List Char} {w : Word} (integer : SpellsImmediate text w.toNat) :
    SpellsRaw ('!' :: text) w

/-- Raw words, parted by blanks and comments. Some may follow the last word as well. -/
inductive RawText : List Char → List Word → Prop where
  | last {word gap : List Char} {w : Word} (spells : SpellsRaw word w) (gap_cut : Cut gap []) :
    RawText (word ++ gap) [w]
  | more {word gap text : List Char} {w : Word} {ws : List Word} (spells : SpellsRaw word w)
    (gap_cut : Cut gap []) (parted : gap ≠ []) (rest : RawText text ws) :
    RawText (word ++ (gap ++ text)) (w :: ws)

/-- Tokens that spell the words. -/
abbrev RawTokens : List Token → List Word → Prop :=
  List.Forall₂ fun token w => SpellsRaw token.chars w

variable {word text : List Char} {w : Word} {ws : List Word} {token first : Token}
  {tokens : List Token}

/-! ### Raw words -/

namespace SpellsRaw

lemma isRaw (h : SpellsRaw word w) : Assembly.isRaw word = true := by
  cases h
  rfl

lemma readRaw (h : SpellsRaw word w) : Assembly.readRaw word = .ok (.raw w) := by
  obtain ⟨integer⟩ := h
  rw [Assembly.readRaw, List.tail_cons, integer.readImmediate_word]

lemma isOperand (h : SpellsRaw word w) : IsOperand word := by
  obtain ⟨integer⟩ := h
  refine isOperand_of_isPlain (List.forall_mem_cons.mpr ⟨by decide, fun c hc => ?_⟩)
    (startsWithOp_of_ne (by decide)) (by decide)
  exact isPlain_of (p := Char.isAlphanum) (by decide) (integer.isAlphanum c hc)

end SpellsRaw

/-- A raw word starts no instruction. -/
lemma startInstruction_of_isRaw (h : isRaw token.chars = true) (rest : List Token) :
    Token.startInstruction (token :: rest) = false := by
  have hhead : token.chars.head? = some '!' := by simpa [isRaw] using h
  have hlike : token.isOpcodeLike = false :=
    Bool.eq_false_iff.mpr fun hlike => by simp [isRaw_of_isOpcodeLike hlike] at h
  simp [Token.startInstruction, hlike, hhead]

/-! ### The words of a text -/

namespace RawText

/-- The text is cut into its raw words. -/
lemma exists_cut (h : RawText text ws) :
    ∃ words, Cut text words ∧ List.Forall₂ SpellsRaw words ws := by
  induction h with
  | @last word gap w spells gap_cut =>
    exact ⟨[word], .word spells.isOperand.word gap_cut.isBreak gap_cut, .cons spells .nil⟩
  | @more word gap text w ws spells gap_cut parted _ ih =>
    obtain ⟨words, hcut, hwords⟩ := ih
    refine ⟨word :: words, .word spells.isOperand.word (fun c hc => gap_cut.isBreak c ?_)
      (gap_cut.append hcut), .cons spells hwords⟩
    rwa [List.head?_append_of_ne_nil _ parted] at hc

lemma head? (h : RawText text ws) : text.head? = some '!' := by
  cases h with
  | last spells => cases spells; rfl
  | more spells => cases spells; rfl

lemma ne_nil (h : RawText text ws) : ws ≠ [] := by
  cases h <;> simp

/-- Every list of words has a text. -/
lemma exists_of_ne_nil (h : ws ≠ []) : ∃ text : String, RawText text.toList ws := by
  suffices ∃ text, RawText text ws by
    obtain ⟨text, htext⟩ := this
    exact ⟨String.ofList text, by simpa using htext⟩
  induction ws with
  | nil => exact absurd rfl h
  | cons w ws ih =>
    have hspells : SpellsRaw ('!' :: '0' :: 'x' :: Nat.toDigits 16 w.toNat) w :=
      .intro (.hex (spellsHex_toDigits w.toNat))
    rcases ws with _ | ⟨v, ws⟩
    · exact ⟨_, .last hspells .nil⟩
    · obtain ⟨text, htext⟩ := ih (by simp)
      exact ⟨_, .more hspells (.blank (c := ' ') (by decide) .nil) (by simp) htext⟩

end RawText

/-- The tokens of the text spell its words, and the first starts where the text does. -/
lemma exists_tokens {text : String} (h : RawText text.toList ws) :
    ∃ first rest, (TokenText.ofText text).tokens = first :: rest ∧ first.start = .start ∧
      RawTokens (first :: rest) ws := by
  obtain ⟨words, hcut, hwords⟩ := h.exists_cut
  rw [← tokens_of_cut hcut, List.forall₂_map_left_iff] at hwords
  have hscans := scans_ofText text
  generalize TokenText.ofText text = t at hwords hscans
  obtain ⟨_ | ⟨first, rest⟩, finish⟩ := t
  · obtain rfl := List.forall₂_nil_left_iff.mp hwords
    exact absurd rfl h.ne_nil
  · obtain ⟨rest', -, hskip, -⟩ := hscans.exists_skip
    refine ⟨first, rest, rfl, ?_, hwords⟩
    obtain ⟨r, hr⟩ := List.head?_eq_some_iff.mp h.head?
    rw [hr] at hskip
    have hbang := Cursor.skipFrom_of_isBreak (c := '!') (by decide) r .start
    exact congrArg Cursor.position (hskip.symm.trans hbang)

/-! ### Encoding -/

/-- Raw words that follow one are put after it. -/
lemma fillRaw_of_rawTokens (h : RawTokens tokens ws) (first : Token) (s : State)
    (done : Array Word) :
    fillRaw first s done tokens = .ok ⟨s, done ++ ws.toArray, []⟩ := by
  induction h generalizing done with
  | nil => simp [fillRaw]
  | @cons token w tokens ws hw _ ih =>
    have hraw := hw.isRaw
    refine (fillRaw_cons_eq_ok (startInstruction_of_isRaw hraw tokens)).mpr
      ⟨fun heq => ?_, .raw w, (s, done.push w), ?_, acceptToken_raw s done token w, ?_⟩
    · simp [isRaw, heq] at hraw
    · rw [if_pos hraw, hw.readRaw]
    · rw [ih]
      simp

/-- Raw words are one instruction, if they fit in one. -/
lemma encodeInstruction_of_rawTokens (h : RawTokens (first :: tokens) ws)
    (form : Form) (finish : Position) (s : State) :
    encodeInstruction form finish s first tokens
      = if maxInstructionWords < ws.length then
          .error (.text (.instructionTooLong ws.length) first.start)
        else .ok ⟨s, ws.toArray, []⟩ := by
  obtain ⟨w, ws, hw, hws, rfl⟩ := List.forall₂_cons_left_iff.mp h
  have hdone : #[].push w ++ ws.toArray = (w :: ws).toArray := by simp
  rw [encodeInstruction_raw hw.isRaw, hw.readRaw]
  simp only [acceptToken_raw, Except.bind, bind, fillRaw_of_rawTokens hws, hdone, List.size_toArray]

lemma encodeAll_of_rawTokens (h : RawTokens (first :: tokens) ws)
    (form : Form) (finish : Position) (s : State) :
    encodeAll form finish s #[] (first :: tokens)
      = if maxInstructionWords < ws.length then
          .error (.text (.instructionTooLong ws.length) first.start)
        else .ok (s, ws.toArray) := by
  rw [encodeAll_cons, encodeInstruction_of_rawTokens h]
  split
  · rfl
  · simp [bind, Except.bind, encodeAll]

/-- No raw word is an id whose value is preserved. -/
lemma startSymbols_of_rawTokens (h : RawTokens tokens ws) (o : AssemblyOptions) :
    startSymbols o tokens = .empty := by
  have hnone : preserveAll .empty tokens = .empty := by
    induction h with
    | nil => rfl
    | @cons token w tokens ws hw _ ih =>
      obtain ⟨text, hchars⟩ := List.head?_eq_some_iff.mp (by simpa [isRaw] using hw.isRaw)
      rw [preserveAll, List.foldl_cons, hchars]
      exact ih
  rw [startSymbols, hnone, ite_self]

/-- **Any body can be written raw.** Words, at least one, have texts in which each is written as `!` and
an integer in any base, with any blanks and comments to part them. Such a text is assembled to a header
with bound 1 and to these words, whatever the form of the text is and whether or not ids are preserved.
If there are more words than an instruction may have, it is refused at the first. -/
theorem assemble_rawText (o : AssemblyOptions) (hne : ws ≠ []) :
    (∃ text : String, RawText text.toList ws) ∧ ∀ text : String, RawText text.toList ws →
      assemble o text
        = if ws.length ≤ maxInstructionWords then
            .ok ⟨(Header.ofBound 1 o.generator).words ++ ws, 1, .empty⟩
          else .error (.text (.instructionTooLong ws.length) .start) := by
  refine ⟨RawText.exists_of_ne_nil hne, fun text h => ?_⟩
  obtain ⟨first, rest, htokens, hstart, hwords⟩ := exists_tokens h
  rw [assemble_eq, htokens, startSymbols_of_rawTokens hwords, encodeAll_of_rawTokens hwords, hstart]
  by_cases hlong : maxInstructionWords < ws.length
  · rw [if_pos hlong, if_neg hlong.not_ge]
    rfl
  · rw [if_neg hlong, if_pos (not_lt.mp hlong)]
    rfl

namespace Sample

/-- Three words in three bases. -/
def rawWords : String := "!12 ; twelve\n!017\t!0x1F"

lemma rawText_rawWords : RawText rawWords.toList [12, 15, 31] := by
  have hline : '\n' ∉ " twelve".toList := by decide
  have hnote : Cut " ; twelve\n".toList [] := .blank (by decide) (.comment hline .nil)
  have hdecimal : SpellsRaw "!12".toList 12 :=
    .intro (.decimal (spells_toDigits (by omega) 12) (by decide))
  have hoctal : SpellsRaw "!017".toList 15 := .intro (.octal (spells_toDigits (by omega) 15))
  have hhex : SpellsRaw "!0x1F".toList 31 := by
    refine .intro (.hex (.intro (.inl rfl) (.more (.digit (d := 1) ?_) (d := 15) ?_)))
    · exact ⟨by decide, .inl rfl⟩
    · exact ⟨by decide, .inr rfl⟩
  have hlast : RawText "!0x1F".toList [31] := .last hhex .nil
  have htab : Cut "\t".toList [] := .blank (by decide) .nil
  exact .more hdecimal hnote (by decide) (.more hoctal htab (by decide) hlast)

end Sample

/-- Words in any base are a body, but not one more of them than an instruction may have. -/
theorem assemble_rawText_sample :
    ([12, 15, 31] : List Word) ≠ [] ∧ RawText Sample.rawWords.toList [12, 15, 31] ∧
    assemble .default Sample.rawWords = .ok ⟨(Header.ofBound 1 Header.assemblerGenerator).words
      ++ [12, 15, 31], 1, .empty⟩ ∧
    ∃ text : String, RawText text.toList (List.replicate 65536 0) ∧
      assemble .default text = .error (.text (.instructionTooLong 65536) .start) := by
  have hshort : ([12, 15, 31] : List Word) ≠ [] := by simp
  have hlong : List.replicate 65536 (0 : Word) ≠ [] :=
    List.ne_nil_of_length_pos (by rw [List.length_replicate]; decide)
  obtain ⟨-, hthree⟩ := assemble_rawText .default hshort
  obtain ⟨⟨text, htext⟩, hrefused⟩ := assemble_rawText .default hlong
  refine ⟨hshort, Sample.rawText_rawWords, hthree _ Sample.rawText_rawWords, text, htext, ?_⟩
  rw [hrefused text htext, List.length_replicate]
  rfl

end Assembly

end Spirv
