import Mathlib
import Spirv.Text.Token

/-!
Texts and the words that they are cut into.

`IsWord` says that a run of characters is cut off as one word wherever a break or the end of the
text follows it. `Cut` is a text with its words, blanks and comments between them; scanning a text
gives the words of its cut.
-/

namespace Spirv.Text

/-- The characters are one word wherever it ends with a break or with the text. -/
structure IsWord (w : List Char) : Prop where
  first : ∃ c r, w = c :: r ∧ isBreak c = false
  split : ∀ rest : List Char, (∀ c ∈ rest.head?, isBreak c) → splitWord (w ++ rest) = (w, rest)

/-- Whether the character is nothing but itself within a word. -/
def isPlain (c : Char) : Bool := !isBreak c && c ≠ '"' && c ≠ '\\'

lemma go_of_isPlain {w rest : List Char} (hw : ∀ c ∈ w, isPlain c) (acc : List Char) :
    splitWord.go false false acc (w ++ rest) = splitWord.go false false (w.reverse ++ acc) rest := by
  induction w generalizing acc with
  | nil => rfl
  | cons c w ih =>
    obtain ⟨hc, hw⟩ := List.forall_mem_cons.mp hw
    simp only [isPlain, Bool.and_eq_true, Bool.not_eq_true', decide_eq_true_eq] at hc
    obtain ⟨⟨hbreak, hquote⟩, hslash⟩ := hc
    rw [List.cons_append, splitWord.go]
    simp [hbreak, hquote, hslash, ih hw]

lemma go_of_head? {rest : List Char} (h : ∀ c ∈ rest.head?, isBreak c) (acc : List Char) :
    splitWord.go false false acc rest = (acc.reverse, rest) := by
  rcases rest with _ | ⟨c, rest⟩
  · rfl
  have hc : isBreak c = true := h c rfl
  have hquote : c ≠ '"' := by
    rintro rfl
    exact absurd hc (by decide)
  have hslash : c ≠ '\\' := by
    rintro rfl
    exact absurd hc (by decide)
  rw [splitWord.go]
  simp [hc, hquote, hslash]

lemma isWord_of_isPlain {w : List Char} (hne : w ≠ []) (hw : ∀ c ∈ w, isPlain c) : IsWord w where
  first := by
    obtain ⟨c, r, rfl⟩ := List.exists_cons_of_ne_nil hne
    have hc := hw c (.head _)
    simp only [isPlain, Bool.and_eq_true, Bool.not_eq_true'] at hc
    exact ⟨c, r, rfl, hc.1.1⟩
  split rest hrest := by
    rw [splitWord, go_of_isPlain hw, go_of_head? hrest]
    simp

/-- A text and the words in it. -/
inductive Cut : List Char → List (List Char) → Prop where
  | nil : Cut [] []
  | blank {c : Char} {text : List Char} {ws : List (List Char)} (blank : isBlank c)
    (rest : Cut text ws) : Cut (c :: text) ws
  | comment {note text : List Char} {ws : List (List Char)} (line : '\n' ∉ note)
    (rest : Cut text ws) : Cut (';' :: note ++ '\n' :: text) ws
  | word {w text : List Char} {ws : List (List Char)} (word : IsWord w)
    (ends : ∀ c ∈ text.head?, isBreak c) (rest : Cut text ws) : Cut (w ++ text) (w :: ws)

end Spirv.Text

namespace Spirv

open Text

namespace Cursor

lemma scan_eq_of_skip {c d : Cursor} (h : c.skip = d.skip) (acc : List Token) :
    c.scan acc = d.scan acc := by
  rw [scan.eq_def c, scan.eq_def d, h]

lemma skipFrom_comment {note : List Char} (h : '\n' ∉ note) (text : List Char) (p : Position) :
    ∃ q, skipFrom true (note ++ '\n' :: text) p = skipFrom false text q := by
  induction note generalizing p with
  | nil => exact ⟨p.after '\n', by simp [skipFrom]⟩
  | cons c note ih =>
    obtain ⟨hc, hnote⟩ : '\n' ≠ c ∧ '\n' ∉ note := by simpa using h
    obtain ⟨q, hq⟩ := ih hnote (p.after c)
    exact ⟨q, by simpa [skipFrom, hc.symm] using hq⟩

lemma exists_scan {text : List Char} {ws : List (List Char)} (h : Cut text ws) (p : Position)
    (acc : List Token) : ∃ tokens q, (Cursor.mk text p).scan acc = ⟨acc.reverse ++ tokens, q⟩ ∧
      tokens.map (·.chars) = ws := by
  induction h generalizing p acc with
  | nil =>
    have hskip : (Cursor.mk [] p).skip = ⟨[], p⟩ := rfl
    exact ⟨[], p, by rw [scan, hskip, dif_pos rfl, List.append_nil], rfl⟩
  | @blank c text ws hblank _ ih =>
    obtain ⟨tokens, q, hscan, htokens⟩ := ih (p.after c) acc
    refine ⟨tokens, q, ?_, htokens⟩
    rw [← hscan]
    refine scan_eq_of_skip ?_ acc
    have hc : c ≠ ';' := by
      rintro rfl
      exact absurd hblank (by decide)
    simp [skip, skipFrom, hblank, hc]
  | @comment note text ws hline _ ih =>
    obtain ⟨q', hskip⟩ := skipFrom_comment hline text (p.after ';')
    obtain ⟨tokens, q, hscan, htokens⟩ := ih q' acc
    refine ⟨tokens, q, ?_, htokens⟩
    rw [← hscan]
    refine scan_eq_of_skip ?_ acc
    simpa [skip, skipFrom] using hskip
  | @word w text ws hword hends _ ih =>
    obtain ⟨c, r, rfl, hc⟩ := hword.first
    obtain ⟨hblank, hsemi⟩ : isBlank c = false ∧ c ≠ ';' := by
      simpa [isBreak, Bool.or_eq_false_iff] using hc
    have hskip : (Cursor.mk (c :: r ++ text) p).skip = ⟨c :: r ++ text, p⟩ := by
      simp [skip, skipFrom, hblank, hsemi]
    have hsplit := hword.split text hends
    obtain ⟨tokens, q, hscan, htokens⟩ := ih (p.past (c :: r)) (⟨c :: r, p⟩ :: acc)
    refine ⟨⟨c :: r, p⟩ :: tokens, q, ?_, by rw [List.map_cons, htokens]⟩
    rw [scan, hskip, dif_neg (by simp)]
    simp only [afterWord, word, hsplit, hscan]
    simp

end Cursor

/-- **Scanning a text gives the words that it is cut into.** -/
theorem tokens_of_cut {text : String} {ws : List (List Char)} (h : Cut text.toList ws) :
    (TokenText.ofText text).tokens.map (·.chars) = ws := by
  obtain ⟨tokens, q, hscan, htokens⟩ := Cursor.exists_scan h .start []
  rw [TokenText.ofText, Cursor.ofText, hscan]
  exact htokens

namespace Text

/-- Words with a blank between each two and a line break after the last. -/
lemma Cut.line {ws vs : List (List Char)} {text : List Char} (hws : ∀ w ∈ ws, IsWord w)
    (hne : ws ≠ []) (h : Cut text vs) :
    Cut ([' '].intercalate ws ++ '\n' :: text) (ws ++ vs) := by
  induction ws with
  | nil => exact absurd rfl hne
  | cons w ws ih =>
    obtain ⟨hw, hws⟩ := List.forall_mem_cons.mp hws
    rcases ws with _ | ⟨v, ws⟩
    · simpa [List.intercalate] using Cut.word hw (by simp [isBreak, isBlank]) (.blank (by decide) h)
    · have hrest := Cut.blank (show isBlank ' ' by decide) (ih hws (by simp))
      simpa [List.intercalate] using Cut.word hw (by simp [isBreak, isBlank]) hrest

end Text

end Spirv
