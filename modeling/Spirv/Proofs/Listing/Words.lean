import Mathlib
import Spirv.Proofs.Listing.Names
import Spirv.Proofs.Listing.Number
import Spirv.Proofs.Text.Quoted

/-!
The words that operands are listed as.

A number, a name, names joined by bars, a name behind `%` and a string in quotes are each cut off a
text as one word, which does not look like the start of an instruction. So instructions that are
listed one after the other are told apart again.
-/

namespace Spirv

open Text Assembly

namespace Listing

/-! ### Words that operands are -/

/-- The word may be an operand anywhere: it starts no instruction and assigns no result. -/
structure IsOperand (w : List Char) : Prop where
  word : IsWord w
  unlike : Cursor.startsWithOp w = false
  ne : w ≠ ['=']

lemma isOperand_of_isPlain {c : Char} {r : List Char} (hplain : ∀ x ∈ c :: r, isPlain x)
    (hop : Cursor.startsWithOp (c :: r) = false) (heq : c ≠ '=') : IsOperand (c :: r) where
  word := isWord_of_isPlain (by simp) hplain
  unlike := hop
  ne := by simp [heq]

lemma startsWithOp_of_ne {c : Char} {r : List Char} (h : c ≠ 'O') :
    Cursor.startsWithOp (c :: r) = false := by
  unfold Cursor.startsWithOp
  split <;> simp_all

/-- What has none of the characters that end a word or enclose it is plain. -/
lemma isPlain_of {p : Char → Bool} (hp : [' ', '\t', '\r', '\n', ';', '"', '\\'].any p = false)
    {c : Char} (hc : p c = true) : isPlain c = true := by
  have hne : ∀ d ∈ [' ', '\t', '\r', '\n', ';', '"', '\\'], c ≠ d := by
    rintro d hd rfl
    exact Bool.false_ne_true (hp.symm.trans (List.any_eq_true.mpr ⟨c, hd, hc⟩))
  simp only [List.forall_mem_cons, List.not_mem_nil, false_imp_iff, implies_true, and_true] at hne
  simp [isPlain, isBreak, isBlank, hne]

lemma isPlain_of_isDigit {c : Char} (h : c.isDigit = true) : isPlain c = true :=
  isPlain_of (p := Char.isDigit) (by decide) h

lemma isOperand_of_isNumeral {w : List Char} (h : IsNumeral w) :
    IsOperand w ∧ isRaw w = false ∧ w.head? ≠ some '"' := by
  refine ⟨?_, ?_, h.head?_ne (by decide)⟩
  · have hO := h.head?_ne (c := 'O') (by decide)
    have heq := h.head?_ne (c := '=') (by decide)
    obtain ⟨⟨c, hc, -⟩, hall⟩ := h
    obtain ⟨r, rfl⟩ := List.head?_eq_some_iff.mp hc
    refine isOperand_of_isPlain (fun x hx => ?_) (startsWithOp_of_ne (by simpa using hO))
      (by simpa using heq)
    refine isPlain_of (p := fun c => c.isDigit || c = '-' || c = '.') (by decide) ?_
    simpa [or_assoc] using hall x hx
  · simpa [isRaw] using h.head?_ne (c := '!') (by decide)

lemma isPlain_of_isName {w : List Char} (h : isName w = true) : ∀ c ∈ w, isPlain c = true := by
  intro c hc
  simp only [isName, Bool.and_eq_true, List.all_eq_true] at h
  exact isPlain_of (p := fun c => c.isAlphanum || c = '_') (by decide) (h.1.2 c hc)

lemma notMem_of_isName {w : List Char} (h : isName w = true) {c : Char}
    (hc : (c.isAlphanum || c = '_') = false) : c ∉ w := by
  intro hmem
  simp only [isName, Bool.and_eq_true, List.all_eq_true] at h
  exact Bool.false_ne_true (hc.symm.trans (h.1.2 c hmem))

lemma head?_ne_of_isName {w : List Char} (h : isName w = true) {c : Char}
    (hc : (c.isAlphanum || c = '_') = false) : w.head? ≠ some c :=
  fun he => notMem_of_isName h hc (List.mem_of_mem_head? he)

/-- A bar after it does not make a word look like the name of an opcode. -/
lemma startsWithOp_bar {w : List Char} (h : Cursor.startsWithOp w = false) (r : List Char) :
    Cursor.startsWithOp (w ++ '|' :: r) = false := by
  by_contra hbar
  rw [Bool.not_eq_false] at hbar
  unfold Cursor.startsWithOp at hbar
  split at hbar
  next c tail heq =>
    match w, h, heq with
    | [], _, heq | [_], _, heq => simp at heq
    | [_, _], _, heq =>
      obtain ⟨-, -, rfl, -⟩ := by simpa using heq
      exact absurd hbar (by decide)
    | _ :: _ :: _ :: _, h, heq =>
      obtain ⟨rfl, rfl, rfl, -⟩ := by simpa using heq
      simp [Cursor.startsWithOp, hbar] at h
  next => simp at hbar

lemma isPlain_of_mem_intercalate {w : List Char} {ws : List (List Char)} (hw : isName w = true)
    (hws : ∀ v ∈ ws, isName v = true) : ∀ x ∈ ['|'].intercalate (w :: ws), isPlain x = true := by
  induction ws generalizing w with
  | nil => simpa [List.intercalate] using isPlain_of_isName hw
  | cons v ws ih =>
    obtain ⟨hv, hws⟩ := List.forall_mem_cons.mp hws
    intro x hx
    rw [List.intercalate_cons_cons, List.append_assoc] at hx
    rcases List.mem_append.mp hx with hx | hx
    · exact isPlain_of_isName hw x hx
    rcases List.mem_append.mp hx with hx | hx
    · obtain rfl := List.mem_singleton.mp hx
      decide
    · exact ih hv hws x hx

/-- Names are joined by bars to one word. -/
lemma isOperand_of_names {w : List Char} {ws : List (List Char)} (hw : isName w = true)
    (hws : ∀ v ∈ ws, isName v = true) :
    IsOperand (['|'].intercalate (w :: ws)) ∧ isRaw (['|'].intercalate (w :: ws)) = false := by
  have hplain := isPlain_of_mem_intercalate hw hws
  have hlike : Cursor.startsWithOp (['|'].intercalate (w :: ws)) = false ∧
      ∃ r, ['|'].intercalate (w :: ws) = w ++ r := by
    have hw' : Cursor.startsWithOp w = false := by
      simp only [isName, Bool.and_eq_true, Bool.not_eq_true'] at hw
      exact hw.2
    rcases ws with _ | ⟨v, ws⟩
    · exact ⟨by simpa [List.intercalate] using hw', [], by simp [List.intercalate]⟩
    · rw [List.intercalate_cons_cons, List.append_assoc]
      exact ⟨startsWithOp_bar hw' _, _, rfl⟩
  obtain ⟨hlike, r, htext⟩ := hlike
  have heq := head?_ne_of_isName hw (c := '=') (by decide)
  have hraw := head?_ne_of_isName hw (c := '!') (by decide)
  rcases w with _ | ⟨c, w⟩
  · simp [isName] at hw
  rw [htext, List.cons_append] at hplain hlike ⊢
  exact ⟨isOperand_of_isPlain hplain hlike (by simpa using heq), by simpa [isRaw] using hraw⟩

lemma isOperand_of_isName {w : List Char} (hw : isName w = true) : IsOperand w ∧ isRaw w = false := by
  simpa [List.intercalate] using isOperand_of_names hw (List.forall_mem_nil _)

end Listing

end Spirv
