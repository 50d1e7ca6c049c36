import Mathlib
import Spirv.Proofs.Listing.Operand

/-!
A string from its text to its words and back.

In quotes a string is one word of a text, whatever it holds; the word is read as the string, the string
is packed in words and found again at their start, and these words are listed as the string in quotes.
-/

namespace Spirv

open Text

variable {s q : List Char}

lemma Quoted.encode_eq (s : List Char) : encode s
    = '"' :: s.flatMap (fun c => if c ∈ ['"', '\\', '\n'] then ['\\', c] else [c]) ++ ['"'] := by
  have hescape : ∀ c, escape c = if c ∈ ['"', '\\', '\n'] then ['\\', c] else [c] := fun c => by
    simp [escape, isSpecial, or_assoc]
  simp only [encode, ← hescape]

/-- A word is cut off where a blank or a comment comes after it, and at the end of the text. -/
lemma Text.IsWord.cursor_word {w : List Char} (h : IsWord w) {rest : List Char}
    (hrest : ∀ c ∈ rest.head?, isBreak c = true) (p : Position) :
    (Cursor.mk (w ++ rest) p).word = w ∧ (Cursor.mk (w ++ rest) p).afterWord.rest = rest := by
  simp [Cursor.word, Cursor.afterWord, h.split rest hrest]

/-- **A string survives.** Take a string without the character zero, and let quotes enclose it and a
backslash stand before each quote, backslash and line break of it. Wherever a blank, a comment or the
end of the text comes after it, this is one word; it is read as the string; the words that the string is
packed in hold its bytes, whatever words come after them, and are listed as the string in quotes. -/
theorem string_survives (hzero : '\x00' ∉ s)
    (hlen : (Utf8.encode s).length ≤ Literal.maxStringBytes)
    (hq : q = '"' :: s.flatMap (fun c => if c ∈ ['"', '\\', '\n'] then ['\\', c] else [c]) ++ ['"']) :
    (∀ rest p, (∀ c ∈ rest.head?, c ∈ [' ', '\t', '\r', '\n', ';']) →
        (Cursor.mk (q ++ rest) p).word = q ∧ (Cursor.mk (q ++ rest) p).afterWord.rest = rest) ∧
      Literal.readString q = .ok s ∧
      (∀ more, PackedString.unpack? (PackedString.pack s ++ more)
        = some (Utf8.encode s, (PackedString.pack s).length)) ∧
      Listing.string (PackedString.pack s) = String.ofList q := by
  obtain rfl := hq.trans (Quoted.encode_eq s).symm
  obtain ⟨hstring, hbytes⟩ := PackedString.isString_pack hzero
  refine ⟨fun rest p hrest => ?_, Literal.readString_encode hlen, fun more => ?_,
    Listing.string_eq_encode hbytes.symm⟩
  · refine (isWord_encode s).cursor_word (fun c hc => ?_) p
    simpa [isBreak, isBlank, or_assoc] using hrest c hc
  · rw [PackedString.unpack?_append hstring, hbytes]

namespace Sample

/-- A quote, a backslash, a line break, a blank and letters of one, two and three bytes. -/
def mixed : List Char := ['"', '\\', '\n', ' ', 'a', 'é', '字']

def quotedMixed : List Char := ['"', '\\', '"', '\\', '\\', '\\', '\n', ' ', 'a', 'é', '字', '"']

end Sample

/-- Ten bytes in quotes, with a comment after them in the text and another word in the module. -/
theorem string_survives_sample : '\x00' ∉ Sample.mixed ∧
    (Utf8.encode Sample.mixed).length ≤ Literal.maxStringBytes ∧
    (Cursor.mk (Sample.quotedMixed ++ [';']) .start).word = Sample.quotedMixed ∧
    Literal.readString Sample.quotedMixed = .ok Sample.mixed ∧
    PackedString.unpack? (PackedString.pack Sample.mixed ++ [0x61])
      = some ([0x22, 0x5C, 0x0A, 0x20, 0x61, 0xC3, 0xA9, 0xE5, 0xAD, 0x97], 3) ∧
    Listing.string (PackedString.pack Sample.mixed) = String.ofList Sample.quotedMixed := by
  have hzero : '\x00' ∉ Sample.mixed := by decide
  have hlen : (Utf8.encode Sample.mixed).length ≤ Literal.maxStringBytes := by decide
  obtain ⟨hword, hread, hunpack, hlist⟩ :=
    string_survives (q := Sample.quotedMixed) hzero hlen (by decide)
  exact ⟨hzero, hlen, (hword [';'] .start (by simp)).1, hread, hunpack [0x61], hlist⟩

end Spirv
