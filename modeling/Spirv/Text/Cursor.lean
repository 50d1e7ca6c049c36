import Spirv.Text.Position

/-!
Cutting text into words. Between words stand blanks and comments, which run from `;` to the end of
the line. A word runs to the next blank or `;`, save that double quotes enclose any of these and a
backslash takes away the meaning of the character after it. Nothing is lost: a gap or a word and the
text after it make up the text before it.
-/

namespace Spirv

namespace Text

def isBlank (c : Char) : Bool := c = ' ' || c = '\t' || c = '\r' || c = '\n'

/-- Whether the character ends a word outside quotes. -/
def isBreak (c : Char) : Bool := isBlank c || c = ';'

/-- Cuts off the word in front, which may be empty. -/
def splitWord (text : List Char) : List Char × List Char :=
  go false false [] text
where
  /-- `quoted` holds between double quotes, `escaped` after a backslash; `acc` is the word so far,
  last character first. -/
  go (quoted escaped : Bool) (acc : List Char) : List Char → List Char × List Char
    | [] => (acc.reverse, [])
    | c :: rest =>
      if escaped then go quoted false (c :: acc) rest
      else if c = '\\' then go quoted true (c :: acc) rest
      else if c = '"' then go (!quoted) false (c :: acc) rest
      else if !quoted && isBreak c then (acc.reverse, c :: rest)
      else go quoted false (c :: acc) rest

theorem splitWord_go_append (quoted escaped : Bool) (acc text : List Char) :
    (splitWord.go quoted escaped acc text).1 ++ (splitWord.go quoted escaped acc text).2
      = acc.reverse ++ text := by
  induction text generalizing quoted escaped acc with
  | nil => simp [splitWord.go]
  | cons c rest ih =>
    simp only [splitWord.go]
    split
    · simp [ih]
    split
    · simp [ih]
    split
    · simp [ih]
    split
    · simp
    · simp [ih]

/-- A word and what follows it make up the text. -/
theorem splitWord_append (text : List Char) : (splitWord text).1 ++ (splitWord text).2 = text := by
  simpa [splitWord] using splitWord_go_append false false [] text

theorem splitWord_go_length_le (quoted escaped : Bool) (acc text : List Char) :
    acc.length ≤ (splitWord.go quoted escaped acc text).1.length := by
  induction text generalizing quoted escaped acc with
  | nil => simp [splitWord.go]
  | cons c rest ih =>
    have h (q e : Bool) : acc.length ≤ (splitWord.go q e (c :: acc) rest).1.length :=
      Nat.le_trans (Nat.le_succ _) (ih q e (c :: acc))
    simp only [splitWord.go]
    split
    · exact h _ _
    split
    · exact h _ _
    split
    · exact h _ _
    split
    · simp
    · exact h _ _

/-- A character that does not end a word starts one. -/
theorem splitWord_length_lt {c : Char} {rest : List Char} (h : isBreak c = false) :
    (splitWord (c :: rest)).2.length < (c :: rest).length := by
  have happ := congrArg List.length (splitWord_append (c :: rest))
  have hpos : 1 ≤ (splitWord (c :: rest)).1.length := by
    have h1 (q e : Bool) : 1 ≤ (splitWord.go q e [c] rest).1.length :=
      splitWord_go_length_le q e [c] rest
    simp only [splitWord, splitWord.go]
    split
    · exact h1 _ _
    split
    · exact h1 _ _
    split
    · exact h1 _ _
    split
    · simp_all
    · exact h1 _ _
  simp only [List.length_append] at happ
  omega

end Text

/-- A place in a text together with the text from there on. -/
structure Cursor where
  rest : List Char
  position : Position

namespace Cursor

open Text

def ofText (text : List Char) : Cursor := ⟨text, .start⟩

/-- Moves past blanks and comments; `comment` holds inside a comment. -/
def skipFrom (comment : Bool) : List Char → Position → Cursor
  | [], p => ⟨[], p⟩
  | c :: rest, p =>
    if comment then skipFrom (c ≠ '\n') rest (p.after c)
    else if c = ';' then skipFrom true rest (p.after c)
    else if isBlank c then skipFrom false rest (p.after c)
    else ⟨c :: rest, p⟩

/-- Moves to the next word, or to the end of the text. -/
def skip (c : Cursor) : Cursor := skipFrom false c.rest c.position

def atEnd (c : Cursor) : Bool := c.rest.isEmpty

/-- The word in front. -/
def word (c : Cursor) : List Char := (splitWord c.rest).1

/-- The cursor after the word in front. -/
def afterWord (c : Cursor) : Cursor := ⟨(splitWord c.rest).2, c.position.past c.word⟩

/-- The cursor at a given place of a text. Nothing is left to read from a place past the end or
inside a character. -/
def seek (text : List Char) (p : Position) : Cursor :=
  ⟨(go p.index text).getD [], p⟩
where
  go : Nat → List Char → Option (List Char)
    | 0, text => some text
    | n + 1, c :: rest => if c.utf8Size ≤ n + 1 then go (n + 1 - c.utf8Size) rest else none
    | _ + 1, [] => none

/-- Whether text begins like the name of an opcode: `Op` and an upper case letter. -/
def startsWithOp : List Char → Bool
  | 'O' :: 'p' :: c :: _ => c.isUpper
  | _ => false

/-- Whether an instruction starts at the cursor: the name of an opcode, or an id, the word `=` and
the name of an opcode. -/
def startsInstruction (c : Cursor) : Bool :=
  startsWithOp c.rest ||
    (c.rest.head? == some '%' &&
      let equals := c.afterWord.skip
      let name := equals.afterWord.skip
      !equals.atEnd && equals.word == ['='] && !name.atEnd && startsWithOp name.rest)

theorem skipFrom_length_le (comment : Bool) (text : List Char) (p : Position) :
    (skipFrom comment text p).rest.length ≤ text.length := by
  induction text generalizing comment p with
  | nil => simp [skipFrom]
  | cons c rest ih =>
    have h (b : Bool) : (skipFrom b rest (p.after c)).rest.length ≤ (c :: rest).length :=
      Nat.le_trans (ih b (p.after c)) (Nat.le_succ _)
    simp only [skipFrom]
    split
    · exact h _
    split
    · exact h _
    split
    · exact h _
    · exact Nat.le_refl _

/-- What is left after a gap does not start with a blank or a comment. -/
theorem isBreak_of_skipFrom {comment : Bool} {text : List Char} {p : Position} {c : Char}
    {rest : List Char} (h : (skipFrom comment text p).rest = c :: rest) : isBreak c = false := by
  induction text generalizing comment p with
  | nil => simp [skipFrom] at h
  | cons d text ih =>
    simp only [skipFrom] at h
    split at h
    · exact ih h
    split at h
    · exact ih h
    split at h
    · exact ih h
    · obtain ⟨rfl, rfl⟩ := by simpa using h
      simp_all [isBreak]

/-- Reading a word after a gap uses up text. -/
theorem afterWord_skip_length_lt (c : Cursor) (h : c.skip.rest ≠ []) :
    c.skip.afterWord.rest.length < c.rest.length := by
  cases hr : c.skip.rest with
  | nil => exact absurd hr h
  | cons d rest =>
    have h1 : c.skip.rest.length ≤ c.rest.length := skipFrom_length_le ..
    have h2 : (splitWord (d :: rest)).2.length < (d :: rest).length :=
      splitWord_length_lt (isBreak_of_skipFrom hr)
    simp only [afterWord, hr] at h1 ⊢
    omega

end Cursor

end Spirv
