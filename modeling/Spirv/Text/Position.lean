/-!
Places in a text.
-/

namespace Spirv

/-- A place between two characters of a text. Lines and columns count from zero; columns count
characters and the index counts UTF-8 bytes. -/
structure Position where
  line : Nat
  column : Nat
  index : Nat
  deriving DecidableEq

namespace Position

def start : Position := ⟨0, 0, 0⟩

/-- The place after a character between words. -/
def after (p : Position) (c : Char) : Position :=
  if c = '\n' then ⟨p.line + 1, 0, p.index + c.utf8Size⟩
  else ⟨p.line, p.column + 1, p.index + c.utf8Size⟩

/-- The place after a word. A line break inside the word does not start a line. -/
def past (p : Position) (word : List Char) : Position :=
  word.foldl (fun q c => ⟨q.line, q.column + 1, q.index + c.utf8Size⟩) p

end Position

end Spirv
