import Spirv.Text.Cursor

/-!
The words of a text with the places where they start.
-/

namespace Spirv

structure Token where
  chars : List Char
  start : Position

namespace Token

def text (t : Token) : String := String.ofList t.chars

/-- Whether the token begins like the name of an opcode. -/
def isOpcodeLike (t : Token) : Bool := Cursor.startsWithOp t.chars

/-- Whether an instruction starts at the first token: the name of an opcode, or an id, the word `=`
and the name of an opcode. -/
def startInstruction : List Token → Bool
  | t :: rest =>
    t.isOpcodeLike ||
      (t.chars.head? == some '%' &&
        match rest with
        | equals :: name :: _ => equals.chars == ['='] && name.isOpcodeLike
        | _ => false)
  | [] => false

end Token

/-- A text cut into words. -/
structure TokenText where
  tokens : List Token
  /-- The end of the text. -/
  finish : Position

namespace Cursor

/-- The words from the cursor on, put after those in `acc`, which holds the last first. -/
def scan (c : Cursor) (acc : List Token) : TokenText :=
  if _h : c.skip.rest = [] then ⟨acc.reverse, c.skip.position⟩
  else c.skip.afterWord.scan (⟨c.skip.word, c.skip.position⟩ :: acc)
termination_by c.rest.length
decreasing_by exact c.afterWord_skip_length_lt _h

end Cursor

def TokenText.ofText (text : String) : TokenText :=
  (Cursor.ofText text.toList).scan []

end Spirv
