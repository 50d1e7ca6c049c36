/-!
Strings in double quotes. A backslash stands before each quote, backslash and line break of the string
and may stand before any other character.
-/

namespace Spirv.Quoted

/-- Whether the character needs a backslash. -/
def isSpecial (c : Char) : Bool := c = '"' || c = '\\' || c = '\n'

def escape (c : Char) : List Char := if isSpecial c then ['\\', c] else [c]

/-- Writes a string in quotes. -/
def encode (s : List Char) : List Char := '"' :: s.flatMap escape ++ ['"']

/-- Reads a string to its closing quote, which must be the end of the text. `acc` is the string so
far, last character first. -/
def decodeRest (acc : List Char) : List Char → Option (List Char)
  | [] => none
  | ['"'] => some acc.reverse
  | '\\' :: c :: rest => decodeRest (c :: acc) rest
  | c :: rest => if isSpecial c then none else decodeRest (c :: acc) rest

/-- Reads a string in quotes. -/
def decode : List Char → Option (List Char)
  | '"' :: rest => decodeRest [] rest
  | _ => none

end Spirv.Quoted
