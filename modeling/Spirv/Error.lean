import Spirv.Assembly.Fault
import Spirv.Binary.Fault
import Spirv.Literal
import Spirv.Text.Position

/-!
Errors: a fault and the place where it was found.
-/

namespace Spirv

inductive Error where
  | text (fault : Assembly.Fault) (position : Position)
  | binary (fault : Binary.Fault) (wordIndex : Nat)
  /-- A literal string that starts at the given place has too many bytes. -/
  | stringTooLong (line column : Nat)
  /-- The bytes of a module are no whole number of words. -/
  | partialWord (bytes : Nat)
  deriving DecidableEq

namespace Error

def message : Error → String
  | text fault p =>
    "invalid assembly: " ++ toString p.line ++ ":" ++ toString p.column ++ ": " ++ fault.message
  | binary fault i => "invalid binary: word " ++ toString i ++ ": " ++ fault.message
  | stringTooLong line column =>
    toString line ++ ":" ++ toString column ++ ": literal string exceeds " ++
      toString Literal.maxStringBytes ++ " bytes"
  | partialWord bytes =>
    "binary of " ++ toString bytes ++ " bytes is not a whole number of 32 bit words"

/-- Whether a limit was reached, rather than that something is malformed. -/
def isLimit : Error → Bool
  | stringTooLong _ _ => true
  | _ => false

end Error

end Spirv
