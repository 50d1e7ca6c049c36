/-!
Numeric types as declared by a module: how a number is held and in how many bits.
-/

namespace Spirv

inductive NumberClass where
  | unsigned
  | signed
  | float
  deriving DecidableEq

structure NumberType where
  numberClass : NumberClass
  width : Nat
  deriving DecidableEq

namespace NumberType

def isInteger (t : NumberType) : Bool := t.numberClass ≠ .float

/-- The words that a number of the type takes. -/
def wordCount (t : NumberType) : Nat := (t.width + 31) / 32

/-- An integer type as declared by its width and its signedness, which is signed unless zero. -/
def ofInteger (width signedness : Nat) : NumberType :=
  ⟨if signedness = 0 then .unsigned else .signed, width⟩

end NumberType

end Spirv
