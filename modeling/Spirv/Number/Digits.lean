/-!
Whole numbers in digits. A numeral is read only if the text is nothing else. Its number is that of its
digits in their base, however the digits are joined.
-/

namespace Spirv.Digits

def isOctal (c : Char) : Bool := '0' ≤ c && c ≤ '7'

def isHex (c : Char) : Bool := c.isDigit || ('a' ≤ c && c ≤ 'f') || ('A' ≤ c && c ≤ 'F')

/-- The value of a digit in any base up to 16. -/
def digitValue (c : Char) : Nat :=
  if c.isDigit then c.toNat - '0'.toNat
  else if c.isLower then c.toNat - 'a'.toNat + 10
  else c.toNat - 'A'.toNat + 10

/-- Takes digits, the least first, two by two as digits in the square of the base. `acc` holds those
taken before, the last first. -/
def pairUp (base : Nat) (acc : List Nat) : List Nat → List Nat
  | low :: high :: rest => pairUp base ((low + base * high) :: acc) rest
  | [low] => (low :: acc).reverse
  | [] => acc.reverse

theorem pairUp_length_le (base : Nat) (acc digits : List Nat) :
    (pairUp base acc digits).length ≤ acc.length + digits.length := by
  fun_induction pairUp base acc digits <;> grind

/-- The number with the given digits, the least first. Joining digits in pairs, and these in pairs
again, keeps the work small for numerals of any length. -/
def ofLeastFirst (base : Nat) : List Nat → Nat
  | [] => 0
  | [digit] => digit
  | low :: high :: rest => ofLeastFirst (base * base) (pairUp base [low + base * high] rest)
termination_by digits => digits.length
decreasing_by
  have := pairUp_length_le base [low + base * high] rest
  simp only [List.length_cons, List.length_nil] at this ⊢
  omega

theorem foldr_pairUp (base : Nat) (acc digits : List Nat) :
    (pairUp base acc digits).foldr (fun d n => d + base * base * n) 0
      = acc.foldl (fun n d => d + base * base * n) (digits.foldr (fun d n => d + base * n) 0) := by
  fun_induction pairUp base acc digits with
  | case1 acc low high rest ih =>
    rw [ih, List.foldl_cons, List.foldr_cons, List.foldr_cons]
    congr 1
    grind
  | case2 acc low => simp
  | case3 acc => simp

/-- The first digit counts once and the others make up a number that counts as often as the base. -/
theorem ofLeastFirst_eq_foldr (base : Nat) (digits : List Nat) :
    ofLeastFirst base digits = digits.foldr (fun d n => d + base * n) 0 := by
  fun_induction ofLeastFirst base digits with
  | case1 => rfl
  | case2 => simp
  | case3 base low high rest ih =>
    rw [ih, foldr_pairUp]
    simp only [List.foldl_cons, List.foldl_nil, List.foldr_cons]
    grind

/-- The number that digits spell, the most significant first. -/
def ofDigits (base : Nat) (digits : List Char) : Nat :=
  ofLeastFirst base (digits.reverse.map digitValue)

/-- A digit after others multiplies their number by the base and is added. -/
theorem ofDigits_eq_foldl (base : Nat) (digits : List Char) :
    ofDigits base digits = digits.foldl (fun n c => n * base + digitValue c) 0 := by
  simp [ofDigits, ofLeastFirst_eq_foldr, List.foldl_map, Nat.add_comm, Nat.mul_comm]

/-- Reads a nonempty run of digits. -/
def read? (isDigit : Char → Bool) (base : Nat) (text : List Char) : Option Nat :=
  if !text.isEmpty && text.all isDigit then some (ofDigits base text) else none

def decimal? (text : List Char) : Option Nat := read? Char.isDigit 10 text

/-- Reads `0x` or `0X` and hexadecimal digits. -/
def hex? : List Char → Option Nat
  | '0' :: x :: digits => if x = 'x' || x = 'X' then read? isHex 16 digits else none
  | _ => none

/-- Reads `0` and octal digits. -/
def octal? : List Char → Option Nat
  | '0' :: digits => read? isOctal 8 digits
  | _ => none

/-- Reads decimal digits that may follow a minus: whether there is a minus, and the number. -/
def signed? : List Char → Option (Bool × Nat)
  | '-' :: digits => (decimal? digits).map (true, ·)
  | digits => (decimal? digits).map (false, ·)

/-- The number that a sign and a magnitude stand for. -/
def toInt (negative : Bool) (n : Nat) : Int := if negative then -n else n

end Spirv.Digits
