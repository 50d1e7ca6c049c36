import Spirv.Assembly
import Spirv.Binary
import Spirv.Number.Shortest

/-!
Writing a module as text, one instruction a line, in the form that assembling reads. Ids are written
by number, values by the first name that they have and masks by the names of their bits, lowest first.
A number is written as its type says; one that is infinite or not a number has no decimal and is
written as raw words.
-/

namespace Spirv

-- Powers of numbers are the language's own, also where a library brings powers in a monoid.
attribute [local instance (high)] instPowNat

namespace Listing

def id (w : Word) : String := "%" ++ toString w.toNat

/-- A string in quotes, read from words up to its zero byte. -/
def string (words : List Word) : String :=
  let bytes := (words.flatMap Word.bytes).takeWhile (· ≠ 0)
  String.ofList (Quoted.encode (Text.Utf8.decode bytes))

/-- A word as `!0x` and eight hexadecimal digits. -/
def rawWord (w : Word) : String :=
  let digits := Nat.toDigits 16 w.toNat
  String.ofList ("!0x".toList ++ List.replicate (8 - digits.length) '0' ++ digits)

def raw (words : List Word) : String := " ".intercalate (words.map rawWord)

/-- The bits of a number held in one or two words, low word first. -/
def numberBits (words : List Word) : Nat :=
  (words.headD 0).toNat + (words.tail.headD 0).toNat * 2 ^ (32 : Nat)

/-- A floating-point number, as raw words if it is not finite. -/
def float (f : BinaryFormat) (bits : Nat) (words : List Word) : String :=
  if bits % f.signBit < f.infinity then Shortest.text f bits else raw words

def number (type? : Option NumberType) (words : List Word) : String :=
  let bits := numberBits words
  match type? with
  | some ⟨.signed, width⟩ =>
    if 1 ≤ width && width ≤ 64 then toString (BitVec.ofNat width bits).toInt else toString bits
  | some ⟨.float, width⟩ =>
    if width = 32 then float .single (bits % 2 ^ (32 : Nat)) words
    else if width = 64 then float .double bits words
    else toString bits
  | _ => toString bits

/-- The names of the bits of a mask, or its number if one of them has no name. -/
def mask (c : Category) (m : Word) : String :=
  if m = 0 then ((c.ofValue? 0).map (·.name)).getD "0"
  else match m.setBits.mapM fun i => c.ofValue? (Word.bit i) with
    | some rows => "|".intercalate (rows.map (·.name))
    | none => toString m.toNat

def named (c : Category) (w : Word) : String :=
  if c.isMask then mask c w
  else ((c.ofValue? w).map (·.name)).getD (toString w.toNat)

def extended (set? : Option ExtendedSet) (w : Word) : String :=
  ((set?.bind fun set => set.ofValue? w).map (·.name)).getD (toString w.toNat)

def specOpcode (w : Word) : String :=
  ((if w.toNat < 2 ^ (16 : Nat) then Opcode.ofValue? w.toUInt16 else none).map (·.name)).getD
    (toString w.toNat)

def operand (i : Instruction) (r : OperandRecord) : String :=
  let words := i.wordsOf r
  let first := words.headD 0
  if r.slot.isId then id first
  else match r.slot, r.slot.category? with
    | .string, _ => string words
    | .typedNumber, _ => number r.number? words
    | .extended, _ => extended i.extendedSet? first
    | .specOpcode, _ => specOpcode first
    | _, some c => named c first
    | _, none => toString first.toNat

/-- An instruction without the line break after it. -/
def instruction (form : Assembly.Form) (i : Instruction) : String :=
  if form = .assignment && i.hasResult then
    let operands := i.operands.toList.filter (·.slot ≠ .resultId)
    " ".intercalate (id i.resultId :: "=" :: i.opcode.mnemonic :: operands.map (operand i))
  else " ".intercalate (i.opcode.mnemonic :: i.operands.toList.map (operand i))

end Listing

/-- Writes a module as text, with comments that describe its header if `comments` holds. -/
def disassemble (form : Assembly.Form) (comments : Bool) (words : List Word) :
    Except Error String :=
  Binary.fold (fun text h => if comments then text ++ h.comments else text)
    (fun text i => text ++ Listing.instruction form i ++ "\n") "" words

end Spirv
