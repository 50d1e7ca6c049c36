/-!
Characters as UTF-8 bytes. Bytes that are not UTF-8 still decode: each longest run that begins a
character but does not complete it, and each byte that begins none, stands for one replacement
character.
-/

namespace Spirv.Text.Utf8

/-- The bytes of a text. -/
def encode (text : List Char) : List UInt8 := text.flatMap String.utf8EncodeChar

/-- The character that stands for bytes that are not UTF-8. -/
def replacement : Char := '\uFFFD'

/-- For the first byte of a character of several bytes: how many bytes follow, the bits of the
character in the first byte, and the least and greatest second byte. -/
def lead? (b : UInt8) : Option (Nat × Nat × UInt8 × UInt8) :=
  let low (n : Nat) : Nat := b.toNat % n
  if b < 0xC2 then none
  else if b < 0xE0 then some (1, low 32, 0x80, 0xBF)
  else if b < 0xF0 then
    some (2, low 16, if b = 0xE0 then 0xA0 else 0x80, if b = 0xED then 0x9F else 0xBF)
  else if b < 0xF5 then
    some (3, low 8, if b = 0xF0 then 0x90 else 0x80, if b = 0xF4 then 0x8F else 0xBF)
  else none

/-- Reads `n` more bytes of a character whose bits so far are `code`, the first of them between
`lo` and `hi`. -/
def decodeRest (lo hi : UInt8) : Nat → Nat → List UInt8 → Char × List UInt8
  | 0, code, rest => (Char.ofNat code, rest)
  | n + 1, code, b :: rest =>
    if lo ≤ b && b ≤ hi then decodeRest 0x80 0xBF n (code * 64 + b.toNat % 64) rest
    else (replacement, b :: rest)
  | _ + 1, _, [] => (replacement, [])

/-- Reads one character that begins with `b`. -/
def decodeChar (b : UInt8) (rest : List UInt8) : Char × List UInt8 :=
  if b < 0x80 then (Char.ofNat b.toNat, rest)
  else match lead? b with
    | none => (replacement, rest)
    | some (n, code, lo, hi) => decodeRest lo hi n code rest

theorem decodeRest_length_le (lo hi : UInt8) (n code : Nat) (bytes : List UInt8) :
    (decodeRest lo hi n code bytes).2.length ≤ bytes.length := by
  induction bytes generalizing lo hi n code with
  | nil => cases n <;> simp [decodeRest]
  | cons b rest ih =>
    cases n with
    | zero => simp [decodeRest]
    | succ n =>
      simp only [decodeRest]
      split
      · exact Nat.le_trans (ih ..) (Nat.le_succ _)
      · exact Nat.le_refl _

theorem decodeChar_length_le (b : UInt8) (rest : List UInt8) :
    (decodeChar b rest).2.length ≤ rest.length := by
  unfold decodeChar
  split
  · exact Nat.le_refl _
  split
  · exact Nat.le_refl _
  · exact decodeRest_length_le ..

/-- The text that bytes stand for. -/
def decode (bytes : List UInt8) : List Char :=
  go [] bytes
where
  go (acc : List Char) : List UInt8 → List Char
    | [] => acc.reverse
    | b :: rest => go ((decodeChar b rest).1 :: acc) (decodeChar b rest).2
  termination_by bytes => bytes.length
  decreasing_by exact Nat.lt_succ_of_le (decodeChar_length_le b rest)

end Spirv.Text.Utf8
