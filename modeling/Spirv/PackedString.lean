import Spirv.Literal
import Spirv.Text.Utf8

/-!
Strings packed in words: their UTF-8 bytes, a zero byte, and more zero bytes up to a whole number of
words. The first byte is the least significant one of the first word.
-/

namespace Spirv

namespace PackedString

/-- Packs bytes and the zero byte after them. -/
def packBytes (acc : List Word) : List UInt8 → List Word
  | a :: b :: c :: d :: rest => packBytes (Word.ofBytes a b c d :: acc) rest
  | [a, b, c] => (Word.ofBytes a b c 0 :: acc).reverse
  | [a, b] => (Word.ofBytes a b 0 0 :: acc).reverse
  | [a] => (Word.ofBytes a 0 0 0 :: acc).reverse
  | [] => (0 :: acc).reverse

def pack (s : List Char) : List Word := packBytes [] (Text.Utf8.encode s)

/-- The bytes of a word before its first zero byte, in reverse order in front of `acc`, and whether
there is a zero byte. -/
def takeBytes (acc : List UInt8) : List UInt8 → List UInt8 × Bool
  | [] => (acc, false)
  | b :: rest => if b = 0 then (acc, true) else takeBytes (b :: acc) rest

/-- The bytes of the string at the start of `words` and the number of words it takes; nothing if no
zero byte ends it. -/
def unpack? (words : List Word) : Option (List UInt8 × Nat) :=
  go [] 1 words
where
  /-- `acc` holds the bytes so far, last first, and `n` counts the words with the one to come. -/
  go (acc : List UInt8) (n : Nat) : List Word → Option (List UInt8 × Nat)
    | [] => none
    | w :: rest =>
      let (acc, ended) := takeBytes acc w.bytes
      if ended then some (acc.reverse, n) else go acc (n + 1) rest

end PackedString

/-- The words of a literal. -/
def Literal.words : Literal → List Word
  | .int32 v => [v.toUInt32]
  | .uint32 v => [v]
  | .float32 bits => [bits]
  | .int64 v => wide v.toUInt64.toBitVec 64
  | .uint64 v => wide v.toBitVec 64
  | .float64 bits => wide bits.toBitVec 64
  | .string s => PackedString.pack s

end Spirv
