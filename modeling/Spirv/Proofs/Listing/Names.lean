import Mathlib
import Spirv.Proofs.Tables
import Spirv.Proofs.Utf8
import Spirv.Text.Token

/-!
The names in the tables of the grammar.

A name is made of letters, digits and underscores and does not look like that of an opcode, so it is
a word of a text that nothing but an operand can be. No two rows of a table have one name, so a row
is found again by its name. Tables are long and names are compared by the numbers that their bytes
make up, each of which is worked out only once.
-/

namespace Spirv

open Text

/-- Whether the characters are a name: letters, digits and underscores, and not `Op` and an upper
case letter in front. -/
def isName (w : List Char) : Bool :=
  !w.isEmpty && w.all (fun c => c.isAlphanum || c = '_') && !Cursor.startsWithOp w

namespace Names

def bytes (s : String) : List UInt8 := s.toByteArray.data.toList

lemma bytes_eq_encode (s : String) : bytes s = Utf8.encode s.toList := by
  rw [bytes, ← String.utf8Encode_toList, List.utf8Encode, Utf8.encode]
  simp

/-- Each byte below 128 is one character. -/
lemma decode_of_ascii {bs : List UInt8} (h : ∀ b ∈ bs, b < 0x80) :
    Utf8.decode bs = bs.map fun b => Char.ofNat b.toNat := by
  have hgo : ∀ (acc : List Char) (bs : List UInt8), (∀ b ∈ bs, b < 0x80) →
      Utf8.decode.go acc bs = acc.reverse ++ bs.map fun b => Char.ofNat b.toNat := by
    intro acc bs hbs
    induction bs generalizing acc with
    | nil => simp [Utf8.decode.go]
    | cons b bs ih =>
      obtain ⟨hb, hbs⟩ := List.forall_mem_cons.mp hbs
      rw [Utf8.decode.go, Utf8.decodeChar, if_pos hb, ih _ hbs]
      simp
  simpa [Utf8.decode] using hgo [] bs h

/-- The characters that the bytes are, if each of them is one. -/
def chars (s : String) : List Char := (bytes s).map fun b => Char.ofNat b.toNat

lemma toList_eq_chars {s : String} (h : ∀ b ∈ bytes s, b < 0x80) : s.toList = chars s := by
  rw [chars, ← decode_of_ascii h, bytes_eq_encode, Utf8.decode_encode]

/-- Whether the text is a name, told from its bytes. -/
def check (s : String) : Bool := (bytes s).all (· < 0x80) && isName (chars s)

lemma toList_of_check {s : String} (h : check s = true) : s.toList = chars s :=
  toList_eq_chars (by simpa using (Bool.and_eq_true_iff.mp h).1)

lemma isName_of_check {s : String} (h : check s = true) : isName s.toList = true := by
  rw [toList_of_check h]
  exact (Bool.and_eq_true_iff.mp h).2

/-- The number whose digits the bytes are, cut to a few digits. -/
def code (s : String) : ℕ := (bytes s).foldl (fun n b => n * 256 + b.toNat) 0 % 65521

/-- Whether numbers are distinct, where `met` has the bits that those before stand for. -/
def distinct (met : ℕ) : List ℕ → Bool
  | [] => true
  | n :: l => !met.testBit n && distinct (met ||| 1 <<< n) l

lemma nodup_of_distinct {met : ℕ} {l : List ℕ} (h : distinct met l = true) :
    l.Nodup ∧ ∀ n ∈ l, met.testBit n = false := by
  induction l generalizing met with
  | nil => simp
  | cons n l ih =>
    obtain ⟨hn, hl⟩ := Bool.and_eq_true_iff.mp h
    obtain ⟨hnodup, hmet⟩ := ih hl
    simp only [Nat.testBit_or, Bool.or_eq_false_iff] at hmet
    refine ⟨List.nodup_cons.mpr ⟨fun hmem => ?_, hnodup⟩, ?_⟩
    · have hbit : (1 <<< n).testBit n = false := (hmet n hmem).2
      simp [Nat.shiftLeft_eq] at hbit
    · exact List.forall_mem_cons.mpr ⟨by simpa using hn, fun m hm => (hmet m hm).1⟩

/-- Whether the texts are names, no two of them the same. -/
def valid (l : List String) : Bool := l.all check && distinct 0 (l.map code)

lemma check_of_valid {l : List String} {s : String} (h : valid l = true) (hs : s ∈ l) :
    check s = true :=
  List.all_eq_true.mp (Bool.and_eq_true_iff.mp h).1 s hs

lemma nodup_of_valid {l : List String} (h : valid l = true) : l.Nodup :=
  List.Nodup.of_map code (nodup_of_distinct (Bool.and_eq_true_iff.mp h).2).1

end Names

namespace Opcode

lemma valid_names : Names.valid (all.map name) = true := by decide +kernel

lemma check_name (op : Opcode) : Names.check op.name = true :=
  Names.check_of_valid valid_names (List.mem_map_of_mem (mem_all op))

lemma isName_name (op : Opcode) : isName op.name.toList = true :=
  Names.isName_of_check op.check_name

lemma ofName?_name (op : Opcode) : ofName? op.name = some op :=
  find?_of_nodup_map (Names.nodup_of_valid valid_names) (mem_all op)

/-- Behind `Op` the name is that of an opcode. -/
lemma startsWithOp_mnemonic (op : Opcode) : Cursor.startsWithOp op.mnemonic.toList = true := by
  have hall : ∀ op ∈ all, (Names.chars op.name).head?.any Char.isUpper := by decide +kernel
  have hupper := hall op (mem_all op)
  rw [← Names.toList_of_check op.check_name] at hupper
  rw [mnemonic, String.toList_append]
  rcases hname : op.name.toList with _ | ⟨c, r⟩
  · simp [hname] at hupper
  · simpa [Cursor.startsWithOp, hname] using hupper

end Opcode

namespace Category

lemma valid_names (c : Category) : Names.valid (c.values.map (·.name)) = true := by
  cases c <;> decide +kernel

lemma isName_of_mem {c : Category} {row : NamedValue} (hr : row ∈ c.values) :
    isName row.name.toList = true :=
  Names.isName_of_check (Names.check_of_valid c.valid_names (List.mem_map_of_mem hr))

lemma ofName?_name {c : Category} {row : NamedValue} (hr : row ∈ c.values) :
    c.ofName? row.name = some row :=
  find?_of_nodup_map (Names.nodup_of_valid c.valid_names) hr

/-- The empty mask has a row. -/
lemma exists_ofValue?_zero {c : Category} (hc : c.isMask) :
    ∃ row, c.ofValue? 0 = some row ∧ row.value = 0 := by
  have hall : c.isMask → ((c.ofValue? 0).map (·.value)) = some 0 := by cases c <;> decide
  exact Option.map_eq_some_iff.mp (hall hc)

end Category

namespace ExtendedSet

lemma valid_names (set : ExtendedSet) : Names.valid (set.instructions.map (·.name)) = true := by
  cases set <;> decide +kernel

lemma isName_of_mem {set : ExtendedSet} {row : NamedValue} (hr : row ∈ set.instructions) :
    isName row.name.toList = true :=
  Names.isName_of_check (Names.check_of_valid set.valid_names (List.mem_map_of_mem hr))

lemma ofName?_name {set : ExtendedSet} {row : NamedValue} (hr : row ∈ set.instructions) :
    set.ofName? row.name = some row :=
  find?_of_nodup_map (Names.nodup_of_valid set.valid_names) hr

end ExtendedSet

end Spirv
