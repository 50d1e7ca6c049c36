import Mathlib
import Spirv.Operand.Lookup
import Spirv.Operand.Pattern

/-!
What the tables of the grammar have in common, row by row.

An opcode lists its result type and its result id first, and no row of any table asks for either of
them again. Numbers of opcodes are distinct, so looking one up gives the opcode back. Where two rows
share a value they ask for the same operands.
-/

namespace Spirv

lemma find?_of_nodup_map {α β : Type} [BEq β] [LawfulBEq β] {f : α → β} {l : List α} {a : α}
    (hl : (l.map f).Nodup) (ha : a ∈ l) : l.find? (f · == f a) = some a := by
  induction l with
  | nil => simp at ha
  | cons b l ih =>
    obtain ⟨hb, hl⟩ := List.nodup_cons.mp hl
    rcases List.mem_cons.mp ha with rfl | ha
    · simp
    · have hne : f b ≠ f a := fun he => hb (he ▸ List.mem_map_of_mem ha)
      simpa [List.find?_cons, hne] using ih hl ha

/-- Whether a slot may stand after the result of an instruction in a module. -/
def Slot.isInner : Slot → Bool
  | nothing | free => false
  | one k | optional k | second k | many k => k ≠ .typeId && k ≠ .resultId
  | pairs k l => k ≠ .typeId && k ≠ .resultId && l ≠ .typeId && l ≠ .resultId

/-- The kinds of operand that fill the slot. -/
def Slot.kinds : Slot → List OperandKind
  | nothing | free => []
  | one k | optional k | second k | many k => [k]
  | pairs k l => [k, l]

namespace Opcode

lemma mem_all (op : Opcode) : op ∈ all := by
  have hall : all = (List.range 294).map Opcode.ofNat := by decide +kernel
  have hop : op.ctorIdx < 294 := by cases op <;> decide
  rw [hall, List.mem_map]
  exact ⟨op.ctorIdx, List.mem_range.mpr hop, ofNat_ctorIdx op⟩

lemma nodup_values : (all.map value).Nodup := by
  have h : (all.map fun op => op.value.toNat).IsChain (· < ·) := by decide +kernel
  have h' : (all.map fun op => op.value.toNat).Nodup :=
    (List.isChain_iff_pairwise.mp h).imp fun hab => Nat.ne_of_lt hab
  have hm : (all.map fun op => op.value.toNat) = (all.map value).map UInt16.toNat := by simp
  exact List.Nodup.of_map UInt16.toNat (hm ▸ h')

lemma ofValue?_value (op : Opcode) : ofValue? op.value = some op :=
  find?_of_nodup_map nodup_values (mem_all op)

lemma value_of_ofValue? {v : UInt16} {op : Opcode} (h : ofValue? v = some op) : op.value = v := by
  simpa using List.find?_some h

/-- The slots for the result of an instruction: its type and its id. -/
def resultSlots (op : Opcode) : List Slot :=
  (if op.hasType then [.typeId] else []) ++ (if op.hasResult then [.resultId] else [])

/-- What every row of the table of opcodes keeps to. -/
structure Regular (op : Opcode) : Prop where
  leading : (op.operands.takeWhile fun slot => slot = .typeId || slot = .resultId) = op.resultSlots
  hasResult : op.hasType = true → op.hasResult = true
  inner : ∀ s ∈ op.constantOperands, s.isInner = true
  extended : op ≠ .opExtInst → ∀ s ∈ op.operands, .extended ∉ s.kinds
  first : ∀ s ∈ op.operands.head?, .typedNumber ∉ s.kinds

instance (op : Opcode) : Decidable op.Regular :=
  decidable_of_iff (_ ∧ _ ∧ _ ∧ _ ∧ _)
    ⟨fun ⟨h₁, h₂, h₃, h₄, h₅⟩ => ⟨h₁, h₂, h₃, h₄, h₅⟩,
      fun h => ⟨h.leading, h.hasResult, h.inner, h.extended, h.first⟩⟩

-- The whole table is gone through once, and what its rows keep to is read off from there.
lemma regular (op : Opcode) : op.Regular := by
  have hall : ∀ op ∈ all, op.Regular := by decide +kernel
  exact hall op (mem_all op)

lemma operands_eq (op : Opcode) : op.operands = op.resultSlots ++ op.constantOperands := by
  rw [constantOperands, ← op.regular.leading, List.takeWhile_append_dropWhile]

lemma hasResult_of_hasType {op : Opcode} (h : op.hasType = true) : op.hasResult = true :=
  op.regular.hasResult h

lemma hasType_of_hasResult {op : Opcode} (h : op.hasResult = false) : op.hasType = false := by
  by_contra ht
  simp [hasResult_of_hasType (by simpa using ht)] at h

lemma isInner_of_mem {op : Opcode} {s : Slot} (h : s ∈ op.constantOperands) : s.isInner :=
  op.regular.inner s h

/-- Only an extended instruction is numbered by its set. -/
lemma extended_notMem {op : Opcode} (h : op ≠ .opExtInst) {s : Slot} (hs : s ∈ op.operands) :
    .extended ∉ s.kinds :=
  op.regular.extended h s hs

/-- A number that a type governs is never the first operand. -/
lemma typedNumber_notMem {op : Opcode} {s : Slot} (hs : s ∈ op.operands.head?) :
    .typedNumber ∉ s.kinds :=
  op.regular.first s hs

end Opcode

namespace Category

/-- What every row of the table of a category keeps to. -/
structure Regular (c : Category) (row : NamedValue) : Prop where
  inner : ∀ s ∈ row.operands, s.isInner = true
  extended : ∀ s ∈ row.operands, .extended ∉ s.kinds
  found : (c.ofValue? row.value).map (·.operands) = some row.operands
  bits : c.isMask → ∀ i ∈ row.value.setBits, (c.ofValue? (Word.bit i)).isSome

instance (c : Category) (row : NamedValue) : Decidable (c.Regular row) :=
  decidable_of_iff (_ ∧ _ ∧ _ ∧ _)
    ⟨fun ⟨h₁, h₂, h₃, h₄⟩ => ⟨h₁, h₂, h₃, h₄⟩, fun h => ⟨h.inner, h.extended, h.found, h.bits⟩⟩

lemma regular_of_mem {c : Category} {row : NamedValue} (hr : row ∈ c.values) : c.Regular row := by
  have hall : ∀ row ∈ c.values, c.Regular row := by cases c <;> decide +kernel
  exact hall row hr

lemma isInner_of_mem {c : Category} {row : NamedValue} (hr : row ∈ c.values) {s : Slot}
    (h : s ∈ row.operands) : s.isInner :=
  (regular_of_mem hr).inner s h

lemma mem_values_of_ofValue? {c : Category} {w : Word} {row : NamedValue}
    (h : c.ofValue? w = some row) : row ∈ c.values :=
  List.mem_of_find?_eq_some h

lemma mem_values_of_ofName? {c : Category} {name : String} {row : NamedValue}
    (h : c.ofName? name = some row) : row ∈ c.values :=
  List.mem_of_find?_eq_some h

/-- A row is found by its value, or another one that asks for the same. -/
lemma exists_ofValue?_value {c : Category} {row : NamedValue} (hr : row ∈ c.values) :
    ∃ row', c.ofValue? row.value = some row' ∧ row'.operands = row.operands :=
  Option.map_eq_some_iff.mp (regular_of_mem hr).found

/-- The bits of a mask's rows have names of their own. -/
lemma isSome_of_mem_setBits {c : Category} (hc : c.isMask) {row : NamedValue} (hr : row ∈ c.values)
    {i : ℕ} (hi : i ∈ row.value.setBits) : (c.ofValue? (Word.bit i)).isSome :=
  (regular_of_mem hr).bits hc i hi

lemma extended_notMem {c : Category} {row : NamedValue} (hr : row ∈ c.values) {s : Slot}
    (hs : s ∈ row.operands) : .extended ∉ s.kinds :=
  (regular_of_mem hr).extended s hs

end Category

namespace ExtendedSet

lemma isInner_of_mem {set : ExtendedSet} {row : NamedValue} (hr : row ∈ set.instructions)
    {s : Slot} (h : s ∈ row.operands) : s.isInner := by
  have hall : ∀ row ∈ set.instructions, ∀ s ∈ row.operands, s.isInner = true := by
    cases set <;> decide +kernel
  exact hall row hr s h

lemma mem_instructions_of_ofValue? {set : ExtendedSet} {w : Word} {row : NamedValue}
    (h : set.ofValue? w = some row) : row ∈ set.instructions :=
  List.mem_of_find?_eq_some h

lemma nodup_values (set : ExtendedSet) : (set.instructions.map (·.value)).Nodup := by
  have h : (set.instructions.map fun row => row.value.toNat).IsChain (· < ·) := by
    cases set <;> decide +kernel
  have h' := (List.isChain_iff_pairwise.mp h).imp fun hab => Nat.ne_of_lt hab
  have hm : (set.instructions.map fun row => row.value.toNat)
      = (set.instructions.map (·.value)).map UInt32.toNat := by simp
  exact List.Nodup.of_map UInt32.toNat (hm ▸ h')

lemma ofValue?_value {set : ExtendedSet} {row : NamedValue} (hr : row ∈ set.instructions) :
    set.ofValue? row.value = some row :=
  find?_of_nodup_map set.nodup_values hr

lemma mem_instructions_of_ofName? {set : ExtendedSet} {name : String} {row : NamedValue}
    (h : set.ofName? name = some row) : row ∈ set.instructions :=
  List.mem_of_find?_eq_some h

end ExtendedSet

/-- An operand of the kind may ask for the slot after it. -/
inductive OperandKind.Asks : OperandKind → Slot → Prop where
  | value {c : Category} {row : NamedValue} {s : Slot} (mem : row ∈ c.values)
    (slot : s ∈ row.operands) : Asks (.named c) s
  | extended {set : ExtendedSet} {row : NamedValue} {s : Slot} (mem : row ∈ set.instructions)
    (slot : s ∈ row.operands) : Asks .extended s
  | specOpcode {op : Opcode} {s : Slot} (slot : s ∈ op.constantOperands) : Asks .specOpcode s

namespace OperandKind

variable {k : OperandKind} {s : Slot}

/-- No operand asks for a result after it. -/
lemma Asks.isInner (h : k.Asks s) : s.isInner := by
  cases h with
  | value mem slot => exact Category.isInner_of_mem mem slot
  | extended mem slot => exact ExtendedSet.isInner_of_mem mem slot
  | specOpcode slot => exact Opcode.isInner_of_mem slot

lemma asks_of_mem_maskOperands {c : Category} {w : Word} (h : s ∈ c.maskOperands w) :
    (named c).Asks s := by
  obtain ⟨i, -, hi⟩ := List.mem_flatMap.mp h
  rcases hr : c.ofValue? (Word.bit i) with _ | row
  · simp [hr] at hi
  · exact .value (Category.mem_values_of_ofValue? hr) (by simpa [hr] using hi)

/-- An operand of the kind may ask for just these slots after it. -/
inductive Wants : OperandKind → List Slot → Prop where
  | none (k : OperandKind) : Wants k []
  | value {c : Category} {row : NamedValue} (mem : row ∈ c.values) : Wants (named c) row.operands
  | mask (c : Category) (w : Word) : Wants (named c) (c.maskOperands w)
  | extended {set : ExtendedSet} {row : NamedValue} (mem : row ∈ set.instructions) :
    Wants extended row.operands
  | specOpcode (op : Opcode) : Wants specOpcode op.constantOperands

lemma Wants.asks {needs : List Slot} (h : k.Wants needs) (hs : s ∈ needs) : k.Asks s := by
  cases h with
  | none => simp at hs
  | value mem => exact .value mem hs
  | mask => exact asks_of_mem_maskOperands hs
  | extended mem => exact .extended mem hs
  | specOpcode => exact .specOpcode hs

end OperandKind

end Spirv
