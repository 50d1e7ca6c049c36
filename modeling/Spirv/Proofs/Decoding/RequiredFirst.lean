import Mathlib
import Spirv.Proofs.Decoding.Stages

/-!
Required slots come first.

Whether an instruction lacks an operand is told from the slot in front of what is left of its pattern.
That is enough since no slot that must be filled ever stands behind one that may stay empty: not in a
table, not where a repeating slot is unrolled, and not where an operand puts slots in front.
-/

namespace Spirv

namespace Slot

lemma isOptional_of_isVariable {s : Slot} (h : s.isVariable) : s.isOptional := by
  cases s <;> simp_all [isVariable, isOptional]

end Slot

namespace Pattern

/-- No slot that must be filled stands behind one that may stay empty or repeats. -/
def RequiredFirst (p : Pattern) : Prop :=
  p.Pairwise fun s t => s.isOptional || s.isVariable → t.isOptional

variable {p rest : Pattern} {slot : Slot}

lemma RequiredFirst.cons (hp : RequiredFirst p)
    (h : slot.isOptional → ∀ s ∈ p, s.isOptional) : RequiredFirst (slot :: p) := by
  refine List.pairwise_cons.mpr ⟨fun s hs ho => ?_, hp⟩
  rw [Bool.or_eq_true] at ho
  exact h (ho.elim id Slot.isOptional_of_isVariable) s hs

/-- The slot in front tells whether one must be filled. -/
lemma RequiredFirst.all_isOptional (hp : RequiredFirst p) (h : ∀ s ∈ p.head?, s.isOptional) :
    ∀ s ∈ p, s.isOptional := by
  rcases p with _ | ⟨s, p⟩
  · simp
  · have hs : s.isOptional := h s rfl
    exact List.forall_mem_cons.mpr ⟨hs, fun t ht => (List.pairwise_cons.mp hp).1 t ht (by simp [hs])⟩

lemma requiredFirst_of_isClear (h : isClear p) : RequiredFirst p := by
  induction p with
  | nil => exact .nil
  | cons s p ih =>
    refine (ih (isClear_tail h)).cons fun hs t ht => ?_
    exact Pattern.all_isOptional h (by simpa using hs) t (.tail _ ht)

lemma isClear_optional {k : OperandKind} (hk : k.isPlain) (hall : ∀ s ∈ p, s.isOptional)
    (hp : isClear p) : isClear (.optional k :: p) ∧ isClear (.second k :: p) := by
  have hne : k ≠ .extended ∧ k ≠ .specOpcode := by cases k <;> simp_all [OperandKind.isPlain]
  constructor <;> simp only [isClear, Bool.and_eq_true, List.all_eq_true, decide_eq_true_eq] <;>
    exact ⟨⟨hne, hall⟩, hp⟩

/-- A clear pattern is clear with a repetition unrolled. -/
lemma isClear_of_take? (h : isClear p) (ht : p.take? = some (slot, rest)) :
    isClear (slot :: rest) := by
  rcases p with _ | ⟨s, p⟩
  · simp [take?] at ht
  have hall := Pattern.all_isOptional h
  cases s with
  | many k =>
    obtain ⟨rfl, rfl⟩ := by simpa [take?] using ht
    have hplain : k.isPlain := by
      simp only [isClear, Bool.and_eq_true] at h
      exact h.1
    exact (isClear_optional hplain (hall (by simp [Slot.isOptional])) h).1
  | pairs k l =>
    obtain ⟨rfl, rfl⟩ := by simpa [take?] using ht
    obtain ⟨⟨hk, hl⟩, rfl⟩ : (k.isPlain ∧ l.isPlain) ∧ p = [] := by simpa [isClear] using h
    have hsecond := (isClear_optional hl (hall (by simp [Slot.isOptional])) h).2
    exact (isClear_optional hk (by simp [Slot.isOptional]) hsecond).1
  | _ =>
    obtain ⟨rfl, rfl⟩ := by simpa [take?] using ht
    exact h

/-- The slot in front of a pattern tells whether one must be filled, and a repetition that is unrolled
hides none that must. -/
structure Orderly (p : Pattern) : Prop where
  required : p.RequiredFirst
  taken : ∀ slot rest, p.take? = some (slot, rest) → RequiredFirst (slot :: rest)
  front : (∀ s ∈ p.head?, s.isOptional) → ∀ s ∈ p, s.isOptional

lemma orderly_of_isClear (h : isClear p) : p.Orderly where
  required := requiredFirst_of_isClear h
  taken _ _ ht := requiredFirst_of_isClear (isClear_of_take? h ht)
  front := Pattern.all_isOptional h

end Pattern

namespace Binary

variable {words : List Word} {g : Stage} {d : Defined} {draft : Draft} {slot : Slot} {offset : ℕ}
  {w : Word} {after : List Word} {r : Reading}

/-- What an operand asks for is what operands of its kind may ask for. -/
lemma wants_of_readKind {k : OperandKind} (h : readKind d draft slot offset w after k = .ok r) :
    k.Wants r.needs := by
  cases k with
  | extended =>
    simp only [readKind, ExtendedSet.instructionOfWord] at h
    rcases hset : draft.extendedSet? with _ | set
    · simp [hset] at h
    rcases hrow : set.ofValue? w with _ | row
    · simp [hset, hrow] at h
    · obtain rfl := by simpa [hset, hrow] using h
      exact .extended (ExtendedSet.mem_instructions_of_ofValue? hrow)
  | specOpcode =>
    simp only [readKind, readSpecOpcode] at h
    split at h
    next op _ =>
      rw [← Except.ok.inj h]
      exact .specOpcode op
    next => simp at h
  | named c =>
    simp only [readKind, readNamed] at h
    split at h
    next hm =>
      split at h
      next hneeds =>
        obtain ⟨-, rfl⟩ := (Category.checkMask_eq_ok_iff hm).mp hneeds
        rw [← Except.ok.inj h]
        exact .mask c w
      next => simp at h
    next =>
      split at h
      next row hrow =>
        rw [← Except.ok.inj h]
        exact .value (Category.mem_values_of_ofValue? hrow)
      next => simp at h
  | typeId | resultId | id | scopeId | memorySemanticsId | integer | typedNumber | string =>
    -- none of these asks for anything
    simp only [readKind, readId, readTyped, readString] at h
    repeat' split at h
    all_goals first
      | exact Except.ok.inj h ▸ .none _
      | simp at h

/-- **Every pattern that the parser comes to is clear.** -/
theorem Passes.isClear (h : Passes words g) : g.pattern.isClear := by
  induction h with
  | first => exact Opcode.isClear_operands _
  | next _ takes ih =>
    cases takes with
    | @mk slot rest _ _ _ more take input read =>
      have hslot := Pattern.isClear_of_take? ih take
      cases slot with
      | one k | optional k | second k =>
        exact (wants_of_readKind read).isClear_append rfl hslot
      | nothing | many | pairs | free => simp [readOperand, Pattern.isClear] at read hslot

/-- The words of an instruction that is shown form a sentence for the operands of its opcode. -/
theorem sentence_of_shown {σ β : Type} (v : Visitor σ β) (s : σ) {earlier later : List Instruction}
    {i : Instruction} (h : shown v s words = earlier ++ i :: later) :
    Sentence ⟨earlier, i.opcode, []⟩ i.opcode.operands i.words.toList.tail := by
  obtain ⟨hd, -⟩ := decodable_shown v s words
  rw [h] at hd
  obtain ⟨⟨ps, hi⟩, -⟩ := Decodable.append_cons_iff.mp hd
  obtain ⟨lead, hwords, -⟩ := hi.words
  rw [hwords, List.tail_cons]
  exact hi.filling.sentence (Opcode.isClear_operands _)

end Binary

end Spirv
