import Mathlib
import Spirv.Program

/-!
Functions and blocks, found by looking back over the opcodes of a module.

Where an instruction belongs is said here of the opcodes up to it, without a builder: to the function
opened last, if none has ended since, and to the block whose label is the last in that function, if
no block has ended since. Both are regions: what opens one, what cuts one off before it and what ends
one after it. Opcodes that are appended change nothing before them, and two lemmas say where the
instruction to come belongs and what stays open after it.
-/

namespace Spirv.Program

/-! ### Regions of indices -/

/-- The region that `j` opens reaches `i`: nothing cuts it off on the way and nothing before `i` ends
it. -/
structure Region (opens cuts ends : ℕ → Prop) (j i : ℕ) : Prop where
  le : j ≤ i
  opening : opens j
  uncut : ∀ m, j < m → m ≤ i → ¬ cuts m
  unended : ∀ m, j ≤ m → m < i → ¬ ends m

namespace Region

variable {opens cuts ends opens' cuts' ends' : ℕ → Prop} {i j m n : ℕ}

lemma mono (h : Region opens cuts ends j i) (hj : j ≤ m) (hm : m ≤ i) :
    Region opens cuts ends j m :=
  ⟨hj, h.opening, fun l hl hlm => h.uncut l hl (hlm.trans hm),
    fun l hl hlm => h.unended l hl (hlm.trans_le hm)⟩

/-- A region depends on nothing past its end. -/
lemma of_agree (hopens : ∀ m ≤ i, opens m ↔ opens' m) (hcuts : ∀ m ≤ i, cuts m ↔ cuts' m)
    (hends : ∀ m < i, ends m ↔ ends' m) (h : Region opens cuts ends j i) :
    Region opens' cuts' ends' j i :=
  ⟨h.le, (hopens j h.le).mp h.opening, fun m hj hm hc => h.uncut m hj hm ((hcuts m hm).mpr hc),
    fun m hj hm he => h.unended m hj hm ((hends m hm).mpr he)⟩

/-- The regions that reach `n` once it is known what stands there: the one that opens there, or one
that is not cut off. -/
lemma reaches_iff (hopens : ∀ m < n, opens m ↔ opens' m) (hcuts : ∀ m < n, cuts m ↔ cuts' m)
    (hends : ∀ m < n, ends m ↔ ends' m) (hcut : opens' n → cuts' n) (ho : ¬ opens n)
    (hc : ¬ cuts n) : Region opens' cuts' ends' j n ↔
      opens' n ∧ j = n ∨ ¬ cuts' n ∧ Region opens cuts ends j n := by
  constructor
  · intro h
    rcases h.le.lt_or_eq with hlt | rfl
    · refine .inr ⟨h.uncut n hlt le_rfl, h.le, (hopens j hlt).mpr h.opening, fun m hj hm hm' => ?_,
        fun m hj hm he => h.unended m hj hm ((hends m hm).mp he)⟩
      rcases hm.lt_or_eq with hmn | rfl
      · exact h.uncut m hj hm ((hcuts m hmn).mp hm')
      · exact hc hm'
    · exact .inl ⟨h.opening, rfl⟩
  · rintro (⟨hn, rfl⟩ | ⟨hn, h⟩)
    · exact ⟨le_rfl, hn, fun m hj hm => by omega, fun m hj hm => by omega⟩
    · have hlt : j < n := lt_of_le_of_ne h.le (by rintro rfl; exact ho h.opening)
      refine ⟨h.le, (hopens j hlt).mp h.opening, fun m hj hm hm' => ?_,
        fun m hj hm he => h.unended m hj hm ((hends m hm).mpr he)⟩
      rcases hm.lt_or_eq with hmn | rfl
      · exact h.uncut m hj hm ((hcuts m hmn).mpr hm')
      · exact hn hm'

/-- A region goes on past `n` unless it ends there. -/
lemma succ_iff (ho : ¬ opens (n + 1)) (hc : ¬ cuts (n + 1)) :
    Region opens cuts ends j (n + 1) ↔ ¬ ends n ∧ Region opens cuts ends j n := by
  constructor
  · intro h
    have hj : j ≤ n := Nat.lt_succ_iff.mp (lt_of_le_of_ne h.le (by rintro rfl; exact ho h.opening))
    exact ⟨h.unended n hj (by omega), h.mono hj (by omega)⟩
  · rintro ⟨hn, h⟩
    have hj := h.le
    refine ⟨by omega, h.opening, fun m hjm hm hm' => ?_, fun m hjm hm hm' => ?_⟩
    · rcases hm.lt_or_eq with hmn | rfl
      · exact h.uncut m hjm (by omega) hm'
      · exact hc hm'
    · rcases (Nat.lt_succ_iff.mp hm).lt_or_eq with hmn | rfl
      · exact h.unended m hjm hmn hm'
      · exact hn hm'

end Region

/-! ### Functions and blocks of opcodes -/

/-- The opcodes of the instructions in order. -/
def opcodes (p : Program) : List Opcode := p.instructions.toList.map (·.instruction.opcode)

/-- The instruction at `i` belongs to the function opened at `j`: `j` is the greatest index up to `i`
that opens a function, and no function ends from `j` to before `i`. -/
def InFunction (ops : List Opcode) : ℕ → ℕ → Prop :=
  Region (ops[·]? = some .opFunction) (ops[·]? = some .opFunction) (ops[·]? = some .opFunctionEnd)

/-- A block starts at `j`: there is a label that belongs to a function. -/
def StartsBlock (ops : List Opcode) (j : ℕ) : Prop :=
  ops[j]? = some .opLabel ∧ ∃ f, InFunction ops f j

/-- A terminator or the end of a function stands at `m`. -/
def EndsBlock (ops : List Opcode) (m : ℕ) : Prop :=
  ∃ op, ops[m]? = some op ∧ (op.isTerminator ∨ op = .opFunctionEnd)

/-- The instruction at `i` belongs to the block with its label at `j`: `j` is the greatest index up to
`i` that starts a block, no function opens after it up to `i`, and no block or function ends from `j`
to before `i`. -/
def InBlock (ops : List Opcode) : ℕ → ℕ → Prop :=
  Region (StartsBlock ops) (fun m => StartsBlock ops m ∨ ops[m]? = some .opFunction) (EndsBlock ops)

/-- The function opened at `j` ends at `e`: no function ends or opens between them. -/
structure EndsAt (ops : List Opcode) (j e : ℕ) : Prop where
  lt : j < e
  closing : ops[e]? = some .opFunctionEnd
  first : ∀ m, j < m → m < e → ops[m]? ≠ some .opFunctionEnd ∧ ops[m]? ≠ some .opFunction

variable {ops more : List Opcode} {op : Opcode} {i j m e : ℕ}

/-- Where an instruction belongs does not depend on the opcodes after it. -/
lemma inFunction_append (hi : i < ops.length) :
    InFunction (ops ++ more) j i ↔ InFunction ops j i := by
  have hget : ∀ m ≤ i, ∀ op, ops[m]? = some op ↔ (ops ++ more)[m]? = some op := fun m hm op => by
    rw [List.getElem?_append_left (hm.trans_lt hi)]
  exact ⟨.of_agree (fun m hm => (hget m hm _).symm) (fun m hm => (hget m hm _).symm)
      fun m hm => (hget m hm.le _).symm,
    .of_agree (hget · · _) (hget · · _) fun m hm => hget m hm.le _⟩

/-- The function of the instruction to come is the one that it opens or else the one that is open. -/
lemma inFunction_snoc : InFunction (ops ++ [op]) j ops.length ↔
    op = .opFunction ∧ j = ops.length ∨ op ≠ .opFunction ∧ InFunction ops j ops.length := by
  have hget : ∀ m < ops.length, ∀ op', ops[m]? = some op' ↔ (ops ++ [op])[m]? = some op' :=
    fun m hm op' => by rw [List.getElem?_append_left hm]
  have hreach : InFunction (ops ++ [op]) j ops.length ↔
      (ops ++ [op])[ops.length]? = some .opFunction ∧ j = ops.length ∨
        ¬ (ops ++ [op])[ops.length]? = some .opFunction ∧ InFunction ops j ops.length :=
    Region.reaches_iff (hget · · _) (hget · · _) (hget · · _) id (by simp) (by simp)
  simpa using hreach

/-- The function stays open unless the instruction ends it. -/
lemma inFunction_snoc_succ : InFunction (ops ++ [op]) j (ops.length + 1) ↔
    op ≠ .opFunctionEnd ∧ InFunction (ops ++ [op]) j ops.length := by
  rw [InFunction, Region.succ_iff (by simp) (by simp)]
  simp

lemma startsBlock_append (hi : i < ops.length) :
    StartsBlock (ops ++ more) i ↔ StartsBlock ops i := by
  simp only [StartsBlock, inFunction_append hi, List.getElem?_append_left hi]

lemma not_startsBlock_of_length_le (hi : ops.length ≤ i) : ¬ StartsBlock ops i := by
  simp [StartsBlock, hi]

lemma startsBlock_snoc : StartsBlock (ops ++ [op]) ops.length ↔
    op = .opLabel ∧ ∃ f, InFunction ops f ops.length := by
  simp only [StartsBlock, List.getElem?_concat_length, Option.some.injEq, inFunction_snoc]
  refine and_congr_right ?_
  rintro rfl
  simp

lemma endsBlock_append (hi : i < ops.length) : EndsBlock (ops ++ more) i ↔ EndsBlock ops i := by
  simp only [EndsBlock, List.getElem?_append_left hi]

lemma inBlock_append (hi : i < ops.length) : InBlock (ops ++ more) j i ↔ InBlock ops j i := by
  have hstart : ∀ m ≤ i, StartsBlock (ops ++ more) m ↔ StartsBlock ops m := fun m hm =>
    startsBlock_append (hm.trans_lt hi)
  have hcut : ∀ m ≤ i, StartsBlock (ops ++ more) m ∨ (ops ++ more)[m]? = some .opFunction ↔
      StartsBlock ops m ∨ ops[m]? = some .opFunction := fun m hm => by
    rw [hstart m hm, List.getElem?_append_left (hm.trans_lt hi)]
  have hend : ∀ m < i, EndsBlock (ops ++ more) m ↔ EndsBlock ops m := fun m hm =>
    endsBlock_append (hm.trans hi)
  exact ⟨.of_agree hstart hcut hend, .of_agree (fun m hm => (hstart m hm).symm)
    (fun m hm => (hcut m hm).symm) fun m hm => (hend m hm).symm⟩

/-- The block of the instruction to come is the one that it starts or else the one that is open,
unless it opens a function. -/
lemma inBlock_snoc : InBlock (ops ++ [op]) j ops.length ↔
    (op = .opLabel ∧ ∃ f, InFunction ops f ops.length) ∧ j = ops.length ∨
      (op ≠ .opFunction ∧ ¬ (op = .opLabel ∧ ∃ f, InFunction ops f ops.length)) ∧
        InBlock ops j ops.length := by
  have hreach : InBlock (ops ++ [op]) j ops.length ↔
      StartsBlock (ops ++ [op]) ops.length ∧ j = ops.length ∨
        ¬ (StartsBlock (ops ++ [op]) ops.length ∨ (ops ++ [op])[ops.length]? = some .opFunction) ∧
          InBlock ops j ops.length :=
    Region.reaches_iff (fun m hm => (startsBlock_append hm).symm)
      (fun m hm => by rw [startsBlock_append hm, List.getElem?_append_left hm])
      (fun m hm => (endsBlock_append hm).symm) .inl (not_startsBlock_of_length_le le_rfl)
      (by simp [not_startsBlock_of_length_le])
  rw [hreach, startsBlock_snoc]
  simp [not_or, and_comm]

/-- The block stays open unless the instruction ends it. -/
lemma inBlock_snoc_succ : InBlock (ops ++ [op]) j (ops.length + 1) ↔
    ¬ (op.isTerminator ∨ op = .opFunctionEnd) ∧ InBlock (ops ++ [op]) j ops.length := by
  rw [InBlock, Region.succ_iff (not_startsBlock_of_length_le (by simp))
    (by simp [not_startsBlock_of_length_le])]
  simp [EndsBlock]

/-- The instructions of a block belong to one function. -/
lemma InBlock.inFunction (h : InBlock ops j i) :
    ∃ f, InFunction ops f j ∧ InFunction ops f i := by
  obtain ⟨-, f, hf⟩ := h.opening
  refine ⟨f, hf, hf.le.trans h.le, hf.opening, fun m hfm hm hop => ?_, fun m hfm hm hop => ?_⟩
  · rcases le_or_gt m j with hmj | hmj
    · exact hf.uncut m hfm hmj hop
    · exact h.uncut m hmj hm (.inr hop)
  · rcases lt_or_ge m j with hmj | hmj
    · exact hf.unended m hfm hmj hop
    · exact h.unended m hmj hm ⟨_, hop, .inr rfl⟩

/-- A block has no label but its own. -/
lemma InBlock.eq_of_label (h : InBlock ops j i) (hl : ops[i]? = some .opLabel) : i = j := by
  obtain ⟨f, -, hf⟩ := h.inFunction
  by_contra hne
  exact h.uncut i (lt_of_le_of_ne h.le (Ne.symm hne)) le_rfl (.inl ⟨hl, f, hf⟩)

/-- A function that is open has not ended. -/
lemma InFunction.not_endsAt (h : InFunction ops j ops.length) : ¬ EndsAt ops j e := fun he =>
  h.unended e he.lt.le (List.getElem?_eq_some_iff.mp he.closing).1 he.closing

/-- A function that has not ended ends with the instruction to come if that is the end of one. -/
lemma endsAt_snoc (hj : ops[j]? = some .opFunction) : EndsAt (ops ++ [op]) j e ↔
    EndsAt ops j e ∨ op = .opFunctionEnd ∧ e = ops.length ∧ InFunction ops j ops.length := by
  have hjlt : j < ops.length := (List.getElem?_eq_some_iff.mp hj).1
  constructor
  · rintro ⟨hlt, hclose, hfirst⟩
    have he : e ≤ ops.length := by
      have := (List.getElem?_eq_some_iff.mp hclose).1
      simp only [List.length_append, List.length_singleton] at this
      omega
    have hbetween : ∀ m, j < m → m < e → ops[m]? ≠ some .opFunctionEnd ∧
        ops[m]? ≠ some .opFunction := fun m hjm hm => by
      simpa only [List.getElem?_append_left (hm.trans_le he)] using hfirst m hjm hm
    rcases he.lt_or_eq with he | rfl
    · exact .inl ⟨hlt, by rwa [List.getElem?_append_left he] at hclose, hbetween⟩
    · refine .inr ⟨by simpa using hclose, rfl, hjlt.le, hj, fun m hjm hm => ?_, fun m hjm hm => ?_⟩
      · rcases hm.lt_or_eq with hm | rfl
        · exact (hbetween m hjm hm).2
        · simp
      · rcases hjm.lt_or_eq with hjm | rfl
        · exact (hbetween m hjm hm).1
        · simp [hj]
  · rintro (⟨hlt, hclose, hfirst⟩ | ⟨rfl, rfl, hin⟩)
    · have he : e < ops.length := (List.getElem?_eq_some_iff.mp hclose).1
      refine ⟨hlt, by rwa [List.getElem?_append_left he], fun m hjm hm => ?_⟩
      rw [List.getElem?_append_left (hm.trans he)]
      exact hfirst m hjm hm
    · refine ⟨hjlt, by simp, fun m hjm hm => ?_⟩
      rw [List.getElem?_append_left hm]
      exact ⟨hin.unended m hjm.le hm, hin.uncut m hjm hm.le⟩

end Spirv.Program
