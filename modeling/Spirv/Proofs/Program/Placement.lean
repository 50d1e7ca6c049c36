import Mathlib
import Spirv.Proofs.Program.Reading
import Spirv.Proofs.Program.Regions

/-!
A program places every instruction where looking back over the opcodes finds it.

The builder keeps the open function and the open block by their indices. `Builder.Scanned` says what
these and the indices already recorded stand for; adding an instruction preserves it, so it holds of
every program that is read. The lists that functions and blocks keep follow from it.
-/

namespace Spirv.Program

def opening? (p : Program) (k : ℕ) : Option ℕ := p.functions[k]?.map (·.opening)

def label? (p : Program) (m : ℕ) : Option ℕ := p.blocks[m]?.map (·.label)

def owner? (p : Program) (m : ℕ) : Option ℕ := p.blocks[m]?.map (·.function)

namespace Builder

/-! ### What adding an instruction does -/

/-- The function that an instruction is added to. -/
def functionAt (b : Builder) (i : Instruction) : Option ℕ :=
  if i.opcode = .opFunction then some b.program.functions.size else b.function?

/-- The block that an instruction is added to. -/
def blockAt (b : Builder) (i : Instruction) : Option ℕ :=
  if i.opcode = .opFunction then none
  else if i.opcode = .opLabel ∧ b.function?.isSome then some b.program.blocks.size
  else b.block?

variable (b : Builder) (i : Instruction)

lemma add_instructions : (b.add i).program.instructions
    = b.program.instructions.push ⟨i, b.functionAt i, b.blockAt i⟩ := by
  obtain ⟨p, _ | f, m⟩ := b <;> by_cases hf : i.opcode = .opFunction <;>
    by_cases hl : i.opcode = .opLabel <;> by_cases he : i.opcode = .opFunctionEnd <;>
    simp_all [add, openFunction, openBlock, record, close, functionAt, blockAt]

lemma add_function? :
    (b.add i).function? = if i.opcode = .opFunctionEnd then none else b.functionAt i := by
  obtain ⟨p, _ | f, m⟩ := b <;> by_cases hf : i.opcode = .opFunction <;>
    by_cases hl : i.opcode = .opLabel <;> by_cases he : i.opcode = .opFunctionEnd <;>
    simp_all [add, openFunction, openBlock, record, close, functionAt]

lemma add_block? : (b.add i).block?
    = if i.opcode.isTerminator ∨ i.opcode = .opFunctionEnd then none else b.blockAt i := by
  obtain ⟨p, _ | f, m⟩ := b <;> by_cases hf : i.opcode = .opFunction <;>
    by_cases hl : i.opcode = .opLabel <;> by_cases he : i.opcode = .opFunctionEnd <;>
    simp_all [add, openFunction, openBlock, record, close, blockAt]

lemma getElem?_modify_eq_map {α : Type} (xs : Array α) (k m : ℕ) (g : α → α) :
    (xs.modify k g)[m]? = xs[m]?.map fun x => if k = m then g x else x := by
  rw [Array.getElem?_modify]
  split <;> simp

lemma add_functions_getElem? (k : ℕ) : (b.add i).program.functions[k]? =
    if i.opcode = .opFunction ∧ k = b.program.functions.size then
      some ⟨b.program.instructions.size, none, #[]⟩
    else b.program.functions[k]?.map fun f =>
      ⟨f.opening,
        if i.opcode = .opFunctionEnd ∧ b.function? = some k then some b.program.instructions.size
        else f.closing?,
        if i.opcode = .opLabel ∧ b.function? = some k then f.blocks.push b.program.blocks.size
        else f.blocks⟩ := by
  obtain ⟨p, _ | f, m⟩ := b <;> by_cases hf : i.opcode = .opFunction <;>
    by_cases hl : i.opcode = .opLabel <;> by_cases he : i.opcode = .opFunctionEnd <;>
    simp_all [add, openFunction, openBlock, record, close, Array.getElem?_push,
      getElem?_modify_eq_map]
  all_goals
    congr 1
    funext g
    split <;> rfl

lemma add_blocks_getElem? (m : ℕ) : (b.add i).program.blocks[m]? =
    (if i.opcode = .opLabel ∧ b.function?.isSome ∧ m = b.program.blocks.size then
      b.function?.map fun k => ⟨b.program.instructions.size, k, #[]⟩
    else b.program.blocks[m]?).map fun k =>
      ⟨k.label, k.function,
        if b.blockAt i = some m then k.instructions.push b.program.instructions.size
        else k.instructions⟩ := by
  obtain ⟨p, _ | f, _ | n⟩ := b <;> by_cases hf : i.opcode = .opFunction <;>
    by_cases hl : i.opcode = .opLabel <;> by_cases he : i.opcode = .opFunctionEnd <;>
    simp_all [add, openFunction, openBlock, record, close, blockAt, Array.getElem?_push,
      getElem?_modify_eq_map]
  all_goals
    congr 1
    funext x
    split <;> rfl

lemma add_opcodes : (b.add i).program.opcodes = b.program.opcodes ++ [i.opcode] := by
  simp [opcodes, add_instructions]

lemma add_opening? (k : ℕ) : (b.add i).program.opening? k =
    if i.opcode = .opFunction ∧ k = b.program.functions.size then
      some b.program.instructions.size
    else b.program.opening? k := by
  rw [opening?, add_functions_getElem?]
  split
  · rfl
  · simp only [opening?, Option.map_map]
    rfl

lemma add_label? (m : ℕ) : (b.add i).program.label? m =
    if i.opcode = .opLabel ∧ b.function?.isSome ∧ m = b.program.blocks.size then
      some b.program.instructions.size
    else b.program.label? m := by
  rw [label?, add_blocks_getElem?, Option.map_map]
  by_cases h : i.opcode = .opLabel ∧ b.function?.isSome ∧ m = b.program.blocks.size
  · obtain ⟨k, hk⟩ := Option.isSome_iff_exists.mp h.2.1
    simp [h, hk]
  · simp only [if_neg h, label?]
    rfl

lemma add_owner? (m : ℕ) : (b.add i).program.owner? m =
    if i.opcode = .opLabel ∧ b.function?.isSome ∧ m = b.program.blocks.size then b.function?
    else b.program.owner? m := by
  rw [owner?, add_blocks_getElem?, Option.map_map]
  by_cases h : i.opcode = .opLabel ∧ b.function?.isSome ∧ m = b.program.blocks.size
  · obtain ⟨k, hk⟩ := Option.isSome_iff_exists.mp h.2.1
    simp [h, hk]
  · simp only [if_neg h, owner?]
    rfl

end Builder

@[simp] lemma length_opcodes (p : Program) : p.opcodes.length = p.instructions.size := by
  simp [opcodes]

lemma ne_size_of_opening? {p : Program} {k : ℕ} (h : (p.opening? k).isSome) :
    k ≠ p.functions.size := by
  rintro rfl
  simp [opening?] at h

lemma ne_size_of_label? {p : Program} {m : ℕ} (h : (p.label? m).isSome) : m ≠ p.blocks.size := by
  rintro rfl
  simp [label?] at h

/-- An index of a function or block, or none, stands for what opens at `j` exactly if the instruction
that bears it belongs there. -/
structure Marks (start? : ℕ → Option ℕ) (mark? : Option ℕ) (belongs : ℕ → Prop) : Prop where
  valid : ∀ k, mark? = some k → (start? k).isSome
  iff : ∀ j, mark?.bind start? = some j ↔ belongs j

namespace Marks

variable {start? start'? : ℕ → Option ℕ} {mark? : Option ℕ} {belongs belongs' : ℕ → Prop} {j k : ℕ}

lemma of_none (h : ∀ j, ¬ belongs j) : Marks start? none belongs :=
  ⟨nofun, fun j => ⟨nofun, fun hj => absurd hj (h j)⟩⟩

lemma of_some (hk : start? k = some j) (h : ∀ l, belongs l ↔ l = j) :
    Marks start? (some k) belongs where
  valid l hl := by
    obtain rfl := Option.some.inj hl
    simp [hk]
  iff l := by rw [Option.bind_some, hk, h, Option.some.injEq, eq_comm]

lemma mono (h : Marks start? mark? belongs)
    (hstart : ∀ k, (start? k).isSome → start'? k = start? k) (hb : ∀ j, belongs' j ↔ belongs j) :
    Marks start'? mark? belongs' := by
  have hsame : ∀ k, mark? = some k → start'? k = start? k := fun k hk => hstart k (h.valid k hk)
  refine ⟨fun k hk => hsame k hk ▸ h.valid k hk, fun j => ?_⟩
  rw [hb, ← h.iff]
  rcases mark? with _ | k
  · rfl
  · rw [Option.bind_some, Option.bind_some, hsame k rfl]

lemma isSome_iff (h : Marks start? mark? belongs) : mark?.isSome ↔ ∃ j, belongs j := by
  constructor
  · intro hs
    obtain ⟨k, rfl⟩ := Option.isSome_iff_exists.mp hs
    obtain ⟨j, hj⟩ := Option.isSome_iff_exists.mp (h.valid k rfl)
    exact ⟨j, (h.iff j).mp hj⟩
  · rintro ⟨j, hj⟩
    obtain ⟨k, rfl, -⟩ := Option.bind_eq_some_iff.mp ((h.iff j).mpr hj)
    rfl

end Marks

/-- The list of a block holds the indices that record it, one after the other from its label. -/
structure Block.Collects (p : Program) (m : ℕ) (b : Block) : Prop where
  contiguous : b.instructions.toList = List.range' b.label b.instructions.size
  exact : ∀ i, i ∈ b.instructions ↔ ∃ x, p.instructions[i]? = some x ∧ x.block? = some m

namespace Builder

/-- What a builder has placed so far, and what its open function and block stand for. -/
structure Scanned (b : Builder) : Prop where
  function : Marks b.program.opening? b.function?
    (InFunction b.program.opcodes · b.program.instructions.size)
  block : Marks b.program.label? b.block?
    (InBlock b.program.opcodes · b.program.instructions.size)
  placed : ∀ i x, b.program.instructions[i]? = some x →
    Marks b.program.opening? x.function? (InFunction b.program.opcodes · i) ∧
      Marks b.program.label? x.block? (InBlock b.program.opcodes · i)
  opened : ∀ k j, b.program.opening? k = some j → b.program.opcodes[j]? = some .opFunction
  distinct : ∀ k k' j, b.program.opening? k = some j → b.program.opening? k' = some j → k = k'
  closed : ∀ (k : ℕ) (f : Function), b.program.functions[k]? = some f →
    ∀ e, f.closing? = some e ↔ EndsAt b.program.opcodes f.opening e
  owned : ∀ m k, b.program.owner? m = some k → k < b.program.functions.size
  named : ∀ (k : ℕ) (f : Function), b.program.functions[k]? = some f →
    f.blocks.toList.Pairwise (· < ·) ∧ ∀ m, m ∈ f.blocks ↔ b.program.owner? m = some k
  labelled : ∀ m j, b.program.label? m = some j →
    ∃ x, b.program.instructions[j]? = some x ∧ x.block? = some m
  collected : ∀ (m : ℕ) (c : Block), b.program.blocks[m]? = some c → c.Collects b.program m
  unfinished : ∀ (m : ℕ) (c : Block), b.block? = some m → b.program.blocks[m]? = some c →
    c.label + c.instructions.size = b.program.instructions.size

namespace Scanned

variable {b : Builder} (i : Instruction)

lemma opening?_of_isSome {k : ℕ} (h : (b.program.opening? k).isSome) :
    (b.add i).program.opening? k = b.program.opening? k := by
  rw [add_opening?, if_neg fun hk => ne_size_of_opening? h hk.2]

lemma label?_of_isSome {m : ℕ} (h : (b.program.label? m).isSome) :
    (b.add i).program.label? m = b.program.label? m := by
  rw [add_label?, if_neg fun hm => ne_size_of_label? h hm.2.2]

lemma functionAt (h : b.Scanned) : Marks (b.add i).program.opening? (b.functionAt i)
    (InFunction (b.add i).program.opcodes · b.program.instructions.size) := by
  simp only [add_opcodes, ← length_opcodes, inFunction_snoc]
  by_cases hf : i.opcode = .opFunction
  · rw [Builder.functionAt, if_pos hf]
    exact .of_some (by rw [add_opening?, if_pos ⟨hf, rfl⟩]) fun j => by simp [hf]
  · rw [Builder.functionAt, if_neg hf]
    exact h.function.mono (fun k => opening?_of_isSome i) fun j => by simp [hf]

lemma add_function (h : b.Scanned) : Marks (b.add i).program.opening? (b.add i).function?
    (InFunction (b.add i).program.opcodes · (b.add i).program.instructions.size) := by
  have hsucc : ∀ j, InFunction (b.add i).program.opcodes j (b.add i).program.instructions.size ↔
      i.opcode ≠ .opFunctionEnd ∧
        InFunction (b.add i).program.opcodes j b.program.instructions.size := fun j => by
    rw [add_instructions, Array.size_push, add_opcodes, ← length_opcodes, inFunction_snoc_succ]
  rw [add_function?]
  split
  next he => exact .of_none fun j hj => ((hsucc j).mp hj).1 he
  next he => exact (h.functionAt i).mono (fun _ _ => rfl) fun j => by simp [hsucc, he]

lemma blockAt (h : b.Scanned) : Marks (b.add i).program.label? (b.blockAt i)
    (InBlock (b.add i).program.opcodes · b.program.instructions.size) := by
  have hopen := h.function.isSome_iff
  simp only [← length_opcodes] at hopen
  simp only [add_opcodes, ← length_opcodes, inBlock_snoc, ← hopen]
  by_cases hf : i.opcode = .opFunction
  · rw [Builder.blockAt, if_pos hf]
    exact .of_none (by simp [hf])
  rw [Builder.blockAt, if_neg hf]
  by_cases hl : i.opcode = .opLabel ∧ b.function?.isSome
  · rw [if_pos hl]
    exact .of_some (by rw [add_label?, if_pos ⟨hl.1, hl.2, rfl⟩]) fun j => by simp [hl]
  · rw [if_neg hl]
    exact h.block.mono (fun k => label?_of_isSome i) fun j => by simp [hf, hl]

lemma add_block (h : b.Scanned) : Marks (b.add i).program.label? (b.add i).block?
    (InBlock (b.add i).program.opcodes · (b.add i).program.instructions.size) := by
  have hsucc : ∀ j, InBlock (b.add i).program.opcodes j (b.add i).program.instructions.size ↔
      ¬ (i.opcode.isTerminator ∨ i.opcode = .opFunctionEnd) ∧
        InBlock (b.add i).program.opcodes j b.program.instructions.size := fun j => by
    rw [add_instructions, Array.size_push, add_opcodes, ← length_opcodes, inBlock_snoc_succ]
  rw [add_block?]
  split
  next he => exact .of_none fun j hj => ((hsucc j).mp hj).1 he
  next he => exact (h.blockAt i).mono (fun _ _ => rfl) fun j => by rw [hsucc, and_iff_right he]

lemma add_placed (h : b.Scanned) (n : ℕ) (x : Placed)
    (hx : (b.add i).program.instructions[n]? = some x) :
    Marks (b.add i).program.opening? x.function? (InFunction (b.add i).program.opcodes · n) ∧
      Marks (b.add i).program.label? x.block? (InBlock (b.add i).program.opcodes · n) := by
  rw [add_instructions, Array.getElem?_push] at hx
  split at hx
  next hn =>
    obtain rfl := Option.some.inj hx
    exact hn ▸ ⟨h.functionAt i, h.blockAt i⟩
  next hn =>
    have hlt : n < b.program.opcodes.length := by
      rw [length_opcodes]
      exact (Array.getElem?_eq_some_iff.mp hx).1
    rw [add_opcodes]
    exact ⟨(h.placed n x hx).1.mono (fun k => opening?_of_isSome i) fun j => inFunction_append hlt,
      (h.placed n x hx).2.mono (fun k => label?_of_isSome i) fun j => inBlock_append hlt⟩

lemma add_opened (h : b.Scanned) (k j : ℕ) (hk : (b.add i).program.opening? k = some j) :
    (b.add i).program.opcodes[j]? = some .opFunction := by
  rw [add_opening?] at hk
  rw [add_opcodes]
  split at hk
  next hf =>
    obtain rfl := Option.some.inj hk
    simp [← length_opcodes, hf.1]
  next =>
    have hj := h.opened k j hk
    rwa [List.getElem?_append_left (List.getElem?_eq_some_iff.mp hj).1]

lemma lt_of_opening? (h : b.Scanned) {k j : ℕ} (hk : b.program.opening? k = some j) :
    j < b.program.instructions.size := by
  simpa using (List.getElem?_eq_some_iff.mp (h.opened k j hk)).1

lemma add_distinct (h : b.Scanned) (k k' j : ℕ) (hk : (b.add i).program.opening? k = some j)
    (hk' : (b.add i).program.opening? k' = some j) : k = k' := by
  rw [add_opening?] at hk hk'
  split at hk <;> split at hk'
  next hn hn' => rw [hn.2, hn'.2]
  next =>
    obtain rfl := Option.some.inj hk
    exact absurd (h.lt_of_opening? hk') (lt_irrefl _)
  next =>
    obtain rfl := Option.some.inj hk'
    exact absurd (h.lt_of_opening? hk) (lt_irrefl _)
  next => exact h.distinct k k' j hk hk'

/-- The open function is the one whose instruction the next one would belong to. -/
lemma function?_eq_some_iff (h : b.Scanned) {k : ℕ} {f : Function}
    (hf : b.program.functions[k]? = some f) : b.function? = some k ↔
      InFunction b.program.opcodes f.opening b.program.instructions.size := by
  have hk : b.program.opening? k = some f.opening := by rw [opening?, hf, Option.map_some]
  rw [← h.function.iff, Option.bind_eq_some_iff]
  constructor
  · exact fun hb => ⟨k, hb, hk⟩
  · rintro ⟨k', hb, hk'⟩
    rw [hb, h.distinct k k' _ hk hk']

lemma add_closed (h : b.Scanned) (k : ℕ) (f : Function)
    (hf : (b.add i).program.functions[k]? = some f) (e : ℕ) :
    f.closing? = some e ↔ EndsAt (b.add i).program.opcodes f.opening e := by
  rw [add_functions_getElem?] at hf
  split at hf
  next =>
    obtain rfl := Option.some.inj hf
    refine ⟨nofun, fun he => ?_⟩
    have hlt : b.program.instructions.size < e := he.lt
    have hle := (List.getElem?_eq_some_iff.mp he.closing).1
    simp only [add_opcodes, List.length_append, length_opcodes, List.length_singleton] at hle
    omega
  next =>
    obtain ⟨g, hg, rfl⟩ := Option.map_eq_some_iff.mp hf
    have hopen := h.opened k g.opening (by rw [opening?, hg, Option.map_some])
    rw [add_opcodes, endsAt_snoc hopen, length_opcodes, ← h.function?_eq_some_iff hg,
      ← h.closed k g hg]
    split
    next hend =>
      have hnot : g.closing? ≠ some e := fun he =>
        InFunction.not_endsAt (length_opcodes _ ▸ (h.function?_eq_some_iff hg).mp hend.2)
          ((h.closed k g hg e).mp he)
      simp [hend, hnot, eq_comm]
    next hend =>
      rw [not_and] at hend
      exact ⟨.inl, fun hor => hor.elim id fun hc => absurd hc.2.2 (hend hc.1)⟩

lemma function?_lt (h : b.Scanned) {k : ℕ} (hk : b.function? = some k) :
    k < b.program.functions.size := by
  have hs := h.function.valid k hk
  simpa [opening?] using hs

lemma size_functions_le : b.program.functions.size ≤ (b.add i).program.functions.size := by
  by_contra hlt
  rw [not_le] at hlt
  have hnone : (b.add i).program.functions[(b.add i).program.functions.size]? = none :=
    Array.getElem?_eq_none le_rfl
  rw [add_functions_getElem?, if_neg fun h => hlt.ne h.2, Option.map_eq_none_iff,
    Array.getElem?_eq_none_iff] at hnone
  omega

lemma add_owned (h : b.Scanned) (m k : ℕ) (hm : (b.add i).program.owner? m = some k) :
    k < (b.add i).program.functions.size := by
  refine lt_of_lt_of_le ?_ (size_functions_le i)
  rw [add_owner?] at hm
  split at hm
  next => exact h.function?_lt hm
  next => exact h.owned m k hm

lemma lt_of_owner? {m k : ℕ} (hm : b.program.owner? m = some k) : m < b.program.blocks.size := by
  obtain ⟨c, hc, -⟩ := Option.map_eq_some_iff.mp hm
  exact (Array.getElem?_eq_some_iff.mp hc).1

lemma add_named (h : b.Scanned) (k : ℕ) (f : Function)
    (hf : (b.add i).program.functions[k]? = some f) : f.blocks.toList.Pairwise (· < ·) ∧
      ∀ m, m ∈ f.blocks ↔ (b.add i).program.owner? m = some k := by
  rw [add_functions_getElem?] at hf
  split at hf
  next hnew =>
    -- no block names a function before it is opened
    obtain rfl := Option.some.inj hf
    refine ⟨.nil, fun m => ⟨nofun, fun hm => ?_⟩⟩
    rw [add_owner?, if_neg (by simp [hnew.1])] at hm
    exact absurd (h.owned m k hm) (by simp [hnew.2])
  next =>
    obtain ⟨g, hg, rfl⟩ := Option.map_eq_some_iff.mp hf
    obtain ⟨hsorted, hmem⟩ := h.named k g hg
    have hsize : b.program.owner? b.program.blocks.size = none := by simp [owner?]
    simp only [add_owner?]
    by_cases hl : i.opcode = .opLabel ∧ b.function? = some k
    · refine ⟨?_, fun m => ?_⟩
      · rw [if_pos hl, Array.toList_push, List.pairwise_append]
        refine ⟨hsorted, List.pairwise_singleton _ _, fun m hm n hn => ?_⟩
        obtain rfl := List.mem_singleton.mp hn
        exact lt_of_owner? ((hmem m).mp (by simpa using hm))
      · rw [if_pos hl, Array.mem_push, hmem]
        by_cases hm : m = b.program.blocks.size <;> simp [hm, hl]
    · rw [if_neg hl]
      refine ⟨hsorted, fun m => ?_⟩
      rw [hmem]
      split
      next hm =>
        rw [hm.2.2, hsize]
        exact ⟨nofun, fun hk => absurd ⟨hm.1, hk⟩ hl⟩
      next => rfl

lemma add_labelled (h : b.Scanned) (m j : ℕ) (hm : (b.add i).program.label? m = some j) :
    ∃ x, (b.add i).program.instructions[j]? = some x ∧ x.block? = some m := by
  rw [add_label?] at hm
  rw [add_instructions]
  split at hm
  next hnew =>
    obtain rfl := Option.some.inj hm
    refine ⟨_, Array.getElem?_push_size, ?_⟩
    simp [Builder.blockAt, hnew]
  next =>
    obtain ⟨x, hx, hb⟩ := h.labelled m j hm
    have hj := (Array.getElem?_eq_some_iff.mp hx).1
    exact ⟨x, by rw [Array.getElem?_push, if_neg hj.ne, hx], hb⟩

/-- The block that an instruction is added to, before it is, and what it holds. -/
lemma exists_before (h : b.Scanned) {m : ℕ} {c : Block}
    (hc : (b.add i).program.blocks[m]? = some c) : ∃ instructions : Array ℕ,
      Block.Collects b.program m ⟨c.label, c.function, instructions⟩ ∧
      (b.blockAt i = some m → c.label + instructions.size = b.program.instructions.size) ∧
      c.instructions = if b.blockAt i = some m then
        instructions.push b.program.instructions.size else instructions := by
  rw [add_blocks_getElem?] at hc
  obtain ⟨d, hd, rfl⟩ := Option.map_eq_some_iff.mp hc
  refine ⟨d.instructions, ?_⟩
  split at hd
  next hnew =>
    -- the block that starts here holds nothing, and nothing recorded names it
    obtain ⟨k, -, rfl⟩ := Option.map_eq_some_iff.mp hd
    refine ⟨⟨rfl, fun n => ⟨nofun, ?_⟩⟩, fun _ => rfl, rfl⟩
    rintro ⟨x, hx, hm⟩
    exact absurd hnew.2.2 (ne_size_of_label? ((h.placed n x hx).2.valid m hm))
  next hold =>
    refine ⟨h.collected m d hd, fun hat => h.unfinished m d ?_ hd, rfl⟩
    have hm := (Array.getElem?_eq_some_iff.mp hd).1
    rw [Builder.blockAt] at hat
    split at hat
    next => exact absurd hat nofun
    next =>
      split at hat
      next hl => exact absurd (Option.some.inj hat) (by omega)
      next => exact hat

lemma add_collected (h : b.Scanned) (m : ℕ) (c : Block)
    (hc : (b.add i).program.blocks[m]? = some c) : c.Collects (b.add i).program m := by
  obtain ⟨instructions, ⟨hcont, hexact⟩, hend, hc⟩ := h.exists_before i hc
  simp only at hcont hexact
  constructor
  · rw [hc]
    split
    next hat =>
      rw [Array.toList_push, Array.size_push, hcont, List.range'_concat, ← hend hat]
      simp
    next => exact hcont
  · intro n
    have hrecord : (∃ x, (b.add i).program.instructions[n]? = some x ∧ x.block? = some m) ↔
        n = b.program.instructions.size ∧ b.blockAt i = some m ∨ n ∈ instructions := by
      rw [hexact, add_instructions, Array.getElem?_push]
      split
      next hn => simp [hn]
      next hn => simp [hn]
    rw [hrecord, hc]
    split
    next hat => simp [hat, or_comm]
    next hat => simp [hat]

lemma add_unfinished (h : b.Scanned) (m : ℕ) (c : Block) (hm : (b.add i).block? = some m)
    (hc : (b.add i).program.blocks[m]? = some c) :
    c.label + c.instructions.size = (b.add i).program.instructions.size := by
  obtain ⟨instructions, -, hend, hc⟩ := h.exists_before i hc
  have hat : b.blockAt i = some m := by
    rw [add_block?] at hm
    split at hm
    next => exact absurd hm nofun
    next => exact hm
  rw [hc, if_pos hat, add_instructions, Array.size_push, Array.size_push, ← hend hat,
    Nat.add_assoc]

/-- Adding an instruction places it where looking back finds it. -/
lemma add (h : b.Scanned) : (b.add i).Scanned :=
  ⟨h.add_function i, h.add_block i, h.add_placed i, h.add_opened i, h.add_distinct i,
    h.add_closed i, h.add_owned i, h.add_named i, h.add_labelled i, h.add_collected i, h.add_unfinished i⟩

lemma start (h : Header) : (Builder.empty.setHeader h).Scanned where
  function := .of_none fun j hj => by
    have := hj.opening
    simp [Builder.empty, setHeader, opcodes] at this
  block := .of_none fun j hj => by
    have := hj.opening.1
    simp [Builder.empty, setHeader, opcodes] at this
  placed := by simp [Builder.empty, setHeader]
  opened := by simp [Builder.empty, setHeader, opening?]
  distinct := by simp [Builder.empty, setHeader, opening?]
  closed := by simp [Builder.empty, setHeader]
  owned := by simp [Builder.empty, setHeader, owner?]
  named := by simp [Builder.empty, setHeader]
  labelled := by simp [Builder.empty, setHeader, label?]
  collected := by simp [Builder.empty, setHeader]
  unfinished := by simp [Builder.empty, setHeader]

lemma foldl (h : b.Scanned) (is : List Instruction) : (is.foldl Builder.add b).Scanned := by
  induction is generalizing b with
  | nil => exact h
  | cons i is ih => exact ih (h.add i)

end Scanned

end Builder

/-! ### The lists of a program -/

/-- The instructions of a block: one after the other from its label, exactly those that record the
block, with no other label and with no terminator before the last. -/
structure Block.Lists (p : Program) (m : ℕ) (b : Block) : Prop extends Block.Collects p m b where
  nonempty : 0 < b.instructions.size
  starts : p.opcodes[b.label]? = some .opLabel
  label : ∀ i ∈ b.instructions, p.opcodes[i]? = some .opLabel → i = b.label
  terminator : ∀ i ∈ b.instructions, ∀ op, p.opcodes[i]? = some op → op.isTerminator →
    b.instructions.back? = some i

/-- The program is what looking back over its opcodes finds. -/
structure BackScanned (p : Program) : Prop where
  function : ∀ i < p.instructions.size, ∀ j,
    (∃ f, p.functionOf? i = some f ∧ f.opening = j) ↔ InFunction p.opcodes j i
  block : ∀ i < p.instructions.size, ∀ j,
    (∃ b, p.blockOf? i = some b ∧ b.label = j) ↔ InBlock p.opcodes j i
  instructions : ∀ (m : ℕ) (b : Block), p.blocks[m]? = some b → b.Lists p m
  blocks : ∀ (k : ℕ) (f : Function), p.functions[k]? = some f →
    f.blocks.toList.Pairwise (· < ·) ∧
      ∀ m, m ∈ f.blocks ↔ ∃ b, p.blocks[m]? = some b ∧ b.function = k
  closing : ∀ (k : ℕ) (f : Function), p.functions[k]? = some f →
    ∀ e, f.closing? = some e ↔ EndsAt p.opcodes f.opening e

namespace Builder.Scanned

variable {b : Builder} {m : ℕ} {c : Block} {i : ℕ}

lemma inFunction_iff (h : b.Scanned) {i j : ℕ} (hi : i < b.program.instructions.size) :
    (∃ f, b.program.functionOf? i = some f ∧ f.opening = j) ↔
      InFunction b.program.opcodes j i := by
  have hx := Array.getElem?_eq_getElem hi
  rw [← (h.placed i _ hx).1.iff]
  simp only [functionOf?, opening?, hx, bind, Option.bind_some, Option.bind_eq_some_iff,
    Option.map_eq_some_iff]
  exact ⟨fun ⟨f, ⟨k, hk, hf⟩, hj⟩ => ⟨k, hk, f, hf, hj⟩,
    fun ⟨k, hk, f, hf, hj⟩ => ⟨f, ⟨k, hk, hf⟩, hj⟩⟩

lemma inBlock_iff (h : b.Scanned) {i j : ℕ} (hi : i < b.program.instructions.size) :
    (∃ c, b.program.blockOf? i = some c ∧ c.label = j) ↔ InBlock b.program.opcodes j i := by
  have hx := Array.getElem?_eq_getElem hi
  rw [← (h.placed i _ hx).2.iff]
  simp only [blockOf?, label?, hx, bind, Option.bind_some, Option.bind_eq_some_iff,
    Option.map_eq_some_iff]
  exact ⟨fun ⟨c, ⟨m, hm, hc⟩, hj⟩ => ⟨m, hm, c, hc, hj⟩,
    fun ⟨m, hm, c, hc, hj⟩ => ⟨c, ⟨m, hm, hc⟩, hj⟩⟩

lemma inBlock_of_mem (h : b.Scanned) (hc : b.program.blocks[m]? = some c)
    (hi : i ∈ c.instructions) : InBlock b.program.opcodes c.label i := by
  obtain ⟨x, hx, hm⟩ := ((h.collected m c hc).exact i).mp hi
  rw [← (h.placed i x hx).2.iff, hm, Option.bind_some, label?, hc, Option.map_some]

lemma label_mem (h : b.Scanned) (hc : b.program.blocks[m]? = some c) :
    c.label ∈ c.instructions := by
  rw [(h.collected m c hc).exact]
  exact h.labelled m c.label (by rw [label?, hc, Option.map_some])

lemma lists (h : b.Scanned) (hc : b.program.blocks[m]? = some c) : c.Lists b.program m := by
  have hcollects := h.collected m c hc
  have hpos : 0 < c.instructions.size := Array.size_pos_of_mem (h.label_mem hc)
  have hlast : c.instructions.back? = some (c.label + (c.instructions.size - 1)) := by
    rw [← Array.getLast?_toList, hcollects.contiguous]
    simp only [List.getLast?_range', hpos.ne', if_false, Option.some.injEq]
    omega
  refine ⟨hcollects, hpos, (h.inBlock_of_mem hc (h.label_mem hc)).opening.1,
    fun i hi hl => (h.inBlock_of_mem hc hi).eq_of_label hl, fun i hi op hop hterm => ?_⟩
  have hi' : c.label ≤ i ∧ i < c.label + c.instructions.size := by
    rw [← Array.mem_toList_iff, hcollects.contiguous] at hi
    simpa using hi
  rw [hlast, Option.some.injEq]
  by_contra hne
  exact (h.inBlock_of_mem hc (Array.mem_of_back? hlast)).unended i hi'.1 (by omega)
    ⟨op, hop, .inl hterm⟩

lemma backScanned (h : b.Scanned) : b.program.BackScanned where
  function i hi j := h.inFunction_iff hi
  block i hi j := h.inBlock_iff hi
  instructions m c hc := h.lists hc
  blocks k f hf := by simpa [owner?] using h.named k f hf
  closing := h.closed

end Builder.Scanned

/-- **A program holds the instructions of its module and places each where looking back over the
opcodes finds it**; the lists of its functions and blocks hold what is placed there. -/
theorem backScanned_of_ofWords {words : List Word} {p : Program} (h : ofWords words = .ok p) :
    codeOf (p.instructions.toList.map Placed.instruction) = body words ∧ p.BackScanned := by
  obtain ⟨header, is, hread, -, rfl⟩ := ofWords_eq_ok_iff.mp h
  rw [built_instructions, ← Binary.readHeader_body hread]
  exact ⟨rfl, ((Builder.Scanned.start header).foldl is).backScanned⟩

/-- What follows the label of a function belongs to the block that the label starts. -/
theorem backScanned_sample : ∃ p, ofWords Sample.words = .ok p ∧ p.BackScanned ∧
    ∃ b, p.blockOf? 5 = some b ∧ b.label = 4 := by
  obtain ⟨-, hp⟩ := backScanned_of_ofWords Sample.ofWords_words
  have hops : (built (.ofBound 6 0) Sample.instructions).opcodes = [.opTypeVoid, .opTypeFunction,
      .opTypeFunction, .opFunction, .opLabel, .opReturn, .opFunctionEnd] := by
    have hmap := congrArg (List.map Instruction.opcode)
      (built_instructions (.ofBound 6 0) Sample.instructions)
    rwa [List.map_map] at hmap
  refine ⟨_, Sample.ofWords_words, hp, (hp.block 5 ?_ 4).mpr ?_⟩
  · rw [size_built_instructions]
    decide
  rw [hops]
  have hfunction : InFunction [.opTypeVoid, .opTypeFunction, .opTypeFunction, .opFunction, .opLabel,
      .opReturn, .opFunctionEnd] 3 4 :=
    ⟨by decide, by decide, fun m h h' => by interval_cases m; decide,
      fun m h h' => by interval_cases m; decide⟩
  refine ⟨by decide, ⟨rfl, 3, hfunction⟩, fun m h h' => ?_, fun m h h' => ?_⟩
  · interval_cases m
    rintro (⟨hl, -⟩ | hf)
    · exact absurd hl (by decide)
    · exact absurd hf (by decide)
  · interval_cases m
    rintro ⟨op, hop, hend⟩
    obtain rfl : Opcode.opLabel = op := by simpa using hop
    exact absurd hend (by decide)

end Spirv.Program
