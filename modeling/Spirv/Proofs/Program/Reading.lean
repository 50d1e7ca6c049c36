import Mathlib
import Spirv.Proofs.Decoding.Module
import Spirv.Program

/-!
What reading a module makes of its words: a program of the decoded instructions in order, in which an
id is defined by the instruction whose result it is.
-/

namespace Spirv.Program

namespace Builder

lemma add_map_instruction (b : Builder) (i : Instruction) :
    (b.add i).program.instructions.toList.map (·.instruction)
      = b.program.instructions.toList.map (·.instruction) ++ [i] := by
  obtain ⟨p, _ | f, m⟩ := b <;> by_cases hf : i.opcode = .opFunction <;>
    by_cases hl : i.opcode = .opLabel <;> by_cases he : i.opcode = .opFunctionEnd <;>
    simp_all [add, openFunction, openBlock, record, close]

lemma add_definitions (b : Builder) (i : Instruction) : (b.add i).program.definitions
    = if i.hasResult then b.program.definitions.insert i.resultId b.program.instructions.size
      else b.program.definitions := by
  obtain ⟨p, _ | f, m⟩ := b <;> by_cases hf : i.opcode = .opFunction <;>
    by_cases hl : i.opcode = .opLabel <;> by_cases he : i.opcode = .opFunctionEnd <;>
    simp_all [add, openFunction, openBlock, record, close]

end Builder

/-- The program of a header and instructions. -/
def built (h : Header) (is : List Instruction) : Program :=
  (is.foldl Builder.add (Builder.empty.setHeader h)).program

variable {h : Header} {is : List Instruction}

lemma built_instructions (h : Header) (is : List Instruction) :
    (built h is).instructions.toList.map (·.instruction) = is := by
  induction is using List.reverseRecOn with
  | nil => rfl
  | append_singleton is i ih =>
    rw [built, List.foldl_append, List.foldl_cons, List.foldl_nil, Builder.add_map_instruction]
    exact congrArg (· ++ [i]) ih

lemma size_built_instructions (h : Header) (is : List Instruction) :
    (built h is).instructions.size = is.length := by
  conv_rhs => rw [← built_instructions h is]
  simp

lemma exists_getElem?_snoc {is : List Instruction} {i : Instruction} {n : ℕ} {id : Word} :
    (∃ x, (is ++ [i])[n]? = some x ∧ x.resultId = id) ↔
      (∃ x, is[n]? = some x ∧ x.resultId = id) ∨ n = is.length ∧ i.resultId = id := by
  rcases lt_trichotomy n is.length with hn | rfl | hn
  · simp [List.getElem?_append_left hn, hn.ne]
  · simp
  · simp [List.getElem?_append_right hn.le, hn.ne', hn.le,
      List.getElem?_eq_none (show [i].length ≤ n - is.length by simp; omega)]

/-- An id is defined where the only instruction with that result stands. -/
lemma built_definitions (his : Decodable is) (id : Word) (n : ℕ) :
    (built h is).definitions[id]? = some n ↔
      id ≠ 0 ∧ ∃ x, is[n]? = some x ∧ x.resultId = id := by
  induction is using List.reverseRecOn with
  | nil => simp [built, Builder.empty, Builder.setHeader]
  | append_singleton is i ih =>
    obtain ⟨hdec, ps, hi⟩ := Decodable.snoc_iff.mp his
    have hsize := size_built_instructions h is
    rw [built] at ih hsize ⊢
    rw [List.foldl_append, List.foldl_cons, List.foldl_nil, Builder.add_definitions, hsize,
      exists_getElem?_snoc]
    by_cases hr : i.hasResult
    · have hne : i.resultId ≠ 0 := by simpa [Instruction.hasResult] using hr
      have hnew := (hi.resultId_ne (by simpa [hi.resultId_eq_zero_iff] using hne)).2
      rw [if_pos hr, Std.HashMap.getElem?_insert]
      by_cases hid : i.resultId = id
      · subst hid
        have hno : ¬ ∃ x, is[n]? = some x ∧ x.resultId = i.resultId := fun hex =>
          hex.elim fun x hx => hnew x (List.mem_of_getElem? hx.1) hx.2
        simp only [BEq.rfl, if_true, Option.some.injEq, hno, false_or, and_true]
        exact ⟨fun hn => ⟨hne, hn.symm⟩, fun hn => hn.2.symm⟩
      · simp [hid, ih hdec]
    · have hzero : i.resultId = 0 := by simpa [Instruction.hasResult] using hr
      rw [if_neg hr, ih hdec, hzero]
      refine and_congr_right fun hid => ?_
      rw [or_iff_left fun hn => hid hn.2.symm]

lemma built_definition? (his : Decodable is) (id : Word) (x : Instruction) :
    (built h is).definition? id = some x ↔ id ≠ 0 ∧ x ∈ is ∧ x.resultId = id := by
  have hget : ∀ n : ℕ, (built h is).instructions[n]?.map Placed.instruction = is[n]? := fun n => by
    conv_rhs => rw [← built_instructions h is]
    simp
  have hdef : (built h is).definition? id = some x ↔
      ∃ n, (built h is).definitions[id]? = some n ∧ is[n]? = some x := by
    simp only [definition?, definitionIndex?, ← hget, bind, Option.bind_eq_some_iff,
      Option.map_eq_some_iff, pure, Option.some.injEq]
  simp only [hdef, built_definitions his]
  constructor
  · rintro ⟨n, ⟨hne, y, hy, rfl⟩, hx⟩
    obtain rfl := Option.some.inj (hy.symm.trans hx)
    exact ⟨hne, List.mem_of_getElem? hx, rfl⟩
  · rintro ⟨hne, hx, rfl⟩
    obtain ⟨n, hn⟩ := List.mem_iff_getElem?.mp hx
    exact ⟨n, ⟨hne, x, hn, rfl⟩, hn⟩

/-- **A program is read exactly if the body of the module is the words of decodable instructions, and
it is then built from these.** -/
theorem ofWords_eq_ok_iff {words : List Word} {p : Program} : ofWords words = .ok p ↔
    ∃ h is, Binary.readHeader words = .ok (h, codeOf is) ∧ Decodable is ∧ p = built h is := by
  have hmap : ofWords words = .ok p ↔ ∃ b,
      Binary.fold Builder.setHeader Builder.add Builder.empty words = .ok b ∧ p = b.program := by
    rw [ofWords]
    rcases Binary.fold Builder.setHeader Builder.add Builder.empty words with e | b
    · simp [Except.map]
    · simp [Except.map, eq_comm]
  rw [hmap]
  constructor
  · rintro ⟨b, hb, rfl⟩
    obtain ⟨h, is, hread, his, rfl⟩ := (Binary.fold_eq_ok_iff ..).mp hb
    exact ⟨h, is, hread, his, rfl⟩
  · rintro ⟨h, is, hread, his, rfl⟩
    exact ⟨_, (Binary.fold_eq_ok_iff ..).mpr ⟨h, is, hread, his, rfl⟩, rfl⟩

/-! ### Two function types and a function -/

namespace Sample

/-- An instruction of its operands, extended instructions aside. -/
def plain (op : Opcode) (ps : List Piece) : Instruction :=
  ⟨op, none, Context.typeId ⟨[], op, Piece.wordsOf ps⟩, Context.resultId ⟨[], op, Piece.wordsOf ps⟩,
    (Word.joinLead ((Piece.wordsOf ps).length + 1).toUInt16 op.value :: Piece.wordsOf ps).toArray,
    (Piece.records 1 ps).toArray⟩

lemma decodes_plain {earlier : List Instruction} {op : Opcode} {ps : List Piece}
    (hop : op ≠ .opExtInst) (hlen : (Piece.wordsOf ps).length + 1 < 2 ^ 16)
    (h : Filling ⟨earlier, op, []⟩ op.operands ps) : Decodes earlier (plain op ps) ps where
  filling := h
  words := by
    refine ⟨Word.joinLead ((Piece.wordsOf ps).length + 1).toUInt16 op.value, by simp [plain], ?_⟩
    simpa [Word.splitLead_joinLead, plain] using hlen
  operands := rfl
  typeId := rfl
  resultId := rfl
  set set := ⟨nofun, fun hs => absurd hs.1 hop⟩

def void : Instruction := plain .opTypeVoid [⟨.resultId, [1], none⟩]

def action : Instruction := plain .opTypeFunction [⟨.resultId, [2], none⟩, ⟨.id, [1], none⟩]

def sameAction : Instruction := plain .opTypeFunction [⟨.resultId, [3], none⟩, ⟨.id, [1], none⟩]

def opens : Instruction := plain .opFunction [⟨.typeId, [1], none⟩, ⟨.resultId, [4], none⟩,
  ⟨.named .functionControl, [0], none⟩, ⟨.id, [2], none⟩]

def label : Instruction := plain .opLabel [⟨.resultId, [5], none⟩]

def returns : Instruction := plain .opReturn []

def ends : Instruction := plain .opFunctionEnd []

def instructions : List Instruction :=
  [void, action, sameAction, opens, label, returns, ends]

def words : List Word := (Header.ofBound 6 0).words ++ codeOf instructions

lemma decodable_instructions : Decodable instructions := by
  have hvoid : Decodable ([] ++ [void]) := .snoc .nil <| decodes_plain nofun (by decide) <|
    .next rfl rfl (.resultId (by decide) (by simp)) (.done (by decide))
  have haction : Decodable ([void] ++ [action]) :=
    .snoc hvoid <| decodes_plain nofun (by decide) <|
      .next rfl rfl (.resultId (by decide) (by decide)) <|
      .next rfl rfl (.id (by decide) (fun hs => absurd hs.1 (by decide))) (.done (by decide))
  have hsame : Decodable ([void, action] ++ [sameAction]) :=
    .snoc haction <| decodes_plain nofun (by decide) <|
      .next rfl rfl (.resultId (by decide) (by decide)) <|
      .next rfl rfl (.id (by decide) (fun hs => absurd hs.1 (by decide))) (.done (by decide))
  have hopens : Decodable ([void, action, sameAction] ++ [opens]) :=
    .snoc hsame <| decodes_plain nofun (by decide) <| .next rfl rfl (.typeId (by decide)) <|
      .next rfl rfl (.resultId (by decide) (by decide)) <|
      .next rfl rfl (.mask rfl (by decide)) <|
      .next rfl rfl (.id (by decide) (fun hs => absurd hs.1 (by decide))) (.done (by decide))
  have hlabel : Decodable ([void, action, sameAction, opens] ++ [label]) :=
    .snoc hopens <| decodes_plain nofun (by decide) <|
      .next rfl rfl (.resultId (by decide) (by decide)) (.done (by decide))
  have hreturns : Decodable ([void, action, sameAction, opens, label] ++ [returns]) :=
    .snoc hlabel <| decodes_plain nofun (by decide) (.done (by decide))
  exact .snoc hreturns (decodes_plain nofun (by decide) (.done (by decide)))

lemma ofWords_words : ofWords words = .ok (built (.ofBound 6 0) instructions) :=
  ofWords_eq_ok_iff.mpr ⟨_, _, rfl, decodable_instructions, rfl⟩

end Sample

end Spirv.Program
