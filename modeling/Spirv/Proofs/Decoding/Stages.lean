import Mathlib
import Spirv.Proofs.Decoding.Handover

/-!
The stages of reading, and that nothing outside the module is looked at in any of them.

A stage is what the reader of operands is called with. The stages that a module leads to start where
one of its instructions does and go on from operand to operand. At each of them the words to come are
those of the module from one index on, and what is counted is small; so is every width that a number
is read with, whatever widths the module declares.
-/

namespace Spirv

namespace Binary

/-- A call of the reader of operands. -/
structure Stage where
  count : ℕ
  defined : Defined
  draft : Draft
  records : Array OperandRecord
  pattern : Pattern
  offset : ℕ
  input : List Word

namespace Stage

/-- Where the operands of an instruction start. -/
def first (d : Defined) (op : Opcode) (start : ℕ) (lead : Word) (after : List Word) : Stage :=
  ⟨(Word.splitLead lead).1.toNat, d, ⟨op, start, lead :: after, 0, 0, none⟩, #[], op.operands, 1,
    after⟩

/-- The stage behind an operand that was read as `r`. -/
def past (g : Stage) (r : Reading) (rest : Pattern) (after : List Word) : Stage :=
  ⟨g.count, (r.meaning.apply g.defined g.draft).1, (r.meaning.apply g.defined g.draft).2,
    g.records.push ⟨g.offset, r.moreWords + 1, r.slot, r.number?⟩, r.needs ++ rest,
    g.offset + (r.moreWords + 1), after.drop r.moreWords⟩

/-- What reading comes to from the stage on. -/
def outcome (g : Stage) : Except Error Operands :=
  readOperands g.count g.defined g.draft g.records g.pattern g.offset g.input

/-- The index in the module of the word to come. -/
def index (g : Stage) : ℕ := g.draft.start + g.offset

/-- An operand is read that starts with the word, and leads to the other stage. -/
inductive Takes : Stage → Word → Reading → Stage → Prop where
  | mk {g : Stage} {slot : Slot} {rest : Pattern} {w : Word} {after : List Word} {r : Reading}
    (more : g.offset < g.count) (take : g.pattern.take? = some (slot, rest))
    (input : g.input = w :: after)
    (read : readOperand g.defined g.draft slot g.offset w after = .ok r) :
    Takes g w r (g.past r rest after)

/-- One operand leads from the stage to the other. -/
def Leads (g g' : Stage) : Prop := ∃ w r, g.Takes w r g'

variable {g g' : Stage} {w : Word} {r : Reading} {o : Operands}

/-- Reading an operand does not change what reading comes to. -/
lemma Takes.outcome_eq (h : g.Takes w r g') : g'.outcome = g.outcome := by
  cases h with
  | mk more take input read =>
    rw [outcome, outcome, input]
    conv_rhs => rw [readOperands]
    simp only [if_neg (Nat.not_le.mpr more), take, read, past]

/-- Operands that are read are read one after the other, until none is required and the words of the
instruction are used up. -/
lemma exists_last (h : g.outcome = .ok o) : ∃ last,
    Relation.ReflTransGen Leads g last ∧
      (∀ s ∈ last.pattern.head?, s.isOptional) ∧ last.offset = g.count ∧
      o = ⟨last.defined, last.draft, last.records⟩ := by
  obtain ⟨count, d, draft, records, p, offset, input⟩ := g
  rw [outcome] at h
  dsimp only at h
  fun_induction readOperands count d draft records p offset input with
  | case1 d draft records p offset input hcount =>
    obtain ⟨hp, rfl, rfl⟩ := finishOperands_eq_ok_iff.mp h
    exact ⟨_, .refl, hp, rfl, rfl⟩
  | case5 d draft records p offset hcount slot rest ht w after r hread d' draft' happly ih =>
    obtain ⟨last, hlast, hend⟩ := ih h
    refine ⟨last, .head ⟨w, r, ?_⟩ hlast, hend⟩
    have htakes := Takes.mk (g := ⟨count, d, draft, records, p, offset, w :: after⟩)
      (Nat.not_le.mp hcount) ht rfl hread
    simpa [past, happly] using htakes
  | _ => simp at h

end Stage

/-- The stages that reading a module passes through. -/
inductive Passes (words : List Word) : Stage → Prop where
  | first {d : Defined} {start : ℕ} {earlier : List Instruction} {lead : Word} {after : List Word}
    {op : Opcode} (boundary : Boundary words d start earlier (lead :: after))
    (count : (Word.splitLead lead).1.toNat ≠ 0)
    (opcode : Opcode.ofValue? (Word.splitLead lead).2 = some op) :
    Passes words (.first d op start lead after)
  | next {g g' : Stage} {w : Word} {r : Reading} (passes : Passes words g)
    (takes : g.Takes w r g') : Passes words g'

/-! ### What is in range -/

/-- The operand lies within so many words of its instruction, and is as long as a number of its type
is wide. -/
structure Within (size : ℕ) (r : OperandRecord) : Prop where
  offset : 1 ≤ r.offset
  nonempty : 1 ≤ r.wordCount
  stop : r.offset + r.wordCount ≤ size
  number : ∀ t, r.number? = some t →
    (1 ≤ t.width ∧ t.width ≤ 64) ∧ r.wordCount = (t.width + 31) / 32

/-- The instruction is a slice of the module, and its operands are slices of the instruction. -/
structure SliceAt (words : List Word) (start : ℕ) (i : Instruction) : Prop where
  stop : start + i.words.size ≤ words.length
  words : i.words.toList = ((hostOrder words).drop start).take i.words.size
  size : 1 ≤ i.words.size ∧ i.words.size < 2 ^ 16
  operands : ∀ r ∈ i.operands, Within i.words.size r

namespace Stage

/-- The stage lies in the module, behind the first word of its instruction and the operands that have
been recorded. -/
structure Placed (words : List Word) (g : Stage) : Prop where
  offset : 1 ≤ g.offset
  inside : g.index ≤ words.length
  count : 1 ≤ g.count ∧ g.count < 2 ^ 16
  input : g.input = (hostOrder words).drop g.index
  instruction : g.draft.words = (hostOrder words).drop g.draft.start
  recorded : ∀ r ∈ g.records, Within g.offset r

/-- What is looked at from the stage on is there, and what is counted is small: an offset, the words
of a number and the bits they are found from, the bits of a mask, and an index in any memory that
holds the module. -/
structure InRange (words : List Word) (g : Stage) : Prop where
  word : ∀ w after, g.input = w :: after → (hostOrder words)[g.index]? = some w
  offset : g.offset < g.count → g.offset < 2 ^ 16
  selector : g.draft.opcode = .opSwitch → g.input ≠ [] → ∃ id,
    (hostOrder words)[g.draft.start + 1]? = some id ∧
      g.defined.governing g.draft = g.defined.selectorType id
  width : ∀ t, g.defined.governing g.draft = .ok t →
    1 ≤ t.width ∧ t.width + 31 < 2 ^ 32 ∧ 1 ≤ t.wordCount ∧ t.wordCount ≤ 2
  bits : ∀ w ∈ g.input, ∀ bit ∈ Word.setBits w, bit < 32
  memory : ∀ address, 32 ≤ address → 4 * words.length < 2 ^ (address - 1) →
    g.draft.start + g.count < 2 ^ address ∧ ∀ t, g.defined.governing g.draft = .ok t →
      g.index + t.wordCount < 2 ^ address

lemma Placed.first {words : List Word} {d : Defined} {op : Opcode} {start : ℕ}
    {earlier : List Instruction} {lead : Word} {after : List Word}
    (h : Boundary words d start earlier (lead :: after))
    (hcount : (Word.splitLead lead).1.toNat ≠ 0) : (Stage.first d op start lead after).Placed
      words := by
  obtain ⟨hlen, hwords⟩ := h.at_index
  rw [List.length_cons] at hlen
  have hlt : (Word.splitLead lead).1.toNat < 2 ^ 16 := UInt16.toNat_lt _
  refine ⟨le_rfl, by simp only [Stage.index, Stage.first]; omega,
    ⟨Nat.one_le_iff_ne_zero.mpr hcount, hlt⟩, ?_, hwords, by simp [Stage.first]⟩
  rw [Stage.index, ← List.drop_drop]
  exact congrArg (List.drop 1) hwords

variable {words : List Word} {g g' : Stage} {w : Word} {r : Reading}

/-- **What an operand leaves behind is placed as well, and further on.** -/
lemma Placed.next (h : g.Placed words) (ht : g.Takes w r g') :
    g'.Placed words ∧ g.index < g'.index := by
  cases ht with
  | @mk slot rest _ after _ more take input read =>
    obtain ⟨hmore, hnumber⟩ := fits_of_readOperand read
    have hlen := congrArg List.length (input.symm.trans h.input)
    rw [List.length_cons, List.length_drop, length_hostOrder] at hlen
    have hoffset := h.offset
    refine ⟨⟨by simp only [past]; omega, ?_, h.count, ?_, ?_, ?_⟩, ?_⟩
    · simp only [Stage.index, past, Meaning.apply_start] at hlen ⊢
      omega
    · have htail : after = (hostOrder words).drop (g.index + 1) := by
        rw [← List.drop_drop, ← h.input, input, List.drop_one, List.tail_cons]
      simp only [past, Stage.index, Meaning.apply_start, htail, List.drop_drop]
      congr 1
      omega
    · simpa only [past, Meaning.apply_words, Meaning.apply_start] using h.instruction
    · intro r' hr'
      rcases Array.mem_push.mp hr' with hr' | rfl
      · obtain ⟨h1, h2, h3, h4⟩ := h.recorded r' hr'
        exact ⟨h1, h2, by simp only [past]; omega, h4⟩
      · exact ⟨hoffset, by dsimp only; omega, by simp only [past]; omega, hnumber⟩
    · simp only [Stage.index, past, Meaning.apply_start]
      omega

lemma Placed.inRange (h : g.Placed words) : g.InRange words := by
  have hwidth : ∀ t, g.defined.governing g.draft = .ok t →
      1 ≤ t.width ∧ t.width + 31 < 2 ^ 32 ∧ 1 ≤ t.wordCount ∧ t.wordCount ≤ 2 := by
    intro t ht
    obtain ⟨hpos, hle⟩ := width_of_governing ht
    have hcount : t.wordCount = (t.width + 31) / 32 := rfl
    omega
  have hcount := h.count
  have hindex := h.inside
  refine ⟨fun w after hw => ?_, fun hlt => by omega, fun hop hne => ?_, hwidth, ?_, ?_⟩
  · rw [← List.head?_drop, ← h.input, hw, List.head?_cons]
  · obtain ⟨w, after, hw⟩ := List.exists_cons_of_ne_nil hne
    have hlt : g.draft.start + 1 < (hostOrder words).length := by
      have hlen := congrArg List.length (hw.symm.trans h.input)
      have hoffset := h.offset
      rw [List.length_cons, List.length_drop, Stage.index] at hlen
      omega
    refine ⟨_, List.getElem?_eq_getElem hlt, ?_⟩
    rw [Defined.governing, if_pos hop, h.instruction, List.getD_eq_getElem?_getD,
      List.getElem?_drop, List.getElem?_eq_getElem hlt, Option.getD_some]
  · intro w _ bit hbit
    exact (Word.mem_setBits.mp hbit).1
  · intro address haddress hlength
    have hdouble : 2 ^ address = 2 * 2 ^ (address - 1) := by
      rw [← pow_succ', Nat.sub_add_cancel (by omega)]
    have hbig : 2 ^ 31 ≤ 2 ^ (address - 1) := Nat.pow_le_pow_right (by omega) (by omega)
    rw [Stage.index] at hindex
    refine ⟨by omega, fun t ht => ?_⟩
    have := hwidth t ht
    rw [Stage.index]
    omega

end Stage

variable {words rest : List Word} {d d' : Defined} {start : ℕ} {earlier : List Instruction}
  {lead : Word} {after : List Word} {g g' : Stage} {i : Instruction}

lemma Passes.placed (h : Passes words g) : g.Placed words := by
  induction h with
  | first boundary count => exact .first boundary count
  | next _ takes ih => exact (ih.next takes).1

lemma Passes.trans (h : Passes words g)
    (ht : Relation.ReflTransGen Stage.Leads g g') : Passes words g' := by
  induction ht with
  | refl => exact h
  | tail _ ht ih =>
    obtain ⟨w, r, ht⟩ := ht
    exact .next ih ht

/-- The operands that reading comes to lie in the instruction. -/
lemma Passes.within (h : Passes words g) {o : Operands} (ho : g.outcome = .ok o) :
    ∀ r ∈ o.records, Within g.count r := by
  obtain ⟨last, hlast, -, hend, rfl⟩ := Stage.exists_last ho
  rw [← hend]
  exact (h.trans hlast).placed.recorded

/-- No module leads from operand to operand for ever. -/
lemma Passes.not_forever (f : ℕ → Stage) (h : Passes words (f 0)) :
    ¬ ∀ n, (f n).Leads (f (n + 1)) := by
  intro hf
  have hpasses : ∀ n, Passes words (f n) := by
    intro n
    induction n with
    | zero => exact h
    | succ n ih =>
      obtain ⟨w, r, ht⟩ := hf n
      exact .next ih ht
  have hindex : ∀ n, n ≤ (f n).index := by
    intro n
    induction n with
    | zero => exact Nat.zero_le _
    | succ n ih =>
      obtain ⟨w, r, ht⟩ := hf n
      have := ((hpasses n).placed.next ht).2
      omega
  have := hindex (words.length + 1)
  have := (hpasses (words.length + 1)).placed.inside
  omega

/-- An instruction that is read at a place is a slice of the module there. -/
lemma sliceAt_of_readInstruction (hb : Boundary words d start earlier (lead :: after))
    (h : readInstruction d start lead after = .ok (d', i)) : SliceAt words start i := by
  obtain ⟨hlen, hwords⟩ := hb.at_index
  obtain ⟨hi, hpos, hle⟩ := words_of_readInstruction h
  have hsize := (size_of_readInstruction h).1
  have hlt : (Word.splitLead lead).1.toNat < 2 ^ 16 := UInt16.toNat_lt _
  rw [List.length_cons] at hlen
  refine ⟨by omega, by rw [hi, ← hwords, hsize], by omega, ?_⟩
  rw [hsize]
  obtain ⟨hcount, op, o, hop, ho, rfl, -⟩ := readInstruction_eq_ok_iff.mp h
  exact (Passes.first hb hcount hop).within ho

/-- The instructions before a place are slices of the module. -/
lemma Boundary.exists_sliceAt (h : Boundary words d start earlier rest) :
    ∀ i ∈ earlier, ∃ start, SliceAt words start i := by
  induction h with
  | start => simp
  | next boundary read ih =>
    intro i hi
    rcases List.mem_append.mp hi with hi | hi
    · exact ih i hi
    · rw [List.mem_singleton.mp hi]
      exact ⟨_, sliceAt_of_readInstruction boundary read⟩

lemma Divides.exists_sliceAt {parts : List Part} {behind : Except Error (Status Empty)}
    (h : Divides words parts behind) (hi : .instruction i ∈ parts) :
    ∃ start, SliceAt words start i := by
  cases h with
  | headless => simp at hi
  | headed header boundary ends => exact boundary.exists_sliceAt i (by simpa using hi)

/-- Every part has a word of its own. -/
lemma Divides.length_le {parts : List Part} {behind : Except Error (Status Empty)}
    (h : Divides words parts behind) : parts.length ≤ words.length := by
  have hpos : ∀ p ∈ parts, 1 ≤ p.words.length := by
    rintro (header | i) hp
    · simp [Part.words, Header.words]
    · obtain ⟨start, hi⟩ := h.exists_sliceAt hp
      simpa [Part.words] using hi.size.1
  calc parts.length = (parts.map fun p => p.words.length).length := (List.length_map _).symm
    _ ≤ (parts.map fun p => p.words.length).sum :=
      List.length_le_sum_of_one_le _ (by simpa using hpos)
    _ = (parts.flatMap Part.words).length := List.length_flatMap.symm
    _ ≤ words.length := length_hostOrder words ▸ h.words_begin.length_le

/-- **Reading never looks outside the module.** The instructions start in it and are slices of it, and
so are their operands. The stages of reading lie in it, what is looked at from them is there, and all
that is counted on the way stays small, whatever widths the types of the module have. With each
operand the index moves on, so that no reading goes on for ever. The instructions that a visitor is
handed are such slices, what it is handed are no more than the words of the module, and an error is
met where an instruction starts, if there is a header. -/
theorem reading_inRange (words : List Word) :
    (∀ h code, readHeader words = .ok (h, code) → Header.wordCount ≤ words.length) ∧
      (∀ d start earlier lead after, Boundary words d start earlier (lead :: after) →
        (hostOrder words)[start]? = some lead ∧
          ∀ d' i, readInstruction d start lead after = .ok (d', i) → SliceAt words start i) ∧
      (∀ g, Passes words g → (g.Placed words ∧ g.InRange words) ∧
        ∀ w r g', g.Takes w r g' → g'.outcome = g.outcome ∧ g.index < g'.index) ∧
      (∀ f : ℕ → Stage, Passes words (f 0) → ¬ ∀ n, (f n).Leads (f (n + 1))) ∧
      ∀ {σ β : Type} (v : Visitor σ β) (s : σ),
        (∀ i, .instruction i ∈ received v s words → ∃ start, SliceAt words start i) ∧
          (received v s words).length ≤ words.length ∧
          ∀ e, (visit v s words).2 = .error e → readHeader words = .error e ∨
            ∃ d start earlier lead after, Boundary words d start earlier (lead :: after) ∧
              readInstruction d start lead after = .error e := by
  refine ⟨fun h code hread => ?_, fun d start earlier lead after hb => ⟨?_, fun d' i h => ?_⟩,
    fun g hg => ⟨⟨hg.placed, hg.placed.inRange⟩, fun w r g' ht =>
      ⟨ht.outcome_eq, (hg.placed.next ht).2⟩⟩,
    fun f h => Passes.not_forever f h, fun v s => ?_⟩
  · have := (Boundary.start hread).at_index.1
    omega
  · rw [← List.head?_drop, ← hb.at_index.2, List.head?_cons]
  · exact sliceAt_of_readInstruction hb h
  · obtain ⟨parts, behind, hparts, hreceived⟩ := exists_received words
    have hfront : received v s words <+: parts := by
      rcases hreceived v s with ⟨_, hfront, -⟩ | ⟨hall, -⟩
      · exact hfront
      · exact hall ▸ List.prefix_rfl
    refine ⟨fun i hi => hparts.exists_sliceAt (hfront.subset hi),
      hfront.length_le.trans hparts.length_le, fun e he => ?_⟩
    rcases hreceived v s with ⟨_, -, -, hend⟩ | ⟨-, hend, -⟩
    · simp [hend] at he
    · obtain rfl := map_widen_eq_error (hend.symm.trans he)
      cases hparts with
      | headless header => exact .inl header
      | headed header boundary ends =>
        cases ends with
        | malformed read => exact .inr ⟨_, _, _, _, _, boundary, read⟩

end Binary

end Spirv
