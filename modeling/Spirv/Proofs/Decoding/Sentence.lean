import Mathlib
import Spirv.Proofs.Program.Reading

/-!
The language of operand lists.

`Sentence` is the grammar that the tables stand for: a slot takes an operand and then what the
operand asks for, and a repeating slot stands for any number of repetitions. It leaves open how far a
repetition goes; the reader always goes on with it. The two agree since of what may follow a slot
that can be empty nothing competes with it for operands, which is checked of every table.
-/

namespace Spirv

open Piece

/-- The words are operands for the slots, with what these operands ask for after them. -/
inductive Sentence : Context → Pattern → List Word → Prop where
  | nil {c : Context} {p : Pattern} (optional : ∀ s ∈ p, s.isOptional) : Sentence c p []
  | operand {c : Context} {p : Pattern} {slot : Slot} {k : OperandKind} {ws vs : List Word}
    {number? : Option NumberType} {needs : List Slot} (kind : slot.kind? = some k)
    (operand : Operand c k ws number? needs) (rest : Sentence (c.push ws) (needs ++ p) vs) :
    Sentence c (slot :: p) (ws ++ vs)
  | manyNone {c : Context} {p : Pattern} {k : OperandKind} {ws : List Word}
    (rest : Sentence c p ws) : Sentence c (.many k :: p) ws
  | manyMore {c : Context} {p : Pattern} {k : OperandKind} {ws vs : List Word}
    {number? : Option NumberType} {needs : List Slot} (operand : Operand c k ws number? needs)
    (rest : Sentence (c.push ws) (needs ++ .many k :: p) vs) : Sentence c (.many k :: p) (ws ++ vs)
  | pairsNone {c : Context} {p : Pattern} {k l : OperandKind} {ws : List Word}
    (rest : Sentence c p ws) : Sentence c (.pairs k l :: p) ws
  /-- The last pair may lack its second member. -/
  | pairsHalf {c : Context} {p : Pattern} {k l : OperandKind} {ws vs : List Word}
    {number? : Option NumberType} {needs : List Slot} (operand : Operand c k ws number? needs)
    (rest : Sentence (c.push ws) (needs ++ p) vs) : Sentence c (.pairs k l :: p) (ws ++ vs)
  | pairsMore {c : Context} {p : Pattern} {k l : OperandKind} {ws vs : List Word}
    {number? : Option NumberType} {needs : List Slot} (operand : Operand c k ws number? needs)
    (rest : Sentence (c.push ws) (needs ++ .one l :: .pairs k l :: p) vs) :
    Sentence c (.pairs k l :: p) (ws ++ vs)

/-! ### What the tables have in common -/

/-- Whether an operand of the kind asks for nothing after it. -/
def OperandKind.isPlain : OperandKind → Bool
  | extended | specOpcode | named _ => false
  | _ => true

/-- Whether the slot is required and takes an operand that asks for required ones at most. -/
def Slot.isStrict : Slot → Bool
  | one .extended | one .specOpcode => false
  | one _ => true
  | _ => false

/-- Whether what follows a slot that may be empty cannot take the operands meant for it. -/
def Pattern.isClear : Pattern → Bool
  | [] => true
  | .one .extended :: p => p = [.many .id]
  | .one .specOpcode :: p => p = []
  | .one _ :: p => isClear p
  | .optional k :: p | .second k :: p =>
    k ≠ .extended && k ≠ .specOpcode && p.all (·.isOptional) && isClear p
  | .many k :: p => k.isPlain && p.all (· = .many k)
  | .pairs k l :: p => k.isPlain && l.isPlain && p = []
  | _ => false

lemma Opcode.isClear_operands (op : Opcode) : Pattern.isClear op.operands := by
  have h : ∀ op ∈ all, Pattern.isClear op.operands = true := by decide +kernel
  exact h op (mem_all op)

lemma Opcode.isClear_constantOperands (op : Opcode) : Pattern.isClear op.constantOperands := by
  have h : ∀ op ∈ all, Pattern.isClear op.constantOperands = true := by decide +kernel
  exact h op (mem_all op)

lemma Category.isStrict_of_mem {c : Category} {row : NamedValue} (hr : row ∈ c.values) {s : Slot}
    (h : s ∈ row.operands) : s.isStrict := by
  have hall : ∀ row ∈ c.values, ∀ s ∈ row.operands, s.isStrict = true := by
    cases c <;> decide +kernel
  exact hall row hr s h

lemma Category.isStrict_of_mem_maskOperands {c : Category} {w : Word} {s : Slot}
    (h : s ∈ c.maskOperands w) : s.isStrict := by
  obtain ⟨i, -, hi⟩ := List.mem_flatMap.mp h
  rcases hr : c.ofValue? (Word.bit i) with _ | row
  · simp [hr] at hi
  · exact isStrict_of_mem (mem_values_of_ofValue? hr) (by simpa [hr] using hi)

lemma ExtendedSet.isClear_operands {set : ExtendedSet} {row : NamedValue}
    (hr : row ∈ set.instructions) : Pattern.isClear (row.operands ++ [.many .id]) := by
  have hall : ∀ row ∈ set.instructions, Pattern.isClear (row.operands ++ [.many .id]) = true := by
    cases set <;> decide +kernel
  exact hall row hr

namespace Pattern

variable {p q : Pattern}

lemma isClear_append (hq : ∀ s ∈ q, s.isStrict) (hp : isClear p) : isClear (q ++ p) := by
  induction q with
  | nil => exact hp
  | cons s q ih =>
    obtain ⟨hs, hq⟩ := List.forall_mem_cons.mp hq
    have := ih hq
    rcases s with _ | k | _ | _ | _ | _ | _ <;> simp [Slot.isStrict] at hs
    cases k <;> simp_all [isClear, Slot.isStrict]

lemma isClear_tail {s : Slot} (h : isClear (s :: p)) : isClear p := by
  cases s with
  | many k =>
    simp only [isClear, Bool.and_eq_true, List.all_eq_true, decide_eq_true_eq] at h
    rcases p with _ | ⟨t, p⟩
    · rfl
    · obtain ⟨rfl, hp⟩ := List.forall_mem_cons.mp h.2
      simpa [isClear, h.1] using hp
  | one k => cases k <;> simp_all [isClear, OperandKind.isPlain]
  | optional k | second k | pairs k l => simp_all [isClear]
  | nothing | free => simp [isClear] at h

/-- After a slot that may be empty only such slots come. -/
lemma all_isOptional (hp : isClear p) (h : ∀ s ∈ p.head?, s.isOptional) : ∀ s ∈ p, s.isOptional := by
  rcases p with _ | ⟨s, p⟩
  · simp
  have hs : s.isOptional := h s rfl
  refine List.forall_mem_cons.mpr ⟨hs, fun t ht => ?_⟩
  cases s with
  | nothing => simp [Slot.isOptional] at hs
  | one k => simp [Slot.isOptional] at hs
  | optional k | second k =>
    simp only [isClear, Bool.and_eq_true, List.all_eq_true] at hp
    exact hp.1.2 t ht
  | many k =>
    simp only [isClear, Bool.and_eq_true, List.all_eq_true, decide_eq_true_eq] at hp
    rw [hp.2 t ht]
    rfl
  | pairs k l =>
    simp only [isClear, Bool.and_eq_true, decide_eq_true_eq] at hp
    simp [hp.2] at ht
  | free => simp [isClear] at hp

/-- A slot for a single operand is taken as it is. -/
lemma take?_cons {s : Slot} {k : OperandKind} (h : s.kind? = some k) (p : Pattern) :
    take? (s :: p) = some (s, p) := by
  cases s <;> simp_all [Slot.kind?, take?]

/-- What stands behind the slot in front does not matter for taking it. -/
lemma exists_take?_append (s : Slot) (q : Pattern) :
    ∃ slot q', ∀ r, take? (s :: q ++ r) = some (slot, q' ++ r) := by
  cases s with
  | many k => exact ⟨.optional k, .many k :: q, fun r => rfl⟩
  | pairs k l => exact ⟨.optional k, .second l :: .pairs k l :: q, fun r => rfl⟩
  | nothing => exact ⟨.nothing, q, fun r => rfl⟩
  | one k => exact ⟨.one k, q, fun r => rfl⟩
  | optional k => exact ⟨.optional k, q, fun r => rfl⟩
  | second k => exact ⟨.second k, q, fun r => rfl⟩
  | free => exact ⟨.free, q, fun r => rfl⟩

end Pattern

namespace OperandKind.Wants

variable {k : OperandKind} {needs : List Slot} {slot : Slot} {p : Pattern}

/-- What an operand asks for keeps the pattern clear. -/
lemma isClear_append (h : k.Wants needs) (hk : slot.kind? = some k)
    (hp : Pattern.isClear (slot :: p)) : Pattern.isClear (needs ++ p) := by
  cases h with
  | none => exact Pattern.isClear_tail hp
  | extended mem =>
    obtain rfl : p = [.many .id] := by
      cases slot <;> simp_all [Slot.kind?, Pattern.isClear]
    exact ExtendedSet.isClear_operands mem
  | specOpcode op =>
    obtain rfl : p = [] := by
      cases slot <;> simp_all [Slot.kind?, Pattern.isClear]
    rw [List.append_nil]
    exact op.isClear_constantOperands
  | value mem =>
    exact Pattern.isClear_append (fun _ => Category.isStrict_of_mem mem) (Pattern.isClear_tail hp)
  | mask =>
    exact Pattern.isClear_append (fun _ => Category.isStrict_of_mem_maskOperands)
      (Pattern.isClear_tail hp)

end OperandKind.Wants

namespace Operand

variable {c : Context} {k : OperandKind} {ws : List Word} {number? : Option NumberType}
  {needs : List Slot}

lemma needs_eq_nil (h : Operand c k ws number? needs) (hk : k.isPlain) : needs = [] := by
  cases h <;> first | rfl | simp [OperandKind.isPlain] at hk

end Operand

namespace Filling

variable {c : Context} {p : Pattern} {ps : List Piece} {k l : OperandKind}

/-- A slot may be repeated twice where it may be repeated once. -/
lemma append_many {r : Pattern} (h : Filling c p ps) : ∀ q, p = q ++ .many k :: r →
    Filling c (q ++ .many k :: .many k :: r) ps := by
  induction h with
  | done optional =>
    rintro (_ | ⟨s, q⟩) rfl
    · exact .done (by simp [Slot.isOptional])
    · exact .done (by simpa using optional)
  | @next c p rest slot k' ws number? needs ps take kind operand _ ih =>
    rintro q rfl
    obtain ⟨q', rfl, htake⟩ : ∃ q', rest = q' ++ .many k :: r ∧
        Pattern.take? (q ++ .many k :: .many k :: r)
          = some (slot, q' ++ .many k :: .many k :: r) := by
      rcases q with _ | ⟨s, q⟩
      · obtain ⟨rfl, rfl⟩ := by simpa [Pattern.take?] using take
        exact ⟨[], rfl, rfl⟩
      · obtain ⟨slot', q', htake⟩ := Pattern.exists_take?_append s q
        obtain ⟨rfl, rfl⟩ := Prod.mk.inj (Option.some.inj ((htake _).symm.trans take))
        exact ⟨q', rfl, htake _⟩
    refine .next htake kind operand ?_
    rw [← List.append_assoc]
    exact ih (needs ++ q') (List.append_assoc ..).symm

/-- A required slot may stand for one that is looked for once something is present. -/
lemma second_of_one (h : Filling c (.one k :: p) ps) : Filling c (.second k :: p) ps := by
  cases h with
  | done optional => simp [Slot.isOptional] at optional
  | next take kind operand filling =>
    obtain ⟨rfl, rfl⟩ := by simpa [Pattern.take?] using take
    exact .next rfl kind operand filling

end Filling

/-! ### The reader follows the grammar -/

variable {c : Context} {p : Pattern} {ps : List Piece} {ws : List Word}

/-- The operands that the reader finds form a sentence. -/
lemma Filling.sentence (h : Filling c p ps) (hp : Pattern.isClear p) : Sentence c p (wordsOf ps) := by
  induction h with
  | done optional => exact .nil (Pattern.all_isOptional hp optional)
  | @next c p rest slot k ws number? needs ps take kind operand filling ih =>
    rw [wordsOf_cons]
    rcases p with _ | ⟨s, p⟩
    · simp [Pattern.take?] at take
    cases s with
    | many k' =>
      obtain ⟨rfl, rfl⟩ := by simpa [Pattern.take?] using take
      obtain rfl : k' = k := by simpa [Slot.kind?] using kind
      refine .manyMore operand (ih ?_)
      have hplain : k'.isPlain := by
        simp only [Pattern.isClear, Bool.and_eq_true] at hp
        exact hp.1
      rwa [operand.needs_eq_nil hplain]
    | pairs k' l =>
      obtain ⟨rfl, rfl⟩ := by simpa [Pattern.take?] using take
      obtain rfl : k' = k := by simpa [Slot.kind?] using kind
      simp only [Pattern.isClear, Bool.and_eq_true, decide_eq_true_eq] at hp
      obtain ⟨⟨hk, hl⟩, rfl⟩ := hp
      obtain rfl := operand.needs_eq_nil hk
      -- what is read after the first member is the second one or the end
      have hsecond : Pattern.isClear [.second l, .pairs k' l] := by
        rcases l with _ | _ | _ | _ | _ | _ | _ | _ | _ | _ | _ <;>
          simp_all [Pattern.isClear, OperandKind.isPlain, Slot.isOptional]
      have hrest := ih hsecond
      generalize wordsOf ps = vs at hrest
      cases hrest with
      | nil => exact .pairsHalf operand (.nil (by simp))
      | operand kind' operand' rest' =>
        refine .pairsMore operand ?_
        exact .operand (by simpa [Slot.kind?] using kind') operand' rest'
    | _ =>
      obtain ⟨rfl, rfl⟩ := by simpa [Pattern.take?] using take
      exact .operand kind operand (ih (operand.wants.isClear_append kind hp))

/-- The reader finds the operands of a sentence. -/
lemma Sentence.exists_filling (h : Sentence c p ws) (hp : Pattern.isClear p) :
    ∃ ps, Filling c p ps ∧ wordsOf ps = ws := by
  induction h with
  | nil optional => exact ⟨[], .done fun s hs => optional s (List.mem_of_mem_head? hs), rfl⟩
  | operand kind operand _ ih =>
    obtain ⟨ps, hf, rfl⟩ := ih (operand.wants.isClear_append kind hp)
    exact ⟨_, .next (Pattern.take?_cons kind _) kind operand hf, rfl⟩
  | @manyNone c p k ws _ ih =>
    simp only [Pattern.isClear, Bool.and_eq_true, List.all_eq_true, decide_eq_true_eq] at hp
    obtain ⟨hk, hall⟩ := hp
    rcases p with _ | ⟨s, p⟩
    · obtain ⟨ps, hf, rfl⟩ := ih rfl
      cases hf with
      | done => exact ⟨[], .done (by simp [Slot.isOptional]), rfl⟩
      | next take => simp [Pattern.take?] at take
    · obtain ⟨rfl, hall⟩ := List.forall_mem_cons.mp hall
      obtain ⟨ps, hf, rfl⟩ := ih (by simpa [Pattern.isClear, hk] using hall)
      exact ⟨ps, hf.append_many [] rfl, rfl⟩
  | @manyMore c p k ws vs number? needs operand _ ih =>
    have hplain : k.isPlain := by
      simp only [Pattern.isClear, Bool.and_eq_true] at hp
      exact hp.1
    obtain rfl := operand.needs_eq_nil hplain
    obtain ⟨ps, hf, rfl⟩ := ih hp
    exact ⟨⟨k, ws, number?⟩ :: ps, .next rfl rfl operand hf, rfl⟩
  | pairsNone _ ih =>
    obtain ⟨-, rfl⟩ : _ ∧ _ = [] := by simpa [Pattern.isClear] using hp
    obtain ⟨ps, hf, rfl⟩ := ih rfl
    cases hf with
    | done => exact ⟨[], .done (by simp [Slot.isOptional]), rfl⟩
    | next take => simp [Pattern.take?] at take
  | @pairsHalf c p k l ws vs number? needs operand _ ih =>
    obtain ⟨⟨hk, -⟩, rfl⟩ : (k.isPlain ∧ l.isPlain) ∧ p = [] := by simpa [Pattern.isClear] using hp
    obtain rfl := operand.needs_eq_nil hk
    obtain ⟨ps, hf, rfl⟩ := ih rfl
    cases hf with
    | done =>
      exact ⟨[⟨k, ws, number?⟩], .next rfl rfl operand (.done (by simp [Slot.isOptional])), rfl⟩
    | next take => simp [Pattern.take?] at take
  | @pairsMore c p k l ws vs number? needs operand _ ih =>
    obtain ⟨⟨hk, hl⟩, rfl⟩ : (k.isPlain ∧ l.isPlain) ∧ p = [] := by
      simpa [Pattern.isClear] using hp
    obtain rfl := operand.needs_eq_nil hk
    have hone : Pattern.isClear [.one l, .pairs k l] := by
      cases l <;> simp_all [Pattern.isClear, OperandKind.isPlain]
    obtain ⟨ps, hf, rfl⟩ := ih hone
    exact ⟨⟨k, ws, number?⟩ :: ps, .next rfl rfl operand hf.second_of_one, rfl⟩

/-- **The reader finds operands exactly where the grammar has a sentence.** -/
theorem sentence_iff (hp : Pattern.isClear p) :
    Sentence c p ws ↔ ∃ ps, Filling c p ps ∧ wordsOf ps = ws :=
  ⟨fun h => h.exists_filling hp, fun ⟨_, hf, hw⟩ => hw ▸ hf.sentence hp⟩

namespace Binary

/-- A place in a module at which an instruction is read: with what the instructions before it
defined, at an index, with the words to come. -/
inductive Boundary (words : List Word) :
    Defined → ℕ → List Instruction → List Word → Prop where
  | start {h : Header} {rest : List Word} (header : readHeader words = .ok (h, rest)) :
    Boundary words .empty Header.wordCount [] rest
  | next {d d' : Defined} {start : ℕ} {earlier : List Instruction} {lead : Word}
    {after : List Word} {i : Instruction} (boundary : Boundary words d start earlier (lead :: after))
    (read : readInstruction d start lead after = .ok (d', i)) :
    Boundary words d' (start + i.words.size) (earlier ++ [i]) (after.drop (i.words.size - 1))

variable {words rest after : List Word} {d : Defined} {start : ℕ} {earlier : List Instruction}
  {lead : Word}

lemma Boundary.knows (h : Boundary words d start earlier rest) :
    Knows d earlier ∧ Decodable earlier := by
  induction h with
  | start => exact ⟨knows_empty, .nil⟩
  | next _ read ih =>
    obtain ⟨hk, hd⟩ := ih
    obtain ⟨⟨ps, tail, hi, -⟩, rfl⟩ := (readInstruction_iff hk hd).mp read
    exact ⟨hk.add hi, hd.snoc hi⟩

/-- Behind instructions that can be decoded there is a place where another one is read. -/
lemma exists_boundary {h : Header} {is : List Instruction} (his : Decodable is)
    (header : readHeader words = .ok (h, codeOf is ++ rest)) :
    ∃ d, Boundary words d (Header.wordCount + (codeOf is).length) is rest := by
  induction is using List.reverseRecOn generalizing rest with
  | nil => exact ⟨.empty, .start header⟩
  | append_singleton is i ih =>
    obtain ⟨hdec, ps, hi⟩ := Decodable.snoc_iff.mp his
    have hcode : codeOf (is ++ [i]) = codeOf is ++ i.words.toList := by simp [codeOf]
    rw [hcode, List.append_assoc] at header
    obtain ⟨d, hb⟩ := ih hdec header
    obtain ⟨lead, after, hw, hread⟩ := readInstruction_of_decodes hb.knows.1 hdec hi
      (Header.wordCount + (codeOf is).length) rest
    have hsize : i.words.size = after.length + 1 := by
      rw [← Array.length_toList, hw, List.length_cons]
    rw [hw, List.cons_append] at hb
    have hnext := hb.next hread
    rw [hsize, Nat.add_sub_cancel, List.drop_left] at hnext
    refine ⟨d.add i, ?_⟩
    rwa [hcode, List.length_append, hw, List.length_cons, ← Nat.add_assoc]

/-- **The parser accepts exactly the table grammar.** At every place where an instruction is read it
is read exactly if its opcode is known, as many words are there as it counts, and those after the
first form a sentence for the operands of the opcode. -/
theorem readInstruction_accepts_iff (h : Boundary words d start earlier (lead :: after)) :
    (∃ r, readInstruction d start lead after = .ok r) ↔
      ∃ op, op.value = (Word.splitLead lead).2 ∧ 1 ≤ (Word.splitLead lead).1.toNat ∧
        (Word.splitLead lead).1.toNat ≤ (lead :: after).length ∧
        Sentence ⟨earlier, op, []⟩ op.operands (after.take ((Word.splitLead lead).1.toNat - 1)) := by
  obtain ⟨hk, hd⟩ := h.knows
  simp only [sentence_iff (Opcode.isClear_operands _)]
  constructor
  · rintro ⟨⟨d', i⟩, hok⟩
    obtain ⟨⟨ps, tail, hi, hw⟩, -⟩ := (readInstruction_iff hk hd).mp hok
    obtain ⟨lead', hwords, hcount, hop⟩ := hi.words
    obtain ⟨rfl, rfl⟩ : lead = lead' ∧ after = wordsOf ps ++ tail := by simpa [hwords] using hw
    have hsize : i.words.size = (wordsOf ps).length + 1 := by
      rw [← Array.length_toList, hwords, List.length_cons]
    refine ⟨i.opcode, hop.symm, by omega, ?_, ps, hi.filling, ?_⟩
    · simp only [List.length_cons, List.length_append]
      omega
    · rw [hcount, hsize, Nat.add_sub_cancel, List.take_left]
  · rintro ⟨op, hop, h1, hlen, ps, hf, hps⟩
    have hlength := congrArg List.length hps
    simp only [List.length_take, List.length_cons] at hlength hlen
    refine ⟨(_, instructionOf d ⟨earlier, op, []⟩ lead ps),
      (readInstruction_iff hk hd).mpr ⟨⟨ps, after.drop ((Word.splitLead lead).1.toNat - 1), ?_, ?_⟩,
        rfl⟩⟩
    · exact (decodes_iff hk).mpr ⟨hf, lead, by omega, hop.symm, rfl⟩
    · simp [instructionOf, hps, List.take_append_drop]

/-! ### Function types behind the declaration of a type -/

namespace Sample

open Program.Sample

/-- A module whose second instruction, behind the declaration of a type, starts with the word. -/
def behindVoid (lead : Word) (after : List Word) : List Word :=
  (Header.ofBound 3 0).words ++ codeOf [void] ++ lead :: after

lemma exists_boundary_behindVoid (lead : Word) (after : List Word) :
    ∃ d, Boundary (behindVoid lead after) d 7 [void] (lead :: after) :=
  have hall : Decodable ([void] ++ instructions.tail) := decodable_instructions
  exists_boundary hall.of_append rfl

/-- The parameters are any number of ids. -/
lemma sentence_function :
    Sentence ⟨[void], .opTypeFunction, []⟩ (Opcode.operands .opTypeFunction) [2, 1, 1, 1] := by
  have hid {c : Context} (hc : c.opcode = .opTypeFunction) : Operand c .id [1] none [] :=
    .id (by decide) fun hs => absurd (hc.symm.trans hs.1) (by decide)
  change Sentence _ [.one .resultId, .one .id, .many .id] ([2] ++ ([1] ++ ([1] ++ ([1] ++ []))))
  refine .operand rfl (.resultId (by decide) (by decide)) (.operand rfl (hid rfl) ?_)
  exact .manyMore (hid rfl) (.manyMore (hid rfl) (.nil (by decide)))

/-- No id is declared twice. -/
lemma not_sentence_clash :
    ¬ Sentence ⟨[void], .opTypeFunction, []⟩ (Opcode.operands .opTypeFunction) [1, 1] := by
  intro h
  obtain ⟨ps, hf, hps⟩ := (sentence_iff (Opcode.isClear_operands _)).mp h
  obtain ⟨w, qs, rfl, ⟨-, hnew⟩, -⟩ := Filling.resultId_iff.mp hf
  obtain ⟨rfl, -⟩ := List.cons.inj hps
  exact hnew void (by simp) rfl

end Sample

/-- Behind the declaration of a type, a function type with two parameters of it is accepted. One that
takes the id of the type for its result is refused. -/
theorem readInstruction_accepts_typeFunction :
    (∃ d, Boundary (Sample.behindVoid 0x00050021 [2, 1, 1, 1]) d 7 [Program.Sample.void]
        [0x00050021, 2, 1, 1, 1] ∧ ∃ r, readInstruction d 7 0x00050021 [2, 1, 1, 1] = .ok r) ∧
      ∃ d, Boundary (Sample.behindVoid 0x00030021 [1, 1]) d 7 [Program.Sample.void]
        [0x00030021, 1, 1] ∧ ¬ ∃ r, readInstruction d 7 0x00030021 [1, 1] = .ok r := by
  constructor
  · obtain ⟨d, hb⟩ := Sample.exists_boundary_behindVoid 0x00050021 [2, 1, 1, 1]
    refine ⟨d, hb, (readInstruction_accepts_iff hb).mpr ⟨.opTypeFunction, ?_⟩⟩
    exact ⟨by decide, by decide, by decide, Sample.sentence_function⟩
  · obtain ⟨d, hb⟩ := Sample.exists_boundary_behindVoid 0x00030021 [1, 1]
    refine ⟨d, hb, fun hread => ?_⟩
    obtain ⟨op, hop, -, -, hs⟩ := (readInstruction_accepts_iff hb).mp hread
    have hfunction : some op = some .opTypeFunction := by
      rw [← Opcode.ofValue?_value op, hop]
      decide
    obtain rfl := Option.some.inj hfunction
    exact Sample.not_sentence_clash hs

end Binary

end Spirv
