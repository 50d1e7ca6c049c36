import Mathlib
import Spirv.Proofs.Decoding.Reading

/-!
The operands of an instruction, cut from its words one after the other.

`Filling` says how operands fill the slots of a pattern: each fills the slot that comes first and
puts the slots it asks for in front of the rest. Reading operands succeeds exactly where the words
up to the stated end are the words of such a filling, and it records the operands of that filling.
-/

namespace Spirv

/-- One operand of an instruction. -/
structure Piece where
  kind : OperandKind
  words : List Word
  number? : Option NumberType

namespace Piece

def wordsOf (ps : List Piece) : List Word := ps.flatMap words

@[simp] lemma wordsOf_nil : wordsOf [] = [] := rfl

@[simp] lemma wordsOf_cons (p : Piece) (ps : List Piece) :
    wordsOf (p :: ps) = p.words ++ wordsOf ps := rfl

/-- The records of operands that follow one another from an offset on. -/
def records : ℕ → List Piece → List OperandRecord
  | _, [] => []
  | n, p :: ps => ⟨n, p.words.length, .one p.kind, p.number?⟩ :: records (n + p.words.length) ps

lemma wordsOf_append (ps qs : List Piece) : wordsOf (ps ++ qs) = wordsOf ps ++ wordsOf qs :=
  List.flatMap_append

lemma records_append (n : ℕ) (ps qs : List Piece) :
    records n (ps ++ qs) = records n ps ++ records (n + (wordsOf ps).length) qs := by
  induction ps generalizing n with
  | nil => rfl
  | cons p ps ih => simp [records, ih, Nat.add_assoc]

end Piece

open Piece

/-- The operands fill the slots of the pattern, and none is missing. -/
inductive Filling : Context → Pattern → List Piece → Prop where
  | done {c : Context} {p : Pattern} (optional : ∀ s ∈ p.head?, s.isOptional) : Filling c p []
  | next {c : Context} {p rest : Pattern} {slot : Slot} {k : OperandKind} {ws : List Word}
    {number? : Option NumberType} {needs : List Slot} {ps : List Piece}
    (take : p.take? = some (slot, rest)) (kind : slot.kind? = some k)
    (operand : Operand c k ws number? needs) (filling : Filling (c.push ws) (needs ++ rest) ps) :
    Filling c p (⟨k, ws, number?⟩ :: ps)

lemma Filling.words_ne_nil {c : Context} {p : Pattern} {ps : List Piece} (h : Filling c p ps) :
    ∀ q ∈ ps, q.words ≠ [] := by
  induction h with
  | done => simp
  | next _ _ operand _ ih => exact List.forall_mem_cons.mpr ⟨operand.ne_nil, ih⟩

@[simp] lemma Context.push_earlier (c : Context) (ws : List Word) :
    (c.push ws).earlier = c.earlier := rfl

@[simp] lemma Context.push_opcode (c : Context) (ws : List Word) :
    (c.push ws).opcode = c.opcode := rfl

@[simp] lemma Context.push_before (c : Context) (ws : List Word) :
    (c.push ws).before = c.before ++ ws := rfl

lemma Context.push_push (c : Context) (us vs : List Word) :
    (c.push us).push vs = c.push (us ++ vs) := by
  simp [push]

@[simp] lemma Context.push_nil (c : Context) : c.push [] = c := by simp [push]

/-- The slot in front of a pattern stands for one operand, and what is left are slots like those
before. -/
lemma Pattern.kind_of_take? {p rest : Pattern} {slot : Slot} (hp : ∀ s ∈ p, s.isInner)
    (h : p.take? = some (slot, rest)) :
    (∃ k, slot.kind? = some k ∧ k ≠ .typeId ∧ k ≠ .resultId) ∧ ∀ s ∈ rest, s.isInner := by
  rcases p with _ | ⟨s, p⟩
  · simp [take?] at h
  obtain ⟨hs, hp⟩ := List.forall_mem_cons.mp hp
  cases s <;>
    simp_all [take?, Slot.isInner] <;>
    obtain ⟨rfl, rfl⟩ := h <;>
    simp_all [Slot.kind?]

lemma Pattern.kind_of_take?_one {p rest : Pattern} {slot : Slot} {k : OperandKind}
    (hp : p.head? = some (.one k)) (h : p.take? = some (slot, rest)) : slot = .one k := by
  rcases p with _ | ⟨s, p⟩
  · simp at hp
  obtain rfl : s = .one k := by simpa using hp
  simp_all [take?]

namespace Binary

/-- The pattern is what is still to fill at the place: slots after the result, the selector of a
switch or the set of an extended instruction first if it is not yet there. -/
structure Ready (c : Context) (p : Pattern) : Prop where
  inner : ∀ s ∈ p, s.isInner
  typed : c.opcode.hasType → c.before ≠ []
  switch : c.opcode = .opSwitch → c.before = [] → p.head? = some .id
  extended : c.opcode = .opExtInst →
    3 ≤ c.before.length ∨ c.before.length = 2 ∧ p.head? = some .id

/-- The definitions once an operand is read: the string of an import names the set of its result. -/
def noteImport (op : Opcode) (id : Word) (d : Defined) (p : Piece) : Defined :=
  if op = .opExtInstImport ∧ p.kind = .string then
    { d with imports := (setNamed? p.words).elim d.imports (d.imports.insert id) }
  else d

lemma noteImport_of_ne {op : Opcode} (id : Word) (d : Defined) (p : Piece)
    (h : op ≠ .opExtInstImport) : noteImport op id d p = d := by
  simp [noteImport, h]

@[simp] lemma noteImport_types (op : Opcode) (id : Word) (d : Defined) (p : Piece) :
    (noteImport op id d p).types = d.types := by
  rw [noteImport]
  split <;> rfl

@[simp] lemma noteImport_numberTypes (op : Opcode) (id : Word) (d : Defined) (p : Piece) :
    (noteImport op id d p).numberTypes = d.numberTypes := by
  rw [noteImport]
  split <;> rfl

variable {c : Context} {d : Defined} {draft : Draft} {k : OperandKind} {ws tail : List Word}
  {number? : Option NumberType} {needs rest p : Pattern} {slot : Slot}

/-- What an operand means changes the imports and the set of the instruction, and no more. -/
lemma apply_meaning (h : Agrees c d draft (ws ++ tail)) (hr : Ready c p)
    (ht : p.take? = some (slot, rest)) (hk : slot.kind? = some k)
    (ho : Operand c k ws number? needs) :
    (meaning c d k ws).apply d draft = (noteImport c.opcode draft.resultId d ⟨k, ws, number?⟩,
      { draft with extendedSet? := extendedSet? (c.push ws) d }) := by
  -- only the operand that names the set changes the set
  have hset : ¬ (c.NamesSet ∧ k = .id) → draft.extendedSet? = extendedSet? (c.push ws) d := by
    intro hn
    rw [h.set, extendedSet?, extendedSet?]
    by_cases hop : c.opcode = .opExtInst
    · rcases hr.extended hop with h3 | ⟨h2, hid⟩
      · simp [Context.push, hop, List.getElem?_append_left (show 2 < c.before.length by omega)]
      · obtain rfl := Pattern.kind_of_take?_one hid ht
        obtain rfl : OperandKind.id = k := by simpa [Slot.kind?] using hk
        exact absurd ⟨⟨hop, h2⟩, rfl⟩ hn
    · simp [Context.push, hop]
  have hplain : ∀ {m : Meaning}, m = .plain → ¬ (c.NamesSet ∧ k = .id) →
      noteImport c.opcode draft.resultId d ⟨k, ws, number?⟩ = d →
      m.apply d draft = (noteImport c.opcode draft.resultId d ⟨k, ws, number?⟩,
        { draft with extendedSet? := extendedSet? (c.push ws) d }) := by
    rintro m rfl hn hd
    rw [hd, ← hset hn]
    rfl
  cases ho with
  | @id w hne hsets =>
    by_cases hn : c.NamesSet
    · obtain ⟨set, hi⟩ := hsets hn
      have hd := (h.imports hn.1 w set).mpr hi
      have hw : extendedSet? (c.push [w]) d = some set := by
        simp [extendedSet?, Context.push, hn.1, ← hn.2, hd]
      simp [meaning, hn, hd, Meaning.apply, hw, noteImport]
    · exact hplain (by simp [meaning, hn]) (fun hc => hn hc.1) (by simp [noteImport])
  | string hs hsets =>
    by_cases hop : c.opcode = .opExtInstImport
    · obtain ⟨set, hn⟩ := Option.isSome_iff_exists.mp (hsets hop)
      have hd := hset (by simp)
      simp [meaning, hop, hn, Meaning.apply, noteImport, ← hd]
    · exact hplain (by simp [meaning, hop]) (by simp) (by simp [noteImport, hop])
  | _ => exact hplain rfl (by simp) (by simp [noteImport])

lemma extendedSet?_noteImport (id : Word) (q : Piece) :
    extendedSet? c (noteImport c.opcode id d q) = extendedSet? c d := by
  by_cases h : c.opcode = .opExtInst <;> simp [extendedSet?, noteImport, h]

/-- After an operand the reader stands one operand further. -/
lemma Agrees.push (h : Agrees c d draft (ws ++ tail)) (hr : Ready c p) :
    Agrees (c.push ws) (noteImport c.opcode draft.resultId d ⟨k, ws, number?⟩)
      { draft with extendedSet? := extendedSet? (c.push ws) d } tail where
  opcode := h.opcode
  words := by simpa [Context.push] using h.words
  typeId := by
    rw [h.typeId, Context.typeId, Context.typeId]
    by_cases ht : c.opcode.hasType
    · obtain ⟨w, rest, hb⟩ := List.exists_cons_of_ne_nil (hr.typed ht)
      simp [Context.push, ht, hb]
    · simp [Context.push, ht]
  set := (extendedSet?_noteImport (c := c.push ws) _ _).symm
  numbers id t := by simpa [Defined.numberType] using h.numbers id t
  selectors hop id t := by
    simpa [Defined.selectorType, Defined.numberType] using h.selectors hop id t
  imports hop id set := by
    have hne : c.opcode ≠ .opExtInstImport := by
      rw [show c.opcode = .opExtInst from hop]
      decide
    rw [noteImport_of_ne _ _ _ hne]
    exact h.imports hop id set

lemma Ready.push (hr : Ready c p) (ht : p.take? = some (slot, rest))
    (ho : Operand c k ws number? needs) : Ready (c.push ws) (needs ++ rest) where
  inner s hs := by
    rcases List.mem_append.mp hs with hs | hs
    · exact ho.isInner_of_mem hs
    · exact (Pattern.kind_of_take? hr.inner ht).2 s hs
  typed _ := by simp [Context.push, ho.ne_nil]
  switch _ hb := by simp [Context.push, ho.ne_nil] at hb
  extended hop := by
    have := List.length_pos_iff.mpr ho.ne_nil
    rcases hr.extended hop with h3 | ⟨h2, -⟩
    all_goals
      left
      simp only [Context.push, List.length_append]
      omega

lemma finishOperands_eq_ok_iff {count offset : ℕ} {o o' : Operands} :
    finishOperands count p offset o = .ok o' ↔
      (∀ s ∈ p.head?, s.isOptional) ∧ count = offset ∧ o' = o := by
  rw [finishOperands]
  have hany : p.head?.any (!·.isOptional) = true ↔ ¬ ∀ s ∈ p.head?, s.isOptional := by
    rcases p with _ | ⟨s, p⟩ <;> simp
  by_cases hp : ∀ s ∈ p.head?, s.isOptional
  · rw [if_neg fun h => hany.mp h hp]
    by_cases hc : offset = count
    · simpa [hp, hc, eq_comm (a := o)] using fun _ => hp
    · simp [hc, Ne.symm hc]
  · simp only [if_pos (hany.mpr hp), reduceCtorEq, false_iff]
    exact fun h => hp h.1

/-- An operand that fills the slot in front is read, and reading goes on after it. -/
lemma readOperands_of_operand {count : ℕ} {records : Array OperandRecord}
    (h : Agrees c d draft (ws ++ tail)) (hr : Ready c p) (ht : p.take? = some (slot, rest))
    (hk : slot.kind? = some k) (ho : Operand c k ws number? needs)
    (hcount : c.before.length + 1 < count) :
    readOperands count d draft records p (c.before.length + 1) (ws ++ tail)
      = readOperands count (noteImport c.opcode draft.resultId d ⟨k, ws, number?⟩)
          { draft with extendedSet? := extendedSet? (c.push ws) d }
          (records.push ⟨c.before.length + 1, ws.length, .one k, number?⟩) (needs ++ rest)
          ((c.push ws).before.length + 1) tail := by
  have hk' := Pattern.kind_of_take? hr.inner ht
  obtain ⟨w, ws, rfl⟩ := List.exists_cons_of_ne_nil ho.ne_nil
  have hread : readOperand d draft slot (c.before.length + 1) w (ws ++ tail)
      = .ok ⟨.one k, number?, ws.length, needs, meaning c d k (w :: ws)⟩ := by
    refine (readOperand_iff h hk ?_ ?_).mpr ⟨_, tail, _, _, rfl, ho, by simp⟩
    · obtain ⟨⟨k', hk'', hne⟩, -⟩ := hk'
      obtain rfl : k = k' := by simpa [hk] using hk''
      exact hne
    · rintro hop rfl hb
      obtain rfl := Pattern.kind_of_take?_one (hr.switch hop hb) ht
      simp [Slot.kind?] at hk
  rw [List.cons_append, readOperands, if_neg (by omega), ht]
  simp only [hread, apply_meaning h hr ht hk ho, List.length_cons, List.drop_left]
  congr 1
  simp only [Context.push_before, List.length_append, List.length_cons]
  omega

/-- Reading that does not end where it starts finds an operand for the slot in front. -/
lemma exists_operand_of_readOperands {count : ℕ} {records : Array OperandRecord} {o : Operands}
    {input : List Word} (h : Agrees c d draft input) (hr : Ready c p)
    (hcount : c.before.length + 1 < count)
    (hok : readOperands count d draft records p (c.before.length + 1) input = .ok o) :
    ∃ slot rest k ws tail number? needs, p.take? = some (slot, rest) ∧ slot.kind? = some k ∧
      input = ws ++ tail ∧ Operand c k ws number? needs := by
  rw [readOperands, if_neg (by omega)] at hok
  split at hok
  next => simp at hok
  next slot rest ht =>
  split at hok
  next => simp at hok
  next w after =>
  split at hok
  next => simp at hok
  next r hread =>
  obtain ⟨⟨k, hk, hne⟩, -⟩ := Pattern.kind_of_take? hr.inner ht
  have hb : c.opcode = .opSwitch → k = .typedNumber → c.before ≠ [] := by
    rintro hop rfl hb
    obtain rfl := Pattern.kind_of_take?_one (hr.switch hop hb) ht
    simp [Slot.kind?] at hk
  obtain ⟨ws, tail, number?, needs, hw, ho, -⟩ := (readOperand_iff h hk hne hb).mp hread
  exact ⟨slot, rest, k, ws, tail, number?, needs, ht, hk, hw, ho⟩

/-- What has been read once the operands are. -/
def afterPieces (c : Context) (d : Defined) (draft : Draft) (records : Array OperandRecord)
    (ps : List Piece) : Operands :=
  ⟨ps.foldl (noteImport c.opcode draft.resultId) d,
    { draft with extendedSet? := extendedSet? (c.push (wordsOf ps)) d },
    records ++ (Piece.records (c.before.length + 1) ps).toArray⟩

lemma afterPieces_nil {input : List Word} (h : Agrees c d draft input)
    (records : Array OperandRecord) : afterPieces c d draft records [] = ⟨d, draft, records⟩ := by
  simp [afterPieces, Piece.records, ← h.set]

lemma afterPieces_cons (records : Array OperandRecord) (ps : List Piece) :
    afterPieces (c.push ws) (noteImport c.opcode draft.resultId d ⟨k, ws, number?⟩)
        { draft with extendedSet? := extendedSet? (c.push ws) d }
        (records.push ⟨c.before.length + 1, ws.length, .one k, number?⟩) ps
      = afterPieces c d draft records (⟨k, ws, number?⟩ :: ps) := by
  have hset := extendedSet?_noteImport (c := c.push (ws ++ wordsOf ps)) (d := d) draft.resultId
    ⟨k, ws, number?⟩
  simp only [Context.push_opcode] at hset
  have hoffset : c.before.length + ws.length + 1 = c.before.length + 1 + ws.length := by omega
  simp [afterPieces, Piece.records, Context.push_push, hset, hoffset]

/-- **Operands are read exactly if they fill the slots and end where the instruction does.** -/
theorem readOperands_iff {count : ℕ} {records : Array OperandRecord} {o : Operands}
    {input : List Word} (h : Agrees c d draft input) (hr : Ready c p) :
    readOperands count d draft records p (c.before.length + 1) input = .ok o ↔
      ∃ ps tail, Filling c p ps ∧ input = wordsOf ps ++ tail ∧
        count = c.before.length + 1 + (wordsOf ps).length ∧
        o = afterPieces c d draft records ps := by
  constructor
  · intro hok
    induction hn : input.length using Nat.strong_induction_on
      generalizing c d draft records p input with
    | _ n ih =>
    subst hn
    by_cases hcount : c.before.length + 1 < count
    · obtain ⟨slot, rest, k, ws, tail, number?, needs, ht, hk, rfl, ho⟩ :=
        exists_operand_of_readOperands h hr hcount hok
      rw [readOperands_of_operand h hr ht hk ho hcount] at hok
      have hlen : tail.length < (ws ++ tail).length := by
        have := List.length_pos_iff.mpr ho.ne_nil
        simp only [List.length_append]
        omega
      obtain ⟨ps, tail, hf, rfl, hc, rfl⟩ := ih _ hlen (h.push hr) (hr.push ht ho) hok rfl
      refine ⟨⟨k, ws, number?⟩ :: ps, tail, .next ht hk ho hf, by simp, ?_,
        afterPieces_cons records ps⟩
      simp only [Context.push_before, List.length_append] at hc
      simp only [wordsOf_cons, List.length_append]
      omega
    · rw [readOperands, if_pos (by omega), finishOperands_eq_ok_iff] at hok
      obtain ⟨hp, rfl, rfl⟩ := hok
      exact ⟨[], input, .done hp, rfl, by simp, (afterPieces_nil h records).symm⟩
  · rintro ⟨ps, tail, hf, rfl, rfl, rfl⟩
    induction hf generalizing d draft records with
    | done hp =>
      rw [readOperands, if_pos (by simp), finishOperands_eq_ok_iff]
      exact ⟨hp, by simp, afterPieces_nil h records⟩
    | @next c p rest slot k ws number? needs ps ht hk ho hf ih =>
      rw [wordsOf_cons, List.append_assoc] at h ⊢
      rw [readOperands_of_operand h hr ht hk ho, ← afterPieces_cons]
      · have hc : c.before.length + 1 + (ws ++ wordsOf ps).length
            = (c.push ws).before.length + 1 + (wordsOf ps).length := by
          simp only [Context.push_before, List.length_append]
          omega
        rw [hc]
        exact ih (hr.push ht ho) (h.push hr)
      · have := List.length_pos_iff.mpr ho.ne_nil
        simp only [List.length_append]
        omega

end Binary

end Spirv
