import Mathlib
import Spirv.Proofs.Decoding.Operand

/-!
Reading an operand succeeds exactly on the operands described for its kind.

What the reader carries along is tied to where the operand stands by `Agrees`: the maps of
definitions answer as the earlier instructions do, and the draft of the instruction shows the
operand words before.
-/

namespace Spirv.Binary

/-- What the reader makes of an operand that is no result. -/
def meaning (c : Context) (d : Defined) : OperandKind → List Word → Meaning
  | .id, ws =>
    if c.NamesSet then (d.imports[ws.headD 0]?).elim .plain .extendedSet else .plain
  | .string, ws =>
    if c.opcode = .opExtInstImport then (setNamed? ws).elim .plain .importing else .plain
  | _, _ => .plain

/-- The set of an extended instruction, from the imports so far. -/
def extendedSet? (c : Context) (d : Defined) : Option ExtendedSet :=
  if c.opcode = .opExtInst then c.before[2]?.bind (d.imports[·]?) else none

/-- The reader stands where the context says, with `input` to come. -/
structure Agrees (c : Context) (d : Defined) (draft : Draft) (input : List Word) : Prop where
  opcode : draft.opcode = c.opcode
  words : draft.words.tail = c.before ++ input
  typeId : draft.typeId = c.typeId
  set : draft.extendedSet? = extendedSet? c d
  numbers : ∀ id t, d.numberType id = .ok t ↔
    (1 ≤ t.width ∧ t.width ≤ 64) ∧ DeclaresNumber c.earlier id t
  selectors : c.opcode = .opSwitch → ∀ id t, d.selectorType id = .ok t ↔
    (1 ≤ t.width ∧ t.width ≤ 64) ∧ t.isInteger ∧
      ∃ type, HasType c.earlier id type ∧ DeclaresNumber c.earlier type t
  imports : c.opcode = .opExtInst → ∀ id set, d.imports[id]? = some set ↔
    Imports c.earlier id set

/-- The words begin with an operand of the kind, and this is what is read of it. -/
abbrev ReadAs (c : Context) (d : Defined) (k : OperandKind) (words : List Word) (r : Reading) :
    Prop :=
  ∃ ws tail number? needs, words = ws ++ tail ∧ Operand c k ws number? needs ∧
    r = ⟨.one k, number?, ws.length - 1, needs, meaning c d k ws⟩

variable {c : Context} {d : Defined} {draft : Draft} {slot : Slot} {k : OperandKind} {w : Word}
  {after : List Word} {r : Reading}

lemma Agrees.governing {input : List Word} (h : Agrees c d draft input)
    (hs : c.opcode = .opSwitch → c.before ≠ []) {t : NumberType} :
    d.governing draft = .ok t ↔ c.Governs t := by
  rw [Defined.governing, h.opcode, Context.Governs]
  split
  next hop =>
    obtain ⟨selector, rest, hb⟩ := List.exists_cons_of_ne_nil (hs hop)
    have hw : draft.words.getD 1 0 = selector := by
      have hwords := h.words
      rcases hd : draft.words with _ | ⟨lead, tail⟩ <;> simp_all
    rw [hw, h.selectors hop, hb]
    simp
  next hop =>
    rw [h.typeId, h.numbers]

lemma extendedSet?_eq_some_iff {set : ExtendedSet} (h : c.opcode = .opExtInst →
    ∀ id set, d.imports[id]? = some set ↔ Imports c.earlier id set) :
    extendedSet? c d = some set ↔ c.UsesSet set := by
  rw [extendedSet?, Context.UsesSet]
  split
  next hop => simp only [hop, true_and, Option.bind_eq_some_iff, h hop]
  next hop => simp [hop]

lemma Agrees.uses {input : List Word} (h : Agrees c d draft input) {set : ExtendedSet} :
    draft.extendedSet? = some set ↔ c.UsesSet set := by
  rw [h.set, extendedSet?_eq_some_iff h.imports]

lemma readString_iff (h : Agrees c d draft (w :: after)) {slot : Slot} {offset : ℕ}
    (hs : slot.base = .one .string) :
    readString draft slot offset (w :: after) = .ok r ↔ ReadAs c d .string (w :: after) r := by
  constructor
  · intro hr
    rw [readString] at hr
    split at hr
    next => simp at hr
    next bytes count hu =>
      obtain ⟨ws, tail, he, hstr, rfl, rfl⟩ := PackedString.exists_of_unpack? hu
      refine ⟨ws, tail, none, [], he, ?_⟩
      rw [h.opcode] at hr
      split at hr
      next hop =>
        dsimp only at hr
        split at hr
        next set hset =>
          have hnamed : setNamed? ws = some set := hset
          refine ⟨.string hstr fun _ => by simp [hnamed], ?_⟩
          rw [meaning, if_pos hop, hnamed, ← hs]
          simpa using hr.symm
        next => simp at hr
      next hop =>
        refine ⟨.string hstr fun hi => absurd hi hop, ?_⟩
        rw [meaning, if_neg hop, ← hs]
        simpa using hr.symm
  · rintro ⟨ws, tail, number?, needs, he, ho, rfl⟩
    cases ho with
    | string hstr hset =>
      rw [readString, he, PackedString.unpack?_append hstr, h.opcode, meaning, ← hs]
      by_cases hop : c.opcode = .opExtInstImport
      · obtain ⟨set, hnamed⟩ := Option.isSome_iff_exists.mp (hset hop)
        have hn : ExtendedSet.ofImportName?
            (String.ofList (Text.Utf8.decode (PackedString.bytesOf ws))) = some set := hnamed
        simp [hop, hn, hnamed]
      · simp [hop]

lemma readTyped_iff (h : Agrees c d draft (w :: after))
    (hb : c.opcode = .opSwitch → c.before ≠ []) {slot : Slot} {offset : ℕ}
    (hs : slot.base = .one .typedNumber) :
    readTyped d draft slot offset after = .ok r ↔ ReadAs c d .typedNumber (w :: after) r := by
  constructor
  · intro hr
    rw [readTyped] at hr
    split at hr
    next => simp at hr
    next t ht =>
      have hg := (h.governing hb).mp ht
      have hw := hg.1
      split at hr
      next => simp at hr
      next hlen =>
        have hn : t.wordCount ≤ (w :: after).length := by
          simp only [Bool.and_eq_true, decide_eq_true_eq, List.isEmpty_iff, not_and] at hlen
          rw [NumberType.wordCount, List.length_cons]
          rcases after with _ | ⟨v, rest⟩
          · have : ¬ 32 < t.width := fun h32 => hlen h32 rfl
            omega
          · simp only [List.length_cons]
            omega
        have hl : ((w :: after).take t.wordCount).length = t.wordCount := by
          rw [List.length_take]
          omega
        refine ⟨(w :: after).take t.wordCount, (w :: after).drop t.wordCount, some t, [],
          (List.take_append_drop ..).symm, .typedNumber hg hl, ?_⟩
        rw [hl, ← hs]
        simpa [meaning] using hr.symm
  · rintro ⟨ws, tail, number?, needs, he, ho, rfl⟩
    cases ho with
    | @typedNumber _ t hg hl =>
      have hlen : ¬ (decide (32 < t.width) && after.isEmpty) = true := by
        rintro hc
        obtain ⟨h32, rfl⟩ : 32 < t.width ∧ after = [] := by simpa using hc
        have := congrArg List.length he
        rw [List.length_append, hl, NumberType.wordCount] at this
        simp only [List.length_cons, List.length_nil] at this
        omega
      rw [readTyped, (h.governing hb).mpr hg]
      simp only [if_neg hlen, hs, hl, meaning]

lemma readId_iff (h : Agrees c d draft (w :: after)) {slot : Slot} (hs : slot.base = .one .id) :
    readId d draft slot (c.before.length + 1) w = .ok r ↔ ReadAs c d .id (w :: after) r := by
  have hplace : (decide (draft.opcode = .opExtInst) && decide (c.before.length + 1 = 3)) = true
      ↔ c.NamesSet := by
    simp [h.opcode, Context.NamesSet]
  constructor
  · intro hr
    rw [readId] at hr
    split at hr
    next => simp at hr
    next hne =>
      refine ⟨[w], after, none, [], rfl, ?_⟩
      split at hr
      next hp =>
        have hn := hplace.mp hp
        split at hr
        next set hset =>
          refine ⟨.id hne fun _ => ⟨set, (h.imports hn.1 w set).mp hset⟩, ?_⟩
          rw [meaning, if_pos hn, ← hs]
          simpa [Reading.single, hset] using hr.symm
        next => simp at hr
      next hp =>
        have hn : ¬ c.NamesSet := fun hn => hp (hplace.mpr hn)
        refine ⟨.id hne fun hn' => absurd hn' hn, ?_⟩
        rw [meaning, if_neg hn, ← hs]
        simpa [Reading.single] using hr.symm
  · rintro ⟨ws, tail, number?, needs, he, ho, rfl⟩
    cases ho with
    | @id v hne hset =>
      obtain ⟨rfl, rfl⟩ : w = v ∧ after = tail := by simpa using he
      rw [readId, if_neg hne, meaning]
      by_cases hn : c.NamesSet
      · obtain ⟨set, hset⟩ := hset hn
        have hd := (h.imports hn.1 w set).mpr hset
        rw [if_pos (hplace.mpr hn), hd]
        simp [hn, hd, Reading.single, hs]
      · rw [if_neg fun hp => hn (hplace.mp hp)]
        simp [hn, Reading.single, hs]

lemma readNamed_iff {slot : Slot} {category : Category} (hs : slot.base = .one (.named category)) :
    readNamed slot category w = .ok r ↔ ReadAs c d (.named category) (w :: after) r := by
  constructor
  · intro hr
    rw [readNamed] at hr
    refine ⟨[w], after, none, r.needs, rfl, ?_⟩
    split at hr
    next hm =>
      split at hr
      next needs hneeds =>
        obtain ⟨hbits, rfl⟩ := (Category.checkMask_eq_ok_iff hm).mp hneeds
        obtain rfl := Except.ok.inj hr
        exact ⟨.mask hm hbits, by simp [Reading.single, meaning, hs]⟩
      next => simp at hr
    next hm =>
      split at hr
      next row hrow =>
        obtain rfl := Except.ok.inj hr
        exact ⟨.value (by simpa using hm) hrow, by simp [Reading.single, meaning, hs]⟩
      next => simp at hr
  · rintro ⟨ws, tail, number?, needs, he, ho, rfl⟩
    cases ho with
    | @value _ v row hm hrow =>
      obtain ⟨rfl, rfl⟩ : w = v ∧ after = tail := by simpa using he
      simp [readNamed, hm, hrow, Reading.single, meaning, hs]
    | @mask _ v hm hbits =>
      obtain ⟨rfl, rfl⟩ : w = v ∧ after = tail := by simpa using he
      simp [readNamed, hm, (Category.checkMask_eq_ok_iff hm).mpr ⟨hbits, rfl⟩, Reading.single,
        meaning, hs]

lemma readSpecOpcode_iff {slot : Slot} (hs : slot.base = .one .specOpcode) :
    readSpecOpcode slot w = .ok r ↔ ReadAs c d .specOpcode (w :: after) r := by
  constructor
  · intro hr
    rw [readSpecOpcode] at hr
    split at hr
    next op hop =>
      have hw : w = op.value.toUInt32 := by
        split at hop
        next hlt =>
          rw [Opcode.value_of_ofValue? hop]
          exact UInt32.toNat_inj.mp (by simp; omega)
        next => simp at hop
      obtain rfl := Except.ok.inj hr
      subst hw
      exact ⟨_, after, none, _, rfl, .specOpcode op, by simp [Reading.single, meaning, hs]⟩
    next => simp at hr
  · rintro ⟨ws, tail, number?, needs, he, ho, rfl⟩
    cases ho with
    | specOpcode op =>
      obtain ⟨rfl, rfl⟩ : w = op.value.toUInt32 ∧ after = tail := by simpa using he
      have hlt : op.value.toUInt32.toNat < 2 ^ 16 := by
        rw [UInt16.toNat_toUInt32]
        exact op.value.toNat_lt
      rw [readSpecOpcode, if_pos hlt, UInt16.toUInt16_toUInt32, Opcode.ofValue?_value]
      simp [Reading.single, meaning, hs]

lemma readExtended_iff (h : Agrees c d draft (w :: after)) {slot : Slot} {offset : ℕ}
    (hs : slot.base = .one .extended) :
    readKind d draft slot offset w after .extended = .ok r ↔
      ReadAs c d .extended (w :: after) r := by
  have hrow : ∀ row, ExtendedSet.instructionOfWord draft.extendedSet? w = .ok row ↔
      ∃ set, c.UsesSet set ∧ set.ofValue? w = some row := by
    intro row
    unfold ExtendedSet.instructionOfWord
    rcases hset : draft.extendedSet? with _ | set
    · have hno : ∀ set, ¬ c.UsesSet set := fun set hu => by simpa [hset] using h.uses.mpr hu
      simp [hno]
    · have hu : ∀ set', c.UsesSet set' ↔ set = set' := fun set' => by
        rw [← h.uses, hset, Option.some.injEq]
      rcases ho : set.ofValue? w with _ | row' <;> simp [hu, ho]
  constructor
  · intro hr
    rw [readKind] at hr
    split at hr
    next row hok =>
      obtain ⟨set, hu, ho⟩ := (hrow row).mp hok
      obtain rfl := Except.ok.inj hr
      exact ⟨[w], after, none, _, rfl, .extended hu ho, by simp [Reading.single, meaning, hs]⟩
    next => simp at hr
  · rintro ⟨ws, tail, number?, needs, he, ho, rfl⟩
    cases ho with
    | @extended v set row hu ho =>
      obtain ⟨rfl, rfl⟩ : w = v ∧ after = tail := by simpa using he
      rw [readKind, (hrow row).mpr ⟨set, hu, ho⟩]
      simp [Reading.single, meaning, hs]

/-- The kinds of id whose only check is that they are not zero. -/
lemma readNonzero_iff {slot : Slot} {offset : ℕ} (hs : slot.base = .one k)
    (hk : k = .scopeId ∨ k = .memorySemanticsId) :
    readKind d draft slot offset w after k = .ok r ↔ ReadAs c d k (w :: after) r := by
  constructor
  · intro hr
    have hne : w ≠ 0 := by
      rintro rfl
      rcases hk with rfl | rfl <;> simp [readKind] at hr
    refine ⟨[w], after, none, [], rfl, ?_⟩
    rcases hk with rfl | rfl
    · exact ⟨.scopeId hne, by simpa [readKind, hne, Reading.single, meaning, hs] using hr.symm⟩
    · exact ⟨.memorySemanticsId hne,
        by simpa [readKind, hne, Reading.single, meaning, hs] using hr.symm⟩
  · rintro ⟨ws, tail, number?, needs, he, ho, rfl⟩
    rcases hk with rfl | rfl
    all_goals
      cases ho with
      | _ hne =>
        obtain ⟨rfl, rfl⟩ := List.cons.inj he
        simp [readKind, hne, Reading.single, meaning, hs]

lemma readInteger_iff {slot : Slot} {offset : ℕ} :
    readKind d draft slot offset w after .integer = .ok r ↔ ReadAs c d .integer (w :: after) r := by
  constructor
  · intro hr
    exact ⟨[w], after, _, [], rfl, .integer w, by simpa [readKind, meaning] using hr.symm⟩
  · rintro ⟨ws, tail, number?, needs, he, ho, rfl⟩
    cases ho with
    | integer v => simp [readKind, meaning]

lemma readOperand_of_kind? {slot : Slot} {offset : ℕ} (hs : slot.kind? = some k) :
    readOperand d draft slot offset w after = readKind d draft slot offset w after k := by
  cases slot <;> simp_all [Slot.kind?, readOperand]

/-- **An operand is read exactly if it is one of its kind.** -/
theorem readOperand_iff {slot : Slot} (h : Agrees c d draft (w :: after))
    (hs : slot.kind? = some k) (hk : k ≠ .typeId ∧ k ≠ .resultId)
    (hb : c.opcode = .opSwitch → k = .typedNumber → c.before ≠ []) :
    readOperand d draft slot (c.before.length + 1) w after = .ok r ↔
      ReadAs c d k (w :: after) r := by
  have hbase : slot.base = .one k := by
    cases slot <;> simp_all [Slot.kind?, Slot.base]
  rw [readOperand_of_kind? hs]
  cases k with
  | typeId => exact absurd rfl hk.1
  | resultId => exact absurd rfl hk.2
  | id => exact readId_iff h hbase
  | typedNumber => exact readTyped_iff h (fun hop => hb hop rfl) hbase
  | string => exact readString_iff h hbase
  | named category => exact readNamed_iff hbase
  | specOpcode => exact readSpecOpcode_iff hbase
  | extended => exact readExtended_iff h hbase
  | integer => exact readInteger_iff
  | scopeId => exact readNonzero_iff hbase (.inl rfl)
  | memorySemanticsId => exact readNonzero_iff hbase (.inr rfl)

end Spirv.Binary
