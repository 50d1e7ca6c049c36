import Mathlib
import Spirv.Proofs.Encoding.Filling
import Spirv.Proofs.Encoding.Lockstep
import Spirv.Proofs.Encoding.NumericNames

/-!
The two forms of a text.

A line names an opcode and its operands, with a result if the opcode has one. Written in front of the
instruction or in binary order among its operands, the result is bound at the same moment: when the
slot for it comes first. So the two forms of a text are encoded in step, from one instruction to the
next, and are assembled to the same module or not at all.
-/

namespace Spirv.Assembly

/-- An instruction as it is written. -/
structure Line where
  result? : Option (List Char)
  name : List Char
  operands : List (List Char)

namespace Line

/-- The opcode that the line names. -/
def opcode? (l : Line) : Option Opcode := Opcode.ofName? (String.ofList (l.name.drop 2))

/-- How many operands stand before the result in binary order. -/
def place (l : Line) : ℕ := if l.opcode?.any (·.hasType) then 1 else 0

/-- The words of the line. The result stands in front, or among the operands after the type. -/
def words (form : Form) (l : Line) : List (List Char) :=
  match form, l.result? with
  | _, none => l.name :: l.operands
  | .assignment, some result => result :: ['='] :: l.name :: l.operands
  | .canonical, some result =>
    l.name :: (l.operands.take l.place ++ result :: l.operands.drop l.place)

variable {l : Line} {result : List Char}

lemma words_of_none (h : l.result? = none) (form : Form) : l.words form = l.name :: l.operands := by
  simp [words, h]

lemma words_assignment (h : l.result? = some result) :
    l.words .assignment = result :: ['='] :: l.name :: l.operands := by
  simp [words, h]

lemma words_canonical (h : l.result? = some result) : l.words .canonical
    = l.name :: (l.operands.take l.place ++ result :: l.operands.drop l.place) := by
  simp [words, h]

end Line

/-- The word is neither `=` nor like the name of an opcode. -/
def IsPlain (word : List Char) : Prop := word ≠ ['='] ∧ Cursor.startsWithOp word = false

instance : DecidablePred IsPlain := fun _ => inferInstanceAs (Decidable (_ ∧ _))

/-- The line has a result exactly if its opcode has one, and its words are told apart by their
spelling. -/
structure Line.Proper (l : Line) : Prop where
  name : Cursor.startsWithOp l.name = true
  result : ∀ op, l.opcode? = some op → (l.result?.isSome = true ↔ op.hasResult = true)
  percent : ∀ result ∈ l.result?, result.head? = some '%'
  operands : ∀ word ∈ l.operands, IsPlain word

/-! ### Patterns without a result -/

lemma resultId_notMem_kinds {slot : Slot} (h : slot.isInner) : .resultId ∉ slot.kinds := by
  cases slot <;> grind [Slot.isInner, Slot.kinds]

section

variable {p rest : Pattern} {slot : Slot} {d : Declared} {op : Opcode} {done : Array Word}
  {chars : List Char} {r : Reading}

lemma needs_of_readId {refuse : Fault → Refusal} (h : readId refuse chars = .ok r) :
    r.needs = [] := by
  obtain ⟨name, -, rfl⟩ := exists_name_of_readId h
  rfl

lemma needs_of_readNumber (h : readNumber chars = .ok r) : r.needs = [] := by
  obtain ⟨l, -, -, rfl⟩ := readNumber_eq_ok h
  rfl

lemma needs_of_readTyped {number? : Option NumberType} (h : readTyped number? chars = .ok r) :
    r.needs = [] := by
  rcases number? with _ | t
  · exact needs_of_readNumber h
  rcases readTyped_eq_ok h with ⟨bits, rfl, -⟩ | ⟨-, -, h⟩
  · rfl
  · exact needs_of_readNumber h

/-- An operand asks for what operands of its kind may ask for. -/
lemma wants_of_readKind {k : OperandKind} (h : readKind d op done chars k = .ok r) :
    k.Wants r.needs := by
  have hnil : r.needs = [] → k.Wants r.needs := fun h => h ▸ .none k
  cases k with
  | id | typeId | resultId | scopeId | memorySemanticsId => exact hnil (needs_of_readId h)
  | integer => exact hnil (needs_of_readNumber h)
  | typedNumber =>
    rw [readKind] at h
    split at h
    · exact hnil (needs_of_readNumber h)
    · exact hnil (needs_of_readTyped h)
  | string =>
    obtain ⟨s, -, rfl⟩ := readString_eq_ok h
    refine hnil ?_
    split <;> rfl
  | extended =>
    obtain ⟨set, row, -, hrow, rfl⟩ := exists_row_of_readExtended h
    exact .extended (ExtendedSet.mem_instructions_of_ofName? hrow)
  | specOpcode =>
    obtain ⟨named, -, rfl⟩ := exists_op_of_readSpecOpcode h
    exact .specOpcode named
  | named c =>
    rcases readNamed_eq_ok h with ⟨-, mask, -, rfl⟩ | ⟨-, row, hrow, rfl⟩
    · exact .mask ..
    · exact .value (Category.mem_values_of_ofName? hrow)

/-- An operand that asks for others is of a kind. -/
lemma exists_asks_of_readOperand (h : readOperand d op done slot chars = .ok r) {t : Slot}
    (ht : t ∈ r.needs) : ∃ k, slot.kind? = some k ∧ k.Asks t := by
  by_cases hraw : isRaw chars
  · obtain ⟨w, rfl⟩ := exists_raw_of_readOperand hraw h
    simp [Reading.needs] at ht
  by_cases hs : slot = .free
  · subst hs
    unfold readOperand readFree at h
    simp only [hraw, Bool.false_eq_true, if_false] at h
    split at h
    next => simp [← Except.ok.inj h] at ht
    next => simp at h
    next => simp [needs_of_readId h] at ht
  · obtain ⟨k, hk⟩ := exists_kind_of_readOperand (by simpa using hraw) hs h
    exact ⟨k, hk, (wants_of_readKind (readKind_of_readOperand (by simpa using hraw) hk h)).asks ht⟩

/-- No operand of a text asks for a result after it. -/
lemma isInner_of_readOperand (h : readOperand d op done slot chars = .ok r) :
    ∀ t ∈ r.needs, t.isInner := fun _ ht =>
  (exists_asks_of_readOperand h ht).elim fun _ hk => hk.2.isInner

/-- No slot of the pattern is for a result. -/
def IsResultFree (p : Pattern) : Prop := ∀ slot ∈ p, .resultId ∉ slot.kinds

lemma IsResultFree.of_take? (h : IsResultFree p) (ht : p.take? = some (slot, rest)) :
    slot ≠ .resultId ∧ IsResultFree rest := by
  have hall : ∀ t ∈ slot :: rest, .resultId ∉ t.kinds := fun t hmem hkind => by
    obtain ⟨u, hu, hku⟩ := (exists_mem_of_take? ht hmem).2 _ hkind
    exact h u hu hku
  refine ⟨?_, fun t hmem => hall t (.tail _ hmem)⟩
  rintro rfl
  exact hall _ (.head _) (by simp [Slot.kinds])

lemma isResultFree_free : IsResultFree [.free] := by simp [IsResultFree, Slot.kinds]

lemma IsResultFree.afterRaw_eq (h : IsResultFree p) : p.afterRaw = [.free] := by
  refine if_neg fun hmem => h .resultId (by simpa using hmem) ?_
  simp [Slot.kinds]

/-- After a raw word only a result keeps its place. -/
lemma mem_patternAfter_raw {t : Slot} {w : Word} (ht : t ∈ (Reading.raw w).patternAfter slot rest) :
    t = .free ∨ t = .resultId ∧ .resultId ∈ rest := by
  simp only [Reading.patternAfter] at ht
  split at ht
  next => exact .inl (List.mem_singleton.mp ht)
  next =>
  rw [Pattern.afterRaw] at ht
  split at ht
  next hmem =>
    simp only [List.mem_append, List.mem_map, List.mem_cons, List.not_mem_nil, or_false] at ht
    rcases ht with ⟨_, -, rfl⟩ | rfl | rfl
    · exact .inl rfl
    · exact .inr ⟨rfl, by simpa using hmem⟩
    · exact .inl rfl
  next => exact .inl (List.mem_singleton.mp ht)

/-- After an operand come slots that it asks for, slots that came after it before, and free ones. -/
lemma mem_patternAfter {t : Slot} (ht : t ∈ r.patternAfter slot rest) :
    t = .free ∨ t ∈ r.needs ∨ t ∈ rest := by
  have hnext : ∀ next : Pattern, (∀ t ∈ next, t ∈ r.needs ∨ t ∈ rest) →
      t ∈ (if slot = .free && next.isEmpty then [.free] else next) →
      t = .free ∨ t ∈ r.needs ∨ t ∈ rest := by
    intro next hn ht
    split at ht
    · exact .inl (List.mem_singleton.mp ht)
    · exact .inr (hn t ht)
  cases r with
  | raw w => exact (mem_patternAfter_raw ht).imp_right fun ⟨heq, hmem⟩ => .inr (heq ▸ hmem)
  | value ws needs => exact hnext (needs ++ rest) (fun t ht => List.mem_append.mp ht) ht
  | id | importing => exact hnext rest (fun t ht => .inr ht) ht

lemma IsResultFree.patternAfter (h : IsResultFree rest)
    (hread : readOperand d op done slot chars = .ok r) :
    IsResultFree (r.patternAfter slot rest) := by
  intro t ht
  rcases mem_patternAfter ht with rfl | ht | ht
  · simp [Slot.kinds]
  · exact resultId_notMem_kinds (isInner_of_readOperand hread t ht)
  · exact h t ht

/-- Where no slot is for a result, the one in front does not matter. -/
lemma fillSlots_of_isResultFree {result : Token} {finish : Position} {s : State}
    {tokens : List Token} (h : IsResultFree p) :
    fillSlots op (some result) finish s done p tokens = fillSlots op none finish s done p tokens := by
  induction tokens generalizing s done p with
  | nil =>
    rcases hp : p.take? with _ | ⟨slot, rest⟩
    · rw [fillSlots_of_none hp, fillSlots_of_none hp]
    · have hslot := (h.of_take? hp).1
      rw [fillSlots_nil hp (absurd · hslot), fillSlots_nil hp fun _ => rfl]
  | cons token tokens ih =>
    rcases hp : p.take? with _ | ⟨slot, rest⟩
    · rw [fillSlots_of_none hp, fillSlots_of_none hp]
    obtain ⟨hslot, hrest⟩ := h.of_take? hp
    rcases hstart : Token.startInstruction (token :: tokens) with _ | _
    · rw [fillSlots_token hp (absurd · hslot) hstart, fillSlots_token hp (fun _ => rfl) hstart]
      rcases hread : readOperand s.declared op done slot token.chars with refusal | r
      · cases refusal <;> rfl
      · simp only [ih (hrest.patternAfter hread)]
    · rw [fillSlots_start hp (absurd · hslot) hstart, fillSlots_start hp (fun _ => rfl) hstart]

end

/-! ### Lines in step -/

/-- The texts go on with the same words, none of which starts an instruction, and then with the lines
in their two forms. -/
def Ahead (lines : List Line) (ts us : List Token) : Prop :=
  ∃ front, (∀ word ∈ front, IsPlain word) ∧
    ts.map Token.chars = front ++ lines.flatMap (Line.words .assignment) ∧
    us.map Token.chars = front ++ lines.flatMap (Line.words .canonical)

section

variable {lines : List Line} {l : Line} {form : Form} {tail : List (List Char)} {token : Token}
  {tokens : List Token}

lemma ne_equals_of_startsWithOp {word : List Char} (h : Cursor.startsWithOp word = true) :
    word ≠ ['='] := by
  rintro rfl
  simp [Cursor.startsWithOp] at h

/-- A line is the start of an instruction. -/
lemma Line.Proper.start (h : l.Proper) (hw : tokens.map Token.chars = l.words form ++ tail) :
    ∃ first rest, tokens = first :: rest ∧ Token.startInstruction tokens = true ∧
      first.chars ≠ ['='] := by
  have hname : ∀ rest, tokens.map Token.chars = l.name :: rest → ∃ first rest,
      tokens = first :: rest ∧ Token.startInstruction tokens = true ∧ first.chars ≠ ['='] := by
    intro rest hw
    obtain ⟨first, rest, rfl, hfirst, rfl⟩ := List.map_eq_cons_iff.mp hw
    refine ⟨first, rest, rfl, ?_, hfirst ▸ ne_equals_of_startsWithOp h.name⟩
    simp [Token.startInstruction, Token.isOpcodeLike, hfirst, h.name]
  unfold Line.words at hw
  split at hw
  next => exact hname _ hw
  next result hresult =>
    obtain ⟨first, rest, rfl, hfirst, hw⟩ := List.map_eq_cons_iff.mp hw
    obtain ⟨equals, rest, rfl, hequals, hw⟩ := List.map_eq_cons_iff.mp hw
    obtain ⟨name, rest, rfl, hname, hw⟩ := List.map_eq_cons_iff.mp hw
    have hpercent := h.percent result hresult
    refine ⟨first, _, rfl, ?_, fun he => ?_⟩
    · simp [Token.startInstruction, Token.isOpcodeLike, hfirst, hequals, hname, hpercent, h.name]
    · rw [hfirst] at he
      simp [he] at hpercent
  next result _ => exact hname _ hw

variable (hl : ∀ l ∈ lines, l.Proper)

include hl

/-- A word before which no instruction ends is not `=`. -/
lemma ne_equals_of_head? {front : List (List Char)} (hf : ∀ word ∈ front, IsPlain word)
    (hw : tokens.map Token.chars = front ++ lines.flatMap (Line.words form)) :
    ∀ u ∈ tokens.head?, u.chars ≠ ['='] := by
  intro u hu
  rcases front with _ | ⟨word, front⟩
  · rcases lines with _ | ⟨l, lines⟩
    · obtain rfl : tokens = [] := by simpa using hw
      simp at hu
    · rw [List.nil_append, List.flatMap_cons] at hw
      obtain ⟨first, rest, rfl, -, hne⟩ := (hl l (.head _)).start hw
      obtain rfl : first = u := by simpa using hu
      exact hne
  · obtain ⟨first, rest, rfl, rfl, -⟩ := List.map_eq_cons_iff.mp hw
    obtain rfl : first = u := by simpa using hu
    exact (hf _ (.head _)).1

lemma startInstruction_eq_false {front : List (List Char)} (hf : ∀ word ∈ front, IsPlain word)
    (hw : tokens.map Token.chars = front ++ lines.flatMap (Line.words form))
    (htoken : Cursor.startsWithOp token.chars = false) :
    Token.startInstruction (token :: tokens) = false := by
  have hne := ne_equals_of_head? hl hf hw
  rcases tokens with _ | ⟨u, _ | ⟨v, tokens⟩⟩ <;>
    simp_all [Token.startInstruction, Token.isOpcodeLike]

lemma inStep_ahead : InStep .exact (Ahead lines) := by
  rintro ts us ⟨front, hf, ht, hu⟩
  rcases front with _ | ⟨word, front⟩
  · rcases lines with _ | ⟨l, lines⟩
    · obtain ⟨rfl, rfl⟩ : ts = [] ∧ us = [] := by simpa using And.intro ht hu
      exact .finish
    · rw [List.nil_append, List.flatMap_cons] at ht hu
      obtain ⟨a, ts, rfl, hstart, -⟩ := (hl l (.head _)).start ht
      obtain ⟨b, us, rfl, hstart', -⟩ := (hl l (.head _)).start hu
      exact .start hstart hstart'
  · obtain ⟨a, ts, rfl, rfl, ht'⟩ := List.map_eq_cons_iff.mp ht
    obtain ⟨b, us, rfl, hb, hu'⟩ := List.map_eq_cons_iff.mp hu
    obtain ⟨hplain, hf⟩ := List.forall_mem_cons.mp hf
    exact .word (startInstruction_eq_false hl hf ht' hplain.2)
      (startInstruction_eq_false hl hf hu' (hb ▸ hplain.2)) (Renaming.words_exact hb.symm)
      ⟨front, hf, ht', hu'⟩

end

/-! ### The slot for the result -/

section

variable {lines : List Line} {op : Opcode} {finish finish' : Position} {s u : State}
  {done : Array Word} {p : Pattern} {result token : Token} {ts us : List Token}

/-- A word that is an id is read as one, wherever it stands. -/
lemma readOperand_of_percent (d : Declared) (op : Opcode) (done : Array Word) (slot : Slot)
    (h : token.chars.head? = some '%') (hslot : slot = .typeId ∨ slot = .resultId) :
    ∃ name, readOperand d op done slot token.chars = .ok (.id name) ∧
      readId .fatal token.chars = .ok (.id name) ∧
      ∀ rest, Reading.patternAfter slot rest (.id name) = rest := by
  obtain ⟨c, name, hchars⟩ : ∃ c name, token.chars = c :: name :=
    List.exists_cons_of_ne_nil fun hnil => by simp [hnil] at h
  obtain rfl : c = '%' := by simpa [hchars] using h
  refine ⟨String.ofList name, ?_, by rw [hchars]; rfl, fun rest => ?_⟩
  · rcases hslot with rfl | rfl <;> rw [hchars] <;> rfl
  · rcases hslot with rfl | rfl <;> rfl

/-- The result is bound from in front as it is from among the operands. -/
lemma fillSlots_result_alike (hl : ∀ l ∈ lines, l.Proper) (hs : s.Same u) (hp : IsResultFree p)
    (hpercent : result.chars.head? = some '%') (hchars : token.chars = result.chars)
    (h : Ahead lines ts us) :
    Alike Error.Same (EndsAlike .exact (Ahead lines))
      (fillSlots op (some result) finish s done (.resultId :: p) ts)
      (fillSlots op none finish' u done (.resultId :: p) (token :: us)) := by
  obtain ⟨front, hf, -, hu⟩ := id h
  have hpercent' : token.chars.head? = some '%' := hchars ▸ hpercent
  have hstart := startInstruction_eq_false hl hf hu (startsWithOp_of_percent hpercent')
  obtain ⟨name, hread, hid, hafter⟩ :=
    readOperand_of_percent u.declared op done .resultId hpercent' (.inr rfl)
  rw [fillSlots_result rfl, fillSlots_token rfl (fun _ => rfl) hstart, hread, ← hchars, hid]
  refine (hs.acceptToken done (Renaming.readings_exact (.id name))).bind fun x y ⟨hstate, hdone⟩ => ?_
  rw [hafter, hdone, fillSlots_of_isResultFree hp]
  exact fillSlots_alike (inStep_ahead hl) hstate .none h

/-- No type is given where no operand is left. -/
lemma exists_error_of_ahead_nil (hl : ∀ l ∈ lines, l.Proper) {form : Form} {slot : Slot}
    {rest : Pattern} {result? : Option Token} (hp : p.take? = some (slot, rest))
    (hr : slot = .resultId → result? = none) (hslot : slot.isOptional = false)
    (h : ts.map Token.chars = lines.flatMap (Line.words form)) :
    ∃ e, fillSlots op result? finish s done p ts = .error e := by
  rcases lines with _ | ⟨l, lines⟩
  · obtain rfl : ts = [] := by simpa using h
    rw [fillSlots_nil hp hr, hslot]
    exact ⟨_, rfl⟩
  · rw [List.flatMap_cons] at h
    obtain ⟨a, ts, rfl, hstart, -⟩ := (hl l (.head _)).start h
    rw [fillSlots_start hp hr hstart, hslot]
    exact ⟨_, rfl⟩

lemma isPlain_of_percent {word : List Char} (h : word.head? = some '%') : IsPlain word :=
  ⟨fun he => by simp [he] at h, startsWithOp_of_percent h⟩

/-- After the type, be it a raw word, comes the result. -/
lemma exists_patternAfter_typeId {d : Declared} {chars : List Char} {r : Reading}
    (hp : IsResultFree p) (h : readOperand d op done .typeId chars = .ok r) :
    ∃ p', IsResultFree p' ∧ r.patternAfter .typeId (.resultId :: p) = .resultId :: p' := by
  rcases name_or_raw_of_isId (k := .typeId) rfl rfl h with ⟨name, rfl⟩ | ⟨w, rfl⟩
  · exact ⟨p, hp, rfl⟩
  · exact ⟨[.free], isResultFree_free, by simp [Reading.patternAfter, Pattern.afterRaw]⟩

/-- Without any operand the result stands for the missing type in one form, and is then missing
itself. -/
lemma fillSlots_typed_nil {rel : Encoded → Encoded → Prop} (hl : ∀ l ∈ lines, l.Proper)
    (hpercent : result.chars.head? = some '%')
    (ht : ts.map Token.chars = lines.flatMap (Line.words .assignment))
    (hu : us.map Token.chars = result.chars :: lines.flatMap (Line.words .canonical)) :
    Alike (fun _ _ => True) rel
      (fillSlots op (some result) finish s #[] (.typeId :: .resultId :: p) ts)
      (fillSlots op none finish' u #[] (.typeId :: .resultId :: p) us) := by
  have htake : Pattern.take? (.typeId :: .resultId :: p) = some (.typeId, .resultId :: p) := rfl
  obtain ⟨b, us, rfl, hb, hu⟩ := List.map_eq_cons_iff.mp hu
  obtain ⟨e, he⟩ : ∃ e, fillSlots op (some result) finish s #[] (.typeId :: .resultId :: p) ts
      = .error e := exists_error_of_ahead_nil hl htake (by simp) rfl ht
  have hpercent' : b.chars.head? = some '%' := hb ▸ hpercent
  obtain ⟨name, hread, -, hafter⟩ :=
    readOperand_of_percent u.declared op #[] .typeId hpercent' (.inl rfl)
  have hstart : Token.startInstruction (b :: us) = false :=
    startInstruction_eq_false hl (List.forall_mem_nil _) hu (startsWithOp_of_percent hpercent')
  rw [he, fillSlots_token htake (by simp) hstart, hread]
  simp only [hafter]
  rcases acceptToken u #[] b (.id name) with e' | next
  · exact .error trivial
  · obtain ⟨e', he'⟩ : ∃ e', fillSlots op none finish' next.1 next.2 (.resultId :: p) us
        = .error e' := exists_error_of_ahead_nil hl rfl (fun _ => rfl) rfl hu
    change Alike _ _ _ (fillSlots op none finish' next.1 next.2 _ us)
    exact he' ▸ .error trivial

/-- The type is followed by the result in one form and by the other operands in the other. -/
lemma fillSlots_typed_alike (hl : ∀ l ∈ lines, l.Proper) (hs : s.Same u) (hp : IsResultFree p)
    (hpercent : result.chars.head? = some '%') {word : List Char} {front : List (List Char)}
    (hword : IsPlain word) (hf : ∀ word ∈ front, IsPlain word)
    (ht : ts.map Token.chars = word :: (front ++ lines.flatMap (Line.words .assignment)))
    (hu : us.map Token.chars
      = word :: result.chars :: (front ++ lines.flatMap (Line.words .canonical))) :
    Alike (fun _ _ => True) (EndsAlike .exact (Ahead lines))
      (fillSlots op (some result) finish s #[] (.typeId :: .resultId :: p) ts)
      (fillSlots op none finish' u #[] (.typeId :: .resultId :: p) us) := by
  have htake : Pattern.take? (.typeId :: .resultId :: p) = some (.typeId, .resultId :: p) := rfl
  obtain ⟨a, ts, rfl, rfl, ht'⟩ := List.map_eq_cons_iff.mp ht
  obtain ⟨a', us, rfl, ha, hu'⟩ := List.map_eq_cons_iff.mp hu
  obtain ⟨b, us, rfl, hb, hu''⟩ := List.map_eq_cons_iff.mp hu'
  have hstart : Token.startInstruction (a :: ts) = false :=
    startInstruction_eq_false hl hf ht' hword.2
  have hstart' : Token.startInstruction (a' :: b :: us) = false :=
    startInstruction_eq_false hl
      (List.forall_mem_cons.mpr ⟨isPlain_of_percent hpercent, hf⟩) hu' (ha ▸ hword.2)
  rw [fillSlots_token htake (by simp) hstart, fillSlots_token htake (by simp) hstart',
    ← hs.declared, ha]
  rcases hread : readOperand s.declared op #[] .typeId a.chars with refusal | r
  · cases refusal <;> exact .error trivial
  · obtain ⟨p', hp', hafter⟩ := exists_patternAfter_typeId hp hread
    refine (hs.acceptToken #[] (Renaming.readings_exact r)).failing.bind fun x y hsame => ?_
    obtain ⟨hstate, hdone⟩ := hsame
    rw [hafter, hdone]
    exact (fillSlots_result_alike hl hstate hp' hpercent hb ⟨front, hf, ht', hu''⟩).failing

/-- The operands of an instruction with a result are encoded alike in both forms. -/
lemma fillSlots_operands_alike (hl : ∀ l ∈ lines, l.Proper) (hs : s.Same u)
    (hop : op.hasResult = true) (hpercent : result.chars.head? = some '%')
    {front : List (List Char)} (hf : ∀ word ∈ front, IsPlain word)
    (ht : ts.map Token.chars = front ++ lines.flatMap (Line.words .assignment)) {k : ℕ}
    (hk : k = if op.hasType then 1 else 0)
    (hu : us.map Token.chars = front.take k ++ result.chars :: front.drop k
      ++ lines.flatMap (Line.words .canonical)) :
    Alike (fun _ _ => True) (EndsAlike .exact (Ahead lines))
      (fillSlots op (some result) finish s #[] op.operands ts)
      (fillSlots op none finish' u #[] op.operands us) := by
  have hfree : IsResultFree op.constantOperands := fun slot hslot =>
    resultId_notMem_kinds (Opcode.isInner_of_mem hslot)
  rw [op.operands_eq, Opcode.resultSlots, hop]
  by_cases htype : op.hasType
  · obtain rfl : k = 1 := by simpa [htype] using hk
    simp only [htype, if_true, List.cons_append, List.nil_append]
    rcases front with _ | ⟨word, front⟩
    · exact fillSlots_typed_nil hl hpercent ht hu
    · obtain ⟨hword, hf⟩ := List.forall_mem_cons.mp hf
      exact fillSlots_typed_alike hl hs hfree hpercent hword hf ht hu
  · obtain rfl : k = 0 := by simpa [htype] using hk
    obtain ⟨b, us, rfl, hb, hu⟩ := List.map_eq_cons_iff.mp hu
    simp only [htype, Bool.false_eq_true, if_false, if_true, List.nil_append, List.cons_append]
    exact (fillSlots_result_alike hl hs hfree hpercent hb ⟨front, hf, ht, hu⟩).failing

end

/-! ### Line by line -/

section

variable {lines : List Line} {l : Line} {form : Form} {finish finish' : Position} {s u : State}
  {a b : Token} {ts us : List Token}

lemma readHead_of_result {equals name : Token} (hpercent : a.chars.head? = some '%')
    (hequals : equals.chars = ['=']) (hname : name.isOpcodeLike = true) :
    readHead .assignment finish a (equals :: name :: ts) = readOpcode (some a) name ts := by
  have hlike : a.isOpcodeLike = false := startsWithOp_of_percent hpercent
  simp [readHead, hlike, hpercent, hequals, hname]

/-- An instruction is encoded by the opcode that its line names. -/
lemma encodeInstruction_of_opcode? {result? : Option Token} {name : Token} {rest : List Token}
    (hraw : isRaw a.chars = false) (hhead : readHead form finish a rest = readOpcode result? name ts)
    (hname : name.chars = l.name) (hres : form = .assignment → ∀ op, l.opcode? = some op →
      op.hasResult = true → result?.isSome = true) :
    encodeInstruction form finish s a rest = match l.opcode? with
      | none => .error (.text (.unknownOpcode name.text) name.start)
      | some op => fillSlots op result? finish s #[] op.operands ts >>= finishInstruction a op := by
  rw [readOpcode, hname, ← Line.opcode?] at hhead
  rcases hop : l.opcode? with _ | op
  · rw [hop] at hhead
    exact encodeInstruction_of_readHead hraw hhead
  · rw [hop] at hhead
    exact encodeInstruction_of_head hraw hhead fun hform => hres hform op hop

lemma Line.Proper.isOpcodeLike {token : Token} (h : l.Proper) (hname : token.chars = l.name) :
    token.isOpcodeLike = true := by
  rw [Token.isOpcodeLike, hname, h.name]

/-- A line that starts with its opcode is encoded by it. -/
lemma encodeInstruction_of_name (hproper : l.Proper) (hname : a.chars = l.name)
    (hform : form = .assignment → l.result? = none) :
    encodeInstruction form finish s a ts = match l.opcode? with
      | none => .error (.text (.unknownOpcode a.text) a.start)
      | some op => fillSlots op none finish s #[] op.operands ts >>= finishInstruction a op := by
  have hlike := hproper.isOpcodeLike hname
  refine encodeInstruction_of_opcode? (isRaw_of_isOpcodeLike hlike) (if_pos hlike) hname
    fun hf op hop hr => ?_
  have hsome := (hproper.result op hop).mpr hr
  simp [hform hf] at hsome

lemma finishInstruction_alike_ahead (op : Opcode) (e e' : Encoded)
    (h : EndsAlike .exact (Ahead lines) e e') :
    Alike (fun _ _ => True) (EndsAlike .exact (Ahead lines)) (finishInstruction a op e)
      (finishInstruction b op e') :=
  (finishInstruction_alike h).failing

/-- A line without a result is the same in both forms. -/
lemma encodeInstruction_alike_of_none (hproper : l.Proper) (hl : ∀ l ∈ lines, l.Proper)
    (hs : s.Same u) (hresult : l.result? = none)
    (ht : (a :: ts).map Token.chars
      = l.words .assignment ++ lines.flatMap (Line.words .assignment))
    (hu : (b :: us).map Token.chars
      = l.words .canonical ++ lines.flatMap (Line.words .canonical)) :
    Alike (fun _ _ => True) (EndsAlike .exact (Ahead lines))
      (encodeInstruction .assignment finish s a ts)
      (encodeInstruction .canonical finish' u b us) := by
  rw [Line.words_of_none hresult, List.map_cons, List.cons_append, List.cons.injEq] at ht hu
  rw [encodeInstruction_of_name hproper ht.1 fun _ => hresult,
    encodeInstruction_of_name hproper hu.1 (by simp)]
  rcases l.opcode? with _ | op
  · exact .error trivial
  · exact (fillSlots_alike (inStep_ahead hl) hs .none
      ⟨_, hproper.operands, ht.2, hu.2⟩).failing.bind (finishInstruction_alike_ahead op)

/-- A line with a result is encoded alike with it in front and with it among the operands. -/
lemma encodeInstruction_alike_of_some {result : List Char} (hproper : l.Proper)
    (hl : ∀ l ∈ lines, l.Proper) (hs : s.Same u) (hresult : l.result? = some result)
    (ht : (a :: ts).map Token.chars
      = l.words .assignment ++ lines.flatMap (Line.words .assignment))
    (hu : (b :: us).map Token.chars
      = l.words .canonical ++ lines.flatMap (Line.words .canonical)) :
    Alike (fun _ _ => True) (EndsAlike .exact (Ahead lines))
      (encodeInstruction .assignment finish s a ts)
      (encodeInstruction .canonical finish' u b us) := by
  have hpercent := hproper.percent result hresult
  rw [Line.words_assignment hresult, List.map_cons, List.cons_append, List.cons.injEq] at ht
  rw [Line.words_canonical hresult, List.map_cons, List.cons_append, List.cons.injEq] at hu
  obtain ⟨rfl, ht⟩ := ht
  obtain ⟨equals, ts, rfl, hequals, ht⟩ := List.map_eq_cons_iff.mp ht
  obtain ⟨name, ts, rfl, hname, ht⟩ := List.map_eq_cons_iff.mp ht
  have hraw : isRaw a.chars = false := by simp [isRaw, hpercent]
  have hhead : readHead .assignment finish a (equals :: name :: ts) = readOpcode (some a) name ts :=
    readHead_of_result hpercent hequals (hproper.isOpcodeLike hname)
  rw [encodeInstruction_of_opcode? hraw hhead hname fun _ _ _ _ => rfl,
    encodeInstruction_of_name hproper hu.1 (by simp)]
  rcases hop : l.opcode? with _ | op
  · exact .error trivial
  · have hr : op.hasResult = true := (hproper.result op hop).mp (by simp [hresult])
    have hplace : l.place = if op.hasType then 1 else 0 := by simp [Line.place, hop]
    exact (fillSlots_operands_alike hl hs hr hpercent hproper.operands ht hplace hu.2).bind
      (finishInstruction_alike_ahead op)

/-- A line is encoded alike in both forms. -/
lemma encodeInstruction_alike (hproper : l.Proper) (hl : ∀ l ∈ lines, l.Proper) (hs : s.Same u)
    (ht : (a :: ts).map Token.chars
      = l.words .assignment ++ lines.flatMap (Line.words .assignment))
    (hu : (b :: us).map Token.chars
      = l.words .canonical ++ lines.flatMap (Line.words .canonical)) :
    Alike (fun _ _ => True) (EndsAlike .exact (Ahead lines))
      (encodeInstruction .assignment finish s a ts)
      (encodeInstruction .canonical finish' u b us) := by
  rcases hresult : l.result? with _ | result
  · exact encodeInstruction_alike_of_none hproper hl hs hresult ht hu
  · exact encodeInstruction_alike_of_some hproper hl hs hresult ht hu

/-- What starts with a plain word is no instruction unless the word is a raw one. -/
lemma exists_error_of_isPlain (hraw : isRaw a.chars = false) (hplain : IsPlain a.chars)
    (hequals : ∀ token ∈ ts.head?, token.chars ≠ ['=']) :
    ∃ e, encodeInstruction form finish s a ts = .error e := by
  have hlike : a.isOpcodeLike = false := hplain.2
  have hhead : ∃ e, readHead form finish a ts = .error e := by
    unfold readHead
    rw [hlike]
    rcases ts with _ | ⟨equals, ts⟩
    · simp only [Bool.false_eq_true, if_false]
      split
      · exact ⟨_, rfl⟩
      · split <;> exact ⟨_, rfl⟩
    · have hne : equals.chars ≠ ['='] := hequals equals rfl
      simp only [Bool.false_eq_true, if_false, if_pos hne]
      split
      · exact ⟨_, rfl⟩
      · split <;> exact ⟨_, rfl⟩
  obtain ⟨e, he⟩ := hhead
  exact ⟨e, encodeInstruction_of_readHead hraw he⟩

/-- The texts go on with the same words and then with lines in their two forms. -/
def AheadOfLines (ts us : List Token) : Prop :=
  ∃ lines : List Line, (∀ l ∈ lines, l.Proper) ∧ Ahead lines ts us

lemma AheadOfLines.nil_iff (h : AheadOfLines ts us) : ts = [] ↔ us = [] := by
  obtain ⟨lines, hl, front, hf, ht, hu⟩ := h
  rcases front with _ | ⟨word, front⟩
  · rcases lines with _ | ⟨l, lines⟩
    · obtain ⟨rfl, rfl⟩ : ts = [] ∧ us = [] := by simpa using And.intro ht hu
      rfl
    · rw [List.nil_append, List.flatMap_cons] at ht hu
      obtain ⟨a, ts, rfl, -⟩ := (hl l (.head _)).start ht
      obtain ⟨b, us, rfl, -⟩ := (hl l (.head _)).start hu
      simp
  · obtain ⟨a, ts, rfl, -⟩ := List.map_eq_cons_iff.mp ht
    obtain ⟨b, us, rfl, -⟩ := List.map_eq_cons_iff.mp hu
    simp

/-- What comes next is encoded alike. -/
lemma AheadOfLines.encodeInstruction_alike (hs : s.Same u) (h : AheadOfLines (a :: ts) (b :: us)) :
    Alike (fun _ _ => True) (EndsAlike .exact AheadOfLines)
      (encodeInstruction .assignment finish s a ts)
      (encodeInstruction .canonical finish' u b us) := by
  obtain ⟨lines, hl, front, hf, ht, hu⟩ := h
  have hlines : ∀ {lines : List Line}, (∀ l ∈ lines, l.Proper) → ∀ e e',
      EndsAlike .exact (Ahead lines) e e' → EndsAlike .exact AheadOfLines e e' :=
    fun hl _ _ h => ⟨h.state, h.words, _, hl, h.rest⟩
  rcases front with _ | ⟨word, front⟩
  · rcases lines with _ | ⟨l, lines⟩
    · simp at ht
    · obtain ⟨hproper, hl⟩ := List.forall_mem_cons.mp hl
      rw [List.nil_append, List.flatMap_cons] at ht hu
      exact (Assembly.encodeInstruction_alike hproper hl hs ht hu).mono (hlines hl)
  · obtain ⟨rfl, ht'⟩ := List.cons.inj ht
    obtain ⟨hb, hu'⟩ := List.cons.inj hu
    obtain ⟨hplain, hf⟩ := List.forall_mem_cons.mp hf
    rcases hraw : isRaw a.chars with _ | _
    · obtain ⟨e, he⟩ : ∃ e, encodeInstruction .assignment finish s a ts = .error e :=
        exists_error_of_isPlain hraw hplain (ne_equals_of_head? hl hf ht')
      obtain ⟨e', he'⟩ : ∃ e', encodeInstruction .canonical finish' u b us = .error e' :=
        exists_error_of_isPlain (hb ▸ hraw) (hb ▸ hplain) (ne_equals_of_head? hl hf hu')
      rw [he, he']
      exact .error trivial
    · exact ((encodeInstruction_raw_alike (inStep_ahead hl) hs hraw hb.symm
        ⟨front, hf, ht', hu'⟩).mono (hlines hl)).failing

/-- **Lines are encoded alike in both forms.** -/
theorem encodeAll_alike (hl : ∀ l ∈ lines, l.Proper) (hs : s.Same u) (h : Ahead lines ts us)
    (body : Array Word) :
    Alike (fun _ _ => True) (fun x y => x.1.Same y.1 ∧ x.2 = y.2)
      (encodeAll .assignment finish s body ts) (encodeAll .canonical finish' u body us) := by
  have hlines : AheadOfLines ts us := ⟨lines, hl, h⟩
  exact encodeAll_alike_of_step (fun _ _ h => h.nil_iff)
    (fun _ _ _ _ _ _ hs h => h.encodeInstruction_alike hs) hs hlines body

end

/-! ### Whole texts -/

/-- Two texts that spell the same values start with the same symbols. -/
lemma same_startSymbols {o o' : AssemblyOptions} {ts us : List Token}
    (hkeep : o.preserveNumericIds = o'.preserveNumericIds)
    (h : ∀ id, (∃ t ∈ ts, numericId? t.chars = some id) ↔ ∃ t ∈ us, numericId? t.chars = some id) :
    (startSymbols o ts).Same (startSymbols o' us) := by
  have hpreserved : ∀ id, id ∈ (startSymbols o ts).preserved ↔
      id ∈ (startSymbols o' us).preserved := fun id => by
    rw [startSymbols, startSymbols, hkeep]
    split
    · rw [mem_preserveAll, mem_preserveAll, h]
    · rfl
  rw [startSymbols_eq o, startSymbols_eq o']
  exact ⟨rfl, rfl, hpreserved, rfl, rfl⟩

/-- The two forms of a line spell the same values. -/
lemma Line.exists_numericId?_iff (l : Line) (id : Word) :
    (∃ word ∈ l.words .assignment, numericId? word = some id) ↔
      ∃ word ∈ l.words .canonical, numericId? word = some id := by
  rcases hresult : l.result? with _ | result
  · rw [words_of_none hresult, words_of_none hresult]
  · have hequals : numericId? ['='] = none := rfl
    have hoperands : ∀ word, word ∈ l.operands ↔
        word ∈ l.operands.take l.place ∨ word ∈ l.operands.drop l.place := fun word => by
      rw [← List.mem_append, List.take_append_drop]
    rw [words_assignment hresult, words_canonical hresult]
    simp only [List.mem_cons, List.mem_append, hoperands]
    grind

lemma exists_numericId?_iff {lines : List Line} {form : Form} {tokens : List Token}
    (h : tokens.map Token.chars = lines.flatMap (Line.words form)) (id : Word) :
    (∃ t ∈ tokens, numericId? t.chars = some id) ↔
      ∃ l ∈ lines, ∃ word ∈ l.words form, numericId? word = some id := by
  have hmap : (∃ t ∈ tokens, numericId? t.chars = some id) ↔
      ∃ word ∈ tokens.map Token.chars, numericId? word = some id := by simp
  rw [hmap, h]
  simp only [List.mem_flatMap]
  exact ⟨fun ⟨word, ⟨l, hl, hword⟩, hid⟩ => ⟨l, hl, word, hword, hid⟩,
    fun ⟨l, hl, word, hword, hid⟩ => ⟨word, ⟨l, hl, hword⟩, hid⟩⟩

lemma assemble_eq (o : AssemblyOptions) (text : String) : assemble o text
    = encodeAll o.form (TokenText.ofText text).finish
        ⟨startSymbols o (TokenText.ofText text).tokens, .empty⟩ #[] (TokenText.ofText text).tokens
      >>= fun x => .ok ⟨(Header.ofBound x.1.symbols.bound o.generator).words ++ x.2.toList,
        x.1.symbols.bound, x.1.symbols⟩ := by
  rw [assemble]
  dsimp only
  rw [← startSymbols]
  rcases encodeAll o.form (TokenText.ofText text).finish
    ⟨startSymbols o (TokenText.ofText text).tokens, .empty⟩ #[] (TokenText.ofText text).tokens
    with e | x <;> rfl

/-- **The two forms of a text are assembled alike.** The lines of a program, written with each result
in front or among the operands in binary order, give the same words, the same bound and the same
symbols, or fail in both forms. -/
theorem assemble_forms (lines : List Line) (hlines : ∀ l ∈ lines, l.Proper) (generator : Word)
    (keep : Bool) (text text' : String)
    (htext : (TokenText.ofText text).tokens.map Token.chars
      = lines.flatMap (Line.words .assignment))
    (htext' : (TokenText.ofText text').tokens.map Token.chars
      = lines.flatMap (Line.words .canonical)) :
    (∃ a b, assemble ⟨.assignment, generator, keep⟩ text = .ok a ∧
        assemble ⟨.canonical, generator, keep⟩ text' = .ok b ∧
        a.words = b.words ∧ a.bound = b.bound ∧ a.symbols.Same b.symbols) ∨
      ∃ e e', assemble ⟨.assignment, generator, keep⟩ text = .error e ∧
        assemble ⟨.canonical, generator, keep⟩ text' = .error e' := by
  set o : AssemblyOptions := ⟨.assignment, generator, keep⟩
  set o' : AssemblyOptions := ⟨.canonical, generator, keep⟩
  have hstart : State.Same ⟨startSymbols o (TokenText.ofText text).tokens, .empty⟩
      ⟨startSymbols o' (TokenText.ofText text').tokens, .empty⟩ := by
    refine ⟨same_startSymbols rfl fun id => ?_, rfl⟩
    rw [exists_numericId?_iff htext, exists_numericId?_iff htext']
    simp only [Line.exists_numericId?_iff]
  have halike : Alike (fun _ _ => True) (fun a b : Assembly => a.words = b.words ∧
      a.bound = b.bound ∧ a.symbols.Same b.symbols) (assemble o text) (assemble o' text') := by
    rw [assemble_eq, assemble_eq]
    refine (encodeAll_alike hlines hstart
      ⟨[], List.forall_mem_nil _, htext, htext'⟩ #[]).bind fun x y ⟨hsame, hbody⟩ => ?_
    have hbound := hsame.symbols.bound
    exact .ok ⟨by rw [hbound, hbody], hbound, hsame.symbols⟩
  rcases ha : assemble o text with e | a <;> rcases hb : assemble o' text' with e' | b <;>
    rw [ha, hb] at halike <;> cases halike
  next => exact .inr ⟨e, e', rfl, rfl⟩
  next h => exact .inl ⟨a, b, rfl, rfl, h⟩

namespace Sample

def typeLine : Line := ⟨some "%i".toList, "OpTypeInt".toList, ["32".toList, "1".toList]⟩

def constantLine : Line := ⟨some "%n".toList, "OpConstant".toList, ["%i".toList, "-5".toList]⟩

/-- The type and its constant with their results in binary order. -/
def canonicalText : String := "OpTypeInt %i 32 1 OpConstant %i %n -5"

lemma opcode?_typeLine : typeLine.opcode? = some .opTypeInt := by decide +kernel

lemma opcode?_constantLine : constantLine.opcode? = some .opConstant := by decide +kernel

lemma proper_lines : ∀ l ∈ [typeLine, constantLine], l.Proper := by
  have hresult : ∀ {l : Line} {op : Opcode}, l.opcode? = some op → l.result?.isSome = true →
      op.hasResult = true → ∀ op', l.opcode? = some op' →
        (l.result?.isSome = true ↔ op'.hasResult = true) := by
    intro l op hop hl hr op' hop'
    obtain rfl := Option.some.inj (hop.symm.trans hop')
    exact iff_of_true hl hr
  simp only [List.forall_mem_cons]
  refine ⟨⟨by decide, hresult opcode?_typeLine (by decide) (by decide), by decide, by decide⟩,
    ⟨by decide, hresult opcode?_constantLine (by decide) (by decide), by decide, by decide⟩, nofun⟩

lemma words_text : (TokenText.ofText text).tokens.map Token.chars
    = [typeLine, constantLine].flatMap (Line.words .assignment) := by
  rw [tokens_text]
  rfl

lemma words_canonicalText : (TokenText.ofText canonicalText).tokens.map Token.chars
    = [typeLine, constantLine].flatMap (Line.words .canonical) := by
  have htokens : (TokenText.ofText canonicalText).tokens.map Token.chars
      = ["OpTypeInt".toList, "%i".toList, "32".toList, "1".toList, "OpConstant".toList, "%i".toList,
        "%n".toList, "-5".toList] := by cbv
  have htype : typeLine.place = 0 := by
    rw [Line.place, opcode?_typeLine]
    decide
  have hconstant : constantLine.place = 1 := by
    rw [Line.place, opcode?_constantLine]
    decide
  have hfirst : typeLine.words .canonical = _ := Line.words_canonical rfl
  have hsecond : constantLine.words .canonical = _ := Line.words_canonical rfl
  rw [htokens, List.flatMap_cons, List.flatMap_cons, hfirst, hsecond, htype, hconstant]
  rfl

end Sample

/-- A type and a constant of it are assembled alike in both forms. -/
theorem assemble_forms_sample : ∃ a b, assemble ⟨.assignment, 0, false⟩ Sample.text = .ok a ∧
    assemble ⟨.canonical, 0, false⟩ Sample.canonicalText = .ok b ∧
      a.words = b.words ∧ a.bound = b.bound ∧ a.symbols.Same b.symbols := by
  obtain ⟨s', hs⟩ := Sample.says_text 0
  have ha := assemble_of_encodesAll hs
  rcases assemble_forms [Sample.typeLine, Sample.constantLine] Sample.proper_lines 0 false
    Sample.text Sample.canonicalText Sample.words_text Sample.words_canonicalText with h | h
  · exact h
  · obtain ⟨e, e', he, -⟩ := h
    exact absurd (ha.symm.trans he) nofun

end Spirv.Assembly
