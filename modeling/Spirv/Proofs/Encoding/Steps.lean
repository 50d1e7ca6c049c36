import Mathlib
import Spirv.Assembly

/-!
The encoder one step at a time.

Its functions are told by what they do with the next word: how a slot is filled, how words after a raw
one are taken, and when an instruction is encoded. Where encoding succeeds this is said as an
equivalence, so that no other proof has to open the functions.
-/

namespace Spirv

/-- What a computation in two steps comes to. -/
lemma bind_eq_ok {ε α β : Type} {x : Except ε α} {f : α → Except ε β} {b : β} :
    x >>= f = .ok b ↔ ∃ a, x = .ok a ∧ f a = .ok b := by
  cases x <;> simp [bind, Except.bind]

namespace Assembly

/-! ### Filling slots step by step -/

section

variable {op : Opcode} {result? : Option Token} {finish : Position} {s : State} {done : Array Word}
  {p rest : Pattern} {slot : Slot} {token : Token} {tokens : List Token} {r : Reading}

lemma fillSlots_of_none (hp : p.take? = none) :
    fillSlots op result? finish s done p tokens = .ok ⟨s, done, tokens⟩ := by
  rw [fillSlots]
  split <;> simp_all

/-- The result in front of the instruction fills its slot. -/
lemma fillSlots_result (hp : p.take? = some (.resultId, rest)) :
    fillSlots op (some token) finish s done p tokens
      = match readId .fatal token.chars with
        | .error refusal => .error (refusal.toError token.start)
        | .ok r => acceptToken s done token r >>= fun next =>
          fillSlots op (some token) finish next.1 next.2 rest tokens := by
  rw [fillSlots]
  split
  next hp' => simp [hp] at hp'
  next slot' rest' hp' =>
  obtain ⟨rfl, rfl⟩ := by simpa [hp] using hp'
  split
  next ht _ =>
    obtain rfl := Option.some.inj ht
    rcases readId .fatal token.chars with refusal | r
    · rfl
    · dsimp only
      rcases acceptToken s done token r with e | next <;> rfl
  next h => exact (h token rfl rfl rfl).elim

variable (hp : p.take? = some (slot, rest)) (hr : slot = .resultId → result? = none)

include hp hr

lemma fillSlots_nil : fillSlots op result? finish s done p []
    = if slot.isOptional then .ok ⟨s, done, []⟩
      else .error (.text .missingOperandAtEnd finish) := by
  rw [fillSlots]
  split
  next hp' => simp [hp] at hp'
  next slot' rest' hp' =>
  obtain ⟨rfl, rfl⟩ := by simpa [hp] using hp'
  split
  next hslot _ => exact absurd (hr hslot) (Option.some_ne_none _)
  next => rfl

lemma fillSlots_start (hstart : Token.startInstruction (token :: tokens) = true) :
    fillSlots op result? finish s done p (token :: tokens)
      = if slot.isOptional then .ok ⟨s, done, token :: tokens⟩
        else .error (.text .missingOperandAtInstruction token.start) := by
  rw [fillSlots]
  split
  next hp' => simp [hp] at hp'
  next slot' rest' hp' =>
  obtain ⟨rfl, rfl⟩ := by simpa [hp] using hp'
  split
  next hslot _ => exact absurd (hr hslot) (Option.some_ne_none _)
  next => simp [hstart]

lemma fillSlots_token (hstart : Token.startInstruction (token :: tokens) = false) :
    fillSlots op result? finish s done p (token :: tokens)
      = match readOperand s.declared op done slot token.chars with
        | .error (.mismatch fault) =>
          if slot.isOptional then .ok ⟨s, done, token :: tokens⟩
          else .error (.text fault token.start)
        | .error refusal => .error (refusal.toError token.start)
        | .ok r => acceptToken s done token r >>= fun next =>
          fillSlots op result? finish next.1 next.2 (r.patternAfter slot rest) tokens := by
  rw [fillSlots]
  split
  next hp' => simp [hp] at hp'
  next slot' rest' hp' =>
  obtain ⟨rfl, rfl⟩ := by simpa [hp] using hp'
  split
  next hslot _ => exact absurd (hr hslot) (Option.some_ne_none _)
  next =>
    simp only [hstart, Bool.false_eq_true, if_false]
    rcases readOperand s.declared op done slot token.chars with refusal | r
    · cases refusal <;> rfl
    · dsimp only
      rcases acceptToken s done token r with e | next <;> rfl

end

/-! ### Encoding one instruction after the other -/

section

variable {form : Form} {finish : Position} {s : State} {first : Token} {rest : List Token}

lemma fillRaw_token {done : Array Word} {token : Token}
    (hstart : Token.startInstruction (token :: rest) = false) :
    fillRaw first s done (token :: rest)
      = if token.chars = ['='] then .error (.text (.equalsAfterRaw first.text) token.start)
        else match if isRaw token.chars then readRaw token.chars else readFree token.chars with
          | .error (.mismatch _) =>
            .error (.text (.badWordAfterRaw first.text token.text) token.start)
          | .error refusal => .error (refusal.toError token.start)
          | .ok r => acceptToken s done token r >>= fun next =>
            fillRaw first next.1 next.2 rest := by
  rw [fillRaw, hstart]
  simp only [Bool.false_eq_true, if_false]
  rcases if isRaw token.chars then readRaw token.chars else readFree token.chars with refusal | r
  · cases refusal <;> rfl
  · dsimp only
    rcases acceptToken s done token r with e | next <;> rfl

/-- After a raw word a word is taken, and then the others are. -/
lemma fillRaw_cons_eq_ok {done : Array Word} {token : Token} {e : Encoded}
    (hstart : Token.startInstruction (token :: rest) = false) :
    fillRaw first s done (token :: rest) = .ok e ↔ token.chars ≠ ['='] ∧ ∃ r next,
      (if isRaw token.chars then readRaw token.chars else readFree token.chars) = .ok r ∧
        acceptToken s done token r = .ok next ∧ fillRaw first next.1 next.2 rest = .ok e := by
  rw [fillRaw_token hstart]
  by_cases hequals : token.chars = ['=']
  · simp [hequals]
  rw [if_neg hequals]
  rcases if isRaw token.chars then readRaw token.chars else readFree token.chars with refusal | r
  · cases refusal <;> simp
  · simp only [bind_eq_ok, Except.ok.injEq, exists_and_left, exists_eq_left', hequals,
      ne_eq, not_false_eq_true, true_and]

lemma encodeInstruction_raw (hraw : isRaw first.chars = true) :
    encodeInstruction form finish s first rest
      = match readRaw first.chars with
        | .error refusal => .error (refusal.toError first.start)
        | .ok r => acceptToken s #[] first r >>= fun next =>
          fillRaw first next.1 next.2 rest >>= fun e =>
            if maxInstructionWords < e.words.size then
              .error (.text (.instructionTooLong e.words.size) first.start)
            else .ok e := by
  rw [encodeInstruction, if_pos hraw]
  rcases readRaw first.chars with refusal | r
  · rfl
  · dsimp only
    rcases acceptToken s #[] first r with e | ⟨s', done⟩
    · rfl
    · dsimp only [bind, Except.bind]
      rcases fillRaw first s' done rest with e | e <;> rfl

lemma encodeInstruction_raw_eq_ok {e : Encoded} (hraw : isRaw first.chars = true) :
    encodeInstruction form finish s first rest = .ok e ↔ ∃ r next, readRaw first.chars = .ok r ∧
      acceptToken s #[] first r = .ok next ∧ fillRaw first next.1 next.2 rest = .ok e ∧
        e.words.size ≤ maxInstructionWords := by
  have hsize : ∀ {e' : Encoded}, (if maxInstructionWords < e'.words.size then
      Except.error (Error.text (.instructionTooLong e'.words.size) first.start) else .ok e') = .ok e ↔
        e'.words.size ≤ maxInstructionWords ∧ e' = e := by
    intro e'
    split
    next hlong =>
      simp [hlong.not_ge]
    next hfits =>
      simp [not_lt.mp hfits]
  rw [encodeInstruction_raw hraw]
  rcases readRaw first.chars with refusal | r
  · simp
  · simp only [bind_eq_ok, hsize, Except.ok.injEq, exists_and_left, exists_eq_left',
      exists_eq_right_right]

/-- An instruction is encoded by filling the slots of its opcode. -/
lemma encodeInstruction_of_head {head : Head} (hraw : isRaw first.chars = false)
    (hhead : readHead form finish first rest = .ok head)
    (hres : form = .assignment → head.opcode.hasResult = true → head.result?.isSome = true) :
    encodeInstruction form finish s first rest
      = fillSlots head.opcode head.result? finish s #[] head.opcode.operands head.rest
        >>= finishInstruction first head.opcode := by
  rw [encodeInstruction, hraw, hhead]
  have hmissing : (form = .assignment && head.opcode.hasResult && head.result?.isNone) = false := by
    rw [← Bool.not_eq_true]
    intro h
    obtain ⟨⟨hform, hop⟩, hnone⟩ := by simpa using h
    simpa [hnone] using hres hform hop
  simp only [Bool.false_eq_true, if_false, hmissing]
  rcases fillSlots head.opcode head.result? finish s #[] head.opcode.operands head.rest with e | e <;>
    rfl

lemma encodeInstruction_of_readHead {e : Error} (hraw : isRaw first.chars = false)
    (hhead : readHead form finish first rest = .error e) :
    encodeInstruction form finish s first rest = .error e := by
  rw [encodeInstruction, hraw, hhead]
  rfl

/-- An instruction that does not start with a raw word is encoded exactly if it has a head, the slots
of its opcode are filled, and it is not too long. -/
lemma encodeInstruction_eq_ok {e : Encoded} (hraw : isRaw first.chars = false) :
    encodeInstruction form finish s first rest = .ok e ↔ ∃ head,
      readHead form finish first rest = .ok head ∧
      (form = .assignment → head.opcode.hasResult = true → head.result?.isSome = true) ∧ ∃ e',
        fillSlots head.opcode head.result? finish s #[] head.opcode.operands head.rest = .ok e' ∧
        finishInstruction first head.opcode e' = .ok e := by
  constructor
  · intro h
    rcases hhead : readHead form finish first rest with e' | head
    · rw [encodeInstruction_of_readHead hraw hhead] at h
      simp at h
    have hres : form = .assignment → head.opcode.hasResult = true → head.result?.isSome = true := by
      intro hform hop
      by_contra hnone
      rw [encodeInstruction, hraw, hhead] at h
      simp [hform, hop, Option.not_isSome_iff_eq_none.mp hnone] at h
    rw [encodeInstruction_of_head hraw hhead hres] at h
    exact ⟨head, rfl, hres, bind_eq_ok.mp h⟩
  · rintro ⟨head, hhead, hres, hfill⟩
    rw [encodeInstruction_of_head hraw hhead hres]
    exact bind_eq_ok.mpr hfill

lemma encodeAll_cons {body : Array Word} : encodeAll form finish s body (first :: rest)
    = encodeInstruction form finish s first rest >>= fun e =>
      encodeAll form finish e.state (body ++ e.words) e.rest := by
  rw [encodeAll]
  split
  next h => rw [h]; rfl
  next h => rw [h]; rfl

end

end Assembly

end Spirv
