import Mathlib
import Spirv.Proofs.Encoding.Steps

/-!
What encoding a text does, told as a derivation.

`Fills` follows the words of a text into the slots of a pattern and keeps for each operand the slot
that it filled, the word that it was read from and the words that it was written as. A `Statement` is
an instruction of a text with its operands. Encoding succeeds exactly where there is a derivation.
-/

namespace Spirv.Assembly

/-- An operand of a text. -/
structure Filled where
  slot : Slot
  token : Token
  reading : Reading
  words : List Word

/-- The words of operands that follow one another. -/
def Filled.wordsOf (fs : List Filled) : List Word := fs.flatMap words

@[simp] lemma Filled.wordsOf_nil : wordsOf [] = [] := rfl

@[simp] lemma Filled.wordsOf_cons (f : Filled) (fs : List Filled) :
    wordsOf (f :: fs) = f.words ++ wordsOf fs := rfl

@[simp] lemma Filled.wordsOf_append (fs gs : List Filled) :
    wordsOf (fs ++ gs) = wordsOf fs ++ wordsOf gs := List.flatMap_append

/-- An instruction of a text: what stands in front of it, its name and its operands. -/
structure Statement where
  /-- The result and the word `=`, or nothing. -/
  front : List Token
  name : Token
  opcode : Opcode
  operands : List Filled

namespace Statement

/-- The words after the first. -/
def operandWords (st : Statement) : List Word := Filled.wordsOf st.operands

/-- The tokens of the operands. A result in front of the instruction is not among them. -/
def operandTokens (st : Statement) : List Token :=
  (if st.front = [] then st.operands else st.operands.filter (·.slot ≠ .resultId)).map (·.token)

def tokens (st : Statement) : List Token := st.front ++ st.name :: st.operandTokens

/-- The words that the instruction is written as. -/
def words (st : Statement) : List Word :=
  Word.joinLead (UInt16.ofNat (st.operandWords.length + 1)) st.opcode.value :: st.operandWords

end Statement

/-- The operands fill the slots of the pattern, from the tokens on and with the words before. -/
inductive Fills (op : Opcode) (result? : Option Token) :
    State → List Word → Pattern → List Token → List Filled → Encoded → Prop where
  | full {s : State} {done : List Word} {p : Pattern} {tokens : List Token}
    (take : p.take? = none) : Fills op result? s done p tokens [] ⟨s, done.toArray, tokens⟩
  | stop {s : State} {done : List Word} {p rest : Pattern} {slot : Slot} {tokens : List Token}
    (take : p.take? = some (slot, rest)) (optional : slot.isOptional)
    (ends : ∀ token ∈ tokens.head?, Token.startInstruction tokens = true ∨
      ∃ fault, readOperand s.declared op done.toArray slot token.chars
        = .error (.mismatch fault)) :
    Fills op result? s done p tokens [] ⟨s, done.toArray, tokens⟩
  | result {s s' : State} {done ws : List Word} {p rest : Pattern} {tokens : List Token}
    {token : Token} {r : Reading} {fs : List Filled} {e : Encoded}
    (take : p.take? = some (.resultId, rest)) (result : result? = some token)
    (read : readId .fatal token.chars = .ok r)
    (accept : s.accept done.toArray r = .ok (s', (done ++ ws).toArray))
    (more : Fills op result? s' (done ++ ws) rest tokens fs e) :
    Fills op result? s done p tokens (⟨.resultId, token, r, ws⟩ :: fs) e
  | operand {s s' : State} {done ws : List Word} {p rest : Pattern} {slot : Slot}
    {tokens : List Token} {token : Token} {r : Reading} {fs : List Filled} {e : Encoded}
    (take : p.take? = some (slot, rest)) (result : slot = .resultId → result? = none)
    (start : Token.startInstruction (token :: tokens) = false)
    (read : readOperand s.declared op done.toArray slot token.chars = .ok r)
    (accept : s.accept done.toArray r = .ok (s', (done ++ ws).toArray))
    (more : Fills op result? s' (done ++ ws) (r.patternAfter slot rest) tokens fs e) :
    Fills op result? s done p (token :: tokens) (⟨slot, token, r, ws⟩ :: fs) e

lemma accept_eq_ok_append {s s' : State} {done done' : Array Word} {r : Reading}
    (h : s.accept done r = .ok (s', done')) : ∃ ws, done' = (done.toList ++ ws).toArray := by
  cases r with
  | id name =>
    rw [State.accept] at h
    split at h
    next id _ _ =>
      obtain ⟨-, rfl⟩ := by simpa using h
      exact ⟨[id], Array.ext' (by simp)⟩
    next => simp at h
  | raw w =>
    obtain ⟨-, rfl⟩ := by simpa [State.accept] using h
    exact ⟨[w], Array.ext' (by simp)⟩
  | value ws needs =>
    obtain ⟨-, rfl⟩ := by simpa [State.accept] using h
    exact ⟨ws, Array.ext' (by simp)⟩
  | importing set ws =>
    obtain ⟨-, rfl⟩ := by simpa [State.accept] using h
    exact ⟨ws, Array.ext' (by simp)⟩

variable {op : Opcode} {result? : Option Token} {finish : Position} {s : State} {done : Array Word}
  {p : Pattern} {tokens : List Token} {e : Encoded}

lemma acceptToken_eq_ok {s' : State} {done' : Array Word} {token : Token} {r : Reading} :
    acceptToken s done token r = .ok (s', done') ↔ s.accept done r = .ok (s', done') := by
  rw [acceptToken]
  rcases s.accept done r with e | next <;> simp

lemma exists_fills (h : fillSlots op result? finish s done p tokens = .ok e) :
    ∃ fs, Fills op result? s done.toList p tokens fs e := by
  fun_induction fillSlots op result? finish s done p tokens with
  | case1 result? s done p tokens hp =>
    obtain rfl := Except.ok.inj h
    exact ⟨[], .full hp⟩
  | case4 s done p tokens rest result r hread s' done' hacc hp hs ih =>
    rw [acceptToken_eq_ok] at hacc
    obtain ⟨ws, rfl⟩ := accept_eq_ok_append hacc
    obtain ⟨fs, hf⟩ := ih h
    exact ⟨_, .result hp rfl hread (by simpa using hacc) hf⟩
  | case5 result? s done p slot rest hp hopt =>
    obtain rfl := Except.ok.inj h
    exact ⟨[], .stop hp hopt (by simp)⟩
  | case7 result? s done p slot rest hp token after hstart hopt =>
    obtain rfl := Except.ok.inj h
    exact ⟨[], .stop hp hopt fun _ _ => .inl hstart⟩
  | case9 result? s done p slot rest hp token after hstart fault hread hopt =>
    obtain rfl := Except.ok.inj h
    exact ⟨[], .stop hp hopt fun t ht => .inr ⟨fault, by simpa [← Option.some.inj ht] using hread⟩⟩
  | case13 result? s done p slot rest hp token after hstart r hread s' done' hacc hs ih =>
    rw [acceptToken_eq_ok] at hacc
    obtain ⟨ws, rfl⟩ := accept_eq_ok_append hacc
    obtain ⟨fs, hf⟩ := ih h
    refine ⟨_, .operand hp ?_ (by simpa using hstart) hread (by simpa using hacc) hf⟩
    rintro rfl
    exact Option.eq_none_iff_forall_ne_some.mpr fun t ht => hs t rfl ht rfl
  | _ => simp at h

lemma fillSlots_of_fills {done : List Word} {fs : List Filled} (finish : Position)
    (h : Fills op result? s done p tokens fs e) :
    fillSlots op result? finish s done.toArray p tokens = .ok e := by
  induction h with
  | full take => exact fillSlots_of_none take
  | @stop _ _ _ _ slot tokens take optional ends =>
    have hslot : slot = .resultId → result? = none := by
      rintro rfl
      simp [Slot.isOptional] at optional
    rcases tokens with _ | ⟨token, tokens⟩
    · rw [fillSlots_nil take hslot, if_pos optional]
    rcases hstart : Token.startInstruction (token :: tokens) with _ | _
    · obtain ⟨fault, hread⟩ := (ends token rfl).resolve_left (by simp [hstart])
      rw [fillSlots_token take hslot hstart, hread]
      exact if_pos optional
    · rw [fillSlots_start take hslot hstart, if_pos optional]
  | result take result read accept more ih =>
    subst result
    rw [fillSlots_result take, read]
    exact bind_eq_ok.mpr ⟨_, acceptToken_eq_ok.mpr accept, ih⟩
  | operand take result start read accept more ih =>
    rw [fillSlots_token take result start, read]
    exact bind_eq_ok.mpr ⟨_, acceptToken_eq_ok.mpr accept, ih⟩

lemma Fills.words_eq {done : List Word} {fs : List Filled}
    (h : Fills op result? s done p tokens fs e) : e.words.toList = done ++ Filled.wordsOf fs := by
  induction h with
  | full | stop => simp
  | result _ _ _ _ _ ih | operand _ _ _ _ _ _ ih => simp [ih]

lemma Fills.tokens_eq_of_none {done : List Word} {fs : List Filled}
    (h : Fills op none s done p tokens fs e) : tokens = fs.map (·.token) ++ e.rest := by
  induction h with
  | full | stop => rfl
  | result _ result => simp at result
  | operand _ _ _ _ _ _ ih => rw [ih, List.map_cons, List.cons_append]

lemma Fills.tokens_eq_of_some {done : List Word} {fs : List Filled} {result : Token}
    (h : Fills op (some result) s done p tokens fs e) :
    tokens = (fs.filter (·.slot ≠ .resultId)).map (·.token) ++ e.rest := by
  induction h with
  | full | stop => rfl
  | result _ _ _ _ _ ih => simpa using ih
  | @operand s s' done ws p rest slot tokens token r fs e _ notResult _ _ _ _ ih =>
    have hslot : slot ≠ .resultId := fun hs => by simpa using notResult hs
    rw [ih, List.filter_cons_of_pos (by simpa using hslot), List.map_cons, List.cons_append]

/-! ### Statements -/

/-- What is built up once the operand words of an instruction are. -/
def finished (op : Opcode) (e : Encoded) : Encoded :=
  ⟨⟨e.state.symbols, e.state.declared.learn op e.words⟩,
    #[Word.joinLead (UInt16.ofNat (e.words.size + 1)) op.value] ++ e.words, e.rest⟩

/-- The statement stands at the start of the tokens. -/
inductive Encodes (form : Form) (s : State) : List Token → Statement → Encoded → Prop where
  | plain {name : Token} {rest : List Token} {op : Opcode} {fs : List Filled} {e : Encoded}
    (like : name.isOpcodeLike = true)
    (op_eq : Opcode.ofName? (String.ofList (name.chars.drop 2)) = some op)
    (result : form = .assignment → op.hasResult = false)
    (fills : Fills op none s [] op.operands rest fs e)
    (size : e.words.size + 1 ≤ maxInstructionWords) :
    Encodes form s (name :: rest) ⟨[], name, op, fs⟩ (finished op e)
  | assigned {result equals name : Token} {rest : List Token} {op : Opcode} {fs : List Filled}
    {e : Encoded} (form_eq : form = .assignment) (unlike : result.isOpcodeLike = false)
    (percent : result.chars.head? = some '%') (equals_eq : equals.chars = ['='])
    (like : name.isOpcodeLike = true)
    (op_eq : Opcode.ofName? (String.ofList (name.chars.drop 2)) = some op)
    (fills : Fills op (some result) s [] op.operands rest fs e)
    (size : e.words.size + 1 ≤ maxInstructionWords) :
    Encodes form s (result :: equals :: name :: rest) ⟨[result, equals], name, op, fs⟩
      (finished op e)

variable {form : Form} {st : Statement}

lemma isRaw_of_isOpcodeLike {token : Token} (h : token.isOpcodeLike = true) :
    isRaw token.chars = false := by
  rw [Token.isOpcodeLike] at h
  unfold Cursor.startsWithOp at h
  split at h
  next heq => simp [heq, isRaw]
  next => simp at h

lemma finishInstruction_eq_ok {first : Token} {e' : Encoded} :
    finishInstruction first op e = .ok e' ↔
      e.words.size + 1 ≤ maxInstructionWords ∧ e' = finished op e := by
  rw [finishInstruction]
  split
  next h => simp [Nat.not_le.mpr h]
  next h => simp [Nat.not_lt.mp h, finished, eq_comm]

/-- A statement is encoded where it stands. -/
lemma encodeInstruction_of_encodes {first : Token} {rest : List Token} (finish : Position)
    (h : Encodes form s (first :: rest) st e) : encodeInstruction form finish s first rest = .ok e := by
  cases h with
  | @plain _ _ op _ _ like op_eq result fills size =>
    have hhead : readHead form finish first rest = .ok ⟨op, none, rest⟩ := by
      simp [readHead, like, readOpcode, op_eq]
    refine (encodeInstruction_eq_ok (isRaw_of_isOpcodeLike like)).mpr ⟨_, hhead, fun hf hr => ?_, _,
      fillSlots_of_fills finish fills, finishInstruction_eq_ok.mpr ⟨size, rfl⟩⟩
    simp [result hf] at hr
  | @assigned _ equals name rest op _ _ form_eq unlike percent equals_eq like op_eq fills size =>
    have hraw : isRaw first.chars = false := by simp [isRaw, percent]
    have hhead : readHead form finish first (equals :: name :: rest) = .ok ⟨op, some first, rest⟩ := by
      simp [readHead, unlike, form_eq, percent, equals_eq, like, readOpcode, op_eq]
    exact (encodeInstruction_eq_ok hraw).mpr ⟨_, hhead, fun _ _ => rfl, _,
      fillSlots_of_fills finish fills, finishInstruction_eq_ok.mpr ⟨size, rfl⟩⟩

lemma exists_head {finish : Position} {first : Token} {rest : List Token} {head : Head}
    (h : readHead form finish first rest = .ok head) :
    (head.result? = none ∧ head.rest = rest ∧ first.isOpcodeLike = true ∧
        Opcode.ofName? (String.ofList (first.chars.drop 2)) = some head.opcode) ∨
      form = .assignment ∧ first.isOpcodeLike = false ∧ first.chars.head? = some '%' ∧
        head.result? = some first ∧ ∃ equals name, rest = equals :: name :: head.rest ∧
          equals.chars = ['='] ∧ name.isOpcodeLike = true ∧
          Opcode.ofName? (String.ofList (name.chars.drop 2)) = some head.opcode := by
  have hop : ∀ {result? : Option Token} {name : Token} {rest : List Token},
      readOpcode result? name rest = .ok head → head.result? = result? ∧ head.rest = rest ∧
        Opcode.ofName? (String.ofList (name.chars.drop 2)) = some head.opcode := by
    intro result? name rest h
    rw [readOpcode] at h
    split at h
    next op hop =>
      obtain rfl := Except.ok.inj h
      exact ⟨rfl, rfl, hop⟩
    next => simp at h
  unfold readHead at h
  split at h
  next hlike =>
    obtain ⟨hres, hrest, hname⟩ := hop h
    exact .inl ⟨hres, hrest, hlike, hname⟩
  next hlike =>
  split at h
  next => simp at h
  next hform =>
  split at h
  next => simp at h
  next hpercent =>
  split at h
  next => simp at h
  next equals rest =>
  split at h
  next => simp at h
  next hequals =>
  split at h
  next => simp at h
  next name rest =>
  split at h
  next hlike' =>
    obtain ⟨hres, rfl, hname⟩ := hop h
    exact .inr ⟨by simpa using hform, by simpa using hlike, by simpa using hpercent, hres,
      equals, name, rfl, by simpa using hequals, hlike', hname⟩
  next => simp at h

/-- An instruction that does not start with a raw word is encoded as a statement. -/
lemma exists_encodes {first : Token} {rest : List Token} (hraw : isRaw first.chars = false)
    (h : encodeInstruction form finish s first rest = .ok e) :
    ∃ st, Encodes form s (first :: rest) st e := by
  obtain ⟨⟨op, result?, rest'⟩, hhead, hres, e', hfill, hfinish⟩ := (encodeInstruction_eq_ok hraw).mp h
  obtain ⟨size, rfl⟩ := finishInstruction_eq_ok.mp hfinish
  obtain ⟨fs, fills⟩ := exists_fills hfill
  rcases exists_head hhead with ⟨rfl, rfl, like, op_eq⟩ |
    ⟨form_eq, unlike, percent, rfl, equals, name, rfl, equals_eq, like, op_eq⟩
  · have hnone : form = .assignment → op.hasResult = false := fun hf =>
      Bool.eq_false_iff.mpr fun hr => by simpa using hres hf hr
    exact ⟨_, .plain like op_eq hnone fills size⟩
  · exact ⟨_, .assigned form_eq unlike percent equals_eq like op_eq fills size⟩

lemma Encodes.words_eq {toks : List Token} (h : Encodes form s toks st e) :
    e.words.toList = st.words := by
  have hfin : ∀ {op : Opcode} {fs : List Filled} {e : Encoded},
      e.words.toList = [] ++ Filled.wordsOf fs → (finished op e).words.toList
        = Word.joinLead (UInt16.ofNat ((Filled.wordsOf fs).length + 1)) op.value
          :: Filled.wordsOf fs := fun {op fs e} h => by
    rw [List.nil_append] at h
    simp [finished, ← h]
  cases h with
  | plain _ _ _ fills => exact hfin fills.words_eq
  | assigned _ _ _ _ _ _ fills => exact hfin fills.words_eq

/-! ### Texts -/

/-- The statements follow one another through all of the tokens. -/
inductive EncodesAll (form : Form) : State → List Token → List Statement → State → Prop where
  | nil {s : State} : EncodesAll form s [] [] s
  | cons {s s' : State} {tokens : List Token} {st : Statement} {sts : List Statement} {e : Encoded}
    (first : Encodes form s tokens st e) (more : EncodesAll form e.state e.rest sts s') :
    EncodesAll form s tokens (st :: sts) s'

/-- The words of statements that follow one another. -/
def codeOf (sts : List Statement) : List Word := sts.flatMap Statement.words

lemma Encodes.append_codeOf {toks : List Token} (h : Encodes form s toks st e) (body : Array Word)
    (sts : List Statement) :
    body ++ e.words ++ (codeOf sts).toArray = body ++ (codeOf (st :: sts)).toArray :=
  Array.ext' (by simp [codeOf, h.words_eq])

lemma encodeAll_of_encodesAll {s' : State} {sts : List Statement} {body : Array Word}
    (h : EncodesAll form s tokens sts s') :
    encodeAll form finish s body tokens = .ok (s', body ++ (codeOf sts).toArray) := by
  induction h generalizing body with
  | nil => simp [encodeAll, codeOf]
  | @cons s s' tokens st sts e first more ih =>
    obtain ⟨t, ts, rfl⟩ : ∃ t ts, tokens = t :: ts := by
      cases first <;> exact ⟨_, _, rfl⟩
    rw [encodeAll_cons, encodeInstruction_of_encodes finish first]
    exact ih.trans (by rw [first.append_codeOf])

/-- A statement leaves the tokens after its own. -/
lemma Encodes.tokens_eq {toks : List Token} (h : Encodes form s toks st e) :
    toks = st.tokens ++ e.rest := by
  cases h with
  | plain _ _ _ fills =>
    simp [Statement.tokens, Statement.operandTokens, finished, ← fills.tokens_eq_of_none]
  | assigned _ _ _ _ _ _ fills =>
    simpa [Statement.tokens, Statement.operandTokens, finished] using fills.tokens_eq_of_some

lemma EncodesAll.tokens_eq {s' : State} {sts : List Statement}
    (h : EncodesAll form s tokens sts s') : tokens = sts.flatMap Statement.tokens := by
  induction h with
  | nil => rfl
  | cons first more ih => rw [first.tokens_eq, ih, List.flatMap_cons]

lemma exists_encodesAll {s' : State} {body body' : Array Word}
    (hraw : ∀ token ∈ tokens, isRaw token.chars = false)
    (h : encodeAll form finish s body tokens = .ok (s', body')) :
    ∃ sts, EncodesAll form s tokens sts s' ∧ body' = body ++ (codeOf sts).toArray := by
  induction hn : tokens.length using Nat.strong_induction_on generalizing s body tokens with
  | _ n ih =>
  subst hn
  rcases tokens with _ | ⟨t, ts⟩
  · obtain ⟨rfl, rfl⟩ := by simpa [encodeAll] using h
    exact ⟨[], .nil, by simp [codeOf]⟩
  rw [encodeAll] at h
  split at h
  next => simp at h
  next e he =>
    obtain ⟨st, hst⟩ := exists_encodes (hraw t (by simp)) he
    obtain ⟨sts, hsts, rfl⟩ := ih e.rest.length
      (Nat.lt_succ_of_le (encodeInstruction_length_le he))
      (fun u hu => hraw u (hst.tokens_eq ▸ List.mem_append_right _ hu)) h rfl
    exact ⟨st :: sts, .cons hst hsts, hst.append_codeOf body sts⟩

end Spirv.Assembly
