import Mathlib
import Spirv.Proofs.Encoding.Causality

/-!
The instructions of a text, also where some of them start with a raw word.

An instruction that starts with a raw word is no statement: it names no opcode, and its words fill
no slots. It goes on to the next instruction. A text that is assembled is made of parts of both sorts,
and the body of the module is made of their words.
-/

namespace Spirv.Assembly

/-- An instruction of a text. -/
inductive Part where
  | statement (st : Statement)
  /-- One that starts with a raw word. -/
  | raw (tokens : List Token) (words : List Word)

namespace Part

def tokens : Part → List Token
  | statement st => st.tokens
  | raw tokens _ => tokens

def words : Part → List Word
  | statement st => st.words
  | raw _ words => words

end Part

/-- The part stands at the start of the tokens. -/
inductive EncodesPart (form : Form) (s : State) : List Token → Part → Encoded → Prop where
  | statement {tokens : List Token} {st : Statement} {e : Encoded}
    (encodes : Encodes form s tokens st e) : EncodesPart form s tokens (.statement st) e
  | raw {first : Token} {taken : List Token} {w : Word} {e : Encoded}
    (raw : isRaw first.chars = true) (read : readRaw first.chars = .ok (.raw w))
    (fill : fillRaw first s #[w] (taken ++ e.rest) = .ok e)
    (size : e.words.size ≤ maxInstructionWords) :
    EncodesPart form s (first :: (taken ++ e.rest)) (.raw (first :: taken) e.words.toList) e

/-- The parts follow one another through all of the tokens. -/
inductive EncodesParts (form : Form) : State → List Token → List Part → State → Prop where
  | nil {s : State} : EncodesParts form s [] [] s
  | cons {s s' : State} {tokens : List Token} {p : Part} {ps : List Part} {e : Encoded}
    (first : EncodesPart form s tokens p e) (more : EncodesParts form e.state e.rest ps s') :
    EncodesParts form s tokens (p :: ps) s'

variable {form : Form} {finish : Position} {s s' : State} {first : Token}
  {tokens rest : List Token} {p p' : Part} {ps ps' : List Part} {e e' : Encoded}

/-! ### One part -/

lemma acceptToken_raw (s : State) (done : Array Word) (token : Token) (w : Word) :
    acceptToken s done token (.raw w) = .ok (s, done.push w) :=
  acceptToken_eq_ok.mpr rfl

lemma exists_encodesPart (h : encodeInstruction form finish s first rest = .ok e) :
    ∃ p, EncodesPart form s (first :: rest) p e := by
  rcases hraw : isRaw first.chars with _ | _
  · obtain ⟨st, hst⟩ := exists_encodes hraw h
    exact ⟨.statement st, .statement hst⟩
  · obtain ⟨r, next, hread, hacc, hfill, hsize⟩ := (encodeInstruction_raw_eq_ok hraw).mp h
    obtain ⟨w, rfl⟩ := exists_raw_of_readRaw hread
    obtain rfl := Except.ok.inj ((acceptToken_raw s #[] first w).symm.trans hacc)
    obtain ⟨taken, rfl, -⟩ := closed_of_fillRaw hfill
    exact ⟨_, .raw hraw hread hfill hsize⟩

lemma encodeInstruction_of_encodesPart (finish : Position)
    (h : EncodesPart form s (first :: rest) p e) :
    encodeInstruction form finish s first rest = .ok e := by
  generalize htokens : first :: rest = tokens at h
  cases h with
  | statement encodes => exact encodeInstruction_of_encodes finish (htokens ▸ encodes)
  | raw raw read fill size =>
    obtain ⟨rfl, rfl⟩ := List.cons.inj htokens
    exact (encodeInstruction_raw_eq_ok raw).mpr
      ⟨_, _, read, acceptToken_raw s #[] first _, fill, size⟩

lemma EncodesPart.exists_cons (h : EncodesPart form s tokens p e) :
    ∃ first rest, tokens = first :: rest := by
  cases h with
  | statement encodes => cases encodes <;> exact ⟨_, _, rfl⟩
  | raw => exact ⟨_, _, rfl⟩

lemma EncodesPart.tokens_eq (h : EncodesPart form s tokens p e) : tokens = p.tokens ++ e.rest := by
  cases h with
  | statement encodes => exact encodes.tokens_eq
  | raw => rfl

lemma EncodesPart.words_eq (h : EncodesPart form s tokens p e) : e.words.toList = p.words := by
  cases h with
  | statement encodes => exact encodes.words_eq
  | raw => rfl

/-- Names that have ids keep them in a part. -/
lemma EncodesPart.extends (h : EncodesPart form s tokens p e) :
    s.symbols.Extends e.state.symbols := by
  obtain ⟨first, rest, rfl⟩ := h.exists_cons
  have hnames : ∀ token ∈ first :: rest, ∀ n, token.chars = '%' :: n →
      String.ofList n ∈ idNames (first :: rest) := fun token htoken n hn =>
    mem_idNames.mpr ⟨token, htoken, n, hn, rfl⟩
  exact (numbers_of_encodeInstruction (encodeInstruction_of_encodesPart ⟨0, 0, 0⟩ h)
    hnames).1.extends

/-! ### Part after part -/

lemma exists_encodesParts {body : Array Word} {x : State × Array Word}
    (h : encodeAll form finish s body tokens = .ok x) :
    ∃ ps, EncodesParts form s tokens ps x.1 := by
  fun_induction encodeAll form finish s body tokens with
  | case1 =>
    obtain rfl := Except.ok.inj h
    exact ⟨[], .nil⟩
  | case2 => simp at h
  | case3 s body first rest e henc ih =>
    obtain ⟨p, hp⟩ := exists_encodesPart henc
    obtain ⟨ps, hps⟩ := ih h
    exact ⟨p :: ps, .cons hp hps⟩

lemma encodeAll_of_encodesParts {body : Array Word} (finish : Position)
    (h : EncodesParts form s tokens ps s') :
    encodeAll form finish s body tokens = .ok (s', body ++ (ps.flatMap Part.words).toArray) := by
  induction h generalizing body with
  | nil => simp [encodeAll]
  | cons first more ih =>
    obtain ⟨t, ts, rfl⟩ := first.exists_cons
    rw [encodeAll_cons, encodeInstruction_of_encodesPart finish first]
    refine ih.trans ?_
    rw [List.flatMap_cons, ← first.words_eq]
    exact congrArg _ (congrArg _ (Array.ext' (by simp)))

lemma EncodesParts.tokens_eq (h : EncodesParts form s tokens ps s') :
    tokens = ps.flatMap Part.tokens := by
  induction h with
  | nil => rfl
  | cons first more ih => rw [first.tokens_eq, ih, List.flatMap_cons]

lemma EncodesParts.extends (h : EncodesParts form s tokens ps s') :
    s.symbols.Extends s'.symbols := by
  induction h with
  | nil => exact .refl _
  | cons first _ ih => exact first.extends.trans ih

/-! ### No other parts -/

section

variable {op : Opcode} {result? : Option Token} {done : List Word} {pattern : Pattern}
  {fs fs' : List Filled} {st st' : Statement}

-- Both derivations are followed side by side; where they would part, one of them is impossible.
lemma Fills.eq (h : Fills op result? s done pattern tokens fs e)
    (h' : Fills op result? s done pattern tokens fs' e') : fs = fs' := by
  induction h generalizing fs' with
  | full take =>
    cases h' with
    | full | stop => rfl
    | result take' | operand take' => simp [take] at take'
  | stop take optional ends =>
    cases h' with
    | full | stop => rfl
    | result take' =>
      obtain ⟨rfl, rfl⟩ := by simpa [take] using take'
      simp [Slot.isOptional] at optional
    | operand take' _ start read =>
      obtain ⟨rfl, rfl⟩ := by simpa [take] using take'
      rcases ends _ rfl with hstart | ⟨fault, hread⟩
      · simp [hstart] at start
      · simp [hread] at read
  | result take result read accept _ ih =>
    cases h' with
    | full take' => simp [take] at take'
    | stop take' optional =>
      obtain ⟨rfl, rfl⟩ := by simpa [take] using take'
      simp [Slot.isOptional] at optional
    | result take' result' read' accept' more' =>
      obtain rfl := by simpa [take] using take'
      obtain rfl := Option.some.inj (result.symm.trans result')
      obtain rfl := Except.ok.inj (read.symm.trans read')
      obtain ⟨rfl, hwords⟩ := Prod.mk.inj (Except.ok.inj (accept.symm.trans accept'))
      obtain rfl := by simpa using hwords
      rw [ih more']
    | operand take' result' =>
      obtain ⟨rfl, rfl⟩ := by simpa [take] using take'
      simp [result] at result'
  | operand take result start read accept _ ih =>
    cases h' with
    | full take' => simp [take] at take'
    | stop take' optional ends =>
      obtain ⟨rfl, rfl⟩ := by simpa [take] using take'
      rcases ends _ rfl with hstart | ⟨fault, hread⟩
      · simp [hstart] at start
      · simp [hread] at read
    | result take' result' =>
      obtain ⟨rfl, rfl⟩ := by simpa [take] using take'
      simp [result'] at result
    | operand take' result' start' read' accept' more' =>
      obtain ⟨rfl, rfl⟩ := by simpa [take] using take'
      obtain rfl := Except.ok.inj (read.symm.trans read')
      obtain ⟨rfl, hwords⟩ := Prod.mk.inj (Except.ok.inj (accept.symm.trans accept'))
      obtain rfl := by simpa using hwords
      rw [ih more']

lemma Encodes.eq (h : Encodes form s tokens st e) (h' : Encodes form s tokens st' e') :
    st = st' := by
  cases h with
  | plain like op_eq _ fills =>
    cases h' with
    | plain _ op_eq' _ fills' =>
      obtain rfl := Option.some.inj (op_eq.symm.trans op_eq')
      rw [fills.eq fills']
    | assigned _ unlike => simp [like] at unlike
  | assigned _ unlike _ _ _ op_eq fills =>
    cases h' with
    | plain like => simp [like] at unlike
    | assigned _ _ _ _ _ op_eq' fills' =>
      obtain rfl := Option.some.inj (op_eq.symm.trans op_eq')
      rw [fills.eq fills']

lemma Encodes.isRaw_eq_false (h : Encodes form s (first :: rest) st e) :
    isRaw first.chars = false := by
  cases h with
  | plain like => exact isRaw_of_isOpcodeLike like
  | assigned _ _ percent => simp [isRaw, percent]

lemma EncodesPart.eq_raw (h : EncodesPart form s (first :: rest) p e)
    (hraw : isRaw first.chars = true) : p = .raw p.tokens p.words := by
  generalize htokens : first :: rest = tokens at h
  cases h with
  | statement encodes =>
    subst htokens
    simp [encodes.isRaw_eq_false] at hraw
  | raw => rfl

lemma EncodesPart.exists_statement (h : EncodesPart form s (first :: rest) p e)
    (hraw : isRaw first.chars = false) :
    ∃ st, p = .statement st ∧ Encodes form s (first :: rest) st e := by
  generalize htokens : first :: rest = tokens at h ⊢
  cases h with
  | statement encodes => exact ⟨_, rfl, encodes⟩
  | raw raw =>
    obtain ⟨rfl, -⟩ := List.cons.inj htokens
    simp [hraw] at raw

lemma EncodesPart.eq (h : EncodesPart form s tokens p e)
    (h' : EncodesPart form s tokens p' e') : p = p' ∧ e = e' := by
  obtain ⟨first, rest, rfl⟩ := h.exists_cons
  obtain rfl := Except.ok.inj ((encodeInstruction_of_encodesPart ⟨0, 0, 0⟩ h).symm.trans
    (encodeInstruction_of_encodesPart ⟨0, 0, 0⟩ h'))
  refine ⟨?_, rfl⟩
  rcases hraw : isRaw first.chars with _ | _
  · obtain ⟨st, rfl, hst⟩ := h.exists_statement hraw
    obtain ⟨st', rfl, hst'⟩ := h'.exists_statement hraw
    rw [hst.eq hst']
  · have htokens := List.append_cancel_right (h.tokens_eq.symm.trans h'.tokens_eq)
    rw [h.eq_raw hraw, h'.eq_raw hraw, htokens, ← h.words_eq, ← h'.words_eq]

/-- The parts of a text are determined. -/
lemma EncodesParts.eq {s'' : State} (h : EncodesParts form s tokens ps s')
    (h' : EncodesParts form s tokens ps' s'') : ps = ps' := by
  induction h generalizing ps' with
  | nil =>
    cases h' with
    | nil => rfl
    | cons first =>
      obtain ⟨_, _, htokens⟩ := first.exists_cons
      simp at htokens
  | cons first more ih =>
    cases h' with
    | nil =>
      obtain ⟨_, _, htokens⟩ := first.exists_cons
      simp at htokens
    | cons first' more' =>
      obtain ⟨rfl, rfl⟩ := first.eq first'
      rw [ih more']

end

/-! ### Texts -/

/-- The text is made of the parts. -/
def Consists (o : AssemblyOptions) (text : String) (ps : List Part) : Prop :=
  ∃ s', EncodesParts o.form ⟨startSymbols o (TokenText.ofText text).tokens, .empty⟩
    (TokenText.ofText text).tokens ps s'

lemma encodesParts_of_encodesAll {sts : List Statement} (h : EncodesAll form s tokens sts s') :
    EncodesParts form s tokens (sts.map .statement) s' := by
  induction h with
  | nil => exact .nil
  | cons first _ ih => exact .cons (.statement first) ih

lemma Says.consists {o : AssemblyOptions} {text : String} {sts : List Statement}
    (h : Says o text sts) : Consists o text (sts.map .statement) :=
  h.imp fun _ hsts => encodesParts_of_encodesAll hsts

/-- A text without raw words is assembled to the words of its statements. -/
lemma exists_statements {o : AssemblyOptions} {text : String} {a : Assembly} (h : assemble o text = .ok a)
    (hraw : ∀ token ∈ (TokenText.ofText text).tokens, isRaw token.chars = false) :
    (∃ sts, Says o text sts) ∧ ∀ {sts : List Statement}, Says o text sts →
      a.words.drop Header.wordCount = codeOf sts := by
  refine ⟨?_, fun ⟨s', hsts⟩ => ?_⟩
  · obtain ⟨x, hx, -⟩ := exists_encodeAll h
    obtain ⟨sts, hsts, -⟩ := exists_encodesAll hraw hx
    exact ⟨sts, x.1, hsts⟩
  · obtain rfl := Except.ok.inj (h.symm.trans (assemble_of_encodesAll hsts))
    exact List.drop_left' rfl

/-- A text is made of its parts in one way. -/
theorem Consists.eq {o : AssemblyOptions} {text : String} (h : Consists o text ps)
    (h' : Consists o text ps') : ps = ps' := by
  obtain ⟨s', hps⟩ := h
  obtain ⟨s'', hps'⟩ := h'
  exact hps.eq hps'

/-- A text is assembled to the words of its parts. -/
lemma exists_consists {o : AssemblyOptions} {text : String} {a : Assembly}
    (h : assemble o text = .ok a) : (∃ ps, Consists o text ps) ∧ ∀ {ps : List Part} {s' : State},
      EncodesParts o.form ⟨startSymbols o (TokenText.ofText text).tokens, .empty⟩
        (TokenText.ofText text).tokens ps s' →
      a.words.drop Header.wordCount = ps.flatMap Part.words ∧ a.symbols = s'.symbols := by
  obtain ⟨x, hx, hbody, hsymbols⟩ := exists_encodeAll h
  refine ⟨?_, fun hps => ?_⟩
  · obtain ⟨ps, hps⟩ := exists_encodesParts hx
    exact ⟨ps, x.1, hps⟩
  · obtain rfl := Except.ok.inj (hx.symm.trans (encodeAll_of_encodesParts _ hps))
    exact ⟨by simpa using hbody, hsymbols⟩

end Spirv.Assembly
