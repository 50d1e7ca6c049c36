import Mathlib
import Spirv.Proofs.Encoding.Places
import Spirv.Proofs.Encoding.Spacing

/-!
Text that is put after a text.

The last instruction of a text ends where the text does, and it ends there as well where another
instruction starts. Every word before has been cut off and put down, so what comes after changes
neither the words nor their ids. The text that comes after is encoded from the state that the first
one leaves, and if it fails, it fails there.
-/

namespace Spirv

open Text

namespace SymbolTable

variable {t t' : SymbolTable} {name : String} {id : Word} {names : List String}

lemma extends_assign (h : t.assign name = .ok (id, t')) : t.Extends t' := by
  rcases assign_cases h with ⟨-, rfl⟩ | ⟨hnone, -, -, -, rfl⟩ | ⟨hnone, -, -, rfl⟩
  · exact .refl _
  · exact extends_bind t.next hnone
  · exact extends_bind (id + 1) hnone

/-- Names that have ids keep them. -/
lemma Numbers.extends (h : Numbers names t t') : t.Extends t' := by
  induction h with
  | refl => exact .refl _
  | tail _ hstep ih =>
    obtain ⟨name, -, id, ha⟩ := hstep
    exact ih.trans (extends_assign ha)

end SymbolTable

namespace Assembly

variable {form : Form} {op : Opcode} {finish : Position} {s s' : State} {e : Encoded}
  {tokens more : List Token} {first : Token} {st : Statement}

/-! ### The last word of a text -/

/-- The token is cut off alike whatever comes after it, and it is not `=`. -/
def Closed (token : Token) : Prop := IsWord token.chars ∧ token.chars ≠ ['=']

lemma Fills.closed {result? : Option Token} {done : List Word} {p : Pattern} {fs : List Filled}
    (h : Fills op result? s done p tokens fs e) : ∀ f ∈ fs, Closed f.token := by
  induction h with
  | full | stop => exact List.forall_mem_nil _
  | result _ _ read accept _ ih =>
    exact List.forall_mem_cons.mpr ⟨(spelling_of_readId read).isWord accept, ih⟩
  | operand _ _ _ read accept _ ih =>
    exact List.forall_mem_cons.mpr ⟨(spelling_of_readOperand read).isWord accept, ih⟩

/-- The name of an opcode is closed. -/
lemma closed_of_ofName? {name : Token} (hlike : name.isOpcodeLike = true)
    (h : Opcode.ofName? (String.ofList (name.chars.drop 2)) = some op) : Closed name := by
  have hbare := isBare_of_isName (Opcode.isName_of_ofName? h)
  rw [String.toList_ofList] at hbare
  rw [Token.isOpcodeLike] at hlike
  unfold Cursor.startsWithOp at hlike
  split at hlike
  next c r hchars =>
    rw [hchars] at hbare
    have hplain : ∀ x ∈ 'O' :: 'p' :: c :: r, isPlain x = true :=
      List.forall_mem_cons.mpr ⟨by decide, List.forall_mem_cons.mpr ⟨by decide, fun x hx =>
        isPlain_of_isBare (hbare.2 x hx)⟩⟩
    exact ⟨hchars ▸ isWord_of_isPlain (by simp) hplain, by simp [hchars]⟩
  next => simp at hlike

lemma closed_of_fillRaw {done : Array Word} (h : fillRaw first s done tokens = .ok e) :
    ∃ taken, tokens = taken ++ e.rest ∧ ∀ token ∈ taken, Closed token := by
  induction tokens generalizing s done with
  | nil =>
    obtain rfl := Except.ok.inj h
    exact ⟨[], rfl, List.forall_mem_nil _⟩
  | cons token tokens ih =>
    rcases hstart : Token.startInstruction (token :: tokens) with _ | _
    · obtain ⟨-, r, next, hread, hacc, hfill⟩ := (fillRaw_cons_eq_ok hstart).mp h
      obtain ⟨taken, rfl, htaken⟩ := ih hfill
      exact ⟨token :: taken, rfl, List.forall_mem_cons.mpr
        ⟨(spelling_of_readFreely hread).isWord (acceptToken_eq_ok.mp hacc), htaken⟩⟩
    · rw [fillRaw, if_pos hstart] at h
      obtain rfl := Except.ok.inj h
      exact ⟨[], rfl, List.forall_mem_nil _⟩

/-- An instruction ends in a closed token. -/
lemma closed_of_encodeInstruction {rest : List Token}
    (h : encodeInstruction form finish s first rest = .ok e) :
    ∃ front taken, first :: rest = front ++ taken ++ e.rest ∧ taken ≠ [] ∧
      ∀ token ∈ taken, Closed token := by
  rcases hraw : isRaw first.chars with _ | _
  · obtain ⟨st, hst⟩ := exists_encodes hraw h
    refine ⟨st.front, st.name :: st.operandTokens, hst.tokens_eq, List.cons_ne_nil _ _, ?_⟩
    have hoperands : ∀ {fs : List Filled} {q : Filled → Bool}, (∀ f ∈ fs, Closed f.token) →
        ∀ token ∈ (fs.filter q).map (·.token), Closed token := by
      rintro fs q hfs token htoken
      obtain ⟨f, hf, rfl⟩ := List.mem_map.mp htoken
      exact hfs f (List.mem_of_mem_filter hf)
    cases hst with
    | plain like op_eq _ fills =>
      refine List.forall_mem_cons.mpr ⟨closed_of_ofName? like op_eq, ?_⟩
      simpa [Statement.operandTokens] using fills.closed
    | assigned _ _ _ _ like op_eq fills =>
      exact List.forall_mem_cons.mpr ⟨closed_of_ofName? like op_eq, hoperands fills.closed⟩
  · obtain ⟨r, next, hread, hacc, hfill, -⟩ := (encodeInstruction_raw_eq_ok hraw).mp h
    obtain ⟨taken, rfl, htaken⟩ := closed_of_fillRaw hfill
    exact ⟨[], first :: taken, rfl, List.cons_ne_nil _ _, List.forall_mem_cons.mpr
      ⟨(spelling_of_readRaw hraw hread).isWord (acceptToken_eq_ok.mp hacc), htaken⟩⟩

/-- The last word of a text that is encoded is closed. -/
lemma closed_of_encodeAll {body : Array Word} {x : State × Array Word}
    (h : encodeAll form finish s body tokens = .ok x) :
    ∀ token ∈ tokens.getLast?, Closed token := by
  fun_induction encodeAll form finish s body tokens with
  | case1 => simp
  | case2 => simp at h
  | case3 s body first rest e henc ih =>
    obtain ⟨front, taken, htokens, hne, htaken⟩ := closed_of_encodeInstruction henc
    intro token htoken
    rw [htokens, List.getLast?_append] at htoken
    rcases hrest : e.rest.getLast? with _ | last
    · rw [hrest, List.getLast?_append_of_ne_nil _ hne] at htoken
      exact htaken token (List.mem_of_getLast? htoken)
    · rw [hrest] at htoken
      exact ih h token (hrest.trans htoken)

/-! ### More text -/

section

variable (hmore : Token.startInstruction more = true)

include hmore

/-- What comes after the last word of a text tells nothing of the start of an instruction before. -/
lemma startInstruction_append (hne : tokens ≠ [])
    (hlast : ∀ token ∈ tokens.getLast?, token.chars ≠ ['=']) :
    Token.startInstruction (tokens ++ more) = Token.startInstruction tokens := by
  have hequals : ∀ a rest, more = a :: rest → a.chars ≠ ['='] := by
    rintro a rest rfl ha
    simp [Token.startInstruction, Token.isOpcodeLike, ha, Cursor.startsWithOp] at hmore
  rcases tokens with _ | ⟨t, _ | ⟨u, _ | ⟨v, rest⟩⟩⟩
  · exact absurd rfl hne
  · rcases more with _ | ⟨a, _ | ⟨b, rest⟩⟩
    · rfl
    · simp [Token.startInstruction]
    · simp [Token.startInstruction, hequals a _ rfl]
  · have hu : u.chars ≠ ['='] := hlast u rfl
    rcases more with _ | ⟨a, rest⟩
    · rfl
    · simp [Token.startInstruction, hu]
  · rfl

/-- Operands that end with the text end as well where an instruction comes after them. -/
lemma Fills.append {result? : Option Token} {done : List Word} {p : Pattern} {fs : List Filled}
    (h : Fills op result? s done p tokens fs e)
    (hlast : ∀ token ∈ tokens.getLast?, token.chars ≠ ['=']) :
    Fills op result? s done p (tokens ++ more) fs { e with rest := e.rest ++ more } := by
  induction h with
  | full take => exact .full take
  | @stop s done p rest slot tokens take optional ends =>
    refine .stop take optional fun token htoken => ?_
    rcases tokens with _ | ⟨t, tokens⟩
    · exact .inl hmore
    · rcases ends token htoken with hstart | hread
      · exact .inl ((startInstruction_append hmore (List.cons_ne_nil _ _) hlast).trans hstart)
      · exact .inr hread
  | result take result read accept _ ih => exact .result take result read accept (ih hlast)
  | operand take result start read accept _ ih =>
    have hstart := startInstruction_append hmore (List.cons_ne_nil _ _) hlast
    exact .operand take result (hstart.trans start) read accept
      (ih fun token htoken => hlast token (List.mem_getLast?_cons htoken))

lemma Encodes.append (h : Encodes form s tokens st e)
    (hlast : ∀ token ∈ tokens.getLast?, token.chars ≠ ['=']) :
    Encodes form s (tokens ++ more) st { e with rest := e.rest ++ more } := by
  have htail : ∀ {a : Token} {rest : List Token},
      (∀ token ∈ (a :: rest).getLast?, token.chars ≠ ['=']) →
      ∀ token ∈ rest.getLast?, token.chars ≠ ['='] :=
    fun h token htoken => h token (List.mem_getLast?_cons htoken)
  cases h with
  | plain like op_eq result fills size =>
    exact .plain like op_eq result (fills.append hmore (htail hlast)) size
  | assigned form_eq unlike percent equals_eq like op_eq fills size =>
    exact .assigned form_eq unlike percent equals_eq like op_eq
      (fills.append hmore (htail (htail (htail hlast)))) size

lemma fillRaw_append {done : Array Word} (h : fillRaw first s done tokens = .ok e)
    (hlast : ∀ token ∈ tokens.getLast?, token.chars ≠ ['=']) :
    fillRaw first s done (tokens ++ more) = .ok { e with rest := e.rest ++ more } := by
  induction tokens generalizing s done with
  | nil =>
    obtain rfl := Except.ok.inj h
    rcases more with _ | ⟨a, more⟩
    · simp [Token.startInstruction] at hmore
    · rw [List.nil_append, fillRaw, if_pos hmore]
  | cons token tokens ih =>
    have hsame := startInstruction_append hmore (List.cons_ne_nil token tokens) hlast
    rw [List.cons_append] at hsame ⊢
    rcases hstart : Token.startInstruction (token :: tokens) with _ | _
    · obtain ⟨hequals, r, next, hread, hacc, hfill⟩ := (fillRaw_cons_eq_ok hstart).mp h
      exact (fillRaw_cons_eq_ok (hsame.trans hstart)).mpr ⟨hequals, r, next, hread, hacc,
        ih hfill fun t ht => hlast t (List.mem_getLast?_cons ht)⟩
    · rw [fillRaw, if_pos hstart] at h
      obtain rfl := Except.ok.inj h
      rw [fillRaw, if_pos (hsame.trans hstart), List.cons_append]

/-- **An instruction ends where the next one starts as it ends with the text.** It is encoded to the
same words from the same state. -/
theorem encodeInstruction_append {rest : List Token}
    (h : encodeInstruction form finish s first rest = .ok e)
    (hlast : ∀ token ∈ (first :: rest).getLast?, token.chars ≠ ['=']) (finish' : Position) :
    encodeInstruction form finish' s first (rest ++ more)
      = .ok { e with rest := e.rest ++ more } := by
  rcases hraw : isRaw first.chars with _ | _
  · obtain ⟨st, hst⟩ := exists_encodes hraw h
    exact encodeInstruction_of_encodes finish' (hst.append hmore hlast)
  · obtain ⟨r, next, hread, hacc, hfill, hsize⟩ := (encodeInstruction_raw_eq_ok hraw).mp h
    exact (encodeInstruction_raw_eq_ok hraw).mpr ⟨r, next, hread, hacc,
      fillRaw_append hmore hfill fun t ht => hlast t (List.mem_getLast?_cons ht), hsize⟩

/-- **A text that is put after a text is encoded from where that one ends.** -/
theorem encodeAll_append {body : Array Word} {x : State × Array Word}
    (h : encodeAll form finish s body tokens = .ok x) (finish' : Position) :
    encodeAll form finish' s body (tokens ++ more) = encodeAll form finish' x.1 x.2 more := by
  have hlast : ∀ token ∈ tokens.getLast?, token.chars ≠ ['='] :=
    fun token htoken => (closed_of_encodeAll h token htoken).2
  fun_induction encodeAll form finish s body tokens with
  | case1 =>
    obtain rfl := Except.ok.inj h
    rfl
  | case2 => simp at h
  | case3 s body first rest e henc ih =>
    obtain ⟨front, hrest⟩ := rest_suffix_of_encodeInstruction henc
    rw [List.cons_append, encodeAll_cons, encodeInstruction_append hmore henc hlast finish']
    refine ih h fun token htoken => hlast token (List.mem_getLast?_cons ?_)
    rw [← hrest]
    exact List.mem_getLast?_append_of_mem_getLast? htoken

end

/-- Words that are written are not changed. -/
lemma prefix_of_encodeAll {body : Array Word} {x : State × Array Word}
    (h : encodeAll form finish s body tokens = .ok x) : body.toList <+: x.2.toList := by
  fun_induction encodeAll form finish s body tokens with
  | case1 =>
    obtain rfl := Except.ok.inj h
    exact List.prefix_rfl
  | case2 => simp at h
  | case3 s body first rest e henc ih =>
    refine List.IsPrefix.trans ?_ (ih h)
    rw [Array.toList_append]
    exact List.prefix_append ..

/-! ### Whole texts -/

lemma exists_encodeAll {o : AssemblyOptions} {text : String} {a : Assembly}
    (h : assemble o text = .ok a) : ∃ x : State × Array Word,
      encodeAll o.form (TokenText.ofText text).finish
        ⟨startSymbols o (TokenText.ofText text).tokens, .empty⟩ #[] (TokenText.ofText text).tokens
          = .ok x ∧
      a.words.drop Header.wordCount = x.2.toList ∧ a.symbols = x.1.symbols := by
  rw [assemble_eq] at h
  obtain ⟨x, hx, hassembly⟩ := bind_eq_ok.mp h
  obtain rfl := Except.ok.inj hassembly
  exact ⟨x, hx, List.drop_left' (by simp [Header.words, Header.wordCount]), rfl⟩

/-- The words of lines are those of what comes before the last line break and of what comes after. -/
lemma ofText_of_lines {front text : String} {more : List Char} {u : TokenText}
    (hclosed : ∀ token ∈ (TokenText.ofText front).tokens.getLast?, IsWord token.chars)
    (htext : text.toList = front.toList ++ '\n' :: more)
    (hu : Scans ((TokenText.ofText front).finish.after '\n') more u) :
    TokenText.ofText text = ⟨(TokenText.ofText front).tokens ++ u.tokens, u.finish⟩ := by
  rw [TokenText.ofText, Cursor.ofText, htext]
  exact scans_iff.mp ((scans_ofText front).append_line hclosed hu)

/-- **Assembling is causal.** A text that is assembled is followed by a line break and by a text that
starts with an instruction. If the whole is assembled, its body begins with the body of the first text
and the names of the first text keep their ids; if it fails, then at the place where the second text
starts or after it. -/
theorem assemble_causal (o : AssemblyOptions) (hkeep : o.preserveNumericIds = false)
    {front tail : String} {a : Assembly} (ha : assemble o front = .ok a)
    (htail : (Cursor.ofText tail.toList).skip.startsInstruction = true) :
    (∀ b, assemble o (front ++ "\n" ++ tail) = .ok b →
      a.words.drop Header.wordCount <+: b.words.drop Header.wordCount ∧
        a.symbols.Extends b.symbols) ∧
    ∃ start : Position, start = (TokenText.ofText (front ++ "\n")).finish ∧
      start.index = (front ++ "\n").utf8ByteSize ∧
      ∀ e, assemble o (front ++ "\n" ++ tail) = .error e → e.NotBefore start := by
  obtain ⟨x, hx, hbody, hsymbols⟩ := exists_encodeAll ha
  have hclosed : ∀ token ∈ (TokenText.ofText front).tokens.getLast?, IsWord token.chars :=
    fun token htoken => (closed_of_encodeAll hx token htoken).1
  -- the tokens of the whole are those of both texts, the second one being where it stands
  set place := (TokenText.ofText front).finish.after '\n' with hplace
  have hstart : TokenText.ofText (front ++ "\n") = ⟨(TokenText.ofText front).tokens, place⟩ := by
    have hline : (front ++ "\n").toList = front.toList ++ ['\n'] := by simp
    simpa using ofText_of_lines hclosed hline (.finish rfl)
  obtain ⟨u, hu⟩ := exists_scans place tail.toList
  have hlines : (front ++ "\n" ++ tail).toList = front.toList ++ '\n' :: tail.toList := by simp
  have hwhole := ofText_of_lines hclosed hlines hu
  have hmore : Token.startInstruction u.tokens = true := by
    have hwords : u.tokens.map Token.chars = (TokenText.ofText tail).tokens.map Token.chars :=
      hu.chars_eq (scans_ofText tail)
    rw [(Renaming.texts_identity hwords).startInstruction_eq, ← htail]
    exact (Cursor.startsInstruction_skip _).symm
  rw [startSymbols_eq_empty hkeep] at hx
  have hencode := encodeAll_append hmore hx u.finish
  refine ⟨fun b hb => ?_, place, by rw [hstart], ?_, fun e he => ?_⟩
  · obtain ⟨y, hy, hbody', hsymbols'⟩ := exists_encodeAll hb
    rw [startSymbols_eq_empty hkeep, hwhole, hencode] at hy
    rw [hbody, hbody', hsymbols, hsymbols']
    exact ⟨prefix_of_encodeAll hy, (numbers_idNames hy).extends⟩
  · simpa [hstart, Position.start] using (scans_ofText (front ++ "\n")).index_finish
  · rw [assemble_eq, startSymbols_eq_empty hkeep, hwhole, hencode] at he
    rcases hy : encodeAll o.form u.finish x.1 x.2 u.tokens with e' | y
    · rw [hy] at he
      obtain rfl := Except.error.inj he
      exact (pointsAt_of_encodeAll hy).notBefore hu.le.1 hu.le.2
    · simp [hy, bind, Except.bind] at he

namespace Sample

/-- The type and its constant with an instruction on a line after them. -/
def longerText : String := text ++ "\n" ++ "OpNop"

/-- An instruction without operands is encoded wherever it stands. -/
lemma encodeAll_nop (finish p : Position) (s : State) (body : Array Word) :
    ∃ x, encodeAll .assignment finish s body [⟨"OpNop".toList, p⟩] = .ok x := by
  have hname : Opcode.ofName? (String.ofList ("OpNop".toList.drop 2)) = some .opNop := by
    decide +kernel
  have hsize : 0 + 1 ≤ maxInstructionWords := by decide
  have hnop : Encodes .assignment s [⟨"OpNop".toList, p⟩] ⟨[], ⟨"OpNop".toList, p⟩, .opNop, []⟩
      (finished .opNop ⟨s, #[], []⟩) := .plain rfl hname (fun _ => rfl) (.full rfl) hsize
  rw [encodeAll_cons, encodeInstruction_of_encodes finish hnop]
  change ∃ x, encodeAll .assignment finish (finished .opNop ⟨s, #[], []⟩).state
    (body ++ (finished .opNop ⟨s, #[], []⟩).words) [] = .ok x
  rw [encodeAll]
  exact ⟨_, rfl⟩

lemma tokens_longerText : (TokenText.ofText longerText).tokens
    = (TokenText.ofText text).tokens ++ [⟨"OpNop".toList, ⟨1, 0, 42⟩⟩] := by cbv

/-- The longer text is assembled. -/
lemma exists_assemble_longerText : ∃ b, assemble ⟨.assignment, 0, false⟩ longerText = .ok b := by
  obtain ⟨s', hs⟩ := says_text 0
  obtain ⟨x, hx, -⟩ := exists_encodeAll (assemble_of_encodesAll hs)
  rw [startSymbols_eq_empty rfl] at hx
  have hmore : Token.startInstruction [⟨"OpNop".toList, ⟨1, 0, 42⟩⟩] = true := rfl
  have happ := encodeAll_append hmore hx (TokenText.ofText longerText).finish
  obtain ⟨y, hy⟩ := encodeAll_nop (TokenText.ofText longerText).finish ⟨1, 0, 42⟩ x.1 x.2
  rw [assemble_eq, startSymbols_eq_empty rfl, tokens_longerText, happ, hy]
  exact ⟨_, rfl⟩

end Sample

/-- A type and a constant of it are assembled alike where an instruction follows. -/
theorem assemble_causal_sample : ∃ a b, assemble ⟨.assignment, 0, false⟩ Sample.text = .ok a ∧
    assemble ⟨.assignment, 0, false⟩ Sample.longerText = .ok b ∧
      a.words.drop Header.wordCount <+: b.words.drop Header.wordCount ∧
        a.symbols.Extends b.symbols := by
  obtain ⟨s', hs⟩ := Sample.says_text 0
  have ha := assemble_of_encodesAll hs
  have htail : (Cursor.ofText "OpNop".toList).skip.startsInstruction = true := by decide
  obtain ⟨b, hb⟩ := Sample.exists_assemble_longerText
  exact ⟨_, b, ha, hb, (assemble_causal ⟨.assignment, 0, false⟩ rfl ha htail).1 b hb⟩

end Assembly

end Spirv
