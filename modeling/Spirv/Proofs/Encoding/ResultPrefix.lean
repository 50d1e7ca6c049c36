import Mathlib
import Spirv.Proofs.Encoding.Forms
import Spirv.Proofs.Encoding.Parts

/-!
Results in front of instructions.

No operand reaches past an id that `=` and the name of an opcode follow, so an instruction starts
there. Its id is taken up when the slot for the result comes first, at the start or after the type,
whatever the operands are and also where they are raw words. An opcode without a result has no such
slot: the id in front of it is read and then forgotten.
-/

namespace Spirv

lemma SymbolTable.id?_of_assign {t t' : SymbolTable} {name : String} {id : Word}
    (h : t.assign name = .ok (id, t')) : t'.id? name = some id := by
  rcases assign_cases h with ⟨hid, rfl⟩ | ⟨-, -, -, -, rfl⟩ | ⟨-, -, -, rfl⟩
  · exact hid
  · simp [id?, SymbolTable.bind]
  · simp [id?, SymbolTable.bind]

/-- Where the result of an instruction stands among its words. -/
def Opcode.resultPlace (op : Opcode) : ℕ := if op.hasType then 2 else 1

namespace Assembly

/-- The tokens start with an id, the word `=` and the name of an opcode. -/
def StartsAssigned : List Token → Prop
  | result :: equals :: name :: _ =>
    result.chars.head? = some '%' ∧ equals.chars = ['='] ∧ name.isOpcodeLike = true
  | _ => False

variable {form : Form} {s s' : State} {op : Opcode} {result? : Option Token} {done : List Word}
  {pattern : Pattern} {first : Token} {tokens more : List Token} {fs : List Filled} {st : Statement}
  {p : Part} {ps : List Part} {e : Encoded}

namespace StartsAssigned

lemma startInstruction (h : StartsAssigned more) : Token.startInstruction more = true := by
  unfold StartsAssigned at h
  split at h
  next result equals name _ =>
    obtain ⟨hresult, hequals, hname⟩ := h
    simp [Token.startInstruction, hresult, hequals, hname]
  next => exact h.elim

lemma head_percent {token : Token} {rest : List Token} (h : StartsAssigned (token :: rest)) :
    token.chars.head? = some '%' := by
  unfold StartsAssigned at h
  split at h
  next heq =>
    obtain ⟨rfl, -⟩ := List.cons.inj heq
    exact h.1
  next => exact h.elim

/-- One that starts after the first token is not among the tokens in front of a name. -/
lemma suffix_of_cons {token : Token} {rest : List Token} (h : StartsAssigned more)
    (hs : more <:+ token :: rest) (hne : token.chars.head? ≠ some '%') : more <:+ rest := by
  rcases List.suffix_cons_iff.mp hs with rfl | hs
  · exact absurd h.head_percent hne
  · exact hs

end StartsAssigned

lemma head_ne_of_isOpcodeLike {name : Token} (h : name.isOpcodeLike = true) :
    name.chars.head? ≠ some '%' := fun hpercent => by
  rw [Token.isOpcodeLike, startsWithOp_of_percent hpercent] at h
  simp at h

/-! ### Instructions start at such places -/

lemma Fills.suffix_rest (h : Fills op result? s done pattern tokens fs e)
    (hm : Token.startInstruction more = true) (hs : more <:+ tokens) : more <:+ e.rest := by
  induction h with
  | full | stop => exact hs
  | result _ _ _ _ _ ih => exact ih hs
  | operand _ _ start _ _ _ ih =>
    rcases List.suffix_cons_iff.mp hs with rfl | hs
    · simp [start] at hm
    · exact ih hs

lemma suffix_rest_of_fillRaw {done : Array Word} (h : fillRaw first s done tokens = .ok e)
    (hm : Token.startInstruction more = true) (hs : more <:+ tokens) : more <:+ e.rest := by
  induction tokens generalizing s done with
  | nil =>
    obtain rfl := Except.ok.inj h
    exact hs
  | cons token tokens ih =>
    rcases hstart : Token.startInstruction (token :: tokens) with _ | _
    · obtain ⟨-, r, next, -, -, hfill⟩ := (fillRaw_cons_eq_ok hstart).mp h
      rcases List.suffix_cons_iff.mp hs with rfl | hs
      · simp [hstart] at hm
      · exact ih hfill hs
    · rw [fillRaw, if_pos hstart] at h
      obtain rfl := Except.ok.inj h
      exact hs

/-- A part that does not start at such a place ends before it. -/
lemma EncodesPart.suffix_rest (h : EncodesPart form s tokens p e) (hm : StartsAssigned more)
    (hs : more <:+ tokens) (hne : more ≠ tokens) : more <:+ e.rest := by
  have hstart := hm.startInstruction
  cases h with
  | statement encodes =>
    cases encodes with
    | plain like _ _ fills =>
      exact fills.suffix_rest hstart (hm.suffix_of_cons hs (head_ne_of_isOpcodeLike like))
    | assigned _ _ _ equals_eq like _ fills =>
      have hs := (List.suffix_cons_iff.mp hs).resolve_left hne
      have hs := hm.suffix_of_cons hs (by simp [equals_eq])
      exact fills.suffix_rest hstart (hm.suffix_of_cons hs (head_ne_of_isOpcodeLike like))
  | raw _ _ fill =>
    exact suffix_rest_of_fillRaw fill hstart ((List.suffix_cons_iff.mp hs).resolve_left hne)

/-- Such a place is where a statement starts. -/
lemma EncodesParts.exists_statement (h : EncodesParts form s tokens ps s')
    (hm : StartsAssigned more) (hs : more <:+ tokens) : ∃ before st after s₁ e,
      ps = before ++ .statement st :: after ∧ tokens = before.flatMap Part.tokens ++ more ∧
        Encodes form s₁ more st e ∧ EncodesParts form e.state e.rest after s' := by
  induction h with
  | nil =>
    obtain rfl := List.suffix_nil.mp hs
    exact hm.elim
  | @cons s s' tokens p ps e head tail ih =>
    by_cases heq : more = tokens
    · subst heq
      cases head with
      | statement encodes => exact ⟨[], _, ps, _, _, rfl, rfl, encodes, tail⟩
      | raw raw => simp [isRaw, hm.head_percent] at raw
    · obtain ⟨before, st, after, s₁, e₁, rfl, hrest, hst, hafter⟩ :=
        ih (head.suffix_rest hm hs heq)
      refine ⟨p :: before, st, after, s₁, e₁, rfl, ?_, hst, hafter⟩
      rw [head.tokens_eq, hrest, List.flatMap_cons, List.append_assoc]

/-! ### The result of the instruction -/

/-- Where no slot is for a result, no operand is one. -/
lemma Fills.slot_ne_resultId (h : Fills op result? s done pattern tokens fs e)
    (hp : IsResultFree pattern) : ∀ f ∈ fs, f.slot ≠ .resultId := by
  induction h with
  | full | stop => exact List.forall_mem_nil _
  | result take => exact absurd rfl (hp.of_take? take).1
  | operand take _ _ read _ _ ih =>
    obtain ⟨hslot, hrest⟩ := hp.of_take? take
    exact List.forall_mem_cons.mpr ⟨hslot, ih (hrest.patternAfter read)⟩

lemma isResultFree_operands (h : op.hasResult = false) : IsResultFree op.operands := by
  rw [op.operands_eq, Opcode.resultSlots, Opcode.hasType_of_hasResult h, h]
  exact fun slot hslot => resultId_notMem_kinds (Opcode.isInner_of_mem hslot)

lemma Fills.extends (h : Fills op result? s done pattern tokens fs e) :
    s.symbols.Extends e.state.symbols := by
  have hnames : ∀ token, token ∈ result? ∨ token ∈ tokens → ∀ n, token.chars = '%' :: n →
      String.ofList n ∈ idNames (result?.toList ++ tokens) := fun token htoken n hn =>
    mem_idNames.mpr ⟨token, by simpa using htoken, n, hn, rfl⟩
  exact (h.numbers hnames).extends

/-- A statement with an id in front of it gives the id to its result, or it has no result among its
operands. -/
lemma Encodes.result_eq {result equals name : Token} {post : List Token}
    (h : Encodes form s (result :: equals :: name :: post) st e)
    (hpercent : result.chars.head? = some '%') :
    (st.front = [result, equals] ∧ st.name = name ∧
      Opcode.ofName? (String.ofList (name.chars.drop 2)) = some st.opcode) ∧
    (st.opcode.hasResult = true → ∃ id,
      e.state.symbols.id? (String.ofList result.chars.tail) = some id ∧
        st.words[st.opcode.resultPlace]? = some id) ∧
    (st.opcode.hasResult = false → ∀ f ∈ st.operands, f.slot ≠ .resultId) := by
  cases h with
  | plain like => exact absurd hpercent (head_ne_of_isOpcodeLike like)
  | @assigned _ _ _ _ op fs e _ _ _ _ _ op_eq fills =>
    refine ⟨⟨rfl, rfl, op_eq⟩, fun hr => ?_, fun hr =>
      fills.slot_ne_resultId (isResultFree_operands hr)⟩
    obtain ⟨us, f, vs, rfl, -, -, hplace, s₁, s₂, done, p, ts, hread, ha, hmore⟩ :=
      fills.exists_result hr
    obtain ⟨n, hn, hreading⟩ := exists_name_of_readId hread
    rw [hreading] at ha
    obtain ⟨id, t, hassign, rfl, hwords⟩ := accept_id_iff.mp ha
    refine ⟨id, ?_, ?_⟩
    · rw [hn, List.tail_cons]
      exact hmore.extends _ _ (SymbolTable.id?_of_assign hassign)
    · have hplace' : op.resultPlace = (Filled.wordsOf us).length + 1 := by
        rw [hplace, Opcode.resultPlace]
        split <;> rfl
      simp [hplace', Statement.words, Statement.operandWords, hwords]

/-- **A result in front of an instruction is bound, unless the instruction has none.** Wherever a text
that is assembled has an id, the word `=` and the name of an opcode, a statement of that opcode starts
there. If the opcode has a result, the id is a symbol of the module and its number is the word in the
place of the result. If the opcode has none, nothing is bound: no operand of the statement is a
result. -/
theorem assemble_result {o : AssemblyOptions} {text : String} {a : Assembly}
    (h : assemble o text = .ok a) : (∃ ps, Consists o text ps) ∧ ∀ ps, Consists o text ps →
      a.words.drop Header.wordCount = ps.flatMap Part.words ∧
      ∀ (pre : List Token) (result equals name : Token) (post : List Token),
        (TokenText.ofText text).tokens = pre ++ result :: equals :: name :: post →
        result.chars.head? = some '%' → equals.chars = ['='] → name.isOpcodeLike = true →
        ∃ (before : List Part) (st : Statement) (after : List Part),
          ps = before ++ .statement st :: after ∧ pre = before.flatMap Part.tokens ∧
          st.front = [result, equals] ∧ st.name = name ∧
          Opcode.ofName? (String.ofList (name.chars.drop 2)) = some st.opcode ∧
          (st.opcode.hasResult = true → ∃ id,
            a.symbols.id? (String.ofList result.chars.tail) = some id ∧
              st.words[st.opcode.resultPlace]? = some id) ∧
          (st.opcode.hasResult = false → ∀ f ∈ st.operands, f.slot ≠ .resultId) := by
  obtain ⟨hex, hall⟩ := exists_consists h
  refine ⟨hex, fun ps ⟨s', hps⟩ => ?_⟩
  obtain ⟨hbody, hsymbols⟩ := hall hps
  refine ⟨hbody, fun pre result equals name post htokens hpercent hequals hlike => ?_⟩
  have hstarts : StartsAssigned (result :: equals :: name :: post) := ⟨hpercent, hequals, hlike⟩
  obtain ⟨before, st, after, s₁, e, rfl, hpre, hst, hafter⟩ :=
    hps.exists_statement hstarts ⟨pre, htokens.symm⟩
  obtain ⟨⟨hfront, hname, hop⟩, hbound, hnone⟩ := hst.result_eq hpercent
  refine ⟨before, st, after, rfl, List.append_cancel_right (htokens.symm.trans hpre), hfront, hname,
    hop, fun hr => ?_, hnone⟩
  obtain ⟨id, hid, hword⟩ := hbound hr
  exact ⟨id, hsymbols ▸ hafter.extends _ _ hid, hword⟩

/-- A constant that stands after its type is bound to the third word of its instruction. -/
theorem assemble_result_sample : ∃ (a : Assembly) (ps before : List Part) (st : Statement)
    (after : List Part) (id : Word), assemble ⟨.assignment, 0, false⟩ Sample.text = .ok a ∧
      Consists ⟨.assignment, 0, false⟩ Sample.text ps ∧ ps = before ++ .statement st :: after ∧
      st.opcode = .opConstant ∧ a.symbols.id? "n" = some id ∧ st.words[2]? = some id := by
  obtain ⟨s', hs⟩ := Sample.says_text 0
  have ha := assemble_of_encodesAll hs
  obtain ⟨⟨ps, hps⟩, h⟩ := assemble_result ha
  obtain ⟨before, st, after, hsplit, -, -, -, hop, hbound, -⟩ := (h ps hps).2
    Sample.declaresType.tokens ⟨"%n".toList, ⟨0, 20, 20⟩⟩ ⟨"=".toList, ⟨0, 23, 23⟩⟩
    ⟨"OpConstant".toList, ⟨0, 25, 25⟩⟩ _ Sample.tokens_text (by decide) rfl (by decide)
  have hconstant : Opcode.ofName? (String.ofList ("OpConstant".toList.drop 2)) = some .opConstant := by
    decide +kernel
  have hopcode : st.opcode = .opConstant := Option.some.inj (hop.symm.trans hconstant)
  rw [hopcode] at hbound
  obtain ⟨id, hid, hword⟩ := hbound rfl
  exact ⟨_, ps, before, st, after, id, ha, hps, hsplit, hopcode, hid, hword⟩

/-! ### A result that nothing binds -/

namespace Sample

def nopText : String := "%x = OpNop"

def doesNothing : Statement where
  front := [⟨"%x".toList, ⟨0, 0, 0⟩⟩, ⟨"=".toList, ⟨0, 3, 3⟩⟩]
  name := ⟨"OpNop".toList, ⟨0, 5, 5⟩⟩
  opcode := .opNop
  operands := []

lemma tokens_nopText : (TokenText.ofText nopText).tokens = doesNothing.tokens := by cbv

lemma encodesAll_nopText : ∃ d, EncodesAll .assignment ⟨.empty, .empty⟩
    (TokenText.ofText nopText).tokens [doesNothing] ⟨.empty, d⟩ := by
  rw [tokens_nopText]
  have hfirst : Encodes .assignment ⟨.empty, .empty⟩ doesNothing.tokens doesNothing
      (finished .opNop ⟨⟨.empty, .empty⟩, #[], []⟩) :=
    .assigned rfl (by decide) rfl rfl (by decide) (by decide +kernel) (.full rfl) (by decide)
  exact ⟨_, .cons hfirst .nil⟩

end Sample

/-- **The result in front of an instruction without one is accepted, and nothing is bound.** -/
theorem exists_unbound_result : ∃ a, assemble ⟨.assignment, 0, false⟩ Sample.nopText = .ok a ∧
    a.words.drop Header.wordCount = [65536] ∧ Opcode.opNop.hasResult = false ∧
      a.symbols.id? "x" = none := by
  obtain ⟨d, h⟩ := Sample.encodesAll_nopText
  refine ⟨_, assemble_of_encodesAll h, ?_, rfl, ?_⟩
  · exact List.drop_left' rfl
  · simp [SymbolTable.id?, SymbolTable.empty]

end Assembly

end Spirv
