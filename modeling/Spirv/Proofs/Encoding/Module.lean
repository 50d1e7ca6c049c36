import Mathlib
import Spirv.Proofs.Encoding.Simulation

/-!
Reading what was assembled.

A text of regular statements is assembled to a module that is read to its end. The reader shows one
instruction for each statement, with the opcode and the operands that the text names.
-/

namespace Spirv.Assembly

open SymbolTable (Valid)

/-! ### What is shown -/

/-- The operand of the instruction is that of the text. -/
def ShowsOperand (names : SymbolTable) (i : Instruction) (f : Filled) (r : OperandRecord) : Prop :=
  ∃ k, f.slot.kind? = some k ∧ r.slot = .one k ∧ i.wordsOf r = f.words ∧
    Denotes names i.extendedSet? k f.token.chars (i.wordsOf r) r.number?

/-- The instruction is that of the text, with its operands one for one and in order. -/
structure Shows (names : SymbolTable) (st : Statement) (i : Instruction) : Prop where
  opcode : i.opcode = st.opcode
  words : i.words.toList = st.words
  operands : List.Forall₂ (ShowsOperand names i) st.operands i.operands.toList
  /-- What stands in front of the statement is its operand in the place of the result. -/
  result : ∀ token ∈ st.front.head?, ∃ f ∈ st.operands, f.slot = .resultId ∧ f.token = token

variable {names : SymbolTable} {st : Statement} {i : Instruction}

lemma Meets.showsOperands {earlier : List Instruction} {ps : List Piece}
    (h : Meets names earlier st i ps) :
    List.Forall₂ (ShowsOperand names i) st.operands i.operands.toList := by
  have hrec := h.decodes.recorded
  have hops := h.operands
  generalize i.operands.toList = rs at hrec
  generalize st.operands = fs at hops
  clear h
  induction hops generalizing rs with
  | nil =>
    cases hrec
    exact .nil
  | cons hm _ ih =>
    cases hrec with
    | cons hr hrest =>
      obtain ⟨hslot, hws, hnumber⟩ := hr
      obtain ⟨hk, hwords, hd⟩ := hm
      exact .cons ⟨_, hk, hslot, hws.trans hwords, by rwa [hws, hnumber]⟩ (ih _ hrest)

/-- What is read for a type takes one word, and a result stays the next slot. -/
lemma patternAfter_typeId {s s' : State} {op : Opcode} {done ws : List Word} {p : Pattern}
    {chars : List Char} {r : Reading}
    (hread : readOperand s.declared op done.toArray .typeId chars = .ok r)
    (ha : s.accept done.toArray r = .ok (s', (done ++ ws).toArray)) :
    ws.length = 1 ∧ ∃ q, r.patternAfter .typeId (.resultId :: p) = .resultId :: q := by
  rcases name_or_raw_of_isId (k := .typeId) rfl rfl hread with ⟨name, rfl⟩ | ⟨w, rfl⟩
  · obtain ⟨id, -, -, -, rfl⟩ := accept_id_iff.mp ha
    exact ⟨rfl, p, rfl⟩
  · obtain ⟨-, rfl⟩ := by simpa [State.accept] using ha
    exact ⟨rfl, [.free], by simp [Reading.patternAfter, Pattern.afterRaw]⟩

/-- The result in front of an instruction fills the slot for it, which comes first or after the type. -/
lemma Fills.exists_result {op : Opcode} {result : Token} {s : State} {tokens : List Token}
    {fs : List Filled} {e : Encoded} (h : Fills op (some result) s [] op.operands tokens fs e)
    (hr : op.hasResult) : ∃ us f vs, fs = us ++ f :: vs ∧ f.slot = .resultId ∧ f.token = result ∧
      (Filled.wordsOf us).length = (if op.hasType then 1 else 0) ∧
      ∃ s₁ s₂ done p ts, readId .fatal result.chars = .ok f.reading ∧
        State.accept s₁ done.toArray f.reading = .ok (s₂, (done ++ f.words).toArray) ∧
        Fills op (some result) s₂ (done ++ f.words) p ts vs e := by
  have hfirst : ∀ {s : State} {done : List Word} {p : Pattern} {tokens : List Token}
      {fs : List Filled}, Fills op (some result) s done (.resultId :: p) tokens fs e →
      ∃ f vs, fs = f :: vs ∧ f.slot = .resultId ∧ f.token = result ∧
        ∃ s₁ s₂ done p ts, readId .fatal result.chars = .ok f.reading ∧
          State.accept s₁ done.toArray f.reading = .ok (s₂, (done ++ f.words).toArray) ∧
          Fills op (some result) s₂ (done ++ f.words) p ts vs e := by
    intro s done p tokens fs h
    obtain ⟨f, vs, s', tokens', rfl, hslot, hplace, hread, haccept, more⟩ := h.exists_of_one
    obtain ⟨-, hresult, hraw, -⟩ := hplace.resolve_right fun ⟨hnone, _⟩ => by simp at hnone
    obtain rfl := Option.some.inj hresult
    exact ⟨f, vs, rfl, hslot, rfl, _, _, _, _, _,
      readKind_of_readOperand (k := .resultId) hraw rfl hread, haccept, more⟩
  rw [op.operands_eq, Opcode.resultSlots, if_pos hr] at h
  split at h
  next htype =>
    -- the type comes before the result
    obtain ⟨type, fs, _, _, rfl, -, -, hread, haccept, more⟩ := h.exists_of_one
    obtain ⟨hlen, q, hq⟩ := patternAfter_typeId hread haccept
    obtain ⟨f, vs, rfl, hf⟩ := hfirst (hq ▸ more)
    exact ⟨[type], f, vs, rfl, hf.1, hf.2.1, by simp [hlen, htype], hf.2.2⟩
  next htype =>
    obtain ⟨f, vs, rfl, hf⟩ := hfirst h
    exact ⟨[], f, vs, rfl, hf.1, hf.2.1, by simp [htype], hf.2.2⟩

lemma Encodes.shows {form : Form} {s : State} {toks : List Token} {e : Encoded}
    {names : SymbolTable} {earlier : List Instruction} {ps : List Piece}
    (h : Encodes form s toks st e) (hfront : st.front ≠ [] → st.opcode.hasResult)
    (hm : Meets names earlier st i ps) : Shows names st i := by
  refine ⟨hm.opcode, hm.words, hm.showsOperands, fun token ht => ?_⟩
  cases h with
  | plain => simp at ht
  | @assigned result equals name rest op fs e _ _ _ _ _ _ fills =>
    obtain rfl : result = token := by simpa using ht
    obtain ⟨us, f, vs, rfl, hslot, htoken, -⟩ := fills.exists_result (hfront (by simp))
    exact ⟨f, List.mem_append_right _ (.head _), hslot, htoken⟩

/-! ### Statement after statement -/

/-- Each statement is regular after those before it. -/
def RegularAll (before sts : List Statement) : Prop :=
  ∀ us st vs, sts = us ++ st :: vs → st.Regular (before ++ us)

lemma RegularAll.cons {before sts : List Statement} (h : RegularAll before (st :: sts)) :
    st.Regular before ∧ RegularAll (before ++ [st]) sts := by
  refine ⟨by simpa using h [] st sts rfl, fun us st' vs he => ?_⟩
  simpa using h (st :: us) st' vs (by rw [he]; rfl)

/-- **Regular statements are written as instructions that may stand one after the other.** -/
theorem EncodesAll.exists_decodable {form : Form} {s s' : State} {tokens : List Token}
    {names : List String} {before sts : List Statement} {earlier : List Instruction}
    (h : EncodesAll form s tokens sts s') (hlen : names.length + 2 < 2 ^ 32)
    (htok : ∀ token ∈ tokens, isRaw token.chars = false ∧ String.ofList token.chars.tail ∈ names)
    (hv : Valid names s.symbols) (hd : Declares s.declared earlier) (hdec : Decodable earlier)
    (hmet : Met s.symbols before earlier) (hreg : RegularAll before sts) :
    s.symbols.Extends s'.symbols ∧ ∃ is, Decodable (earlier ++ is) ∧
      List.Forall₂ (Shows s'.symbols) sts is ∧ Spirv.codeOf is = codeOf sts := by
  induction h generalizing before earlier with
  | nil => exact ⟨.refl _, [], by simpa using hdec, .nil, rfl⟩
  | @cons s s' tokens st sts e first more ih =>
    obtain ⟨hst, hsts⟩ := hreg.cons
    obtain ⟨⟨hv', hext⟩, i, ps, hm, hd'⟩ := first.meets hlen htok hv hd hdec hmet hst
    have htok' : ∀ token ∈ e.rest, _ := fun t ht =>
      htok t (first.tokens_eq ▸ List.mem_append_right _ ht)
    obtain ⟨hext', is, his, hshows, hcode⟩ :=
      ih htok' hv' hd' (hdec.snoc hm.decodes) ((hmet.extend hext).snoc hm) hsts
    refine ⟨hext.trans hext', i :: is, by simpa using his, .cons ?_ hshows, ?_⟩
    · exact first.shows hst.front (hm.extend hext')
    · rw [Spirv.codeOf_cons, hm.words, hcode]
      rfl

/-! ### Texts -/

/-- The symbols that assembling starts with. -/
def startSymbols (o : AssemblyOptions) (tokens : List Token) : SymbolTable :=
  if o.preserveNumericIds then preserveAll .empty tokens else .empty

/-- The text is made of the statements. -/
def Says (o : AssemblyOptions) (text : String) (sts : List Statement) : Prop :=
  ∃ s', EncodesAll o.form ⟨startSymbols o (TokenText.ofText text).tokens, .empty⟩
    (TokenText.ofText text).tokens sts s'

lemma valid_startSymbols (o : AssemblyOptions) (tokens : List Token) :
    Valid (tokens.map fun token => String.ofList token.chars.tail) (startSymbols o tokens) := by
  have hfold : ∀ (us : List Token) (t : SymbolTable), t.ids = ∅ → (∀ u ∈ us, u ∈ tokens) →
      Valid (tokens.map fun token => String.ofList token.chars.tail) t →
      Valid (tokens.map fun token => String.ofList token.chars.tail) (preserveAll t us) := by
    intro us
    induction us with
    | nil => exact fun t _ _ ht => ht
    | cons u us ih =>
      intro t hids hus ht
      rw [preserveAll, List.foldl_cons]
      refine ih _ ?_ (fun v hv => hus v (.tail _ hv)) ?_
      · split
        · rw [SymbolTable.preserve]
          split <;> exact hids
        · exact hids
      · split
        next id hid =>
          unfold numericId? at hid
          split at hid
          next digits hchars =>
            refine ht.preserve hids (List.mem_map.mpr ⟨u, hus u (.head _), rfl⟩) ?_
            simpa [hchars] using hid
          next => simp at hid
        next => exact ht
  rw [startSymbols]
  split
  · exact hfold tokens .empty rfl (fun _ => id) (SymbolTable.valid_empty _)
  · exact SymbolTable.valid_empty _

lemma readHeader_ofBound (bound generator : Word) (body : List Word) :
    Binary.readHeader ((Header.ofBound bound generator).words ++ body)
      = .ok (Header.ofBound bound generator, body) := by
  have hlen : ¬ ((Header.ofBound bound generator).words ++ body).length < Header.wordCount := by
    simp [Header.words, Header.wordCount]
  rw [Binary.readHeader, if_neg hlen]
  rfl

lemma assemble_of_encodesAll {o : AssemblyOptions} {text : String} {sts : List Statement}
    {s' : State} (h : EncodesAll o.form ⟨startSymbols o (TokenText.ofText text).tokens, .empty⟩
      (TokenText.ofText text).tokens sts s') :
    assemble o text = .ok ⟨(Header.ofBound s'.symbols.bound o.generator).words ++ codeOf sts,
      s'.symbols.bound, s'.symbols⟩ := by
  rw [assemble]
  dsimp only
  rw [← startSymbols, encodeAll_of_encodesAll h]
  simp

/-- **The decoder reads back what the assembler wrote.** A text that is assembled is made of
statements; if these are regular, the module is read to its end, and each instruction shown is the
statement in its place, its operands being those that the text names. -/
theorem shown_assemble {o : AssemblyOptions} {text : String} {a : Assembly}
    (h : assemble o text = .ok a)
    (hlen : (TokenText.ofText text).tokens.length < 2 ^ 32 - 2)
    (hraw : ∀ token ∈ (TokenText.ofText text).tokens, isRaw token.chars = false) :
    (∃ sts, Says o text sts) ∧ ∀ sts, Says o text sts →
      (TokenText.ofText text).tokens = sts.flatMap Statement.tokens ∧
        (RegularAll [] sts → ∃ is, List.Forall₂ (Shows a.symbols) sts is ∧
          ∀ {σ : Type} (v : Binary.Visitor σ Empty) (x : σ),
            (Binary.visit v x a.words).2 = .ok .completed ∧ Binary.shown v x a.words = is) := by
  rw [assemble] at h
  dsimp only at h
  split at h
  next => simp at h
  next s body henc =>
  obtain rfl := Except.ok.inj h
  refine ⟨?_, fun sts hsays => ?_⟩
  · obtain ⟨sts, hsts, -⟩ := exists_encodesAll hraw henc
    exact ⟨sts, s, hsts⟩
  · obtain ⟨s', hsts⟩ := hsays
    refine ⟨hsts.tokens_eq, fun hreg => ?_⟩
    obtain ⟨rfl, rfl⟩ : s' = s ∧ #[] ++ (codeOf sts).toArray = body := by
      simpa using (encodeAll_of_encodesAll hsts).symm.trans henc
    have hv := valid_startSymbols o (TokenText.ofText text).tokens
    have hnames : ∀ t ∈ (TokenText.ofText text).tokens, isRaw t.chars = false ∧ _ :=
      fun t ht => ⟨hraw t ht, List.mem_map_of_mem (f := fun t => String.ofList t.chars.tail) ht⟩
    have hmet : Met (startSymbols o (TokenText.ofText text).tokens) [] [] := .nil
    obtain ⟨-, is, his, hshows, hcode⟩ := hsts.exists_decodable (by rw [List.length_map]; omega)
      hnames hv declares_empty .nil hmet hreg
    have hread := readHeader_ofBound s'.symbols.bound o.generator (codeOf sts)
    rw [← hcode] at hread
    refine ⟨is, hshows, fun v x => ?_⟩
    simpa [← hcode] using Binary.visit_codeOf v x hread his

/-! ### A type and a constant of it -/

namespace Sample

def text : String := "%i = OpTypeInt 32 1 %n = OpConstant %i -5"

def declaresType : Statement where
  front := [⟨"%i".toList, ⟨0, 0, 0⟩⟩, ⟨"=".toList, ⟨0, 3, 3⟩⟩]
  name := ⟨"OpTypeInt".toList, ⟨0, 5, 5⟩⟩
  opcode := .opTypeInt
  operands := [⟨.resultId, ⟨"%i".toList, ⟨0, 0, 0⟩⟩, .id "i", [1]⟩,
    ⟨.one .integer, ⟨"32".toList, ⟨0, 15, 15⟩⟩, .value [32] [], [32]⟩,
    ⟨.one .integer, ⟨"1".toList, ⟨0, 18, 18⟩⟩, .value [1] [], [1]⟩]

def namesConstant : Statement where
  front := [⟨"%n".toList, ⟨0, 20, 20⟩⟩, ⟨"=".toList, ⟨0, 23, 23⟩⟩]
  name := ⟨"OpConstant".toList, ⟨0, 25, 25⟩⟩
  opcode := .opConstant
  operands := [⟨.typeId, ⟨"%i".toList, ⟨0, 36, 36⟩⟩, .id "i", [1]⟩,
    ⟨.resultId, ⟨"%n".toList, ⟨0, 20, 20⟩⟩, .id "n", [2]⟩,
    ⟨.one .typedNumber, ⟨"-5".toList, ⟨0, 39, 39⟩⟩, .value [0xFFFFFFFB] [], [0xFFFFFFFB]⟩]

lemma tokens_text :
    (TokenText.ofText text).tokens = declaresType.tokens ++ namesConstant.tokens := by cbv

/-- The symbols once the type is named. -/
def symbols : SymbolTable :=
  ⟨(∅ : Std.HashMap String Word).insert "i" 1, (∅ : Std.HashMap Word String).insert 1 "i", ∅, 2, 2⟩

/-- What the type declares. -/
def declared : Declared := ⟨∅, ∅, (∅ : Std.HashMap Word NumberType).insert 1 ⟨.signed, 32⟩⟩

/-- The symbols once the constant is named as well. -/
def named : SymbolTable := { symbols with next := 3 }.bind "n" 2

lemma accept_newType (d : Declared) :
    State.accept ⟨.empty, d⟩ #[] (.id "i") = .ok (⟨symbols, d⟩, #[1]) := by
  simp [State.accept, SymbolTable.assign, SymbolTable.empty, SymbolTable.isValidName,
    SymbolTable.id?, SymbolTable.valueOfName?, Digits.decimal?, Digits.read?, SymbolTable.bind,
    SymbolTable.firstFree, symbols]
  rfl

lemma accept_type (d : Declared) :
    State.accept ⟨symbols, d⟩ #[] (.id "i") = .ok (⟨symbols, d⟩, #[1]) := by
  simp [State.accept, SymbolTable.assign, SymbolTable.isValidName, SymbolTable.id?, symbols]

lemma accept_constant (d : Declared) :
    State.accept ⟨symbols, d⟩ #[1] (.id "n") = .ok (⟨named, d⟩, #[1, 2]) := by
  have hfree : symbols.firstFree (symbols.preserved.size + symbols.names.size) symbols.next = 2 := by
    have hsize : symbols.preserved.size + symbols.names.size = 1 := by
      simp [symbols, Std.HashMap.size_insert]
    have htaken : symbols.isTaken 2 = false := by simp [SymbolTable.isTaken, symbols]
    rw [hsize, SymbolTable.firstFree, show symbols.next = 2 from rfl, htaken]
    rfl
  have hnew : symbols.id? "n" = none := by simp [SymbolTable.id?, symbols]
  have hvalid : SymbolTable.isValidName "n" = true := by decide
  have hvalue : SymbolTable.valueOfName? "n".toList = none := by decide
  simp only [State.accept, SymbolTable.assign, hvalid, hnew, hvalue, hfree]
  rfl

lemma says_text (g : Word) : Says ⟨.assignment, g, false⟩ text [declaresType, namesConstant] := by
  have hfive : readOperand declared .opConstant #[1, 2] (.one .typedNumber) "-5".toList
      = .ok (.value [0xFFFFFFFB] []) := by
    have hgov : declared.governing? .opConstant #[1, 2] = some ⟨.signed, 32⟩ := by
      simp [Declared.governing?, declared]
    rw [readOperand]
    simp only [readKind, hgov]
    cbv
  have hfirst : Encodes .assignment ⟨.empty, .empty⟩ (declaresType.tokens ++ namesConstant.tokens)
      declaresType (finished .opTypeInt
        ⟨⟨symbols, .empty⟩, ([1, 32, 1] : List Word).toArray, namesConstant.tokens⟩) := by
    refine .assigned rfl (by decide) rfl rfl (by decide) (by decide +kernel) ?_ (by decide)
    refine .result rfl rfl rfl (accept_newType .empty) ?_
    refine .operand rfl (by simp) (by cbv) (by cbv) rfl ?_
    exact .operand rfl (by simp) (by cbv) (by cbv) rfl (.full rfl)
  have hsecond : Encodes .assignment ⟨symbols, declared⟩ namesConstant.tokens namesConstant
      (finished .opConstant ⟨⟨named, declared⟩, ([1, 2, 0xFFFFFFFB] : List Word).toArray, []⟩) := by
    refine .assigned rfl (by decide) rfl rfl (by decide) (by decide +kernel) ?_ (by decide)
    refine .operand rfl (by simp) (by cbv) (by cbv) (accept_type declared) ?_
    refine .result rfl rfl rfl (accept_constant declared) ?_
    exact .operand rfl (by simp) (by cbv) hfive rfl (.full rfl)
  rw [Says, tokens_text]
  exact ⟨_, .cons hfirst (.cons hsecond .nil)⟩

lemma regularAll : RegularAll [] [declaresType, namesConstant] := by
  have hnumber : ∀ {op : Opcode} {f : Filled}, f.slot = .one .integer →
      (∃ l, Literal.read f.token.chars = .ok l ∧ l.words.length = 1) → f.Regular op := by
    intro op f hslot ⟨l, hl, hlen⟩
    refine ⟨fun _ l' hl' => ?_, ?_, ?_, ?_⟩
    · obtain rfl : l = l' := by simpa [hl] using hl'
      exact hlen
    all_goals simp [hslot, Slot.kind?]
  have hother : ∀ {op : Opcode} {f : Filled}, f.slot = .typeId ∨ f.slot = .resultId ∨
      f.slot = .one .typedNumber → f.Regular op := by
    rintro op f (hslot | hslot | hslot) <;> refine ⟨?_, ?_, ?_, ?_⟩ <;> simp [hslot, Slot.kind?]
  have hfirst : declaresType.Regular [] := by
    refine ⟨?_, fun _ => rfl, by simp, ?_⟩
    · simp only [declaresType, List.forall_mem_cons]
      refine ⟨hother (.inr (.inl rfl)), hnumber rfl ?_, hnumber rfl ?_, by simp⟩
      · exact ⟨.uint32 32, by cbv, rfl⟩
      · exact ⟨.uint32 1, by cbv, rfl⟩
    · simp [declaresType, Slot.kind?]
  have hsecond : namesConstant.Regular [declaresType] := by
    refine ⟨?_, fun _ => rfl, by decide, fun f hf hk => ⟨⟨.signed, 32⟩, by decide, ?_⟩⟩
    · simp only [namesConstant, List.forall_mem_cons]
      exact ⟨hother (.inl rfl), hother (.inr (.inl rfl)), hother (.inr (.inr rfl)), by simp⟩
    · exact ⟨.inl rfl, "i", by cbv, declaresType, .head _, by decide, by cbv⟩
  intro us st vs h
  rcases us with _ | ⟨u, _ | ⟨u', us⟩⟩
  · obtain ⟨rfl, rfl⟩ := by simpa using h
    exact hfirst
  · obtain ⟨rfl, rfl, rfl⟩ := by simpa using h
    exact hsecond
  · simp at h

end Sample

/-- A number of a declared type is shown as the text has it. -/
theorem shown_assemble_sample : ∃ a i j, assemble ⟨.assignment, 0, false⟩ Sample.text = .ok a ∧
    Binary.shown (.ofFold (fun _ _ => ()) fun _ _ => ()) () a.words = [i, j] ∧
      i.opcode = .opTypeInt ∧ j.opcode = .opConstant ∧
      j.words.toList.tail = [1, 2, 0xFFFFFFFB] := by
  obtain ⟨s', hs⟩ := Sample.says_text 0
  have ha := assemble_of_encodesAll hs
  obtain ⟨-, h⟩ := shown_assemble ha (by rw [Sample.tokens_text]; decide)
    (by rw [Sample.tokens_text]; decide)
  obtain ⟨-, h⟩ := h _ ⟨s', hs⟩
  obtain ⟨is, hshows, hread⟩ := h Sample.regularAll
  obtain ⟨-, hshown⟩ := hread (.ofFold (fun _ _ => ()) fun _ _ => ()) ()
  cases hshows with
  | @cons _ i _ _ hi hmore =>
  cases hmore with
  | @cons _ j _ _ hj hmore =>
  cases hmore
  exact ⟨_, i, j, ha, hshown, hi.opcode, hj.opcode, by rw [hj.words]; rfl⟩

end Spirv.Assembly
