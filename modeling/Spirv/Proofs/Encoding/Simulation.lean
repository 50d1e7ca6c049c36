import Mathlib
import Spirv.Proofs.Decoding.Module
import Spirv.Proofs.Encoding.Filling

/-!
The reader follows the assembler from statement to statement.

A statement is regular if what it says of itself by names holds of the statements before it: its
result is new, and a type declared before governs its numbers. Regular statements are written as
instructions that may stand one after the other, and these show the operands that the text names.
-/

namespace Spirv.Assembly

open SymbolTable (Valid)

/-- The name that an operand is. -/
def Filled.name? (f : Filled) : Option String :=
  match f.token.chars with
  | '%' :: name => some (String.ofList name)
  | _ => none

lemma Filled.name?_eq {f : Filled} {name : List Char} (h : f.token.chars = '%' :: name) :
    f.name? = some (String.ofList name) := by
  simp [name?, h]

namespace Statement

/-- The names of results. -/
def resultNames (st : Statement) : List String :=
  (st.operands.filter fun f => f.slot.kind? = some .resultId).filterMap Filled.name?

/-- The name of the first operand. -/
def firstName? (st : Statement) : Option String := st.operands.head?.bind Filled.name?

/-- The name of the result type. -/
def typeName? (st : Statement) : Option String :=
  if st.opcode.hasType then st.firstName? else none

/-- The numeric type that the statement declares. -/
def number? (st : Statement) : Option NumberType :=
  Binary.declaredNumber? st.opcode st.words.toArray

end Statement

/-- The name is declared as a numeric type. -/
def NamesNumber (before : List Statement) (name : String) (t : NumberType) : Prop :=
  ∃ st ∈ before, name ∈ st.resultNames ∧ st.number? = some t

namespace Statement

/-- The number type governs the numbers of the statement and is one that they are read of. -/
def Governs (before : List Statement) (st : Statement) (t : NumberType) : Prop :=
  (1 ≤ t.width ∧ t.width ≤ 64) ∧
    if st.opcode = .opSwitch then
      t.isInteger ∧ ∃ selector type, st.firstName? = some selector ∧
        (∃ st' ∈ before, selector ∈ st'.resultNames ∧ st'.typeName? = some type) ∧
        NamesNumber before type t
    else
      (t.isInteger ∨ t.width = 32 ∨ t.width = 64) ∧
        ∃ type, st.typeName? = some type ∧ NamesNumber before type t

/-- What is asked of a statement that stands after others. -/
structure Regular (before : List Statement) (st : Statement) : Prop where
  operands : ∀ f ∈ st.operands, f.Regular st.opcode
  front : st.front ≠ [] → st.opcode.hasResult
  new : ∀ name ∈ st.resultNames, ∀ st' ∈ before, name ∉ st'.resultNames
  governs : ∀ f ∈ st.operands, f.slot.kind? = some .typedNumber → ∃ t, st.Governs before t

end Statement

/-- The instruction is written as the statement says. -/
structure Meets (names : SymbolTable) (earlier : List Instruction) (st : Statement)
    (i : Instruction) (ps : List Piece) : Prop where
  decodes : Decodes earlier i ps
  opcode : i.opcode = st.opcode
  words : i.words.toList = st.words
  operands : List.Forall₂ (Matches names i.extendedSet?) st.operands ps

namespace Meets

variable {names : SymbolTable} {earlier : List Instruction} {st : Statement} {i : Instruction}
  {ps : List Piece}

lemma extend {names' : SymbolTable} (h : Meets names earlier st i ps)
    (he : names.Extends names') : Meets names' earlier st i ps :=
  ⟨h.decodes, h.opcode, h.words, h.operands.imp fun _ _ hm => hm.extend he⟩

lemma number?_eq (h : Meets names earlier st i ps) : i.number? = st.number? := by
  rw [Instruction.number?, Statement.number?, h.opcode, ← h.words]

/-- An id is the name that it was written as. -/
lemma name_of_matches {set? : Option ExtendedSet} {f : Filled} {k : OperandKind} {w : Word}
    {number? : Option NumberType} (hk : k.isId)
    (h : Matches names set? f ⟨k, [w], number?⟩) :
    ∃ name, f.name? = some name ∧ names.id? name = some w := by
  obtain ⟨-, -, hd⟩ := h
  generalize hws : [w] = ws at hd
  generalize hchars : f.token.chars = chars at hd
  cases hd with
  | @id _ name v _ hid =>
    obtain rfl : w = v := by simpa using hws
    exact ⟨String.ofList name, Filled.name?_eq hchars, hid⟩
  | _ => simp [OperandKind.isId] at hk

/-- No name of a result is among operands that are none. -/
lemma filter_of_kind_ne {set? : Option ExtendedSet} {fs : List Filled} {qs : List Piece}
    (h : List.Forall₂ (Matches names set?) fs qs) (hq : ∀ q ∈ qs, q.kind ≠ .resultId) :
    fs.filter (fun f => f.slot.kind? = some .resultId) = [] := by
  induction h with
  | nil => rfl
  | cons hm _ ih =>
    obtain ⟨hne, hq⟩ := List.forall_mem_cons.mp hq
    rw [List.filter_cons_of_neg (by simpa [hm.1] using hne), ih hq]

/-- The statement names its result, if it has one, and its type. -/
lemma results (h : Meets names earlier st i ps) :
    (i.resultId = 0 ∧ st.resultNames = [] ∨ ∃ name, st.resultNames = [name] ∧
      names.id? name = some i.resultId ∧ i.resultId ≠ 0) ∧
    ∀ name, st.typeName? = some name → names.id? name = some i.typeId := by
  obtain ⟨pre, qs, hpre, rfl, hf⟩ := filling_operands_iff.mp h.decodes.filling
  have hqs : ∀ q ∈ qs, q.kind ≠ .resultId := fun q hq =>
    (hf.kind_ne (fun _ => Opcode.isInner_of_mem) q hq).2
  have hops := h.operands
  rw [Statement.resultNames, Statement.typeName?, Statement.firstName?, ← h.opcode,
    h.decodes.resultId, h.decodes.typeId, Context.resultId, Context.typeId]
  generalize st.operands = fs at hops
  cases hpre with
  | absent hr =>
    have ht := Opcode.hasType_of_hasResult hr
    rw [List.nil_append] at hops
    simp [hr, ht, filter_of_kind_ne hops hqs]
  | @untyped r hr ht hne =>
    cases hops with
    | @cons f _ fs _ hm hfs =>
    obtain ⟨name, hname, hid⟩ := name_of_matches rfl hm
    refine ⟨.inr ⟨name, ?_, by simpa [hr, ht] using hid, by simpa [hr, ht] using hne⟩,
      by simp [ht]⟩
    rw [List.filter_cons_of_pos (by simpa using hm.1), filter_of_kind_ne hfs hqs]
    simp [hname]
  | @typed t r ht htne hne =>
    have hr := Opcode.hasResult_of_hasType ht
    cases hops with
    | @cons f _ fs _ hm hfs =>
    cases hfs with
    | @cons g _ fs _ hm' hfs =>
    obtain ⟨name, hname, hid⟩ := name_of_matches rfl hm
    obtain ⟨name', hname', hid'⟩ := name_of_matches rfl hm'
    refine ⟨.inr ⟨name', ?_, by simpa [hr, ht] using hid', by simpa [hr, ht] using hne⟩, ?_⟩
    · rw [List.filter_cons_of_neg (by simp [hm.1]), List.filter_cons_of_pos (by simpa using hm'.1),
        filter_of_kind_ne hfs hqs]
      simp [hname']
    · simpa [ht, hname] using hid

lemma id?_of_mem (h : Meets names earlier st i ps) {name : String} (hn : name ∈ st.resultNames) :
    names.id? name = some i.resultId := by
  rcases h.results.1 with ⟨-, hnil⟩ | ⟨name', hname, hid, -⟩
  · simp [hnil] at hn
  · obtain rfl : name = name' := by simpa [hname] using hn
    exact hid

end Meets

/-- Statements and the instructions that they were written as. -/
abbrev Met (names : SymbolTable) (before : List Statement) (earlier : List Instruction) : Prop :=
  List.Forall₂ (fun st i => ∃ earlier ps, Meets names earlier st i ps) before earlier

namespace Met

variable {names : SymbolTable} {before : List Statement} {earlier : List Instruction}

lemma extend {names' : SymbolTable} (h : Met names before earlier) (he : names.Extends names') :
    Met names' before earlier :=
  h.imp fun _ _ ⟨_, _, hm⟩ => ⟨_, _, hm.extend he⟩

lemma snoc {st : Statement} {i : Instruction} {ps : List Piece} (h : Met names before earlier)
    (hm : Meets names earlier st i ps) : Met names (before ++ [st]) (earlier ++ [i]) :=
  List.rel_append h (.cons ⟨_, _, hm⟩ .nil)

lemma exists_of_mem {st : Statement} (h : Met names before earlier) (hst : st ∈ before) :
    ∃ i ∈ earlier, ∃ earlier ps, Meets names earlier st i ps := by
  induction h with
  | nil => simp at hst
  | cons hm _ ih =>
    rcases List.mem_cons.mp hst with rfl | hst
    · exact ⟨_, .head _, hm⟩
    · obtain ⟨i, hi, hm⟩ := ih hst
      exact ⟨i, .tail _ hi, hm⟩

lemma exists_of_mem' {i : Instruction} (h : Met names before earlier) (hi : i ∈ earlier) :
    ∃ st ∈ before, ∃ earlier ps, Meets names earlier st i ps := by
  induction h with
  | nil => simp at hi
  | cons hm _ ih =>
    rcases List.mem_cons.mp hi with rfl | hi
    · exact ⟨_, .head _, hm⟩
    · obtain ⟨st, hst, hm⟩ := ih hi
      exact ⟨st, .tail _ hst, hm⟩

lemma declaresNumber (h : Met names before earlier) {name : String} {t : NumberType} {w : Word}
    (hn : NamesNumber before name t) (hid : names.id? name = some w) :
    DeclaresNumber earlier w t := by
  obtain ⟨st, hst, hmem, hnumber⟩ := hn
  obtain ⟨i, hi, _, _, hm⟩ := h.exists_of_mem hst
  have hw := hm.id?_of_mem hmem
  exact ⟨i, hi, Option.some.inj (hw.symm.trans hid), hm.number?_eq.trans hnumber⟩

end Met

/-! ### One statement -/

section

variable {names : List String} {before : List Statement} {earlier : List Instruction}
  {s : State} {result? : Option Token} {tokens : List Token} {e : Encoded} {st : Statement}

lemma Fills.exists_take? {op : Opcode} {done : List Word} {p : Pattern} {f : Filled}
    {fs : List Filled} (h : Fills op result? s done p tokens (f :: fs) e) :
    ∃ rest, p.take? = some (f.slot, rest) := by
  cases h with
  | result take => exact ⟨_, take⟩
  | operand take => exact ⟨_, take⟩

/-- A result type and a switch's selector are the first operand word. -/
lemma Fills.firstName (h : Fills st.opcode result? s [] st.opcode.operands tokens st.operands e)
    (hnamed : ∀ f ∈ st.operands, f.Named e.state.symbols)
    (hop : st.opcode.hasType ∨ st.opcode = .opSwitch) {name : String}
    (hn : st.firstName? = some name) :
    ∃ w ws, Filled.wordsOf st.operands = w :: ws ∧ e.state.symbols.id? name = some w := by
  rw [Statement.firstName?] at hn
  generalize st.operands = fs at h hn hnamed
  rcases fs with _ | ⟨f, fs⟩
  · simp at hn
  obtain ⟨rest, ht⟩ := h.exists_take?
  have hslot : f.slot = .typeId ∨ f.slot = .id := by
    rcases hop with htype | hswitch
    · rw [st.opcode.operands_eq, Opcode.resultSlots, if_pos htype] at ht
      exact .inl (Pattern.kind_of_take?_one rfl ht)
    · rw [hswitch] at ht
      exact .inr (Pattern.kind_of_take?_one rfl ht)
  obtain ⟨n, w, hchars, hw, hid⟩ : ∃ n w, f.token.chars = '%' :: n ∧ f.words = [w] ∧
      e.state.symbols.id? (String.ofList n) = some w := by
    rcases hslot with hs | hs
    · exact hnamed f (.head _) .typeId (by simp [hs, Slot.kind?]) rfl
    · exact hnamed f (.head _) .id (by simp [hs, Slot.kind?]) rfl
  obtain rfl : String.ofList n = name := by simpa [Filled.name?_eq hchars] using hn
  exact ⟨w, _, by rw [Filled.wordsOf_cons, hw]; rfl, hid⟩

/-- The type that governs by its name does so by its id. -/
lemma Met.governs {t : NumberType} (hmet : Met e.state.symbols before earlier)
    (h : Fills st.opcode result? s [] st.opcode.operands tokens st.operands e)
    (hnamed : ∀ f ∈ st.operands, f.Named e.state.symbols) (hgov : st.Governs before t) :
    Context.Governs ⟨earlier, st.opcode, Filled.wordsOf st.operands⟩ t ∧
      (t.isInteger ∨ t.width = 32 ∨ t.width = 64) := by
  obtain ⟨hwidth, hgov⟩ := hgov
  rw [Context.Governs]
  by_cases hop : st.opcode = .opSwitch
  · simp only [hop, if_true] at hgov ⊢
    obtain ⟨hint, selector, type, hfirst, ⟨st', hst', hmem, htype⟩, hn⟩ := hgov
    obtain ⟨w, ws, hws, hid⟩ := h.firstName hnamed (.inr hop) hfirst
    obtain ⟨i, hi, _, _, hm⟩ := hmet.exists_of_mem hst'
    have hw : i.resultId = w := Option.some.inj ((hm.id?_of_mem hmem).symm.trans hid)
    exact ⟨⟨hwidth, hint, w, i.typeId, by rw [hws]; rfl, ⟨i, hi, hw, rfl⟩,
      hmet.declaresNumber hn (hm.results.2 type htype)⟩, .inl hint⟩
  · simp only [hop, if_false] at hgov ⊢
    obtain ⟨hform, type, htype, hn⟩ := hgov
    rw [Statement.typeName?] at htype
    split at htype
    next hhas =>
      obtain ⟨w, ws, hws, hid⟩ := h.firstName hnamed (.inl hhas) htype
      have htypeId : Context.typeId ⟨earlier, st.opcode, Filled.wordsOf st.operands⟩ = w := by
        simp [Context.typeId, hhas, hws]
      rw [htypeId]
      exact ⟨⟨hwidth, hmet.declaresNumber hn hid⟩, hform⟩
    next => simp at htype

/-- The assembler and the reader agree on the operands of a regular statement. -/
lemma Met.faces {set? : Option ExtendedSet} (hmet : Met e.state.symbols before earlier)
    (h : Fills st.opcode result? s [] st.opcode.operands tokens st.operands e)
    (hv : Valid names s.symbols) (hv' : Valid names e.state.symbols)
    (hnamed : ∀ f ∈ st.operands, f.Named e.state.symbols) (hd : Declares s.declared earlier)
    (hreg : st.Regular before)
    (hset : ∀ set, Context.UsesSet ⟨earlier, st.opcode, Filled.wordsOf st.operands⟩ set →
      set? = some set) :
    Faces names earlier st.opcode set? s [] st.opcode.operands st.operands where
  valid := hv
  declares := hd
  placed := placed_operands earlier st.opcode
  regular := hreg.operands
  new f hf hk w hw i hi he := by
    obtain ⟨n, v, hchars, hv, hid⟩ := hnamed f hf .resultId hk rfl
    obtain rfl : w = v := by simpa [hv] using hw
    obtain ⟨st', hst', _, _, hm⟩ := hmet.exists_of_mem' hi
    have hname : String.ofList n ∈ st.resultNames := List.mem_filterMap.mpr
      ⟨f, List.mem_filter.mpr ⟨hf, by simpa using hk⟩, Filled.name?_eq hchars⟩
    rcases hm.results.1 with ⟨h0, -⟩ | ⟨n', hn', hid', -⟩
    · exact hv'.nonzero _ _ hid (he ▸ h0)
    · obtain rfl := hv'.injective hid (he ▸ hid')
      exact hreg.new _ hname st' hst' (by simp [hn'])
  governs f hf hk := by
    obtain ⟨t, hgov⟩ := hreg.governs f hf hk
    exact ⟨t, hmet.governs h hnamed hgov⟩
  set := hset

/-- The reader takes the operands of a regular statement, and of an import its set is declared. -/
lemma Met.reads {set? : Option ExtendedSet} (hmet : Met e.state.symbols before earlier)
    (h : Fills st.opcode result? s [] st.opcode.operands tokens st.operands e)
    (hlen : names.length + 2 < 2 ^ 32)
    (htok : ∀ token, token ∈ result? ∨ token ∈ tokens →
      isRaw token.chars = false ∧ String.ofList token.chars.tail ∈ names)
    (hv : Valid names s.symbols) (hd : Declares s.declared earlier) (hdec : Decodable earlier)
    (hreg : st.Regular before)
    (hset : ∀ set, Context.UsesSet ⟨earlier, st.opcode, Filled.wordsOf st.operands⟩ set →
      set? = some set) :
    Reads e.state.symbols earlier st.opcode set? [] st.opcode.operands st.operands ∧
      if st.opcode = .opExtInstImport then ∃ w ws set, Filled.wordsOf st.operands = w :: ws ∧
          setNamed? ws = some set ∧ e.state.declared
            = { s.declared with imports := s.declared.imports.insert w (some set) }
      else e.state.declared = s.declared := by
  obtain ⟨⟨hv', -⟩, hnamed⟩ := h.valid hlen htok hv
  have hf := hmet.faces h hv hv' hnamed hd hreg hset
  by_cases hop : st.opcode = .opExtInstImport
  · rw [if_pos hop]
    rw [hop] at h hf ⊢
    exact h.reads_import hdec hlen htok hf
  · rw [if_neg hop]
    exact ⟨h.reads hop hdec hlen htok hf, h.declared_eq hop⟩

/-- Whatever form it has, a statement is made of its operands. -/
lemma Encodes.exists_fills {form : Form} {toks : List Token} (h : Encodes form s toks st e) :
    ∃ result? rest e', Fills st.opcode result? s [] st.opcode.operands rest st.operands e' ∧
      e = finished st.opcode e' ∧ e'.words.size + 1 ≤ maxInstructionWords ∧
      ∀ token, token ∈ result? ∨ token ∈ rest → token ∈ toks := by
  cases h with
  | plain _ _ _ fills size =>
    exact ⟨none, _, _, fills, rfl, size, fun t ht =>
      List.mem_cons_of_mem _ (by simpa using ht)⟩
  | @assigned result equals name rest _ _ _ _ _ _ _ _ _ fills size =>
    refine ⟨some result, _, _, fills, rfl, size, fun t ht => ?_⟩
    rcases ht with ht | ht
    · obtain rfl : result = t := by simpa using ht
      exact .head _
    · exact .tail _ (.tail _ (.tail _ ht))

/-- The instruction declares what the assembler notes of the statement. -/
lemma declared_finished {i : Instruction} {ps : List Piece} {e' : Encoded}
    (hi : Decodes earlier i ps) (hop : i.opcode = st.opcode)
    (hwords : Piece.wordsOf ps = Filled.wordsOf st.operands)
    (he : e'.words.toList = Filled.wordsOf st.operands)
    (hdecl : if st.opcode = .opExtInstImport then ∃ w ws set,
        Filled.wordsOf st.operands = w :: ws ∧ setNamed? ws = some set ∧ e'.state.declared
          = { s.declared with imports := s.declared.imports.insert w (some set) }
      else e'.state.declared = s.declared) :
    (finished st.opcode e').state.declared = s.declared.add i := by
  obtain ⟨lead, hlead, -⟩ := hi.words
  have harray : i.words.toList.tail.toArray = e'.words := by
    rw [hlead, List.tail_cons, hwords, ← he]
  rw [finished, Declared.add, harray, hop]
  split at hdecl
  next himport =>
    obtain ⟨w, ws, set, hw, hset, hd⟩ := hdecl
    have hhas : i.opcode.hasType = false ∧ i.opcode.hasResult = true := by
      rw [hop, himport]
      decide
    obtain ⟨rest, hrest⟩ := hi.words_of_hasResult hhas.2
    obtain ⟨rfl, rfl⟩ : w = i.resultId ∧ ws = rest := by
      simpa [hwords, hw, hhas.1] using hrest
    have hnamed : i.importedSet? = some set := by
      rw [Instruction.importedSet?, if_pos (hop.trans himport), hlead, hwords, hw]
      exact hset
    rw [hd, hnamed]
    rfl
  next himport =>
    have hnone : i.importedSet? = none := by
      rw [Instruction.importedSet?, if_neg (by rwa [hop])]
    rw [hdecl, hnone]
    rfl

/-- **A regular statement is written as an instruction that may stand where it does.** -/
theorem Encodes.meets {form : Form} {toks : List Token} (h : Encodes form s toks st e)
    (hlen : names.length + 2 < 2 ^ 32)
    (htok : ∀ token ∈ toks, isRaw token.chars = false ∧ String.ofList token.chars.tail ∈ names)
    (hv : Valid names s.symbols) (hd : Declares s.declared earlier) (hdec : Decodable earlier)
    (hmet : Met s.symbols before earlier) (hreg : st.Regular before) :
    (Valid names e.state.symbols ∧ s.symbols.Extends e.state.symbols) ∧
      ∃ i ps, Meets e.state.symbols earlier st i ps ∧
        Declares e.state.declared (earlier ++ [i]) := by
  obtain ⟨result?, rest, e', fills, rfl, size, hsub⟩ := h.exists_fills
  have htok' := fun t ht => htok t (hsub t ht)
  obtain ⟨hv', hext⟩ := (fills.valid hlen htok' hv).1
  obtain ⟨d, hknows⟩ := Binary.exists_knows hdec
  have hset : ∀ set, Context.UsesSet ⟨earlier, st.opcode, Filled.wordsOf st.operands⟩ set →
      Binary.extendedSet? ⟨earlier, st.opcode, Filled.wordsOf st.operands⟩ d = some set :=
    fun set => (Binary.extendedSet?_eq_some_iff fun _ => hknows.imports).mpr
  obtain ⟨⟨ps, hfill, hmatch⟩, hdecl⟩ :=
    (hmet.extend hext).reads fills hlen htok' hv hd hdec hreg hset
  have hwords := wordsOf_of_matches hmatch
  have he : e'.words.toList = Filled.wordsOf st.operands := fills.words_eq
  -- the instruction that the words make up
  let i := Binary.instructionOf d ⟨earlier, st.opcode, []⟩ (Word.joinLead
    (UInt16.ofNat ((Filled.wordsOf st.operands).length + 1)) st.opcode.value) ps
  have hcount : (UInt16.ofNat ((Filled.wordsOf st.operands).length + 1)).toNat
      = (Piece.wordsOf ps).length + 1 := by
    have : (Filled.wordsOf st.operands).length + 1 ≤ 65535 := by
      rw [← he, Array.length_toList]
      exact size
    rw [hwords, UInt16.toNat_ofNat', Nat.mod_eq_of_lt (by omega)]
  have hi : Decodes earlier i ps := (Binary.decodes_iff hknows).mpr
    ⟨hfill, _, by rwa [Word.splitLead_joinLead], by rw [Word.splitLead_joinLead]; rfl, rfl⟩
  refine ⟨⟨hv', hext⟩, i, ps, ⟨hi, rfl, ?_, ?_⟩, ?_⟩
  · rw [Statement.words, Statement.operandWords, ← hwords]
    simp [i, Binary.instructionOf, hwords]
  · have hex : i.extendedSet?
        = Binary.extendedSet? ⟨earlier, st.opcode, Filled.wordsOf st.operands⟩ d := by
      simp [i, Binary.instructionOf, Context.push, hwords]
    rw [hex]
    exact hmatch
  · rw [declared_finished hi rfl hwords he hdecl]
    exact hd.add hi

end

end Spirv.Assembly
