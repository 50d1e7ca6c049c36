import Mathlib
import Spirv.Proofs.Decoding.RequiredFirst
import Spirv.Proofs.Encoding.Parts

/-!
Required slots come first for the assembler as well.

A raw word makes what follows free, and a free slot may stay empty. A result keeps its place behind
raw words and must not be missing; but it is never behind anything else than a type, which is gone
when a raw word stands for it. So no required slot comes behind one that may stay empty, and an
instruction without raw words lacks no operand.
-/

namespace Spirv.Assembly

/-- A call of what fills the slots of an instruction. -/
structure Place where
  state : State
  done : List Word
  pattern : Pattern
  tokens : List Token

namespace Place

variable {op : Opcode} {result? : Option Token}

/-- The next slot is filled. -/
inductive Takes (op : Opcode) (result? : Option Token) : Place → Place → Prop where
  | result {s s' : State} {done ws : List Word} {p rest : Pattern} {tokens : List Token}
    {token : Token} {r : Reading} (take : p.take? = some (.resultId, rest))
    (result : result? = some token) (read : readId .fatal token.chars = .ok r)
    (accept : s.accept done.toArray r = .ok (s', (done ++ ws).toArray)) :
    Takes op result? ⟨s, done, p, tokens⟩ ⟨s', done ++ ws, rest, tokens⟩
  | operand {s s' : State} {done ws : List Word} {p rest : Pattern} {slot : Slot}
    {tokens : List Token} {token : Token} {r : Reading} (take : p.take? = some (slot, rest))
    (result : slot = .resultId → result? = none)
    (start : Token.startInstruction (token :: tokens) = false)
    (read : readOperand s.declared op done.toArray slot token.chars = .ok r)
    (accept : s.accept done.toArray r = .ok (s', (done ++ ws).toArray)) :
    Takes op result? ⟨s, done, p, token :: tokens⟩
      ⟨s', done ++ ws, r.patternAfter slot rest, tokens⟩

/-- What filling slots comes to from the place on. -/
def outcome (op : Opcode) (result? : Option Token) (finish : Position) (g : Place) :
    Except Error Encoded :=
  fillSlots op result? finish g.state g.done.toArray g.pattern g.tokens

lemma Takes.outcome_eq {g g' : Place} (h : Takes op result? g g') (finish : Position) :
    g'.outcome op result? finish = g.outcome op result? finish := by
  cases h with
  | result take result read accept =>
    subst result
    rw [outcome, outcome, fillSlots_result take]
    simp [read, acceptToken_eq_ok.mpr accept, bind, Except.bind]
  | operand take result start read accept =>
    rw [outcome, outcome, fillSlots_token take result start]
    simp [read, acceptToken_eq_ok.mpr accept, bind, Except.bind]

/-- A place that filling the slots of an instruction comes to. -/
def Reached (op : Opcode) (result? : Option Token) (s : State) (tokens : List Token) (g : Place) :
    Prop :=
  Relation.ReflTransGen (Takes op result?) ⟨s, [], op.operands, tokens⟩ g

lemma Reached.outcome_eq {s : State} {tokens : List Token} {g : Place}
    (h : Reached op result? s tokens g) (finish : Position) : g.outcome op result? finish
      = fillSlots op result? finish s #[] op.operands tokens := by
  induction h with
  | refl => rfl
  | tail _ ht ih => exact (ht.outcome_eq finish).trans ih

end Place

/-- Slots that are filled are filled one after the other, until none is required. -/
lemma Fills.exists_last {op : Opcode} {result? : Option Token} {s : State} {done : List Word}
    {p : Pattern} {tokens : List Token} {fs : List Filled} {e : Encoded}
    (h : Fills op result? s done p tokens fs e) : ∃ last : Place,
      Relation.ReflTransGen (Place.Takes op result?) ⟨s, done, p, tokens⟩ last ∧
        (∀ slot ∈ last.pattern.head?, slot.isOptional) ∧
        e = ⟨last.state, last.done.toArray, last.tokens⟩ := by
  induction h with
  | @full _ _ p _ take =>
    obtain rfl := eq_nil_of_take? take
    exact ⟨_, .refl, by simp, rfl⟩
  | stop take optional =>
    exact ⟨_, .refl, isOptional_of_take? take optional, rfl⟩
  | result take result read accept more ih =>
    obtain ⟨last, hlast, hend⟩ := ih
    exact ⟨last, .head (.result take result read accept) hlast, hend⟩
  | operand take result start read accept more ih =>
    obtain ⟨last, hlast, hend⟩ := ih
    exact ⟨last, .head (.operand take result start read accept) hlast, hend⟩

/-! ### The patterns that are come to -/

variable {p rest : Pattern} {slot : Slot} {d : Declared} {op : Opcode} {done : Array Word}
  {chars : List Char} {r : Reading}

/-- A pattern once the result is bound. -/
inductive Bound : Pattern → Prop where
  | clear {p : Pattern} (clear : p.isClear) (free : IsResultFree p) : Bound p
  | free : Bound [.free]

/-- A pattern with the slots for a type and a result that are still to be bound. -/
inductive Open : Pattern → Prop where
  | bound {p : Pattern} (bound : Bound p) : Open p
  | result {p : Pattern} (bound : Bound p) : Open (.resultId :: p)
  | typed {p : Pattern} (bound : Bound p) : Open (.typeId :: .resultId :: p)

lemma Bound.isResultFree (h : Bound p) : IsResultFree p := by
  cases h with
  | clear _ free => exact free
  | free => exact isResultFree_free

lemma patternAfter_raw (h : IsResultFree rest) (w : Word) :
    (Reading.raw w).patternAfter slot rest = [.free] := by
  simp [Reading.patternAfter, h.afterRaw_eq]

/-- Any operand leaves a pattern that is bound. -/
lemma Bound.patternAfter (h : Bound p) (ht : p.take? = some (slot, rest))
    (hread : readOperand d op done slot chars = .ok r) : Bound (r.patternAfter slot rest) := by
  obtain ⟨-, hrest⟩ := h.isResultFree.of_take? ht
  by_cases hraw : isRaw chars
  · obtain ⟨w, rfl⟩ := exists_raw_of_readOperand hraw hread
    exact patternAfter_raw hrest w ▸ .free
  cases h with
  | clear hp =>
    have hslot := Pattern.isClear_of_take? hp ht
    have hs : slot ≠ .free := by
      rintro rfl
      simp [Pattern.isClear] at hslot
    obtain ⟨k, hk⟩ := exists_kind_of_readOperand (by simpa using hraw) hs hread
    have hneeds := wants_of_readKind (readKind_of_readOperand (by simpa using hraw) hk hread)
    refine .clear ?_ (hrest.patternAfter hread)
    rw [patternAfter_of_readOperand (by simpa using hraw) hk hread]
    exact hneeds.isClear_append hk hslot
  | free =>
    obtain ⟨rfl, rfl⟩ := by simpa [Pattern.take?] using ht
    have hneeds : r.needs = [] := List.eq_nil_iff_forall_not_mem.mpr fun t ht => by
      obtain ⟨k, hk, -⟩ := exists_asks_of_readOperand hread ht
      simp [Slot.kind?] at hk
    have hafter : r.patternAfter .free [] = [.free] := by
      cases r <;> simp_all [Reading.patternAfter, Reading.needs, Pattern.afterRaw]
    exact hafter ▸ .free

lemma Bound.requiredFirst (h : Bound p) : p.RequiredFirst := by
  cases h with
  | clear clear => exact Pattern.requiredFirst_of_isClear clear
  | free => exact List.pairwise_singleton ..

lemma Open.requiredFirst (h : Open p) : p.RequiredFirst := by
  cases h with
  | bound bound => exact bound.requiredFirst
  | result bound => exact bound.requiredFirst.cons (by simp [Slot.isOptional])
  | typed bound =>
    exact (bound.requiredFirst.cons (by simp [Slot.isOptional])).cons (by simp [Slot.isOptional])

lemma Open.orderly (h : Open p) : p.Orderly where
  required := h.requiredFirst
  taken slot rest ht := by
    cases h with
    | bound bound =>
      cases bound with
      | clear clear => exact (Pattern.orderly_of_isClear clear).taken _ _ ht
      | free =>
        obtain ⟨rfl, rfl⟩ := by simpa [Pattern.take?] using ht
        exact List.pairwise_singleton ..
    | result bound =>
      obtain ⟨rfl, rfl⟩ := by simpa [Pattern.take?] using ht
      exact (Open.result bound).requiredFirst
    | typed bound =>
      obtain ⟨rfl, rfl⟩ := by simpa [Pattern.take?] using ht
      exact (Open.typed bound).requiredFirst
  front := h.requiredFirst.all_isOptional

lemma open_operands (op : Opcode) : Open op.operands := by
  have hbound : Bound op.constantOperands :=
    .clear op.isClear_constantOperands fun _ ht => resultId_notMem_kinds (Opcode.isInner_of_mem ht)
  rw [op.operands_eq, Opcode.resultSlots]
  rcases hr : op.hasResult with _ | _
  · rw [Opcode.hasType_of_hasResult hr]
    exact .bound hbound
  · rcases op.hasType with _ | _
    · exact .result hbound
    · exact .typed hbound

/-- A slot for an id is filled by an id or a raw word. -/
lemma patternAfter_of_isId {k : OperandKind} (hk : k = .typeId ∨ k = .resultId)
    (hread : readOperand d op done (.one k) chars = .ok r) :
    r.patternAfter (.one k) rest = rest ∨ ∃ w, r = .raw w := by
  by_cases hraw : isRaw chars
  · exact .inr (exists_raw_of_readOperand hraw hread)
  · left
    have hkind := readKind_of_readOperand (by simpa using hraw) rfl hread
    rw [patternAfter_of_readOperand (by simpa using hraw) rfl hread]
    rcases hk with rfl | rfl <;> rw [needs_of_readId hkind, List.nil_append]

/-- **A slot that is filled leaves an open pattern.** -/
lemma Place.Takes.isOpen {result? : Option Token} {g g' : Place} (h : Takes op result? g g')
    (hg : Open g.pattern) : Open g'.pattern := by
  cases h with
  | result take result read accept =>
    cases hg with
    | bound bound => exact absurd rfl (bound.isResultFree.of_take? take).1
    | result bound =>
      obtain rfl := by simpa [Pattern.take?] using take
      exact .bound bound
    | typed bound => simp [Pattern.take?] at take
  | operand take result start read accept =>
    cases hg with
    | bound bound => exact .bound (bound.patternAfter take read)
    | result bound =>
      obtain ⟨rfl, rfl⟩ := by simpa [Pattern.take?] using take
      rcases patternAfter_of_isId (.inr rfl) read with hafter | ⟨w, rfl⟩
      · exact hafter ▸ .bound bound
      · exact patternAfter_raw bound.isResultFree w ▸ .bound .free
    | @typed p bound =>
      obtain ⟨rfl, rfl⟩ := by simpa [Pattern.take?] using take
      rcases patternAfter_of_isId (.inl rfl) read with hafter | ⟨w, rfl⟩
      · exact hafter ▸ .result bound
      · have hafter : (Reading.raw w).patternAfter .typeId (.resultId :: p) = [.resultId, .free] := by
          simp [Reading.patternAfter, Pattern.afterRaw]
        exact hafter ▸ .result .free

lemma Place.Reached.isOpen {result? : Option Token} {s : State} {tokens : List Token} {g : Place}
    (h : Reached op result? s tokens g) : Open g.pattern := by
  induction h with
  | refl => exact open_operands op
  | tail _ ht ih => exact ht.isOpen ih

/-! ### Nothing is missing -/

/-- The operands fill the slots of the pattern, and none that is left must be filled. -/
inductive Supplies : Pattern → List Filled → Prop where
  | done {p : Pattern} (optional : ∀ s ∈ p, s.isOptional) : Supplies p []
  | next {p rest : Pattern} {f : Filled} {fs : List Filled} (take : p.take? = some (f.slot, rest))
    (more : Supplies (f.reading.needs ++ rest) fs) : Supplies p (f :: fs)

/-- **An instruction without raw words lacks no operand.** -/
theorem Fills.supplies {result? : Option Token} {s : State} {done : List Word} {tokens : List Token}
    {fs : List Filled} {e : Encoded} (h : Fills op result? s done p tokens fs e) (hp : p.isClear)
    (hraw : ∀ f ∈ fs, isRaw f.token.chars = false) : Supplies p fs := by
  induction h with
  | full take => exact .done (by simp [eq_nil_of_take? take])
  | stop take optional =>
    exact .done (Pattern.all_isOptional hp (isOptional_of_take? take optional))
  | result take result read accept more ih =>
    obtain ⟨-, hraw⟩ := List.forall_mem_cons.mp hraw
    refine .next take ?_
    rw [needs_of_readId read, List.nil_append]
    exact ih (Pattern.isClear_tail (Pattern.isClear_of_take? hp take)) hraw
  | operand take result start read accept more ih =>
    obtain ⟨htoken, hraw⟩ := List.forall_mem_cons.mp hraw
    have hslot := Pattern.isClear_of_take? hp take
    obtain ⟨k, hk⟩ := exists_kind_of_readOperand htoken
      (by rintro rfl; simp [Pattern.isClear] at hslot) read
    have hneeds := wants_of_readKind (readKind_of_readOperand htoken hk read)
    rw [patternAfter_of_readOperand htoken hk read] at ih
    exact .next take (ih (hneeds.isClear_append hk hslot) hraw)

lemma Encodes.supplies {form : Form} {s : State} {tokens : List Token} {st : Statement} {e : Encoded}
    (h : Encodes form s tokens st e) (hraw : ∀ f ∈ st.operands, isRaw f.token.chars = false) :
    Supplies st.opcode.operands st.operands := by
  cases h with
  | plain _ _ _ fills | assigned _ _ _ _ _ _ fills =>
    exact fills.supplies (Opcode.isClear_operands _) hraw

lemma EncodesParts.supplies {form : Form} {s s' : State} {tokens : List Token} {ps : List Part}
    (h : EncodesParts form s tokens ps s') {st : Statement} (hst : .statement st ∈ ps)
    (hraw : ∀ f ∈ st.operands, isRaw f.token.chars = false) :
    Supplies st.opcode.operands st.operands := by
  induction h with
  | nil => simp at hst
  | cons first _ ih =>
    rcases List.mem_cons.mp hst with rfl | hst
    · cases first with
      | statement encodes => exact encodes.supplies hraw
    · exact ih hst

/-- **Required operands never hide behind optional ones.** In no pattern that the assembler or the
parser comes to does a slot that must be filled stand behind one that may stay empty or repeats, also
once a repetition is unrolled; so the slot in front tells whether one must still be filled, and where
filling ends well none must. No instruction that is shown lacks an operand, and none of a text does
that has no raw words. -/
theorem operands_requiredFirst :
    (∀ (op : Opcode) (result? : Option Token) (s : State) (tokens : List Token),
      (∀ g, Place.Reached op result? s tokens g → g.pattern.Orderly ∧
        ∀ finish, g.outcome op result? finish
          = fillSlots op result? finish s #[] op.operands tokens) ∧
      ∀ finish e, fillSlots op result? finish s #[] op.operands tokens = .ok e →
        ∃ last, Place.Reached op result? s tokens last ∧ (∀ t ∈ last.pattern, t.isOptional) ∧
          e = ⟨last.state, last.done.toArray, last.tokens⟩) ∧
      (∀ (words : List Word) (g : Binary.Stage), Binary.Passes words g → g.pattern.Orderly ∧
        ∀ o, g.outcome = .ok o → ∃ last, Relation.ReflTransGen Binary.Stage.Leads g last ∧
          (∀ t ∈ last.pattern, t.isOptional) ∧ last.offset = g.count ∧
          o = ⟨last.defined, last.draft, last.records⟩) ∧
      (∀ {σ β : Type} (v : Binary.Visitor σ β) (t : σ) (words : List Word)
        (earlier later : List Instruction) (i : Instruction),
        Binary.shown v t words = earlier ++ i :: later →
          Sentence ⟨earlier, i.opcode, []⟩ i.opcode.operands i.words.toList.tail) ∧
      ∀ (o : AssemblyOptions) (text : String) (a : Assembly), assemble o text = .ok a →
        ∃ ps, Consists o text ps ∧ a.words.drop Header.wordCount = ps.flatMap Part.words ∧
          ∀ st, .statement st ∈ ps → (∀ f ∈ st.operands, isRaw f.token.chars = false) →
            Supplies st.opcode.operands st.operands := by
  refine ⟨fun op result? s tokens => ⟨fun g hg => ⟨hg.isOpen.orderly, hg.outcome_eq⟩,
    fun finish e he => ?_⟩, fun words g hg => ⟨Pattern.orderly_of_isClear hg.isClear, fun o ho => ?_⟩,
    fun v t words earlier later i h => Binary.sentence_of_shown v t h, fun o text a ha => ?_⟩
  · obtain ⟨fs, hfs⟩ := exists_fills he
    obtain ⟨last, hlast, hfront, hend⟩ := hfs.exists_last
    exact ⟨last, hlast, (Place.Reached.isOpen hlast).orderly.front hfront, hend⟩
  · obtain ⟨last, hlast, hfront, hend⟩ := Binary.Stage.exists_last ho
    have hclear := (hg.trans hlast).isClear
    exact ⟨last, hlast, (Pattern.orderly_of_isClear hclear).front hfront, hend⟩
  · obtain ⟨⟨ps, s', hps⟩, hall⟩ := exists_consists ha
    exact ⟨ps, ⟨s', hps⟩, (hall hps).1, fun st hst hraw => hps.supplies hst hraw⟩

end Spirv.Assembly
