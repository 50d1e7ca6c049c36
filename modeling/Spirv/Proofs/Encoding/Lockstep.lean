import Mathlib
import Spirv.Proofs.Encoding.Bound
import Spirv.Proofs.Encoding.Spelling

/-!
Two runs of the encoder side by side.

The encoder sees of a text only its words, and of these no more than up to the start of the next
instruction. The names of ids it only gives to the symbols. So where two texts go on in step, with the
same words save for names that correspond, until each is at its end or at the start of an
instruction, operands are encoded alike: to the same words, stopping at the same word, or with the
same fault. A `Renaming` says which names, symbols and faults correspond.
-/

namespace Spirv

/-- Both computations fail with related errors, or both succeed with related results. -/
inductive Alike {ε α β : Type} (E : ε → ε → Prop) (R : α → β → Prop) :
    Except ε α → Except ε β → Prop where
  | ok {a : α} {b : β} (h : R a b) : Alike E R (.ok a) (.ok b)
  | error {e e' : ε} (h : E e e') : Alike E R (.error e) (.error e')

namespace Alike

variable {ε α α' β β' : Type} {E : ε → ε → Prop} {R : α → β → Prop} {R' : α' → β' → Prop}
  {x : Except ε α} {y : Except ε β}

lemma bind (h : Alike E R x y) {f : α → Except ε α'} {g : β → Except ε β'}
    (hfg : ∀ a b, R a b → Alike E R' (f a) (g b)) : Alike E R' (x >>= f) (y >>= g) := by
  cases h with
  | ok h => exact hfg _ _ h
  | error h => exact .error h

lemma and_left {P : α → Prop} (h : Alike E R x y) (hP : ∀ a, x = .ok a → P a) :
    Alike E (fun a b => R a b ∧ P a) x y := by
  cases h with
  | ok h => exact .ok ⟨h, hP _ rfl⟩
  | error h => exact .error h

lemma mono (h : Alike E R x y) {R₁ : α → β → Prop} (hR : ∀ a b, R a b → R₁ a b) :
    Alike E R₁ x y := by
  cases h with
  | ok h => exact .ok (hR _ _ h)
  | error h => exact .error h

/-- The errors may be any. -/
lemma failing (h : Alike E R x y) : Alike (fun _ _ => True) R x y := by
  cases h with
  | ok h => exact .ok h
  | error _ => exact .error trivial

/-- What two computations that are alike come to. -/
lemma ok_or_error (h : Alike E R x y) : (∃ a b, x = .ok a ∧ y = .ok b ∧ R a b) ∨
    ∃ e e', x = .error e ∧ y = .error e' ∧ E e e' := by
  cases h with
  | ok h => exact .inl ⟨_, _, rfl, rfl, h⟩
  | error h => exact .inr ⟨_, _, rfl, rfl, h⟩

end Alike

/-- The errors are of faults that are related, wherever they were found. -/
inductive Error.Like (fault : Assembly.Fault → Assembly.Fault → Prop) : Error → Error → Prop where
  | text {f g : Assembly.Fault} (h : fault f g) (p q : Position) : Like fault (.text f p) (.text g q)
  | stringTooLong (line column line' column' : ℕ) :
    Like fault (.stringTooLong line column) (.stringTooLong line' column')

/-- The errors are of the same fault, wherever it was found. -/
abbrev Error.Same : Error → Error → Prop := Like (· = ·)

namespace SymbolTable

variable {t u : SymbolTable}

/-- The tables are equal, in whatever order their values were preserved. -/
structure Same (t u : SymbolTable) : Prop where
  ids : t.ids = u.ids
  names : t.names = u.names
  preserved : ∀ id, id ∈ t.preserved ↔ id ∈ u.preserved
  bound : t.bound = u.bound
  next : t.next = u.next

namespace Same

lemma contains_eq (h : t.Same u) (id : Word) :
    t.preserved.contains id = u.preserved.contains id := by
  rw [Bool.eq_iff_iff, Std.HashSet.contains_iff_mem, Std.HashSet.contains_iff_mem, h.preserved]

lemma size_eq (h : t.Same u) : t.preserved.size = u.preserved.size :=
  (Std.HashSet.Equiv.of_forall_mem_iff h.preserved).size_eq

lemma firstFree_eq (h : t.Same u) (n : ℕ) (id : Word) : t.firstFree n id = u.firstFree n id := by
  induction n generalizing id with
  | zero => rfl
  | succ n ih => rw [firstFree, firstFree, isTaken, isTaken, h.contains_eq, h.names, ih]

lemma bind (h : t.Same u) (name : String) (id : Word) : (t.bind name id).Same (u.bind name id) where
  ids := congrArg (·.insert name id) h.ids
  names := congrArg (·.insert id name) h.names
  preserved := h.preserved
  bound := congrArg (max · _) h.bound
  next := h.next

lemma setNext (h : t.Same u) (next : Word) :
    ({ t with next := next } : SymbolTable).Same { u with next := next } :=
  ⟨h.ids, h.names, h.preserved, h.bound, rfl⟩

/-- Equal tables number a name alike. -/
lemma assign (h : t.Same u) (name : String) :
    Alike (· = ·) (fun a b => a.1 = b.1 ∧ a.2.Same b.2) (t.assign name) (u.assign name) := by
  have hspelled : (valueOfName? name.toList).filter t.preserved.contains
      = (valueOfName? name.toList).filter u.preserved.contains :=
    congrArg (Option.filter · _) (funext h.contains_eq)
  have hid : t.id? name = u.id? name := by rw [id?, id?, h.ids]
  rw [SymbolTable.assign, SymbolTable.assign, hid, hspelled]
  split
  next => exact .error rfl
  next =>
  split
  next => exact .ok ⟨rfl, h⟩
  next =>
  split
  next value _ =>
    rw [name?, name?, h.names]
    split
    next => exact .error rfl
    next =>
      exact .ok ⟨rfl, h.bind name value⟩
  next =>
    have hfree : t.firstFree (t.preserved.size + t.names.size) t.next
        = u.firstFree (u.preserved.size + u.names.size) u.next := by
      rw [h.firstFree_eq, h.size_eq, h.names, h.next]
    rw [hfree]
    exact .ok ⟨rfl, (h.setNext _).bind name _⟩

end Same

end SymbolTable

namespace Assembly

/-! ### What corresponds -/

/-- The words are the same, or ids by names that are related. -/
inductive SameButNames (name : List Char → List Char → Prop) : List Char → List Char → Prop where
  | same {w : List Char} (notId : w.head? ≠ some '%') : SameButNames name w w
  | id {n n' : List Char} (name_rel : name n n') : SameButNames name ('%' :: n) ('%' :: n')

/-- What corresponds in two runs. Symbols that correspond give corresponding names the same id and
correspond afterwards. -/
structure Renaming where
  name : List Char → List Char → Prop
  symbols : SymbolTable → SymbolTable → Prop
  fault : Fault → Fault → Prop
  fault_words {v v' w w' : List Char} (hv : SameButNames name v v') (hw : SameButNames name w w')
    (f : String → String → Fault) :
    fault (f (String.ofList v) (String.ofList w)) (f (String.ofList v') (String.ofList w'))
  assign {t u : SymbolTable} {n n' : List Char} (ht : symbols t u) (hn : name n n') :
    Alike (fun e e' => fault (.symbol e) (.symbol e')) (fun a b => a.1 = b.1 ∧ symbols a.2 b.2)
      (t.assign (String.ofList n)) (u.assign (String.ofList n'))

/-- Words whose names are equal are equal, and so is what is said of them. -/
lemma fault_words_of_eq {v v' w w' : List Char} (hv : SameButNames (· = ·) v v')
    (hw : SameButNames (· = ·) w w') (f : String → String → Fault) :
    f (String.ofList v) (String.ofList w) = f (String.ofList v') (String.ofList w') := by
  have heq : ∀ {v w : List Char}, SameButNames (· = ·) v w → v = w := fun h => by
    cases h with
    | same => rfl
    | id name_rel => rw [name_rel]
  rw [heq hv, heq hw]

namespace Renaming

abbrev Words (R : Renaming) : List Char → List Char → Prop := SameButNames R.name

abbrev Errors (R : Renaming) : Error → Error → Prop := Error.Like R.fault

/-- The states are equal but for symbols that correspond. -/
structure States (R : Renaming) (s u : State) : Prop where
  symbols : R.symbols s.symbols u.symbols
  declared : s.declared = u.declared

inductive Readings (R : Renaming) : Reading → Reading → Prop where
  | same {r : Reading} (notId : ∀ name, r ≠ .id name) : Readings R r r
  | id {n n' : List Char} (name : R.name n n') :
    Readings R (.id (String.ofList n)) (.id (String.ofList n'))

inductive Refusals (R : Renaming) : Refusal → Refusal → Prop where
  | mismatch {f g : Fault} (h : R.fault f g) : Refusals R (.mismatch f) (.mismatch g)
  | fatal {f g : Fault} (h : R.fault f g) : Refusals R (.fatal f) (.fatal g)
  | tooLong : Refusals R .tooLong .tooLong

/-- The same names, and equal symbols in whatever order their values were preserved. -/
abbrev exact : Renaming where
  name := (· = ·)
  symbols := SymbolTable.Same
  fault := (· = ·)
  fault_words := fault_words_of_eq
  assign := by
    rintro t u n _ ht rfl
    have h := ht.assign (String.ofList n)
    generalize t.assign (String.ofList n) = x, u.assign (String.ofList n) = y at h ⊢
    cases h with
    | ok h => exact .ok h
    | error h => exact .error (congrArg _ h)

variable {R : Renaming} {s u : State} {v w : List Char} {r r' : Reading}

lemma fault_word (h : R.Words v w) (f : String → Fault) :
    R.fault (f (String.ofList v)) (f (String.ofList w)) :=
  R.fault_words h h fun x _ => f x

lemma fault_refl (R : Renaming) (f : Fault) : R.fault f f :=
  R.fault_word (v := []) (.same (by simp)) fun _ => f

lemma Refusals.refl (R : Renaming) (refusal : Refusal) : R.Refusals refusal refusal := by
  cases refusal with
  | mismatch fault => exact .mismatch (R.fault_refl fault)
  | fatal fault => exact .fatal (R.fault_refl fault)
  | tooLong => exact .tooLong

lemma Refusals.toError {e e' : Refusal} (h : R.Refusals e e') (p q : Position) :
    R.Errors (e.toError p) (e'.toError q) := by
  cases h with
  | mismatch h => exact .text h p q
  | fatal h => exact .text h p q
  | tooLong => exact .stringTooLong ..

lemma Readings.patternAfter_eq (h : R.Readings r r') (slot : Slot) (rest : Pattern) :
    r.patternAfter slot rest = r'.patternAfter slot rest := by
  cases h <;> rfl

end Renaming

lemma startsWithOp_of_percent {word : List Char} (h : word.head? = some '%') :
    Cursor.startsWithOp word = false := by
  rcases word with _ | ⟨c, word⟩
  · simp at h
  · obtain rfl : c = '%' := by simpa using h
    rfl

/-- Words whose names are related look alike. -/
lemma SameButNames.looks {name : List Char → List Char → Prop} {v w : List Char}
    (h : SameButNames name v w) : Cursor.startsWithOp v = Cursor.startsWithOp w ∧
      isRaw v = isRaw w ∧ v.head? = w.head? ∧ (v = ['='] ↔ w = ['=']) ∧
      (v.head? ≠ some '%' → v = w) := by
  cases h with
  | same notId => simp
  | id name_rel => simp [Cursor.startsWithOp, isRaw]

/-- A word corresponds to itself if names do. -/
lemma SameButNames.refl {name : List Char → List Char → Prop} (h : ∀ n, name n n) (w : List Char) :
    SameButNames name w w := by
  by_cases hpercent : w.head? = some '%'
  · obtain ⟨n, rfl⟩ := List.head?_eq_some_iff.mp hpercent
    exact .id (h n)
  · exact .same hpercent

lemma Renaming.words_exact {v w : List Char} (h : v = w) : exact.Words v w :=
  h ▸ .refl (fun _ => rfl) v

lemma Renaming.readings_exact (r : Reading) : exact.Readings r r := by
  cases r with
  | id name => simpa using Readings.id (R := exact) (n := name.toList) rfl
  | _ => exact .same (by simp)

/-- The states are equal, in whatever order values were preserved. -/
abbrev State.Same : State → State → Prop := Renaming.exact.States

lemma State.Same.refl (s : State) : s.Same s := ⟨⟨rfl, rfl, fun _ => Iff.rfl, rfl, rfl⟩, rfl⟩

/-! ### Putting operands down -/

section

variable {R : Renaming} {s u : State} {t t' : Token} {v w : List Char} {r r' : Reading}

lemma Renaming.States.accept (h : R.States s u) (done : Array Word) (hr : R.Readings r r') :
    Alike (fun e e' => R.fault (.symbol e) (.symbol e')) (fun a b => R.States a.1 b.1 ∧ a.2 = b.2)
      (s.accept done r) (u.accept done r') := by
  cases hr with
  | id name =>
    rw [State.accept, State.accept]
    have ha := R.assign h.symbols name
    generalize s.symbols.assign _ = x, u.symbols.assign _ = y at ha ⊢
    cases ha with
    | error h => exact .error h
    | ok hok =>
      obtain ⟨hid, hsymbols⟩ := hok
      exact .ok ⟨⟨hsymbols, h.declared⟩, by rw [hid]⟩
  | same notId =>
    cases r with
    | id name => exact absurd rfl (notId name)
    | raw w => exact .ok ⟨h, rfl⟩
    | value ws needs => exact .ok ⟨h, rfl⟩
    | importing set ws => exact .ok ⟨⟨h.symbols, by rw [h.declared]⟩, rfl⟩

lemma Renaming.States.acceptToken (h : R.States s u) (done : Array Word) (hr : R.Readings r r') :
    Alike R.Errors (fun a b => R.States a.1 b.1 ∧ a.2 = b.2) (acceptToken s done t r)
      (acceptToken u done t' r') := by
  rw [Assembly.acceptToken, Assembly.acceptToken]
  have ha := h.accept done hr
  generalize s.accept done r = x, u.accept done r' = y at ha ⊢
  cases ha with
  | error h => exact .error (.text h ..)
  | ok h => exact .ok h

/-- Corresponding words are read as ids alike. -/
lemma readId_alike (h : R.Words v w) (refuse : Fault → Refusal) :
    Alike R.Refusals R.Readings (readId refuse v) (readId refuse w) := by
  cases h with
  | id name_rel => exact .ok (.id name_rel)
  | same notId =>
    rcases hread : readId refuse v with e | r
    · exact .error (.refl R e)
    · refine .ok (.same fun name hname => ?_)
      obtain ⟨n, rfl, -⟩ := chars_of_readId (hname ▸ hread)
      simp at notId

/-- Corresponding words are taken for a slot alike. -/
lemma readOperand_alike (h : R.Words v w) (d : Declared) (op : Opcode) (done : Array Word)
    (slot : Slot) :
    Alike R.Refusals R.Readings (readOperand d op done slot v) (readOperand d op done slot w) := by
  cases h with
  | id name_rel =>
    cases onIds_readOperand d op done slot with
    | take h =>
      rw [h, h]
      exact .ok (.id name_rel)
    | mismatch fault h =>
      rw [h, h]
      exact .error (.mismatch (Renaming.fault_word (.id name_rel) fault))
    | fatal fault h =>
      rw [h, h]
      exact .error (.fatal (Renaming.fault_word (.id name_rel) fault))
  | same notId =>
    rcases hread : readOperand d op done slot v with e | r
    · exact .error (.refl R e)
    · refine .ok (.same fun name hname => ?_)
      obtain ⟨n, rfl, -⟩ := chars_of_readOperand (hname ▸ hread)
      simp at notId

/-- Corresponding words are taken alike where the grammar says nothing. -/
lemma readFreely_alike (h : R.Words v w) :
    Alike R.Refusals R.Readings (if isRaw v then readRaw v else readFree v)
      (if isRaw w then readRaw w else readFree w) :=
  readOperand_alike h .empty .opNop #[] .free

/-- A raw word names nothing. -/
lemma readRaw_alike (R : Renaming) (w : List Char) :
    Alike R.Refusals R.Readings (readRaw w) (readRaw w) := by
  rcases hread : readRaw w with e | r
  · exact .error (.refl R e)
  · exact .ok (.same fun name hname => readRaw_ne_id (hname ▸ hread))

end

/-! ### Texts in step -/

/-- Both texts are at their end or at the start of an instruction, or go on with corresponding
words. -/
inductive SideBySide (R : Renaming) (rel : List Token → List Token → Prop) :
    List Token → List Token → Prop where
  | finish : SideBySide R rel [] []
  | start {a b : Token} {ts us : List Token} (start : Token.startInstruction (a :: ts) = true)
    (start' : Token.startInstruction (b :: us) = true) : SideBySide R rel (a :: ts) (b :: us)
  | word {a b : Token} {ts us : List Token} (start : Token.startInstruction (a :: ts) = false)
    (start' : Token.startInstruction (b :: us) = false) (chars : R.Words a.chars b.chars)
    (more : rel ts us) : SideBySide R rel (a :: ts) (b :: us)

/-- Texts so related go on with corresponding words up to the next instruction. -/
def InStep (R : Renaming) (rel : List Token → List Token → Prop) : Prop :=
  ∀ ts us, rel ts us → SideBySide R rel ts us

/-- The operands are encoded to the same words, and the texts are then still related. -/
structure EndsAlike (R : Renaming) (rel : List Token → List Token → Prop) (e e' : Encoded) :
    Prop where
  state : R.States e.state e'.state
  words : e.words = e'.words
  rest : rel e.rest e'.rest

section

variable {R : Renaming} {rel : List Token → List Token → Prop} {op : Opcode} {s u : State}

/-- Corresponding results in front fill their slot alike, if what comes after it is filled alike. -/
lemma fillSlots_front_alike {a b : Token} {finish finish' : Position} {done : Array Word}
    {p rest : Pattern} {ts us : List Token} (hs : R.States s u) (chars : R.Words a.chars b.chars)
    (hp : p.take? = some (.resultId, rest))
    (hmore : ∀ {s u : State} (done : Array Word), R.States s u →
      Alike R.Errors (EndsAlike R rel) (fillSlots op (some a) finish s done rest ts)
        (fillSlots op (some b) finish' u done rest us)) :
    Alike R.Errors (EndsAlike R rel) (fillSlots op (some a) finish s done p ts)
      (fillSlots op (some b) finish' u done p us) := by
  rw [fillSlots_result hp, fillSlots_result hp]
  have hread := readId_alike chars .fatal
  generalize readId .fatal a.chars = x, readId .fatal b.chars = y at hread ⊢
  cases hread with
  | error he => exact .error (he.toError ..)
  | ok hok =>
    refine (hs.acceptToken done hok).bind fun x y hnext => ?_
    obtain ⟨hstate, hdone⟩ := hnext
    rw [hdone]
    exact hmore _ hstate

/-- Corresponding words fill a slot alike, if what comes after them does whatever is still to fill. -/
lemma fillSlots_word_alike {result? result'? : Option Token} {finish finish' : Position}
    {done : Array Word} {p rest : Pattern} {slot : Slot} {a b : Token} {ts us : List Token}
    (hs : R.States s u) (hp : p.take? = some (slot, rest))
    (hslot : slot = .resultId → result? = none) (hslot' : slot = .resultId → result'? = none)
    (start : Token.startInstruction (a :: ts) = false)
    (start' : Token.startInstruction (b :: us) = false) (chars : R.Words a.chars b.chars)
    (h : rel (a :: ts) (b :: us))
    (hmore : ∀ {s u : State} (done : Array Word) (p : Pattern), R.States s u →
      Alike R.Errors (EndsAlike R rel) (fillSlots op result? finish s done p ts)
        (fillSlots op result'? finish' u done p us)) :
    Alike R.Errors (EndsAlike R rel) (fillSlots op result? finish s done p (a :: ts))
      (fillSlots op result'? finish' u done p (b :: us)) := by
  rw [fillSlots_token hp hslot start, fillSlots_token hp hslot' start', ← hs.declared]
  have hread := readOperand_alike chars s.declared op done slot
  generalize readOperand s.declared op done slot a.chars = x,
    readOperand s.declared op done slot b.chars = y at hread ⊢
  cases hread with
  | error he =>
    cases he with
    | mismatch hf =>
      dsimp only
      split
      · exact .ok ⟨hs, rfl, h⟩
      · exact .error (.text hf ..)
    | fatal hf => exact .error (.text hf ..)
    | tooLong => exact .error (.stringTooLong ..)
  | ok hok =>
    refine (hs.acceptToken done hok).bind fun x y hnext => ?_
    obtain ⟨hstate, hdone⟩ := hnext
    rw [hdone, hok.patternAfter_eq]
    exact hmore _ _ hstate

/-- **Texts in step fill slots alike.** -/
theorem fillSlots_alike {result? result'? : Option Token} {finish finish' : Position}
    {done : Array Word} {p : Pattern} {ts us : List Token} (hrel : InStep R rel) (hs : R.States s u)
    (hr : Option.Rel (fun a b => R.Words a.chars b.chars) result? result'?) (h : rel ts us) :
    Alike R.Errors (EndsAlike R rel) (fillSlots op result? finish s done p ts)
      (fillSlots op result'? finish' u done p us) := by
  -- an operand takes a word; the result in front takes none but shortens the pattern
  induction hn : ts.length using Nat.strong_induction_on generalizing s u done p ts us with
  | _ n ih =>
  subst hn
  induction hm : p.length using Nat.strong_induction_on generalizing s u done p with
  | _ m ihp =>
  subst hm
  rcases hp : p.take? with _ | ⟨slot, rest⟩
  · rw [fillSlots_of_none hp, fillSlots_of_none hp]
    exact .ok ⟨hs, rfl, h⟩
  by_cases hres : slot = .resultId ∧ result?.isSome
  · obtain ⟨rfl, hsome⟩ := hres
    cases hr with
    | none => simp at hsome
    | some chars =>
      exact fillSlots_front_alike hs chars hp fun _ hs =>
        ihp _ (Pattern.length_of_take?_resultId hp) hs rfl
  have hslot : slot = .resultId → result? = none := fun he =>
    Option.not_isSome_iff_eq_none.mp fun hsome => hres ⟨he, hsome⟩
  have hslot' : slot = .resultId → result'? = none := fun he => by
    cases hr with
    | none => rfl
    | some => simpa using hslot he
  cases hrel ts us h with
  | finish =>
    rw [fillSlots_nil hp hslot, fillSlots_nil hp hslot']
    split
    · exact .ok ⟨hs, rfl, h⟩
    · exact .error (.text (R.fault_refl _) ..)
  | start start start' =>
    rw [fillSlots_start hp hslot start, fillSlots_start hp hslot' start']
    split
    · exact .ok ⟨hs, rfl, h⟩
    · exact .error (.text (R.fault_refl _) ..)
  | word start start' chars more =>
    exact fillSlots_word_alike hs hp hslot hslot' start start' chars h fun _ _ hs =>
      ih _ (Nat.lt_succ_self _) hs more rfl

/-- Texts in step go on alike after a raw word. -/
lemma fillRaw_alike {done : Array Word} {ts us : List Token} (hrel : InStep R rel)
    (hs : R.States s u) {first first' : Token} (hfirst : R.Words first.chars first'.chars)
    (h : rel ts us) :
    Alike R.Errors (EndsAlike R rel) (fillRaw first s done ts) (fillRaw first' u done us) := by
  induction ts generalizing s u done us with
  | nil =>
    cases hrel [] us h
    exact .ok ⟨hs, rfl, h⟩
  | cons a ts ih =>
    cases hrel (a :: ts) us h with
    | start start start' =>
      rw [fillRaw, fillRaw, if_pos start, if_pos start']
      exact .ok ⟨hs, rfl, h⟩
    | @word _ b _ us start start' chars more =>
      obtain ⟨-, -, -, hequals, -⟩ := chars.looks
      rw [fillRaw_token start, fillRaw_token start', if_congr hequals rfl rfl]
      split
      · exact .error (.text (Renaming.fault_word hfirst _) ..)
      have hread := readFreely_alike chars
      generalize (if isRaw a.chars then readRaw a.chars else readFree a.chars) = x,
        (if isRaw b.chars then readRaw b.chars else readFree b.chars) = y at hread ⊢
      cases hread with
      | error he =>
        cases he with
        | mismatch => exact .error (.text (R.fault_words hfirst chars _) ..)
        | fatal hf => exact .error (.text hf ..)
        | tooLong => exact .error (.stringTooLong ..)
      | ok hok =>
        refine (hs.acceptToken done hok).bind fun x y hnext => ?_
        obtain ⟨hstate, hdone⟩ := hnext
        rw [hdone]
        exact ih hstate more

lemma finishInstruction_alike {first first' : Token} {e e' : Encoded} (h : EndsAlike R rel e e') :
    Alike R.Errors (EndsAlike R rel) (finishInstruction first op e)
      (finishInstruction first' op e') := by
  rw [finishInstruction, finishInstruction, h.words, h.state.declared]
  split
  · exact .error (.text (R.fault_refl _) ..)
  · exact .ok ⟨⟨h.state.symbols, rfl⟩, rfl, h.rest⟩

/-- Instructions that start with the same raw word are encoded alike. -/
lemma encodeInstruction_raw_alike {form form' : Form} {finish finish' : Position}
    {a b : Token} {ts us : List Token} (hrel : InStep R rel) (hs : R.States s u)
    (hraw : isRaw a.chars = true) (hchars : a.chars = b.chars) (h : rel ts us) :
    Alike R.Errors (EndsAlike R rel) (encodeInstruction form finish s a ts)
      (encodeInstruction form' finish' u b us) := by
  have hwords : R.Words a.chars b.chars := by
    refine hchars ▸ .same fun hpercent => ?_
    simp [isRaw, hpercent] at hraw
  rw [encodeInstruction_raw hraw, encodeInstruction_raw (hchars ▸ hraw), ← hchars]
  have hread := readRaw_alike R a.chars
  generalize readRaw a.chars = x, readRaw a.chars = y at hread ⊢
  cases hread with
  | error he => exact .error (he.toError ..)
  | ok hok =>
    refine (hs.acceptToken #[] hok).bind fun x y hnext => ?_
    obtain ⟨hstate, hdone⟩ := hnext
    rw [hdone]
    refine (fillRaw_alike hrel hstate hwords h).bind fun e e' he => ?_
    rw [he.words]
    split
    · exact .error (.text (R.fault_refl _) ..)
    · exact .ok he

/-- Where each instruction is encoded alike, all are. -/
theorem encodeAll_alike_of_step {E : Error → Error → Prop} {form form' : Form}
    {finish finish' : Position} (hnil : ∀ ts us, rel ts us → (ts = [] ↔ us = []))
    (hstep : ∀ s u a b ts us, R.States s u → rel (a :: ts) (b :: us) →
      Alike E (EndsAlike R rel) (encodeInstruction form finish s a ts)
        (encodeInstruction form' finish' u b us))
    {ts us : List Token} (hs : R.States s u) (h : rel ts us) (body : Array Word) :
    Alike E (fun x y => R.States x.1 y.1 ∧ x.2 = y.2) (encodeAll form finish s body ts)
      (encodeAll form' finish' u body us) := by
  induction hn : ts.length using Nat.strong_induction_on generalizing s u body ts us with
  | _ n ih =>
  rcases ts with _ | ⟨a, ts⟩
  · obtain rfl := (hnil _ _ h).mp rfl
    rw [encodeAll, encodeAll]
    exact .ok ⟨hs, rfl⟩
  · rcases us with _ | ⟨b, us⟩
    · exact absurd ((hnil _ _ h).mpr rfl) (List.cons_ne_nil _ _)
    rw [encodeAll_cons, encodeAll_cons]
    refine ((hstep _ _ _ _ _ _ hs h).and_left fun e he => encodeInstruction_length_le he).bind
      fun e e' hnext => ?_
    obtain ⟨hends, hlen⟩ := hnext
    rw [hends.words]
    exact ih _ (hn ▸ Nat.lt_succ_of_le hlen) hends.state hends.rest _ rfl

end

/-! ### Texts of corresponding words -/

section

variable {R : Renaming} {s u : State} {a b : Token} {ts us : List Token}

/-- The texts have corresponding words. -/
abbrev Renaming.Texts (R : Renaming) : List Token → List Token → Prop :=
  List.Forall₂ fun a b => R.Words a.chars b.chars

lemma Renaming.Texts.startInstruction_eq (h : R.Texts ts us) :
    Token.startInstruction ts = Token.startInstruction us := by
  cases h with
  | nil => rfl
  | cons hfirst hrest =>
    obtain ⟨hlike, -, hhead, -⟩ := hfirst.looks
    simp only [Token.startInstruction, Token.isOpcodeLike, hlike, hhead]
    cases hrest with
    | nil => rfl
    | cons hequals hrest =>
      cases hrest with
      | nil => rfl
      | cons hname =>
        have heq := hequals.looks.2.2.2.1
        simp only [hname.looks.1, beq_eq_decide, decide_eq_decide.mpr heq]

lemma inStep_texts : InStep R R.Texts := by
  intro ts us h
  have hstart := h.startInstruction_eq
  cases h with
  | nil => exact .finish
  | @cons a b ts us hchars hmore =>
    rcases hleft : Token.startInstruction (a :: ts) with _ | _
    · exact .word hleft (hstart ▸ hleft) hchars hmore
    · exact .start hleft (hstart ▸ hleft)

/-- Instructions start alike. -/
structure HeadsAlike (R : Renaming) (x y : Head) : Prop where
  opcode : x.opcode = y.opcode
  result? : Option.Rel (fun a b => R.Words a.chars b.chars) x.result? y.result?
  rest : R.Texts x.rest y.rest

lemma readOpcode_alike {result? result'? : Option Token}
    (hr : Option.Rel (fun a b => R.Words a.chars b.chars) result? result'?)
    (hname : R.Words a.chars b.chars) (hlike : a.isOpcodeLike = true) (h : R.Texts ts us) :
    Alike R.Errors (HeadsAlike R) (readOpcode result? a ts) (readOpcode result'? b us) := by
  have hchars : a.chars = b.chars := hname.looks.2.2.2.2 fun hpercent => by
    simp [Token.isOpcodeLike, startsWithOp_of_percent hpercent] at hlike
  rw [readOpcode, readOpcode, ← hchars]
  split
  · exact .ok ⟨rfl, hr, h⟩
  · exact .error (.text (Renaming.fault_word hname _) ..)

lemma readHead_alike {form : Form} {finish finish' : Position} (hfirst : R.Words a.chars b.chars)
    (h : R.Texts ts us) :
    Alike R.Errors (HeadsAlike R) (readHead form finish a ts) (readHead form finish' b us) := by
  obtain ⟨hlike, -, hhead, -⟩ := hfirst.looks
  have hlike : a.isOpcodeLike = b.isOpcodeLike := hlike
  rw [readHead.eq_def, readHead.eq_def, ← hlike, ← hhead]
  split
  next hop => exact readOpcode_alike .none hfirst hop h
  next =>
  split
  next => exact .error (.text (Renaming.fault_word hfirst _) ..)
  next =>
  split
  next => exact .error (.text (Renaming.fault_word hfirst _) ..)
  next =>
  cases h with
  | nil => exact .error (.text (R.fault_refl _) ..)
  | @cons equals equals' ts us hequals h =>
    dsimp only
    rw [if_congr (not_congr hequals.looks.2.2.2.1) rfl rfl]
    split
    · exact .error (.text (R.fault_refl _) ..)
    cases h with
    | nil => exact .error (.text (R.fault_refl _) ..)
    | @cons name name' ts us hname h =>
      have hlike : name.isOpcodeLike = name'.isOpcodeLike := hname.looks.1
      dsimp only
      rw [← hlike]
      split
      next hop => exact readOpcode_alike (.some hfirst) hname hop h
      next => exact .error (.text (Renaming.fault_word hname _) ..)

/-- Instructions of corresponding words are encoded alike. -/
theorem encodeInstruction_texts {form : Form} {finish finish' : Position} (hs : R.States s u)
    (hfirst : R.Words a.chars b.chars) (h : R.Texts ts us) :
    Alike R.Errors (EndsAlike R R.Texts) (encodeInstruction form finish s a ts)
      (encodeInstruction form finish' u b us) := by
  rcases hraw : isRaw a.chars with _ | _
  · have hhead : Alike R.Errors (HeadsAlike R) (readHead form finish a ts)
        (readHead form finish' b us) := readHead_alike hfirst h
    rw [encodeInstruction, encodeInstruction, hraw, ← hfirst.looks.2.1, hraw]
    generalize readHead form finish a ts = x, readHead form finish' b us = y at hhead ⊢
    cases hhead with
    | error he => exact .error he
    | @ok x y hok =>
      have hresult : x.result?.isNone = y.result?.isNone := by
        have hr := hok.result?
        generalize x.result? = v, y.result? = w at hr ⊢
        cases hr <;> rfl
      simp only [Bool.false_eq_true, if_false, ← hok.opcode, ← hresult]
      split
      · exact .error (.text (Renaming.fault_word hfirst _) ..)
      have hfill : Alike R.Errors (EndsAlike R R.Texts)
          (fillSlots x.opcode x.result? finish s #[] x.opcode.operands x.rest)
          (fillSlots x.opcode y.result? finish' u #[] x.opcode.operands y.rest) :=
        fillSlots_alike inStep_texts hs hok.result? hok.rest
      generalize fillSlots x.opcode x.result? finish s #[] x.opcode.operands x.rest = v,
        fillSlots x.opcode y.result? finish' u #[] x.opcode.operands y.rest = w at hfill ⊢
      cases hfill with
      | error he => exact .error he
      | ok hok => exact finishInstruction_alike hok
  · refine encodeInstruction_raw_alike inStep_texts hs hraw (hfirst.looks.2.2.2.2 fun h => ?_) h
    simp [isRaw, h] at hraw

/-- **Texts of corresponding words are encoded alike.** -/
theorem encodeAll_texts {form : Form} {finish finish' : Position} (hs : R.States s u)
    (h : R.Texts ts us) (body : Array Word) :
    Alike R.Errors (fun x y => R.States x.1 y.1 ∧ x.2 = y.2) (encodeAll form finish s body ts)
      (encodeAll form finish' u body us) := by
  refine encodeAll_alike_of_step (fun ts us h => ?_) (fun s u a b ts us hs h => ?_) hs h body
  · cases h <;> simp
  · cases h with
    | cons hfirst hmore => exact encodeInstruction_texts hs hfirst hmore

end

end Assembly

end Spirv
