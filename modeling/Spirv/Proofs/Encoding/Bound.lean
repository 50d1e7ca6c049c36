import Mathlib
import Spirv.Proofs.Encoding.Module

/-!
The bound of an assembled module.

Whatever a text holds, raw words included, assembling it changes the symbols only by giving ids to
names of the text, one after the other. The bound is one more than the greatest id through all of
this, save that it stays within a word: the greatest word as an id is its own bound.
-/

namespace Spirv

namespace SymbolTable

/-- One more than an id, or the greatest word if that is the id. -/
def after (id : Word) : Word := if id = 0xFFFFFFFF then id else id + 1

lemma toNat_after (id : Word) : (after id).toNat = min (id.toNat + 1) (2 ^ 32 - 1) := by
  have hlt := id.toNat_lt
  have hmax : id = 0xFFFFFFFF ↔ id.toNat = 2 ^ 32 - 1 := UInt32.toNat_inj.symm
  rw [after]
  split
  next h =>
    rw [hmax] at h
    omega
  next h =>
    rw [hmax] at h
    simp only [UInt32.toNat_add, UInt32.toNat_one]
    omega

lemma lt_after {id : Word} (h : id ≠ 0xFFFFFFFF) : id < after id := by
  have hlt := id.toNat_lt
  have hmax : id.toNat ≠ 2 ^ 32 - 1 := fun he => h (UInt32.toNat_inj.mp he)
  rw [UInt32.lt_iff_toNat_lt, toNat_after]
  omega

lemma after_le_after {id v : Word} (h : v ≤ id) : after v ≤ after id := by
  rw [UInt32.le_iff_toNat_le] at h ⊢
  rw [toNat_after, toNat_after]
  omega

lemma one_le_after (id : Word) : 1 ≤ after id := by
  rw [UInt32.le_iff_toNat_le, toNat_after]
  simp

lemma max_of_le {v w : Word} (h : v ≤ w) : max v w = w := if_pos h

lemma max_of_ge {v w : Word} (h : w ≤ v) : max v w = v := by
  rw [show max v w = if v ≤ w then w else v from rfl]
  split
  next h' => exact UInt32.le_antisymm h h'
  next => rfl

/-- The bound is what comes after the greatest id, or one if there is none. -/
def Bounded (t : SymbolTable) : Prop :=
  (∀ name, t.id? name = none) ∧ t.bound = 1 ∨
    ∃ name id, t.id? name = some id ∧ (∀ other v, t.id? other = some v → v ≤ id) ∧
      t.bound = after id

/-- One name of a text is given an id. -/
def Assigns (names : List String) (t t' : SymbolTable) : Prop :=
  ∃ name ∈ names, ∃ id, t.assign name = .ok (id, t')

/-- Names of a text are given ids one after the other. -/
def Numbers (names : List String) : SymbolTable → SymbolTable → Prop :=
  Relation.ReflTransGen (Assigns names)

variable {t t' : SymbolTable} {names : List String} {name : String} {id : Word}

/-- What is kept when one name is given an id is kept when many are. -/
lemma Numbers.preserves {P : SymbolTable → Prop} (h : Numbers names t t')
    (hstep : ∀ u u', Assigns names u u' → P u → P u') (ht : P t) : P t' := by
  induction h with
  | refl => exact ht
  | tail _ last ih => exact hstep _ _ last ih

lemma Bounded.bind (h : t.Bounded) (next : Word) (hnew : t.id? name = none) :
    ({ t with next := next }.bind name id).Bounded := by
  have hget : ∀ other, ({ t with next := next }.bind name id).id? other
      = if name = other then some id else t.id? other := fun other => by
    simp only [id?, SymbolTable.bind, Std.HashMap.getElem?_insert, beq_iff_eq]
  have hbound : ({ t with next := next }.bind name id).bound = max t.bound (after id) := rfl
  -- the new id is the greatest unless there is a greater one
  have hnewest (hle : ∀ other v, t.id? other = some v → v ≤ id) (hb : t.bound ≤ after id) :
      ({ t with next := next }.bind name id).Bounded := by
    refine .inr ⟨name, id, by simp [hget], fun other v hv => ?_, by rw [hbound, max_of_le hb]⟩
    rw [hget] at hv
    split at hv
    next =>
      obtain rfl := Option.some.inj hv
      exact UInt32.le_refl _
    next => exact hle other v hv
  rcases h with ⟨hnone, hone⟩ | ⟨greatest, g, hg, hmax, hb⟩
  · exact hnewest (fun other v hv => by simp [hnone] at hv) (hone ▸ one_le_after id)
  rcases UInt32.le_total g id with hle | hle
  · exact hnewest (fun other v hv => UInt32.le_trans (hmax other v hv) hle)
      (hb ▸ after_le_after hle)
  · refine .inr ⟨greatest, g, ?_, fun other v hv => ?_, ?_⟩
    · rw [hget, if_neg, hg]
      rintro rfl
      simp [hnew] at hg
    · rw [hget] at hv
      split at hv
      next => exact Option.some.inj hv ▸ hle
      next => exact hmax other v hv
    · rw [hbound, hb, max_of_ge (after_le_after hle)]

lemma Bounded.assigns (h : t.Bounded) (ha : Assigns names t t') : t'.Bounded := by
  obtain ⟨name, -, id, ha⟩ := ha
  rcases assign_cases ha with ⟨-, rfl⟩ | ⟨hnew, -, -, -, rfl⟩ | ⟨hnew, -, -, rfl⟩
  · exact h
  · exact h.bind t.next hnew
  · exact h.bind _ hnew

lemma Valid.assigns (h : Valid names t) (hlen : names.length + 2 < 2 ^ 32)
    (ha : Assigns names t t') : Valid names t' := by
  obtain ⟨name, hname, id, ha⟩ := ha
  exact (h.assign hlen hname ha).1

lemma Assigns.preserved_eq (ha : Assigns names t t') : t'.preserved = t.preserved := by
  obtain ⟨name, -, id, ha⟩ := ha
  rcases assign_cases ha with ⟨-, rfl⟩ | ⟨-, -, -, -, rfl⟩ | ⟨-, -, -, rfl⟩ <;> rfl

lemma Numbers.preserved_eq (h : Numbers names t t') : t'.preserved = t.preserved :=
  h.preserves (P := fun u => u.preserved = t.preserved)
    (fun _ _ ha he => ha.preserved_eq.trans he) rfl

lemma Numbers.mono {names' : List String} (h : Numbers names t t')
    (hsub : ∀ name ∈ names, name ∈ names') : Numbers names' t t' :=
  Relation.ReflTransGen.mono (fun _ _ ⟨name, hname, ha⟩ => ⟨name, hsub name hname, ha⟩) _ _ h

/-- The greatest word is an id only of a name that spells it and for which it is preserved. -/
def SpellsTop (t : SymbolTable) : Prop :=
  ∀ name, t.id? name = some 0xFFFFFFFF →
    valueOfName? name.toList = some 0xFFFFFFFF ∧ 0xFFFFFFFF ∈ t.preserved

lemma SpellsTop.assigns (h : t.SpellsTop) (hv : Valid names t) (hlen : names.length + 2 < 2 ^ 32)
    (ha : Assigns names t t') : t'.SpellsTop := by
  obtain ⟨name, -, id, ha⟩ := ha
  have hbind : ∀ next, (id = 0xFFFFFFFF → valueOfName? name.toList = some 0xFFFFFFFF ∧
      0xFFFFFFFF ∈ t.preserved) → ({ t with next := next }.bind name id).SpellsTop := by
    intro next hid other ho
    rw [id?, SymbolTable.bind, Std.HashMap.getElem?_insert] at ho
    split at ho
    next heq =>
      obtain rfl : name = other := by simpa using heq
      exact hid (Option.some.inj ho)
    next => exact h other ho
  rcases assign_cases ha with ⟨-, rfl⟩ | ⟨-, hspelled, hp, -, rfl⟩ | ⟨-, -, rfl, rfl⟩
  · exact h
  · exact hbind t.next fun he => ⟨he ▸ hspelled, he ▸ hp⟩
  · obtain ⟨-, -, hne, -⟩ := hv.firstFree hlen rfl
    exact hbind _ fun he => absurd (by rw [he]; rfl) hne

end SymbolTable

namespace Assembly

open SymbolTable

variable {names : List String} {s s' : State} {e : Encoded} {form : Form} {finish : Position}

lemma chars_of_readFree {chars : List Char} {name : String} (h : readFree chars = .ok (.id name)) :
    ∃ n, chars = '%' :: n ∧ String.ofList n = name := by
  unfold readFree at h
  split at h
  next => simp at h
  next => simp at h
  next => exact chars_of_readId h

lemma readRaw_ne_id {chars : List Char} {name : String} : readRaw chars ≠ .ok (.id name) := by
  unfold readRaw
  split <;> simp

lemma chars_of_readOperand {d : Declared} {op : Opcode} {done : Array Word} {slot : Slot}
    {chars : List Char} {name : String} (h : readOperand d op done slot chars = .ok (.id name)) :
    ∃ n, chars = '%' :: n ∧ String.ofList n = name := by
  by_cases hraw : isRaw chars
  · unfold readOperand at h
    rw [if_pos hraw] at h
    exact absurd h readRaw_ne_id
  · exact name_of_readOperand (by simpa using hraw) h

/-- The names that tokens are ids by. -/
def idNames (tokens : List Token) : List String :=
  (tokens.filter (·.chars.head? = some '%')).map fun token => String.ofList token.chars.tail

lemma mem_idNames {tokens : List Token} {name : String} :
    name ∈ idNames tokens ↔ ∃ token ∈ tokens, ∃ n, token.chars = '%' :: n ∧ String.ofList n = name := by
  simp only [idNames, List.mem_map, List.mem_filter, decide_eq_true_eq]
  constructor
  · rintro ⟨token, ⟨htoken, hhead⟩, rfl⟩
    obtain ⟨n, hn⟩ := List.head?_eq_some_iff.mp hhead
    exact ⟨token, htoken, n, hn, by rw [hn, List.tail_cons]⟩
  · rintro ⟨token, htoken, n, hn, rfl⟩
    exact ⟨token, ⟨htoken, by rw [hn, List.head?_cons]⟩, by rw [hn, List.tail_cons]⟩

/-- Putting an operand down gives an id to no name but the one that it is. -/
lemma numbers_of_accept {done done' : Array Word} {r : Reading}
    (h : s.accept done r = .ok (s', done')) (hname : ∀ name, r = .id name → name ∈ names) :
    Numbers names s.symbols s'.symbols := by
  cases r with
  | id name =>
    rw [State.accept] at h
    split at h
    next id t ha =>
      obtain ⟨rfl, -⟩ := by simpa using h
      exact .single ⟨name, hname name rfl, id, ha⟩
    next => simp at h
  | value | raw | importing =>
    obtain ⟨rfl, -⟩ := by simpa [State.accept] using h
    exact .refl

lemma Fills.numbers {op : Opcode} {result? : Option Token} {done : List Word} {p : Pattern}
    {tokens : List Token} {fs : List Filled} (h : Fills op result? s done p tokens fs e)
    (htok : ∀ token, token ∈ result? ∨ token ∈ tokens → ∀ n, token.chars = '%' :: n →
      String.ofList n ∈ names) : Numbers names s.symbols e.state.symbols := by
  induction h with
  | full | stop => exact .refl
  | @result s s' done ws p rest tokens token r fs e take result read accept more ih =>
    refine (numbers_of_accept accept ?_).trans (ih htok)
    rintro name rfl
    obtain ⟨n, hn, rfl⟩ := chars_of_readId read
    exact htok token (.inl result) n hn
  | @operand s s' done ws p rest slot tokens token r fs e take result start read accept more ih =>
    refine (numbers_of_accept accept ?_).trans (ih fun t ht => htok t (ht.imp_right (.tail _)))
    rintro name rfl
    obtain ⟨n, hn, rfl⟩ := chars_of_readOperand read
    exact htok token (.inr (.head _)) n hn

lemma Fills.rest_suffix {op : Opcode} {result? : Option Token} {done : List Word} {p : Pattern}
    {tokens : List Token} {fs : List Filled} (h : Fills op result? s done p tokens fs e) :
    e.rest <:+ tokens := by
  induction h with
  | full | stop => exact List.suffix_rfl
  | result _ _ _ _ _ ih => exact ih
  | operand _ _ _ _ _ _ ih => exact ih.trans (List.suffix_cons _ _)

/-- Words that follow a raw one are given ids as any other, and what is left are the last tokens. -/
lemma numbers_of_fillRaw {first : Token} {done : Array Word} {tokens : List Token}
    (h : fillRaw first s done tokens = .ok e)
    (htok : ∀ token ∈ tokens, ∀ n, token.chars = '%' :: n → String.ofList n ∈ names) :
    Numbers names s.symbols e.state.symbols ∧ e.rest <:+ tokens := by
  fun_induction fillRaw first s done tokens with
  | case1 =>
    obtain rfl := Except.ok.inj h
    exact ⟨.refl, List.suffix_rfl⟩
  | case2 =>
    obtain rfl := Except.ok.inj h
    exact ⟨.refl, List.suffix_rfl⟩
  | case7 s done token after _ _ r hread s' done' hacc ih =>
    obtain ⟨hmore, hrest⟩ := ih h fun t ht => htok t (.tail _ ht)
    refine ⟨(numbers_of_accept (acceptToken_eq_ok.mp hacc) ?_).trans hmore,
      hrest.trans (List.suffix_cons _ _)⟩
    rintro name rfl
    split at hread
    next => exact absurd hread readRaw_ne_id
    next =>
      obtain ⟨n, hn, rfl⟩ := chars_of_readFree hread
      exact htok token (.head _) n hn
  | _ => simp at h

lemma numbers_of_encodeInstruction {first : Token} {rest : List Token}
    (h : encodeInstruction form finish s first rest = .ok e)
    (htok : ∀ token ∈ first :: rest, ∀ n, token.chars = '%' :: n → String.ofList n ∈ names) :
    Numbers names s.symbols e.state.symbols ∧ e.rest <:+ rest := by
  by_cases hraw : isRaw first.chars
  · obtain ⟨r, next, hread, hacc, hfill, -⟩ := (encodeInstruction_raw_eq_ok hraw).mp h
    obtain ⟨hmore, hrest⟩ := numbers_of_fillRaw hfill fun t ht => htok t (.tail _ ht)
    refine ⟨(numbers_of_accept (acceptToken_eq_ok.mp hacc) ?_).trans hmore, hrest⟩
    rintro name rfl
    exact absurd hread readRaw_ne_id
  · obtain ⟨st, hst⟩ := exists_encodes (by simpa using hraw) h
    cases hst with
    | plain like op_eq result fills size =>
      exact ⟨fills.numbers fun t ht => htok t (.tail _ (ht.resolve_left (by simp))),
        fills.rest_suffix⟩
    | assigned form_eq unlike percent equals_eq like op_eq fills size =>
      refine ⟨fills.numbers fun t ht => ?_, fills.rest_suffix.trans ?_⟩
      · rcases ht with ht | ht
        · exact Option.some.inj ht ▸ htok _ (.head _)
        · exact htok t (by simp [ht])
      · exact (List.suffix_cons _ _).trans (List.suffix_cons _ _)

/-- Encoding a text gives ids to the names in it, one after the other. -/
lemma numbers_idNames {body body' : Array Word} {tokens : List Token}
    (h : encodeAll form finish s body tokens = .ok (s', body')) :
    Numbers (idNames tokens) s.symbols s'.symbols := by
  have hsub : ∀ token ∈ tokens, ∀ n, token.chars = '%' :: n → String.ofList n ∈ idNames tokens :=
    fun token htoken n hn => mem_idNames.mpr ⟨token, htoken, n, hn, rfl⟩
  generalize idNames tokens = names at hsub ⊢
  fun_induction encodeAll form finish s body tokens with
  | case1 =>
    obtain ⟨rfl, -⟩ := by simpa using h
    exact .refl
  | case2 => simp at h
  | case3 s body first rest e henc ih =>
    obtain ⟨hfirst, hrest⟩ := numbers_of_encodeInstruction henc hsub
    exact hfirst.trans (ih h fun t ht => hsub t (.tail _ (hrest.mem ht)))

lemma numbers_of_encodeAll {body body' : Array Word} {tokens : List Token}
    (h : encodeAll form finish s body tokens = .ok (s', body'))
    (htok : ∀ token ∈ tokens, String.ofList token.chars.tail ∈ names) :
    Numbers names s.symbols s'.symbols := by
  refine (numbers_idNames h).mono fun name hname => ?_
  obtain ⟨token, htoken, n, hn, rfl⟩ := mem_idNames.mp hname
  simpa [hn] using htok token htoken

/-- Preserving values changes nothing else. -/
lemma preserveAll_eq (t : SymbolTable) (tokens : List Token) :
    preserveAll t tokens = { t with preserved := (preserveAll t tokens).preserved } := by
  induction tokens generalizing t with
  | nil => rfl
  | cons token tokens ih =>
    rw [preserveAll, List.foldl_cons, ← preserveAll, ih]
    rcases numericId? token.chars with _ | id
    · rfl
    · dsimp only
      unfold preserve
      split <;> rfl

lemma startSymbols_eq (o : AssemblyOptions) (tokens : List Token) : startSymbols o tokens
    = { SymbolTable.empty with preserved := (startSymbols o tokens).preserved } := by
  rw [startSymbols]
  split
  · exact preserveAll_eq .empty tokens
  · rfl

lemma startSymbols_eq_empty {o : AssemblyOptions} (h : o.preserveNumericIds = false)
    (tokens : List Token) : startSymbols o tokens = .empty := by
  rw [startSymbols, h]
  rfl

lemma ids_startSymbols (o : AssemblyOptions) (tokens : List Token) :
    (startSymbols o tokens).ids = ∅ :=
  congrArg SymbolTable.ids (startSymbols_eq o tokens)

/-- **The bound comes after every id.** The header holds the bound. It is one more than the greatest
id, one if there is none, but no more than the greatest word; so an id is less than the bound unless
it is the greatest word. Unless a text has about as many words as there are ids, no id is zero, and
the greatest word is an id only of a name that spells it where such names keep their values. -/
theorem assemble_bounded {o : AssemblyOptions} {text : String} {a : Assembly}
    (h : assemble o text = .ok a) :
    a.words[3]? = some a.bound ∧
      ((∀ name, a.symbols.id? name = none) ∧ a.bound = 1 ∨
        ∃ name id, a.symbols.id? name = some id ∧
          (∀ other v, a.symbols.id? other = some v → v ≤ id) ∧
          a.bound = if id = 0xFFFFFFFF then id else id + 1) ∧
      (∀ name id, a.symbols.id? name = some id → id < a.bound ∨ id = 0xFFFFFFFF ∧ a.bound = id) ∧
      ((TokenText.ofText text).tokens.length + 2 < 2 ^ 32 →
        ∀ name id, a.symbols.id? name = some id → 1 ≤ id ∧ (id = 0xFFFFFFFF →
          o.preserveNumericIds = true ∧ valueOfName? name.toList = some id)) := by
  rw [assemble] at h
  dsimp only at h
  split at h
  next => simp at h
  next s body henc =>
  obtain rfl := Except.ok.inj h
  set tokens := (TokenText.ofText text).tokens
  set names := tokens.map fun token => String.ofList token.chars.tail with hnames
  have hnumbers : Numbers names (startSymbols o tokens) s.symbols :=
    numbers_of_encodeAll henc fun token ht => List.mem_map.mpr ⟨token, ht, rfl⟩
  have hids := ids_startSymbols o tokens
  have hone : (startSymbols o tokens).bound = 1 :=
    congrArg SymbolTable.bound (startSymbols_eq o tokens)
  have hnone : ∀ name, (startSymbols o tokens).id? name = none := by simp [id?, hids]
  have hbounded : s.symbols.Bounded :=
    hnumbers.preserves (fun _ _ ha hb => hb.assigns ha) (.inl ⟨hnone, hone⟩)
  refine ⟨by simp [Header.words, Header.ofBound], hbounded, fun name id hid => ?_,
    fun hlen name id hid => ?_⟩
  · rcases hbounded with ⟨hnone, -⟩ | ⟨greatest, g, hg, hmax, hb⟩
    · simp [hnone] at hid
    · rcases eq_or_ne id 0xFFFFFFFF with rfl | hne
      · have hle := after_le_after (hmax name _ hid)
        refine .inr ⟨rfl, UInt32.le_antisymm ?_ (hb ▸ hle)⟩
        rw [UInt32.le_iff_toNat_le]
        exact Nat.le_of_lt_succ s.symbols.bound.toNat_lt
      · exact .inl (hb ▸ UInt32.lt_of_lt_of_le (lt_after hne) (after_le_after (hmax name id hid)))
  · have hlen : names.length + 2 < 2 ^ 32 := by simpa [hnames] using hlen
    obtain ⟨hv, hspells⟩ := hnumbers.preserves (P := fun t => Valid names t ∧ t.SpellsTop)
      (fun _ _ ha hb => ⟨hb.1.assigns hlen ha, hb.2.assigns hb.1 hlen ha⟩)
      ⟨valid_startSymbols o tokens, fun name hname => by simp [hnone] at hname⟩
    refine ⟨?_, ?_⟩
    · have hne := mt UInt32.toNat_inj.mp (hv.nonzero name id hid)
      rw [UInt32.le_iff_toNat_le]
      simpa [Nat.one_le_iff_ne_zero] using hne
    · rintro rfl
      obtain ⟨hspelled, hp⟩ := hspells name hid
      refine ⟨?_, hspelled⟩
      have hpreserved : s.symbols.preserved = (startSymbols o tokens).preserved :=
        hnumbers.preserves (fun _ _ ha he => ha.preserved_eq.trans he) rfl
      by_contra hno
      simp [hpreserved, startSymbols, hno, SymbolTable.empty] at hp

/-- Where numeric names do not keep their values every id is less than the bound. -/
theorem assemble_bounded_sample : ∃ a, assemble ⟨.assignment, 0, false⟩ Sample.text = .ok a ∧
    a.words[3]? = some a.bound ∧
      ∀ name id, a.symbols.id? name = some id → 1 ≤ id ∧ id < a.bound := by
  obtain ⟨s', hs⟩ := Sample.says_text 0
  have ha := assemble_of_encodesAll hs
  obtain ⟨hheader, -, hlt, hpos⟩ := assemble_bounded ha
  refine ⟨_, ha, hheader, fun name id hid => ?_⟩
  obtain ⟨hone, htop⟩ := hpos (by rw [Sample.tokens_text]; decide) name id hid
  exact ⟨hone, (hlt name id hid).resolve_right fun h => absurd (htop h.1).1 (by decide)⟩

/-! ### The greatest word as an id -/

namespace Sample

def topText : String := "OpName %4294967295 \"x\""

def namesTop : Statement where
  front := []
  name := ⟨"OpName".toList, ⟨0, 0, 0⟩⟩
  opcode := .opName
  operands := [⟨.one .id, ⟨"%4294967295".toList, ⟨0, 7, 7⟩⟩, .id "4294967295", [0xFFFFFFFF]⟩,
    ⟨.one .string, ⟨"\"x\"".toList, ⟨0, 19, 19⟩⟩, .value [0x78] [], [0x78]⟩]

lemma tokens_topText : (TokenText.ofText topText).tokens = namesTop.tokens := by cbv

/-- The symbols that the text starts with, its number being preserved. -/
def topSymbols : SymbolTable := ⟨∅, ∅, (∅ : Std.HashSet Word).insert 0xFFFFFFFF, 1, 1⟩

lemma startSymbols_topText : startSymbols ⟨.assignment, 0, true⟩
    (TokenText.ofText topText).tokens = topSymbols := by
  have hop : numericId? "OpName".toList = none := by cbv
  have hid : numericId? "%4294967295".toList = some 0xFFFFFFFF := by cbv
  have hstring : numericId? "\"x\"".toList = none := by cbv
  rw [tokens_topText, startSymbols, if_pos rfl]
  simp only [preserveAll, namesTop, Statement.tokens, Statement.operandTokens, if_true, List.map_cons,
    List.map_nil, List.nil_append, List.foldl_cons, List.foldl_nil, hop, hid, hstring]
  rfl

/-- The symbols once the name is given its number. -/
def topNamed : SymbolTable := topSymbols.bind "4294967295" 0xFFFFFFFF

lemma accept_top : State.accept ⟨topSymbols, .empty⟩ #[] (.id "4294967295")
    = .ok (⟨topNamed, .empty⟩, #[0xFFFFFFFF]) := by
  have hassign : topSymbols.assign "4294967295" = .ok (0xFFFFFFFF, topNamed) :=
    assign_of_preserved (by decide) (by simp [SymbolTable.id?, topSymbols]) (by cbv)
      (by simp [topSymbols]) (by simp [SymbolTable.name?, topSymbols])
  simp [State.accept, hassign]

lemma encodesAll_topText : ∃ d, EncodesAll .assignment ⟨topSymbols, .empty⟩
    (TokenText.ofText topText).tokens [namesTop] ⟨topNamed, d⟩ := by
  have hencodes : Encodes .assignment ⟨topSymbols, .empty⟩ namesTop.tokens namesTop
      (finished .opName ⟨⟨topNamed, .empty⟩, ([0xFFFFFFFF, 0x78] : List Word).toArray, []⟩) := by
    refine .plain (by decide) (by decide +kernel) (by decide) ?_ (by decide)
    refine .operand rfl (fun _ => rfl) (by cbv) (by cbv) accept_top ?_
    exact .operand rfl (fun _ => rfl) (by cbv) (by cbv) rfl (.full rfl)
  rw [tokens_topText]
  exact ⟨_, .cons hencodes .nil⟩

end Sample

/-- **The greatest word may be an id, and is then no less than the bound.** -/
theorem exists_id_not_lt_bound : ∃ a, assemble ⟨.assignment, 0, true⟩ Sample.topText = .ok a ∧
    a.symbols.id? "4294967295" = some 0xFFFFFFFF ∧ ¬ 0xFFFFFFFF < a.bound := by
  obtain ⟨d, h⟩ := Sample.encodesAll_topText
  rw [← Sample.startSymbols_topText] at h
  refine ⟨_, assemble_of_encodesAll h, ?_, ?_⟩
  · simp [SymbolTable.id?, Sample.topNamed, SymbolTable.bind]
  · exact Nat.not_lt.mpr (Nat.le_of_lt_succ Sample.topNamed.bound.toNat_lt)

end Assembly

end Spirv
