import Mathlib
import Spirv.Proofs.Encoding.Bound

/-!
Names that are numbers.

Where numeric names keep their values, all values that a text spells are set aside before the first
name is given an id. So a name that spells a value has that value as its id, and any other name,
wherever it first stands, has an id that no word of the text spells.
-/

namespace Spirv

namespace SymbolTable

variable {t t' : SymbolTable} {names : List String}

/-- An id that is preserved is that of a name that spells it. -/
def Reserves (t : SymbolTable) : Prop :=
  ∀ name id, t.id? name = some id → id ∈ t.preserved → valueOfName? name.toList = some id

lemma Reserves.bind {name : String} {id : Word} (h : t.Reserves) (next : Word)
    (hid : id ∈ t.preserved → valueOfName? name.toList = some id) :
    ({ t with next := next }.bind name id).Reserves := by
  intro other v hv hp
  rw [id?, SymbolTable.bind, Std.HashMap.getElem?_insert] at hv
  split at hv
  next heq =>
    obtain rfl : name = other := by simpa using heq
    obtain rfl := Option.some.inj hv
    exact hid hp
  next => exact h other v hv hp

/-- A fresh id is none that is preserved. -/
lemma Reserves.assigns (h : t.Reserves) (hv : Valid names t) (hlen : names.length + 2 < 2 ^ 32)
    (ha : Assigns names t t') : t'.Reserves := by
  obtain ⟨name, -, id, ha⟩ := ha
  rcases assign_cases ha with ⟨-, rfl⟩ | ⟨-, hspelled, -, -, rfl⟩ | ⟨-, -, rfl, rfl⟩
  · exact h
  · exact h.bind t.next fun _ => hspelled
  · obtain ⟨hfree, -⟩ := hv.firstFree hlen rfl
    rw [← Bool.not_eq_true, isTaken_iff, not_or] at hfree
    exact h.bind _ fun hp => absurd hp hfree.1

/-- Only names that are given one get an id. -/
lemma Numbers.named {name : String} {id : Word} (h : Numbers names t t')
    (hid : t'.id? name = some id) : t.id? name = some id ∨ name ∈ names := by
  induction h generalizing id with
  | refl => exact .inl hid
  | @tail u u' _ ha ih =>
    obtain ⟨other, hother, v, ha⟩ := ha
    have hbind : ∀ next, ({ u with next := next }.bind other v).id? name = some id →
        t.id? name = some id ∨ name ∈ names := by
      intro next hid
      rw [id?, SymbolTable.bind, Std.HashMap.getElem?_insert] at hid
      split at hid
      next heq => exact .inr ((beq_iff_eq.mp heq) ▸ hother)
      next => exact ih hid
    rcases assign_cases ha with ⟨-, rfl⟩ | ⟨-, -, -, -, rfl⟩ | ⟨-, -, -, rfl⟩
    · exact ih hid
    · exact hbind u.next hid
    · exact hbind _ hid

lemma valueOfName?_eq_some_iff {chars : List Char} {v : Word} :
    valueOfName? chars = some v ↔ Digits.decimal? chars = some v.toNat := by
  rw [valueOfName?, Option.bind_eq_some_iff]
  constructor
  · rintro ⟨n, hn, hv⟩
    split at hv
    next hlt =>
      obtain rfl := Option.some.inj hv
      rw [hn, UInt32.toNat_ofNat', Nat.mod_eq_of_lt hlt]
    next => simp at hv
  · intro h
    exact ⟨_, h, by simp [v.toNat_lt]⟩

lemma exists_valueOfName? {chars : List Char} {n : ℕ} (h : Digits.decimal? chars = some n)
    (hn : n < 2 ^ 32) : ∃ v : Word, v.toNat = n ∧ valueOfName? chars = some v := by
  refine ⟨UInt32.ofNat n, UInt32.toNat_ofNat_of_lt' hn, ?_⟩
  rw [valueOfName?_eq_some_iff, UInt32.toNat_ofNat_of_lt' hn, h]

end SymbolTable

namespace Assembly

open SymbolTable

lemma mem_preserve {t : SymbolTable} {v id : Word} :
    id ∈ (t.preserve v).preserved ↔ id ∈ t.preserved ∨ id ≠ 0 ∧ id = v := by
  rw [SymbolTable.preserve]
  split
  next h0 =>
    subst h0
    simp
  next h0 =>
    rw [Std.HashSet.mem_insert, beq_iff_eq]
    grind

/-- What is preserved is what the words of a text spell. -/
lemma mem_preserveAll {t : SymbolTable} {tokens : List Token} {id : Word} :
    id ∈ (preserveAll t tokens).preserved ↔ id ∈ t.preserved ∨
      id ≠ 0 ∧ ∃ token ∈ tokens, numericId? token.chars = some id := by
  induction tokens generalizing t with
  | nil => simp [preserveAll]
  | cons token tokens ih =>
    rw [preserveAll, List.foldl_cons, ← preserveAll, ih]
    rcases hv : numericId? token.chars with _ | v
    · simp [hv]
    · simp only [mem_preserve, List.exists_mem_cons_iff, hv, Option.some.injEq]
      grind

/-- **Numeric names keep their values, and no other name is given one of these.** A name made of
digits that spell an id is given that id. Any other name has an id that differs from the number of
every word made of `%` and digits, also of those after its first use. -/
theorem assemble_preserves {o : AssemblyOptions} {text : String} {a : Assembly}
    (h : assemble o text = .ok a) (hkeep : o.preserveNumericIds = true)
    (hlen : (TokenText.ofText text).tokens.length < 2 ^ 32 - 2) (name : String) (id : Word)
    (hid : a.symbols.id? name = some id) :
    (∀ n, Digits.decimal? name.toList = some n → 1 ≤ n → n ≤ 2 ^ 32 - 1 → id.toNat = n) ∧
      ((¬ ∃ n, Digits.decimal? name.toList = some n ∧ 1 ≤ n ∧ n ≤ 2 ^ 32 - 1) →
        ∀ token ∈ (TokenText.ofText text).tokens, ∀ digits n, token.chars = '%' :: digits →
          Digits.decimal? digits = some n → id.toNat ≠ n) := by
  rw [assemble] at h
  dsimp only at h
  split at h
  next => simp at h
  next s body henc =>
  obtain rfl := Except.ok.inj h
  set tokens := (TokenText.ofText text).tokens
  set names := tokens.map fun token => String.ofList token.chars.tail with hnames
  have hlen : names.length + 2 < 2 ^ 32 := by simp only [hnames, List.length_map]; omega
  have hnumbers : Numbers (idNames tokens) (startSymbols o tokens) s.symbols := numbers_idNames henc
  have hpreserved : ∀ v, v ∈ s.symbols.preserved ↔
      v ≠ 0 ∧ ∃ token ∈ tokens, numericId? token.chars = some v := fun v => by
    rw [hnumbers.preserved_eq, startSymbols, if_pos hkeep, mem_preserveAll]
    simp [SymbolTable.empty]
  obtain ⟨hv, hreserves⟩ : Valid names s.symbols ∧ s.symbols.Reserves := by
    have hsub : ∀ other ∈ idNames tokens, other ∈ names := fun other hother => by
      obtain ⟨token, htoken, n, hn, rfl⟩ := mem_idNames.mp hother
      exact List.mem_map.mpr ⟨token, htoken, by rw [hn, List.tail_cons]⟩
    refine (hnumbers.mono hsub).preserves (P := fun t => Valid names t ∧ t.Reserves)
      (fun _ _ ha hb => ⟨hb.1.assigns hlen ha, hb.2.assigns hb.1 hlen ha⟩)
      ⟨valid_startSymbols o tokens, fun other w hw => ?_⟩
    simp [id?, ids_startSymbols] at hw
  have hne := mt UInt32.toNat_inj.mp (hv.nonzero name id hid)
  constructor
  · intro n hn hpos hle
    obtain ⟨v, rfl, hspelled⟩ := exists_valueOfName? hn (by omega)
    have hmem : v ∈ s.symbols.preserved := by
      refine (hpreserved v).mpr ⟨fun h0 => by simp [h0] at hpos, ?_⟩
      obtain hnone | hname := hnumbers.named hid
      · simp [id?, ids_startSymbols] at hnone
      obtain ⟨token, htoken, m, hm, rfl⟩ := mem_idNames.mp hname
      exact ⟨token, htoken, by simpa [hm, numericId?] using hspelled⟩
    rw [hv.keeps name id v hid hspelled hmem]
  · rintro hother token htoken digits _ hchars hdigits rfl
    have hmem : id ∈ s.symbols.preserved := (hpreserved id).mpr ⟨hv.nonzero name id hid, token, htoken,
      by simpa [hchars, numericId?] using valueOfName?_eq_some_iff.mpr hdigits⟩
    refine hother ⟨id.toNat, valueOfName?_eq_some_iff.mp (hreserves name id hid hmem), ?_, ?_⟩
    · exact Nat.one_le_iff_ne_zero.mpr hne
    · exact Nat.le_pred_of_lt id.toNat_lt

/-! ### A name before the number that it must not take -/

namespace Sample

def laterText : String := "OpName %x \"x\" OpName %1 \"y\""

def namesSymbol : Statement where
  front := []
  name := ⟨"OpName".toList, ⟨0, 0, 0⟩⟩
  opcode := .opName
  operands := [⟨.one .id, ⟨"%x".toList, ⟨0, 7, 7⟩⟩, .id "x", [2]⟩,
    ⟨.one .string, ⟨"\"x\"".toList, ⟨0, 10, 10⟩⟩, .value [0x78] [], [0x78]⟩]

def namesOne : Statement where
  front := []
  name := ⟨"OpName".toList, ⟨0, 14, 14⟩⟩
  opcode := .opName
  operands := [⟨.one .id, ⟨"%1".toList, ⟨0, 21, 21⟩⟩, .id "1", [1]⟩,
    ⟨.one .string, ⟨"\"y\"".toList, ⟨0, 24, 24⟩⟩, .value [0x79] [], [0x79]⟩]

lemma tokens_laterText :
    (TokenText.ofText laterText).tokens = namesSymbol.tokens ++ namesOne.tokens := by cbv

/-- The symbols that the text starts with, its number being preserved. -/
def oneSymbols : SymbolTable := ⟨∅, ∅, (∅ : Std.HashSet Word).insert 1, 1, 1⟩

lemma startSymbols_laterText : startSymbols ⟨.assignment, 0, true⟩
    (TokenText.ofText laterText).tokens = oneSymbols := by
  have hop : numericId? "OpName".toList = none := by cbv
  have hx : numericId? "%x".toList = none := by cbv
  have hone : numericId? "%1".toList = some 1 := by cbv
  have hstring : numericId? "\"x\"".toList = none := by cbv
  have hstring' : numericId? "\"y\"".toList = none := by cbv
  rw [tokens_laterText, startSymbols, if_pos rfl]
  simp only [preserveAll, namesSymbol, namesOne, Statement.tokens, Statement.operandTokens, if_true,
    List.map_cons, List.map_nil, List.nil_append, List.cons_append, List.foldl_cons, List.foldl_nil,
    hop, hx, hone, hstring, hstring']
  rfl

/-- The symbols once the first name has an id. -/
def xNamed : SymbolTable := { oneSymbols with next := 3 }.bind "x" 2

/-- The symbols once the number has its id as well. -/
def oneNamed : SymbolTable := xNamed.bind "1" 1

lemma accept_x : State.accept ⟨oneSymbols, .empty⟩ #[] (.id "x") = .ok (⟨xNamed, .empty⟩, #[2]) := by
  have hvalid : SymbolTable.isValidName "x" = true := by decide
  have hnew : oneSymbols.id? "x" = none := by simp [SymbolTable.id?, oneSymbols]
  have hvalue : valueOfName? "x".toList = none := by cbv
  have hfree : oneSymbols.firstFree (oneSymbols.preserved.size + oneSymbols.names.size)
      oneSymbols.next = 2 := by
    have hsize : oneSymbols.preserved.size + oneSymbols.names.size = 1 := by
      simp [oneSymbols, Std.HashSet.size_insert]
    have htaken : oneSymbols.isTaken 1 = true := by simp [SymbolTable.isTaken, oneSymbols]
    rw [hsize, SymbolTable.firstFree, show oneSymbols.next = 1 from rfl, htaken]
    rfl
  simp only [State.accept, SymbolTable.assign, hvalid, hnew, hvalue, hfree]
  rfl

lemma accept_one : State.accept ⟨xNamed, .empty⟩ #[] (.id "1") = .ok (⟨oneNamed, .empty⟩, #[1]) := by
  have hassign : xNamed.assign "1" = .ok (1, oneNamed) :=
    assign_of_preserved (by decide)
      (by simp [SymbolTable.id?, xNamed, SymbolTable.bind, oneSymbols]) (by cbv)
      (by simp [xNamed, SymbolTable.bind, oneSymbols])
      (by simp [SymbolTable.name?, xNamed, SymbolTable.bind, oneSymbols])
  simp [State.accept, hassign]

lemma encodesAll_laterText : ∃ s', s'.symbols = oneNamed ∧
    EncodesAll .assignment ⟨oneSymbols, .empty⟩ (TokenText.ofText laterText).tokens
      [namesSymbol, namesOne] s' := by
  have hfirst : Encodes .assignment ⟨oneSymbols, .empty⟩ (namesSymbol.tokens ++ namesOne.tokens)
      namesSymbol (finished .opName
        ⟨⟨xNamed, .empty⟩, ([2, 0x78] : List Word).toArray, namesOne.tokens⟩) := by
    refine .plain (by decide) (by decide +kernel) (by decide) ?_ (by decide)
    refine .operand rfl (fun _ => rfl) (by cbv) (by cbv) accept_x ?_
    exact .operand rfl (fun _ => rfl) (by cbv) (by cbv) rfl (.full rfl)
  have hsecond : Encodes .assignment ⟨xNamed, .empty⟩ namesOne.tokens namesOne
      (finished .opName ⟨⟨oneNamed, .empty⟩, ([1, 0x79] : List Word).toArray, []⟩) := by
    refine .plain (by decide) (by decide +kernel) (by decide) ?_ (by decide)
    refine .operand rfl (fun _ => rfl) (by cbv) (by cbv) accept_one ?_
    exact .operand rfl (fun _ => rfl) (by cbv) (by cbv) rfl (.full rfl)
  rw [tokens_laterText]
  exact ⟨_, rfl, .cons hfirst (.cons hsecond .nil)⟩

end Sample

/-- The first name of a text does not get the number that the text spells later. -/
theorem assemble_preserves_sample : ∃ a, assemble ⟨.assignment, 0, true⟩ Sample.laterText = .ok a ∧
    (∃ id, a.symbols.id? "x" = some id ∧ id.toNat ≠ 1) ∧
      ∃ id, a.symbols.id? "1" = some id ∧ id.toNat = 1 := by
  obtain ⟨s', hsymbols, h⟩ := Sample.encodesAll_laterText
  rw [← Sample.startSymbols_laterText] at h
  have ha : assemble ⟨.assignment, 0, true⟩ Sample.laterText = .ok _ := assemble_of_encodesAll h
  have hlen : (TokenText.ofText Sample.laterText).tokens.length < 2 ^ 32 - 2 := by
    rw [Sample.tokens_laterText]
    decide
  have hx : s'.symbols.id? "x" = some 2 := by
    rw [hsymbols, SymbolTable.id?, Sample.oneNamed, Sample.xNamed, SymbolTable.bind,
      SymbolTable.bind, Std.HashMap.getElem?_insert, Std.HashMap.getElem?_insert_self]
    simp
  have hone : s'.symbols.id? "1" = some 1 := by
    simp [hsymbols, SymbolTable.id?, Sample.oneNamed, SymbolTable.bind]
  refine ⟨_, ha, ⟨2, hx, ?_⟩, 1, hone, ?_⟩
  · refine (assemble_preserves ha rfl hlen "x" 2 hx).2 ?_ ⟨"%1".toList, ⟨0, 21, 21⟩⟩ ?_ ['1'] 1 rfl
      (by cbv)
    · rintro ⟨n, hn, -⟩
      have hnone : Digits.decimal? "x".toList = none := by cbv
      exact absurd (hn.symm.trans hnone) (Option.some_ne_none n)
    · rw [Sample.tokens_laterText]
      simp [Sample.namesOne, Statement.tokens, Statement.operandTokens]
  · exact (assemble_preserves ha rfl hlen "1" 1 hone).1 1 (by cbv) (by decide) (by decide)

end Assembly

end Spirv
