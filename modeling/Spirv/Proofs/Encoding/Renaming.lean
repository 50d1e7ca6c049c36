import Mathlib
import Spirv.Proofs.Encoding.Forms
import Spirv.Proofs.Text.Scanning

/-!
What the names of ids mean to the assembler.

Nothing but which of them are the same. If the names of a text are replaced by others, different ones
by different ones, each new name is given the id of the one it stands for, and all else is as it was.
A name of digits is a name like any other here, as long as no value is preserved.
-/

namespace Spirv

open Text

namespace SymbolTable

/-- The names that ids may have. -/
abbrev IdName := {name : String // isValidName name = true}

variable {ρ : IdName → IdName} {t u : SymbolTable}

/-- The one table is the other with its names replaced. -/
structure Renamed (ρ : IdName → IdName) (t u : SymbolTable) : Prop where
  ids : ∀ n : IdName, u.ids[(ρ n).1]? = t.ids[n.1]?
  only : ∀ (name : String) (id : Word), u.ids[name]? = some id → ∃ n : IdName, name = ρ n
  names : ∀ id : Word, Option.Rel (fun x y : String => ∃ n : IdName, x = n ∧ y = ρ n)
    t.names[id]? u.names[id]?
  size : t.names.size = u.names.size
  preserved : t.preserved = ∅ ∧ u.preserved = ∅
  bound : t.bound = u.bound
  next : t.next = u.next

namespace Renamed

lemma empty (ρ : IdName → IdName) : Renamed ρ .empty .empty where
  ids n := by simp [SymbolTable.empty]
  only name id h := by simp [SymbolTable.empty] at h
  names id := by simp [SymbolTable.empty]
  size := rfl
  preserved := ⟨rfl, rfl⟩
  bound := rfl
  next := rfl

lemma contains_eq (h : Renamed ρ t u) (id : Word) : t.names.contains id = u.names.contains id := by
  rw [Std.HashMap.contains_eq_isSome_getElem?, Std.HashMap.contains_eq_isSome_getElem?]
  have hrel := h.names id
  generalize t.names[id]? = x, u.names[id]? = y at hrel ⊢
  cases hrel <;> rfl

lemma firstFree_eq (h : Renamed ρ t u) (n : ℕ) (id : Word) :
    t.firstFree n id = u.firstFree n id := by
  induction n generalizing id with
  | zero => rfl
  | succ n ih =>
    rw [firstFree, firstFree, isTaken, isTaken, h.preserved.1, h.preserved.2, h.contains_eq, ih]

lemma bind (h : Renamed ρ t u) (hρ : Function.Injective ρ) (n : IdName) (id next : Word) :
    Renamed ρ ({ t with next := next }.bind n id) ({ u with next := next }.bind (ρ n) id) where
  ids m := by
    have hname : (ρ n).1 = (ρ m).1 ↔ n.1 = m.1 := by
      rw [← Subtype.ext_iff, ← Subtype.ext_iff, hρ.eq_iff]
    simp only [SymbolTable.bind, Std.HashMap.getElem?_insert, beq_eq_decide,
      decide_eq_decide.mpr hname, h.ids]
  only name id' hid := by
    simp only [SymbolTable.bind, Std.HashMap.getElem?_insert] at hid
    split at hid
    next hname => exact ⟨n, (eq_of_beq hname).symm⟩
    next => exact h.only name id' hid
  names id' := by
    simp only [SymbolTable.bind, Std.HashMap.getElem?_insert]
    split
    · exact .some ⟨n, rfl, rfl⟩
    · exact h.names id'
  size := by
    simp only [SymbolTable.bind, Std.HashMap.size_insert, Std.HashMap.mem_iff_contains,
      h.contains_eq, h.size]
  preserved := h.preserved
  bound := congrArg (max · _) h.bound
  next := rfl

/-- A name and its new name are given the same id. -/
lemma assign (h : Renamed ρ t u) (hρ : Function.Injective ρ) (n : IdName) :
    Alike (fun _ _ => True) (fun a b => a.1 = b.1 ∧ Renamed ρ a.2 b.2) (t.assign n)
      (u.assign (ρ n)) := by
  have hnone : ∀ {t : SymbolTable} (o : Option Word), t.preserved = ∅ →
      o.filter t.preserved.contains = none := fun o ht => by simp [ht]
  rw [SymbolTable.assign, SymbolTable.assign, n.2, (ρ n).2, id?, id?, h.ids n]
  rcases t.ids[n.1]? with _ | id
  · have hfree : t.firstFree (t.preserved.size + t.names.size) t.next
        = u.firstFree (u.preserved.size + u.names.size) u.next := by
      rw [h.firstFree_eq, h.preserved.1, h.preserved.2, h.size, h.next]
    simp only [Bool.not_true, Bool.false_eq_true, if_false, hnone _ h.preserved.1,
      hnone _ h.preserved.2, hfree]
    exact .ok ⟨rfl, h.bind hρ n _ _⟩
  · exact .ok ⟨rfl, h⟩

end Renamed

end SymbolTable

namespace Assembly

open SymbolTable

variable {ρ : IdName → IdName}

/-- The word with its name replaced, if it is `%` and a name that an id may have. -/
def renameWord (ρ : IdName → IdName) : List Char → List Char
  | '%' :: name =>
    if h : isValidName (String.ofList name) = true then '%' :: (ρ ⟨String.ofList name, h⟩).1.toList
    else '%' :: name
  | word => word

/-- The text with the names of its ids replaced. -/
def renameIds (ρ : IdName → IdName) (text : String) : String :=
  String.ofList ((Cursor.ofText text.toList).mapWords (renameWord ρ))

/-- A name and what it is replaced by. -/
def NewName (ρ : IdName → IdName) (n n' : List Char) : Prop := renameWord ρ ('%' :: n) = '%' :: n'

/-- Names are replaced, different ones by different ones. -/
def Renaming.ofInjective (hρ : Function.Injective ρ) : Renaming where
  name := NewName ρ
  symbols := Renamed ρ
  fault _ _ := True
  fault_words _ _ _ := trivial
  assign := by
    intro t u n n' ht hn
    rw [NewName, renameWord] at hn
    split at hn
    next h =>
      obtain rfl := (List.cons.inj hn).2
      rw [String.ofList_toList]
      exact ht.assign hρ ⟨String.ofList n, h⟩
    next h =>
      obtain rfl := (List.cons.inj hn).2
      have hinvalid : (!isValidName (String.ofList n)) = true := by simpa using h
      rw [SymbolTable.assign, SymbolTable.assign, if_pos hinvalid, if_pos hinvalid]
      exact .error trivial

lemma sameButNames_renameWord (w : List Char) : SameButNames (NewName ρ) w (renameWord ρ w) := by
  by_cases hpercent : w.head? = some '%'
  · obtain ⟨n, rfl⟩ := List.head?_eq_some_iff.mp hpercent
    have hnew : ∃ n', renameWord ρ ('%' :: n) = '%' :: n' := by
      rw [renameWord]
      split <;> exact ⟨_, rfl⟩
    obtain ⟨n', hn'⟩ := hnew
    exact hn' ▸ .id hn'
  · have hsame : renameWord ρ w = w := by
      unfold renameWord
      split <;> simp_all
    exact hsame.symm ▸ .same hpercent

/-- A word is left as it is or becomes another id. -/
lemma renameWord_eq_or_isWord (w : List Char) : renameWord ρ w = w ∨ IsWord (renameWord ρ w) := by
  unfold renameWord
  split
  next name =>
    split
    next h => exact .inr (isWord_id (by simpa using (ρ ⟨String.ofList name, h⟩).2))
    next => exact .inl rfl
  next => exact .inl rfl

/-- The words of the new text are those of the old one with their names replaced. -/
theorem words_renameIds (ρ : IdName → IdName) (text : String) :
    (TokenText.ofText (renameIds ρ text)).tokens.map Token.chars
      = (TokenText.ofText text).tokens.map fun token => renameWord ρ token.chars := by
  obtain ⟨u, hu, hwords⟩ := (scans_ofText text).mapWords
    (fun token _ => renameWord_eq_or_isWord token.chars) .start
  rw [← hwords, ← scans_iff.mp hu, TokenText.ofText, renameIds, String.toList_ofList]
  rfl

/-- **Assembling does not depend on what ids are called.** If no value is preserved and the names of
all ids of a text are replaced, different ones by different ones, the new text is assembled if and
only if the old one is, to the same words with the same bound, and each new name has the id of the
one that it stands for. -/
theorem assemble_renameIds (o : AssemblyOptions) (hkeep : o.preserveNumericIds = false)
    (hρ : Function.Injective ρ) (text : String) :
    (∃ a b, assemble o text = .ok a ∧ assemble o (renameIds ρ text) = .ok b ∧
        a.words = b.words ∧ a.bound = b.bound ∧
        (∀ n : IdName, b.symbols.id? (ρ n) = a.symbols.id? n) ∧
        ∀ name id, b.symbols.id? name = some id → ∃ n : IdName, name = ρ n) ∨
      ∃ e e', assemble o text = .error e ∧ assemble o (renameIds ρ text) = .error e' := by
  have htexts : (Renaming.ofInjective hρ).Texts (TokenText.ofText text).tokens
      (TokenText.ofText (renameIds ρ text)).tokens := by
    change List.Forall₂ (fun a b : Token => SameButNames (NewName ρ) a.chars b.chars) _ _
    rw [← List.forall₂_map_right_iff (f := Token.chars), words_renameIds,
      List.forall₂_map_right_iff]
    exact List.forall₂_same.mpr fun token _ => sameButNames_renameWord token.chars
  have hstates : (Renaming.ofInjective hρ).States ⟨.empty, .empty⟩ ⟨.empty, .empty⟩ :=
    ⟨Renamed.empty ρ, rfl⟩
  have halike : Alike (fun _ _ => True) (fun a b : Assembly => a.words = b.words ∧
      a.bound = b.bound ∧ Renamed ρ a.symbols b.symbols) (assemble o text)
      (assemble o (renameIds ρ text)) := by
    rw [assemble_eq, assemble_eq, startSymbols_eq_empty hkeep, startSymbols_eq_empty hkeep]
    refine (encodeAll_texts hstates htexts #[]).failing.bind fun x y ⟨hstate, hbody⟩ => ?_
    have hbound : x.1.symbols.bound = y.1.symbols.bound := hstate.symbols.bound
    exact .ok ⟨by rw [hbound, hbody], hbound, hstate.symbols⟩
  rcases halike.ok_or_error with ⟨a, b, ha, hb, hwords, hbound, hsymbols⟩ | ⟨e, e', he, he', -⟩
  · exact .inl ⟨a, b, ha, hb, hwords, hbound, hsymbols.ids, hsymbols.only⟩
  · exact .inr ⟨e, e', he, he'⟩

namespace Sample

/-- An underscore is put in front of the name. -/
def underscored (n : IdName) : IdName :=
  ⟨"_" ++ n.1, by
    obtain ⟨-, hall⟩ := Bool.and_eq_true_iff.mp n.2
    rw [isValidName, String.toList_append, List.all_append, hall]
    simp⟩

lemma underscored_injective : Function.Injective underscored := fun n m h => by
  have happ : "_" ++ n.1 = "_" ++ m.1 := congrArg Subtype.val h
  exact Subtype.ext (by simpa using happ)

lemma renameIds_text : renameIds underscored text
    = "%_i = OpTypeInt 32 1 %_n = OpConstant %_i -5" := by cbv

end Sample

/-- A type and a constant of it are assembled alike under other names. -/
theorem assemble_renameIds_sample : Function.Injective Sample.underscored ∧
    ∃ a b, assemble ⟨.assignment, 0, false⟩ Sample.text = .ok a ∧
      assemble ⟨.assignment, 0, false⟩ "%_i = OpTypeInt 32 1 %_n = OpConstant %_i -5" = .ok b ∧
        a.words = b.words ∧ a.bound = b.bound ∧
        (∀ n : IdName, b.symbols.id? (Sample.underscored n) = a.symbols.id? n) ∧
        ∀ name id, b.symbols.id? name = some id → ∃ n : IdName, name = Sample.underscored n := by
  refine ⟨Sample.underscored_injective, ?_⟩
  obtain ⟨s', hs⟩ := Sample.says_text 0
  rcases assemble_renameIds ⟨.assignment, 0, false⟩ rfl Sample.underscored_injective Sample.text
    with h | ⟨e, e', he, -⟩
  · rwa [Sample.renameIds_text] at h
  · exact absurd ((assemble_of_encodesAll hs).symm.trans he) nofun

end Assembly

end Spirv
