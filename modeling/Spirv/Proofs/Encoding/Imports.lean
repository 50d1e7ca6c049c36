import Mathlib
import Spirv.Proofs.Encoding.Parts

/-!
The extended sets that a text imports.

An import gives its result an id and names a set, which is kept for the id until the id is given to
another set. So what is kept is what the parts so far import, the last of them first. With a raw word
in place of its result or its name an import keeps nothing.
-/

namespace Spirv.Assembly

/-- What a statement imports: the id of its result, and the set if its name is that of a known one. -/
def Statement.imported? (st : Statement) : Option (Word × Option ExtendedSet) :=
  match st.opcode, st.operands with
  | .opExtInstImport, ⟨.resultId, _, _, [id]⟩ :: ⟨.string, name, _, _⟩ :: _ =>
    (Quoted.decode name.chars).map fun s => (id, ExtendedSet.ofImportName? (String.ofList s))
  | _, _ => none

def Part.imported? : Part → Option (Word × Option ExtendedSet)
  | .statement st => st.imported?
  | .raw _ _ => none

/-- The set that parts import as an id, the last of them if several do. -/
def importOf? (before : List Part) (id : Word) : Option (Option ExtendedSet) :=
  (before.reverse.filterMap Part.imported?).lookup id

lemma importOf?_snoc (before : List Part) (part : Part) (id : Word) :
    importOf? (before ++ [part]) id =
      (part.imported?.bind fun i => if id = i.1 then some i.2 else none).or (importOf? before id) := by
  rw [importOf?, List.reverse_append, List.reverse_singleton, List.singleton_append,
    List.filterMap_cons]
  rcases part.imported? with _ | ⟨i, set?⟩
  · rfl
  · by_cases hid : id = i <;> simp [List.lookup_cons, hid, importOf?, beq_eq_false_iff_ne.mpr]

variable {d : Declared} {op : Opcode} {before : Array Word} {chars : List Char} {r : Reading}
  {result? : Option Token} {s : State} {done : List Word} {w : Word} {tokens front : List Token}
  {name : Token} {fs : List Filled} {e : Encoded} {form : Form} {part : Part}
  {parts mid after : List Part}

/-! ### What an instruction declares -/

/-- The imports that are declared once an import is made. -/
def withImport (imports : Std.HashMap Word (Option ExtendedSet)) :
    Option (Word × Option ExtendedSet) → Std.HashMap Word (Option ExtendedSet)
  | some (id, set?) => imports.insert id set?
  | none => imports

lemma decode_of_isRaw (h : isRaw chars = true) : Quoted.decode chars = none := by
  unfold Quoted.decode
  split
  next => simp [isRaw] at h
  next => rfl

lemma patternAfter_free (hread : readOperand d op before .free chars = .ok r) :
    r.patternAfter .free [] = [.free] := by
  have hneeds : r.needs = [] := List.eq_nil_iff_forall_not_mem.mpr fun t ht => by
    obtain ⟨k, hk, -⟩ := exists_asks_of_readOperand hread ht
    simp [Slot.kind?] at hk
  cases r with
  | value ws needs => simp_all [Reading.patternAfter]
  | id | raw | importing => simp [Reading.patternAfter, Pattern.afterRaw]

/-- Free operands declare nothing and are followed by free ones. -/
lemma Fills.free (h : Fills op result? s done [.free] tokens fs e) :
    e.state.declared = s.declared ∧ ∀ f ∈ fs, f.slot = .free := by
  generalize hp : [Slot.free] = p at h
  induction h with
  | full | stop => exact ⟨rfl, List.forall_mem_nil _⟩
  | result take => simp [← hp, Pattern.take?] at take
  | operand take _ _ read accept _ ih =>
    obtain ⟨rfl, rfl⟩ := by simpa [← hp, Pattern.take?] using take
    obtain ⟨hdeclared, hfree⟩ := ih (patternAfter_free read).symm
    refine ⟨hdeclared.trans (declared_of_accept ?_ accept), List.forall_mem_cons.mpr ⟨rfl, hfree⟩⟩
    exact ne_importing_of_readOperand (by simp [Slot.kind?]) read

lemma Fills.import_string (h : Fills .opExtInstImport result? s [w] [.string] tokens fs e) :
    ∃ f gs, fs = f :: gs ∧ f.slot = .string ∧ e.state.declared.imports =
      withImport s.declared.imports ((Quoted.decode f.token.chars).map fun str =>
        (w, ExtendedSet.ofImportName? (String.ofList str))) := by
  obtain ⟨f, gs, s', tokens', rfl, hslot, -, hread, haccept, more⟩ := h.exists_of_one
  refine ⟨f, gs, rfl, hslot, ?_⟩
  rcases hraw : isRaw f.token.chars with _ | _
  · obtain ⟨str, hstr, hr⟩ := readString_eq_ok (readKind_of_readOperand (k := .string) hraw rfl hread)
    rw [if_pos rfl] at hr
    rw [hr] at haccept more
    obtain ⟨-, rfl⟩ := accept_importing_iff.mp haccept
    rw [hstr]
    cases more with
    | full | stop => rfl
    | result take | operand take => simp [Reading.patternAfter, Pattern.take?] at take
  · obtain ⟨w', hw⟩ := exists_raw_of_readOperand hraw hread
    rw [hw] at haccept more
    rw [decode_of_isRaw hraw, more.free.1, declared_of_accept (by simp) haccept]
    rfl

/-- An import is declared for its result. -/
lemma Fills.import_eq
    (h : Fills .opExtInstImport result? s [] [.resultId, .string] tokens fs e) :
    e.state.declared.imports = withImport s.declared.imports
      (Statement.imported? ⟨front, name, .opExtInstImport, fs⟩) := by
  obtain ⟨⟨_, token, r, ws⟩, gs, s', tokens', rfl, rfl, -, hread, haccept, more⟩ :=
    h.exists_of_one
  rcases name_or_raw_of_isId rfl rfl hread with ⟨name, rfl⟩ | ⟨w, rfl⟩
  · obtain ⟨w, t, -, rfl, rfl⟩ := accept_id_iff.mp haccept
    obtain ⟨⟨_, string, _, _⟩, gs, rfl, rfl, himport⟩ := Fills.import_string more
    exact himport
  · obtain ⟨rfl, rfl⟩ := by simpa [State.accept] using haccept
    obtain ⟨hdeclared, hfree⟩ := Fills.free more
    rw [hdeclared]
    rcases gs with _ | ⟨⟨_, _, _, _⟩, gs⟩
    · rfl
    · obtain rfl := hfree _ (.head _)
      rfl

lemma Statement.imported?_of_ne {st : Statement} (h : st.opcode ≠ .opExtInstImport) :
    st.imported? = none := by
  unfold imported?
  split
  next hop _ => exact absurd hop h
  next => rfl

lemma Encodes.import_eq {st : Statement} (h : Encodes form s tokens st e) :
    e.state.declared.imports = withImport s.declared.imports st.imported? := by
  have hfills : ∀ {result? : Option Token} {tokens : List Token} {front : List Token} {name : Token}
      {op : Opcode} {fs : List Filled} {e : Encoded}, Fills op result? s [] op.operands tokens fs e →
      (finished op e).state.declared.imports
        = withImport s.declared.imports (Statement.imported? ⟨front, name, op, fs⟩) := by
    intro _ _ _ _ op _ e h
    change e.state.declared.imports = _
    by_cases hop : op = .opExtInstImport
    · subst hop
      exact Fills.import_eq h
    · rw [h.declared_eq hop, Statement.imported?_of_ne hop]
      rfl
  cases h with
  | plain _ _ _ fills => exact hfills fills
  | assigned _ _ _ _ _ _ fills => exact hfills fills

lemma declared_of_fillRaw {first : Token} {done : Array Word}
    (h : fillRaw first s done tokens = .ok e) : e.state.declared = s.declared := by
  fun_induction fillRaw first s done tokens with
  | case1 | case2 => exact (Except.ok.inj h) ▸ rfl
  | case7 s done token after _ _ r hread s' done' hacc ih =>
    rw [acceptToken_eq_ok] at hacc
    obtain ⟨ws, rfl⟩ := accept_eq_ok_append hacc
    refine (ih h).trans (declared_of_accept (fun set? us => ?_) hacc)
    split at hread
    next =>
      obtain ⟨w, rfl⟩ := exists_raw_of_readRaw hread
      simp
    next => exact ne_importing_of_readFree hread set? us
  | _ => simp at h

/-! ### Texts -/

/-- The sets that are declared are those that the parts import. -/
def Imported (s : State) (parts : List Part) : Prop :=
  ∀ id, s.declared.imports[id]? = importOf? parts id

lemma imported_empty (symbols : SymbolTable) : Imported ⟨symbols, .empty⟩ [] := fun id => by
  simp [Declared.empty, importOf?]

lemma Imported.snoc (hs : Imported s parts) (h : EncodesPart form s tokens part e) :
    Imported e.state (parts ++ [part]) := by
  have himports : e.state.declared.imports = withImport s.declared.imports part.imported? := by
    cases h with
    | statement encodes => exact encodes.import_eq
    | raw _ _ fill => exact congrArg _ (declared_of_fillRaw fill)
  intro id
  rw [himports, importOf?_snoc, ← hs id]
  rcases part.imported? with _ | ⟨i, set?⟩
  · rfl
  · rw [withImport, Std.HashMap.getElem?_insert]
    by_cases hid : id = i
    · simp [hid]
    · simp [hid, Ne.symm hid]

lemma EncodesParts.exists_encodesPart {s' : State}
    (h : EncodesParts form s tokens (mid ++ part :: after) s') (hs : Imported s parts) :
    ∃ s₁ tokens₁ e, EncodesPart form s₁ tokens₁ part e ∧ Imported s₁ (parts ++ mid) := by
  induction mid generalizing s tokens parts with
  | nil =>
    cases h with
    | cons first => exact ⟨s, tokens, _, first, by simpa using hs⟩
  | cons _ mid ih =>
    cases h with
    | cons first more => simpa using ih more (hs.snoc first)

end Spirv.Assembly
