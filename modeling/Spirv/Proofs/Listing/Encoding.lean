import Mathlib
import Spirv.Proofs.Listing.Line

/-!
Listed instructions are encoded to their words.

The operands of a listed instruction fill the same slots as those that it was read from, one after
the other: each is read back as its words and asks for the same operands after it. Ids are named by
their numbers, which are kept for them. What the assembler knows of the instructions before is the
same at every line, so the same types govern the numbers on it.
-/

namespace Spirv

open Text Assembly Piece

namespace SymbolTable

/-- Every name is the number of its id, and the ids in `kept` are kept for theirs. -/
structure Numeric (kept : Set Word) (t : SymbolTable) : Prop where
  preserved : ∀ w ∈ kept, w ∈ t.preserved
  spelled : ∀ name id, t.id? name = some id → name = toString id.toNat
  inverse : ∀ id name, t.name? id = some name → t.id? name = some id

variable {t : SymbolTable} {kept : Set Word} {w : Word}

lemma valueOfName?_toString (w : Word) : valueOfName? (toString w.toNat).toList = some w := by
  rw [valueOfName?_eq_some_iff, (Digits.spells_toString w.toNat).decimal?]

lemma isValidName_toString (n : ℕ) : isValidName (toString n) = true := by
  have hspells := Digits.spells_toString n
  have hall := hspells.forall_mem (Digits.IsDigit.isAlphanum (by omega))
  simp only [isValidName, Bool.and_eq_true, List.all_eq_true]
  exact ⟨by simp, fun c hc => by simp [hall c hc]⟩

/-- An id that is kept is that of its number. -/
lemma Numeric.assign (h : t.Numeric kept) (hw : w ∈ kept) :
    ∃ t', t.assign (toString w.toNat) = .ok (w, t') ∧ t'.Numeric kept := by
  have hpreserved : t.preserved.contains w = true := h.preserved w hw
  have hvalid := isValidName_toString w.toNat
  have hvalue := valueOfName?_toString w
  generalize hname : toString w.toNat = name at hvalid hvalue ⊢
  rw [SymbolTable.assign, hvalid, hvalue, Option.filter_some, if_pos hpreserved]
  rcases hid : t.id? name with _ | v
  · have hnew : t.name? w = none := Option.eq_none_iff_forall_ne_some.mpr fun other hother => by
      have hinverse := h.inverse w other hother
      obtain rfl : other = name := (h.spelled other w hinverse).trans hname
      exact Option.some_ne_none w (hinverse.symm.trans hid)
    refine ⟨t.bind name w, by simp [hnew], h.preserved, fun other v hv => ?_, fun v other hv => ?_⟩
    · rw [id?, SymbolTable.bind, Std.HashMap.getElem?_insert] at hv
      split at hv
      next heq =>
        obtain rfl := Option.some.inj hv
        exact (beq_iff_eq.mp heq).symm.trans hname.symm
      next => exact h.spelled other v hv
    · rw [name?, SymbolTable.bind, Std.HashMap.getElem?_insert] at hv
      rw [id?, SymbolTable.bind, Std.HashMap.getElem?_insert]
      split at hv
      next heq =>
        obtain rfl := Option.some.inj hv
        obtain rfl := beq_iff_eq.mp heq
        simp
      next hne =>
        have hinverse := h.inverse v other hv
        have hne : name ≠ other := by
          rintro rfl
          exact Option.some_ne_none v (hinverse.symm.trans hid)
        rw [if_neg (by simpa using hne)]
        exact hinverse
  · obtain rfl : w = v := by
      have hv := valueOfName?_toString v
      rw [← h.spelled name v hid, hvalue] at hv
      exact Option.some.inj hv
    exact ⟨t, rfl, h⟩

end SymbolTable

namespace Listing

/-! ### One operand after the other -/

section

variable {d : Declared} {op : Opcode} {finish : Position} {s : State} {done : Array Word}
  {p rest : Pattern} {slot : Slot} {k : OperandKind} {token : Token} {ts : List Token}
  {kept : Set Word} {w : Word}

lemma readOperand_id (hk : slot.kind? = some k) (hid : k.isId) (name : List Char) :
    readOperand d op done slot ('%' :: name) = .ok (.id (String.ofList name)) := by
  rw [readOperand.eq_def, if_neg (by simp [isRaw])]
  cases slot with
  | one k' | optional k' | second k' =>
    obtain rfl : k = k' := by simpa [Slot.kind?, eq_comm] using hk
    cases k <;> first | rfl | simp [OperandKind.isId] at hid
  | _ => simp [Slot.kind?] at hk

lemma readOperand_eq_readKind {chars : List Char} (hraw : isRaw chars = false)
    (hk : slot.kind? = some k) (hid : k.isId = false) :
    readOperand d op done slot chars = readKind d op done chars k := by
  rw [readOperand.eq_def, if_neg (by simp [hraw])]
  cases slot with
  | one k' | optional k' | second k' =>
    obtain rfl : k = k' := by simpa [Slot.kind?, eq_comm] using hk
    cases k <;> first | rfl | simp [OperandKind.isId] at hid
  | _ => simp [Slot.kind?] at hk

lemma ne_free (hk : slot.kind? = some k) : slot ≠ .free := by
  rintro rfl
  simp [Slot.kind?] at hk

/-- An id is put down by its number. -/
lemma fillSlots_id (hs : s.symbols.Numeric kept) (hw : w ∈ kept) (hp : p.take? = some (slot, rest))
    (hk : slot.kind? = some k) (hid : k.isId) (hchars : token.chars = (id w).toList)
    (hstart : Token.startInstruction (token :: ts) = false) :
    ∃ symbols, symbols.Numeric kept ∧ fillSlots op none finish s done p (token :: ts)
      = fillSlots op none finish ⟨symbols, s.declared⟩ (done.push w) rest ts := by
  obtain ⟨symbols, hassign, hsymbols⟩ := hs.assign hw
  have hname : token.chars = '%' :: (toString w.toNat).toList := by simp [hchars, id]
  refine ⟨symbols, hsymbols, ?_⟩
  rw [fillSlots_token hp (fun _ => rfl) hstart, hname, readOperand_id hk hid, String.ofList_toList]
  simp only [acceptToken, State.accept, hassign]
  rw [patternAfter_eq (ne_free hk) (by simp)]
  rfl

/-- A value is put down as its words. -/
lemma fillSlots_value {ws : List Word} {needs : List Slot} (hp : p.take? = some (slot, rest))
    (hk : slot.kind? = some k)
    (hread : readOperand s.declared op done slot token.chars = .ok (.value ws needs))
    (hstart : Token.startInstruction (token :: ts) = false) :
    fillSlots op none finish s done p (token :: ts)
      = fillSlots op none finish s (done.appendList ws) (needs ++ rest) ts := by
  rw [fillSlots_token hp (fun _ => rfl) hstart, hread]
  simp only [acceptToken, State.accept]
  rw [patternAfter_eq (ne_free hk) (by simp)]
  rfl

/-- After a raw word only free operands come. -/
lemma fillSlots_rawWord (hp : p.take? = some (slot, rest)) (hrest : IsResultFree rest)
    (hchars : token.chars = (rawWord w).toList)
    (hstart : Token.startInstruction (token :: ts) = false) :
    fillSlots op none finish s done p (token :: ts)
      = fillSlots op none finish s (done.push w) [.free] ts := by
  have hspells := spellsRaw_rawWord w
  rw [fillSlots_token hp (fun _ => rfl) hstart, readOperand.eq_def, hchars, if_pos hspells.isRaw,
    hspells.readRaw]
  simp only [acceptToken, State.accept, Reading.patternAfter, hrest.afterRaw_eq, List.isEmpty_cons,
    Bool.and_false, Bool.false_eq_true, if_false]
  rfl

end

/-! ### The operands of an instruction -/

lemma mem_dropLast_append {α : Type} {a : α} {l m : List α} (h : a ∈ m.dropLast) :
    a ∈ (l ++ m).dropLast := by
  have hne : m ≠ [] := by
    rintro rfl
    simp at h
  rw [List.dropLast_append_of_ne_nil hne]
  exact List.mem_append_right _ h

/-- The operands were put down as the words, and the text then goes on with `tail`. -/
structure Puts (kept : Set Word) (d : Declared) (ws : List Word) (tail : List (List Char))
    (e : Encoded) : Prop where
  words : e.words = ws.toArray
  rest : e.rest.map Token.chars = tail
  declared : e.state.declared = d
  numeric : e.state.symbols.Numeric kept

section

variable {lines : List Line} {op : Opcode} {finish : Position} {s : State} {done : Array Word}
  {p rest : Pattern} {ts : List Token} {kept : Set Word}

lemma isOptional_of_head? {slot : Slot} (htake : p.take? = some (slot, rest))
    (hp : ∀ slot ∈ p.head?, slot.isOptional) : slot.isOptional = true := by
  rcases p with _ | ⟨t, p⟩
  · simp [Pattern.take?] at htake
  have ht : t.isOptional = true := hp t rfl
  cases t with
  | many | pairs =>
    obtain ⟨rfl, -⟩ := by simpa [Pattern.take?] using htake
    rfl
  | _ =>
    obtain ⟨rfl, -⟩ := by simpa [Pattern.take?] using htake
    exact ht

/-- Operands end where an instruction may and the next line starts. -/
lemma fillSlots_finish (hl : ∀ l ∈ lines, l.Proper) (hp : ∀ slot ∈ p.head?, slot.isOptional)
    (ht : ts.map Token.chars = lines.flatMap (Line.words .canonical)) :
    fillSlots op none finish s done p ts = .ok ⟨s, done, ts⟩ := by
  rcases htake : p.take? with _ | ⟨slot, rest⟩
  · exact fillSlots_of_none htake
  have hoptional := isOptional_of_head? htake hp
  rcases lines with _ | ⟨l, lines⟩
  · obtain rfl : ts = [] := by simpa using ht
    rw [fillSlots_nil htake fun _ => rfl, if_pos hoptional]
  · rw [List.flatMap_cons] at ht
    obtain ⟨a, ts, rfl, hstart, -⟩ := (hl l (.head _)).start ht
    rw [fillSlots_start htake (fun _ => rfl) hstart, if_pos hoptional]

lemma isPlain_of_isOperand {word : List Char} (h : IsOperand word) : IsPlain word :=
  ⟨h.ne, h.unlike⟩

/-- The word in front of a line's remaining operands starts no instruction. -/
lemma exists_token (hl : ∀ l ∈ lines, l.Proper) {word : List Char} {front : List (List Char)}
    (hword : IsOperand word) (hf : ∀ word ∈ front, IsOperand word)
    (ht : ts.map Token.chars = word :: front ++ lines.flatMap (Line.words .canonical)) :
    ∃ token us, ts = token :: us ∧ token.chars = word ∧
      us.map Token.chars = front ++ lines.flatMap (Line.words .canonical) ∧
      Token.startInstruction ts = false := by
  obtain ⟨token, us, rfl, rfl, hu⟩ := List.map_eq_cons_iff.mp ht
  exact ⟨token, us, rfl, rfl, hu,
    startInstruction_eq_false hl (fun word hw => isPlain_of_isOperand (hf word hw)) hu hword.unlike⟩

/-- Raw words are put down as they are. -/
lemma exists_fillSlots_raw (hl : ∀ l ∈ lines, l.Proper) {ws : List Word}
    (ht : ts.map Token.chars = ws.map (fun w => (rawWord w).toList)
      ++ lines.flatMap (Line.words .canonical)) (hs : s.symbols.Numeric kept) :
    ∃ e, fillSlots op none finish s done [.free] ts = .ok e ∧
      Puts kept s.declared (done.toList ++ ws) (lines.flatMap (Line.words .canonical)) e := by
  induction ws generalizing done ts with
  | nil =>
    exact ⟨_, fillSlots_finish hl (by simp [Slot.isOptional]) ht, by simp, ht, rfl, hs⟩
  | cons w ws ih =>
    obtain ⟨token, us, rfl, hchars, hu, hstart⟩ := exists_token hl (spellsRaw_rawWord w).isOperand
      (List.forall_mem_map.mpr fun w _ => (spellsRaw_rawWord w).isOperand) ht
    rw [fillSlots_rawWord rfl (List.forall_mem_nil _) hchars hstart]
    obtain ⟨e, he, hputs⟩ := ih hu
    exact ⟨e, he, by simpa using hputs⟩

section

variable {c : Context} {slot : Slot} {k : OperandKind} {ws : List Word}
  {number? : Option NumberType} {needs : List Slot} {ps : List Piece} {set? : Option ExtendedSet}
  {token : Token}

/-- An operand of one word of text is put down as the words that it was read from. -/
lemma fillSlots_operand (operand : Operand c k ws number? needs)
    (take : p.take? = some (slot, rest)) (kind : slot.kind? = some k)
    (himport : c.opcode ≠ .opExtInstImport) (hdec : Decodable c.earlier)
    (hd : Declares s.declared c.earlier) (hset : ∀ set, c.UsesSet set → set? = some set)
    (hl : Piece.Lossless ⟨k, ws, number?⟩) (hf : Piece.IsFinite ⟨k, ws, number?⟩)
    (hkept : k.isId → ∀ w ∈ ws, w ∈ kept) (hs : s.symbols.Numeric kept)
    (hchars : token.chars = (Piece.text set? ⟨k, ws, number?⟩).toList)
    (hstart : Token.startInstruction (token :: ts) = false) :
    ∃ symbols, symbols.Numeric kept ∧
      fillSlots c.opcode none finish s c.before.toArray p (token :: ts)
        = fillSlots c.opcode none finish ⟨symbols, s.declared⟩ (c.push ws).before.toArray
          (needs ++ rest) ts := by
  by_cases hid : k.isId
  · obtain ⟨w, rfl, -⟩ := operand.of_isId hid
    rw [text_of_isId hid, List.headD_cons] at hchars
    obtain rfl : needs = [] := by
      cases operand <;> first | rfl | simp [OperandKind.isId] at hid
    have hpush : c.before.toArray.push w = (c.push [w]).before.toArray := by simp
    rw [← hpush]
    exact fillSlots_id hs (hkept hid w (.head _)) take kind hid hchars hstart
  · obtain ⟨⟨-, hraw⟩, hread⟩ := readKind_text operand (by simpa using hid)
      (fun h => absurd h himport) hd hdec hset hl hf
    rw [← hchars] at hraw hread
    have hread := (readOperand_eq_readKind hraw kind (by simpa using hid)).trans hread
    exact ⟨s.symbols, hs, by simpa using fillSlots_value take kind hread hstart⟩

/-- Raw words stand for a number without a decimal. -/
lemma exists_fillSlots_of_not_isFinite (hf : ¬ Piece.IsFinite ⟨k, ws, number?⟩) (hne : ws ≠ [])
    (take : p.take? = some (slot, rest)) (hrest : IsResultFree rest) (hs : s.symbols.Numeric kept)
    (hl : ∀ l ∈ lines, l.Proper)
    (ht : ts.map Token.chars = Piece.texts set? ⟨k, ws, number?⟩
      ++ lines.flatMap (Line.words .canonical)) :
    ∃ e, fillSlots c.opcode none finish s c.before.toArray p ts = .ok e ∧
      Puts kept s.declared (c.before ++ ws) (lines.flatMap (Line.words .canonical)) e := by
  obtain ⟨w, ws, rfl⟩ := List.exists_cons_of_ne_nil hne
  have hraws : ∀ word ∈ ws.map fun w => (rawWord w).toList, IsOperand word :=
    List.forall_mem_map.mpr fun w _ => (spellsRaw_rawWord w).isOperand
  rw [Piece.texts_of_not_isFinite hf, List.map_cons] at ht
  obtain ⟨token, us, rfl, hchars, hu, hstart⟩ :=
    exists_token hl (spellsRaw_rawWord w).isOperand hraws ht
  rw [fillSlots_rawWord take hrest hchars hstart]
  obtain ⟨e, he, hputs⟩ := exists_fillSlots_raw hl hu hs
  exact ⟨e, he, by simpa using hputs⟩

/-- **Operands that are listed fill the slots that they were read from.** -/
theorem exists_fillSlots (h : Filling c p ps) (hp : IsResultFree p)
    (himport : c.opcode ≠ .opExtInstImport) (hdec : Decodable c.earlier)
    (hd : Declares s.declared c.earlier)
    (hset : ∀ set, (c.push (wordsOf ps)).UsesSet set → set? = some set)
    (hlossless : ∀ q ∈ ps, q.Lossless) (hfinite : ∀ q ∈ ps.dropLast, q.IsFinite)
    (hkept : ∀ q ∈ ps, q.kind.isId → ∀ w ∈ q.words, w ∈ kept) (hs : s.symbols.Numeric kept)
    (hl : ∀ l ∈ lines, l.Proper)
    (ht : ts.map Token.chars = ps.flatMap (Piece.texts set?)
      ++ lines.flatMap (Line.words .canonical)) :
    ∃ e, fillSlots c.opcode none finish s c.before.toArray p ts = .ok e ∧
      Puts kept s.declared (c.before ++ wordsOf ps) (lines.flatMap (Line.words .canonical)) e := by
  induction h generalizing s ts with
  | done optional => exact ⟨_, fillSlots_finish hl optional ht, by simp, ht, rfl, hs⟩
  | @next c p rest slot k ws number? needs ps take kind operand filling ih =>
    obtain ⟨hq, hmore⟩ := List.forall_mem_cons.mp hlossless
    obtain ⟨hkeptq, hkeptmore⟩ := List.forall_mem_cons.mp hkept
    have hrest := (hp.of_take? take).2
    have hset' : ∀ set, c.UsesSet set → set? = some set := fun set h => hset set (UsesSet.append h)
    have hsetmore : ∀ set, ((c.push ws).push (wordsOf ps)).UsesSet set → set? = some set := by
      simpa [Context.push_push] using hset
    by_cases hf : Piece.IsFinite ⟨k, ws, number?⟩
    · have hfinitemore : ∀ q ∈ ps.dropLast, q.IsFinite := fun q hq =>
        hfinite q (mem_dropLast_append (l := [_]) hq)
      have hneeds : IsResultFree (needs ++ rest) := fun t ht => by
        rcases List.mem_append.mp ht with ht | ht
        · exact resultId_notMem_kinds (operand.isInner_of_mem ht)
        · exact hrest t ht
      have hword := isOperand_of_mem_texts (q := ⟨k, ws, number?⟩) operand hdec hset' hq
      have hwords : ∀ word ∈ ps.flatMap (Piece.texts set?), IsOperand word := fun word hword => by
        obtain ⟨q, hq, hword⟩ := List.mem_flatMap.mp hword
        exact isOperand_of_filling filling hdec hsetmore hmore q hq word hword
      rw [Piece.texts_of_isFinite hf] at hword
      rw [List.flatMap_cons, Piece.texts_of_isFinite hf, List.singleton_append] at ht
      obtain ⟨token, us, rfl, hchars, hu, hstart⟩ := exists_token hl (hword _ (.head _)) hwords ht
      obtain ⟨symbols, hsymbols, hfill⟩ := fillSlots_operand operand take kind himport hdec hd hset'
        hq hf hkeptq hs hchars hstart
      obtain ⟨e, he, hputs⟩ := ih (s := ⟨symbols, s.declared⟩) hneeds himport hdec hd hsetmore hmore
        hfinitemore hkeptmore hsymbols hu
      exact ⟨e, hfill.trans he, by simpa using hputs⟩
    · -- a number without a decimal is the last operand, and raw words stand for it
      obtain rfl : ps = [] := by
        rcases ps with _ | ⟨q', ps⟩
        · rfl
        · exact absurd (hfinite _ (.head _)) hf
      rw [List.flatMap_singleton] at ht
      rw [wordsOf_cons, wordsOf_nil, List.append_nil]
      exact exists_fillSlots_of_not_isFinite hf operand.ne_nil take hrest hs hl ht

end

end

/-! ### Instructions -/

/-- The assembler knows what the instructions declare and names ids by their numbers. -/
structure Tracks (kept : Set Word) (earlier : List Instruction) (s : State) : Prop where
  declares : Declares s.declared earlier
  numeric : s.symbols.Numeric kept

section

variable {lines : List Line} {op : Opcode} {finish : Position} {s : State} {ts : List Token}
  {kept : Set Word} {earlier : List Instruction} {i : Instruction} {pre ps : List Piece}
  {set? : Option ExtendedSet}

/-- The result is put down from among the operands. -/
lemma exists_fillSlots_result (hpre : Result earlier op pre)
    (hkept : ∀ q ∈ pre, q.kind.isId → ∀ w ∈ q.words, w ∈ kept) (hs : s.symbols.Numeric kept)
    (hl : ∀ l ∈ lines, l.Proper) {front : List (List Char)} (hf : ∀ word ∈ front, IsOperand word)
    (ht : ts.map Token.chars = pre.flatMap (Piece.texts set?)
      ++ (front ++ lines.flatMap (Line.words .canonical))) :
    ∃ symbols us, symbols.Numeric kept ∧
      us.map Token.chars = front ++ lines.flatMap (Line.words .canonical) ∧
      fillSlots op none finish s #[] op.operands ts
        = fillSlots op none finish ⟨symbols, s.declared⟩ (wordsOf pre).toArray op.constantOperands
          us := by
  rw [op.operands_eq, Opcode.resultSlots]
  cases hpre with
  | absent hr =>
    rw [hr, Opcode.hasType_of_hasResult hr]
    exact ⟨s.symbols, ts, hs, ht, rfl⟩
  | @untyped r hr htype =>
    rw [List.flatMap_cons, texts_id rfl] at ht
    obtain ⟨a, us, rfl, ha, hu, hstart⟩ := exists_token hl (isOperand_id r).1 hf ht
    obtain ⟨symbols, hsymbols, hfill⟩ := fillSlots_id hs (hkept _ (.head _) rfl r (.head _))
      (p := .resultId :: op.constantOperands) (k := .resultId) rfl rfl rfl ha hstart
    rw [hr, htype]
    exact ⟨symbols, us, hsymbols, hu, hfill⟩
  | @typed t r htype =>
    rw [List.flatMap_cons, List.flatMap_cons, texts_id rfl, texts_id rfl] at ht
    have hf' : ∀ word ∈ (id r).toList :: front, IsOperand word :=
      List.forall_mem_cons.mpr ⟨(isOperand_id r).1, hf⟩
    obtain ⟨a, us, rfl, ha, hu, hstart⟩ := exists_token hl (isOperand_id t).1 hf' ht
    obtain ⟨symbols, hsymbols, hfill⟩ := fillSlots_id hs (hkept _ (.head _) rfl t (.head _))
      (p := .typeId :: .resultId :: op.constantOperands) (k := .typeId) rfl rfl rfl ha hstart
    obtain ⟨b, us, rfl, hb, hu, hstart⟩ := exists_token hl (isOperand_id r).1 hf hu
    obtain ⟨symbols', hsymbols', hfill'⟩ :=
      fillSlots_id (s := ⟨symbols, s.declared⟩) hsymbols
        (hkept _ (.tail _ (.head _)) rfl r (.head _))
        (p := .resultId :: op.constantOperands) (k := .resultId) rfl rfl rfl hb hstart
    rw [htype, Opcode.hasResult_of_hasType htype]
    exact ⟨symbols', us, hsymbols', hu, hfill.trans hfill'⟩

/-- The name of an import is put down, and its set is declared for the result. -/
lemma exists_fillSlots_import {w : Word} {ws : List Word} (hs : s.symbols.Numeric kept)
    (hstring : PackedString.IsString ws) (hlossless : Piece.Lossless ⟨.string, ws, none⟩)
    (hl : ∀ l ∈ lines, l.Proper)
    (ht : ts.map Token.chars = (string ws).toList :: lines.flatMap (Line.words .canonical)) :
    ∃ e, fillSlots .opExtInstImport none finish s #[w] [.string] ts = .ok e ∧
      Puts kept { s.declared with imports := s.declared.imports.insert w (setNamed? ws) } (w :: ws)
        (lines.flatMap (Line.words .canonical)) e := by
  obtain ⟨hz, chars, hbytes, hlen⟩ := hlossless.string rfl
  obtain ⟨⟨hoperand, hraw⟩, hread⟩ : _ ∧ readString .opExtInstImport _ = _ :=
    readString_string hstring hz hbytes hlen
  obtain ⟨token, us, rfl, hchars, hu, hstart⟩ :=
    exists_token hl hoperand (List.forall_mem_nil _) ht
  rw [fillSlots_token rfl (fun _ => rfl) hstart, readOperand_eq_readKind (hchars ▸ hraw) rfl rfl,
    readKind, hchars, hread]
  refine ⟨_, fillSlots_of_none rfl, by simp, hu, rfl, hs⟩

/-- What the assembler knows before an instruction is finished. -/
def noted (d : Declared) (i : Instruction) : Declared :=
  { d with
    imports := i.importedSet?.elim d.imports fun set => d.imports.insert i.resultId (some set) }

lemma noted_of_import {d : Declared} (h : Decodes earlier i ps)
    (himport : i.opcode = .opExtInstImport) {r : Word} {ws : List Word}
    (hps : wordsOf ps = r :: ws) (hsome : (setNamed? ws).isSome) :
    noted d i = { d with imports := d.imports.insert r (setNamed? ws) } := by
  obtain ⟨set, hset⟩ := Option.isSome_iff_exists.mp hsome
  obtain ⟨lead, hlead, -⟩ := h.words
  have hr : i.resultId = r := by
    rw [h.resultId, himport, hps]
    rfl
  have hi : i.importedSet? = some set := by
    rw [Instruction.importedSet?, if_pos himport, hlead, hps]
    exact hset
  rw [noted, hi, hr, hset]
  rfl

/-- The operands of a listed instruction are put down as its words. -/
lemma exists_fillSlots_operands (h : Decodes earlier i ps) (hdec : Decodable earlier)
    (hi : i.Faithful) (hs : Tracks kept earlier s)
    (hkept : ∀ q ∈ ps, q.kind.isId → ∀ w ∈ q.words, w ∈ kept) (hl : ∀ l ∈ lines, l.Proper)
    (ht : ts.map Token.chars = ps.flatMap (Piece.texts i.extendedSet?)
      ++ lines.flatMap (Line.words .canonical)) :
    ∃ e, fillSlots i.opcode none finish s #[] i.opcode.operands ts = .ok e ∧
      Puts kept (noted s.declared i) (wordsOf ps) (lines.flatMap (Line.words .canonical)) e := by
  obtain ⟨hlossless, hfinite⟩ := lossless_of_faithful h hi
  obtain ⟨pre, qs, hpre, rfl, hf⟩ := filling_operands_iff.mp h.filling
  have hqs : ∀ q ∈ qs, q ∈ pre ++ qs := fun q hq => List.mem_append_right _ hq
  have hset : ∀ set, Context.UsesSet ⟨earlier, i.opcode, wordsOf pre ++ wordsOf qs⟩ set →
      i.extendedSet? = some set := fun set => by
    rw [← wordsOf_append]
    exact (h.set set).mpr
  have hwords : ∀ word ∈ qs.flatMap (Piece.texts i.extendedSet?), IsOperand word :=
    fun word hword => by
      obtain ⟨q, hq, hword⟩ := List.mem_flatMap.mp hword
      exact isOperand_of_filling hf hdec hset (fun q hq => hlossless q (hqs q hq)) q hq word hword
  rw [List.flatMap_append, List.append_assoc] at ht
  obtain ⟨symbols, us, hsymbols, hu, hfill⟩ := exists_fillSlots_result hpre
    (fun q hq => hkept q (List.mem_append_left _ hq)) hs.numeric hl hwords ht
  rw [hfill, wordsOf_append]
  by_cases himport : i.opcode = .opExtInstImport
  · rw [himport] at hpre hf ⊢
    obtain ⟨ws, rfl, ho⟩ := Filling.string_iff.mp hf
    cases ho with
    | string hstring hsome =>
    cases hpre with
    | absent hr => exact absurd hr (by decide)
    | typed htype => exact absurd htype (by decide)
    | @untyped r =>
      rw [noted_of_import h himport (show wordsOf _ = r :: ws by simp) (hsome rfl)]
      rw [List.flatMap_cons, List.flatMap_nil, List.append_nil,
        Piece.texts_of_isFinite (fun _ ht => by simp at ht)] at hu
      obtain ⟨e, he, hputs⟩ := exists_fillSlots_import (s := ⟨symbols, s.declared⟩) hsymbols hstring
        (hlossless _ (by simp)) hl hu
      exact ⟨e, he, by simpa using hputs⟩
  · have hnone : noted s.declared i = s.declared := by
      simp [noted, Instruction.importedSet?, himport]
    have hinner : IsResultFree i.opcode.constantOperands := fun t ht =>
      resultId_notMem_kinds (Opcode.isInner_of_mem ht)
    rw [hnone]
    exact exists_fillSlots (s := ⟨symbols, s.declared⟩) hf hinner himport hdec hs.declares hset
      (fun q hq => hlossless q (hqs q hq)) (fun q hq => hfinite q (mem_dropLast_append hq))
      (fun q hq => hkept q (hqs q hq)) hsymbols hl hu

/-- The instruction is finished with the word that it starts with. -/
lemma finishInstruction_of_puts (h : Decodes earlier i ps) {d : Declared}
    {tail : List (List Char)} {e : Encoded} (hputs : Puts kept (noted d i) (wordsOf ps) tail e)
    (first : Token) : finishInstruction first i.opcode e = .ok (finished i.opcode e) ∧
      (finished i.opcode e).words = i.words ∧ (finished i.opcode e).state.declared = d.add i := by
  obtain ⟨lead, hlead, hcount, hop⟩ := h.words
  have hsize : e.words.size + 1 = i.words.size := by
    rw [hputs.words, ← i.words.length_toList, hlead]
    simp
  have hjoin : Word.joinLead (UInt16.ofNat (e.words.size + 1)) i.opcode.value = lead := by
    rw [hsize, ← hcount, UInt16.ofNat_toNat, ← hop, Word.joinLead_splitLead]
  refine ⟨finishInstruction_eq_ok.mpr ⟨?_, rfl⟩, ?_, ?_⟩
  · have := (Word.splitLead lead).1.toNat_lt
    rw [maxInstructionWords]
    omega
  · refine Array.ext' ?_
    rw [finished, hjoin, hputs.words, hlead]
    simp
  · rw [finished, hputs.declared, hputs.words, Declared.add, hlead]
    rfl

lemma numericId?_id (w : Word) : numericId? (id w).toList = some w := by
  have hchars : (id w).toList = '%' :: (toString w.toNat).toList := by simp [id]
  rw [hchars]
  exact SymbolTable.valueOfName?_toString w

/-- **A listed instruction is encoded to its words.** -/
theorem exists_encodeInstruction (h : Decodes earlier i ps) (hdec : Decodable earlier)
    (hi : i.Faithful) (hs : Tracks kept earlier s)
    (hkept : ∀ w, w ≠ 0 → ∀ word ∈ (line i).words .canonical, numericId? word = some w → w ∈ kept)
    (hl : ∀ l ∈ lines, l.Proper)
    (ht : ts.map Token.chars = (line i).words .canonical ++ lines.flatMap (Line.words .canonical)) :
    ∃ first rest e, ts = first :: rest ∧
      encodeInstruction .canonical finish s first rest = .ok e ∧ e.words = i.words ∧
      Tracks kept (earlier ++ [i]) e.state ∧
      e.rest.map Token.chars = lines.flatMap (Line.words .canonical) := by
  have hids : ∀ q ∈ ps, q.kind.isId → ∀ w ∈ q.words, w ∈ kept := fun q hq hid w hw => by
    obtain ⟨_, _, -, ho⟩ := h.filling.exists_operand q hq
    obtain ⟨v, hv, hne⟩ := ho.of_isId hid
    obtain rfl : w = v := by simpa [hv] using hw
    refine hkept w hne _ ?_ (numericId?_id w)
    rw [words_canonical_line h]
    refine List.mem_cons_of_mem _ (List.mem_flatMap.mpr ⟨q, hq, ?_⟩)
    rw [Piece.texts_of_isFinite (ho.isFinite_of_ne fun hk => by simp [hk, OperandKind.isId] at hid),
      text_of_isId hid, hv]
    exact List.mem_singleton_self _
  rw [words_canonical_line h, List.cons_append] at ht
  obtain ⟨first, rest, rfl, hname, hrest⟩ := List.map_eq_cons_iff.mp ht
  have hlike : first.isOpcodeLike = true := by
    rw [Token.isOpcodeLike, hname, i.opcode.startsWithOp_mnemonic]
  have hencode : encodeInstruction .canonical finish s first rest = _ :=
    encodeInstruction_of_opcode? (l := line i) (isRaw_of_isOpcodeLike hlike) (if_pos hlike) hname
      (by simp)
  obtain ⟨e, he, hputs⟩ := exists_fillSlots_operands h hdec hi hs hids hl hrest
  obtain ⟨hfinish, hwords, hdeclared⟩ := finishInstruction_of_puts h hputs first
  refine ⟨first, rest, _, rfl, ?_, hwords, ⟨?_, hputs.numeric⟩, hputs.rest⟩
  · rw [hencode, opcode?_line]
    dsimp only
    rw [he]
    exact hfinish
  · rw [hdeclared]
    exact hs.declares.add h

end

/-- Faithful instructions are listed as proper lines. -/
lemma proper_lines {earlier is : List Instruction} (his : Decodable (earlier ++ is))
    (hf : ∀ i ∈ is, i.Faithful) : ∀ l ∈ is.map line, l.Proper := by
  induction is generalizing earlier with
  | nil => simp
  | cons i is ih =>
    obtain ⟨hi, hf⟩ := List.forall_mem_cons.mp hf
    obtain ⟨⟨ps, h⟩, his'⟩ := Decodable.append_cons_iff.mp his
    exact List.forall_mem_cons.mpr ⟨proper_line h his.of_append hi, ih his' hf⟩

/-- **Listed instructions are encoded to their words, one after the other.** -/
theorem exists_encodeAll {finish : Position} {kept : Set Word} {earlier is : List Instruction}
    {s : State} {ts : List Token} (his : Decodable (earlier ++ is)) (hf : ∀ i ∈ is, i.Faithful)
    (hs : Tracks kept earlier s)
    (hkept : ∀ w, w ≠ 0 → ∀ word ∈ (is.map line).flatMap (Line.words .canonical),
      numericId? word = some w → w ∈ kept)
    (ht : ts.map Token.chars = (is.map line).flatMap (Line.words .canonical)) (body : Array Word) :
    ∃ s', encodeAll .canonical finish s body ts = .ok (s', body ++ (codeOf is).toArray) := by
  induction is generalizing earlier s ts body with
  | nil =>
    obtain rfl : ts = [] := by simpa using ht
    exact ⟨s, by simp [encodeAll]⟩
  | cons i is ih =>
    obtain ⟨hi, hf⟩ := List.forall_mem_cons.mp hf
    obtain ⟨⟨ps, h⟩, his'⟩ := Decodable.append_cons_iff.mp his
    rw [List.map_cons, List.flatMap_cons] at ht hkept
    obtain ⟨first, rest, e, rfl, he, hwords, htracks, hrest⟩ :=
      exists_encodeInstruction h his.of_append hi hs
        (fun w hne word hword => hkept w hne word (List.mem_append_left _ hword))
        (proper_lines his' hf) ht
    obtain ⟨s', hs'⟩ := ih his' hf htracks
      (fun w hne word hword => hkept w hne word (List.mem_append_right _ hword)) hrest
      (body ++ e.words)
    refine ⟨s', ?_⟩
    rw [encodeAll_cons, he]
    have happend : body ++ e.words ++ (codeOf is).toArray = body ++ (codeOf (i :: is)).toArray :=
      Array.ext' (by simp [hwords])
    exact happend ▸ hs'

end Listing

end Spirv
