import Mathlib
import Spirv.Proofs.Encoding.Imports

/-!
The names of extended instructions.

Such a name follows the id of the set that it is of, in an extended instruction and where a constant is
computed by one. It is looked up in the set that the third operand word imports. In an extended
instruction that word is the id. A constant has the number of an opcode there, so its name is looked up
in whatever set has been imported as an id of that number.
-/

namespace Spirv

/-! ### Slots that are looked up in a table of instructions -/

/-- Whether the operands of a slot are looked up in no table of instructions. -/
def Slot.isOrdinary (s : Slot) : Bool := s.kinds.all fun k => k ≠ .extended && k ≠ .specOpcode

lemma Slot.mem_kinds_of_kind? {s : Slot} {k : OperandKind} (h : s.kind? = some k) : k ∈ s.kinds := by
  cases s <;> simp_all [kind?, kinds]

lemma Slot.kind?_ne_of_isOrdinary {s : Slot} (h : s.isOrdinary) :
    s.kind? ≠ some .extended ∧ s.kind? ≠ some .specOpcode := by
  refine ⟨fun hk => ?_, fun hk => ?_⟩ <;>
    simpa using List.all_eq_true.mp h _ (mem_kinds_of_kind? hk)

lemma Opcode.isOrdinary_of_mem {op : Opcode} (hext : op ≠ .opExtInst)
    (hspec : op ≠ .opSpecConstantOp) {s : Slot} (h : s ∈ op.operands) : s.isOrdinary := by
  have hall : ∀ op ∈ all, op ≠ .opExtInst → op ≠ .opSpecConstantOp →
      ∀ s ∈ op.operands, s.isOrdinary = true := by decide +kernel
  exact hall op (mem_all op) hext hspec s h

/-- Only opcodes ask for what is looked up in a table of instructions. -/
lemma OperandKind.Asks.isOrdinary {k : OperandKind} {s : Slot} (h : k.Asks s)
    (hk : k ≠ .specOpcode) : s.isOrdinary := by
  cases h with
  | @value c row s mem slot =>
    have hall : ∀ row ∈ c.values, ∀ s ∈ row.operands, s.isOrdinary = true := by
      cases c <;> decide +kernel
    exact hall row mem s slot
  | @extended set row s mem slot =>
    have hall : ∀ row ∈ set.instructions, ∀ s ∈ row.operands, s.isOrdinary = true := by
      cases set <;> decide +kernel
    exact hall row mem s slot
  | specOpcode => exact absurd rfl hk

namespace Assembly

variable {d : Declared} {op : Opcode} {before : Array Word} {slot : Slot} {chars : List Char}
  {r : Reading} {p rest : Pattern} {result? : Option Token} {s s' : State} {done ws : List Word}
  {tokens : List Token} {fs us vs : List Filled} {f : Filled} {e : Encoded} {k : OperandKind}

lemma isOrdinary_of_raw {t : Slot} {w : Word} (ht : t ∈ (Reading.raw w).patternAfter slot rest) :
    t.isOrdinary := by
  rcases mem_patternAfter_raw ht with rfl | ⟨rfl, -⟩ <;> rfl

lemma isOrdinary_patternAfter (hread : readOperand d op before slot chars = .ok r)
    (hs : slot.kind? ≠ some .specOpcode) (hrest : ∀ t ∈ rest, t.isOrdinary) :
    ∀ t ∈ r.patternAfter slot rest, t.isOrdinary := by
  intro t ht
  rcases mem_patternAfter ht with rfl | ht | ht
  · rfl
  · obtain ⟨k, hk, hasks⟩ := exists_asks_of_readOperand hread ht
    exact hasks.isOrdinary fun hspec => hs (hspec ▸ hk)
  · exact hrest t ht

lemma isOrdinary_of_take? (h : ∀ t ∈ p, t.isOrdinary) (ht : p.take? = some (slot, rest)) :
    slot.isOrdinary ∧ ∀ t ∈ rest, t.isOrdinary := by
  refine List.forall_mem_cons.mp fun t hmem => List.all_eq_true.mpr fun k hk => ?_
  obtain ⟨u, hu, hku⟩ := (exists_mem_of_take? ht hmem).2 k hk
  exact List.all_eq_true.mp (h u hu) k hku

/-- Where no slot is looked up in a table of instructions, no operand is. -/
lemma Fills.isOrdinary (h : Fills op result? s done p tokens fs e) (hp : ∀ t ∈ p, t.isOrdinary) :
    ∀ f ∈ fs, f.slot.isOrdinary := by
  induction h with
  | full | stop => exact List.forall_mem_nil _
  | result take _ _ _ _ ih =>
    obtain ⟨hslot, hrest⟩ := isOrdinary_of_take? hp take
    exact List.forall_mem_cons.mpr ⟨hslot, ih hrest⟩
  | operand take _ _ read _ _ ih =>
    obtain ⟨hslot, hrest⟩ := isOrdinary_of_take? hp take
    exact List.forall_mem_cons.mpr ⟨hslot,
      ih (isOrdinary_patternAfter read (Slot.kind?_ne_of_isOrdinary hslot).2 hrest)⟩

/-! ### An id before each name -/

/-- Each slot for the name of an extended instruction comes right after one for an id. `last` is the
slot before the pattern. -/
def Led (last : Option Slot) : Pattern → Prop
  | [] => True
  | t :: p => (.extended ∈ t.kinds → t = .extended ∧ last = some .id) ∧ Led (some t) p

instance decidableLed : ∀ (last : Option Slot) (p : Pattern), Decidable (Led last p)
  | _, [] => isTrue trivial
  | last, t :: p =>
    have := decidableLed (some t) p
    inferInstanceAs (Decidable ((.extended ∈ t.kinds → t = .extended ∧ last = some .id) ∧
      Led (some t) p))

namespace Led

variable {last last' : Option Slot} {q : Pattern} {t : Slot}

lemma of_none (h : Led none p) : Led last p := by
  cases p with
  | nil => trivial
  | cons t p => exact ⟨fun hk => by simpa using (h.1 hk).2, h.2⟩

lemma none_of_ne (h : Led (some t) p) (ht : t ≠ .id) : Led none p := by
  cases p with
  | nil => trivial
  | cons u p => exact ⟨fun hk => absurd (Option.some.inj (h.1 hk).2) ht, h.2⟩

lemma append (hp : Led last p) (hq : Led none q) : Led last (p ++ q) := by
  induction p generalizing last with
  | nil => exact hq.of_none
  | cons t p ih => exact ⟨hp.1, ih hp.2⟩

lemma of_isOrdinary (h : ∀ t ∈ p, t.isOrdinary) : Led none p := by
  induction p with
  | nil => trivial
  | cons t p ih =>
    obtain ⟨ht, hp⟩ := List.forall_mem_cons.mp h
    exact ⟨fun hk => absurd (List.all_eq_true.mp ht _ hk) (by simp), (ih hp).of_none⟩

lemma take? (h : Led last p) (ht : p.take? = some (slot, rest)) :
    (slot.kind? = some .extended → last = some .id) ∧ Led (some slot) rest := by
  rcases p with _ | ⟨t, p⟩
  · simp [Pattern.take?] at ht
  obtain ⟨hled, hp⟩ := h
  -- what repeats or may be absent is for no name, so it may be unrolled
  have hnot : t ≠ .extended → .extended ∉ t.kinds := fun hne hk => hne (hled hk).1
  cases t with
  | many k =>
    obtain ⟨rfl, rfl⟩ := by simpa [Pattern.take?] using ht
    have hk : k ≠ .extended := by simpa [Slot.kinds, eq_comm] using hnot (by simp)
    simpa [Led, Slot.kinds, Slot.kind?, hk, hk.symm] using hp
  | pairs k l =>
    obtain ⟨rfl, rfl⟩ := by simpa [Pattern.take?] using ht
    have hk : .extended ∉ [k, l] := hnot (by simp)
    simp only [List.mem_cons, List.not_mem_nil, or_false, not_or] at hk
    simpa [Led, Slot.kinds, Slot.kind?, hk.1, hk.2, Ne.symm hk.1] using hp
  | _ =>
    obtain ⟨rfl, rfl⟩ := by simpa [Pattern.take?] using ht
    exact ⟨fun hk => (hled (Slot.mem_kinds_of_kind? hk)).2, hp⟩

lemma operands (op : Opcode) : Led none op.operands ∧ Led none op.constantOperands := by
  have hall : ∀ op ∈ Opcode.all, Led none op.operands ∧ Led none op.constantOperands := by
    decide +kernel
  exact hall op op.mem_all

lemma needs (hread : readOperand d op before slot chars = .ok r) : Led none r.needs := by
  by_cases hspec : slot.kind? = some .specOpcode
  · rcases hraw : isRaw chars with _ | _
    · have hkind := readKind_of_readOperand hraw hspec hread
      obtain ⟨named, -, rfl⟩ := exists_op_of_readSpecOpcode hkind
      exact (operands named).2
    · obtain ⟨w, rfl⟩ := exists_raw_of_readOperand hraw hread
      trivial
  · refine of_isOrdinary fun t ht => ?_
    obtain ⟨k, hk, hasks⟩ := exists_asks_of_readOperand hread ht
    exact hasks.isOrdinary fun he => hspec (he ▸ hk)

/-- The slots after an operand are led if those before it were. -/
lemma patternAfter (hread : readOperand d op before slot chars = .ok r)
    (h : Led (some slot) rest) : Led (some slot) (r.patternAfter slot rest) := by
  have hraw : ∀ w, r = .raw w → Led (some slot) (r.patternAfter slot rest) := fun w hr =>
    (of_isOrdinary fun t ht => isOrdinary_of_raw (hr ▸ ht)).of_none
  by_cases hid : slot = .id
  · subst hid
    rcases name_or_raw_of_isId (k := .id) rfl rfl hread with ⟨name, rfl⟩ | ⟨w, hr⟩
    · exact h
    · exact hraw w hr
  -- no name comes next, so what is put in front does not matter
  have hrest := h.none_of_ne hid
  have hnext : ∀ next : Pattern, Led none next →
      Led (some slot) (if slot = .free && next.isEmpty then [.free] else next) := by
    intro next hn
    split
    · simp [Led, Slot.kinds]
    · exact hn.of_none
  cases r with
  | raw w => exact hraw w rfl
  | value ws slots => exact hnext (slots ++ rest) ((needs hread).append hrest)
  | id | importing => exact hnext rest hrest

end Led

lemma last_slot_cons (g : Filled) (us : List Filled) (last : Option Slot) :
    ((g :: us).getLast?.map (·.slot)).or last = (us.getLast?.map (·.slot)).or (some g.slot) := by
  rw [List.getLast?_cons]
  cases us.getLast? <;> rfl

/-- The name of an extended instruction comes right after an id. -/
lemma Fills.led {last : Option Slot} (h : Fills op result? s done p tokens fs e) (hp : Led last p)
    (hfs : fs = us ++ f :: vs) (hf : f.slot.kind? = some .extended) :
    (us.getLast?.map (·.slot)).or last = some .id := by
  induction h generalizing us last with
  | full | stop => simp at hfs
  | result take _ _ _ _ ih =>
    obtain ⟨hslot, hrest⟩ := hp.take? take
    rcases us with _ | ⟨g, us⟩
    · obtain ⟨rfl, -⟩ := List.cons.inj hfs
      simp [Slot.kind?] at hf
    · obtain ⟨rfl, htail⟩ := List.cons.inj hfs
      exact (last_slot_cons _ _ _).trans (ih hrest htail)
  | operand take _ _ read _ _ ih =>
    obtain ⟨hslot, hrest⟩ := hp.take? take
    rcases us with _ | ⟨g, us⟩
    · obtain ⟨rfl, -⟩ := List.cons.inj hfs
      simpa using hslot hf
    · obtain ⟨rfl, htail⟩ := List.cons.inj hfs
      exact (last_slot_cons _ _ _).trans (ih (hrest.patternAfter read) htail)

/-! ### The set of a name -/

/-- A name is looked up in the set that the third word of its instruction is declared for. -/
lemma Fills.looked (h : Fills op result? s done p tokens fs e) (hop : op ≠ .opExtInstImport)
    (hfs : fs = us ++ f :: vs) (hf : f.slot.kind? = some .extended)
    (hraw : isRaw f.token.chars = false) : ∃ set row,
      s.declared.extendedSet? (done ++ Filled.wordsOf us).toArray = some set ∧
        set.ofName? (String.ofList f.token.chars) = some row ∧ f.words = [row.value] := by
  induction h generalizing us with
  | full | stop => simp at hfs
  | result take _ read accept _ ih =>
    rcases us with _ | ⟨g, us⟩
    · obtain ⟨rfl, -⟩ := List.cons.inj hfs
      simp [Slot.kind?] at hf
    · obtain ⟨rfl, htail⟩ := List.cons.inj hfs
      obtain ⟨name, -, rfl⟩ := exists_name_of_readId read
      simpa [declared_of_accept (by simp) accept] using ih htail
  | operand take _ _ read accept _ ih =>
    rcases us with _ | ⟨g, us⟩
    · obtain ⟨rfl, -⟩ := List.cons.inj hfs
      obtain ⟨set, row, hset, hrow, rfl⟩ :=
        exists_row_of_readExtended (readKind_of_readOperand hraw hf read)
      obtain ⟨-, rfl⟩ := accept_value_iff.mp accept
      exact ⟨set, row, by simpa using hset, hrow, rfl⟩
    · obtain ⟨rfl, htail⟩ := List.cons.inj hfs
      simpa [declared_of_accept (ne_importing_of_readOperand (absurd · hop) read) accept] using ih htail

/-- An id before a name takes one word and is followed by what the pattern says. -/
lemma Fills.exists_id (h : Fills op result? s done (.one k :: p) tokens (us ++ f :: vs) e)
    (hk : k.isId) (hf : f.slot.kind? = some .extended) :
    ∃ g us' w s' tokens', us = g :: us' ∧ g.words = [w] ∧
      Fills op result? s' (done ++ [w]) p tokens' (us' ++ f :: vs) e := by
  obtain ⟨g, gs, s', tokens', hfs, hslot, -, hread, haccept, more⟩ := h.exists_of_one
  rcases us with _ | ⟨_, us⟩
  · obtain ⟨rfl, -⟩ := List.cons.inj hfs
    obtain rfl : k = .extended := by simpa [hslot, Slot.kind?] using hf
    simp [OperandKind.isId] at hk
  obtain ⟨rfl, rfl⟩ := List.cons.inj hfs
  rcases name_or_raw_of_isId rfl hk hread with ⟨name, hname⟩ | ⟨w, hw⟩
  · obtain ⟨w, t, -, -, hwords⟩ := accept_id_iff.mp (hname ▸ haccept)
    exact ⟨_, us, w, s', tokens', rfl, hwords, by
      simpa [hname, hwords, Reading.patternAfter] using more⟩
  · exact absurd hf (Slot.kind?_ne_of_isOrdinary
      (more.isOrdinary (fun t ht => isOrdinary_of_raw (hw ▸ ht)) f (by simp))).1

/-- In an extended instruction the word before the name is the third. -/
lemma Fills.third_extInst
    (h : Fills .opExtInst result? s [] [.typeId, .resultId, .id, .extended, .many .id] tokens
      (us ++ f :: vs) e) (hf : f.slot.kind? = some .extended) :
    ∃ g w, us.getLast? = some g ∧ g.words = [w] ∧ (Filled.wordsOf us)[2]? = some w := by
  obtain ⟨type, us, _, _, _, rfl, htype, more⟩ := h.exists_id rfl hf
  obtain ⟨result, us, _, _, _, rfl, hresult, more⟩ := more.exists_id rfl hf
  obtain ⟨id, us, w, _, _, rfl, hid, more⟩ := more.exists_id rfl hf
  obtain ⟨g, gs, _, _, hgs, -, -, hread, -, more⟩ := more.exists_of_one
  rcases us with _ | ⟨_, us⟩
  · exact ⟨id, w, rfl, hid, by simp [htype, hresult, hid]⟩
  -- what comes after a name is ordinary
  · obtain ⟨-, rfl⟩ := List.cons.inj hgs
    have hordinary := more.isOrdinary
      (isOrdinary_patternAfter hread (by simp [Slot.kind?]) (by decide)) f (by simp)
    exact absurd hf (Slot.kind?_ne_of_isOrdinary hordinary).1

/-- Where a constant is computed, the third word is the number of an opcode. -/
lemma Fills.third_specConstantOp
    (h : Fills .opSpecConstantOp result? s [] [.typeId, .resultId, .specOpcode] tokens
      (us ++ f :: vs) e) (hf : f.slot.kind? = some .extended) :
    ∃ g op, us[2]? = some g ∧ g.slot = .specOpcode ∧
      Opcode.ofName? (String.ofList g.token.chars) = some op ∧
        (Filled.wordsOf us)[2]? = some op.value.toUInt32 := by
  obtain ⟨type, us, _, _, _, rfl, htype, more⟩ := h.exists_id rfl hf
  obtain ⟨result, us, _, _, _, rfl, hresult, more⟩ := more.exists_id rfl hf
  obtain ⟨g, gs, _, _, hgs, hslot, -, hread, haccept, more⟩ := more.exists_of_one
  rcases us with _ | ⟨c, us⟩
  · obtain ⟨rfl, -⟩ := List.cons.inj hgs
    simp [hslot, Slot.kind?] at hf
  obtain ⟨rfl, rfl⟩ := List.cons.inj hgs
  rcases hraw : isRaw c.token.chars with _ | _
  · have hkind := readKind_of_readOperand (k := .specOpcode) hraw rfl hread
    obtain ⟨op, hop, hreading⟩ := exists_op_of_readSpecOpcode hkind
    obtain ⟨-, hwords⟩ := accept_value_iff.mp (hreading ▸ haccept)
    exact ⟨c, op, rfl, hslot, hop, by simp [htype, hresult, hwords]⟩
  -- after a raw word no name is looked up
  · obtain ⟨w, hw⟩ := exists_raw_of_readOperand hraw hread
    exact absurd hf (Slot.kind?_ne_of_isOrdinary
      (more.isOrdinary (fun t ht => isOrdinary_of_raw (hw ▸ ht)) f (by simp))).1

/-- The operand is written as the number of its name in the set. -/
def Filled.NumberedIn (f : Filled) (set : ExtendedSet) : Prop :=
  ∃ row, set.ofName? (String.ofList f.token.chars) = some row ∧ f.words = [row.value]

/-- Which word stands for the set of a name that comes after the operands. -/
def IsSetWord (op : Opcode) (us : List Filled) (id : Word) : Prop :=
  op = .opExtInst ∧ (∃ g ∈ us.getLast?, g.words = [id]) ∨
    op = .opSpecConstantOp ∧ ∃ g ∈ us[2]?, g.slot = .specOpcode ∧
      ∃ named, Opcode.ofName? (String.ofList g.token.chars) = some named ∧ id = named.value.toUInt32

lemma Fills.numbered (h : Fills op result? s [] op.operands tokens (us ++ f :: vs) e)
    (hf : f.slot.kind? = some .extended) (hraw : isRaw f.token.chars = false) :
    us.getLast?.map (·.slot) = some .id ∧ ∃ id set, IsSetWord op us id ∧
      s.declared.imports[id]? = some (some set) ∧ f.NumberedIn set := by
  refine ⟨by simpa using h.led (Led.operands op).1 rfl hf, ?_⟩
  have hlooked : ∀ {id : Word}, op ≠ .opExtInstImport → (Filled.wordsOf us)[2]? = some id →
      ∃ set, s.declared.imports[id]? = some (some set) ∧ f.NumberedIn set := by
    intro id hop hid
    obtain ⟨set, row, hset, hrow⟩ := h.looked hop rfl hf hraw
    refine ⟨set, ?_, row, hrow⟩
    simpa [Declared.extendedSet?, hid, Option.bind_eq_some_iff] using hset
  by_cases hext : op = .opExtInst
  · subst hext
    obtain ⟨g, id, hg, hwords, hid⟩ := h.third_extInst hf
    obtain ⟨set, hset⟩ := hlooked (by simp) hid
    exact ⟨id, set, .inl ⟨rfl, g, hg, hwords⟩, hset⟩
  by_cases hspec : op = .opSpecConstantOp
  · subst hspec
    obtain ⟨g, named, hg, hslot, hnamed, hid⟩ := h.third_specConstantOp hf
    obtain ⟨set, hset⟩ := hlooked (by simp) hid
    exact ⟨_, set, .inr ⟨rfl, g, hg, hslot, named, hnamed, rfl⟩, hset⟩
  · have hordinary := h.isOrdinary (fun t => Opcode.isOrdinary_of_mem hext hspec) f (by simp)
    exact absurd hf (Slot.kind?_ne_of_isOrdinary hordinary).1

variable {form : Form} {parts : List Part}

lemma Encodes.numbered {st : Statement} (h : Encodes form s tokens st e) (hs : Imported s parts)
    (hst : st.operands = us ++ f :: vs) (hf : f.slot.kind? = some .extended)
    (hraw : isRaw f.token.chars = false) : us.getLast?.map (·.slot) = some .id ∧
      ∃ id set, IsSetWord st.opcode us id ∧ importOf? parts id = some (some set) ∧
        f.NumberedIn set := by
  simp only [← hs _]
  cases h with
  | plain _ _ _ fills =>
    subst hst
    exact fills.numbered hf hraw
  | assigned _ _ _ _ _ _ fills =>
    subst hst
    exact fills.numbered hf hraw

/-- **The name of an extended instruction is looked up in the set that the third word of its
instruction stands for.** The name comes right after an id. In an extended instruction the id is the
third word. Where a constant is computed by one, the third word is the number of the opcode that the
constant is computed by, whatever the id. What is looked up is the set that has been imported last as
an id of that number. -/
theorem assemble_extended {o : AssemblyOptions} {text : String} {a : Assembly}
    (h : assemble o text = .ok a) : (∃ ps, Consists o text ps) ∧ ∀ ps, Consists o text ps →
      a.words.drop Header.wordCount = ps.flatMap Part.words ∧
      ∀ (before : List Part) (st : Statement) (after : List Part) (us : List Filled) (f : Filled)
        (vs : List Filled), ps = before ++ .statement st :: after →
        st.operands = us ++ f :: vs → f.slot.kind? = some .extended →
        isRaw f.token.chars = false → us.getLast?.map (·.slot) = some .id ∧
          ∃ id set, IsSetWord st.opcode us id ∧ importOf? before id = some (some set) ∧
            f.NumberedIn set := by
  obtain ⟨hex, hall⟩ := exists_consists h
  refine ⟨hex, fun ps ⟨s', hps⟩ => ⟨(hall hps).1, ?_⟩⟩
  intro before st after us f vs hsplit hst hf hraw
  obtain ⟨s₁, tokens₁, e, hpart, hs₁⟩ :=
    (hsplit ▸ hps).exists_encodesPart (imported_empty _)
  cases hpart with
  | statement encodes => exact encodes.numbered hs₁ hst hf hraw

/-! ### A name of another set than the one before it -/

namespace Sample

def setsText : String := "%12 = OpExtInstImport \"OpenCL.std\" %3 = OpExtInstImport \"GLSL.std.450\" " ++
  "%4 = OpSpecConstantOp %1 ExtInst %3 acos %1"

def importsOpenCl : Statement where
  front := [⟨"%12".toList, ⟨0, 0, 0⟩⟩, ⟨"=".toList, ⟨0, 4, 4⟩⟩]
  name := ⟨"OpExtInstImport".toList, ⟨0, 6, 6⟩⟩
  opcode := .opExtInstImport
  operands := [⟨.resultId, ⟨"%12".toList, ⟨0, 0, 0⟩⟩, .id "12", [12]⟩,
    ⟨.string, ⟨"\"OpenCL.std\"".toList, ⟨0, 22, 22⟩⟩,
      .importing (some .openCl) [1852141647, 1932414019, 25716], [1852141647, 1932414019, 25716]⟩]

def importsGlsl : Statement where
  front := [⟨"%3".toList, ⟨0, 35, 35⟩⟩, ⟨"=".toList, ⟨0, 38, 38⟩⟩]
  name := ⟨"OpExtInstImport".toList, ⟨0, 40, 40⟩⟩
  opcode := .opExtInstImport
  operands := [⟨.resultId, ⟨"%3".toList, ⟨0, 35, 35⟩⟩, .id "3", [3]⟩,
    ⟨.string, ⟨"\"GLSL.std.450\"".toList, ⟨0, 56, 56⟩⟩,
      .importing (some .glsl) [1280527431, 1685353262, 808793134, 0],
      [1280527431, 1685353262, 808793134, 0]⟩]

def acos : Filled := ⟨.extended, ⟨"acos".toList, ⟨0, 107, 107⟩⟩, .value [0] [.id], [0]⟩

def computesConstant : Statement where
  front := [⟨"%4".toList, ⟨0, 71, 71⟩⟩, ⟨"=".toList, ⟨0, 74, 74⟩⟩]
  name := ⟨"OpSpecConstantOp".toList, ⟨0, 76, 76⟩⟩
  opcode := .opSpecConstantOp
  operands := [⟨.typeId, ⟨"%1".toList, ⟨0, 93, 93⟩⟩, .id "1", [1]⟩,
    ⟨.resultId, ⟨"%4".toList, ⟨0, 71, 71⟩⟩, .id "4", [4]⟩,
    ⟨.specOpcode, ⟨"ExtInst".toList, ⟨0, 96, 96⟩⟩, .value [12] [.id, .extended, .many .id], [12]⟩,
    ⟨.id, ⟨"%3".toList, ⟨0, 104, 104⟩⟩, .id "3", [3]⟩, acos,
    ⟨.id, ⟨"%1".toList, ⟨0, 112, 112⟩⟩, .id "1", [1]⟩]

lemma tokens_setsText : (TokenText.ofText setsText).tokens
    = importsOpenCl.tokens ++ (importsGlsl.tokens ++ computesConstant.tokens) := by cbv

/-- The symbols that the text starts with, its numbers being preserved. -/
def setsSymbols : SymbolTable := startSymbols ⟨.assignment, 0, true⟩ (TokenText.ofText setsText).tokens

lemma assign_setsSymbols : ∃ t₁ t₂ t₃ t₄, setsSymbols.assign "12" = .ok (12, t₁) ∧
    t₁.assign "3" = .ok (3, t₂) ∧ t₂.assign "1" = .ok (1, t₃) ∧ t₃.assign "4" = .ok (4, t₄) ∧
      t₄.assign "3" = .ok (3, t₄) ∧ t₄.assign "1" = .ok (1, t₄) := by
  have hids : setsSymbols.ids = ∅ := ids_startSymbols _ _
  have hnames : setsSymbols.names = ∅ := congrArg SymbolTable.names (startSymbols_eq _ _)
  have hpreserved : ∀ (token : Token) {id : Word}, token ∈ importsOpenCl.tokens ++
      (importsGlsl.tokens ++ computesConstant.tokens) → numericId? token.chars = some id →
      id ≠ 0 → id ∈ setsSymbols.preserved := by
    intro token id htoken hid hne
    rw [← tokens_setsText] at htoken
    exact mem_preserveAll.mpr (.inr ⟨hne, token, htoken, hid⟩)
  have h12 : 12 ∈ setsSymbols.preserved :=
    hpreserved ⟨"%12".toList, ⟨0, 0, 0⟩⟩ (.head _) (by cbv) (by decide)
  have h3 : 3 ∈ setsSymbols.preserved :=
    hpreserved ⟨"%3".toList, ⟨0, 35, 35⟩⟩
      (List.mem_append_right _ (.head _)) (by cbv) (by decide)
  have h4 : 4 ∈ setsSymbols.preserved :=
    hpreserved ⟨"%4".toList, ⟨0, 71, 71⟩⟩
      (List.mem_append_right _ (List.mem_append_right _ (.head _))) (by cbv) (by decide)
  have h1 : 1 ∈ setsSymbols.preserved :=
    hpreserved ⟨"%1".toList, ⟨0, 93, 93⟩⟩ (List.mem_append_right _
      (List.mem_append_right _ (.tail _ (.tail _ (.tail _ (.head _)))))) (by cbv) (by decide)
  refine ⟨_, _, _, _,
    SymbolTable.assign_of_preserved (by decide) ?_ (by cbv) h12 ?_,
    SymbolTable.assign_of_preserved (by decide) ?_ (by cbv) h3 ?_,
    SymbolTable.assign_of_preserved (by decide) ?_ (by cbv) h1 ?_,
    SymbolTable.assign_of_preserved (by decide) ?_ (by cbv) h4 ?_,
    SymbolTable.assign_of_id? (by decide) ?_, SymbolTable.assign_of_id? (by decide) ?_⟩
  all_goals simp [SymbolTable.id?, SymbolTable.name?, SymbolTable.bind, hids, hnames,
    Std.HashMap.getElem_insert]

section

variable {t t' : SymbolTable} {rest : List Token}

lemma encodes_importsOpenCl (h : t.assign "12" = .ok (12, t')) (d : Declared) :
    Encodes .assignment ⟨t, d⟩ (importsOpenCl.tokens ++ rest) importsOpenCl
      (finished .opExtInstImport ⟨⟨t', { d with imports := d.imports.insert 12 (some .openCl) }⟩,
        ([12, 1852141647, 1932414019, 25716] : List Word).toArray, rest⟩) := by
  refine .assigned rfl (by decide) rfl rfl (by decide) (by decide +kernel) ?_
    (by simp [maxInstructionWords])
  refine .result rfl rfl rfl (accept_id_iff.mpr ⟨12, t', h, rfl, rfl⟩) ?_
  exact .operand rfl (by simp) (by cbv) (by cbv) rfl (.full rfl)

lemma encodes_importsGlsl (h : t.assign "3" = .ok (3, t')) (d : Declared) :
    Encodes .assignment ⟨t, d⟩ (importsGlsl.tokens ++ rest) importsGlsl
      (finished .opExtInstImport ⟨⟨t', { d with imports := d.imports.insert 3 (some .glsl) }⟩,
        ([3, 1280527431, 1685353262, 808793134, 0] : List Word).toArray, rest⟩) := by
  refine .assigned rfl (by decide) rfl rfl (by decide) (by decide +kernel) ?_
    (by simp [maxInstructionWords])
  refine .result rfl rfl rfl (accept_id_iff.mpr ⟨3, t', h, rfl, rfl⟩) ?_
  exact .operand rfl (by simp) (by cbv) (by cbv) rfl (.full rfl)

lemma encodes_computesConstant {t'' : SymbolTable} (h1 : t.assign "1" = .ok (1, t'))
    (h4 : t'.assign "4" = .ok (4, t'')) (h3 : t''.assign "3" = .ok (3, t''))
    (h1' : t''.assign "1" = .ok (1, t'')) {d : Declared}
    (hd : d.imports[(12 : Word)]? = some (some .openCl)) :
    Encodes .assignment ⟨t, d⟩ computesConstant.tokens computesConstant
      (finished .opSpecConstantOp ⟨⟨t'', d⟩, ([1, 4, 12, 3, 0, 1] : List Word).toArray, []⟩) := by
  have hacos : readOperand d .opSpecConstantOp #[1, 4, 12, 3] .extended "acos".toList
      = .ok (.value [0] [.id]) := by
    have hset : d.extendedSet? #[1, 4, 12, 3] = some .openCl := by
      simp [Declared.extendedSet?, hd]
    rw [readOperand]
    simp only [readKind, hset]
    cbv
  refine .assigned rfl (by decide) rfl rfl (by decide) (by decide +kernel) ?_
    (by simp [maxInstructionWords])
  refine .operand rfl (by simp) (by cbv) (by cbv) (accept_id_iff.mpr ⟨1, t', h1, rfl, rfl⟩) ?_
  refine .result rfl rfl rfl (accept_id_iff.mpr ⟨4, t'', h4, rfl, rfl⟩) ?_
  refine .operand rfl (by simp) (by cbv) (by cbv) rfl ?_
  refine .operand rfl (by simp) (by cbv) (by cbv) (accept_id_iff.mpr ⟨3, t'', h3, rfl, rfl⟩) ?_
  refine .operand rfl (by simp) (by cbv) hacos rfl ?_
  refine .operand rfl (by simp) (by cbv) (by cbv) (accept_id_iff.mpr ⟨1, t'', h1', rfl, rfl⟩) ?_
  exact .stop rfl rfl (by simp)

end

lemma says_setsText : Says ⟨.assignment, 0, true⟩ setsText
    [importsOpenCl, importsGlsl, computesConstant] := by
  obtain ⟨t₁, t₂, t₃, t₄, h12, h3, h1, h4, h3', h1'⟩ := assign_setsSymbols
  rw [Says, ← setsSymbols, tokens_setsText]
  refine ⟨_, .cons (encodes_importsOpenCl h12 .empty) (.cons (encodes_importsGlsl h3 _)
    (.cons (encodes_computesConstant h1 h4 h3' h1' ?_) .nil))⟩
  simp [Declared.learn, Std.HashMap.getElem_insert]

lemma importOf?_imports : importOf? [.statement importsOpenCl, .statement importsGlsl] 12
    = some (some .openCl) ∧
      importOf? [.statement importsOpenCl, .statement importsGlsl] 3 = some (some .glsl) := by
  have hopenCl : importsOpenCl.imported? = some (12, some .openCl) := by cbv
  have hglsl : importsGlsl.imported? = some (3, some .glsl) := by cbv
  simp only [importOf?, List.reverse_cons, List.reverse_nil, List.nil_append, List.cons_append,
    List.filterMap_cons, List.filterMap_nil, Part.imported?, hopenCl, hglsl]
  exact ⟨rfl, rfl⟩

end Sample

/-- A name is looked up in the set that is imported as `%12`, twelve being the number of the opcode. -/
theorem assemble_extended_sample : ∃ (a : Assembly) (before : List Part) (us vs : List Filled),
    assemble ⟨.assignment, 0, true⟩ Sample.setsText = .ok a ∧
      Consists ⟨.assignment, 0, true⟩ Sample.setsText (before ++ [.statement Sample.computesConstant]) ∧
      Sample.computesConstant.operands = us ++ Sample.acos :: vs ∧
      IsSetWord .opSpecConstantOp us 12 ∧ importOf? before 12 = some (some .openCl) ∧
      Sample.acos.NumberedIn .openCl := by
  obtain ⟨s', hs⟩ := Sample.says_setsText
  have ha := assemble_of_encodesAll hs
  have hps := Says.consists ⟨s', hs⟩
  obtain ⟨-, id, set, hword, himport, hnumbered⟩ := ((assemble_extended ha).2 _ hps).2
    [.statement Sample.importsOpenCl, .statement Sample.importsGlsl] Sample.computesConstant []
    (Sample.computesConstant.operands.take 4) Sample.acos (Sample.computesConstant.operands.drop 5)
    rfl rfl rfl rfl
  obtain rfl : id = 12 := by
    rcases hword with ⟨hop, -⟩ | ⟨-, g, hg, -, named, hnamed, rfl⟩
    · exact absurd hop (by decide)
    · obtain rfl := Option.some.inj hg
      have hextInst : Opcode.ofName? (String.ofList "ExtInst".toList) = some .opExtInst := by
        decide +kernel
      obtain rfl := Option.some.inj (hextInst.symm.trans hnamed)
      rfl
  obtain rfl : set = .openCl := by
    simpa using himport.symm.trans Sample.importOf?_imports.1
  exact ⟨_, _, _, _, ha, hps, rfl, hword, himport, hnumbered⟩

/-- **A name may be found in another set than the one whose id is before it.** -/
theorem exists_name_of_other_set : ∃ (a : Assembly) (before : List Part) (us : List Filled)
    (g : Filled) (vs : List Filled), assemble ⟨.assignment, 0, true⟩ Sample.setsText = .ok a ∧
      Consists ⟨.assignment, 0, true⟩ Sample.setsText (before ++ [.statement Sample.computesConstant]) ∧
      Sample.computesConstant.operands = us ++ g :: Sample.acos :: vs ∧ g.words = [3] ∧
      importOf? before 3 = some (some .glsl) ∧ ¬ Sample.acos.NumberedIn .glsl := by
  obtain ⟨s', hs⟩ := Sample.says_setsText
  refine ⟨_, _, Sample.computesConstant.operands.take 3, _, _, assemble_of_encodesAll hs,
    Says.consists ⟨s', hs⟩, rfl, rfl, Sample.importOf?_imports.2, ?_⟩
  rintro ⟨row, hrow, -⟩
  have hnone : ExtendedSet.glsl.ofName? "acos" = none := by decide +kernel
  exact absurd (hnone.symm.trans hrow) (by simp)

end Assembly

end Spirv
