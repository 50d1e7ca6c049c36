import Mathlib
import Spirv.Program.Equality
import Spirv.Proofs.Program.Reading
import Spirv.Proofs.Decoding.Quiet

/-!
Structural equality is the greatest relation under which equal ids are the same or are defined alike.

`IsStructural` says when a relation on ids justifies itself: ids that it relates are the same or have
definitions of one form whose ids it relates in turn. The comparison assumes what it is comparing
already; the pairs that it ends up assuming make such a relation, so it finds nothing equal that is
not. Conversely it never leaves a relation that justifies itself, so it finds nothing different that
is equal. As it looks into no pair of defined ids twice, it never runs out of fuel.
-/

namespace Spirv

lemma Opcode.isQuiet_operands {op : Opcode} (h : op.isTypeDeclaration ∨ op.isConstant) :
    ∀ s ∈ op.operands, s.isQuiet := by
  have hall : ∀ op ∈ all, op.isTypeDeclaration = true ∨ op.isConstant = true →
      ∀ s ∈ op.operands, s.isQuiet = true := by decide +kernel
  exact hall op (mem_all op) h

namespace Program

/-! ### Definitions of one form -/

/-- The instructions declare types or constants of one form: of one opcode and size, with related
result types, with related ids at the same places, and with the same words everywhere else. -/
structure Alike (R : Word → Word → Prop) (x y : Instruction) : Prop where
  opcode : x.opcode = y.opcode
  declares : x.opcode.isTypeDeclaration ∨ x.opcode.isConstant
  words : x.words.size = y.words.size
  operands : x.operands.size = y.operands.size
  type : x.typeId ≠ 0 → R x.typeId y.typeId
  ids : ∀ (k : ℕ) r, x.operands[k]? = some r → r.slot.isId → r.slot ≠ .resultId →
    r.slot ≠ .typeId → ∃ v w, x.operandWord? k = some v ∧ y.operandWord? k = some w ∧ R v w
  others : ∀ (k : ℕ) r, x.operands[k]? = some r → ¬ r.slot.isId →
    x.operandWords k = y.operandWords k

/-- The relation justifies itself: the ids that it relates are the same or defined alike. -/
def IsStructural (p : Program) (R : Word → Word → Prop) : Prop :=
  ∀ a b, R a b → a = b ∨
    ∃ x y, p.definition? a = some x ∧ p.definition? b = some y ∧ Alike R x y

/-- Some relation that justifies itself relates the ids. -/
def Equal (p : Program) (a b : Word) : Prop := ∃ R, IsStructural p R ∧ R a b

lemma Alike.mono {R S : Word → Word → Prop} {x y : Instruction} (hRS : ∀ a b, R a b → S a b)
    (h : Alike R x y) : Alike S x y :=
  { h with
    type := fun hne => hRS _ _ (h.type hne)
    ids := fun k r hr hid hres htype => by
      obtain ⟨v, w, hv, hw, hvw⟩ := h.ids k r hr hid hres htype
      exact ⟨v, w, hv, hw, hRS _ _ hvw⟩ }

/-- The greatest of these relations. -/
lemma isStructural_equal (p : Program) : IsStructural p p.Equal := by
  rintro a b ⟨R, hR, hab⟩
  rcases hR a b hab with rfl | ⟨x, y, hx, hy, hxy⟩
  · exact .inl rfl
  · exact .inr ⟨x, y, hx, hy, hxy.mono fun v w hvw => ⟨R, hR, hvw⟩⟩

lemma equal_refl (p : Program) (a : Word) : p.Equal a a := ⟨Eq, fun _ _ hab => .inl hab, rfl⟩

/-- An instruction that stands in some module. -/
def IsDecoded (x : Instruction) : Prop := ∃ earlier ps, Decodes earlier x ps

/-- Instructions of one form have the same slots at the same places. -/
lemma slot_eq {x y : Instruction} (hx : IsDecoded x) (hy : IsDecoded y)
    (hop : x.opcode = y.opcode) (hdecl : x.opcode.isTypeDeclaration ∨ x.opcode.isConstant)
    (hsize : x.operands.size = y.operands.size) {k : ℕ} {r s : OperandRecord}
    (hr : x.operands[k]? = some r) (hs : y.operands[k]? = some s) : r.slot = s.slot := by
  obtain ⟨_, ps, hx⟩ := hx
  obtain ⟨_, qs, hy⟩ := hy
  have hx' := hx.map_slot_eq
  have hy' := hy.map_slot_eq
  have hquiet := Opcode.isQuiet_operands hdecl
  have hlen : (ps.map (·.kind)).length = (qs.map (·.kind)).length := by
    simpa [hsize] using (congrArg List.length hx').symm.trans
      ((by simp [hsize] : _ = _).trans (congrArg List.length hy'))
  have hkinds := (hx.filling.follows hquiet).eq_of_length
    (hop ▸ hy.filling.follows (hop ▸ hquiet)) hlen
  have heq : x.operands.toList.map (·.slot) = y.operands.toList.map (·.slot) := by
    rw [hx', hkinds, hy']
  have hk := congrArg (fun l => l[k]?) heq
  simpa [hr, hs] using hk

/-! ### Pairs to compare -/

lemma exists_mapM_iff {α β : Type} (f : α → Option (List β)) (P : β → Prop) (l : List α) :
    (∃ ls, l.mapM f = some ls ∧ ∀ q ∈ ls.flatten, P q) ↔
      ∀ a ∈ l, ∃ qs, f a = some qs ∧ ∀ q ∈ qs, P q := by
  induction l with
  | nil => simp
  | cons a l ih =>
    rw [List.forall_mem_cons, ← ih, List.mapM_cons]
    constructor
    · rintro ⟨ls, hls, hP⟩
      simp only [bind, Option.bind_eq_some_iff, pure, Option.some.injEq] at hls
      obtain ⟨qs, hqs, ms, hms, rfl⟩ := hls
      rw [List.flatten_cons, List.forall_mem_append] at hP
      exact ⟨⟨qs, hqs, hP.1⟩, ms, hms, hP.2⟩
    · rintro ⟨⟨qs, hqs, hq⟩, ms, hms, hm⟩
      refine ⟨qs :: ms, by simp [hqs, hms], ?_⟩
      rw [List.flatten_cons, List.forall_mem_append]
      exact ⟨hq, hm⟩

lemma forall_mem_zip_iff {α β : Type} (P : α × β → Prop) (xs : List α) (ys : List β) :
    (∀ q ∈ xs.zip ys, P q) ↔ ∀ (k : ℕ) a b, xs[k]? = some a → ys[k]? = some b → P (a, b) := by
  constructor
  · intro h k a b ha hb
    exact h _ (List.mem_iff_getElem?.mpr ⟨k, List.getElem?_zip_eq_some.mpr ⟨ha, hb⟩⟩)
  · rintro h ⟨a, b⟩ hq
    obtain ⟨k, hk⟩ := List.mem_iff_getElem?.mp hq
    obtain ⟨ha, hb⟩ := List.getElem?_zip_eq_some.mp hk
    exact h k a b ha hb

variable {R : Word → Word → Prop} {x y : Instruction}

/-- Operands in one slot are compared by their ids or by their words. -/
lemma exists_operandPairs?_iff {r s : OperandRecord} (hslot : r.slot = s.slot) :
    (∃ qs, operandPairs? x y r s = some qs ∧ ∀ q ∈ qs, R q.1 q.2) ↔
      (r.slot.isId → r.slot ≠ .resultId → r.slot ≠ .typeId →
        ∃ v w, (x.wordsOf r).head? = some v ∧ (y.wordsOf s).head? = some w ∧ R v w) ∧
      (¬ r.slot.isId → x.wordsOf r = y.wordsOf s) := by
  rw [operandPairs?]
  by_cases hresult : r.slot = .resultId ∨ r.slot = .typeId
  · have hid : r.slot.isId = true := by
      rcases hresult with h | h <;> rw [h] <;> rfl
    rw [if_pos (by simpa using hresult)]
    simpa [hid] using fun hres htype => absurd hresult (not_or.mpr ⟨hres, htype⟩)
  obtain ⟨hres, htype⟩ := not_or.mp hresult
  rw [if_neg (by simpa using hresult)]
  by_cases hid : r.slot.isId
  · rw [if_pos hid]
    rcases (x.wordsOf r).head? with _ | v <;> rcases (y.wordsOf s).head? with _ | w <;>
      simp [hid, hres, htype]
  · rw [if_neg hid]
    by_cases hw : x.wordsOf r = y.wordsOf s
    · simp [hid, ← hslot, hw]
    · simp [hid, ← hslot, hw]

/-- Comparing two definitions leaves the pairs of ids that must be related for them to be alike. -/
lemma exists_definitionPairs?_iff (hx : IsDecoded x) (hy : IsDecoded y) :
    (∃ qs, definitionPairs? x y = some qs ∧ ∀ q ∈ qs, R q.1 q.2) ↔ Alike R x y := by
  rw [definitionPairs?]
  by_cases hform : ((x.opcode = y.opcode ∧ (x.opcode.isTypeDeclaration ∨ x.opcode.isConstant)) ∧
      x.words.size = y.words.size) ∧ x.operands.size = y.operands.size
  · rw [if_pos (by simpa using hform)]
    obtain ⟨⟨⟨hop, hdecl⟩, hwords⟩, hsize⟩ := hform
    have htypes : (∀ q ∈ if x.typeId = 0 then [] else [(x.typeId, y.typeId)], R q.1 q.2) ↔
        (x.typeId ≠ 0 → R x.typeId y.typeId) := by
      by_cases h0 : x.typeId = 0 <;> simp [h0]
    have hpairs := exists_mapM_iff (fun (r, s) => operandPairs? x y r s) (fun q => R q.1 q.2)
      (x.operands.toList.zip y.operands.toList)
    rw [forall_mem_zip_iff] at hpairs
    simp only [Option.map_eq_some_iff]
    constructor
    · rintro ⟨_, ⟨ls, hls, rfl⟩, hR⟩
      rw [List.forall_mem_append, htypes] at hR
      have hslots := hpairs.mp ⟨ls, hls, hR.2⟩
      refine ⟨hop, hdecl, hwords, hsize, hR.1, fun k r hr hid hres htype => ?_, fun k r hr hid => ?_⟩
      all_goals
        obtain ⟨s, hs⟩ : ∃ s, y.operands[k]? = some s :=
          ⟨_, Array.getElem?_eq_getElem (hsize ▸ (Array.getElem?_eq_some_iff.mp hr).1)⟩
        have hrs := (exists_operandPairs?_iff (slot_eq hx hy hop hdecl hsize hr hs)).mp
          (hslots k r s (by simpa using hr) (by simpa using hs))
        simp only [Instruction.operandWord?, Instruction.operandWords, hr, hs]
      · exact hrs.1 hid hres htype
      · exact hrs.2 hid
    · intro h
      obtain ⟨ls, hls, hR⟩ := hpairs.mpr fun k r s hr hs => by
        have hr' : x.operands[k]? = some r := by simpa using hr
        have hs' : y.operands[k]? = some s := by simpa using hs
        refine (exists_operandPairs?_iff (slot_eq hx hy hop hdecl hsize hr' hs')).mpr
          ⟨fun hid hres htype => ?_, fun hid => ?_⟩
        · simpa [Instruction.operandWord?, Instruction.operandWords, hr', hs']
            using h.ids k r hr' hid hres htype
        · simpa [Instruction.operandWords, hr', hs'] using h.others k r hr' hid
      exact ⟨_, ⟨ls, hls, rfl⟩, List.forall_mem_append.mpr ⟨htypes.mpr h.type, hR⟩⟩
  · rw [if_neg (by simpa using hform)]
    refine ⟨fun ⟨_, h, _⟩ => absurd h nofun, fun h => ?_⟩
    exact absurd ⟨⟨⟨h.opcode, h.declares⟩, h.words⟩, h.operands⟩ hform

/-! ### The comparison -/

variable {p : Program}

/-- The pair is of ids defined by instructions whose comparison leaves only pairs in `S`. -/
def Expands (p : Program) (S : Set (Word × Word)) (q : Word × Word) : Prop :=
  ∃ x y qs, p.definition? q.1 = some x ∧ p.definition? q.2 = some y ∧
    definitionPairs? x y = some qs ∧ ∀ q ∈ qs, q.1 = q.2 ∨ q ∈ S

/-- Pairs found equal are the same or lie in a set, with what was assumed, in which all that was not
assumed leads to nothing outside. -/
lemma exists_of_equalPairs {fuel : ℕ} {assumed : Std.HashSet (Word × Word)}
    {todo : List (Word × Word)} (h : equalPairs p fuel assumed todo = some true) :
    ∃ S : Set (Word × Word), (∀ q, assumed.contains q → q ∈ S) ∧ (∀ q ∈ todo, q.1 = q.2 ∨ q ∈ S) ∧
      ∀ q ∈ S, assumed.contains q ∨ Expands p S q := by
  fun_induction equalPairs p fuel assumed todo with
  | case1 fuel assumed => exact ⟨{q | assumed.contains q}, by simp, by simp, fun q hq => .inl hq⟩
  | case2 fuel assumed a b todo hskip ih =>
    obtain ⟨S, hassumed, htodo, hS⟩ := ih h
    refine ⟨S, hassumed, List.forall_mem_cons.mpr ⟨?_, htodo⟩, hS⟩
    simp only [Bool.or_eq_true, decide_eq_true_eq] at hskip
    exact hskip.imp id (hassumed _)
  | case3 assumed a b todo _ x y hy hx qs hqs fuel ih =>
    obtain ⟨S, hassumed, htodo, hS⟩ := ih h
    obtain ⟨hqs', htodo⟩ := List.forall_mem_append.mp htodo
    have hab : (a, b) ∈ S := hassumed _ (by simp)
    refine ⟨S, fun q hq => hassumed q (by simp [hq]),
      List.forall_mem_cons.mpr ⟨.inr hab, htodo⟩, fun q hq => ?_⟩
    rcases hS q hq with hq | hq
    · rw [Std.HashSet.contains_insert, Bool.or_eq_true, beq_iff_eq] at hq
      rcases hq with rfl | hq
      · exact .inr ⟨x, y, qs, hx, hy, hqs, hqs'⟩
      · exact .inl hq
    · exact .inr hq
  | _ => simp at h

/-- The ids that a program defines. -/
def defined (p : Program) : Finset Word := p.definitions.keys.toFinset

lemma card_defined_le (p : Program) : p.defined.card ≤ p.definitions.size := by
  rw [defined, ← Std.HashMap.length_keys]
  exact List.toFinset_card_le _

lemma mem_defined_of_definition? {a : Word} {x : Instruction} (h : p.definition? a = some x) :
    a ∈ p.defined := by
  simp only [definition?, definitionIndex?, bind, Option.bind_eq_some_iff] at h
  obtain ⟨n, hn, -⟩ := h
  rw [defined, List.mem_toFinset, Std.HashMap.mem_keys]
  exact Std.HashMap.mem_iff_isSome_getElem?.mpr (by simp [hn])

/-- The pairs of defined ids that are not assumed to be equal. -/
def unassumed (p : Program) (assumed : Std.HashSet (Word × Word)) : Finset (Word × Word) :=
  (p.defined ×ˢ p.defined).filter fun q => ¬ assumed.contains q

/-- A pair that is looked into is one of them. -/
lemma mem_unassumed {assumed : Std.HashSet (Word × Word)} {a b : Word} {x y : Instruction}
    (hskip : ¬ (decide (a = b) || assumed.contains (a, b)) = true)
    (hx : p.definition? a = some x) (hy : p.definition? b = some y) :
    (a, b) ∈ p.unassumed assumed := by
  rw [unassumed, Finset.mem_filter, Finset.mem_product]
  refine ⟨⟨mem_defined_of_definition? hx, mem_defined_of_definition? hy⟩, ?_⟩
  simp only [Bool.or_eq_true, not_or] at hskip
  exact hskip.2

/-- Assuming one of them leaves fewer. -/
lemma card_unassumed_insert {assumed : Std.HashSet (Word × Word)} {q : Word × Word}
    (hq : q ∈ p.unassumed assumed) :
    (p.unassumed (assumed.insert q)).card < (p.unassumed assumed).card := by
  refine Finset.card_lt_card (Finset.ssubset_iff_subset_ne.mpr ⟨fun r hr => ?_, fun he => ?_⟩)
  · rw [unassumed, Finset.mem_filter] at hr ⊢
    exact ⟨hr.1, fun hc => hr.2 (by simp [hc])⟩
  · rw [← he, unassumed, Finset.mem_filter] at hq
    exact hq.2 (by simp)

/-- The comparison comes to an answer, given fuel for every pair of defined ids not yet assumed. -/
lemma isSome_equalPairs {fuel : ℕ} {assumed : Std.HashSet (Word × Word)}
    {todo : List (Word × Word)} (hfuel : (p.unassumed assumed).card ≤ fuel) :
    (equalPairs p fuel assumed todo).isSome := by
  fun_induction equalPairs p fuel assumed todo with
  | case1 => rfl
  | case2 fuel assumed a b todo hskip ih => exact ih hfuel
  | case3 assumed a b todo hskip x y hy hx qs hqs fuel ih =>
    have hless := card_unassumed_insert (mem_unassumed hskip hx hy)
    exact ih (by omega)
  | case4 assumed a b todo hskip x y hy hx qs hqs =>
    have hpos := Finset.card_pos.mpr ⟨_, mem_unassumed hskip hx hy⟩
    omega
  | case5 | case6 => rfl

/-- A pair of equal ids that is looked into is of defined ones, and comparing their definitions leaves
pairs of equal ids. -/
lemma exists_definitionPairs?_of_equal
    (hdec : ∀ a x, p.definition? a = some x → IsDecoded x) {assumed : Std.HashSet (Word × Word)}
    {a b : Word} (hab : p.Equal a b)
    (hskip : ¬ (decide (a = b) || assumed.contains (a, b)) = true) :
    ∃ x y qs, p.definition? a = some x ∧ p.definition? b = some y ∧
      definitionPairs? x y = some qs ∧ ∀ q ∈ qs, p.Equal q.1 q.2 := by
  simp only [Bool.or_eq_true, decide_eq_true_eq, not_or] at hskip
  obtain ⟨x, y, hx, hy, hxy⟩ := (p.isStructural_equal a b hab).resolve_left hskip.1
  obtain ⟨qs, hqs, hequal⟩ := (exists_definitionPairs?_iff (hdec a x hx) (hdec b y hy)).mpr hxy
  exact ⟨x, y, qs, hx, hy, hqs, hequal⟩

/-- Pairs of equal ids are not found different, however much fuel there is. -/
lemma equalPairs_ne_of_equal (hdec : ∀ a x, p.definition? a = some x → IsDecoded x) {fuel : ℕ}
    {assumed : Std.HashSet (Word × Word)} {todo : List (Word × Word)}
    (htodo : ∀ q ∈ todo, p.Equal q.1 q.2) : equalPairs p fuel assumed todo ≠ some false := by
  fun_induction equalPairs p fuel assumed todo with
  | case1 => nofun
  | case2 fuel assumed a b todo hskip ih => exact ih (List.forall_mem_cons.mp htodo).2
  | case3 assumed a b todo hskip x y hy hx qs hqs fuel ih =>
    obtain ⟨hab, htodo⟩ := List.forall_mem_cons.mp htodo
    obtain ⟨x', y', qs', hx', hy', hqs', hequal⟩ :=
      exists_definitionPairs?_of_equal hdec hab hskip
    obtain rfl := Option.some.inj (hx.symm.trans hx')
    obtain rfl := Option.some.inj (hy.symm.trans hy')
    obtain rfl := Option.some.inj (hqs.symm.trans hqs')
    exact ih (List.forall_mem_append.mpr ⟨hequal, htodo⟩)
  | case4 => nofun
  | case5 fuel assumed a b todo hskip x y hy hx hqs =>
    obtain ⟨x', y', qs', hx', hy', hqs', -⟩ :=
      exists_definitionPairs?_of_equal hdec (List.forall_mem_cons.mp htodo).1 hskip
    obtain rfl := Option.some.inj (hx.symm.trans hx')
    obtain rfl := Option.some.inj (hy.symm.trans hy')
    exact absurd (hqs.symm.trans hqs') nofun
  | case6 fuel assumed a b todo hskip hundefined =>
    obtain ⟨x, y, -, hx, hy, -⟩ :=
      exists_definitionPairs?_of_equal hdec (List.forall_mem_cons.mp htodo).1 hskip
    exact (hundefined x y hx hy).elim

lemma equal_of_equalPairs (hdec : ∀ a x, p.definition? a = some x → IsDecoded x) {fuel : ℕ}
    {a b : Word} (h : equalPairs p fuel ∅ [(a, b)] = some true) : p.Equal a b := by
  obtain ⟨S, -, htodo, hS⟩ := exists_of_equalPairs h
  refine ⟨fun v w => v = w ∨ (v, w) ∈ S, fun v w hvw => hvw.imp id fun hvw => ?_,
    htodo (a, b) (by simp)⟩
  obtain ⟨x, y, qs, hx, hy, hqs, hin⟩ := (hS _ hvw).resolve_left (by simp)
  exact ⟨x, y, hx, hy, (exists_definitionPairs?_iff (hdec v x hx) (hdec w y hy)).mp ⟨qs, hqs, hin⟩⟩

/-! ### Equality of ids -/

lemma typeId_ne_zero_iff (hx : IsDecoded x) (hy : IsDecoded y) (hop : x.opcode = y.opcode) :
    x.typeId ≠ 0 ↔ y.typeId ≠ 0 := by
  obtain ⟨_, _, hx⟩ := hx
  obtain ⟨_, _, hy⟩ := hy
  rw [Ne, Ne, hx.typeId_eq_zero_iff, hy.typeId_eq_zero_iff, hop]

namespace Alike

variable {S : Word → Word → Prop} {z : Instruction}

/-- The operand of the other at the same place. -/
lemma exists_operand (h : Alike R x y) (hx : IsDecoded x) (hy : IsDecoded y) {k : ℕ}
    {r : OperandRecord} (hr : x.operands[k]? = some r) :
    ∃ s, y.operands[k]? = some s ∧ s.slot = r.slot := by
  obtain ⟨s, hs⟩ : ∃ s, y.operands[k]? = some s :=
    ⟨_, Array.getElem?_eq_getElem (h.operands ▸ (Array.getElem?_eq_some_iff.mp hr).1)⟩
  exact ⟨s, hs, (slot_eq hx hy h.opcode h.declares h.operands hr hs).symm⟩

lemma exists_operand' (h : Alike R x y) (hx : IsDecoded x) (hy : IsDecoded y) {k : ℕ}
    {s : OperandRecord} (hs : y.operands[k]? = some s) :
    ∃ r, x.operands[k]? = some r ∧ r.slot = s.slot := by
  obtain ⟨r, hr⟩ : ∃ r, x.operands[k]? = some r :=
    ⟨_, Array.getElem?_eq_getElem (h.operands ▸ (Array.getElem?_eq_some_iff.mp hs).1)⟩
  exact ⟨r, hr, slot_eq hx hy h.opcode h.declares h.operands hr hs⟩

lemma symm (h : Alike R x y) (hx : IsDecoded x) (hy : IsDecoded y) :
    Alike (fun a b => R b a) y x where
  opcode := h.opcode.symm
  declares := h.opcode ▸ h.declares
  words := h.words.symm
  operands := h.operands.symm
  type hne := h.type ((typeId_ne_zero_iff hx hy h.opcode).mpr hne)
  ids k s hs hid hres htype := by
    obtain ⟨r, hr, hrs⟩ := h.exists_operand' hx hy hs
    obtain ⟨v, w, hv, hw, hvw⟩ := h.ids k r hr (hrs ▸ hid) (hrs ▸ hres) (hrs ▸ htype)
    exact ⟨w, v, hw, hv, hvw⟩
  others k s hs hid := by
    obtain ⟨r, hr, hrs⟩ := h.exists_operand' hx hy hs
    exact (h.others k r hr (hrs ▸ hid)).symm

lemma trans (h : Alike R x y) (h' : Alike S y z) (hx : IsDecoded x) (hy : IsDecoded y) :
    Alike (fun a c => ∃ b, R a b ∧ S b c) x z where
  opcode := h.opcode.trans h'.opcode
  declares := h.declares
  words := h.words.trans h'.words
  operands := h.operands.trans h'.operands
  type hne := ⟨_, h.type hne, h'.type ((typeId_ne_zero_iff hx hy h.opcode).mp hne)⟩
  ids k r hr hid hres htype := by
    obtain ⟨s, hs, hsr⟩ := h.exists_operand hx hy hr
    obtain ⟨v, w, hv, hw, hvw⟩ := h.ids k r hr hid hres htype
    obtain ⟨w', u, hw', hu, hwu⟩ := h'.ids k s hs (hsr ▸ hid) (hsr ▸ hres) (hsr ▸ htype)
    obtain rfl := Option.some.inj (hw.symm.trans hw')
    exact ⟨v, u, hv, hu, w, hvw, hwu⟩
  others k r hr hid := by
    obtain ⟨s, hs, hsr⟩ := h.exists_operand hx hy hr
    exact (h.others k r hr hid).trans (h'.others k s hs (hsr ▸ hid))

end Alike

lemma equivalence_equal (hdec : ∀ a x, p.definition? a = some x → IsDecoded x) :
    Equivalence p.Equal where
  refl := p.equal_refl
  symm := by
    rintro a b ⟨R, hR, hab⟩
    refine ⟨fun a b => R b a, fun a b hba => ?_, hab⟩
    rcases hR b a hba with rfl | ⟨x, y, hx, hy, hxy⟩
    · exact .inl rfl
    · exact .inr ⟨y, x, hy, hx, hxy.symm (hdec b x hx) (hdec a y hy)⟩
  trans := by
    intro a b c hab hbc
    refine ⟨fun a c => ∃ b, p.Equal a b ∧ p.Equal b c, ?_, b, hab, hbc⟩
    rintro a c ⟨b, hab, hbc⟩
    rcases p.isStructural_equal a b hab with rfl | ⟨x, y, hx, hy, hxy⟩
    · exact (p.isStructural_equal a c hbc).imp id fun ⟨y, z, hy, hz, hyz⟩ =>
        ⟨y, z, hy, hz, hyz.mono fun v w hvw => ⟨v, p.equal_refl v, hvw⟩⟩
    rcases p.isStructural_equal b c hbc with rfl | ⟨y', z, hy', hz, hyz⟩
    · exact .inr ⟨x, y, hx, hy, hxy.mono fun v w hvw => ⟨w, hvw, p.equal_refl w⟩⟩
    · obtain rfl := Option.some.inj (hy.symm.trans hy')
      exact .inr ⟨x, z, hx, hz, hxy.trans hyz (hdec a x hx) (hdec b y hy)⟩

lemma isDecoded_of_ofWords {words : List Word} (h : ofWords words = .ok p) (a : Word)
    (x : Instruction) (hx : p.definition? a = some x) : IsDecoded x := by
  obtain ⟨header, is, -, his, rfl⟩ := ofWords_eq_ok_iff.mp h
  exact his.exists_decodes ((built_definition? his a x).mp hx).2.1

lemma card_unassumed_le (p : Program) :
    (p.unassumed ∅).card ≤ p.definitions.size * p.definitions.size :=
  calc (p.unassumed ∅).card ≤ (p.defined ×ˢ p.defined).card := Finset.card_filter_le _ _
    _ = p.defined.card * p.defined.card := Finset.card_product _ _
    _ ≤ p.definitions.size * p.definitions.size := Nat.mul_le_mul p.card_defined_le p.card_defined_le

/-- With fuel for every pair of defined ids there is an answer, and it is whether the ids are equal. -/
lemma exists_equalPairs_eq (hdec : ∀ a x, p.definition? a = some x → IsDecoded x) {fuel : ℕ}
    (hfuel : p.definitions.size * p.definitions.size ≤ fuel) (a b : Word) :
    ∃ answer, equalPairs p fuel ∅ [(a, b)] = some answer ∧ (answer = true ↔ p.Equal a b) := by
  have hsome : (equalPairs p fuel ∅ [(a, b)]).isSome :=
    isSome_equalPairs (p.card_unassumed_le.trans hfuel)
  obtain ⟨answer, hanswer⟩ := Option.isSome_iff_exists.mp hsome
  refine ⟨answer, hanswer, ?_⟩
  cases answer with
  | true => exact iff_of_true rfl (equal_of_equalPairs hdec hanswer)
  | false =>
    refine iff_of_false nofun fun hab => ?_
    exact equalPairs_ne_of_equal hdec (by simpa using hab) hanswer

lemma structurallyEqual_eq_true_iff (hdec : ∀ a x, p.definition? a = some x → IsDecoded x)
    (a b : Word) : p.structurallyEqual a b = true ↔ p.Equal a b := by
  obtain ⟨answer, hanswer, hiff⟩ := exists_equalPairs_eq hdec le_rfl a b
  rwa [structurallyEqual, hanswer, Option.getD_some]

/-- **Ids are found equal exactly if some relation that justifies itself relates them.** The comparison
ends by itself: the fuel it has is never used up, and with more of it the answer is the same. Equality
is an equivalence. -/
theorem structurallyEqual_iff {words : List Word} (h : ofWords words = .ok p) :
    (∀ a b, p.structurallyEqual a b = true ↔ ∃ R, IsStructural p R ∧ R a b) ∧
      (∀ a b fuel, p.definitions.size * p.definitions.size ≤ fuel →
        equalPairs p fuel ∅ [(a, b)] = some (p.structurallyEqual a b)) ∧
      Equivalence fun a b => p.structurallyEqual a b = true := by
  have hdec := isDecoded_of_ofWords h
  have hiff := structurallyEqual_eq_true_iff hdec
  refine ⟨hiff, fun a b fuel hfuel => ?_, ?_⟩
  · obtain ⟨answer, hanswer, hequal⟩ := exists_equalPairs_eq hdec hfuel a b
    rw [hanswer, Bool.eq_iff_iff.mpr (hequal.trans (hiff a b).symm)]
  · have heq : (fun a b => p.structurallyEqual a b = true) = p.Equal := by
      funext a b
      exact propext (hiff a b)
    rw [heq]
    exact equivalence_equal hdec

/-- Two function types of one form are equal, and differ from the type that they return. -/
theorem structurallyEqual_sample : ∃ p, ofWords Sample.words = .ok p ∧
    p.structurallyEqual 2 3 = true ∧ p.structurallyEqual 1 2 = false := by
  obtain ⟨hiff, -⟩ := structurallyEqual_iff Sample.ofWords_words
  have hdef := built_definition? (h := .ofBound 6 0) Sample.decodable_instructions
  have hvoid := (hdef 1 Sample.void).mpr (by decide)
  have haction := (hdef 2 Sample.action).mpr (by decide)
  have hsame := (hdef 3 Sample.sameAction).mpr (by decide)
  refine ⟨_, Sample.ofWords_words, (hiff 2 3).mpr ?_, ?_⟩
  · refine ⟨fun a b => a = b ∨ a = 2 ∧ b = 3, fun a b hab => hab.imp id ?_, .inr ⟨rfl, rfl⟩⟩
    rintro ⟨rfl, rfl⟩
    refine ⟨_, _, haction, hsame, rfl, .inl rfl, by decide, by decide, fun hne => absurd rfl hne,
      fun k r hr hid hres htype => ?_, fun k r hr hid => ?_⟩
    all_goals
      have hk : k < 2 := (Array.getElem?_eq_some_iff.mp hr).1
      interval_cases k
      all_goals obtain rfl := Option.some.inj hr
    · exact absurd rfl hres
    · exact ⟨1, 1, by decide, by decide, .inl rfl⟩
    · exact absurd rfl hid
    · exact absurd rfl hid
  · rw [Bool.eq_false_iff, Ne, hiff]
    rintro ⟨R, hR, h⟩
    rcases hR 1 2 h with h | ⟨x, y, hx, hy, hxy⟩
    · exact absurd h (by decide)
    · obtain rfl := Option.some.inj (hvoid.symm.trans hx)
      obtain rfl := Option.some.inj (haction.symm.trans hy)
      exact absurd hxy.opcode (by decide)

end Program

end Spirv
