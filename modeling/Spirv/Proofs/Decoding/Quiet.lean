import Mathlib
import Spirv.Proofs.Decoding.Instruction

/-!
Operands that ask for no others.

Most operands leave the slots after them as they are. Where all operands of a pattern are of that
sort, the pattern alone says which kinds of operands follow one another, whatever their words are.
-/

namespace Spirv

/-- Whether no operand of the kind asks for operands after it. -/
def OperandKind.isQuiet : OperandKind → Bool
  | extended | specOpcode => false
  | named c => c.values.all (·.operands.isEmpty)
  | _ => true

/-- Whether no operand that fills the slot asks for operands after it. -/
def Slot.isQuiet : Slot → Bool
  | one k | optional k | second k | many k => k.isQuiet
  | pairs k l => k.isQuiet && l.isQuiet
  | nothing | free => true

lemma OperandKind.not_asks_of_isQuiet {k : OperandKind} (hk : k.isQuiet) (s : Slot) :
    ¬ k.Asks s := by
  intro h
  cases h with
  | extended | specOpcode => simp [isQuiet] at hk
  | @value c row _ mem slot =>
    have hnil : row.operands = [] := by simpa using List.all_eq_true.mp hk row mem
    simp [hnil] at slot

lemma Operand.needs_eq_nil_of_isQuiet {c : Context} {k : OperandKind} {ws : List Word}
    {number? : Option NumberType} {needs : List Slot} (h : Operand c k ws number? needs)
    (hk : k.isQuiet) : needs = [] :=
  List.eq_nil_iff_forall_not_mem.mpr fun s hs => OperandKind.not_asks_of_isQuiet hk s (h.asks hs)

lemma Pattern.isQuiet_of_take? {p rest : Pattern} {slot : Slot} (hp : ∀ s ∈ p, s.isQuiet)
    (h : p.take? = some (slot, rest)) : slot.isQuiet ∧ ∀ s ∈ rest, s.isQuiet := by
  rcases p with _ | ⟨s, p⟩
  · simp [take?] at h
  obtain ⟨hs, hp⟩ := List.forall_mem_cons.mp hp
  cases s <;> simp_all [take?, Slot.isQuiet] <;> obtain ⟨rfl, rfl⟩ := h <;> simp_all

lemma Slot.isQuiet_kind {s : Slot} {k : OperandKind} (hs : s.isQuiet) (h : s.kind? = some k) :
    k.isQuiet := by
  cases s <;> simp_all [kind?, isQuiet]

/-! ### Kinds in the order of a pattern -/

/-- Operands of the kinds fill the slots of the pattern one after the other, and none is missing. -/
inductive Follows : Pattern → List OperandKind → Prop where
  | done {p : Pattern} (optional : ∀ s ∈ p.head?, s.isOptional) : Follows p []
  | next {p rest : Pattern} {slot : Slot} {k : OperandKind} {ks : List OperandKind}
    (take : p.take? = some (slot, rest)) (kind : slot.kind? = some k) (more : Follows rest ks) :
    Follows p (k :: ks)

lemma Filling.follows {c : Context} {p : Pattern} {ps : List Piece} (h : Filling c p ps)
    (hp : ∀ s ∈ p, s.isQuiet) : Follows p (ps.map (·.kind)) := by
  induction h with
  | done optional => exact .done optional
  | next take kind operand _ ih =>
    obtain ⟨hslot, hrest⟩ := Pattern.isQuiet_of_take? hp take
    obtain rfl := operand.needs_eq_nil_of_isQuiet (Slot.isQuiet_kind hslot kind)
    exact .next take kind (ih hrest)

lemma Piece.map_slot_records (n : ℕ) (ps : List Piece) :
    (records n ps).map (·.slot) = (ps.map (·.kind)).map .one := by
  induction ps generalizing n with
  | nil => rfl
  | cons p ps ih => simp [records, ih]

lemma Decodes.map_slot_eq {earlier : List Instruction} {i : Instruction} {ps : List Piece}
    (h : Decodes earlier i ps) : i.operands.toList.map (·.slot) = (ps.map (·.kind)).map .one := by
  rw [h.operands]
  exact Piece.map_slot_records 1 ps

namespace Follows

variable {p : Pattern} {k l : OperandKind} {ks ks' : List OperandKind}

/-- As many operands are of the same kinds. -/
lemma eq_of_length (h : Follows p ks) (h' : Follows p ks') (hlen : ks.length = ks'.length) :
    ks = ks' := by
  induction h generalizing ks' with
  | done => exact (List.length_eq_zero_iff.mp hlen.symm).symm
  | next take kind _ ih =>
    cases h' with
    | done => simp at hlen
    | next take' kind' more' =>
      obtain ⟨rfl, rfl⟩ := by simpa using take.symm.trans take'
      obtain rfl := Option.some.inj (kind.symm.trans kind')
      rw [ih more' (by simpa using hlen)]

/-- A slot for one operand is filled by one of its kind. -/
lemma exists_of_one (h : Follows (.one k :: p) ks) : ∃ ks', ks = k :: ks' ∧ Follows p ks' := by
  cases h with
  | done optional => simp [Slot.isOptional] at optional
  | next take kind more =>
    obtain ⟨rfl, rfl⟩ := by simpa [Pattern.take?] using take
    exact ⟨_, by rw [Option.some.inj kind], more⟩

end Follows

/-! ### Pairs -/

/-- So many pairs of kinds one after the other. -/
def pairsOf (n : ℕ) (k l : OperandKind) : List OperandKind := (List.replicate n [k, l]).flatten

/-- Pairs of kinds, the last of which may lack its second member. -/
structure Paired (k l : OperandKind) (ks : List OperandKind) : Prop where
  cut : ∃ n, ks = pairsOf n k l ∨ ks = pairsOf n k l ++ [k]
  whole : Even ks.length → ∃ n, ks = pairsOf n k l

namespace Follows

variable {k l : OperandKind} {ks : List OperandKind}

lemma exists_pairsOf (h : Follows [.pairs k l] ks) :
    ∃ n, ks = pairsOf n k l ∨ ks = pairsOf n k l ++ [k] := by
  induction hn : ks.length using Nat.strong_induction_on generalizing ks with
  | _ _ ih =>
  subst hn
  cases h with
  | done => exact ⟨0, .inl rfl⟩
  | next take kind more =>
    obtain ⟨rfl, rfl⟩ := by simpa [Pattern.take?] using take
    obtain rfl := Option.some.inj kind
    -- an instruction may end here, since the second member of a pair may be absent as well
    cases more with
    | done => exact ⟨0, .inr rfl⟩
    | next take kind more =>
      obtain ⟨rfl, rfl⟩ := by simpa [Pattern.take?] using take
      obtain rfl := Option.some.inj kind
      obtain ⟨n, hks⟩ := ih _ (by simp) more rfl
      refine ⟨n + 1, hks.imp (fun h => ?_) fun h => ?_⟩ <;>
        rw [h, pairsOf, pairsOf, List.replicate_succ] <;> rfl

lemma paired (h : Follows [.pairs k l] ks) : Paired k l ks := by
  refine ⟨h.exists_pairsOf, fun heven => ?_⟩
  obtain ⟨n, rfl | rfl⟩ := h.exists_pairsOf
  · exact ⟨n, rfl⟩
  · have hlen : (pairsOf n k l).length = n * 2 := by simp [pairsOf]
    rw [List.length_append, hlen, List.length_singleton] at heven
    exact absurd heven (by simp [parity_simps])

end Follows

end Spirv
