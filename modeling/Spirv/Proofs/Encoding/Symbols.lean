import Mathlib
import Spirv.Assembly

/-!
Numbering the ids of a text.

A text of fewer words than there are ids never runs out of them. Every id that is passed over is
either given to a name of the text or preserved for one, and no name stands for two ids; so the ids
below the next one to try are no more than the words. From this each new name gets an id that is not
zero and that no other name has.
-/

namespace Spirv.SymbolTable

/-- The later table gives every name of the earlier one the same id. -/
def Extends (t t' : SymbolTable) : Prop :=
  ∀ (name : String) (id : Word), t.ids[name]? = some id → t'.ids[name]? = some id

lemma Extends.refl (t : SymbolTable) : t.Extends t := fun _ _ h => h

lemma Extends.trans {t u v : SymbolTable} (h : t.Extends u) (h' : u.Extends v) : t.Extends v :=
  fun name id hid => h' name id (h name id hid)

/-- The table numbers names of the text, the preserved values being spelled there. -/
structure Valid (names : List String) (t : SymbolTable) : Prop where
  inverse : ∀ (name : String) (id : Word), t.ids[name]? = some id ↔ t.names[id]? = some name
  nonzero : ∀ (name : String) (id : Word), t.ids[name]? = some id → id ≠ 0
  named : ∀ (name : String) (id : Word), t.ids[name]? = some id → name ∈ names
  preserved : ∀ id ∈ t.preserved, id ≠ 0 ∧ ∃ name ∈ names, valueOfName? name.toList = some id
  keeps : ∀ (name : String) (id value : Word), t.ids[name]? = some id →
    valueOfName? name.toList = some value → value ∈ t.preserved → id = value
  next_ne : t.next ≠ 0
  below : ∀ id, id ≠ 0 → id < t.next → t.isTaken id = true

variable {t t' : SymbolTable} {names : List String} {name : String} {id : Word}

lemma isTaken_iff : t.isTaken id = true ↔ id ∈ t.preserved ∨ ∃ name, t.names[id]? = some name := by
  simp only [isTaken, Bool.or_eq_true, Std.HashSet.contains_iff_mem, Std.HashMap.contains_iff_mem,
    ← Std.HashMap.isSome_getElem?_iff_mem, Option.isSome_iff_exists]

/-- No two names have one id. -/
lemma Valid.injective (h : Valid names t) {other : String} (h1 : t.ids[name]? = some id)
    (h2 : t.ids[other]? = some id) : name = other := by
  have h1 := (h.inverse name id).mp h1
  have h2 := (h.inverse other id).mp h2
  exact Option.some.inj (h1.symm.trans h2)

/-- The id is taken for the name: the name has it, or spells it while it is preserved and no name has
it. -/
def TakenFor (t : SymbolTable) (id : Word) (name : String) : Prop :=
  t.names[id]? = some name ∨
    t.names[id]? = none ∧ id ∈ t.preserved ∧ valueOfName? name.toList = some id

lemma Valid.exists_takenFor (h : Valid names t) (hid : t.isTaken id = true) :
    ∃ name ∈ names, t.TakenFor id name := by
  rcases hn : t.names[id]? with _ | name
  · obtain hp | ⟨name, hn'⟩ := isTaken_iff.mp hid
    · obtain ⟨-, name, hname, hv⟩ := h.preserved id hp
      exact ⟨name, hname, .inr ⟨hn, hp, hv⟩⟩
    · simp [hn] at hn'
  · exact ⟨name, h.named name id ((h.inverse name id).mpr hn), .inl hn⟩

/-- No two ids are taken for one name. -/
lemma Valid.takenFor_injective (h : Valid names t) {id' : Word} (h1 : t.TakenFor id name)
    (h2 : t.TakenFor id' name) : id = id' := by
  rcases h1 with h1 | ⟨-, hp, hv⟩ <;> rcases h2 with h2 | ⟨-, hp', hv'⟩
  · have h1 := (h.inverse name id).mpr h1
    have h2 := (h.inverse name id').mpr h2
    exact Option.some.inj (h1.symm.trans h2)
  · exact h.keeps name id id' ((h.inverse name id).mpr h1) hv' hp'
  · exact (h.keeps name id' id ((h.inverse name id').mpr h2) hv hp).symm
  · exact Option.some.inj (hv.symm.trans hv')

/-- As many ids as are taken in a row from one on, so many names the text has. -/
lemma Valid.le_length (h : Valid names t) {m : ℕ} (hm : m < 2 ^ 32)
    (htaken : ∀ k, 1 ≤ k → k ≤ m → t.isTaken (UInt32.ofNat k) = true) : m ≤ names.length := by
  classical
  have hchoice : ∀ k ∈ Finset.Icc 1 m, ∃ name ∈ names, t.TakenFor (UInt32.ofNat k) name :=
    fun k hk => h.exists_takenFor (htaken k (Finset.mem_Icc.mp hk).1 (Finset.mem_Icc.mp hk).2)
  choose! g hg using hchoice
  have hcard := Finset.card_le_card_of_injOn (s := Finset.Icc 1 m) (t := names.toFinset) g
    (fun k hk => by simpa using (hg k hk).1) ?_
  · have := List.toFinset_card_le names
    simp only [Nat.card_Icc, Nat.add_sub_cancel] at hcard
    omega
  · intro k hk k' hk' he
    have hkk := h.takenFor_injective (hg k hk).2 (he ▸ (hg k' hk').2)
    have hk := (Finset.mem_Icc.mp hk).2
    have hk' := (Finset.mem_Icc.mp hk').2
    have := congrArg UInt32.toNat hkk
    simp only [UInt32.toNat_ofNat'] at this
    omega

/-- The search ends at the first id that is not taken, if it goes far enough. -/
lemma firstFree_spec {n : ℕ} {c : Word} (h : ∃ j ≤ n, t.isTaken (c + UInt32.ofNat j) = false) :
    ∃ j, t.firstFree n c = c + UInt32.ofNat j ∧ t.isTaken (c + UInt32.ofNat j) = false ∧
      ∀ i < j, t.isTaken (c + UInt32.ofNat i) = true := by
  induction n generalizing c with
  | zero =>
    obtain ⟨j, hj, hfree⟩ := h
    obtain rfl : j = 0 := by omega
    exact ⟨0, by simp [firstFree], hfree, by simp⟩
  | succ n ih =>
    rw [firstFree]
    by_cases htaken : t.isTaken c
    · have hstep : ∀ i, c + UInt32.ofNat (i + 1) = c + 1 + UInt32.ofNat i := fun i => by
        rw [UInt32.ofNat_add, UInt32.add_assoc, UInt32.add_comm (UInt32.ofNat i)]
        rfl
      obtain ⟨j, hj, hfree⟩ := h
      obtain ⟨j, rfl⟩ : ∃ i, j = i + 1 := by
        rcases j with _ | j
        · simp [htaken] at hfree
        · exact ⟨j, rfl⟩
      obtain ⟨i, hi, hfree, hbefore⟩ := ih (c := c + 1) ⟨j, by omega, hstep j ▸ hfree⟩
      refine ⟨i + 1, ?_, ?_, fun k hk => ?_⟩
      · rw [if_pos htaken, hi, hstep]
      · rw [hstep, hfree]
      · rcases k with _ | k
        · simpa using htaken
        · rw [hstep]
          exact hbefore k (by omega)
    · exact ⟨0, by simp [htaken], by simpa using htaken, by simp⟩

/-- Ids that are taken in a row are no more than there are entries in the table. -/
lemma le_size {c : Word} {m : ℕ} (hm : m < 2 ^ 32)
    (htaken : ∀ i < m, t.isTaken (c + UInt32.ofNat i) = true) :
    m ≤ t.preserved.size + t.names.size := by
  classical
  have hsub : ∀ i ∈ Finset.range m,
      c + UInt32.ofNat i ∈ (t.preserved.toList ++ t.names.keys).toFinset := by
    intro i hi
    have := htaken i (Finset.mem_range.mp hi)
    simpa [isTaken] using this
  have hcard := Finset.card_le_card_of_injOn _ hsub fun i hi j hj he => by
    have hi := Finset.mem_range.mp hi
    have hj := Finset.mem_range.mp hj
    have := congrArg UInt32.toNat ((UInt32.add_right_inj _).mp he)
    simp only [UInt32.toNat_ofNat'] at this
    omega
  have hlen := List.toFinset_card_le (t.preserved.toList ++ t.names.keys)
  rw [List.length_append, Std.HashSet.length_toList, Std.HashMap.length_keys] at hlen
  rw [Finset.card_range] at hcard
  omega

lemma toNat_add_ofNat {c : Word} {j : ℕ} (h : c.toNat + j < 2 ^ 32) :
    (c + UInt32.ofNat j).toNat = c.toNat + j := by
  rw [UInt32.toNat_add, UInt32.toNat_ofNat']
  omega

/-- A word is reached by counting up from any that is not greater. -/
lemma add_ofNat_sub {c v : Word} (h : c ≤ v) : c + UInt32.ofNat (v.toNat - c.toNat) = v := by
  have hlt := v.toNat_lt
  rw [UInt32.le_iff_toNat_le] at h
  refine UInt32.toNat_inj.mp ?_
  rw [toNat_add_ofNat (by omega)]
  omega

/-- Where an id from the next one on is free, the first free id is no greater, and those in between are
taken. -/
lemma firstFree_of_free {v : Word} (hle : t.next ≤ v) (hfree : t.isTaken v = false) {id : Word}
    (hid : id = t.firstFree (t.preserved.size + t.names.size) t.next) :
    t.isTaken id = false ∧ t.next ≤ id ∧ id ≤ v ∧
      ∀ w, t.next ≤ w → w < id → t.isTaken w = true := by
  have hv := add_ofNat_sub hle
  -- the least such id
  have hex : ∃ j, t.isTaken (t.next + UInt32.ofNat j) = false := ⟨_, hv.symm ▸ hfree⟩
  have hleast : Nat.find hex ≤ v.toNat - t.next.toNat := Nat.find_min' hex (hv.symm ▸ hfree)
  have hbefore : ∀ i < Nat.find hex, t.isTaken (t.next + UInt32.ofNat i) = true := fun i hi => by
    simpa using Nat.find_min hex hi
  have hlt := v.toNat_lt
  obtain ⟨j, hj, hfree, hj'⟩ := firstFree_spec (n := t.preserved.size + t.names.size)
    ⟨Nat.find hex, le_size (by omega) hbefore, Nat.find_spec hex⟩
  have hjv : j ≤ v.toNat - t.next.toNat := by
    refine le_trans ?_ hleast
    by_contra hlt
    have := hj' (Nat.find hex) (by omega)
    simp [Nat.find_spec hex] at this
  rw [UInt32.le_iff_toNat_le] at hle
  have hnat : id.toNat = t.next.toNat + j := by
    rw [hid, hj, toNat_add_ofNat (by omega)]
  refine ⟨by rw [hid, hj, hfree], ?_, ?_, fun w hw hlt => ?_⟩
  · rw [UInt32.le_iff_toNat_le]
    omega
  · rw [UInt32.le_iff_toNat_le]
    omega
  · rw [← add_ofNat_sub hw]
    rw [UInt32.le_iff_toNat_le] at hw
    rw [UInt32.lt_iff_toNat_lt] at hlt
    exact hj' _ (by omega)

/-- Where all ids before the next one to try are taken, the first free id lies right after ids that
are all taken, and no further than any free one. -/
lemma firstFree_least {k : ℕ} (hk1 : 1 ≤ k) (hk : k + 1 < 2 ^ 32)
    (hfree : t.isTaken (UInt32.ofNat k) = false) (hne : t.next ≠ 0)
    (hbelow : ∀ id, id ≠ 0 → id < t.next → t.isTaken id = true) {id : Word}
    (hid : id = t.firstFree (t.preserved.size + t.names.size) t.next) :
    t.isTaken id = false ∧ id ≠ 0 ∧ id + 1 ≠ 0 ∧
      ∀ v, v ≠ 0 → v < id → t.isTaken v = true := by
  have hnat : (UInt32.ofNat k).toNat = k := by
    rw [UInt32.toNat_ofNat']
    omega
  have hnext : t.next ≤ UInt32.ofNat k := by
    by_contra hlt
    have hk0 : UInt32.ofNat k ≠ 0 := fun he => by
      have := congrArg UInt32.toNat he
      simp only [hnat, UInt32.toNat_zero] at this
      omega
    simp [hbelow _ hk0 (UInt32.not_le.mp hlt)] at hfree
  obtain ⟨hfree, hge, hle, hbetween⟩ := firstFree_of_free hnext hfree hid
  rw [UInt32.le_iff_toNat_le] at hge hle
  refine ⟨hfree, fun h0 => hne ?_, fun h0 => ?_, fun v hv hlt => ?_⟩
  · refine UInt32.toNat_inj.mp ?_
    rw [h0] at hge
    exact Nat.le_zero.mp hge
  · have := congrArg UInt32.toNat h0
    simp only [UInt32.toNat_add, UInt32.toNat_one, UInt32.toNat_zero] at this
    omega
  · by_cases hvn : v < t.next
    · exact hbelow v hv hvn
    · exact hbetween v (UInt32.not_lt.mp hvn) hlt

/-- The first free id lies right after ids that are all taken, and before the greatest word. -/
lemma Valid.firstFree (h : Valid names t) (hlen : names.length + 2 < 2 ^ 32) {id : Word}
    (hid : id = t.firstFree (t.preserved.size + t.names.size) t.next) :
    t.isTaken id = false ∧ id ≠ 0 ∧ id + 1 ≠ 0 ∧
      ∀ v, v ≠ 0 → v < id → t.isTaken v = true := by
  -- one more id than names is not taken in whole
  obtain ⟨k, hk1, hk, hfree⟩ : ∃ k, 1 ≤ k ∧ k ≤ names.length + 1 ∧
      t.isTaken (UInt32.ofNat k) = false := by
    by_contra hno
    have := h.le_length (m := names.length + 1) (by omega) fun k h1 hk => by
      by_contra hk'
      exact hno ⟨k, h1, hk, by simpa using hk'⟩
    omega
  exact firstFree_least hk1 (by omega) hfree h.next_ne h.below hid

/-! ### Giving a name an id -/

/-- What giving a name an id does: nothing if it has one; else the name gets the value that it spells
if that is preserved, or the next free id. -/
theorem assign_cases (h : t.assign name = .ok (id, t')) :
    (t.ids[name]? = some id ∧ t' = t) ∨
    (t.ids[name]? = none ∧ valueOfName? name.toList = some id ∧ id ∈ t.preserved ∧
      t.names[id]? = none ∧ t' = t.bind name id) ∨
    (t.ids[name]? = none ∧ (∀ v, valueOfName? name.toList = some v → v ∉ t.preserved) ∧
      id = t.firstFree (t.preserved.size + t.names.size) t.next ∧
      t' = { t with next := id + 1 }.bind name id) := by
  rw [SymbolTable.assign] at h
  split at h
  next => simp at h
  split at h
  next id' hid =>
    obtain ⟨rfl, rfl⟩ := by simpa using h
    exact .inl ⟨hid, rfl⟩
  next hid =>
  split at h
  next value hvalue =>
    obtain ⟨hspelled, hp⟩ := Option.filter_eq_some_iff.mp hvalue
    split at h
    next => simp at h
    next hn =>
      obtain ⟨rfl, rfl⟩ := by simpa using h
      exact .inr (.inl ⟨hid, hspelled, by simpa using hp, hn, rfl⟩)
  next hvalue =>
    obtain ⟨rfl, rfl⟩ := by simpa using h
    refine .inr (.inr ⟨hid, fun v hv hp => ?_, rfl, rfl⟩)
    rw [hv] at hvalue
    simp [Option.filter_some, hp] at hvalue

lemma assign_of_id? (hvalid : isValidName name) (h : t.id? name = some id) :
    t.assign name = .ok (id, t) := by
  simp [SymbolTable.assign, hvalid, h]

/-- A new name takes the value that it spells if that is preserved and no other spelling has it. -/
lemma assign_of_preserved (hvalid : isValidName name) (hnew : t.id? name = none)
    (hvalue : valueOfName? name.toList = some id) (hp : id ∈ t.preserved)
    (hfree : t.name? id = none) : t.assign name = .ok (id, t.bind name id) := by
  simp [SymbolTable.assign, hvalid, hnew, hvalue, Option.filter_some, hp, hfree]

lemma ids_bind (next : Word) (n : String) (v : Word) :
    ({ t with next := next }.bind name id).ids[n]? = some v ↔
      name = n ∧ id = v ∨ name ≠ n ∧ t.ids[n]? = some v := by
  simp only [SymbolTable.bind, Std.HashMap.getElem?_insert, beq_iff_eq]
  split <;> simp_all

/-- Names and ids stay each other's inverse where neither was there before. -/
lemma inverse_bind (h : ∀ (name : String) (id : Word), t.ids[name]? = some id ↔
      t.names[id]? = some name) (next : Word) (hids : t.ids[name]? = none)
    (hnames : t.names[id]? = none) (n : String) (v : Word) :
    ({ t with next := next }.bind name id).ids[n]? = some v ↔
      ({ t with next := next }.bind name id).names[v]? = some n := by
  rw [ids_bind]
  simp only [SymbolTable.bind, Std.HashMap.getElem?_insert, beq_iff_eq]
  rw [h]
  split
  next he =>
    subst he
    simp [hnames]
  next he =>
    constructor
    · rintro (⟨-, rfl⟩ | ⟨-, hv⟩)
      · exact absurd rfl he
      · exact hv
    · intro hv
      refine .inr ⟨?_, hv⟩
      rintro rfl
      rw [(h name v).mpr hv] at hids
      simp at hids

lemma isTaken_bind (next v : Word) :
    ({ t with next := next }.bind name id).isTaken v = true ↔ id = v ∨ t.isTaken v = true := by
  simp only [SymbolTable.bind, isTaken, Std.HashMap.contains_insert, Bool.or_eq_true, beq_iff_eq]
  tauto

lemma extends_bind (next : Word) (hids : t.ids[name]? = none) :
    t.Extends ({ t with next := next }.bind name id) := by
  intro n v hv
  refine (ids_bind next n v).mpr (.inr ⟨?_, hv⟩)
  rintro rfl
  simp [hids] at hv

/-- Giving a new name an id that no name has. -/
lemma Valid.bind (h : Valid names t) (next : Word) (hids : t.ids[name]? = none)
    (hnames : t.names[id]? = none) (hid : id ≠ 0) (hname : name ∈ names)
    (hkeeps : ∀ value, valueOfName? name.toList = some value → value ∈ t.preserved → id = value)
    (hnext : next ≠ 0) (hbelow : ∀ v, v ≠ 0 → v < next → v = id ∨ t.isTaken v = true) :
    Valid names ({ t with next := next }.bind name id) ∧
      t.Extends ({ t with next := next }.bind name id) ∧
      ({ t with next := next }.bind name id).ids[name]? = some id := by
  refine ⟨⟨inverse_bind h.inverse next hids hnames, fun n v hv => ?_, fun n v hv => ?_,
    h.preserved, fun n v value hv => ?_, hnext, fun v hv hlt => ?_⟩, extends_bind next hids,
    (ids_bind next name id).mpr (.inl ⟨rfl, rfl⟩)⟩
  · rcases (ids_bind next n v).mp hv with ⟨-, rfl⟩ | ⟨-, hv⟩
    · exact hid
    · exact h.nonzero n v hv
  · rcases (ids_bind next n v).mp hv with ⟨rfl, -⟩ | ⟨-, hv⟩
    · exact hname
    · exact h.named n v hv
  · rcases (ids_bind next n v).mp hv with ⟨rfl, rfl⟩ | ⟨-, hv⟩
    · exact hkeeps value
    · exact h.keeps n v value hv
  · exact (isTaken_bind next v).mpr ((hbelow v hv hlt).imp_left Eq.symm)

/-- **A name that is given an id keeps it. The id is not zero and no other name has it.** -/
theorem Valid.assign (h : Valid names t) (hlen : names.length + 2 < 2 ^ 32) (hname : name ∈ names)
    (ha : t.assign name = .ok (id, t')) :
    Valid names t' ∧ t.Extends t' ∧ t'.ids[name]? = some id := by
  rcases assign_cases ha with ⟨hid, rfl⟩ | ⟨hid, hv, hp, hn, rfl⟩ | ⟨hid, hv, rfl, rfl⟩
  · exact ⟨h, .refl _, hid⟩
  · refine h.bind t.next hid hn (h.preserved _ hp).1 hname (fun v hv' _ => ?_) h.next_ne
      fun v hv hlt => .inr (h.below v hv hlt)
    exact Option.some.inj (hv.symm.trans hv')
  · obtain ⟨hfree, hne, hnext, hbefore⟩ := h.firstFree hlen rfl
    have hn : t.names[t.firstFree (t.preserved.size + t.names.size) t.next]? = none := by
      rw [Option.eq_none_iff_forall_ne_some]
      intro n hn
      rw [← Bool.not_eq_true, isTaken_iff] at hfree
      exact hfree (.inr ⟨n, hn⟩)
    refine h.bind _ hid hn hne hname (fun v hv' hp => absurd hp (hv v hv')) hnext fun v hv hlt => ?_
    refine (eq_or_ne v _).imp_right fun hvne => hbefore v hv ?_
    rw [UInt32.lt_iff_toNat_lt] at hlt ⊢
    have hne' := mt UInt32.toNat_inj.mp hvne
    have hnext' := mt UInt32.toNat_inj.mp hnext
    simp only [UInt32.toNat_add, UInt32.toNat_one, UInt32.toNat_zero] at hlt hnext'
    omega

/-- A text without ids yet is numbered from one on. -/
lemma valid_empty (names : List String) : Valid names empty where
  inverse := by simp [empty]
  nonzero := by simp [empty]
  named := by simp [empty]
  preserved := by simp [empty]
  keeps := by simp [empty]
  next_ne := by decide
  below id hne hlt := by
    have hne := mt UInt32.toNat_inj.mp hne
    rw [UInt32.lt_iff_toNat_lt] at hlt
    simp only [empty, UInt32.toNat_one, UInt32.toNat_zero] at hlt hne
    omega

/-- Preserving a value before any name is numbered. -/
lemma Valid.preserve (h : Valid names t) (hids : t.ids = ∅) (hname : name ∈ names)
    (hv : valueOfName? name.toList = some id) : Valid names (t.preserve id) := by
  rw [SymbolTable.preserve]
  split
  · exact h
  next hne =>
    refine ⟨h.inverse, h.nonzero, h.named, fun v hv' => ?_, fun n v value hn => ?_, h.next_ne,
      fun v hv' hlt => ?_⟩
    · rcases Std.HashSet.mem_insert.mp hv' with he | hv'
      · obtain rfl : id = v := by simpa using he
        exact ⟨hne, name, hname, hv⟩
      · exact h.preserved v hv'
    · simp [hids] at hn
    · have := h.below v hv' hlt
      simp only [isTaken, Bool.or_eq_true, Std.HashSet.contains_insert] at this ⊢
      exact this.imp_left fun hc => by simp [hc]

end Spirv.SymbolTable
