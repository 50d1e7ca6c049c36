import Mathlib
import Spirv.Proofs.Encoding.NumericNames

/-!
A table of symbols under any calls.

An assembler preserves values before it gives out ids. A table does not depend on that: values may be
preserved and names given ids in any order, also a value that is a name's id already. As long as not
about all words are taken, names and ids stay each other's inverse, no name loses its id, and a call
that fails changes nothing. A new name passes over the values preserved before it unless it spells one
of them. Without preserved values the ids count the names.
-/

namespace Spirv.SymbolTable

/-- What is asked of a table. -/
inductive Call where
  | preserve (value : Word)
  | assign (name : String)

/-- The name that an id is asked for, if it is valid. -/
def Call.validName? : Call → Option String
  | preserve _ => none
  | assign name => if isValidName name then some name else none

/-- The table after a call. One that fails leaves it as it is. -/
def step (t : SymbolTable) : Call → SymbolTable
  | .preserve value => t.preserve value
  | .assign name =>
    match t.assign name with
    | .ok (_, t') => t'
    | .error _ => t

/-- The table after calls on a new one. -/
def ofCalls (calls : List Call) : SymbolTable := calls.foldl step empty

/-- The valid names that ids are asked for, in order of first appearance. -/
def firstNames (calls : List Call) : List String := (calls.filterMap Call.validName?).eraseDups

/-- The ids that are preserved or those of names. -/
def taken (t : SymbolTable) : Finset Word := (t.preserved.toList ++ t.names.keys).toFinset

/-- Giving a name an id as one does who changes the table on the way. What was changed before the id
turns out to be another name's is not undone. -/
def assignInPlace (t : SymbolTable) (name : String) : Except SymbolError Word × SymbolTable :=
  if !isValidName name then (.error (.invalidName name), t)
  else match t.id? name with
    | some id => (.ok id, t)
    | none =>
      let (id, u) := match (valueOfName? name.toList).filter t.preserved.contains with
        | some value => (value, t)
        | none =>
          let id := t.firstFree (t.preserved.size + t.names.size) t.next
          (id, { t with next := id + 1 })
      match u.name? id with
      | some existing => (.error (.collision name existing), u)
      | none => (.ok id, u.bind name id)

variable {t t' : SymbolTable} {name : String} {id : Word} {calls front : List Call} {c : Call}

lemma ofCalls_snoc (calls : List Call) (c : Call) :
    ofCalls (calls ++ [c]) = (ofCalls calls).step c := by
  simp [ofCalls]

lemma ofCalls_append (front more : List Call) :
    ofCalls (front ++ more) = more.foldl step (ofCalls front) := List.foldl_append

/-! ### The values that are preserved -/

@[simp] lemma ids_preserve (t : SymbolTable) (value : Word) : (t.preserve value).ids = t.ids := by
  rw [preserve]
  split <;> rfl

@[simp] lemma names_preserve (t : SymbolTable) (value : Word) :
    (t.preserve value).names = t.names := by
  rw [preserve]
  split <;> rfl

@[simp] lemma next_preserve (t : SymbolTable) (value : Word) :
    (t.preserve value).next = t.next := by
  rw [preserve]
  split <;> rfl

/-- A call preserves the value that it asks to preserve, and none is lost. -/
lemma mem_preserved_step {v : Word} :
    v ∈ (t.step c).preserved ↔ v ∈ t.preserved ∨ v ≠ 0 ∧ .preserve v = c := by
  cases c with
  | preserve value =>
    rw [step, Assembly.mem_preserve]
    simp only [Call.preserve.injEq]
  | assign name =>
    have hsame : (t.step (.assign name)).preserved = t.preserved := by
      rw [step]
      split
      next id t' ha =>
        rcases assign_cases ha with ⟨-, rfl⟩ | ⟨-, -, -, -, rfl⟩ | ⟨-, -, -, rfl⟩
        all_goals rfl
      next => rfl
    simp [hsame]

/-- **The values preserved are those that calls ask for, zero aside.** -/
theorem mem_preserved_ofCalls {v : Word} :
    v ∈ (ofCalls calls).preserved ↔ v ≠ 0 ∧ .preserve v ∈ calls := by
  induction calls using List.reverseRecOn with
  | nil => simp [ofCalls, empty]
  | append_singleton calls c ih =>
    rw [ofCalls_snoc, mem_preserved_step, ih, List.mem_append, List.mem_singleton]
    tauto

/-! ### The ids that are taken -/

lemma mem_taken : id ∈ t.taken ↔ t.isTaken id = true := by
  simp [taken, isTaken]

lemma isTaken_preserve {value : Word} :
    (t.preserve value).isTaken id = true ↔ t.isTaken id = true ∨ id ≠ 0 ∧ id = value := by
  rw [isTaken_iff, isTaken_iff, Assembly.mem_preserve, names_preserve]
  tauto

/-- A call takes at most one more id, and gives none back. -/
lemma taken_step (t : SymbolTable) (c : Call) :
    t.taken ⊆ (t.step c).taken ∧ ∃ id, (t.step c).taken ⊆ insert id t.taken := by
  have hbind : ∀ (next : Word) (name : String) (id : Word),
      t.taken ⊆ ({ t with next := next }.bind name id).taken ∧
        ({ t with next := next }.bind name id).taken ⊆ insert id t.taken := by
    intro next name id
    refine ⟨fun v hv => ?_, fun v hv => ?_⟩
    · exact mem_taken.mpr ((isTaken_bind next v).mpr (.inr (mem_taken.mp hv)))
    · rw [Finset.mem_insert]
      exact ((isTaken_bind next v).mp (mem_taken.mp hv)).imp Eq.symm mem_taken.mpr
  cases c with
  | preserve value =>
    refine ⟨fun v hv => ?_, value, fun v hv => ?_⟩
    · exact mem_taken.mpr (isTaken_preserve.mpr (.inl (mem_taken.mp hv)))
    · rw [Finset.mem_insert]
      exact (isTaken_preserve.mp (mem_taken.mp hv)).symm.imp And.right mem_taken.mpr
  | assign name =>
    rw [step]
    split
    next id t' ha =>
      refine (assign_cases ha).elim ?_ fun h => h.elim ?_ ?_
      · rintro ⟨-, rfl⟩
        exact ⟨subset_rfl, id, Finset.subset_insert ..⟩
      · rintro ⟨-, -, -, -, rfl⟩
        exact ⟨(hbind t.next name id).1, id, (hbind t.next name id).2⟩
      · rintro ⟨-, -, -, rfl⟩
        exact ⟨(hbind _ name id).1, id, (hbind _ name id).2⟩
    next => exact ⟨subset_rfl, 0, Finset.subset_insert ..⟩

lemma taken_subset (front more : List Call) :
    (ofCalls front).taken ⊆ (ofCalls (front ++ more)).taken := by
  induction more using List.reverseRecOn with
  | nil => simp
  | append_singleton more c ih =>
    rw [← List.append_assoc, ofCalls_snoc]
    exact ih.trans (taken_step _ c).1

/-- There are no more ids taken than there were calls. -/
lemma card_taken_le (calls : List Call) : (ofCalls calls).taken.card ≤ calls.length := by
  induction calls using List.reverseRecOn with
  | nil => simp [ofCalls, taken, empty]
  | append_singleton calls c ih =>
    rw [ofCalls_snoc, List.length_append, List.length_singleton]
    obtain ⟨id, hid⟩ := (taken_step (ofCalls calls) c).2
    exact (Finset.card_le_card hid).trans ((Finset.card_insert_le ..).trans (by omega))

/-- Among as many words as there are taken ids and one more, one is free. -/
lemma exists_free {m : ℕ} (hm : m < 2 ^ 32) (h : t.taken.card < m) :
    ∃ k, 1 ≤ k ∧ k ≤ m ∧ t.isTaken (UInt32.ofNat k) = false := by
  by_contra hno
  have hsub : ∀ k ∈ Finset.Icc 1 m, UInt32.ofNat k ∈ t.taken := by
    intro k hk
    obtain ⟨h1, hk⟩ := Finset.mem_Icc.mp hk
    rw [mem_taken]
    by_contra hfree
    exact hno ⟨k, h1, hk, by simpa using hfree⟩
  have hcard := Finset.card_le_card_of_injOn _ hsub fun k hk k' hk' he => by
    have hk := (Finset.mem_Icc.mp hk).2
    have hk' := (Finset.mem_Icc.mp hk').2
    have := congrArg UInt32.toNat he
    simp only [UInt32.toNat_ofNat'] at this
    omega
  rw [Nat.card_Icc] at hcard
  omega

/-! ### What calls keep -/

/-- Names and ids are each other's inverse, and all ids before the next one to try are taken. -/
structure Sound (t : SymbolTable) : Prop where
  inverse : ∀ (name : String) (id : Word), t.ids[name]? = some id ↔ t.names[id]? = some name
  valid : ∀ (name : String) (id : Word), t.ids[name]? = some id → isValidName name = true
  nonzero : ∀ id, t.isTaken id = true → id ≠ 0
  next_ne : t.next ≠ 0
  below : ∀ id, id ≠ 0 → id < t.next → t.isTaken id = true

lemma sound_empty : Sound empty where
  inverse := by simp [empty]
  valid := by simp [empty]
  nonzero id h := by simp [empty, isTaken] at h
  next_ne := by decide
  below := (valid_empty []).below

lemma Sound.preserve (h : t.Sound) (value : Word) : (t.preserve value).Sound where
  inverse := by simpa using h.inverse
  valid := by simpa using h.valid
  nonzero v hv := by
    rcases isTaken_preserve.mp hv with hv | ⟨hne, -⟩
    · exact h.nonzero v hv
    · exact hne
  next_ne := by simpa using h.next_ne
  below v hv hlt := isTaken_preserve.mpr (.inl (h.below v hv (by simpa using hlt)))

lemma Sound.bind (h : t.Sound) (next : Word) (hids : t.ids[name]? = none)
    (hnames : t.names[id]? = none) (hvalid : isValidName name = true) (hid : id ≠ 0)
    (hnext : next ≠ 0) (hbelow : ∀ v, v ≠ 0 → v < next → id = v ∨ t.isTaken v = true) :
    ({ t with next := next }.bind name id).Sound := by
  refine ⟨inverse_bind h.inverse next hids hnames, fun n v hv => ?_, fun v hv => ?_, hnext,
    fun v hv hlt => (isTaken_bind next v).mpr (hbelow v hv hlt)⟩
  · rcases (ids_bind next n v).mp hv with ⟨rfl, -⟩ | ⟨-, hv⟩
    · exact hvalid
    · exact h.valid n v hv
  · rcases (isTaken_bind next v).mp hv with rfl | hv
    · exact hid
    · exact h.nonzero v hv

/-- Where not about all words are taken the search for an id ends at one that is free. -/
lemma Sound.firstFree (h : t.Sound) (hroom : t.taken.card < 2 ^ 32 - 2)
    (hid : id = t.firstFree (t.preserved.size + t.names.size) t.next) :
    t.isTaken id = false ∧ id ≠ 0 ∧ id + 1 ≠ 0 ∧ ∀ v, v ≠ 0 → v < id → t.isTaken v = true := by
  obtain ⟨k, hk1, hk, hfree⟩ := exists_free (by omega) hroom
  exact firstFree_least hk1 (by omega) hfree h.next_ne h.below hid

lemma names_of_free (h : t.isTaken id = false) : id ∉ t.preserved ∧ t.names[id]? = none := by
  rw [← Bool.not_eq_true, isTaken_iff, not_or, not_exists] at h
  exact ⟨h.1, Option.eq_none_iff_forall_ne_some.mpr h.2⟩

lemma isValidName_of_assign (h : t.assign name = .ok (id, t')) : isValidName name = true := by
  rw [SymbolTable.assign] at h
  split at h
  next => simp at h
  next hvalid => simpa using hvalid

/-- **A call keeps names and ids each other's inverse, and no name loses its id.** -/
theorem Sound.step (h : t.Sound) (hroom : t.taken.card < 2 ^ 32 - 2) (c : Call) :
    (t.step c).Sound ∧ t.Extends (t.step c) := by
  cases c with
  | preserve value =>
    exact ⟨h.preserve value, fun n v hv => (ids_preserve t value).symm ▸ hv⟩
  | assign name =>
    rw [SymbolTable.step]
    split
    next id t' ha =>
      have hvalid := isValidName_of_assign ha
      rcases assign_cases ha with ⟨-, rfl⟩ | ⟨hids, -, hp, hn, rfl⟩ | ⟨hids, -, hid, rfl⟩
      · exact ⟨h, .refl _⟩
      · exact ⟨h.bind t.next hids hn hvalid (h.nonzero id (isTaken_iff.mpr (.inl hp))) h.next_ne
          fun v hv hlt => .inr (h.below v hv hlt), extends_bind t.next hids⟩
      · obtain ⟨hfree, hne, hnext, hbefore⟩ := h.firstFree hroom hid
        refine ⟨h.bind _ hids (names_of_free hfree).2 hvalid hne hnext fun v hv hlt => ?_,
          extends_bind _ hids⟩
        refine (eq_or_ne id v).imp_right fun hvne => hbefore v hv ?_
        rw [UInt32.lt_iff_toNat_lt] at hlt ⊢
        have hne' := mt UInt32.toNat_inj.mp hvne
        have hnext' := mt UInt32.toNat_inj.mp hnext
        simp only [UInt32.toNat_add, UInt32.toNat_one, UInt32.toNat_zero] at hlt hnext'
        omega
    next => exact ⟨h, .refl _⟩

lemma card_taken_of_append (h : (ofCalls (front ++ calls)).taken.card < 2 ^ 32 - 2) :
    (ofCalls front).taken.card < 2 ^ 32 - 2 :=
  (Finset.card_le_card (taken_subset front calls)).trans_lt h

lemma sound_ofCalls (h : (ofCalls calls).taken.card < 2 ^ 32 - 2) : (ofCalls calls).Sound := by
  induction calls using List.reverseRecOn with
  | nil => exact sound_empty
  | append_singleton calls c ih =>
    have hroom := card_taken_of_append h
    rw [ofCalls_snoc]
    exact ((ih hroom).step hroom c).1

lemma extends_ofCalls {more : List Call} (h : (ofCalls (front ++ more)).taken.card < 2 ^ 32 - 2) :
    (ofCalls front).Extends (ofCalls (front ++ more)) := by
  induction more using List.reverseRecOn with
  | nil => simpa using Extends.refl _
  | append_singleton more c ih =>
    rw [← List.append_assoc] at h ⊢
    have hroom := card_taken_of_append h
    rw [ofCalls_snoc]
    exact (ih hroom).trans ((sound_ofCalls hroom).step hroom c).2

/-! ### One call -/

/-- Nothing needs to be undone when a name cannot be given an id. -/
lemma Sound.assignInPlace_eq (h : t.Sound) (hroom : t.taken.card < 2 ^ 32 - 2) (name : String) :
    t.assignInPlace name = match t.assign name with
      | .ok (id, t') => (.ok id, t')
      | .error e => (.error e, t) := by
  rw [assignInPlace, SymbolTable.assign]
  split
  next => rfl
  rcases hid : t.id? name with _ | id
  · rcases hv : (valueOfName? name.toList).filter t.preserved.contains with _ | value
    · have hfree := (names_of_free (h.firstFree hroom rfl).1).2
      simp only [name?, hfree]
    · rcases hn : t.name? value with _ | existing <;> simp only [hn]
  · rfl

/-- A valid name that spells no preserved value can always be given an id, and a new one gets none that
is preserved. -/
lemma Sound.exists_assign (h : t.Sound) (hroom : t.taken.card < 2 ^ 32 - 2)
    (hvalid : isValidName name = true)
    (hspells : ∀ v, valueOfName? name.toList = some v → v ∉ t.preserved) :
    ∃ id t', t.assign name = .ok (id, t') ∧ t'.id? name = some id ∧
      (t.id? name = none → id ≠ 0 ∧ id ∉ t.preserved) := by
  rcases hid : t.id? name with _ | id
  · have hfilter : (valueOfName? name.toList).filter t.preserved.contains = none := by
      rw [Option.filter_eq_none_iff]
      intro v hv
      simpa using hspells v hv
    set fresh := t.firstFree (t.preserved.size + t.names.size) t.next with hfresh
    have ha : t.assign name = .ok (fresh, { t with next := fresh + 1 }.bind name fresh) := by
      simp [SymbolTable.assign, hvalid, hid, hfilter, hfresh]
    obtain ⟨hfree, hne, -, -⟩ := h.firstFree hroom hfresh
    exact ⟨_, _, ha, (ids_bind _ name fresh).mpr (.inl ⟨rfl, rfl⟩),
      fun _ => ⟨hne, (names_of_free hfree).1⟩⟩
  · exact ⟨id, t, assign_of_id? hvalid hid, hid, by simp⟩

/-- A valid name that spells no value preserved before can always be given an id, and a new one gets
none that was preserved before. -/
lemma exists_assign_ofCalls (hroom : (ofCalls calls).taken.card < 2 ^ 32 - 2)
    (hvalid : isValidName name = true)
    (hspells : ∀ v, valueOfName? name.toList = some v → v ≠ 0 → .preserve v ∉ calls) :
    ∃ id t, (ofCalls calls).assign name = .ok (id, t) ∧ t.id? name = some id ∧
      ((ofCalls calls).id? name = none → .preserve id ∉ calls) := by
  obtain ⟨id, t, ha, hid, hnew⟩ := (sound_ofCalls hroom).exists_assign hroom hvalid fun v hv hp =>
    have hp := mem_preserved_ofCalls.mp hp
    hspells v hv hp.1 hp.2
  refine ⟨id, t, ha, hid, fun hnone hp => ?_⟩
  obtain ⟨hne, hno⟩ := hnew hnone
  exact hno (mem_preserved_ofCalls.mpr ⟨hne, hp⟩)

/-! ### Counting names -/

/-- No value is preserved, and the ids count the names. -/
structure Counts (names : List String) (t : SymbolTable) : Prop where
  preserved : ∀ id, id ∉ t.preserved
  ids : ∀ (name : String) (id : Word), t.ids[name]? = some id ↔
    ∃ k, names[k]? = some name ∧ id.toNat = k + 1
  next : t.next.toNat = names.length + 1

variable {names : List String}

lemma Counts.id_eq (h : Counts names t) {k : ℕ} (hk : names[k]? = some name) :
    t.ids[name]? = some (UInt32.ofNat (k + 1)) ∧ (UInt32.ofNat (k + 1)).toNat = k + 1 := by
  have hlt := (List.getElem?_eq_some_iff.mp hk).1
  have hnext := t.next.toNat_lt
  have hnat : (UInt32.ofNat (k + 1)).toNat = k + 1 := by
    rw [h.next] at hnext
    exact UInt32.toNat_ofNat_of_lt' (by simp only [UInt32.size]; omega)
  exact ⟨(h.ids name _).mpr ⟨k, hk, hnat⟩, hnat⟩

/-- The names are no more than the ids that are taken. -/
lemma Counts.length_le (h : Counts names t) (hs : t.Sound) : names.length ≤ t.taken.card := by
  have hsub : Finset.Icc 1 names.length ⊆ t.taken.image UInt32.toNat := by
    intro n hn
    obtain ⟨h1, hn⟩ := Finset.mem_Icc.mp hn
    obtain ⟨hid, hnat⟩ := h.id_eq (List.getElem?_eq_getElem (show n - 1 < names.length by omega))
    rw [Nat.sub_add_cancel h1] at hid hnat
    have htaken : t.isTaken (UInt32.ofNat n) = true :=
      isTaken_iff.mpr (.inr ⟨_, (hs.inverse _ _).mp hid⟩)
    exact Finset.mem_image.mpr ⟨_, mem_taken.mpr htaken, hnat⟩
  simpa using (Finset.card_le_card hsub).trans Finset.card_image_le

lemma Counts.ids_eq_none (h : Counts names t) (hname : name ∉ names) : t.ids[name]? = none := by
  rw [Option.eq_none_iff_forall_ne_some]
  intro id hid
  obtain ⟨k, hk, -⟩ := (h.ids name id).mp hid
  exact hname (List.mem_iff_getElem?.mpr ⟨k, hk⟩)

lemma Counts.isTaken_next (h : Counts names t) (hs : t.Sound) : t.isTaken t.next = false := by
  rw [← Bool.not_eq_true, isTaken_iff]
  rintro (hp | ⟨n, hn⟩)
  · exact h.preserved _ hp
  · obtain ⟨k, hk, hnat⟩ := (h.ids n _).mp ((hs.inverse n _).mpr hn)
    have := (List.getElem?_eq_some_iff.mp hk).1
    rw [h.next] at hnat
    omega

/-- A new name gets the next id. -/
lemma Counts.bind (h : Counts names t) (hname : name ∉ names) (hlen : names.length + 2 < 2 ^ 32) :
    Counts (names ++ [name]) ({ t with next := t.next + 1 }.bind name t.next) := by
  refine ⟨h.preserved, fun n v => ?_, ?_⟩
  · rw [ids_bind, h.ids]
    constructor
    · rintro (⟨rfl, rfl⟩ | ⟨-, k, hk, hv⟩)
      · exact ⟨names.length, List.getElem?_concat_length, h.next⟩
      · rw [← List.getElem?_append_left (List.getElem?_eq_some_iff.mp hk).1] at hk
        exact ⟨k, hk, hv⟩
    · rintro ⟨k, hk, hv⟩
      rcases Nat.lt_or_ge k names.length with hlt | hge
      · rw [List.getElem?_append_left hlt] at hk
        refine .inr ⟨?_, k, hk, hv⟩
        rintro rfl
        exact hname (List.mem_of_getElem? hk)
      · rw [List.getElem?_append_right hge, List.getElem?_singleton] at hk
        split at hk
        next hk0 =>
          refine .inl ⟨Option.some.inj hk, UInt32.toNat_inj.mp ?_⟩
          rw [h.next, hv]
          omega
        next => simp at hk
  · rw [SymbolTable.bind, List.length_append, List.length_singleton]
    simp only [UInt32.toNat_add, UInt32.toNat_one, h.next]
    omega

/-- A name that is asked for again keeps its id, and a new one gets the next. -/
lemma Counts.assign (h : Counts names t) (hs : t.Sound) (hroom : t.taken.card < 2 ^ 32 - 2)
    (hvalid : isValidName name = true) :
    Counts (if name ∈ names then names else names ++ [name]) (t.step (.assign name)) := by
  split
  next hmem =>
    obtain ⟨k, hk⟩ := List.mem_iff_getElem?.mp hmem
    rwa [SymbolTable.step, assign_of_id? hvalid (h.id_eq hk).1]
  next hmem =>
    have hlen := h.length_le hs
    have hfirst : t.firstFree (t.preserved.size + t.names.size) t.next = t.next := by
      cases t.preserved.size + t.names.size <;> simp [SymbolTable.firstFree, h.isTaken_next hs]
    have hfilter : (valueOfName? name.toList).filter t.preserved.contains = none := by
      rw [Option.filter_eq_none_iff]
      intro v _
      simpa using h.preserved v
    have hstep : t.step (.assign name) = { t with next := t.next + 1 }.bind name t.next := by
      simp [SymbolTable.step, SymbolTable.assign, hvalid, id?, h.ids_eq_none hmem, hfilter, hfirst]
    exact hstep ▸ h.bind hmem (by omega)

lemma firstNames_snoc_of_none (h : c.validName? = none) :
    firstNames (calls ++ [c]) = firstNames calls := by
  simp [firstNames, h]

lemma firstNames_snoc_of_some (h : c.validName? = some name) : firstNames (calls ++ [c]) =
    if name ∈ firstNames calls then firstNames calls else firstNames calls ++ [name] := by
  have hone : ([c].filterMap Call.validName?) = [name] := by simp [h]
  have hmem : name ∈ firstNames calls ↔ name ∈ calls.filterMap Call.validName? :=
    List.mem_eraseDups
  rw [firstNames, List.filterMap_append, hone, List.eraseDups_append, ← firstNames,
    List.cons_removeAll, List.contains_eq_mem]
  by_cases hold : name ∈ firstNames calls
  · simp [hold, hmem.mp hold, -List.mem_filterMap]
  · simp [hold, mt hmem.mpr hold, -List.mem_filterMap, List.eraseDups_cons]

/-- **Where no value is preserved the ids count the names in order of first appearance.** -/
theorem counts_ofCalls (h : (ofCalls calls).taken.card < 2 ^ 32 - 2)
    (hp : ∀ v, .preserve v ∈ calls → v = 0) : Counts (firstNames calls) (ofCalls calls) := by
  induction calls using List.reverseRecOn with
  | nil => exact ⟨by simp [ofCalls, empty], by simp [ofCalls, empty, firstNames], rfl⟩
  | append_singleton calls c ih =>
    have hroom := card_taken_of_append h
    have ih := ih hroom fun v hv => hp v (List.mem_append_left _ hv)
    rw [ofCalls_snoc]
    cases c with
    | preserve v =>
      obtain rfl := hp v (by simp)
      rw [firstNames_snoc_of_none rfl]
      simpa [SymbolTable.step, SymbolTable.preserve] using ih
    | assign name =>
      by_cases hvalid : isValidName name = true
      · rw [firstNames_snoc_of_some (show Call.validName? (.assign name) = _ from if_pos hvalid)]
        exact ih.assign (sound_ofCalls hroom) hroom hvalid
      · rw [firstNames_snoc_of_none (show Call.validName? (.assign name) = _ from if_neg hvalid)]
        simpa [SymbolTable.step, SymbolTable.assign, hvalid] using ih

/-- **A table stays a stable bijection under any calls.** Names and ids are each other's inverse, all
names are valid and no id is zero. The values preserved are those that calls asked for. A name keeps
its id through all later calls. A call that fails leaves the table as it was, and so all that comes
after it; nothing it changes on the way has to be undone. A valid name that spells no value preserved
by the calls before can always be given an id, and if it is new, none that these calls preserved.
Where no value is preserved the ids count the names in order of first appearance. -/
theorem ofCalls_stable (calls : List Call) (hroom : (ofCalls calls).taken.card < 2 ^ 32 - 2) :
    (∀ name id, (ofCalls calls).id? name = some id ↔ (ofCalls calls).name? id = some name) ∧
      (∀ name id, (ofCalls calls).id? name = some id → isValidName name = true ∧ 1 ≤ id) ∧
      (∀ v, v ∈ (ofCalls calls).preserved ↔ v ≠ 0 ∧ .preserve v ∈ calls) ∧
      (∀ front later, calls = front ++ later →
        (∀ name id, (ofCalls front).id? name = some id → (ofCalls calls).id? name = some id ∧
          (ofCalls calls).assign name = .ok (id, ofCalls calls)) ∧
        ∀ name,
          ((ofCalls front).assignInPlace name = match (ofCalls front).assign name with
            | .ok (id, t) => (.ok id, t)
            | .error e => (.error e, ofCalls front)) ∧
          (∀ e, (ofCalls front).assign name = .error e → ∀ more,
            ofCalls (front ++ .assign name :: more) = ofCalls (front ++ more)) ∧
          (isValidName name = true →
            (∀ v, valueOfName? name.toList = some v → v ≠ 0 → .preserve v ∉ front) →
            ∃ id t, (ofCalls front).assign name = .ok (id, t) ∧ t.id? name = some id ∧
              ((ofCalls front).id? name = none → .preserve id ∉ front))) ∧
      ((∀ v, .preserve v ∈ calls → v = 0) → ∀ name id, (ofCalls calls).id? name = some id ↔
        ∃ k, (firstNames calls)[k]? = some name ∧ id.toNat = k + 1) := by
  have hsound := sound_ofCalls hroom
  refine ⟨hsound.inverse, fun name id hid => ⟨hsound.valid name id hid, ?_⟩,
    fun v => mem_preserved_ofCalls, fun front later he => ?_,
    fun hp => (counts_ofCalls hroom hp).ids⟩
  · have hne := hsound.nonzero id (isTaken_iff.mpr (.inr ⟨name, (hsound.inverse name id).mp hid⟩))
    have hnat := mt UInt32.toNat_inj.mp hne
    rw [UInt32.le_iff_toNat_le]
    simpa [Nat.one_le_iff_ne_zero] using hnat
  · subst he
    have hfront := card_taken_of_append hroom
    refine ⟨fun name id hid => ?_, fun name =>
      ⟨(sound_ofCalls hfront).assignInPlace_eq hfront name, fun e ha more => ?_,
        exists_assign_ofCalls hfront⟩⟩
    · have hlater := extends_ofCalls hroom name id hid
      exact ⟨hlater, assign_of_id? (hsound.valid name id hlater) hlater⟩
    · rw [ofCalls_append, ofCalls_append, List.foldl_cons, SymbolTable.step, ha]

/-- A name keeps its id where that is preserved later. A name that comes after a value was preserved
passes it over. -/
theorem ofCalls_stable_sample :
    ((ofCalls [.assign "a", .preserve 1, .assign "1", .assign "b"]).taken.card < 2 ^ 32 - 2 ∧
      (ofCalls [.assign "a", .preserve 1, .assign "1", .assign "b"]).id? "a" = some 1) ∧
    (ofCalls [.preserve 2, .assign "a", .assign "b"]).taken.card < 2 ^ 32 - 2 ∧
      2 ∈ (ofCalls [.preserve 2, .assign "a", .assign "b"]).preserved ∧
      (∃ id t, (ofCalls [.preserve 2, .assign "a"]).assign "b" = .ok (id, t) ∧
        t.id? "b" = some id ∧ id ≠ 2) ∧
      (ofCalls [.preserve 2, .assign "a", .assign "b"]).id? "b" = some 3 := by
  have hroom (calls : List Call) (h : calls.length < 5) : (ofCalls calls).taken.card < 2 ^ 32 - 2 :=
    (card_taken_le calls).trans_lt (by omega)
  have ha : isValidName "a" = true ∧ valueOfName? ['a'] = none := by decide
  have hb : isValidName "b" = true ∧ valueOfName? ['b'] = none := by decide
  have hfirst : (ofCalls [.assign "a"]).id? "a" = some 1 :=
    ((ofCalls_stable [.assign "a"] (hroom _ (by decide))).2.2.2.2 (by simp) "a" 1).mpr
      ⟨0, by decide, rfl⟩
  obtain ⟨-, -, hpreserved, hcalls, -⟩ :=
    ofCalls_stable [.preserve 2, .assign "a", .assign "b"] (hroom _ (by decide))
  obtain ⟨id, t, hassign, hid, hnew⟩ :=
    ((hcalls [.preserve 2, .assign "a"] [.assign "b"] rfl).2 "b").2.2 hb.1 (by simp [hb.2])
  have hnone : (ofCalls [.preserve 2, .assign "a"]).id? "b" = none := by
    simp [ofCalls, step, assign, preserve, empty, ha, id?, SymbolTable.bind]
  refine ⟨⟨hroom _ (by decide), ?_⟩, hroom _ (by decide), (hpreserved 2).mpr (by simp),
    ⟨id, t, hassign, hid, fun he => hnew hnone (by simp [he])⟩, ?_⟩
  · exact ((((ofCalls_stable _ (hroom _ (by decide))).2.2.2.1 [.assign "a"] _ rfl).1 "a" 1) hfirst).1
  · simp [ofCalls, step, assign, preserve, empty, ha, hb, id?, SymbolTable.firstFree, isTaken,
      SymbolTable.bind, Std.HashSet.size_insert, Std.HashMap.size_insert]

end Spirv.SymbolTable
