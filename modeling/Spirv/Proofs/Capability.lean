import Mathlib
import Spirv.Proofs.Tables

/-!
Sets of capabilities.

The values of capabilities are distinct and less than 64, so each capability has a bit of its own.
Putting one into a set turns on its bit and leaves the others, so a set has the members that were put
into it, however often and in whatever order. Listing them goes through the bits from the lowest up.
-/

namespace Spirv

namespace Capability

variable {c c' : Capability} {v : ℕ}

lemma value_lt (c : Capability) : c.value < 64 := by
  cases c <;> decide

lemma mem_all (c : Capability) : c ∈ all := by
  cases c <;> decide

lemma nodup_values : (all.map value).Nodup := by
  decide +kernel

lemma ofValue?_value (c : Capability) : ofValue? c.value = some c :=
  find?_of_nodup_map nodup_values (mem_all c)

lemma value_of_ofValue? (h : ofValue? v = some c) : c.value = v := by
  simpa using List.find?_some h

lemma value_inj : c.value = c'.value ↔ c = c' := by
  refine ⟨fun h => Option.some.inj ?_, congrArg value⟩
  rw [← ofValue?_value c, h, ofValue?_value c']

end Capability

namespace CapabilitySet

open Capability

variable {s t : CapabilitySet} {c : Capability} {cs order : List Capability} {i : ℕ}

lemma eq_of_getLsbD (h : ∀ i, s.bits.getLsbD i = t.bits.getLsbD i) : s = t := by
  obtain ⟨bits⟩ := s
  obtain ⟨bits'⟩ := t
  exact congrArg mk (BitVec.eq_of_getLsbD_eq fun i _ => h i)

/-- A capability that is put in turns on its bit and no other. -/
lemma getLsbD_insert (s : CapabilitySet) (c : Capability) (i : ℕ) :
    (s.insert c).bits.getLsbD i = (s.bits.getLsbD i || decide (c.value = i)) := by
  rw [insert, BitVec.getLsbD_or, BitVec.getLsbD_twoPow, decide_eq_true c.value_lt, Bool.true_and]

lemma getLsbD_foldl_insert (s : CapabilitySet) (cs : List Capability) (i : ℕ) :
    (cs.foldl insert s).bits.getLsbD i = (s.bits.getLsbD i || cs.any (·.value = i)) := by
  induction cs generalizing s with
  | nil => simp
  | cons c cs ih => rw [List.foldl_cons, ih, getLsbD_insert, List.any_cons, Bool.or_assoc]

lemma getLsbD_ofList (cs : List Capability) (i : ℕ) :
    (ofList cs).bits.getLsbD i = cs.any (·.value = i) := by
  induction cs with
  | nil => simp [ofList]
  | cons c cs ih =>
    have hcons : ofList (c :: cs) = ⟨BitVec.twoPow 64 c.value ||| (ofList cs).bits⟩ := rfl
    rw [hcons, BitVec.getLsbD_or, ih, BitVec.getLsbD_twoPow, decide_eq_true c.value_lt,
      Bool.true_and, List.any_cons]

/-- Capabilities put in one after the other, in any order and any number of times. -/
lemma foldl_insert_empty (h : ∀ c, c ∈ order ↔ c ∈ cs) : order.foldl insert empty = ofList cs := by
  refine eq_of_getLsbD fun i => ?_
  have hempty : empty.bits.getLsbD i = false := by simp [empty]
  rw [getLsbD_foldl_insert, getLsbD_ofList, hempty, Bool.false_or, Bool.eq_iff_iff]
  simp only [List.any_eq_true, h]

lemma ofList_congr (h : ∀ c, c ∈ order ↔ c ∈ cs) : ofList order = ofList cs :=
  (foldl_insert_empty fun _ => Iff.rfl).symm.trans (foldl_insert_empty h)

lemma contains_ofList : (ofList cs).contains c = true ↔ c ∈ cs := by
  simp [contains, getLsbD_ofList, value_inj]

lemma mem_toList : c ∈ s.toList ↔ s.contains c = true := by
  rw [toList, List.mem_filterMap]
  constructor
  · rintro ⟨i, hi, hc⟩
    rw [contains, value_of_ofValue? hc]
    exact (List.mem_filter.mp hi).2
  · intro h
    have hmem : c.value ∈ (List.range 64).filter s.bits.getLsbD :=
      List.mem_filter.mpr ⟨List.mem_range.mpr c.value_lt, h⟩
    exact ⟨c.value, hmem, ofValue?_value c⟩

/-- The lowest bit comes first. -/
lemma pairwise_toList (s : CapabilitySet) : s.toList.Pairwise (·.value < ·.value) := by
  refine List.pairwise_filterMap.mpr (List.pairwise_lt_range.filter _ |>.imp ?_)
  intro i j hij c hc c' hc'
  rwa [value_of_ofValue? hc, value_of_ofValue? hc']

lemma nodup_toList (s : CapabilitySet) : s.toList.Nodup :=
  s.pairwise_toList.imp fun h heq => h.ne (congrArg value heq)

/-- **A set of capabilities has the members that it is made of.** The set of a list is the same as
what comes of putting the capabilities of the list into an empty set one after the other, and the list
may be gone through in any order and with any repetitions. Just the capabilities of the list are in it.
They are listed by increasing value, each of them once, and the set is found again from there. -/
theorem ofList_members (cs : List Capability) :
    (cs.foldl insert empty = ofList cs ∧ ∀ order : List Capability, (∀ c, c ∈ order ↔ c ∈ cs) →
        ofList order = ofList cs ∧ order.foldl insert empty = ofList cs) ∧
      (∀ c, (ofList cs).contains c = true ↔ c ∈ cs) ∧
      (ofList cs).toList.Pairwise (·.value < ·.value) ∧
      (∀ c, (ofList cs).toList.count c = if c ∈ cs then 1 else 0) ∧
      (ofList cs).toList.foldl insert empty = ofList cs := by
  have hmem : ∀ c, c ∈ (ofList cs).toList ↔ c ∈ cs := fun c => mem_toList.trans contains_ofList
  refine ⟨⟨foldl_insert_empty fun _ => Iff.rfl, fun order h =>
    ⟨ofList_congr h, foldl_insert_empty h⟩⟩, fun c => contains_ofList, pairwise_toList _,
    fun c => ?_, foldl_insert_empty hmem⟩
  rw [(nodup_toList _).count]
  simp only [hmem]

namespace Sample

/-- Capabilities on both sides of the gap in the values, and the greatest. -/
def increasing : List Capability := [.matrix, .imageMipmap, .pipes, .multiViewport]

def repeated : List Capability := [.multiViewport, .pipes, .matrix, .pipes, .imageMipmap]

end Sample

/-- Capabilities that are put in from the greatest down, one of them twice. -/
theorem ofList_members_sample : (∀ c, c ∈ Sample.repeated ↔ c ∈ Sample.increasing) ∧
    Sample.repeated.foldl insert empty = ofList Sample.increasing ∧
    (ofList Sample.repeated).toList = Sample.increasing := by
  have horder : ∀ c, c ∈ Sample.repeated ↔ c ∈ Sample.increasing := fun c => by
    simp only [Sample.repeated, Sample.increasing, List.mem_cons, List.not_mem_nil, or_false]
    tauto
  exact ⟨horder, ((ofList_members _).1.2 _ horder).2, by decide⟩

end CapabilitySet

end Spirv
