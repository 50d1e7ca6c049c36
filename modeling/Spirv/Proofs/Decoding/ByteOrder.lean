import Mathlib
import Spirv.Proofs.Decoding.Handover
import Spirv.Proofs.Word

/-!
Byte order.

A module is read alike in either byte order. Its words are put into one order before anything looks at
them, so with the bytes of each word in the opposite order a visitor is handed the same parts, up to the
header's note of the order itself, and reading ends in the same way. Bytes are read as the words that
they make up, the least significant byte first.
-/

namespace Spirv

def ByteOrder.opposite : ByteOrder → ByteOrder
  | little => big
  | big => little

/-- The same header of a module in the opposite byte order. -/
def Header.reordered (h : Header) : Header := { h with order := h.order.opposite }

namespace Word

variable {w : Word}

@[simp] lemma bytes_swap (w : Word) : w.swap.bytes = w.bytes.reverse := by
  rw [swap, bytes_ofBytes]
  rfl

@[simp] lemma swap_swap (w : Word) : w.swap.swap = w :=
  bytes_injective (by simp)

lemma swap_eq_iff {v : Word} : v.swap = w ↔ v = w.swap :=
  ⟨fun h => by rw [← h, swap_swap], fun h => by rw [h, swap_swap]⟩

/-! ### Words in bytes -/

/-- The bytes with each four of them in the opposite order. -/
def swapGroups : List UInt8 → List UInt8
  | a :: b :: c :: d :: rest => d :: c :: b :: a :: swapGroups rest
  | rest => rest

lemma ofByteList_go (acc words : List Word) :
    ofByteList.go acc (words.flatMap Word.bytes) = acc.reverse ++ words := by
  induction words generalizing acc with
  | nil => simp [ofByteList.go]
  | cons w words ih =>
    have hw : w.bytes ++ words.flatMap Word.bytes
        = w.toUInt8 :: (w >>> 8).toUInt8 :: (w >>> 16).toUInt8 :: (w >>> 24).toUInt8
          :: words.flatMap Word.bytes := rfl
    rw [List.flatMap_cons, hw, ofByteList.go, ih, ofBytes_of_bytes (w := w) rfl]
    simp

/-- The words that bytes make up. -/
lemma ofByteList_flatMap (words : List Word) : ofByteList (words.flatMap Word.bytes) = words := by
  simpa [ofByteList] using ofByteList_go [] words

/-- Bytes in groups of four make up words. -/
lemma exists_flatMap_bytes {bytes : List UInt8} (h : bytes.length % 4 = 0) :
    ∃ words : List Word, bytes = words.flatMap Word.bytes := by
  induction hn : bytes.length using Nat.strong_induction_on generalizing bytes with
  | _ n ih =>
  subst hn
  match bytes, h with
  | [], _ => exact ⟨[], rfl⟩
  | [_], h | [_, _], h | [_, _, _], h => simp at h
  | a :: b :: c :: d :: rest, h =>
    simp only [List.length_cons] at h
    obtain ⟨words, rfl⟩ := ih rest.length (by simp only [List.length_cons]; omega) (by omega) rfl
    exact ⟨ofBytes a b c d :: words, by simp⟩

lemma swapGroups_flatMap (words : List Word) :
    swapGroups (words.flatMap Word.bytes) = (words.map swap).flatMap Word.bytes := by
  induction words with
  | nil => rfl
  | cons w words ih =>
    rw [List.map_cons, List.flatMap_cons, List.flatMap_cons, ← ih, bytes_swap]
    rfl

lemma length_swapGroups (bytes : List UInt8) : (swapGroups bytes).length = bytes.length := by
  fun_induction swapGroups bytes with
  | case1 => simp_all
  | case2 => rfl

end Word

/-- The magic number tells the opposite order where its bytes are in the opposite order. -/
lemma ByteOrder.ofMagic?_swap (w : Word) : ofMagic? w.swap = (ofMagic? w).map opposite := by
  have hmagic : magic ≠ Word.swap magic := by decide
  rw [ofMagic?, ofMagic?]
  simp only [Word.swap_eq_iff, Word.swap_swap]
  by_cases hlittle : w = magic
  · simp [hlittle, hmagic, opposite]
  by_cases hbig : w = Word.swap magic
  · simp [hbig, hmagic.symm, opposite]
  · simp [hlittle, hbig]

namespace Binary

variable {σ β : Type}

/-- The same part of a module in the opposite byte order. -/
def Part.reordered : Part → Part
  | header h => .header h.reordered
  | instruction i => .instruction i

/-- A visitor that takes each module for one of the opposite byte order. -/
def Visitor.reordered (v : Visitor σ β) : Visitor σ β where
  header s h := v.header s h.reordered
  instruction := v.instruction

/-- The header of swapped words is the same, as are the words after it. -/
lemma readHeader_swap (words : List Word) : readHeader (words.map Word.swap)
    = (readHeader words).map fun read => (read.1.reordered, read.2) := by
  rw [readHeader, readHeader, List.length_map]
  split
  next => rfl
  next hlength =>
  have hlength : 5 ≤ words.length := not_lt.mp hlength
  obtain ⟨w, a, b, c, d, rest, rfl⟩ : ∃ w a b c d rest, words = w :: a :: b :: c :: d :: rest := by
    rcases words with _ | ⟨w, _ | ⟨a, _ | ⟨b, _ | ⟨c, _ | ⟨d, rest⟩⟩⟩⟩⟩
    case cons.cons.cons.cons.cons => exact ⟨w, a, b, c, d, rest, rfl⟩
    all_goals simp at hlength
  simp only [List.map_cons, List.headD_cons, ByteOrder.ofMagic?_swap]
  rcases ByteOrder.ofMagic? w with _ | _ | _
  · rfl
  · simp [ByteOrder.opposite, Except.map, Header.reordered, Function.comp_def]
  · simp [ByteOrder.opposite, Except.map, Header.reordered]

/-! ### What a visitor is handed of either -/

variable {v w : Visitor σ β} {s : σ}

lemma visitInstructions_congr (hinstruction : v.instruction = w.instruction) (d : Defined) (s : σ)
    (start : ℕ) (words : List Word) :
    visitInstructions v d s start words = visitInstructions w d s start words := by
  fun_induction visitInstructions v d s start words with
  | case1 => rw [visitInstructions]
  | case2 => simp_all [visitInstructions]
  | case3 => simp_all [visitInstructions]
  | case4 => simp_all [visitInstructions]

/-- The header is seen once and first, by a visitor as it is at the start. -/
lemma visit_congr (hheader : ∀ h, v.header s h = w.header s h)
    (hinstruction : v.instruction = w.instruction) (words : List Word) :
    visit v s words = visit w s words := by
  simp only [visit, hheader, visitInstructions_congr hinstruction]

/-- A visitor meets the swapped words as it would meet the words if it took them for swapped. -/
lemma visit_swap (v : Visitor σ β) (s : σ) (words : List Word) :
    visit v s (words.map Word.swap) = visit v.reordered s words := by
  have hinstruction : v.instruction = v.reordered.instruction := rfl
  rw [visit, visit, readHeader_swap]
  rcases readHeader words with e | ⟨h, code⟩
  · rfl
  · simp only [Except.map, visitInstructions_congr hinstruction]
    rfl

/-- A visitor that answers the headers of both alike does not tell them apart. -/
lemma visit_reordered (hv : ∀ h, v.header s h.reordered = v.header s h) (words : List Word) :
    visit v.reordered s words = visit v s words :=
  visit_congr (v := v.reordered) hv rfl words

lemma received_reordered (hv : ∀ h, v.header s h.reordered = v.header s h) (words : List Word) :
    received v.reordered s words = received v s words := by
  have hnoting : ∀ h, v.reordered.noting.header (s, []) h = v.noting.header (s, []) h := fun h => by
    simp only [Visitor.noting, Visitor.reordered, hv]
  rw [received, received, visit_congr hnoting rfl]

/-- Handing over the parts in the opposite order is to hand over the parts to a visitor that takes
them for such. -/
lemma attend_reordered (v : Visitor σ β) (behind : Except Error (Status Empty)) (s : σ)
    (parts : List Part) :
    v.attend behind s (parts.map Part.reordered) = v.reordered.attend behind s parts := by
  induction parts generalizing s with
  | nil => rfl
  | cons p ps ih =>
    have hsee : v.see s p.reordered = v.reordered.see s p := by cases p <;> rfl
    rw [List.map_cons, Visitor.attend, Visitor.attend, hsee]
    rcases v.reordered.see s p with t | ⟨t, value⟩
    · exact ih t
    · rfl

/-- A visitor is handed the same parts of both. -/
lemma exists_attend_swap (v : Visitor σ β) (s : σ) (words : List Word) :
    ∃ parts behind, Divides words parts behind ∧ visit v s words = v.attend behind s parts ∧
      visit v s (words.map Word.swap) = v.attend behind s (parts.map Part.reordered) := by
  obtain ⟨parts, behind, hparts, hvisit⟩ := exists_divides words
  exact ⟨parts, behind, hparts, hvisit v s, by rw [visit_swap, hvisit, attend_reordered]⟩

/-- The parts noted of one run are those noted of the other, each in the opposite order. -/
lemma attend_noting_reordered (v : Visitor σ β) (behind : Except Error (Status Empty)) (s : σ)
    (seen parts : List Part) :
    (v.noting.reordered.attend behind (s, seen.map Part.reordered) parts).1.2
      = (v.reordered.noting.attend behind (s, seen) parts).1.2.map Part.reordered := by
  induction parts generalizing s seen with
  | nil => rfl
  | cons p ps ih =>
    have hsee : v.noting.reordered.see (s, seen.map Part.reordered) p
        = (v.reordered.see s p).beside ((seen ++ [p]).map Part.reordered) := by
      rw [List.map_append]
      cases p <;> rfl
    rw [Visitor.attend, Visitor.attend, hsee, Visitor.see_noting]
    rcases v.reordered.see s p with t | ⟨t, value⟩
    · exact ih t (seen ++ [p])
    · rfl

lemma received_swap (v : Visitor σ β) (s : σ) (words : List Word) :
    received v s (words.map Word.swap) = (received v.reordered s words).map Part.reordered := by
  obtain ⟨parts, behind, -, hvisit⟩ := exists_divides words
  rw [received, visit_swap, hvisit, received, hvisit]
  exact attend_noting_reordered v behind s [] parts

/-! ### Bytes -/

/-- Words are never refused for their number of bytes. -/
lemma exists_binary_of_visit {words : List Word} {e : Error} (h : (visit v s words).2 = .error e) :
    ∃ fault index, e = .binary fault index := by
  obtain ⟨parts, behind, hparts, hreceived⟩ := exists_received words
  rcases hreceived v s with ⟨value, -, -, hend⟩ | ⟨-, hend, -⟩
  · rw [hend] at h
    simp at h
  · obtain rfl := map_widen_eq_error (hend.symm.trans h)
    obtain ⟨fault, index, rfl, -⟩ := hparts.exists_index
    exact ⟨fault, index, rfl⟩

/-- Bytes that make up words are read as these. -/
lemma visitBytes_flatMap (v : Visitor σ β) (s : σ) (words : List Word) :
    visitBytes v s (words.flatMap Word.bytes) = visit v s words := by
  have hlength : (words.flatMap Word.bytes).length % 4 = 0 := by
    simp [List.length_flatMap, Word.bytes]
  rw [visitBytes, if_neg (not_not.mpr hlength), Word.ofByteList_flatMap]

/-- Bytes are refused exactly if they are no whole number of words, and with their number. -/
lemma visitBytes_eq_partialWord_iff {bytes : List UInt8} {n : ℕ} :
    (visitBytes v s bytes).2 = .error (.partialWord n) ↔ n = bytes.length ∧ bytes.length % 4 ≠ 0 := by
  rw [visitBytes]
  split
  next hodd => simp [hodd, eq_comm]
  next heven =>
    refine iff_of_false (fun he => ?_) fun h => heven h.2
    obtain ⟨_, _, he⟩ := exists_binary_of_visit he
    simp at he

/-- **Byte order is invisible.** With the bytes of each word in the opposite order a visitor is handed
the same parts, up to the order that the header notes, and reading comes to the same behind them. So
unless the visitor asks the header for its order it makes the same of both, and reading ends with the
same status or error. Bytes that are no whole number of words are refused, and no others for that;
others are read as the words that they make up, the least significant byte first, and with each four
bytes in the opposite order as these words swapped. -/
theorem visit_byteOrder (v : Visitor σ β) (s : σ) (words : List Word) (bytes : List UInt8) :
    (∃ parts behind, Divides words parts behind ∧ visit v s words = v.attend behind s parts ∧
        visit v s (words.map Word.swap) = v.attend behind s (parts.map Part.reordered)) ∧
      ((∀ h, v.header s h.reordered = v.header s h) →
        visit v s (words.map Word.swap) = visit v s words ∧
          received v s (words.map Word.swap) = (received v s words).map Part.reordered) ∧
      (∀ n, (visitBytes v s bytes).2 = .error (.partialWord n) ↔
        n = bytes.length ∧ bytes.length % 4 ≠ 0) ∧
      (bytes.length % 4 ≠ 0 → visitBytes v s (Word.swapGroups bytes) = visitBytes v s bytes) ∧
      (bytes.length % 4 = 0 → ∃ words, bytes = words.flatMap Word.bytes ∧
        visitBytes v s bytes = visit v s words ∧
        visitBytes v s (Word.swapGroups bytes) = visit v s (words.map Word.swap)) := by
  refine ⟨exists_attend_swap v s words, fun hv => ⟨?_, ?_⟩,
    fun n => visitBytes_eq_partialWord_iff, fun hodd => ?_, fun heven => ?_⟩
  · rw [visit_swap, visit_reordered hv]
  · rw [received_swap, received_reordered hv]
  · rw [visitBytes, visitBytes, Word.length_swapGroups, if_pos hodd, if_pos hodd]
  · obtain ⟨words, rfl⟩ := Word.exists_flatMap_bytes heven
    rw [Word.swapGroups_flatMap, visitBytes_flatMap, visitBytes_flatMap]
    exact ⟨words, rfl, rfl, rfl⟩

end Binary

end Spirv
