import Mathlib
import Spirv.Proofs.Decoding.Dependence

/-!
Decoding is causal.

A string is looked for to the end of the module and a number may claim words past its instruction.
An operand that runs past the end stated is refused all the same, so an instruction that is shown was
read from its own words. A module that is cut behind an instruction, and one that goes on differently
from there, show every instruction up to it alike.
-/

namespace Spirv

lemma hostOrder_eq_map (words : List Word) : hostOrder words
    = words.map (if ByteOrder.ofMagic? (words.headD 0) = some .big then Word.swap else id) := by
  rw [hostOrder]
  split
  · rfl
  · rw [List.map_id]

namespace Binary

variable {σ β τ : Type}

/-- A header is read exactly where the words, in the order that the first one tells, start with it. -/
lemma readHeader_eq_ok_iff {words code : List Word} {h : Header} : readHeader words = .ok (h, code) ↔
    ByteOrder.ofMagic? (words.headD 0) = some h.order ∧ hostOrder words = h.words ++ code := by
  have hnative : ∀ order, ByteOrder.ofMagic? (words.headD 0) = some order →
      hostOrder words = if order = .little then words else words.map Word.swap := by
    intro order horder
    rw [hostOrder, horder]
    cases order <;> simp
  constructor
  · intro hok
    rw [readHeader] at hok
    split at hok
    next => simp at hok
    split at hok
    next => simp at hok
    next order horder =>
    dsimp only at hok
    rw [← hnative order horder] at hok
    split at hok
    next hw =>
      obtain ⟨rfl, rfl⟩ := by simpa using hok
      exact ⟨horder, hw⟩
    next => simp at hok
  · rintro ⟨horder, hw⟩
    have hlen : ¬ words.length < Header.wordCount := by
      have hlen := congrArg List.length hw
      rw [hostOrder_eq_map, List.length_map, List.length_append] at hlen
      simp only [Header.words, List.length_cons, List.length_nil] at hlen
      simp only [Header.wordCount]
      omega
    rw [readHeader, if_neg hlen, horder]
    simp only [← hnative _ horder, hw, Header.words, List.cons_append, List.nil_append]

/-- A module that starts with the same words has the same header and the same words after it. -/
lemma readHeader_take_append {words front rest : List Word} {h : Header}
    (hh : readHeader words = .ok (h, front ++ rest)) (more : List Word) :
    ∃ tail, readHeader (words.take (Header.wordCount + front.length) ++ more)
      = .ok (h, front ++ tail) ∧ (more = [] → tail = []) := by
  obtain ⟨horder, hw⟩ := readHeader_eq_ok_iff.mp hh
  have hhead : (words.take (Header.wordCount + front.length) ++ more).headD 0 = words.headD 0 := by
    rcases words with _ | ⟨w, words⟩
    · simp [hostOrder, Header.words] at hw
    · simp [Header.wordCount, Nat.add_comm 5]
  have hcut : (hostOrder words).take (Header.wordCount + front.length) = h.words ++ front := by
    rw [hw, ← List.append_assoc]
    exact List.take_left' (by simp [Header.words, Header.wordCount]; omega)
  rw [hostOrder_eq_map, ← List.map_take] at hcut
  refine ⟨more.map (if ByteOrder.ofMagic? (words.headD 0) = some .big then Word.swap else id),
    readHeader_eq_ok_iff.mpr ⟨by rw [hhead, horder], ?_⟩, fun he => by rw [he, List.map_nil]⟩
  rw [hostOrder_eq_map, hhead, List.map_append, hcut, List.append_assoc]

/-! ### What stands behind the instructions does not show -/

/-- Behind instructions that are decoded a visitor may see different words; it is shown these
instructions, up to where it stops, in either case. -/
lemma take_visitInstructions (v : Visitor σ β) (s : σ) (seen : List Instruction) (start : ℕ)
    (tail tail' : List Word) {d : Defined} {earlier is : List Instruction} (h : Knows d earlier)
    (his : Decodable (earlier ++ is)) :
    (visitInstructions v.recording d (s, seen) start (codeOf is ++ tail)).1.2.take
        (seen.length + is.length)
      = (visitInstructions v.recording d (s, seen) start (codeOf is ++ tail')).1.2.take
        (seen.length + is.length) := by
  induction is generalizing d earlier s seen start with
  | nil =>
    have hseen : ∀ words, (visitInstructions v.recording d (s, seen) start words).1.2.take
        seen.length = seen := by
      intro words
      obtain ⟨is, -, -, -, hshown, -⟩ :=
        exists_shown v s seen start words h (by simpa using his)
      rw [hshown, List.take_left']
      rfl
    simp [hseen]
  | cons i is ih =>
    obtain ⟨⟨ps, hi⟩, his'⟩ := Decodable.append_cons_iff.mp his
    obtain ⟨lead, hw, -⟩ := hi.words
    have hread : ∀ tail, readInstruction d start lead (Piece.wordsOf ps ++ tail)
        = .ok (d.add i, i) := fun tail =>
      (readInstruction_iff h his.of_append).mpr ⟨⟨ps, tail, hi, by simp [hw]⟩, rfl⟩
    have hsize : i.words.size - 1 = (Piece.wordsOf ps).length := by
      rw [← Array.length_toList, hw, List.length_cons, Nat.add_sub_cancel]
    simp only [codeOf_cons, hw, List.cons_append, List.append_assoc, visitInstructions, hread]
    rcases hv : v.instruction s i with t | ⟨t, value⟩
    · simp only [Visitor.recording_proceed seen hv, hsize, List.drop_left]
      have hrest := ih t (seen ++ [i]) (start + i.words.size) (h.add hi) his'
      simpa [Nat.add_assoc, Nat.add_comm 1] using hrest
    · simp only [Visitor.recording_stop seen hv]

/-- A visitor is shown the instructions at the start of a module whatever follows them. -/
lemma take_shown (v : Visitor σ β) (s : σ) {words words' tail tail' : List Word} {h : Header}
    {is : List Instruction} (hh : readHeader words = .ok (h, codeOf is ++ tail))
    (hh' : readHeader words' = .ok (h, codeOf is ++ tail')) (his : Decodable is) :
    (shown v s words).take is.length = (shown v s words').take is.length := by
  rw [shown, shown, visit, visit, hh, hh']
  rcases hv : v.header s h with t | ⟨t, value⟩
  · simp only [Visitor.recording_header_proceed [] hv]
    have htake := take_visitInstructions v t [] Header.wordCount tail tail' knows_empty
      (show Decodable ([] ++ is) from his)
    simpa using htake
  · simp only [Visitor.recording_header_stop [] hv]

/-- No more instructions are shown of a module than its words make up. -/
lemma shown_eq_of_prefix {v : Visitor σ β} {s : σ} {words : List Word} {is : List Instruction}
    (hbody : body words = codeOf is) (his : is <+: shown v s words) : shown v s words = is := by
  obtain ⟨more, hmore⟩ := his
  obtain ⟨hd, rest, hwords, -⟩ := decodable_shown v s words
  rw [hbody, ← hmore, codeOf, codeOf, List.flatMap_append, List.append_assoc,
    List.self_eq_append_right] at hwords
  rcases more with _ | ⟨i, more⟩
  · rw [← hmore, List.append_nil]
  · rw [← hmore] at hd
    obtain ⟨⟨ps, hi⟩, -⟩ := Decodable.append_cons_iff.mp hd
    obtain ⟨lead, hw, -⟩ := hi.words
    simp [hw] at hwords

/-- The first instructions shown of a module can be decoded and stand right behind its header. -/
lemma exists_readHeader_take {v : Visitor σ β} {s : σ} {words : List Word} {k : ℕ}
    (hk : k ≤ (shown v s words).length)
    (hheader : k = 0 → ∃ h code, readHeader words = .ok (h, code)) :
    Decodable ((shown v s words).take k) ∧
      ∃ h tail, readHeader words = .ok (h, codeOf ((shown v s words).take k) ++ tail) := by
  obtain ⟨hd, rest, hbody, -⟩ := decodable_shown v s words
  rw [← List.take_append_drop k (shown v s words)] at hd hbody
  refine ⟨hd.of_append, ?_⟩
  obtain ⟨h, code, hh⟩ : ∃ h code, readHeader words = .ok (h, code) := by
    rcases Nat.eq_zero_or_pos k with h0 | hpos
    · exact hheader h0
    rcases hr : readHeader words with e | ⟨h, code⟩
    · simp only [shown, visit, hr, List.length_nil] at hk
      omega
    · exact ⟨h, code, rfl⟩
  rw [readHeader_body hh, hbody, codeOf, List.flatMap_append, List.append_assoc] at hh
  exact ⟨h, _, hh⟩

/-- **Words that follow never change how an instruction before them is decoded.** Cut behind the first
instructions shown, a module is decoded to its end and shows these instructions and no others; with
any words after the cut it shows these instructions first. A visitor that may stop is shown them as
well, as far as it was before. -/
theorem shown_causal (v : Visitor σ β) (s : σ) (words : List Word) (k : ℕ)
    (hk : k ≤ (shown v s words).length)
    (hheader : k = 0 → ∃ h code, readHeader words = .ok (h, code))
    (w : Visitor τ Empty) (t : τ) (more : List Word) :
    let is := (shown v s words).take k
    let front := words.take (Header.wordCount + (codeOf is).length)
    ((visit w t front).2 = .ok .completed ∧ shown w t front = is ∧
        is <+: shown w t (front ++ more)) ∧
      shown v s front = is ∧ is <+: shown v s (front ++ more) := by
  intro is front
  obtain ⟨his, h, tail, hread⟩ : Decodable is ∧
      ∃ h tail, readHeader words = .ok (h, codeOf is ++ tail) := exists_readHeader_take hk hheader
  have hlen : is.length = k := List.length_take_of_le hk
  obtain ⟨tail', hmore, -⟩ := readHeader_take_append hread more
  obtain ⟨_, hfront, hnil⟩ := readHeader_take_append hread []
  obtain rfl := hnil rfl
  rw [List.append_nil (List.take ..)] at hfront
  have hfront' := hfront
  rw [List.append_nil] at hfront
  have hshown : is = (shown v s words).take is.length := by rw [hlen]
  have hprefix : is <+: shown v s front := by
    rw [hshown, take_shown v s hread hfront' his]
    exact List.take_prefix ..
  refine ⟨⟨(visit_codeOf w t hfront his).1, (visit_codeOf w t hfront his).2, ?_⟩,
    shown_eq_of_prefix (readHeader_body hfront).symm hprefix, ?_⟩
  · have hw := take_shown w t hfront' hmore his
    rw [(visit_codeOf w t hfront his).2, List.take_length] at hw
    exact hw ▸ List.take_prefix ..
  · rw [hshown, take_shown v s hread hmore his]
    exact List.take_prefix ..

/-- A type is decoded alike where a constant of it follows and where a name does that has no end. -/
theorem shown_causal_sample : ∃ v : Visitor Unit Empty,
    1 ≤ (shown v () ((Header.ofBound 3 0).words ++ codeOf [Sample.short, Sample.minusOne])).length ∧
      (visit v () ((Header.ofBound 3 0).words ++ codeOf [Sample.short])).2 = .ok .completed ∧
      [Sample.short] <+: shown v () ((Header.ofBound 3 0).words ++ codeOf [Sample.short] ++
        [Word.joinLead 4 Opcode.opName.value, 1, 0x78787878]) := by
  have hread : readHeader ((Header.ofBound 3 0).words ++ codeOf [Sample.short, Sample.minusOne])
      = .ok (.ofBound 3 0, codeOf [Sample.short, Sample.minusOne]) := rfl
  let v : Visitor Unit Empty := .ofFold (fun _ _ => ()) fun _ _ => ()
  have hshown := (visit_codeOf v () hread Sample.decodable_constant).2
  have hk : 1 ≤ (shown v () ((Header.ofBound 3 0).words ++
      codeOf [Sample.short, Sample.minusOne])).length := by
    rw [hshown]
    decide
  have h := (shown_causal v () _ 1 hk nofun v ()
    [Word.joinLead 4 Opcode.opName.value, 1, 0x78787878]).1
  rw [hshown] at h
  exact ⟨v, hk, h.1, h.2.2⟩

end Binary

end Spirv
