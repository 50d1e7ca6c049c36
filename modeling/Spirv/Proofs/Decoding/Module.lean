import Mathlib
import Spirv.Proofs.Decoding.ReadingInstruction

/-!
Reading a module.

Whatever the visitor does, the instructions shown to it were decoded one after the other, and their
words are those after the header up to where reading ended. A module whose words are those of
decodable instructions is read to its end.
-/

namespace Spirv

/-- The words of a module in the order in which their bytes are read. -/
def hostOrder (words : List Word) : List Word :=
  if ByteOrder.ofMagic? (words.headD 0) = some .big then words.map Word.swap else words

/-- The words after the header. -/
def body (words : List Word) : List Word := (hostOrder words).drop Header.wordCount

/-- The words of instructions that follow one another. -/
def codeOf (is : List Instruction) : List Word := is.flatMap fun i => i.words.toList

@[simp] lemma codeOf_nil : codeOf [] = [] := rfl

@[simp] lemma codeOf_cons (i : Instruction) (is : List Instruction) :
    codeOf (i :: is) = i.words.toList ++ codeOf is := rfl

namespace Decodable

variable {earlier is : List Instruction} {i : Instruction}

lemma snoc_iff : Decodable (earlier ++ [i]) ↔ Decodable earlier ∧ ∃ ps, Decodes earlier i ps := by
  constructor
  · intro h
    generalize hl : earlier ++ [i] = l at h
    cases h with
    | nil => simp at hl
    | snoc hd hi =>
      obtain ⟨rfl, rfl⟩ := by simpa using hl
      exact ⟨hd, _, hi⟩
  · rintro ⟨hd, ps, hi⟩
    exact hd.snoc hi

lemma of_append (h : Decodable (earlier ++ is)) : Decodable earlier := by
  induction is using List.reverseRecOn with
  | nil => simpa using h
  | append_singleton is i ih => exact ih (snoc_iff.mp (by simpa using h)).1

lemma append_cons_iff : Decodable (earlier ++ i :: is) ↔
    (∃ ps, Decodes earlier i ps) ∧ Decodable (earlier ++ [i] ++ is) := by
  rw [List.append_cons]
  exact ⟨fun h => ⟨(snoc_iff.mp h.of_append).2, h⟩, fun h => h.2⟩

end Decodable

namespace Binary

variable {σ β : Type}

/-- A visitor that also notes the instructions shown to it. -/
def Visitor.recording (v : Visitor σ β) : Visitor (σ × List Instruction) β where
  header s h :=
    match v.header s.1 h with
    | .proceed t => .proceed (t, s.2)
    | .stop t value => .stop (t, s.2) value
  instruction s i :=
    match v.instruction s.1 i with
    | .proceed t => .proceed (t, s.2 ++ [i])
    | .stop t value => .stop (t, s.2 ++ [i]) value

lemma Visitor.recording_proceed {v : Visitor σ β} {s t : σ} {i : Instruction}
    (seen : List Instruction) (h : v.instruction s i = .proceed t) :
    v.recording.instruction (s, seen) i = .proceed (t, seen ++ [i]) := by
  simp [recording, h]

lemma Visitor.recording_stop {v : Visitor σ β} {s t : σ} {i : Instruction} {value : β}
    (seen : List Instruction) (h : v.instruction s i = .stop t value) :
    v.recording.instruction (s, seen) i = .stop (t, seen ++ [i]) value := by
  simp [recording, h]

lemma Visitor.recording_header_proceed {v : Visitor σ β} {s t : σ} {h : Header}
    (seen : List Instruction) (hv : v.header s h = .proceed t) :
    v.recording.header (s, seen) h = .proceed (t, seen) := by
  simp [recording, hv]

lemma Visitor.recording_header_stop {v : Visitor σ β} {s t : σ} {h : Header} {value : β}
    (seen : List Instruction) (hv : v.header s h = .stop t value) :
    v.recording.header (s, seen) h = .stop (t, seen) value := by
  simp [recording, hv]

/-- The instructions of a module that a visitor is shown. -/
def shown (v : Visitor σ β) (s : σ) (words : List Word) : List Instruction :=
  (visit v.recording (s, []) words).1.2

lemma visitInstructions_recording (v : Visitor σ β) (d : Defined) (s : σ) (seen : List Instruction)
    (start : ℕ) (words : List Word) :
    (visitInstructions v.recording d (s, seen) start words).1.1
        = (visitInstructions v d s start words).1 ∧
      (visitInstructions v.recording d (s, seen) start words).2
        = (visitInstructions v d s start words).2 := by
  induction hn : words.length using Nat.strong_induction_on generalizing d s seen start words with
  | _ n ih =>
  subst hn
  rcases words with _ | ⟨lead, after⟩
  · simp [visitInstructions]
  rw [visitInstructions, visitInstructions]
  rcases readInstruction d start lead after with e | next
  · simp
  · rcases hv : v.instruction s next.2 with t | ⟨t, value⟩
    · simp only [Visitor.recording_proceed seen hv, hv]
      exact ih _ (by simp) _ _ _ _ _ rfl
    · simp [Visitor.recording_stop seen hv, hv]

/-- Noting the instructions changes nothing else. -/
lemma visit_recording (v : Visitor σ β) (s : σ) (words : List Word) :
    (visit v.recording (s, []) words).1.1 = (visit v s words).1 ∧
      (visit v.recording (s, []) words).2 = (visit v s words).2 := by
  rw [visit, visit]
  rcases readHeader words with e | ⟨h, body⟩
  · simp
  · rcases hv : v.header s h with t | ⟨t, value⟩
    · simpa [Visitor.recording, hv] using visitInstructions_recording v .empty t [] _ body
    · simp [Visitor.recording, hv]

/-- The header is read off the words in the order of their bytes. -/
lemma readHeader_body {words : List Word} {h : Header} {rest : List Word}
    (hok : readHeader words = .ok (h, rest)) : rest = body words := by
  rw [readHeader] at hok
  split at hok
  next => simp at hok
  split at hok
  next => simp at hok
  next order horder =>
  dsimp only at hok
  split at hok
  next magic version generator bound schema rest' hw =>
    obtain ⟨-, rfl⟩ := by simpa using hok
    have hhost : hostOrder words
        = if order = .little then words else words.map Word.swap := by
      rw [hostOrder, horder]
      cases order <;> simp
    rw [body, hhost, hw]
    rfl
  next => simp at hok

/-- What a visitor makes of instructions: it sees one after the other until it stops. -/
def Visitor.run (v : Visitor σ β) (s : σ) : List Instruction → σ × Status β
  | [] => (s, .completed)
  | i :: is =>
    match v.instruction s i with
    | .stop t value => (t, .stopped value)
    | .proceed t => v.run t is

variable {d : Defined} {earlier is : List Instruction}

lemma readInstruction_of_decodes {i : Instruction} {ps : List Piece} (h : Knows d earlier)
    (hd : Decodable earlier) (hi : Decodes earlier i ps) (start : ℕ) (tail : List Word) :
    ∃ lead after, i.words.toList = lead :: after ∧
      readInstruction d start lead (after ++ tail) = .ok (d.add i, i) := by
  obtain ⟨lead, hw, -⟩ := hi.words
  exact ⟨lead, _, hw, (readInstruction_iff h hd).mpr ⟨⟨ps, tail, hi, by simp [hw]⟩, rfl⟩⟩

/-- The instructions shown were decoded one after the other, and reading completes only where no
words are left. -/
lemma exists_shown (v : Visitor σ β) (s : σ) (seen : List Instruction) (start : ℕ)
    (words : List Word) (h : Knows d earlier) (hd : Decodable earlier) :
    ∃ is rest, Decodable (earlier ++ is) ∧ words = codeOf is ++ rest ∧
      (visitInstructions v.recording d (s, seen) start words).1.2 = seen ++ is ∧
      ((visitInstructions v d s start words).2 = .ok .completed → rest = []) := by
  induction hn : words.length using Nat.strong_induction_on
    generalizing d earlier s seen start words with
  | _ n ih =>
  subst hn
  rcases words with _ | ⟨lead, after⟩
  · exact ⟨[], [], by simpa using hd, rfl, by simp [visitInstructions], fun _ => rfl⟩
  rw [visitInstructions, visitInstructions]
  rcases hread : readInstruction d start lead after with e | ⟨d', i⟩
  · exact ⟨[], lead :: after, by simpa using hd, rfl, by simp, by simp⟩
  · obtain ⟨⟨ps, tail, hi, hw⟩, rfl⟩ := (readInstruction_iff h hd).mp hread
    obtain ⟨lead', hwords, -⟩ := hi.words
    obtain ⟨rfl, rfl⟩ : lead = lead' ∧ after = Piece.wordsOf ps ++ tail := by
      simpa [hwords] using hw
    have hsize : i.words.size - 1 = (Piece.wordsOf ps).length := by
      rw [← Array.length_toList, hwords, List.length_cons, Nat.add_sub_cancel]
    rcases hv : v.instruction s i with t | ⟨t, value⟩
    · simp only [Visitor.recording_proceed seen hv, hv, hsize, List.drop_left]
      obtain ⟨is, rest, his, rfl, hshown, hdone⟩ :=
        ih tail.length (by simp) t (seen ++ [i]) (start + i.words.size) tail (h.add hi)
          (hd.snoc hi) rfl
      refine ⟨i :: is, rest, Decodable.append_cons_iff.mpr ⟨⟨ps, hi⟩, his⟩, ?_, ?_, hdone⟩
      · simp [hwords]
      · rw [hshown, List.append_assoc, List.singleton_append]
    · refine ⟨[i], tail, hd.snoc hi, by simp [hwords],
        by simp [Visitor.recording_stop seen hv], ?_⟩
      simp [hv]

/-- Decodable instructions are read from their words. -/
lemma visitInstructions_codeOf (v : Visitor σ β) (s : σ) (start : ℕ) (h : Knows d earlier)
    (his : Decodable (earlier ++ is)) :
    visitInstructions v d s start (codeOf is) = ((v.run s is).1, .ok (v.run s is).2) := by
  induction is generalizing d earlier s start with
  | nil => simp [visitInstructions, Visitor.run]
  | cons i is ih =>
    obtain ⟨⟨ps, hi⟩, his'⟩ := Decodable.append_cons_iff.mp his
    obtain ⟨lead, after, hw, hread⟩ :=
      readInstruction_of_decodes h his.of_append hi start (codeOf is)
    have hsize : i.words.size - 1 = after.length := by
      rw [← Array.length_toList, hw, List.length_cons, Nat.add_sub_cancel]
    rw [codeOf_cons, hw, List.cons_append, visitInstructions, hread, Visitor.run]
    rcases hv : v.instruction s i with t | ⟨t, value⟩
    · simp only [hv, hsize, List.drop_left]
      exact ih t _ (h.add hi) his'
    · simp [hv]

/-- A visitor that never stops sees all of the instructions. -/
lemma Visitor.run_of_empty (v : Visitor σ Empty) (s : σ) (seen is : List Instruction) :
    (v.run s is).2 = .completed ∧ (v.recording.run (s, seen) is).1.2 = seen ++ is := by
  induction is generalizing s seen with
  | nil => simp [run]
  | cons i is ih =>
    rcases hv : v.instruction s i with t | ⟨t, value⟩
    · simpa [run, hv, recording_proceed seen hv] using ih t (seen ++ [i])
    · exact value.elim

/-- A module made of decodable instructions is read to its end by such a visitor. -/
lemma visit_codeOf (v : Visitor σ Empty) (s : σ) {words : List Word} {h : Header}
    (hread : readHeader words = .ok (h, codeOf is)) (his : Decodable is) :
    (visit v s words).2 = .ok .completed ∧ shown v s words = is := by
  have his' : Decodable ([] ++ is) := his
  rw [shown, visit, visit, hread]
  rcases hv : v.header s h with t | ⟨t, value⟩
  · obtain ⟨hrun, hseen⟩ := v.run_of_empty t [] is
    simp only [Visitor.recording_header_proceed [] hv, hv]
    rw [visitInstructions_codeOf v t _ knows_empty his',
      visitInstructions_codeOf v.recording (t, []) _ knows_empty his', hrun]
    exact ⟨rfl, hseen⟩
  · exact value.elim

/-- **The instructions shown were decoded one after the other. Their words start the body of the
module and are all of it if reading completes.** -/
theorem decodable_shown (v : Visitor σ β) (s : σ) (words : List Word) :
    Decodable (shown v s words) ∧ ∃ rest, body words = codeOf (shown v s words) ++ rest ∧
      ((visit v s words).2 = .ok .completed → rest = []) := by
  rw [shown, visit, visit]
  rcases hh : readHeader words with e | ⟨h, body'⟩
  · exact ⟨.nil, body words, rfl, by simp⟩
  obtain rfl := readHeader_body hh
  rcases hv : v.header s h with t | ⟨t, value⟩
  · obtain ⟨is, rest, his, hb, hshown, hdone⟩ :=
      exists_shown v t [] Header.wordCount (body words) knows_empty .nil
    simp only [Visitor.recording_header_proceed [] hv, hv]
    rw [hshown]
    exact ⟨his, rest, hb, hdone⟩
  · simp only [Visitor.recording_header_stop [] hv, hv]
    exact ⟨.nil, body words, rfl, by simp⟩

lemma Visitor.header_ofFold (hdr : σ → Header → σ) (ins : σ → Instruction → σ) (s : σ)
    (h : Header) : (ofFold hdr ins).header s h = .proceed (hdr s h) := rfl

lemma Visitor.run_ofFold (hdr : σ → Header → σ) (ins : σ → Instruction → σ) (s : σ)
    (is : List Instruction) : (ofFold hdr ins).run s is = (is.foldl ins s, .completed) := by
  induction is generalizing s with
  | nil => rfl
  | cons i is ih => exact ih (ins s i)

/-- **A fold over a module succeeds exactly if the body of the module is the words of decodable
instructions, and it is then the fold over these.** -/
theorem fold_eq_ok_iff (hdr : σ → Header → σ) (ins : σ → Instruction → σ) (s t : σ)
    (words : List Word) : fold hdr ins s words = .ok t ↔ ∃ h is,
      readHeader words = .ok (h, codeOf is) ∧ Decodable is ∧ t = is.foldl ins (hdr s h) := by
  rw [fold, visit]
  constructor
  · rcases hh : readHeader words with e | ⟨h, code⟩
    · simp
    intro hok
    simp only [Visitor.header_ofFold] at hok
    obtain ⟨is, rest, his, rfl, -, hdone⟩ :=
      exists_shown (.ofFold hdr ins) (hdr s h) [] Header.wordCount code knows_empty .nil
    split at hok
    next t' status hvisit =>
      obtain rfl := Except.ok.inj hok
      obtain rfl : status = .completed := by
        rcases status with _ | ⟨⟨⟩⟩
        rfl
      obtain rfl := hdone (by rw [hvisit])
      rw [List.append_nil] at hvisit
      rw [visitInstructions_codeOf _ _ _ knows_empty his, Visitor.run_ofFold] at hvisit
      exact ⟨h, is, by rw [List.append_nil], his, (Prod.ext_iff.mp hvisit).1.symm⟩
    next => simp at hok
  · rintro ⟨h, is, hh, his, rfl⟩
    rw [hh]
    have hrun := visitInstructions_codeOf (.ofFold hdr ins) (hdr s h) Header.wordCount
      knows_empty (show Decodable ([] ++ is) from his)
    simp only [Visitor.header_ofFold, hrun, Visitor.run_ofFold]

end Binary

end Spirv
