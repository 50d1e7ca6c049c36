import Mathlib
import Spirv.Proofs.Decoding.Extent

/-!
What a visitor is handed.

A module is made of parts, its header and its instructions, up to its end or to what is malformed in
it. A visitor is handed these one after the other, all of them unless it stops, and does not choose
them. It has no part in what reading comes to behind the last of them either.
-/

namespace Spirv.Binary

variable {σ τ β : Type}

/-- What a visitor is handed at once. -/
inductive Part where
  | header (header : Header)
  | instruction (instruction : Instruction)

/-- The words of the module that the part was read from. -/
def Part.words : Part → List Word
  | header h => h.words
  | instruction i => i.words.toList

/-- The verdict of a visitor that keeps something else beside its state. -/
def Verdict.beside (kept : τ) : Verdict σ β → Verdict (σ × τ) β
  | proceed s => .proceed (s, kept)
  | stop s value => .stop (s, kept) value

/-- How reading ended, for a visitor that might have stopped. -/
def Status.widen : Status Empty → Status β
  | completed => .completed

namespace Visitor

/-- What a visitor says to a part. -/
def see (v : Visitor σ β) (s : σ) : Part → Verdict σ β
  | .header h => v.header s h
  | .instruction i => v.instruction s i

/-- A visitor that also notes what it is handed. -/
def noting (v : Visitor σ β) : Visitor (σ × List Part) β where
  header s h := (v.header s.1 h).beside (s.2 ++ [.header h])
  instruction s i := (v.instruction s.1 i).beside (s.2 ++ [.instruction i])

/-- The visitor proceeds at each of the parts up to the last, where it stops with the value. -/
inductive Stops (v : Visitor σ β) : σ → List Part → β → Prop where
  | last {s t : σ} {p : Part} {value : β} (stop : v.see s p = .stop t value) : Stops v s [p] value
  | later {s t : σ} {p : Part} {ps : List Part} {value : β} (proceed : v.see s p = .proceed t)
    (more : Stops v t ps value) : Stops v s (p :: ps) value

/-- Hands parts to a visitor until it stops. `behind` is what reading comes to behind them. -/
def attend (v : Visitor σ β) (behind : Except Error (Status Empty)) (s : σ) :
    List Part → σ × Except Error (Status β)
  | [] => (s, behind.map .widen)
  | p :: ps =>
    match v.see s p with
    | .stop t value => (t, .ok (.stopped value))
    | .proceed t => v.attend behind t ps

end Visitor

/-- The parts of a module that a visitor is handed. -/
def received (v : Visitor σ β) (s : σ) (words : List Word) : List Part :=
  (visit v.noting (s, []) words).1.2

lemma map_widen_eq_error {behind : Except Error (Status Empty)} {e : Error}
    (h : (behind.map .widen : Except Error (Status β)) = .error e) : behind = .error e := by
  rcases behind with e' | status
  · simpa [Except.map] using h
  · simp [Except.map] at h

/-! ### The parts there are -/

variable {words rest code : List Word} {d : Defined} {start : ℕ} {earlier is : List Instruction}
  {h : Header} {e : Error} {behind : Except Error (Status Empty)} {parts : List Part}

/-- Reading gets no further: no words are left, or the instruction to come is malformed. -/
inductive Ends (d : Defined) (start : ℕ) : List Word → Except Error (Status Empty) → Prop where
  | completed : Ends d start [] (.ok .completed)
  | malformed {lead : Word} {after : List Word} {e : Error}
    (read : readInstruction d start lead after = .error e) :
    Ends d start (lead :: after) (.error e)

/-- All the parts of a module, and what reading comes to behind them. -/
inductive Divides (words : List Word) : List Part → Except Error (Status Empty) → Prop where
  | headless {e : Error} (header : readHeader words = .error e) : Divides words [] (.error e)
  | headed {h : Header} {code rest : List Word} {d : Defined} {start : ℕ} {is : List Instruction}
    {behind : Except Error (Status Empty)} (header : readHeader words = .ok (h, code))
    (boundary : Boundary words d start is rest) (ends : Ends d start rest behind) :
    Divides words (.header h :: is.map .instruction) behind

/-- A visitor is shown the instructions from a place on one after the other. -/
lemma Boundary.exists_attend (hb : Boundary words d start earlier rest) :
    ∃ is d' start' rest' behind, Boundary words d' start' (earlier ++ is) rest' ∧
      Ends d' start' rest' behind ∧ ∀ {σ β : Type} (v : Visitor σ β) (s : σ),
        visitInstructions v d s start rest = v.attend behind s (is.map .instruction) := by
  induction hn : rest.length using Nat.strong_induction_on generalizing d start earlier rest with
  | _ n ih =>
  subst hn
  rcases rest with _ | ⟨lead, after⟩
  · exact ⟨[], d, start, [], .ok .completed, by simpa using hb, .completed, fun v s => by
      rw [visitInstructions]; rfl⟩
  rcases hread : readInstruction d start lead after with e | ⟨d', i⟩
  · exact ⟨[], d, start, _, .error e, by simpa using hb, .malformed hread, fun v s => by
      rw [visitInstructions, hread]; rfl⟩
  obtain ⟨is, d'', start', rest', behind, hb', hends, hvisit⟩ :=
    ih _ (by simp) (hb.next hread) rfl
  refine ⟨i :: is, d'', start', rest', behind, by simpa using hb', hends, fun v s => ?_⟩
  rw [visitInstructions, hread, List.map_cons, Visitor.attend, Visitor.see]
  rcases hv : v.instruction s i with t | ⟨t, value⟩
  · simpa only [hv] using hvisit v t
  · simp only [hv]

/-- **The parts of a module are the same for every visitor.** -/
theorem exists_divides (words : List Word) : ∃ parts behind, Divides words parts behind ∧
    ∀ {σ β : Type} (v : Visitor σ β) (s : σ), visit v s words = v.attend behind s parts := by
  rcases hh : readHeader words with e | ⟨h, code⟩
  · exact ⟨[], .error e, .headless hh, fun v s => by rw [visit, hh]; rfl⟩
  obtain ⟨is, d, start, rest, behind, hb, hends, hvisit⟩ := (Boundary.start hh).exists_attend
  rw [List.nil_append] at hb
  refine ⟨_, behind, .headed hh hb hends, fun v s => ?_⟩
  rw [visit, hh, Visitor.attend, Visitor.see]
  rcases hv : v.header s h with t | ⟨t, value⟩
  · simpa only [hv] using hvisit v t
  · simp only [hv]

/-! ### Handing parts over -/

namespace Visitor

variable (v : Visitor σ β) (s : σ)

lemma see_noting (seen : List Part) (p : Part) :
    v.noting.see (s, seen) p = (v.see s p).beside (seen ++ [p]) := by
  cases p <;> rfl

/-- A visitor notes the parts it is handed, up to where it stops, and nothing else changes. -/
lemma attend_cases (behind : Except Error (Status Empty)) (seen parts : List Part) :
    (∃ front value, front <+: parts ∧ v.Stops s front value ∧
      (v.noting.attend behind (s, seen) parts).1.2 = seen ++ front ∧
      (v.attend behind s parts).2 = .ok (.stopped value)) ∨
    (v.noting.attend behind (s, seen) parts).1.2 = seen ++ parts ∧
      (v.attend behind s parts).2 = behind.map .widen ∧ ∀ value, ¬ v.Stops s parts value := by
  induction parts generalizing s seen with
  | nil => exact .inr ⟨by simp [attend], rfl, fun _ hs => nomatch hs⟩
  | cons p ps ih =>
    rw [attend, attend, see_noting]
    rcases hv : v.see s p with t | ⟨t, value⟩
    · simp only [Verdict.beside]
      rcases ih t (seen ++ [p]) with ⟨front, value, hfront, hstops, hseen, hend⟩ | ⟨hseen, hend, hgo⟩
      · refine .inl ⟨p :: front, value, ?_, .later hv hstops, by simp [hseen], hend⟩
        exact List.cons_prefix_cons.mpr ⟨rfl, hfront⟩
      · refine .inr ⟨by simp [hseen], hend, fun value hs => ?_⟩
        cases hs with
        | last stop => simp [hv] at stop
        | later proceed more =>
          obtain rfl := Verdict.proceed.inj (hv.symm.trans proceed)
          exact hgo value more
    · exact .inl ⟨[p], value, List.cons_prefix_cons.mpr ⟨rfl, List.nil_prefix⟩, .last hv, rfl, rfl⟩

/-- A visitor stops at one place with one value. -/
lemma Stops.unique {v : Visitor σ β} {s : σ} {ps : List Part} {value value' : β}
    (h : v.Stops s ps value) (h' : v.Stops s ps value') : value = value' := by
  induction h with
  | last stop =>
    cases h' with
    | last stop' => exact (Verdict.stop.inj (stop.symm.trans stop')).2
    | later _ more => cases more
  | later proceed more ih =>
    cases h' with
    | last => cases more
    | later proceed' more' =>
      obtain rfl := Verdict.proceed.inj (proceed.symm.trans proceed')
      exact ih more'

end Visitor

/-! ### Where parts and errors are -/

/-- The parts of a module start it, in order and without a gap. -/
lemma Divides.words_begin (h : Divides words parts behind) :
    parts.flatMap Part.words <+: hostOrder words := by
  cases h with
  | headless => exact List.nil_prefix
  | headed header boundary ends =>
    obtain ⟨h, code, hheader, hwords, -⟩ := boundary.exists_hostOrder_eq
    obtain ⟨rfl, -⟩ := Prod.mk.inj (Except.ok.inj (header.symm.trans hheader))
    rw [hwords, List.flatMap_cons, List.flatMap_map]
    exact List.prefix_append ..

/-- An error is at the first word if there is no header, and else not before the word behind the
last instruction and not behind the end. -/
lemma Divides.exists_index (h : Divides words parts (.error e)) :
    ∃ fault index, e = .binary fault index ∧
      (readHeader words = .error e ∧ parts = [] ∧ index = 0 ∨
        ∃ header ps, parts = .header header :: ps ∧
          (parts.flatMap Part.words).length ≤ index ∧ index ≤ words.length) := by
  cases h with
  | headless header =>
    obtain ⟨fault, rfl⟩ : ∃ fault, e = .binary fault 0 := by
      rw [readHeader] at header
      split at header
      · exact ⟨_, (Except.error.inj header).symm⟩
      split at header
      · exact ⟨_, (Except.error.inj header).symm⟩
      dsimp only at header
      split at header
      · simp at header
      · exact ⟨_, (Except.error.inj header).symm⟩
    exact ⟨fault, 0, rfl, .inl ⟨header, rfl, rfl⟩⟩
  | @headed h code _ d start is _ header boundary ends =>
    cases ends with
    | @malformed lead after _ read =>
      obtain ⟨fault, index, rfl, hstart, hindex⟩ := exists_index_of_readInstruction read
      obtain ⟨_, _, -, -, hcode⟩ := boundary.exists_hostOrder_eq
      have hlength : start + (after.length + 1) = words.length := boundary.at_index.1
      refine ⟨fault, index, rfl, .inr ⟨h, _, rfl, ?_, by omega⟩⟩
      have hparts : ((Part.header h :: is.map .instruction).flatMap Part.words).length = start := by
        rw [List.flatMap_cons, List.flatMap_map, List.length_append, hcode]
        rfl
      omega

/-- A visitor either stops and was handed the parts up to there, or it was handed all parts. -/
lemma exists_received (words : List Word) : ∃ parts behind, Divides words parts behind ∧
    ∀ {σ β : Type} (v : Visitor σ β) (s : σ),
      (∃ value, received v s words <+: parts ∧ v.Stops s (received v s words) value ∧
        (visit v s words).2 = .ok (.stopped value)) ∨
      received v s words = parts ∧ (visit v s words).2 = behind.map .widen ∧
        ∀ value, ¬ v.Stops s parts value := by
  obtain ⟨parts, behind, hparts, hvisit⟩ := exists_divides words
  refine ⟨parts, behind, hparts, fun v s => ?_⟩
  rw [received, hvisit, hvisit]
  rcases v.attend_cases s behind [] parts with ⟨front, value, hfront, hstops, hseen, hend⟩ | h
  · rw [hseen]
    exact .inl ⟨value, hfront, hstops, hend⟩
  · exact .inr h

/-- **A visitor is handed the start of one fixed reading.** It is handed a prefix of what one that
never stops is handed, in whatever way it decides. Reading ends with its value exactly if it stops at
the last part it was handed, having proceeded at those before; otherwise it is handed all that the
other is, and reading ends alike. The parts are the words of the module from its start on. An error is
at index zero if there is no header, and else between the word that follows the parts handed over and
the end of the module. -/
theorem visit_handover (v : Visitor σ β) (s : σ) (w : Visitor τ Empty) (t : τ)
    (words : List Word) :
    received v s words <+: received w t words ∧
      (∀ value, (visit v s words).2 = .ok (.stopped value) ↔
        v.Stops s (received v s words) value) ∧
      ((∀ value, ¬ v.Stops s (received v s words) value) →
        received v s words = received w t words ∧
          (visit v s words).2 = (visit w t words).2.map .widen) ∧
      (received v s words).flatMap Part.words <+: hostOrder words ∧
      ∀ e, (visit v s words).2 = .error e → ∃ fault index, e = .binary fault index ∧
        (readHeader words = .error e ∧ received v s words = [] ∧ index = 0 ∨
          ∃ header ps, received v s words = .header header :: ps ∧
            ((received v s words).flatMap Part.words).length ≤ index ∧
            index ≤ words.length) := by
  obtain ⟨parts, behind, hparts, hreceived⟩ := exists_received words
  obtain ⟨hw, hwend⟩ : received w t words = parts ∧ (visit w t words).2 = behind := by
    rcases hreceived w t with ⟨value, _⟩ | ⟨hw, hwend, -⟩
    · exact value.elim
    · refine ⟨hw, hwend.trans ?_⟩
      rcases behind with e | ⟨_ | ⟨⟨⟩⟩⟩ <;> rfl
  rw [hw, hwend]
  rcases hreceived v s with ⟨value, hfront, hstops, hend⟩ | ⟨hall, hend, hgo⟩
  · rw [hend]
    refine ⟨hfront, fun value' => ⟨fun h => ?_, fun h => by rw [hstops.unique h]⟩,
      fun hgo => absurd hstops (hgo value), (hfront.flatMap _).trans hparts.words_begin, by simp⟩
    obtain rfl := Status.stopped.inj (Except.ok.inj h)
    exact hstops
  · rw [hall, hend]
    refine ⟨List.prefix_rfl, fun value => ⟨fun h => ?_, fun h => absurd h (hgo value)⟩,
      fun _ => ⟨rfl, rfl⟩, hparts.words_begin, fun e he => ?_⟩
    · rcases behind with e | ⟨_ | ⟨⟨⟩⟩⟩ <;> simp [Except.map, Status.widen] at h
    · obtain rfl := map_widen_eq_error he
      exact hparts.exists_index

end Spirv.Binary
