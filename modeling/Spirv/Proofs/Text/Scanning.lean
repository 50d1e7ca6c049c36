import Mathlib
import Spirv.Proofs.Text.Words

/-!
How a text is scanned.

A text is a gap, a word, a gap and so on to a gap at its end. `Scans` follows the scan along these
pieces and keeps the places that it passes; it holds of a text for just what scanning it gives. What
is read of a word is settled by the character after it, and what is read of a gap is whether a comment
is open at its end, so the pieces of a text may be replaced, and text put after them, one at a time.
-/

namespace Spirv

open Text

namespace Text

/-- Whether a comment is open after the gap, if the characters are one; `comment` holds if one is
open before it. -/
def gapEnd? (comment : Bool) : List Char → Option Bool
  | [] => some comment
  | c :: rest =>
    if comment then gapEnd? (c ≠ '\n') rest
    else if c = ';' then gapEnd? true rest
    else if isBlank c then gapEnd? false rest
    else none

variable {comment inside : Bool} {gap text : List Char}

lemma gapEnd?_append : gapEnd? comment (gap ++ text)
    = (gapEnd? comment gap).bind fun comment => gapEnd? comment text := by
  induction gap generalizing comment with
  | nil => rfl
  | cons c gap ih =>
    simp only [List.cons_append, gapEnd?]
    split
    · exact ih
    split
    · exact ih
    split
    · exact ih
    · rfl

/-- A line break ends a comment. -/
lemma gapEnd?_newline (h : gapEnd? comment gap = some inside) :
    gapEnd? comment (gap ++ ['\n']) = some false := by
  rw [gapEnd?_append, h]
  cases inside <;> rfl

end Text

namespace Position

/-- The place after a gap. -/
def afterGap (p : Position) (gap : List Char) : Position := gap.foldl after p

@[simp] lemma afterGap_nil (p : Position) : p.afterGap [] = p := rfl

@[simp] lemma afterGap_cons (p : Position) (c : Char) (gap : List Char) :
    p.afterGap (c :: gap) = (p.after c).afterGap gap := rfl

lemma afterGap_append (p : Position) (gap text : List Char) :
    p.afterGap (gap ++ text) = (p.afterGap gap).afterGap text := List.foldl_append ..

/-- The one place is not after the other, in lines and columns as in bytes. -/
structure NotAfter (p q : Position) : Prop where
  index : p.index ≤ q.index
  line : p.line < q.line ∨ p.line = q.line ∧ p.column ≤ q.column

instance : Preorder Position where
  le := NotAfter
  le_refl p := ⟨Nat.le_refl _, .inr ⟨rfl, Nat.le_refl _⟩⟩
  le_trans p q r h h' := ⟨h.index.trans h'.index, by
    have hline := h.line
    have hline' := h'.line
    omega⟩

lemma le_after (p : Position) (c : Char) : p ≤ p.after c := by
  rw [after]
  split
  · exact ⟨Nat.le_add_right .., .inl (Nat.lt_succ_self _)⟩
  · exact ⟨Nat.le_add_right .., .inr ⟨rfl, Nat.le_succ _⟩⟩

lemma le_afterGap (p : Position) (gap : List Char) : p ≤ p.afterGap gap := by
  induction gap generalizing p with
  | nil => exact le_refl p
  | cons c gap ih => exact (p.le_after c).trans (ih _)

lemma past_cons (p : Position) (c : Char) (word : List Char) :
    p.past (c :: word) = (⟨p.line, p.column + 1, p.index + c.utf8Size⟩ : Position).past word := rfl

lemma le_past (p : Position) (word : List Char) : p ≤ p.past word := by
  induction word generalizing p with
  | nil => exact le_refl p
  | cons c word ih =>
    have hstep : p ≤ ⟨p.line, p.column + 1, p.index + c.utf8Size⟩ :=
      ⟨Nat.le_add_right .., .inr ⟨rfl, Nat.le_succ _⟩⟩
    exact hstep.trans (ih _)

lemma index_after (p : Position) (c : Char) : (p.after c).index = p.index + c.utf8Size := by
  rw [after]
  split <;> rfl

lemma index_afterGap (p : Position) (gap : List Char) :
    (p.afterGap gap).index = p.index + (String.ofList gap).utf8ByteSize := by
  induction gap generalizing p with
  | nil => simp
  | cons c gap ih =>
    rw [afterGap_cons, ih, index_after]
    simp [String.ofList_cons, Nat.add_assoc]

lemma index_past (p : Position) (word : List Char) :
    (p.past word).index = p.index + (String.ofList word).utf8ByteSize := by
  induction word generalizing p with
  | nil => simp [past]
  | cons c word ih =>
    rw [past_cons, ih]
    simp [String.ofList_cons, Nat.add_assoc]

end Position

namespace Cursor

variable {comment inside : Bool} {gap rest w text : List Char} {p : Position} {c : Char}

/-! ### Gaps -/

lemma skipFrom_append (h : gapEnd? comment gap = some inside) (rest : List Char) (p : Position) :
    skipFrom comment (gap ++ rest) p = skipFrom inside rest (p.afterGap gap) := by
  induction gap generalizing comment p with
  | nil =>
    obtain rfl := Option.some.inj h
    rfl
  | cons c gap ih =>
    simp only [List.cons_append, skipFrom]
    rw [gapEnd?] at h
    split at h
    next hc => rw [if_pos hc, ih h, Position.afterGap_cons]
    next hc =>
    rw [if_neg hc]
    split at h
    next hsemi => rw [if_pos hsemi, ih h, Position.afterGap_cons]
    next hsemi =>
    rw [if_neg hsemi]
    split at h
    next hblank => rw [if_pos hblank, ih h, Position.afterGap_cons]
    next => simp at h

lemma skip_of_gapEnd? (h : gapEnd? false gap = some inside) (p : Position) :
    (mk gap p).skip = ⟨[], p.afterGap gap⟩ := by
  have hgap := skipFrom_append h [] p
  rw [List.append_nil] at hgap
  exact hgap

lemma skipFrom_of_isBreak (h : isBreak c = false) (rest : List Char) (p : Position) :
    skipFrom false (c :: rest) p = ⟨c :: rest, p⟩ := by
  obtain ⟨hblank, hsemi⟩ : isBlank c = false ∧ c ≠ ';' := by
    simpa [isBreak, Bool.or_eq_false_iff] using h
  simp [skipFrom, hblank, hsemi]

/-- What is skipped is a gap, and a word comes after it if anything does. -/
lemma exists_gap (comment : Bool) (text : List Char) (p : Position) :
    ∃ gap inside, text = gap ++ (skipFrom comment text p).rest ∧ gapEnd? comment gap = some inside ∧
      (skipFrom comment text p).position = p.afterGap gap ∧
      ((skipFrom comment text p).rest ≠ [] → inside = false) := by
  induction text generalizing comment p with
  | nil => exact ⟨[], comment, rfl, rfl, rfl, fun h => absurd rfl h⟩
  | cons c text ih =>
    have hmore : ∀ comment', (∀ gap, gapEnd? comment (c :: gap) = gapEnd? comment' gap) →
        skipFrom comment (c :: text) p = skipFrom comment' text (p.after c) →
        ∃ gap inside, c :: text = gap ++ (skipFrom comment (c :: text) p).rest ∧
          gapEnd? comment gap = some inside ∧
          (skipFrom comment (c :: text) p).position = p.afterGap gap ∧
          ((skipFrom comment (c :: text) p).rest ≠ [] → inside = false) := by
      intro comment' hgap hskip
      obtain ⟨gap, inside, htext, hend, hpos, hopen⟩ := ih comment' (p.after c)
      rw [hskip]
      exact ⟨c :: gap, inside, by rw [List.cons_append, ← htext], by rw [hgap, hend], hpos, hopen⟩
    rcases comment with _ | _
    · by_cases hsemi : c = ';'
      · exact hmore true (fun gap => by simp [gapEnd?, hsemi]) (by simp [skipFrom, hsemi])
      by_cases hblank : isBlank c = true
      · exact hmore false (fun gap => by simp [gapEnd?, hsemi, hblank])
          (by simp [skipFrom, hsemi, hblank])
      · have hskip : skipFrom false (c :: text) p = ⟨c :: text, p⟩ := by
          simp [skipFrom, hsemi, hblank]
        rw [hskip]
        exact ⟨[], false, rfl, rfl, rfl, fun _ => rfl⟩
    · exact hmore (c ≠ '\n') (fun gap => by simp [gapEnd?]) (by simp [skipFrom])

end Cursor

namespace Text

variable {w rest rest' text : List Char} {c : Char}

/-! ### Words -/

/-- The characters are cut off as one word where `rest` comes after them. -/
structure CutOff (w rest : List Char) : Prop where
  first : ∃ c r, w = c :: r ∧ isBreak c = false
  split : splitWord (w ++ rest) = (w, rest)

/-- What comes after the first character behind a word does not count. -/
lemma go_eq_of_cons {quoted escaped : Bool} {acc : List Char}
    (h : splitWord.go quoted escaped acc (w ++ c :: rest) = (acc.reverse ++ w, c :: rest))
    (rest' : List Char) :
    splitWord.go quoted escaped acc (w ++ c :: rest') = (acc.reverse ++ w, c :: rest') := by
  induction w generalizing quoted escaped acc with
  | nil =>
    have hlonger : ∀ {q e}, splitWord.go q e (c :: acc) rest ≠ (acc.reverse, c :: rest) := by
      intro q e heq
      have hlen := splitWord_go_length_le q e (c :: acc) rest
      simp [heq] at hlen
    simp only [List.nil_append, List.append_nil, splitWord.go] at h ⊢
    split at h
    next => exact absurd h hlonger
    next he =>
    split at h
    next => exact absurd h hlonger
    next hslash =>
    split at h
    next => exact absurd h hlonger
    next hquote =>
    split at h
    next hbreak => rw [if_neg he, if_neg hslash, if_neg hquote, if_pos hbreak]
    next => exact absurd h hlonger
  | cons d w ih =>
    have hmore : ∀ {q e}, splitWord.go q e (d :: acc) (w ++ c :: rest)
        = (acc.reverse ++ d :: w, c :: rest) →
        splitWord.go q e (d :: acc) (w ++ c :: rest') = (acc.reverse ++ d :: w, c :: rest') := by
      intro q e heq
      simpa using @ih q e (d :: acc) (by simpa using heq)
    simp only [List.cons_append, splitWord.go] at h ⊢
    split at h
    next he => rw [if_pos he, hmore h]
    next he =>
    rw [if_neg he]
    split at h
    next hslash => rw [if_pos hslash, hmore h]
    next hslash =>
    rw [if_neg hslash]
    split at h
    next hquote => rw [if_pos hquote, hmore h]
    next hquote =>
    rw [if_neg hquote]
    split at h
    next => simp at h
    next hbreak => rw [if_neg hbreak, hmore h]

/-- A word ends at a break or at the end of the text. -/
lemma isBreak_of_go {quoted escaped : Bool} {acc : List Char} :
    ∀ c ∈ (splitWord.go quoted escaped acc text).2.head?, isBreak c = true := by
  induction text generalizing quoted escaped acc with
  | nil => simp [splitWord.go]
  | cons d text ih =>
    simp only [splitWord.go]
    split
    · exact ih
    split
    · exact ih
    split
    · exact ih
    split
    next hbreak =>
      rintro c hc
      obtain rfl : d = c := by simpa using hc
      exact (Bool.and_eq_true_iff.mp hbreak).2
    next => exact ih

/-- A word stands wherever no break does. -/
lemma cutOff_splitWord (r : List Char) (hc : isBreak c = false) :
    CutOff (splitWord (c :: r)).1 (splitWord (c :: r)).2 := by
  have hword := splitWord_append (c :: r)
  have hlt : (splitWord (c :: r)).2.length < (c :: r).length := splitWord_length_lt hc
  refine ⟨?_, by rw [hword]⟩
  rcases hw : (splitWord (c :: r)).1 with _ | ⟨d, w⟩
  · rw [hw, List.nil_append] at hword
    exact absurd (congrArg List.length hword) (by omega)
  · rw [hw, List.cons_append] at hword
    obtain ⟨rfl, -⟩ := List.cons.inj hword
    exact ⟨_, _, rfl, hc⟩

lemma IsWord.cutOff (h : IsWord w) (hrest : ∀ c ∈ rest.head?, isBreak c = true) : CutOff w rest :=
  ⟨h.first, h.split rest hrest⟩

namespace CutOff

lemma breaks (h : CutOff w rest) : ∀ c ∈ rest.head?, isBreak c = true := by
  have hrest : ∀ c ∈ (splitWord (w ++ rest)).2.head?, isBreak c = true := isBreak_of_go
  rwa [h.split] at hrest

/-- The word is cut off as well where the same character comes after it. -/
lemma congr (h : CutOff w rest) (hne : rest ≠ []) (hhead : rest'.head? = rest.head?) :
    CutOff w rest' := by
  obtain ⟨c, r, rfl⟩ := List.exists_cons_of_ne_nil hne
  obtain ⟨r', rfl⟩ := List.head?_eq_some_iff.mp (by simpa using hhead)
  have hgo : splitWord.go false false [] (w ++ c :: r) = ([].reverse ++ w, c :: r) := h.split
  exact ⟨h.first, go_eq_of_cons hgo r'⟩

/-- The cursor at a word does not move on to the next. -/
lemma skipFrom (h : CutOff w rest) (p : Position) :
    Cursor.skipFrom false (w ++ rest) p = ⟨w ++ rest, p⟩ := by
  obtain ⟨c, r, rfl, hc⟩ := h.first
  exact Cursor.skipFrom_of_isBreak hc ..

lemma startsWithOp_eq (h : CutOff w rest) :
    Cursor.startsWithOp (w ++ rest) = Cursor.startsWithOp w := by
  have hbreak := h.breaks
  have hupper : ∀ c : Char, isBreak c = true → c.isUpper = false := by
    intro c hc
    simp only [isBreak, isBlank, Bool.or_eq_true, decide_eq_true_eq] at hc
    rcases hc with (((rfl | rfl) | rfl) | rfl) | rfl <;> rfl
  have hp : ∀ c : Char, isBreak c = true → c ≠ 'p' := by
    rintro c hc rfl
    exact absurd hc (by decide)
  rcases rest with _ | ⟨d, r⟩
  · rw [List.append_nil]
  have hd := hbreak d rfl
  rcases w with _ | ⟨a, _ | ⟨b, _ | ⟨c, w⟩⟩⟩
  · obtain ⟨c, r, hw, -⟩ := h.first
    simp at hw
  · simp [Cursor.startsWithOp, hp d hd]
  · have hc := hupper d hd
    unfold Cursor.startsWithOp
    split <;> simp_all
  · by_cases hop : a = 'O' ∧ b = 'p'
    · obtain ⟨rfl, rfl⟩ := hop
      rfl
    · have hfalse : ∀ w, Cursor.startsWithOp (a :: b :: c :: w) = false := fun w => by
        unfold Cursor.startsWithOp
        split <;> simp_all
      rw [hfalse w]
      exact hfalse (w ++ d :: r)

end CutOff

/-! ### Texts -/

/-- A text, from a place on, and the words that it is scanned to. -/
inductive Scans : Position → List Char → TokenText → Prop where
  | finish {p : Position} {gap : List Char} {inside : Bool}
    (gap_eq : gapEnd? false gap = some inside) : Scans p gap ⟨[], p.afterGap gap⟩
  | word {p : Position} {gap w rest : List Char} {t : TokenText}
    (gap_eq : gapEnd? false gap = some false) (word : CutOff w rest)
    (more : Scans ((p.afterGap gap).past w) rest t) :
    Scans p (gap ++ (w ++ rest)) ⟨⟨w, p.afterGap gap⟩ :: t.tokens, t.finish⟩

variable {p : Position} {t : TokenText}

lemma Scans.scan (h : Scans p text t) (acc : List Token) :
    (Cursor.mk text p).scan acc = ⟨acc.reverse ++ t.tokens, t.finish⟩ := by
  induction h generalizing acc with
  | @finish p gap inside gap_eq =>
    rw [Cursor.scan, Cursor.skip_of_gapEnd? gap_eq, dif_pos rfl, List.append_nil]
  | @word p gap w rest t gap_eq word more ih =>
    have hskip : (Cursor.mk (gap ++ (w ++ rest)) p).skip = ⟨w ++ rest, p.afterGap gap⟩ :=
      (Cursor.skipFrom_append gap_eq _ p).trans (word.skipFrom _)
    have hne : w ++ rest ≠ [] := by
      obtain ⟨c, r, rfl, -⟩ := word.first
      simp
    rw [Cursor.scan, hskip, dif_neg hne]
    simp only [Cursor.afterWord, Cursor.word, word.split, ih]
    simp

lemma exists_scans (p : Position) (text : List Char) : ∃ t, Scans p text t := by
  induction hn : text.length using Nat.strong_induction_on generalizing p text with
  | _ n ih =>
  obtain ⟨gap, inside, htext, hend, -, hopen⟩ := Cursor.exists_gap false text p
  have hbreak : ∀ {c : Char} {r : List Char}, (Cursor.skipFrom false text p).rest = c :: r →
      isBreak c = false := Cursor.isBreak_of_skipFrom
  generalize (Cursor.skipFrom false text p).rest = after at htext hopen hbreak
  rcases after with _ | ⟨c, r⟩
  · rw [List.append_nil] at htext
    exact htext ▸ ⟨_, .finish hend⟩
  · have hword := splitWord_append (c :: r)
    have hlt : (splitWord (c :: r)).2.length < (c :: r).length := splitWord_length_lt (hbreak rfl)
    have hlen : (splitWord (c :: r)).2.length < n := by
      rw [← hn, htext, List.length_append]
      omega
    obtain ⟨t, ht⟩ := ih _ hlen ((p.afterGap gap).past (splitWord (c :: r)).1) _ rfl
    have hscans := Scans.word (hopen (by simp) ▸ hend) (cutOff_splitWord r (hbreak rfl)) ht
    rw [hword, ← htext] at hscans
    exact ⟨_, hscans⟩

/-- **Scanning a text takes it apart.** It is made of gaps and words, and these are the words. -/
theorem scans_iff : Scans p text t ↔ (Cursor.mk text p).scan [] = t := by
  constructor
  · exact fun h => h.scan []
  · rintro rfl
    obtain ⟨t, ht⟩ := exists_scans p text
    exact (ht.scan []).symm ▸ ht

lemma scans_ofText (text : String) : Scans .start text.toList (TokenText.ofText text) :=
  scans_iff.mpr rfl

namespace Scans

variable {q : Position} {u : TokenText} {more : List Char}

lemma tokens_of_nil (h : Scans p [] t) : t.tokens = [] := by
  rw [← scans_iff.mp h, Cursor.scan]
  rfl

/-- The words do not depend on where the text starts. -/
lemma move (h : Scans p text t) (q : Position) :
    ∃ u, Scans q text u ∧ u.tokens.map Token.chars = t.tokens.map Token.chars := by
  induction h generalizing q with
  | finish gap_eq => exact ⟨_, .finish gap_eq, rfl⟩
  | @word p gap w rest t gap_eq word more ih =>
    obtain ⟨u, hu, hwords⟩ := ih ((q.afterGap gap).past w)
    exact ⟨_, .word gap_eq word hu, by simp [hwords]⟩

lemma chars_eq (h : Scans p text t) (h' : Scans q text u) :
    t.tokens.map Token.chars = u.tokens.map Token.chars := by
  obtain ⟨u', hu', hwords⟩ := h.move q
  obtain rfl : u' = u := (scans_iff.mp hu').symm.trans (scans_iff.mp h')
  exact hwords.symm

/-- The end of the text is as many bytes on as the text has. -/
lemma index_finish (h : Scans p text t) :
    t.finish.index = p.index + (String.ofList text).utf8ByteSize := by
  induction h with
  | finish => exact Position.index_afterGap ..
  | word _ _ _ ih =>
    rw [ih, Position.index_past, Position.index_afterGap]
    simp [String.ofList_append, Nat.add_assoc]

/-- No word and no end comes before the place that the text starts at. -/
lemma le (h : Scans p text t) : p ≤ t.finish ∧ ∀ token ∈ t.tokens, p ≤ token.start := by
  induction h with
  | finish => exact ⟨Position.le_afterGap .., List.forall_mem_nil _⟩
  | @word p gap w rest t gap_eq word more ih =>
    have hgap := p.le_afterGap gap
    have hword := hgap.trans ((p.afterGap gap).le_past w)
    exact ⟨hword.trans ih.1, List.forall_mem_cons.mpr
      ⟨hgap, fun token htoken => hword.trans (ih.2 token htoken)⟩⟩

lemma gap_append {gap : List Char} (hgap : gapEnd? false gap = some false)
    (h : Scans (p.afterGap gap) text t) : Scans p (gap ++ text) t := by
  have hends : ∀ {gap' : List Char} {inside : Bool}, gapEnd? false gap' = some inside →
      gapEnd? false (gap ++ gap') = some inside := fun h => by
    rw [gapEnd?_append, hgap]
    exact h
  cases h with
  | finish gap_eq =>
    rw [← Position.afterGap_append]
    exact .finish (hends gap_eq)
  | word gap_eq word more =>
    rw [← Position.afterGap_append] at more
    rw [← List.append_assoc, ← Position.afterGap_append]
    exact .word (hends gap_eq) word more

/-- **A line break parts texts.** If no quote is open at the end of the first text and no backslash
stands there, the words of both are those of the first and then those of the second. -/
theorem append_line (h : Scans p text t) (hlast : ∀ token ∈ t.tokens.getLast?, IsWord token.chars)
    (hmore : Scans (t.finish.after '\n') more u) :
    Scans p (text ++ '\n' :: more) ⟨t.tokens ++ u.tokens, u.finish⟩ := by
  induction h with
  | @finish p gap inside gap_eq =>
    have hline := gapEnd?_newline gap_eq
    have hplace : (p.afterGap gap).after '\n' = p.afterGap (gap ++ ['\n']) := by
      rw [Position.afterGap_append]
      rfl
    rw [hplace] at hmore
    simpa using hmore.gap_append hline
  | @word p gap w rest t gap_eq word rest_scans ih =>
    have hcut : CutOff w (rest ++ '\n' :: more) := by
      rcases rest with _ | ⟨c, rest⟩
      · -- the last word of the text: the line break ends it
        have hword : IsWord w := hlast ⟨w, p.afterGap gap⟩ (by simp [rest_scans.tokens_of_nil])
        exact hword.cutOff (by simp [isBreak, isBlank])
      · exact word.congr (by simp) rfl
    have hrest := ih (fun token htoken => hlast token ?_) hmore
    · simpa using Scans.word gap_eq hcut hrest
    · rw [List.getLast?_cons, Option.mem_def.mp htoken]
      rfl

/-! ### The start of an instruction -/

variable {f : Position} {a : Token} {ts : List Token}

lemma rest_skip_of_nil (h : Scans p text ⟨[], f⟩) : (Cursor.mk text p).skip.rest = [] := by
  generalize ht : (⟨[], f⟩ : TokenText) = t at h
  cases h with
  | finish gap_eq => rw [Cursor.skip_of_gapEnd? gap_eq]
  | word => simp at ht

/-- What the cursor sees at the first word. -/
lemma exists_skip (h : Scans p text ⟨a :: ts, f⟩) : ∃ rest, CutOff a.chars rest ∧
    (Cursor.mk text p).skip = ⟨a.chars ++ rest, a.start⟩ ∧
    Scans (a.start.past a.chars) rest ⟨ts, f⟩ := by
  generalize ht : (⟨a :: ts, f⟩ : TokenText) = t at h
  cases h with
  | finish => simp at ht
  | @word _ gap w rest t gap_eq word more =>
    obtain ⟨⟨rfl, rfl⟩, rfl⟩ := by simpa using ht
    exact ⟨rest, word, (Cursor.skipFrom_append gap_eq _ p).trans (word.skipFrom _), more⟩

end Scans

end Text

namespace Cursor

/-- **Whether an instruction starts shows in the words.** The cursor looks at the characters from where
it stands on; it sees no more of them than the words that they are cut into. -/
theorem startsInstruction_skip (c : Cursor) :
    c.skip.startsInstruction = Token.startInstruction (c.scan []).tokens := by
  obtain ⟨text, p⟩ := c
  -- a word that the cursor stands at, as it looks to the cursor
  have hlook : ∀ {a : Token} {rest : List Char}, CutOff a.chars rest →
      (mk (a.chars ++ rest) a.start).afterWord = ⟨rest, a.start.past a.chars⟩ ∧
      (mk (a.chars ++ rest) a.start).word = a.chars ∧
      (mk (a.chars ++ rest) a.start).atEnd = false ∧
      startsWithOp (a.chars ++ rest) = a.isOpcodeLike ∧
      (a.chars ++ rest).head? = a.chars.head? := by
    intro a rest h
    obtain ⟨c, r, hchars, -⟩ := h.first
    exact ⟨by simp [afterWord, word, h.split], by simp [word, h.split], by simp [atEnd, hchars],
      h.startsWithOp_eq, by simp [hchars]⟩
  obtain ⟨t, ht⟩ := exists_scans p text
  rw [scans_iff.mp ht]
  obtain ⟨tokens, f⟩ := t
  rcases tokens with _ | ⟨a, ts⟩
  · simp [startsInstruction, ht.rest_skip_of_nil, startsWithOp, Token.startInstruction]
  obtain ⟨rest, hcut, hskip, hmore⟩ := ht.exists_skip
  obtain ⟨hafter, -, -, hop, hhead⟩ := hlook hcut
  rw [startsInstruction, hskip]
  simp only [hafter, hop, hhead]
  rcases ts with _ | ⟨equals, ts⟩
  · simp [atEnd, hmore.rest_skip_of_nil, Token.startInstruction]
  obtain ⟨rest, hcut, hskip, hmore⟩ := hmore.exists_skip
  obtain ⟨hafter, hword, hend, -⟩ := hlook hcut
  simp only [hskip, hafter, hword, hend]
  rcases ts with _ | ⟨name, ts⟩
  · simp [atEnd, hmore.rest_skip_of_nil, Token.startInstruction]
  obtain ⟨rest, hcut, hskip, -⟩ := hmore.exists_skip
  obtain ⟨-, -, hend, hop, -⟩ := hlook hcut
  simp [hskip, hend, hop, Token.startInstruction]

/-! ### Replacing words -/

/-- The text from the cursor on with its words replaced. -/
def mapWords (f : List Char → List Char) (c : Cursor) : List Char :=
  if _h : c.skip.rest = [] then c.rest
  else c.rest.take (c.rest.length - c.skip.rest.length)
    ++ (f c.skip.word ++ c.skip.afterWord.mapWords f)
termination_by c.rest.length
decreasing_by exact c.afterWord_skip_length_lt _h

end Cursor

namespace Text

variable {p : Position} {text : List Char} {t : TokenText} {f : List Char → List Char}

lemma mapWords_gap {gap : List Char} {inside : Bool} (h : gapEnd? false gap = some inside)
    (p : Position) : (Cursor.mk gap p).mapWords f = gap := by
  rw [Cursor.mapWords, Cursor.skip_of_gapEnd? h, dif_pos rfl]

lemma mapWords_word {gap w rest : List Char} (hgap : gapEnd? false gap = some false)
    (hword : CutOff w rest) (p : Position) : (Cursor.mk (gap ++ (w ++ rest)) p).mapWords f
      = gap ++ (f w ++ (Cursor.mk rest ((p.afterGap gap).past w)).mapWords f) := by
  have hskip : (Cursor.mk (gap ++ (w ++ rest)) p).skip = ⟨w ++ rest, p.afterGap gap⟩ :=
    (Cursor.skipFrom_append hgap _ p).trans (hword.skipFrom _)
  have hne : w ++ rest ≠ [] := by
    obtain ⟨c, r, rfl, -⟩ := hword.first
    simp
  have hlen : (gap ++ (w ++ rest)).length - (w ++ rest).length = gap.length := by simp
  rw [Cursor.mapWords, hskip, dif_neg hne]
  simp only [hlen, List.take_left, Cursor.afterWord, Cursor.word, hword.split]

/-- A break that a text starts with is left as it is. -/
lemma head?_mapWords (h : Scans p text t) (hbreak : ∀ c ∈ text.head?, isBreak c = true) :
    ((Cursor.mk text p).mapWords f).head? = text.head? := by
  cases h with
  | finish gap_eq => rw [mapWords_gap gap_eq]
  | @word _ gap w rest t gap_eq word more =>
    rw [mapWords_word gap_eq word]
    rcases gap with _ | ⟨c, gap⟩
    · obtain ⟨c, r, rfl, hc⟩ := word.first
      exact absurd (hbreak c rfl) (by simp [hc])
    · rfl

/-- **Words are replaced one by one.** If each word is left as it is or replaced by one that is cut
off wherever it stands, the new text has the new words. -/
theorem Scans.mapWords (h : Scans p text t)
    (hf : ∀ token ∈ t.tokens, f token.chars = token.chars ∨ IsWord (f token.chars)) (q : Position) :
    ∃ u, Scans q ((Cursor.mk text p).mapWords f) u ∧
      u.tokens.map Token.chars = t.tokens.map fun token => f token.chars := by
  induction h generalizing q with
  | finish gap_eq =>
    rw [mapWords_gap gap_eq]
    exact ⟨_, .finish gap_eq, rfl⟩
  | @word p gap w rest t gap_eq word more ih =>
    obtain ⟨hw, hf⟩ := List.forall_mem_cons.mp hf
    rw [mapWords_word gap_eq word]
    have hhead := head?_mapWords (f := f) more word.breaks
    obtain ⟨u, hu, hwords⟩ := ih hf ((q.afterGap gap).past (f w))
    have hcut : CutOff (f w) ((Cursor.mk rest ((p.afterGap gap).past w)).mapWords f) := by
      rcases hw with hsame | hword
      · rcases rest with _ | ⟨c, rest⟩
        · rwa [hsame, List.head?_eq_none_iff.mp hhead]
        · exact hsame ▸ word.congr (by simp) hhead
      · exact hword.cutOff (hhead ▸ word.breaks)
    exact ⟨_, .word gap_eq hcut hu, by simp [hwords]⟩

end Text

end Spirv
