import Mathlib
import Spirv.Proofs.Text.Scanning

/-!
Walking over a text in rounds, each past a gap and past the word behind it.

`Round.Proper` says what a gap and a word may look like, on their characters alone. The history of a
cursor is what was read, with whether it was read between words, and its place is a function of the
history: each move keeps to this, and so does a walk. Every walk over a text goes the same way and can
be led on to the end of the text.
-/

namespace Spirv

open Text

namespace Text

variable {u w rest w' rest' text gap note : List Char} {c : Char} {inside : Bool}

/-! ### Where a word ends -/

/-- A backslash takes away the meaning of a character that comes after these: they end in a backslash
whose own meaning no other has taken away. -/
def Escaping (before : List Char) : Prop := Odd (before.reverse.takeWhile (· = '\\')).length

instance (before : List Char) : Decidable (Escaping before) :=
  inferInstanceAs (Decidable (Odd _))

/-- A double quote is open after these characters: the double quotes among them that are not escaped
are odd in number. -/
def Quoting (before : List Char) : Prop :=
  Odd (before.inits.countP fun u => u.getLast? = some '"' ∧ ¬ Escaping u.dropLast)

lemma escaping_snoc : Escaping (u ++ [c]) ↔ c = '\\' ∧ ¬ Escaping u := by
  by_cases hc : c = '\\'
  · simp [Escaping, hc, Nat.odd_add_one]
  · simp [Escaping, hc]

lemma quoting_snoc : Quoting (u ++ [c]) ↔ (Quoting u ↔ ¬ (c = '"' ∧ ¬ Escaping u)) := by
  simp only [Quoting, List.inits_append, List.countP_append]
  by_cases hc : c = '"' ∧ ¬ Escaping u
  · simp [hc, Nat.odd_add_one]
  · simp [hc]

/-- An escaped character comes directly after a backslash. -/
lemma Escaping.getLast? (h : Escaping u) : u.getLast? = some '\\' := by
  rcases u.eq_nil_or_concat' with rfl | ⟨u, c, rfl⟩
  · simp [Escaping] at h
  · simp [(escaping_snoc.mp h).1]

/-- Every break in the word is escaped or quoted. -/
def Guarded (w : List Char) : Prop :=
  ∀ u c v, w = u ++ c :: v → isBreak c → Escaping u ∨ Quoting u

lemma Guarded.snoc (h : Guarded w) (hc : isBreak c → Escaping w ∨ Quoting w) :
    Guarded (w ++ [c]) := by
  intro u d v hsplit hd
  rcases v.eq_nil_or_concat' with rfl | ⟨v, d', rfl⟩
  · obtain ⟨rfl, hcd⟩ := List.append_inj' hsplit rfl
    obtain rfl : c = d := by simpa using hcd
    exact hc hd
  · rw [← List.cons_append, ← List.append_assoc] at hsplit
    exact h u d v (List.append_inj' hsplit rfl).1 hd

/-- The characters end as a word where `rest` comes after them. -/
structure Delimits (w rest : List Char) : Prop where
  guarded : Guarded w
  bare : ∀ c ∈ rest.head?, isBreak c ∧ ¬ Escaping w ∧ ¬ Quoting w

/-- Of two words in front of one text, neither is shorter. -/
lemma Delimits.eq_of_prefix (h : Delimits w rest) (h' : Delimits w' rest')
    (happ : w ++ rest = w' ++ rest') (hp : w <+: w') : w = w' := by
  obtain ⟨v, rfl⟩ := hp
  rcases v with _ | ⟨c, v⟩
  · rw [List.append_nil]
  · rw [List.append_assoc] at happ
    obtain rfl := List.append_cancel_left happ
    obtain ⟨hc, hescape, hquote⟩ := h.bare c rfl
    exact absurd (h'.guarded w c v rfl hc) (by simp [hescape, hquote])

/-- The two flags of the search tell what is open after the word so far. -/
lemma delimits_go (acc text : List Char) {quoted escaped : Bool}
    (hquoted : quoted ↔ Quoting acc.reverse) (hescaped : escaped ↔ Escaping acc.reverse)
    (hacc : Guarded acc.reverse) :
    Delimits (splitWord.go quoted escaped acc text).1 (splitWord.go quoted escaped acc text).2 := by
  induction text generalizing quoted escaped acc with
  | nil => exact ⟨hacc, by simp [splitWord.go]⟩
  | cons c text ih =>
    have hmore : ∀ {q e : Bool}, (q ↔ (quoted ↔ ¬ (c = '"' ∧ ¬ escaped))) →
        (e ↔ c = '\\' ∧ ¬ escaped) → (isBreak c → escaped ∨ quoted) →
        Delimits (splitWord.go q e (c :: acc) text).1 (splitWord.go q e (c :: acc) text).2 := by
      simp only [hquoted, hescaped]
      intro q e hq he hc
      refine ih (c :: acc) ?_ ?_ ?_ <;> rw [List.reverse_cons]
      · rw [quoting_snoc, hq]
      · rw [escaping_snoc, he]
      · exact hacc.snoc hc
    rw [splitWord.go]
    split
    next hesc => exact hmore (by simp [hesc]) (by simp [hesc]) (by simp [hesc])
    next hesc =>
    split
    next hslash =>
      exact hmore (by simp [hslash]) (by simp [hslash, hesc]) (by simp [hslash, isBreak, isBlank])
    next hslash =>
    split
    next hquote =>
      exact hmore (by simp [hquote, hesc]) (by simp [hslash]) (by simp [hquote, isBreak, isBlank])
    next hquote =>
    split
    next hbreak =>
      obtain ⟨hq, hb⟩ := Bool.and_eq_true_iff.mp hbreak
      refine ⟨hacc, fun d hd => ?_⟩
      obtain rfl : c = d := by simpa using hd
      exact ⟨hb, by simpa [← hescaped] using hesc, by simpa [← hquoted] using hq⟩
    next hbreak =>
      exact hmore (by simp [hquote]) (by simp [hslash]) fun hb => .inr (by simpa [hb] using hbreak)

lemma delimits_splitWord (text : List Char) : Delimits (splitWord text).1 (splitWord text).2 :=
  delimits_go [] text (by simp [Quoting]) (by simp [Escaping]) (by simp [Guarded])

/-- **Where a word ends.** The word in front of a text runs to the first break that is neither escaped
nor quoted, or to the end of the text. -/
theorem splitWord_eq_iff : splitWord text = (w, rest) ↔ w ++ rest = text ∧ Delimits w rest := by
  have happ := splitWord_append text
  have hends := delimits_splitWord text
  constructor
  · intro h
    rw [h] at happ hends
    exact ⟨happ, hends⟩
  · rintro ⟨happ', hends'⟩
    have hw : (splitWord text).1 = w := by
      rcases List.prefix_or_prefix_of_prefix ⟨_, happ⟩ ⟨_, happ'⟩ with hp | hp
      · exact hends.eq_of_prefix hends' (happ.trans happ'.symm) hp
      · exact (hends'.eq_of_prefix hends (happ'.trans happ.symm) hp).symm
    subst hw
    exact Prod.ext rfl (List.append_cancel_left (happ.trans happ'.symm))

-- a blank behind a backslash, and breaks between double quotes of which one is escaped
example : splitWord "a\\ b\"c ;\\\" \"d e".toList = ("a\\ b\"c ;\\\" \"d".toList, " e".toList) := by
  decide

/-! ### What a gap is -/

/-- Blanks and comments; the flag tells whether the last comment is still open at the end. -/
inductive Gap : Bool → List Char → Prop where
  | closed {gap : List Char} (cut : Cut gap []) : Gap false gap
  | opened {gap note : List Char} (cut : Cut gap []) (line : '\n' ∉ note) :
    Gap true (gap ++ ';' :: note)

lemma Gap.prepend (h : Gap inside gap) (text : List Char)
    (hcut : ∀ gap, Cut gap [] → Cut (text ++ gap) []) : Gap inside (text ++ gap) := by
  cases h with
  | closed cut => exact .closed (hcut _ cut)
  | opened cut line =>
    rw [← List.append_assoc]
    exact .opened (hcut _ cut) line

lemma gapEnd?_note (h : '\n' ∉ note) : gapEnd? true note = some true := by
  induction note with
  | nil => rfl
  | cons c note ih =>
    obtain ⟨hc, hnote⟩ : '\n' ≠ c ∧ '\n' ∉ note := by simpa using h
    simpa [gapEnd?, hc.symm] using ih hnote

lemma gap_of_gapEnd? (h : gapEnd? false gap = some inside) : Gap inside gap := by
  induction hn : gap.length using Nat.strong_induction_on generalizing gap with
  | _ n ih =>
  rcases gap with _ | ⟨c, gap⟩
  · obtain rfl : false = inside := by simpa [gapEnd?] using h
    exact .closed .nil
  simp only [gapEnd?, Bool.false_eq_true, if_false] at h
  split at h
  next hsemi =>
    obtain rfl := hsemi
    by_cases hline : '\n' ∈ gap
    · obtain ⟨note, gap, rfl, hnote⟩ := List.eq_append_cons_of_mem hline
      rw [gapEnd?_append, gapEnd?_note hnote] at h
      have hgap : Gap inside gap := ih gap.length (by simp at hn; omega) h rfl
      simpa using hgap.prepend (';' :: note ++ ['\n']) fun gap hcut => by
        simpa using Cut.comment hnote hcut
    · obtain rfl : true = inside := by simpa [gapEnd?_note hline] using h
      exact .opened .nil hline
  next =>
  split at h
  next hblank =>
    have hgap : Gap inside gap := ih gap.length (by simp at hn; omega) h rfl
    exact hgap.prepend [c] fun gap hcut => .blank hblank hcut
  next => simp at h

/-! ### Rounds and what is read in them -/

/-- A character that was read, and whether it was read between words. -/
structure Read where
  char : Char
  inGap : Bool
  deriving DecidableEq

namespace Read

/-- A line break between words. -/
def lineBreak : Read := ⟨'\n', true⟩

def ofGap (gap : List Char) : List Read := gap.map (⟨·, true⟩)

def ofWord (word : List Char) : List Read := word.map (⟨·, false⟩)

lemma map_char_ofGap (gap : List Char) : (ofGap gap).map char = gap := by
  simp [ofGap, Function.comp_def]

lemma map_char_ofWord (word : List Char) : (ofWord word).map char = word := by
  simp [ofWord, Function.comp_def]

end Read

/-- A gap and the word behind it. -/
structure Round where
  gap : List Char
  word : List Char

namespace Round

def chars (r : Round) : List Char := r.gap ++ r.word

def reads (r : Round) : List Read := Read.ofGap r.gap ++ Read.ofWord r.word

/-- What a gap and the word behind it may look like. -/
structure Proper (r : Round) : Prop where
  gap : Gap false r.gap
  word_ne : r.word ≠ []
  guarded : Guarded r.word

end Round

end Text

namespace Position

/-- The place after all that was read: as many lines down as line breaks were read between words, as
many columns on as characters were read after the last of these, as many bytes on as all of it has. -/
def afterReads (read : List Read) : Position where
  line := read.count .lineBreak
  column := (read.reverse.takeWhile (· ≠ .lineBreak)).length
  index := (String.ofList (read.map Read.char)).utf8ByteSize

lemma afterReads_snoc (read : List Read) (r : Read) : afterReads (read ++ [r]) =
    if r = .lineBreak then
      ⟨(afterReads read).line + 1, 0, (afterReads read).index + r.char.utf8Size⟩
    else
      ⟨(afterReads read).line, (afterReads read).column + 1,
        (afterReads read).index + r.char.utf8Size⟩ := by
  split
  next hr => simp [afterReads, hr, String.ofList_append]
  next hr => simp [afterReads, hr, String.ofList_append]

lemma afterGap_afterReads (read : List Read) (gap : List Char) :
    (afterReads read).afterGap gap = afterReads (read ++ Read.ofGap gap) := by
  induction gap generalizing read with
  | nil => rw [afterGap_nil, Read.ofGap, List.map_nil, List.append_nil]
  | cons a gap ih =>
    have hstep : (afterReads read).after a = afterReads (read ++ [⟨a, true⟩]) := by
      simp [afterReads_snoc, after, Read.lineBreak]
    rw [afterGap_cons, hstep, ih]
    simp [Read.ofGap]

lemma past_afterReads (read : List Read) (word : List Char) :
    (afterReads read).past word = afterReads (read ++ Read.ofWord word) := by
  induction word generalizing read with
  | nil => rw [past, List.foldl_nil, Read.ofWord, List.map_nil, List.append_nil]
  | cons a word ih =>
    have hstep := afterReads_snoc read ⟨a, false⟩
    rw [if_neg (by simp [Read.lineBreak])] at hstep
    rw [past_cons, ← hstep, ih]
    simp [Read.ofWord]

end Position

namespace Cursor

variable {text gap : List Char} {read : List Read} {c d : Cursor} {rounds : List Round}

/-! ### The moves of a cursor -/

/-- What is skipped is a gap, and a word comes after it unless the text ends. -/
lemma exists_skip (c : Cursor) : ∃ gap inside, c.rest = gap ++ c.skip.rest ∧ Gap inside gap ∧
    c.skip.position = c.position.afterGap gap ∧ (c.skip.atEnd = false → inside = false) := by
  obtain ⟨gap, inside, hrest, hend, hpos, hopen⟩ := exists_gap false c.rest c.position
  refine ⟨gap, inside, hrest, gap_of_gapEnd? hend, hpos, fun h => hopen ?_⟩
  simpa [skip, atEnd] using h

lemma rest_ne_of_atEnd (h : c.atEnd = false) : c.rest ≠ [] := by
  simpa [atEnd] using h

lemma word_append (c : Cursor) : c.word ++ c.afterWord.rest = c.rest := splitWord_append c.rest

lemma word_skip_ne (h : c.skip.atEnd = false) : c.skip.word ≠ [] := by
  obtain ⟨a, rest, hrest⟩ := List.exists_cons_of_ne_nil (rest_ne_of_atEnd h)
  obtain ⟨b, w, hword, -⟩ := (cutOff_splitWord rest (isBreak_of_skipFrom hrest)).first
  rw [word, hrest, hword]
  exact List.cons_ne_nil b w

lemma proper_skip (h : c.skip.atEnd = false) (hgap : c.rest = gap ++ c.skip.rest) :
    Round.Proper ⟨gap, c.skip.word⟩ where
  gap := by
    obtain ⟨gap', inside, hgap', hproper, -, hinside⟩ := c.exists_skip
    obtain rfl := List.append_cancel_right (hgap.symm.trans hgap')
    exact hinside h ▸ hproper
  word_ne := word_skip_ne h
  guarded := (delimits_splitWord c.skip.rest).guarded

/-- The cursor stands in the text where the characters that were read end. -/
structure Follows (text : List Char) (read : List Read) (c : Cursor) : Prop where
  split : read.map Read.char ++ c.rest = text
  position_eq : c.position = .afterReads read

namespace Follows

lemma ofText (text : List Char) : Follows text [] (ofText text) := ⟨rfl, rfl⟩

lemma skip (h : Follows text read c) (hgap : c.rest = gap ++ c.skip.rest) :
    Follows text (read ++ Read.ofGap gap) c.skip where
  split := by
    rw [List.map_append, Read.map_char_ofGap, List.append_assoc, ← hgap, h.split]
  position_eq := by
    obtain ⟨gap', -, hgap', -, hpos, -⟩ := c.exists_skip
    obtain rfl := List.append_cancel_right (hgap.symm.trans hgap')
    rw [hpos, h.position_eq, Position.afterGap_afterReads]

lemma afterWord (h : Follows text read c) :
    Follows text (read ++ Read.ofWord c.word) c.afterWord where
  split := by
    rw [List.map_append, Read.map_char_ofWord, List.append_assoc, c.word_append, h.split]
  position_eq := by
    rw [Cursor.afterWord, h.position_eq, Position.past_afterReads]

/-- The place is not inside of a character. -/
lemma isValid (h : Follows text read c) :
    String.Pos.Raw.IsValid (String.ofList text) ⟨c.position.index⟩ := by
  rw [String.Pos.Raw.isValid_iff_exists_append]
  refine ⟨String.ofList (read.map Read.char), String.ofList c.rest, ?_, ?_⟩
  · rw [← h.split, String.ofList_append]
  · rw [h.position_eq]
    rfl

end Follows

lemma seek_go_append (front rest : List Char) :
    seek.go (String.ofList front).utf8ByteSize (front ++ rest) = some rest := by
  induction front with
  | nil => cases rest <;> rfl
  | cons a front ih =>
    obtain ⟨n, hn⟩ : ∃ n, a.utf8Size = n + 1 := Nat.exists_eq_add_one.mpr a.utf8Size_pos
    have hsize : (String.ofList (a :: front)).utf8ByteSize
        = (n + (String.ofList front).utf8ByteSize) + 1 := by
      rw [String.ofList_cons, String.utf8ByteSize_append, String.utf8ByteSize_singleton, hn]
      omega
    have hless : n + (String.ofList front).utf8ByteSize + 1 - (n + 1)
        = (String.ofList front).utf8ByteSize := by omega
    rw [hsize, List.cons_append, seek.go, hn, if_pos (by omega), hless, ih]

/-- A cursor is found again from its place. -/
lemma Follows.seek_eq (h : Follows text read c) : seek text c.position = c := by
  have hgo : seek.go c.position.index text = some c.rest := by
    rw [h.position_eq, ← h.split]
    exact seek_go_append ..
  rw [seek, hgo, Option.getD_some]

/-! ### Walks -/

/-- The cursor `d` is reached from `c` in rounds. In each the cursor moves on to the next word and,
as it has found one, past it. -/
inductive Walks : Cursor → List Round → Cursor → Prop where
  | stay {c : Cursor} : Walks c [] c
  | round {c d : Cursor} {gap : List Char} {rounds : List Round} (found : c.skip.atEnd = false)
    (gap_eq : c.rest = gap ++ c.skip.rest) (more : Walks c.skip.afterWord rounds d) :
    Walks c (⟨gap, c.skip.word⟩ :: rounds) d

namespace Walks

lemma rest_eq (h : Walks c rounds d) : c.rest = rounds.flatMap Round.chars ++ d.rest := by
  induction h with
  | stay => rfl
  | @round c d gap rounds found gap_eq _ ih =>
    rw [List.flatMap_cons, Round.chars, List.append_assoc, ← ih, List.append_assoc,
      c.skip.word_append, ← gap_eq]

lemma forall_proper (h : Walks c rounds d) : ∀ r ∈ rounds, r.Proper := by
  induction h with
  | stay => exact List.forall_mem_nil _
  | round found gap_eq _ ih => exact List.forall_mem_cons.mpr ⟨proper_skip found gap_eq, ih⟩

/-- A word ends at a break, so a gap comes before the next. -/
lemma gap_ne (h : Walks c rounds d) (hbreak : ∀ a ∈ c.rest.head?, isBreak a) :
    ∀ r ∈ rounds, r.gap ≠ [] := by
  induction h with
  | stay => exact List.forall_mem_nil _
  | @round c d gap rounds found gap_eq _ ih =>
    refine List.forall_mem_cons.mpr ⟨?_, ih isBreak_of_go⟩
    rintro rfl
    obtain ⟨a, rest, hrest⟩ := List.exists_cons_of_ne_nil (rest_ne_of_atEnd found)
    have ha : isBreak a := hbreak a (by rw [gap_eq, List.nil_append, hrest]; rfl)
    exact absurd ha (by simp [isBreak_of_skipFrom hrest])

lemma tail_gap_ne (h : Walks c rounds d) : ∀ r ∈ rounds.tail, r.gap ≠ [] := by
  cases h with
  | stay => exact List.forall_mem_nil _
  | round _ _ more => exact more.gap_ne isBreak_of_go

/-- Walks go the same way: one that stops before the end of the text is a part of one that does not. -/
lemma prefix_of_atEnd {rounds' : List Round} {d' : Cursor} (h : Walks c rounds d)
    (h' : Walks c rounds' d') (hend : d'.skip.atEnd) : rounds <+: rounds' := by
  induction h generalizing rounds' with
  | stay => exact List.nil_prefix
  | round found gap_eq _ ih =>
    cases h' with
    | stay => exact absurd hend (by simp [found])
    | round _ gap_eq' more' =>
      obtain rfl := List.append_cancel_right (gap_eq.symm.trans gap_eq')
      exact List.cons_prefix_cons.mpr ⟨rfl, ih more'⟩

lemma follows (h : Walks c rounds d) (hc : Follows text read c) :
    Follows text (read ++ rounds.flatMap Round.reads) d := by
  induction h generalizing read with
  | stay => simpa using hc
  | round _ gap_eq _ ih => simpa [Round.reads] using ih (hc.skip gap_eq).afterWord

/-- A walk may start a round earlier. -/
lemma exists_round (h : Walks c.skip.afterWord rounds d) (found : c.skip.atEnd = false) :
    ∃ rounds, Walks c rounds d := by
  obtain ⟨gap, -, hgap, -⟩ := c.exists_skip
  exact ⟨_, .round found hgap h⟩

end Walks

/-- Each round uses up text, so there is a last. -/
lemma exists_walks (c : Cursor) : ∃ rounds d, Walks c rounds d ∧ d.skip.atEnd := by
  induction hn : c.rest.length using Nat.strong_induction_on generalizing c with
  | _ n ih =>
  rcases hend : c.skip.atEnd with _ | _
  · have hlt := c.afterWord_skip_length_lt (rest_ne_of_atEnd hend)
    obtain ⟨_, d, hmore, hd⟩ := ih _ (hn ▸ hlt) c.skip.afterWord rfl
    obtain ⟨rounds, hwalk⟩ := hmore.exists_round hend
    exact ⟨rounds, d, hwalk, hd⟩
  · exact ⟨[], c, .stay, hend⟩

/-- The cursor stands in the text where the characters that were read end. A character starts there,
if the text does not end, and the cursor is found again from its place. -/
structure Located (text : String) (read : List Read) (c : Cursor) : Prop
    extends Follows text.toList read c where
  boundary : String.Pos.Raw.IsValid text ⟨c.position.index⟩
  seek_eq : seek text.toList c.position = c

lemma Follows.located {text : String} (h : Follows text.toList read c) : Located text read c :=
  ⟨h, by simpa using h.isValid, h.seek_eq⟩

/-- **A walk over a text loses nothing and ends.** The rounds to the end of a text and the gap there
make up the text. Words are not empty and no break stands bare in them, gaps are blanks and comments,
and between two words there is one. Any other walk is a part of this; wherever it has come to, before
a gap or behind it, the place of the cursor tells what was read. -/
theorem walks_ofText (text : String) : ∃ rounds d, Walks (ofText text.toList) rounds d ∧
    d.skip.atEnd ∧ rounds.flatMap Round.chars ++ d.rest = text.toList ∧
    (∀ r ∈ rounds, r.Proper) ∧ (∀ r ∈ rounds.tail, r.gap ≠ []) ∧ (∃ inside, Gap inside d.rest) ∧
    ∀ rounds' c, Walks (ofText text.toList) rounds' c → rounds' <+: rounds ∧
      Located text (rounds'.flatMap Round.reads) c ∧
      ∃ gap, c.rest = gap ++ c.skip.rest ∧
        Located text (rounds'.flatMap Round.reads ++ Read.ofGap gap) c.skip := by
  obtain ⟨rounds, d, hwalk, hend⟩ := exists_walks (ofText text.toList)
  refine ⟨rounds, d, hwalk, hend, hwalk.rest_eq.symm, hwalk.forall_proper, hwalk.tail_gap_ne, ?_,
    fun rounds' c hwalk' => ?_⟩
  · obtain ⟨gap, inside, hrest, hgap, -⟩ := d.exists_skip
    rw [List.isEmpty_iff.mp hend, List.append_nil] at hrest
    exact ⟨inside, hrest ▸ hgap⟩
  · have hfollows := hwalk'.follows (.ofText text.toList)
    obtain ⟨gap, -, hrest, -⟩ := c.exists_skip
    exact ⟨hwalk'.prefix_of_atEnd hwalk hend, hfollows.located, gap, hrest,
      (hfollows.skip hrest).located⟩

/-! ### Scanning as a walk -/

lemma walks_of_mem_scan {token : Token} (acc : List Token) (h : token ∈ (c.scan acc).tokens) :
    token ∈ acc ∨ ∃ rounds d, Walks c rounds d ∧ d.skip.atEnd = false ∧
      token = ⟨d.skip.word, d.skip.position⟩ := by
  fun_induction scan c acc with
  | case1 c acc hrest => exact .inl (by simpa using h)
  | case2 c acc hrest ih =>
    have hfound : c.skip.atEnd = false := by simpa [atEnd] using hrest
    rcases ih h with hmem | ⟨_, d, hmore, hd⟩
    · rcases List.mem_cons.mp hmem with rfl | hmem
      · exact .inr ⟨[], c, .stay, hfound, rfl⟩
      · exact .inl hmem
    · obtain ⟨rounds, hwalk⟩ := hmore.exists_round hfound
      exact .inr ⟨rounds, d, hwalk, hd⟩

lemma walks_finish_scan (c : Cursor) (acc : List Token) : ∃ rounds d, Walks c rounds d ∧
    d.skip.atEnd ∧ (c.scan acc).finish = d.skip.position := by
  fun_induction scan c acc with
  | case1 c acc hrest => exact ⟨[], c, .stay, by simpa [atEnd] using hrest, rfl⟩
  | case2 c acc hrest ih =>
    have hfound : c.skip.atEnd = false := by simpa [atEnd] using hrest
    obtain ⟨_, d, hmore, hd⟩ := ih
    obtain ⟨rounds, hwalk⟩ := hmore.exists_round hfound
    exact ⟨rounds, d, hwalk, hd⟩

end Cursor

end Spirv
