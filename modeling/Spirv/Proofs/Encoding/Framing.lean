import Mathlib
import Spirv.Proofs.Encoding.Parts
import Spirv.Proofs.Decoding.Tiling

/-!
The word counts of an assembled module.

The word count of an instruction is put in front of its words once they are all there. It fits the
sixteen bits that it is held in, so whoever follows the counts comes from instruction to instruction
of the text and stops at the end of the module.
-/

namespace Spirv

/-- Cuts words into pieces of as many words as the first word of each says. There are no pieces if a
count is zero or goes past the end. -/
def pieces? : List Word → Option (List (List Word))
  | [] => some []
  | lead :: rest =>
    let count := (Word.splitLead lead).1.toNat
    if count = 0 ∨ rest.length + 1 < count then none
    else (pieces? (rest.drop (count - 1))).map ((lead :: rest.take (count - 1)) :: ·)
termination_by words => words.length
decreasing_by
  simp only [List.length_drop, List.length_cons]
  omega

/-- The first of the words says how many there are. -/
def IsPiece (words : List Word) : Prop :=
  ∃ lead ∈ words.head?, (Word.splitLead lead).1.toNat = words.length

lemma pieces?_append {words rest : List Word} (h : IsPiece words) :
    pieces? (words ++ rest) = (pieces? rest).map (words :: ·) := by
  obtain ⟨lead, hlead, hcount⟩ := h
  obtain ⟨tail, rfl⟩ := List.head?_eq_some_iff.mp hlead
  rw [List.length_cons] at hcount
  have hfits : ¬ (tail.length + 1 = 0 ∨ (tail ++ rest).length + 1 < tail.length + 1) := by simp
  rw [List.cons_append, pieces?]
  simp only [hcount, if_neg hfits, Nat.add_sub_cancel, List.take_left, List.drop_left]

/-- Pieces that follow one another are cut apart again. -/
lemma pieces?_flatten {pieces : List (List Word)} (h : ∀ words ∈ pieces, IsPiece words) :
    pieces? pieces.flatten = some pieces := by
  induction pieces with
  | nil => rw [List.flatten_nil, pieces?]
  | cons words pieces ih =>
    obtain ⟨hwords, hpieces⟩ := List.forall_mem_cons.mp h
    rw [List.flatten_cons, pieces?_append hwords, ih hpieces, Option.map_some]

namespace Assembly

variable {form : Form} {s s' : State} {tokens : List Token} {st : Statement}
  {sts : List Statement} {e : Encoded}

/-- The first word of a statement tells how many words it has and which opcode it names. -/
structure Statement.Framed (st : Statement) : Prop where
  name : Opcode.ofName? (String.ofList (st.name.chars.drop 2)) = some st.opcode
  positive : 1 ≤ st.words.length
  length_le : st.words.length ≤ 65535
  lead : ∃ lead ∈ st.words.head?,
    (Word.splitLead lead).1.toNat = st.words.length ∧ (Word.splitLead lead).2 = st.opcode.value

lemma Encodes.framed (h : Encodes form s tokens st e) : st.Framed := by
  have hframed : ∀ {front : List Token} {name : Token} {op : Opcode} {fs : List Filled},
      Opcode.ofName? (String.ofList (name.chars.drop 2)) = some op →
      (Filled.wordsOf fs).length + 1 ≤ maxInstructionWords →
      Statement.Framed ⟨front, name, op, fs⟩ := by
    intro front name op fs hname hsize
    rw [maxInstructionWords] at hsize
    refine ⟨hname, Nat.succ_le_succ (Nat.zero_le _), hsize, _, rfl, ?_, ?_⟩
    · -- the count loses nothing in sixteen bits
      rw [Word.splitLead_joinLead]
      exact UInt16.toNat_ofNat_of_lt' (Nat.lt_succ_of_le hsize)
    · rw [Word.splitLead_joinLead]
  have hlength : ∀ {op : Opcode} {result? : Option Token} {rest : List Token} {fs : List Filled}
      {e : Encoded}, Fills op result? s [] op.operands rest fs e →
      e.words.size = (Filled.wordsOf fs).length := fun fills => by
    rw [← Array.length_toList, fills.words_eq, List.nil_append]
  cases h with
  | plain _ op_eq _ fills size => exact hframed op_eq (hlength fills ▸ size)
  | assigned _ _ _ _ _ op_eq fills size => exact hframed op_eq (hlength fills ▸ size)

lemma EncodesParts.framed (h : EncodesParts form s tokens (sts.map .statement) s') :
    ∀ st ∈ sts, st.Framed := by
  induction sts generalizing s tokens with
  | nil => exact List.forall_mem_nil _
  | cons st sts ih =>
    cases h with
    | cons first more =>
      cases first with
      | statement encodes => exact List.forall_mem_cons.mpr ⟨encodes.framed, ih more⟩

/-- **Assembled modules are well framed.** A text is made of parts. If all of these are statements,
the word counts lead from the words of each statement to those of the next and from the last to the
end of the module; each statement has from 1 to 65535 words, and the first of them holds the number
of the opcode that it names. -/
theorem assemble_framed {o : AssemblyOptions} {text : String} {a : Assembly}
    (h : assemble o text = .ok a) : (∃ ps, Consists o text ps) ∧
      ∀ sts : List Statement, Consists o text (sts.map .statement) →
        (TokenText.ofText text).tokens = sts.flatMap Statement.tokens ∧
        pieces? (a.words.drop Header.wordCount) = some (sts.map Statement.words) ∧
        ∀ st ∈ sts, st.Framed := by
  obtain ⟨hex, hall⟩ := exists_consists h
  refine ⟨hex, fun sts ⟨s', hsts⟩ => ⟨?_, ?_, hsts.framed⟩⟩
  · rw [hsts.tokens_eq, List.flatMap_map]
    rfl
  · have hbody : (sts.map Part.statement).flatMap Part.words = (sts.map Statement.words).flatten := by
      rw [List.flatMap_map, List.flatMap_def]
      rfl
    rw [(hall hsts).1, hbody]
    refine pieces?_flatten fun words hwords => ?_
    obtain ⟨st, hst, rfl⟩ := List.mem_map.mp hwords
    obtain ⟨lead, hlead, hcount, -⟩ := (hsts.framed st hst).lead
    exact ⟨lead, hlead, hcount⟩

/-- A type and a constant of it are two pieces of four words each. -/
theorem assemble_framed_sample : ∃ a, assemble ⟨.assignment, 0, false⟩ Sample.text = .ok a ∧
    pieces? (a.words.drop Header.wordCount)
      = some [[262165, 1, 32, 1], [262187, 1, 2, 0xFFFFFFFB]] := by
  obtain ⟨s', hs⟩ := Sample.says_text 0
  have ha := assemble_of_encodesAll hs
  obtain ⟨-, hpieces, -⟩ := (assemble_framed ha).2 _ (Says.consists ⟨s', hs⟩)
  exact ⟨_, ha, hpieces⟩

end Assembly

end Spirv
