import Mathlib
import Spirv.Proofs.Listing.Encoding

/-!
Listing a module and assembling it again.

The text of a module is cut into the words of the lines of its instructions; the comments that
describe the header are skipped. In binary order the lines are encoded to the words of the
instructions, and so they are with their results in front, since both forms of a text are encoded
alike. What is assembled is the body of the module.
-/

namespace Spirv

open Text Assembly

namespace Listing

/-! ### The text of a module -/

lemma newline_notMem_toString (n : ℕ) : '\n' ∉ (toString n).toList := by
  have hchars : (toString n).toList = Nat.toDigits 10 n := by simp
  rw [hchars]
  exact fun hmem => absurd (Digits.isDigit_of_mem_toDigits hmem) (by decide)

lemma newline_notMem_generatorName (n : ℕ) : '\n' ∉ (generatorName n).toList := by
  unfold generatorName
  split <;> decide

/-- The comments that describe a header are lines of their own. -/
lemma exists_notes (h : Header) : ∃ notes : List (List Char),
    h.comments.toList = notes.flatMap (fun note => ';' :: note ++ ['\n']) ∧
      ∀ note ∈ notes, '\n' ∉ note := by
  have hchars : h.comments.toList = "; SPIR-V\n; Version: ".toList ++ (h.versionText.toList
      ++ ("\n; Generator: ".toList ++ (h.generatorText.toList
      ++ ("\n; Bound: ".toList ++ ((toString h.bound.toNat).toList
      ++ ("\n; Schema: ".toList ++ ((toString h.schema.toNat).toList ++ "\n".toList))))))) := by
    unfold Header.comments
    iterate 8 rw [String.toList_append]
    simp only [List.append_assoc]
  refine ⟨[" SPIR-V".toList, " Version: ".toList ++ h.versionText.toList,
    " Generator: ".toList ++ h.generatorText.toList,
    " Bound: ".toList ++ (toString h.bound.toNat).toList,
    " Schema: ".toList ++ (toString h.schema.toNat).toList], ?_, ?_⟩
  · rw [hchars]
    generalize h.versionText.toList = version, h.generatorText.toList = generator,
      (toString h.bound.toNat).toList = bound, (toString h.schema.toNat).toList = schema
    simp
  · have hversion : '\n' ∉ h.versionText.toList := by
      simp only [Header.versionText, String.toList_append, List.mem_append, not_or]
      exact ⟨⟨newline_notMem_toString _, by decide⟩, newline_notMem_toString _⟩
    have hgenerator : '\n' ∉ h.generatorText.toList := by
      simp only [Header.generatorText, String.toList_append, List.mem_append, not_or]
      exact ⟨⟨newline_notMem_generatorName _, by decide⟩, newline_notMem_toString _⟩
    have hboth : ∀ {front note : List Char}, '\n' ∉ front → '\n' ∉ note → '\n' ∉ front ++ note :=
      fun hf hn hmem => (List.mem_append.mp hmem).elim hf hn
    refine List.forall_mem_cons.mpr ⟨by decide, List.forall_mem_cons.mpr
      ⟨hboth (by decide) hversion, List.forall_mem_cons.mpr ⟨hboth (by decide) hgenerator,
      List.forall_mem_cons.mpr ⟨hboth (by decide) (newline_notMem_toString _),
      List.forall_mem_singleton.mpr (hboth (by decide) (newline_notMem_toString _))⟩⟩⟩⟩

lemma cut_comments {text : List Char} {ws : List (List Char)} (h : Header) (hcut : Cut text ws) :
    Cut (h.comments.toList ++ text) ws := by
  obtain ⟨notes, hnotes, hline⟩ := exists_notes h
  rw [hnotes]
  clear hnotes
  induction notes with
  | nil => exact hcut
  | cons note notes ih =>
    obtain ⟨hnote, hline⟩ := List.forall_mem_cons.mp hline
    simpa using Cut.comment hnote (ih hline)

/-- Listed instructions are cut into the words of their lines. -/
lemma cut_instructions {earlier is : List Instruction} (his : Decodable (earlier ++ is))
    (hf : ∀ i ∈ is, i.Faithful) (form : Form) :
    Cut (is.flatMap fun i => (instruction form i).toList ++ ['\n'])
      ((is.map line).flatMap (Line.words form)) := by
  induction is generalizing earlier with
  | nil => exact .nil
  | cons i is ih =>
    obtain ⟨hi, hf⟩ := List.forall_mem_cons.mp hf
    obtain ⟨⟨ps, h⟩, his'⟩ := Decodable.append_cons_iff.mp his
    have hne : (line i).words form ≠ [] := by
      unfold Line.words
      split <;> exact List.cons_ne_nil _ _
    rw [List.flatMap_cons, List.map_cons, List.flatMap_cons, toList_instruction h,
      List.append_assoc]
    exact Cut.line (isWord_of_mem_words h his.of_append hi form) hne (ih his' hf)

lemma toList_foldl (form : Form) (text : String) (is : List Instruction) :
    (is.foldl (fun text i => text ++ instruction form i ++ "\n") text).toList
      = text.toList ++ is.flatMap fun i => (instruction form i).toList ++ ['\n'] := by
  induction is generalizing text with
  | nil => simp
  | cons i is ih =>
    rw [List.foldl_cons, ih]
    simp

/-- A module is listed as the lines of its instructions. -/
lemma exists_disassemble {words : List Word} {h : Header} {is : List Instruction}
    (hread : Binary.readHeader words = .ok (h, codeOf is)) (his : Decodable is)
    (hf : ∀ i ∈ is, i.Faithful) (form : Form) (comments : Bool) :
    ∃ text, disassemble form comments words = .ok text ∧
      (TokenText.ofText text).tokens.map Token.chars = (is.map line).flatMap (Line.words form) := by
  refine ⟨_, (Binary.fold_eq_ok_iff _ _ _ _ _).mpr ⟨h, is, hread, his, rfl⟩, tokens_of_cut ?_⟩
  have hcut := cut_instructions (show Decodable ([] ++ is) from his) hf form
  rw [toList_foldl]
  rcases comments with _ | _
  · simpa using hcut
  · simpa using cut_comments h hcut

/-! ### Assembling the text -/

section

variable {is : List Instruction} {form : Form} {finish : Position} {tokens : List Token}

/-- The values that a text spells are kept, and no name has an id yet. -/
lemma tracks_startSymbols (form : Form) (generator : Word) (tokens : List Token) :
    Tracks {w | w ≠ 0 ∧ ∃ token ∈ tokens, numericId? token.chars = some w} []
      ⟨startSymbols ⟨form, generator, true⟩ tokens, .empty⟩ where
  declares := declares_empty
  numeric := by
    rw [startSymbols_eq]
    refine ⟨fun w hw => ?_, fun name id hid => ?_, fun id name hname => ?_⟩
    · exact (mem_preserveAll (t := .empty)).mpr (.inr hw)
    · simp [SymbolTable.id?, SymbolTable.empty] at hid
    · simp [SymbolTable.name?, SymbolTable.empty] at hname

/-- The lines of a text are encoded to the words of the instructions in either form. -/
lemma exists_encodeAll_form {kept : Set Word} {s : State} (his : Decodable is)
    (hf : ∀ i ∈ is, i.Faithful) (hs : Tracks kept [] s)
    (hkept : ∀ w, w ≠ 0 → ∀ word ∈ (is.map line).flatMap (Line.words .canonical),
      numericId? word = some w → w ∈ kept)
    (ht : tokens.map Token.chars = (is.map line).flatMap (Line.words form)) :
    ∃ s', encodeAll form finish s #[] tokens = .ok (s', (codeOf is).toArray) := by
  have his : Decodable ([] ++ is) := his
  have hcanonical : ∀ us : List Token,
      us.map Token.chars = (is.map line).flatMap (Line.words .canonical) →
        ∃ s', encodeAll .canonical finish s #[] us = .ok (s', (codeOf is).toArray) := by
    intro us hu
    simpa using exists_encodeAll his hf hs hkept hu #[]
  cases form with
  | canonical => exact hcanonical tokens ht
  | assignment =>
    let us : List Token := ((is.map line).flatMap (Line.words .canonical)).map fun word =>
      ⟨word, .start⟩
    have hu : us.map Token.chars = (is.map line).flatMap (Line.words .canonical) := by
      simp [us, Function.comp_def]
    obtain ⟨s', hencode⟩ := hcanonical us hu
    have halike : Alike _ _ (encodeAll .assignment finish s #[] tokens)
        (encodeAll .canonical finish s #[] us) :=
      encodeAll_alike (proper_lines his hf) (.refl s) ⟨[], List.forall_mem_nil _, ht, hu⟩ #[]
    rw [hencode] at halike
    generalize encodeAll .assignment finish s #[] tokens = x at halike
    cases halike with
    | @ok x _ h => exact ⟨x.1, congrArg Except.ok (Prod.ext rfl h.2)⟩

/-- A text of the lines of instructions is assembled to their words. -/
lemma exists_assemble (his : Decodable is) (hf : ∀ i ∈ is, i.Faithful) (generator : Word)
    {text : String} (ht : (TokenText.ofText text).tokens.map Token.chars
      = (is.map line).flatMap (Line.words form)) :
    ∃ a, assemble ⟨form, generator, true⟩ text = .ok a ∧
      a.words.drop Header.wordCount = codeOf is := by
  -- what the text spells is what it spells in binary order
  have hkept : ∀ w, w ≠ 0 → ∀ word ∈ (is.map line).flatMap (Line.words .canonical),
      numericId? word = some w →
        w ≠ 0 ∧ ∃ token ∈ (TokenText.ofText text).tokens, numericId? token.chars = some w := by
    intro w hne word hword hw
    obtain ⟨l, hl, hword⟩ := List.mem_flatMap.mp hword
    refine ⟨hne, (exists_numericId?_iff ht w).mpr ⟨l, hl, ?_⟩⟩
    cases form with
    | canonical => exact ⟨word, hword, hw⟩
    | assignment => exact (l.exists_numericId?_iff w).mpr ⟨word, hword, hw⟩
  have hstart := tracks_startSymbols form generator (TokenText.ofText text).tokens
  obtain ⟨s', hencode⟩ : ∃ s', encodeAll form (TokenText.ofText text).finish
      ⟨startSymbols ⟨form, generator, true⟩ (TokenText.ofText text).tokens, .empty⟩ #[]
      (TokenText.ofText text).tokens = .ok (s', (codeOf is).toArray) :=
    exists_encodeAll_form his hf hstart hkept ht
  have ha := assemble_eq ⟨form, generator, true⟩ text
  rw [hencode] at ha
  exact ⟨_, ha, by simp [Header.words, Header.wordCount]⟩

end

end Listing

open Listing Binary

variable {σ β : Type}

/-- **Listing and assembling a module gives back its body.** A module that is read to its end and
whose instructions are faithful is listed, in either form and with or without comments, and its text
is assembled, numeric names keeping their values, to the same words after the header. -/
theorem assemble_disassemble (v : Visitor σ β) (s : σ) (words : List Word)
    (hdone : (visit v s words).2 = .ok .completed)
    (hfaithful : ∀ i ∈ shown v s words, i.Faithful) (form : Form) (comments : Bool)
    (generator : Word) :
    ∃ text a, disassemble form comments words = .ok text ∧
      assemble ⟨form, generator, true⟩ text = .ok a ∧
      a.words.drop Header.wordCount = body words := by
  obtain ⟨his, rest, hbody, hrest⟩ := decodable_shown v s words
  rw [hrest hdone, List.append_nil] at hbody
  obtain ⟨h, hread⟩ : ∃ h, readHeader words = .ok (h, body words) := by
    rcases hread : readHeader words with e | ⟨h, code⟩
    · simp [visit, hread] at hdone
    · exact ⟨h, by rw [← readHeader_body hread]⟩
  rw [hbody] at hread ⊢
  obtain ⟨text, htext, ht⟩ := exists_disassemble hread his hfaithful form comments
  obtain ⟨a, ha, hdrop⟩ := exists_assemble his hfaithful generator ht
  exact ⟨text, a, htext, ha, hdrop⟩

namespace Listing.Sample

open Program.Sample

def greeting : Instruction := plain .opString
  [⟨.resultId, [1], none⟩, ⟨.string, [0x6948], none⟩]

def single : Instruction := plain .opTypeFloat
  [⟨.resultId, [2], none⟩, ⟨.integer, [32], some ⟨.unsigned, 32⟩⟩]

def infinite : Instruction := plain .opConstant
  [⟨.typeId, [2], none⟩, ⟨.resultId, [3], none⟩,
    ⟨.typedNumber, [0x7F800000], some ⟨.float, 32⟩⟩]

def instructions : List Instruction := [greeting, single, infinite]

def words : List Word := (Header.ofBound 4 0).words ++ codeOf instructions

lemma decodable_instructions : Decodable instructions := by
  have hstring : PackedString.IsString [0x6948] := ⟨[], 0x6948, rfl, by simp, by decide⟩
  have hgreeting : Decodable ([] ++ [greeting]) := .snoc .nil <| decodes_plain nofun (by decide) <|
    .next rfl rfl (.resultId (by decide) (by simp)) <|
    .next rfl rfl (.string hstring nofun) (.done (by decide))
  have hsingle : Decodable ([greeting] ++ [single]) := .snoc hgreeting <|
    decodes_plain nofun (by decide) <| .next rfl rfl (.resultId (by decide) (by decide)) <|
    .next rfl rfl (.integer 32) (.done (by decide))
  have hgoverns : Context.Governs ⟨[greeting, single], .opConstant, [2, 3]⟩ ⟨.float, 32⟩ :=
    ⟨by decide, single, by simp, by decide, by decide⟩
  exact .snoc hsingle <| decodes_plain nofun (by decide) <| .next rfl rfl (.typeId (by decide)) <|
    .next rfl rfl (.resultId (by decide) (by decide)) <|
    .next rfl rfl (.typedNumber hgoverns rfl) (.done (by decide))

lemma faithful_greeting : greeting.Faithful := by
  have hoperands : greeting.operands = #[⟨1, 1, .resultId, none⟩, ⟨2, 1, .string, none⟩] := rfl
  have hwords : greeting.wordsOf ⟨2, 1, .string, none⟩ = [0x6948] := rfl
  have hzero : PackedString.ZeroPadded [0x6948] := by
    rw [PackedString.ZeroPadded]
    decide +kernel
  have hbytes : Utf8.encode "Hi".toList = PackedString.bytesOf [0x6948] := by decide +kernel
  constructor
  · simpa [hoperands, hwords] using ⟨hzero, _, hbytes, by decide⟩
  · simp [hoperands]
  · simp [hoperands]

lemma faithful_single : single.Faithful := by
  have hoperands : single.operands = #[⟨1, 1, .resultId, none⟩,
    ⟨2, 1, .integer, some ⟨.unsigned, 32⟩⟩] := rfl
  constructor <;> simp [hoperands]

lemma faithful_infinite : infinite.Faithful := by
  have hoperands : infinite.operands = #[⟨1, 1, .typeId, none⟩, ⟨2, 1, .resultId, none⟩,
    ⟨3, 1, .typedNumber, some ⟨.float, 32⟩⟩] := rfl
  have hcanonical : ∀ ws, NumberType.Canonical ⟨.float, 32⟩ ws := fun _ =>
    ⟨nofun, nofun, fun _ => .inl le_rfl⟩
  constructor <;> simp [hoperands, hcanonical]

lemma faithful_instructions : ∀ i ∈ instructions, i.Faithful :=
  List.forall_mem_cons.mpr ⟨faithful_greeting, List.forall_mem_cons.mpr ⟨faithful_single,
    List.forall_mem_singleton.mpr faithful_infinite⟩⟩

end Listing.Sample

/-- A module with a string and an infinite number is listed and assembled again. -/
theorem assemble_disassemble_sample :
    ∃ text a, disassemble .assignment true Listing.Sample.words = .ok text ∧
      assemble ⟨.assignment, 0, true⟩ text = .ok a ∧
      a.words.drop Header.wordCount = body Listing.Sample.words := by
  have hread : readHeader Listing.Sample.words
      = .ok (.ofBound 4 0, codeOf Listing.Sample.instructions) := rfl
  let v : Visitor Unit Empty := .ofFold (fun _ _ => ()) fun _ _ => ()
  obtain ⟨hdone, hshown⟩ := visit_codeOf v () hread Listing.Sample.decodable_instructions
  exact assemble_disassemble v () Listing.Sample.words hdone
    (hshown ▸ Listing.Sample.faithful_instructions) .assignment true 0

end Spirv
