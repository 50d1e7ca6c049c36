import Mathlib
import Spirv.Proofs.Encoding.Forms
import Spirv.Proofs.Text.Walk

/-!
Where errors of assembling point.

Each step of the encoder names the token that it looks at when it fails, or the end of the text where
there is no token left. So an error is at the start of a word or at the end of the text. It is about
the word that it is at: a word that it quotes is that one, and one that tells of a string that is too
long is at a word in quotes.
-/

namespace Spirv

namespace Assembly.Fault

/-- The word that the fault quotes, if it quotes one. -/
def word? : Fault → Option String
  | expectedOpcode w | expectedOpcodeOrResult w | notOpcodeLike w | unknownOpcode w
  | missingResult w | badImmediate w | badWordAfterRaw _ w | stringForNumber w | badNumber w
  | integerOutOfRange w _ | numberForString w | badString w | unknownExtended w
  | unknownSpecOpcode w | badValue _ w | unexpected _ w => some w
  | equalsAfterRaw _ => some "="
  | _ => none

/-- Whether the fault is that the text has ended. -/
def isAtEnd : Fault → Bool
  | expectedEqualsAtEnd | expectedOpcodeAtEnd | missingOperandAtEnd => true
  | _ => false

/-- The fault may be found at the word: it is not that no word is left, and it quotes no other. -/
structure IsAbout (chars : List Char) (fault : Fault) : Prop where
  inText : fault.isAtEnd = false
  word : ∀ w ∈ fault.word?, w = String.ofList chars

variable {fault : Fault} {chars : List Char}

lemma isAbout_of_quoted (inText : fault.isAtEnd = false)
    (h : fault.word? = some (String.ofList chars)) : fault.IsAbout chars :=
  ⟨inText, fun w hw => by simpa [h, eq_comm] using hw⟩

lemma isAbout_of_none (inText : fault.isAtEnd = false) (h : fault.word? = none) :
    fault.IsAbout chars :=
  ⟨inText, fun w hw => by simp [h] at hw⟩

end Assembly.Fault

/-- The error is at the start of one of the tokens and about its word, or at the end of the text. -/
inductive Error.PointsAt (finish : Position) (tokens : List Token) : Error → Prop where
  | token {fault : Assembly.Fault} {token : Token} (mem : token ∈ tokens)
    (about : fault.IsAbout token.chars) : PointsAt finish tokens (.text fault token.start)
  | finish {fault : Assembly.Fault} (ended : fault.isAtEnd = true) :
    PointsAt finish tokens (.text fault finish)
  | string {token : Token} (mem : token ∈ tokens) (quote : token.chars.head? = some '"') :
    PointsAt finish tokens (.stringTooLong token.start.line token.start.column)

/-- The error is about a word of the text and at the start of it, or at the end of the text. The words
are those that walking over the text comes to. -/
inductive Error.PointsInto (text : String) : Error → Prop where
  | word {fault : Assembly.Fault} {rounds : List Text.Round} {c : Cursor}
    (walk : (Cursor.ofText text.toList).Walks rounds c) (found : c.skip.atEnd = false)
    (about : fault.IsAbout c.skip.word) : PointsInto text (.text fault c.skip.position)
  | finish {fault : Assembly.Fault} {rounds : List Text.Round} {c : Cursor}
    (walk : (Cursor.ofText text.toList).Walks rounds c) (ended : c.skip.atEnd = true)
    (lacking : fault.isAtEnd = true) : PointsInto text (.text fault c.skip.position)
  | string {rounds : List Text.Round} {c : Cursor}
    (walk : (Cursor.ofText text.toList).Walks rounds c) (found : c.skip.atEnd = false)
    (quote : c.skip.word.head? = some '"') :
    PointsInto text (.stringTooLong c.skip.position.line c.skip.position.column)

/-- The error is not before the place. -/
def Error.NotBefore (p : Position) : Error → Prop
  | .text _ q => p ≤ q
  | .stringTooLong line column => p.line < line ∨ p.line = line ∧ p.column ≤ column
  | _ => False

namespace Error.PointsAt

variable {finish p : Position} {tokens tokens' : List Token} {e : Error}

lemma mono (h : PointsAt finish tokens e) (hsub : tokens ⊆ tokens') : PointsAt finish tokens' e := by
  cases h with
  | token mem about => exact .token (hsub mem) about
  | finish ended => exact .finish ended
  | string mem quote => exact .string (hsub mem) quote

lemma notBefore (h : PointsAt finish tokens e) (hfinish : p ≤ finish)
    (htokens : ∀ token ∈ tokens, p ≤ token.start) : e.NotBefore p := by
  cases h with
  | token mem _ => exact htokens _ mem
  | finish _ => exact hfinish
  | string mem quote => exact (htokens _ mem).line

end Error.PointsAt

namespace Assembly

open Error (PointsAt)
open Fault (isAbout_of_quoted isAbout_of_none)

variable {d : Declared} {op : Opcode} {done : Array Word} {slot : Slot} {chars : List Char}
  {s : State} {token : Token} {tokens : List Token} {finish : Position} {e : Error} {r : Reading}
  {refusal : Refusal}

/-- The word may be refused so. Only a word in quotes is too long. -/
def Refusal.IsAbout (chars : List Char) : Refusal → Prop
  | mismatch fault | fatal fault => fault.IsAbout chars
  | tooLong => chars.head? = some '"'

/-- Only a string is too long. -/
lemma head?_of_tooLong (h : Literal.read chars = .error .tooLong) : chars.head? = some '"' := by
  by_contra hquote
  rw [Literal.read, if_neg hquote] at h
  unfold Literal.ofNegative Literal.ofUnsigned at h
  repeat' split at h
  all_goals simp at h

/-! ### A refusal is about the word -/

lemma isAbout_of_readRaw (h : readRaw chars = .error refusal) : refusal.IsAbout chars := by
  rw [readRaw] at h
  split at h
  next => simp at h
  next => exact Except.error.inj h ▸ isAbout_of_quoted rfl rfl

lemma isAbout_of_readId {refuse : Fault → Refusal} (h : readId refuse chars = .error refusal)
    (hrefuse : ∀ fault, fault.IsAbout chars → (refuse fault).IsAbout chars) :
    refusal.IsAbout chars := by
  unfold readId at h
  split at h
  next => simp at h
  next => exact Except.error.inj h ▸ hrefuse _ (isAbout_of_none rfl rfl)

lemma isAbout_of_readNumber (h : readNumber chars = .error refusal) : refusal.IsAbout chars := by
  rw [readNumber] at h
  split at h
  next => exact Except.error.inj h ▸ isAbout_of_quoted rfl rfl
  next => simp at h
  next htoo => exact Except.error.inj h ▸ head?_of_tooLong htoo
  next => exact Except.error.inj h ▸ isAbout_of_quoted rfl rfl

lemma isAbout_of_readTyped {type? : Option NumberType} (h : readTyped type? chars = .error refusal) :
    refusal.IsAbout chars := by
  unfold readTyped at h
  split at h
  next => exact isAbout_of_readNumber h
  next =>
  split at h
  next =>
    split at h
    next => simp at h
    next => exact Except.error.inj h ▸ isAbout_of_quoted rfl rfl
    next => exact Except.error.inj h ▸ isAbout_of_quoted rfl rfl
  next =>
  split at h
  next =>
    split at h
    next => simp at h
    next => exact Except.error.inj h ▸ isAbout_of_quoted rfl rfl
  next => exact isAbout_of_readNumber h

lemma isAbout_of_readString (h : readString op chars = .error refusal) : refusal.IsAbout chars := by
  rw [readString] at h
  split at h
  next => split at h <;> simp at h
  next => exact Except.error.inj h ▸ isAbout_of_quoted rfl rfl
  next htoo => exact Except.error.inj h ▸ head?_of_tooLong htoo
  next => exact Except.error.inj h ▸ isAbout_of_quoted rfl rfl

lemma isAbout_of_readFree (h : readFree chars = .error refusal) : refusal.IsAbout chars := by
  rw [readFree] at h
  split at h
  next => simp at h
  next htoo => exact Except.error.inj h ▸ head?_of_tooLong htoo
  next => exact isAbout_of_readId h fun _ => id

lemma isAbout_of_readKind {k : OperandKind} (h : readKind d op done chars k = .error refusal) :
    refusal.IsAbout chars := by
  cases k with
  | id | typeId | resultId | scopeId | memorySemanticsId =>
    exact isAbout_of_readId h fun _ => id
  | integer => exact isAbout_of_readNumber h
  | typedNumber =>
    rw [readKind] at h
    split at h
    next => exact isAbout_of_readNumber h
    next => exact isAbout_of_readTyped h
  | string => exact isAbout_of_readString h
  | extended =>
    exact refusal_of_readExtended h ▸ isAbout_of_quoted rfl rfl
  | specOpcode =>
    exact refusal_of_readSpecOpcode h ▸ isAbout_of_quoted rfl rfl
  | named c =>
    exact refusal_of_readNamed h ▸ isAbout_of_quoted rfl rfl

lemma isAbout_of_readOperand (h : readOperand d op done slot chars = .error refusal) :
    refusal.IsAbout chars := by
  unfold readOperand at h
  split at h
  next => exact isAbout_of_readRaw h
  next =>
  split at h
  next => exact isAbout_of_readFree h
  next => exact isAbout_of_readId h fun _ => id
  next => exact isAbout_of_readKind h
  next => exact isAbout_of_readKind h
  next => exact isAbout_of_readKind h
  next => exact Except.error.inj h ▸ isAbout_of_quoted rfl rfl
  next => exact Except.error.inj h ▸ isAbout_of_quoted rfl rfl
  next => exact Except.error.inj h ▸ isAbout_of_quoted rfl rfl

/-! ### An error is at a word that it is about -/

/-- A refused word is what the error is at. -/
lemma pointsAt_of_refusal (hmem : token ∈ tokens) (h : refusal.IsAbout token.chars) :
    PointsAt finish tokens (refusal.toError token.start) := by
  cases refusal with
  | mismatch fault => exact .token hmem h
  | fatal fault => exact .token hmem h
  | tooLong => exact .string hmem h

lemma pointsAt_of_acceptToken (hmem : token ∈ tokens) (h : acceptToken s done token r = .error e) :
    PointsAt finish tokens e := by
  rw [acceptToken] at h
  split at h
  next => simp at h
  next => exact Except.error.inj h ▸ .token hmem (isAbout_of_none rfl rfl)

/-- Filling slots fails at a word or at the end of the text. -/
lemma pointsAt_of_fillSlots {result? : Option Token} {p : Pattern}
    (h : fillSlots op result? finish s done p tokens = .error e) :
    PointsAt finish (result?.toList ++ tokens) e := by
  fun_induction fillSlots op result? finish s done p tokens with
  | case2 s done p tokens rest result refusal hread hp hs =>
    exact Except.error.inj h ▸ pointsAt_of_refusal (by simp) (isAbout_of_readId hread fun _ => id)
  | case3 s done p tokens rest result r hread e' hacc hp hs =>
    exact Except.error.inj h ▸ pointsAt_of_acceptToken (by simp) hacc
  | case4 s done p tokens rest result r hread s' done' hacc hp hs ih => exact ih h
  | case6 => exact Except.error.inj h ▸ .finish rfl
  | case8 => exact Except.error.inj h ▸ .token (by simp) (isAbout_of_none rfl rfl)
  | case10 result? s done p slot rest hp token after hstart fault hread hopt hs =>
    have habout : fault.IsAbout token.chars := isAbout_of_readOperand hread
    exact Except.error.inj h ▸ .token (by simp) habout
  | case11 result? s done p slot rest hp token after hstart refusal hread hne hs =>
    exact Except.error.inj h ▸ pointsAt_of_refusal (by simp) (isAbout_of_readOperand hne)
  | case12 result? s done p slot rest hp token after hstart r hread e' hacc hs =>
    exact Except.error.inj h ▸ pointsAt_of_acceptToken (by simp) hacc
  | case13 result? s done p slot rest hp token after hstart r hread s' done' hacc hs ih =>
    refine (ih h).mono fun t ht => ?_
    simp only [List.mem_append, List.mem_cons] at ht ⊢
    tauto
  | _ => simp at h

/-- So does reading on after a raw word. -/
lemma pointsAt_of_fillRaw {first : Token} (h : fillRaw first s done tokens = .error e) :
    PointsAt finish tokens e := by
  have hread : ∀ {chars : List Char} {refusal : Refusal},
      (if isRaw chars then readRaw chars else readFree chars) = .error refusal →
      refusal.IsAbout chars := by
    intro chars refusal h
    split at h
    next => exact isAbout_of_readRaw h
    next => exact isAbout_of_readFree h
  induction tokens generalizing s done with
  | nil => simp [fillRaw] at h
  | cons token tokens ih =>
    rcases hstart : Token.startInstruction (token :: tokens) with _ | _
    · rw [fillRaw_token hstart] at h
      split at h
      next hequals =>
        have habout : (Fault.equalsAfterRaw first.text).IsAbout token.chars :=
          isAbout_of_quoted rfl (by rw [hequals]; rfl)
        exact Except.error.inj h ▸ .token (.head _) habout
      next =>
      split at h
      next => exact Except.error.inj h ▸ .token (.head _) (isAbout_of_quoted rfl rfl)
      next hrefusal => exact Except.error.inj h ▸ pointsAt_of_refusal (.head _) (hread hrefusal)
      next r _ =>
        rcases hacc : acceptToken s done token r with e' | next
        · rw [hacc] at h
          exact Except.error.inj h ▸ pointsAt_of_acceptToken (.head _) hacc
        · rw [hacc] at h
          exact (ih h).mono (List.subset_cons_self _ _)
    · rw [fillRaw, if_pos hstart] at h
      simp at h

/-- And so does finding the opcode. -/
lemma pointsAt_of_readHead {form : Form} {first : Token} {rest : List Token}
    (h : readHead form finish first rest = .error e) : PointsAt finish (first :: rest) e := by
  have hop : ∀ {result? : Option Token} {name : Token} {after : List Token},
      name ∈ first :: rest → readOpcode result? name after = .error e →
      PointsAt finish (first :: rest) e := by
    intro result? name after hmem h
    rw [readOpcode] at h
    split at h
    next => simp at h
    next => exact Except.error.inj h ▸ .token hmem (isAbout_of_quoted rfl rfl)
  unfold readHead at h
  split at h
  next => exact hop (.head _) h
  next =>
  split at h
  next => exact Except.error.inj h ▸ .token (.head _) (isAbout_of_quoted rfl rfl)
  next =>
  split at h
  next => exact Except.error.inj h ▸ .token (.head _) (isAbout_of_quoted rfl rfl)
  next =>
  split at h
  next => exact Except.error.inj h ▸ .finish rfl
  next equals rest =>
  split at h
  next => exact Except.error.inj h ▸ .token (by simp) (isAbout_of_none rfl rfl)
  next =>
  split at h
  next => exact Except.error.inj h ▸ .finish rfl
  next name rest =>
  split at h
  next => exact hop (by simp) h
  next => exact Except.error.inj h ▸ .token (by simp) (isAbout_of_quoted rfl rfl)

lemma rest_suffix_of_encodeInstruction {form : Form} {first : Token} {rest : List Token}
    {encoded : Encoded} (h : encodeInstruction form finish s first rest = .ok encoded) :
    encoded.rest <:+ rest :=
  (numbers_of_encodeInstruction h fun token htoken n hn =>
    mem_idNames.mpr ⟨token, htoken, n, hn, rfl⟩).2

lemma pointsAt_of_encodeInstruction {form : Form} {first : Token} {rest : List Token}
    (h : encodeInstruction form finish s first rest = .error e) :
    PointsAt finish (first :: rest) e := by
  have hrest : rest ⊆ first :: rest := List.subset_cons_self _ _
  unfold encodeInstruction at h
  split at h
  next =>
    split at h
    next hread => exact Except.error.inj h ▸ pointsAt_of_refusal (.head _) (isAbout_of_readRaw hread)
    next =>
    split at h
    next hacc => exact Except.error.inj h ▸ pointsAt_of_acceptToken (.head _) hacc
    next =>
    split at h
    next hfill => exact Except.error.inj h ▸ (pointsAt_of_fillRaw hfill).mono hrest
    next =>
    split at h
    next => exact Except.error.inj h ▸ .token (.head _) (isAbout_of_none rfl rfl)
    next => simp at h
  next =>
    split at h
    next hhead => exact Except.error.inj h ▸ pointsAt_of_readHead hhead
    next head hhead =>
    split at h
    next => exact Except.error.inj h ▸ .token (.head _) (isAbout_of_quoted rfl rfl)
    next =>
    split at h
    next hfill =>
      refine Except.error.inj h ▸ (pointsAt_of_fillSlots hfill).mono ?_
      rcases exists_head hhead with ⟨hresult, hrest', -⟩ |
        ⟨-, -, -, hresult, equals, name, rfl, -⟩
      · rw [hresult, hrest']
        exact hrest
      · intro token htoken
        rw [hresult] at htoken
        simp only [Option.toList_some, List.singleton_append, List.mem_cons] at htoken ⊢
        tauto
    next =>
      rw [finishInstruction] at h
      split at h
      next => exact Except.error.inj h ▸ .token (.head _) (isAbout_of_none rfl rfl)
      next => simp at h

/-- **Errors point at words.** A text that cannot be encoded fails at the start of one of its words or
at its end. -/
theorem pointsAt_of_encodeAll {form : Form} {body : Array Word}
    (h : encodeAll form finish s body tokens = .error e) : PointsAt finish tokens e := by
  fun_induction encodeAll form finish s body tokens with
  | case1 => simp at h
  | case2 s body first rest e' henc =>
    exact Except.error.inj h ▸ pointsAt_of_encodeInstruction henc
  | case3 s body first rest encoded henc ih =>
    have hrest := (rest_suffix_of_encodeInstruction henc).subset
    exact (ih h).mono fun t ht => .tail _ (hrest ht)

/-! ### Places in the text -/

lemma pointsInto_of_pointsAt {text : String} {e : Error}
    (h : e.PointsAt (TokenText.ofText text).finish (TokenText.ofText text).tokens) :
    e.PointsInto text := by
  have hword : ∀ token ∈ (TokenText.ofText text).tokens, ∃ rounds c,
      (Cursor.ofText text.toList).Walks rounds c ∧ c.skip.atEnd = false ∧
        token = ⟨c.skip.word, c.skip.position⟩ := fun token hmem =>
    (Cursor.walks_of_mem_scan [] hmem).resolve_left List.not_mem_nil
  cases h with
  | token mem about =>
    obtain ⟨rounds, c, walk, found, rfl⟩ := hword _ mem
    exact .word walk found about
  | finish ended =>
    obtain ⟨rounds, c, walk, hend, hfinish⟩ :=
      Cursor.walks_finish_scan (Cursor.ofText text.toList) []
    rw [TokenText.ofText, hfinish]
    exact .finish walk hend ended
  | string mem quote =>
    obtain ⟨rounds, c, walk, found, rfl⟩ := hword _ mem
    exact .string walk found quote

/-- **Errors of assembling point at words.** A text that is not assembled fails with a fault of the
text, at the start of the word that it is about, or at the end of the text if that is the fault; or
with a string that is too long, at a word that begins with a double quote. -/
theorem pointsInto_of_assemble {o : AssemblyOptions} {text : String} {e : Error}
    (h : assemble o text = .error e) : e.PointsInto text := by
  rw [assemble_eq] at h
  rcases hx : encodeAll o.form (TokenText.ofText text).finish
    ⟨startSymbols o (TokenText.ofText text).tokens, .empty⟩ #[] (TokenText.ofText text).tokens
    with e' | x
  · rw [hx] at h
    obtain rfl := Except.error.inj h
    exact pointsInto_of_pointsAt (pointsAt_of_encodeAll hx)
  · simp [hx, bind, Except.bind] at h

namespace Sample

/-- A result, with a comment and a line break in front of what should be an opcode. -/
def badText : String := "%1 = ; none\n Nop"

lemma tokens_badText : TokenText.ofText badText = ⟨[⟨"%1".toList, ⟨0, 0, 0⟩⟩,
    ⟨"=".toList, ⟨0, 3, 3⟩⟩, ⟨"Nop".toList, ⟨1, 1, 13⟩⟩], ⟨1, 4, 16⟩⟩ := by cbv

lemma assemble_badText :
    assemble .default badText = .error (.text (.notOpcodeLike "Nop") ⟨1, 1, 13⟩) := by
  have hhead : readHead .assignment ⟨1, 4, 16⟩ ⟨"%1".toList, ⟨0, 0, 0⟩⟩
      [⟨"=".toList, ⟨0, 3, 3⟩⟩, ⟨"Nop".toList, ⟨1, 1, 13⟩⟩]
        = .error (.text (.notOpcodeLike "Nop") ⟨1, 1, 13⟩) := rfl
  have hform : AssemblyOptions.default.form = .assignment := rfl
  rw [assemble_eq, tokens_badText, hform, encodeAll_cons, encodeInstruction_of_readHead rfl hhead]
  rfl

end Sample

/-- The word that is no opcode is on the second line, after a blank. -/
theorem pointsInto_of_assemble_sample :
    assemble .default Sample.badText = .error (.text (.notOpcodeLike "Nop") ⟨1, 1, 13⟩) ∧
      (Error.text (.notOpcodeLike "Nop") ⟨1, 1, 13⟩).PointsInto Sample.badText :=
  ⟨Sample.assemble_badText, pointsInto_of_assemble Sample.assemble_badText⟩

end Assembly

end Spirv
