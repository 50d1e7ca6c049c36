import Mathlib
import Spirv.Proofs.Encoding.Forms

/-!
What stands between words.

Blanks, line breaks and comments part the words of a text, and nothing of them is left in the module.
Two texts of the same words are encoded in step from their first word to their last, from the same
symbols on, so they are assembled to the same module or fail with the same fault; only where it is
found may differ.
-/

namespace Spirv.Assembly

/-- Equal symbols give a name the same id. -/
lemma assign_of_eq {t u : SymbolTable} {n n' : List Char} (ht : t = u) (hn : n = n') :
    Alike (fun e e' => Fault.symbol e = .symbol e') (fun a b => a.1 = b.1 ∧ a.2 = b.2)
      (t.assign (String.ofList n)) (u.assign (String.ofList n')) := by
  subst ht hn
  rcases t.assign (String.ofList n) with e | a
  · exact .error rfl
  · exact .ok ⟨rfl, rfl⟩

/-- The same names, symbols and faults. -/
abbrev Renaming.identity : Renaming where
  name := (· = ·)
  symbols := (· = ·)
  fault := (· = ·)
  fault_words := fault_words_of_eq
  assign := assign_of_eq

lemma preserveAll_congr {ts us : List Token} (h : ts.map Token.chars = us.map Token.chars)
    (t : SymbolTable) : preserveAll t ts = preserveAll t us := by
  induction ts generalizing t us with
  | nil =>
    obtain rfl := List.map_eq_nil_iff.mp h.symm
    rfl
  | cons a ts ih =>
    obtain ⟨b, us, rfl, hb, hus⟩ := List.map_eq_cons_iff.mp h.symm
    rw [preserveAll, preserveAll, List.foldl_cons, List.foldl_cons, hb]
    exact ih hus.symm _

/-- Texts of the same words start with the same symbols. -/
lemma startSymbols_congr {ts us : List Token} (h : ts.map Token.chars = us.map Token.chars)
    (o : AssemblyOptions) : startSymbols o ts = startSymbols o us := by
  rw [startSymbols, startSymbols, preserveAll_congr h]

lemma Renaming.texts_identity {ts us : List Token}
    (h : ts.map Token.chars = us.map Token.chars) : identity.Texts ts us := by
  rw [← List.forall₂_eq_eq_eq, List.forall₂_map_left_iff, List.forall₂_map_right_iff] at h
  exact h.imp fun a b hchars => hchars ▸ .refl (fun _ => rfl) _

/-- **Assembling depends on the words of the text only.** Two texts that are cut into the same words,
whatever blanks, line breaks and comments stand between these, are assembled to the same module, with
the same bound and the same symbols, or both fail with the same fault. -/
theorem assemble_spacing (o : AssemblyOptions) {text text' : String}
    (h : (TokenText.ofText text).tokens.map Token.chars
      = (TokenText.ofText text').tokens.map Token.chars) :
    (∃ a, assemble o text = .ok a ∧ assemble o text' = .ok a) ∨
      ∃ e e', assemble o text = .error e ∧ assemble o text' = .error e' ∧ e.Same e' := by
  have hstates : Renaming.identity.States ⟨startSymbols o (TokenText.ofText text).tokens, .empty⟩
      ⟨startSymbols o (TokenText.ofText text').tokens, .empty⟩ := ⟨startSymbols_congr h o, rfl⟩
  have halike : Alike Error.Same (· = ·) (assemble o text) (assemble o text') := by
    rw [assemble_eq, assemble_eq]
    refine (encodeAll_texts hstates (Renaming.texts_identity h) #[]).bind fun x y ⟨hstate, hbody⟩ => ?_
    exact .ok (by rw [hstate.symbols, hbody])
  rcases halike.ok_or_error with ⟨a, b, ha, hb, rfl⟩ | herror
  · exact .inl ⟨a, ha, hb⟩
  · exact .inr herror

namespace Sample

/-- The type and its constant, each on a line of its own with a comment. -/
def spacedText : String := "%i = OpTypeInt 32 1 ; signed\n\t%n\t=\tOpConstant %i -5;"

lemma words_spacedText : (TokenText.ofText text).tokens.map Token.chars
    = (TokenText.ofText spacedText).tokens.map Token.chars := by cbv

end Sample

/-- A type and a constant of it are assembled alike with blanks and with lines between them. -/
theorem assemble_spacing_sample : (TokenText.ofText Sample.text).tokens.map Token.chars
      = (TokenText.ofText Sample.spacedText).tokens.map Token.chars ∧
    ∃ a, assemble ⟨.assignment, 0, false⟩ Sample.text = .ok a ∧
      assemble ⟨.assignment, 0, false⟩ Sample.spacedText = .ok a := by
  refine ⟨Sample.words_spacedText, ?_⟩
  obtain ⟨s', hs⟩ := Sample.says_text 0
  rcases assemble_spacing ⟨.assignment, 0, false⟩ Sample.words_spacedText with h | ⟨e, e', he, -⟩
  · exact h
  · exact absurd ((assemble_of_encodesAll hs).symm.trans he) nofun

end Spirv.Assembly
