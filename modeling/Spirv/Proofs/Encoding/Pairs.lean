import Mathlib
import Spirv.Proofs.Decoding.Quiet
import Spirv.Proofs.Encoding.Parts
import Spirv.Proofs.Program.Reading

/-!
Operands that come in pairs.

A switch lists numbers and the ids of the blocks to go to, and the decoration of members lists ids
and numbers of members. A pair is unrolled into its two members when it comes first, and both of these
may be absent; so both the reader and the assembler let an instruction end between them.
-/

namespace Spirv

namespace Assembly

variable {d : Declared} {op : Opcode} {before : Array Word} {chars : List Char} {k l : OperandKind}
  {r : Reading} {result? : Option Token} {s : State} {done : List Word} {p : Pattern}
  {tokens : List Token} {fs : List Filled} {e : Encoded} {lead : List OperandKind}

/-- Where no operand asks for others, the operands of a statement follow the pattern. -/
lemma Fills.follows (h : Fills op result? s done p tokens fs e) (hp : ∀ s ∈ p, s.isQuiet)
    (hfree : .free ∉ p) (hraw : ∀ token ∈ tokens, isRaw token.chars = false) :
    ∃ ks : List OperandKind, fs.map (·.slot.kind?) = ks.map some ∧ Follows p ks := by
  induction h with
  | full take =>
    rw [eq_nil_of_take? take]
    exact ⟨[], rfl, .done (by simp)⟩
  | stop take optional => exact ⟨[], rfl, .done (isOptional_of_take? take optional)⟩
  | result take _ _ _ _ ih =>
    obtain ⟨ks, hks, hfollows⟩ := ih (Pattern.isQuiet_of_take? hp take).2
      (fun hmem => hfree ((exists_mem_of_take? take (.tail _ hmem)).1 rfl)) hraw
    exact ⟨.resultId :: ks, congrArg _ hks, .next take rfl hfollows⟩
  | @operand s s' done ws p rest slot tokens token r fs e take _ _ read _ _ ih =>
    obtain ⟨hslot, hquiet⟩ := Pattern.isQuiet_of_take? hp take
    have hne : slot ≠ .free := fun hs => hfree ((exists_mem_of_take? take (.head _)).1 hs)
    have hrest : .free ∉ rest := fun hmem => hfree ((exists_mem_of_take? take (.tail _ hmem)).1 rfl)
    obtain ⟨htoken, htokens⟩ := List.forall_mem_cons.mp hraw
    obtain ⟨k, hk⟩ := exists_kind_of_readOperand htoken hne read
    have hkind := readKind_of_readOperand htoken hk read
    have hneeds : r.needs = [] := List.eq_nil_iff_forall_not_mem.mpr fun t ht =>
      OperandKind.not_asks_of_isQuiet (Slot.isQuiet_kind hslot hk) t
        ((wants_of_readKind hkind).asks ht)
    rw [patternAfter_of_readOperand htoken hk read, hneeds, List.nil_append] at ih
    obtain ⟨ks, hks, hfollows⟩ := ih hquiet hrest htokens
    exact ⟨k :: ks, by rw [List.map_cons, hks, hk]; rfl, .next take hk hfollows⟩

end Assembly

/-- After the operands that the opcode requires come pairs: numbers and ids in a switch, ids and
numbers in the decoration of members. -/
structure HasPairs (op : Opcode) (kinds : List (Option OperandKind)) : Prop where
  switch : op = .opSwitch →
    ∃ ks, kinds = (.id :: .id :: ks).map some ∧ Paired .typedNumber .id ks
  members : op = .opGroupMemberDecorate →
    ∃ ks, kinds = (.id :: ks).map some ∧ Paired .id .integer ks

/-- Neither opcode asks for more operands than it lists. -/
lemma HasPairs.of_follows {op : Opcode} {kinds : List (Option OperandKind)}
    (h : (∀ s ∈ op.operands, s.isQuiet) →
      ∃ ks : List OperandKind, kinds = ks.map some ∧ Follows op.operands ks) :
    HasPairs op kinds where
  switch hop := by
    subst hop
    obtain ⟨_, rfl, hall⟩ := h (by decide)
    obtain ⟨_, rfl, htail⟩ := hall.exists_of_one
    obtain ⟨ks, rfl, hpairs⟩ := htail.exists_of_one
    exact ⟨ks, rfl, hpairs.paired⟩
  members hop := by
    subst hop
    obtain ⟨_, rfl, hall⟩ := h (by decide)
    obtain ⟨ks, rfl, hpairs⟩ := hall.exists_of_one
    exact ⟨ks, rfl, hpairs.paired⟩

lemma Decodes.hasPairs {earlier : List Instruction} {i : Instruction} {ps : List Piece}
    (h : Decodes earlier i ps) : HasPairs i.opcode (i.operands.toList.map (·.slot.kind?)) := by
  refine .of_follows fun hquiet => ⟨_, ?_, h.filling.follows hquiet⟩
  have hkinds := congrArg (List.map Slot.kind?) h.map_slot_eq
  rw [List.map_map, List.map_map] at hkinds
  exact hkinds

lemma Assembly.Encodes.hasPairs {form : Assembly.Form} {s : Assembly.State}
    {tokens : List Token} {st : Assembly.Statement} {e : Assembly.Encoded}
    (h : Assembly.Encodes form s tokens st e)
    (hraw : ∀ token ∈ tokens, Assembly.isRaw token.chars = false) :
    HasPairs st.opcode (st.operands.map (·.slot.kind?)) := by
  refine .of_follows fun hquiet => ?_
  cases h with
  | plain _ _ _ fills =>
    exact fills.follows hquiet (Assembly.free_notMem_operands _) fun t ht => hraw t (.tail _ ht)
  | assigned _ _ _ _ _ _ fills =>
    exact fills.follows hquiet (Assembly.free_notMem_operands _) fun t ht =>
      hraw t (.tail _ (.tail _ (.tail _ ht)))

lemma Assembly.EncodesAll.hasPairs {form : Assembly.Form} {s s' : Assembly.State}
    {tokens : List Token} {sts : List Assembly.Statement}
    (h : Assembly.EncodesAll form s tokens sts s')
    (hraw : ∀ token ∈ tokens, Assembly.isRaw token.chars = false) :
    ∀ st ∈ sts, HasPairs st.opcode (st.operands.map (·.slot.kind?)) := by
  induction h with
  | nil => exact List.forall_mem_nil _
  | cons first _ ih =>
    refine List.forall_mem_cons.mpr ⟨first.hasPairs hraw, ih fun t ht => hraw t ?_⟩
    exact first.tokens_eq ▸ List.mem_append_right _ ht

open Assembly (Says isRaw) in
/-- **Pairs keep their order, and only the last may lack its second member.** Of every instruction
that the reader shows and of every statement of a text without raw words, the operands after those
that a switch or a decoration of members requires are pairs of the kinds that it lists. They are whole
if they are even in number; otherwise the first member of one more pair stands at the end. -/
theorem operands_paired {σ β : Type} (v : Binary.Visitor σ β) (x : σ) (words : List Word)
    (o : AssemblyOptions) (text : String) :
    (∀ i ∈ Binary.shown v x words, HasPairs i.opcode (i.operands.toList.map (·.slot.kind?))) ∧
    ∀ a : Assembly, assemble o text = .ok a →
      (∀ token ∈ (TokenText.ofText text).tokens, isRaw token.chars = false) →
      (∃ sts, Says o text sts) ∧ ∀ sts, Says o text sts →
        a.words.drop Header.wordCount = Assembly.codeOf sts ∧
          ∀ st ∈ sts, HasPairs st.opcode (st.operands.map (·.slot.kind?)) := by
  refine ⟨fun i hi => ?_, fun a ha hraw => ?_⟩
  · obtain ⟨_, _, hd⟩ := (Binary.decodable_shown v x words).1.exists_decodes hi
    exact hd.hasPairs
  · obtain ⟨hex, hbody⟩ := Assembly.exists_statements ha hraw
    refine ⟨hex, fun sts hsays => ⟨hbody hsays, ?_⟩⟩
    obtain ⟨s', hsts⟩ := hsays
    exact hsts.hasPairs hraw

namespace Assembly.Sample

def memberText : String := "OpGroupMemberDecorate %i %n 7"

def namesMember : Statement where
  front := []
  name := ⟨"OpGroupMemberDecorate".toList, ⟨0, 0, 0⟩⟩
  opcode := .opGroupMemberDecorate
  operands := [⟨.one .id, ⟨"%i".toList, ⟨0, 22, 22⟩⟩, .id "i", [1]⟩,
    ⟨.optional .id, ⟨"%n".toList, ⟨0, 25, 25⟩⟩, .id "n", [2]⟩,
    ⟨.second .integer, ⟨"7".toList, ⟨0, 28, 28⟩⟩, .value [7] [], [7]⟩]

lemma tokens_memberText : (TokenText.ofText memberText).tokens = namesMember.tokens := by cbv

lemma says_memberText (g : Word) : Says ⟨.assignment, g, false⟩ memberText [namesMember] := by
  have hencodes : Encodes .assignment ⟨.empty, .empty⟩ namesMember.tokens namesMember
      (finished .opGroupMemberDecorate ⟨⟨named, .empty⟩, ([1, 2, 7] : List Word).toArray, []⟩) := by
    refine .plain (by decide) (by decide +kernel) (fun _ => rfl) ?_ (by decide)
    refine .operand rfl (by simp) (by cbv) (by cbv) (accept_newType .empty) ?_
    refine .operand rfl (by simp) (by cbv) (by cbv) (accept_constant .empty) ?_
    exact .operand rfl (by simp) (by cbv) (by cbv) rfl (.stop rfl rfl (by simp))
  rw [Says, tokens_memberText]
  exact ⟨_, .cons hencodes .nil⟩

end Assembly.Sample

/-- A structure and the number of its member after the group are a whole pair. -/
theorem operands_paired_sample : ∃ a n,
    assemble ⟨.assignment, 0, false⟩ Assembly.Sample.memberText = .ok a ∧
      Assembly.Sample.namesMember.operands.map (·.slot.kind?)
        = (.id :: pairsOf n .id .integer).map some := by
  obtain ⟨s', hs⟩ := Assembly.Sample.says_memberText 0
  have ha := Assembly.assemble_of_encodesAll hs
  obtain ⟨-, h⟩ := (operands_paired (.ofFold (fun _ _ => ()) fun _ _ => ()) () [] _ _).2 _ ha
    (by rw [Assembly.Sample.tokens_memberText]; decide)
  obtain ⟨ks, hks, hpaired⟩ := ((h _ ⟨s', hs⟩).2 _ (.head _)).members rfl
  obtain rfl : [.id, .integer] = ks := List.map_injective_iff.mpr (Option.some_injective _) <| by
    simpa [Assembly.Sample.namesMember, Slot.kind?] using hks
  obtain ⟨n, hn⟩ := hpaired.whole (by decide)
  exact ⟨_, n, ha, hks.trans (by rw [hn])⟩

/-! ### Half a pair -/

namespace Assembly.Sample

def halfPairText : String := "OpGroupMemberDecorate %i %n"

/-- The number of the member is missing. -/
def namesHalf : Statement where
  front := []
  name := ⟨"OpGroupMemberDecorate".toList, ⟨0, 0, 0⟩⟩
  opcode := .opGroupMemberDecorate
  operands := [⟨.one .id, ⟨"%i".toList, ⟨0, 22, 22⟩⟩, .id "i", [1]⟩,
    ⟨.optional .id, ⟨"%n".toList, ⟨0, 25, 25⟩⟩, .id "n", [2]⟩]

lemma tokens_halfPairText : (TokenText.ofText halfPairText).tokens = namesHalf.tokens := by cbv

lemma says_halfPairText (g : Word) : Says ⟨.assignment, g, false⟩ halfPairText [namesHalf] := by
  have hencodes : Encodes .assignment ⟨.empty, .empty⟩ namesHalf.tokens namesHalf
      (finished .opGroupMemberDecorate ⟨⟨named, .empty⟩, ([1, 2] : List Word).toArray, []⟩) := by
    refine .plain (by decide) (by decide +kernel) (fun _ => rfl) ?_ (by decide)
    refine .operand rfl (by simp) (by cbv) (by cbv) (accept_newType .empty) ?_
    refine .operand rfl (by simp) (by cbv) (by cbv) (accept_constant .empty) ?_
    exact .stop rfl rfl (by simp)
  rw [Says, tokens_halfPairText]
  exact ⟨_, .cons hencodes .nil⟩

end Assembly.Sample

namespace Program.Sample

/-- The number of the member is missing. -/
def halfPair : Instruction := plain .opGroupMemberDecorate [⟨.id, [1], none⟩, ⟨.id, [2], none⟩]

lemma decodable_halfPair : Decodable [halfPair] := by
  have hset : ∀ ws, ¬ Context.NamesSet ⟨[], .opGroupMemberDecorate, ws⟩ := fun ws hn => nomatch hn.1
  exact .snoc .nil <| decodes_plain nofun (by decide) <|
    .next rfl rfl (.id (by decide) fun hn => absurd hn (hset _)) <|
    .next rfl rfl (.id (by decide) fun hn => absurd hn (hset _)) (.done (by decide))

end Program.Sample

/-- **Half a pair is accepted**, by the reader and by the assembler: a structure without the number
of its member. -/
theorem exists_half_pair :
    (∃ (v : Binary.Visitor Unit Empty) (i : Instruction), i.opcode = .opGroupMemberDecorate ∧
      (Binary.visit v () [119734787, 65536, 458752, 3, 0, 196683, 1, 2]).2 = .ok .completed ∧
      Binary.shown v () [119734787, 65536, 458752, 3, 0, 196683, 1, 2] = [i] ∧
      i.operands.toList.map (·.slot.kind?) = [some .id, some .id]) ∧
    ∃ (a : Assembly) (st : Assembly.Statement), st.opcode = .opGroupMemberDecorate ∧
      assemble .default Assembly.Sample.halfPairText = .ok a ∧
      Assembly.Says .default Assembly.Sample.halfPairText [st] ∧
      st.operands.map (·.slot.kind?) = [some .id, some .id] := by
  refine ⟨?_, ?_⟩
  · have hread : Binary.readHeader [119734787, 65536, 458752, 3, 0, 196683, 1, 2]
        = .ok (.ofBound 3 Header.assemblerGenerator, codeOf [Program.Sample.halfPair]) := rfl
    obtain ⟨hdone, hshown⟩ := Binary.visit_codeOf (.ofFold (fun _ _ => ()) fun _ _ => ()) () hread
      Program.Sample.decodable_halfPair
    exact ⟨_, _, rfl, hdone, hshown, rfl⟩
  · obtain ⟨s', hs⟩ := Assembly.Sample.says_halfPairText Header.assemblerGenerator
    exact ⟨_, _, rfl, Assembly.assemble_of_encodesAll hs, ⟨s', hs⟩, rfl⟩

end Spirv
