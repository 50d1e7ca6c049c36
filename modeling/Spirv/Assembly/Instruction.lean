import Spirv.Assembly.Operand

/-!
Encoding one instruction of a text. Its operands fill the slots of its opcode one after the other,
until the slots are filled, the text or the instruction ends, or a word does not fit a slot that may
stay empty. An instruction that starts with a raw word has no slots and runs to the next instruction.
-/

namespace Spirv.Assembly

/-- Where the result id of an instruction is written. -/
inductive Form where
  /-- In front, as `%result = OpName operands`. -/
  | assignment
  /-- Among the operands, in binary order. -/
  | canonical
  deriving DecidableEq

/-- What encoding a text has built up. -/
structure State where
  symbols : SymbolTable
  declared : Declared

/-- The outcome of encoding one instruction or its operands. -/
structure Encoded where
  state : State
  words : Array Word
  /-- The tokens that come after. -/
  rest : List Token

namespace State

def empty : State := ⟨.empty, .empty⟩

/-- Puts an operand after the words `done`. -/
def accept (s : State) (done : Array Word) : Reading → Except SymbolError (State × Array Word)
  | .id name =>
    match s.symbols.assign name with
    | .ok (id, symbols) => .ok (⟨symbols, s.declared⟩, done.push id)
    | .error e => .error e
  | .raw w => .ok (s, done.push w)
  | .value words _ => .ok (s, done.appendList words)
  | .importing set words =>
    let declared :=
      match done[0]? with
      | some id => { s.declared with imports := s.declared.imports.insert id set }
      | none => s.declared
    .ok (⟨s.symbols, declared⟩, done.appendList words)

end State

/-- The start of an instruction. -/
structure Head where
  opcode : Opcode
  /-- The id in front of `=`. -/
  result? : Option Token
  rest : List Token

/-- Finds the opcode that `name` names. -/
def readOpcode (result? : Option Token) (name : Token) (rest : List Token) : Except Error Head :=
  match Opcode.ofName? (String.ofList (name.chars.drop 2)) with
  | some op => .ok ⟨op, result?, rest⟩
  | none => .error (.text (.unknownOpcode name.text) name.start)

/-- Reads the opcode and the result in front of it. `finish` is the end of the text. -/
def readHead (form : Form) (finish : Position) (first : Token) (rest : List Token) :
    Except Error Head :=
  if first.isOpcodeLike then readOpcode none first rest
  else if form ≠ .assignment then .error (.text (.expectedOpcode first.text) first.start)
  else if first.chars.head? ≠ some '%' then
    .error (.text (.expectedOpcodeOrResult first.text) first.start)
  else match rest with
    | [] => .error (.text .expectedEqualsAtEnd finish)
    | equals :: rest =>
      if equals.chars ≠ ['='] then .error (.text .expectedEquals equals.start)
      else match rest with
        | [] => .error (.text .expectedOpcodeAtEnd finish)
        | name :: rest =>
          if name.isOpcodeLike then readOpcode (some first) name rest
          else .error (.text (.notOpcodeLike name.text) name.start)

/-- Puts the operand that `token` stands for after the words `done`. -/
def acceptToken (s : State) (done : Array Word) (token : Token) (r : Reading) :
    Except Error (State × Array Word) :=
  match s.accept done r with
  | .ok next => .ok next
  | .error e => .error (.text (.symbol e) token.start)

/-- Fills the slots of a pattern with operands. The id in front of the instruction fills the slot for
the result. -/
def fillSlots (op : Opcode) (result? : Option Token) (finish : Position) (s : State)
    (done : Array Word) (pattern : Pattern) (tokens : List Token) : Except Error Encoded :=
  match _hp : Pattern.take? pattern with
  | none => .ok ⟨s, done, tokens⟩
  | some (slot, rest) =>
    match result?, decEq slot .resultId with
    | some result, isTrue _hs =>
      match readId .fatal result.chars with
      | .error refusal => .error (refusal.toError result.start)
      | .ok reading =>
        match acceptToken s done result reading with
        | .error e => .error e
        | .ok (s, done) => fillSlots op (some result) finish s done rest tokens
    | _, _ =>
      match tokens with
      | [] =>
        if slot.isOptional then .ok ⟨s, done, []⟩ else .error (.text .missingOperandAtEnd finish)
      | token :: after =>
        if Token.startInstruction (token :: after) then
          if slot.isOptional then .ok ⟨s, done, token :: after⟩
          else .error (.text .missingOperandAtInstruction token.start)
        else
          match readOperand s.declared op done slot token.chars with
          | .error (.mismatch fault) =>
            if slot.isOptional then .ok ⟨s, done, token :: after⟩
            else .error (.text fault token.start)
          | .error refusal => .error (refusal.toError token.start)
          | .ok reading =>
            match acceptToken s done token reading with
            | .error e => .error e
            | .ok (s, done) =>
              fillSlots op result? finish s done (reading.patternAfter slot rest) after
termination_by (tokens.length, pattern.length)
decreasing_by
  · subst _hs
    exact Prod.Lex.right _ (Pattern.length_of_take?_resultId _hp)
  · exact Prod.Lex.left _ _ (Nat.lt_succ_self _)

/-- Reads the words after the raw word `first` up to the next instruction. -/
def fillRaw (first : Token) (s : State) (done : Array Word) : List Token → Except Error Encoded
  | [] => .ok ⟨s, done, []⟩
  | token :: after =>
    if Token.startInstruction (token :: after) then .ok ⟨s, done, token :: after⟩
    else if token.chars = ['='] then .error (.text (.equalsAfterRaw first.text) token.start)
    else
      match if isRaw token.chars then readRaw token.chars else readFree token.chars with
      | .error (.mismatch _) =>
        .error (.text (.badWordAfterRaw first.text token.text) token.start)
      | .error refusal => .error (refusal.toError token.start)
      | .ok reading =>
        match acceptToken s done token reading with
        | .error e => .error e
        | .ok (s, done) => fillRaw first s done after

/-- Puts the first word in front of the operand words of an instruction. -/
def finishInstruction (first : Token) (op : Opcode) (e : Encoded) : Except Error Encoded :=
  if maxInstructionWords < e.words.size + 1 then
    .error (.text (.instructionTooLong (e.words.size + 1)) first.start)
  else
    .ok ⟨⟨e.state.symbols, e.state.declared.learn op e.words⟩,
      #[Word.joinLead (UInt16.ofNat (e.words.size + 1)) op.value] ++ e.words, e.rest⟩

/-- Encodes the instruction that starts with the token `first`. -/
def encodeInstruction (form : Form) (finish : Position) (s : State) (first : Token)
    (rest : List Token) : Except Error Encoded :=
  if isRaw first.chars then
    match readRaw first.chars with
    | .error refusal => .error (refusal.toError first.start)
    | .ok reading =>
      match acceptToken s #[] first reading with
      | .error e => .error e
      | .ok (s, words) =>
        match fillRaw first s words rest with
        | .error e => .error e
        | .ok e =>
          if maxInstructionWords < e.words.size then
            .error (.text (.instructionTooLong e.words.size) first.start)
          else .ok e
  else
    match readHead form finish first rest with
    | .error e => .error e
    | .ok head =>
      if form = .assignment && head.opcode.hasResult && head.result?.isNone then
        .error (.text (.missingResult first.text) first.start)
      else
        match fillSlots head.opcode head.result? finish s #[] head.opcode.operands head.rest with
        | .error e => .error e
        | .ok e => finishInstruction first head.opcode e

/-! ### Encoding an instruction leaves no more tokens than follow its first -/

theorem readOpcode_rest {result? : Option Token} {name : Token} {rest : List Token} {head : Head}
    (h : readOpcode result? name rest = .ok head) : head.rest = rest := by
  grind [readOpcode]

theorem readHead_length_le {form : Form} {finish : Position} {first : Token} {rest : List Token}
    {head : Head} (h : readHead form finish first rest = .ok head) :
    head.rest.length ≤ rest.length := by
  unfold readHead at h
  grind [→ readOpcode_rest]

theorem fillSlots_length_le {op : Opcode} {result? : Option Token} {finish : Position} {s : State}
    {done : Array Word} {pattern : Pattern} {tokens : List Token} {e : Encoded}
    (h : fillSlots op result? finish s done pattern tokens = .ok e) :
    e.rest.length ≤ tokens.length := by
  fun_induction fillSlots op result? finish s done pattern tokens <;> grind

theorem fillRaw_length_le {first : Token} {s : State} {done : Array Word} {tokens : List Token}
    {e : Encoded} (h : fillRaw first s done tokens = .ok e) : e.rest.length ≤ tokens.length := by
  fun_induction fillRaw first s done tokens <;> grind

theorem encodeInstruction_length_le {form : Form} {finish : Position} {s : State} {first : Token}
    {rest : List Token} {e : Encoded} (h : encodeInstruction form finish s first rest = .ok e) :
    e.rest.length ≤ rest.length := by
  grind [encodeInstruction, finishInstruction, → readHead_length_le, → fillSlots_length_le,
    → fillRaw_length_le]

end Spirv.Assembly
