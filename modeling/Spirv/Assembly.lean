import Spirv.Assembly.Instruction
import Spirv.Header

/-!
Assembling a text to the words of a module: a header and the words of its instructions in order. The
first error ends it.
-/

namespace Spirv

structure AssemblyOptions where
  form : Assembly.Form
  /-- The generator word of the header. -/
  generator : Word
  /-- Whether names made of digits keep their value as their id. -/
  preserveNumericIds : Bool

def AssemblyOptions.default : AssemblyOptions := ⟨.assignment, Header.assemblerGenerator, false⟩

/-- An assembled module and the ids that its names were given. -/
structure Assembly where
  words : List Word
  bound : Word
  symbols : SymbolTable

namespace Assembly

/-- The value that a word preserves: that of the digits after `%`. -/
def numericId? : List Char → Option Word
  | '%' :: digits => SymbolTable.valueOfName? digits
  | _ => none

/-- Preserves the values of all words of a text that are `%` and digits. -/
def preserveAll (symbols : SymbolTable) (tokens : List Token) : SymbolTable :=
  tokens.foldl
    (fun t token =>
      match numericId? token.chars with
      | some id => t.preserve id
      | none => t)
    symbols

/-- Encodes all instructions and puts their words after `body`. -/
def encodeAll (form : Form) (finish : Position) (s : State) (body : Array Word) :
    List Token → Except Error (State × Array Word)
  | [] => .ok (s, body)
  | first :: rest =>
    match _h : encodeInstruction form finish s first rest with
    | .error e => .error e
    | .ok e => encodeAll form finish e.state (body ++ e.words) e.rest
termination_by tokens => tokens.length
decreasing_by exact Nat.lt_succ_of_le (encodeInstruction_length_le _h)

end Assembly

def assemble (o : AssemblyOptions) (text : String) : Except Error Assembly :=
  let source := TokenText.ofText text
  let symbols :=
    if o.preserveNumericIds then Assembly.preserveAll .empty source.tokens else .empty
  match Assembly.encodeAll o.form source.finish ⟨symbols, .empty⟩ #[] source.tokens with
  | .error e => .error e
  | .ok (s, body) =>
    let bound := s.symbols.bound
    .ok ⟨(Header.ofBound bound o.generator).words ++ body.toList, bound, s.symbols⟩

end Spirv
