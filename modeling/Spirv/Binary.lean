import Spirv.Binary.Instruction
import Spirv.Header

/-!
Reading the words of a module. The header and then one instruction after the other are shown to a
visitor, which may stop the reading. Words may be stored in either byte order; the first word tells
which.
-/

namespace Spirv

namespace Binary

/-- What a visitor says once it has seen something. -/
inductive Verdict (σ β : Type) where
  | proceed (state : σ)
  | stop (state : σ) (value : β)

/-- What is done with the parts of a module as they are read. -/
structure Visitor (σ β : Type) where
  header : σ → Header → Verdict σ β
  instruction : σ → Instruction → Verdict σ β

namespace Visitor

/-- A visitor that never stops. -/
def ofFold {σ : Type} (header : σ → Header → σ) (instruction : σ → Instruction → σ) :
    Visitor σ Empty :=
  ⟨fun s h => .proceed (header s h), fun s i => .proceed (instruction s i)⟩

end Visitor

/-- How reading ended that met nothing malformed. -/
inductive Status (β : Type) where
  | completed
  | stopped (value : β)
  deriving DecidableEq

variable {σ β : Type}

/-- Shows the instructions from index `start` of a module on. -/
def visitInstructions (v : Visitor σ β) (d : Defined) (s : σ) (start : Nat) :
    List Word → σ × Except Error (Status β)
  | [] => (s, .ok .completed)
  | lead :: after =>
    match readInstruction d start lead after with
    | .error e => (s, .error e)
    | .ok next =>
      match v.instruction s next.2 with
      | .stop s value => (s, .ok (.stopped value))
      | .proceed s =>
        visitInstructions v next.1 s (start + next.2.words.size)
          (after.drop (next.2.words.size - 1))
termination_by words => words.length
decreasing_by
  simp only [List.length_drop, List.length_cons]
  omega

/-- The header of a module and the words after it, all in the order in which their bytes are read. -/
def readHeader (words : List Word) : Except Error (Header × List Word) :=
  if words.length < Header.wordCount then
    .error (.binary (.incompleteHeader words.length) 0)
  else match ByteOrder.ofMagic? (words.headD 0) with
    | none => .error (.binary .badMagic 0)
    | some order =>
      let native := if order = .little then words else words.map Word.swap
      match native with
      | magic :: version :: generator :: bound :: schema :: body =>
        .ok (⟨order, magic, version, generator, bound, schema⟩, body)
      | _ => .error (.binary (.incompleteHeader words.length) 0)

/-- Shows a module to a visitor. The result is what the visitor made of it and how reading ended. -/
def visit (v : Visitor σ β) (s : σ) (words : List Word) : σ × Except Error (Status β) :=
  match readHeader words with
  | .error e => (s, .error e)
  | .ok (header, body) =>
    match v.header s header with
    | .stop s value => (s, .ok (.stopped value))
    | .proceed s => visitInstructions v .empty s Header.wordCount body

/-- Shows a module stored in bytes to a visitor. -/
def visitBytes (v : Visitor σ β) (s : σ) (bytes : List UInt8) : σ × Except Error (Status β) :=
  if bytes.length % 4 ≠ 0 then (s, .error (.partialWord bytes.length))
  else visit v s (Word.ofByteList bytes)

/-- Folds over all of a module, or fails. -/
def fold (header : σ → Header → σ) (instruction : σ → Instruction → σ) (s : σ)
    (words : List Word) : Except Error σ :=
  match visit (.ofFold header instruction) s words with
  | (s, .ok _) => .ok s
  | (_, .error e) => .error e

end Binary

end Spirv
