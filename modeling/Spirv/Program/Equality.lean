import Std.Data.HashSet
import Spirv.Program

/-!
Structural equality of ids. Two ids are equal if they are the same, or if they are defined by types or
constants of the same form whose ids are equal in turn. Ids may refer to themselves through pointers
declared ahead, so a pair that is being compared counts as equal meanwhile.
-/

namespace Spirv.Program

/-- The pairs of ids that must be equal for two operands at the same place to be. None if they
differ otherwise. -/
def operandPairs? (x y : Instruction) (r s : OperandRecord) : Option (List (Word × Word)) :=
  if r.slot = .resultId || r.slot = .typeId then some []
  else if r.slot.isId then
    match (x.wordsOf r).head?, (y.wordsOf s).head? with
    | some a, some b => some [(a, b)]
    | _, _ => none
  else if r.slot = s.slot && x.wordsOf r = y.wordsOf s then some []
  else none

/-- The pairs of ids that must be equal for two definitions to be. None if they differ otherwise. -/
def definitionPairs? (x y : Instruction) : Option (List (Word × Word)) :=
  if x.opcode = y.opcode && (x.opcode.isTypeDeclaration || x.opcode.isConstant)
      && x.words.size = y.words.size && x.operands.size = y.operands.size then
    let types := if x.typeId = 0 then [] else [(x.typeId, y.typeId)]
    ((x.operands.toList.zip y.operands.toList).mapM fun (r, s) => operandPairs? x y r s).map
      fun pairs => types ++ List.flatten pairs
  else none

/-- Whether all pairs in `todo` are equal, those in `assumed` taken for granted. Of the others at most
`fuel` are looked into. None if that does not decide it. -/
def equalPairs (p : Program) (fuel : Nat) (assumed : Std.HashSet (Word × Word)) :
    List (Word × Word) → Option Bool
  | [] => some true
  | (a, b) :: todo =>
    if a = b || assumed.contains (a, b) then equalPairs p fuel assumed todo
    else
      match p.definition? a, p.definition? b with
      | some x, some y =>
        match definitionPairs? x y with
        | some pairs =>
          match fuel with
          | fuel + 1 => equalPairs p fuel (assumed.insert (a, b)) (pairs ++ todo)
          | 0 => none
        | none => some false
      | _, _ => some false
termination_by todo => (fuel, todo.length)

/-- Whether two ids are equal. Every pair looked into is one of defined ids and none is looked into
twice, so that there is fuel for all of them. -/
def structurallyEqual (p : Program) (a b : Word) : Bool :=
  (equalPairs p (p.definitions.size * p.definitions.size) ∅ [(a, b)]).getD false

end Spirv.Program
