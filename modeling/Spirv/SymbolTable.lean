import Std.Data.HashMap
import Std.Data.HashSet
import Spirv.Number.Digits
import Spirv.Word

/-!
The names of ids. Names are numbered from one in order of first appearance. A value may be preserved
for the name that spells it; other names then pass it over. No two names share an id and a name keeps
its id for ever.
-/

namespace Spirv

-- Powers of numbers are the language's own, also where a library brings powers in a monoid.
attribute [local instance (high)] instPowNat

inductive SymbolError where
  | invalidName (name : String)
  /-- Another spelling of the same preserved value has it already. -/
  | collision (name existing : String)
  deriving DecidableEq

def SymbolError.message : SymbolError → String
  | invalidName name => "Invalid ID " ++ name
  | collision name existing => "ID %" ++ name ++ " has the same value as ID %" ++ existing ++ "."

structure SymbolTable where
  ids : Std.HashMap String Word
  names : Std.HashMap Word String
  preserved : Std.HashSet Word
  /-- One more than the greatest id, or the greatest word if that is an id. -/
  bound : Word
  /-- Where the search for the next free id starts. -/
  next : Word

namespace SymbolTable

def empty : SymbolTable := ⟨∅, ∅, ∅, 1, 1⟩

/-- Names are nonempty and made of ASCII letters, digits and underscores. -/
def isValidName (name : String) : Bool :=
  !name.isEmpty && name.toList.all fun c => c.isAlphanum || c = '_'

/-- Keeps a value for the name that spells it. Zero is never an id. -/
def preserve (t : SymbolTable) (value : Word) : SymbolTable :=
  if value = 0 then t else { t with preserved := t.preserved.insert value }

/-- The word that a name spells in decimal digits. -/
def valueOfName? (name : List Char) : Option Word :=
  (Digits.decimal? name).bind fun n => if n < 2 ^ (32 : Nat) then some (UInt32.ofNat n) else none

def id? (t : SymbolTable) (name : String) : Option Word := t.ids[name]?

def name? (t : SymbolTable) (id : Word) : Option String := t.names[id]?

def size (t : SymbolTable) : Nat := t.ids.size

/-- Whether an id may not be given to a name that does not spell it. -/
def isTaken (t : SymbolTable) (id : Word) : Bool := t.preserved.contains id || t.names.contains id

/-- The first id from `candidate` on that is not taken, looking at no more than `n` taken ones. -/
def firstFree (t : SymbolTable) : Nat → Word → Word
  | 0, candidate => candidate
  | n + 1, candidate => if t.isTaken candidate then t.firstFree n (candidate + 1) else candidate

/-- Gives a new name an id. -/
def bind (t : SymbolTable) (name : String) (id : Word) : SymbolTable :=
  { t with
    ids := t.ids.insert name id
    names := t.names.insert id name
    bound := max t.bound (if id = 0xFFFFFFFF then id else id + 1) }

/-- The id of a name, which is numbered if it is new. -/
def assign (t : SymbolTable) (name : String) : Except SymbolError (Word × SymbolTable) :=
  if !isValidName name then .error (.invalidName name)
  else match t.id? name with
    | some id => .ok (id, t)
    | none =>
      match (valueOfName? name.toList).filter t.preserved.contains with
      | some value =>
        match t.name? value with
        | some existing => .error (.collision name existing)
        | none => .ok (value, t.bind name value)
      | none =>
        let id := t.firstFree (t.preserved.size + t.names.size) t.next
        .ok (id, { t with next := id + 1 }.bind name id)

/-- Every name with its id, in increasing order of id. -/
def toList (t : SymbolTable) : List (String × Word) :=
  t.ids.toList.mergeSort fun a b => a.2 ≤ b.2

end SymbolTable

end Spirv
