import TaggedValue.Plain.Basic
import TaggedValue.Text.Blank

/-!
# Extraction

A member of a plain type is taken out of a value of the matching kind, and numbers and truth values
also out of texts that spell them, with blanks around. Kinds are never mixed otherwise: an integer
is no truth value and no floating-point number. Lists and tuples give lists, and maps whose keys are
all texts give tables; the first part that does not fit is the fault.
-/

namespace TaggedValue

open Number (Binary64 IntType)

/-! ## Single values -/

def readBool (s : String) : Option Bool :=
  match s with
  | "true" | "TRUE" | "True" | "YES" | "yes" => some true
  | "false" | "FALSE" | "False" | "NO" | "no" => some false
  | _ => none

namespace Value

def extractText (v : Value) : Except Fault String :=
  match v with
  | .str s => .ok s
  | _ => .error (.wrongKind .str v.kind)

def extractBool (v : Value) : Except Fault Bool :=
  match v with
  | .bool b => .ok b
  | .str s =>
      let word := String.ofList (Text.trim s.toList)
      match readBool word with
      | some b => .ok b
      | none => .error (.notBool word)
  | _ => .error (.wrongKind .bool v.kind)

def extractInt64 (v : Value) : Except Fault Int64 :=
  match v with
  | .int n => .ok n
  | .str s => (Number.readInt64 (Text.trim s.toList)).mapError (.notInteger s)
  | _ => .error (.wrongKind .int v.kind)

/-- An integer is read in the signed 64-bit range first and then narrowed. -/
def extractInt (t : IntType) (v : Value) : Except Fault t.Member :=
  v.extractInt64.bind fun n =>
    match t.member? n.toInt with
    | some m => .ok m
    | none => .error (.outOfRange n t)

def extractFloat (v : Value) : Except Fault Binary64 :=
  match v with
  | .float x => .ok x
  | .str s => (Number.readBinary64 (Text.trim s.toList)).mapError (.notFloat s)
  | _ => .error (.wrongKind .float v.kind)

end Value

/-! ## Lists and tables -/

/-- All items in order, up to the first that fails. -/
def extractItems {α : Type} (item : Value → Except Fault α) : List Value → Except Fault (List α)
  | [] => .ok []
  | v :: vs => (item v).bind fun x => (extractItems item vs).map (x :: ·)

/-- All entries in order, the key of each before its value, up to the first that fails. -/
def extractEntries {α : Type} (item : Value → Except Fault α) :
    List Entry → Except Fault (List (String × α))
  | [] => .ok []
  | (k, v) :: es =>
      k.extractText.bind fun name =>
        (item v).bind fun x => (extractEntries item es).map ((name, x) :: ·)

namespace PlainType

/-- The member of a plain type that a value holds. -/
def extract : (t : PlainType) → Value → Except Fault t.Member
  | value, v => .ok v
  | text, v => v.extractText
  | bool, v => v.extractBool
  | int t, v => v.extractInt t
  | float, v => v.extractFloat
  | single, v => v.extractFloat.map Number.Binary32.ofBinary64
  | properties, v => Properties.ofValue v
  | list t, v =>
      match v with
      | .list vs | .tuple vs => extractItems (extract t) vs
      | _ => .error (.wrongKind .list v.kind)
  | table t, v =>
      match v with
      | .map es => (extractEntries (extract t) es).map Table.ofList
      | _ => .error (.wrongKind .map v.kind)

end PlainType

end TaggedValue
