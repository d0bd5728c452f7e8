import TaggedValue.Number.FloatText
import TaggedValue.Number.IntType
import TaggedValue.Report
import TaggedValue.Value.Literal

/-!
# What can go wrong

Every operation that can fail names its cause. A cause has a code and a wording, and both are
settled here.
-/

namespace TaggedValue

open Number (Binary64 IntType IntegerFlaw FloatFlaw Layout)

/-! ## The parts of causes -/

/-- What was to be done at a position of a sequence. -/
inductive Access
  | read
  | write
  | remove
deriving DecidableEq, Repr

/-- The kinds of sequence, as messages call them. -/
inductive SequenceKind
  | text
  | list
  | tuple
deriving DecidableEq, Repr

/-- Why a value and an interchange tree have no counterpart. -/
inductive Refusal
  /-- Null stands for no value. -/
  | null
  /-- An integer beyond the signed 64-bit range. -/
  | integer (n : Nat)
  /-- A floating-point number that is not finite. -/
  | float (x : Binary64)
  /-- An object, with the name of its type. -/
  | object (typeName : String)
  /-- An entry of a tagged map that is no pair. -/
  | entry
deriving DecidableEq, Repr

/-! ## The causes -/

/-- Why an operation failed. -/
inductive Fault
  /-- Neither positions nor keys. -/
  | notContainer (kind : Kind)
  | noLength (kind : Kind)
  | noKeys (kind : Kind)
  | noPush (kind : Kind)
  | noRemoval (kind : Kind)
  /-- A sequence of the first kind was indexed by a value of the second. -/
  | indexKind (sequence index : Kind)
  /-- A signed index that no position answers to. -/
  | indexRange (index : Int64) (sequence : Kind) (length : Nat)
  /-- A position at or beyond the end. -/
  | positionRange (access : Access) (position : Nat) (sequence : SequenceKind) (length : Nat)
  /-- An element of a text must be a text. -/
  | elementKind
  /-- An element of a text must be one character long. -/
  | elementLength
  /-- Only texts can be appended to a text. -/
  | appendKind
  | fixedLength (length : Nat)
  | missingKey (key : Value)
  /-- A value of one kind was wanted and one of another was found. -/
  | wrongKind (wanted found : Kind)
  | propertyName (found : Kind)
  | unsetProperty (name : String)
  | notInteger (text : String) (flaw : IntegerFlaw)
  | notFloat (text : String) (flaw : FloatFlaw)
  | notBool (text : String)
  | outOfRange (n : Int64) (type : IntType)
  | refused (r : Refusal)
  | missingFile (name : String)
  /-- A file or layer that cannot be read as a mapping. -/
  | malformedLayer
  /-- A file or layer in which a property has no value. -/
  | refusedProperty (r : Refusal)
deriving Repr

/-! ## Wording -/

namespace Access

def words : Access → String
  | read => "index"
  | write => "set index"
  | remove => "remove index"

end Access

namespace SequenceKind

def words : SequenceKind → String
  | text => "string of length"
  | list => "list of length"
  | tuple => "tuple of arity"

end SequenceKind

def decimalText (n : Nat) : String := String.ofList (Nat.toDigits 10 n)

def integerText (n : Int64) : String := String.ofList (Number.writeInt n.toInt)

namespace Refusal

def message : Refusal → String
  | null => "null has no Var form"
  | integer n => "integer " ++ decimalText n ++ " does not fit INT"
  | float x => "float " ++ String.ofList (Layout.plain.write x) ++ " has no JSON form"
  | object t => "object of type " ++ t ++ " has no JSON form"
  | entry => "map entry must be a [key, value] pair"

def report (r : Refusal) : Report := ⟨.invalidArgument, some r.message⟩

end Refusal

namespace Fault

def code : Fault → ErrorCode
  | notContainer _ | noLength _ | noKeys _ | noPush _ | noRemoval _ | indexKind _ _
  | elementKind | elementLength | appendKind | fixedLength _ | wrongKind _ _
  | propertyName _ => .typeMismatch
  | indexRange _ _ _ | positionRange _ _ _ _ => .range
  | missingKey _ | unsetProperty _ => .keyNotFound
  | notInteger _ _ | notFloat _ _ | notBool _ | outOfRange _ _ => .conversion
  | refused _ => .invalidArgument
  | missingFile _ | malformedLayer | refusedProperty _ => .config

def message : Fault → String
  | notContainer k => k.name ++ " is not a sequence or map"
  | noLength k => k.name ++ " has no length"
  | noKeys k => k.name ++ " has no keys"
  | noPush k => "cannot push onto " ++ k.name
  | noRemoval k => "cannot remove keys from " ++ k.name
  | indexKind s i => s.name ++ " index must be INT, was " ++ i.name
  | indexRange i s n =>
      "index " ++ integerText i ++ " out of range for " ++ s.name ++ " of length " ++ decimalText n
  | positionRange a p s n =>
      "attempt to " ++ a.words ++ " " ++ decimalText p ++ " in " ++ s.words ++ " " ++ decimalText n
  | elementKind => "attempt to set string element to non-string"
  | elementLength => "attempt to set string element to other than one char"
  | appendKind => "attempt to append non-string to string"
  | fixedLength n => "attempt to grow tuple of fixed arity " ++ decimalText n
  | missingKey k => "Key not found: " ++ k.literal
  | wrongKind w f => "expected " ++ w.name ++ ", found " ++ f.name
  | propertyName f => "property names must be STR, found " ++ f.name
  | unsetProperty n => "property " ++ n ++ " is not set"
  | notInteger t e => Text.quote t ++ " is not an integer: " ++ e.message
  | notFloat t e => Text.quote t ++ " is not a float: " ++ e.message
  | notBool t => Text.quote t ++ " is not a boolean"
  | outOfRange n w => integerText n ++ " out of range for " ++ w.name
  | refused r => r.message
  | missingFile n => "no property file at " ++ n
  | malformedLayer => "properties cannot be read"
  | refusedProperty r => r.report.display

def report (f : Fault) : Report := ⟨f.code, some f.message⟩

end Fault

end TaggedValue
