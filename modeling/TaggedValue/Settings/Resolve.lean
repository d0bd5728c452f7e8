import TaggedValue.Number.IntType
import TaggedValue.Settings.Basic
import TaggedValue.Yaml.Node

/-!
# What nodes stand for

A plain scalar may stand for null, a truth value, an integer or a floating-point number; all other
scalars are texts. A mapping is a table in which every key is the text of its scalar. An integer has
an optional sign and perhaps the mark of another base; digits with a needless zero in front are a
text. A floating-point number that is not finite is null. The origin of a table has no minus sign,
not even before zero.
-/

namespace TaggedValue.Setting

open Number (Binary64 IntType)

/-! ## Plain scalars -/

/-- A number in some base, if the digits are all of it. -/
def readBase (base : Nat) (cs : List Char) : Option Nat :=
  if cs.isEmpty then none
  else
    cs.foldl
      (fun n c => n.bind fun n => (Text.hexValue? c).bind fun d =>
        if d < base then some (base * n + d) else none)
      (some 0)

/-- A number without sign, in the base that its mark says. -/
def readMarked (cs : List Char) : Option Nat :=
  match cs with
  | '0' :: 'x' :: ds => readBase 16 ds
  | '0' :: 'o' :: ds => readBase 8 ds
  | '0' :: 'b' :: ds => readBase 2 ds
  | ds => readBase 10 ds

/-- Whether a text is a row of digits with a needless zero in front, after an optional sign. -/
def hasNeedlessZero (cs : List Char) : Bool :=
  match (Number.splitSign cs).2 with
  | '0' :: ds => !ds.isEmpty && ds.all Char.isDigit
  | _ => false

def readInteger (cs : List Char) : Option Int :=
  if hasNeedlessZero cs then none
  else
    match cs with
    | '-' :: ds => (readMarked ds).map fun n => -(n : Int)
    | '+' :: ds => (readMarked ds).map fun n => (n : Int)
    | ds => (readMarked ds).map fun n => (n : Int)

/-- The least integer of 128 bits with a sign. -/
def leastHuge : Int := -0x80000000000000000000000000000000

/-- The greatest integer of 128 bits without sign. -/
def greatestHuge : Int := 0xffffffffffffffffffffffffffffffff

/-- An integer as a setting. Integers of up to 128 bits are integers. -/
def ofInteger (n : Int) : Option Setting :=
  if IntType.signed64.Contains n then some (.number (.int (Int64.ofInt n)))
  else if IntType.unsigned64.Contains n then (JsonNumber.ofNat? n.toNat).map .number
  else if leastHuge ≤ n && n ≤ greatestHuge then some .huge
  else none

def ofFloat (x : Binary64) : Setting :=
  match JsonNumber.ofBinary64? x with
  | some n => .number n
  | none => .null

/-- The floating-point number that a plain scalar stands for. The words for infinity and
not-a-number begin with a point here. -/
def readFloat (written : String) : Option Binary64 :=
  match written with
  | ".inf" | ".Inf" | ".INF" | "+.inf" | "+.Inf" | "+.INF" => some (.infinity false)
  | "-.inf" | "-.Inf" | "-.INF" => some (.infinity true)
  | ".nan" | ".NaN" | ".NAN" => some (.nan false)
  | _ =>
      match Number.readBinary64 written.toList with
      | .ok x => if x.isFinite then some x else none
      | .error _ => none

def ofPlain (written : String) : Setting :=
  match written with
  | "" | "~" | "null" | "Null" | "NULL" => .null
  | "true" | "True" | "TRUE" => .bool true
  | "false" | "False" | "FALSE" => .bool false
  | _ =>
      match (readInteger written.toList).bind ofInteger with
      | some s => s
      | none =>
          if hasNeedlessZero written.toList then .text written
          else
            match readFloat written with
            | some x => ofFloat x
            | none => .text written

/-! ## Nodes -/

/-- Whether a node is a plain integer of 64 bits without a minus sign. -/
def isOriginNode : Yaml.Node → Bool
  | .scalar written plain =>
      plain && written.toList.head? != some '-'
        && (readInteger written.toList).any fun n => IntType.unsigned64.Contains n
  | _ => false

/-- Whether a pair is no origin or a proper one. -/
def allowsOrigin : Yaml.Node × Yaml.Node → Bool
  | (.scalar key _, n) => key != originKey || isOriginNode n
  | _ => true

mutual

/-- What a node stands for, if every key in it is a scalar and every origin in it is one. -/
def ofNode : Yaml.Node → Option Setting
  | .scalar written plain => some (if plain then ofPlain written else .text written)
  | .sequence ns => (ofNodes ns).map .list
  | .mapping ps => if ps.all allowsOrigin then (ofPairs ps).map ofMembers else none
termination_by structural n => n

def ofNodes : List Yaml.Node → Option (List Setting)
  | [] => some []
  | n :: ns => (ofNode n).bind fun s => (ofNodes ns).map (s :: ·)
termination_by structural ns => ns

def ofPairs : List (Yaml.Node × Yaml.Node) → Option (List (String × Setting))
  | [] => some []
  | (.scalar key _, n) :: ps =>
      (ofNode n).bind fun s => (ofPairs ps).map ((key, s) :: ·)
  | _ :: _ => none
termination_by structural ps => ps

end

end TaggedValue.Setting
