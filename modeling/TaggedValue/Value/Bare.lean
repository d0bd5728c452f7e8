import TaggedValue.Value.Basic

/-!
# Values beside bare payloads

Whether a value holds just this text, integer, number or truth value. An integer of any width is
compared as a number. Floating-point numbers are compared numerically here, so the zeros agree and
a not-a-number differs from itself.
-/

namespace TaggedValue.Value

open Number (Binary64)

def holdsText (v : Value) (t : String) : Bool := v.str? == some t

def holdsInt (v : Value) (n : Int) : Bool :=
  match v with
  | .int i => i.toInt == n
  | _ => false

def holdsFloat (v : Value) (x : Binary64) : Bool :=
  match v with
  | .float y => y.sameNumber x
  | _ => false

def holdsBool (v : Value) (b : Bool) : Bool := v.bool? == some b

end TaggedValue.Value
