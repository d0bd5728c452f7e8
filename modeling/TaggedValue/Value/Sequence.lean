import TaggedValue.Fault
import TaggedValue.Text.Find
import TaggedValue.Value.Equality

/-!
# Sequences

Texts, lists and tuples have positions from 0 up to their length. The elements of a text are texts
of one code point. A list can grow at its end by any value and a text by another text; a tuple
keeps its length.
-/

namespace TaggedValue

/-- A value seen as a sequence. -/
inductive Sequence
  | text (s : String)
  | list (items : List Value)
  | tuple (items : List Value)

namespace Sequence

def kind : Sequence → SequenceKind
  | text _ => .text
  | list _ => .list
  | tuple _ => .tuple

def toValue : Sequence → Value
  | text s => .str s
  | list vs => .list vs
  | tuple vs => .tuple vs

/-- A text of one code point. -/
def ofChar (c : Char) : Value := .str (String.ofList [c])

def elements : Sequence → List Value
  | text s => s.toList.map ofChar
  | list vs => vs
  | tuple vs => vs

def length : Sequence → Nat
  | text s => s.toList.length
  | list vs => vs.length
  | tuple vs => vs.length

@[simp] theorem length_elements (s : Sequence) : s.elements.length = s.length := by
  cases s <;> simp [elements, length]

def isEmpty : Sequence → Bool
  | text s => s.toList.isEmpty
  | list vs => vs.isEmpty
  | tuple vs => vs.isEmpty

/-- Where a value first occurs. In a text this is the offset of another text; elsewhere it is the
position of an equal element. -/
def indexOf? (v : Value) : Sequence → Option Nat
  | text s =>
      match v with
      | .str t => Text.findOffset t.toList s.toList
      | _ => none
  | list vs => vs.findIdx? (· == v)
  | tuple vs => vs.findIdx? (· == v)

def contains (s : Sequence) (v : Value) : Bool := (s.indexOf? v).isSome

/-- The fault of reaching beyond the end. -/
def outside (s : Sequence) (access : Access) (position : Nat) : Fault :=
  .positionRange access position s.kind s.length

def get (s : Sequence) (position : Nat) : Except Fault Value :=
  let element :=
    match s with
    | text t => t.toList[position]?.map ofChar
    | list vs => vs[position]?
    | tuple vs => vs[position]?
  match element with
  | some v => .ok v
  | none => .error (s.outside .read position)

/-- The only code point of a text of length one. -/
def loneChar? (t : String) : Option Char :=
  match t.toList with
  | [c] => some c
  | _ => none

/-- The sequence with another element at a position. For a text the element is looked at before
the position. -/
def set (s : Sequence) (position : Nat) (v : Value) : Except Fault Value :=
  match s with
  | text t =>
      match v with
      | .str u =>
          match loneChar? u with
          | some c =>
              if position < s.length then .ok (.str (String.ofList (t.toList.set position c)))
              else .error (s.outside .write position)
          | none => .error .elementLength
      | _ => .error .elementKind
  | list vs =>
      if position < s.length then .ok (.list (vs.set position v))
      else .error (s.outside .write position)
  | tuple vs =>
      if position < s.length then .ok (.tuple (vs.set position v))
      else .error (s.outside .write position)

def push (s : Sequence) (v : Value) : Except Fault Value :=
  match s with
  | text t =>
      match v with
      | .str u => .ok (.str (t ++ u))
      | _ => .error .appendKind
  | list vs => .ok (.list (vs ++ [v]))
  | tuple vs => .error (.fixedLength vs.length)

/-- The elements of a list without the one at a position. -/
def removeAt (items : List Value) (position : Nat) : Except Fault (List Value) :=
  if position < items.length then .ok (items.eraseIdx position)
  else .error ((list items).outside .remove position)

/-! ## Signed indices -/

/-- The position that a signed index stands for: from the front if it is not negative, otherwise
back from the end. -/
def resolve? (index : Int64) (length : Nat) : Option Nat :=
  let i := index.toInt
  let p := if i < 0 then (length : Int) + i else i
  if 0 ≤ p && p < length then some p.toNat else none

end Sequence

end TaggedValue
