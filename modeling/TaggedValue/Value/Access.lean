import TaggedValue.Value.Entries
import TaggedValue.Value.Sequence

/-!
# Access to any value

The operations that all values share. Sequences take signed indices, maps take keys, and a value
that is neither refuses. Nothing is changed in place: every change gives a new value.
-/

namespace TaggedValue.Value

def sequence? : Value → Option Sequence
  | .str s => some (.text s)
  | .list vs => some (.list vs)
  | .tuple vs => some (.tuple vs)
  | _ => none

/-- The map made from any pairs. -/
def ofPairs (pairs : List Entry) : Value := .map (Entries.ofPairs pairs)

/-- The position of a sequence that an index value stands for. -/
def resolve (v : Value) (s : Sequence) (index : Value) : Except Fault Nat :=
  match index with
  | .int i =>
      match Sequence.resolve? i s.length with
      | some p => .ok p
      | none => .error (.indexRange i v.kind s.length)
  | _ => .error (.indexKind v.kind index.kind)

/-! ## Size -/

def length (v : Value) : Except Fault Nat :=
  match v with
  | .map es => .ok es.length
  | _ =>
      match v.sequence? with
      | some s => .ok s.length
      | none => .error (.noLength v.kind)

def isEmpty (v : Value) : Except Fault Bool :=
  match v with
  | .map es => .ok es.isEmpty
  | _ =>
      match v.sequence? with
      | some s => .ok s.isEmpty
      | none => .error (.noLength v.kind)

/-! ## Parts -/

/-- The keys of a map, in ascending order. -/
def keys (v : Value) : Except Fault (List Value) :=
  match v with
  | .map es => .ok (Entries.keys es)
  | _ => .error (.noKeys v.kind)

/-- The values of a map in the order of their keys, or the elements of a sequence. -/
def values (v : Value) : Except Fault (List Value) :=
  match v with
  | .map es => .ok (Entries.values es)
  | _ =>
      match v.sequence? with
      | some s => .ok s.elements
      | none => .error (.notContainer v.kind)

/-- Whether a value occurs in a sequence, or a key in a map. -/
def contains (v part : Value) : Except Fault Bool :=
  match v with
  | .map es => .ok (Entries.contains es part)
  | _ =>
      match v.sequence? with
      | some s => .ok (s.contains part)
      | none => .error (.notContainer v.kind)

/-- The element at an index of a sequence, or the value bound to a key of a map. -/
def index (v i : Value) : Except Fault Value :=
  match v with
  | .map es => Entries.get es i
  | _ =>
      match v.sequence? with
      | some s => (v.resolve s i).bind s.get
      | none => .error (.notContainer v.kind)

/-- As `index`, with nothing in place of a fault. -/
def get? (v i : Value) : Option Value := (v.index i).toOption

/-! ## Changes -/

/-- With another element at an index of a sequence, or another value bound to a key of a map. -/
def indexSet (v i x : Value) : Except Fault Value :=
  match v with
  | .map es => .ok (.map (Entries.set es i x))
  | _ =>
      match v.sequence? with
      | some s => (v.resolve s i).bind fun p => s.set p x
      | none => .error (.notContainer v.kind)

/-- Binds a key of a map; elsewhere the same as `indexSet`. -/
def set (v key x : Value) : Except Fault Value :=
  match v with
  | .map es => .ok (.map (Entries.set es key x))
  | _ => v.indexSet key x

/-- With a value added at the end. -/
def push (v x : Value) : Except Fault Value :=
  match v.sequence? with
  | some s => s.push x
  | none => .error (.noPush v.kind)

/-- A map without a key, and the value that was bound to it. -/
def remove (v key : Value) : Except Fault (Value × Option Value) :=
  match v with
  | .map es =>
      let (rest, removed) := Entries.erase es key
      .ok (.map rest, removed)
  | _ => .error (.noRemoval v.kind)

end TaggedValue.Value
