import TaggedValue.Fault
import TaggedValue.Value.Order

/-!
# Entries of a map

A map is a list of entries whose keys strictly ascend. Keys are found by halving the stretch in
which they can stand. Building a map from pairs sorts them by key and then lets runs of equal keys
collapse, so of several pairs with one key the last value stays. Binding a key replaces the entry
where the key stands, or makes a new one where it would stand.
-/

namespace TaggedValue.Entries

/-! ## Where a key stands -/

/-- The outcome of a search. -/
inductive Place
  /-- The key stands here. -/
  | found (position : Nat)
  /-- No entry has the key; a new one belongs here. -/
  | absent (position : Nat)
deriving DecidableEq, Repr

/-- Halves the stretch from `low` up to before `high` until the probe hits or nothing is left. The
probe tells how the key at a position compares with the wanted one. -/
def bisect (probe : Nat → Ordering) : Nat → Nat → Nat → Place
  | 0, low, _ => .absent low
  | fuel + 1, low, high =>
      if low < high then
        let middle := low + (high - low) / 2
        match probe middle with
        | .eq => .found middle
        | .lt => bisect probe fuel (middle + 1) high
        | .gt => bisect probe fuel low middle
      else .absent low

/-- How the key at a position compares with a key. Beyond the end everything is larger. -/
def probe (es : List Entry) (key : Value) (position : Nat) : Ordering :=
  match es[position]? with
  | some e => e.1.compare key
  | none => .gt

/-- The place of a key. -/
def place (es : List Entry) (key : Value) : Place :=
  bisect (probe es key) es.length 0 es.length

/-! ## Building -/

/-- Stable sorting by key: an entry goes before the first whose key is not smaller. -/
def insertByKey (e : Entry) : List Entry → List Entry
  | [] => [e]
  | f :: fs => if e.1.compare f.1 == .gt then f :: insertByKey e fs else e :: f :: fs

/-- The entries in ascending order of keys. Those of equal keys keep their places. -/
def sortByKey : List Entry → List Entry
  | [] => []
  | e :: es => insertByKey e (sortByKey es)

/-- Lets the entries behind one of the same key hand their value to it. -/
def collapseFrom (e : Entry) : List Entry → List Entry
  | [] => [e]
  | f :: fs =>
      if e.1.compare f.1 == .eq then collapseFrom (e.1, f.2) fs else e :: collapseFrom f fs

/-- Each run of equal keys becomes one entry with the first key and the last value. -/
def collapse : List Entry → List Entry
  | [] => []
  | e :: es => collapseFrom e es

/-- The entries made from any pairs. The last value given for a key stays. -/
def ofPairs (pairs : List Entry) : List Entry := collapse (sortByKey pairs)

/-! ## Reading -/

def find? (es : List Entry) (key : Value) : Option Value :=
  match place es key with
  | .found i => es[i]?.map (·.2)
  | .absent _ => none

/-- The value bound to a key, which has to be there. -/
def get (es : List Entry) (key : Value) : Except Fault Value :=
  match find? es key with
  | some v => .ok v
  | none => .error (.missingKey key)

def contains (es : List Entry) (key : Value) : Bool :=
  match place es key with
  | .found _ => true
  | .absent _ => false

def keys (es : List Entry) : List Value := es.map (·.1)

def values (es : List Entry) : List Value := es.map (·.2)

/-! ## Changing -/

def set (es : List Entry) (key value : Value) : List Entry :=
  match place es key with
  | .found i => es.set i (key, value)
  | .absent i => es.insertIdx i (key, value)

/-- The entries without a key, and the value that was bound to it. -/
def erase (es : List Entry) (key : Value) : List Entry × Option Value :=
  match place es key with
  | .found i => (es.eraseIdx i, es[i]?.map (·.2))
  | .absent _ => (es, none)

end TaggedValue.Entries
