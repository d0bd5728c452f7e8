import TaggedValue.Json.Number
import TaggedValue.Text.Hex

/-!
# Reading interchange text

The grammar is strict: no comma behind the last item, no needless zeros, no bare controls in texts,
no lone surrogates, and at most 127 arrays and objects around anything. Each reader takes what it
needs from the front of the text and gives the rest, or nothing if the text does not begin with what
it reads. The grammar alone gives a tree with all members as they are written; putting them in order
is a second step, in which of members with one key the last stays.
-/

namespace TaggedValue.Json

/-- How many arrays and objects may lie around a part. -/
def maxDepth : Nat := 127

def isBlank (c : Char) : Bool := c == ' ' || c == '\n' || c == '\t' || c == '\r'

def skipBlanks (cs : List Char) : List Char := cs.dropWhile isBlank

/-! ## Texts -/

/-- Four hexadecimal digits. -/
def readUnit (cs : List Char) : Option (Nat × List Char) :=
  if cs.length < 4 then none else (Text.readHex (cs.take 4)).map (·, cs.drop 4)

/-- The second half of a surrogate pair, and the character that the pair stands for. -/
def readLowSurrogate (high : Nat) (cs : List Char) : Option (Char × List Char) :=
  match cs with
  | '\\' :: 'u' :: r =>
      (readUnit r).bind fun (low, r) =>
        if 0xDC00 ≤ low && low < 0xE000 then
          some (Char.ofNat (0x10000 + (high - 0xD800) * 0x400 + (low - 0xDC00)), r)
        else none
  | _ => none

/-- An escape behind its backslash. -/
def readEscape (cs : List Char) : Option (Char × List Char) :=
  match cs with
  | '"' :: r => some ('"', r)
  | '\\' :: r => some ('\\', r)
  | '/' :: r => some ('/', r)
  | 'b' :: r => some ('\x08', r)
  | 'f' :: r => some ('\x0c', r)
  | 'n' :: r => some ('\n', r)
  | 'r' :: r => some ('\r', r)
  | 't' :: r => some ('\t', r)
  | 'u' :: r =>
      (readUnit r).bind fun (n, r) =>
        if Text.isCharacter n then some (Char.ofNat n, r)
        else if n < 0xDC00 then readLowSurrogate n r
        else none
  | _ => none

/-- The characters of a text behind its first quote, up to the last quote. -/
def readChars : Nat → List Char → Option (List Char × List Char)
  | 0, _ => none
  | fuel + 1, cs =>
      match cs with
      | [] => none
      | '"' :: r => some ([], r)
      | '\\' :: r =>
          (readEscape r).bind fun (c, r) => (readChars fuel r).map fun (s, r) => (c :: s, r)
      | c :: r =>
          if c.toNat < 0x20 then none
          else (readChars fuel r).map fun (s, r) => (c :: s, r)

/-- A text behind its first quote. -/
def readText (cs : List Char) : Option (String × List Char) :=
  (readChars (cs.length + 1) cs).map fun (s, r) => (String.ofList s, r)

/-- A key of an object with the colon behind it. -/
def readKey (cs : List Char) : Option (String × List Char) :=
  match skipBlanks cs with
  | '"' :: r =>
      (readText r).bind fun (k, r) =>
        match skipBlanks r with
        | ':' :: r => some (k, r)
        | _ => none
  | _ => none

/-! ## Trees

The first number bounds the calls that follow, the second the arrays and objects that may still be
opened. -/

mutual

/-- A tree with its members as they are written, with blanks before it. -/
def readTree : Nat → Nat → List Char → Option (Json × List Char)
  | 0, _, _ => none
  | fuel + 1, depth, cs =>
      match skipBlanks cs with
      | '"' :: r => (readText r).map fun (s, r) => (.text s, r)
      | '[' :: r =>
          match depth with
          | 0 => none
          | depth + 1 =>
              match skipBlanks r with
              | ']' :: r => some (.array [], r)
              | _ => (readItems fuel depth r).map fun (js, r) => (.array js, r)
      | '{' :: r =>
          match depth with
          | 0 => none
          | depth + 1 =>
              match skipBlanks r with
              | '}' :: r => some (.object [], r)
              | _ => (readMembers fuel depth r).map fun (ms, r) => (.object ms, r)
      | 'n' :: 'u' :: 'l' :: 'l' :: r => some (.null, r)
      | 't' :: 'r' :: 'u' :: 'e' :: r => some (.bool true, r)
      | 'f' :: 'a' :: 'l' :: 's' :: 'e' :: r => some (.bool false, r)
      | r => (JsonNumber.read r).map fun (n, r) => (.number n, r)
termination_by structural fuel => fuel

/-- One item or more, and the bracket behind them. -/
def readItems : Nat → Nat → List Char → Option (List Json × List Char)
  | 0, _, _ => none
  | fuel + 1, depth, cs =>
      (readTree fuel depth cs).bind fun (j, r) =>
        match skipBlanks r with
        | ']' :: r => some ([j], r)
        | ',' :: r => (readItems fuel depth r).map fun (js, r) => (j :: js, r)
        | _ => none
termination_by structural fuel => fuel

/-- One member or more, and the brace behind them. -/
def readMembers : Nat → Nat → List Char → Option (List (String × Json) × List Char)
  | 0, _, _ => none
  | fuel + 1, depth, cs =>
      (readKey cs).bind fun (k, r) =>
        (readTree fuel depth r).bind fun (j, r) =>
          match skipBlanks r with
          | '}' :: r => some ([(k, j)], r)
          | ',' :: r => (readMembers fuel depth r).map fun (ms, r) => ((k, j) :: ms, r)
          | _ => none
termination_by structural fuel => fuel

end

/-- A tree as it is written at the front of a text, below some depth, and the rest of the text. Two
calls for each character are enough. -/
def readWritten (depth : Nat) (cs : List Char) : Option (Json × List Char) :=
  readTree (2 * cs.length + 2) depth cs

/-- A tree at the front of a text, below some depth, and the rest of the text. -/
def readFront (depth : Nat) (cs : List Char) : Option (Json × List Char) :=
  (readWritten depth cs).map fun (j, r) => (j.ordered, r)

/-- Whether nothing but blanks is left. -/
def isFinished (cs : List Char) : Bool := (skipBlanks cs).isEmpty

/-- The tree that a whole text stands for, as it is written. -/
def parseWritten? (text : String) : Option Json :=
  match readWritten maxDepth text.toList with
  | some (j, rest) => if isFinished rest then some j else none
  | none => none

/-- The tree that a whole text stands for. -/
def parse? (text : String) : Option Json := (parseWritten? text).map ordered

end TaggedValue.Json
