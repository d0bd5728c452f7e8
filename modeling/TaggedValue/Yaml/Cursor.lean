/-!
# A place in a text

A cursor holds the rest of a text together with the place where the rest begins: the line, the
column in characters, and the offset in bytes. Blanks are spaces and tabs. Line breaks are all one
character long: `Yaml.normalize` brings the others into that form.
-/

namespace TaggedValue.Yaml

/-! ## Characters -/

def isBlank (c : Char) : Bool := c == ' ' || c == '\t'

/-- The line breaks of a normalized text: the line feed and the two separators. -/
def isBreak (c : Char) : Bool := c == '\n' || c == '\u2028' || c == '\u2029'

/-- Whether a text begins with a blank or a break, or is at its end. -/
def atSpace : List Char → Bool
  | [] => true
  | c :: _ => isBlank c || isBreak c

/-- The characters that a text may hold. -/
def isAllowed (c : Char) : Bool :=
  let n := c.toNat
  n == 0x9 || n == 0xA || n == 0xD || (0x20 ≤ n && n ≤ 0x7E) || n == 0x85
    || (0xA0 ≤ n && n ≤ 0xFFFD) || 0x10000 ≤ n

/-- The byte order mark, which may begin a line. -/
def orderMark : Char := '\uFEFF'

/-- How many bytes characters take in a text. -/
def byteLength (cs : List Char) : Nat := cs.foldl (fun n c => n + c.utf8Size) 0

/-- Carriage returns, with or without a line feed behind them, and next-line characters become line
feeds. -/
def normalize : List Char → List Char
  | '\r' :: '\n' :: cs => '\n' :: normalize cs
  | '\r' :: cs => '\n' :: normalize cs
  | '\u0085' :: cs => '\n' :: normalize cs
  | c :: cs => c :: normalize cs
  | [] => []

/-! ## Cursors -/

/-- The rest of a text and the place where it begins. -/
structure Cursor where
  rest : List Char
  /-- How many bytes came before. -/
  offset : Nat
  line : Nat
  /-- How many characters of the line came before. -/
  column : Nat

namespace Cursor

def start (text : List Char) : Cursor := ⟨text, 0, 0, 0⟩

/-- Moves over characters of the same line. -/
def skip (c : Cursor) (n : Nat) : Cursor :=
  { c with
    rest := c.rest.drop n, offset := c.offset + byteLength (c.rest.take n),
    column := c.column + n }

/-- Moves over a line break. -/
def newline (c : Cursor) : Cursor :=
  { rest := c.rest.drop 1, offset := c.offset + byteLength (c.rest.take 1), line := c.line + 1,
    column := 0 }

/-- Moves over a byte order mark at the beginning of a line. -/
def skipOrderMark (c : Cursor) : Cursor :=
  if c.column == 0 && c.rest.head? == some orderMark then c.skip 1 else c

/-- Takes the characters of the same line that pass a test. -/
def span (c : Cursor) (p : Char → Bool) : List Char × Cursor :=
  let taken := c.rest.takeWhile p
  (taken, c.skip taken.length)

/-- The line break at the cursor, if there is one. -/
def break? (c : Cursor) : Option Char :=
  match c.rest with
  | b :: _ => if isBreak b then some b else none
  | [] => none

/-- Whether a mark of three characters fills the beginning of the line. -/
def atMark (c : Cursor) (mark : List Char) : Bool :=
  c.column == 0 && mark.isPrefixOf c.rest && atSpace (c.rest.drop 3)

/-- Whether the line begins or ends a document. -/
def atDocumentMark (c : Cursor) : Bool := c.atMark ['-', '-', '-'] || c.atMark ['.', '.', '.']

end Cursor

end TaggedValue.Yaml
