import TaggedValue.Yaml.Scalar

/-!
# Tokens

A text is split into scalars, indicators, and marks for where block collections begin and end.
Block collections are told by indentation: a deeper column opens one, and a column to the left of
it closes it. A scalar or flow collection turns out to be a key only when a colon follows it on the
same line, so a place where a key may have begun is remembered, and the tokens for it are put in
there afterwards.
-/

namespace TaggedValue.Yaml

/-- A piece of a text. -/
inductive Token
  | documentStart
  | documentEnd
  | blockSequence
  | blockMapping
  | blockEnd
  | flowSequence
  | flowSequenceEnd
  | flowMapping
  | flowMappingEnd
  | blockEntry
  | flowEntry
  | key
  | value
  /-- A scalar, and whether it is written plainly. -/
  | scalar (text : String) (plain : Bool)
deriving DecidableEq, Repr

/-- A place where a key may have begun. -/
structure KeyPlace where
  /-- Whether nothing but a key can stand there. -/
  required : Bool
  /-- How many tokens came before. -/
  position : Nat
  /-- How many bytes came before. -/
  offset : Nat
  line : Nat
  column : Nat

/-- The state of reading tokens. -/
structure Scan where
  cursor : Cursor
  tokens : Array Token
  /-- The column of the innermost block collection, `-1` outside of all. -/
  indent : Int
  /-- The columns around it. -/
  outer : List Int
  /-- The place where a key may have begun, in this flow collection or outside of all. -/
  keyPlace : Option KeyPlace
  /-- These places in the flow collections around it; the last entry belongs to the block. -/
  outerPlaces : List (Option KeyPlace)
  /-- Whether a key may begin here. -/
  keyAllowed : Bool

namespace Scan

def start (text : List Char) : Scan :=
  { cursor := .start text, tokens := #[], indent := -1, outer := [], keyPlace := none,
    outerPlaces := [], keyAllowed := true }

def inFlow (s : Scan) : Bool := !s.outerPlaces.isEmpty

def push (s : Scan) (t : Token) : Scan := { s with tokens := s.tokens.push t }

/-- Takes an indicator of some characters. -/
def take (s : Scan) (n : Nat) (t : Token) : Scan := { s.push t with cursor := s.cursor.skip n }

def allowKey (s : Scan) (allowed : Bool) : Scan := { s with keyAllowed := allowed }

/-! ## Places of keys -/

/-- How many bytes a key may take, up to its colon. -/
def maxKeyLength : Nat := 1024

/-- Whether a key can no longer be completed at a cursor. -/
def isStale (c : Cursor) (k : KeyPlace) : Bool :=
  k.line < c.line || k.offset + maxKeyLength < c.offset

/-- Forgets a place whose line is over or which is too far back. A key that is required there is
missing. -/
def refresh (c : Cursor) : Option KeyPlace → Option (Option KeyPlace)
  | none => some none
  | some k => if isStale c k then (if k.required then none else some none) else some (some k)

/-- Forgets all such places. -/
def forgetStale (s : Scan) : Option Scan := do
  let here ← refresh s.cursor s.keyPlace
  let around ← s.outerPlaces.mapM (refresh s.cursor)
  return { s with keyPlace := here, outerPlaces := around }

/-- Gives up the innermost place, unless a key is required there. -/
def dropPlace (s : Scan) : Option Scan :=
  match s.keyPlace with
  | some k => if k.required then none else some { s with keyPlace := none }
  | none => some s

/-- Remembers that a key may begin here. -/
def markPlace (s : Scan) : Option Scan :=
  if s.keyAllowed then
    s.dropPlace.map fun s =>
      { s with
        keyPlace := some
          { required := !s.inFlow && s.indent == s.cursor.column, position := s.tokens.size,
            offset := s.cursor.offset, line := s.cursor.line, column := s.cursor.column } }
  else some s

/-! ## Indentation -/

/-- Opens a block collection if the column lies deeper than the innermost one. Its token goes to a
position among the tokens. -/
def openBlock (s : Scan) (column position : Nat) (t : Token) : Scan :=
  if !s.inFlow && s.indent < column then
    { s with indent := column, outer := s.indent :: s.outer,
             tokens := s.tokens.insertIdxIfInBounds position t }
  else s

/-- Closes the block collections deeper than a column. -/
def closeAbove (column : Int) : List Int → Scan → Scan
  | [], s => s
  | o :: os, s =>
      if column < s.indent then
        closeAbove column os { s.push .blockEnd with indent := o, outer := os }
      else s

/-- Closes the block collections deeper than a column, unless within a flow collection. -/
def closeBlocks (s : Scan) (column : Int) : Scan :=
  if s.inFlow then s else closeAbove column s.outer s

/-! ## Between tokens -/

/-- Skips blanks, comments and breaks. A line may begin with a byte order mark, which takes a
column. A tab is only skipped where no key may begin, or within a flow collection. After a break a
key may begin, unless within a flow collection. -/
def skipSpace : Nat → Scan → Scan
  | 0, s => s
  | fuel + 1, s =>
      let skipped := (s.cursor.skipOrderMark.span fun c =>
        c == ' ' || (c == '\t' && (s.inFlow || !s.keyAllowed))).2
      let skipped :=
        if skipped.rest.head? == some '#' then (skipped.span fun c => !isBreak c).2 else skipped
      if skipped.break?.isSome then
        skipSpace fuel { s with cursor := skipped.newline, keyAllowed := s.keyAllowed || !s.inFlow }
      else { s with cursor := skipped }

/-! ## One token -/

/-- Takes `---` or `...`. -/
def takeDocumentMark (s : Scan) (t : Token) : Option Scan :=
  (s.closeBlocks (-1)).dropPlace.map fun s => (s.allowKey false).take 3 t

def openFlow (s : Scan) (t : Token) : Option Scan :=
  s.markPlace.map fun s =>
    { (s.allowKey true).take 1 t with keyPlace := none, outerPlaces := s.keyPlace :: s.outerPlaces }

def closeFlow (s : Scan) (t : Token) : Option Scan :=
  s.dropPlace.map fun s =>
    let s := (s.allowKey false).take 1 t
    match s.outerPlaces with
    | k :: ks => { s with keyPlace := k, outerPlaces := ks }
    | [] => s

def takeComma (s : Scan) : Option Scan :=
  s.dropPlace.map fun s => (s.allowKey true).take 1 .flowEntry

/-- Takes the dash before an item. Outside of flow collections it opens a sequence. -/
def takeDash (s : Scan) : Option Scan :=
  if !s.inFlow && !s.keyAllowed then none
  else
    (s.openBlock s.cursor.column s.tokens.size .blockSequence).dropPlace.map fun s =>
      (s.allowKey true).take 1 .blockEntry

/-- Takes the question mark before a key. Outside of flow collections it opens a mapping. -/
def takeQuestionMark (s : Scan) : Option Scan :=
  if !s.inFlow && !s.keyAllowed then none
  else
    (s.openBlock s.cursor.column s.tokens.size .blockMapping).dropPlace.map fun s =>
      (s.allowKey (!s.inFlow)).take 1 .key

/-- Takes the colon before a value. If a key was possible, what came since was that key. -/
def takeColon (s : Scan) : Option Scan :=
  match s.keyPlace with
  | some k =>
      let s := { s with tokens := s.tokens.insertIdxIfInBounds k.position .key, keyPlace := none }
      some (((s.openBlock k.column k.position .blockMapping).allowKey false).take 1 .value)
  | none =>
      if !s.inFlow && !s.keyAllowed then none
      else
        let s := s.openBlock s.cursor.column s.tokens.size .blockMapping
        some ((s.allowKey (!s.inFlow)).take 1 .value)

def pushScalar (s : Scan) (text : List Char) (plain : Bool) (behind : Cursor) : Scan :=
  { s.push (.scalar (String.ofList text) plain) with cursor := behind }

def takeQuoted (s : Scan) (quote : Char) : Option Scan :=
  s.markPlace.bind fun s =>
    (readQuoted quote s.cursor).map fun (text, behind) =>
      (s.allowKey false).pushScalar text false behind

/-- Takes a plain scalar. It lies to the right of the innermost block collection. -/
def takePlain (s : Scan) : Option Scan :=
  s.markPlace.bind fun s =>
    (readPlain s.inFlow (s.indent + 1).toNat s.cursor).map fun p =>
      (s.allowKey p.brokeLine).pushScalar p.text true p.behind

def takeBlock (s : Scan) (folded : Bool) : Option Scan :=
  s.dropPlace.bind fun s =>
    (readBlock folded s.indent s.cursor).map fun (text, behind) =>
      (s.allowKey true).pushScalar text false behind

/-- The characters that begin no plain scalar, unless they are a dash, question mark or colon before
something else. -/
def isIndicator (c : Char) : Bool :=
  ['-', '?', ':', ',', '[', ']', '{', '}', '#', '&', '*', '!', '|', '>', '\'', '"', '%', '@',
    Char.ofNat 0x60].contains c

/-- Whether a plain scalar begins here. -/
def beginsPlain (inFlow : Bool) (c : Char) (r : List Char) : Bool :=
  !isIndicator c && !atSpace [c]
    || (c == '-' && !r.head?.any isBlank)
    || (!inFlow && (c == '?' || c == ':') && !atSpace r)

/-- Takes the token at the cursor, which stands on neither a blank nor a comment. Anchors, aliases,
tags and directives are not read. -/
def takeToken (s : Scan) (c : Char) (r : List Char) : Option Scan :=
  if s.cursor.atMark ['-', '-', '-'] then s.takeDocumentMark .documentStart
  else if s.cursor.atMark ['.', '.', '.'] then s.takeDocumentMark .documentEnd
  else if c == '[' then s.openFlow .flowSequence
  else if c == '{' then s.openFlow .flowMapping
  else if c == ']' then s.closeFlow .flowSequenceEnd
  else if c == '}' then s.closeFlow .flowMappingEnd
  else if c == ',' then s.takeComma
  else if c == '-' && atSpace r then s.takeDash
  else if c == '?' && (s.inFlow || atSpace r) then s.takeQuestionMark
  else if c == ':' && (s.inFlow || atSpace r) then s.takeColon
  else if c == '|' && !s.inFlow then s.takeBlock false
  else if c == '>' && !s.inFlow then s.takeBlock true
  else if c == '\'' || c == '"' then s.takeQuoted c
  else if beginsPlain s.inFlow c r then s.takePlain
  else none

/-- Takes tokens up to the end of the text, and closes all block collections there. -/
def takeAll : Nat → Scan → Option (Array Token)
  | 0, _ => none
  | fuel + 1, s =>
      let s := skipSpace (s.cursor.rest.length + 1) s
      s.forgetStale.bind fun s =>
        let s := s.closeBlocks s.cursor.column
        match s.cursor.rest with
        | [] => (s.closeBlocks (-1)).dropPlace.map (·.tokens)
        | c :: r => (s.takeToken c r).bind (takeAll fuel)

end Scan

def tokens? (text : String) : Option (List Token) :=
  let cs := text.toList
  if cs.all isAllowed then
    let cs := normalize cs
    (Scan.takeAll (cs.length + 1) (.start cs)).map Array.toList
  else none

end TaggedValue.Yaml
