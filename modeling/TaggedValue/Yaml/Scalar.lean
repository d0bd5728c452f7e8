import TaggedValue.Number.IntegerText
import TaggedValue.Text.Hex
import TaggedValue.Yaml.Cursor

/-!
# Scalars

A scalar is written plainly, between single or double quotes, or as an indented block. In the first
three styles lines are folded: one break stands for a blank, and of several the first is dropped. A
block keeps its lines or folds them, and a sign says what becomes of the breaks at its end. Each
reader gives the text and the cursor behind it, or nothing if the scalar is malformed.
-/

namespace TaggedValue.Yaml

/-! ## Gaps between words -/

/-- What lies between two words of a scalar. -/
structure Gap where
  /-- The blanks, if there is no break. -/
  blanks : List Char
  breaks : List Char

namespace Gap

/-- What a gap contributes to the text. -/
def fold (g : Gap) : List Char :=
  match g.breaks with
  | [] => g.blanks
  | ['\n'] => [' ']
  | '\n' :: more => more
  | breaks => breaks

end Gap

/-- The breaks from the beginning of a line on, with all blanks around them. A tab is refused before
the column where the text may begin. -/
def takeBreaks (column : Nat) : Nat → Cursor → Option (List Char × Cursor)
  | 0, _ => none
  | fuel + 1, c =>
      let (blanks, d) := c.span isBlank
      if (blanks.take (column - c.column)).contains '\t' then none
      else
        match d.break? with
        | some b => (takeBreaks column fuel d.newline).map fun (bs, e) => (b :: bs, e)
        | none => some ([], d)

/-- The gap at a cursor. -/
def takeGap (column : Nat) (c : Cursor) : Option (Gap × Cursor) :=
  let (blanks, d) := c.span isBlank
  match d.break? with
  | some b =>
      (takeBreaks column (d.rest.length + 1) d.newline).map fun (bs, e) => (⟨[], b :: bs⟩, e)
  | none => some (⟨blanks, []⟩, d)

/-! ## Plain scalars -/

/-- The indicators of flow collections. -/
def isFlowIndicator (c : Char) : Bool :=
  c == ',' || c == '[' || c == ']' || c == '{' || c == '}'

/-- One word of a plain scalar. It ends before a blank, before a colon that a blank follows and, in
a flow collection, before an indicator; there a colon must not stand before an indicator. -/
def plainWord (inFlow : Bool) : List Char → Option (List Char)
  | [] => some []
  | c :: cs =>
      if isBlank c || isBreak c then some []
      else if inFlow && c == ':' && cs.head?.any (fun d => isFlowIndicator d || d == '?') then none
      else if c == ':' && atSpace cs then some []
      else if inFlow && isFlowIndicator c then some []
      else (plainWord inFlow cs).map (c :: ·)

/-- A plain scalar that has been read. -/
structure PlainScalar where
  text : List Char
  /-- Behind the scalar and the gap after it. -/
  behind : Cursor
  /-- Whether there is a break in that gap. -/
  brokeLine : Bool

/-- The words behind the first, with the gaps before them. They stand at or beyond a column. -/
def plainWords (inFlow : Bool) (column : Nat) : Nat → Cursor → Option PlainScalar
  | 0, _ => none
  | fuel + 1, c =>
      if !atSpace c.rest || c.rest.isEmpty then some ⟨[], c, false⟩
      else
        (takeGap column c).bind fun (gap, d) =>
          let finished : PlainScalar := ⟨[], d, !gap.breaks.isEmpty⟩
          if (!inFlow && d.column < column) || d.atDocumentMark || d.rest.head? == some '#' then
            some finished
          else
            (plainWord inFlow d.rest).bind fun word =>
              if word.isEmpty then some finished
              else
                (plainWords inFlow column fuel (d.skip word.length)).map fun more =>
                  { more with text := gap.fold ++ word ++ more.text }

def readPlain (inFlow : Bool) (column : Nat) (c : Cursor) : Option PlainScalar :=
  (plainWord inFlow c.rest).bind fun word =>
    (plainWords inFlow column (c.rest.length + 1) (c.skip word.length)).map fun more =>
      { more with text := word ++ more.text }

/-! ## Quoted scalars -/

/-- A character given by some hexadecimal digits. -/
def hexEscape (digits : Nat) (cs : List Char) : Option Char :=
  if cs.length < digits then none
  else
    (Text.readHex (cs.take digits)).bind fun n =>
      if Text.isCharacter n then some (Char.ofNat n) else none

/-- An escape behind its backslash, and how many characters it has. -/
def doubleEscape (cs : List Char) : Option (Char × Nat) :=
  match cs with
  | '0' :: _ => some ('\x00', 1)
  | 'a' :: _ => some ('\x07', 1)
  | 'b' :: _ => some ('\x08', 1)
  | 't' :: _ => some ('\t', 1)
  | '\t' :: _ => some ('\t', 1)
  | 'n' :: _ => some ('\n', 1)
  | 'v' :: _ => some ('\x0b', 1)
  | 'f' :: _ => some ('\x0c', 1)
  | 'r' :: _ => some ('\r', 1)
  | 'e' :: _ => some ('\x1b', 1)
  | ' ' :: _ => some (' ', 1)
  | '"' :: _ => some ('"', 1)
  | '/' :: _ => some ('/', 1)
  | '\\' :: _ => some ('\\', 1)
  | 'N' :: _ => some ('\u0085', 1)
  | '_' :: _ => some ('\u00a0', 1)
  | 'L' :: _ => some ('\u2028', 1)
  | 'P' :: _ => some ('\u2029', 1)
  | 'x' :: r => (hexEscape 2 r).map (·, 3)
  | 'u' :: r => (hexEscape 4 r).map (·, 5)
  | 'U' :: r => (hexEscape 8 r).map (·, 9)
  | _ => none

/-- One word of a quoted scalar. -/
structure QuotedWord where
  text : List Char
  behind : Cursor
  /-- Whether the word ended with an escaped line break. -/
  joined : Bool

/-- Puts a character before a word. -/
def QuotedWord.cons (c : Char) (w : QuotedWord) : QuotedWord := { w with text := c :: w.text }

/-- A word between single quotes, where a doubled quote stands for one. -/
def singleWord : Nat → Cursor → Option QuotedWord
  | 0, _ => none
  | fuel + 1, c =>
      match c.rest with
      | '\'' :: '\'' :: _ => (singleWord fuel (c.skip 2)).map (·.cons '\'')
      | '\'' :: _ => some ⟨[], c, false⟩
      | d :: _ =>
          if isBlank d || isBreak d then some ⟨[], c, false⟩
          else (singleWord fuel (c.skip 1)).map (·.cons d)
      | [] => some ⟨[], c, false⟩

/-- A word between double quotes, where a backslash begins an escape. -/
def doubleWord : Nat → Cursor → Option QuotedWord
  | 0, _ => none
  | fuel + 1, c =>
      match c.rest with
      | '"' :: _ => some ⟨[], c, false⟩
      | '\\' :: r =>
          if (c.skip 1).break?.isSome then some ⟨[], (c.skip 1).newline, true⟩
          else
            (doubleEscape r).bind fun (d, n) =>
              (doubleWord fuel (c.skip (1 + n))).map (·.cons d)
      | d :: _ =>
          if isBlank d || isBreak d then some ⟨[], c, false⟩
          else (doubleWord fuel (c.skip 1)).map (·.cons d)
      | [] => some ⟨[], c, false⟩

/-- The words of a quoted scalar up to its closing quote. A document mark must not stand inside. -/
def quotedWords (quote : Char) : Nat → Cursor → Option (List Char × Cursor)
  | 0, _ => none
  | fuel + 1, c =>
      if c.atDocumentMark || c.rest.isEmpty then none
      else
        let size := c.rest.length + 1
        let word := if quote == '"' then doubleWord size c else singleWord size c
        word.bind fun w =>
          if w.behind.rest.head? == some quote then some (w.text, w.behind.skip 1)
          else
            let gap :=
              if w.joined then takeBreaks 0 (w.behind.rest.length + 1) w.behind
              else (takeGap 0 w.behind).map fun (g, d) => (g.fold, d)
            gap.bind fun (between, d) =>
              (quotedWords quote fuel d).map fun (more, e) => (w.text ++ between ++ more, e)

/-- A quoted scalar, from its opening quote on. -/
def readQuoted (quote : Char) (c : Cursor) : Option (List Char × Cursor) :=
  quotedWords quote (c.rest.length + 1) (c.skip 1)

/-! ## Block scalars -/

/-- What becomes of the breaks at the end of a block. -/
inductive Chomping
  /-- All are dropped. -/
  | strip
  /-- The first is kept. -/
  | clip
  /-- All are kept. -/
  | keep
deriving DecidableEq, Repr

/-- The sign for chomping at the beginning of a text, if there is one. -/
def chompingSign? : List Char → Option Chomping
  | '+' :: _ => some .keep
  | '-' :: _ => some .strip
  | _ => none

/-- The digit for the indentation at the beginning of a text; without one it is 0. Zero itself is
refused. -/
def indentDigit (cs : List Char) : Option Nat :=
  match cs with
  | c :: _ =>
      if c == '0' then none else if c.isDigit then some (Number.digitValue c) else some 0
  | [] => some 0

/-- The signs behind the indicator of a block, in either order, and the cursor behind them. -/
def blockSigns (c : Cursor) : Option (Chomping × Nat × Cursor) :=
  match chompingSign? c.rest with
  | some chomping =>
      (indentDigit (c.rest.drop 1)).map fun n => (chomping, n, c.skip (if n = 0 then 1 else 2))
  | none =>
      (indentDigit c.rest).map fun n =>
        let d := c.skip (if n = 0 then 0 else 1)
        if n = 0 then (.clip, 0, d)
        else
          match chompingSign? d.rest with
          | some chomping => (chomping, n, d.skip 1)
          | none => (.clip, n, d)

/-- The empty lines at a cursor, the greatest column that their spaces reach, and the cursor at the
next line with a text, behind its indentation. Indentation 0 stands for one not yet known. -/
def emptyLines (indent : Nat) : Nat → Nat → Cursor → Option (List Char × Nat × Cursor)
  | 0, _, _ => none
  | fuel + 1, widest, c =>
      let spaces := (c.rest.takeWhile (· == ' ')).length
      let d := c.skip (if indent = 0 then spaces else min spaces (indent - c.column))
      let widest := max widest d.column
      if (indent = 0 || d.column < indent) && d.rest.head? == some '\t' then none
      else
        match d.break? with
        | some b =>
            (emptyLines indent fuel widest d.newline).map fun (bs, w, e) => (b :: bs, w, e)
        | none => some ([], widest, d)

/-- A block, up to the breaks at its end. -/
structure BlockLines where
  text : List Char
  /-- The break of the last line. -/
  lastBreak : List Char
  /-- The empty lines behind it. -/
  emptyEnd : List Char
  behind : Cursor

/-- The lines of a block from a cursor on. Before them came a break and some empty lines, and the
line before was indented further or not. Where a break stands between two lines that are not, it is
folded. -/
def blockLines (folded : Bool) (indent : Nat) :
    Nat → List Char → List Char → Bool → Cursor → Option BlockLines
  | 0, _, _, _, _ => none
  | fuel + 1, lastBreak, empty, deeper, c =>
      if c.column != indent || c.rest.isEmpty then some ⟨[], lastBreak, empty, c⟩
      else
        let deeperNow := c.rest.head?.any isBlank
        let between :=
          if folded && lastBreak == ['\n'] && !deeper && !deeperNow then
            if empty.isEmpty then [' '] else empty
          else lastBreak ++ empty
        let (line, d) := c.span fun ch => !isBreak ch
        let (thisBreak, e) :=
          match d.break? with
          | some b => ([b], d.newline)
          | none => ([], d)
        (emptyLines indent (e.rest.length + 1) 0 e).bind fun (empty, _, f) =>
          (blockLines folded indent fuel thisBreak empty deeperNow f).map fun more =>
            { more with text := between ++ line ++ more.text }

/-- A block scalar, from its indicator on. It is indented beyond the given column: by as much as its
sign says, or else as its first line is. -/
def readBlock (folded : Bool) (outer : Int) (c : Cursor) : Option (List Char × Cursor) :=
  (blockSigns (c.skip 1)).bind fun (chomping, sign, d) =>
    let d := (d.span isBlank).2
    let d := if d.rest.head? == some '#' then (d.span fun ch => !isBreak ch).2 else d
    if !d.rest.isEmpty && d.break?.isNone then none
    else
      let d := if d.break?.isSome then d.newline else d
      let known := if sign = 0 then 0 else (max outer 0).toNat + sign
      (emptyLines known (d.rest.length + 1) 0 d).bind fun (empty, widest, e) =>
        let indent := if known = 0 then max widest (max (outer + 1).toNat 1) else known
        (blockLines folded indent (e.rest.length + 1) [] empty false e).map fun lines =>
          let ending :=
            match chomping with
            | .strip => []
            | .clip => lines.lastBreak
            | .keep => lines.lastBreak ++ lines.emptyEnd
          (lines.text ++ ending, lines.behind)

end TaggedValue.Yaml
