import TaggedValue.Text.Quoted

/-!
# Error reports

A report is a code and perhaps a text of its own. Codes have an order, a name that is read in any
case, and a standing text for reports without one.
-/

namespace TaggedValue

/-- The classes of errors, in their order. -/
inductive ErrorCode
  | typeMismatch
  | range
  | keyNotFound
  | invalidArgument
  | conversion
  | config
deriving DecidableEq, Repr

namespace ErrorCode

/-- The name of a code. -/
def name : ErrorCode → String
  | typeMismatch => "TypeMismatch"
  | range => "Range"
  | keyNotFound => "KeyNotFound"
  | invalidArgument => "InvalidArgument"
  | conversion => "Conversion"
  | config => "Config"

/-- What is said where a report has no text of its own. -/
def standingText : ErrorCode → String
  | typeMismatch => "Type mismatch"
  | range => "Range error"
  | keyNotFound => "Key not found"
  | invalidArgument => "Invalid argument"
  | conversion => "Conversion failed"
  | config => "Configuration error"

/-- Every code, in order. -/
def all : List ErrorCode :=
  [typeMismatch, range, keyNotFound, invalidArgument, conversion, config]

/-- The code of this name. ASCII letters match in either case. -/
def ofName? (text : String) : Option ErrorCode :=
  all.find? fun c => c.name.toLower == text.toLower

/-- The order of codes. -/
protected def compare (a b : ErrorCode) : Ordering := Ord.compare a.ctorIdx b.ctorIdx

instance : Ord ErrorCode := ⟨ErrorCode.compare⟩

end ErrorCode

/-- An error as it is handed on. -/
structure Report where
  code : ErrorCode
  text : Option String
deriving DecidableEq, Repr

namespace Report

/-- What went wrong, in words. -/
def message (r : Report) : String := r.text.getD r.code.standingText

/-- The name of the code, and the text in parentheses if there is one. -/
def display (r : Report) : String :=
  match r.text with
  | some t => r.code.name ++ " (" ++ t ++ ")"
  | none => r.code.name

/-- The name of the code, and the text quoted in parentheses if there is one. -/
def outline (r : Report) : String :=
  match r.text with
  | some t => r.code.name ++ "(" ++ Text.quote t ++ ")"
  | none => r.code.name

/-- Whether a report carries this code. -/
def hasCode (r : Report) (c : ErrorCode) : Bool := r.code == c

end Report

end TaggedValue
