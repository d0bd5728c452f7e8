/-!
# Capital letters

Names are recognised in any case. The capital form of a character may have several letters, and a
few characters beyond ASCII have capitals within it: the dotless i, the long s, the sharp s and
the ligatures of f and s.
-/

namespace TaggedValue.Text

/-- The capital form of a character, exact wherever it lies within ASCII. Every other character
beyond ASCII stays itself: its capital form also holds a character beyond ASCII, so no ASCII name
is reached either way. -/
def capital (c : Char) : List Char :=
  match c with
  | 'ı' => ['I']
  | 'ſ' => ['S']
  | 'ß' => ['S', 'S']
  | 'ﬀ' => ['F', 'F']
  | 'ﬁ' => ['F', 'I']
  | 'ﬂ' => ['F', 'L']
  | 'ﬃ' => ['F', 'F', 'I']
  | 'ﬄ' => ['F', 'F', 'L']
  | 'ﬅ' => ['S', 'T']
  | 'ﬆ' => ['S', 'T']
  | c => [c.toUpper]

def capitals (s : String) : String := String.ofList (s.toList.flatMap capital)

end TaggedValue.Text
