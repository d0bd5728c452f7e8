/-!
# Where one text occurs in another

The search goes along the UTF-8 bytes of both texts. Offsets count code points: those that begin
before the byte at which the search stops. The first place wins.
-/

namespace TaggedValue.Text

/-- The first offset at which a block stands in a list. The empty block stands at 0. -/
def findBlock {α : Type} [BEq α] (block : List α) : List α → Option Nat
  | [] => if block.isEmpty then some 0 else none
  | a :: as =>
      if block.isPrefixOf (a :: as) then some 0 else (findBlock block as).map (· + 1)

/-- Characters in UTF-8. -/
def bytes (cs : List Char) : List UInt8 := cs.flatMap String.utf8EncodeChar

/-- How many characters begin in a row of bytes. -/
def countStarts (bs : List UInt8) : Nat := bs.countP fun b => b.IsUTF8FirstByte

/-- The first offset at which the needle stands in the text. -/
def findOffset (needle text : List Char) : Option Nat :=
  (findBlock (bytes needle) (bytes text)).map fun n => countStarts ((bytes text).take n)

end TaggedValue.Text
