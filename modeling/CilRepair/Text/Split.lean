/-!
# Splitting and trimming text

Text as a list of characters: cutting it at a separator, trimming blanks off its ends, and looking
for one text inside another.

## Main definitions

* `isBlank`: the characters with the Unicode property `White_Space`.
* `trim`: text without the blanks at its ends.
* `splitAtEach`: the pieces between separators; there is always at least one.
* `containsText`, `startsWithText`: substring and beginning.
-/

namespace CilRepair

/-- The characters with the Unicode property `White_Space`. -/
def isBlank (c : Char) : Bool :=
  let n := c.toNat
  (9 ≤ n && n ≤ 13) || n == 0x20 || n == 0x85 || n == 0xA0 || n == 0x1680
    || (0x2000 ≤ n && n ≤ 0x200A) || n == 0x2028 || n == 0x2029 || n == 0x202F || n == 0x205F
    || n == 0x3000

/-- Without the blanks at the end. -/
def trimEnd (cs : List Char) : List Char := (cs.reverse.dropWhile isBlank).reverse

/-- Without the blanks at either end. -/
def trim (cs : List Char) : List Char := trimEnd (cs.dropWhile isBlank)

/-- Text without the blanks at either end. -/
def trimText (s : String) : String := String.ofList (trim s.toList)

/-- **The pieces between separators.** Two neighbouring separators have an empty piece between
them, and so has an end of the text that is a separator. -/
def splitAtEach (separator : Char) : List Char → List (List Char)
  | [] => [[]]
  | c :: cs =>
    if c = separator then [] :: splitAtEach separator cs
    else match splitAtEach separator cs with
      | [] => [[c]]
      | piece :: pieces => (c :: piece) :: pieces

/-- Pieces put together again with a separator in between. -/
def joinWith (separator : List Char) : List (List Char) → List Char
  | [] => []
  | [piece] => piece
  | piece :: pieces => piece ++ separator ++ joinWith separator pieces

/-- The pieces of a text. -/
def splitText (separator : Char) (s : String) : List String :=
  (splitAtEach separator s.toList).map String.ofList

/-- One list of characters occurs inside another, the empty one in every. -/
def containsChars (needle : List Char) : List Char → Bool
  | [] => needle.isEmpty
  | c :: cs => needle.isPrefixOf (c :: cs) || containsChars needle cs

/-- A text occurs inside another. -/
def containsText (needle s : String) : Bool := containsChars needle.toList s.toList

/-- A text begins with another. -/
def startsWithText (start s : String) : Bool := start.toList.isPrefixOf s.toList

/-- ASCII letters in lower case; every other character stays. -/
def lowerAscii (s : String) : String := String.ofList (s.toList.map Char.toLower)

/-- Equality up to the case of ASCII letters. -/
def sameIgnoringCase (a b : String) : Bool := lowerAscii a == lowerAscii b

end CilRepair
