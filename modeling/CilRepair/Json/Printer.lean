import CilRepair.Json.Basic

/-!
# Writing JSON

## Main definitions

* `Json.compact`: without any blank.
* `Json.pretty`: an item or member per line, two blanks of indentation for each container.

Strings escape quotes, backslashes and control characters and leave all else as it is. A literal
that spells no text is written as half of a surrogate pair.
-/

namespace CilRepair

/-- The escape of a control character that has no short one. -/
def unicodeEscape (c : Char) : List Char := '\\' :: 'u' :: hexDigits 4 c.toNat

/-- A character inside a literal. -/
def escapeChar (c : Char) : List Char :=
  if c = '"' then ['\\', '"']
  else if c = '\\' then ['\\', '\\']
  else if c = '\n' then ['\\', 'n']
  else if c = '\r' then ['\\', 'r']
  else if c = '\t' then ['\\', 't']
  else if c.toNat = 8 then ['\\', 'b']
  else if c.toNat = 12 then ['\\', 'f']
  else if c.toNat < 32 then unicodeEscape c
  else [c]

/-- The inside of a literal. -/
def literalChars : Option String → List Char
  | some s => s.toList.flatMap escapeChar
  | none => ['\\', 'u', 'd', '8', '0', '0']

/-- A literal. -/
def quoted (text : Option String) : List Char := '"' :: (literalChars text ++ ['"'])

namespace JsonNumber

/-- An exponent with its sign. -/
def exponentChars (exponent : Int) : List Char :=
  'e' :: (if exponent < 0 then '-' else '+') :: digitChars (toDecimal exponent.natAbs)

/-- **A number, as it is written.** -/
def chars (n : JsonNumber) : List Char :=
  (if n.negative then ['-'] else []) ++ digitChars (toDecimal n.whole)
    ++ (if n.fraction.isEmpty then [] else '.' :: digitChars n.fraction)
    ++ (match n.exponent with
      | some exponent => exponentChars exponent
      | none => [])

end JsonNumber

namespace Json

mutual

/-- A value without blanks. -/
def compactChars : Json → List Char
  | null => ['n', 'u', 'l', 'l']
  | bool true => ['t', 'r', 'u', 'e']
  | bool false => ['f', 'a', 'l', 's', 'e']
  | number value => value.chars
  | string text => quoted text
  | array items => '[' :: (compactItems items ++ [']'])
  | object members => '\x7b' :: (compactMembers members ++ ['\x7d'])

/-- Items with commas in between. -/
def compactItems : List Json → List Char
  | [] => []
  | [item] => item.compactChars
  | item :: rest => item.compactChars ++ ',' :: compactItems rest

/-- Members with commas in between. -/
def compactMembers : List (Option String × Json) → List Char
  | [] => []
  | [(key, value)] => quoted key ++ ':' :: value.compactChars
  | (key, value) :: rest => quoted key ++ ':' :: (value.compactChars ++ ',' :: compactMembers rest)

end

/-- **The text without blanks.** -/
def compact (value : Json) : String := String.ofList value.compactChars

/-- A line break and the indentation of a level. -/
def lineBreak (level : Nat) : List Char := '\n' :: List.replicate (2 * level) ' '

mutual

/-- A value whose containers have a line for each item or member. -/
def prettyChars (level : Nat) : Json → List Char
  | array [] => ['[', ']']
  | array items => '[' :: (prettyItems (level + 1) items ++ lineBreak level ++ [']'])
  | object [] => ['\x7b', '\x7d']
  | object members => '\x7b' :: (prettyMembers (level + 1) members ++ lineBreak level ++ ['\x7d'])
  | null => ['n', 'u', 'l', 'l']
  | bool true => ['t', 'r', 'u', 'e']
  | bool false => ['f', 'a', 'l', 's', 'e']
  | number value => value.chars
  | string text => quoted text

/-- Items, each on a line of its own. -/
def prettyItems (level : Nat) : List Json → List Char
  | [] => []
  | [item] => lineBreak level ++ item.prettyChars level
  | item :: rest => lineBreak level ++ item.prettyChars level ++ ',' :: prettyItems level rest

/-- Members, each on a line of its own. -/
def prettyMembers (level : Nat) : List (Option String × Json) → List Char
  | [] => []
  | [(key, value)] => lineBreak level ++ quoted key ++ ':' :: ' ' :: value.prettyChars level
  | (key, value) :: rest =>
    lineBreak level ++ quoted key
      ++ ':' :: ' ' :: (value.prettyChars level ++ ',' :: prettyMembers level rest)

end

/-- **The text with a line for each item or member.** -/
def pretty (value : Json) : String := String.ofList (value.prettyChars 0)

end Json

end CilRepair
