import CilRepair.Json.Basic
import CilRepair.Text.Utf8

/-!
# Reading JSON

A strict reader: no comments, no trailing commas, no leading zeros, no control characters inside
literals, nothing but blanks around the value. It takes a list of characters in which a gap stands
for a byte that belongs to no character; a gap is allowed inside a literal, which then spells no
text.

## Main definitions

* `Glyphs`: what is read.
* `Json.readValue`: a value at the start of the input, and what follows it. The fuel bounds the
  nesting of calls; the length of the input is always enough.
* `Json.read?`: a whole document.
-/

namespace CilRepair

/-- Characters, and gaps for bytes that belong to none. -/
abbrev Glyphs := List (Option Char)

/-- Blanks between tokens. -/
def isJsonBlank (c : Char) : Bool := c == ' ' || c == '\n' || c == '\t' || c == '\r'

/-- The input from the first character on that is no blank. -/
def skipBlanks : Glyphs → Glyphs
  | some c :: rest => if isJsonBlank c then skipBlanks rest else some c :: rest
  | input => input

/-- The input behind a given text. -/
def expect? : List Char → Glyphs → Option Glyphs
  | [], input => some input
  | c :: cs, some d :: rest => if c = d then expect? cs rest else none
  | _ :: _, _ => none

/-! ### Literals -/

/-- A part of a literal: a character, half of a surrogate pair, or a gap. -/
inductive LiteralUnit
  | char (c : Char)
  | half (code : Nat)
  | gap
  deriving DecidableEq

/-- The value of a hexadecimal digit of either case. -/
def hexValue? (c : Char) : Option Nat :=
  if '0' ≤ c ∧ c ≤ '9' then some (c.toNat - 48)
  else if 'a' ≤ c ∧ c ≤ 'f' then some (c.toNat - 87)
  else if 'A' ≤ c ∧ c ≤ 'F' then some (c.toNat - 55)
  else none

/-- The code unit that four hexadecimal digits spell. -/
def codeUnit? (a b c d : Char) : Option Nat := do
  let a ← hexValue? a
  let b ← hexValue? b
  let c ← hexValue? c
  let d ← hexValue? d
  return ((a * 16 + b) * 16 + c) * 16 + d

/-- The character or half pair of a code unit. -/
def unitOf (code : Nat) : LiteralUnit :=
  if 0xD800 ≤ code ∧ code < 0xE000 then .half code else .char (Char.ofNat code)

/-- The character of an escape with a single letter. -/
def shortEscape? (c : Char) : Option Char :=
  if c = '"' then some '"'
  else if c = '\\' then some '\\'
  else if c = '/' then some '/'
  else if c = 'b' then some '\x08'
  else if c = 'f' then some '\x0c'
  else if c = 'n' then some '\n'
  else if c = 'r' then some '\r'
  else if c = 't' then some '\t'
  else none

/-- **The parts of a literal up to its closing quote,** and the input behind it. -/
def readUnits? : Glyphs → Option (List LiteralUnit × Glyphs)
  | [] => none
  | none :: rest => (readUnits? rest).map fun (units, rest) => (.gap :: units, rest)
  | some '"' :: rest => some ([], rest)
  | some '\\' :: some 'u' :: some a :: some b :: some c :: some d :: rest =>
    match codeUnit? a b c d with
    | some code => (readUnits? rest).map fun (units, rest) => (unitOf code :: units, rest)
    | none => none
  | some '\\' :: some e :: rest =>
    match shortEscape? e with
    | some c => (readUnits? rest).map fun (units, rest) => (.char c :: units, rest)
    | none => none
  | some c :: rest =>
    if c = '\\' ∨ c.toNat < 32 then none
    else (readUnits? rest).map fun (units, rest) => (.char c :: units, rest)

/-- The character of a surrogate pair. -/
def pairChar (high low : Nat) : Char :=
  Char.ofNat (0x10000 + (high - 0xD800) * 0x400 + (low - 0xDC00))

/-- The text of the parts of a literal. There is none if a half is left without its partner or if
there is a gap. -/
def unitsText? : List LiteralUnit → Option (List Char)
  | [] => some []
  | .char c :: rest => (unitsText? rest).map (c :: ·)
  | .half high :: .half low :: rest =>
    if high < 0xDC00 ∧ 0xDC00 ≤ low then (unitsText? rest).map (pairChar high low :: ·) else none
  | _ => none

/-- A literal behind its opening quote. -/
def readLiteral? (input : Glyphs) : Option (Option String × Glyphs) :=
  (readUnits? input).map fun (units, rest) => ((unitsText? units).map String.ofList, rest)

/-! ### Numbers -/

/-- The digits at the start of the input. -/
def readDigits : Glyphs → List Digit × Glyphs
  | some c :: rest =>
    match Digit.ofChar? c with
    | some d => let (digits, rest) := readDigits rest; (d :: digits, rest)
    | none => ([], some c :: rest)
  | input => ([], input)

/-- The digits in front of the point: a zero by itself, or digits that do not begin with one. -/
def readWhole? (input : Glyphs) : Option (Nat × Glyphs) :=
  match readDigits input with
  | ([], _) => none
  | (d :: digits, rest) =>
    if d = .zero ∧ digits ≠ [] then none else some (ofDecimal (d :: digits), rest)

/-- The digits behind the point, if there is one; at least one digit follows it. -/
def readFraction? : Glyphs → Option (List Digit × Glyphs)
  | some '.' :: rest =>
    match readDigits rest with
    | ([], _) => none
    | (digits, rest) => some (digits, rest)
  | input => some ([], input)

/-- The sign of an exponent. -/
def readSign : Glyphs → Bool × Glyphs
  | some '-' :: rest => (true, rest)
  | some '+' :: rest => (false, rest)
  | input => (false, input)

/-- The exponent, if there is one; at least one digit belongs to it. -/
def readExponent? : Glyphs → Option (Option Int × Glyphs)
  | some c :: rest =>
    if c = 'e' ∨ c = 'E' then
      let (negative, rest) := readSign rest
      match readDigits rest with
      | ([], _) => none
      | (digits, rest) =>
        let size : Int := ofDecimal digits
        some (some (if negative then -size else size), rest)
    else some (none, some c :: rest)
  | input => some (none, input)

/-- **A number.** -/
def readNumber? (input : Glyphs) : Option (JsonNumber × Glyphs) := do
  let (negative, rest) := match input with
    | some '-' :: rest => (true, rest)
    | _ => (false, input)
  let (whole, rest) ← readWhole? rest
  let (fraction, rest) ← readFraction? rest
  let (exponent, rest) ← readExponent? rest
  return (⟨negative, whole, fraction, exponent⟩, rest)

/-! ### Values -/

namespace Json

mutual

/-- **A value at the start of the input,** and what follows it. -/
def readValue (fuel : Nat) (input : Glyphs) : Option (Json × Glyphs) :=
  match fuel with
  | 0 => none
  | fuel + 1 =>
    match input with
    | some 'n' :: rest => (expect? ['u', 'l', 'l'] rest).map (null, ·)
    | some 't' :: rest => (expect? ['r', 'u', 'e'] rest).map (bool true, ·)
    | some 'f' :: rest => (expect? ['a', 'l', 's', 'e'] rest).map (bool false, ·)
    | some '"' :: rest => (readLiteral? rest).map fun (text, rest) => (string text, rest)
    | some '[' :: rest =>
      match skipBlanks rest with
      | some ']' :: rest => some (array [], rest)
      | rest => (readItems fuel rest).map fun (items, rest) => (array items, rest)
    | some '\x7b' :: rest =>
      match skipBlanks rest with
      | some '\x7d' :: rest => some (object [], rest)
      | rest => (readMembers fuel rest).map fun (members, rest) => (object members, rest)
    | _ => (readNumber? input).map fun (value, rest) => (number value, rest)

/-- The items of an array from one of them on, up to the closing bracket. -/
def readItems (fuel : Nat) (input : Glyphs) : Option (List Json × Glyphs) :=
  match fuel with
  | 0 => none
  | fuel + 1 =>
    match readValue fuel input with
    | none => none
    | some (item, rest) =>
      match skipBlanks rest with
      | some ']' :: rest => some ([item], rest)
      | some ',' :: rest =>
        (readItems fuel (skipBlanks rest)).map fun (items, rest) => (item :: items, rest)
      | _ => none

/-- The members of an object from one of them on, up to the closing brace. -/
def readMembers (fuel : Nat) (input : Glyphs) : Option (List (Option String × Json) × Glyphs) :=
  match fuel with
  | 0 => none
  | fuel + 1 =>
    match input with
    | some '"' :: rest =>
      match readLiteral? rest with
      | none => none
      | some (key, rest) =>
        match skipBlanks rest with
        | some ':' :: rest =>
          match readValue fuel (skipBlanks rest) with
          | none => none
          | some (value, rest) =>
            match skipBlanks rest with
            | some '\x7d' :: rest => some ([(key, value)], rest)
            | some ',' :: rest =>
              (readMembers fuel (skipBlanks rest)).map fun (members, rest) =>
                ((key, value) :: members, rest)
            | _ => none
        | _ => none
    | _ => none

end

/-- **A whole document:** one value with nothing but blanks around it. -/
def read? (input : Glyphs) : Option Json :=
  match readValue (2 * input.length + 1) (skipBlanks input) with
  | some (value, rest) => if (skipBlanks rest).isEmpty then some value else none
  | none => none

/-- The document that some bytes spell. -/
def ofBytes? (bytes : Bytes) : Option Json := read? (glyphs bytes)

end Json

end CilRepair
