/-!
# UTF-8

Bytes as characters. A byte that belongs to no character is kept as a gap, so that a reader can pass
over it where the text does not matter.

## Main definitions

* `Bytes`, `utf8`: the bytes of a text.
* `firstChar?`: the character at the start of some bytes. A candidate is computed from the bits and
  accepted only if its encoding is what stands there, which leaves no room for overlong forms.
* `glyphs`: all characters, with `none` for each byte that belongs to none.
* `showBytes`: bytes as text for display, with a replacement character for each broken sequence.
-/

namespace CilRepair

/-- A sequence of bytes. -/
abbrev Bytes := List UInt8

/-- The encoding of a text. -/
def utf8 (s : String) : Bytes := s.toList.flatMap String.utf8EncodeChar

/-- The low six bits of a byte. -/
def lowSix (b : UInt8) : Nat := b.toNat % 64

/-- The code point that the bits of some bytes spell, by the length that the first one announces. -/
def candidatePoint? : Bytes → Option Nat
  | [] => none
  | a :: rest =>
    let n := a.toNat
    if n < 0x80 then some n
    else if n < 0xE0 then
      match rest with
      | b :: _ => some (n % 32 * 64 + lowSix b)
      | _ => none
    else if n < 0xF0 then
      match rest with
      | b :: c :: _ => some ((n % 16 * 64 + lowSix b) * 64 + lowSix c)
      | _ => none
    else
      match rest with
      | b :: c :: d :: _ => some (((n % 8 * 64 + lowSix b) * 64 + lowSix c) * 64 + lowSix d)
      | _ => none

/-- **The character at the start of some bytes.** -/
def firstChar? (bytes : Bytes) : Option Char :=
  match candidatePoint? bytes with
  | none => none
  | some n =>
    let c := Char.ofNat n
    if (String.utf8EncodeChar c).isPrefixOf bytes then some c else none

/-- The characters of some bytes after `skip` of them have been passed over. -/
def glyphsAfter : (skip : Nat) → Bytes → List (Option Char)
  | _, [] => []
  | skip + 1, _ :: rest => glyphsAfter skip rest
  | 0, b :: rest =>
    match firstChar? (b :: rest) with
    | some c => some c :: glyphsAfter ((String.utf8EncodeChar c).length - 1) rest
    | none => none :: glyphsAfter 0 rest

/-- **The characters of some bytes,** with a gap for each byte that belongs to none. -/
def glyphs (bytes : Bytes) : List (Option Char) := glyphsAfter 0 bytes

/-- The text of some bytes, if they are an encoding. -/
def decodeUtf8? (bytes : Bytes) : Option String :=
  ((glyphs bytes).mapM id).map String.ofList

/-! ### Display of broken text -/

/-- The second byte may follow the first in an encoding. -/
def mayFollow (first second : UInt8) : Bool :=
  let n := second.toNat
  let low := if first = 0xE0 then 0xA0 else if first = 0xF0 then 0x90 else 0x80
  let high := if first = 0xED then 0x9F else if first = 0xF4 then 0x8F else 0xBF
  0xC2 ≤ first.toNat && first.toNat ≤ 0xF4 && low ≤ n && n ≤ high

/-- The bytes of a broken sequence that are replaced together: as many as could begin a
character. -/
def brokenLength : Bytes → Nat
  | a :: b :: c :: _ =>
    if mayFollow a b then
      if 0xF0 ≤ a.toNat && c.toNat / 64 = 2 then 3 else if 0xE0 ≤ a.toNat then 2 else 1
    else 1
  | [a, b] => if mayFollow a b && 0xE0 ≤ a.toNat then 2 else 1
  | _ => 1

/-- The display of some bytes after `skip` of them have been passed over. -/
def showAfter : (skip : Nat) → Bytes → List Char
  | _, [] => []
  | skip + 1, _ :: rest => showAfter skip rest
  | 0, b :: rest =>
    match firstChar? (b :: rest) with
    | some c => c :: showAfter ((String.utf8EncodeChar c).length - 1) rest
    | none => '\uFFFD' :: showAfter (brokenLength (b :: rest) - 1) rest

/-- Bytes as text for display. -/
def showBytes (bytes : Bytes) : String := String.ofList (showAfter 0 bytes)

end CilRepair
