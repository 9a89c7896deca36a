import CilRepair.Text.Utf8

/-!
# Text without control sequences

What is shown of a text where nothing understands control sequences. Control characters are passed
over, but for blanks and line breaks, and so is everything that belongs to an escape sequence, a
control sequence, a device control string or a system command. A sequence that is left open takes
the rest of the text with it.

## Main definitions

* `SequencePhase`, `SequencePhase.next`: where a reader stands in a sequence.
* `Viewer`, `Viewer.step`: a viewer, and whether it shows a character.
* `shownText`: the characters that are shown.
-/

namespace CilRepair

/-- **Where a reader of control sequences stands.** A device control string opens with parameters and
intermediate characters; from its content on it reads like the strings that carry no meaning. A
command ends with a bell. -/
inductive SequencePhase
  | plain
  | escape
  | escapeIntermediate
  | control
  | device
  | deviceParameters
  | deviceIntermediate
  | string
  | command
  deriving DecidableEq

/-- A character between two code points. -/
def isWithin (low high : Nat) (c : Char) : Bool := low ≤ c.toNat && c.toNat ≤ high

/-- A blank or a line break among the control characters. -/
def isLayout (c : Char) : Bool := c == '\t' || c == '\n' || c == '\x0C' || c == '\r'

/-- A character is shown when it stands outside of all sequences. -/
def isVisible (c : Char) : Bool := isWithin 0x20 0x7E c || 0x7F < c.toNat || isLayout c

/-- The terminator of a string as it stands among the bytes of a text. -/
def stringTerminator : UInt8 := 0x9C

namespace SequencePhase

/-- The sequence that a character behind an escape opens. -/
def ofIntroducer (c : Char) : SequencePhase :=
  if isWithin 0x20 0x2F c then escapeIntermediate
  else if c == '[' then control
  else if c == ']' then command
  else if c == 'P' then device
  else if c == 'X' || c == '^' || c == '_' then string
  else if isWithin 0x30 0x7E c then plain
  else escape

/-- **Where a reader stands behind a character.** An escape starts anew and a cancellation ends
everywhere; a final character ends a sequence, and characters that have no place in it are passed
over. -/
def next (phase : SequencePhase) (c : Char) : SequencePhase :=
  if c == '\x1B' then escape
  else if c == '\x18' || c == '\x1A' then plain
  else match phase with
    | plain => plain
    | escape => ofIntroducer c
    | escapeIntermediate => if isWithin 0x30 0x7E c then plain else escapeIntermediate
    | control => if isWithin 0x40 0x7E c then plain else control
    | device =>
      if isWithin 0x20 0x2F c then deviceIntermediate
      else if isWithin 0x30 0x3F c then deviceParameters
      else if isWithin 0x40 0x7E c then string
      else device
    | deviceParameters =>
      if isWithin 0x20 0x2F c then deviceIntermediate
      else if isWithin 0x3C 0x7E c then string
      else deviceParameters
    | deviceIntermediate => if isWithin 0x30 0x7E c then string else deviceIntermediate
    | string => if (String.utf8EncodeChar c).contains stringTerminator then plain else string
    | command => if c == '\x07' then plain else command

/-- A character is shown: any visible one outside of sequences, layout inside of those that are not
strings. -/
def shows (phase : SequencePhase) (c : Char) : Bool :=
  match phase with
  | plain => isVisible c
  | escape | escapeIntermediate | control => isLayout c
  | _ => false

end SequencePhase

/-- **A viewer of a text.** Layout inside a sequence brings the viewer to show what follows, up to
the next control character, where it goes on with the sequence. -/
structure Viewer where
  phase : SequencePhase
  showing : Bool
  deriving DecidableEq

namespace Viewer

/-- A viewer before a text. -/
def start : Viewer := ⟨.plain, false⟩

variable (v : Viewer)

/-- **Whether a character is shown,** and the viewer behind it. A character that takes several bytes
ends a sequence if it is shown. -/
def step (c : Char) : Bool × Viewer :=
  if v.showing && isVisible c then (true, if 0x7F < c.toNat then ⟨.plain, true⟩ else v)
  else
    let shown := !v.showing && v.phase.shows c
    (shown, ⟨v.phase.next c, shown⟩)

/-- The characters that a viewer shows. -/
def shown (v : Viewer) : List Char → List Char
  | [] => []
  | c :: rest =>
    match v.step c with
    | (true, next) => c :: shown next rest
    | (false, next) => shown next rest

end Viewer

/-- **What is shown of a text.** -/
def shownText (s : String) : String := String.ofList (Viewer.start.shown s.toList)

end CilRepair
