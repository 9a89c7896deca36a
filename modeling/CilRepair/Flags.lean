import CilRepair.Decimal.Digits
import CilRepair.Text.Split

/-!
# Flag sets

Sets of named bits and their text. A set may hold bits without a name; none is ever lost.

## Main definitions

* `FlagTable`: the names of a family of flags, in the order in which they are printed.
* `FlagTable.render`: names joined by ` | `, with the nameless rest in hexadecimal.
* `FlagTable.parse?`: the text read back; blanks around a name do not matter.
* `MethodAccess`, `MethodModifiers`, `TypeFlags`, `HandlerFlags`: the four families.
-/

namespace CilRepair

/-- Names of bits, in the order in which they are printed, and the number of bits of the family. -/
structure FlagTable where
  width : Nat
  names : List (String × Nat)

namespace FlagTable

/-- The names that a value is printed with, and the bits that no name accounts for. A name is
printed if the value has all its bits and some of them are still unaccounted for. -/
def cover (value : Nat) : List (String × Nat) → (remaining : Nat) → List String × Nat
  | [], remaining => ([], remaining)
  | (name, bits) :: names, remaining =>
    if remaining ≠ 0 ∧ value &&& bits = bits ∧ remaining &&& bits ≠ 0 then
      let (rest, left) := cover value names (remaining - (remaining &&& bits))
      (name :: rest, left)
    else cover value names remaining

/-- **The text of a flag set.** -/
def render (table : FlagTable) (value : Nat) : String :=
  let (names, left) := cover value table.names value
  let pieces := if left = 0 then names else names ++ ["0x" ++ hexText 1 left]
  " | ".intercalate pieces

/-- A hexadecimal digit of either case. -/
def hexDigit? (c : Char) : Option Nat :=
  if '0' ≤ c ∧ c ≤ '9' then some (c.toNat - 48)
  else if 'a' ≤ c ∧ c ≤ 'f' then some (c.toNat - 87)
  else if 'A' ≤ c ∧ c ≤ 'F' then some (c.toNat - 55)
  else none

/-- The number that hexadecimal digits spell, if there are no other characters. -/
def hexNumber? (cs : List Char) : Option Nat :=
  cs.foldlM (fun n c => (hexDigit? c).map (16 * n + ·)) 0

/-- A hexadecimal number below a limit: at least one digit, after a plus sign or none. -/
def hexBits? (limit : Nat) (cs : List Char) : Option Nat :=
  let digits := match cs with
    | '+' :: rest => rest
    | _ => cs
  if digits.isEmpty then none
  else (hexNumber? digits).filter (· < limit)

/-- The bits of one piece of text: a number after `0x`, else a name. -/
def piece? (table : FlagTable) (cs : List Char) : Option Nat :=
  match cs with
  | [] => none
  | '0' :: 'x' :: digits => hexBits? (Nat.pow 2 table.width) digits
  | _ => (table.names.find? (·.1 == String.ofList cs)).map (·.2)

/-- **The set that a text spells.** A blank text spells the empty set. -/
def parse? (table : FlagTable) (text : String) : Option Nat :=
  let cs := text.toList
  if (trim cs).isEmpty then some 0
  else
    let join (bits : Nat) (piece : List Char) := (table.piece? (trim piece)).map (bits ||| ·)
    (splitAtEach '|' cs).foldlM join 0

end FlagTable

/-! ### The four families -/

/-- Who may call a method. The low three bits are one number, so that names share bits. -/
structure MethodAccess where
  bits : UInt16
  deriving DecidableEq

/-- The modifiers of a method. -/
structure MethodModifiers where
  bits : UInt16
  deriving DecidableEq

/-- The attributes of a type. The low three bits are one number, the visibility. -/
structure TypeFlags where
  bits : UInt32
  deriving DecidableEq

/-- The kind of an exception handler. -/
structure HandlerFlags where
  bits : UInt16
  deriving DecidableEq

namespace MethodAccess

/-- The names of the accesses. -/
def table : FlagTable :=
  ⟨16, [("COMPILER_CONTROLLED", 0), ("PRIVATE", 1), ("FAM_AND_ASSEM", 2), ("ASSEM", 3),
    ("FAMILY", 4), ("FAM_OR_ASSEM", 5), ("PUBLIC", 6)]⟩

/-- Callable from the type itself only. -/
def withinType : MethodAccess := ⟨1⟩

/-- Callable from everywhere. -/
def everyone : MethodAccess := ⟨6⟩

/-- The access part of a method's flag word. -/
def ofMethodFlags (word : UInt16) : MethodAccess := ⟨word &&& 7⟩

end MethodAccess

namespace MethodModifiers

/-- The names of the modifiers. -/
def table : FlagTable :=
  ⟨16, [("STATIC", 0x10), ("FINAL", 0x20), ("VIRTUAL", 0x40), ("HIDE_BY_SIG", 0x80),
    ("NEW_SLOT", 0x100), ("STRICT", 0x200), ("ABSTRACT", 0x400), ("SPECIAL_NAME", 0x800),
    ("RTSPECIAL_NAME", 0x1000), ("PINVOKE_IMPL", 0x2000), ("HAS_SECURITY", 0x4000)]⟩

/-- No modifier. -/
def empty : MethodModifiers := ⟨0⟩

/-- The modifier part of a method's flag word: the named bits outside the access part. -/
def ofMethodFlags (word : UInt16) : MethodModifiers := ⟨word &&& 0x7FF0⟩

/-- Some bit of a mask is set. -/
def intersects (flags : MethodModifiers) (mask : UInt16) : Bool := flags.bits &&& mask != 0

end MethodModifiers

namespace TypeFlags

/-- The names of the type attributes. -/
def table : FlagTable :=
  ⟨32, [("NOT_PUBLIC", 0), ("PUBLIC", 1), ("NESTED_PUBLIC", 2), ("NESTED_PRIVATE", 3),
    ("INTERFACE", 0x20), ("ABSTRACT", 0x80), ("SEALED", 0x100), ("SPECIAL_NAME", 0x400),
    ("SERIALIZABLE", 0x2000), ("RTSPECIAL_NAME", 0x800)]⟩

/-- No attribute. -/
def empty : TypeFlags := ⟨0⟩

/-- The visibility is exactly public. -/
def isPublic (flags : TypeFlags) : Bool := flags.bits &&& 7 == 1

/-- The name is reserved for the runtime or for tools. -/
def isSpecialName (flags : TypeFlags) : Bool := flags.bits &&& 0xC00 != 0

end TypeFlags

namespace HandlerFlags

/-- The names of the handler kinds. -/
def table : FlagTable := ⟨16, [("EXCEPTION", 0), ("FILTER", 1), ("FINALLY", 2), ("FAULT", 4)]⟩

/-- A catch clause. -/
def catchClause : HandlerFlags := ⟨0⟩

/-- A clause with a filter. -/
def filterClause : HandlerFlags := ⟨1⟩

/-- A finally clause. -/
def finallyClause : HandlerFlags := ⟨2⟩

/-- The clause has a filter. -/
def isFilter (flags : HandlerFlags) : Bool := flags.bits &&& 1 == 1

/-- The handler is entered without an exception on the stack: a finally or a fault clause. -/
def entersEmpty (flags : HandlerFlags) : Bool := flags.bits &&& 6 != 0

end HandlerFlags

end CilRepair
