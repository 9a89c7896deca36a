import CilRepair.Decimal.Digits

/-!
# Tokens and type signatures

What instructions and methods refer to outside of a body: rows of the metadata tables, by tokens,
and the types of locals, parameters and results.

## Main definitions

* `Token`: a row of a table, with the table in the high byte and the row in the three others.
* `TypeSig`: a type; `TypeSig.name?` is the name in it that a renaming may have to follow.
-/

namespace CilRepair

/-! ### Tokens -/

/-- A row of a metadata table. -/
structure Token where
  value : UInt32
  deriving DecidableEq

namespace Token

/-- The table whose rows are methods. -/
def methodTable : UInt8 := 0x06

/-- The token of a row; a row number too large for three bytes loses its high byte. -/
def ofParts (table : UInt8) (row : UInt32) : Token :=
  ⟨table.toUInt32 <<< 24 ||| row &&& 0x00FFFFFF⟩

/-- The table. -/
def table (t : Token) : UInt8 := (t.value >>> 24).toUInt8

/-- The row. -/
def row (t : Token) : UInt32 := t.value &&& 0x00FFFFFF

/-- The token that names nothing. -/
def isNull (t : Token) : Bool := t.value == 0

/-- The token names a method. -/
def isMethod (t : Token) : Bool := t.table == methodTable

/-- Eight hexadecimal digits. -/
def text (t : Token) : String := "0x" ++ hexText 8 t.value.toNat

/-- The token with its parts. -/
def detail (t : Token) : String :=
  "Token(" ++ t.text ++ ", table: 0x" ++ hexText 2 t.table.toNat ++ ", row: "
    ++ natText t.row.toNat ++ ")"

end Token

/-! ### Type signatures -/

/-- A type signature. -/
inductive TypeSig
  | void | bool | i4 | i8 | r8 | string | object
  | array (element : TypeSig)
  | named (name : String)
  deriving DecidableEq, Inhabited

namespace TypeSig

/-- The full name of the type. -/
def fullName : TypeSig → String
  | void => "System.Void"
  | bool => "System.Boolean"
  | i4 => "System.Int32"
  | i8 => "System.Int64"
  | r8 => "System.Double"
  | string => "System.String"
  | object => "System.Object"
  | array element => element.fullName ++ "[]"
  | named name => name

/-- The type of a program's arguments. -/
def isStringArray : TypeSig → Bool
  | array string => true
  | _ => false

/-- The name inside a signature, replaced. A signature holds at most one. -/
def mapName (f : String → String) : TypeSig → TypeSig
  | array element => array (element.mapName f)
  | named name => named (f name)
  | sig => sig

/-- The name inside a signature, at any depth of arrays. -/
def name? : TypeSig → Option String
  | array element => element.name?
  | named name => some name
  | _ => none

end TypeSig

end CilRepair
