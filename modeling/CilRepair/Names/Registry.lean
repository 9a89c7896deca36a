import CilRepair.Decimal.Digits

/-!
# Unique names

A registry gives out names that were neither given out nor reserved before. A name is drawn letter
by letter; if too many draws in a row are taken, the last one gets a number of four digits.

## Main definitions

* `DrawSource`: a state from which letters and suffixes are drawn. Nothing is assumed about the
  choices, so that what is said of all sources holds whatever the randomness.
* `alphabet`, `letterChar`: the letters.
* `NameRegistry`: the names in use, the source of draws, and how names are drawn.
* `NameRegistry.generate?`: a new name. Numbers are drawn until one is free, and a registry in which
  all numbers of a name are in use never finds one; therefore the draws of numbers are bounded by
  the `patience`, and no name is given when it runs out.
* `NameRegistry.generateAll?`: several names.
* `NameRegistry.reserve`, `NameRegistry.contains`, `NameRegistry.reset`.
-/

namespace CilRepair

/-! ### Draws -/

/-- **A state from which letters and suffixes are drawn.** A letter is an index into the alphabet, a
suffix counts from the least number of four digits. -/
class DrawSource (σ : Type) where
  letter : σ → Fin 52 × σ
  suffix : σ → Fin 9000 × σ

/-- The letters, capitals first. -/
def alphabet : List Char := "ABCDEFGHIJKLMNOPQRSTUVWXYZabcdefghijklmnopqrstuvwxyz".toList

/-- The letter of an index. -/
def letterChar (index : Fin 52) : Char :=
  if index.val < 26 then Char.ofNat (65 + index.val) else Char.ofNat (71 + index.val)

/-- The letter of an index is the one at that place of the alphabet. -/
theorem alphabet_getElem? (index : Fin 52) : alphabet[index.val]? = some (letterChar index) := by
  revert index
  decide

/-- The number of a suffix has four digits. -/
def suffixNumber (index : Fin 9000) : Nat := 1000 + index.val

/-! ### Registries -/

/-- **The names in use, and how new ones are drawn.** A name has at least one letter, and at least
one draw is made for it. -/
structure NameRegistry (σ : Type) where
  used : List String
  source : σ
  length : Nat
  attempts : Nat
  length_pos : 0 < length
  attempts_pos : 0 < attempts

namespace NameRegistry

/-- The number of letters of a name. -/
def defaultLength : Nat := 8

/-- The number of draws before a number is appended. -/
def defaultAttempts : Nat := 1000

/-- How many numbers are drawn for a name before it is given up. Even with a single free number the
chance that this many draws miss it is below one in a billion. -/
def defaultPatience : Nat := 262144

variable {σ : Type}

/-- No name in use. A length or number of draws of zero counts as one. -/
def new (source : σ) (length attempts : Nat) : NameRegistry σ :=
  ⟨[], source, max 1 length, max 1 attempts, by omega, by omega⟩

/-- The name is in use. -/
def contains (r : NameRegistry σ) (name : String) : Bool := r.used.contains name

/-- The number of names in use. -/
def size (r : NameRegistry σ) : Nat := r.used.length

/-- A name put into use, and whether it was free. The empty name never is. -/
def reserve (r : NameRegistry σ) (name : String) : Bool × NameRegistry σ :=
  if name.isEmpty || r.contains name then (false, r) else (true, { r with used := name :: r.used })

/-- No name in use any more. The source goes on where it was. -/
def reset (r : NameRegistry σ) : NameRegistry σ := { r with used := [] }

/-! ### Drawing -/

variable [DrawSource σ]

/-- Some letters. -/
def drawLetters : Nat → σ → List Char × σ
  | 0, s => ([], s)
  | n + 1, s =>
    let (index, s) := DrawSource.letter s
    let (letters, s) := drawLetters n s
    (letterChar index :: letters, s)

/-- A name of some letters. -/
def drawName (length : Nat) (s : σ) : String × σ :=
  let (letters, s) := drawLetters length s
  (String.ofList letters, s)

/-- What a series of draws ended with: a free name, or a name that is taken like all before it. -/
inductive Drawn
  | free (name : String)
  | taken (name : String)

/-- Names drawn until one is free, at most `attempts` after a first one. -/
def drawUntilFree (used : List String) (length : Nat) : (attempts : Nat) → σ → Drawn × σ
  | attempts, s =>
    let (name, s) := drawName length s
    if used.contains name then
      match attempts with
      | 0 => (.taken name, s)
      | attempts + 1 => drawUntilFree used length attempts s
    else (.free name, s)

/-- **Numbers appended to a name until the result is free.** -/
def appendNumber? (used : List String) (name : String) : (patience : Nat) → σ → Option (String × σ)
  | 0, _ => none
  | patience + 1, s =>
    let (index, s) := DrawSource.suffix s
    let candidate := name ++ natText (suffixNumber index)
    if used.contains candidate then appendNumber? used name patience s else some (candidate, s)

/-- **A new name,** put into use. -/
def generate? (r : NameRegistry σ) (patience : Nat) : Option (String × NameRegistry σ) :=
  let (drawn, source) := drawUntilFree r.used r.length (r.attempts - 1) r.source
  let found? := match drawn with
    | .free name => some (name, source)
    | .taken name => appendNumber? r.used name patience source
  found?.map fun (name, source) => (name, { r with used := name :: r.used, source })

/-- **Several new names,** in the order in which they are drawn. -/
def generateAll? (patience : Nat) : Nat → NameRegistry σ → Option (List String × NameRegistry σ)
  | 0, r => some ([], r)
  | n + 1, r => do
    let (name, r) ← r.generate? patience
    let (names, r) ← generateAll? patience n r
    return (name :: names, r)

end NameRegistry

end CilRepair
