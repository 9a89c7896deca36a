import CilRepair.Decimal.Digits

/-!
# JSON values

## Main definitions

* `JsonNumber`: a number as it is written, since its value depends on the type that it is read as.
* `Json`: a value. A string literal can be written correctly and still spell no text, for instance
  if it holds half of a surrogate pair; such a literal is `none`. Members of an object keep their
  order and may repeat.
* `Json.keepLast`: the value in which of repeated members only the last counts.
-/

namespace CilRepair

/-- **A number as it is written.** -/
structure JsonNumber where
  negative : Bool
  whole : Nat
  fraction : List Digit
  exponent : Option Int
  deriving DecidableEq

namespace JsonNumber

/-- The way an integer is written. -/
def ofInt (n : Int) : JsonNumber := ⟨n < 0, n.natAbs, [], none⟩

/-- The integer that is written: no fraction, no exponent, and no minus sign in front of zero. -/
def int? (n : JsonNumber) : Option Int :=
  match n.fraction, n.exponent with
  | [], none =>
    if n.negative then (if n.whole = 0 then none else some (-n.whole)) else some n.whole
  | _, _ => none

theorem int?_ofInt (n : Int) : (ofInt n).int? = some n := by
  show (if decide (n < 0) then
    (if n.natAbs = 0 then none else some (-(n.natAbs : Int))) else some (n.natAbs : Int)) = some n
  rcases Int.lt_or_le n 0 with h | h
  · have hzero : n.natAbs ≠ 0 := by omega
    have habs : -(n.natAbs : Int) = n := by omega
    rw [if_pos (decide_eq_true h), if_neg hzero, habs]
  · have hneg : ¬ (decide (n < 0) = true) := by simp only [decide_eq_true_eq]; omega
    have habs : (n.natAbs : Int) = n := by omega
    rw [if_neg hneg, habs]

end JsonNumber

/-- **A JSON value.** -/
inductive Json
  | null
  | bool (value : Bool)
  | number (value : JsonNumber)
  | string (text : Option String)
  | array (items : List Json)
  | object (members : List (Option String × Json))

namespace Json

/-- A string that spells a text. -/
def text (s : String) : Json := string (some s)

/-- An integer. -/
def int (n : Int) : Json := number (.ofInt n)

/-- A natural number. -/
def nat (n : Nat) : Json := int n

/-- An object whose keys spell texts. -/
def fields (members : List (String × Json)) : Json :=
  object (members.map fun (key, value) => (some key, value))

/-- A value, or `null`. -/
def optional {α : Type} (encode : α → Json) : Option α → Json
  | some a => encode a
  | none => null

instance : Inhabited Json := ⟨null⟩

/-- Members of which none is followed by another with its key. -/
def keepLastMembers : List (Option String × Json) → List (Option String × Json)
  | [] => []
  | member :: rest =>
    let rest := keepLastMembers rest
    if rest.any (·.1 == member.1) then rest else member :: rest

mutual

/-- **Of repeated members only the last counts,** at every depth. -/
def keepLast : Json → Json
  | array items => array (keepLastItems items)
  | object members => object (keepLastMembers (keepLastValues members))
  | value => value

/-- The items of an array, each without repeated members. -/
def keepLastItems : List Json → List Json
  | [] => []
  | item :: rest => item.keepLast :: keepLastItems rest

/-- The members of an object, each value without repeated members. -/
def keepLastValues : List (Option String × Json) → List (Option String × Json)
  | [] => []
  | (key, value) :: rest => (key, value.keepLast) :: keepLastValues rest

end

mutual

/-- The number of containers around the innermost value. -/
def depth : Json → Nat
  | array items => depthItems items + 1
  | object members => depthMembers members + 1
  | _ => 0

/-- The greatest depth in a list. -/
def depthItems : List Json → Nat
  | [] => 0
  | item :: rest => max item.depth (depthItems rest)

/-- The greatest depth among members. -/
def depthMembers : List (Option String × Json) → Nat
  | [] => 0
  | (_, value) :: rest => max value.depth (depthMembers rest)

end

end Json

end CilRepair
