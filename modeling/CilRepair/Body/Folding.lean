import CilRepair.Body.References

/-!
# Folding of literals

Two literals and an operation on them become one literal, until no such triple is left. A triple
stays if something jumps into its second or third instruction, or if the operation would trap.

## Main definitions

* `BinaryOp.fold?`: the result of an operation on two literals, unless it traps.
* `FoldSite`, `MethodBody.foldSite?`: the first triple that can be folded.
* `MethodBody.foldLiterals`: all of them, and how many. Every fold shortens the sequence by two,
  which is why folding ends.
-/

namespace CilRepair

/-- **The result of an operation on two 32-bit numbers,** wrapping around. Division traps on a zero
divisor and where the quotient is too large; a shift takes its amount modulo 32. -/
def BinaryOp.fold? (op : BinaryOp) (a b : Int32) : Option Int32 :=
  let traps := b == 0 || (a == Int32.minValue && b == -1)
  match op with
  | .add => some (a + b)
  | .sub => some (a - b)
  | .mul => some (a * b)
  | .div => if traps then none else some (a / b)
  | .rem => if traps then none else some (a % b)
  | .and => some (a &&& b)
  | .or => some (a ||| b)
  | .xor => some (a ^^^ b)
  | .shl => some (a <<< b)
  | .shr => some (a >>> b)

/-- The result of an opcode on two literals, if the opcode is an operation on integers. -/
def OpCode.fold? (op : OpCode) (a b : Int32) : Option Int32 :=
  match op with
  | .binary op => op.fold? a b
  | _ => none

/-- Three neighbours in a sequence that can be folded, and the literal that replaces them. -/
structure FoldSite where
  first : InstrId
  second : InstrId
  third : InstrId
  value : Int32

namespace MethodBody

/-- The value of three neighbours, if they are two literals and an operation. -/
def tripleValue? (b : MethodBody) (first second third : InstrId) : Option Int32 := do
  let a ← (← b.get? first).literal?
  let c ← (← b.get? second).literal?
  (← b.get? third).opcode.fold? a c

/-- The first site among the triples of a sequence. -/
def foldSiteIn? (b : MethodBody) (references : List InstrId) : List InstrId → Option FoldSite
  | first :: second :: third :: rest =>
    let value? :=
      if references.contains second || references.contains third then none
      else b.tripleValue? first second third
    match value? with
    | some value => some ⟨first, second, third, value⟩
    | none => b.foldSiteIn? references (second :: third :: rest)
  | _ => none

/-- **The first triple that can be folded.** -/
def foldSite? (b : MethodBody) : Option FoldSite := b.foldSiteIn? b.references b.order

/-- The body with a triple folded: the first instruction becomes the literal, the others go. -/
def foldSite (b : MethodBody) (site : FoldSite) : MethodBody :=
  ((b.set site.first (.shortestLiteral site.value)).remove site.second).remove site.third

theorem mem_of_foldSiteIn? {b : MethodBody} {references order : List InstrId} {site : FoldSite}
    (h : b.foldSiteIn? references order = some site) : site.second ∈ order := by
  fun_induction foldSiteIn? b references order with
  | case1 first second third rest value? value hv =>
    obtain rfl : _ = site := by simpa using h
    simp
  | case2 first second third rest value? hv ih => simp [ih h]
  | case3 => simp at h

/-- A fold shortens the sequence. -/
theorem length_foldSite_lt {b : MethodBody} {site : FoldSite} (h : b.foldSite? = some site) :
    (b.foldSite site).order.length < b.order.length := by
  have hmem := mem_of_foldSiteIn? h
  have herase := List.length_erase_of_mem hmem
  have hle := List.length_erase_le (a := site.third) (l := b.order.erase site.second)
  have hpos := List.length_pos_of_mem hmem
  simp only [foldSite, remove, set, modify]
  omega

/-- **A body with every foldable triple folded, and how many there were.** -/
def foldLiterals (b : MethodBody) : MethodBody × Nat :=
  match _found : b.foldSite? with
  | none => (b, 0)
  | some site =>
    let (folded, count) := foldLiterals (b.foldSite site)
    (folded, count + 1)
termination_by b.order.length
decreasing_by exact length_foldSite_lt _found

end MethodBody

end CilRepair
