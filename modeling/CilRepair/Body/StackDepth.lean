import CilRepair.Body.Basic

/-!
# Stack depth

The depth of the evaluation stack at each place, found by following control from the entries of a
body. Each place is visited once, with the depth that reaches it first.

## Main definitions

* `DepthTable`: the depth at each place that has been reached.
* `MethodBody.explore`: depth-first search from pending places. A visit fills an empty entry of the
  table and a stale place only leaves the list, so that the search ends.
* `MethodBody.maxDepth`: the greatest depth before or after a reached instruction.
-/

namespace CilRepair

/-- The depth at each place that has been reached. -/
abbrev DepthTable := List (Option Nat)

/-- The places that have not been reached. -/
def DepthTable.unreached (t : DepthTable) : Nat := t.countP (·.isNone)

theorem DepthTable.unreached_set {t : DepthTable} {position : Nat} (depth : Nat)
    (h : t[position]? = some none) :
    DepthTable.unreached (t.set position (some depth)) + 1 = DepthTable.unreached t := by
  induction t generalizing position with
  | nil => simp at h
  | cons head rest ih =>
    cases position with
    | zero =>
      obtain rfl : head = none := by simpa using h
      simp [unreached]
    | succ position =>
      have := ih (by simpa using h)
      cases head <;> simp_all [unreached]

namespace MethodBody

variable (b : MethodBody)

/-- The depth after an instruction that finds `depth` values. -/
def depthAfter (i : Instruction) (depth : Nat) : Nat :=
  depth - i.opcode.stackEffect.1 + i.opcode.stackEffect.2

/-- The depth with which control arrives at a successor: `leave` empties the stack. -/
def depthOnward (i : Instruction) (depth : Nat) : Nat :=
  if i.opcode.flow = .leave then 0 else depthAfter i depth

/-- **Where control goes from a place, and with which depth:** to the live targets of the operand,
and to the next place unless the instruction is terminal. -/
def successors (position : Nat) (i : Instruction) (depth : Nat) : List (Nat × Nat) :=
  let onward := depthOnward i depth
  i.targets.filterMap (fun id => (b.lastPosition? id).map (·, onward))
    ++ if i.isTerminal then [] else [(position + 1, onward)]

/-- **Depth-first search.** The list holds pending places with their depths, the next one last in,
first out. -/
def explore (pending : List (Nat × Nat)) (table : DepthTable) : DepthTable :=
  match pending with
  | [] => table
  | (position, depth) :: rest =>
    match _vacant : table[position]? with
    | some none =>
      match b.at? position with
      | some i =>
        explore ((b.successors position i depth).reverse ++ rest) (table.set position (some depth))
      | none => explore rest (table.set position (some depth))
    | _ => explore rest table
termination_by (DepthTable.unreached table, pending.length)
decreasing_by
  · have := DepthTable.unreached_set depth _vacant
    exact Prod.Lex.left _ _ (by omega)
  · have := DepthTable.unreached_set depth _vacant
    exact Prod.Lex.left _ _ (by omega)
  · exact Prod.Lex.right _ (by simp)

/-- The places where control enters a handler. -/
def handlerEntries (h : ExceptionHandler) : List (Nat × Nat) :=
  ((b.lastPosition? h.handlerStart).map (·, h.entryDepth)).toList
    ++ ((h.filterStart.bind b.lastPosition?).map (·, 1)).toList

/-- The places where control enters the body, with their depths. -/
def entries : List (Nat × Nat) :=
  (if b.order.isEmpty then [] else [(0, 0)]) ++ b.handlers.flatMap b.handlerEntries

/-- The depth at each place. -/
def depths : DepthTable := b.explore b.entries.reverse (List.replicate b.length none)

/-- The greater of the depths before and after a place, if it was reached. -/
def peakAt (position : Nat) (depth : Option Nat) : Nat :=
  match depth, b.at? position with
  | some depth, some i => max depth (depthAfter i depth)
  | _, _ => 0

/-- The greatest depth before or after a reached instruction. -/
def maxDepth : Nat := (b.depths.mapIdx b.peakAt).foldl max 0

/-- **The maximum stack that a header declares,** which holds sixteen bits. -/
def computeMaxStack : UInt16 := UInt16.ofNat (min b.maxDepth 65535)

end MethodBody

end CilRepair
