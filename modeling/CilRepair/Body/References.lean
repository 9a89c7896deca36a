import CilRepair.Body.Edit
import CilRepair.Body.Sweep

/-!
# References

The places where a body names its instructions: branch targets, switch tables and the boundaries of
handlers. Replacing them is a simultaneous substitution.

## Main definitions

* `Remapping`: a finite map on identities.
* `MethodBody.remap`: the body with its live references replaced, and the number of replacements.
* `MethodBody.references`, `MethodBody.isReferenced`: what is named.
* `MethodBody.removeNops`: padding removed, references moved to what follows it.
* `MethodBody.replace?`: an instruction replaced by others.
-/

namespace CilRepair

/-- A finite map on identities. Of two pairs with the same key the first counts. -/
abbrev Remapping := List (InstrId × InstrId)

namespace Remapping

variable (m : Remapping)

/-- The replacement of an identity. -/
def find? (id : InstrId) : Option InstrId := List.lookup id m

/-- An identity after the substitution. -/
def apply (id : InstrId) : InstrId := (m.find? id).getD id

/-- The number of identities in a list that are replaced. -/
def hits (ids : List InstrId) : Nat := ids.countP fun id => (m.find? id).isSome

end Remapping

namespace MethodBody

variable (b : MethodBody)

/-! ### Substitution -/

/-- The references of one instruction replaced. -/
def remapStep (m : Remapping) (count : Nat) (_ : List InstrId) (i : Instruction) :
    Instruction × Nat :=
  ({ i with operand := i.operand.mapTargets m.apply }, count + m.hits i.targets)

/-- **The body with its references replaced, and the number of replacements.** -/
def remap (m : Remapping) : MethodBody × Nat :=
  let (swept, count) := b.sweep (remapStep m) 0
  let handlers := b.handlers.map (·.mapBoundaries m.apply)
  ({ swept with handlers }, count + m.hits (b.handlers.flatMap (·.boundaries)))

/-- The identities that live instructions and handlers name. -/
def references : List InstrId :=
  b.instructions.flatMap Instruction.targets ++ b.handlers.flatMap ExceptionHandler.boundaries

/-- An identity is named by a live instruction or by a handler. -/
def isReferenced (id : InstrId) : Bool := b.references.contains id

/-! ### Padding -/

/-- For each `nop` the next instruction that is none, walking back from the end. A `nop` with
nothing but padding behind it has no entry. -/
def redirects : List (InstrId × Instruction) → Remapping × Option InstrId
  | [] => ([], none)
  | (id, i) :: rest =>
    let (m, successor) := redirects rest
    if i.isNop then
      match successor with
      | some next => ((id, next) :: m, successor)
      | none => (m, successor)
    else (m, some id)

/-- **The body without padding, and the number of `nop`s removed.** References to a `nop` move to
the next instruction that is none. Where there is none, a referenced `nop` stays. -/
def removeNops : MethodBody × Nat :=
  let remapped := (b.remap (redirects b.live).1).1
  let references := remapped.references
  let cleared := remapped.removeWhere fun id i => i.isNop && !references.contains id
  (cleared, b.length - cleared.length)

/-! ### Replacement -/

/-- Instructions put into the sequence from a place on, and their identities. -/
def insertAll : (b : MethodBody) → (position : Nat) → List Instruction → MethodBody × List InstrId
  | b, _, [] => (b, [])
  | b, position, i :: rest =>
    let (inserted, ids) := insertAll (b.insert position i) (position + 1) rest
    (inserted, b.fresh :: ids)

/-- **A live instruction replaced by others.** Whatever named it names the first of them. -/
def replace? (old : InstrId) (replacement : List Instruction) :
    Option (MethodBody × List InstrId) :=
  match replacement, b.position? old with
  | [], _ | _, none => none
  | _, some position =>
    let (inserted, ids) := b.insertAll position replacement
    let remapped := (inserted.remap (ids.head?.toList.map (old, ·))).1
    some (remapped.remove old, ids)

end MethodBody

end CilRepair
