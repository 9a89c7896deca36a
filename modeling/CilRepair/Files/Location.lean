import CilRepair.Error
import CilRepair.Files.Path

/-!
# Places

Where a path leads, whether or not something is there. Nothing is known of the directories above the
working directory but that they are there, so places are counted from one of them, or from the root.

## Main definitions

* `Anchor`, `Location`: a directory that is always there, and the names that lead down from it.
* `Location.start`: where the way of a path starts.
* `Location.parent`, `Location.child`, `Location.step`: one segment further.
* `Path.fault?`: the paths that no system call takes.
-/

namespace CilRepair

/-- A directory that is always there. -/
inductive Anchor
  | root
  | above (levels : Nat)
  deriving DecidableEq

/-- **A place:** the names that lead to it from a directory that is always there. -/
structure Location where
  anchor : Anchor
  names : List String
  deriving DecidableEq

namespace Location

/-- The working directory. -/
def working : Location := ⟨.above 0, []⟩

/-- Where the way of a path starts. -/
def start (path : String) : Location :=
  if path.toList.head? == some '/' then ⟨.root, []⟩ else working

variable (place : Location)

/-- The place of a name in a directory. -/
def child (name : String) : Location := { place with names := place.names ++ [name] }

/-- The directory that a place is in. The root is in itself. -/
def parent : Location :=
  match place.names, place.anchor with
  | [], .root => place
  | [], .above levels => ⟨.above (levels + 1), []⟩
  | names, anchor => ⟨anchor, names.dropLast⟩

/-- The longest name, in bytes. -/
def longestName : Nat := 255

/-- **The place that one segment leads to.** -/
def step (segment : String) : Except IoError Location :=
  if Path.isIdle segment then .ok place
  else if segment == ".." then .ok place.parent
  else if longestName < segment.utf8ByteSize then .error .nameTooLong
  else .ok (place.child segment)

end Location

namespace Path

/-- The longest path, in bytes. -/
def longest : Nat := 4095

/-- What makes a path unusable, wherever it may lead. -/
def fault? (path : String) : Option IoError :=
  if path.isEmpty then some .notFound
  else if path.toList.contains '\x00' then some .nulByte
  else if longest < path.utf8ByteSize then some .nameTooLong
  else none

/-- The segment stands for a directory, not for a name in one. -/
def isSpecial (segment : String) : Bool := isIdle segment || segment == ".."

/-- The path says that it leads to a directory. -/
def endsInSlash (path : String) : Bool := path.toList.getLast? == some '/'

end Path

end CilRepair
