import CilRepair.CommandLine.Run

/-!
# The program

The outer layer: the part of the disk that a run depends on is read, the run is computed, and what
it wrote is put back.
-/

namespace CilRepair

/-- The paths that a run reads and writes. -/
def pathsOf : Invocation → Option (String × String)
  | .run a => a.file.map fun file => (file, a.output.getD (Path.outputFor file))
  | _ => none

/-- The content of a file on the disk, if there is one. -/
def readDisk (path : String) : IO (Option Bytes) :=
  try
    return some (← IO.FS.readBinFile path).toList
  catch _ => return none

/-- Something is on the disk. -/
def existsOnDisk (path : String) : IO Bool :=
  try
    discard (IO.FS.realPath path)
    return true
  catch _ => return false

/-- A file system that has a file at a path, and the directories on the way. -/
def withFile (fs : FileSystem) (path : String) (content : Bytes) : Except IoError FileSystem := do
  (← fs.makeDirectories (Path.parent path)).write path content

/-- What the disk has at a path, put into a file system. -/
def adopt (fs : FileSystem) (path : String) : IO FileSystem := do
  let found ← match ← readDisk path with
    | some content => pure (withFile fs path content)
    | none => pure (if ← existsOnDisk path then fs.makeDirectories path else .ok fs)
  return found.toOption.getD fs

/-- The part of the disk that a run depends on. -/
def snapshot (input output : String) : IO FileSystem := do
  let fs ← adopt .empty input
  let parent := Path.parent output
  let fs ← if parent.isEmpty then pure fs else adopt fs parent
  adopt fs output

/-- The file of a run written to the disk if it is new. -/
def writeBack (before after : FileSystem) (output : String) : IO Unit := do
  match after.read output with
  | .error _ => return ()
  | .ok content =>
    if (before.read output).toOption != some content then
      let temporary := Output.temporaryFor output
      IO.FS.writeBinFile temporary ⟨content.toArray⟩
      IO.FS.rename temporary output

/-- A seed from the system. -/
def entropy : IO UInt64 := do
  let bytes ← IO.getRandomBytes 8
  return bytes.toList.foldl (fun seed byte => seed <<< 8 ||| byte.toUInt64) 0

end CilRepair

open CilRepair in
/-- The program. -/
def main (arguments : List String) : IO UInt32 := do
  let seed ← entropy
  let paths := pathsOf (Invocation.ofArguments arguments)
  let before ← match paths with
    | some (input, output) => snapshot input output
    | none => pure .empty
  let result := runProgram arguments seed before
  IO.eprint result.err
  match paths with
  | some (_, output) => writeBack before result.files output
  | none => pure ()
  IO.print result.out
  return result.code.toUInt32
