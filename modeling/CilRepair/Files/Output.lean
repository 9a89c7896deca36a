import CilRepair.Files.FileSystem

/-!
# Outputs

A file that is written piece by piece and appears at its place all at once. The pieces go into a
temporary file beside the target, which is moved into place at the end and removed if anything goes
wrong. Beyond what paths and files allow, the system may refuse any step for reasons of its own.

## Main definitions

* `Output`: the file, where it waits, its target and its size.
* `Refusals`: the steps that the system refuses.
* `Output.temporaryName`, `Output.temporaryFor`: the temporary file of a target.
* `Output.createUnder`, `Output.writeAt`, `Output.finalizeUnder`, `Output.discard`.
* `FileSystem.saveUnder`: a whole file written in this way.
* `Output.create`, `Output.finalize`, `FileSystem.save`: the same if nothing is refused.
-/

namespace CilRepair

/-- **A file that is being written.** The number of the file tells where the bytes go, even if
something else has come to its place. -/
structure Output where
  file : FileId
  temporary : String
  target : String
  size : Nat
  deriving DecidableEq

/-- **What the system refuses,** each with its wording: to open the temporary file, to give it its
size, to map it, to write the mapping back, to move the file. -/
structure Refusals where
  opening : Option String := none
  sizing : Option String := none
  mapping : Option String := none
  flushing : Option String := none
  moving : Option String := none
  deriving DecidableEq

/-- A step that the system may refuse. -/
def attempt {α : Type} (refusal : Option String) (result : Except IoError α) : Except String α :=
  match refusal with
  | some reason => .error reason
  | none => result.mapError (·.message)

namespace Output

/-- The name of the temporary file of a target: hidden, and never the name of the target. -/
def temporaryName (target : String) : String :=
  "." ++ (Path.fileName? target).getD "output" ++ ".partial"

/-- The temporary file beside a target. -/
def temporaryFor (target : String) : String := Path.withFileName target (temporaryName target)

/-- The failure of a step. -/
def failure (target step reason : String) : Error := .save target (step ++ ": " ++ reason)

/-- **An output of some size,** all zeros. A file that was opened is removed if it gets no size or
no mapping. -/
def createUnder (refused : Refusals) (fs : FileSystem) (target : String) (size : Nat) :
    Except Error Output × FileSystem :=
  let temporary := temporaryFor target
  match attempt refused.opening (fs.create temporary size) with
  | .error reason => (.error (failure target "Failed to create temporary file" reason), fs)
  | .ok (file, opened) =>
    match refused.sizing, refused.mapping with
    | some reason, _ =>
      (.error (failure target "Failed to set file size" reason), opened.removeFile temporary)
    | none, some reason =>
      (.error (failure target "Failed to create memory mapping" reason),
        opened.removeFile temporary)
    | none, none => (.ok ⟨file, temporary, target, size⟩, opened)

/-- **An output of some size,** all zeros, if nothing is refused. -/
def create (fs : FileSystem) (target : String) (size : Nat) :
    Except Error (Output × FileSystem) :=
  let (made, created) := createUnder {} fs target size
  made.map fun output => (output, created)

variable (o : Output) (fs : FileSystem)

/-- The wording of a write that does not fit. -/
def overrun (offset length : Nat) : String :=
  "Write of " ++ natText length ++ " bytes at " ++ natText offset ++ " exceeds file size "
    ++ natText o.size

/-- **Bytes written from an offset on.** They have to fit. -/
def writeAt (offset : Nat) (data : Bytes) : Except Error FileSystem :=
  if offset + data.length ≤ o.size then .ok (fs.overwrite o.file offset data)
  else .error (.save o.target (o.overrun offset data.length))

/-- **The output given up.** -/
def discard : FileSystem := fs.removeFile o.temporary

/-- **The output moved into place.** If that fails it is given up. -/
def finalizeUnder (refused : Refusals) : Except Error Unit × FileSystem :=
  match refused.flushing with
  | some reason =>
    (.error (failure o.target "Failed to flush memory mapping" reason), o.discard fs)
  | none =>
    match attempt refused.moving (fs.rename o.temporary o.target) with
    | .ok moved => (.ok (), moved)
    | .error reason =>
      (.error (failure o.target "Failed to move output into place" reason), o.discard fs)

/-- **The output moved into place** if nothing is refused. -/
def finalize : Except Error Unit × FileSystem := o.finalizeUnder fs {}

end Output

/-- **A whole file written as an output.** -/
def FileSystem.saveUnder (refused : Refusals) (fs : FileSystem) (target : String)
    (content : Bytes) : Except Error Unit × FileSystem :=
  match Output.createUnder refused fs target content.length with
  | (.error e, fs) => (.error e, fs)
  | (.ok output, fs) =>
    match output.writeAt fs 0 content with
    | .error e => (.error e, output.discard fs)
    | .ok fs => output.finalizeUnder fs refused

/-- **A whole file written as an output** if nothing is refused. -/
def FileSystem.save (fs : FileSystem) (target : String) (content : Bytes) :
    Except Error Unit × FileSystem := fs.saveUnder {} target content

end CilRepair
