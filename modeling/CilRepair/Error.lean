import CilRepair.Body.Basic

/-!
# Errors

Every way in which an operation of the library can fail, as a cause, and the wording of the causes.

## Main definitions

* `IoError`: what a file operation can meet.
* `Malformation`: what can be wrong with an input that has the right type.
* `PipelineState`: the stations of a module, which a call in the wrong order names.
* `Error`: all causes; `Error.message` is their wording.
* `Error.isFatal`: failures of loading and saving end a run, all others do not.
-/

namespace CilRepair

/-- What a file operation can meet. -/
inductive IoError
  | notFound | notDirectory | isDirectory | busy | noDevice | nameTooLong | nulByte
  deriving DecidableEq

/-- The wording of the system. -/
def IoError.message : IoError → String
  | notFound => "No such file or directory (os error 2)"
  | notDirectory => "Not a directory (os error 20)"
  | isDirectory => "Is a directory (os error 21)"
  | busy => "Device or resource busy (os error 16)"
  | noDevice => "No such device (os error 19)"
  | nameTooLong => "File name too long (os error 36)"
  | nulByte => "file name contained an unexpected NUL byte"

/-! ### Stations of the pipeline -/

/-- A station of the pipeline. `failed` is where a failed load or save leads. -/
inductive PipelineState
  | unloaded | loaded | stagesApplied | repaired | saved | failed
  deriving DecidableEq

/-- The name of a state. -/
def PipelineState.text : PipelineState → String
  | unloaded => "unloaded"
  | loaded => "loaded"
  | stagesApplied => "stages-applied"
  | repaired => "repaired"
  | saved => "saved"
  | failed => "failed"

/-! ### Images -/

/-- The marker that every image carries. -/
def imageMarker : String := "dotmend-image"

/-- The version of the images that are read and written. -/
def imageVersion : Nat := 1

/-- What can be wrong with an input. -/
inductive Malformation
  | operandRequired (mnemonic : String)
  | notABranch (mnemonic : String)
  | emptySwitch
  | danglingLabel (label : String)
  | arena (fault : ArenaFault)
  | invalidDocument
  | unknownFormat (format : String)
  | unsupportedVersion (version : Nat)
  | method (typeName methodName : String) (fault : ArenaFault)
  deriving DecidableEq

/-- How a malformation is introduced where it is quoted inside another text. -/
def malformedMark : String := "Malformed - "

/-- The wording of a malformation by itself. -/
def Malformation.message : Malformation → String
  | operandRequired mnemonic => "Opcode '" ++ mnemonic ++ "' requires an operand"
  | notABranch mnemonic => "Opcode '" ++ mnemonic ++ "' is not a branch"
  | emptySwitch => "Switch instruction requires at least one target"
  | danglingLabel label => "Label '" ++ label ++ "' is not followed by an instruction"
  | arena fault => fault.message
  | invalidDocument => "Invalid image document"
  | unknownFormat format =>
    "Unknown image format '" ++ format ++ "', expected '" ++ imageMarker ++ "'"
  | unsupportedVersion version =>
    "Unsupported image version " ++ natText version ++ ", expected " ++ natText imageVersion
  | method typeName methodName fault =>
    typeName ++ "::" ++ methodName ++ ": " ++ malformedMark ++ fault.message

/-- **A failure of the library.** -/
inductive Error
  | load (path message : String)
  | save (path message : String)
  | stage (name message : String)
  | malformed (cause : Malformation)
  | invalidState (expected found : PipelineState)
  | duplicateLabel (label : String)
  | undefinedLabel (label : String)
  | noStages
  | unknownStage (name : String)
  | file (cause : IoError)
  | other (message : String)
  deriving DecidableEq

namespace Error

/-- **The wording of a failure.** -/
def message : Error → String
  | load path message => "Failed to load '" ++ path ++ "': " ++ message
  | save path message => "Failed to save '" ++ path ++ "': " ++ message
  | stage name message => "Stage '" ++ name ++ "' failed: " ++ message
  | malformed cause => malformedMark ++ cause.message
  | invalidState expected found =>
    "Invalid pipeline state: expected " ++ expected.text ++ ", found " ++ found.text
  | duplicateLabel label => "Duplicate label '" ++ label ++ "'"
  | undefinedLabel label => "Undefined label '" ++ label ++ "'"
  | noStages => "No valid deobfuscation stages were selected"
  | unknownStage name => "Unknown stage '" ++ name ++ "'"
  | file cause => cause.message
  | other message => message

/-- The failure of a read. What is there but has no content is told in words only. -/
def ofRead : IoError → Error
  | .noDevice => other IoError.noDevice.message
  | cause => file cause

/-- The failure ends a run. -/
def isFatal : Error → Bool
  | load _ _ | save _ _ => true
  | _ => false

end Error

end CilRepair
