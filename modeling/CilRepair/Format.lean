import CilRepair.Event
import CilRepair.Files.Output
import CilRepair.Image.Decode

/-!
# Formats

How a module is read from a file and written to one.

## Main definitions

* `ModuleFormat`: a way to load and to save.
* `imageFormat`: modules as images.
* `formatForType?`: the format of a name.
-/

namespace CilRepair

/-- What is left of a save: its result, the files, and what it told. -/
structure SaveOutcome where
  result : Except Error Unit
  files : FileSystem
  events : List Event

/-- **A way to load and to save modules.** Either may fail with any error. -/
structure ModuleFormat where
  name : String
  load : FileSystem → String → Except Error Module × List Event
  save : FileSystem → WriterOptions → Module → String → SaveOutcome

namespace Image

/-- **The module of an image file.** -/
def load (fs : FileSystem) (path : String) : Except Error Module :=
  match fs.read path with
  | .error e => .error (.load path e.message)
  | .ok content =>
    match parse content with
    | .error fault => .error (.load path (Error.malformed fault).message)
    | .ok module => .ok module

/-- What is told about a load. -/
def loadEvents : Except Error Module → List Event
  | .ok module => [.loaded module.name module.types.length module.methodCount]
  | .error _ => []

/-- **A module saved as an image file.** -/
def saveUnder (refused : Refusals) (fs : FileSystem) (options : WriterOptions) (module : Module)
    (path : String) : SaveOutcome :=
  let content := utf8 (encode options module)
  let (result, files) := fs.saveUnder refused path content
  ⟨result, files, if result.toBool then [.wrote content.length path] else []⟩

/-- **A module saved as an image file** if nothing is refused. -/
def save : FileSystem → WriterOptions → Module → String → SaveOutcome := saveUnder {}

end Image

/-- Modules as images. -/
def imageFormat : ModuleFormat where
  name := "dotnet"
  load fs path := let result := Image.load fs path; (result, Image.loadEvents result)
  save := Image.save

/-- The format of a name. Blanks around it and case do not matter. -/
def formatForType? (name : String) : Option ModuleFormat :=
  if sameIgnoringCase (trimText name) imageFormat.name then some imageFormat else none

end CilRepair
