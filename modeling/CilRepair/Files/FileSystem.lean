import CilRepair.Files.Location
import CilRepair.Text.Utf8

/-!
# File systems

A table of files and directories, each of which is at a place or, once it was deleted or replaced,
at none. Whoever holds the number of a file keeps writing to that file, wherever it has gone.
Operations take paths and fail as an operating system does.

## Main definitions

* `Entry`, `Node`, `FileId`, `FileSystem`: the table. The number of a file is its row.
* `FileSystem.find?`, `FileSystem.entry?`: what is at a place.
* `FileSystem.follow`, `FileSystem.resolve`: the place that a path names; every segment but the last
  has to exist.
* `FileSystem.read`, `create`, `overwrite`, `removeFile`, `rename`: what is done with files.
* `FileSystem.makeDirectories`, `FileSystem.write`: how a file system is furnished.
-/

namespace CilRepair

/-- What can be at a place. -/
inductive Entry
  | file (content : Bytes)
  | directory
  deriving DecidableEq

/-- A file or a directory and where it is. -/
structure Node where
  place : Option Location
  entry : Entry
  deriving DecidableEq

/-- The number of a file. It stays with the file when the file moves. -/
abbrev FileId := Nat

/-- **A table of files and directories.** Rows are never taken away. -/
structure FileSystem where
  nodes : List Node
  deriving DecidableEq

namespace FileSystem

/-- Nothing but the directories that are always there. -/
def empty : FileSystem := ⟨[]⟩

variable (fs : FileSystem)

/-- The number of what is at a place. -/
def find? (place : Location) : Option FileId :=
  fs.nodes.findIdx? fun node => node.place == some place

/-- **What is at a place.** -/
def entry? (place : Location) : Option Entry :=
  if place.names.isEmpty then some .directory
  else (fs.find? place).bind fun id => (fs.nodes[id]?).map (·.entry)

/-- The content of the file with a number, wherever it is. -/
def content? (id : FileId) : Option Bytes :=
  match fs.nodes[id]? with
  | some ⟨_, .file content⟩ => some content
  | _ => none

/-- Another content in the file with a number. -/
def setContent (id : FileId) (content : Bytes) : FileSystem :=
  ⟨fs.nodes.modify id fun node => { node with entry := .file content }⟩

/-- Something new at a place. -/
def add (place : Location) (entry : Entry) : FileSystem := ⟨fs.nodes ++ [⟨some place, entry⟩]⟩

/-- Whatever is at a place taken from there. -/
def detach (place : Location) : FileSystem :=
  ⟨fs.nodes.map fun node =>
    if node.place == some place then { node with place := none } else node⟩

/-- Whatever is at one place taken to another, instead of what was there. -/
def move (origin destination : Location) : FileSystem :=
  ⟨fs.nodes.map fun node =>
    if node.place == some origin then { node with place := some destination }
    else if node.place == some destination then { node with place := none }
    else node⟩

/-! ### Paths -/

/-- The place that segments lead to. Each of them needs a directory to start from. -/
def follow (place : Location) : List String → Except IoError Location
  | [] => .ok place
  | segment :: rest =>
    match fs.entry? place with
    | none => .error .notFound
    | some (.file _) => .error .notDirectory
    | some .directory =>
      match place.step segment with
      | .error e => .error e
      | .ok next => follow next rest

/-- **The place that a path names.** Nothing need be there. -/
def resolve (path : String) : Except IoError Location :=
  match Path.fault? path with
  | some e => .error e
  | none => fs.follow (.start path) (Path.segments path)

/-- **The directory that the last segment of a path is looked up in,** and that segment. -/
def enter (path : String) : Except IoError (Location × String) :=
  match Path.fault? path with
  | some e => .error e
  | none =>
    let segments := (Path.segments path).filter (!·.isEmpty)
    match fs.follow (.start path) (segments.dropLast ++ [""]) with
    | .error e => .error e
    | .ok directory => .ok (directory, segments.getLastD "")

/-! ### Files -/

/-- **The content of a file.** -/
def read (path : String) : Except IoError Bytes :=
  match fs.resolve path with
  | .error e => .error e
  | .ok place =>
    match fs.entry? place with
    | some (.file content) => .ok content
    | some .directory => .error .noDevice
    | none => .error .notFound

/-- The path names a file. -/
def isFile (path : String) : Bool := (fs.read path).toBool

/-- A file of zeros at a place. A file that is there already keeps its number. -/
def createAt (place : Location) (size : Nat) : Except IoError (FileId × FileSystem) :=
  let zeros : Bytes := List.replicate size 0
  match fs.entry? place, fs.find? place with
  | some .directory, _ => .error .isDirectory
  | _, some id => .ok (id, fs.setContent id zeros)
  | _, none => .ok (fs.nodes.length, fs.add place (.file zeros))

/-- **A file of zeros,** and its number. -/
def create (path : String) (size : Nat) : Except IoError (FileId × FileSystem) :=
  match fs.enter path with
  | .error e => .error e
  | .ok (directory, name) =>
    if Path.isSpecial name || Path.endsInSlash path then .error .isDirectory
    else match directory.step name with
      | .error e => .error e
      | .ok place => fs.createAt place size

/-- Bytes put over others from an offset on. What goes beyond the end is lost. -/
def splice (content : Bytes) (offset : Nat) (data : Bytes) : Bytes :=
  (content.take offset ++ data ++ content.drop (offset + data.length)).take content.length

/-- **Bytes put over those of a file from an offset on.** -/
def overwrite (id : FileId) (offset : Nat) (data : Bytes) : FileSystem :=
  match fs.content? id with
  | some content => fs.setContent id (splice content offset data)
  | none => fs

/-- Without a file at a path; nothing happens if there is none. -/
def removeFile (path : String) : FileSystem :=
  match fs.resolve path with
  | .error _ => fs
  | .ok place =>
    match fs.entry? place with
    | some (.file _) => fs.detach place
    | _ => fs

/-- The place that a file may be moved to, by the directory and the name. A path that says that it
leads to a directory does not suit a file. -/
def destination (directory : Location) (name : String) (saysDirectory : Bool) :
    Except IoError Location :=
  match directory.step name with
  | .error e => .error e
  | .ok place =>
    if saysDirectory then .error .notDirectory
    else match fs.entry? place with
      | some .directory => .error .isDirectory
      | _ => .ok place

/-- **A file moved,** instead of the file that was there. Both directories are entered before
anything is looked up in them. -/
def rename (source target : String) : Except IoError FileSystem :=
  match fs.enter source, fs.enter target with
  | .error e, _ => .error e
  | _, .error e => .error e
  | .ok (home, name), .ok (directory, last) =>
    if Path.isSpecial name || Path.isSpecial last then .error .busy
    else match home.step name with
      | .error e => .error e
      | .ok origin =>
        match fs.entry? origin with
        | some (.file _) =>
          (fs.destination directory last (Path.endsInSlash target)).map (fs.move origin)
        | _ => .error .notFound

/-! ### Furnishing -/

/-- Directories made along segments where there are none. -/
def makeAlong (fs : FileSystem) (place : Location) : List String → Except IoError FileSystem
  | [] => .ok fs
  | segment :: rest =>
    match place.step segment with
    | .error e => .error e
    | .ok next =>
      match fs.entry? next with
      | some .directory => makeAlong fs next rest
      | some (.file _) => .error .notDirectory
      | none => makeAlong (fs.add next .directory) next rest

/-- **All directories along a path.** The empty path asks for none. -/
def makeDirectories (path : String) : Except IoError FileSystem :=
  if path.isEmpty then .ok fs
  else match Path.fault? path with
    | some e => .error e
    | none => makeAlong fs (.start path) (Path.segments path)

/-- **A file with a content.** -/
def write (path : String) (content : Bytes) : Except IoError FileSystem :=
  (fs.create path content.length).map fun (id, fs) => fs.setContent id content

/-- What is in the working directory, by the names that lead there. -/
def listing : List (List String × Entry) :=
  fs.nodes.filterMap fun node =>
    match node.place with
    | some ⟨.above 0, names⟩ => some (names, node.entry)
    | _ => none

end FileSystem

end CilRepair
