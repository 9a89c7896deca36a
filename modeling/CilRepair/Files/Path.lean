import CilRepair.Text.Split

/-!
# Paths

A path is a text with slashes between its segments. Empty segments and single points mean nothing,
except that a point in front is kept.

## Main definitions

* `Path.fileName?`: the last segment, unless it leads upwards.
* `Path.withFileName`: the path of a neighbour.
* `Path.stem?`, `Path.extension?`: the file name cut at its last point.
* `Path.outputFor`: where a module goes if no place is given.
-/

namespace CilRepair

namespace Path

/-- The segments between slashes. -/
def segments (path : String) : List String := splitText '/' path

/-- The segment means nothing. -/
def isIdle (segment : String) : Bool := segment.isEmpty || segment == "."

/-- Segments without the idle ones at the end. The first one stays. -/
def dropIdleTail : List String → List String
  | [] => []
  | first :: rest => first :: (rest.reverse.dropWhile isIdle).reverse

/-- The path of some segments. The empty segment by itself is the root. -/
def ofSegments : List String → String
  | [""] => "/"
  | segments => "/".intercalate segments

/-- The segments up to the last one that means something; none for the empty path. -/
def trimmed (path : String) : List String :=
  if path.isEmpty then [] else dropIdleTail (segments path)

/-- **The file that a path names.** -/
def fileName? (path : String) : Option String :=
  match (trimmed path).getLast? with
  | some name => if isIdle name || name == ".." then none else some name
  | none => none

/-- The path without its last segment. -/
def parent (path : String) : String := ofSegments (dropIdleTail (trimmed path).dropLast)

/-- A name behind a path. -/
def append (path name : String) : String :=
  if path.isEmpty || path.toList.getLast? == some '/' then path ++ name else path ++ "/" ++ name

/-- **The path with another file name.** A path that names no file gets the name behind it. -/
def withFileName (path name : String) : String :=
  append (if (fileName? path).isSome then parent path else path) name

/-- A name cut at its last point. A point in front, or none, leaves the name whole. -/
def cutName (name : String) : String × Option String :=
  let pieces := splitText '.' name
  match ".".intercalate pieces.dropLast, pieces.getLast? with
  | "", _ | _, none => (name, none)
  | stem, some extension => (stem, some extension)

/-- The file name up to its last point. -/
def stem? (path : String) : Option String := (fileName? path).map fun name => (cutName name).1

/-- The file name behind its last point. -/
def extension? (path : String) : Option String :=
  (fileName? path).bind fun name => (cutName name).2

/-- What is put behind the stem of an output. -/
def outputSuffix : String := "_obf"

/-- **Where a module goes if no place is given:** beside the input, with a longer stem. -/
def outputFor (path : String) : String :=
  let stem := (stem? path).getD "" ++ outputSuffix
  withFileName path <|
    match extension? path with
    | some extension => stem ++ "." ++ extension
    | none => stem

end Path

end CilRepair
