import Openness.Format.Reader
import Openness.Format.SettingsDocument
import Openness.Format.Writer
import Openness.SortedMap

/-!
# Folders

A folder of files without folders in it (`Folder`). A name leads from it, step
by step, to a location (`Location`): to a file, to a directory, or to where
there is no folder. Only a file can be read or written. A name that ends in a
slash asks for a folder of its own: whoever reads does not find one, and whoever
writes is told that it would be no file (`Location.toRead`,
`Location.toWrite`). Sets are read from files and written to them, and settings
are read from them.
-/

namespace Openness

open Format

/-- Where a name leads from a folder without folders in it. -/
inductive Location where
  /-- The folder itself, or one above it. -/
  | directory
  /-- A file, there or not, by its shortest name. -/
  | file (name : String)
  /-- A folder that is not there. -/
  | noFolder
  /-- Further on, through a folder that is not there. -/
  | nowhere
  deriving DecidableEq, Repr

namespace Location

/-- Follows steps from the end of a way, which only goes up. No step and a dot
stay where they are, two dots go to the folder above, and any other step but
the last would have to enter a folder. -/
def follow (way : String) : List String → Location
  | [] => directory
  | step :: rest =>
    if step = "" || step = "." then follow way rest
    else if step = ".." then follow (if way = "/" then way else way ++ "../") rest
    else if rest.isEmpty then file (way ++ step)
    else if rest.all (· = "") then noFolder
    else nowhere

/-- Where a name leads: its steps are what slashes separate, and a slash in
front starts at the root. -/
def ofName (name : String) : Location :=
  follow (if name.startsWith "/" then "/" else "") (name.splitOn "/")

/-- The file that is to be read at a location. -/
def toRead : Location → Except FormatError String
  | file name => .ok name
  | directory => .error (.io .isDirectory)
  | noFolder | nowhere => .error (.io .notFound)

/-- The file that is to be written at a location. -/
def toWrite : Location → Except FormatError String
  | file name => .ok name
  | directory | noFolder => .error (.io .isDirectory)
  | nowhere => .error (.io .notFound)

end Location

/-- Files by name. -/
structure Folder where
  /-- The bytes of each file. -/
  files : SortedMap String (List UInt8) := ∅
  deriving Inhabited

namespace Folder

/-- The bytes of a file. -/
def bytes (f : Folder) (name : String) : Except FormatError (List UInt8) := do
  let file ← (Location.ofName name).toRead
  match f.files.find? file with
  | some bytes => .ok bytes
  | none => .error (.io .notFound)

/-- The folder with other bytes for a file, which is new if need be. -/
def put (f : Folder) (name : String) (bytes : List UInt8) : Except FormatError Folder := do
  let file ← (Location.ofName name).toWrite
  .ok ⟨f.files.insert file bytes⟩

/-- Reads a set from a file. -/
def readSet (f : Folder) (settings : Settings) (name : String) : Reading :=
  match f.bytes name with
  | .ok bytes => read settings bytes
  | .error e => ⟨.error e, []⟩

/-- Writes a set to a file. -/
def writeSet (f : Folder) (settings : Settings) (name : String) (s : TransformSet) :
    Except FormatError Folder :=
  f.put name (Text.encode (write settings s))

/-- Reads settings from a file. -/
def readSettings (f : Folder) (name : String) : Except FormatError Settings :=
  match f.bytes name with
  | .error e => .error e
  | .ok bytes =>
    match Text.decode? bytes with
    | none => .error (.io .notUtf8)
    | some document =>
      match Settings.ofDocument document with
      | .ok settings => .ok settings
      | .error e => .error (.settings e)

end Folder

end Openness
