import Openness.Format.Directive

/-!
# Errors of the text format

Why a text could not be read or written. `FormatError.message` is what is said
about it; about settings that are not well formed nothing more is said.
-/

namespace Openness.Format

/-- Why bytes could not be read or written. -/
inductive IoError where
  /-- The bytes are not UTF-8. -/
  | notUtf8
  /-- There is no file of the name. -/
  | notFound
  /-- The name is that of a directory. -/
  | isDirectory
  /-- There is no room left. -/
  | full
  deriving DecidableEq, Repr

/-- What is said about it. -/
def IoError.message : IoError → String
  | notUtf8 => "stream did not contain valid UTF-8"
  | notFound => "No such file or directory (os error 2)"
  | isDirectory => "Is a directory (os error 21)"
  | full => "disk full"

/-- Why settings could not be read. -/
inductive SettingsError where
  /-- There is no setting of the name. -/
  | unknownSetting (name : String) (expected : List String)
  /-- A setting has no choice of the name. -/
  | unknownChoice (name : String) (expected : List String)
  /-- The text is no document, or holds something else than a choice. -/
  | malformed
  deriving DecidableEq, Repr

/-- What is said about it, if anything. -/
def SettingsError.message? : SettingsError → Option String
  | unknownSetting name expected => some (unknown "field" name expected)
  | unknownChoice name expected => some (unknown "variant" name expected)
  | malformed => none
where
  /-- That a name is unknown, and which ones are known. -/
  unknown (what name : String) (expected : List String) : String :=
    "unknown " ++ what ++ " " ++ quote name ++ ", expected " ++ list expected
  /-- A name between backquotes. -/
  quote (name : String) : String := "`" ++ name ++ "`"
  /-- Names to choose from. -/
  list (names : List String) : String := " or ".intercalate (names.map quote)

/-- Why a text could not be read or written. -/
inductive FormatError where
  | io (cause : IoError)
  /-- A line, counted from one, could not be read. -/
  | malformed (line : Nat) (cause : LineError)
  | settings (cause : SettingsError)
  deriving DecidableEq, Repr

/-- What is said about it, if anything. -/
def FormatError.message? : FormatError → Option String
  | io cause => some ("io error: " ++ cause.message)
  | malformed line cause => some ("line " ++ toString line ++ ": " ++ cause.message)
  | settings cause => cause.message?

end Openness.Format
