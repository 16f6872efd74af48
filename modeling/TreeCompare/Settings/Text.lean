import TreeCompare.Settings.Basic
import TreeCompare.Toml.Document
/-!
# Settings as text

Settings are kept as a TOML text with a line for each of them
(`Settings.toText`). When it is read (`Settings.ofText?`), settings that are
missing have their defaults, and keys that are no settings are passed over.
-/

namespace TreeCompare

namespace Settings

/-- A setting that is on or off. -/
inductive Switch where
  | noDereference
  | ignoreFileNameCase
  | recursive
  | newFile
  | reportIdenticalFiles
  | portableMode
deriving DecidableEq, Repr

namespace Switch

/-- All of them, in the order in which they are written. -/
def all : List Switch :=
  [noDereference, ignoreFileNameCase, recursive, newFile, reportIdenticalFiles, portableMode]

/-- The key of a setting. -/
def key : Switch → String
  | noDereference => "no_dereference"
  | ignoreFileNameCase => "ignore_file_name_case"
  | recursive => "recursive"
  | newFile => "new_file"
  | reportIdenticalFiles => "report_identical_files"
  | portableMode => "portable_mode"

/-- Whether a setting is on. -/
def isOn (settings : Settings) : Switch → Bool
  | noDereference => settings.noDereference
  | ignoreFileNameCase => settings.ignoreFileNameCase
  | recursive => settings.recursive
  | newFile => settings.newFile
  | reportIdenticalFiles => settings.reportIdenticalFiles
  | portableMode => settings.portableMode

end Switch

/-- The key of the exclusion lines. -/
def ignorePatternsKey : String := "ignore_patterns"

/-! ## Writing -/

/-- A list of texts: on one line if it has at most one, else with a line
for each. -/
def listText : List String → List Char
  | [] => ['[', ']']
  | [text] => '[' :: Toml.quote text.toList ++ [']']
  | texts =>
    '[' :: texts.flatMap (fun text =>
      ['\n', ' ', ' ', ' ', ' '] ++ Toml.quote text.toList ++ [',']) ++ ['\n', ']']

/-- The word for a value of a switch. -/
def switchText (b : Bool) : List Char := if b then "true".toList else "false".toList

/-- The line of a setting. -/
def settingLine (key : String) (value : List Char) : List Char :=
  key.toList ++ [' ', '=', ' '] ++ value ++ ['\n']

/-- The text of some settings. -/
def toText (settings : Settings) : List Char :=
  settingLine ignorePatternsKey (listText settings.ignorePatterns) ++
    Switch.all.flatMap fun s => settingLine s.key (switchText (s.isOn settings))

/-! ## Reading -/

/-- The exclusion lines that a table gives. -/
def patternsOf? (t : Toml.Table) : Option (List String) :=
  match t.get? ignorePatternsKey with
  | none => some []
  | some (.list items) =>
    items.mapM fun
      | .text content => some content
      | _ => none
  | some _ => none

/-- Whether a table turns a switch on. -/
def switchOf? (t : Toml.Table) (s : Switch) : Option Bool :=
  match t.get? s.key with
  | none => some false
  | some (.boolean b) => some b
  | some _ => none

/-- The settings that a table gives. -/
def ofTable? (t : Toml.Table) : Option Settings := do
  return {
    ignorePatterns := ← patternsOf? t
    noDereference := ← switchOf? t .noDereference
    ignoreFileNameCase := ← switchOf? t .ignoreFileNameCase
    recursive := ← switchOf? t .recursive
    newFile := ← switchOf? t .newFile
    reportIdenticalFiles := ← switchOf? t .reportIdenticalFiles
    portableMode := ← switchOf? t .portableMode }

/-- The settings that a text stands for. -/
def ofText? (text : List Char) : Option Settings := (Toml.Table.ofText? text).bind ofTable?

end Settings

end TreeCompare
