import TreeCompare.CommandLine.Grammar
import TreeCompare.Settings.Basic
/-!
# Commands

What the program can be asked to do, and how a command line asks for it
(`Command.ofArguments`).
-/

namespace TreeCompare

namespace CommandLine

/-- The options of a comparison. -/
inductive CompareOption where
  | recursive
  | ignoreFileNameCase
  | newFile
  | reportIdenticalFiles
  | exclude
  | startingFile
  | noDereference
  | json
  | portable
deriving DecidableEq, Repr

/-- What a comparison is asked to do. -/
structure CompareRequest where
  left : Path
  right : Path
  /-- Exclusion lines, besides those of the settings. -/
  exclude : List String := []
  startingFile : Option Name := none
  recursive : Bool := false
  ignoreFileNameCase : Bool := false
  newFile : Bool := false
  reportIdenticalFiles : Bool := false
  noDereference : Bool := false
  /-- Report in JSON. -/
  json : Bool := false
  /-- Use the settings next to the program. -/
  portable : Bool := false
deriving DecidableEq, Repr

/-- What the program is asked to do. -/
inductive Command where
  | compare (request : CompareRequest)
  /-- Find the path that a name means in a directory. -/
  | lookUp (dir : Path) (name : Name) (ignoreCase : Bool)
  /-- Make sure that there is a file of settings. -/
  | setUp (portable : Bool)
deriving DecidableEq, Repr

/-- Some settings with the options of a request on top. -/
def CompareRequest.adjust (request : CompareRequest) (settings : Settings) : Settings :=
  { settings with
    ignorePatterns := settings.ignorePatterns ++ request.exclude
    recursive := settings.recursive || request.recursive
    ignoreFileNameCase := settings.ignoreFileNameCase || request.ignoreFileNameCase
    newFile := settings.newFile || request.newFile
    reportIdenticalFiles := settings.reportIdenticalFiles || request.reportIdenticalFiles
    noDereference := settings.noDereference || request.noDereference }

/-- An argument that is text. -/
def isText (argument : Argument) : Bool := (Utf8.decode? argument).isSome

/-- An argument that can be a path. -/
def isPath (argument : Argument) : Bool := argument ≠ []

/-- The option that asks for help. -/
def helpForm {κ : Type} : OptionForm κ := ⟨some 'h', "help", .interrupt .help⟩

/-- The arguments of a comparison. -/
def compareGrammar : Grammar CompareOption where
  options := [
    ⟨some 'r', "recursive", .switch .recursive⟩,
    ⟨some 'i', "ignore-file-name-case", .switch .ignoreFileNameCase⟩,
    ⟨some 'N', "new-file", .switch .newFile⟩,
    ⟨some 's', "report-identical-files", .switch .reportIdenticalFiles⟩,
    ⟨some 'x', "exclude", .value ⟨.exclude, true, isText⟩⟩,
    ⟨some 'S', "starting-file", .value ⟨.startingFile, false, fun _ => true⟩⟩,
    ⟨none, "no-dereference", .switch .noDereference⟩,
    ⟨none, "json", .switch .json⟩,
    ⟨none, "portable", .switch .portable⟩,
    helpForm]
  operands := [isPath, isPath]

/-- The options of a look-up. -/
inductive LookUpOption where
  | ignoreCase
deriving DecidableEq, Repr

/-- The arguments of a look-up. -/
def lookUpGrammar : Grammar LookUpOption where
  options := [⟨some 'i', "ignore-case", .switch .ignoreCase⟩, helpForm]
  operands := [isPath, fun _ => true]

/-- The options of setting up. -/
inductive SetUpOption where
  | portable
deriving DecidableEq, Repr

/-- The arguments of setting up. -/
def setUpGrammar : Grammar SetUpOption where
  options := [⟨none, "portable", .switch .portable⟩, helpForm]
  operands := []

/-- What stands in front of a command. -/
def programGrammar : Grammar Unit where
  options := [helpForm, ⟨some 'V', "version", .interrupt .version⟩]
  operands := []

/-- The text of an argument. -/
def textOf (argument : Argument) : String := String.ofList (Utf8.lossy argument)

namespace Command

/-- The comparison that arguments ask for. -/
def ofCompareArguments (arguments : List Argument) : Except Interruption Command :=
  match compareGrammar.read arguments with
  | .error cause => .error cause
  | .ok r =>
    match r.operands with
    | [left, right] =>
      .ok (.compare {
        left := ⟨left⟩
        right := ⟨right⟩
        exclude := (r.valuesOf .exclude).map textOf
        startingFile := (r.valuesOf .startingFile).head?.map Name.mk
        recursive := r.switches.contains .recursive
        ignoreFileNameCase := r.switches.contains .ignoreFileNameCase
        newFile := r.switches.contains .newFile
        reportIdenticalFiles := r.switches.contains .reportIdenticalFiles
        noDereference := r.switches.contains .noDereference
        json := r.switches.contains .json
        portable := r.switches.contains .portable })
    | _ => .error .usage

/-- The look-up that arguments ask for. -/
def ofLookUpArguments (arguments : List Argument) : Except Interruption Command :=
  match lookUpGrammar.read arguments with
  | .error cause => .error cause
  | .ok r =>
    match r.operands with
    | [dir, name] => .ok (.lookUp ⟨dir⟩ ⟨name⟩ (r.switches.contains .ignoreCase))
    | _ => .error .usage

/-- The setting up that arguments ask for. -/
def ofSetUpArguments (arguments : List Argument) : Except Interruption Command :=
  match setUpGrammar.read arguments with
  | .error cause => .error cause
  | .ok r => .ok (.setUp (r.switches.contains .portable))

/-- The commands by their names. -/
def named : List (String × (List Argument → Except Interruption Command)) :=
  [("compare", ofCompareArguments), ("resolve", ofLookUpArguments),
    ("init-config", ofSetUpArguments), ("help", ofHelpArguments)]
where
  /-- Help with the program, or with one command. -/
  ofHelpArguments (arguments : List Argument) : Except Interruption Command :=
    let names := ["compare", "resolve", "init-config", "help"].map fun s => Utf8.encode s.toList
    match arguments with
    | [] => .error .help
    | [name] => .error (if names.contains name then .help else .usage)
    | _ => .error .usage

/-- What a command line asks for. Its first argument names the command. -/
def ofArguments (arguments : List Argument) : Except Interruption Command :=
  match arguments with
  | [] => .error .usage
  | first :: rest =>
    match named.find? (Utf8.encode ·.1.toList == first) with
    | some (_, read) => read rest
    | none =>
      match programGrammar.read [first] with
      | .error cause => .error cause
      | .ok _ => .error .usage

end Command

end CommandLine

end TreeCompare
