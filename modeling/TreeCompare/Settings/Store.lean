import TreeCompare.Settings.Text
import TreeCompare.FileTree
/-!
# Where settings are kept

Settings are read from a file and written to one. The file lies next to the
program if portable settings are asked for or are there, and in the user's
directory for such files otherwise (`Settings.location`).
-/

namespace TreeCompare

/-- Why there are no settings. -/
inductive SettingsError where
  /-- The file could not be read or written. -/
  | io (error : IoError)
  /-- Nothing says where the file of the user is. -/
  | noDirectory
  /-- The text of the file stands for no settings. -/
  | malformed
deriving DecidableEq, Repr

/-- The text of an error in reports. -/
def SettingsError.message : SettingsError → String
  | io error => s!"IO error: {error.message}"
  | noDirectory => "Invalid configuration: Unable to determine config directory"
  | malformed => "Serialization error"

/-- Settings, and where they came from. -/
structure FoundSettings where
  settings : Settings
  path : Path
  /-- There is such a file. -/
  existed : Bool
  /-- The file lies next to the program. -/
  portable : Bool
deriving DecidableEq, Repr

namespace Settings

/-- The settings in the file at `path`. Without a file they are the default
ones. -/
def ofFile (fs : FileSystem) (path : Path) : Except SettingsError FoundSettings :=
  if fs.pathExists path then
    match fs.bytesAt path with
    | .error e => .error (.io e)
    | .ok bytes =>
      match Utf8.decode? bytes with
      | none => .error (.io .notText)
      | some text =>
        match ofText? text with
        | none => .error .malformed
        | some settings => .ok ⟨settings, path, true, settings.portableMode⟩
  else .ok ⟨{}, path, false, false⟩

/-- The tree in which settings are in the file at `path`, together with the
directories that lead there. -/
def writeTo (t : FileTree) (path : Path) (settings : Settings) :
    Except SettingsError FileTree :=
  let prepared :=
    match path.parent? with
    | some dir => t.makeDirectories dir
    | none => .ok t
  match prepared with
  | .error e => .error (.io e)
  | .ok t =>
    match t.setBytes path (Utf8.encode settings.toText) with
    | .error e => .error (.io e)
    | .ok t => .ok t

end Settings

/-- What a process knows about where it runs. -/
structure Environment where
  /-- The file of the program. -/
  program : Option Path
  /-- Where the user wants settings to be kept. -/
  configHome : Option Path
  /-- The user's home directory, as the environment has it. -/
  home : Option Path
  /-- The home directory of the user's account. -/
  accountHome : Option Path

namespace Environment

/-- The name of a file of settings. -/
def fileName : Name := Name.ofString "dirpair.toml"

/-- The file of settings next to the program. -/
def portablePath (env : Environment) : Option Path :=
  (env.program.bind Path.parent?).map fun dir => dir.join fileName

/-- The user's home directory. -/
def homeDirectory (env : Environment) : Option Path :=
  match env.home with
  | some home => if home.bytes = [] then env.accountHome else some home
  | none => env.accountHome

/-- The file of settings in the user's directory for them. A place for
settings counts only if it is an absolute path. -/
def userPath (env : Environment) : Option Path :=
  env.homeDirectory.map fun home =>
    let dir :=
      match env.configHome with
      | some dir => if dir.isAbsolute then dir else home.join (Name.ofString ".config")
      | none => home.join (Name.ofString ".config")
    (dir.join (Name.ofString "dirpair")).join fileName

end Environment

namespace Settings

/-- The file that settings are kept in, and whether it is the portable
one. -/
def location (fs : FileSystem) (env : Environment) (preferPortable : Bool) :
    Except SettingsError (Path × Bool) :=
  let user : Except SettingsError (Path × Bool) :=
    match env.userPath with
    | some path => .ok (path, false)
    | none => .error .noDirectory
  match env.portablePath with
  | some path => if preferPortable || fs.pathExists path then .ok (path, true) else user
  | none => user

/-- The settings of a process. Whether they are portable shows in where
their file lies. -/
def find (fs : FileSystem) (env : Environment) (preferPortable : Bool) :
    Except SettingsError FoundSettings :=
  match location fs env preferPortable with
  | .error e => .error e
  | .ok (path, portable) =>
    match ofFile fs path with
    | .error e => .error e
    | .ok found =>
      .ok { found with
        portable := portable
        settings := { found.settings with portableMode := portable } }

/-- The settings of a process, and the tree in which they have a file. -/
def establish (t : FileTree) (env : Environment) (preferPortable : Bool) :
    Except SettingsError (FoundSettings × FileTree) :=
  match find t.fileSystem env preferPortable with
  | .error e => .error e
  | .ok found =>
    if found.existed then .ok (found, t)
    else
      match writeTo t found.path found.settings with
      | .error e => .error e
      | .ok t => .ok (found, t)

end Settings

end TreeCompare
