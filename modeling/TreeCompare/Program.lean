import TreeCompare.CommandLine.Command
import TreeCompare.Settings.Store
import TreeCompare.Report
import TreeCompare.Session
/-!
# The program

What the program does with its arguments, in an environment and on a tree
of files: it compares, looks up or sets up, and says what it prints, how
it ends, and what the tree is then (`Program.run`). Locales and the matching
of globs are services that it is given.
-/

namespace TreeCompare

open CommandLine

/-- What a run of the program shows. -/
structure Printed where
  status : Status
  /-- The lines printed. -/
  output : List String

/-- How a run of the program ends. -/
structure Outcome extends Printed where
  tree : FileTree

namespace Program

/-- The line that tells the version. -/
def version : String := "dirpair 0.1.0"

/-- The session of a comparison under some settings. -/
def session (locales : LocaleService) (globs : GlobService) (settings : Settings)
    (request : CompareRequest) : Session Unit :=
  let configured := Session.ofSettings globs settings (locales.find.collator locales) ()
  match request.startingFile with
  | some name => configured.startAt name
  | none => configured

/-- The comparison of trees in a session. -/
def trees (session : Session Unit) (fs : FileSystem) (settings : Settings) :
    TreeComparison Unit :=
  ⟨session.comparison, settings.treeOptions, fs⟩

/-- Compares the two operands in a session. -/
def compareIn (session : Session Unit) (fs : FileSystem) (settings : Settings)
    (request : CompareRequest) : Step Unit TreeComparison.Findings :=
  (trees session fs settings).compareTrees request.left request.right session.run

/-- What a comparison finds, with the diagnostics collected. -/
def report (fs : FileSystem) (locales : LocaleService) (globs : GlobService) (settings : Settings)
    (request : CompareRequest) : Report :=
  let session := (session locales globs settings request).collectDiagnostics
  let step := compareIn session fs settings request
  {
    left := request.left
    right := request.right
    status := step.status
    findings := step.result.reverse
    diagnostics := { session with run := step.run }.diagnostics }

/-- Compares as set and asked for. Findings are printed one by one, or in a
report at the end. -/
def compare (fs : FileSystem) (env : Environment) (locales : LocaleService) (globs : GlobService)
    (request : CompareRequest) : Printed :=
  match Settings.find fs env request.portable with
  | .error _ => ⟨.trouble, []⟩
  | .ok found =>
    let settings := request.adjust found.settings
    if request.json then
      let report := report fs locales globs settings request
      ⟨report.status, [report.toJson.toText]⟩
    else
      let step := compareIn (session locales globs settings request) fs settings request
      ⟨step.status, step.result.reverse.map Finding.message⟩

/-- Finds the path that a name means in a directory. -/
def lookUp (t : FileTree) (locales : LocaleService) (dir : Path) (name : Name)
    (ignoreCase : Bool) : Outcome :=
  let session := Session.start ⟨ignoreCase, true, none⟩ (locales.find.collator locales) ()
  let (path, _, _) := session.comparison.lookUp t.fileSystem (.unopened dir) name session.run
  ⟨⟨.same, [path.text]⟩, t⟩

/-- Makes sure that there is a file of settings and tells where. -/
def setUp (t : FileTree) (env : Environment) (portable : Bool) : Outcome :=
  match Settings.establish t env portable with
  | .error _ => ⟨⟨.trouble, []⟩, t⟩
  | .ok (found, t) => ⟨⟨.same, [found.path.text]⟩, t⟩

/-- Carries out a command. -/
def carryOut (t : FileTree) (env : Environment) (locales : LocaleService) (globs : GlobService) :
    Command → Outcome
  | .compare request => ⟨compare t.fileSystem env locales globs request, t⟩
  | .lookUp dir name ignoreCase => lookUp t locales dir name ignoreCase
  | .setUp portable => setUp t env portable

/-- Runs the program. -/
def run (t : FileTree) (env : Environment) (locales : LocaleService) (globs : GlobService)
    (arguments : List Argument) : Outcome :=
  match Command.ofArguments arguments with
  | .ok command => carryOut t env locales globs command
  | .error .version => ⟨⟨.same, [version]⟩, t⟩
  | .error .help => ⟨⟨.same, []⟩, t⟩
  | .error .usage => ⟨⟨.trouble, []⟩, t⟩

end Program

end TreeCompare
