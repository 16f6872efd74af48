import TreeCompare.Finding
import TreeCompare.Journal
import TreeCompare.Report.Json
import TreeCompare.Status
/-!
# Reports of a comparison

What a comparison found and how it ended, as JSON (`Report.toJson`).
-/

namespace TreeCompare

/-- What a comparison found. -/
structure Report where
  left : Path
  right : Path
  status : Status
  /-- The findings, in order. -/
  findings : List Finding
  /-- What else was reported, in order. -/
  diagnostics : List Diagnostic
deriving DecidableEq, Repr

/-- The paths that a finding is about. A finding about one path has it on
the left, whichever side it is from. -/
def Finding.paths : Finding → Path × Option Path
  | onlyIn dir name => (dir.join name, none)
  | commonSubdirectories left right => (left, some right)
  | identical left right => (left, some right)
  | differ left right => (left, some right)
  | kindMismatch left _ right _ => (left, some right)
  | trouble path _ => (path, none)

/-- A finding in JSON. The kinds are named where they are what differs. -/
def Finding.toJson (finding : Finding) : Json :=
  let (left, right) := finding.paths
  let kinds :=
    match finding with
    | .kindMismatch _ leftKind _ rightKind =>
      [("left_kind", Json.text leftKind.word), ("right_kind", Json.text rightKind.word)]
    | _ => []
  .object ([("kind", .text finding.word), ("left", .text left.text),
    ("right", match right with | some path => .text path.text | none => .null)] ++ kinds ++
    [("message", .text finding.message)])

namespace Report

/-- The report in JSON. -/
def toJson (report : Report) : Json :=
  .object [("left", .text report.left.text), ("right", .text report.right.text),
    ("status", .text report.status.word), ("exit_code", .number report.status.exitCode),
    ("events", .list (report.findings.map Finding.toJson)),
    ("diagnostics", .list (report.diagnostics.map fun d => .text d.message))]

end Report

end TreeCompare
