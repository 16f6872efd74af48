import TreeCompare.FileSystem
/-!
# Findings

What a comparison of two trees finds, and the sentence that reports it.
-/

namespace TreeCompare

/-- Something that a comparison found. -/
inductive Finding where
  /-- An entry that only one of two directories has. -/
  | onlyIn (dir : Path) (name : Name)
  /-- Two directories that were not compared further. -/
  | commonSubdirectories (left right : Path)
  /-- Two files that are the same. -/
  | identical (left right : Path)
  /-- Two files that are not the same. -/
  | differ (left right : Path)
  /-- Two entries of different kinds. -/
  | kindMismatch (left : Path) (leftKind : ObjectKind) (right : Path) (rightKind : ObjectKind)
  /-- A path that could not be compared, and why. -/
  | trouble (path : Path) (message : String)
deriving DecidableEq, Repr

namespace Finding

/-- The sentence that reports a finding. -/
def message : Finding → String
  | onlyIn dir name => s!"Only in {dir.text}: {name.text}"
  | commonSubdirectories left right =>
    s!"Common subdirectories: {left.text} and {right.text}"
  | identical left right => s!"Files {left.text} and {right.text} are identical"
  | differ left right => s!"Files {left.text} and {right.text} differ"
  | kindMismatch left leftKind right rightKind =>
    s!"File {left.text} is a {leftKind.description} while file {right.text} is a " ++
      rightKind.description
  | trouble path message => s!"{path.text}: {message}"

/-- The identifier of a finding's kind in structured reports. -/
def word : Finding → String
  | onlyIn .. => "only_in"
  | commonSubdirectories .. => "common_subdirectories"
  | identical .. => "identical"
  | differ .. => "differ"
  | kindMismatch .. => "kind_mismatch"
  | trouble .. => "trouble"

end Finding

end TreeCompare
