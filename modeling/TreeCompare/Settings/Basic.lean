import TreeCompare.Exclusions
import TreeCompare.TreeComparison
/-!
# Settings

What a user sets once for all comparisons, and what it means for the names
that are paired and for the trees that are compared.
-/

namespace TreeCompare

/-- The settings of a user. -/
structure Settings where
  /-- Exclusion lines, matched against the names of entries. -/
  ignorePatterns : List String := []
  /-- Do not go through symbolic links. -/
  noDereference : Bool := false
  /-- Pair names that differ only in case. -/
  ignoreFileNameCase : Bool := false
  /-- Go down into directories that are on both sides. -/
  recursive : Bool := false
  /-- Compare an entry on one side only with an empty one. -/
  newFile : Bool := false
  /-- Report files that are the same. -/
  reportIdenticalFiles : Bool := false
  /-- The settings are kept next to the program. -/
  portableMode : Bool := false
deriving DecidableEq, Repr

namespace Settings

/-- How names are paired. -/
def comparisonOptions (settings : Settings) : ComparisonOptions where
  ignoreCase := settings.ignoreFileNameCase
  followLinks := !settings.noDereference
  startingFile := none

/-- What is done with the pairings. -/
def treeOptions (settings : Settings) : TreeOptions where
  recursive := settings.recursive
  newFile := settings.newFile
  reportIdentical := settings.reportIdenticalFiles

end Settings

end TreeCompare
