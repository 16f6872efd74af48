import TreeCompare.DirectoryNames
/-!
# Looking a name up in a directory

`Comparison.lookUp` finds the path of the entry that a name means. When
case is ignored, the directory is searched for the spelling it really has:
an exact one wins, else the first that matches. Where nothing matches, or
the directory cannot be read, the name stands as it is given.
-/

namespace TreeCompare

namespace Comparison

variable {σ : Type}

/-- The candidate that `name` means: `name` itself if it is one of them,
else the first one. -/
def bestMatch (name : Name) (candidates : List Name) : Option Name :=
  if candidates.contains name then some name else candidates.head?

/-- The path of the entry that `name` means in the directory `dir`, the
operand afterwards, and the state of the run. -/
def lookUp (c : Comparison σ) (fs : FileSystem) (dir : Operand) (name : Name) (s : RunState σ) :
    Path × Operand × RunState σ :=
  if c.options.ignoreCase then
    match c.namesIn fs dir (some name) true s with
    | (.ok table, dir, s) =>
      (dir.path.join ((bestMatch name table.names).getD name), dir, s)
    | (.error e, dir, s) =>
      (dir.path.join name, dir, s.note (.notSearched dir.path name e.message))
  else (dir.path.join name, dir, s)

end Comparison

end TreeCompare
