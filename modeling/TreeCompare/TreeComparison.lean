import TreeCompare.Contents
import TreeCompare.Finding
import TreeCompare.Pairing
import TreeCompare.Lookup
/-!
# Comparing two trees

The names of two directories are paired; a tree comparison decides what each
pairing means, goes down into pairs of directories and gathers what it finds
(`TreeComparison.compareTrees`). Directories reached again on both sides are
not gone into again, so the chain of pairs that a comparison is in is never
longer than the directories of the file system allow, which is what
`TreeComparison.depthBound` counts.
-/

namespace TreeCompare

/-- What is done with the pairings of the entries. -/
structure TreeOptions where
  /-- Go down into directories that are on both sides. -/
  recursive : Bool := false
  /-- Compare an entry on one side only with an empty file or directory. -/
  newFile : Bool := false
  /-- Report files that are the same. -/
  reportIdentical : Bool := false
deriving DecidableEq, Repr

/-- A comparison of trees as configured, over a file system. -/
structure TreeComparison (σ : Type) where
  comparison : Comparison σ
  options : TreeOptions
  files : FileSystem

namespace TreeComparison

variable {σ : Type}

/-- What was found so far, the latest first. -/
abbrev Findings := List Finding

/-- A path, and what there was when it was looked at. -/
structure Located where
  path : Path
  stat : ObjectStat
deriving DecidableEq, Repr

/-- The operand of a comparison further down. -/
def Located.operand (l : Located) : Operand := .known l.path l.stat

/-- What is done with two directories further down. -/
abbrev Descent (σ : Type) := Operand → Operand → RunState σ → Findings → Step σ Findings

/-- A path could not be compared. -/
def failed (path : Path) (e : IoError) (s : RunState σ) (found : Findings) : Step σ Findings :=
  ⟨.trouble, s, .trouble path e.message :: found⟩

/-- Looks at a path, through a symbolic link if links are followed, and
goes on with what is there. -/
def lookAt (t : TreeComparison σ) (path : Path) (s : RunState σ) (found : Findings)
    (next : Located → Step σ Findings) : Step σ Findings :=
  match t.files.stat path t.comparison.options.followLinks with
  | .ok stat => next ⟨path, stat⟩
  | .error e => failed path e s found

/-- Two files were compared. -/
def verdict (t : TreeComparison σ) (left right : Path) (same : Bool) (s : RunState σ)
    (found : Findings) : Step σ Findings :=
  if same then
    ⟨.same, s, if t.options.reportIdentical then .identical left right :: found else found⟩
  else ⟨.different, s, .differ left right :: found⟩

/-- Two regular files: the same object is not read. -/
def compareFiles (t : TreeComparison σ) (left right : Located) (s : RunState σ)
    (found : Findings) : Step σ Findings :=
  if left.stat.sameObject right.stat then t.verdict left.path right.path true s found
  else match t.files.sameContents left.path left.stat.length right.path right.stat.length with
    | .ok same => t.verdict left.path right.path same s found
    | .error e => failed left.path e s found

/-- Two symbolic links are the same when their targets are. -/
def compareLinks (t : TreeComparison σ) (left right : Path) (s : RunState σ)
    (found : Findings) : Step σ Findings :=
  match t.files.readLink left, t.files.readLink right with
  | .ok a, .ok b => t.verdict left right (a.sameAs b) s found
  | .error e, _ => failed left e s found
  | .ok _, .error e => failed right e s found

/-- Two objects that are there. In a recursive comparison two directories
are gone into, if there is a way down. -/
def compareObjects (t : TreeComparison σ) (descend : Option (Descent σ)) (left right : Located)
    (s : RunState σ) (found : Findings) : Step σ Findings :=
  if left.stat.kind ≠ right.stat.kind then
    ⟨.different, s,
      .kindMismatch left.path left.stat.kind right.path right.stat.kind :: found⟩
  else match left.stat.kind with
    | .directory =>
      match descend, t.options.recursive with
      | some descend, true => descend left.operand right.operand s found
      | _, _ => ⟨.same, s, .commonSubdirectories left.path right.path :: found⟩
    | .regular => t.compareFiles left right s found
    | .symlink => t.compareLinks left.path right.path s found
    -- special files have no contents to compare
    | _ => t.verdict left.path right.path (left.stat.sameObject right.stat) s found

/-- An object on one side alone, with the other side counting as empty. -/
def compareWithNothing (t : TreeComparison σ) (descend : Descent σ) (side : Side)
    (present : Located) (absent : Path) (s : RunState σ) (found : Findings) : Step σ Findings :=
  let (left, right) := side.place present.path absent
  match present.stat.kind with
  | .directory =>
    if t.options.recursive then
      let (left, right) := side.place present.operand (.nonexistent absent)
      descend left right s found
    else ⟨.same, s, .commonSubdirectories left right :: found⟩
  | .regular => t.verdict left right (present.stat.length == 0) s found
  | _ => t.verdict left right false s found

/-- A name that only one side of `pair` has. -/
def visitLone (t : TreeComparison σ) (descend : Descent σ) (pair : DirectoryPair) (side : Side)
    (name : Name) (s : RunState σ) (found : Findings) : Step σ Findings :=
  let dir := (pair.side side).path
  if t.options.newFile then
    t.lookAt (dir.join name) s found fun present =>
      t.compareWithNothing descend side present ((pair.side side.other).path.join name) s found
  else ⟨.different, s, .onlyIn dir name :: found⟩

/-- What a pairing of the names of `pair` means. -/
def visit (t : TreeComparison σ) (descend : Descent σ) (pair : DirectoryPair)
    (pairing : Pairing) (s : RunState σ) (found : Findings) : Step σ Findings :=
  match pairing.left, pairing.right with
  | none, none => ⟨.same, s, found⟩
  | some name, none => t.visitLone descend pair .left name s found
  | none, some name => t.visitLone descend pair .right name s found
  | some a, some b =>
    t.lookAt (pair.left.path.join a) s found fun left =>
      t.lookAt (pair.right.path.join b) s found fun right =>
        t.compareObjects (some descend) left right s found

/-- Compares the directories of `pair`, at most `depth` pairs of
directories deep, and gives the pair as it is afterwards. A pair deeper
than that is one that leads back. -/
def compareWithin (t : TreeComparison σ) : (depth : Nat) → DirectoryPair → RunState σ →
    Findings → Comparison.Paired σ Findings
  | 0, pair, s, found =>
    ⟨⟨.trouble, s.report (.recursiveLoop pair.left.path), found⟩, pair⟩
  | depth + 1, pair, s, found =>
    let s := s.note (.directories pair.left.path pair.right.path pair.depth)
    t.comparison.pairDirectories t.files pair
      (fun pair => t.visit
        (fun left right s found => (t.compareWithin depth (pair.below left right) s found).toStep)
        pair) s found

/-- How many pairs of directories can lie inside each other before both
sides lead back: every pair that does not brings in a directory that is new
to one of the sides. -/
def depthBound (t : TreeComparison σ) : Nat := 2 * t.files.directories.length + 2

/-- Compares the directories of `pair` level by level. -/
def compareDirectories (t : TreeComparison σ) (pair : DirectoryPair) (s : RunState σ)
    (found : Findings) : Step σ Findings :=
  (t.compareWithin t.depthBound pair s found).toStep

/-- A directory on `side` compared with a file stands for its entry of the
file's name. -/
def compareAcross (t : TreeComparison σ) (side : Side) (dir file : Located) (s : RunState σ)
    (found : Findings) : Step σ Findings :=
  match file.path.fileName? with
  | none =>
    ⟨.trouble, s, .trouble file.path "cannot compare a directory with this file name" :: found⟩
  | some name =>
    let (path, _, s) := t.comparison.lookUp t.files dir.operand name s
    t.lookAt path s found fun entry =>
      let (left, right) := side.place entry file
      t.compareObjects none left right s found

/-- Compares two operands. -/
def compareTrees (t : TreeComparison σ) (left right : Path) (s : RunState σ) :
    Step σ Findings :=
  let s := s.reset.note (.comparing left right)
  t.lookAt left s [] fun left =>
    t.lookAt right s [] fun right =>
      match left.stat.kind.isDirectory, right.stat.kind.isDirectory with
      | true, true => t.compareDirectories (.root left.operand right.operand) s []
      | true, false => t.compareAcross .left left right s []
      | false, true => t.compareAcross .right right left s []
      | false, false => t.compareObjects none left right s []

end TreeComparison

end TreeCompare
