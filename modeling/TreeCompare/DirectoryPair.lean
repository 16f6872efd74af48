import TreeCompare.FileSystem
import TreeCompare.Status
/-!
# Operands and the chain of directory pairs

A comparison goes down two trees side by side. A `DirectoryPair` is the pair
of directories it has reached, with the pairs it came through. A side leads
back when its directory is one of those it came through
(`DirectoryPair.isRepeated`).
-/

namespace TreeCompare

/-- What is known of the directory behind an operand. -/
inductive Opening where
  /-- Known not to exist; it reads as empty. -/
  | nonexistent
  /-- Not opened yet. -/
  | unopened
  /-- Opened at least once. -/
  | opened
deriving DecidableEq, Repr

/-- The word for what is known in reports. -/
def Opening.word : Opening → String
  | nonexistent => "nonexistent"
  | unopened => "unopened"
  | opened => "opened"

/-- One operand of a comparison. -/
structure Operand where
  path : Path
  opening : Opening
  stat : Option ObjectStat
deriving DecidableEq, Repr

namespace Operand

/-- An operand whose directory will be opened when it is first read. -/
def unopened (path : Path) : Operand := ⟨path, .unopened, none⟩

/-- An operand that is compared as if it were an empty directory. -/
def nonexistent (path : Path) : Operand := ⟨path, .nonexistent, none⟩

/-- An operand whose stat is known. -/
def known (path : Path) (stat : ObjectStat) : Operand := ⟨path, .unopened, some stat⟩

/-- An operand whose path is looked at now. -/
def ofPath (fs : FileSystem) (path : Path) (follow : Bool) : Except IoError Operand :=
  (fs.stat path follow).map (known path)

/-- The operand is known not to exist. -/
def isNonexistent (operand : Operand) : Bool := operand.opening == .nonexistent

/-- Both operands are known to be the same object. -/
def sameObject (a b : Operand) : Bool :=
  match a.stat, b.stat with
  | some s, some t => s.sameObject t
  | _, _ => false

end Operand

/-- A pair of directories being compared, and the pairs it was reached
through, the nearest first. -/
structure DirectoryPair where
  left : Operand
  right : Operand
  ancestors : List (Operand × Operand)
deriving DecidableEq, Repr

namespace DirectoryPair

/-- The pair a comparison starts with. -/
def root (left right : Operand) : DirectoryPair := ⟨left, right, []⟩

/-- A pair of entries found while comparing `pair`. -/
def below (pair : DirectoryPair) (left right : Operand) : DirectoryPair :=
  ⟨left, right, (pair.left, pair.right) :: pair.ancestors⟩

/-- The operand on a side. -/
def side (pair : DirectoryPair) : Side → Operand
  | .left => pair.left
  | .right => pair.right

/-- The operands a side was reached through, the nearest first. -/
def ancestorsOn (pair : DirectoryPair) : Side → List Operand
  | .left => pair.ancestors.map (·.1)
  | .right => pair.ancestors.map (·.2)

/-- The pair a comparison starts with has no ancestors. -/
def isRoot (pair : DirectoryPair) : Bool := pair.ancestors.isEmpty

/-- How many levels below the root the pair lies. -/
def depth (pair : DirectoryPair) : Nat := pair.ancestors.length

/-- A side is the same directory as that side of one of its ancestors. A
side without a known identity never is. -/
def isRepeated (pair : DirectoryPair) (side : Side) : Bool :=
  (pair.ancestorsOn side).any fun ancestor => ancestor.sameObject (pair.side side)

/-- A side has nothing new to offer: it does not exist, or it leads back. -/
def leadsBack (pair : DirectoryPair) (side : Side) : Bool :=
  (pair.side side).isNonexistent || pair.isRepeated side

end DirectoryPair

end TreeCompare
