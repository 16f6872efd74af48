/-!
# Statuses and sides

The outcome of a comparison, ordered by severity so that the outcome of a
whole run is the worst over its parts, and the two sides of a comparison.
-/

namespace TreeCompare

/-- Outcome of comparing a pair of files or directories. -/
inductive Status where
  /-- Everything compared equal. -/
  | same
  /-- At least one difference was found. -/
  | different
  /-- Something could not be compared. -/
  | trouble
deriving DecidableEq, Repr, Inhabited

namespace Status

/-- The exit code that reports a status, which is also its severity. -/
def exitCode : Status → Nat
  | same => 0
  | different => 1
  | trouble => 2

instance : Ord Status := ⟨fun a b => compare a.exitCode b.exitCode⟩

/-- Something could not be compared. -/
def isTrouble (s : Status) : Bool := s == trouble

/-- The worse of two outcomes. -/
def worse (s t : Status) : Status :=
  if s.exitCode < t.exitCode then t else s

/-- The word for a status in reports. -/
def word : Status → String
  | same => "same"
  | different => "different"
  | trouble => "trouble"

@[simp] theorem worse_same (s : Status) : s.worse same = s := by cases s <;> rfl

@[simp] theorem same_worse (s : Status) : same.worse s = s := by cases s <;> rfl

@[simp] theorem exitCode_worse (s t : Status) :
    (s.worse t).exitCode = max s.exitCode t.exitCode := by cases s <;> cases t <;> rfl

theorem worse_assoc (s t u : Status) : (s.worse t).worse u = s.worse (t.worse u) := by
  cases s <;> cases t <;> cases u <;> rfl

end Status

/-- Which of the two compared operands something belongs to. -/
inductive Side where
  | left
  | right
deriving DecidableEq, Repr

namespace Side

/-- The position of a side in a pair. -/
def index : Side → Nat
  | left => 0
  | right => 1

/-- The opposite side. -/
def other : Side → Side
  | left => right
  | right => left

/-- Something on a side and its counterpart on the other, as a pair with
the left one first. -/
def place {α : Type} (side : Side) (here there : α) : α × α :=
  match side with
  | left => (here, there)
  | right => (there, here)

/-- The word for a side in reports. -/
def word : Side → String
  | left => "left"
  | right => "right"

@[simp] theorem other_other (s : Side) : s.other.other = s := by cases s <;> rfl

/-- There are two sides. -/
theorem forall_of_other {P : Side → Prop} {s : Side} (h : P s) (h' : P s.other) (side : Side) :
    P side := by
  cases s <;> cases side <;> assumption

/-- What is there of either side is in its place whichever of them comes
first. -/
theorem place_apply {α : Type} (s : Side) (f : Side → α) :
    s.place (f s) (f s.other) = (f .left, f .right) := by
  cases s <;> rfl

end Side

end TreeCompare
