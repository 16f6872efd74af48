import TreeCompare.DirectoryNames
/-!
# Pairing the names of two directories

Two sorted tables of names are gone through side by side, and every name is
handed on exactly once, in pairs where the two sides match
(`Comparison.pairTables`). A name that matches only up to case gives way to
one that matches byte for byte, if the run of matches holds one
(`Comparison.favourExact`). When collation fails on the way, what is left
of both tables is sorted by bytes and the pairing goes on
(`Comparison.align`).

The pairs go to a visitor, which may use the run as it likes: it gets the
state of the run and returns it, together with a state of its own.
-/

namespace TreeCompare

/-- A name on one side matched with a name, or nothing, on the other.
No pairing with both absent is ever handed on. -/
structure Pairing where
  left : Option Name
  right : Option Name
deriving DecidableEq, Repr

namespace Pairing

/-- The name on a side. -/
def get (p : Pairing) : Side → Option Name
  | .left => p.left
  | .right => p.right

/-- There is a name on both sides. -/
def isComplete (p : Pairing) : Bool := p.left.isSome && p.right.isSome

/-- The side that holds the only name. -/
def loneSide (p : Pairing) : Option Side :=
  match p.left, p.right with
  | some _, none => some .left
  | none, some _ => some .right
  | _, _ => none

/-- Some name of the pairing, the left one when there are two. -/
def name (p : Pairing) : Name := (p.left <|> p.right).getD ⟨[]⟩

end Pairing

/-- What a step of a comparison leaves behind: its status, the state of the
run, and what its user has gathered. -/
structure Step (σ α : Type) where
  status : Status
  run : RunState σ
  result : α

/-- What is done with a pairing. -/
abbrev Visitor (σ α : Type) := Pairing → RunState σ → α → Step σ α

namespace Comparison

variable {σ α : Type}

/-- Looks through `candidates`, as long as they match `exact` up to case
and sort before it, for `exact` itself, and gives its place among them. -/
def searchExact (c : Comparison σ) (exact : Name) :
    (candidates : List Name) → RunState σ → Option Nat × RunState σ
  | [], s => (none, s)
  | candidate :: candidates, s =>
    match c.order.matchingOrder candidate exact s with
    | (.eq, s) =>
      match candidate.bytewise exact with
      | .lt =>
        let (place, s) := c.searchExact exact candidates s
        (place.map (· + 1), s)
      | .eq => (some 0, s)
      | .gt => (none, s)
    | (_, s) => (none, s)

/-- The table with `exact` moved to position `i` if it is found among
the names after `i` that match it. -/
def fetchExact (c : Comparison σ) (t : NameTable) (i : Nat) (exact : Name) (s : RunState σ) :
    NameTable × RunState σ :=
  match c.searchExact exact (t.names.drop (i + 1)) s with
  | (some place, s) => (t.bringForward i (i + 1 + place), s)
  | (none, s) => (t, s)

/-- The tables with an exact match for one of the heads `a` and `b`, at
positions `i` and `j`, moved to the other head's place, if there is one on
the side whose head sorts first. -/
def favourExact (c : Comparison σ) (left : NameTable) (i : Nat) (a : Name) (right : NameTable)
    (j : Nat) (b : Name) (s : RunState σ) : NameTable × NameTable × RunState σ :=
  match a.bytewise b with
  | .eq => (left, right, s)
  | .lt =>
    let (left, s) := c.fetchExact left i b s
    (left, right, s)
  | .gt =>
    let (right, s) := c.fetchExact right j a s
    (left, right, s)

/-- Two tables about to hand on the names at two positions: which head
comes first, the tables, and the state of the run. -/
structure Aligned (σ : Type) where
  order : Ordering
  left : NameTable
  right : NameTable
  run : RunState σ

/-- Compares the heads `a` and `b` at positions `i` and `j` and puts an
exact match in place. If collation fails meanwhile, the names from the two
positions on are sorted again and the new heads compared by bytes. -/
def alignHeads (c : Comparison σ) (left : NameTable) (i : Nat) (a : Name) (right : NameTable)
    (j : Nat) (b : Name) (s : RunState σ) : Aligned σ :=
  let (o, s₁) := c.order.matchingOrder a b s
  let (left, right, s₁) :=
    if o = .eq ∧ c.options.ignoreCase then c.favourExact left i a right j b s₁
    else (left, right, s₁)
  if s₁.basis = s.basis then ⟨o, left, right, s₁⟩
  else
    let (left, s₁) := left.sortTail i c.order (s₁.note .resorted)
    let (right, s₁) := right.sortTail j c.order s₁
    ⟨((left.get? i).getD a).bytewise ((right.get? j).getD b), left, right, s₁⟩

/-- The same where a table may have come to its end. -/
def align (c : Comparison σ) (left : NameTable) (i : Nat) (right : NameTable) (j : Nat)
    (s : RunState σ) : Aligned σ :=
  match left.get? i, right.get? j with
  | none, _ => ⟨.gt, left, right, s⟩
  | some _, none => ⟨.lt, left, right, s⟩
  | some a, some b => c.alignHeads left i a right j b s

theorem searchExact_lt {c : Comparison σ} {exact : Name} {candidates : List Name}
    {s : RunState σ} {place : Nat} (h : (c.searchExact exact candidates s).1 = some place) :
    place < candidates.length := by
  induction candidates generalizing s place with
  | nil => simp [searchExact] at h
  | cons candidate candidates ih =>
    simp only [searchExact] at h
    split at h
    · split at h
      · simp only [Option.map_eq_some_iff] at h
        obtain ⟨p, hp, rfl⟩ := h
        have := ih hp
        simp only [List.length_cons]
        omega
      · simp only [Option.some.injEq] at h
        simp [← h]
      · simp at h
    · simp at h

theorem size_fetchExact (c : Comparison σ) (t : NameTable) (i : Nat) (exact : Name)
    (s : RunState σ) : (c.fetchExact t i exact s).1.size = t.size := by
  simp only [fetchExact]
  split
  · next place _ heq =>
    have h := searchExact_lt (congrArg Prod.fst heq)
    simp only [List.length_drop, NameTable.length_names] at h
    exact NameTable.size_bringForward (by omega) (by omega)
  · rfl

theorem size_align (c : Comparison σ) (left : NameTable) (i : Nat) (right : NameTable) (j : Nat)
    (s : RunState σ) :
    (c.align left i right j s).left.size = left.size ∧
      (c.align left i right j s).right.size = right.size := by
  simp only [align]
  split
  · exact ⟨rfl, rfl⟩
  · exact ⟨rfl, rfl⟩
  · next a b _ _ =>
    have hp : ∀ s, (c.favourExact left i a right j b s).1.size = left.size ∧
        (c.favourExact left i a right j b s).2.1.size = right.size := by
      intro s
      simp only [favourExact]
      split
      · exact ⟨rfl, rfl⟩
      · exact ⟨size_fetchExact .., rfl⟩
      · exact ⟨rfl, size_fetchExact ..⟩
    simp only [alignHeads]
    split <;> split <;> simp [hp]

/-- The position in the table of a side after a pairing: past its head if
the head was handed on. -/
def advance (o : Ordering) (side : Side) (cursor : Nat) : Nat :=
  match o, side with
  | .gt, .left | .lt, .right => cursor
  | _, _ => cursor + 1

/-- The pairing of two heads. -/
def pairing (o : Ordering) (left right : Option Name) : Pairing :=
  match o with
  | .lt => ⟨left, none⟩
  | .eq => ⟨left, right⟩
  | .gt => ⟨none, right⟩

/-- A head that is handed on is there. -/
theorem align_lt (c : Comparison σ) (left : NameTable) (i : Nat) (right : NameTable) (j : Nat)
    (s : RunState σ) (h : i < left.size ∨ j < right.size) :
    ((c.align left i right j s).order ≠ .gt → i < left.size) ∧
      ((c.align left i right j s).order ≠ .lt → j < right.size) := by
  have hl : ∀ {t : NameTable} {n : Nat} {a : Name}, t.get? n = some a → n < t.size := by
    intro t n a hn
    rw [← NameTable.getElem?_names] at hn
    have := (List.getElem?_eq_some_iff.1 hn).1
    simpa using this
  have hn : ∀ {t : NameTable} {n : Nat}, t.get? n = none → t.size ≤ n := by
    intro t n hn
    rw [← NameTable.getElem?_names, List.getElem?_eq_none_iff] at hn
    simpa using hn
  simp only [align]
  split
  · next heq =>
    have := hn heq
    exact ⟨fun h => absurd rfl h, fun _ => by omega⟩
  · next heq _ => exact ⟨fun _ => hl heq, fun h => absurd rfl h⟩
  · next hi hj => exact ⟨fun _ => hl hi, fun _ => hl hj⟩

/-- Hands on what is left of two tables from positions `i` and `j` on. The
status is the worst the visitor returned, `status` included. -/
def pairFrom (c : Comparison σ) (visitor : Visitor σ α) (left : NameTable) (i : Nat)
    (right : NameTable) (j : Nat) (status : Status) (s : RunState σ) (result : α) : Step σ α :=
  if _h : i < left.size ∨ j < right.size then
    let aligned := c.align left i right j s
    let step := visitor
      (pairing aligned.order (aligned.left.get? i) (aligned.right.get? j)) aligned.run result
    c.pairFrom visitor aligned.left (advance aligned.order .left i)
      aligned.right (advance aligned.order .right j)
      (status.worse step.status) step.run step.result
  else ⟨status, s, result⟩
termination_by (left.size - i) + (right.size - j)
decreasing_by
  have hs := c.size_align left i right j s
  have hlt := c.align_lt left i right j s _h
  rw [hs.1, hs.2]
  cases ho : (c.align left i right j s).order <;> simp_all [advance] <;> omega

/-- The table sorted on the basis of the run, if it was not already. -/
def ensureSorted (c : Comparison σ) (t : NameTable) (s : RunState σ) : NameTable × RunState σ :=
  if t.sortedBy = some s.basis then (t, s) else t.sortTail 0 c.order s

/-- Pairs the names of two tables. Each is sorted first on the basis of the
run unless it is already; if that drops the run to the order of bytes on
the right, the left one is sorted once more. -/
def pairTables (c : Comparison σ) (visitor : Visitor σ α) (left right : NameTable)
    (s : RunState σ) (result : α) : Step σ α :=
  let (left, s) := c.ensureSorted left s
  let (right, s) := c.ensureSorted right s
  -- sorting the right side may have changed what the left one should be sorted by
  let (left, s) := c.ensureSorted left s
  c.pairFrom visitor left 0 right 0 .same s result

/-- A pair of directories after their names were paired. -/
structure Paired (σ α : Type) extends Step σ α where
  pair : DirectoryPair

/-- Reports a directory that could not be read. -/
def reportRead (answer : Except DirectoryError NameTable) (s : RunState σ) : RunState σ :=
  match answer with
  | .ok _ => s
  | .error e => s.report (.readFailed e.path e.error.message)

/-- Pairs the names of two directories: every pairing goes to the visitor,
in order. Where both sides lead back, or one cannot be read, nothing is
handed on and the status is trouble. -/
def pairDirectories (c : Comparison σ) (fs : FileSystem) (pair : DirectoryPair)
    (visitor : DirectoryPair → Visitor σ α) (s : RunState σ) (result : α) : Paired σ α :=
  if pair.leadsBack .left && pair.leadsBack .right then
    let reported := if pair.left.isNonexistent then pair.right else pair.left
    ⟨⟨.trouble, s.report (.recursiveLoop reported.path), result⟩, pair⟩
  else
    -- the start name counts at the top only
    let start := if pair.isRoot then c.options.startingFile else none
    -- both sides are read, so that both failures are reported
    let (leftAnswer, leftOperand, s) := c.namesIn fs pair.left start false s
    let s := reportRead leftAnswer s
    let (rightAnswer, rightOperand, s) := c.namesIn fs pair.right start false s
    let s := reportRead rightAnswer s
    let pair := { pair with left := leftOperand, right := rightOperand }
    match leftAnswer, rightAnswer with
    | .ok left, .ok right => ⟨c.pairTables (visitor pair) left right s result, pair⟩
    | _, _ => ⟨⟨.trouble, s, result⟩, pair⟩

end Comparison

end TreeCompare
