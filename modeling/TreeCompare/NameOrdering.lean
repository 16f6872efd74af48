import TreeCompare.Journal
import TreeCompare.StableSort
/-!
# The order of names in a run

A case-sensitive run orders names by their bytes and never asks the
collator. A case-insensitive run starts out collated; the first failure of
the collator is reported once and drops the run to the order of bytes for
good (`RunState.dropToBytes`). Three operations share this rule:
`matchingOrder`, which pairs names across the two sides, `sortingOrder`,
which is total over distinct names, and `sort`, which asks for every key
before it moves anything.
-/

namespace TreeCompare

/-- What names are being ordered by. -/
inductive Basis where
  /-- By collation, with the order of bytes breaking ties. -/
  | collated
  /-- By bytes, after the first collation failure. -/
  | bytewise
deriving DecidableEq, Repr

/-- The word for a basis in reports. -/
def Basis.word : Basis → String
  | collated => "collated"
  | bytewise => "bytewise"

/-- The ordering of names that a run is configured with. -/
structure NameOrdering (σ : Type) where
  collator : Collator σ
  ignoreCase : Bool

/-- What changes during a run: how names are ordered, what the collator
remembers, and the journal, the latest entry first. -/
structure RunState (σ : Type) where
  basis : Basis
  memory : σ
  journal : List Note

namespace RunState

variable {σ : Type}

/-- A run begins collated. -/
def start (memory : σ) : RunState σ := ⟨.collated, memory, []⟩

/-- The state with one more entry in the journal. -/
def note (s : RunState σ) (n : Note) : RunState σ := { s with journal := n :: s.journal }

/-- The state with one more diagnostic in the journal. -/
def report (s : RunState σ) (d : Diagnostic) : RunState σ := s.note (.diagnostic d)

/-- The state in which collation is enabled again. -/
def reset (s : RunState σ) : RunState σ := { s with basis := .collated }

/-- The state after the collator failed on `name`, or on it together with
`other`. -/
def dropToBytes (s : RunState σ) (name : Name) (other : Option Name) (e : KeyError) :
    RunState σ :=
  ({ s with basis := .bytewise }.note .orderDropped).report
    (.collationFallback name other e.message)

end RunState

namespace NameOrdering

variable {σ α : Type}

/-- Whether names are being collated. -/
def usesKeys (order : NameOrdering σ) (s : RunState σ) : Bool :=
  order.ignoreCase && s.basis == .collated

/-- The key of a name. -/
def key (order : NameOrdering σ) (name : Name) (s : RunState σ) :
    Except KeyError SortKey × RunState σ :=
  let (answer, memory) := order.collator.key name order.ignoreCase s.memory
  (answer, { s with memory := memory })

/-- The collated order of two names, while collation is in use. The second
key is not asked for when the first one fails. -/
def compareKeys (order : NameOrdering σ) (a b : Name) (s : RunState σ) :
    Option Ordering × RunState σ :=
  if order.usesKeys s then
    match order.key a s with
    | (.error e, s) => (none, s.dropToBytes a (some b) e)
    | (.ok ka, s) =>
      match order.key b s with
      -- the two names are reported in the order in which they were compared
      | (.error e, s) => (none, s.dropToBytes a (some b) e)
      | (.ok kb, s) => (some (ka.order kb), s)
  else (none, s)

/-- The order that pairs names across the two sides. Names whose keys are
equal are equal here even if their bytes differ. -/
def matchingOrder (order : NameOrdering σ) (a b : Name) (s : RunState σ) :
    Ordering × RunState σ :=
  match order.compareKeys a b s with
  | (some o, s) => (o, s)
  | (none, s) => (a.bytewise b, s)

/-- The order that sorts one side; it is total over distinct names. -/
def sortingOrder (order : NameOrdering σ) (a b : Name) (s : RunState σ) :
    Ordering × RunState σ :=
  match order.compareKeys a b s with
  | (some o, s) => (o.then (a.bytewise b), s)
  | (none, s) => (a.bytewise b, s)

/-- The keys of all names in order, or the first name that has none. No
key is asked for after that. -/
def keysOf (order : NameOrdering σ) :
    List Name → RunState σ → Except (Name × KeyError) (List SortKey) × RunState σ
  | [], s => (.ok [], s)
  | name :: names, s =>
    match order.key name s with
    | (.error e, s) => (.error (name, e), s)
    | (.ok k, s) =>
      match order.keysOf names s with
      | (.error e, s) => (.error e, s)
      | (.ok ks, s) => (.ok (k :: ks), s)

/-- The items in the order of the bytes of their names; equal names keep
their order. -/
def sortBytewise (nameOf : α → Name) (items : List α) : List α :=
  StableSort.sort (fun a b => ((nameOf a).bytewise (nameOf b)).isLE) items

/-- The items in the order of their keys, ties broken by the bytes of
their names; equal names keep their order. -/
def sortKeyed (nameOf : α → Name) (items : List (SortKey × α)) : List α :=
  (StableSort.sort (fun a b =>
    ((a.1.order b.1).then ((nameOf a.2).bytewise (nameOf b.2))).isLE) items).map (·.2)

/-- The items sorted by their names. All keys are asked for up front; if
one fails, the run drops to the order of bytes and so does this sort. -/
def sort (order : NameOrdering σ) (nameOf : α → Name) (items : List α) (s : RunState σ) :
    List α × RunState σ :=
  if order.usesKeys s then
    match order.keysOf (items.map nameOf) s with
    | (.ok keys, s) => (sortKeyed nameOf (keys.zip items), s)
    | (.error (name, e), s) => (sortBytewise nameOf items, s.dropToBytes name none e)
  else (sortBytewise nameOf items, s)

theorem length_keysOf {order : NameOrdering σ} {names : List Name} {s s' : RunState σ}
    {ks : List SortKey} (h : order.keysOf names s = (.ok ks, s')) :
    ks.length = names.length := by
  induction names generalizing s s' ks with
  | nil => simp only [keysOf, Prod.mk.injEq, Except.ok.injEq] at h; simp [← h.1]
  | cons name names ih =>
    simp only [keysOf] at h
    split at h
    · simp at h
    · split at h
      · simp at h
      · next heq =>
        simp only [Prod.mk.injEq, Except.ok.injEq] at h
        simp [← h.1, ih heq]

/-- Sorting loses and adds nothing. -/
theorem sort_perm (order : NameOrdering σ) (nameOf : α → Name) (items : List α)
    (s : RunState σ) : (order.sort nameOf items s).1.Perm items := by
  simp only [sort, sortBytewise, sortKeyed]
  split
  · split
    · next heq =>
      have hlen := length_keysOf heq
      rw [List.length_map] at hlen
      exact ((StableSort.sort_perm _ _).map _).trans
        (List.Perm.of_eq (List.map_snd_zip (Nat.le_of_eq hlen.symm)))
    · exact StableSort.sort_perm _ _
  · exact StableSort.sort_perm _ _

end NameOrdering

end TreeCompare
