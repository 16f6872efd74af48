import TreeCompare.NameTable
import TreeCompare.DirectoryPair
/-!
# Comparisons

What a comparison is told before it starts, and which does not change
while it runs: options, collator and exclusions.
-/

namespace TreeCompare

/-- The options of a comparison. -/
structure ComparisonOptions where
  /-- Pair names that differ only in case. -/
  ignoreCase : Bool := false
  /-- Look at what a symbolic link leads to instead of the link. -/
  followLinks : Bool := false
  /-- At the top level, skip entries that are ordered before this name. -/
  startingFile : Option Name := none
deriving DecidableEq, Repr

/-- A comparison as configured: options, collator, and the names that are
left out. -/
structure Comparison (σ : Type) where
  options : ComparisonOptions
  collator : Collator σ
  excluded : Name → Bool

/-- The order of names of a comparison. -/
def Comparison.order {σ : Type} (c : Comparison σ) : NameOrdering σ :=
  ⟨c.collator, c.options.ignoreCase⟩

end TreeCompare
