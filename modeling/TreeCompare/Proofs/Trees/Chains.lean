import TreeCompare.Proofs.Ordering.Keying
import TreeCompare.Proofs.Trees.Equality
import TreeCompare.TreeComparison
/-!
# Chains of names

A finding is about the entry that a chain of names leads to from the operands
of a comparison (`Finding.At`). Chains are compared name by name (`Before`), so
what lies in a directory is not spread among its siblings
(`Before.prefix_of_between`). Findings that are made in the order of their
chains stay in it when another name is put in front of all of them, and when
findings further on are made after them (`InOrder.below`, `InOrder.append`).
-/

namespace TreeCompare

/-- The order of chains: the first names that differ decide, by their bytes,
and a chain stands before those that go on from it. -/
def Before (a b : List Name) : Prop := List.Lex (fun x y => x.bytewise y = .lt) a b

namespace Before

variable {a b c p : List Name} {x y : Name}

/-- With the same name in front chains are compared as without. -/
theorem cons_iff : Before (x :: a) (x :: b) ↔ Before a b := by
  constructor
  · intro h
    cases h with
    | rel h => simp at h
    | cons h => exact h
  · exact List.Lex.cons

/-- No chain is before itself. -/
theorem irrefl : ¬ Before a a := by
  induction a with
  | nil => exact nofun
  | cons x a ih => rwa [cons_iff]

/-- **What is between two chains goes on from what both go on from.** -/
theorem prefix_of_between (hab : Before a b) (hbc : Before b c) (ha : p <+: a) (hc : p <+: c) :
    p <+: b := by
  induction p generalizing a b c with
  | nil => exact List.nil_prefix
  | cons x p ih =>
    obtain ⟨a, rfl⟩ := ha
    obtain ⟨c, rfl⟩ := hc
    cases hab with
    | rel hxy =>
      -- the first name between the two is not above that of both
      cases hbc with
      | rel hyx =>
        rw [← Std.OrientedCmp.gt_iff_lt, hxy] at hyx
        cases hyx
      | cons => simp at hxy
    | cons hab =>
      have hp := ih hab (cons_iff.1 hbc) (List.prefix_append p a) (List.prefix_append p c)
      exact List.cons_prefix_cons.2 ⟨rfl, hp⟩

end Before

/-- The finding is about the entry that a chain of names leads to from `left`
and `right`. An entry of one side is where its name is added to the chain of
its directory, and trouble is with a path of one of the sides. -/
def Finding.At (left right : Path) (chain : List Name) : Finding → Prop
  | .onlyIn dir name => ∃ (side : Side) (above : List Name),
      chain = above ++ [name] ∧ dir = (side.place left right).1.below above
  | .commonSubdirectories l r | .identical l r | .differ l r | .kindMismatch l _ r _ =>
      l = left.below chain ∧ r = right.below chain
  | .trouble path _ => ∃ side : Side, path = (side.place left right).1.below chain

/-- A finding one step down is a finding from above, with the name of the step
in front. -/
theorem Finding.At.below {left right : Path} {name : Name} {chain : List Name} {f : Finding}
    (h : f.At (left.join name) (right.join name) chain) : f.At left right (name :: chain) := by
  cases f with
  | onlyIn dir entry =>
    obtain ⟨side, above, rfl, rfl⟩ := h
    exact ⟨side, name :: above, rfl, by cases side <;> rfl⟩
  | trouble path message =>
    obtain ⟨side, rfl⟩ := h
    exact ⟨side, by cases side <;> rfl⟩
  | _ => exact h

namespace TreeComparison

variable {P Q : List Name → Finding → Prop} {found found' found'' : Findings}

/-- Exactly the findings that `P` tells of were added, in the order of their
chains. -/
def InOrder (P : List Name → Finding → Prop) (found found' : Findings) : Prop :=
  ∃ reports : List (List Name × Finding),
    found' = (reports.map (·.2)).reverse ++ found ∧
      (∀ chain f, (chain, f) ∈ reports ↔ P chain f) ∧
      reports.Pairwise fun a b => Before a.1 b.1

namespace InOrder

/-- Nothing was added. -/
theorem nil (h : ∀ chain f, ¬ P chain f) (found : Findings) : InOrder P found found :=
  ⟨[], rfl, fun chain f => iff_of_false List.not_mem_nil (h chain f), List.Pairwise.nil⟩

theorem congr (h : InOrder P found found') (hPQ : ∀ chain f, P chain f ↔ Q chain f) :
    InOrder Q found found' := by
  obtain ⟨reports, hfound, hmem, hsorted⟩ := h
  exact ⟨reports, hfound, fun chain f => (hmem chain f).trans (hPQ chain f), hsorted⟩

/-- One finding or none, at one chain. -/
theorem settle (chain : List Name) (reported : Option Finding) (found : Findings) :
    InOrder (fun at' f => at' = chain ∧ reported = some f) found (reported.toList ++ found) := by
  refine ⟨reported.toList.map (chain, ·), ?_, fun at' f => ?_, ?_⟩
  · cases reported <;> rfl
  · cases reported <;> simp [eq_comm]
  · cases reported <;> simp

/-- **Findings further down** are in the order of their chains from above. -/
theorem below (name : Name) (h : InOrder P found found') :
    InOrder (fun chain f => ∃ rest, chain = name :: rest ∧ P rest f) found found' := by
  obtain ⟨reports, hfound, hmem, hsorted⟩ := h
  refine ⟨reports.map fun r => (name :: r.1, r.2), ?_, fun chain f => ?_, ?_⟩
  · rw [List.map_map]
    exact hfound
  · simp only [List.mem_map, Prod.mk.injEq, Prod.exists, hmem]
    constructor
    · rintro ⟨rest, f', hP, rfl, rfl⟩
      exact ⟨rest, rfl, hP⟩
    · rintro ⟨rest, rfl, hP⟩
      exact ⟨rest, f, hP, rfl, rfl⟩
  · exact List.pairwise_map.2 (hsorted.imp Before.cons_iff.2)

/-- **Findings after findings**, if their chains are. -/
theorem append (h : InOrder P found found') (h' : InOrder Q found' found'')
    (hlt : ∀ chain f chain' f', P chain f → Q chain' f' → Before chain chain') :
    InOrder (fun chain f => P chain f ∨ Q chain f) found found'' := by
  obtain ⟨reports, rfl, hmem, hsorted⟩ := h
  obtain ⟨reports', rfl, hmem', hsorted'⟩ := h'
  refine ⟨reports ++ reports', ?_, fun chain f => ?_, ?_⟩
  · simp only [List.map_append, List.reverse_append, List.append_assoc]
  · rw [List.mem_append, hmem, hmem']
  · refine List.pairwise_append.2 ⟨hsorted, hsorted', fun a ha b hb => ?_⟩
    exact hlt a.1 a.2 b.1 b.2 ((hmem _ _).1 ha) ((hmem' _ _).1 hb)

end InOrder

end TreeComparison

end TreeCompare
