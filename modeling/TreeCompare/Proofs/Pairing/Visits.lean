import TreeCompare.Proofs.Pairing.Sorted
import TreeCompare.Proofs.Pairing.Tails
/-!
# The visits of a pairing

A visitor is handed one pairing after the other and may do with the run
what it likes. `Visitor.recorded` is a visitor that also writes down what
it is handed and what it answers, and `Comparison.visits` is what it has
written down at the end: the sequence every statement about a pairing
speaks of.

The sequence is a recursion on the two tails (`visitsOn`,
`visits_eq_visitsOn`), and recording it changes nothing: the status, the
state of the run and the result of a pairing are read off its visits
(`pairTables_eq_of_visits`).
-/

namespace TreeCompare

variable {σ α : Type}

/-- One visit: the pairing handed on, the state of the run and the result
so far that came with it, and what the visitor answered. -/
structure Visit (σ α : Type) where
  pairing : Pairing
  run : RunState σ
  result : α
  step : Step σ α

namespace Visit

/-- The pairings that were handed on. -/
def handed (visits : List (Visit σ α)) : List Pairing := visits.map (·.pairing)

@[simp] theorem handed_nil : handed ([] : List (Visit σ α)) = [] := rfl

@[simp] theorem handed_cons (visit : Visit σ α) (visits : List (Visit σ α)) :
    handed (visit :: visits) = visit.pairing :: handed visits := rfl

theorem handed_append (before after : List (Visit σ α)) :
    handed (before ++ after) = handed before ++ handed after := List.map_append

/-- What the last visit left behind, or what was there before the first. -/
def leftBehind (s : RunState σ) (result : α) : List (Visit σ α) → RunState σ × α
  | [] => (s, result)
  | visit :: visits => leftBehind visit.step.run visit.step.result visits

/-- The worst of the answers, and of the status before them. -/
def worst (status : Status) (visits : List (Visit σ α)) : Status :=
  visits.foldl (fun status visit => status.worse visit.step.status) status

end Visit

/-- The visitor that also writes down its visits, the latest last. -/
def Visitor.recorded (visitor : Visitor σ α) : Visitor σ (α × List (Visit σ α)) :=
  fun pairing s (result, visits) =>
    let step := visitor pairing s result
    ⟨step.status, step.run, (step.result, visits ++ [⟨pairing, s, result, step⟩])⟩

/-- The visitor keeps what was gathered before. -/
def Visitor.Gathers {β : Type} (visitor : Visitor σ (List β)) : Prop :=
  ∀ p s result, result ⊆ (visitor p s result).result

/-- The visitor changes the run within a relation only. -/
def Visitor.Keeps (R : RunState σ → RunState σ → Prop) (visitor : Visitor σ α) : Prop :=
  ∀ p s result, R s (visitor p s result).run

namespace Comparison

/-- The visits that the pairing of two tables makes. -/
def visits (c : Comparison σ) (visitor : Visitor σ α) (left right : NameTable) (s : RunState σ)
    (result : α) : List (Visit σ α) :=
  (c.pairTables (Visitor.recorded visitor) left right s (result, [])).result.2

/-- The visits that the pairing of two tails makes. -/
def visitsOn (c : Comparison σ) (visitor : Visitor σ α) (left right : List Name) (s : RunState σ)
    (result : α) : List (Visit σ α) :=
  if _h : left ≠ [] ∨ right ≠ [] then
    let t := c.alignTails left right s
    let step := visitor t.pairing t.run result
    ⟨t.pairing, t.run, result, step⟩ ::
      c.visitsOn visitor t.restLeft t.restRight step.run step.result
  else []
termination_by left.length + right.length
decreasing_by
  obtain ⟨hl, hr⟩ := perm_alignTails c left right s
  have := (ready_alignTails (c := c) (s := s) _h).rest_lt
  rw [← hl.length_eq, ← hr.length_eq]
  exact this

variable {c : Comparison σ} {visitor : Visitor σ α} {s : RunState σ} {result : α}

@[simp] theorem visitsOn_nil : c.visitsOn visitor [] [] s result = [] := by
  rw [visitsOn]
  simp

theorem visitsOn_cons {left right : List Name} (h : left ≠ [] ∨ right ≠ []) :
    c.visitsOn visitor left right s result =
      (let t := c.alignTails left right s
       let step := visitor t.pairing t.run result
       ⟨t.pairing, t.run, result, step⟩ ::
        c.visitsOn visitor t.restLeft t.restRight step.run step.result) := by
  rw [visitsOn, dif_pos h]

/-- The names behind the position a side goes on from. -/
theorem drop_advance (o : Ordering) (side : Side) (names : List Name) (i : Nat) :
    names.drop (advance o side i) = beyond o side (names.drop i) := by
  cases o <;> cases side <;> simp [advance, beyond]

/-- **A pairing of two tables is the sequence of its visits**, and a
recorded one leaves them behind. -/
theorem pairFrom_eq (c : Comparison σ) (visitor : Visitor σ α) (left : NameTable) (i : Nat)
    (right : NameTable) (j : Nat) (status : Status) (s : RunState σ) (result : α) :
    let visits := c.visitsOn visitor (left.names.drop i) (right.names.drop j) s result
    let final := Visit.leftBehind s result visits
    c.pairFrom visitor left i right j status s result =
        ⟨Visit.worst status visits, final.1, final.2⟩ ∧
      ∀ before, c.pairFrom (Visitor.recorded visitor) left i right j status s (result, before) =
        ⟨Visit.worst status visits, final.1, (final.2, before ++ visits)⟩ := by
  have hnil : ∀ (t : NameTable) n, t.names.drop n ≠ [] ↔ n < t.size := by
    intro t n
    rw [Ne, List.drop_eq_nil_iff, NameTable.length_names]
    omega
  induction left, i, right, j, status, s, result using pairFrom.induct c visitor with
  | case1 left i right j status s result h aligned step ih =>
    have hne : left.names.drop i ≠ [] ∨ right.names.drop j ≠ [] :=
      h.imp (hnil left i).2 (hnil right j).2
    obtain ⟨ho, hl, hr, hs⟩ := c.align_eq left i right j s
    obtain ⟨ih, ihr⟩ := ih
    rw [drop_advance, drop_advance] at ih ihr
    simp only [aligned, step, get?_eq_head?, ho, hl, hr, hs] at ih ihr
    rw [visitsOn_cons hne]
    -- both loops take the same turns, with and without the visits written down
    constructor
    · rw [pairFrom, dif_pos h]
      simp only [get?_eq_head?, ho, hl, hr, hs, ih]
      rfl
    · intro before
      rw [pairFrom, dif_pos h]
      simp only [Visitor.recorded, get?_eq_head?, ho, hl, hr, hs] at ihr ⊢
      rw [ihr, List.append_assoc]
      rfl
  | case2 left i right j status s result h =>
    have hl : left.names.drop i = [] := by
      by_contra hc
      exact h (Or.inl ((hnil left i).1 hc))
    have hr : right.names.drop j = [] := by
      by_contra hc
      exact h (Or.inr ((hnil right j).1 hc))
    rw [hl, hr, visitsOn_nil]
    constructor
    · rw [pairFrom, dif_neg h]
      rfl
    · intro before
      rw [pairFrom, dif_neg h, List.append_nil]
      rfl

/-- The visits of a pairing are those of the two sorted lists of names. -/
theorem visits_eq_visitsOn (c : Comparison σ) (visitor : Visitor σ α) (left right : NameTable)
    (s : RunState σ) (result : α) :
    c.visits visitor left right s result =
      c.visitsOn visitor (c.sortBoth left right s).1.names (c.sortBoth left right s).2.1.names
        (c.sortBoth left right s).2.2 result := by
  have h := (c.pairFrom_eq visitor (c.sortBoth left right s).1 0 (c.sortBoth left right s).2.1 0
    .same (c.sortBoth left right s).2.2 result).2 []
  exact congrArg (·.result.2) h

/-- **Recording changes nothing**: what a pairing leaves behind is read off
its visits. -/
theorem pairTables_eq_of_visits (c : Comparison σ) (visitor : Visitor σ α)
    (left right : NameTable) (s : RunState σ) (result : α) :
    let visits := c.visits visitor left right s result
    let final := Visit.leftBehind (c.sortBoth left right s).2.2 result visits
    c.pairTables visitor left right s result = ⟨Visit.worst .same visits, final.1, final.2⟩ := by
  rw [visits_eq_visitsOn]
  exact (c.pairFrom_eq visitor (c.sortBoth left right s).1 0 (c.sortBoth left right s).2.1 0
    .same (c.sortBoth left right s).2.2 result).1

/-- What is gathered at the end was there before, or some visit gathered
it. -/
theorem mem_leftBehind {β : Type} {visitor : Visitor σ (List β)} {left right : List Name}
    {s : RunState σ} {result : List β} {x : β}
    (hx : x ∈ (Visit.leftBehind s result (c.visitsOn visitor left right s result)).2) :
    x ∈ result ∨
      ∃ v ∈ c.visitsOn visitor left right s result, x ∈ v.step.result ∧ x ∉ v.result := by
  induction left, right, s, result using visitsOn.induct c visitor with
  | case1 left right s result h t step ih =>
    rw [visitsOn_cons h] at hx ⊢
    by_cases hr : x ∈ result
    · exact Or.inl hr
    refine Or.inr ?_
    rcases ih hx with hs | ⟨v, hv, hstep, hn⟩
    · exact ⟨_, List.mem_cons_self .., hs, hr⟩
    · exact ⟨v, List.mem_cons_of_mem _ hv, hstep, hn⟩
  | case2 left right s result h =>
    have hnil : left = [] ∧ right = [] := by simpa using h
    rw [hnil.1, hnil.2, visitsOn_nil] at hx
    exact Or.inl hx

/-- What a visitor that keeps what was gathered has found at some visit, or
before, is there at the end. -/
theorem subset_leftBehind {β : Type} {visitor : Visitor σ (List β)} (hg : visitor.Gathers)
    (left right : List Name) (s : RunState σ) (result : List β) :
    let gathered := (Visit.leftBehind s result (c.visitsOn visitor left right s result)).2
    result ⊆ gathered ∧
      ∀ v ∈ c.visitsOn visitor left right s result, v.step.result ⊆ gathered := by
  induction left, right, s, result using visitsOn.induct c visitor with
  | case1 left right s result h t step ih =>
    obtain ⟨hkept, hrest⟩ := ih
    rw [visitsOn_cons h]
    refine ⟨fun x hx => hkept (hg _ _ _ hx), fun v hv => ?_⟩
    rcases List.mem_cons.1 hv with rfl | hv
    · exact hkept
    · exact hrest v hv
  | case2 left right s result h =>
    have hnil : left = [] ∧ right = [] := by simpa using h
    rw [hnil.1, hnil.2, visitsOn_nil]
    exact ⟨fun x hx => hx, by simp⟩

end Comparison

end TreeCompare
