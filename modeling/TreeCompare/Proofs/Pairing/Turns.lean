import TreeCompare.Proofs.Pairing.Visits
/-!
# The turns of a pairing

A pairing as a loop with two positions that come near the ends of two
tables: `Comparison.turn` is one turn of it, in which every access to a
table is checked and one out of range ends the run with nothing
(`none`). A turn on which collation fails sorts what is left again and
hands nothing on, so it makes no progress, and a visitor may enable
collation after every pairing.

All the same the loop comes to its end within twice as many turns as there
are names, no access is out of range, and what it leaves behind is what
`Comparison.pairTables` gives (`turns_pairTables`).
-/

namespace TreeCompare

variable {σ α : Type}

/-! ## Checked accesses -/

/-- The table with the names from a position on sorted, if there is such a
position. -/
def NameTable.sortTail? (t : NameTable) (start : Nat) (order : NameOrdering σ) (s : RunState σ) :
    Option (NameTable × RunState σ) :=
  if start ≤ t.size then some (t.sortTail start order s) else none

/-- The table with a name moved forward, if there is a name to move and a
place in front of it. -/
def NameTable.bringForward? (t : NameTable) (target found : Nat) : Option NameTable :=
  if target ≤ found ∧ found < t.size then some (t.bringForward target found) else none

/-- The name at a position, if one is wanted: nothing at all where it is
out of range. -/
def NameTable.wanted? (t : NameTable) (wanted : Bool) (i : Nat) : Option (Option Name) :=
  if wanted then (t.get? i).map some else some none

namespace Comparison

/-- `fetchExact` with its accesses checked. -/
def fetchExact? (c : Comparison σ) (t : NameTable) (i : Nat) (exact : Name) (s : RunState σ) :
    Option (NameTable × RunState σ) :=
  match c.searchExact exact (t.names.drop (i + 1)) s with
  | (some place, s) => (t.bringForward? i (i + 1 + place)).map fun t => (t, s)
  | (none, s) => some (t, s)

/-- `favourExact` with its accesses checked. -/
def favourExact? (c : Comparison σ) (left : NameTable) (i : Nat) (right : NameTable) (j : Nat)
    (s : RunState σ) : Option (NameTable × NameTable × RunState σ) := do
  let a ← left.get? i
  let b ← right.get? j
  match a.bytewise b with
  | .eq => some (left, right, s)
  | .lt => (c.fetchExact? left i b s).map fun (left, s) => (left, right, s)
  | .gt => (c.fetchExact? right j a s).map fun (right, s) => (left, right, s)

/-- Which head comes first: the one of the side that has one, or the one
that the comparison of the two finds. -/
def headOrder? (c : Comparison σ) (left : NameTable) (i : Nat) (right : NameTable) (j : Nat)
    (s : RunState σ) : Option (Ordering × RunState σ) :=
  if i = left.size then some (.gt, s)
  else if j = right.size then some (.lt, s)
  else do
    let a ← left.get? i
    let b ← right.get? j
    some (c.order.matchingOrder a b s)

/-- The heads compared, and an exact match put in place if they match. -/
def compareTables? (c : Comparison σ) (left : NameTable) (i : Nat) (right : NameTable) (j : Nat)
    (s : RunState σ) : Option (Aligned σ) := do
  let (o, s) ← c.headOrder? left i right j s
  if o = .eq ∧ c.options.ignoreCase then
    let (left, right, s) ← c.favourExact? left i right j s
    some ⟨o, left, right, s⟩
  else some ⟨o, left, right, s⟩

end Comparison

/-! ## The loop -/

/-- Where the loop stands between two turns. -/
structure Stage (σ α : Type) where
  left : NameTable
  leftAt : Nat
  right : NameTable
  rightAt : Nat
  status : Status
  run : RunState σ
  result : α

namespace Stage

/-- There are names left on either side. -/
abbrev IsOpen (g : Stage σ α) : Prop := g.leftAt < g.left.size ∨ g.rightAt < g.right.size

/-- Neither position is behind the end of its table. -/
structure Within (g : Stage σ α) : Prop where
  left : g.leftAt ≤ g.left.size
  right : g.rightAt ≤ g.right.size

/-- How many names are left. -/
def remaining (g : Stage σ α) : Nat := (g.left.size - g.leftAt) + (g.right.size - g.rightAt)

/-- What the loop leaves behind. -/
def step (g : Stage σ α) : Step σ α := ⟨g.status, g.run, g.result⟩

end Stage

namespace Comparison

/-- Where the loop begins: both tables sorted, and nothing handed on. -/
def opening (c : Comparison σ) (left right : NameTable) (s : RunState σ) (result : α) :
    Stage σ α :=
  let begun := c.sortBoth left right s
  ⟨begun.1, 0, begun.2.1, 0, .same, begun.2.2, result⟩

/-- Hands a pairing on, and moves past what was handed on. -/
def Aligned.handOn? (t : Aligned σ) (visitor : Visitor σ α) (g : Stage σ α) :
    Option (Stage σ α) := do
  let a ← t.left.wanted? (t.order != .gt) g.leftAt
  let b ← t.right.wanted? (t.order != .lt) g.rightAt
  let step := visitor ⟨a, b⟩ t.run g.result
  some ⟨t.left, advance t.order .left g.leftAt, t.right, advance t.order .right g.rightAt,
    g.status.worse step.status, step.run, step.result⟩

/-- Sorts what is left again, and stays where it is. -/
def Aligned.resort? (t : Aligned σ) (c : Comparison σ) (g : Stage σ α) : Option (Stage σ α) := do
  let (left, s) ← t.left.sortTail? g.leftAt c.order (t.run.note .resorted)
  let (right, s) ← t.right.sortTail? g.rightAt c.order s
  some { g with left := left, right := right, run := s }

/-- **One turn of the loop.** If the order was given up meanwhile, what is
left is sorted again and nothing handed on. -/
def turn (c : Comparison σ) (visitor : Visitor σ α) (g : Stage σ α) : Option (Stage σ α) := do
  let t ← c.compareTables? g.left g.leftAt g.right g.rightAt g.run
  if t.run.basis = g.run.basis then t.handOn? visitor g else t.resort? c g

/-- Turn after turn until nothing is left, `n` of them at most. -/
def turns (c : Comparison σ) (visitor : Visitor σ α) : Nat → Stage σ α → Option (Stage σ α)
  | 0, g => some g
  | n + 1, g => if g.IsOpen then (c.turn visitor g).bind (c.turns visitor n) else some g

variable {c : Comparison σ} {visitor : Visitor σ α} {left right : NameTable} {i j : Nat}
  {a b : Name} {s : RunState σ} {g : Stage σ α}

/-! ## No access is out of range -/

theorem lt_size_of_get? {t : NameTable} (h : t.get? i = some a) : i < t.size := by
  rw [← NameTable.getElem?_names] at h
  have := (List.getElem?_eq_some_iff.1 h).1
  rwa [NameTable.length_names] at this

theorem exists_get? {t : NameTable} (h : i < t.size) : ∃ a, t.get? i = some a := by
  have hi : i < t.names.length := by rwa [NameTable.length_names]
  exact ⟨t.names[i], by rw [← NameTable.getElem?_names, List.getElem?_eq_getElem hi]⟩

/-- What is searched for is found behind the position, and within the
table. -/
theorem fetchExact?_eq (t : NameTable) (i : Nat) (exact : Name) (s : RunState σ) :
    c.fetchExact? t i exact s = some (c.fetchExact t i exact s) := by
  unfold fetchExact? fetchExact
  rcases h : c.searchExact exact (t.names.drop (i + 1)) s with ⟨_ | place, u⟩
  · rfl
  · have hlt := searchExact_lt (congrArg Prod.fst h)
    rw [List.length_drop, NameTable.length_names] at hlt
    have hin : i ≤ i + 1 + place ∧ i + 1 + place < t.size := ⟨by omega, by omega⟩
    simp only [NameTable.bringForward?, if_pos hin, Option.map_some]

theorem favourExact?_eq (ha : left.get? i = some a) (hb : right.get? j = some b)
    (s : RunState σ) :
    c.favourExact? left i right j s = some (c.favourExact left i a right j b s) := by
  simp only [favourExact?, ha, hb, Option.bind_eq_bind, Option.bind_some, favourExact]
  cases a.bytewise b with
  | eq => rfl
  | lt => simp only [fetchExact?_eq, Option.map_some]
  | gt => simp only [fetchExact?_eq, Option.map_some]

theorem headOrder?_eq (ha : left.get? i = some a) (hb : right.get? j = some b)
    (s : RunState σ) :
    c.headOrder? left i right j s = some (c.order.matchingOrder a b s) := by
  have hi := lt_size_of_get? ha
  have hj := lt_size_of_get? hb
  have hni : i ≠ left.size := by omega
  have hnj : j ≠ right.size := by omega
  simp only [headOrder?, if_neg hni, if_neg hnj, ha, hb, Option.bind_eq_bind, Option.bind_some]

/-! ## One turn -/

/-- Two heads compared, with an exact match put in place: an alignment
before anything is sorted again. -/
def compareTables (c : Comparison σ) (left : NameTable) (i : Nat) (a : Name) (right : NameTable)
    (j : Nat) (b : Name) (s : RunState σ) : Aligned σ :=
  let (o, s) := c.order.matchingOrder a b s
  if o = .eq ∧ c.options.ignoreCase then
    let (left, right, s) := c.favourExact left i a right j b s
    ⟨o, left, right, s⟩
  else ⟨o, left, right, s⟩

/-- The stage behind a pairing that an alignment hands on. -/
def Aligned.handOn (t : Aligned σ) (visitor : Visitor σ α) (g : Stage σ α) : Stage σ α :=
  let step := visitor (pairing t.order (t.left.get? g.leftAt) (t.right.get? g.rightAt)) t.run
    g.result
  ⟨t.left, advance t.order .left g.leftAt, t.right, advance t.order .right g.rightAt,
    g.status.worse step.status, step.run, step.result⟩

theorem size_compareTables (left : NameTable) (i : Nat) (a : Name) (right : NameTable) (j : Nat)
    (b : Name) (s : RunState σ) :
    (c.compareTables left i a right j b s).left.size = left.size ∧
      (c.compareTables left i a right j b s).right.size = right.size := by
  have hf : ∀ s, (c.favourExact left i a right j b s).1.size = left.size ∧
      (c.favourExact left i a right j b s).2.1.size = right.size := by
    intro s
    unfold favourExact
    split
    · exact ⟨rfl, rfl⟩
    · exact ⟨size_fetchExact .., rfl⟩
    · exact ⟨rfl, size_fetchExact ..⟩
  simp only [compareTables]
  split
  · exact hf _
  · exact ⟨rfl, rfl⟩

/-- Comparing the heads of two tables keeps within every law of a step. -/
theorem compareTables_law {R : RunState σ → RunState σ → Prop} (h : c.order.StepLaw R)
    (ha : left.get? i = some a) (hb : right.get? j = some b) (s : RunState σ) :
    R s (c.compareTables left i a right j b s).run := by
  rw [get?_eq_head?, List.head?_eq_some_iff] at ha hb
  obtain ⟨as, ha⟩ := ha
  obtain ⟨bs, hb⟩ := hb
  have hm := h.matchingOrder a b s
  simp only [compareTables]
  split
  · rw [(favourExact_eq ha hb).2.2]
    exact h.trans hm (favourTails_law h a as b bs _)
  · exact hm

/-- An alignment of two heads is their comparison, and what is left sorted
again where that gave the order up. -/
theorem align_of_heads (ha : left.get? i = some a) (hb : right.get? j = some b)
    (s : RunState σ) :
    c.align left i right j s =
      let t := c.compareTables left i a right j b s
      if t.run.basis = s.basis then t
      else
        let (left, s) := t.left.sortTail i c.order (t.run.note .resorted)
        let (right, s) := t.right.sortTail j c.order s
        ⟨((left.get? i).getD a).bytewise ((right.get? j).getD b), left, right, s⟩ := by
  simp only [align, ha, hb, alignHeads, compareTables]
  by_cases ho : (c.order.matchingOrder a b s).1 = .eq ∧ c.options.ignoreCase = true
  · simp only [if_pos ho]
  · simp only [if_neg ho]

/-- The comparison of two heads is in range. -/
theorem compareTables?_of_heads (ha : left.get? i = some a) (hb : right.get? j = some b)
    (s : RunState σ) :
    c.compareTables? left i right j s = some (c.compareTables left i a right j b s) := by
  simp only [compareTables?, headOrder?_eq ha hb, favourExact?_eq ha hb, compareTables,
    Option.bind_eq_bind, Option.bind_some]
  split <;> rfl

/-- Where one side has come to its end there is nothing to compare. -/
theorem compareTables?_of_end (h : i < left.size ∨ j < right.size)
    (hend : i = left.size ∨ j = right.size) (s : RunState σ) :
    c.compareTables? left i right j s = some (c.align left i right j s) ∧
      (c.align left i right j s).run = s := by
  have hnone : ∀ (t : NameTable) n, n = t.size → t.get? n = none := by
    rintro t _ rfl
    rw [← NameTable.getElem?_names]
    exact List.getElem?_eq_none_iff.2 (Nat.le_of_eq (NameTable.length_names t))
  by_cases hi : i = left.size
  · simp [compareTables?, headOrder?, if_pos hi, align, hnone left i hi]
  · have hj : j = right.size := hend.resolve_left hi
    obtain ⟨a, ha⟩ := exists_get? (t := left) (i := i) (by omega)
    simp [compareTables?, headOrder?, if_neg hi, if_pos hj, align, ha, hnone right j hj]

/-- The names a pairing takes are there, so they can be handed on. -/
theorem handOn?_eq {t : Aligned σ} (hl : t.order ≠ .gt → g.leftAt < t.left.size)
    (hr : t.order ≠ .lt → g.rightAt < t.right.size) :
    t.handOn? visitor g = some (t.handOn visitor g) := by
  obtain ⟨o, left, right, s⟩ := t
  unfold Aligned.handOn? Aligned.handOn
  cases o with
  | lt =>
    obtain ⟨a, ha⟩ := exists_get? (hl (by simp))
    simp [NameTable.wanted?, pairing, ha]
  | eq =>
    obtain ⟨a, ha⟩ := exists_get? (hl (by simp))
    obtain ⟨b, hb⟩ := exists_get? (hr (by simp))
    simp [NameTable.wanted?, pairing, ha, hb]
  | gt =>
    obtain ⟨b, hb⟩ := exists_get? (hr (by simp))
    simp [NameTable.wanted?, pairing, hb]

/-- Heads that are not collated are compared by their bytes, and nothing is
moved. -/
theorem compareTables_of_not_usesKeys (h : ¬ c.order.usesKeys s = true) (left : NameTable)
    (i : Nat) (a : Name) (right : NameTable) (j : Nat) (b : Name) :
    c.compareTables left i a right j b s = ⟨a.bytewise b, left, right, s⟩ := by
  simp only [compareTables, NameOrdering.matchingOrder_of_not_usesKeys h]
  by_cases ho : a.bytewise b = .eq
  · simp only [ho, favourExact]
    split <;> rfl
  · simp only [ho, false_and, if_false]

/-- A turn with two heads compares them. -/
theorem turn_of_heads (visitor : Visitor σ α) (ha : g.left.get? g.leftAt = some a)
    (hb : g.right.get? g.rightAt = some b) :
    c.turn visitor g =
      (let t := c.compareTables g.left g.leftAt a g.right g.rightAt b g.run
       if t.run.basis = g.run.basis then t.handOn? visitor g else t.resort? c g) := by
  simp only [turn, compareTables?_of_heads ha hb, Option.bind_eq_bind, Option.bind_some]

/-- A turn with two heads that are not collated hands on what their bytes
say. -/
theorem turn_of_not_usesKeys (visitor : Visitor σ α) (h : ¬ c.order.usesKeys g.run = true)
    (ha : g.left.get? g.leftAt = some a) (hb : g.right.get? g.rightAt = some b) :
    c.turn visitor g =
      some ((⟨a.bytewise b, g.left, g.right, g.run⟩ : Aligned σ).handOn visitor g) := by
  rw [turn_of_heads visitor ha hb, compareTables_of_not_usesKeys h]
  simp only [if_true]
  exact handOn?_eq (fun _ => lt_size_of_get? ha) (fun _ => lt_size_of_get? hb)

/-- What is left can be sorted again, and is then in the order of bytes. -/
theorem resort?_eq {t : Aligned σ} (hw : g.Within) (hl : t.left.size = g.left.size)
    (hr : t.right.size = g.right.size) (hb : t.run.basis = .bytewise) :
    let left := t.left.sortTail g.leftAt c.order (t.run.note .resorted)
    let right := t.right.sortTail g.rightAt c.order left.2
    t.resort? c g = some { g with left := left.1, right := right.1, run := right.2 } ∧
      ¬ c.order.usesKeys right.2 = true := by
  intro left right
  have h₁ := c.order.stepLaw_onward.sort id (t.left.names.drop g.leftAt) (t.run.note .resorted)
  have h₂ := c.order.stepLaw_onward.sort id (t.right.names.drop g.rightAt) left.2
  rw [← NameTable.run_sortTail] at h₁ h₂
  refine ⟨?_, NameOrdering.not_usesKeys_of_bytewise (h₂.bytewise (h₁.bytewise hb))⟩
  simp only [Aligned.resort?, NameTable.sortTail?, if_pos (hl ▸ hw.left), if_pos (hr ▸ hw.right),
    Option.bind_eq_bind, Option.bind_some]
  rfl

/-- **A turn hands on the pairing of the alignment**, if not at once then
on the next turn. -/
theorem turn_eq (c : Comparison σ) (visitor : Visitor σ α) (hw : g.Within) (h : g.IsOpen) :
    let next := (c.align g.left g.leftAt g.right g.rightAt g.run).handOn visitor g
    c.turn visitor g = some next ∨
      ∃ g' : Stage σ α, c.turn visitor g = some g' ∧ g'.IsOpen ∧
        c.turn visitor g' = some next := by
  obtain ⟨hlt, hlt'⟩ := c.align_lt g.left g.leftAt g.right g.rightAt g.run h
  obtain ⟨hsl, hsr⟩ := c.size_align g.left g.leftAt g.right g.rightAt g.run
  rw [← hsl] at hlt
  rw [← hsr] at hlt'
  -- at the end of a side there is nothing to compare, and so nothing to fail
  by_cases hend : g.leftAt = g.left.size ∨ g.rightAt = g.right.size
  · obtain ⟨ht, hrun⟩ := compareTables?_of_end (c := c) h hend g.run
    left
    simp only [turn, ht, Option.bind_eq_bind, Option.bind_some, hrun, if_true]
    exact handOn?_eq hlt hlt'
  obtain ⟨hi, hj⟩ := hw
  obtain ⟨a, ha⟩ := exists_get? (t := g.left) (i := g.leftAt) (by omega)
  obtain ⟨b, hb⟩ := exists_get? (t := g.right) (i := g.rightAt) (by omega)
  have halign := align_of_heads (c := c) ha hb g.run
  have hturn := turn_of_heads (c := c) visitor ha hb
  obtain ⟨htl, htr⟩ := size_compareTables (c := c) g.left g.leftAt a g.right g.rightAt b g.run
  have honward := compareTables_law c.order.stepLaw_onward ha hb g.run
  generalize c.compareTables g.left g.leftAt a g.right g.rightAt b g.run = t at *
  by_cases hbasis : t.run.basis = g.run.basis
  · rw [if_pos hbasis] at halign
    left
    rw [hturn, if_pos hbasis, halign]
    exact handOn?_eq (halign ▸ hlt) (halign ▸ hlt')
  · -- this turn sorts what is left, and the next one finds nothing to give up
    right
    obtain ⟨hresort, hkeys⟩ :=
      resort?_eq (c := c) ⟨hi, hj⟩ htl htr (honward.resolve_left hbasis)
    have hleft := NameTable.size_sortTail t.left g.leftAt c.order (t.run.note .resorted)
    have hright := NameTable.size_sortTail t.right g.rightAt c.order
      (t.left.sortTail g.leftAt c.order (t.run.note .resorted)).2
    simp only [if_neg hbasis] at halign hturn
    obtain ⟨x, hx⟩ := exists_get? (i := g.leftAt) (hleft.trans htl ▸ (by omega : _ < g.left.size))
    obtain ⟨y, hy⟩ := exists_get? (i := g.rightAt)
      (hright.trans htr ▸ (by omega : _ < g.right.size))
    refine ⟨_, hturn.trans hresort, Or.inl ?_, ?_⟩
    · simp only
      omega
    · rw [turn_of_not_usesKeys visitor hkeys hx hy, halign, hx, hy]
      rfl

/-! ## The whole loop -/

/-- Handing a pairing on stays in range, and leaves fewer names. -/
theorem handOn_lt (c : Comparison σ) (visitor : Visitor σ α) (hw : g.Within) (h : g.IsOpen) :
    let next := (c.align g.left g.leftAt g.right g.rightAt g.run).handOn visitor g
    next.Within ∧ next.remaining < g.remaining := by
  obtain ⟨hi, hj⟩ := hw
  obtain ⟨hlt, hlt'⟩ := c.align_lt g.left g.leftAt g.right g.rightAt g.run h
  obtain ⟨hsl, hsr⟩ := c.size_align g.left g.leftAt g.right g.rightAt g.run
  simp only [Aligned.handOn, Stage.remaining]
  generalize c.align g.left g.leftAt g.right g.rightAt g.run = t at *
  rw [hsl, hsr]
  cases ho : t.order with
  | lt =>
    have := hlt (by simp [ho])
    simp only [advance]
    exact ⟨⟨by simp only; omega, by simp only; omega⟩, by omega⟩
  | eq =>
    have := hlt (by simp [ho])
    have := hlt' (by simp [ho])
    simp only [advance]
    exact ⟨⟨by simp only; omega, by simp only; omega⟩, by omega⟩
  | gt =>
    have := hlt' (by simp [ho])
    simp only [advance]
    exact ⟨⟨by simp only; omega, by simp only; omega⟩, by omega⟩

/-- Two turns for each name left are enough, from wherever the loop
stands, and it leaves behind what the recursion does. -/
theorem turns_eq (hw : g.Within) {n : Nat} (hn : 2 * g.remaining ≤ n) :
    ∃ final, c.turns visitor n g = some final ∧ ¬ final.IsOpen ∧
      final.step =
        c.pairFrom visitor g.left g.leftAt g.right g.rightAt g.status g.run g.result := by
  -- by what is left, since a turn that sorts again does not move
  induction hk : g.remaining using Nat.strongRecOn generalizing g n with
  | ind k ih =>
    by_cases h : g.IsOpen
    · obtain ⟨hw', hlt⟩ := handOn_lt c visitor hw h
      rw [pairFrom, dif_pos h]
      obtain ⟨m, rfl⟩ : ∃ m, n = m + 2 := ⟨n - 2, by omega⟩
      rcases turn_eq c visitor hw h with ht | ⟨g', ht, h', ht'⟩
      · obtain ⟨final, hf⟩ := ih _ (by omega) hw' (n := m + 1) (by omega) rfl
        refine ⟨final, ?_, hf.2⟩
        rw [turns, if_pos h, ht, Option.bind_some]
        exact hf.1
      · obtain ⟨final, hf⟩ := ih _ (by omega) hw' (n := m) (by omega) rfl
        refine ⟨final, ?_, hf.2⟩
        rw [turns, if_pos h, ht, Option.bind_some, turns, if_pos h', ht', Option.bind_some]
        exact hf.1
    · rw [pairFrom, dif_neg h]
      refine ⟨g, ?_, h, rfl⟩
      cases n with
      | zero => rfl
      | succ n => rw [turns, if_neg h]

/-- **The loop ends, and no access is out of range**, however the visitor
treats the run: it takes two turns for each name at most, and leaves behind
what `pairTables` gives. -/
theorem turns_pairTables (c : Comparison σ) (visitor : Visitor σ α) (left right : NameTable)
    (s : RunState σ) (result : α) {n : Nat} (hn : 2 * (left.size + right.size) ≤ n) :
    ∃ final, c.turns visitor n (c.opening left right s result) = some final ∧ ¬ final.IsOpen ∧
      final.step = c.pairTables visitor left right s result := by
  obtain ⟨hl, hr⟩ := c.perm_sortBoth left right s
  have hl := hl.length_eq
  have hr := hr.length_eq
  rw [NameTable.length_names, NameTable.length_names] at hl hr
  refine turns_eq ⟨Nat.zero_le _, Nat.zero_le _⟩ ?_
  simp only [opening, Stage.remaining]
  omega

end Comparison

end TreeCompare
