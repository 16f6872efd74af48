import TreeCompare.Proofs.Operations.KeyedReading
import TreeCompare.Proofs.Pairing.Cut
import TreeCompare.Proofs.Trees.Reports
import TreeCompare.Proofs.Trees.Turned
/-!
# A run that starts at a name

Where keys are given by the names alone, a run with a start name reports what
the run without it reports from that name on. What a visit adds to a run
(`Reports`) depends on its pairing and not on what the run has come to
(`exists_reports`), below the two operands nothing depends on the start name, and
there the names that are skipped are in front of a cut through both directories.
So the visits of the run with the start name are a suffix of those without, with
the same reports (`compareTrees_startingAt`).
-/

namespace TreeCompare

variable {σ : Type}

/-! ## What is reported on the way -/

/-- From one state of a run and the findings so far to another these findings
and these diagnostics are reported, in this order, and the basis is kept. -/
structure Reports (events : List Finding) (notes : List Diagnostic) (s : RunState σ)
    (found : TreeComparison.Findings) (s' : RunState σ) (found' : TreeComparison.Findings) :
    Prop where
  findings : found' = events.reverse ++ found
  diagnostics : s'.diagnostics = notes.reverse ++ s.diagnostics
  basis : s'.basis = s.basis

namespace Reports

variable {events events' : List Finding} {notes notes' : List Diagnostic}
  {s s' s'' : RunState σ} {found found' found'' : TreeComparison.Findings}

theorem refl (s : RunState σ) (found : TreeComparison.Findings) :
    Reports [] [] s found s found := ⟨rfl, rfl, rfl⟩

theorem trans (h : Reports events notes s found s' found')
    (h' : Reports events' notes' s' found' s'' found'') :
    Reports (events ++ events') (notes ++ notes') s found s'' found'' := by
  refine ⟨?_, ?_, h'.basis.trans h.basis⟩
  · rw [h'.findings, h.findings, List.reverse_append, List.append_assoc]
  · rw [h'.diagnostics, h.diagnostics, List.reverse_append, List.append_assoc]

/-- What goes before and reports nothing is of no account. -/
theorem after (hb : s'.basis = s.basis) (hd : s'.diagnostics = s.diagnostics)
    (h : Reports events notes s' found s'' found'') : Reports events notes s found s'' found'' :=
  ⟨h.findings, by rw [h.diagnostics, hd], h.basis.trans hb⟩

theorem after_note {n : Note} (hn : n.diagnostic? = none)
    (h : Reports events notes (s.note n) found s'' found'') :
    Reports events notes s found s'' found'' :=
  ⟨h.findings, h.diagnostics.trans (congrArg _ (List.filterMap_cons_none hn)), h.basis⟩

end Reports

namespace Visit

/-- The findings of a visit, in order. -/
def events (v : Visit σ TreeComparison.Findings) : List Finding :=
  (v.step.result.take (v.step.result.length - v.result.length)).reverse

/-- The diagnostics of a visit, in order. -/
def diagnostics (v : Visit σ TreeComparison.Findings) : List Diagnostic :=
  (v.step.run.diagnostics.take
    (v.step.run.diagnostics.length - v.run.diagnostics.length)).reverse

theorem of_reports {v : Visit σ TreeComparison.Findings} {events : List Finding}
    {notes : List Diagnostic} (h : Reports events notes v.run v.result v.step.run v.step.result) :
    v.events = events ∧ v.diagnostics = notes := by
  unfold Visit.events Visit.diagnostics
  rw [h.findings, h.diagnostics]
  simp

/-- What a visit reports, and of which pairing. -/
def report (v : Visit σ TreeComparison.Findings) : Pairing × List Finding × List Diagnostic :=
  (v.pairing, v.events, v.diagnostics)

theorem map_report {visits : List (Visit σ TreeComparison.Findings)}
    {events : Pairing → List Finding} {notes : Pairing → List Diagnostic}
    (h : ∀ v ∈ visits, v.events = events v.pairing ∧ v.diagnostics = notes v.pairing) :
    visits.map report = (handed visits).map fun p => (p, events p, notes p) := by
  rw [handed, List.map_map]
  exact List.map_congr_left fun v hv => by simp only [report, Function.comp, h v hv]

end Visit

namespace Comparison

variable {c : Comparison σ} {key : Keying} {basis : Basis} {s : RunState σ}
  {visitor : Visitor σ TreeComparison.Findings} {events : Pairing → List Finding}
  {notes : Pairing → List Diagnostic}

/-- The visitor reports what it reports of a pairing, whatever the run has come
to. -/
def ReportsOf (basis : Basis) (visitor : Visitor σ TreeComparison.Findings)
    (events : Pairing → List Finding) (notes : Pairing → List Diagnostic) : Prop :=
  ∀ p s found, s.basis = basis →
    Reports (events p) (notes p) s found (visitor p s found).run (visitor p s found).result

/-- **The visits of a pairing report what their pairings come to**, one after
the other. -/
theorem reports_visitsOn (h : c.order.Keyed key) (hv : ReportsOf basis visitor events notes)
    (hs : s.basis = basis) (left right : List Name) (found : TreeComparison.Findings) :
    let visits := c.visitsOn visitor left right s found
    let final := Visit.leftBehind s found visits
    Reports ((Visit.handed visits).flatMap events) ((Visit.handed visits).flatMap notes) s found
        final.1 final.2 ∧
      ∀ v ∈ visits, v.events = events v.pairing ∧ v.diagnostics = notes v.pairing := by
  induction left, right, s, found using visitsOn.induct c visitor with
  | case1 left right s found hne t step ih =>
    obtain ⟨hb, hd⟩ := alignTails_law h.stepLaw left right s
    have hstep := hv t.pairing t.run found (hb.trans hs)
    obtain ⟨hrest, hall⟩ := ih (hstep.basis.trans (hb.trans hs))
    rw [visitsOn_cons hne]
    refine ⟨(hstep.trans hrest).after hb hd, fun v hmem => ?_⟩
    rcases List.mem_cons.1 hmem with rfl | hmem
    · exact Visit.of_reports hstep
    · exact hall v hmem
  | case2 left right s found hne =>
    have hnil : left = [] ∧ right = [] := by simpa using hne
    rw [hnil.1, hnil.2, visitsOn_nil]
    exact ⟨.refl s found, fun v hv => absurd hv List.not_mem_nil⟩

/-- **The visits of ascending names fall in two** at a start name: first those of
the names that are ordered before it, and then those of the others. -/
theorem visitsOn_start (h : c.order.Keyed key)
    (hv : Visitor.Keeps (fun s u => u.basis = s.basis) visitor) (hs : s.basis = basis)
    {left right : List Name} (hl : (c.order.keying key basis).Ascending left)
    (hr : (c.order.keying key basis).Ascending right) (start : Name)
    (found : TreeComparison.Findings) :
    let k := c.order.keying key basis
    ∃ skipped kept u found', u.basis = basis ∧
      c.visitsOn visitor left right s found = skipped ++ kept ∧
      kept = c.visitsOn visitor (left.filter (k.isFrom (some start)))
        (right.filter (k.isFrom (some start))) u found' ∧
      (∀ v ∈ skipped, ∀ x, v.pairing.Mentions x → k.matching x start = .lt) ∧
      ∀ v ∈ kept, ∀ x, v.pairing.Mentions x → k.matching x start ≠ .lt := by
  intro k
  subst hs
  have hbefore : ∀ {names : List Name} {x}, x ∈ names.filter (fun x => !k.isFrom (some start) x) →
      k.isFrom (some start) x = false := fun hx => by simpa using (List.mem_filter.1 hx).2
  have hcut : ∀ x ∈ left.filter (fun x => !k.isFrom (some start) x) ++
        right.filter (fun x => !k.isFrom (some start) x),
      ∀ y ∈ left.filter (k.isFrom (some start)) ++ right.filter (k.isFrom (some start)),
        k.matching x y = .lt := fun x hx y hy =>
    Keying.matching_lt_of_isFrom ((List.mem_append.1 hx).elim hbefore hbefore)
      ((List.mem_append.1 hy).elim (fun hy => (List.mem_filter.1 hy).2)
        fun hy => (List.mem_filter.1 hy).2)
  obtain ⟨skipped, u, found', hu, hvisits, hskipped⟩ := visitsOn_cut h hv hcut found
  rw [Keying.before_append_from hl, Keying.before_append_from hr] at hvisits
  refine ⟨skipped, _, u, found', hu, hvisits, rfl, fun v hv x hx => ?_, fun v hv x hx => ?_⟩
  · have hfrom : k.isFrom (some start) x = false :=
      (List.mem_append.1 (hskipped v hv x hx)).elim hbefore hbefore
    rwa [← Bool.not_eq_true, Keying.isFrom_some, not_not] at hfrom
  · obtain ⟨hlefts, hrights⟩ := c.perm_visitsOn visitor (left.filter (k.isFrom (some start)))
      (right.filter (k.isFrom (some start))) u found'
    have hmem := List.mem_map_of_mem (f := (·.pairing)) hv
    rw [← Keying.isFrom_some]
    rcases hx with hx | hx
    · exact (List.mem_filter.1 (hlefts.mem_iff.1 (Pairing.mem_lefts.2 ⟨_, hmem, hx⟩))).2
    · exact (List.mem_filter.1 (hrights.mem_iff.1 (Pairing.mem_rights.2 ⟨_, hmem, hx⟩))).2

end Comparison

namespace TreeComparison

variable {t : TreeComparison σ} {key : Keying} {basis : Basis} {s : RunState σ}
  {found : Findings} {depth : Nat} {pair pair' : DirectoryPair} {left right : List Name}

/-! ## How a pair of directories is begun -/

/-- What is reported of a directory that is read. -/
def readNotes : Except DirectoryError (List Name) → List Diagnostic
  | .ok _ => []
  | .error e => [.readFailed e.path e.error.message]

/-- What there is to pair of a pair of directories, or what is reported where
nothing is paired. -/
def opening (t : TreeComparison σ) (k : Keying) (start : Option Name) (pair : DirectoryPair) :
    Except (List Diagnostic) (DirectoryPair × List Name × List Name) :=
  if pair.leadsBack .left && pair.leadsBack .right then
    .error [.recursiveLoop (if pair.left.isNonexistent then pair.right else pair.left).path]
  else
    let left := t.comparison.listing t.files k start pair.left
    let right := t.comparison.listing t.files k start pair.right
    match left.1, right.1 with
    | .ok l, .ok r => .ok ({ pair with left := left.2, right := right.2 }, l, r)
    | _, _ => .error (readNotes left.1 ++ readNotes right.1)

/-- A directory that is read as its listing says, and what is reported of
it. -/
theorem reports_reportRead (h : t.comparison.order.Keyed key) (hs : s.basis = basis)
    (start : Option Name) (operand : Operand) (found : Findings) :
    let answer := t.comparison.namesIn t.files operand start false s
    let listed := t.comparison.listing t.files (t.comparison.order.keying key basis) start operand
    Reports [] (readNotes listed.1) s found (Comparison.reportRead answer.1 answer.2.2) found := by
  intro answer listed
  obtain ⟨hnames, -, -, hb, hd⟩ :=
    Comparison.namesIn_eq_listing h hs t.files start operand
  change answer.1.map NameTable.names = listed.1 at hnames
  change answer.2.2.basis = basis at hb
  change answer.2.2.diagnostics = s.diagnostics at hd
  rw [← hnames]
  cases answer.1 with
  | ok table => exact ⟨rfl, hd, hb.trans hs.symm⟩
  | error e => exact ⟨rfl, congrArg _ hd, hb.trans hs.symm⟩

/-- **How a pair of directories is begun** does not depend on what the run has
come to: there is nothing to pair, which is reported, or what is listed is
merged. -/
theorem opening_cases (h : t.comparison.order.Keyed key) (hs : s.basis = basis) (depth : Nat)
    (pair : DirectoryPair) (found : Findings) :
    let opened := t.opening (t.comparison.order.keying key basis)
      (if pair.isRoot then t.comparison.options.startingFile else none) pair
    (∃ notes, opened = .error notes ∧ t.merge? depth pair s found = none ∧
        ∀ visitor : DirectoryPair → Visitor σ Findings,
          let paired := t.comparison.pairDirectories t.files pair visitor s found
          Reports [] notes s found paired.run paired.result) ∨
      ∃ m, t.merge? depth pair s found = some m ∧
        opened = .ok (m.pair, m.left.names, m.right.names) ∧
        m.left.sortedBy = some basis ∧ m.right.sortedBy = some basis ∧ m.run.basis = basis ∧
        m.run.diagnostics = s.diagnostics := by
  intro opened
  simp only [opened]
  unfold opening merge? Comparison.pairDirectories
  by_cases hloop : (pair.leadsBack .left && pair.leadsBack .right) = true
  · simp only [hloop, if_true]
    exact Or.inl ⟨_, rfl, trivial, fun _ => ⟨rfl, rfl, rfl⟩⟩
  simp only [hloop, Bool.false_eq_true, if_false]
  generalize (if pair.isRoot = true then t.comparison.options.startingFile else none) = start
  -- the left directory is read first, and the right one whatever came of it
  obtain ⟨hnames, hoperand, hsorted, -, -⟩ :=
    Comparison.namesIn_eq_listing h hs t.files start pair.left
  have hread := reports_reportRead h hs start pair.left found
  simp only [← hnames, ← hoperand] at hread ⊢
  generalize t.comparison.namesIn t.files pair.left start false s = answer at *
  obtain ⟨la, lo, ls⟩ := answer
  have hbasis : (Comparison.reportRead la ls).basis = basis := hread.basis.trans hs
  obtain ⟨hnames', hoperand', hsorted', -, -⟩ :=
    Comparison.namesIn_eq_listing h hbasis t.files start pair.right
  have hread' := reports_reportRead h hbasis start pair.right found
  simp only [← hnames', ← hoperand'] at hread' ⊢
  generalize t.comparison.namesIn t.files pair.right start false (Comparison.reportRead la ls) =
    answer' at *
  obtain ⟨ra, ro, rs⟩ := answer'
  have hboth := hread.trans hread'
  cases la with
  | error e => exact Or.inl ⟨_, rfl, rfl, fun _ => hboth⟩
  | ok left =>
    cases ra with
    | error e => exact Or.inl ⟨_, rfl, rfl, fun _ => hboth⟩
    | ok right =>
      exact Or.inr ⟨_, rfl, rfl, hsorted left rfl, hsorted' right rfl, hboth.basis.trans hs,
        hboth.diagnostics⟩

/-- The visits of a merge whose tables are sorted already, and what comes of
them. -/
theorem visits_of_sorted {m : Merge σ} (hl : m.left.sortedBy = some m.run.basis)
    (hr : m.right.sortedBy = some m.run.basis) (visitor : Visitor σ Findings) :
    let visits := t.comparison.visitsOn visitor m.left.names m.right.names m.run m.found
    let step := t.comparison.pairTables visitor m.left m.right m.run m.found
    t.comparison.visits visitor m.left m.right m.run m.found = visits ∧
      (step.run, step.result) = Visit.leftBehind m.run m.found visits := by
  have hsorted : t.comparison.sortBoth m.left m.right m.run = (m.left, m.right, m.run) := by
    simp only [Comparison.sortBoth, Comparison.ensureSorted, hl, hr, if_true]
  have hvisits := t.comparison.visits_eq_visitsOn visitor m.left m.right m.run m.found
  have hpaired := t.comparison.pairTables_eq_of_visits visitor m.left m.right m.run m.found
  rw [hsorted] at hvisits hpaired
  refine ⟨hvisits, ?_⟩
  rw [← hvisits]
  simp only [hpaired]

/-! ## Below the two operands -/

/-- The comparison with another start name, or with none. -/
def startingAt (t : TreeComparison σ) (start : Option Name) : TreeComparison σ :=
  { t with comparison := t.comparison.startingAt start }

theorem visit_startingAt (t : TreeComparison σ) (start : Option Name) :
    (t.startingAt start).visit = t.visit := rfl

/-- The visitor reports the same of a pairing whatever the run has come to and
whatever it starts at, if going down does. -/
theorem exists_reports_visitor
    (hbelow : ∀ pair : DirectoryPair, pair.isRoot = false → ∃ events notes,
      ∀ start (s : RunState σ) found, s.basis = basis →
        let paired := (t.startingAt start).compareWithin depth pair s found
        Reports events notes s found paired.run paired.result) (pair : DirectoryPair) :
    ∃ events notes, ∀ start,
      Comparison.ReportsOf basis ((t.startingAt start).visitor depth pair) events notes := by
  have hpairing : ∀ p, ∃ events notes, ∀ start (s : RunState σ) found, s.basis = basis →
      let step := (t.startingAt start).visitor depth pair p s found
      Reports events notes s found step.run step.result := fun p => by
    rcases t.goes_or_comesTo pair p with ⟨left, right, -, -, hg⟩ | ⟨reported, hc, -⟩
    · obtain ⟨events, notes, hreports⟩ := hbelow (pair.below left right) rfl
      refine ⟨events, notes, fun start s found hs => ?_⟩
      rw [visitor, visit_startingAt, hg]
      exact hreports start s found hs
    · refine ⟨reported.toList, [], fun start s found _ => ?_⟩
      rw [visitor, visit_startingAt, hc]
      exact ⟨by cases reported <;> rfl, rfl, rfl⟩
  choose events notes hreports using hpairing
  exact ⟨events, notes, fun start p s found hs => hreports p start s found hs⟩

/-- What a visitor of a tree comparison does keeps the basis. -/
theorem keeps_visitor (h : t.comparison.order.Keyed key) (depth : Nat) (pair : DirectoryPair) :
    Visitor.Keeps (fun s u => u.basis = s.basis) (t.visitor depth pair) :=
  visitor_law h.stepLaw_basis (fun _ _ _ => rfl) depth pair

/-- One level of a comparison. -/
theorem compareWithin_succ (t : TreeComparison σ) (depth : Nat) (pair : DirectoryPair)
    (s : RunState σ) (found : Findings) :
    t.compareWithin (depth + 1) pair s found =
      t.comparison.pairDirectories t.files pair (t.visitor depth)
        (s.note (.directories pair.left.path pair.right.path pair.depth)) found := rfl

/-- What a merge reports, and which pairings it is of. -/
theorem reports_merge (h : t.comparison.order.Keyed key) (hs : s.basis = basis) {m : Merge σ}
    (hm : t.merge? depth pair s found = some m) (hl : m.left.sortedBy = some basis)
    (hr : m.right.sortedBy = some basis) (hb : m.run.basis = basis)
    (hd : m.run.diagnostics = s.diagnostics) {events : Pairing → List Finding}
    {notes : Pairing → List Diagnostic}
    (hv : Comparison.ReportsOf basis (t.visitor depth m.pair) events notes) :
    let paired := t.comparison.pairDirectories t.files pair (t.visitor depth) s found
    let visits := t.comparison.visitsOn (t.visitor depth m.pair) m.left.names m.right.names m.run
      found
    t.visits m = visits ∧
      Reports ((Visit.handed visits).flatMap events) ((Visit.handed visits).flatMap notes) s found
        paired.run paired.result ∧
      ∀ v ∈ visits, v.events = events v.pairing ∧ v.diagnostics = notes v.pairing := by
  rcases t.pairDirectories_eq depth pair s found with ⟨m', hm', rfl, rfl, he⟩ | ⟨hnone, -⟩
  · obtain rfl := Option.some.inj (hm'.symm.trans hm)
    rw [← hb] at hl hr
    obtain ⟨hvisits, hfinal⟩ := visits_of_sorted (t := t) hl hr (t.visitor m'.depth m'.pair)
    obtain ⟨hreports, hall⟩ := Comparison.reports_visitsOn h hv hb m'.left.names m'.right.names
      m'.found
    rw [← hfinal] at hreports
    intro paired visits
    refine ⟨hvisits, ?_, hall⟩
    simp only [paired, he]
    exact hreports.after (hb.trans hs.symm) hd
  · exact nomatch hnone.symm.trans hm

/-- **Below the two operands** a pair of directories is reported on in the same
way whatever the run has come to and whatever it starts at. -/
theorem exists_reports (h : t.comparison.order.Keyed key) {s₀ : RunState σ}
    (hs₀ : s₀.basis = basis) (depth : Nat) (pair : DirectoryPair) (hroot : pair.isRoot = false) :
    ∃ events notes, ∀ start (s : RunState σ) found, s.basis = basis →
      let paired := (t.startingAt start).compareWithin depth pair s found
      Reports events notes s found paired.run paired.result := by
  induction depth generalizing pair with
  | zero =>
    exact ⟨[], [.recursiveLoop pair.left.path], fun start s found hs => ⟨rfl, rfl, rfl⟩⟩
  | succ depth ih =>
    have hcases := fun start (s : RunState σ) (found : Findings) (hs : s.basis = basis) =>
      (t.startingAt start).opening_cases h
        (s := s.note (.directories pair.left.path pair.right.path pair.depth)) hs depth pair found
    simp only [hroot, Bool.false_eq_true, if_false] at hcases
    rcases ho : t.opening (t.comparison.order.keying key basis) none pair with
      notes | ⟨pair', left, right⟩
    · refine ⟨[], notes, fun start s found hs => ?_⟩
      rcases hcases start s found hs with ⟨notes', ho', -, hreports⟩ | ⟨m, -, ho', -⟩
      · obtain rfl := Except.error.inj (ho.symm.trans ho')
        rw [compareWithin_succ]
        exact .after_note rfl (hreports ((t.startingAt start).visitor depth))
      · exact nomatch ho.symm.trans ho'
    · obtain ⟨events, notes, hv⟩ := exists_reports_visitor (t := t) ih pair'
      -- the pairings are those that any run would hand on
      let handed := Visit.handed (t.comparison.visitsOn
        (fun _ s _ => ⟨.same, s, ()⟩ : Visitor σ Unit) left right s₀ ())
      refine ⟨handed.flatMap events, handed.flatMap notes, fun start s found hs => ?_⟩
      rcases hcases start s found hs with ⟨notes', ho', -⟩ | ⟨m, hm, ho', hl, hr, hb, hd⟩
      · exact nomatch ho.symm.trans ho'
      · obtain ⟨rfl, rfl, rfl⟩ : pair' = m.pair ∧ left = m.left.names ∧ right = m.right.names := by
          have hopened := Except.ok.inj (ho.symm.trans ho')
          simp only [Prod.mk.injEq] at hopened
          exact hopened
        have hhanded : Visit.handed ((t.startingAt start).comparison.visitsOn
              ((t.startingAt start).visitor depth m.pair) m.left.names m.right.names m.run found) =
            handed :=
          Comparison.handed_visitsOn_congr (c := t.comparison) h
            (show (t.startingAt start).comparison.order = _ from rfl) (hb.trans hs₀.symm)
            (fun _ _ _ => rfl) (keeps_visitor (t := t.startingAt start) h depth m.pair) _ _ () found
        obtain ⟨-, hreports, -⟩ := reports_merge (t := t.startingAt start) h
          (s := s.note (.directories pair.left.path pair.right.path pair.depth)) hs hm hl hr hb hd
          (hv start)
        rw [hhanded] at hreports
        rw [compareWithin_succ]
        exact .after_note rfl hreports

/-! ## The two operands -/

/-- A start name takes away the names of both sides that are ordered before
it. -/
theorem opening_start (t : TreeComparison σ) (k : Keying) (start : Option Name)
    (pair : DirectoryPair) :
    t.opening k start pair = (t.opening k none pair).map fun opened =>
      (opened.1, opened.2.1.filter (k.isFrom start), opened.2.2.filter (k.isFrom start)) := by
  unfold opening
  split
  · rfl
  · rw [Comparison.listing_start t.comparison t.files k start pair.left,
      Comparison.listing_start t.comparison t.files k start pair.right]
    generalize t.comparison.listing t.files k none pair.left = l
    generalize t.comparison.listing t.files k none pair.right = r
    obtain ⟨_ | _, _⟩ := l <;> obtain ⟨_ | _, _⟩ := r <;> rfl

/-- What there is to pair is ascending. -/
theorem ascending_opening {k : Keying} {start : Option Name}
    (h : t.opening k start pair = .ok (pair', left, right)) :
    k.Ascending left ∧ k.Ascending right := by
  unfold opening at h
  split at h
  · cases h
  · simp only at h
    split at h
    · next hl hr =>
      cases h
      exact ⟨Comparison.ascending_listing hl, Comparison.ascending_listing hr⟩
    · cases h

/-- The merge of the two operands themselves. -/
def topMerge? (t : TreeComparison σ) (left right : Path) (s : RunState σ) : Option (Merge σ) :=
  match t.files.stat left t.comparison.options.followLinks,
      t.files.stat right t.comparison.options.followLinks with
  | .ok l, .ok r =>
    t.merge? (t.depthBound - 1) (.root (.known left l) (.known right r))
      ((s.reset.note (.comparing left right)).note (.directories left right 0)) []
  | _, _ => none

/-- The visits of the entries of the two operands. -/
def topVisits (t : TreeComparison σ) (left right : Path) (s : RunState σ) :
    List (Visit σ Findings) :=
  match t.topMerge? left right s with
  | some m => t.visits m
  | none => []

/-- The comparison of two operands reports what these visits report, behind what
is reported of the operands themselves. -/
def ReportedBy (t : TreeComparison σ) (left right : Path) (s : RunState σ)
    (top : List Diagnostic) (visits : List (Visit σ Findings)) : Prop :=
  let step := t.compareTrees left right s
  step.result.reverse = visits.flatMap Visit.events ∧
    t.collected s step = top ++ visits.flatMap Visit.diagnostics

theorem ReportedBy.congr {l r : Path} {top : List Diagnostic}
    {visits visits' : List (Visit σ Findings)} (h : t.ReportedBy l r s top visits)
    (hsame : visits.map Visit.report = visits'.map Visit.report) :
    t.ReportedBy l r s top visits' := by
  have hevents := congrArg (List.flatMap fun report => report.2.1) hsame
  have hdiagnostics := congrArg (List.flatMap fun report => report.2.2) hsame
  simp only [List.flatMap_map, Visit.report] at hevents hdiagnostics
  exact ⟨h.1.trans hevents, h.2.trans (congrArg _ hdiagnostics)⟩

/-- What is collected of a run are the diagnostics that it has more. -/
theorem collected_of_diagnostics {step : Step σ Findings} {notes : List Diagnostic}
    (hj : s.journal <:+ step.run.journal)
    (h : step.run.diagnostics = notes.reverse ++ s.diagnostics) : t.collected s step = notes := by
  obtain ⟨more, hmore⟩ := hj
  rw [RunState.diagnostics, RunState.diagnostics, ← hmore, List.filterMap_append,
    List.append_cancel_right_eq] at h
  rw [collected_eq hmore.symm, List.filterMap_reverse, h, List.reverse_reverse]

/-- **What a comparison of two directories reports**: it cannot be begun and
that is reported, or its visits report it all. -/
theorem reportedBy_topVisits (h : t.comparison.order.Keyed key) {l r : Path} {ls rs : ObjectStat}
    (hl : t.files.stat l t.comparison.options.followLinks = .ok ls)
    (hr : t.files.stat r t.comparison.options.followLinks = .ok rs)
    (hkl : ls.kind = .directory) (hkr : rs.kind = .directory)
    {events : DirectoryPair → Pairing → List Finding}
    {notes : DirectoryPair → Pairing → List Diagnostic}
    (hv : ∀ pair, Comparison.ReportsOf s.reset.basis (t.visitor (t.depthBound - 1) pair)
      (events pair) (notes pair)) :
    let opened := t.opening (t.comparison.order.keying key s.reset.basis)
      t.comparison.options.startingFile (.root (.known l ls) (.known r rs))
    (∃ top, opened = .error top ∧ t.topVisits l r s = [] ∧ t.ReportedBy l r s top []) ∨
      ∃ m : Merge σ, opened = .ok (m.pair, m.left.names, m.right.names) ∧
        m.run.basis = s.reset.basis ∧
        t.topVisits l r s = t.comparison.visitsOn (t.visitor (t.depthBound - 1) m.pair)
          m.left.names m.right.names m.run [] ∧
        (∀ v ∈ t.topVisits l r s,
          v.events = events m.pair v.pairing ∧ v.diagnostics = notes m.pair v.pairing) ∧
        t.ReportedBy l r s [] (t.topVisits l r s) := by
  intro opened
  have hstep : t.compareTrees l r s =
      (t.comparison.pairDirectories t.files (.root (.known l ls) (.known r rs))
        (t.visitor (t.depthBound - 1))
        ((s.reset.note (.comparing l r)).note (.directories l r 0)) []).toStep :=
    t.compareTrees_directories (Nat.le_refl _) hl hr hkl hkr s
  have htop : t.topMerge? l r s = t.merge? (t.depthBound - 1) (.root (.known l ls) (.known r rs))
      ((s.reset.note (.comparing l r)).note (.directories l r 0)) [] := by
    simp only [topMerge?, hl, hr]
  have hjournal := (t.status_eq_worstOf_reported l r s).1
  have hcases := opening_cases h (t := t)
    (s := (s.reset.note (.comparing l r)).note (.directories l r 0))
    (show _ = s.reset.basis from rfl) (t.depthBound - 1) (.root (.known l ls) (.known r rs)) []
  rcases hcases with ⟨top, ho, hnone, hreports⟩ | ⟨m, hm, ho, hsl, hsr, hb, hd⟩
  · have hreport := hreports (t.visitor (t.depthBound - 1))
    refine Or.inl ⟨top, ho, by simp only [topVisits, htop, hnone], ?_, ?_⟩
    · rw [hstep]
      exact congrArg List.reverse hreport.findings
    · rw [List.flatMap_nil, List.append_nil]
      refine collected_of_diagnostics hjournal ?_
      rw [hstep]
      exact hreport.diagnostics
  · obtain ⟨hvisits, hreport, hall⟩ := reports_merge h rfl hm hsl hsr hb hd (hv m.pair)
    have hsame : t.topVisits l r s = t.comparison.visitsOn (t.visitor (t.depthBound - 1) m.pair)
        m.left.names m.right.names m.run [] := by
      simp only [topVisits, htop, hm, hvisits]
    rw [← hsame] at hreport hall
    rw [Visit.handed, List.flatMap_map, List.flatMap_map] at hreport
    refine Or.inr ⟨m, ho, hb, hsame, hall, ?_, ?_⟩
    · rw [hstep, List.flatMap_congr fun v hv => (hall v hv).1]
      refine (congrArg List.reverse hreport.findings).trans ?_
      rw [List.append_nil, List.reverse_reverse]
    · refine collected_of_diagnostics hjournal ?_
      rw [hstep, List.nil_append, List.flatMap_congr fun v hv => (hall v hv).2]
      exact hreport.diagnostics

/-- A merge below the two operands is of all names of its two directories that
are not left out, whatever the start name. -/
theorem perm_of_nested {l r : Path} {m : Merge σ} (hm : t.MergedIn l r s m)
    (hroot : m.pair.isRoot = false) :
    m.left.names.Perm (t.comparison.keptNames t.files m.pair.left) ∧
      m.right.names.Perm (t.comparison.keptNames t.files m.pair.right) := by
  obtain ⟨_, _, -, -, -, -, hof⟩ := hm
  obtain ⟨depth, pair, s', found', hmerge⟩ := hof.exists_merge?
  obtain ⟨-, hancestors, s₁, hl, hr⟩ := reads_of_merge? hmerge
  have hpair : pair.isRoot = false := by
    rw [← hroot, DirectoryPair.isRoot, DirectoryPair.isRoot, hancestors]
  simp only [hpair, Bool.false_eq_true, if_false] at hl hr
  exact ⟨Comparison.perm_keptNames hl, Comparison.perm_keptNames hr⟩

/-- **A run that starts at a name reports a suffix.** Where keys are given by the
names alone, what a comparison of two directories reports that starts at a name
is what it reports without a start name, but for the visits in front of the
start name: those are of names that are ordered before it, the others of names
that are not. Below the two operands no name is taken away. -/
theorem compareTrees_startingAt (t : TreeComparison σ) (h : t.comparison.order.Keyed key)
    {l r : Path} {ls rs : ObjectStat}
    (hl : t.files.stat l t.comparison.options.followLinks = .ok ls)
    (hr : t.files.stat r t.comparison.options.followLinks = .ok rs)
    (hkl : ls.kind = .directory) (hkr : rs.kind = .directory) (start : Name)
    (s s' : RunState σ) :
    let whole := t.startingAt none
    let part := t.startingAt (some start)
    let place name := (t.comparison.order.matchingOrder name start s.reset).1
    ∃ skipped kept top,
      whole.topVisits l r s = skipped ++ kept ∧
        (∀ v ∈ skipped, ∀ name, v.pairing.Mentions name → place name = .lt) ∧
        (∀ v ∈ kept, ∀ name, v.pairing.Mentions name → place name ≠ .lt) ∧
        (part.topVisits l r s').map Visit.report = kept.map Visit.report ∧
        whole.ReportedBy l r s top (skipped ++ kept) ∧
        part.ReportedBy l r s' top kept ∧
        ∀ m, part.MergedIn l r s' m → m.pair.isRoot = false →
          m.left.names.Perm (t.comparison.keptNames t.files m.pair.left) ∧
            m.right.names.Perm (t.comparison.keptNames t.files m.pair.right) := by
  intro whole part place
  let k := t.comparison.order.keying key s.reset.basis
  have hplace : ∀ name, place name = k.matching name start := fun name =>
    h.matchingOrder name start s.reset
  choose events notes hv using fun pair => exists_reports_visitor (t := t)
    (exists_reports h (show s.reset.basis = _ from rfl) (t.depthBound - 1)) pair
  have hwhole := reportedBy_topVisits (t := whole) h hl hr hkl hkr (s := s)
    (fun pair => hv pair none)
  have hpart := reportedBy_topVisits (t := part) h hl hr hkl hkr (s := s')
    (fun pair => hv pair (some start))
  have hopened := t.opening_start k (some start) (.root (.known l ls) (.known r rs))
  have hnested : ∀ m, part.MergedIn l r s' m → m.pair.isRoot = false →
      m.left.names.Perm (t.comparison.keptNames t.files m.pair.left) ∧
        m.right.names.Perm (t.comparison.keptNames t.files m.pair.right) := fun m hm hroot =>
    perm_of_nested (t := part) hm hroot
  rcases ho : t.opening k none (.root (.known l ls) (.known r rs)) with
    top | ⟨pair, left, right⟩
  · rw [ho] at hopened
    rcases hwhole with ⟨top', ho', hnone, hreports⟩ | ⟨m, ho', -⟩
    · obtain rfl := Except.error.inj (ho.symm.trans ho')
      rcases hpart with ⟨top', ho', hnone', hreports'⟩ | ⟨m, ho', -⟩
      · obtain rfl := Except.error.inj (hopened.symm.trans ho')
        exact ⟨[], [], top, hnone, by simp, by simp, by rw [hnone'], hreports, hreports', hnested⟩
      · exact nomatch hopened.symm.trans ho'
    · exact nomatch ho.symm.trans ho'
  · rw [ho] at hopened
    rcases hwhole with ⟨top', ho', -⟩ | ⟨m, ho', hb, hvisits, hall, hreports⟩
    · exact nomatch ho.symm.trans ho'
    rcases hpart with ⟨top', ho'', -⟩ | ⟨m', ho'', hb', hvisits', hall', hreports'⟩
    · exact nomatch hopened.symm.trans ho''
    obtain ⟨rfl, rfl, rfl⟩ : pair = m.pair ∧ left = m.left.names ∧ right = m.right.names := by
      simpa using Except.ok.inj (ho.symm.trans ho')
    obtain ⟨hpair, hleft, hright⟩ : m.pair = m'.pair ∧
        m.left.names.filter (k.isFrom (some start)) = m'.left.names ∧
        m.right.names.filter (k.isFrom (some start)) = m'.right.names := by
      simpa using Except.ok.inj (hopened.symm.trans ho'')
    obtain ⟨hl', hr'⟩ := ascending_opening ho
    have hv₁ := keeps_visitor (t := whole) h (t.depthBound - 1) m.pair
    have hv₂ := keeps_visitor (t := part) h (t.depthBound - 1) m'.pair
    obtain ⟨skipped, kept, u, found', hu, hcut, hkept, hbefore, hfrom⟩ :=
      Comparison.visitsOn_start (c := whole.comparison) h hv₁ hb hl' hr' start []
    have hwhole : whole.topVisits l r s = skipped ++ kept := hvisits.trans hcut
    -- the same pairings are left, and of each the same is reported
    have hhanded : Visit.handed (part.topVisits l r s') = Visit.handed kept := by
      rw [hkept, hvisits', ← hleft, ← hright]
      exact Comparison.handed_visitsOn_congr (c := whole.comparison) h
        (show part.comparison.order = _ from rfl) (hb'.trans hu.symm) hv₁ hv₂ _ _ _ _
    have hsame : (part.topVisits l r s').map Visit.report = kept.map Visit.report := by
      rw [Visit.map_report (hpair ▸ hall'), hhanded, Visit.map_report fun v hv => hall v ?_]
      rw [hwhole]
      exact List.mem_append_right _ hv
    rw [hwhole] at hreports
    refine ⟨skipped, kept, [], hwhole, fun v hv name hn => ?_, fun v hv name hn => ?_, hsame,
      hreports, ?_, hnested⟩
    · rw [hplace]
      exact hbefore v hv name hn
    · rw [hplace]
      exact hfrom v hv name hn
    · exact hreports'.congr hsame

/-- Two directories with two files that match, two directories that match and
hold one file each, and a file on the left only. -/
def suffixTree : FileTree where
  objects := [
    { content := .directory 0 [(.ofString "l", 1), (.ofString "r", 2)] none },
    { content := .directory 0 [(.ofString "a", 3), (.ofString "c", 3), (.ofString "B", 4)] none },
    { content := .directory 0 [(.ofString "b", 5), (.ofString "A", 3)] none },
    { content := .regular [] },
    { content := .directory 0 [(.ofString "a", 3)] none },
    { content := .directory 0 [(.ofString "z", 3)] none }]
  root := 0
  current := 0

/-- A comparison of `suffixTree` that ignores case and reports what is the
same. -/
def suffixSample : TreeComparison Unit where
  comparison := ⟨{ ignoreCase := true }, .ofKeying .foldAscii, fun _ => false⟩
  options := { recursive := true, reportIdentical := true }
  files := suffixTree.fileSystem

/-- From `b` on, with the file that is ordered before it one level down. -/
theorem compareTrees_startingAt_sample :
    let l := Path.ofString "l"
    let r := Path.ofString "r"
    let whole := suffixSample.startingAt none
    let part := suffixSample.startingAt (some (.ofString "b"))
    (∃ skipped kept top, whole.topVisits l r (.start ()) = skipped ++ kept ∧
      whole.ReportedBy l r (.start ()) top (skipped ++ kept) ∧
      part.ReportedBy l r (.start ()) top kept) ∧
      (whole.compareTrees l r (.start ())).result.reverse =
        .identical (.ofString "l/a") (.ofString "r/A") ::
          (part.compareTrees l r (.start ())).result.reverse ∧
      (part.compareTrees l r (.start ())).result.reverse =
        [.onlyIn (.ofString "l/B") (.ofString "a"), .onlyIn (.ofString "r/b") (.ofString "z"),
          .onlyIn (.ofString "l") (.ofString "c")] := by
  intro l r whole part
  have hkeyed : suffixSample.comparison.order.Keyed .foldAscii := fun _ => Collator.gives_ofKeying
  have hl : suffixSample.files.stat l suffixSample.comparison.options.followLinks =
      .ok ⟨.inode 1 1 none, .directory, 0⟩ := rfl
  have hr : suffixSample.files.stat r suffixSample.comparison.options.followLinks =
      .ok ⟨.inode 1 2 none, .directory, 0⟩ := rfl
  obtain ⟨skipped, kept, top, hwhole, -, -, -, hreports, hreports', -⟩ :=
    suffixSample.compareTrees_startingAt hkeyed hl hr rfl rfl (.ofString "b") (.start ())
      (.start ())
  exact ⟨⟨skipped, kept, top, hwhole, hreports, hreports'⟩, by decide +kernel, by decide +kernel⟩

end TreeComparison

end TreeCompare
