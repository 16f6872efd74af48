import TreeCompare.Proofs.Trees.Merges
import TreeCompare.Proofs.Trees.Severity
import TreeCompare.Session
/-!
# The status is the worst that is reported

A step accounts for its status when nothing that it reports is worse and
something is as bad, among the findings it adds and the diagnostics it
notes (`Accounts`). Steps that follow each other come down to the worse of
their statuses (`ComesDownTo.trans`). So the visits of a pairing come down
to the worst of theirs, each level of a comparison accounts for its status
if the levels below do, and so does the comparison of two trees as a whole
(`status_eq_worstOf_reported`).
-/

namespace TreeCompare

variable {σ : Type}

namespace TreeComparison

variable {t : TreeComparison σ} {s s' s'' : RunState σ} {found found' found'' : Findings}
  {status status' : Status}

/-- From one state of a run and the findings so far to another, `status` is
the worst of the findings that were added and of the diagnostics that were
noted. -/
def ComesDownTo (status : Status) (s : RunState σ) (found : Findings) (s' : RunState σ)
    (found' : Findings) : Prop :=
  ∃ added noted, found' = added ++ found ∧ s.Adds noted s' ∧
    status = (Status.worstOf (added.map (·.severity))).worse noted

/-- The status of a step is the worst that the step reports. -/
def Accounts (s : RunState σ) (found : Findings) (step : Step σ Findings) : Prop :=
  ComesDownTo step.status s found step.run step.result

namespace ComesDownTo

/-- Diagnostics alone. -/
theorem of_adds (h : s.Adds status s') : ComesDownTo status s found s' found :=
  ⟨[], status, rfl, h, (Status.same_worse _).symm⟩

theorem refl (s : RunState σ) (found : Findings) : ComesDownTo .same s found s found :=
  of_adds (RunState.Adds.refl s)

theorem trans (h : ComesDownTo status s found s' found')
    (h' : ComesDownTo status' s' found' s'' found'') :
    ComesDownTo (status.worse status') s found s'' found'' := by
  obtain ⟨added, noted, rfl, hn, rfl⟩ := h
  obtain ⟨added', noted', rfl, hn', rfl⟩ := h'
  refine ⟨added' ++ added, noted.worse noted', by rw [List.append_assoc], hn.trans hn', ?_⟩
  rw [List.map_append, Status.worstOf_append]
  ac_rfl

/-- What goes before and reports nothing is of no account. -/
theorem after {step : Step σ Findings} (h : s.Adds .same s') (h' : Accounts s' found step) :
    Accounts s found step := by
  have hbefore : ComesDownTo .same s found s' found := of_adds h
  have h'' := hbefore.trans h'
  rwa [Status.same_worse] at h''

end ComesDownTo

theorem accounts_settle (reported : Option Finding) (s : RunState σ) (found : Findings) :
    Accounts s found (settle reported s found) :=
  ⟨reported.toList, .same, rfl, RunState.Adds.refl s, (Status.worse_same _).symm⟩

theorem IsReport.accounts {f : RunState σ → Findings → Step σ Findings} (hf : IsReport f)
    (s : RunState σ) (found : Findings) : Accounts s found (f s found) := by
  obtain ⟨reported, -, hf⟩ := hf
  rw [hf]
  exact accounts_settle reported s found

/-- A diagnostic and nothing else. -/
theorem accounts_report (d : Diagnostic) (s : RunState σ) (found : Findings) :
    Accounts s found ⟨d.severity, s.report d, found⟩ :=
  .of_adds (s.adds_report d)

/-- A look at a path accounts for its status if what it goes on with does. -/
theorem accounts_lookAt {path : Path} {next : Located → Step σ Findings}
    (h : ∀ located, Accounts s found (next located)) :
    Accounts s found (t.lookAt path s found next) := by
  rcases t.lookAt_cases path with ⟨stat, -, hl⟩ | ⟨f, hf, hl⟩
  · rw [hl]
    exact h _
  · rw [hl]
    exact hf.accounts s found

/-! ## Pairing -/

section Pairing

variable {c : Comparison σ} {visitor : Visitor σ Findings}

/-- The visits of two tails come down to the worst of their answers. -/
theorem comesDownTo_visitsOn (hv : ∀ p s found, Accounts s found (visitor p s found))
    (left right : List Name) (s : RunState σ) (found : Findings) :
    let visits := c.visitsOn visitor left right s found
    let final := Visit.leftBehind s found visits
    ComesDownTo (Visit.worst .same visits) s found final.1 final.2 := by
  induction left, right, s, found using Comparison.visitsOn.induct c visitor with
  | case1 left right s found hne tails step ih =>
    have hstep : Accounts s found step :=
      .after (Comparison.alignTails_law c.order.stepLaw_adds left right s) (hv ..)
    simp only [Visit.worst_eq_worstOf, Status.worstOf_cons, Status.same_worse] at ih
    simp only [Comparison.visitsOn_cons hne, Visit.worst_eq_worstOf, List.map_cons,
      Status.worstOf_cons, Status.same_worse]
    exact hstep.trans ih
  | case2 left right s found hne =>
    have hnil : left = [] ∧ right = [] := by simpa using hne
    rw [hnil.1, hnil.2, Comparison.visitsOn_nil]
    exact .refl s found

theorem accounts_pairTables (hv : ∀ p s found, Accounts s found (visitor p s found))
    (left right : NameTable) (s : RunState σ) (found : Findings) :
    Accounts s found (c.pairTables visitor left right s found) := by
  rw [Comparison.pairTables_eq_of_visits, Comparison.visits_eq_visitsOn]
  exact .after (Comparison.sortBoth_law c.order.stepLaw_adds left right s)
    (comesDownTo_visitsOn hv ..)

/-- How bad the reading of a directory went. -/
def readSeverity : Except DirectoryError NameTable → Status
  | .ok _ => .same
  | .error _ => .trouble

theorem adds_reportRead (answer : Except DirectoryError NameTable) (s : RunState σ) :
    s.Adds (readSeverity answer) (Comparison.reportRead answer s) := by
  cases answer with
  | ok table => exact RunState.Adds.refl s
  | error e => exact s.adds_report (.readFailed e.path e.error.message)

/-- **A level accounts for its status if its visitor does**: a loop and a
directory that cannot be read are reported where they give trouble. -/
theorem accounts_pairDirectories (fs : FileSystem) (pair : DirectoryPair)
    {visitor : DirectoryPair → Visitor σ Findings}
    (hv : ∀ pair p s found, Accounts s found (visitor pair p s found)) (s : RunState σ)
    (found : Findings) :
    Accounts s found (c.pairDirectories fs pair visitor s found).toStep := by
  unfold Comparison.pairDirectories
  split
  · exact accounts_report (.recursiveLoop _) s found
  · have hl := Comparison.namesIn_law c.order.stepLaw_adds fs pair.left
      (if pair.isRoot then c.options.startingFile else none) false s
    simp only
    generalize c.namesIn fs pair.left _ false s = l at *
    have hr := Comparison.namesIn_law c.order.stepLaw_adds fs pair.right
      (if pair.isRoot then c.options.startingFile else none) false
      (Comparison.reportRead l.1 l.2.2)
    generalize c.namesIn fs pair.right _ false (Comparison.reportRead l.1 l.2.2) = r at *
    have hread := (hl.trans (adds_reportRead l.1 l.2.2)).trans
      (hr.trans (adds_reportRead r.1 r.2.2))
    rw [Status.same_worse, Status.same_worse] at hread
    rcases l with ⟨_ | left, leftOperand, s₁⟩ <;> rcases r with ⟨_ | right, rightOperand, s₂⟩
    · exact .of_adds hread
    · exact .of_adds hread
    · exact .of_adds hread
    · exact .after hread (accounts_pairTables (hv _) ..)

end Pairing

/-! ## Trees -/

/-- **Every level accounts for its status.** -/
theorem accounts_compareWithin (t : TreeComparison σ) (depth : Nat) (pair : DirectoryPair)
    (s : RunState σ) (found : Findings) :
    Accounts s found (t.compareWithin depth pair s found).toStep := by
  induction depth generalizing pair s found with
  | zero => exact accounts_report (.recursiveLoop _) s found
  | succ depth ih =>
    refine .after (s.adds_note (.directories pair.left.path pair.right.path pair.depth)) ?_
    refine accounts_pairDirectories t.files pair (fun pair p s found => ?_) _ _
    rcases t.goes_or_comesTo pair p with ⟨left, right, -, -, hg⟩ | ⟨reported, h, -⟩
    · rw [hg]
      exact ih ..
    · rw [h]
      exact accounts_settle reported s found

theorem accounts_compareAcross (t : TreeComparison σ) (side : Side) (dir file : Located)
    (s : RunState σ) (found : Findings) :
    Accounts s found (t.compareAcross side dir file s found) := by
  unfold compareAcross
  split
  · exact (isReport_cons (f := .trouble _ _) (by simp)).accounts s found
  · next name _ =>
    exact .after (Comparison.lookUp_law t.comparison.order.stepLaw_adds t.files dir.operand name s)
      (accounts_lookAt fun _ => (isReport_compareObjects ..).accounts ..)

/-- A comparison of two trees accounts for its status. -/
theorem accounts_compareTrees (t : TreeComparison σ) (left right : Path) (s : RunState σ) :
    Accounts s [] (t.compareTrees left right s) := by
  have hreset : s.Adds .same s.reset := ⟨[], rfl, rfl⟩
  refine .after (hreset.trans (s.reset.adds_note (.comparing left right))) ?_
  refine accounts_lookAt fun left => accounts_lookAt fun right => ?_
  split
  · exact t.accounts_compareWithin ..
  · exact t.accounts_compareAcross ..
  · exact t.accounts_compareAcross ..
  · exact (isReport_compareObjects ..).accounts ..

/-- The diagnostics that a session collects when it begins to at `s` and
then makes the step. -/
def collected (t : TreeComparison σ) (s : RunState σ) (step : Step σ Findings) :
    List Diagnostic :=
  Session.diagnostics ⟨t.comparison, step.run, some s.journal.length⟩

/-- What is collected is what the journal has more. -/
theorem collected_eq {step : Step σ Findings} {notes : List Note}
    (h : step.run.journal = notes ++ s.journal) :
    t.collected s step = notes.reverse.filterMap Note.diagnostic? := by
  simp only [collected, Session.diagnostics, Session.notesSince, h, List.length_append,
    Nat.add_sub_cancel_right, List.take_left']

/-- The worst of a journal is the worst of its diagnostics. -/
theorem worstOf_notes (notes : List Note) :
    Status.worstOf (notes.map (·.severity)) =
      Status.worstOf ((notes.reverse.filterMap Note.diagnostic?).map (·.severity)) := by
  induction notes with
  | nil => rfl
  | cons note notes ih =>
    have hnote : [note].filterMap Note.diagnostic? = note.diagnostic?.toList := by
      cases h : note.diagnostic? <;> simp [h]
    rw [List.map_cons, Status.worstOf_cons, ih, List.reverse_cons, List.filterMap_append, hnote,
      List.map_append, Status.worstOf_append, Status.worse_comm, Note.severity]

/-- **The status of a comparison is the worst that it reports**: the worst
severity among its findings and the diagnostics collected from its run. It
ends with exit code 0 only if nothing that it reported is different or
trouble, and with trouble only if it has reported a reason. -/
theorem status_eq_worstOf_reported (t : TreeComparison σ) (left right : Path) (s : RunState σ) :
    let step := t.compareTrees left right s
    let severities := step.result.map (·.severity) ++ (t.collected s step).map (·.severity)
    s.journal <:+ step.run.journal ∧
      step.status = Status.worstOf severities ∧
      (step.status.exitCode = 0 ↔ ∀ severity ∈ severities, severity = .same) ∧
      (step.status = .trouble ↔ (∃ path message, .trouble path message ∈ step.result) ∨
        ∃ d ∈ t.collected s step, d.severity = .trouble) := by
  intro step severities
  obtain ⟨added, noted, hadded, ⟨notes, hnotes, rfl⟩, hstatus⟩ :=
    t.accounts_compareTrees left right s
  have hworst : step.status = Status.worstOf severities := by
    rw [Status.worstOf_append, collected_eq hnotes, ← worstOf_notes, hstatus, hadded,
      List.append_nil]
  refine ⟨⟨notes, hnotes.symm⟩, hworst, ?_, ?_⟩
  · rw [Status.exitCode_eq_zero, hworst, Status.worstOf_eq_same]
  · rw [hworst, Status.worstOf_eq_trouble, List.mem_append, List.mem_map, List.mem_map]
    refine or_congr ⟨?_, ?_⟩ Iff.rfl
    · rintro ⟨f, hf, hs⟩
      obtain ⟨path, message, rfl⟩ := Finding.severity_eq_trouble.1 hs
      exact ⟨path, message, hf⟩
    · rintro ⟨path, message, hf⟩
      exact ⟨_, hf, rfl⟩

end TreeComparison

end TreeCompare
