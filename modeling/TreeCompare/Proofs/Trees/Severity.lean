import TreeCompare.Finding
import TreeCompare.Proofs.Ordering.Answers
import TreeCompare.Proofs.Pairing.Visits
import TreeCompare.Status
/-!
# How bad what is reported is

Findings and diagnostics have a severity, and so has what a run adds to its
journal (`RunState.Adds`): the worst of the diagnostics among it. No
operation on names adds anything worse than `same` (`stepLaw_adds`), because
a failed collation is not a difference.
-/

namespace TreeCompare

namespace Status

/-- The worst of some statuses. -/
def worstOf (statuses : List Status) : Status := statuses.foldr worse same

variable {s t : Status} {statuses : List Status}

theorem worse_comm (s t : Status) : s.worse t = t.worse s := by
  cases s <;> cases t <;> rfl

instance : Std.Associative worse := ⟨worse_assoc⟩

instance : Std.Commutative worse := ⟨worse_comm⟩

@[simp] theorem worstOf_nil : worstOf [] = same := rfl

@[simp] theorem worstOf_cons (s : Status) (statuses : List Status) :
    worstOf (s :: statuses) = s.worse (worstOf statuses) := rfl

@[simp] theorem worstOf_append (before after : List Status) :
    worstOf (before ++ after) = (worstOf before).worse (worstOf after) := by
  induction before with
  | nil => rw [List.nil_append, worstOf_nil, same_worse]
  | cons s before ih => rw [List.cons_append, worstOf_cons, ih, worstOf_cons, worse_assoc]

theorem exitCode_eq_zero : s.exitCode = 0 ↔ s = same := by
  cases s <;> decide

theorem worse_eq_same : s.worse t = same ↔ s = same ∧ t = same := by
  cases s <;> cases t <;> decide

theorem worse_eq_trouble : s.worse t = trouble ↔ s = trouble ∨ t = trouble := by
  cases s <;> cases t <;> decide

/-- The worst is as bad as nothing only if all are. -/
theorem worstOf_eq_same : worstOf statuses = same ↔ ∀ s ∈ statuses, s = same := by
  induction statuses with
  | nil => simp
  | cons s statuses ih => rw [worstOf_cons, worse_eq_same, ih, List.forall_mem_cons]

/-- Where the worst is trouble, one of them is. -/
theorem worstOf_eq_trouble : worstOf statuses = trouble ↔ trouble ∈ statuses := by
  induction statuses with
  | nil => simp
  | cons s statuses ih => rw [worstOf_cons, worse_eq_trouble, ih, List.mem_cons, eq_comm]

/-- The worst is a difference only if one of them is. -/
theorem worstOf_ne_different (h : ∀ s ∈ statuses, s ≠ different) :
    worstOf statuses ≠ different := by
  have hworse : ∀ {s t : Status}, s ≠ different → t ≠ different → s.worse t ≠ different := by
    intro s t hs ht
    cases s <;> cases t <;> first | contradiction | decide
  induction statuses with
  | nil => decide
  | cons s statuses ih =>
    obtain ⟨hs, hrest⟩ := List.forall_mem_cons.1 h
    exact hworse hs (ih hrest)

end Status

/-- The worst of the answers to some visits, as a worst of statuses. -/
theorem Visit.worst_eq_worstOf {σ α : Type} (status : Status) (visits : List (Visit σ α)) :
    Visit.worst status visits = Status.worstOf (status :: visits.map (·.step.status)) := by
  induction visits generalizing status with
  | nil => exact (Status.worse_same status).symm
  | cons v visits ih =>
    change Visit.worst (status.worse v.step.status) visits = _
    rw [ih, List.map_cons, Status.worstOf_cons, Status.worstOf_cons, Status.worstOf_cons,
      Status.worse_assoc]

/-- How bad a finding is. -/
def Finding.severity : Finding → Status
  | identical .. | commonSubdirectories .. => .same
  | onlyIn .. | differ .. | kindMismatch .. => .different
  | trouble .. => .trouble

theorem Finding.severity_eq_trouble {f : Finding} :
    f.severity = .trouble ↔ ∃ path message, f = .trouble path message := by
  cases f <;> simp [severity]

/-- How bad a diagnostic is. Names that cannot be collated are compared all
the same. -/
def Diagnostic.severity : Diagnostic → Status
  | collationFallback .. => .same
  | readFailed .. | recursiveLoop .. => .trouble

/-- How bad an entry of the journal is. -/
def Note.severity (note : Note) : Status :=
  Status.worstOf (note.diagnostic?.toList.map (·.severity))

theorem Note.severity_of_remark {n : Note} (h : n.diagnostic? = none) : n.severity = .same := by
  rw [severity, h]
  rfl

/-- No entry of the journal is a difference. -/
theorem Note.severity_ne_different (n : Note) : n.severity ≠ .different := by
  refine Status.worstOf_ne_different fun status h => ?_
  obtain ⟨d, -, rfl⟩ := List.mem_map.1 h
  cases d <;> simp [Diagnostic.severity]

namespace RunState

variable {σ : Type} {s t u : RunState σ} {status status' : Status}

/-- From `s` to `t` the journal got longer, by entries the worst of which is
as bad as `status`. -/
def Adds (status : Status) (s t : RunState σ) : Prop :=
  ∃ notes : List Note, t.journal = notes ++ s.journal ∧
    Status.worstOf (notes.map (·.severity)) = status

theorem Adds.refl (s : RunState σ) : s.Adds .same s := ⟨[], rfl, rfl⟩

theorem Adds.trans (h : Adds status s t) (h' : Adds status' t u) :
    Adds (status.worse status') s u := by
  obtain ⟨notes, he, rfl⟩ := h
  obtain ⟨notes', he', rfl⟩ := h'
  refine ⟨notes' ++ notes, by rw [he', he, List.append_assoc], ?_⟩
  rw [List.map_append, Status.worstOf_append, Status.worse_comm]

theorem adds_note (s : RunState σ) (n : Note) : Adds n.severity s (s.note n) :=
  ⟨[n], rfl, Status.worse_same _⟩

theorem adds_report (s : RunState σ) (d : Diagnostic) : Adds d.severity s (s.report d) :=
  ⟨[.diagnostic d], rfl, by simp [Note.severity, Note.diagnostic?]⟩

end RunState

/-- **No operation on names adds anything worse than a failed collation.** -/
theorem NameOrdering.stepLaw_adds {σ : Type} (order : NameOrdering σ) :
    order.StepLaw (RunState.Adds .same) where
  refl := RunState.Adds.refl
  trans h h' := h.trans h'
  ask _ _ := RunState.Adds.refl _
  drop first other _ _ :=
    ⟨[.diagnostic (.collationFallback first other _), .orderDropped], rfl, rfl⟩
  note n s hn := by
    rw [← Note.severity_of_remark hn]
    exact s.adds_note n

end TreeCompare
