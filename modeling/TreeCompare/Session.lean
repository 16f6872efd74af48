import TreeCompare.Settings.Basic
/-!
# Sessions

A `Session` is a comparison that is set up step by step and used more than
once: how it is configured, the state of its run, and whether diagnostics are
being collected. Changing the collator or beginning to collect starts the
ordering of names afresh; the journal and what a collator remembers go on.
-/

namespace TreeCompare

/-- A comparison in use. `collecting` is the length the journal had when
the collection of diagnostics began, if it has. -/
structure Session (σ : Type) where
  comparison : Comparison σ
  run : RunState σ
  collecting : Option Nat

namespace Session

variable {σ : Type}

/-- A comparison with a collator and no exclusions. -/
def start (options : ComparisonOptions) (collator : Collator σ) (memory : σ) : Session σ :=
  ⟨⟨options, collator, fun _ => false⟩, .start memory, none⟩

/-- The session with some entries in its journal, the first one first. -/
def note (s : Session σ) (notes : List Note) : Session σ :=
  { s with run := notes.foldl RunState.note s.run }

/-- Orders names by another collator from now on. -/
def useCollator (s : Session σ) (collator : Collator σ) : Session σ :=
  { s with comparison := { s.comparison with collator := collator }, run := s.run.reset }

/-- Begins to collect diagnostics, with none so far. -/
def collectDiagnostics (s : Session σ) : Session σ :=
  { s with run := s.run.reset, collecting := some s.run.journal.length }

/-- Leaves out other names from now on. -/
def leaveOut (s : Session σ) (excluded : Name → Bool) : Session σ :=
  { s with comparison := { s.comparison with excluded := excluded } }

/-- Leaves out the names that some exclusion lines stand for. -/
def leaveOutLines (s : Session σ) (globs : GlobService) (lines : List String) : Session σ :=
  (s.leaveOut (Exclusions.ofLines globs lines).excludes).note (Exclusions.notesOf globs lines)

/-- Starts at another name from now on. -/
def startAt (s : Session σ) (name : Name) : Session σ :=
  { s with
    comparison := { s.comparison with
      options := { s.comparison.options with startingFile := some name } } }

/-- A comparison as a user's settings have it. -/
def ofSettings (globs : GlobService) (settings : Settings) (collator : Collator σ) (memory : σ) :
    Session σ :=
  (start settings.comparisonOptions collator memory).leaveOutLines globs settings.ignorePatterns

/-- Collation is enabled again. -/
def restart (s : Session σ) : Session σ := { s with run := s.run.reset }

/-- Reports a diagnostic. -/
def report (s : Session σ) (d : Diagnostic) : Session σ := { s with run := s.run.report d }

/-- The entries that the journal has had since it had `n`, in order. -/
def notesSince (s : Session σ) (n : Nat) : List Note :=
  (s.run.journal.take (s.run.journal.length - n)).reverse

/-- The diagnostics collected, in order. -/
def diagnostics (s : Session σ) : List Diagnostic :=
  match s.collecting with
  | some n => (s.notesSince n).filterMap Note.diagnostic?
  | none => []

end Session

end TreeCompare
