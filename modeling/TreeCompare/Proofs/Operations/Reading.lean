import TreeCompare.DirectoryNames
import TreeCompare.Proofs.Ordering.Tables
/-!
# What reading a directory gives

Without a start name, a directory that can be read is read as a table of
the names in it that are not left out (`Comparison.keptNames`), each once,
sorted by what the table says (`perm_of_namesIn`, `trueTo_of_namesIn`).
-/

namespace TreeCompare

/-- No directory yields a name twice. -/
def FileSystem.ListsOnce (fs : FileSystem) : Prop :=
  ∀ path entries, fs.enumerate path = .ok entries → entries.names.Nodup

/-- The operand, perhaps opened by now: in the same place, there or not, and
as well known. -/
structure Operand.Becomes (operand opened : Operand) : Prop where
  path : opened.path = operand.path
  isNonexistent : opened.isNonexistent = operand.isNonexistent
  stat {stat : ObjectStat} : operand.stat = some stat → opened.stat = some stat

theorem Operand.Becomes.refl (operand : Operand) : operand.Becomes operand := ⟨rfl, rfl, id⟩

namespace Comparison

variable {σ : Type} {c : Comparison σ} {fs : FileSystem} {key : Keying} {operand operand' : Operand}
  {s s' : RunState σ} {table : NameTable}

/-- The names in an operand's directory that are not left out. -/
def keptNames (c : Comparison σ) (fs : FileSystem) (operand : Operand) : List Name :=
  if operand.isNonexistent then []
  else match fs.enumerate operand.path with
    | .ok entries => entries.names.filter (!c.excluded ·)
    | .error _ => []

/-- Without a start name only exclusions take names away. -/
theorem kept_none (startOnly : Bool) (names : List Name) (s : RunState σ) :
    c.kept none startOnly names s = (names.filter (!c.excluded ·), s) := by
  induction names with
  | nil => rfl
  | cons name names ih =>
    simp only [kept, isFromStart, ih, Bool.true_and, List.filter_cons]

/-- An operand that is opened stays where it is, and what was known of it is
kept. -/
theorem openDirectory_ok {entries : Enumeration} (hn : operand.isNonexistent = false)
    (h : c.openDirectory fs operand = .ok (entries, operand')) :
    fs.enumerate operand.path = .ok entries ∧ operand.Becomes operand' := by
  unfold openDirectory at h
  split at h
  · cases h
  · split at h
    · cases h
    · split at h
      · split at h
        · cases h
        · next entries' he =>
          cases h
          exact ⟨he, rfl, hn.symm, fun hs => by rw [hs]; rfl⟩
      · cases h

/-- The names that are kept of an enumeration, sorted. -/
def keptTable (c : Comparison σ) (start : Option Name) (startOnly : Bool) (names : List Name)
    (s : RunState σ) : NameTable × RunState σ :=
  (NameTable.ofList (c.kept start startOnly names s).1).sortTail 0 c.order
    (c.kept start startOnly names s).2

theorem perm_keptTable (c : Comparison σ) (start : Option Name) (startOnly : Bool)
    (names : List Name) (s : RunState σ) :
    (c.keptTable start startOnly names s).1.names.Perm (c.kept start startOnly names s).1 := by
  have h := (NameTable.ofList (c.kept start startOnly names s).1).perm_sortTail c.order
    (c.kept start startOnly names s).2
  rwa [NameTable.names_ofList] at h

/-- What reading an operand gives if it does not fail: nothing if the operand
does not exist, and otherwise the names of its directory that are kept,
sorted. -/
inductive Reads (c : Comparison σ) (fs : FileSystem) (operand : Operand) (start : Option Name)
    (startOnly : Bool) (s : RunState σ) : NameTable → Operand → RunState σ → Prop where
  | nothing (hn : operand.isNonexistent = true) :
      Reads c fs operand start startOnly s { NameTable.empty with sortedBy := some s.basis }
        operand s
  | directory {entries : Enumeration} {opened : Operand} {n : Note}
      (hn : operand.isNonexistent = false) (henum : fs.enumerate operand.path = .ok entries)
      (hopened : operand.Becomes opened) :
      Reads c fs operand start startOnly s (c.keptTable start startOnly entries.names s).1 opened
        ((c.keptTable start startOnly entries.names s).2.note n)

/-- There is no other way. -/
theorem reads_of_namesIn {start : Option Name} {startOnly : Bool}
    (h : c.namesIn fs operand start startOnly s = (.ok table, operand', s')) :
    c.Reads fs operand start startOnly s table operand' s' := by
  unfold namesIn at h
  cases hn : operand.isNonexistent with
  | true =>
    rw [if_pos hn] at h
    cases h
    exact .nothing hn
  | false =>
    rw [if_neg (Bool.eq_false_iff.1 hn)] at h
    rcases ho : c.openDirectory fs operand with e | ⟨entries, opened⟩
    · simp only [ho] at h
      cases h
    · obtain ⟨henum, hopened⟩ := openDirectory_ok hn ho
      simp only [ho] at h
      rcases hf : entries.failure with - | e
      · simp only [hf] at h
        cases h
        exact .directory hn henum hopened
      · simp only [hf] at h
        cases h

/-- What is kept of an enumeration is in it, in its order. -/
theorem sublist_kept (c : Comparison σ) (start : Option Name) (startOnly : Bool)
    (names : List Name) (s : RunState σ) : (c.kept start startOnly names s).1.Sublist names := by
  induction names generalizing s with
  | nil => exact List.Sublist.refl _
  | cons name names ih =>
    simp only [kept]
    split
    · exact (ih _).cons_cons name
    · exact (ih _).cons name

/-- **What is read of an operand** are entries of its directory, whatever
the start name is, and the operand stays what it was, but for being open and
known. -/
theorem entries_of_namesIn {start : Option Name} {startOnly : Bool}
    (h : c.namesIn fs operand start startOnly s = (.ok table, operand', s')) :
    operand.Becomes operand' ∧ ∀ name ∈ table.names, operand.isNonexistent = false ∧
      ∃ entries, fs.enumerate operand.path = .ok entries ∧ name ∈ entries.names := by
  cases reads_of_namesIn h with
  | nothing hn => exact ⟨.refl operand, fun name h => absurd h List.not_mem_nil⟩
  | @directory entries _ _ hn henum hopened =>
    refine ⟨hopened, fun name hname => ⟨hn, entries, henum, ?_⟩⟩
    exact (c.sublist_kept ..).mem ((perm_keptTable ..).mem_iff.1 hname)

/-- Without a start name, the names of a directory that are not left out are
read of it. -/
theorem perm_keptNames {startOnly : Bool}
    (h : c.namesIn fs operand none startOnly s = (.ok table, operand', s')) :
    table.names.Perm (c.keptNames fs operand') := by
  cases reads_of_namesIn h with
  | nothing hn =>
    rw [keptNames, if_pos hn]
    exact List.Perm.refl _
  | @directory entries _ _ hn henum hopened =>
    have hkept : (c.kept none startOnly entries.names s).1 = c.keptNames fs operand' := by
      rw [keptNames, hopened.isNonexistent, hn, hopened.path, henum, kept_none]
      rfl
    exact hkept ▸ c.perm_keptTable none startOnly entries.names s

/-- **What is read of a directory** are its names that are not left out,
each once. -/
theorem perm_of_namesIn (hfs : fs.ListsOnce) {startOnly : Bool}
    (h : c.namesIn fs operand none startOnly s = (.ok table, operand', s')) :
    table.names.Perm (c.keptNames fs operand') ∧ table.names.Nodup := by
  refine ⟨perm_keptNames h, ?_⟩
  cases reads_of_namesIn h with
  | nothing hn => exact List.nodup_nil
  | @directory entries _ _ hn henum hopened =>
    rw [(c.perm_keptTable none startOnly entries.names s).nodup_iff, kept_none]
    exact (hfs _ _ henum).filter _

/-- The table is sorted by what it says. -/
theorem trueTo_of_namesIn (hk : c.order.collator.KeyedBy key) (hfs : fs.ListsOnce)
    {startOnly : Bool} (h : c.namesIn fs operand none startOnly s = (.ok table, operand', s')) :
    table.TrueTo c.order key := by
  cases reads_of_namesIn h with
  | nothing hn => exact fun _ _ => List.Pairwise.nil
  | @directory entries _ _ hn henum hopened =>
    refine NameTable.trueTo_sortTail hk ?_ _
    rw [NameTable.names_ofList, kept_none]
    exact (hfs _ _ henum).filter _

end Comparison

end TreeCompare
