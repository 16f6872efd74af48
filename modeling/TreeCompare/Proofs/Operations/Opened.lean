import TreeCompare.DirectoryNames
import TreeCompare.FileTree
/-!
# What reading a directory leaves of its operand

A directory is refused at one of four stages (`Comparison.Refuses`), and then
the operand stays as it was. One that is not refused is marked as opened, and
its stat is filled in, before the first entry is read: so that is what a reading
leaves behind also where the enumeration fails after any number of entries
(`namesIn_unchanged_iff`).
-/

namespace TreeCompare

namespace Comparison

variable {σ : Type} {c : Comparison σ} {fs : FileSystem} {operand : Operand}

/-- An operand's directory is refused with an error: nothing is seen at its path,
or a symbolic link that is not followed, or something else that is no directory,
or a directory that cannot be enumerated. -/
inductive Refuses (c : Comparison σ) (fs : FileSystem) (operand : Operand) : IoError → Prop where
  | unseen {e : IoError} (hstat : fs.stat operand.path c.options.followLinks = .error e) :
      Refuses c fs operand e
  | link {stat : ObjectStat} (hstat : fs.stat operand.path c.options.followLinks = .ok stat)
      (hl : stat.kind = .symlink) : Refuses c fs operand .linkRefused
  | noDirectory {stat : ObjectStat}
      (hstat : fs.stat operand.path c.options.followLinks = .ok stat)
      (hl : stat.kind ≠ .symlink) (hk : stat.kind ≠ .directory) :
      Refuses c fs operand .directoryExpected
  | closed {stat : ObjectStat} {e : IoError}
      (hstat : fs.stat operand.path c.options.followLinks = .ok stat)
      (hk : stat.kind = .directory) (henum : fs.enumerate operand.path = .error e) :
      Refuses c fs operand e

/-- An operand that is opened: it is where it was, and what was not known of it
is what is seen there. -/
def Marks (c : Comparison σ) (fs : FileSystem) (operand opened : Operand) : Prop :=
  ∃ seen, fs.stat operand.path c.options.followLinks = .ok seen ∧ seen.kind = .directory ∧
    opened = { operand with opening := .opened, stat := some (operand.stat.getD seen) }

/-- What a reading answers, and what it leaves of the operand. -/
inductive Leaves (c : Comparison σ) (fs : FileSystem) (operand : Operand) :
    Except DirectoryError NameTable → Operand → Prop where
  /-- What does not exist is not looked at. -/
  | nothing {table : NameTable} (hn : operand.isNonexistent = true) (ht : table.names = []) :
      Leaves c fs operand (.ok table) operand
  | refused {e : IoError} (hn : operand.isNonexistent = false) (h : c.Refuses fs operand e) :
      Leaves c fs operand (.error (.open operand.path e)) operand
  /-- The enumeration fails after some entries. -/
  | broken {names : List Name} {e : IoError} {opened : Operand}
      (hn : operand.isNonexistent = false) (hm : c.Marks fs operand opened)
      (henum : fs.enumerate operand.path = .ok ⟨names, some e⟩) :
      Leaves c fs operand (.error (.read operand.path e)) opened
  | listed {names : List Name} {table : NameTable} {opened : Operand}
      (hn : operand.isNonexistent = false) (hm : c.Marks fs operand opened)
      (henum : fs.enumerate operand.path = .ok ⟨names, none⟩) :
      Leaves c fs operand (.ok table) opened

/-- **There is no other way**, whatever the start name is. -/
theorem leaves_namesIn (c : Comparison σ) (fs : FileSystem) (operand : Operand)
    (start : Option Name) (startOnly : Bool) (s : RunState σ) :
    c.Leaves fs operand (c.namesIn fs operand start startOnly s).1
      (c.namesIn fs operand start startOnly s).2.1 := by
  unfold namesIn openDirectory
  cases hn : operand.isNonexistent with
  | true => exact .nothing hn NameTable.names_empty
  | false =>
    simp only [Bool.false_eq_true, if_false]
    cases hstat : fs.stat operand.path c.options.followLinks with
    | error e => exact .refused hn (.unseen hstat)
    | ok stat =>
      by_cases hl : stat.kind = .symlink
      · simp only [if_pos hl]
        exact .refused hn (.link hstat hl)
      by_cases hk : stat.kind = .directory
      · simp only [if_neg hl, if_pos hk]
        cases henum : fs.enumerate operand.path with
        | error e => exact .refused hn (.closed hstat hk henum)
        | ok entries =>
          obtain ⟨names, failure⟩ := entries
          cases failure with
          | some e => exact .broken hn ⟨stat, hstat, hk, rfl⟩ henum
          | none => exact .listed hn ⟨stat, hstat, hk, rfl⟩ henum
      · simp only [if_neg hl, if_neg hk]
        exact .refused hn (.noDirectory hstat hl hk)

namespace Marks

variable {opened : Operand}

theorem path (h : c.Marks fs operand opened) : opened.path = operand.path := by
  obtain ⟨seen, -, -, rfl⟩ := h
  rfl

/-- What was known already is not replaced. -/
theorem stat (h : c.Marks fs operand opened) {known : ObjectStat} (hk : operand.stat = some known) :
    opened.stat = some known := by
  obtain ⟨seen, -, -, rfl⟩ := h
  simp only [hk, Option.getD_some]

/-- Only an operand that was marked before, and known, is not changed. -/
theorem eq_iff (h : c.Marks fs operand opened) :
    opened = operand ↔ operand.opening = .opened ∧ operand.stat.isSome := by
  obtain ⟨seen, -, -, rfl⟩ := h
  obtain ⟨path, opening, stat⟩ := operand
  cases stat with
  | none => simp
  | some known => simp [eq_comm]

end Marks

/-- **What a reading leaves of an operand.** It stays where it is, and what was
known of it is kept. Nothing is changed of one that does not exist, that is
refused, or that was opened and known before, and of no other: what is not
refused is marked, also where its enumeration fails. -/
theorem namesIn_unchanged_iff (c : Comparison σ) (fs : FileSystem) (operand : Operand)
    (start : Option Name) (startOnly : Bool) (s : RunState σ) :
    let read := c.namesIn fs operand start startOnly s
    read.2.1.path = operand.path ∧
    (∀ known, operand.stat = some known → read.2.1.stat = some known) ∧
    (read.2.1 = operand ↔ operand.isNonexistent = true ∨
      (∃ path e, read.1 = .error (.open path e)) ∨
      operand.opening = .opened ∧ operand.stat.isSome) ∧
    (∀ path e, read.1 = .error (.open path e) →
      path = operand.path ∧ c.Refuses fs operand e) ∧
    (∀ path e, read.1 = .error (.read path e) →
      path = operand.path ∧ c.Marks fs operand read.2.1) ∧
    ∀ table, read.1 = .ok table → operand.isNonexistent = false →
      c.Marks fs operand read.2.1 := by
  have h := c.leaves_namesIn fs operand start startOnly s
  intro read
  change c.Leaves fs operand read.1 read.2.1 at h
  generalize read.1 = answer, read.2.1 = left at h ⊢
  cases h with
  | nothing hn ht => simp [hn]
  | refused hn h => simpa [hn] using h
  | broken hn hm henum =>
    refine ⟨hm.path, fun _ => hm.stat, ?_, nofun, fun path e h => ?_, nofun⟩
    · simp [hm.eq_iff, hn]
    · cases h
      exact ⟨rfl, hm⟩
  | listed hn hm henum =>
    refine ⟨hm.path, fun _ => hm.stat, ?_, nofun, nofun, fun _ _ _ => hm⟩
    simp [hm.eq_iff, hn]

/-- A directory whose enumeration fails after the first of its two entries. -/
def brokenTree : FileTree where
  objects := [
    { content := .directory 0 [(.ofString "d", 1)] none },
    { content := .directory 0 [(.ofString "a", 2), (.ofString "b", 2)] (some 1) },
    { content := .regular [] }]
  root := 0
  current := 0

-- it is not read, and is opened all the same
example :
    let c : Comparison Unit := ⟨{}, .scalarValues, fun _ => false⟩
    let dir := Operand.unopened (.ofString "d")
    let read := c.namesIn brokenTree.fileSystem dir none false (.start ())
    read.1.isOk = false ∧ read.2.1.opening = .opened ∧ read.2.1.stat.isSome := by
  decide +kernel

end Comparison

end TreeCompare
