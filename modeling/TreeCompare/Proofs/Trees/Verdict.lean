import TreeCompare.Proofs.Operations.SameContents
import TreeCompare.Proofs.Pairing.CaseSensitive
import TreeCompare.Proofs.Pairing.Conservation
import TreeCompare.Proofs.Trees.Faithful
import TreeCompare.Proofs.Trees.Merges
import TreeCompare.Proofs.Trees.Severity
/-!
# The verdict of a comparison

A step that is no trouble tells by its status whether something is so
(`Step.Tells`). The comparison of two files tells whether they agree, however
little of them it has to read; a merge tells whether two directories are
equal trees if its visits tell so of what its names lead to; and so, level by
level, a comparison that leaves nothing out tells whether two trees are
equal (`verdict_iff_equalTrees`).
-/

namespace TreeCompare

variable {σ : Type}

/-- Unless the step is trouble, its status is `same` exactly if `P` holds. -/
def Step.Tells {α : Type} (step : Step σ α) (P : Prop) : Prop :=
  step.status ≠ .trouble → (step.status = .same ↔ P)

/-- The worst of some answers tells what each of them tells. -/
theorem Visit.worst_eq_same_iff {α : Type} {visits : List (Visit σ α)} {Q : Visit σ α → Prop}
    (h : ∀ v ∈ visits, v.step.Tells (Q v)) (hne : Visit.worst .same visits ≠ .trouble) :
    Visit.worst .same visits = .same ↔ ∀ v ∈ visits, Q v := by
  rw [Visit.worst_eq_worstOf, Status.worstOf_cons, Status.same_worse] at hne ⊢
  rw [ne_eq, Status.worstOf_eq_trouble] at hne
  rw [Status.worstOf_eq_same, List.forall_mem_map]
  exact forall₂_congr fun v hv => h v hv fun ht => hne (ht ▸ List.mem_map_of_mem hv)

section Pairing

variable {α : Type} {c : Comparison σ} {visitor : Visitor σ α} {P : Name → Prop}

/-- What a visitor answers to a pairing of the outer join, if it tells `P` of
a name of both sides and a name of one side is a difference. -/
theorem tells_of_mem_outerJoin
    (hboth : ∀ name s result, (visitor ⟨some name, some name⟩ s result).Tells (P name))
    (hlone : ∀ p side s result, p.loneSide = some side →
      (visitor p s result).status = .different)
    {left right : List Name} {p : Pairing} (hp : p ∈ outerJoin left right) (s : RunState σ)
    (result : α) :
    (visitor p s result).Tells (∃ name, p = ⟨some name, some name⟩ ∧ P name) := by
  intro hne
  obtain ⟨name, hname, rfl⟩ := mem_outerJoin.1 hp
  rcases Pairing.ofName_cases hname with ⟨-, -, he⟩ | ⟨-, side, he⟩
  · rw [he] at hne ⊢
    rw [hboth name s result hne]
    simp
  · rw [hlone _ side s result he]
    refine iff_of_false (by simp) ?_
    rintro ⟨other, ho, -⟩
    rw [ho] at he
    cases he

/-- **A pairing tells what its visits tell** where case counts: whether the
two tables hold the same names, and `P` holds of each. -/
theorem Comparison.tells_pairTables (hcase : c.options.ignoreCase = false)
    {left right : NameTable} (hl : Keying.bytes.Sorted left.names)
    (hr : Keying.bytes.Sorted right.names) (visitor : Visitor σ α)
    (hboth : ∀ name s result, (visitor ⟨some name, some name⟩ s result).Tells (P name))
    (hlone : ∀ p side s result, p.loneSide = some side →
      (visitor p s result).status = .different) (s : RunState σ) (result : α) :
    (c.pairTables visitor left right s result).Tells
      ((∀ name, name ∈ left.names ↔ name ∈ right.names) ∧ ∀ name ∈ left.names, P name) := by
  intro hne
  have hhanded := handed_of_caseSensitive hcase hl hr visitor s result
  have hvisits : ∀ v ∈ c.visits visitor left right s result,
      v.step.Tells (∃ name, v.pairing = ⟨some name, some name⟩ ∧ P name) := by
    intro v hv
    have hp : v.pairing ∈ outerJoin left.names right.names :=
      hhanded ▸ List.mem_map_of_mem hv
    rw [visits_eq_visitsOn] at hv
    rw [(visitsOn_visit hv).2]
    exact tells_of_mem_outerJoin hboth hlone hp v.run v.result
  rw [pairTables_eq_of_visits] at hne ⊢
  rw [Visit.worst_eq_same_iff hvisits hne, ← forall_outerJoin_iff, ← hhanded, Visit.handed,
    List.forall_mem_map]

end Pairing

namespace TreeComparison

/-- The comparison leaves nothing out: case counts, directories are gone
into, and no name is skipped, whichever side has it. -/
structure Thorough (t : TreeComparison σ) : Prop where
  caseSensitive : t.comparison.options.ignoreCase = false
  recursive : t.options.recursive = true
  bothSides : t.options.newFile = false
  excludesNothing (name : Name) : t.comparison.excluded name = false
  startsAnywhere : t.comparison.options.startingFile = none

variable {t : TreeComparison σ} {s : RunState σ} {found : Findings} {left right : Located}
  {pair : DirectoryPair}

/-! ## Two objects -/

theorem status_verdict (p q : Path) (same : Bool) :
    (t.verdict p q same s found).status = if same then .same else .different := by
  unfold verdict
  cases same <;> rfl

theorem tells_verdict {p q : Path} {same : Bool} {P : Prop} (h : same = true ↔ P) :
    (t.verdict p q same s found).Tells P := by
  intro _
  rw [status_verdict, ← h]
  cases same <;> simp

theorem tells_failed (path : Path) (e : IoError) (P : Prop) : (failed path e s found).Tells P :=
  fun h => absurd rfl h

theorem tells_lookAt {path : Path} {next : Located → Step σ Findings} {P : Prop}
    (h : ∀ located : Located, located.path = path → located.Seen t → (next located).Tells P) :
    (t.lookAt path s found next).Tells P := by
  unfold lookAt
  cases hs : t.files.stat path t.comparison.options.followLinks with
  | ok stat => exact h ⟨path, stat⟩ rfl hs
  | error e => exact tells_failed _ _ _

/-- Two regular files: being the same object and being of different length
decide without reading what reading would find. -/
theorem tells_compareFiles (hfs : t.files.Faithful) (hl : left.Seen t) (hr : right.Seen t)
    (hkl : left.stat.kind = .regular) (hkr : right.stat.kind = .regular) :
    (t.compareFiles left right s found).Tells (t.files.SameBytes left.path right.path) := by
  obtain ⟨file, hfile, hlength⟩ := hfs.opens hl hkl
  obtain ⟨file', hfile', hlength'⟩ := hfs.opens hr hkr
  have hbytes := FileSystem.sameBytes_iff hfile hfile'
  unfold compareFiles
  split
  · next hsame => exact tells_verdict (iff_of_true rfl (hfs.sameBytes hl hr hkl hkr hsame))
  · unfold FileSystem.sameContents
    by_cases hne : left.stat.length = right.stat.length
    · simp only [hne, ne_eq, not_true_eq_false, if_false, hfile, hfile']
      cases hrest : file.sameRest file' with
      | ok same => exact tells_verdict ((OpenFile.sameRest_eq_ok hrest).trans hbytes.symm)
      | error e => exact tells_failed _ _ _
    · simp only [ne_eq, hne, not_false_eq_true, if_true]
      refine tells_verdict (iff_of_false Bool.false_ne_true fun h => hne ?_)
      rw [← hlength, ← hlength', hbytes.1 h]

theorem tells_compareLinks (p q : Path) :
    (t.compareLinks p q s found).Tells (t.files.SameTarget p q) := by
  unfold compareLinks
  cases hp : t.files.readLink p with
  | error e => exact tells_failed _ _ _
  | ok target =>
    cases hq : t.files.readLink q with
    | error e => exact tells_failed _ _ _
    | ok target' => exact tells_verdict (FileSystem.sameTarget_iff hp hq).symm

/-- **Two objects**, if the way down tells of two directories whether they
are equal trees. -/
theorem tells_compareObjects (ht : t.Thorough) (hfs : t.files.Faithful) {descend : Descent σ}
    (hd : left.stat.kind = .directory → right.stat.kind = .directory →
      (descend left.operand right.operand s found).Tells
        (t.files.EqualTrees t.comparison.options.followLinks left.path right.path))
    (hl : left.Seen t) (hr : right.Seen t) :
    (t.compareObjects (some descend) left right s found).Tells
      (t.files.EqualTrees t.comparison.options.followLinks left.path right.path) := by
  unfold compareObjects
  by_cases hk : left.stat.kind = right.stat.kind
  · simp only [hk, ne_eq, not_true_eq_false, if_false]
    by_cases hdir : right.stat.kind = .directory
    · simp only [hdir, ht.recursive]
      exact hd (hk.trans hdir) hdir
    · rw [FileSystem.equalTrees_iff_sameWithin hl hr hk (hk ▸ hdir), FileSystem.SameWithin, hk]
      cases hkind : right.stat.kind with
      | directory => exact absurd hkind hdir
      | regular => exact tells_compareFiles hfs hl hr (hk.trans hkind) hkind
      | symlink => exact tells_compareLinks _ _
      | _ => exact tells_verdict Iff.rfl
  · simp only [ne_eq, hk, not_false_eq_true, if_true]
    refine fun _ => iff_of_false (by simp) fun h => hk ?_
    exact ((FileSystem.agree_iff hl hr).1 (h.agree [] trivial)).1

/-! ## The pairings of two directories -/

/-- A name that both directories have. -/
theorem tells_visit_both (ht : t.Thorough) (hfs : t.files.Faithful) {descend : Descent σ}
    (hd : ∀ left right : Located, left.Seen t → right.Seen t → left.stat.kind = .directory →
      right.stat.kind = .directory →
      (descend left.operand right.operand s found).Tells
        (t.files.EqualTrees t.comparison.options.followLinks left.path right.path))
    (name : Name) :
    (t.visit descend pair ⟨some name, some name⟩ s found).Tells
      (t.files.EqualTrees t.comparison.options.followLinks (pair.left.path.join name)
        (pair.right.path.join name)) := by
  refine tells_lookAt fun left hleft hl => tells_lookAt fun right hright hr => ?_
  rw [← hleft, ← hright]
  exact tells_compareObjects ht hfs (hd left right hl hr) hl hr

/-- A name that one directory has alone is a difference. -/
theorem status_visit_lone (ht : t.Thorough) (descend : Descent σ) {p : Pairing} {side : Side}
    (hp : p.loneSide = some side) : (t.visit descend pair p s found).status = .different := by
  obtain ⟨_ | a, _ | b⟩ := p
  · cases hp
  · simp [visit, visitLone, ht.bothSides]
  · simp [visit, visitLone, ht.bothSides]
  · cases hp

/-- The table of a side holds the entries of its directory. -/
theorem mem_names_iff (ht : t.Thorough) {operand operand' : Operand} {table : NameTable}
    {s' : RunState σ} (name : Name)
    (h : t.comparison.namesIn t.files operand none false s = (.ok table, operand', s'))
    (hn : operand.isNonexistent = false)
    (hdir : t.files.DirectoryAt t.comparison.options.followLinks operand.path) :
    name ∈ table.names ↔
      t.files.HasEntry t.comparison.options.followLinks operand.path name := by
  cases Comparison.reads_of_namesIn h with
  | nothing hn' =>
    rw [hn] at hn'
    cases hn'
  | @directory entries _ _ _ henum _ =>
    rw [(t.comparison.perm_keptTable none false entries.names s).mem_iff, Comparison.kept_none,
      List.mem_filter, ht.excludesNothing]
    constructor
    · exact fun h => ⟨hdir, entries, henum, h.1⟩
    · rintro ⟨-, entries', henum', hmem⟩
      rw [henum] at henum'
      cases henum'
      exact ⟨hmem, rfl⟩

/-- There is a directory on the side, and it is not taken for missing. -/
structure IsThere (t : TreeComparison σ) (operand : Operand) : Prop where
  known : operand.isNonexistent = false
  directory : t.files.DirectoryAt t.comparison.options.followLinks operand.path

theorem Located.isThere (h : left.Seen t) (hk : left.stat.kind = .directory) :
    t.IsThere left.operand :=
  ⟨rfl, left.stat, h, hk⟩

theorem kind_of_directoryAt
    (h : t.files.DirectoryAt t.comparison.options.followLinks left.path) (hs : left.Seen t) :
    left.stat.kind = .directory := by
  obtain ⟨stat, hstat, hk⟩ := h
  rw [hs] at hstat
  cases hstat
  exact hk

/-- **A merge tells whether two directories are equal trees**, if the way
down does. -/
theorem tells_merge (ht : t.Thorough) (hfs : t.files.Faithful) {m : Merge σ} {depth : Nat}
    (hm : t.merge? depth pair s found = some m) (hl : t.IsThere pair.left)
    (hr : t.IsThere pair.right) {descend : Descent σ}
    (hd : ∀ left right, t.IsThere left → t.IsThere right → ∀ s found,
      (descend left right s found).Tells
        (t.files.EqualTrees t.comparison.options.followLinks left.path right.path)) :
    (t.comparison.pairTables (t.visit descend m.pair) m.left m.right m.run m.found).Tells
      (t.files.EqualTrees t.comparison.options.followLinks pair.left.path pair.right.path) := by
  obtain ⟨-, -, s₁, hread, hread'⟩ := reads_of_merge? hm
  rw [ht.startsAnywhere, ite_self] at hread hread'
  have hpath : m.pair.left.path = pair.left.path := (entries_of_merge? hm .left).1.path
  have hpath' : m.pair.right.path = pair.right.path := (entries_of_merge? hm .right).1.path
  have hnames := fun name => mem_names_iff ht name hread hl.known hl.directory
  have hnames' := fun name => mem_names_iff ht name hread' hr.known hr.directory
  have htells := Comparison.tells_pairTables ht.caseSensitive
    (Comparison.sorted_of_namesIn ht.caseSensitive hfs.listsOnce hread)
    (Comparison.sorted_of_namesIn ht.caseSensitive hfs.listsOnce hread')
    (t.visit descend m.pair)
    (fun name s found => tells_visit_both ht hfs (fun left right hl hr hkl hkr =>
      hd _ _ (Located.isThere hl hkl) (Located.isThere hr hkr) s found) name)
    (fun p side s found hp => status_visit_lone ht descend hp) m.run m.found
  have hagree := FileSystem.agree_of_directories hl.directory hr.directory
  refine fun hne => (htells hne).trans ?_
  rw [FileSystem.equalTrees_iff, and_iff_right hagree]
  simp only [hnames, hnames', hpath, hpath']

/-- **Every level tells whether two directories are equal trees.** -/
theorem tells_compareWithin (ht : t.Thorough) (hfs : t.files.Faithful) (depth : Nat)
    (pair : DirectoryPair) (hl : t.IsThere pair.left) (hr : t.IsThere pair.right)
    (s : RunState σ) (found : Findings) :
    (t.compareWithin depth pair s found).toStep.Tells
      (t.files.EqualTrees t.comparison.options.followLinks pair.left.path pair.right.path) := by
  induction depth generalizing pair s found with
  | zero => exact fun h => absurd rfl h
  | succ depth ih =>
    change (t.comparison.pairDirectories t.files pair (t.visitor depth)
      (s.note (.directories pair.left.path pair.right.path pair.depth)) found).toStep.Tells _
    rcases t.pairDirectories_eq depth pair
      (s.note (.directories pair.left.path pair.right.path pair.depth)) found with
      ⟨m, hm, -, rfl, he⟩ | ⟨-, paired, htrouble, -, he⟩
    · rw [he]
      exact tells_merge ht hfs hm hl hr fun left right hl hr s found =>
        ih (m.pair.below left right) hl hr s found
    · rw [he]
      exact fun h => absurd htrouble h

/-- **The verdict is sound and complete.** A comparison that leaves nothing
out, of two directories in a file system that says what is so, comes to
`same` exactly if the two trees are equal as they are seen, with links
followed or not, and to `different` exactly if they are not, unless
something could not be compared. -/
theorem verdict_iff_equalTrees (ht : t.Thorough) (hfs : t.files.Faithful) {left right : Path}
    (hl : t.files.DirectoryAt t.comparison.options.followLinks left)
    (hr : t.files.DirectoryAt t.comparison.options.followLinks right) (s : RunState σ)
    (hs : (t.compareTrees left right s).status ≠ .trouble) :
    ((t.compareTrees left right s).status = .same ↔
        t.files.EqualTrees t.comparison.options.followLinks left right) ∧
      ((t.compareTrees left right s).status = .different ↔
        ¬ t.files.EqualTrees t.comparison.options.followLinks left right) := by
  have htells : (t.compareTrees left right s).Tells
      (t.files.EqualTrees t.comparison.options.followLinks left right) := by
    refine tells_lookAt fun l hpath hseen => tells_lookAt fun r hpath' hseen' => ?_
    rw [← hpath] at hl ⊢
    rw [← hpath'] at hr ⊢
    have hk := kind_of_directoryAt hl hseen
    have hk' := kind_of_directoryAt hr hseen'
    simp only [hk, hk', ObjectKind.isDirectory, beq_self_eq_true]
    exact tells_compareWithin ht hfs _ (.root l.operand r.operand) (Located.isThere hseen hk)
      (Located.isThere hseen' hk') _ []
  refine ⟨htells hs, ?_⟩
  rw [← htells hs]
  generalize (t.compareTrees left right s).status = status at hs ⊢
  cases status <;> simp at hs ⊢

/-- Two directories `l` and `r` with files `f` of the same bytes in them, and
a subdirectory `d` with a link, whose targets are spelled differently. -/
def mirroredTree : FileTree where
  objects := [
    { content := .directory 0 [(.ofString "l", 1), (.ofString "r", 2)] none },
    { content := .directory 0 [(.ofString "f", 3), (.ofString "d", 5)] none },
    { content := .directory 0 [(.ofString "d", 6), (.ofString "f", 4)] none },
    { content := .regular [0x61, 0x0A] },
    { content := .regular [0x61, 0x0A] },
    { content := .directory 1 [(.ofString "k", 7)] none },
    { content := .directory 2 [(.ofString "k", 8)] none },
    { content := .symlink (.ofString "x/y") },
    { content := .symlink (.ofString "x//y") }]
  root := 0
  current := 0

/-- A comparison of `mirroredTree` that leaves nothing out. -/
def mirrored : TreeComparison Unit where
  comparison := ⟨{}, .scalarValues, fun _ => false⟩
  options := { recursive := true }
  files := mirroredTree.fileSystem

/-- The verdict on `mirroredTree`, from which its trees are known to be equal. -/
theorem verdict_iff_equalTrees_mirrored :
    let left := Path.ofString "l"
    let right := Path.ofString "r"
    (mirrored.compareTrees left right (.start ())).status = .same ∧
      mirrored.files.EqualTrees false left right := by
  intro left right
  have hthorough : mirrored.Thorough := ⟨rfl, rfl, rfl, fun _ => rfl, rfl⟩
  have hfaithful : mirrored.files.Faithful := by
    refine FileTree.Distinct.faithful (t := mirroredTree) ?_
    unfold FileTree.Distinct
    decide
  have hl : mirrored.files.DirectoryAt false left := ⟨_, rfl, rfl⟩
  have hr : mirrored.files.DirectoryAt false right := ⟨_, rfl, rfl⟩
  have hsame : (mirrored.compareTrees left right (.start ())).status = .same := by decide +kernel
  have hverdict := verdict_iff_equalTrees hthorough hfaithful hl hr (.start ()) (by simp [hsame])
  exact ⟨hsame, hverdict.1.1 hsame⟩

end TreeComparison

end TreeCompare
