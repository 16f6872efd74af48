import TreeCompare.FileTree
import TreeCompare.Proofs.Operations.Failures
import TreeCompare.Proofs.Trees.Merges
/-!
# What trouble is blamed on

Every trouble that a comparison reports is a failure that it has met (`Met`),
or two operands that cannot be compared (`Misfit`), and every failure that it
meets is reported (`met_of_trouble`, `Met.reported`). A failure is reported
with the path that failed, with one exception: where the contents of two files
are compared, an open or a read of the right one that fails is reported with the
path of the left one (`trouble_blames`).
-/

namespace TreeCompare

variable {σ : Type}

namespace TreeComparison

variable {t : TreeComparison σ} {pair : DirectoryPair} {p : Pairing} {l r : Located}
  {left right path : Path} {s : RunState σ} {found : Findings} {message : String}

/-! ## Two objects -/

/-- What comparing two objects fails with, and on which side: regular files
are read if they may be the same, and symbolic links always. -/
inductive ObjectsFail (t : TreeComparison σ) (l r : Located) : Side → Failure → Prop where
  | contents {side : Side} {failure : Failure} (hl : l.stat.kind = .regular)
      (hr : r.stat.kind = .regular) (hother : l.stat.sameObject r.stat = false)
      (hlength : l.stat.length = r.stat.length)
      (h : t.files.ContentsFail l.path r.path side failure) : ObjectsFail t l r side failure
  | leftLink {e : IoError} (hl : l.stat.kind = .symlink) (hr : r.stat.kind = .symlink)
      (h : t.files.readLink l.path = .error e) : ObjectsFail t l r .left ⟨.readLink, l.path, e⟩
  | rightLink {target : Path} {e : IoError} (hl : l.stat.kind = .symlink)
      (hr : r.stat.kind = .symlink) (htarget : t.files.readLink l.path = .ok target)
      (h : t.files.readLink r.path = .error e) : ObjectsFail t l r .right ⟨.readLink, r.path, e⟩

/-- The path that a failure with two objects is reported with: which of two
files failed is not known any more when their contents have been compared. -/
def blamed (l : Located) (failure : Failure) : Path :=
  match failure.operation with
  | .readLink => failure.path
  | _ => l.path

theorem blamed_of_contentsFail {side : Side} {failure : Failure}
    (h : t.files.ContentsFail l.path r.path side failure) : blamed l failure = l.path := by
  cases h <;> rfl

/-- What trouble is made of: paths that are looked at, and objects that are
compared. -/
inductive FailsWith (t : TreeComparison σ) (looks : Path → Prop)
    (compares : Located → Located → Prop) : Failure → Path → Prop where
  | look {path : Path} {e : IoError} (h : looks path)
      (he : t.files.stat path t.comparison.options.followLinks = .error e) :
      FailsWith t looks compares ⟨.look, path, e⟩ path
  | objects {l r : Located} {side : Side} {failure : Failure} (h : compares l r)
      (hf : t.ObjectsFail l r side failure) :
      FailsWith t looks compares failure (blamed l failure)

theorem ObjectsFail.kinds {side : Side} {failure : Failure} (h : t.ObjectsFail l r side failure) :
    r.stat.kind = l.stat.kind ∧ (l.stat.kind = .regular ∨ l.stat.kind = .symlink) := by
  cases h with
  | contents hl hr => exact ⟨hr.trans hl.symm, Or.inl hl⟩
  | leftLink hl hr => exact ⟨hr.trans hl.symm, Or.inr hl⟩
  | rightLink hl hr => exact ⟨hr.trans hl.symm, Or.inr hl⟩

theorem trouble_of_failed {e : IoError} :
    .trouble path message ∈ (failed left e s []).result ↔ path = left ∧ message = e.message := by
  simp [failed]

theorem trouble_of_verdict {same : Bool} :
    .trouble path message ∉ (t.verdict left right same s []).result := by
  unfold verdict
  cases same with
  | false => simp
  | true => cases t.options.reportIdentical <;> simp

theorem trouble_of_compareFiles (hl : l.stat.kind = .regular) (hr : r.stat.kind = .regular) :
    .trouble path message ∈ (t.compareFiles l r s []).result ↔
      ∃ side failure, t.ObjectsFail l r side failure ∧ path = blamed l failure ∧
        message = failure.error.message := by
  have hcontents : ∀ {side failure}, t.ObjectsFail l r side failure →
      l.stat.sameObject r.stat = false ∧ l.stat.length = r.stat.length ∧
        t.files.ContentsFail l.path r.path side failure := by
    intro side failure h
    cases h with
    | contents _ _ hother hlength h => exact ⟨hother, hlength, h⟩
    | leftLink hl' => rw [hl] at hl'; cases hl'
    | rightLink hl' => rw [hl] at hl'; cases hl'
  unfold compareFiles
  cases hother : l.stat.sameObject r.stat with
  | true =>
    simp only [if_true]
    refine iff_of_false trouble_of_verdict ?_
    rintro ⟨side, failure, h, -⟩
    exact absurd (hcontents h).1 (by simp [hother])
  | false =>
    simp only [Bool.false_eq_true, if_false]
    cases hsame : t.files.sameContents l.path l.stat.length r.path r.stat.length with
    | ok same =>
      refine iff_of_false trouble_of_verdict ?_
      rintro ⟨side, failure, h, -⟩
      obtain ⟨-, hlength, hfail⟩ := hcontents h
      have herror := FileSystem.sameContents_eq_error.2 ⟨hlength, side, failure, hfail, rfl⟩
      exact nomatch hsame.symm.trans herror
    | error e =>
      simp only [trouble_of_failed]
      constructor
      · rintro ⟨rfl, rfl⟩
        obtain ⟨hlength, side, failure, hfail, rfl⟩ := FileSystem.sameContents_eq_error.1 hsame
        have hblamed := blamed_of_contentsFail hfail
        exact ⟨side, failure, .contents hl hr hother hlength hfail, hblamed.symm, rfl⟩
      · rintro ⟨side, failure, h, rfl, rfl⟩
        obtain ⟨-, hlength, hfail⟩ := hcontents h
        have herror := FileSystem.sameContents_eq_error.2 ⟨hlength, side, failure, hfail, rfl⟩
        cases hsame.symm.trans herror
        exact ⟨blamed_of_contentsFail hfail, rfl⟩

theorem trouble_of_compareLinks (hl : l.stat.kind = .symlink) (hr : r.stat.kind = .symlink) :
    .trouble path message ∈ (t.compareLinks l.path r.path s []).result ↔
      ∃ side failure, t.ObjectsFail l r side failure ∧ path = blamed l failure ∧
        message = failure.error.message := by
  unfold compareLinks
  cases htarget : t.files.readLink l.path with
  | error e =>
    simp only [trouble_of_failed]
    constructor
    · rintro ⟨rfl, rfl⟩
      exact ⟨_, _, .leftLink hl hr htarget, rfl, rfl⟩
    · rintro ⟨side, failure, h, rfl, rfl⟩
      cases h with
      | contents hl' => rw [hl] at hl'; cases hl'
      | leftLink _ _ h => cases htarget.symm.trans h; exact ⟨rfl, rfl⟩
      | rightLink _ _ h => cases htarget.symm.trans h
  | ok target =>
    cases htarget' : t.files.readLink r.path with
    | error e =>
      simp only [trouble_of_failed]
      constructor
      · rintro ⟨rfl, rfl⟩
        exact ⟨_, _, .rightLink hl hr htarget htarget', rfl, rfl⟩
      · rintro ⟨side, failure, h, rfl, rfl⟩
        cases h with
        | contents hl' => rw [hl] at hl'; cases hl'
        | leftLink _ _ h => cases htarget.symm.trans h
        | rightLink _ _ _ h => cases htarget'.symm.trans h; exact ⟨rfl, rfl⟩
    | ok target' =>
      refine iff_of_false trouble_of_verdict ?_
      rintro ⟨side, failure, h, -⟩
      cases h with
      | contents hl' => rw [hl] at hl'; cases hl'
      | leftLink _ _ h => cases htarget.symm.trans h
      | rightLink _ _ _ h => cases htarget'.symm.trans h

/-- **Two objects come to trouble** where an operation fails. -/
theorem trouble_of_compareObjects :
    .trouble path message ∈ (t.compareObjects none l r s []).result ↔
      ∃ side failure, t.ObjectsFail l r side failure ∧ path = blamed l failure ∧
        message = failure.error.message := by
  unfold compareObjects
  by_cases hk : l.stat.kind = r.stat.kind
  · simp only [hk, ne_eq, not_true_eq_false, if_false]
    cases hr : r.stat.kind with
    | regular => exact trouble_of_compareFiles (hk.trans hr) hr
    | symlink => exact trouble_of_compareLinks (hk.trans hr) hr
    | directory =>
      refine iff_of_false (by simp) ?_
      rintro ⟨side, failure, h, -⟩
      exact absurd h.kinds.2 (by simp [hk, hr])
    | _ =>
      refine iff_of_false trouble_of_verdict ?_
      rintro ⟨side, failure, h, -⟩
      exact absurd h.kinds.2 (by simp [hk, hr])
  · rw [if_pos hk]
    refine iff_of_false (by simp) ?_
    rintro ⟨side, failure, h, -⟩
    exact hk h.kinds.1.symm

/-! ## A pairing -/

/-- The paths that are looked at for a pairing: the left one, the right one
where the left one leads somewhere, and the one of a name that is alone if the
other side counts as empty. -/
inductive LooksIn (t : TreeComparison σ) (pair : DirectoryPair) : Pairing → Path → Prop where
  | left {a b : Name} : LooksIn t pair ⟨some a, some b⟩ (pair.left.path.join a)
  | right {a b : Name} {l : Located} (hl : l.Seen t) (hpath : l.path = pair.left.path.join a) :
      LooksIn t pair ⟨some a, some b⟩ (pair.right.path.join b)
  | lone {p : Pairing} {side : Side} {name : Name} (hside : p.loneSide = some side)
      (hname : p.get side = some name) (hnew : t.options.newFile = true) :
      LooksIn t pair p ((pair.side side).path.join name)

/-- The objects that are compared for a pairing. -/
inductive ComparesIn (t : TreeComparison σ) (pair : DirectoryPair) :
    Pairing → Located → Located → Prop where
  | both {a b : Name} {l r : Located} (hl : l.Seen t) (hlpath : l.path = pair.left.path.join a)
      (hr : r.Seen t) (hrpath : r.path = pair.right.path.join b) :
      ComparesIn t pair ⟨some a, some b⟩ l r

/-- The way down that is left at once. -/
def stay : Descent σ := fun _ _ s found => ⟨.same, s, found⟩

/-- What a pairing comes down to is what is found without going down. -/
theorem comesTo_iff {f : Finding} (s : RunState σ) :
    t.ComesTo pair p (some f) ↔ f ∈ (t.visit stay pair p s []).result := by
  constructor
  · intro h
    rw [h.visit, settle_some]
    exact List.mem_singleton.2 rfl
  · intro h
    rcases t.goes_or_comesTo pair p with ⟨left, right, -, -, hg⟩ | ⟨reported, hc⟩
    · rw [hg] at h
      cases h
    · rw [hc.visit, settle, List.append_nil] at h
      exact Option.mem_toList.1 h ▸ hc

/-- A look comes to trouble, or what comes after it does. -/
theorem trouble_of_lookAt {at' : Path} {next : Located → Step σ Findings} :
    .trouble path message ∈ (t.lookAt at' s [] next).result ↔
      (∃ e, t.files.stat at' t.comparison.options.followLinks = .error e ∧ path = at' ∧
        message = e.message) ∨
      ∃ l : Located, l.Seen t ∧ l.path = at' ∧ .trouble path message ∈ (next l).result := by
  unfold lookAt
  cases hstat : t.files.stat at' t.comparison.options.followLinks with
  | error e =>
    simp only [trouble_of_failed]
    constructor
    · rintro ⟨rfl, rfl⟩
      exact Or.inl ⟨e, rfl, rfl, rfl⟩
    · rintro (⟨_, he, rfl, rfl⟩ | ⟨l, hl, rfl, -⟩)
      · cases he
        exact ⟨rfl, rfl⟩
      · exact nomatch hstat.symm.trans hl
  | ok stat =>
    constructor
    · intro h
      exact Or.inr ⟨⟨at', stat⟩, hstat, rfl, h⟩
    · rintro (⟨_, he, -⟩ | ⟨l, hl, rfl, h⟩)
      · cases he
      · cases hstat.symm.trans hl
        exact h

/-- An object that is compared with nothing is not read. -/
theorem trouble_of_compareWithNothing {side : Side} {absent : Path} :
    .trouble path message ∉ (t.compareWithNothing stay side l absent s []).result := by
  unfold compareWithNothing
  cases l.stat.kind with
  | directory => cases t.options.recursive <;> simp [stay]
  | _ => exact trouble_of_verdict

/-- With a way down two objects come to trouble where they do without. -/
theorem trouble_of_compareObjects_stay :
    .trouble path message ∈ (t.compareObjects (some stay) l r s []).result ↔
      .trouble path message ∈ (t.compareObjects none l r s []).result := by
  rcases t.compareObjects_some l r with ⟨hl, hr, h⟩ | h
  · rw [h, trouble_of_compareObjects]
    refine iff_of_false (by simp [stay]) ?_
    rintro ⟨side, failure, hf, -⟩
    exact absurd hf.kinds.2 (by simp [hl])
  · rw [h]

/-- A name that is alone comes to trouble where looking at it fails, and it is
looked at only if the other side counts as empty. -/
theorem trouble_of_visitLone {side : Side} {name : Name} (hside : p.loneSide = some side)
    (hname : p.get side = some name) :
    .trouble path message ∈ (t.visitLone stay pair side name s []).result ↔
      ∃ failure, t.FailsWith (t.LooksIn pair p) (t.ComparesIn pair p) failure path ∧
        message = failure.error.message := by
  unfold visitLone
  constructor
  · intro h
    cases hnew : t.options.newFile with
    | false => simp [hnew] at h
    | true =>
      simp only [hnew, if_true] at h
      rcases trouble_of_lookAt.1 h with ⟨e, he, rfl, rfl⟩ | ⟨l, -, -, h⟩
      · exact ⟨_, .look (.lone hside hname hnew) he, rfl⟩
      · exact absurd h trouble_of_compareWithNothing
  · rintro ⟨failure, h, rfl⟩
    cases h with
    | look hlook he =>
      cases hlook with
      | left => cases side <;> cases hside
      | right => cases side <;> cases hside
      | lone hside' hname' hnew =>
        cases hside.symm.trans hside'
        cases hname.symm.trans hname'
        simp only [hnew, if_true]
        exact trouble_of_lookAt.2 (Or.inl ⟨_, he, rfl, rfl⟩)
    | objects hc =>
      cases hc
      cases side <;> cases hside

/-- Two names come to trouble where looking at one of them fails, or comparing
what is seen. -/
theorem trouble_of_visit_both {a b : Name} :
    .trouble path message ∈ (t.visit stay pair ⟨some a, some b⟩ s []).result ↔
      ∃ failure, t.FailsWith (t.LooksIn pair ⟨some a, some b⟩)
          (t.ComparesIn pair ⟨some a, some b⟩) failure path ∧
        message = failure.error.message := by
  have hv : t.visit stay pair ⟨some a, some b⟩ s [] =
      t.lookAt (pair.left.path.join a) s [] fun left =>
        t.lookAt (pair.right.path.join b) s [] fun right =>
          t.compareObjects (some stay) left right s [] := rfl
  simp only [hv, trouble_of_lookAt, trouble_of_compareObjects_stay, trouble_of_compareObjects]
  constructor
  · rintro (⟨e, he, rfl, rfl⟩ | ⟨l, hl, hlpath, ⟨e, he, rfl, rfl⟩ | ⟨r, hr, hrpath, side, failure,
      hf, rfl, rfl⟩⟩)
    · exact ⟨_, .look .left he, rfl⟩
    · exact ⟨_, .look (.right hl hlpath) he, rfl⟩
    · exact ⟨_, .objects (.both hl hlpath hr hrpath) hf, rfl⟩
  · rintro ⟨failure, h, rfl⟩
    cases h with
    | look hlook he =>
      cases hlook with
      | left => exact Or.inl ⟨_, he, rfl, rfl⟩
      | right hl hlpath => exact Or.inr ⟨_, hl, hlpath, Or.inl ⟨_, he, rfl, rfl⟩⟩
      | lone hside => cases hside
    | objects hc hf =>
      cases hc with
      | both hl hlpath hr hrpath =>
        exact Or.inr ⟨_, hl, hlpath, Or.inr ⟨_, hr, hrpath, _, _, hf, rfl, rfl⟩⟩

/-- **A pairing comes to trouble** where an operation fails. -/
theorem trouble_of_visit :
    .trouble path message ∈ (t.visit stay pair p s []).result ↔
      ∃ failure, t.FailsWith (t.LooksIn pair p) (t.ComparesIn pair p) failure path ∧
        message = failure.error.message := by
  rcases p with ⟨_ | a, _ | b⟩
  · refine iff_of_false (by simp [visit]) ?_
    rintro ⟨failure, h, -⟩
    cases h with
    | look hlook =>
      cases hlook with
      | lone hside => cases hside
    | objects hc => cases hc
  · exact trouble_of_visitLone rfl rfl
  · exact trouble_of_visitLone rfl rfl
  · exact trouble_of_visit_both

/-! ## Two operands -/

/-- The operand on `side` is a directory and the other one is not. -/
structure Across (t : TreeComparison σ) (left right : Path) (side : Side) (dir file : Located) :
    Prop where
  left_path : (side.place dir file).1.path = left
  right_path : (side.place dir file).2.path = right
  dir_seen : dir.Seen t
  file_seen : file.Seen t
  dir_kind : dir.stat.kind.isDirectory = true
  file_kind : file.stat.kind.isDirectory = false

/-- A directory and another operand that has no name to be looked up in it. -/
def Misfit (t : TreeComparison σ) (left right path : Path) : Prop :=
  ∃ side dir file, t.Across left right side dir file ∧ file.path.fileName? = none ∧
    path = file.path

/-- The entry of a directory that another operand is compared with. -/
def acrossPath (t : TreeComparison σ) (left right : Path) (dir : Located) (name : Name)
    (s : RunState σ) : Path :=
  (t.comparison.lookUp t.files dir.operand name (s.reset.note (.comparing left right))).1

/-- The paths that a comparison looks at. -/
inductive LooksAt (t : TreeComparison σ) (left right : Path) (s : RunState σ) : Path → Prop where
  | left : LooksAt t left right s left
  | right {l : Located} (hl : l.Seen t) (hpath : l.path = left) : LooksAt t left right s right
  | across {side : Side} {dir file : Located} {name : Name}
      (h : t.Across left right side dir file) (hname : file.path.fileName? = some name) :
      LooksAt t left right s (t.acrossPath left right dir name s)
  | entry {m : Merge σ} {v : Visit σ Findings} {path : Path} (hm : t.MergedIn left right s m)
      (hv : v ∈ t.visits m) (h : t.LooksIn m.pair v.pairing path) : LooksAt t left right s path

/-- The objects that a comparison compares. -/
inductive Compares (t : TreeComparison σ) (left right : Path) (s : RunState σ) :
    Located → Located → Prop where
  | operands {l r : Located} (hl : l.Seen t) (hlpath : l.path = left) (hr : r.Seen t)
      (hrpath : r.path = right) (hlkind : l.stat.kind.isDirectory = false)
      (hrkind : r.stat.kind.isDirectory = false) : Compares t left right s l r
  | across {side : Side} {dir file entry : Located} {name : Name}
      (h : t.Across left right side dir file) (hname : file.path.fileName? = some name)
      (he : entry.Seen t) (hpath : entry.path = t.acrossPath left right dir name s) :
      Compares t left right s (side.place entry file).1 (side.place entry file).2
  | entry {m : Merge σ} {v : Visit σ Findings} {l r : Located} (hm : t.MergedIn left right s m)
      (hv : v ∈ t.visits m) (h : t.ComparesIn m.pair v.pairing l r) : Compares t left right s l r

/-- **A comparison meets a failure**, and reports it with the path. -/
def Met (t : TreeComparison σ) (left right : Path) (s : RunState σ) : Failure → Path → Prop :=
  t.FailsWith (t.LooksAt left right s) (t.Compares left right s)

/-- What a pairing of a merge fails with, the comparison has met. -/
theorem Met.of_entry {m : Merge σ} {v : Visit σ Findings} {failure : Failure}
    (hm : t.MergedIn left right s m) (hv : v ∈ t.visits m)
    (h : t.FailsWith (t.LooksIn m.pair v.pairing) (t.ComparesIn m.pair v.pairing) failure path) :
    t.Met left right s failure path := by
  cases h with
  | look h he => exact .look (.entry hm hv h) he
  | objects h hf => exact .objects (.entry hm hv h) hf

/-- A directory and another operand come to trouble where there is no name to
look up, or an operation fails. -/
theorem trouble_of_compareAcross {side : Side} {dir file : Located} :
    .trouble path message ∈ (t.compareAcross side dir file s []).result ↔
      (file.path.fileName? = none ∧ path = file.path ∧
        message = "cannot compare a directory with this file name") ∨
      ∃ name, file.path.fileName? = some name ∧
        .trouble path message ∈ (t.lookAt (t.comparison.lookUp t.files dir.operand name s).1 s []
          fun entry => t.compareObjects none (side.place entry file).1 (side.place entry file).2
            s []).result := by
  have hfound : ∀ {name} {s' : RunState σ},
      (.trouble path message ∈ (t.lookAt (t.comparison.lookUp t.files dir.operand name s).1 s' []
        fun entry => t.compareObjects none (side.place entry file).1 (side.place entry file).2
          s' []).result ↔
      .trouble path message ∈ (t.lookAt (t.comparison.lookUp t.files dir.operand name s).1 s []
        fun entry => t.compareObjects none (side.place entry file).1 (side.place entry file).2
          s []).result) := by
    intro name s'
    simp only [trouble_of_lookAt, trouble_of_compareObjects]
  unfold compareAcross
  cases hname : file.path.fileName? with
  | none => simp
  | some name =>
    simp only [reduceCtorEq, false_and, false_or, Option.some.injEq, exists_eq_left']
    exact hfound

theorem compareTrees_across {side : Side} {dir file : Located}
    (h : t.Across left right side dir file) (s : RunState σ) :
    t.compareTrees left right s =
      t.compareAcross side dir file (s.reset.note (.comparing left right)) [] := by
  obtain ⟨rfl, rfl, hdir, hfile, hdkind, hfkind⟩ := h
  cases side with
  | left =>
    simp only [compareTrees, lookAt, Side.place]
    rw [hdir, hfile]
    simp only [hdkind, hfkind]
  | right =>
    simp only [compareTrees, lookAt, Side.place]
    rw [hdir, hfile]
    simp only [hdkind, hfkind]

/-- **Trouble is a failure that was met**, or two operands that cannot be
compared. -/
theorem met_of_trouble (h : .trouble path message ∈ (t.compareTrees left right s).result) :
    (∃ failure, t.Met left right s failure path ∧ message = failure.error.message) ∨
      t.Misfit left right path ∧ message = "cannot compare a directory with this file name" := by
  have hacross : ∀ side dir file, t.Across left right side dir file →
      .trouble path message ∈ (t.compareAcross side dir file
        (s.reset.note (.comparing left right)) []).result →
      (∃ failure, t.Met left right s failure path ∧ message = failure.error.message) ∨
        t.Misfit left right path ∧
          message = "cannot compare a directory with this file name" := by
    intro side dir file ha h
    rcases trouble_of_compareAcross.1 h with ⟨hname, rfl, rfl⟩ | ⟨name, hname, h⟩
    · exact Or.inr ⟨⟨side, dir, file, ha, hname, rfl⟩, rfl⟩
    refine Or.inl ?_
    rcases trouble_of_lookAt.1 h with ⟨e, he, rfl, rfl⟩ | ⟨entry, he, hpath, h⟩
    · exact ⟨_, .look (.across ha hname) he, rfl⟩
    · obtain ⟨_, failure, hf, rfl, rfl⟩ := trouble_of_compareObjects.1 h
      exact ⟨failure, .objects (.across ha hname he hpath) hf, rfl⟩
  rcases trouble_of_lookAt.1 h with ⟨e, he, rfl, rfl⟩ | ⟨l, hl, rfl, h⟩
  · exact Or.inl ⟨_, .look .left he, rfl⟩
  rcases trouble_of_lookAt.1 h with ⟨e, he, rfl, rfl⟩ | ⟨r, hr, rfl, h⟩
  · exact Or.inl ⟨_, .look (.right hl rfl) he, rfl⟩
  cases hkl : l.stat.kind.isDirectory <;> cases hkr : r.stat.kind.isDirectory <;>
    simp only [hkl, hkr] at h
  · obtain ⟨_, failure, hf, rfl, rfl⟩ := trouble_of_compareObjects.1 h
    exact Or.inl ⟨failure, .objects (.operands hl rfl hr rfl hkl hkr) hf, rfl⟩
  · exact hacross .right r l ⟨rfl, rfl, hr, hl, hkr, hkl⟩ h
  · exact hacross .left l r ⟨rfl, rfl, hl, hr, hkl, hkr⟩ h
  · obtain ⟨m, v, hm, hv, hc⟩ := (mem_compareWithin.1 h).resolve_left List.not_mem_nil
    obtain ⟨failure, hf, rfl⟩ := trouble_of_visit.1 ((comesTo_iff v.run).1 hc)
    exact Or.inl ⟨failure, .of_entry
      ⟨l.stat, r.stat, hl, hr, eq_of_beq hkl, eq_of_beq hkr, hm⟩ hv hf, rfl⟩

/-- What a pairing of a merge fails with is reported. -/
theorem trouble_of_entry {m : Merge σ} {v : Visit σ Findings} {failure : Failure}
    (hm : t.MergedIn left right s m) (hv : v ∈ t.visits m)
    (h : t.FailsWith (t.LooksIn m.pair v.pairing) (t.ComparesIn m.pair v.pairing) failure path) :
    .trouble path failure.error.message ∈ (t.compareTrees left right s).result := by
  obtain ⟨leftStat, rightStat, hl, hr, hkl, hkr, hm⟩ := hm
  have hc : t.ComesTo m.pair v.pairing (some (.trouble path failure.error.message)) :=
    (comesTo_iff v.run).2 (trouble_of_visit.2 ⟨failure, h, rfl⟩)
  simp only [compareTrees, lookAt, hl, hr, hkl, hkr]
  exact mem_compareWithin.2 (Or.inr ⟨m, v, hm, hv, hc⟩)

/-- **A failure that is met is reported.** -/
theorem Met.reported {failure : Failure} (h : t.Met left right s failure path) :
    .trouble path failure.error.message ∈ (t.compareTrees left right s).result := by
  cases h with
  | @look _ e h he =>
    have hlook : ∀ {next : Located → Step σ Findings} {s : RunState σ},
        .trouble path e.message ∈ (t.lookAt path s [] next).result :=
      trouble_of_lookAt.2 (Or.inl ⟨e, he, rfl, rfl⟩)
    cases h with
    | left => exact hlook
    | right hl hpath => exact trouble_of_lookAt.2 (Or.inr ⟨_, hl, hpath, hlook⟩)
    | across ha hname =>
      rw [compareTrees_across ha]
      exact trouble_of_compareAcross.2 (Or.inr ⟨_, hname, hlook⟩)
    | entry hm hv h => exact trouble_of_entry hm hv (.look h he)
  | @objects l r _ failure h hf =>
    have hobjects : ∀ {s : RunState σ}, .trouble (blamed l failure) failure.error.message ∈
        (t.compareObjects none l r s []).result :=
      trouble_of_compareObjects.2 ⟨_, failure, hf, rfl, rfl⟩
    cases h with
    | operands hl hlpath hr hrpath hlkind hrkind =>
      refine trouble_of_lookAt.2 (Or.inr ⟨l, hl, hlpath, ?_⟩)
      refine trouble_of_lookAt.2 (Or.inr ⟨r, hr, hrpath, ?_⟩)
      simp only [hlkind, hrkind]
      exact hobjects
    | across ha hname he hpath =>
      rw [compareTrees_across ha]
      exact trouble_of_compareAcross.2 (Or.inr ⟨_, hname,
        trouble_of_lookAt.2 (Or.inr ⟨_, he, hpath, hobjects⟩)⟩)
    | entry hm hv h => exact trouble_of_entry hm hv (.objects h hf)

/-- An operation on an object that a comparison compares does fail, and is one
on the path of its side. -/
theorem ObjectsFail.fails {side : Side} {failure : Failure} (h : t.ObjectsFail l r side failure) :
    t.files.Fails t.comparison.options.followLinks failure ∧
      failure.path = (side.place l.path r.path).1 := by
  cases h with
  | contents _ _ _ _ h => exact h.fails _
  | leftLink _ _ h => exact ⟨h, rfl⟩
  | rightLink _ _ _ h => exact ⟨h, rfl⟩

/-- **What trouble is blamed on.** A comparison reports the failures that it
meets, and nothing else but two operands that cannot be compared. Every one of
them is an operation that does fail, and is reported with the path that it
failed on, unless it is an open or a read of the right one of two files whose
contents are compared: that is reported with the path of the left one, which is
another. -/
theorem trouble_blames (t : TreeComparison σ) (left right : Path) (s : RunState σ) :
    (∀ path message, .trouble path message ∈ (t.compareTrees left right s).result ↔
      (∃ failure, t.Met left right s failure path ∧ message = failure.error.message) ∨
        t.Misfit left right path ∧ message = "cannot compare a directory with this file name") ∧
    ∀ failure path, t.Met left right s failure path →
      t.files.Fails t.comparison.options.followLinks failure ∧
        (path ≠ failure.path ↔ t.files.ContentsFail path failure.path .right failure) := by
  refine ⟨fun path message => ⟨met_of_trouble, ?_⟩, fun failure path h => ?_⟩
  · rintro (⟨failure, h, rfl⟩ | ⟨⟨side, dir, file, ha, hname, rfl⟩, rfl⟩)
    · exact h.reported
    · rw [compareTrees_across ha]
      exact trouble_of_compareAcross.2 (Or.inl ⟨hname, rfl, rfl⟩)
  · have hself : t.files.ContentsFail path failure.path .right failure → path ≠ failure.path := by
      rintro hright rfl
      exact FileSystem.not_contentsFail_self hright
    cases h with
    | look _ he => exact ⟨he, fun hne => absurd rfl hne, hself⟩
    | @objects l r side _ _ hf =>
      refine ⟨hf.fails.1, fun hne => ?_, hself⟩
      cases hf with
      | contents _ _ _ _ hfail =>
        have hpath := (hfail.fails false).2
        rw [blamed_of_contentsFail hfail] at hne ⊢
        cases side with
        | left => exact absurd hpath.symm hne
        | right => rwa [hpath]
      | leftLink => exact absurd rfl hne
      | rightLink => exact absurd rfl hne

/-- Two files `l` and `r` of one byte each; the second cannot be read. -/
def unreadableTree : FileTree where
  objects := [
    { content := .directory 0 [(.ofString "l", 1), (.ofString "r", 2)] none },
    { content := .regular [0x78] },
    { content := .regular [0x79], faults := { failAt := some 0 } }]
  root := 0
  current := 0

-- `l` is blamed for it; with the operands exchanged it is `r`
example :
    let t : TreeComparison Unit :=
      ⟨⟨{}, .scalarValues, fun _ => false⟩, {}, unreadableTree.fileSystem⟩
    let blamed := fun left right =>
      (t.compareTrees (.ofString left) (.ofString right) (.start ())).result
    blamed "l" "r" = [.trouble (.ofString "l") "Input/output error (os error 5)"] ∧
      blamed "r" "l" = [.trouble (.ofString "r") "Input/output error (os error 5)"] := by
  decide +kernel

end TreeComparison

end TreeCompare
