import TreeCompare.FileTree
import TreeCompare.Proofs.Operations.Failures
import TreeCompare.Proofs.Operations.Meaning
import TreeCompare.Proofs.Trees.Enumeration
/-!
# The mirror image of a comparison

With the operands exchanged a comparison is the mirror image of what it was,
finding by finding, although it looks at the left side first everywhere
(`compareTrees_mirrors`). What two objects come down to is the same from
either side (`mirrored_compareObjects`), hence what is done with a pairing
(`turnsInto_mirror`), and every level turns with that. Only trouble may come
with another path (`Mirrors`): where two paths that face each other both fail, and
where one of two files fails that are read, since it is the one on the left that
is blamed.
-/

namespace TreeCompare

variable {σ : Type} {answer : Name → Except KeyError SortKey}

namespace TreeComparison

/-- Two paths face each other in a comparison of `left` and `right`: they are
the operands, or entries with names that match of paths that face each other, or
one operand and the entry that the other one, a directory, stands for. -/
inductive Faces (t : TreeComparison σ) (answer : Name → Except KeyError SortKey)
    (left right : Path) : Path → Path → Prop where
  | operands : Faces t answer left right left right
  | entries {l r : Path} {a b : Name} (h : Faces t answer left right l r)
      (hnames : t.comparison.order.Matched answer a b) :
      Faces t answer left right (l.join a) (r.join b)
  | entryOfLeft {entry name : Name} (hname : right.fileName? = some name)
      (hentry : t.comparison.order.Matched answer entry name) :
      Faces t answer left right (left.join entry) right
  | entryOfRight {entry name : Name} (hname : left.fileName? = some name)
      (hentry : t.comparison.order.Matched answer entry name) :
      Faces t answer left right left (right.join entry)

/-- A finding of a comparison of `left` and `right`, and what it is with the
operands exchanged: the same with its sides exchanged. Trouble is with the same
path, and the same message, but for two exceptions, in both of which each
comparison names the one on its left of two paths that face each other. Either
one operation fails on both of them, and each comparison tells of the failure that
it meets first. Or the contents of two files are compared, and both comparisons
meet the same failure of one of them: the comparison in which this file is on the
right names the path of the other. -/
inductive Mirrors (t : TreeComparison σ) (answer : Name → Except KeyError SortKey)
    (left right : Path) : Finding → Finding → Prop where
  | onlyIn (dir : Path) (name : Name) :
      Mirrors t answer left right (.onlyIn dir name) (.onlyIn dir name)
  | commonSubdirectories (l r : Path) :
      Mirrors t answer left right (.commonSubdirectories l r) (.commonSubdirectories r l)
  | identical (l r : Path) : Mirrors t answer left right (.identical l r) (.identical r l)
  | differ (l r : Path) : Mirrors t answer left right (.differ l r) (.differ r l)
  | kindMismatch (l : Path) (lkind : ObjectKind) (r : Path) (rkind : ObjectKind) :
      Mirrors t answer left right (.kindMismatch l lkind r rkind) (.kindMismatch r rkind l lkind)
  | trouble (path : Path) (message : String) :
      Mirrors t answer left right (.trouble path message) (.trouble path message)
  | bothFail {operation : Operation} {l r : Path} {e e' : IoError}
      (h : t.Faces answer left right l r)
      (hf : t.files.Fails t.comparison.options.followLinks ⟨operation, l, e⟩)
      (hf' : t.files.Fails t.comparison.options.followLinks ⟨operation, r, e'⟩) :
      Mirrors t answer left right (.trouble l e.message) (.trouble r e'.message)
  | oneBlamed {l r : Path} {side : Side} {failure : Failure} (h : t.Faces answer left right l r)
      (hf : t.files.ContentsFail l r side failure)
      (hf' : t.files.ContentsFail r l side.other failure) :
      Mirrors t answer left right (.trouble l failure.error.message)
        (.trouble r failure.error.message)

variable {t : TreeComparison σ} {left right : Path} {s s' : RunState σ}
  {found found' : Findings} {f f' : RunState σ → Findings → Step σ Findings}

theorem Mirrors.severity {finding finding' : Finding}
    (h : t.Mirrors answer left right finding finding') : finding'.severity = finding.severity := by
  cases h <;> rfl

/-! ## Two objects -/

/-- Both ways to go on come down to one finding, seen from either side, or to
none. -/
def Mirrored (t : TreeComparison σ) (answer : Name → Except KeyError SortKey) (left right : Path)
    (f f' : RunState σ → Findings → Step σ Findings) : Prop :=
  ∃ reported reported', Option.Rel (t.Mirrors answer left right) reported reported' ∧
    (∀ s found, f s found = settle reported s found) ∧
    ∀ s found, f' s found = settle reported' s found

theorem mirrored_cons {finding finding' : Finding}
    (h : t.Mirrors answer left right finding finding') :
    t.Mirrored answer left right (fun s found => ⟨finding.severity, s, finding :: found⟩)
      fun s found => ⟨finding'.severity, s, finding' :: found⟩ :=
  ⟨some finding, some finding', .some h, fun s found => (settle_some finding s found).symm,
    fun s found => (settle_some finding' s found).symm⟩

theorem mirrored_same :
    t.Mirrored answer left right (fun s found => ⟨.same, s, found⟩)
      fun s found => ⟨.same, s, found⟩ :=
  ⟨none, none, .none, fun _ _ => rfl, fun _ _ => rfl⟩

/-- One failure is met from either side. -/
theorem mirrored_failed (path : Path) (e : IoError) :
    t.Mirrored answer left right (failed path e) (failed path e) :=
  mirrored_cons (.trouble path e.message)

/-- The same operation fails on both of two paths. -/
theorem mirrored_bothFail (operation : Operation) {l r : Path} {e e' : IoError}
    (hfaces : t.Faces answer left right l r)
    (hf : t.files.Fails t.comparison.options.followLinks ⟨operation, l, e⟩)
    (hf' : t.files.Fails t.comparison.options.followLinks ⟨operation, r, e'⟩) :
    t.Mirrored answer left right (failed l e) (failed r e') :=
  mirrored_cons (.bothFail hfaces hf hf')

theorem mirrored_verdict (l r : Path) (same : Bool) :
    t.Mirrored answer left right (t.verdict l r same) (t.verdict r l same) := by
  unfold verdict
  cases same with
  | false => exact mirrored_cons (.differ l r)
  | true =>
    cases t.options.reportIdentical with
    | false => exact mirrored_same
    | true => exact mirrored_cons (.identical l r)

/-- What two files are blamed for when reading them fails, from either side. -/
theorem mirrored_contents {l r : Path} {side : Side} {failure : Failure}
    (hfaces : t.Faces answer left right l r) (h : t.files.ContentsFail l r side failure) :
    ∃ side' failure', t.files.ContentsFail r l side' failure' ∧
      t.Mirrored answer left right (failed l failure.error) (failed r failure'.error) := by
  rcases h.turned with hturned | ⟨rfl, failure', hturned, hoperation⟩
  · exact ⟨_, _, hturned, mirrored_cons (.oneBlamed hfaces h hturned)⟩
  · -- each of the two files is the first to fail where it is on the left
    obtain ⟨hfails, hpath⟩ := h.fails t.comparison.options.followLinks
    obtain ⟨hfails', hpath'⟩ := hturned.fails t.comparison.options.followLinks
    obtain ⟨operation, path, e⟩ := failure
    obtain ⟨operation', path', e'⟩ := failure'
    obtain rfl : path = l := hpath
    obtain rfl : path' = r := hpath'
    obtain rfl : operation' = operation := hoperation
    exact ⟨_, _, hturned, mirrored_bothFail operation' hfaces hfails hfails'⟩

/-- Reading two files goes as well from either side. -/
theorem mirrored_compareFiles {l r : Located} (hfaces : t.Faces answer left right l.path r.path) :
    t.Mirrored answer left right (t.compareFiles l r) (t.compareFiles r l) := by
  have hcontents := t.files.toOption_sameContents_comm l.path l.stat.length r.path r.stat.length
  unfold compareFiles
  rw [r.stat.sameObject_comm l.stat]
  split
  · exact mirrored_verdict ..
  cases hread : t.files.sameContents l.path l.stat.length r.path r.stat.length with
  | ok same =>
    cases hread' : t.files.sameContents r.path r.stat.length l.path l.stat.length with
    | ok same' =>
      rw [hread, hread'] at hcontents
      obtain rfl : same = same' := Option.some.inj hcontents
      exact mirrored_verdict ..
    | error e' =>
      rw [hread, hread'] at hcontents
      cases hcontents
  | error e =>
    obtain ⟨hlength, side, failure, hfail, rfl⟩ := FileSystem.sameContents_eq_error.1 hread
    obtain ⟨side', failure', hfail', hm⟩ := mirrored_contents hfaces hfail
    have hread' := FileSystem.sameContents_eq_error.2
      ⟨hlength.symm, side', failure', hfail', rfl⟩
    rw [hread']
    exact hm

theorem mirrored_compareLinks {l r : Path} (hfaces : t.Faces answer left right l r) :
    t.Mirrored answer left right (t.compareLinks l r) (t.compareLinks r l) := by
  unfold compareLinks
  cases hl : t.files.readLink l with
  | error e =>
    cases hr : t.files.readLink r with
    | error e' => exact mirrored_bothFail .readLink hfaces hl hr
    | ok b => exact mirrored_failed ..
  | ok a =>
    cases t.files.readLink r with
    | error e => exact mirrored_failed ..
    | ok b =>
      have hsame : b.sameAs a = a.sameAs b := decide_eq_decide.2 eq_comm
      simp only [hsame]
      exact mirrored_verdict ..

/-- **Two objects that are not gone into** come down to the same from either
side. -/
theorem mirrored_compareObjects {l r : Located} (hfaces : t.Faces answer left right l.path r.path) :
    t.Mirrored answer left right (t.compareObjects none l r) (t.compareObjects none r l) := by
  unfold compareObjects
  by_cases hk : l.stat.kind = r.stat.kind
  · simp only [hk, ne_eq, not_true_eq_false, if_false]
    cases r.stat.kind with
    | directory => exact mirrored_cons (.commonSubdirectories l.path r.path)
    | regular => exact mirrored_compareFiles hfaces
    | symlink => exact mirrored_compareLinks hfaces
    | _ =>
      simp only [r.stat.sameObject_comm l.stat]
      exact mirrored_verdict ..
  · simp only [if_pos hk, if_pos (Ne.symm hk)]
    exact mirrored_cons (.kindMismatch l.path l.stat.kind r.path r.stat.kind)

/-! ## A pairing -/

/-- Two paths are looked at from either side: something is there on both sides,
or both looks come down to the same trouble. -/
theorem lookBoth_turns {l r : Path} (hfaces : t.Faces answer left right l r) :
    (∃ lstat rstat, t.files.stat l t.comparison.options.followLinks = .ok lstat ∧
        t.files.stat r t.comparison.options.followLinks = .ok rstat) ∨
      ∃ f f', t.Mirrored answer left right f f' ∧
        (∀ s found (next : Located → Located → Step σ Findings),
          t.lookAt l s found (fun a => t.lookAt r s found (next a)) = f s found) ∧
        ∀ s found (next : Located → Located → Step σ Findings),
          t.lookAt r s found (fun b => t.lookAt l s found (next b)) = f' s found := by
  unfold lookAt
  cases hl : t.files.stat l t.comparison.options.followLinks with
  | error e =>
    cases hr : t.files.stat r t.comparison.options.followLinks with
    | error e' =>
      exact Or.inr ⟨failed l e, failed r e', mirrored_bothFail .look hfaces hl hr,
        fun _ _ _ => rfl, fun _ _ _ => rfl⟩
    | ok rstat =>
      exact Or.inr ⟨failed l e, failed l e, mirrored_failed l e, fun _ _ _ => rfl,
        fun _ _ _ => rfl⟩
  | ok lstat =>
    cases hr : t.files.stat r t.comparison.options.followLinks with
    | error e =>
      exact Or.inr ⟨failed r e, failed r e, mirrored_failed r e, fun _ _ _ => rfl,
        fun _ _ _ => rfl⟩
    | ok rstat => exact Or.inl ⟨lstat, rstat, rfl, rfl⟩

/-- What is done with two objects is gone into from both sides, or comes down
to the same. -/
theorem compareObjects_turns {l r : Located} (hfaces : t.Faces answer left right l.path r.path) :
    (∀ descend, t.compareObjects (some descend) l r = descend l.operand r.operand) ∧
        (∀ descend, t.compareObjects (some descend) r l = descend r.operand l.operand) ∨
      ∃ f f', t.Mirrored answer left right f f' ∧
        (∀ descend, t.compareObjects (some descend) l r = f) ∧
        ∀ descend, t.compareObjects (some descend) r l = f' := by
  by_cases hgo : l.stat.kind = .directory ∧ r.stat.kind = .directory ∧ t.options.recursive = true
  · obtain ⟨hl, hr, hrec⟩ := hgo
    exact Or.inl ⟨compareObjects_goes hl hr hrec, compareObjects_goes hr hl hrec⟩
  · exact Or.inr ⟨_, _, mirrored_compareObjects hfaces, compareObjects_stays hgo,
      compareObjects_stays fun h => hgo ⟨h.2.1, h.1, h.2.2⟩⟩

/-- An object that is compared with nothing is on one side or on the other. -/
theorem compareWithNothing_turns (side : Side) (present : Located) (absent : Path) :
    (∀ descend, t.compareWithNothing descend side present absent =
          descend (side.place present.operand (.nonexistent absent)).1
            (side.place present.operand (.nonexistent absent)).2) ∧
        (∀ descend, t.compareWithNothing descend side.other present absent =
          descend (side.place present.operand (.nonexistent absent)).2
            (side.place present.operand (.nonexistent absent)).1) ∨
      ∃ f f', t.Mirrored answer left right f f' ∧
        (∀ descend, t.compareWithNothing descend side present absent = f) ∧
        ∀ descend, t.compareWithNothing descend side.other present absent = f' := by
  have hverdict : ∀ same, t.Mirrored answer left right
      (t.verdict (side.place present.path absent).1 (side.place present.path absent).2 same)
      (t.verdict (side.other.place present.path absent).1
        (side.other.place present.path absent).2 same) := by
    intro same
    cases side <;> exact mirrored_verdict ..
  unfold compareWithNothing
  cases present.stat.kind with
  | directory =>
    cases t.options.recursive with
    | true => refine Or.inl ⟨fun _ => rfl, fun _ => ?_⟩; cases side <;> rfl
    | false =>
      cases side with
      | left =>
        exact Or.inr ⟨_, _, mirrored_cons (.commonSubdirectories present.path absent),
          fun _ => rfl, fun _ => rfl⟩
      | right =>
        exact Or.inr ⟨_, _, mirrored_cons (.commonSubdirectories absent present.path),
          fun _ => rfl, fun _ => rfl⟩
  | _ => exact Or.inr ⟨_, _, hverdict _, fun _ => rfl, fun _ => rfl⟩

/-- What both ways to go on come down to is what a pairing is settled with. -/
theorem Mirrored.visitTurns {pair : DirectoryPair} {p : Pairing}
    (hf : t.Mirrored answer left right f f')
    (h : ∀ descend s found, t.visit descend pair p s found = f s found)
    (h' : ∀ descend s found,
      t.visit descend (pair.turned .right) (p.turned .right) s found = f' s found) :
    VisitTurns .right (t.Faces answer left right) (t.Mirrors answer left right) t t pair p := by
  obtain ⟨reported, reported', hr, hf, hf'⟩ := hf
  exact .settles hr (fun descend s found => by rw [h, hf]) fun descend s found => by rw [h', hf']

/-- A name that is handed on alone. -/
theorem visitTurns_lone {pair : DirectoryPair} {p : Pairing}
    (hfaces : t.Faces answer left right pair.left.path pair.right.path) (side : Side) {name : Name}
    (h : ∀ descend s found, t.visit descend pair p s found =
      t.visitLone descend pair side name s found)
    (h' : ∀ descend s found, t.visit descend (pair.turned .right) (p.turned .right) s found =
      t.visitLone descend (pair.turned .right) side.other name s found) :
    VisitTurns .right (t.Faces answer left right) (t.Mirrors answer left right) t t pair p := by
  have hhere : (pair.turned .right).side side.other = pair.side side := by cases side <;> rfl
  have hthere : (pair.turned .right).side side.other.other = pair.side side.other := by
    cases side <;> rfl
  simp only [visitLone, hhere, hthere] at h h'
  cases hnew : t.options.newFile with
  | false =>
    simp only [hnew, Bool.false_eq_true, if_false] at h h'
    exact (mirrored_cons (.onlyIn (pair.side side).path name)).visitTurns h h'
  | true =>
    simp only [hnew, if_true, lookAt] at h h'
    cases hstat : t.files.stat ((pair.side side).path.join name)
        t.comparison.options.followLinks with
    | error e =>
      simp only [hstat] at h h'
      exact (mirrored_failed _ e).visitTurns h h'
    | ok stat =>
      simp only [hstat] at h h'
      rcases compareWithNothing_turns (t := t) side ⟨(pair.side side).path.join name, stat⟩
        ((pair.side side.other).path.join name) with ⟨hg, hg'⟩ | ⟨f, f', hf, hv, hv'⟩
      · have hbelow := hfaces.entries (Or.inl (rfl : name = name))
        refine .goes ?_ (fun descend s found => by rw [h, hg]) fun descend s found => ?_
        · cases side <;> exact hbelow
        · rw [h', hg']
          rfl
      · exact hf.visitTurns (fun descend s found => by rw [h, hv])
          fun descend s found => by rw [h', hv']

/-- Two names that are handed on together. -/
theorem visitTurns_both {pair : DirectoryPair} {a b : Name}
    (hfaces : t.Faces answer left right (pair.left.path.join a) (pair.right.path.join b)) :
    VisitTurns .right (t.Faces answer left right) (t.Mirrors answer left right) t t pair
      ⟨some a, some b⟩ := by
  have h : ∀ descend s found, t.visit descend pair ⟨some a, some b⟩ s found =
      t.lookAt (pair.left.path.join a) s found fun l =>
        t.lookAt (pair.right.path.join b) s found fun r =>
          t.compareObjects (some descend) l r s found := fun _ _ _ => rfl
  have h' : ∀ descend s found,
      t.visit descend (pair.turned .right) (Pairing.turned .right ⟨some a, some b⟩) s found =
      t.lookAt (pair.right.path.join b) s found fun r =>
        t.lookAt (pair.left.path.join a) s found fun l =>
          t.compareObjects (some descend) r l s found := fun _ _ _ => rfl
  rcases lookBoth_turns hfaces with ⟨lstat, rstat, hl, hr⟩ | ⟨f, f', hf, hv, hv'⟩
  · simp only [lookAt, hl, hr] at h h'
    have hobjects : t.Faces answer left right (Located.mk (pair.left.path.join a) lstat).path
        (Located.mk (pair.right.path.join b) rstat).path := hfaces
    rcases compareObjects_turns hobjects with ⟨hg, hg'⟩ | ⟨f, f', hf, hv, hv'⟩
    · exact .goes hfaces (fun descend s found => by rw [h, hg])
        fun descend s found => by rw [h', hg']; rfl
    · exact hf.visitTurns (fun descend s found => by rw [h, hv])
        fun descend s found => by rw [h', hv']
  · exact hf.visitTurns (fun descend s found => (h descend s found).trans (hv ..))
      fun descend s found => (h' descend s found).trans (hv' ..)

/-- **A comparison turns into itself.** -/
theorem turnsInto_mirror (t : TreeComparison σ) (answer : Name → Except KeyError SortKey)
    (left right : Path) :
    TurnsInto answer .right (t.Faces answer left right) (t.Mirrors answer left right) t t := by
  refine ⟨rfl, .refl _ _, Mirrors.severity, fun {pair p} hfaces hp => ?_⟩
  rcases p with ⟨_ | a, _ | b⟩
  · exact mirrored_same.visitTurns (fun _ _ _ => rfl) fun _ _ _ => rfl
  · exact visitTurns_lone hfaces .right (fun _ _ _ => rfl) fun _ _ _ => rfl
  · exact visitTurns_lone hfaces .left (fun _ _ _ => rfl) fun _ _ _ => rfl
  · exact visitTurns_both (hfaces.entries (hp a b rfl rfl))

/-! ## Two operands -/

theorem Mirrored.agrees (hf : t.Mirrored answer left right f f') (hs : s'.basis = s.basis)
    (hfound : List.Forall₂ (t.Mirrors answer left right) found found') :
    (f s found).Agrees (List.Forall₂ (t.Mirrors answer left right)) (f' s' found') := by
  obtain ⟨reported, reported', hr, hf, hf'⟩ := hf
  rw [hf, hf']
  exact agrees_settle Mirrors.severity hr hs hfound

/-- A directory and a file, whichever of them is on the left. -/
theorem compareAcross_turns (ha : t.comparison.collator.AnswersBy answer) (side : Side)
    {dir file : Located} (hplace : side.place dir.path file.path = (left, right))
    (hbegun : s.basis = .collated) (hs : s'.basis = s.basis)
    (hfound : List.Forall₂ (t.Mirrors answer left right) found found') :
    (t.compareAcross side dir file s found).Agrees (List.Forall₂ (t.Mirrors answer left right))
      (t.compareAcross side.other dir file s' found') := by
  unfold compareAcross
  cases hname : file.path.fileName? with
  | none =>
    have hm : t.Mirrors answer left right
        (.trouble file.path "cannot compare a directory with this file name")
        (.trouble file.path "cannot compare a directory with this file name") := .trouble ..
    exact (mirrored_cons hm).agrees hs hfound
  | some name =>
    obtain ⟨hpath, hbasis⟩ := Comparison.lookUp_congr ha t.files dir.operand name hs
    obtain ⟨entry, hmatched, hentry⟩ :=
      Comparison.matched_lookUp ha hbegun t.files dir.operand name
    simp only [hpath, hentry, lookAt]
    cases t.files.stat (dir.operand.path.join entry) t.comparison.options.followLinks with
    | error e => exact (mirrored_failed _ e).agrees hbasis hfound
    | ok stat =>
      cases side with
      | left =>
        cases hplace
        exact (mirrored_compareObjects (.entryOfLeft hname hmatched)).agrees hbasis hfound
      | right =>
        cases hplace
        exact (mirrored_compareObjects (.entryOfRight hname hmatched)).agrees hbasis hfound

/-- **With the operands exchanged a comparison is its mirror image.** It has
the same status, its findings are those of the other one, position by position,
with left and right exchanged, and names are ordered by the same in the end.
There is trouble where the other one has it, with the same path unless an
operation fails on both of two paths that face each other, or a failure is met
while the contents of two files are compared. Then each comparison names the path
on its left, which in the second case is, for one of the two, not the path that
failed. This holds for all operands, whether they are directories, files or
missing, for every file system and every collator whose answer to a name, a key
or a failure, depends on the name alone, if there is no starting file. -/
theorem compareTrees_mirrors (t : TreeComparison σ)
    (ha : t.comparison.collator.AnswersBy answer)
    (hstart : t.comparison.options.startingFile = none) (left right : Path) (s s' : RunState σ) :
    let step := t.compareTrees left right s
    let step' := t.compareTrees right left s'
    step'.status = step.status ∧
      List.Forall₂ (t.Mirrors answer left right) step.result step'.result ∧
      step'.run.basis = step.run.basis := by
  -- both runs begin collated
  have hbegun : (s'.reset.note (.comparing right left)).basis =
      (s.reset.note (.comparing left right)).basis := rfl
  have hoperands : t.Faces answer left right left right := .operands
  have hagree : (t.compareTrees left right s).Agrees
      (List.Forall₂ (t.Mirrors answer left right)) (t.compareTrees right left s') := by
    unfold compareTrees
    rcases lookBoth_turns hoperands with ⟨leftStat, rightStat, hl, hr⟩ | ⟨f, f', hf, hv, hv'⟩
    · simp only [lookAt, hl, hr]
      cases leftStat.kind.isDirectory with
      | true =>
        cases rightStat.kind.isDirectory with
        | true =>
          exact compareWithin_turned (t.turnsInto_mirror answer left right) ha hstart t.depthBound
            hoperands hbegun .nil
        | false => exact compareAcross_turns ha .left rfl rfl hbegun .nil
      | false =>
        cases rightStat.kind.isDirectory with
        | true => exact compareAcross_turns ha .right rfl rfl hbegun .nil
        | false => exact (mirrored_compareObjects hoperands).agrees hbegun .nil
    · simp only [hv, hv']
      exact hf.agrees hbegun .nil
  exact ⟨hagree.status, hagree.result, hagree.basis⟩

/-- Two directories `l` and `r` with files `a` and `b`, of which only `l/a` can
be read. -/
def unreadableFiles : FileTree where
  objects := [
    { content := .directory 0 [(.ofString "l", 1), (.ofString "r", 2)] none },
    { content := .directory 0 [(.ofString "a", 3), (.ofString "b", 5)] none },
    { content := .directory 0 [(.ofString "a", 4), (.ofString "b", 6)] none },
    { content := .regular [0x78] },
    { content := .regular [0x78], faults := { failAt := some 0 } },
    { content := .regular [0x78], faults := { failAt := some 0 } },
    { content := .regular [0x78], faults := { failAt := some 0 } }]
  root := 0
  current := 0

/-- A comparison of `unreadableFiles`. -/
def unreadable : TreeComparison Unit where
  comparison := ⟨{ ignoreCase := true }, .ofKeying .foldAscii, fun _ => false⟩
  options := {}
  files := unreadableFiles.fileSystem

/-- From either side `a` and `b` are blamed on the left. Both files `b` have
failed, but of the files `a` only that in `r` has, whichever side `r` is on. -/
theorem compareTrees_mirrors_unreadable :
    let left := Path.ofString "l"
    let right := Path.ofString "r"
    let step := unreadable.compareTrees left right (.start ())
    let step' := unreadable.compareTrees right left (.start ())
    step.result = [.trouble (.ofString "l/b") "Input/output error (os error 5)",
        .trouble (.ofString "l/a") "Input/output error (os error 5)"] ∧
      step'.result = [.trouble (.ofString "r/b") "Input/output error (os error 5)",
        .trouble (.ofString "r/a") "Input/output error (os error 5)"] ∧
      step'.status = step.status ∧
      List.Forall₂ (unreadable.Mirrors (fun name => .ok (Keying.foldAscii name)) left right)
        step.result step'.result ∧
      step'.run.basis = step.run.basis := by
  intro left right step step'
  have hresult : step.result = [.trouble (.ofString "l/b") "Input/output error (os error 5)",
      .trouble (.ofString "l/a") "Input/output error (os error 5)"] := by decide +kernel
  have hresult' : step'.result = [.trouble (.ofString "r/b") "Input/output error (os error 5)",
      .trouble (.ofString "r/a") "Input/output error (os error 5)"] := by decide +kernel
  exact ⟨hresult, hresult',
    compareTrees_mirrors unreadable (Collator.answersBy_ofKey _) rfl left right _ _⟩

-- the order is given up within the subdirectory, and `C` is out of step behind it
example :
    (sampleByName.compareTrees (.ofString "l") (.ofString "r") (.start ())).result =
        [.onlyIn (.ofString "l") (.ofString "C"), .onlyIn (.ofString "l") (.ofString "b"),
          .onlyIn (.ofString "r") (.ofString "C")] ∧
      (sampleByName.compareTrees (.ofString "r") (.ofString "l") (.start ())).result =
        [.onlyIn (.ofString "l") (.ofString "C"), .onlyIn (.ofString "l") (.ofString "b"),
          .onlyIn (.ofString "r") (.ofString "C")] := by
  constructor <;> decide +kernel

end TreeComparison

end TreeCompare
