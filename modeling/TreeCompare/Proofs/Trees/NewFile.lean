import TreeCompare.Proofs.Operations.SameContents
import TreeCompare.Proofs.Trees.FilledIn
import TreeCompare.Proofs.Trees.Turned
/-!
# What is absent counts as empty

A comparison may count what is absent on one side as an empty file or an empty
directory. It then finds what it would find if that were really there
(`compareTrees_filledIn`), although in the one case it looks at nothing, and in
the other it reads an empty directory and compares two files. Two runs are gone
through together: where both have come to the same relative path, they deal
with every name alike (`visitsAlike`), and so does every level
(`compareWithin_filledIn`).
-/

namespace TreeCompare

variable {σ : Type}

namespace TreeComparison

variable {t : TreeComparison σ} {roots : Side → Path} {names : List Name} {name : Name}
  {pair : DirectoryPair} {p : Pairing} {side : Side}

/-- The comparison over another file system. -/
abbrev withFiles (t : TreeComparison σ) (fs : FileSystem) : TreeComparison σ :=
  { t with files := fs }

/-- The names lead somewhere on the side, as the comparison sees it. -/
abbrev Present (t : TreeComparison σ) (roots : Side → Path) (names : List Name) (side : Side) :
    Prop :=
  t.files.Occurs t.comparison.options.followLinks (roots side) names

/-- There is a directory where the names lead to on the side. -/
abbrev IsDirectory (t : TreeComparison σ) (roots : Side → Path) (names : List Name) (side : Side) :
    Prop :=
  t.files.DirectoryAt t.comparison.options.followLinks ((roots side).below names)

/-- What the comparison finds where the names lead to on the side. -/
abbrev Finds (t : TreeComparison σ) (roots : Side → Path) (names : List Name) (side : Side)
    (stat : ObjectStat) : Prop :=
  t.files.stat ((roots side).below names) t.comparison.options.followLinks = .ok stat

/-- The comparison has come to where the names lead to. -/
abbrev StandsAt (t : TreeComparison σ) (roots : Side → Path) (names : List Name)
    (pair : DirectoryPair) : Prop :=
  pair.Stands t.files t.comparison.options.followLinks roots names

/-! ## What is done with a name -/

section Visit

variable (hnew : t.options.newFile = true) (hstands : t.StandsAt roots names pair)
  (hshow : p.Shows name (t.Present roots (names ++ [name])))

include hstands hshow

/-- A name of both sides. -/
theorem visit_both {leftStat rightStat : ObjectStat} (hl : t.Present roots (names ++ [name]) .left)
    (hr : t.Present roots (names ++ [name]) .right)
    (hsl : t.Finds roots (names ++ [name]) .left leftStat)
    (hsr : t.Finds roots (names ++ [name]) .right rightStat) (descend : Descent σ) :
    t.visit descend pair p = t.compareObjects (some descend)
      ⟨(roots .left).below (names ++ [name]), leftStat⟩
      ⟨(roots .right).below (names ++ [name]), rightStat⟩ := by
  obtain ⟨left, right⟩ := p
  obtain rfl : left = some name := hshow.there hl
  obtain rfl : right = some name := hshow.there hr
  have hpl : pair.left.path = (roots .left).below names := (hstands.operand .left).path
  have hpr : pair.right.path = (roots .right).below names := (hstands.operand .right).path
  simp only [Finds, Path.below_concat] at hsl hsr
  funext s found
  simp only [visit, lookAt, hpl, hpr, hsl, hsr, Path.below_concat]

include hnew

/-- A name of one side, where what is absent counts as empty. -/
theorem visit_lone {stat : ObjectStat} (hhere : t.Present roots (names ++ [name]) side)
    (hnot : ¬ t.Present roots (names ++ [name]) side.other)
    (hs : t.Finds roots (names ++ [name]) side stat) (descend : Descent σ) :
    t.visit descend pair p = t.compareWithNothing descend side
      ⟨(roots side).below (names ++ [name]), stat⟩
      ((roots side.other).below (names ++ [name])) := by
  have hlone : t.visit descend pair p = t.visitLone descend pair side name := by
    obtain ⟨left, right⟩ := p
    cases side with
    | left =>
      obtain rfl : left = some name := hshow.there hhere
      obtain rfl : right = none := hshow.missing hnot
      rfl
    | right =>
      obtain rfl : right = some name := hshow.there hhere
      obtain rfl : left = none := hshow.missing hnot
      rfl
  simp only [Finds, Path.below_concat] at hs
  rw [hlone]
  funext s found
  simp only [visitLone, hnew, if_true, lookAt, (hstands.operand side).path,
    (hstands.operand side.other).path, hs, Path.below_concat]

/-- **A directory with a directory or with nothing** is gone into one name
further down, or reported where it is not gone into. -/
theorem visit_directories (hone : ∃ side, t.Present roots (names ++ [name]) side)
    (hd : ∀ side, t.Present roots (names ++ [name]) side →
      t.IsDirectory roots (names ++ [name]) side) :
    ∃ left right, t.StandsAt roots (names ++ [name]) (pair.below left right) ∧
      ∀ descend s found, t.visit descend pair p s found =
        if t.options.recursive then descend left right s found
        else ⟨.same, s, .commonSubdirectories ((roots .left).below (names ++ [name]))
          ((roots .right).below (names ++ [name])) :: found⟩ := by
  obtain ⟨side, hhere⟩ := hone
  by_cases hthere : t.Present roots (names ++ [name]) side.other
  · have hall := Side.forall_of_other hhere hthere
    obtain ⟨leftStat, hs, hk⟩ := hd .left (hall .left)
    obtain ⟨rightStat, hs', hk'⟩ := hd .right (hall .right)
    refine ⟨_, _, hstands.below (.of_known (hall .left) hs hk) (.of_known (hall .right) hs' hk'),
      fun descend s found => ?_⟩
    rw [visit_both hstands hshow (hall .left) (hall .right) hs hs']
    simp only [compareObjects, hk, hk', ne_eq, not_true_eq_false, if_false]
    cases t.options.recursive <;> rfl
  · obtain ⟨stat, hs, hk⟩ := hd side hhere
    have hknown := Operand.Stands.of_known hhere hs hk
    have hnothing := Operand.Stands.of_nonexistent hthere
    let here : Operand := .known ((roots side).below (names ++ [name])) stat
    let there : Operand := .nonexistent ((roots side.other).below (names ++ [name]))
    refine ⟨(side.place here there).1, (side.place here there).2, ?_, fun descend s found => ?_⟩
    · cases side with
      | left => exact hstands.below hknown hnothing
      | right => exact hstands.below hnothing hknown
    · rw [visit_lone hnew hstands hshow hhere hthere hs]
      simp only [compareWithNothing, hk]
      cases side <;> rfl

/-- Anything else on one side alone differs from nothing, unless it is a file
without bytes. -/
theorem visit_lone_file {stat : ObjectStat} (hhere : t.Present roots (names ++ [name]) side)
    (hnot : ¬ t.Present roots (names ++ [name]) side.other)
    (hs : t.Finds roots (names ++ [name]) side stat) (hk : stat.kind ≠ .directory)
    (descend : Descent σ) :
    t.visit descend pair p = t.verdict ((roots .left).below (names ++ [name]))
      ((roots .right).below (names ++ [name])) (stat.kind = .regular && stat.length == 0) := by
  have hplace := side.place_apply fun side => (roots side).below (names ++ [name])
  rw [visit_lone hnew hstands hshow hhere hnot hs]
  funext s found
  simp only [compareWithNothing, hplace]
  cases hkind : stat.kind <;> simp_all

end Visit

/-! ## What was made -/

/-- Two files, one of which has no bytes, are compared by their lengths. -/
theorem compareFiles_of_empty {left right : Located}
    (hs : left.stat.sameObject right.stat = false)
    (hl : t.files.ReadsWhole left.path left.stat.length)
    (hr : t.files.ReadsWhole right.path right.stat.length)
    (hempty : left.stat.length = 0 ∨ right.stat.length = 0) :
    t.compareFiles left right =
      t.verdict left.path right.path (left.stat.length == right.stat.length) := by
  obtain ⟨file, hfile, hfault, hlength⟩ := hl
  obtain ⟨file', hfile', hfault', hlength'⟩ := hr
  have hcontents : t.files.sameContents left.path left.stat.length right.path
      right.stat.length = .ok (left.stat.length == right.stat.length) := by
    unfold FileSystem.sameContents
    by_cases he : left.stat.length = right.stat.length
    · have hrest : file.rest = [] := List.length_eq_zero_iff.1 (by omega)
      have hrest' : file'.rest = [] := List.length_eq_zero_iff.1 (by omega)
      simp only [he, ne_eq, not_true_eq_false, if_false, hfile, hfile', beq_self_eq_true,
        OpenFile.sameRest_of_faultless hfault hfault', hrest, hrest', decide_true]
    · rw [if_pos he, beq_eq_false_iff_ne.2 he]
  funext s found
  simp only [compareFiles, hs, hcontents, Bool.false_eq_true, if_false]

/-- A name of both sides, with a file on one of them and an empty one on the
other. -/
theorem visit_made (hstands : t.StandsAt roots names pair)
    (hshow : p.Shows name (t.Present roots (names ++ [name])))
    (hall : ∀ side, t.Present roots (names ++ [name]) side) {stat made : ObjectStat}
    (hs : t.Finds roots (names ++ [name]) side stat)
    (hsm : t.Finds roots (names ++ [name]) side.other made)
    (hread : t.files.ReadsWhole ((roots side).below (names ++ [name])) stat.length)
    (hreadm : t.files.ReadsWhole ((roots side.other).below (names ++ [name])) made.length)
    (hk : stat.kind = .regular) (hkm : made.kind = .regular) (hlength : made.length = 0)
    (hfresh : made.sameObject stat = false) (descend : Descent σ) :
    t.visit descend pair p = t.verdict ((roots .left).below (names ++ [name]))
      ((roots .right).below (names ++ [name])) (stat.length == 0) := by
  cases side with
  | left =>
    rw [visit_both hstands hshow (hall .left) (hall .right) hs hsm, ← hlength]
    rw [ObjectStat.sameObject_comm] at hfresh
    funext s found
    simp only [compareObjects, hk, hkm, ne_eq, not_true_eq_false, if_false]
    rw [compareFiles_of_empty hfresh hread hreadm (Or.inr hlength)]
  | right =>
    rw [visit_both hstands hshow (hall .left) (hall .right) hsm hs, ← hlength, Bool.beq_comm]
    funext s found
    simp only [compareObjects, hk, hkm, ne_eq, not_true_eq_false, if_false]
    rw [compareFiles_of_empty hfresh hreadm hread (Or.inl hlength)]

/-! ## Two runs -/

variable {fs' : FileSystem} {pair' : DirectoryPair} {p' : Pairing} {s s' : RunState σ}
  {found found' : Findings}

/-- Two objects that are kept are compared as they were. -/
theorem compareObjects_kept {left right : Path}
    {leftStat rightStat leftStat' rightStat' : ObjectStat}
    (hl : t.files.Keeps fs' left leftStat leftStat')
    (hr : t.files.Keeps fs' right rightStat rightStat') (hlink : leftStat.kind ≠ .symlink) :
    (t.withFiles fs').compareObjects none ⟨left, leftStat'⟩ ⟨right, rightStat'⟩ =
      t.compareObjects none ⟨left, leftStat⟩ ⟨right, rightStat⟩ := by
  funext s found
  simp only [compareObjects, hl.kind, hr.kind]
  by_cases hk : leftStat.kind = rightStat.kind
  · simp only [hk, ne_eq, not_true_eq_false, if_false]
    by_cases hd : rightStat.kind = .directory
    · simp only [hd]
    · obtain ⟨rfl, hopen⟩ := hl.rest (hk ▸ hd)
      obtain ⟨rfl, hopen'⟩ := hr.rest hd
      cases hkind : rightStat'.kind with
      | directory => rfl
      | regular =>
        simp only [compareFiles, FileSystem.sameContents, hopen, hopen']
        rfl
      | symlink => exact absurd (hk.trans hkind) hlink
      | _ => rfl
  · simp only [if_pos hk]

/-- What two comparisons do with a name agrees: both go into directories one
name further down, or both settle it with the same finding. -/
inductive VisitsAlike (t t' : TreeComparison σ) (roots : Side → Path) (names : List Name)
    (pair pair' : DirectoryPair) (p p' : Pairing) : Prop where
  | goes {left right left' right' : Operand} (h : t.Goes pair p left right)
      (h' : t'.Goes pair' p' left' right') (hs : t.StandsAt roots names (pair.below left right))
      (hs' : t'.StandsAt roots names (pair'.below left' right'))
  | settles {reported : Option Finding}
      (h : ∀ descend s found, t.visit descend pair p s found = settle reported s found)
      (h' : ∀ descend s found, t'.visit descend pair' p' s found = settle reported s found)

theorem VisitsAlike.of_isReport {t' : TreeComparison σ}
    {f : RunState σ → Findings → Step σ Findings} (hf : IsReport f)
    (h : ∀ descend s found, t.visit descend pair p s found = f s found)
    (h' : ∀ descend s found, t'.visit descend pair' p' s found = f s found) :
    VisitsAlike t t' roots names pair pair' p p' := by
  obtain ⟨reported, -, hf⟩ := hf
  exact .settles (fun descend s found => by rw [h, hf]) fun descend s found => by rw [h', hf]

section Name

variable (hf : t.files.FilledIn fs' t.comparison.options.followLinks roots)
  (hstands : t.StandsAt roots names pair) (hstands' : (t.withFiles fs').StandsAt roots names pair')
  (hshow : p.Shows name (t.Present roots (names ++ [name])))
  (hshow' : p'.Shows name ((t.withFiles fs').Present roots (names ++ [name])))

include hf hstands hstands' hshow hshow'

/-- Two objects that were there and are not both directories. -/
theorem visitsAlike_both
    (hp : ∀ side, t.files.PlainTree t.comparison.options.followLinks (roots side))
    (hall : ∀ side, t.Present roots (names ++ [name]) side)
    (hd : ¬ ∀ side, t.IsDirectory roots (names ++ [name]) side) :
    VisitsAlike t (t.withFiles fs') roots (names ++ [name]) pair pair' p p' := by
  obtain ⟨leftStat, hs, leftStat', hs', hkept⟩ := hf.kept (hall .left)
  obtain ⟨rightStat, ht, rightStat', ht', hkept'⟩ := hf.kept (hall .right)
  have hlink := ((hp .left).sound _ (hall .left)).kind_ne_symlink hs
  have hstays : ¬ (leftStat.kind = .directory ∧ rightStat.kind = .directory ∧
      t.options.recursive = true) := by
    rintro ⟨hk, hk', -⟩
    exact hd fun side => match side with
      | .left => ⟨leftStat, hs, hk⟩
      | .right => ⟨rightStat, ht, hk'⟩
  have hstays' : ¬ (leftStat'.kind = .directory ∧ rightStat'.kind = .directory ∧
      t.options.recursive = true) := by rwa [hkept.kind, hkept'.kind]
  have hv : ∀ descend, t.visit descend pair p = t.compareObjects none
      ⟨(roots .left).below (names ++ [name]), leftStat⟩
      ⟨(roots .right).below (names ++ [name]), rightStat⟩ := fun descend =>
    (visit_both hstands hshow (hall .left) (hall .right) hs ht descend).trans
      (compareObjects_stays hstays descend)
  have hv' : ∀ descend, (t.withFiles fs').visit descend pair' p' = t.compareObjects none
      ⟨(roots .left).below (names ++ [name]), leftStat⟩
      ⟨(roots .right).below (names ++ [name]), rightStat⟩ := fun descend =>
    (visit_both hstands' hshow' (hf.occurs (hall .left)) (hf.occurs (hall .right)) hs' ht'
      descend).trans ((compareObjects_stays hstays' descend).trans
        (compareObjects_kept hkept hkept' hlink))
  exact .of_isReport (isReport_compareObjects _ _) (fun descend s found => by rw [hv])
    fun descend s found => by rw [hv']

/-- A file that was on one side alone, whether an empty one was made for it or
not. -/
theorem visitsAlike_lone (hnew : t.options.newFile = true)
    (hhere : t.Present roots (names ++ [name]) side)
    (hnot : ¬ t.Present roots (names ++ [name]) side.other)
    (hd : ¬ t.IsDirectory roots (names ++ [name]) side) :
    VisitsAlike t (t.withFiles fs') roots (names ++ [name]) pair pair' p p' := by
  obtain ⟨stat, hs, stat', hs', hkept⟩ := hf.kept hhere
  have hk : stat.kind ≠ .directory := fun hk => hd ⟨stat, hs, hk⟩
  obtain ⟨rfl, -⟩ := hkept.rest hk
  have hv := visit_lone_file hnew hstands hshow hhere hnot hs hk
  have hv' : ∀ descend, (t.withFiles fs').visit descend pair' p' =
      t.verdict ((roots .left).below (names ++ [name])) ((roots .right).below (names ++ [name]))
        (stat'.kind = .regular && stat'.length == 0) := by
    by_cases hmade : (t.withFiles fs').Present roots (names ++ [name]) side.other
    · obtain ⟨-, stat₁, hs₁, made, hsm, hkm, hempty⟩ := hf.made hmade hnot
      rw [side.other_other, hs] at hs₁
      cases hs₁
      obtain ⟨hregular, hlength⟩ := hempty.resolve_left hk
      intro descend
      rw [visit_made hstands' hshow' (Side.forall_of_other (hf.occurs hhere) hmade) hs' hsm
        ((hf.sound (hf.occurs hhere)).readsWhole hs' hregular)
        ((hf.sound hmade).readsWhole hsm (hkm.trans hregular)) hregular (hkm.trans hregular) hlength
        (hf.fresh hmade hnot hsm hhere hs), hregular]
      rfl
    · exact visit_lone_file (t := t.withFiles fs') hnew hstands' hshow' (hf.occurs hhere) hmade
        hs' hk
  exact .of_isReport (isReport_verdict _ _ _) (fun descend s found => by rw [hv])
    fun descend s found => by rw [hv']

/-- **A name is dealt with alike**, whether something empty was made for it or
not. -/
theorem visitsAlike (hnew : t.options.newFile = true)
    (hp : ∀ side, t.files.PlainTree t.comparison.options.followLinks (roots side))
    (hone : ∃ side, t.Present roots (names ++ [name]) side) :
    VisitsAlike t (t.withFiles fs') roots (names ++ [name]) pair pair' p p' := by
  by_cases hd : ∀ side, t.Present roots (names ++ [name]) side →
      t.IsDirectory roots (names ++ [name]) side
  · -- directories are gone into in both runs, or in neither
    obtain ⟨left, right, hbelow, hv⟩ := visit_directories hnew hstands hshow hone hd
    obtain ⟨left', right', hbelow', hv'⟩ := visit_directories (t := t.withFiles fs') hnew
      hstands' hshow' ((hf.exists_occurs_iff _).1 hone) (fun side => hf.directories hd)
    cases hrec : t.options.recursive with
    | true =>
      simp only [hrec, if_true] at hv hv'
      exact .goes hv hv' hbelow hbelow'
    | false =>
      simp only [hrec, Bool.false_eq_true, if_false] at hv hv'
      exact .of_isReport (isReport_cons (f := .commonSubdirectories _ _) (by simp)) hv hv'
  · simp only [not_forall] at hd
    obtain ⟨side, hhere, hfile⟩ := hd
    by_cases hthere : t.Present roots (names ++ [name]) side.other
    · exact visitsAlike_both hf hstands hstands' hshow hshow' hp
        (Side.forall_of_other hhere hthere) fun h => hfile (h side)
    · exact visitsAlike_lone hf hstands hstands' hshow hshow' hnew hhere hthere hfile

end Name

/-! ## The whole comparison -/

/-- One of two sides that does not lead back is enough. -/
theorem not_isLoop_of_stands {fs : FileSystem} {follow : Bool}
    (hstands : pair.Stands fs follow roots names) (ho : fs.Occurs follow (roots side) names)
    (ha : fs.Apart follow (roots side) names) :
    (pair.leadsBack .left && pair.leadsBack .right) = false := by
  have hside := hstands.not_leadsBack ho ha
  cases side with
  | left => rw [hside, Bool.false_and]
  | right => rw [hside, Bool.and_false]

/-- **Every level finds the same**, whether what one side lacks is missing on
the other or is there and empty. -/
theorem compareWithin_filledIn (hcase : t.comparison.options.ignoreCase = false)
    (hnew : t.options.newFile = true)
    (hp : ∀ side, t.files.PlainTree t.comparison.options.followLinks (roots side))
    (hf : t.files.FilledIn fs' t.comparison.options.followLinks roots) (depth : Nat)
    (hone : ∃ side, t.Present roots names side) (hstands : t.StandsAt roots names pair)
    (hstands' : (t.withFiles fs').StandsAt roots names pair') (hs : s'.basis = s.basis)
    (hfound : found = found') :
    (t.compareWithin depth pair s found).toStep.Agrees Eq
      ((t.withFiles fs').compareWithin depth pair' s' found').toStep := by
  induction depth generalizing names pair pair' s s' found found' with
  | zero => exact ⟨rfl, hs, hfound⟩
  | succ depth ih =>
    obtain ⟨side, ho⟩ := hone
    have hback := not_isLoop_of_stands hstands ho ((hp side).apart names ho)
    have hback' := not_isLoop_of_stands hstands' (hf.occurs ho) (hf.apart (hp side) ho)
    change Step.Agrees _
      (t.comparison.pairDirectories t.files pair (t.visitor depth) (s.note _) found).toStep
      (t.comparison.pairDirectories fs' pair' ((t.withFiles fs').visitor depth) (s'.note _)
        found').toStep
    refine Comparison.pairDirectories_nameByName hcase
      (fun side => hstands.offers ((hp side).sound names)) (fun side => hstands'.offers hf.sound)
      (fun name => hf.exists_occurs_iff (names ++ [name])) hback hback'
      (hstands'.isRoot.trans hstands.isRoot.symm) ?_ hs hfound
    intro opened opened' hopened hopened' name hone p p' hshow hshow' s s' found found' hs hfound
    cases visitsAlike hf (hstands.becomes hopened) (hstands'.becomes hopened') hshow hshow' hnew hp
      hone with
    | goes h h' hbelow hbelow' =>
      rw [visitor, visitor, h, h']
      exact ih hone hbelow hbelow' hs hfound
    | settles h h' =>
      rw [visitor, visitor, h, h', hfound]
      exact ⟨rfl, hs, rfl⟩

/-- **What is absent counts as empty.** Two directory trees without links and
without faults are compared where case counts and what one side lacks is
compared with nothing. If entries that one side has alone are made on the other
side, any of them, as empty files where they are regular files and as empty
directories where they are directories, the comparison comes to the same status
and finds the same, with the same paths and in the same order. -/
theorem compareTrees_filledIn {left right : Path}
    (hcase : t.comparison.options.ignoreCase = false) (hnew : t.options.newFile = true)
    (hp : ∀ side,
      t.files.PlainTree t.comparison.options.followLinks (operandsAt left right side))
    (hf : t.files.FilledIn fs' t.comparison.options.followLinks (operandsAt left right))
    (s s' : RunState σ) :
    let step := t.compareTrees left right s
    let step' := { t with files := fs' }.compareTrees left right s'
    step'.status = step.status ∧ step'.result = step.result := by
  let t' := t.withFiles fs'
  have hroots : ∀ side, t.Present (operandsAt left right) [] side := fun _ => trivial
  have hdirectories : ∀ side, t.Present (operandsAt left right) [] side →
      t.IsDirectory (operandsAt left right) [] side := fun side _ => (hp side).directory
  obtain ⟨leftStat, hl, hkl⟩ := (hp .left).directory
  obtain ⟨rightStat, hr, hkr⟩ := (hp .right).directory
  obtain ⟨leftStat', hl', hkl'⟩ := hf.directories hdirectories (hf.occurs (hroots .left))
  obtain ⟨rightStat', hr', hkr'⟩ := hf.directories hdirectories (hf.occurs (hroots .right))
  have hstands : t.StandsAt (operandsAt left right) []
      (.root (.known left leftStat) (.known right rightStat)) :=
    .of_root (.of_known trivial hl hkl) (.of_known trivial hr hkr)
  have hstands' : t'.StandsAt (operandsAt left right) []
      (.root (.known left leftStat') (.known right rightStat')) :=
    .of_root (.of_known trivial hl' hkl') (.of_known trivial hr' hkr')
  have hagree := t.compareTrees_agrees t' hl hr hkl hkr hl' hr' hkl' hkr'
    (fun depth _ _ hs => compareWithin_filledIn hcase hnew hp hf depth ⟨.left, hroots .left⟩
      hstands hstands' hs rfl) s s'
  exact ⟨hagree.status, hagree.result.symm⟩

/-- Two directories `l` and `r`: in `l` are a subdirectory `d` with a file `f`
in it and an empty file `e`, and in `r` there is nothing. -/
def lopsidedTree : FileTree where
  objects := [
    { content := .directory 0 [(.ofString "l", 1), (.ofString "r", 2)] none },
    { content := .directory 0 [(.ofString "d", 3), (.ofString "e", 5)] none },
    { content := .directory 0 [] none },
    { content := .directory 1 [(.ofString "f", 4)] none },
    { content := .regular [0x61] },
    { content := .regular [] }]
  root := 0
  current := 0

/-- The same with an empty `d` and in it an empty `f` made in `r`. -/
def evenedTree : FileTree where
  objects := lopsidedTree.objects.set 2 { content := .directory 0 [(.ofString "d", 6)] none } ++
    [{ content := .directory 2 [(.ofString "f", 7)] none }, { content := .regular [] }]
  root := 0
  current := 0

/-- Where something is in `lopsidedTree`. -/
def lopsidedPaths : Side → List (List Name)
  | .left => [[], [.ofString "d"], [.ofString "d", .ofString "f"], [.ofString "e"]]
  | .right => [[]]

/-- Where something is in `evenedTree`. -/
def evenedPaths : Side → List (List Name)
  | .left => lopsidedPaths .left
  | .right => [[], [.ofString "d"], [.ofString "d", .ofString "f"]]

/-- A comparison of `lopsidedTree` in which what is absent counts as empty. -/
def lopsided : TreeComparison Unit where
  comparison := ⟨{}, .scalarValues, fun _ => false⟩
  options := { recursive := true, newFile := true, reportIdentical := true }
  files := lopsidedTree.fileSystem

/-- The directories that are compared. -/
def lopsidedRoots : Side → Path := operandsAt (.ofString "l") (.ofString "r")

theorem mem_lopsidedPaths (h : lopsidedTree.fileSystem.Occurs false (lopsidedRoots side) names) :
    names ∈ lopsidedPaths side := by
  cases side <;> exact FileSystem.mem_of_occurs (by decide) (by decide +kernel) h

theorem mem_evenedPaths (h : evenedTree.fileSystem.Occurs false (lopsidedRoots side) names) :
    names ∈ evenedPaths side := by
  cases side <;> exact FileSystem.mem_of_occurs (by decide) (by decide +kernel) h

theorem plainTree_lopsided (side : Side) :
    lopsidedTree.fileSystem.PlainTree false (lopsidedRoots side) := by
  have hall : ∀ names ∈ lopsidedPaths side,
      lopsidedTree.fileSystem.Sound false ((lopsidedRoots side).below names) ∧
        lopsidedTree.fileSystem.Apart false (lopsidedRoots side) names := by
    cases side <;> decide +kernel
  refine ⟨?_, fun names ho => (hall names (mem_lopsidedPaths ho)).1,
    fun names ho => (hall names (mem_lopsidedPaths ho)).2⟩
  cases side <;> decide +kernel

theorem filledIn_evened :
    lopsidedTree.fileSystem.FilledIn evenedTree.fileSystem false lopsidedRoots where
  occurs {side names} ho := by
    have hall : ∀ names ∈ lopsidedPaths side,
        evenedTree.fileSystem.Occurs false (lopsidedRoots side) names := by
      cases side <;> decide +kernel
    exact hall names (mem_lopsidedPaths ho)
  kept {side names} ho := by
    have hmem := mem_lopsidedPaths ho
    cases side with
    | left =>
      simp only [lopsidedPaths, List.mem_cons, List.not_mem_nil, or_false] at hmem
      rcases hmem with rfl | rfl | rfl | rfl <;>
        exact ⟨_, rfl, _, rfl, rfl, rfl, fun _ => ⟨rfl, rfl⟩⟩
    | right =>
      obtain rfl := List.mem_singleton.1 hmem
      exact ⟨_, rfl, _, rfl, rfl, rfl, fun _ => ⟨rfl, rfl⟩⟩
  made {side names} ho' ho := by
    have hall : ∀ names ∈ evenedPaths side,
        ¬ lopsidedTree.fileSystem.Occurs false (lopsidedRoots side) names →
        lopsidedTree.fileSystem.Occurs false (lopsidedRoots side.other) names ∧
          ∃ stat, lopsidedTree.fileSystem.stat ((lopsidedRoots side.other).below names) false =
              .ok stat ∧
            ∃ stat', evenedTree.fileSystem.stat ((lopsidedRoots side).below names) false =
                .ok stat' ∧
              stat'.kind = stat.kind ∧
                (stat.kind = .directory ∨ stat.kind = .regular ∧ stat'.length = 0) := by
      cases side <;> decide +kernel
    exact hall names (mem_evenedPaths ho') ho
  fresh {side side' names names' stat stat'} ho' ho hs' hother hs := by
    have hall : ∀ names ∈ evenedPaths side,
        ¬ lopsidedTree.fileSystem.Occurs false (lopsidedRoots side) names →
        ∀ stat', evenedTree.fileSystem.stat ((lopsidedRoots side).below names) false = .ok stat' →
          ∀ names' ∈ lopsidedPaths side', ∀ stat,
            lopsidedTree.fileSystem.stat ((lopsidedRoots side').below names') false = .ok stat →
              stat'.sameObject stat = false := by
      cases side <;> cases side' <;> decide +kernel
    exact hall names (mem_evenedPaths ho') ho stat' hs' names' (mem_lopsidedPaths hother) stat hs
  sound {side names} ho' := by
    have hall : ∀ names ∈ evenedPaths side,
        evenedTree.fileSystem.Sound false ((lopsidedRoots side).below names) := by
      cases side <;> decide +kernel
    exact hall names (mem_evenedPaths ho')

/-- With and without `d` and `f` in `r`. -/
theorem compareTrees_filledIn_lopsided :
    let evened : TreeComparison Unit := { lopsided with files := evenedTree.fileSystem }
    let step := lopsided.compareTrees (.ofString "l") (.ofString "r") (.start ())
    let step' := evened.compareTrees (.ofString "l") (.ofString "r") (.start ())
    step'.status = step.status ∧ step'.result = step.result :=
  compareTrees_filledIn rfl rfl plainTree_lopsided filledIn_evened _ _

example :
    (lopsided.compareTrees (.ofString "l") (.ofString "r") (.start ())).result =
      [.identical (.ofString "l/e") (.ofString "r/e"),
        .differ (.ofString "l/d/f") (.ofString "r/d/f")] := by
  decide +kernel

end TreeComparison

end TreeCompare
