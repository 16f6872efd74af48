import TreeCompare.Proofs.Trees.Plain
/-!
# Empty files and directories that were made

What one of two trees has alone may be made in the other one, empty
(`FileSystem.FilledIn`). Whatever there is then stands for something that there
was (`FileSystem.FilledIn.exists_occurs_iff`), and all that there was is still
what it was.
-/

namespace TreeCompare

namespace FileSystem

/-- What there was is still there: a directory is the same one, perhaps with
other entries, and anything else is the same in all respects. -/
structure Keeps (fs fs' : FileSystem) (path : Path) (stat stat' : ObjectStat) : Prop where
  identity : stat'.identity = stat.identity
  kind : stat'.kind = stat.kind
  rest : stat.kind ≠ .directory → stat' = stat ∧ fs'.openFile path = fs.openFile path

/-- Entries that one of two trees has alone have been made in the other: as
empty files where they are regular files, and as empty directories where they
are directories. A directory that was made holds nothing but what was made in
it. -/
structure FilledIn (fs fs' : FileSystem) (follow : Bool) (roots : Side → Path) : Prop where
  occurs {side : Side} {names : List Name} :
    fs.Occurs follow (roots side) names → fs'.Occurs follow (roots side) names
  /-- What there was stays what it was. -/
  kept {side : Side} {names : List Name} : fs.Occurs follow (roots side) names →
    ∃ stat, fs.stat ((roots side).below names) follow = .ok stat ∧
      ∃ stat', fs'.stat ((roots side).below names) follow = .ok stat' ∧
        fs.Keeps fs' ((roots side).below names) stat stat'
  /-- What was made stands for something on the other side. -/
  made {side : Side} {names : List Name} :
    fs'.Occurs follow (roots side) names → ¬ fs.Occurs follow (roots side) names →
    fs.Occurs follow (roots side.other) names ∧
      ∃ stat, fs.stat ((roots side.other).below names) follow = .ok stat ∧
        ∃ stat', fs'.stat ((roots side).below names) follow = .ok stat' ∧ stat'.kind = stat.kind ∧
          (stat.kind = .directory ∨ stat.kind = .regular ∧ stat'.length = 0)
  /-- It is a new object. -/
  fresh {side side' : Side} {names names' : List Name} {stat stat' : ObjectStat} :
    fs'.Occurs follow (roots side) names → ¬ fs.Occurs follow (roots side) names →
    fs'.stat ((roots side).below names) follow = .ok stat' →
    fs.Occurs follow (roots side') names' →
    fs.stat ((roots side').below names') follow = .ok stat → stat'.sameObject stat = false
  /-- Nothing that is there now has a fault. -/
  sound {side : Side} {names : List Name} :
    fs'.Occurs follow (roots side) names → fs'.Sound follow ((roots side).below names)

namespace FilledIn

variable {fs fs' : FileSystem} {follow : Bool} {roots : Side → Path} {names : List Name}
  {side : Side}

/-- Whatever there is now stands for something that there was. -/
theorem exists_occurs_iff (h : fs.FilledIn fs' follow roots) (names : List Name) :
    (∃ side, fs.Occurs follow (roots side) names) ↔
      ∃ side, fs'.Occurs follow (roots side) names := by
  constructor
  · rintro ⟨side, ho⟩
    exact ⟨side, h.occurs ho⟩
  · rintro ⟨side, ho'⟩
    by_cases ho : fs.Occurs follow (roots side) names
    · exact ⟨side, ho⟩
    · exact ⟨side.other, (h.made ho' ho).1⟩

/-- What there was is as far apart from what it lies in as it was. -/
theorem apart (h : fs.FilledIn fs' follow roots) (hp : fs.PlainTree follow (roots side))
    (ho : fs.Occurs follow (roots side) names) : fs'.Apart follow (roots side) names := by
  intro n hn stat₁ hs₁ stat₁' hs₁'
  obtain ⟨stat, hs, stat₂, hs₂, hkept⟩ := h.kept (ho.take n)
  obtain ⟨stat', hs', stat₂', hs₂', hkept'⟩ := h.kept ho
  rw [hs₁] at hs₂
  rw [hs₁'] at hs₂'
  cases hs₂
  cases hs₂'
  rw [ObjectStat.sameObject, hkept.identity, hkept'.identity]
  exact hp.apart names ho n hn stat hs stat' hs'

/-- If nothing but directories was there, nothing but directories is. -/
theorem directories (h : fs.FilledIn fs' follow roots)
    (hd : ∀ side, fs.Occurs follow (roots side) names →
      fs.DirectoryAt follow ((roots side).below names))
    (ho' : fs'.Occurs follow (roots side) names) :
    fs'.DirectoryAt follow ((roots side).below names) := by
  by_cases ho : fs.Occurs follow (roots side) names
  · obtain ⟨stat₁, hs₁, hk⟩ := hd side ho
    obtain ⟨stat, hs, stat', hs', hkept⟩ := h.kept ho
    rw [hs] at hs₁
    cases hs₁
    exact ⟨stat', hs', hkept.kind.trans hk⟩
  · obtain ⟨hother, stat, hs, stat', hs', hk, -⟩ := h.made ho' ho
    obtain ⟨stat₁, hs₁, hk₁⟩ := hd side.other hother
    rw [hs] at hs₁
    cases hs₁
    exact ⟨stat', hs', hk.trans hk₁⟩

end FilledIn

end FileSystem

end TreeCompare
