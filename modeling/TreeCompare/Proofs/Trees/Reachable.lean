import Mathlib.Data.Set.Card
import TreeCompare.Proofs.Trees.Merges
/-!
# New directories on the way down

A chain of pairs goes on as long as one of its sides is at a directory that
this side has not come through yet (`Passed`). So each pair of the chain
brings in a directory that is new to one of the sides, whichever of the two
it is and however often the other goes round in circles, and the chain is no
longer than the directories on the left and those on the right together
(`length_le_of_passed`).
-/

namespace TreeCompare

/-- What an identity says of where an object is: objects in one place are
the same object. -/
def ObjectIdentity.place : ObjectIdentity → (Nat × Nat) ⊕ List Path.Component
  | inode device number _ => .inl (device, number)
  | path p => .inr p.components

theorem ObjectIdentity.agrees_of_place {i j : ObjectIdentity} (h : i.place = j.place) :
    i.agrees j = true := by
  cases i with
  | inode device number special =>
    cases j with
    | inode device' number' special' =>
      obtain ⟨rfl, rfl⟩ := Prod.mk.inj (Sum.inl.inj h)
      simp [agrees]
    | path q => cases h
  | path p =>
    cases j with
    | inode device' number' special' => cases h
    | path q => exact decide_eq_true (Sum.inr.inj h)

/-- Entry after entry `root` leads to a directory at a path, which is what
`stat` tells. -/
inductive FileSystem.Reaches (fs : FileSystem) (follow : Bool) (root : Path) :
    Path → ObjectStat → Prop where
  | root {stat : ObjectStat} (hstat : fs.stat root follow = .ok stat)
      (hkind : stat.kind = .directory) : Reaches fs follow root root stat
  | entry {dir : Path} {stat stat' : ObjectStat} {entries : Enumeration} {name : Name}
      (h : Reaches fs follow root dir stat) (hentries : fs.enumerate dir = .ok entries)
      (hname : name ∈ entries.names) (hstat : fs.stat (dir.join name) follow = .ok stat')
      (hkind : stat'.kind = .directory) : Reaches fs follow root (dir.join name) stat'

namespace FileSystem

variable {fs : FileSystem} {follow : Bool} {root path : Path} {stat : ObjectStat}

/-- Where the directories are that `root` leads to. However many paths lead
to a directory, it is in one place. -/
def directoriesFrom (fs : FileSystem) (follow : Bool) (root : Path) :
    Set ((Nat × Nat) ⊕ List Path.Component) :=
  {place | ∃ path stat, fs.Reaches follow root path stat ∧ stat.identity.place = place}

theorem Reaches.mem_directories (h : fs.Reaches follow root path stat) :
    stat.identity ∈ fs.directories := by
  cases h with
  | root hstat hkind => exact fs.mem_directories hstat hkind
  | entry _ _ _ hstat hkind => exact fs.mem_directories hstat hkind

theorem directoriesFrom_subset (fs : FileSystem) (follow : Bool) (root : Path) :
    fs.directoriesFrom follow root ⊆ (fs.directories.map (·.place)).toFinset := by
  rintro _ ⟨path, stat, h, rfl⟩
  exact List.mem_toFinset.2 (List.mem_map_of_mem h.mem_directories)

theorem finite_directoriesFrom (fs : FileSystem) (follow : Bool) (root : Path) :
    (fs.directoriesFrom follow root).Finite :=
  (Finset.finite_toSet _).subset (fs.directoriesFrom_subset follow root)

theorem ncard_directoriesFrom_le (fs : FileSystem) (follow : Bool) (root : Path) :
    (fs.directoriesFrom follow root).ncard ≤ fs.directories.length := by
  have h := Set.ncard_le_ncard (fs.directoriesFrom_subset follow root) (Finset.finite_toSet _)
  rw [Set.ncard_coe_finset] at h
  have hcard := List.toFinset_card_le (fs.directories.map (·.place))
  rw [List.length_map] at hcard
  exact h.trans hcard

end FileSystem

/-! ## The way down -/

namespace DirectoryPair

/-- The operands on a side of the pairs that a way down has come through. -/
def along (way : List (Operand × Operand)) : Side → List Operand
  | .left => way.map (·.1)
  | .right => way.map (·.2)

/-- None of the pairs, the nearest of which comes first, led back when it was
come to. -/
def Passed : List (Operand × Operand) → Prop
  | [] => True
  | (left, right) :: way => ¬ IsLoop ⟨left, right, way⟩ ∧ Passed way

/-- Where the directories of a side are that exist and are known. -/
def places (operands : List Operand) : Finset ((Nat × Nat) ⊕ List Path.Component) :=
  ((operands.filter (!·.isNonexistent)).filterMap fun operand =>
    operand.stat.map (·.identity.place)).toFinset

theorem mem_places {operands : List Operand} {place : (Nat × Nat) ⊕ List Path.Component} :
    place ∈ places operands ↔ ∃ operand ∈ operands, operand.isNonexistent = false ∧
      ∃ stat, operand.stat = some stat ∧ stat.identity.place = place := by
  simp [places, and_assoc]

theorem places_subset_cons (operand : Operand) (operands : List Operand) :
    places operands ⊆ places (operand :: operands) := by
  intro place h
  obtain ⟨known, hk, hstat⟩ := mem_places.1 h
  exact mem_places.2 ⟨known, List.mem_cons_of_mem _ hk, hstat⟩

/-- A side that does not lead back is at a new place. -/
theorem card_places (pair : DirectoryPair) (side : Side)
    (hknown : (pair.side side).isNonexistent = false → ∃ stat, (pair.side side).stat = some stat)
    (hnew : ¬ pair.leadsBack side = true) :
    (places (pair.side side :: pair.ancestorsOn side)).card =
      (places (pair.ancestorsOn side)).card + 1 := by
  simp only [leadsBack, isRepeated, Bool.or_eq_true, not_or, Bool.not_eq_true] at hnew
  obtain ⟨stat, hstat⟩ := hknown hnew.1
  have hnot : stat.identity.place ∉ places (pair.ancestorsOn side) := by
    intro h
    obtain ⟨known, hk, -, stat', hstat', hplace⟩ := mem_places.1 h
    have hsame : known.sameObject (pair.side side) = true := by
      simp only [Operand.sameObject, hstat, hstat', ObjectStat.sameObject,
        ObjectIdentity.agrees_of_place hplace]
    exact List.any_eq_false.1 hnew.2 known hk hsame
  rw [← Finset.card_insert_of_notMem hnot]
  congr 1
  simp [places, hnew.1, hstat]

/-- **Each pair of a way brings in a directory that is new to one side.** -/
theorem length_le_of_passed {way : List (Operand × Operand)} (hp : Passed way)
    (hknown : ∀ side, ∀ operand ∈ along way side, operand.isNonexistent = false →
      ∃ stat, operand.stat = some stat) :
    way.length ≤ (places (along way .left)).card + (places (along way .right)).card := by
  induction way with
  | nil => exact Nat.zero_le _
  | cons pair way ih =>
    obtain ⟨left, right⟩ := pair
    obtain ⟨hloop, hp⟩ := hp
    have ih := ih hp fun side operand hmem =>
      hknown side operand (by cases side <;> exact List.mem_cons_of_mem _ hmem)
    -- the other side has no fewer directories than before
    have hl := Finset.card_le_card (places_subset_cons left (along way .left))
    have hr := Finset.card_le_card (places_subset_cons right (along way .right))
    change way.length + 1 ≤
      (places (left :: along way .left)).card + (places (right :: along way .right)).card
    rcases not_and_or.1 hloop with hback | hback
    · have hcard : (places (left :: along way .left)).card = (places (along way .left)).card + 1 :=
        card_places ⟨left, right, way⟩ .left
          (hknown .left left (List.mem_cons_self ..)) hback
      omega
    · have hcard : (places (right :: along way .right)).card =
          (places (along way .right)).card + 1 :=
        card_places ⟨left, right, way⟩ .right
          (hknown .right right (List.mem_cons_self ..)) hback
      omega

end DirectoryPair

end TreeCompare
