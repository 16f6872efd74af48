import TreeCompare.FileTree
/-!
# Steps along a path

What one part of a path does, wherever it stands in the path, is a `Way`: a
stretch takes one way after the other (`stretch_cons`). A path with more parts
behind it leads through the directory that it leads to without them
(`Leads.append`), a directory is also reached without the parts that mean the
directory itself (`Leads.pruned`), and what leads to something still does when a
link at the end is not followed (`Leads.unfollowed`).
-/

namespace TreeCompare

namespace FileTree

variable {t : FileTree} {here d dir object : Nat} {part : List UInt8}
  {parts parts' rest behind : List (List UInt8)} {follow directory : Bool} {links : Nat}
  {place : Place} {target : Path}

/-- The object of a number is a directory. -/
def IsDirectory (t : FileTree) (i : Nat) : Prop :=
  ∃ parent entries failAfter, t.content? i = some (.directory parent entries failAfter)

/-- Where one part of a path leads. -/
inductive Way where
  /-- To an object that is no symbolic link. -/
  | entry (object : Nat)
  /-- To a symbolic link. -/
  | link (object : Nat) (target : Path)
  /-- To no entry of the directory. -/
  | vacant
  /-- Nowhere, whatever comes after it. -/
  | nowhere (error : IoError)

/-- Where an entry for the object `i` leads. -/
def wayTo (t : FileTree) (i : Nat) : Way :=
  match t.content? i with
  | some (.symlink target) => .link i target
  | _ => .entry i

/-- Where a part leads from the object `here`. -/
def way (t : FileTree) (here : Nat) (part : List UInt8) : Way :=
  match t.content? here with
  | some (.directory parent entries _) =>
    if part = [0x2E] then .entry here
    else if part = [0x2E, 0x2E] then .entry parent
    else if part.length > nameLimit then .nowhere .nameTooLong
    else match lookup ⟨part⟩ entries with
      | none => .vacant
      | some i => t.wayTo i
  | _ => .nowhere .notDirectory

/-- How a stretch goes on after its first part, `part`, with `rest` to come. -/
def Way.onward (t : FileTree) (follow directory : Bool) (here : Nat) (part : List UInt8)
    (rest : List (List UInt8)) : Way → Stretch
  | .entry i => t.stretch follow directory i rest
  | .link i target =>
    if rest = [] ∧ !follow ∧ !directory then .arrived (.found i) else .link here target rest
  | .vacant => if rest = [] then .arrived (.vacant here ⟨part⟩) else .failed .notFound
  | .nowhere e => .failed e

/-- **A stretch takes the way of its first part** and goes on from there. -/
theorem stretch_cons (t : FileTree) (follow directory : Bool) (here : Nat) (part : List UInt8)
    (rest : List (List UInt8)) :
    t.stretch follow directory here (part :: rest) =
      (t.way here part).onward t follow directory here part rest := by
  rw [stretch, way]
  cases t.content? here with
  | none => rfl
  | some c =>
    cases c with
    | directory parent entries failAfter =>
      simp only
      split
      · rfl
      split
      · rfl
      split
      · rfl
      cases lookup ⟨part⟩ entries with
      | none => rfl
      | some i =>
        simp only [wayTo]
        cases t.content? i with
        | none => rfl
        | some c => cases c <;> rfl
    | _ => rfl

/-- What a stretch comes to, if links are followed, is what an object comes to. -/
theorem Way.onward_eq_found {w : Way}
    (h : w.onward t true directory here part rest = .arrived (.found d)) :
    ∃ i, w = .entry i ∧ t.stretch true directory i rest = .arrived (.found d) := by
  cases w with
  | entry i => exact ⟨i, rfl, h⟩
  | link i target =>
    rw [onward, if_neg (by simp)] at h
    cases h
  | vacant =>
    rw [onward] at h
    split at h <;> cases h
  | nowhere e => cases h

/-- A stretch comes to a link at its first part, or behind it. -/
theorem Way.onward_eq_link {w : Way} {front : List (List UInt8)}
    (h : w.onward t true directory here part front = .link dir target rest) :
    (∃ i, w = .entry i ∧ t.stretch true directory i front = .link dir target rest) ∨
      ∃ i, w = .link i target ∧ dir = here ∧ rest = front := by
  cases w with
  | entry i => exact .inl ⟨i, rfl, h⟩
  | link i target =>
    rw [onward, if_neg (by simp)] at h
    cases h
    exact .inr ⟨i, rfl, rfl, rfl⟩
  | vacant =>
    rw [onward] at h
    split at h <;> cases h
  | nowhere e => cases h

/-- Only from a directory does a part lead anywhere. -/
theorem isDirectory_of_way (h : ∀ e, t.way here part ≠ .nowhere e) : t.IsDirectory here := by
  rw [way] at h
  cases hc : t.content? here with
  | none =>
    rw [hc] at h
    exact absurd rfl (h _)
  | some c =>
    cases c with
    | directory parent entries failAfter => exact ⟨parent, entries, failAfter, hc⟩
    | _ =>
      rw [hc] at h
      exact absurd rfl (h _)

/-- A part that leads anywhere is `.` or `..`, or it is looked up in the directory. -/
theorem way_cases (t : FileTree) (here : Nat) (part : List UInt8) :
    (∃ e, t.way here part = .nowhere e) ∨ (∃ i, t.way here part = .entry i) ∨
      ∃ parent entries failAfter, t.content? here = some (.directory parent entries failAfter) ∧
        t.way here part = (lookup ⟨part⟩ entries).elim .vacant t.wayTo := by
  by_cases h : ∃ e, t.way here part = .nowhere e
  · exact .inl h
  obtain ⟨parent, entries, failAfter, hc⟩ := isDirectory_of_way fun e he => h ⟨e, he⟩
  right
  rw [way, hc]
  simp only
  split
  · exact .inl ⟨_, rfl⟩
  split
  · exact .inl ⟨_, rfl⟩
  next hdot hdots =>
  split
  · next hlong =>
    refine absurd ⟨.nameTooLong, ?_⟩ h
    rw [way, hc]
    simp only [if_neg hdot, if_neg hdots, if_pos hlong]
  · refine .inr ⟨parent, entries, failAfter, rfl, ?_⟩
    cases lookup ⟨part⟩ entries <;> rfl

/-- A part leads to no entry of a directory that has none of its name. -/
theorem exists_of_way_vacant (h : t.way here part = .vacant) :
    ∃ parent entries failAfter,
      t.content? here = some (.directory parent entries failAfter) ∧
        lookup ⟨part⟩ entries = none := by
  obtain ⟨e, he⟩ | ⟨i, hi⟩ | ⟨parent, entries, failAfter, hc, hlookup⟩ := t.way_cases here part
  · cases h.symm.trans he
  · cases h.symm.trans hi
  · refine ⟨parent, entries, failAfter, hc, ?_⟩
    cases hentry : lookup ⟨part⟩ entries with
    | none => rfl
    | some i =>
      rw [h, hentry, Option.elim_some, wayTo] at hlookup
      split at hlookup <;> cases hlookup

/-- A part leads to a link only if the link is one. -/
theorem content?_of_way_link (h : t.way here part = .link object target) :
    t.content? object = some (.symlink target) := by
  obtain ⟨e, he⟩ | ⟨i, hi⟩ | ⟨parent, entries, failAfter, -, hlookup⟩ := t.way_cases here part
  · cases h.symm.trans he
  · cases h.symm.trans hi
  · cases hentry : lookup ⟨part⟩ entries with
    | none =>
      rw [h, hentry] at hlookup
      cases hlookup
    | some i =>
      rw [h, hentry, Option.elim_some, wayTo] at hlookup
      split at hlookup
      · next hlink =>
        cases hlookup
        exact hlink
      · cases hlookup

theorem way_dot (h : t.IsDirectory here) : t.way here [0x2E] = .entry here := by
  obtain ⟨parent, entries, failAfter, hc⟩ := h
  rw [way, hc]
  rfl

/-- The part that means the directory itself leads there if it leads anywhere. -/
theorem way_dot_eq_or (t : FileTree) (here : Nat) :
    t.way here [0x2E] = .entry here ∨ ∃ e, t.way here [0x2E] = .nowhere e := by
  by_cases h : ∃ e, t.way here [0x2E] = .nowhere e
  · exact .inr h
  · exact .inl (way_dot (isDirectory_of_way fun e he => h ⟨e, he⟩))

/-- A stretch that ends in a directory arrives there. -/
theorem stretch_nil (h : t.IsDirectory here) :
    t.stretch follow directory here [] = .arrived (.found here) := by
  obtain ⟨parent, entries, failAfter, hc⟩ := h
  obtain ⟨o, ho, hcontent⟩ := Option.map_eq_some_iff.1 hc
  have hkind : o.kind = .directory := by rw [Object.kind, hcontent]
  rw [stretch, ho]
  simp [hkind]

theorem stretch_nil_eq_arrived (h : t.stretch follow directory here [] = .arrived place) :
    place = .found here := by
  rw [stretch] at h
  split at h
  · split at h
    · cases h
    · cases h
      rfl
  · cases h

theorem stretch_nil_ne_link (h : t.stretch follow directory here [] = .link dir target rest) :
    False := by
  rw [stretch] at h
  split at h
  · split at h <;> cases h
  · cases h

/-- How a walk comes to a place: it arrives there, or at a link from which it
comes there. -/
inductive Leads (t : FileTree) (follow : Bool) (place : Place) :
    (links here : Nat) → List (List UInt8) → (directory : Bool) → Prop where
  | arrived {links here : Nat} {parts : List (List UInt8)} {directory : Bool}
    (h : t.stretch follow directory here parts = .arrived place) :
    Leads t follow place links here parts directory
  | link {links here dir : Nat} {parts rest : List (List UInt8)} {directory : Bool} {target : Path}
    (h : t.stretch follow directory here parts = .link dir target rest)
    (onward : Leads t follow place links (if target.isAbsolute then t.root else dir)
      (partsOf target ++ rest) (directory || (rest.isEmpty && meansDirectory target))) :
    Leads t follow place (links + 1) here parts directory

theorem walk_eq_ok :
    t.walk follow links here parts directory = .ok place ↔
      t.Leads follow place links here parts directory := by
  constructor
  · intro h
    induction links generalizing here parts directory with
    | zero =>
      rw [walk] at h
      split at h
      · next hplace =>
        cases h
        exact .arrived hplace
      · cases h
      · cases h
    | succ links ih =>
      rw [walk] at h
      split at h
      · next hplace =>
        cases h
        exact .arrived hplace
      · cases h
      · next hplace => exact .link hplace (ih h)
  · intro h
    induction h with
    | @arrived links _ _ _ h => cases links <;> rw [walk, h]
    | link h _ ih =>
      rw [walk, h]
      exact ih

/-- How bytes come to a place: nothing on the way means a directory. -/
inductive LeadsToWrite (t : FileTree) (place : Place) :
    (links here : Nat) → List (List UInt8) → Prop where
  | arrived {links here : Nat} {parts : List (List UInt8)}
    (h : t.stretch true false here parts = .arrived place) : LeadsToWrite t place links here parts
  | link {links here dir : Nat} {parts rest : List (List UInt8)} {target : Path}
    (h : t.stretch true false here parts = .link dir target rest)
    (hmeans : (rest.isEmpty && meansDirectory target) = false)
    (onward : LeadsToWrite t place links (if target.isAbsolute then t.root else dir)
      (partsOf target ++ rest)) :
    LeadsToWrite t place (links + 1) here parts

theorem leadsToWrite_of_walkToWrite
    (h : t.walkToWrite links here parts directory = .ok place) :
    directory = false ∧ t.LeadsToWrite place links here parts := by
  induction links generalizing here parts directory with
  | zero =>
    rw [walkToWrite] at h
    split at h
    · split at h <;> cases h
    next hd =>
    refine ⟨Bool.not_eq_true _ ▸ hd, ?_⟩
    split at h
    · next hplace =>
      cases h
      exact .arrived hplace
    · cases h
    · cases h
  | succ links ih =>
    rw [walkToWrite] at h
    split at h
    · split at h <;> cases h
    next hd =>
    refine ⟨Bool.not_eq_true _ ▸ hd, ?_⟩
    split at h
    · next hplace =>
      cases h
      exact .arrived hplace
    · cases h
    · next hplace =>
      obtain ⟨hmeans, honward⟩ := ih h
      exact .link hplace hmeans honward

/-- Bytes are written to where the path leads. -/
theorem LeadsToWrite.leads (h : t.LeadsToWrite place links here parts) :
    t.Leads true place links here parts false := by
  induction h with
  | arrived h => exact .arrived h
  | link h hmeans _ ih => exact .link h (by rw [hmeans]; exact ih)

/-! ## More parts behind -/

/-- A stretch that gets anywhere with more parts behind it gets to a link before
them, or to the directory from which they lead on. -/
theorem stretch_append {r : Stretch} (h : t.stretch true directory here (parts ++ behind) = r)
    (hne : behind ≠ []) (hr : ∀ e, r ≠ .failed e) (directory' : Bool) :
    (∃ dir target rest, t.stretch true directory' here parts = .link dir target rest ∧
      r = .link dir target (rest ++ behind)) ∨
    ∃ d, t.stretch true directory' here parts = .arrived (.found d) ∧ t.IsDirectory d ∧
      t.stretch true directory d behind = r := by
  induction parts generalizing here with
  | nil =>
    obtain ⟨part, rest, rfl⟩ := List.exists_cons_of_ne_nil hne
    have hd : t.IsDirectory here := isDirectory_of_way fun e hway => by
      rw [List.nil_append, stretch_cons, hway] at h
      exact hr e h.symm
    exact .inr ⟨here, stretch_nil hd, hd, h⟩
  | cons part parts ih =>
    rw [List.cons_append, stretch_cons] at h
    rw [stretch_cons]
    cases hway : t.way here part with
    | entry i =>
      rw [hway] at h
      exact ih h
    | link i target =>
      rw [hway, Way.onward, if_neg (by simp)] at h
      exact .inl ⟨here, target, parts, if_neg (by simp), h.symm⟩
    | vacant =>
      rw [hway, Way.onward, if_neg (by simp [hne])] at h
      exact absurd h.symm (hr _)
    | nowhere e =>
      rw [hway] at h
      exact absurd h.symm (hr _)

/-- **A path with more parts behind it** leads through the directory that it leads
to without them. -/
theorem Leads.append (h : t.Leads true place links here (parts ++ behind) directory)
    (hne : behind ≠ []) (directory' : Bool) :
    ∃ d, t.Leads true (.found d) links here parts directory' ∧ t.IsDirectory d ∧
      ∃ links', t.Leads true place links' d behind directory := by
  generalize hlonger : parts ++ behind = longer at h
  induction h generalizing parts directory' with
  | @arrived links here longer directory hplace =>
    subst hlonger
    obtain ⟨_, _, _, -, hlink⟩ | ⟨d, harrived, hd, hbehind⟩ :=
      stretch_append hplace hne (by simp) directory'
    · cases hlink
    · exact ⟨d, .arrived harrived, hd, links, .arrived hbehind⟩
  | @link links here dir longer rest directory target hplace onward ih =>
    subst hlonger
    obtain ⟨_, _, rest', hshorter, hlink⟩ | ⟨d, harrived, hd, hbehind⟩ :=
      stretch_append hplace hne (by simp) directory'
    · cases hlink
      obtain ⟨d, hleads, hd, links', hbehind⟩ :=
        ih (directory' || (rest'.isEmpty && meansDirectory target)) (List.append_assoc ..)
      have hflag : (directory || (rest' ++ behind).isEmpty && meansDirectory target) =
          directory := by simp [hne]
      rw [hflag] at hbehind
      exact ⟨d, .link hshorter hleads, hd, links', hbehind⟩
    · exact ⟨d, .arrived harrived, hd, links + 1, .link hbehind onward⟩

/-- The directory itself is all that a part that means it leads to. -/
theorem Leads.dot (hd : t.IsDirectory d) (h : t.Leads follow place links d [[0x2E]] directory) :
    place = .found d := by
  have hstretch : t.stretch follow directory d [[0x2E]] = .arrived (.found d) := by
    rw [stretch_cons, way_dot hd, Way.onward, stretch_nil hd]
  cases h with
  | arrived h =>
    cases hstretch.symm.trans h
    rfl
  | link h _ => cases hstretch.symm.trans h

/-! ## Parts that mean the directory itself -/

/-- Some parts that mean the directory itself are left out. -/
inductive Pruned : List (List UInt8) → List (List UInt8) → Prop where
  | nil : Pruned [] []
  | keep (part : List UInt8) {parts parts' : List (List UInt8)} (h : Pruned parts parts') :
    Pruned (part :: parts) (part :: parts')
  | skip {parts parts' : List (List UInt8)} (h : Pruned parts parts') :
    Pruned ([0x2E] :: parts) parts'

theorem Pruned.append_left (front : List (List UInt8)) (h : Pruned parts parts') :
    Pruned (front ++ parts) (front ++ parts') := by
  induction front with
  | nil => exact h
  | cons part front ih => exact .keep part ih

theorem Pruned.refl (parts : List (List UInt8)) : Pruned parts parts := by
  have h := Pruned.nil.append_left parts
  rwa [List.append_nil] at h

/-- All of them can be left out. -/
theorem Pruned.filter (parts : List (List UInt8)) : Pruned parts (parts.filter (· ≠ [0x2E])) := by
  induction parts with
  | nil => exact .nil
  | cons part parts ih =>
    by_cases hdot : part = [0x2E]
    · rw [List.filter_cons_of_neg (by simpa using hdot), hdot]
      exact .skip ih
    · rw [List.filter_cons_of_pos (by simpa using hdot)]
      exact .keep part ih

theorem Pruned.arrived (hp : Pruned parts parts')
    (h : t.stretch true directory here parts = .arrived (.found d)) (hd : t.IsDirectory d)
    (directory' : Bool) : t.stretch true directory' here parts' = .arrived (.found d) := by
  induction hp generalizing here with
  | nil =>
    cases stretch_nil_eq_arrived h
    exact stretch_nil hd
  | keep part hp ih =>
    rw [stretch_cons] at h ⊢
    obtain ⟨i, hway, hi⟩ := Way.onward_eq_found h
    rw [hway]
    exact ih hi
  | skip hp ih =>
    rw [stretch_cons] at h
    obtain hdot | ⟨e, hdot⟩ := way_dot_eq_or t here
    · rw [hdot] at h
      exact ih h
    · rw [hdot] at h
      cases h

theorem Pruned.link (hp : Pruned parts parts')
    (h : t.stretch true directory here parts = .link dir target rest) (directory' : Bool) :
    ∃ rest', Pruned rest rest' ∧
      t.stretch true directory' here parts' = .link dir target rest' := by
  induction hp generalizing here with
  | nil => exact (stretch_nil_ne_link h).elim
  | @keep part parts parts' hp ih =>
    rw [stretch_cons] at h ⊢
    obtain ⟨i, hway, hi⟩ | ⟨i, hway, rfl, rfl⟩ := Way.onward_eq_link h
    · rw [hway]
      exact ih hi
    · rw [hway]
      exact ⟨parts', hp, if_neg (by simp)⟩
  | skip hp ih =>
    rw [stretch_cons] at h
    obtain hdot | ⟨e, hdot⟩ := way_dot_eq_or t here
    · rw [hdot] at h
      exact ih h
    · rw [hdot] at h
      cases h

/-- **A directory is reached without the parts that mean the directory itself.** -/
theorem Leads.pruned (h : t.Leads true (.found d) links here parts directory)
    (hd : t.IsDirectory d) (hp : Pruned parts parts') (directory' : Bool) :
    t.Leads true (.found d) links here parts' directory' := by
  induction h generalizing parts' directory' with
  | arrived h => exact .arrived (hp.arrived h hd directory')
  | link h _ ih =>
    obtain ⟨rest', hrest, hlink⟩ := hp.link h directory'
    exact .link hlink (ih (hrest.append_left _) _)

/-! ## A link at the end -/

/-- A path that arrives through no link at its end arrives there anyway. -/
theorem stretch_unfollowed (h : t.stretch true directory here parts = .arrived (.found d)) :
    t.stretch false false here parts = .arrived (.found d) := by
  induction parts generalizing here with
  | nil =>
    cases stretch_nil_eq_arrived h
    rw [stretch] at h ⊢
    split at h
    · simp
    · cases h
  | cons part parts ih =>
    rw [stretch_cons] at h ⊢
    obtain ⟨i, hway, hi⟩ := Way.onward_eq_found h
    rw [hway]
    exact ih hi

/-- A link at the end of a path is where the path leads if no link is followed
there; any other is gone through. -/
theorem stretch_unfollowed_link
    (h : t.stretch true directory here parts = .link dir target rest) :
    (∃ i, t.stretch false false here parts = .arrived (.found i)) ∨
      rest ≠ [] ∧ t.stretch false false here parts = .link dir target rest := by
  induction parts generalizing here with
  | nil => exact (stretch_nil_ne_link h).elim
  | cons part parts ih =>
    rw [stretch_cons] at h ⊢
    obtain ⟨i, hway, hi⟩ | ⟨i, hway, rfl, rfl⟩ := Way.onward_eq_link h
    · rw [hway]
      exact ih hi
    · rw [hway]
      by_cases hrest : rest = []
      · exact .inl ⟨i, if_pos ⟨hrest, rfl, rfl⟩⟩
      · exact .inr ⟨hrest, if_neg fun h => hrest h.1⟩

/-- **Where a path leads to something** it does without its last link. -/
theorem Leads.unfollowed (h : t.Leads true (.found d) links here parts directory) :
    ∃ i, t.Leads false (.found i) links here parts false := by
  induction h with
  | arrived h => exact ⟨d, .arrived (stretch_unfollowed h)⟩
  | @link links here dir parts rest directory target h _ ih =>
    obtain ⟨i, hi⟩ | ⟨hrest, hlink⟩ := stretch_unfollowed_link h
    · exact ⟨i, .arrived hi⟩
    · obtain ⟨i, hi⟩ := ih
      have hflag : (false || rest.isEmpty && meansDirectory target) = false := by simp [hrest]
      exact ⟨i, .link hlink (by rw [hflag]; exact hi)⟩

end FileTree

end TreeCompare
