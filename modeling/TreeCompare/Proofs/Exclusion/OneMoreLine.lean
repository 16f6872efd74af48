import Mathlib.Tactic.ByContra
import TreeCompare.Exclusions
/-!
# One more exclusion line

A line by itself says of a name that it is left out, that it is kept, or nothing
(`Exclusions.ruling`), and of several lines the last one that says something
decides, if their globs can be matched together (`excludes_of_matchable`).
Otherwise none of them has any effect, not even those that were in force before
the last one came (`excludes_of_not_matchable`). Which globs are refused is left
open: a line does more than it says only where some are (`actsAlone_iff`).
-/

namespace TreeCompare

open Exclusion

namespace Exclusions

variable {globs : GlobService} {lines : List String} {line : String} {name : Name}

/-! ## What a line says -/

/-- What a line by itself says about a name: whether it is left out, if it says
anything. -/
def ruling (line : String) (name : Name) : Option Bool :=
  (ruleOf line).bind fun rule => if appliesTo rule name then some (!rule.keeps) else Option.none

/-- A line says nothing about a name: it is blank or a comment, it does not parse,
it means directories only, or its glob does not match the name. -/
inductive Silent (line : String) (name : Name) : Prop where
  | empty (h : readLine line.toList = .ok Option.none)
  | refused {e : GlobError} (h : readLine line.toList = .error e)
  | directories {rule : Rule} (h : readLine line.toList = .ok (some rule))
      (hd : rule.directoriesOnly = true)
  | unmatched {rule : Rule} (h : readLine line.toList = .ok (some rule))
      (hm : rule.glob.accepts (candidate name) = false)

/-- The rule of a line, if it holds one, keeps names. -/
def KeepsNames (line : String) : Prop := ∃ rule, ruleOf line = some rule ∧ rule.keeps = true

theorem silent_iff : Silent line name ↔ ruling line name = Option.none := by
  constructor
  · intro h
    cases h with
    | empty h => simp only [ruling, ruleOf, h, Option.bind_none]
    | refused h => simp only [ruling, ruleOf, h, Option.bind_none]
    | directories h hd => simp [ruling, ruleOf, h, appliesTo, hd]
    | unmatched h hm => simp [ruling, ruleOf, h, appliesTo, hm]
  · intro h
    rcases hread : readLine line.toList with e | _ | rule
    · exact .refused hread
    · exact .empty hread
    · simp only [ruling, ruleOf, hread, Option.bind_some, ite_eq_right_iff, reduceCtorEq, imp_false,
        appliesTo, Bool.and_eq_true, Bool.not_eq_true', not_and, Bool.not_eq_true] at h
      cases hd : rule.directoriesOnly with
      | true => exact .directories hread hd
      | false => exact .unmatched hread (h hd)

/-- Only a line that keeps names says that one is kept. -/
theorem KeepsNames.of_ruling (h : ruling line name = some false) : KeepsNames line := by
  simp only [ruling, Option.bind_eq_some_iff] at h
  obtain ⟨rule, hrule, hruling⟩ := h
  split at hruling
  · exact ⟨rule, hrule, by simpa using hruling⟩
  · cases hruling

/-- A line that keeps names does not say that one is left out. -/
theorem KeepsNames.ruling_ne (h : KeepsNames line) (name : Name) :
    ruling line name ≠ some true := by
  obtain ⟨rule, hrule, hkeeps⟩ := h
  simp [ruling, hrule, hkeeps]

/-- What several lines say about a name: what the last one says of them that says
anything. -/
def lastRuling (lines : List String) (name : Name) : Option Bool :=
  lines.reverse.findSome? (ruling · name)

theorem lastRuling_concat :
    lastRuling (lines ++ [line]) name = (ruling line name).or (lastRuling lines name) := by
  simp only [lastRuling, List.reverse_append, List.reverse_singleton, List.singleton_append,
    List.findSome?_cons]
  cases ruling line name <;> rfl

theorem lastRuling_singleton : lastRuling [line] name = ruling line name := by
  rw [← List.nil_append [line], lastRuling_concat]
  exact Option.or_none

/-! ## Lines that can be matched together -/

/-- The globs of the lines can be matched together. -/
def Matchable (globs : GlobService) (lines : List String) : Prop :=
  globs.refusal? (globsOf lines) = Option.none

theorem ofLines_of_matchable (h : Matchable globs lines) :
    ofLines globs lines = ⟨lines.filterMap ruleOf⟩ := by
  rw [ofLines, h]

/-- **Lines that cannot be matched together have no effect at all.** -/
theorem ofLines_of_not_matchable (h : ¬ Matchable globs lines) : ofLines globs lines = none := by
  rw [ofLines]
  split
  · next hnone => exact absurd hnone h
  · rfl

theorem excludes_of_not_matchable (h : ¬ Matchable globs lines) (name : Name) :
    (ofLines globs lines).excludes name = false := by
  rw [ofLines_of_not_matchable h]
  rfl

/-- The first rule that applies is that of the first line that says something. -/
theorem find?_rules (lines : List String) (name : Name) :
    ((lines.filterMap ruleOf).find? (appliesTo · name)).map (!Rule.keeps ·) =
      lines.findSome? (ruling · name) := by
  induction lines with
  | nil => rfl
  | cons line lines ih =>
    rw [List.filterMap_cons, List.findSome?_cons, ruling]
    cases ruleOf line with
    | none => exact ih
    | some rule =>
      rw [List.find?_cons]
      cases happ : appliesTo rule name with
      | true => simp [happ]
      | false => simpa [happ] using ih

/-- **The last line that says something decides**, among lines that can be matched
together. -/
theorem excludes_of_matchable (h : Matchable globs lines) (name : Name) :
    (ofLines globs lines).excludes name = (lastRuling lines name).getD false := by
  rw [ofLines_of_matchable h, excludes, lastRuling, ← find?_rules, List.filterMap_reverse]
  cases (lines.filterMap ruleOf).reverse.find? (appliesTo · name) <;> rfl

/-- A line leaves out alone only what it says. -/
theorem ruling_of_excludes (h : (ofLines globs [line]).excludes name = true) :
    ruling line name = some true := by
  by_cases hm : Matchable globs [line]
  · rw [excludes_of_matchable hm, lastRuling_singleton] at h
    exact Option.getD_eq_iff.1 h |>.resolve_right (by simp)
  · rw [excludes_of_not_matchable hm] at h
    cases h

theorem excludes_of_isEmpty (h : (ofLines globs lines).isEmpty = true) (name : Name) :
    (ofLines globs lines).excludes name = false := by
  rw [isEmpty, List.isEmpty_iff] at h
  rw [excludes, h]
  rfl

/-! ## The line that leaves everything out -/

theorem ruleOf_star : ruleOf "*" = some ⟨[.leadingDirs, .many], false, false⟩ := by
  with_unfolding_all rfl

theorem afterSeparators_eq_nil {text : List UInt8} (h : Path.separator ∉ text) :
    afterSeparators text = [] := by
  induction text with
  | nil => rfl
  | cons b text ih =>
    rw [List.mem_cons, not_or] at h
    rw [afterSeparators, if_neg (Ne.symm h.1), ih h.2]

theorem nil_mem_afterMany {text : List UInt8} (h : Path.separator ∉ text) :
    [] ∈ afterMany text := by
  induction text with
  | nil => exact List.mem_singleton_self _
  | cons b text ih =>
    rw [List.mem_cons, not_or] at h
    rw [afterMany, if_neg (Ne.symm h.1)]
    exact List.mem_cons_of_mem _ (ih h.2)

/-- A name without separators is matched as it stands. -/
theorem candidate_eq (h : Path.separator ∉ name.bytes) : candidate name = name.bytes := by
  have hdot : ¬ [0x2E, 0x2F].isPrefixOf name.bytes = true := by
    intro hp
    exact h ((List.isPrefixOf_iff_prefix.1 hp).subset (by decide))
  have hhead : ¬ name.bytes.head? = some Path.separator := fun hp =>
    h (List.mem_of_mem_head? hp)
  simp only [candidate, if_neg hdot, if_neg hhead]

theorem ruling_star (h : Path.separator ∉ name.bytes) : ruling "*" name = some true := by
  have haccepts : Glob.accepts [.leadingDirs, .many] name.bytes = true := by
    simp [Glob.accepts, Glob.wantsBareDot, globRests, Token.rests, afterSeparators_eq_nil h,
      nil_mem_afterMany h]
  simp [ruling, ruleOf_star, appliesTo, candidate_eq h, haccepts]

/-- Behind it only a line that keeps a name makes a difference. -/
theorem excludes_star (h : Path.separator ∉ name.bytes) (hm : Matchable globs ["*", line]) :
    (ofLines globs ["*", line]).excludes name = (ruling line name).getD true := by
  have hlast : lastRuling (["*"] ++ [line]) name = (ruling line name).or (some true) := by
    rw [lastRuling_concat, lastRuling_singleton, ruling_star h]
  rw [List.singleton_append] at hlast
  rw [excludes_of_matchable hm, hlast]
  cases ruling line name <;> rfl

/-! ## What one more line changes -/

/-- One more line does to the answer for a name what it says by itself, and
nothing where it says nothing; and no line takes all the others away. That it
leaves a name out shows in what it does alone, and that it keeps one shows behind
the line that leaves everything out. -/
structure ActsAlone (globs : GlobService) (lines : List String) (line : String) (name : Name) :
    Prop where
  leavesOut : (ofLines globs [line]).excludes name = true →
    (ofLines globs (lines ++ [line])).excludes name = true
  keeps : KeepsNames line → (ofLines globs ["*", line]).excludes name = false →
    (ofLines globs (lines ++ [line])).excludes name = false
  otherwise : Silent line name →
    (ofLines globs (lines ++ [line])).excludes name = (ofLines globs lines).excludes name
  stays : (ofLines globs lines).isEmpty = false →
    (ofLines globs (lines ++ [line])).isEmpty = false

/-- What a line does alone, and behind the line that leaves everything out, shows
whether it says anything. -/
theorem silent_iff_probes (h : Path.separator ∉ name.bytes) (hl : Matchable globs [line])
    (hstar : Matchable globs ["*", line]) :
    (ofLines globs [line]).excludes name = false ∧
      ¬ (KeepsNames line ∧ (ofLines globs ["*", line]).excludes name = false) ↔
    Silent line name := by
  rw [silent_iff, excludes_of_matchable hl, lastRuling_singleton, excludes_star h hstar]
  rcases hruling : ruling line name with _ | _ | _
  · simp
  · simp [KeepsNames.of_ruling hruling]
  · simp

/-- Rules are not taken away by more lines that can be matched with them. -/
theorem isEmpty_of_matchable (hm : Matchable globs (lines ++ [line]))
    (h : (ofLines globs lines).isEmpty = false) :
    (ofLines globs (lines ++ [line])).isEmpty = false := by
  have hrules : lines.filterMap ruleOf ≠ [] := by
    intro hnil
    have hnone : (ofLines globs lines).isEmpty = true := by
      by_cases hlines : Matchable globs lines
      · rw [ofLines_of_matchable hlines, isEmpty, hnil]
        rfl
      · rw [ofLines_of_not_matchable hlines]
        rfl
    rw [hnone] at h
    cases h
  rw [ofLines_of_matchable hm, isEmpty, List.isEmpty_eq_false_iff, List.filterMap_append]
  exact List.append_ne_nil_of_left_ne_nil hrules _

/-- Where all can be matched together, a line could go wrong only for a name that
it says nothing about: if the others alone were refused, or the line behind the
one that leaves everything out. -/
theorem actsAlone_iff_of_matchable (h : Path.separator ∉ name.bytes)
    (hm : Matchable globs (lines ++ [line])) :
    ActsAlone globs lines line name ↔
      (Silent line name → (ofLines globs (lines ++ [line])).excludes name = true →
        Matchable globs lines ∧ (KeepsNames line → Matchable globs ["*", line])) := by
  have hall : (ofLines globs (lines ++ [line])).excludes name =
      ((ruling line name).or (lastRuling lines name)).getD false := by
    rw [excludes_of_matchable hm, lastRuling_concat]
  constructor
  · intro hacts hsilent hout
    refine ⟨?_, fun hkeeps => ?_⟩
    · by_contra hlines
      have hsame := hacts.otherwise hsilent
      rw [hout, excludes_of_not_matchable hlines] at hsame
      cases hsame
    · by_contra hstar
      have hkept := hacts.keeps hkeeps (excludes_of_not_matchable hstar name)
      rw [hout] at hkept
      cases hkept
  · intro hcond
    refine ⟨fun hout => ?_, fun hkeeps hstar => ?_, fun hsilent => ?_, isEmpty_of_matchable hm⟩
    · rw [hall, ruling_of_excludes hout]
      rfl
    · rcases hruling : ruling line name with _ | _ | _
      · by_contra hout
        have hmatch := (hcond (silent_iff.2 hruling) (by simpa using hout)).2 hkeeps
        rw [excludes_star h hmatch, hruling] at hstar
        cases hstar
      · rw [hall, hruling]
        rfl
      · exact absurd hruling (hkeeps.ruling_ne name)
    · have hrest : (ofLines globs (lines ++ [line])).excludes name =
          (lastRuling lines name).getD false := by
        rw [hall, silent_iff.1 hsilent, Option.none_or]
      by_cases hlines : Matchable globs lines
      · rw [hrest, excludes_of_matchable hlines]
      · rw [excludes_of_not_matchable hlines]
        by_contra hout
        exact hlines (hcond hsilent (by simpa using hout)).1

/-- Without effect, the lines break two promises: that the others stay in force,
and that a name the line leaves out alone stays left out. They keep both only
where there is nothing to keep. -/
theorem actsAlone_iff_of_not_matchable (hm : ¬ Matchable globs (lines ++ [line])) :
    ActsAlone globs lines line name ↔
      (ofLines globs lines).isEmpty = true ∧ (ofLines globs [line]).excludes name = false := by
  constructor
  · intro hacts
    refine ⟨?_, ?_⟩
    · by_contra hrules
      have hstays := hacts.stays (by simpa using hrules)
      rw [ofLines_of_not_matchable hm] at hstays
      cases hstays
    · by_contra hout
      have hleft := hacts.leavesOut (by simpa using hout)
      rw [excludes_of_not_matchable hm] at hleft
      cases hleft
  · rintro ⟨hrules, hout⟩
    refine ⟨fun hleft => ?_, fun _ _ => ?_, fun _ => ?_, fun hstays => ?_⟩
    · rw [hout] at hleft
      cases hleft
    · exact excludes_of_not_matchable hm name
    · rw [excludes_of_not_matchable hm, excludes_of_isEmpty hrules]
    · rw [hrules] at hstays
      cases hstays

/-- **When a line acts by itself**, whatever globs are refused. Either all the
lines can be matched together, and, if it says nothing about a name that is left
out, so can the others without it and, should it keep names, it behind the line
that leaves everything out; or they cannot, but no other line was in force and it
leaves nothing out alone. It says nothing about a name exactly if it neither
leaves it out alone nor keeps it behind that line. Where the lines cannot be
matched together, no name is left out any more. -/
theorem actsAlone_iff (globs : GlobService) (lines : List String) (line : String) {name : Name}
    (h : Path.separator ∉ name.bytes) :
    (ActsAlone globs lines line name ↔
      Matchable globs (lines ++ [line]) ∧
          (Silent line name → (ofLines globs (lines ++ [line])).excludes name = true →
            Matchable globs lines ∧ (KeepsNames line → Matchable globs ["*", line])) ∨
        ¬ Matchable globs (lines ++ [line]) ∧ (ofLines globs lines).isEmpty = true ∧
          (ofLines globs [line]).excludes name = false) ∧
    (Matchable globs [line] → Matchable globs ["*", line] →
      ((ofLines globs [line]).excludes name = false ∧
          ¬ (KeepsNames line ∧ (ofLines globs ["*", line]).excludes name = false) ↔
        Silent line name)) ∧
    (¬ Matchable globs (lines ++ [line]) → (ofLines globs (lines ++ [line])).isEmpty = true ∧
      ∀ name, (ofLines globs (lines ++ [line])).excludes name = false) := by
  refine ⟨?_, silent_iff_probes h, fun hm => ⟨?_, excludes_of_not_matchable hm⟩⟩
  · by_cases hm : Matchable globs (lines ++ [line])
    · rw [actsAlone_iff_of_matchable h hm]
      exact ⟨fun hcond => Or.inl ⟨hm, hcond⟩, fun hcond =>
        (hcond.resolve_right fun hnot => hnot.1 hm).2⟩
    · rw [actsAlone_iff_of_not_matchable hm]
      exact ⟨fun hcond => Or.inr ⟨hm, hcond⟩, fun hcond =>
        (hcond.resolve_left fun hall => hm hall.1).2⟩
  · rw [ofLines_of_not_matchable hm]
    rfl

/-- A glob of that many groups inside each other. -/
def nestedGroups (depth : Nat) : List Char :=
  List.replicate depth (Char.ofNat 0x7B) ++ 'a' :: List.replicate depth (Char.ofNat 0x7D)

theorem ruleOf_ofList (text : List Char) :
    ruleOf (String.ofList text) = (readLine text).toOption.join := by
  rw [ruleOf, String.toList_ofList]
  cases readLine text <;> rfl

theorem exists_rule_nestedGroups : ∃ rule, ruleOf (.ofList (nestedGroups 300)) = some rule ∧
    rule.glob.needsExpression = true ∧ rule.glob.isTooDeep = true ∧
    appliesTo rule (.ofString "x.o") = false := by
  have h : (readLine (nestedGroups 300)).toOption.join.any (fun rule =>
      rule.glob.needsExpression && rule.glob.isTooDeep &&
        !appliesTo rule (.ofString "x.o")) = true := by
    decide +kernel
  rw [← ruleOf_ofList, Option.any_eq_true] at h
  simpa only [Bool.and_eq_true, Bool.not_eq_true', and_assoc] using h

/-- A glob that nests too deep takes the line before it away. -/
theorem actsAlone_iff_nested :
    Path.separator ∉ (Name.ofString "x.o").bytes ∧
    (ofLines .shallow ["*.o"]).excludes (.ofString "x.o") = true ∧
    Silent (.ofList (nestedGroups 300)) (.ofString "x.o") ∧
    (ofLines .shallow (["*.o"] ++ [.ofList (nestedGroups 300)])).excludes (.ofString "x.o") =
      false ∧
    ¬ ActsAlone .shallow ["*.o"] (.ofList (nestedGroups 300)) (.ofString "x.o") := by
  have hname : Path.separator ∉ (Name.ofString "x.o").bytes := by decide +kernel
  have hbefore : (ofLines .shallow ["*.o"]).excludes (.ofString "x.o") = true := by
    decide +kernel
  have hrules : (ofLines .shallow ["*.o"]).isEmpty = false := by decide +kernel
  obtain ⟨rule, hrule, hneeds, hdeep, happlies⟩ := exists_rule_nestedGroups
  have hm : ¬ Matchable .shallow (["*.o"] ++ [.ofList (nestedGroups 300)]) := by
    intro hm
    have hmem : rule.glob ∈ globsOf (["*.o"] ++ [.ofList (nestedGroups 300)]) :=
      List.mem_map_of_mem (List.mem_filterMap.2 ⟨_, by simp, hrule⟩)
    have hshallow := GlobService.shallow_refusal?_eq_none.1 hm rule.glob hmem hneeds
    rw [hdeep] at hshallow
    cases hshallow
  have hsilent : Silent (.ofList (nestedGroups 300)) (.ofString "x.o") := by
    simp [silent_iff, ruling, hrule, happlies]
  have h := actsAlone_iff .shallow ["*.o"] (.ofList (nestedGroups 300)) hname
  refine ⟨hname, hbefore, hsilent, (h.2.2 hm).2 _, fun hacts => ?_⟩
  rcases h.1.1 hacts with ⟨hall, -⟩ | ⟨-, hempty, -⟩
  · exact hm hall
  · rw [hrules] at hempty
    cases hempty

end Exclusions

end TreeCompare
