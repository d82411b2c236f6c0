import Ambient.Declaration.SourceLink
import Ambient.Proofs.Files.Normal

/-!
# Where source links lead

A link is read from the directory of the output file. Its steps can be read
back from its text (`components_linkText`), so it leads where they lead: back
from that directory as many steps as the directory does not share with the
source file, and then down.

As many steps back lead to what both share if all of them were names. A `..`
is taken back by no `..`: the link counts it as a level to climb, and then leads
to the source file only if the rest of its steps go back to the root in any case
(`normalForm_append_relativeSteps_iff`, and for links
`normalForm_append_sourceLink_iff`).
-/

namespace Ambient

open Ambient.Path Text

variable {cwd output root file : String} {s t steps : List Component} {x : Component}

/-! ## Links as texts -/

/-- The text of a link as written, with no backslash to replace. -/
theorem linkText_eq (hsteps : steps ≠ []) (hback : ∀ x ∈ steps, '\\' ∉ x.text.toList) :
    linkText steps = String.ofList (['/'].intercalate (steps.map fun x => x.text.toList)) := by
  have hchars : ("/".intercalate (steps.map Component.text)).toList =
      ['/'].intercalate (steps.map fun x => x.text.toList) := by
    rw [String.toList_intercalate, List.map_map]
    rfl
  rw [linkText, if_neg (by simpa using hsteps), hchars]
  refine congrArg String.ofList ((List.map_congr_left fun c hc => ?_).trans (List.map_id _))
  refine if_neg ?_
  rintro rfl
  rcases mem_of_mem_intercalate hc with h | ⟨segment, hsegment, h⟩
  · cases h
  · obtain ⟨x, hx, rfl⟩ := List.mem_map.1 hsegment
    exact hback x hx h

theorem segments_linkText (hsteps : steps ≠ []) (hplain : ∀ x ∈ steps, Plain x)
    (hback : ∀ x ∈ steps, '\\' ∉ x.text.toList) :
    segments (linkText steps) = steps.map fun x => x.text.toList := by
  rw [linkText_eq hsteps hback, segments, String.toList_ofList]
  refine List.splitOn_intercalate _ (fun segment hsegment => ?_) (by simpa using hsteps)
  obtain ⟨x, hx, rfl⟩ := List.mem_map.1 hsegment
  exact (hplain x hx).noSlash

/-- **Reading a link.** The steps of a link are the ones it was made of. -/
theorem components_linkText (hplain : ∀ x ∈ steps, Plain x)
    (hback : ∀ x ∈ steps, '\\' ∉ x.text.toList) : components (linkText steps) = steps := by
  by_cases hsteps : steps = []
  · subst hsteps
    decide +kernel
  have hsegments := segments_linkText hsteps hplain hback
  have hnotIdle : ∀ segment ∈ steps.map (fun x => x.text.toList), isIdle segment = false := by
    intro segment hsegment
    obtain ⟨x, hx, rfl⟩ := List.mem_map.1 hsegment
    exact (hplain x hx).notIdle
  have habsolute : isAbsolute (linkText steps) = false := by
    refine Bool.eq_false_iff.2 fun h => ?_
    have hempty := hnotIdle [] (hsegments ▸ nil_mem_segments_of_isAbsolute h)
    cases hempty
  have hkept : (steps.map fun x => x.text.toList).filter (fun s => !isIdle s) =
      steps.map fun x => x.text.toList :=
    List.filter_eq_self.2 fun segment hsegment => by rw [hnotIdle segment hsegment]; rfl
  rw [components, habsolute, hsegments, hkept, List.map_map]
  exact (List.map_congr_left fun x hx => (hplain x hx).read_text).trans (List.map_id _)

/-! ## Relative steps -/

/-- What two lists have in common stands before what is left of either. -/
theorem exists_append_dropCommon (s t : List Component) :
    ∃ common, s = common ++ (dropCommon s t).1 ∧ t = common ++ (dropCommon s t).2 := by
  fun_induction dropCommon s t with
  | case1 s a t ih =>
    obtain ⟨common, hs, ht⟩ := ih
    exact ⟨a :: common, congrArg _ hs, congrArg _ ht⟩
  | case2 => exact ⟨[], rfl, rfl⟩
  | case3 => exact ⟨[], rfl, rfl⟩

@[simp] theorem dropCommon_cons_self (x : Component) (s t : List Component) :
    dropCommon (x :: s) (x :: t) = dropCommon s t := by
  rw [dropCommon, if_pos rfl]

/-- Relative steps climb, or are steps on the way to the file. -/
theorem mem_relativeSteps (h : x ∈ relativeSteps s t) : x = .up ∨ x ∈ t := by
  obtain ⟨common, -, hrest⟩ := exists_append_dropCommon s t
  rw [relativeSteps, List.mem_append] at h
  rcases h with h | h
  · obtain ⟨_, -, rfl⟩ := List.mem_map.1 h
    exact .inl rfl
  · rw [hrest]
    exact .inr (List.mem_append_right _ h)

/-- **Where relative steps lead.** From a directory they lead to the file if
every level to climb is a name, or if what is left of the way to the file goes
back to the root in any case; else they lead elsewhere. -/
theorem normalForm_append_relativeSteps_iff (hs : .root ∉ s) (ht : .root ∉ t) :
    normalForm (.root :: s ++ relativeSteps (.root :: s) (.root :: t)) =
        normalForm (.root :: t) ↔
      .up ∉ (dropCommon (.root :: s) (.root :: t)).1 ∨
        normalForm (.root :: (dropCommon (.root :: s) (.root :: t)).2) =
          normalForm (.root :: t) := by
  obtain ⟨common, hown, hrest⟩ := exists_append_dropCommon s t
  rw [relativeSteps, dropCommon_cons_self]
  generalize dropCommon s t = parts at hown hrest
  obtain ⟨own, rest⟩ := parts
  subst hown hrest
  rw [List.mem_append, not_or] at hs ht
  have hclimb : (.root :: (common ++ own) ++ (own.map (fun _ => Component.up) ++ rest)).foldl
      descend [] = rest.foldl descend ((common.foldl descend []).drop (2 * own.count .up)) := by
    rw [← foldl_descend_climb hs.2]
    simp [descend]
  have hdown : (.root :: (common ++ rest)).foldl descend [] =
      rest.foldl descend (common.foldl descend []) := by
    simp [descend]
  have hcount : 2 * own.count .up = 0 ↔ .up ∉ own := by
    rw [← List.count_eq_zero]
    omega
  simp only [normalForm, List.reverse_inj, hclimb, hdown, foldl_descend_drop_eq_iff ht.2, hcount]
  rfl

/-! ## Source links -/

/-- The directory of the output file is seen from the root. -/
theorem exists_outputDirectory_eq (h : isAbsolute cwd) (output : String) :
    ∃ steps, outputDirectory cwd output = .root :: steps ∧ .root ∉ steps := by
  obtain ⟨steps, hsteps, hroot⟩ :=
    exists_components_eq (isAbsolute_join_of_isAbsolute output h)
  rw [outputDirectory, hsteps]
  split
  · exact exists_components_eq h
  · rename_i hne
    refine ⟨steps.dropLast, List.dropLast_cons_of_ne_nil fun hnil => hne ?_, fun hmem =>
      hroot (List.dropLast_subset _ hmem)⟩
    rw [hnil]

/-- A source link is read as the steps from the directory of the output file to
the source file. -/
theorem components_sourceLink (hcwd : isAbsolute cwd) (output : String)
    (hcwdBack : '\\' ∉ cwd.toList) (hrootBack : '\\' ∉ root.toList)
    (hfileBack : '\\' ∉ file.toList) :
    components (sourceLink cwd output root file) =
      relativeSteps (outputDirectory cwd output) (components (join (join cwd root) file)) := by
  have hback : '\\' ∉ (join (join cwd root) file).toList := by
    intro h
    rcases mem_join h with h | h | h
    · rcases mem_join h with h | h | h
      · exact hcwdBack h
      · exact hrootBack h
      · cases h
    · exact hfileBack h
    · cases h
  obtain ⟨s, hs, -⟩ := exists_outputDirectory_eq hcwd output
  obtain ⟨t, ht, htroot⟩ := exists_components_eq (isAbsolute_join_of_isAbsolute file
    (isAbsolute_join_of_isAbsolute root hcwd))
  have hstep : ∀ x ∈ relativeSteps (.root :: s) (.root :: t),
      Plain x ∧ '\\' ∉ x.text.toList := by
    intro x hx
    rw [relativeSteps, dropCommon_cons_self, ← relativeSteps] at hx
    rcases mem_relativeSteps hx with rfl | hx
    · exact ⟨plain_up, by decide +kernel⟩
    · obtain ⟨hplain, hsubset⟩ := of_mem_components (ht ▸ List.mem_cons_of_mem _ hx)
        (fun h => htroot (h ▸ hx))
      exact ⟨hplain, fun h => hback (hsubset h)⟩
  rw [sourceLink, hs, ht]
  exact components_linkText (fun x hx => (hstep x hx).1) fun x hx => (hstep x hx).2

/-- **Where source links lead.** Read from the directory of the output file, the
link leads to the source file exactly if no `..` is left in that directory behind
what both share, or the rest of the way goes back to the root in any case. -/
theorem normalForm_append_sourceLink_iff (hcwd : isAbsolute cwd)
    (hcwdBack : '\\' ∉ cwd.toList) (hrootBack : '\\' ∉ root.toList)
    (hfileBack : '\\' ∉ file.toList) :
    let directory := outputDirectory cwd output
    let source := components (join (join cwd root) file)
    normalForm (directory ++ components (sourceLink cwd output root file)) = normalForm source ↔
      .up ∉ (dropCommon directory source).1 ∨
        normalForm (.root :: (dropCommon directory source).2) = normalForm source := by
  obtain ⟨s, hs, hsroot⟩ := exists_outputDirectory_eq hcwd output
  obtain ⟨t, ht, htroot⟩ := exists_components_eq (isAbsolute_join_of_isAbsolute file
    (isAbsolute_join_of_isAbsolute root hcwd))
  intro directory source
  simp only [directory, source]
  rw [components_sourceLink hcwd output hcwdBack hrootBack hfileBack, hs, ht]
  exact normalForm_append_relativeSteps_iff hsroot htroot

/-- A way back that the output directory shares with the source file is not
climbed; one in front of the source file is kept. -/
theorem normalForm_append_sourceLink_beside :
    sourceLink "/w/../x" "types/out.d.ts" "../lib" "a/B.js" = "../../lib/a/B.js" ∧
      normalForm (outputDirectory "/w/../x" "types/out.d.ts" ++
          components (sourceLink "/w/../x" "types/out.d.ts" "../lib" "a/B.js")) =
        normalForm (components (join (join "/w/../x" "../lib") "a/B.js")) :=
  ⟨by decide +kernel,
    (normalForm_append_sourceLink_iff (by decide +kernel) (by decide +kernel) (by decide +kernel)
      (by decide +kernel)).2 (.inl (by decide +kernel))⟩

/-- A way back that the output directory does not share is counted as a level to
climb: the link leads two levels too high, to `/src/a/B.js`. -/
theorem normalForm_append_sourceLink_ne :
    sourceLink "/w" "sub/../out.d.ts" "src" "a/B.js" = "../../src/a/B.js" ∧
      normalForm (outputDirectory "/w" "sub/../out.d.ts" ++
          components (sourceLink "/w" "sub/../out.d.ts" "src" "a/B.js")) ≠
        normalForm (components (join (join "/w" "src") "a/B.js")) := by
  decide +kernel

end Ambient
