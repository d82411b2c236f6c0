import Ambient.Annotation.Alias
import Ambient.Declaration.Config
import Ambient.Proofs.Annotation.Order

/-!
# Where an alias is replaced

One pass replaces an alias that stands on its own (`StandsAlone`), and there
is a pass to make exactly when the text has one
(`substituteOnce?_eq_none_iff`). With the bundled aliases every pass lets
the text rise, so the passes together rewrite the texts that have an alias
(`rewrites_substitute`).
-/

namespace Ambient.Annotation

open Text

variable {aliases : Aliases} {before name target after s r : List Char} {c : Char}

/-- An alias of the table between two parts of a text that do not continue
it. -/
structure StandsAlone (aliases : Aliases) (before name target after : List Char) : Prop where
  mem : (name, target) ∈ aliases
  starts : ∀ c ∈ before.getLast?, isTokenChar c = false
  ends : endsAlias after

/-- And no alias stands on its own further left. -/
structure StandsFirst (aliases : Aliases) (before name target after : List Char) : Prop
    extends StandsAlone aliases before name target after where
  first : ∀ {b n t a}, before ++ name ++ after = b ++ n ++ a → StandsAlone aliases b n t a →
    before.length ≤ b.length

/-- The text has an alias that stands on its own. -/
def HasAlias (aliases : Aliases) (s : List Char) : Prop :=
  ∃ before name target after,
    s = before ++ name ++ after ∧ StandsAlone aliases before name target after

theorem aliasAt?_eq_some (h : aliasAt? aliases s = some r) :
    ∃ name target after, s = name ++ after ∧ r = target ++ after ∧ (name, target) ∈ aliases ∧
      endsAlias after := by
  obtain ⟨⟨name, target⟩, hmem, hhit⟩ := List.exists_of_findSome?_eq_some h
  obtain ⟨after, hafter, hr⟩ := Option.bind_eq_some_iff.1 hhit
  split at hr
  · rename_i hends
    exact ⟨name, target, after, after?_eq_some_iff.1 hafter, (Option.some.inj hr).symm, hmem, hends⟩
  · cases hr

theorem aliasAt?_ne_none (hmem : (name, target) ∈ aliases) (hends : endsAlias after) :
    aliasAt? aliases (name ++ after) ≠ none := by
  intro h
  have hname := List.findSome?_eq_none_iff.1 h _ hmem
  simp [hends] at hname

/-- What is replaced behind the first character: the leftmost alias there. -/
theorem aliasWithin?_eq_some (h : aliasWithin? aliases s = some r) :
    ∃ before name target after, before ≠ [] ∧ s = before ++ name ++ after ∧
      r = before ++ target ++ after ∧ StandsAlone aliases before name target after ∧
      ∀ b n t a, b ≠ [] → s = b ++ n ++ a → StandsAlone aliases b n t a →
        before.length ≤ b.length := by
  induction s generalizing r with
  | nil => cases h
  | cons c s ih =>
    rw [aliasWithin?] at h
    split at h
    · -- an alias right behind the first character
      rename_i s' hs'
      cases hc : isTokenChar c with
      | true => simp [hc] at hs'
      | false =>
        simp only [hc, Bool.false_eq_true, if_false] at hs'
        obtain ⟨name, target, after, rfl, rfl, hmem, hends⟩ := aliasAt?_eq_some hs'
        refine ⟨[c], name, target, after, by simp, rfl, (Option.some.inj h).symm,
          ⟨hmem, by simpa using hc, hends⟩, ?_⟩
        intro b n t a hb _ _
        exact List.length_pos_iff.2 hb
    · rename_i hnone
      obtain ⟨r', hr', rfl⟩ := Option.map_eq_some_iff.1 h
      obtain ⟨before, name, target, after, hne, rfl, rfl, halone, hfirst⟩ := ih hr'
      refine ⟨c :: before, name, target, after, by simp, rfl, rfl, ⟨halone.mem, ?_, halone.ends⟩,
        ?_⟩
      · obtain ⟨d, before, rfl⟩ := List.exists_cons_of_ne_nil hne
        simpa [List.getLast?_cons_cons] using halone.starts
      · rintro (_ | ⟨d, b⟩) n t a hb heq hother
        · exact absurd rfl hb
        obtain ⟨rfl, htail⟩ := List.cons.inj heq
        cases b with
        | nil =>
          -- then the alias would have been found right behind the first character
          have hc : isTokenChar c = false := hother.starts c (by simp)
          rw [hc, htail] at hnone
          exact absurd hnone (aliasAt?_ne_none hother.mem hother.ends)
        | cons d b =>
          have hstarts : ∀ e ∈ (d :: b).getLast?, isTokenChar e = false := by
            simpa [List.getLast?_cons_cons] using hother.starts
          have hle := hfirst (d :: b) n t a (by simp) htail ⟨hother.mem, hstarts, hother.ends⟩
          simpa using hle

theorem aliasWithin?_ne_none (hne : before ≠ [])
    (h : StandsAlone aliases before name target after) :
    aliasWithin? aliases (before ++ name ++ after) ≠ none := by
  induction before with
  | nil => exact absurd rfl hne
  | cons c before ih =>
    rw [List.cons_append, List.cons_append, aliasWithin?]
    split
    · simp
    · rename_i hnone
      rw [ne_eq, Option.map_eq_none_iff]
      cases before with
      | nil =>
        -- the alias starts right behind this character
        have hc : isTokenChar c = false := h.starts c (by simp)
        rw [hc] at hnone
        exact absurd hnone (aliasAt?_ne_none h.mem h.ends)
      | cons d before =>
        exact ih (by simp) ⟨h.mem, by simpa [List.getLast?_cons_cons] using h.starts, h.ends⟩

/-- **One pass replaces the leftmost alias that stands on its own.** -/
theorem substituteOnce?_eq_some_first (h : substituteOnce? aliases s = some r) :
    ∃ before name target after, s = before ++ name ++ after ∧ r = before ++ target ++ after ∧
      StandsFirst aliases before name target after := by
  rcases Option.or_eq_some_iff.1 h with h | ⟨hnone, h⟩
  · obtain ⟨name, target, after, rfl, rfl, hmem, hends⟩ := aliasAt?_eq_some h
    exact ⟨[], name, target, after, rfl, rfl, ⟨hmem, by simp, hends⟩, fun _ _ => Nat.zero_le _⟩
  · obtain ⟨before, name, target, after, -, rfl, hr, halone, hfirst⟩ := aliasWithin?_eq_some h
    refine ⟨before, name, target, after, rfl, hr, halone, ?_⟩
    intro b n t a heq hother
    cases b with
    | nil =>
      rw [heq] at hnone
      exact absurd hnone (aliasAt?_ne_none hother.mem hother.ends)
    | cons d b => exact hfirst (d :: b) n t a (by simp) heq hother

theorem substituteOnce?_eq_some (h : substituteOnce? aliases s = some r) :
    ∃ before name target after, s = before ++ name ++ after ∧ r = before ++ target ++ after ∧
      StandsAlone aliases before name target after := by
  obtain ⟨before, name, target, after, hs, hr, hfirst⟩ := substituteOnce?_eq_some_first h
  exact ⟨before, name, target, after, hs, hr, hfirst.toStandsAlone⟩

/-- And there is none to make exactly when there is no such alias. -/
theorem substituteOnce?_eq_none_iff : substituteOnce? aliases s = none ↔ ¬ HasAlias aliases s := by
  constructor
  · rintro h ⟨before, name, target, after, rfl, halone⟩
    obtain ⟨hat, hwithin⟩ := Option.or_eq_none_iff.1 h
    cases before with
    | nil => exact aliasAt?_ne_none halone.mem halone.ends hat
    | cons c before => exact aliasWithin?_ne_none (by simp) halone hwithin
  · intro h
    cases hr : substituteOnce? aliases s with
    | none => rfl
    | some r =>
      obtain ⟨before, name, target, after, hs, -, halone⟩ := substituteOnce?_eq_some hr
      exact absurd ⟨before, name, target, after, hs, halone⟩ h

instance : Decidable (HasAlias aliases s) :=
  decidable_of_iff (substituteOnce? aliases s ≠ none) (by
    rw [ne_eq, substituteOnce?_eq_none_iff, Classical.not_not])

/-- What every pass preserves is preserved by all of them. -/
theorem substitute_induction {motive : List Char → Prop}
    (pass : ∀ s r, motive s → substituteOnce? aliases s = some r → motive r) (h : motive s) :
    motive (substitute aliases s) := by
  rw [substitute]
  induction passLimit generalizing s with
  | zero => exact h
  | succ passes ih =>
    rw [substitutePasses]
    split
    · rename_i r hr
      exact ih (pass s r h hr)
    · exact h

/-- Without an alias every number of passes changes nothing. -/
theorem substitutePasses_eq_self (h : ¬ HasAlias aliases s) (passes : Nat) :
    substitutePasses aliases passes s = s := by
  cases passes with
  | zero => rfl
  | succ passes => rw [substitutePasses, substituteOnce?_eq_none_iff.2 h]

/-! ## The bundled aliases -/

/-- The bundled aliases. -/
def bundledAliases : Aliases := .ofTable Config.default.aliases

/-- Each of them stands lower than what it stands for. -/
theorem risesWithin_of_mem_bundled (h : (name, target) ∈ bundledAliases) :
    risesWithin none name target := by
  have hall : ∀ a ∈ bundledAliases, risesWithin none a.1 a.2 = true := by decide +kernel
  exact hall _ h

/-- So a pass lets the text rise. -/
theorem rises_of_substituteOnce? (h : substituteOnce? bundledAliases s = some r) :
    Rises none s r := by
  obtain ⟨before, name, target, after, rfl, rfl, halone⟩ := substituteOnce?_eq_some h
  rw [List.append_assoc, List.append_assoc]
  refine .append_left before (.of_none (rises_of_risesWithin
    (risesWithin_of_mem_bundled halone.mem) _ _) ?_)
  -- an `e` before the alias would continue it
  intro he
  have hlast : 'e' ∈ before.getLast? := by simpa using he
  exact absurd (halone.starts _ hlast) (by decide)

theorem not_nullable_substitute (h : '?' ∉ s) : '?' ∉ substitute bundledAliases s := by
  have hall : ∀ a ∈ bundledAliases, '?' ∉ a.2 := by decide +kernel
  refine substitute_induction (motive := fun s => '?' ∉ s) (fun s r hs hr => ?_) h
  obtain ⟨before, name, target, after, rfl, rfl, halone⟩ := substituteOnce?_eq_some hr
  have htarget : '?' ∉ target := hall _ halone.mem
  simp only [List.mem_append, not_or] at hs ⊢
  exact ⟨⟨hs.1.1, htarget⟩, hs.2⟩

theorem climbs_substitutePasses (passes : Nat) :
    Climbs s (substitutePasses bundledAliases passes s) := by
  induction passes generalizing s with
  | zero => exact .inl rfl
  | succ passes ih =>
    rw [substitutePasses]
    split
    · rename_i r hr
      exact .trans (.inr (rises_of_substituteOnce? hr)) ih
    · exact .inl rfl

/-- **The aliases rewrite the texts that have one.** -/
theorem rewrites_substitute : Rewrites (substitute bundledAliases) (HasAlias bundledAliases) where
  rises s h := by
    cases hr : substituteOnce? bundledAliases s with
    | none => exact absurd h (substituteOnce?_eq_none_iff.1 hr)
    | some r =>
      rw [substitute, passLimit, substitutePasses, hr]
      exact (rises_of_substituteOnce? hr).trans_climbs (climbs_substitutePasses 255)
  settled _ h := substitutePasses_eq_self h passLimit

end Ambient.Annotation
