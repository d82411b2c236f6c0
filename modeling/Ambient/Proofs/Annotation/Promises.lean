import Ambient.Proofs.Annotation.Settled
import Ambient.Proofs.Annotation.Standing

/-!
# Which promises are qualified

Of the promises of a text that are still open, each is qualified unless it
opens right behind the bracket of one that was: that bracket belongs to the
hit before (`openPromises_replaceEach_eq_zero_iff`). None is lost, and none is
qualified twice. The steps behind keep promises where they are. So an
annotation that names no class maps to a type with an open promise exactly
when one promise opens directly in another one that is open
(`opensPromise_mapType_iff`).
-/

namespace Ambient.Annotation

open Text

variable {m : Mapper} {word s t r : List Char} {c : Char} {previous : Option Char}

/-! ## The promises of a text -/

/-- A character that can stand before a promise of its own. -/
def boundsPromise (c : Char) : Bool := !continuesPromise c

/-- Any character. -/
def anyChar (_ : Char) : Bool := true

/-- The number of promises that open behind no character that continues
them. -/
def openPromises (s : List Char) : Nat :=
  standing boundsPromise promiseOpen none s

/-- The number of promises of the global scope. -/
def qualifiedPromises (s : List Char) : Nat :=
  standing anyChar globalPromise none s

/-- The number of promises that are qualified twice. -/
def requalifiedPromises (s : List Char) : Nat :=
  standing anyChar (globalScope ++ globalPromise) none s

/-- A promise opens right behind the bracket of one that is open. -/
def NestsPromise (s : List Char) : Prop :=
  ∃ before after, s = before ++ (promiseOpen ++ promiseOpen) ++ after ∧
    ∀ c ∈ before.getLast?, continuesPromise c = false

theorem all_boundsPromise_iff :
    previous.all boundsPromise ↔ ∀ c ∈ previous, continuesPromise c = false := by
  cases previous <;> simp [boundsPromise]

theorem openPromises_ne_zero_iff : openPromises s ≠ 0 ↔ OpensPromise s := by
  rw [openPromises, standing_ne_zero_iff (by decide)]
  simp only [Option.or_none, all_boundsPromise_iff]
  rfl

theorem nestsPromise_iff :
    NestsPromise s ↔ standing boundsPromise (promiseOpen ++ promiseOpen) none s ≠ 0 := by
  rw [standing_ne_zero_iff (by decide)]
  simp only [Option.or_none, all_boundsPromise_iff]
  rfl

instance : Decidable (NestsPromise s) :=
  decidable_of_iff _ nestsPromise_iff.symm

/-! ## Qualifying as a recursion -/

/-- Below the head of a text, promises are qualified hit by hit. -/
theorem replaceEach_promise (hc : continuesPromise c = false) (r : List Char) :
    replaceEach promiseHit? 0 (c :: (promiseOpen ++ r)) =
      c :: (globalPromise ++ replaceEach promiseHit? 0 r) := by
  have hhit : promiseHit? (c :: (promiseOpen ++ r)) =
      some ⟨c :: globalPromise, 1 + promiseOpen.length⟩ := by
    simp [promiseHit?, hc]
  rw [replaceEach, hhit]
  dsimp only
  rw [Nat.add_sub_cancel_left, replaceEach_covered, List.drop_left, List.cons_append]

theorem replaceEach_of_not_hit (h : promiseHit? (c :: s) = none) :
    replaceEach promiseHit? 0 (c :: s) = c :: replaceEach promiseHit? 0 s := by
  rw [replaceEach, h]

/-- A text is taken apart at the promises that are qualified. -/
theorem promises_induction {motive : List Char → Prop} (nil : motive [])
    (kept : ∀ c s, promiseHit? (c :: s) = none → motive s → motive (c :: s))
    (promise : ∀ c r, continuesPromise c = false → motive r → motive (c :: (promiseOpen ++ r)))
    (s : List Char) : motive s := by
  induction hn : s.length using Nat.strongRecOn generalizing s with
  | ind n ih =>
    subst hn
    cases s with
    | nil => exact nil
    | cons c s =>
      cases hhit : promiseHit? (c :: s) with
      | none => exact kept c s hhit (ih s.length (by simp) s rfl)
      | some hit =>
        obtain ⟨d, r, heq, hd, -⟩ := promiseHit?_eq_some hhit
        cases heq
        refine promise c r hd (ih r.length ?_ r rfl)
        simp only [List.length_cons, List.length_append]
        omega

/-- Behind a character that does not continue it the head of a text is no
exception. -/
theorem replaceEach_cons_eq (hc : continuesPromise c = false) (s : List Char) :
    replaceEach promiseHit? 0 (c :: s) = c :: qualifyPromises s := by
  rw [qualifyPromises]
  split
  · rename_i rest hrest
    rw [after?_eq_some_iff.1 hrest, replaceEach_promise hc]
  · rename_i hnone
    exact replaceEach_of_not_hit (by simp [promiseHit?, hc, hnone])

/-- Nothing is brought in behind a letter, so a word of letters stands at the
head of a text before and after. -/
theorem prefix_replaceEach_iff (hword : word.dropLast.all continuesPromise) :
    word <+: replaceEach promiseHit? 0 s ↔ word <+: s := by
  rw [List.all_eq_true] at hword
  induction s using promises_induction generalizing word with
  | nil => rfl
  | kept c s hhit ih =>
    rw [replaceEach_of_not_hit hhit]
    cases word with
    | nil => simp
    | cons d word =>
      rw [List.cons_prefix_cons, List.cons_prefix_cons, ih]
      intro x hx
      obtain ⟨y, word, rfl⟩ := List.exists_cons_of_ne_nil (l := word) (by rintro rfl; cases hx)
      exact hword x (List.mem_cons_of_mem d hx)
  | promise c r hc ih =>
    rw [replaceEach_promise hc]
    cases word with
    | nil => simp
    | cons d word =>
      rw [List.cons_prefix_cons, List.cons_prefix_cons]
      refine and_congr_right fun hd => ?_
      -- the character before the promise could only be the last of the word
      cases word with
      | nil => simp
      | cons e word =>
        rw [hword c (by simp [hd])] at hc
        cases hc

theorem prefix_cons_replaceEach_iff (hword : word.dropLast.all continuesPromise)
    (hhit : promiseHit? (c :: s) = none) :
    word <+: c :: replaceEach promiseHit? 0 s ↔ word <+: c :: s := by
  rw [← replaceEach_of_not_hit hhit, prefix_replaceEach_iff hword]

/-! ## Counting promises hit by hit -/

theorem standing_promiseOpen_promiseOpen (previous : Option Char) (s : List Char) :
    standing boundsPromise promiseOpen previous (promiseOpen ++ s) =
      (if previous.all boundsPromise then 1 else 0) +
        standing boundsPromise promiseOpen (some '<') s :=
  standing_word_append rfl (by decide)

theorem standing_promiseOpen_globalPromise (previous : Option Char) (s : List Char) :
    standing boundsPromise promiseOpen previous (globalPromise ++ s) =
      standing boundsPromise promiseOpen (some '<') s := by
  have hscope : globalPromise = globalScope ++ promiseOpen := rfl
  have hdot : globalScope.getLast?.or previous = some '.' := rfl
  rw [hscope, List.append_assoc, standing_append_of_notMem_head (f := 'P') rfl (by decide), hdot,
    standing_promiseOpen_promiseOpen, if_neg (by decide), Nat.zero_add]

theorem standing_globalPromise_promiseOpen (previous : Option Char) (s : List Char) :
    standing anyChar globalPromise previous (promiseOpen ++ s) =
      standing anyChar globalPromise (some '<') s :=
  standing_append_of_notMem_head (f := 'g') rfl (by decide)

theorem standing_globalPromise_globalPromise (previous : Option Char) (s : List Char) :
    standing anyChar globalPromise previous (globalPromise ++ s) =
      1 + standing anyChar globalPromise (some '<') s := by
  have hany : previous.all anyChar := by cases previous <;> rfl
  have hcount : standing anyChar globalPromise previous (globalPromise ++ s) =
      (if previous.all anyChar then 1 else 0) + standing anyChar globalPromise (some '<') s :=
    standing_word_append (f := 'g') rfl (by decide)
  rwa [if_pos hany] at hcount

theorem standing_requalified_promiseOpen (previous : Option Char) (s : List Char) :
    standing anyChar (globalScope ++ globalPromise) previous (promiseOpen ++ s) =
      standing anyChar (globalScope ++ globalPromise) (some '<') s :=
  standing_append_of_notMem_head (f := 'g') rfl (by decide)

/-- A promise that is qualified once is not qualified twice. -/
theorem standing_requalified_globalPromise (previous : Option Char) (s : List Char) :
    standing anyChar (globalScope ++ globalPromise) previous (globalPromise ++ s) =
      standing anyChar (globalScope ++ globalPromise) (some '<') s := by
  have hhead : ¬ globalScope ++ globalPromise <+: globalPromise ++ s := by
    intro h
    have hscope : globalPromise ++ s = globalScope ++ (promiseOpen ++ s) := rfl
    rw [hscope, List.prefix_append_right_inj] at h
    have hfirst : 'g' = 'P' := (List.cons_prefix_cons.1 h).1
    exact absurd hfirst (by decide)
  have hcons : globalPromise ++ s = 'g' :: ("lobalThis.Promise<".toList ++ s) := rfl
  rw [hcons] at hhead ⊢
  rw [standing, if_neg fun h => hhead h.2, Nat.zero_add,
    standing_append_of_notMem_head (f := 'g') rfl (by decide)]
  rfl

theorem standing_nested_promiseOpen (previous : Option Char) (s : List Char) :
    standing boundsPromise (promiseOpen ++ promiseOpen) previous (promiseOpen ++ s) =
      (if previous.all boundsPromise ∧ promiseOpen <+: s then 1 else 0) +
        standing boundsPromise (promiseOpen ++ promiseOpen) (some '<') s := by
  have hcons : promiseOpen ++ s = 'P' :: ("romise<".toList ++ s) := rfl
  have hhead : promiseOpen ++ promiseOpen <+: 'P' :: ("romise<".toList ++ s) ↔
      promiseOpen <+: s := by
    rw [← hcons, List.prefix_append_right_inj]
  rw [hcons, standing, standing_append_of_notMem_head (f := 'P') rfl (by decide)]
  simp only [hhead]
  rfl

theorem ne_of_not_continuesPromise {d : Char} (hc : continuesPromise c = false)
    (hd : continuesPromise d = true) : c ≠ d := by
  rintro rfl
  rw [hc] at hd
  cases hd

/-- **No promise is lost**: what was open is qualified or still open. -/
theorem openPromises_add_replaceEach (previous : Option Char) (s : List Char) :
    standing boundsPromise promiseOpen previous (replaceEach promiseHit? 0 s) +
        standing anyChar globalPromise previous (replaceEach promiseHit? 0 s) =
      standing boundsPromise promiseOpen previous s +
        standing anyChar globalPromise previous s := by
  induction s using promises_induction generalizing previous with
  | nil => rfl
  | kept c s hhit ih =>
    have hopen : promiseOpen <+: c :: replaceEach promiseHit? 0 s ↔ promiseOpen <+: c :: s :=
      prefix_cons_replaceEach_iff (by decide) hhit
    have hglobal :
        globalPromise <+: c :: replaceEach promiseHit? 0 s ↔ globalPromise <+: c :: s :=
      prefix_cons_replaceEach_iff (by decide) hhit
    have hrest := ih (some c)
    rw [replaceEach_of_not_hit hhit]
    simp only [standing, hopen, hglobal]
    omega
  | promise c r hc ih =>
    have hP : c ≠ 'P' := ne_of_not_continuesPromise hc (by decide)
    have hg : c ≠ 'g' := ne_of_not_continuesPromise hc (by decide)
    have hbound : (some c).all boundsPromise := by simp [boundsPromise, hc]
    have hrest := ih (some '<')
    rw [replaceEach_promise hc, standing_cons_of_ne (f := 'P') rfl hP,
      standing_cons_of_ne (f := 'g') rfl hg, standing_cons_of_ne (f := 'P') rfl hP,
      standing_cons_of_ne (f := 'g') rfl hg, standing_promiseOpen_globalPromise,
      standing_globalPromise_globalPromise, standing_promiseOpen_promiseOpen,
      standing_globalPromise_promiseOpen, if_pos hbound]
    omega

/-- **And none is qualified twice** that was not. -/
theorem requalifiedPromises_replaceEach (previous : Option Char) (s : List Char) :
    standing anyChar (globalScope ++ globalPromise) previous (replaceEach promiseHit? 0 s) =
      standing anyChar (globalScope ++ globalPromise) previous s := by
  induction s using promises_induction generalizing previous with
  | nil => rfl
  | kept c s hhit ih =>
    have hhead : globalScope ++ globalPromise <+: c :: replaceEach promiseHit? 0 s ↔
        globalScope ++ globalPromise <+: c :: s :=
      prefix_cons_replaceEach_iff (by decide) hhit
    rw [replaceEach_of_not_hit hhit]
    simp only [standing, hhead, ih]
  | promise c r hc ih =>
    have hg : c ≠ 'g' := ne_of_not_continuesPromise hc (by decide)
    rw [replaceEach_promise hc, standing_cons_of_ne (f := 'g') rfl hg,
      standing_cons_of_ne (f := 'g') rfl hg, standing_requalified_globalPromise,
      standing_requalified_promiseOpen, ih]

/-- **What stays open** is a promise at the head of the text, and one that opens
right behind another that was open. -/
theorem openPromises_replaceEach_eq_zero_iff (previous : Option Char) (s : List Char) :
    standing boundsPromise promiseOpen previous (replaceEach promiseHit? 0 s) = 0 ↔
      ¬ (previous.all boundsPromise ∧ promiseOpen <+: s) ∧
        standing boundsPromise (promiseOpen ++ promiseOpen) previous s = 0 := by
  induction s using promises_induction generalizing previous with
  | nil =>
    have hnil : ¬ promiseOpen <+: [] := by decide
    exact iff_of_true rfl ⟨fun h => hnil h.2, rfl⟩
  | kept c s hhit ih =>
    have hopen : promiseOpen <+: c :: replaceEach promiseHit? 0 s ↔ promiseOpen <+: c :: s :=
      prefix_cons_replaceEach_iff (by decide) hhit
    have hnone : ¬ ((some c).all boundsPromise ∧ promiseOpen <+: s) := by
      rintro ⟨hbound, r, rfl⟩
      have hsome := isSome_promiseHit? (c := c) (by simpa [boundsPromise] using hbound) r
      rw [hhit] at hsome
      cases hsome
    have hrest := (ih (some c)).trans (and_iff_right hnone)
    rw [replaceEach_of_not_hit hhit]
    simp only [standing, hopen]
    by_cases hhead : previous.all boundsPromise ∧ promiseOpen <+: c :: s
    · rw [if_pos hhead]
      exact iff_of_false (by omega) fun h => h.1 hhead
    · -- two promises at the head would be one at the head
      have htwo : ¬ (previous.all boundsPromise ∧ promiseOpen ++ promiseOpen <+: c :: s) :=
        fun h => hhead ⟨h.1, (List.prefix_append _ _).trans h.2⟩
      rw [if_neg hhead, if_neg htwo, Nat.zero_add, Nat.zero_add, hrest, and_iff_right hhead]
  | promise c r hc ih =>
    have hP : c ≠ 'P' := ne_of_not_continuesPromise hc (by decide)
    have hbound : (some c).all boundsPromise := by simp [boundsPromise, hc]
    have hbracket : (some '<').all boundsPromise := by decide
    have hhead : ¬ (previous.all boundsPromise ∧ promiseOpen <+: c :: (promiseOpen ++ r)) :=
      fun h => hP (List.cons_prefix_cons.1 h.2).1.symm
    rw [replaceEach_promise hc, standing_cons_of_ne (f := 'P') rfl hP,
      standing_promiseOpen_globalPromise, ih, standing_cons_of_ne (f := 'P') rfl hP,
      standing_nested_promiseOpen, and_iff_right hhead]
    by_cases hnext : promiseOpen <+: r
    · rw [if_pos ⟨hbound, hnext⟩]
      exact iff_of_false (fun h => h.1 ⟨hbracket, hnext⟩) (by omega)
    · rw [if_neg fun h => hnext h.2, Nat.zero_add, and_iff_right fun h => hnext h.2]

/-! ## The promises of a type -/

/-- A blank before the text changes no count. -/
theorem standing_blank_cons {free : Char → Bool} {f : Char} (hf : word.head? = some f)
    (hblank : ' ' ≠ f) (hfree : free ' ' = true) :
    standing free word none (' ' :: s) = standing free word none s := by
  rw [standing_cons_of_ne hf hblank]
  exact standing_congr_previous (by simp [hfree])

/-- So what holds below the head holds of the whole text. -/
theorem standing_qualifyPromises {free : Char → Bool} {f : Char} (hf : word.head? = some f)
    (hblank : ' ' ≠ f) (hfree : free ' ' = true) :
    standing free word none (qualifyPromises s) =
      standing free word none (replaceEach promiseHit? 0 (' ' :: s)) := by
  rw [replaceEach_cons_eq (by decide), standing_blank_cons hf hblank hfree]

theorem openPromises_add_qualifyPromises (s : List Char) :
    openPromises (qualifyPromises s) + qualifiedPromises (qualifyPromises s) =
      openPromises s + qualifiedPromises s := by
  have hopen : openPromises s = standing boundsPromise promiseOpen none (' ' :: s) :=
    (standing_blank_cons (f := 'P') rfl (by decide) rfl).symm
  have hglobal : qualifiedPromises s = standing anyChar globalPromise none (' ' :: s) :=
    (standing_blank_cons (f := 'g') rfl (by decide) rfl).symm
  rw [openPromises, qualifiedPromises, standing_qualifyPromises (f := 'P') rfl (by decide) rfl,
    standing_qualifyPromises (f := 'g') rfl (by decide) rfl, openPromises_add_replaceEach, hopen,
    hglobal]

theorem requalifiedPromises_qualifyPromises (s : List Char) :
    requalifiedPromises (qualifyPromises s) = requalifiedPromises s := by
  rw [requalifiedPromises, standing_qualifyPromises (f := 'g') rfl (by decide) rfl,
    requalifiedPromises_replaceEach, standing_blank_cons (f := 'g') rfl (by decide) rfl]
  rfl

theorem opensPromise_qualifyPromises_iff : OpensPromise (qualifyPromises s) ↔ NestsPromise s := by
  have hnone : ¬ ((none : Option Char).all boundsPromise ∧ promiseOpen <+: ' ' :: s) := by
    rintro ⟨-, h⟩
    exact absurd (List.cons_prefix_cons.1 h).1 (by decide)
  rw [← openPromises_ne_zero_iff, nestsPromise_iff, openPromises,
    standing_qualifyPromises (f := 'P') rfl (by decide) rfl, ne_eq,
    openPromises_replaceEach_eq_zero_iff, and_iff_right hnone,
    standing_blank_cons (f := 'P') rfl (by decide) rfl]

theorem stays_promiseOpen : Stays boundsPromise promiseOpen :=
  ⟨List.all_eq_true.1 (by decide), by decide, by decide, by decide, ⟨'P', by decide⟩, by decide⟩

theorem stays_globalPromise : Stays anyChar globalPromise :=
  ⟨List.all_eq_true.1 (by decide), by decide, by decide, by decide, ⟨'g', by decide⟩, by decide⟩

theorem stays_requalified : Stays anyChar (globalScope ++ globalPromise) :=
  ⟨List.all_eq_true.1 (by decide), by decide, by decide, by decide, ⟨'g', by decide⟩, by decide⟩

/-- The steps behind the promises leave them alone. -/
theorem Stays.standing_restate {free : Char → Bool} (h : Stays free word) (s : List Char) :
    standing free word none (Mapper.restate s) = standing free word none (qualifyPromises s) := by
  rw [Mapper.restate, h.standing_bracketArrays, h.standing_replaceLoose]

/-- **Which promises a type leaves open.** Let an annotation be neither an opaque
marker nor a bare array nor name a described class. Its type opens a promise
exactly when the expanded annotation opens one right behind the bracket of
an open promise. Each promise that was open is qualified or still open, and
none is qualified twice that was not. -/
theorem opensPromise_mapType_iff {expr : String} (hmarker : isOpaque expr.toList = false)
    (hbare : expr.toList ≠ "Array".toList)
    (hclass : m.denotesClass (m.expand expr.toList) = false) :
    (OpensPromise (m.mapType expr).toList ↔ NestsPromise (m.expand expr.toList)) ∧
      openPromises (m.mapType expr).toList + qualifiedPromises (m.mapType expr).toList =
        openPromises (m.expand expr.toList) + qualifiedPromises (m.expand expr.toList) ∧
      requalifiedPromises (m.mapType expr).toList =
        requalifiedPromises (m.expand expr.toList) := by
  have hmapped : (m.mapType expr).toList = Mapper.restate (m.expand expr.toList) := by
    rw [Mapper.mapType, String.toList_ofList, mapChars_eq_restate hmarker hbare hclass]
  have hopen : openPromises (m.mapType expr).toList =
      openPromises (qualifyPromises (m.expand expr.toList)) := by
    rw [hmapped]
    exact stays_promiseOpen.standing_restate _
  have hglobal : qualifiedPromises (m.mapType expr).toList =
      qualifiedPromises (qualifyPromises (m.expand expr.toList)) := by
    rw [hmapped]
    exact stays_globalPromise.standing_restate _
  have htwice : requalifiedPromises (m.mapType expr).toList =
      requalifiedPromises (qualifyPromises (m.expand expr.toList)) := by
    rw [hmapped]
    exact stays_requalified.standing_restate _
  refine ⟨?_, ?_, ?_⟩
  · rw [← openPromises_ne_zero_iff, hopen, openPromises_ne_zero_iff,
      opensPromise_qualifyPromises_iff]
  · rw [hopen, hglobal, openPromises_add_qualifyPromises]
  · rw [htwice, requalifiedPromises_qualifyPromises]

/-- Promises beside each other and inside an array are all qualified. -/
theorem opensPromise_mapType_beside :
    isOpaque "Array<Promise<var>>|Promise<*>".toList = false ∧
      "Array<Promise<var>>|Promise<*>".toList ≠ "Array".toList ∧
      (Mapper.mk [] widgets).denotesClass
        ((Mapper.mk [] widgets).expand "Array<Promise<var>>|Promise<*>".toList) = false ∧
      ¬ OpensPromise ((Mapper.mk [] widgets).mapType "Array<Promise<var>>|Promise<*>").toList := by
  have hmarker : isOpaque "Array<Promise<var>>|Promise<*>".toList = false := by decide
  have hbare : "Array<Promise<var>>|Promise<*>".toList ≠ "Array".toList := by decide
  have hexpand : (Mapper.mk [] widgets).expand "Array<Promise<var>>|Promise<*>".toList =
      "Array<Promise<var>>|Promise<*>".toList := by
    rw [Mapper.expand, substitute_nil]
    decide
  have hclass : (Mapper.mk [] widgets).denotesClass
      ((Mapper.mk [] widgets).expand "Array<Promise<var>>|Promise<*>".toList) = false := by
    rw [hexpand]
    decide +kernel
  refine ⟨hmarker, hbare, hclass, ?_⟩
  rw [(opensPromise_mapType_iff hmarker hbare hclass).1, hexpand]
  decide +kernel

/-- **Not every promise is qualified.** The type of a promise in a promise opens
the inner one. -/
theorem opensPromise_mapType_inside :
    isOpaque "Promise<Promise<String>>".toList = false ∧
      "Promise<Promise<String>>".toList ≠ "Array".toList ∧
      (Mapper.bundled widgets).denotesClass
        ((Mapper.bundled widgets).expand "Promise<Promise<String>>".toList) = false ∧
      OpensPromise ((Mapper.bundled widgets).mapType "Promise<Promise<String>>").toList := by
  have hclass : (Mapper.bundled widgets).denotesClass
      ((Mapper.bundled widgets).expand "Promise<Promise<String>>".toList) = false := by
    decide +kernel
  refine ⟨by decide, by decide, hclass, ?_⟩
  rw [Mapper.mapType, String.toList_ofList,
    mapChars_eq_of_not_opensArray (by decide) (by decide) hclass (by decide +kernel)]
  decide +kernel

end Ambient.Annotation
