import Ambient.Annotation.Mapping
import Ambient.Proofs.Annotation.Alias
import Ambient.Proofs.Annotation.Notation

/-!
# When a mapped annotation maps to itself

A text is settled (`Settled`) when no stage of the mapping has anything to
do with it, and these are the texts that map to themselves
(`mapChars_eq_self_iff`): the stages behind the nullable marker are rules
that rewrite by patterns, so one cannot undo what another did. What an
annotation maps to is not always settled. A promise right inside a promise
is not qualified the first time, because the bracket before it belongs to
the outer one, and is the second time.
-/

namespace Ambient.Annotation

open Text

variable {lib : Library} {s t : List Char}

/-- The mapping of a library under the bundled aliases. -/
def Mapper.bundled (lib : Library) : Mapper := ⟨bundledAliases, lib⟩

/-- No stage of the mapping has anything to do with the text. -/
structure Settled (m : Mapper) (s : List Char) : Prop where
  notOpaque : isOpaque s = false
  notBareArray : s ≠ "Array".toList
  noAlias : ¬ HasAlias m.aliases s
  noClass : m.denotesClass s = false
  noPromise : ¬ OpensPromise s
  noLooseToken : ¬ HasLooseToken s
  noArray : ¬ OpensArray [] s

/-! ## Nullable markers -/

theorem not_nullable_beforeNullable (s : List Char) : '?' ∉ beforeNullable s := by
  intro h
  have hall : (beforeNullable s).all (· ≠ '?') = true := List.all_takeWhile
  simpa using List.all_eq_true.1 hall _ h

theorem beforeNullable_eq_self (h : '?' ∉ s) : beforeNullable s = s := by
  calc beforeNullable s
      = (s ++ []).takeWhile (· ≠ '?') := by rw [List.append_nil, beforeNullable]
    _ = s := by rw [takeWhile_ne_append h, List.takeWhile_nil, List.append_nil]

theorem expand_eq_substitute (h : '?' ∉ s) :
    (Mapper.bundled lib).expand s = substitute bundledAliases s :=
  beforeNullable_eq_self (not_nullable_substitute h)

/-- **What a text maps to has no nullable marker.** -/
theorem not_nullable_mapChars (m : Mapper) (s : List Char) : '?' ∉ m.mapChars s := by
  have hexpand : '?' ∉ m.expand s := not_nullable_beforeNullable _
  rw [Mapper.mapChars]
  split
  · decide
  · split
    · decide
    · simp only
      split
      · have hscope : '?' ∉ globalScope := by decide
        rw [List.mem_append, not_or]
        exact ⟨hscope, hexpand⟩
      · intro h
        exact hexpand (nullable_of_qualifyPromises (nullable_of_replaceLoose
          (nullable_of_bracketArrays h)))

/-! ## The global scope -/

/-- No alias reaches into the scope at the head of a text: none starts with
it, and within it every character continues a name. -/
theorem globalScope_prefix_substitute (h : globalScope <+: s) :
    globalScope <+: substitute bundledAliases s := by
  refine substitute_induction (motive := fun s => globalScope <+: s) (fun s r hs hr => ?_) h
  obtain ⟨before, name, target, after, rfl, rfl, halone⟩ := substituteOnce?_eq_some hr
  rw [List.append_assoc] at hs ⊢
  rcases List.prefix_or_prefix_of_prefix hs (List.prefix_append before (name ++ after)) with hb | hb
  · exact hb.trans (List.prefix_append _ _)
  · rcases List.eq_nil_or_concat before with rfl | ⟨before, c, rfl⟩
    · have hall : ∀ a ∈ bundledAliases, a.1 ≠ [] ∧ a.1.head? ≠ some 'g' := by decide +kernel
      obtain ⟨hne, hhead⟩ := hall _ halone.mem
      obtain ⟨d, name, rfl⟩ := List.exists_cons_of_ne_nil hne
      obtain ⟨u, hu⟩ := hs
      have hd : 'g' = d := (List.cons.inj hu).1
      exact absurd (congrArg some hd.symm) hhead
    · have hall : globalScope.all isTokenChar = true := by decide
      have hc := halone.starts c (by simp)
      rw [List.all_eq_true.1 hall c (hb.subset (by simp))] at hc
      cases hc

/-- When no described class lies in the global scope, no text in it denotes
one. -/
theorem denotesClass_eq_false {m : Mapper}
    (hscope : ∀ name ∈ m.library.names, ¬ globalScope <+: name.toList)
    (h : globalScope <+: s) : m.denotesClass s = false := by
  have hknown : ∀ t, globalScope <+: t → m.isKnownClass t = false := by
    intro t ht
    rw [Mapper.isKnownClass, Bool.and_eq_false_iff]
    right
    rw [Bool.eq_false_iff]
    intro hcontains
    exact hscope _ (Library.contains_iff.1 hcontains) (by simpa using ht)
  obtain ⟨u, rfl⟩ := h
  have hwithout : withoutArrays (globalScope ++ u) = globalScope ++ withoutArrays u := by
    rfl
  rw [Mapper.denotesClass, hknown _ (List.prefix_append _ _), hwithout,
    hknown _ (List.prefix_append _ _), Bool.or_false]

/-! ## The mapping twice -/

theorem rewrites_restate :
    Rewrites Mapper.restate fun s => (OpensPromise s ∨ HasLooseToken s) ∨ OpensArray [] s :=
  (rewrites_qualifyPromises.comp rewrites_replaceLoose).comp rewrites_bracketArrays

/-- No stage changes a settled text without a nullable marker. -/
theorem Settled.mapChars_eq_self (h : Settled (.bundled lib) s) (hnull : '?' ∉ s) :
    (Mapper.bundled lib).mapChars s = s := by
  have hexpand : (Mapper.bundled lib).expand s = s := by
    rw [expand_eq_substitute hnull]
    exact rewrites_substitute.settled s h.noAlias
  have hrestate : Mapper.restate s = s :=
    rewrites_restate.settled s (by simp [h.noPromise, h.noLooseToken, h.noArray])
  have hmarker : ¬ isOpaque s = true := by simp [h.notOpaque]
  have hclass : ¬ (Mapper.bundled lib).denotesClass s = true := by simp [h.noClass]
  rw [Mapper.mapChars, if_neg hmarker, if_neg h.notBareArray]
  simp only [hexpand]
  rw [if_neg hclass, hrestate]

/-- And a text that maps to itself is settled. -/
theorem settled_of_mapChars_eq_self (hscope : ∀ name ∈ lib.names, ¬ globalScope <+: name.toList)
    (h : (Mapper.bundled lib).mapChars s = s) : Settled (.bundled lib) s := by
  have hnull : '?' ∉ s := h ▸ not_nullable_mapChars (.bundled lib) s
  rw [Mapper.mapChars] at h
  split at h
  · -- a marker maps to `any`, which is none
    rename_i hmarker
    have hany : isOpaque anyType = false := by decide
    rw [← h, hany] at hmarker
    cases hmarker
  · rename_i hmarker
    split at h
    · rename_i harray
      exact absurd (h.trans harray) (by decide)
    · rename_i harray
      simp only [expand_eq_substitute hnull] at h
      split at h
      · -- a class is qualified, so the text would lie in the global scope already
        rename_i hclass
        have hprefix : globalScope <+: s := h ▸ List.prefix_append _ _
        rw [denotesClass_eq_false hscope (globalScope_prefix_substitute hprefix)] at hclass
        cases hclass
      · -- the other stages climb, so together they stand still only if each does
        rename_i hclass
        have hpatterns := (rewrites_substitute.comp rewrites_restate).eq_self_iff.1 h
        simp only [not_or] at hpatterns
        obtain ⟨halias, ⟨hpromise, hloose⟩, hgeneric⟩ := hpatterns
        rw [rewrites_substitute.settled s halias] at hclass
        exact ⟨by simpa using hmarker, harray, halias, by simpa using hclass, hpromise, hloose,
          hgeneric⟩

/-- **A text maps to itself** when it has no nullable marker and is settled,
and only then. -/
theorem mapChars_eq_self_iff (hscope : ∀ name ∈ lib.names, ¬ globalScope <+: name.toList) :
    (Mapper.bundled lib).mapChars s = s ↔ '?' ∉ s ∧ Settled (.bundled lib) s := by
  constructor
  · intro h
    exact ⟨h ▸ not_nullable_mapChars _ s, settled_of_mapChars_eq_self hscope h⟩
  · rintro ⟨hnull, h⟩
    exact h.mapChars_eq_self hnull

/-- **Mapping twice is mapping once** exactly for the annotations that map to
a settled text. -/
theorem mapType_mapType_iff (hscope : ∀ name ∈ lib.names, ¬ globalScope <+: name.toList)
    (expr : String) :
    (Mapper.bundled lib).mapType ((Mapper.bundled lib).mapType expr) =
        (Mapper.bundled lib).mapType expr ↔
      Settled (.bundled lib) ((Mapper.bundled lib).mapType expr).toList := by
  simp only [Mapper.mapType, String.toList_ofList, String.ofList_inj]
  rw [mapChars_eq_self_iff hscope, and_iff_right (not_nullable_mapChars _ _)]

/-- A library that describes a widget and nothing else. -/
def widgets : Library where
  root := ""
  classes := .ofList [("qx.ui.core.Widget",
    { (default : ClassRecord) with name := "qx.ui.core.Widget", kind := .plain })]
  named := by decide

theorem mapType_mapType_widget :
    (∀ name ∈ widgets.names, ¬ globalScope <+: name.toList) ∧
      (Mapper.bundled widgets).mapType ((Mapper.bundled widgets).mapType "Widget") =
        (Mapper.bundled widgets).mapType "Widget" := by
  have hscope : ∀ name ∈ widgets.names, ¬ globalScope <+: name.toList := by decide
  refine ⟨hscope, (mapType_mapType_iff hscope "Widget").2 ?_⟩
  have hmapped : (Mapper.bundled widgets).mapType "Widget" = "globalThis.qx.ui.core.Widget" := by
    decide +kernel
  rw [hmapped]
  exact ⟨by decide, by decide, by decide +kernel, by decide +kernel, by decide, by decide,
    by decide⟩

/-- What is left of an annotation that names no class. -/
theorem mapChars_eq_restate {m : Mapper} (hmarker : isOpaque s = false)
    (hbare : s ≠ "Array".toList) (hclass : m.denotesClass (m.expand s) = false) :
    m.mapChars s = Mapper.restate (m.expand s) := by
  rw [Mapper.mapChars, if_neg (by simp [hmarker]), if_neg hbare]
  simp only
  rw [if_neg (by simp [hclass])]

/-- What is left of it when it has no arrays either. -/
theorem mapChars_eq_of_not_opensArray {m : Mapper} (hmarker : isOpaque s = false)
    (hbare : s ≠ "Array".toList) (hclass : m.denotesClass (m.expand s) = false)
    (harray : ¬ OpensArray [] (replaceLoose (qualifyPromises (m.expand s)))) :
    m.mapChars s = replaceLoose (qualifyPromises (m.expand s)) := by
  rw [mapChars_eq_restate hmarker hbare hclass, Mapper.restate, bracketArrays_eq_self harray]

/-- **Not every annotation maps to a settled text.** The inner one of two
promises is qualified by the second mapping only. -/
theorem mapType_mapType_nested_ne :
    (∀ name ∈ widgets.names, ¬ globalScope <+: name.toList) ∧
      (Mapper.bundled widgets).mapType "Promise<Promise<String>>" =
        "globalThis.Promise<Promise<string>>" ∧
      (Mapper.bundled widgets).mapType "globalThis.Promise<Promise<string>>" =
        "globalThis.Promise<globalThis.Promise<string>>" ∧
      (Mapper.bundled widgets).mapType
          ((Mapper.bundled widgets).mapType "Promise<Promise<String>>") ≠
        (Mapper.bundled widgets).mapType "Promise<Promise<String>>" := by
  have honce : (Mapper.bundled widgets).mapType "Promise<Promise<String>>" =
      "globalThis.Promise<Promise<string>>" := by
    rw [Mapper.mapType, mapChars_eq_of_not_opensArray (by decide) (by decide) (by decide +kernel)
      (by decide +kernel)]
    decide +kernel
  have htwice : (Mapper.bundled widgets).mapType "globalThis.Promise<Promise<string>>" =
      "globalThis.Promise<globalThis.Promise<string>>" := by
    rw [Mapper.mapType, mapChars_eq_of_not_opensArray (by decide) (by decide) (by decide +kernel)
      (by decide +kernel)]
    decide +kernel
  refine ⟨by decide, honce, htwice, ?_⟩
  rw [honce, htwice]
  decide

end Ambient.Annotation
