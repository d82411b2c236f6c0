import Mathlib.Data.List.Chain
import Ambient.Declaration.Class
import Ambient.Proofs.Annotation.Settled

/-!
# Which classes are denoted by their names

The name of a described class, with array brackets behind it or without, is
qualified and kept as it is, unless an alias stands alone in it
(`mapChars_eq_of_not_hasAlias`). That can be: a segment may have underscores
and dollar signs, and these bound an alias. Then the name is lost. The
aliases let the text rise, so another name is looked up, and the stages for
what is no class never bring the global scope in: they keep the number of
times that the letter `h` occurs (`Unscoped`), and the scope has one more
(`mapChars_ne_of_hasAlias`).
-/

namespace Ambient.Annotation

open Text

variable {lib : Library} {m : Mapper} {s before name target after : List Char}
variable {c : Char} {n : Nat}

/-! ## Names and brackets -/

/-- A segment of a class name: an identifier that can have dollar signs. -/
def isSegment : List Char → Bool
  | [] => false
  | c :: s => (isIdentifierStart c || c == '$') && s.all fun d => isIdentifierChar d || d == '$'

/-- The text is made of segments with dots between them. -/
def isDotted (s : List Char) : Bool :=
  (s.splitOn '.').all isSegment

/-- A character of a class name. -/
def isNameChar (c : Char) : Bool :=
  isIdentifierChar c || c == '$' || c == '.'

theorem isNameChar_of_mem_segment (h : isSegment s) (hc : c ∈ s) : isNameChar c := by
  cases s with
  | nil => cases hc
  | cons d s =>
    simp only [isSegment, Bool.and_eq_true, Bool.or_eq_true, List.all_eq_true] at h
    have hstart : isIdentifierStart d → isIdentifierChar d := by
      simp only [isIdentifierStart, isIdentifierChar, Char.isAlphanum, Bool.or_eq_true]
      exact Or.imp_left .inl
    simp only [isNameChar, Bool.or_eq_true]
    rcases List.mem_cons.1 hc with rfl | hc
    · exact .inl (h.1.imp_left hstart)
    · exact .inl (h.2 c hc)

theorem isNameChar_of_mem (h : isDotted s) (hc : c ∈ s) : isNameChar c := by
  have hsegments : ['.'].intercalate (s.splitOn '.') = s := List.intercalate_splitOn '.'
  rw [← hsegments] at hc
  rcases mem_of_mem_intercalate hc with rfl | ⟨segment, hmem, hc⟩
  · rfl
  · exact isNameChar_of_mem_segment (List.all_eq_true.1 h segment hmem) hc

/-- So many pairs of array brackets. -/
def arrays (n : Nat) : List Char :=
  (List.replicate n "[]".toList).flatten

theorem arrays_succ (n : Nat) : arrays (n + 1) = '[' :: ']' :: arrays n := rfl

theorem mem_arrays (h : c ∈ arrays n) : c = '[' ∨ c = ']' := by
  induction n with
  | zero => cases h
  | succ n ih =>
    rw [arrays_succ, List.mem_cons, List.mem_cons] at h
    exact h.elim .inl fun h => h.elim .inr ih

/-- Brackets end an alias as the end of the text does. -/
theorem endsAlias_append_arrays : endsAlias (after ++ arrays n) = endsAlias after := by
  cases after with
  | cons c after => rfl
  | nil => cases n <;> rfl

theorem withoutArrays_arrays (n : Nat) : withoutArrays (arrays n) = [] := by
  induction n with
  | zero => rfl
  | succ n ih => exact ih

theorem withoutArrays_append_arrays (h : '[' ∉ s) : withoutArrays (s ++ arrays n) = s := by
  induction s with
  | nil => exact withoutArrays_arrays n
  | cons c s ih =>
    obtain ⟨hc, hs⟩ := not_or.1 fun h' => h (List.mem_cons.2 h')
    have hfind : after? "[]".toList (c :: (s ++ arrays n)) = none := if_neg hc
    rw [List.cons_append, withoutArrays, replaceWord, replaceEach, hfind]
    exact congrArg (c :: ·) (ih hs)

/-! ## Aliases in a name -/

/-- An alias is a word of letters, or the asterisk. -/
theorem word_of_mem_bundled (h : (name, target) ∈ bundledAliases) :
    name ≠ [] ∧ ∀ c ∈ name, c.isAlpha || c == '*' := by
  have hall : bundledAliases.all fun a =>
      !a.1.isEmpty && a.1.all fun c => c.isAlpha || c == '*' := by decide +kernel
  have hword := List.all_eq_true.1 hall _ h
  rw [Bool.and_eq_true, Bool.not_eq_true', List.isEmpty_eq_false_iff, List.all_eq_true] at hword
  exact hword

/-- Brackets at the end have no part in an alias. -/
theorem hasAlias_append_arrays :
    HasAlias bundledAliases (s ++ arrays n) ↔ HasAlias bundledAliases s := by
  constructor
  · rintro ⟨before, name, target, after, heq, halone⟩
    rcases List.append_eq_append_iff.1 heq with ⟨x, hx, harrays⟩ | ⟨x, rfl, rfl⟩
    · rcases List.eq_nil_or_concat x with rfl | ⟨x, d, rfl⟩
      · exact ⟨before, name, target, [], by simp [hx], halone.mem, halone.starts, rfl⟩
      · -- the alias would end with a bracket
        have hd : d ∈ name := by
          obtain ⟨name, d', rfl⟩ :=
            (List.eq_nil_or_concat name).resolve_left (word_of_mem_bundled halone.mem).1
          simp only [List.concat_eq_append, ← List.append_assoc] at hx
          obtain rfl : d' = d := List.singleton_inj.1 (List.append_inj' hx rfl).2
          simp
        have hbracket : d ∈ arrays n := by simp [harrays]
        have hword := (word_of_mem_bundled halone.mem).2 d hd
        rcases mem_arrays hbracket with rfl | rfl <;> exact absurd hword (by decide)
    · exact ⟨before, name, target, x, rfl, halone.mem, halone.starts,
        endsAlias_append_arrays.symm.trans halone.ends⟩
  · rintro ⟨before, name, target, after, rfl, halone⟩
    exact ⟨before, name, target, after ++ arrays n, by simp, halone.mem, halone.starts,
      endsAlias_append_arrays.symm ▸ halone.ends⟩

/-- In a text of letters, digits and dots an alias can only stand alone as
the whole of it, so a name of such characters with a dot has none. -/
theorem not_hasAlias_of_isTokenChar (h : ∀ c ∈ s, isTokenChar c) (hdot : '.' ∈ s) :
    ¬ HasAlias bundledAliases s := by
  rintro ⟨before, name, target, after, rfl, halone⟩
  have hbefore : before = [] := by
    rcases List.eq_nil_or_concat before with hnil | ⟨before, c, rfl⟩
    · exact hnil
    · have hc := halone.starts c (by simp)
      rw [h c (by simp)] at hc
      cases hc
  have hafter : after = [] := by
    cases after with
    | nil => rfl
    | cons c after =>
      have hends := halone.ends
      rw [endsAlias, h c (by simp)] at hends
      cases hends
  rw [hbefore, hafter, List.nil_append, List.append_nil] at hdot
  exact absurd ((word_of_mem_bundled halone.mem).2 '.' hdot) (by decide)

/-! ## What no stage brings in -/

/-- Every opening bracket of the text follows a `d`, as that of a record
does, and the letter `h` occurs in it so often. -/
structure Unscoped (count : Nat) (s : List Char) : Prop where
  records : s.IsChain fun c d => d = '<' → c = 'd'
  letters : s.count 'h' = count

/-- An alias brings in no bracket but that of a record, and keeps the number
of those letters. -/
theorem Unscoped.alias {count : Nat} (hmem : (name, target) ∈ bundledAliases)
    (h : Unscoped count (before ++ (name ++ after))) :
    Unscoped count (before ++ (target ++ after)) := by
  have hall : ∀ a ∈ bundledAliases, a.1.getLast? ≠ some 'd' ∧ a.2 ≠ [] ∧ a.2.head? ≠ some '<' ∧
      (a.2.IsChain fun c d => d = '<' → c = 'd') ∧ a.1.count 'h' = a.2.count 'h' := by
    decide +kernel
  obtain ⟨hlast, htarget, hhead, hchain, hcount⟩ := hall _ hmem
  refine ⟨?_, by simpa only [List.count_append, hcount] using h.letters⟩
  obtain ⟨hbefore, hafter, -⟩ := List.isChain_append.1 h.records
  obtain ⟨-, hafter, hbehind⟩ := List.isChain_append.1 hafter
  -- no bracket follows the alias or opens what it stands for
  have hnone : ∀ d ∈ after.head?, d ≠ '<' := by
    rintro d hd rfl
    have hname := List.getLast?_eq_getLast_of_ne_nil (word_of_mem_bundled hmem).1
    exact hlast (hname.trans (congrArg some (hbehind _ hname _ hd rfl)))
  obtain ⟨x, target, rfl⟩ := List.exists_cons_of_ne_nil htarget
  refine List.isChain_append.2 ⟨hbefore, List.isChain_append.2 ⟨hchain, hafter, ?_⟩, ?_⟩
  · exact fun _ _ d hd heq => absurd heq (hnone d hd)
  · rintro c - d hd rfl
    exact absurd hd hhead

namespace Unscoped

variable {count : Nat}

theorem substitute (h : Unscoped count s) : Unscoped count (substitute bundledAliases s) := by
  refine substitute_induction (fun s r hs hr => ?_) h
  obtain ⟨before, name, target, after, rfl, rfl, halone⟩ := substituteOnce?_eq_some hr
  rw [List.append_assoc] at hs ⊢
  exact hs.alias halone.mem

/-- The loose tokens are aliases too, of the same type. -/
theorem replaceLoose (h : Unscoped count s) : Unscoped count (replaceLoose s) := by
  have hall : ∀ token ∈ looseTokens, (token, unknownType) ∈ bundledAliases := by decide +kernel
  exact replaceLoose_induction (fun _ token _ hmem _ _ h => h.alias (hall token hmem)) h

theorem isChain_of_infix {word : List Char} (h : Unscoped count (before ++ word ++ after)) :
    word.IsChain fun c d => d = '<' → c = 'd' :=
  h.records.infix ⟨before, after, rfl⟩

theorem not_opensPromise (h : Unscoped count s) : ¬ OpensPromise s := by
  rintro ⟨before, after, rfl, -⟩
  exact absurd h.isChain_of_infix (by decide)

theorem not_opensArray (h : Unscoped count s) : ¬ OpensArray [] s := by
  rintro ⟨before, after, rfl, -⟩
  exact absurd h.isChain_of_infix (by decide)

/-- **Of such a text only the loose tokens change** behind the aliases. -/
theorem restate (h : Unscoped count s) : Unscoped count (Mapper.restate s) := by
  rw [Mapper.restate, rewrites_qualifyPromises.settled s h.not_opensPromise,
    bracketArrays_eq_self h.replaceLoose.not_opensArray]
  exact h.replaceLoose

end Unscoped

/-- A text without opening brackets. -/
theorem unscoped_of_notMem (h : '<' ∉ s) : Unscoped (s.count 'h') s := by
  refine ⟨?_, rfl⟩
  induction s with
  | nil => exact .nil
  | cons c s ih =>
    rw [List.mem_cons, not_or] at h
    refine List.isChain_cons.2 ⟨?_, ih h.2⟩
    rintro d hd rfl
    exact absurd (List.mem_of_mem_head? hd) h.2

/-! ## The mapping of a name -/

theorem mapChars_of_dot (hdot : '.' ∈ s) :
    m.mapChars s =
      if m.denotesClass (m.expand s) then globalScope ++ m.expand s
      else Mapper.restate (m.expand s) := by
  have hmarker : ¬ isOpaque s = true := by
    intro h
    rw [isOpaque, Bool.or_eq_true, List.isEmpty_iff, beq_iff_eq] at h
    rcases h with rfl | rfl
    · cases hdot
    · exact absurd hdot (by decide)
  have hbare : s ≠ "Array".toList := by
    rintro rfl
    exact absurd hdot (by decide)
  rw [Mapper.mapChars, if_neg hmarker, if_neg hbare]

/-- **Without an alias the name of a class is kept.** -/
theorem mapChars_eq_of_not_hasAlias (hknown : (Mapper.bundled lib).isKnownClass s)
    (hname : isDotted s) (halias : ¬ HasAlias bundledAliases s) (n : Nat) :
    (Mapper.bundled lib).mapChars (s ++ arrays n) = globalScope ++ (s ++ arrays n) := by
  have hdot : '.' ∈ s := by
    rw [Mapper.isKnownClass, Bool.and_eq_true, List.contains_iff_mem] at hknown
    exact hknown.1
  have hopen : '[' ∉ s := fun h => absurd (isNameChar_of_mem hname h) (by decide)
  have hnull : '?' ∉ s ++ arrays n := by
    rw [List.mem_append, not_or]
    refine ⟨fun h => absurd (isNameChar_of_mem hname h) (by decide), fun h => ?_⟩
    exact absurd (mem_arrays h) (by decide)
  have hexpand : (Mapper.bundled lib).expand (s ++ arrays n) = s ++ arrays n := by
    rw [expand_eq_substitute hnull]
    exact rewrites_substitute.settled _ (mt hasAlias_append_arrays.1 halias)
  have hclass : (Mapper.bundled lib).denotesClass (s ++ arrays n) := by
    rw [Mapper.denotesClass, withoutArrays_append_arrays hopen, hknown, Bool.or_true]
  rw [mapChars_of_dot (List.mem_append_left _ hdot), hexpand, if_pos hclass]

/-- **With an alias no text is mapped to itself in the global scope**, be it
the name of a class or not. -/
theorem mapChars_ne_of_hasAlias (hdot : '.' ∈ s) (hnull : '?' ∉ s) (hbracket : '<' ∉ s)
    (halias : HasAlias bundledAliases s) :
    (Mapper.bundled lib).mapChars s ≠ globalScope ++ s := by
  rw [mapChars_of_dot hdot, expand_eq_substitute hnull]
  split
  · exact fun heq => rewrites_substitute.ne_self_iff.2 halias (List.append_cancel_left heq)
  · -- the scope would bring its letter in
    intro heq
    have hletters := (unscoped_of_notMem hbracket).substitute.restate.letters
    have hscope : globalScope.count 'h' = 1 := by decide
    rw [heq, List.count_append] at hletters
    omega

/-! ## References to a class -/

theorem mapType_eq_iff (name : String) (after : List Char) :
    m.mapType (name ++ String.ofList after) = "globalThis." ++ name ++ String.ofList after ↔
      m.mapChars (name.toList ++ after) = globalScope ++ (name.toList ++ after) := by
  have hscope : globalScope = "globalThis.".toList := by
    unfold globalScope
    with_reducible rfl
  rw [← String.toList_inj]
  unfold Mapper.mapType
  rw [String.toList_ofList, String.toList_append, String.toList_append, String.toList_append,
    String.toList_ofList, List.append_assoc, ← hscope]

/-- A class extends what its superclass maps to, unless it is builtin or
unknown. -/
theorem parentType?_eq_some_iff {name type : String} :
    parentType? m name = some type ↔
      name ∉ builtinSuperclasses ∧ m.mapType name = type ∧ type.toList ≠ anyType := by
  rw [parentType?]
  split
  · rename_i hbuiltin
    exact ⟨fun h => (nomatch h), fun h => absurd hbuiltin h.1⟩
  · rename_i hbuiltin
    dsimp only
    split
    · rename_i hany
      exact ⟨fun h => (nomatch h), fun ⟨_, htype, hne⟩ => absurd hany (htype ▸ hne)⟩
    · rename_i hany
      rw [Option.some.injEq, and_iff_right hbuiltin]
      exact ⟨fun h => ⟨h, h ▸ hany⟩, And.left⟩

/-- **A reference to a class denotes it** exactly when no alias stands alone
in the name of the class: as an annotation, with array brackets or without,
as what a class extends or implements, and as the type of a singleton. -/
theorem mapType_className_iff (lib : Library) {name : String} (hmem : name ∈ lib.names)
    (hname : isDotted name.toList) (hdot : '.' ∈ name.toList) :
    (∀ n, (Mapper.bundled lib).mapType (name ++ String.ofList (arrays n)) =
        "globalThis." ++ name ++ String.ofList (arrays n) ↔
      ¬ HasAlias bundledAliases name.toList) ∧
    (parentType? (.bundled lib) name = some ("globalThis." ++ name) ↔
      ¬ HasAlias bundledAliases name.toList) ∧
    (∀ c : ClassRecord, c.isInterface = false → ∀ i : Nat, c.interfaces[i]? = some name →
      ((implementedTypes (.bundled lib) c)[i]? = some ("globalThis." ++ name) ↔
        ¬ HasAlias bundledAliases name.toList)) ∧
    ∀ c : ClassRecord, c.name = name →
      ((singletonMethod (.bundled lib) c).returnType = "globalThis." ++ name ↔
        ¬ HasAlias bundledAliases name.toList) := by
  have hknown : (Mapper.bundled lib).isKnownClass name.toList := by
    rw [Mapper.isKnownClass, Bool.and_eq_true, List.contains_iff_mem, String.ofList_toList]
    exact ⟨hdot, Library.contains_iff.2 hmem⟩
  have hfree : ∀ {c n}, isNameChar c = false → c ≠ '[' → c ≠ ']' → c ∉ name.toList ++ arrays n := by
    intro c n hc hopen hclose h
    rcases List.mem_append.1 h with h | h
    · rw [isNameChar_of_mem hname h] at hc
      cases hc
    · exact (mem_arrays h).elim hopen hclose
  have harrays : ∀ n, (Mapper.bundled lib).mapType (name ++ String.ofList (arrays n)) =
        "globalThis." ++ name ++ String.ofList (arrays n) ↔
      ¬ HasAlias bundledAliases name.toList := by
    intro n
    rw [mapType_eq_iff]
    refine ⟨fun heq halias => ?_, fun halias => mapChars_eq_of_not_hasAlias hknown hname halias n⟩
    exact mapChars_ne_of_hasAlias (List.mem_append_left _ hdot)
      (hfree (by decide) (by decide) (by decide)) (hfree (by decide) (by decide) (by decide))
      (hasAlias_append_arrays.2 halias) heq
  have hplain : (Mapper.bundled lib).mapType name = "globalThis." ++ name ↔
      ¬ HasAlias bundledAliases name.toList := by
    simpa [arrays] using harrays 0
  refine ⟨harrays, ?_, ?_, ?_⟩
  · have hbuiltin : name ∉ builtinSuperclasses := by
      intro hbuiltin
      have hall : ∀ b ∈ builtinSuperclasses, '.' ∉ b.toList := by decide
      exact hall name hbuiltin hdot
    have hany : ("globalThis." ++ name).toList ≠ anyType := by
      intro heq
      rw [String.toList_append] at heq
      exact absurd (List.cons.inj heq).1 (by decide)
    rw [parentType?_eq_some_iff, and_iff_right hbuiltin, and_iff_left hany, hplain]
  · intro c hclass i hi
    rw [implementedTypes, hclass, if_neg Bool.false_ne_true, List.getElem?_map, hi,
      Option.map_some, Option.some.injEq, hplain]
  · rintro c rfl
    exact hplain

/-- Two classes whose names spell an alias, on its own in the second. -/
def spelled : Library where
  root := ""
  classes := .ofList [("a.String", { (default : ClassRecord) with name := "a.String" }),
    ("a._String", { (default : ClassRecord) with name := "a._String" })]
  named := by decide

theorem mapType_className_joined :
    "a.String" ∈ spelled.names ∧ isDotted "a.String".toList ∧ '.' ∈ "a.String".toList ∧
      ∀ n, (Mapper.bundled spelled).mapType ("a.String" ++ String.ofList (arrays n)) =
        "globalThis." ++ "a.String" ++ String.ofList (arrays n) := by
  have hmem : "a.String" ∈ spelled.names := by decide
  have hname : isDotted "a.String".toList := by decide
  have hdot : '.' ∈ "a.String".toList := by decide
  have hjoined : "a.String".toList.all isTokenChar := by decide
  have halias : ¬ HasAlias bundledAliases "a.String".toList :=
    not_hasAlias_of_isTokenChar (List.all_eq_true.1 hjoined) hdot
  exact ⟨hmem, hname, hdot, fun n => ((mapType_className_iff spelled hmem hname hdot).1 n).2 halias⟩

/-- **Not every class is denoted by its name.** An underscore bounds the alias
in the name of a described class, so a reference to the class denotes
nothing that is described. -/
theorem mapType_className_split_ne :
    (∀ name ∈ spelled.names, isDotted name.toList) ∧ "a._String" ∈ spelled.names ∧
      '.' ∈ "a._String".toList ∧ (Mapper.bundled spelled).mapType "a._String" = "a._string" ∧
      (Mapper.bundled spelled).mapType "a._String" ≠ "globalThis.a._String" := by
  have hmapped : (Mapper.bundled spelled).mapType "a._String" = "a._string" := by
    rw [Mapper.mapType, mapChars_eq_of_not_opensArray (by decide) (by decide) (by decide +kernel)
      (by decide +kernel)]
    decide +kernel
  refine ⟨by decide, by decide, by decide, hmapped, ?_⟩
  rw [hmapped]
  decide

end Ambient.Annotation
