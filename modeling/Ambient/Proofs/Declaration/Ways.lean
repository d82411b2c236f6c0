import Mathlib.Data.List.Basic
import Ambient.Proofs.Declaration.Inclusion

/-!
# Along which ways mixins are included

A way leads from a class into its mixins: at each step a place in the list
of the class before, and the name that stands there. The body of a class is
written along its ways, from the first place to the last and each class
before its own mixins (`bodyPieces_eq_flatMap_ways`), and these are all ways
that come to no class twice (`cons_mem_ways_iff`), each once, in the order
of their places (`pairwise_ways`). A way can end at a name that is not among
the mixins, and then has a marker and no body. So a mixin is written as
often as there are ways to it, over cycles and diamonds
(`classBody_eq_flatMap_ways`).
-/

namespace Ambient

open Annotation

/-- The steps into the mixins of a class, each with its place in the list of
the class before and the name that stands there. -/
abbrev Way := List (Nat × String)

namespace Way

/-- The names on a way. -/
def names (way : Way) : List String := way.map Prod.snd

/-- The places of its steps, by which ways are ordered. -/
def places (way : Way) : List Nat := way.map Prod.fst

/-- The last step leads to the name. -/
def endsAt (name : String) (way : Way) : Bool := way.getLast?.any (·.2 = name)

end Way

variable {m : Mapper} {c d e : ClassRecord} {mixins : List ClassRecord}
variable {path : List String} {name : String} {i : Nat} {way : Way}

/-- The class a way leads to: each step names a mixin at its place in the list
of the class before, which is found among the `mixins`. -/
def classAt? (mixins : List ClassRecord) : ClassRecord → Way → Option ClassRecord
  | c, [] => some c
  | c, (i, name) :: way =>
    if c.mixins[i]? = some name then (mixins.find? (·.name = name)).bind (classAt? mixins · way)
    else none

/-- The ways into the mixins of a class that come to no name of the `path` and
to no name twice. A way ends where a name is not among the `mixins`. -/
def ways (mixins : List ClassRecord) (path : List String) (c : ClassRecord) : List Way :=
  [] :: c.mixins.zipIdx.flatMap fun (name, i) =>
    if _hpath : name ∈ path then []
    else
      match _hfind : mixins.find? (·.name = name) with
      | none => [[(i, name)]]
      | some d => (ways mixins (name :: path) d).map ((i, name) :: ·)
  termination_by (notOnPath mixins path).length
  decreasing_by
    have hname : d.name = name := by simpa using List.find?_some _hfind
    exact hname ▸ length_notOnPath_lt (List.mem_of_find?_eq_some _hfind) (hname.symm ▸ _hpath)

/-- The ways over one place of a list. -/
def waysOver (mixins : List ClassRecord) (path : List String) (e : String × Nat) : List Way :=
  if e.1 ∈ path then []
  else
    ((mixins.find? (·.name = e.1)).elim [[]] (ways mixins (e.1 :: path))).map ((e.2, e.1) :: ·)

theorem ways_eq :
    ways mixins path c = [] :: c.mixins.zipIdx.flatMap (waysOver mixins path) := by
  rw [ways]
  congr 2
  funext ⟨name, i⟩
  dsimp only
  rw [waysOver]
  by_cases hpath : name ∈ path
  · rw [dif_pos hpath, if_pos hpath]
  · rw [dif_neg hpath, if_neg hpath]
    split <;> rename_i hfind <;> rw [hfind] <;> rfl

/-! ## What is written along a way -/

/-- What is written at the end of a way: the marker of its last step and what
the class there declares itself. -/
def wayPieces (m : Mapper) (mixins : List ClassRecord) (c : ClassRecord) (way : Way) :
    List BodyPiece :=
  (way.getLast?.map fun step => BodyPiece.mixin step.2).toList ++
    ((classAt? mixins c way).map (ownPieces m)).getD []

/-- One step back the same is written, but for the marker of an empty way. -/
theorem wayPieces_cons (hi : c.mixins[i]? = some name)
    (hfind : mixins.find? (·.name = name) = some d) :
    wayPieces m mixins c ((i, name) :: way) =
      (if way = [] then [.mixin name] else []) ++ wayPieces m mixins d way := by
  rw [wayPieces, wayPieces, classAt?, if_pos hi, hfind, Option.bind_some]
  cases way <;> rfl

theorem flatMap_wayPieces_waysOver (hi : c.mixins[i]? = some name)
    (hbody : ∀ d, name ∉ path → mixins.find? (·.name = name) = some d →
      bodyPieces m mixins (name :: path) d =
        (ways mixins (name :: path) d).flatMap (wayPieces m mixins d)) :
    (waysOver mixins path (name, i)).flatMap (wayPieces m mixins c) =
      mixinPieces m mixins path name := by
  rw [waysOver, mixinPieces]
  by_cases hpath : name ∈ path
  · rw [if_pos hpath, if_pos hpath, List.flatMap_nil]
  · rw [if_neg hpath, if_neg hpath, List.flatMap_map]
    cases hfind : mixins.find? (·.name = name) with
    | none => simp [wayPieces, classAt?, hi, hfind]
    | some d =>
      -- the empty way has the marker, and every other one what it has from there
      have hrest : ∀ way ∈ d.mixins.zipIdx.flatMap (waysOver mixins (name :: path)),
          wayPieces m mixins c ((i, name) :: way) = wayPieces m mixins d way := by
        intro way hway
        obtain ⟨e, -, hway⟩ := List.mem_flatMap.1 hway
        have hne : way ≠ [] := by
          rintro rfl
          rw [waysOver] at hway
          split at hway
          · cases hway
          · simp at hway
        rw [wayPieces_cons hi hfind, if_neg hne, List.nil_append]
      rw [Option.elim_some, Option.map_some, Option.getD_some, hbody d hpath hfind, ways_eq,
        List.flatMap_cons, List.flatMap_cons, List.flatMap_congr hrest, wayPieces_cons hi hfind,
        if_pos rfl, List.append_assoc, List.singleton_append]

/-- **A body is written along its ways.** -/
theorem bodyPieces_eq_flatMap_ways :
    bodyPieces m mixins path c = (ways mixins path c).flatMap (wayPieces m mixins c) := by
  induction path, c using bodyPieces.induct mixins with
  | case1 path c ih =>
    have hplaces : c.mixins.zipIdx.flatMap
        (fun e => (waysOver mixins path e).flatMap (wayPieces m mixins c)) =
          c.mixins.flatMap (mixinPieces m mixins path) := by
      calc c.mixins.zipIdx.flatMap
            (fun e => (waysOver mixins path e).flatMap (wayPieces m mixins c))
          = c.mixins.zipIdx.flatMap (fun e => mixinPieces m mixins path e.1) := by
            refine List.flatMap_congr fun ⟨name, i⟩ he => ?_
            exact flatMap_wayPieces_waysOver (List.mk_mem_zipIdx_iff_getElem?.1 he)
              fun d hpath hfind => ih name hpath d hfind
        _ = (c.mixins.zipIdx.map Prod.fst).flatMap (mixinPieces m mixins path) := by
            rw [List.flatMap_map]
        _ = c.mixins.flatMap (mixinPieces m mixins path) := by
            rw [List.zipIdx_map_fst]
    rw [bodyPieces_eq, ways_eq, List.flatMap_cons, List.flatMap_assoc, hplaces]
    rfl

/-! ## Which ways there are -/

theorem nil_mem_ways : [] ∈ ways mixins path c := by
  rw [ways_eq]
  exact List.mem_cons_self

/-- **A step more.** -/
theorem cons_mem_ways_iff :
    (i, name) :: way ∈ ways mixins path c ↔
      c.mixins[i]? = some name ∧ name ∉ path ∧
        way ∈ (mixins.find? (·.name = name)).elim [[]] (ways mixins (name :: path)) := by
  rw [ways_eq, List.mem_cons, or_iff_right (by simp), List.mem_flatMap]
  constructor
  · rintro ⟨⟨name', i'⟩, he, hway⟩
    rw [waysOver] at hway
    split at hway
    · cases hway
    · rename_i hpath
      obtain ⟨way', hway', heq⟩ := List.mem_map.1 hway
      cases heq
      exact ⟨List.mk_mem_zipIdx_iff_getElem?.1 he, hpath, hway'⟩
  · rintro ⟨hi, hpath, hway⟩
    refine ⟨(name, i), List.mk_mem_zipIdx_iff_getElem?.2 hi, ?_⟩
    rw [waysOver, if_neg hpath]
    exact List.mem_map_of_mem hway

/-- **A way to a class is taken** exactly when it comes to no name twice and
to none of the path. -/
theorem mem_ways_iff (h : classAt? mixins c way = some d) :
    way ∈ ways mixins path c ↔ way.names.Nodup ∧ ∀ name ∈ way.names, name ∉ path := by
  induction way generalizing c path with
  | nil => exact iff_of_true nil_mem_ways ⟨List.nodup_nil, by simp [Way.names]⟩
  | cons step way ih =>
    obtain ⟨i, name⟩ := step
    rw [classAt?] at h
    split at h
    · rename_i hi
      obtain ⟨e, hfind, h⟩ := Option.bind_eq_some_iff.1 h
      -- the names behind the first are new to the path that has it as well
      rw [cons_mem_ways_iff, hfind, Option.elim_some, ih h]
      simp only [Way.names, List.map_cons, List.nodup_cons, List.mem_cons, not_or]
      constructor
      · rintro ⟨-, hpath, hnodup, hnew⟩
        refine ⟨⟨fun hmem => (hnew name hmem).1 rfl, hnodup⟩, fun name' hmem => ?_⟩
        rcases hmem with rfl | hmem
        · exact hpath
        · exact (hnew name' hmem).2
      · rintro ⟨⟨hname, hnodup⟩, hnew⟩
        refine ⟨hi, hnew name (.inl rfl), hnodup, fun name' hmem => ?_⟩
        refine ⟨?_, hnew name' (.inr hmem)⟩
        rintro rfl
        exact hname hmem
    · cases h

/-- A way that leads to no class ends at the first name that is not among the
mixins. -/
theorem exists_of_classAt?_eq_none (hway : way ∈ ways mixins path c)
    (h : classAt? mixins c way = none) :
    ∃ before i name, way = before ++ [(i, name)] ∧ (classAt? mixins c before).isSome ∧
      mixins.find? (·.name = name) = none := by
  induction way generalizing c path with
  | nil => cases h
  | cons step way ih =>
    obtain ⟨i, name⟩ := step
    obtain ⟨hi, -, hway⟩ := cons_mem_ways_iff.1 hway
    cases hfind : mixins.find? (·.name = name) with
    | none =>
      rw [hfind] at hway
      obtain rfl := List.mem_singleton.1 hway
      exact ⟨[], i, name, rfl, rfl, hfind⟩
    | some d =>
      rw [hfind] at hway
      rw [classAt?, if_pos hi, hfind] at h
      obtain ⟨before, j, last, rfl, hbefore, hlast⟩ := ih hway h
      refine ⟨(i, name) :: before, j, last, rfl, ?_, hlast⟩
      rwa [classAt?, if_pos hi, hfind]

/-! ## In which order they are taken -/

/-- The way is over before the other one, or turns off at an earlier place. -/
def Way.Before (way way' : Way) : Prop := way.places < way'.places

theorem places_of_mem_waysOver {e : String × Nat} (h : way ∈ waysOver mixins path e) :
    ∃ rest, way.places = e.2 :: rest := by
  rw [waysOver] at h
  split at h
  · cases h
  · obtain ⟨rest, -, rfl⟩ := List.mem_map.1 h
    exact ⟨Way.places rest, rfl⟩

/-- **Each way is taken once**, one that is over before those that go on from
there, and else the one that turns off at the earlier place. -/
theorem pairwise_ways : (ways mixins path c).Pairwise Way.Before := by
  induction path, c using bodyPieces.induct mixins with
  | case1 path c ih =>
    rw [ways_eq, List.pairwise_cons, List.pairwise_flatMap]
    refine ⟨fun way hway => ?_, fun ⟨name, i⟩ _ => ?_, ?_⟩
    · obtain ⟨e, -, hway⟩ := List.mem_flatMap.1 hway
      obtain ⟨rest, hplaces⟩ := places_of_mem_waysOver hway
      rw [Way.Before, hplaces]
      exact List.nil_lt_cons _ _
    · -- ways over one place are in the order of what follows it
      rw [waysOver]
      split
      · exact List.Pairwise.nil
      · rename_i hpath
        rw [List.pairwise_map]
        cases hfind : mixins.find? (·.name = name) with
        | none => exact List.pairwise_singleton _ _
        | some d =>
          refine (ih name hpath d hfind).imp fun h => ?_
          exact List.cons_lt_cons_iff.2 (.inr ⟨rfl, h⟩)
    · have hindices : c.mixins.zipIdx.Pairwise fun e e' => e.2 < e'.2 := by
        rw [← List.pairwise_map, List.zipIdx_map_snd]
        exact List.pairwise_lt_range'
      refine hindices.imp fun {e e'} hlt way hway way' hway' => ?_
      obtain ⟨rest, hplaces⟩ := places_of_mem_waysOver hway
      obtain ⟨rest', hplaces'⟩ := places_of_mem_waysOver hway'
      rw [Way.Before, hplaces, hplaces']
      exact List.cons_lt_cons_iff.2 (.inl hlt)

/-! ## How often a mixin is written -/

/-- The piece is the marker of the mixin. -/
def BodyPiece.marks (name : String) : BodyPiece → Bool
  | .mixin name' => name' = name
  | .method _ => false

theorem exists_method_of_mem_visible {x : Method} {piece : BodyPiece} (h : piece ∈ visible x) :
    ∃ y, piece = .method y := by
  rw [visible] at h
  split at h
  · cases h
  · exact ⟨x, List.mem_singleton.1 h⟩

/-- What a class declares itself are methods. -/
theorem exists_method_of_mem_ownPieces {piece : BodyPiece} (h : piece ∈ ownPieces m c) :
    ∃ x, piece = .method x := by
  have hmembers {s : Section} {t : Table Member} (h : piece ∈ methodPieces m c s t) :
      ∃ x, piece = .method x := by
    obtain ⟨⟨name, declared⟩, -, h⟩ := List.mem_flatMap.1 h
    cases hx : methodOf? m c s name declared with
    | none => simp [hx] at h
    | some x =>
      simp only [hx, Option.map_some, Option.getD_some] at h
      exact exists_method_of_mem_visible h
  rw [ownPieces, List.mem_append, List.mem_append, List.mem_append] at h
  rcases h with ((h | h) | h) | h
  · split at h
    · exact ⟨_, List.mem_singleton.1 h⟩
    · cases h
  · exact hmembers h
  · exact hmembers h
  · obtain ⟨⟨name, declared⟩, -, h⟩ := List.mem_flatMap.1 h
    dsimp only at h
    split at h
    · cases h
    · obtain ⟨x, -, h⟩ := List.mem_flatMap.1 h
      exact exists_method_of_mem_visible h

theorem countP_marks_ownPieces : (ownPieces m c).countP (BodyPiece.marks name) = 0 := by
  rw [List.countP_eq_zero]
  intro piece hpiece
  obtain ⟨x, rfl⟩ := exists_method_of_mem_ownPieces hpiece
  exact Bool.false_ne_true

theorem countP_marks_wayPieces :
    (wayPieces m mixins c way).countP (BodyPiece.marks name) =
      if way.endsAt name then 1 else 0 := by
  have hown :
      (((classAt? mixins c way).map (ownPieces m)).getD []).countP (BodyPiece.marks name) = 0 := by
    cases classAt? mixins c way with
    | none => rfl
    | some d => exact countP_marks_ownPieces
  rw [wayPieces, List.countP_append, hown, Nat.add_zero, Way.endsAt]
  cases way.getLast? with
  | none => rfl
  | some step => simp [BodyPiece.marks, List.countP_cons]

theorem countP_marks_bodyPieces :
    (bodyPieces m mixins path c).countP (BodyPiece.marks name) =
      (ways mixins path c).countP (Way.endsAt name) := by
  rw [bodyPieces_eq_flatMap_ways, List.countP_flatMap]
  induction ways mixins path c with
  | nil => rfl
  | cons way rest ih =>
    rw [List.map_cons, List.sum_cons, ih, List.countP_cons, Function.comp_apply,
      countP_marks_wayPieces, Nat.add_comm]

/-! ## The declaration of a class -/

/-- The path of the bodies being written holds no name twice. -/
theorem Written.nodup (h : Written m c path d) : path.Nodup := by
  induction h with
  | own => exact List.nodup_cons.2 ⟨List.not_mem_nil, List.nodup_nil⟩
  | mixin _ _ hpath _ ih => exact List.nodup_cons.2 ⟨hpath, ih⟩

/-- The ways along which the declaration of a class is written. -/
def Library.inclusionWays (lib : Library) (c : ClassRecord) : List Way :=
  ways (lib.ancestors .mixin c) [c.name] c

/-- **A mixin is included along every way that leads to it.** While bodies are
written, the path of those around them holds no name twice. The declaration
is written along its ways, each once and in the order of their places:
every way from the class through listed mixins of its ancestry that comes to
no name twice, and beside these only ways to a name that is no mixin of the
ancestry, which have a marker alone. So a mixin is written as often as there
are ways that end at it. -/
theorem classBody_eq_flatMap_ways (m : Mapper) (c : ClassRecord) :
    (∀ path d, Written m c path d → path.Nodup) ∧
      classBody m c =
        (m.library.inclusionWays c).flatMap (wayPieces m (m.library.ancestors .mixin c) c) ∧
      (m.library.inclusionWays c).Pairwise Way.Before ∧
      (∀ way d, classAt? (m.library.ancestors .mixin c) c way = some d →
        (way ∈ m.library.inclusionWays c ↔ (c.name :: way.names).Nodup)) ∧
      (∀ way ∈ m.library.inclusionWays c,
        classAt? (m.library.ancestors .mixin c) c way = none →
        ∃ before i name, way = before ++ [(i, name)] ∧
          (classAt? (m.library.ancestors .mixin c) c before).isSome ∧
          (m.library.ancestors .mixin c).find? (·.name = name) = none) ∧
      ∀ name, (classBody m c).countP (BodyPiece.marks name) =
        (m.library.inclusionWays c).countP (Way.endsAt name) := by
  refine ⟨fun path d h => h.nodup, bodyPieces_eq_flatMap_ways, pairwise_ways, fun way d h => ?_,
    fun way hway h => exists_of_classAt?_eq_none hway h, fun name => countP_marks_bodyPieces⟩
  rw [Library.inclusionWays, mem_ways_iff h, List.nodup_cons, and_comm]
  refine and_congr_left fun _ => ⟨fun h hself => h _ hself List.mem_cons_self, ?_⟩
  intro h name hname
  rw [List.mem_singleton]
  rintro rfl
  exact h hname

end Ambient
