import Mathlib.Data.List.Sort
import Ambient.Proofs.Declaration.Layout

/-!
# How many blocks a namespace has

A block ends where the namespace changes, so a namespace has as many blocks
as it has runs in the order of the names (`openings_layout`). Names of one
namespace have a common beginning, and only names with the same beginning
sort between them: those of the namespace itself and those of the namespaces
nested in it. A class of a nested namespace that does sort between two
classes of the outer one interrupts it, and by `openings_eq_one_iff` a
namespace has one block exactly when nothing interrupts it.
-/

namespace Ambient

open Annotation

variable {lib : Library} {config : Config} {cs : List ClassRecord} {n k : String}
variable {previous : Option String} {ks : List String}

/-! ## Where a block is opened -/

/-- The piece opens a block of the namespace. -/
def Piece.opens (n : String) : Piece → Bool
  | .openNamespace m => m = n
  | _ => false

/-- How many blocks of the namespace are opened. -/
def openings (n : String) (ps : List Piece) : Nat :=
  ps.countP (Piece.opens n)

/-- How many runs of `n` begin in a list, when `previous` stands before it. -/
def starts (n : String) : Option String → List String → Nat
  | _, [] => 0
  | previous, k :: ks =>
    (if k = n ∧ previous ≠ some n then 1 else 0) + starts n (some k) ks

theorem openings_append (ps qs : List Piece) :
    openings n (ps ++ qs) = openings n ps + openings n qs :=
  List.countP_append

theorem openings_classPieces (m : Mapper) (link : ClassRecord → String) (b : Bool)
    (c : ClassRecord) : openings n (classPieces m link b c) = 0 := by
  obtain ⟨inner, hinner, hall⟩ := exists_classPieces_eq m link c
  rw [hinner, openings, List.countP_eq_zero]
  intro p hp hopens
  rcases List.mem_cons.1 hp with rfl | hp
  · cases hopens
  · have hp := hall p hp
    cases p <;> first | cases hopens | cases hp

/-- Only the opening of the next block counts between two runs. -/
theorem openings_between (hn : n ≠ "") (isOpen : Bool) :
    openings n ((if isOpen then [.closeNamespace, .blankLine] else []) ++
        if decide (k ≠ "") then [.openNamespace k] else []) =
      if k = n then 1 else 0 := by
  have hends : openings n (if isOpen then [.closeNamespace, .blankLine] else []) = 0 := by
    cases isOpen <;> simp [openings, Piece.opens]
  rw [openings_append, hends, Nat.zero_add]
  by_cases hk : k = ""
  · simp [hk, openings, hn.symm]
  · by_cases hkn : k = n <;> simp [openings, Piece.opens, hkn, hn, hk]

/-- A block of a namespace is opened where a run of it begins. -/
theorem openings_layout {declaration : Bool → ClassRecord → List Piece} (hn : n ≠ "")
    (hdeclaration : ∀ b c, openings n (declaration b c) = 0) (isOpen : Bool) :
    openings n (layout declaration isOpen previous cs) =
      starts n previous (cs.map ClassRecord.namespaceName) := by
  induction cs generalizing isOpen previous with
  | nil => cases isOpen <;> simp [layout, openings, starts, Piece.opens]
  | cons c cs ih =>
    rw [layout, List.map_cons, starts]
    by_cases hsame : previous = some c.namespaceName
    · have hold : ¬ (c.namespaceName = n ∧ previous ≠ some n) := by
        rintro ⟨rfl, hne⟩
        exact hne hsame
      have hblank : openings n [.blankLine] = 0 := by simp [openings, Piece.opens]
      simp only [if_pos hsame, if_neg hold, List.cons_append]
      rw [← List.singleton_append, openings_append, openings_append, hblank, hdeclaration, ih,
        hsame, Nat.zero_add]
    · have hnew : (c.namespaceName = n ∧ previous ≠ some n) ↔ c.namespaceName = n := by
        refine and_iff_left_of_imp ?_
        rintro rfl
        exact hsame
      simp only [if_neg hsame, hnew]
      rw [openings_append, openings_append, openings_between hn, hdeclaration, ih, Nat.add_zero]

theorem openings_declarationPieces (cwd : String) (hn : n ≠ "") :
    openings n (declarationPieces cwd config lib) =
      starts n none (lib.sorted.map ClassRecord.namespaceName) :=
  openings_layout hn (fun b c => openings_classPieces _ _ b c) false

/-! ## Interruptions -/

theorem starts_cons_ne (hk : k ≠ n) : starts n previous (k :: ks) = starts n (some k) ks := by
  simp [starts, hk]

theorem starts_cons_self (h : previous ≠ some n) :
    starts n previous (n :: ks) = starts n (some n) ks + 1 := by
  rw [starts, if_pos ⟨rfl, h⟩, Nat.add_comm]

theorem starts_cons_again : starts n (some n) (n :: ks) = starts n (some n) ks := by
  simp [starts]

/-- Outside of its runs the name starts again when it occurs again. -/
theorem starts_eq_zero_iff (h : previous ≠ some n) : starts n previous ks = 0 ↔ n ∉ ks := by
  induction ks generalizing previous with
  | nil => simp [starts]
  | cons k ks ih =>
    by_cases hk : k = n
    · simp [hk, starts_cons_self h]
    · have hk' : some k ≠ some n := fun heq => hk (Option.some.inj heq)
      rw [starts_cons_ne hk, ih hk', List.mem_cons, not_or]
      exact (and_iff_right (Ne.symm hk)).symm

/-- Within a run it starts again when it occurs behind another name. -/
theorem starts_some_eq_zero_iff :
    starts n (some n) ks = 0 ↔ ¬ ∃ k ≠ n, [k, n].Sublist ks := by
  induction ks with
  | nil => simp [starts]
  | cons k ks ih =>
    by_cases hk : k = n
    · subst hk
      rw [starts_cons_again, ih]
      refine not_congr (exists_congr fun k' => and_congr_right fun hk' => ?_)
      exact ⟨.cons k, fun hsub => hsub.of_cons_of_ne hk'⟩
    · have hk' : some k ≠ some n := fun heq => hk (Option.some.inj heq)
      rw [starts_cons_ne hk, starts_eq_zero_iff hk', not_iff_not]
      constructor
      · intro hmem
        exact ⟨k, hk, (List.singleton_sublist.2 hmem).cons_cons k⟩
      · rintro ⟨k', hne, hsub⟩
        have hmem : n ∈ k :: ks := hsub.subset (by simp)
        exact (List.mem_cons.1 hmem).resolve_left (Ne.symm hk)

/-- **A name starts once** unless another one stands between two of its
occurrences. -/
theorem starts_le_one_iff (h : previous ≠ some n) :
    starts n previous ks ≤ 1 ↔ ¬ ∃ k ≠ n, [n, k, n].Sublist ks := by
  induction ks generalizing previous with
  | nil => simp [starts]
  | cons k ks ih =>
    by_cases hk : k = n
    · subst hk
      have hone : starts k (some k) ks + 1 ≤ 1 ↔ starts k (some k) ks = 0 := by omega
      rw [starts_cons_self h, hone, starts_some_eq_zero_iff]
      refine not_congr (exists_congr fun k' => and_congr_right fun hk' => ?_)
      exact List.cons_sublist_cons.symm
    · have hk' : some k ≠ some n := fun heq => hk (Option.some.inj heq)
      rw [starts_cons_ne hk, ih hk']
      refine not_congr (exists_congr fun k' => and_congr_right fun _ => ?_)
      exact ⟨.cons k, fun hsub => hsub.of_cons_of_ne (Ne.symm hk)⟩

/-! ## Names between names -/

/-- What sorts between two texts with the same beginning begins alike. -/
theorem prefix_of_lt_of_lt {p x y d : List Char} (hx : p ++ x < d) (hy : d < p ++ y) : p <+: d := by
  induction p generalizing d with
  | nil => exact List.nil_prefix
  | cons c p ih =>
    cases d with
    | nil => exact absurd hx (List.not_lt_nil _)
    | cons c' d =>
      rw [List.cons_append, List.cons_lt_cons_iff] at hx hy
      have hc : c = c' := by
        rcases hx with hlt | ⟨heq, -⟩
        · rcases hy with hlt' | ⟨heq, -⟩
          · exact absurd hlt' (Char.lt_asymm hlt)
          · exact heq.symm
        · exact heq
      subst hc
      have hirrefl : ¬ c < c := Char.lt_irrefl c
      have ih := ih (hx.resolve_left hirrefl).2 (hy.resolve_left hirrefl).2
      exact List.cons_prefix_cons.2 ⟨rfl, ih⟩

/-- A name begins with its namespace and a dot. -/
theorem prefix_of_namespaceOf {name : String} (h : namespaceOf name = n) (hn : n ≠ "") :
    (n ++ ".").toList <+: name.toList := by
  refine ⟨(shortNameOf name).toList, ?_⟩
  rw [← String.toList_append, ← h, namespaceOf_append_shortNameOf (h ▸ hn)]

/-- Of the names that begin with a namespace and a dot, those of other
namespaces lie in nested ones. -/
theorem namespaceOf_ne_iff_nested {name : String} (h : (n ++ ".").toList <+: name.toList) :
    namespaceOf name ≠ n ↔ (n ++ ".").toList <+: (namespaceOf name).toList := by
  obtain ⟨rest, hrest⟩ := h
  have hname : name.toList = n.toList ++ '.' :: rest := by simp [← hrest]
  by_cases hdot : '.' ∈ rest
  · obtain ⟨inner, short, rfl, hshort⟩ := exists_eq_append_dot hdot
    have hns : (namespaceOf name).toList = n.toList ++ '.' :: inner := by
      rw [namespaceOf, hname, ← List.cons_append, ← List.append_assoc, splitLastDot_append hshort,
        String.toList_ofList]
    refine iff_of_true (fun heq => ?_) ⟨inner, by simp [hns]⟩
    have hlength := congrArg List.length (heq ▸ hns)
    simp at hlength
  · have hns : namespaceOf name = n := by
      rw [namespaceOf, hname, splitLastDot_append hdot, String.ofList_toList]
    rw [hns]
    refine iff_of_false (fun hne => hne rfl) fun hprefix => ?_
    have hlength := hprefix.length_le
    simp at hlength

/-- A class of a namespace nested in `n` sorts between two classes of `n`. -/
def Library.Interrupted (lib : Library) (n : String) : Prop :=
  ∃ c ∈ lib.names, ∃ d ∈ lib.names, ∃ e ∈ lib.names,
    namespaceOf c = n ∧ (n ++ ".").toList <+: (namespaceOf d).toList ∧ namespaceOf e = n ∧
      c < d ∧ d < e

/-- In a list with a strict order, three members in that order are a part. -/
theorem sublist_iff_of_pairwise_lt {names : List String} (h : names.Pairwise (· < ·))
    {c d e : String} :
    [c, d, e].Sublist names ↔ (c ∈ names ∧ d ∈ names ∧ e ∈ names) ∧ c < d ∧ d < e := by
  constructor
  · intro hsub
    have hlt := h.sublist hsub
    simp only [List.pairwise_cons, List.mem_cons, List.not_mem_nil] at hlt
    exact ⟨⟨hsub.subset (by simp), hsub.subset (by simp), hsub.subset (by simp)⟩,
      hlt.1 d (by simp), hlt.2.1 e (by simp)⟩
  · rintro ⟨⟨hc, hd, he⟩, hcd, hde⟩
    have hlt : [c, d, e].Pairwise (· < ·) := by
      simp only [List.pairwise_cons, List.mem_cons, List.not_mem_nil, or_false, forall_eq_or_imp,
        forall_eq]
      exact ⟨⟨hcd, hcd.trans hde⟩, hde, by simp, .nil⟩
    have hsubset : [c, d, e] ⊆ names := by simp [hc, hd, he]
    exact List.sublist_of_subperm_of_pairwise
      (List.subperm_of_subset (hlt.imp fun hlt => hlt.ne) hsubset) hlt h

theorem exists_sublist_iff_interrupted (hn : n ≠ "") :
    (∃ k ≠ n, [n, k, n].Sublist (lib.sorted.map ClassRecord.namespaceName)) ↔
      lib.Interrupted n := by
  have hns : lib.sorted.map ClassRecord.namespaceName =
      (lib.sorted.map (·.name)).map namespaceOf := by
    rw [Library.map_namespaceName_sorted, Library.map_name_sorted]
  have hmem : ∀ name, name ∈ lib.sorted.map (·.name) ↔ name ∈ lib.names := fun name => by
    rw [Library.mem_names_iff_exists_sorted, List.mem_map]
  rw [hns]
  constructor
  · rintro ⟨k, hk, hsub⟩
    obtain ⟨names, hnames, heq⟩ := List.sublist_map_iff.1 hsub
    obtain ⟨c, names, rfl, hc, heq⟩ := List.map_eq_cons_iff.1 heq.symm
    obtain ⟨d, names, rfl, hd, heq⟩ := List.map_eq_cons_iff.1 heq
    obtain ⟨e, names, rfl, he, heq⟩ := List.map_eq_cons_iff.1 heq
    obtain rfl := List.map_eq_nil_iff.1 heq
    obtain ⟨⟨hcm, hdm, hem⟩, hcd, hde⟩ :=
      (sublist_iff_of_pairwise_lt Library.pairwise_sorted).1 hnames
    -- the name between the two begins with their namespace, and has another one
    obtain ⟨x, hx⟩ := prefix_of_namespaceOf hc hn
    obtain ⟨y, hy⟩ := prefix_of_namespaceOf he hn
    have hbegins : (n ++ ".").toList <+: d.toList := by
      refine prefix_of_lt_of_lt (x := x) (y := y) ?_ ?_
      · rwa [hx, ← String.lt_iff_toList_lt]
      · rwa [hy, ← String.lt_iff_toList_lt]
    have hnested := (namespaceOf_ne_iff_nested hbegins).1 (hd.symm ▸ hk)
    exact ⟨c, (hmem c).1 hcm, d, (hmem d).1 hdm, e, (hmem e).1 hem, hc, hnested, he, hcd, hde⟩
  · rintro ⟨c, hcm, d, hdm, e, hem, hc, hnested, he, hcd, hde⟩
    have hk : namespaceOf d ≠ n := by
      intro heq
      have hlength := (heq ▸ hnested).length_le
      simp at hlength
    refine ⟨namespaceOf d, hk, ?_⟩
    have hsub : [c, d, e].Sublist (lib.sorted.map (·.name)) :=
      (sublist_iff_of_pairwise_lt Library.pairwise_sorted).2
        ⟨⟨(hmem c).2 hcm, (hmem d).2 hdm, (hmem e).2 hem⟩, hcd, hde⟩
    simpa [hc, he] using hsub.map namespaceOf

/-- **A namespace has one block** exactly when no class of a nested namespace
sorts between two of its classes. -/
theorem openings_eq_one_iff (cwd : String) (config : Config) (lib : Library) {n : String}
    (hn : n ≠ "") (hclass : ∃ c ∈ lib.names, namespaceOf c = n) :
    openings n (declarationPieces cwd config lib) = 1 ↔ ¬ lib.Interrupted n := by
  have hmem : n ∈ lib.sorted.map ClassRecord.namespaceName := by
    obtain ⟨name, hname, hns⟩ := hclass
    obtain ⟨c, hc, rfl⟩ := Library.mem_names_iff_exists_sorted.1 hname
    exact List.mem_map.2 ⟨c, hc, hns⟩
  have hstart : (none : Option String) ≠ some n := by simp
  have hzero : starts n none (lib.sorted.map ClassRecord.namespaceName) ≠ 0 :=
    fun h => (starts_eq_zero_iff hstart).1 h hmem
  rw [openings_declarationPieces cwd hn, ← exists_sublist_iff_interrupted hn,
    ← starts_le_one_iff hstart]
  omega

instance (lib : Library) (n : String) : Decidable (lib.Interrupted n) :=
  inferInstanceAs (Decidable (∃ c ∈ lib.names, ∃ d ∈ lib.names, ∃ e ∈ lib.names,
    namespaceOf c = n ∧ (n ++ ".").toList <+: (namespaceOf d).toList ∧ namespaceOf e = n ∧
      c < d ∧ d < e))

/-- A plain class that declares nothing. -/
def bare (name : String) : ClassRecord :=
  { (default : ClassRecord) with name := name, kind := .plain }

/-- Two classes of a namespace, and one of a nested namespace that sorts
behind both. -/
def nestedLast : Library where
  root := ""
  classes := .ofList [("a.B", bare "a.B"), ("a.C", bare "a.C"), ("a.b.D", bare "a.b.D")]
  named := by decide

theorem openings_nestedLast :
    "a" ≠ "" ∧ (∃ c ∈ nestedLast.names, namespaceOf c = "a") ∧
      openings "a" (declarationPieces "/" .default nestedLast) = 1 := by
  have hclass : ∃ c ∈ nestedLast.names, namespaceOf c = "a" := by decide +kernel
  have hnone : ¬ nestedLast.Interrupted "a" := by decide +kernel
  exact ⟨by decide, hclass, (openings_eq_one_iff "/" .default nestedLast (by decide) hclass).2 hnone⟩

/-- Two classes of a namespace, and between them a class in the namespace
that bears the name of the first. -/
def nestedBetween : Library where
  root := ""
  classes := .ofList [("a.B", bare "a.B"), ("a.B.C", bare "a.B.C"), ("a.D", bare "a.D")]
  named := by decide

/-- **A namespace can have two blocks**, when a class is also the namespace
of another one. -/
theorem openings_nestedBetween_ne :
    "a" ≠ "" ∧ (∃ c ∈ nestedBetween.names, namespaceOf c = "a") ∧
      openings "a" (declarationPieces "/" .default nestedBetween) ≠ 1 := by
  have hclass : ∃ c ∈ nestedBetween.names, namespaceOf c = "a" := by decide +kernel
  have hnamespaces : nestedBetween.sorted.map ClassRecord.namespaceName = ["a", "a.B", "a"] := by
    rw [Library.map_namespaceName_sorted, List.mergeSort_of_pairwise (by decide +kernel)]
    decide +kernel
  refine ⟨by decide, hclass, ?_⟩
  rw [openings_declarationPieces "/" (by decide), hnamespaces]
  decide

end Ambient
