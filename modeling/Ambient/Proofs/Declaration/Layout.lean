import Mathlib.Data.List.SplitBy
import Mathlib.Data.String.Basic
import Ambient.Declaration.Emit

/-!
# The layout of a declaration file

The classes of a file stand in the order of their names (`sorted`), and each
of them is declared once. Where the namespace changes, a block ends and the
next begins: by `emit_eq_runsText` the text behind the base declarations is
that of the maximal runs of classes of one namespace (`runs`), each written
on its own (`runText`). Blocks do not nest, every block that is opened is
closed, and each head stands in the block of its own namespace
(`placedHeads?_declarationPieces`).
-/

namespace Ambient

open Annotation

variable {lib : Library} {config : Config} {c : ClassRecord} {n : String}

/-! ## The classes in order -/

namespace Library

theorem map_name_filterMap_find? {names : List String} (h : ∀ n ∈ names, n ∈ lib.names) :
    (names.filterMap lib.find?).map (·.name) = names := by
  induction names with
  | nil => rfl
  | cons n names ih =>
    obtain ⟨c, hc⟩ := Option.isSome_iff_exists.1 (contains_iff.2 (h n List.mem_cons_self))
    rw [List.filterMap_cons_some hc, List.map_cons, name_of_find? hc,
      ih fun n' hn' => h n' (List.mem_cons_of_mem _ hn')]

/-- The names of the classes in order are the sorted names. -/
theorem map_name_sorted :
    lib.sorted.map (·.name) = lib.names.mergeSort fun a b => decide (a ≤ b) :=
  map_name_filterMap_find? fun _ hn => (List.mergeSort_perm _ _).mem_iff.1 hn

theorem map_namespaceName_sorted :
    lib.sorted.map ClassRecord.namespaceName =
      (lib.names.mergeSort fun a b => decide (a ≤ b)).map namespaceOf := by
  rw [← map_name_sorted, List.map_map]
  rfl

/-- Every class of the library is among them, and no other. -/
theorem mem_sorted_iff : c ∈ lib.sorted ↔ lib.find? c.name = some c := by
  rw [sorted, List.mem_filterMap]
  constructor
  · rintro ⟨n, -, hc⟩
    rwa [name_of_find? hc]
  · intro hc
    exact ⟨c.name, (List.mergeSort_perm _ _).mem_iff.2 (mem_names_of_find? hc), hc⟩

theorem mem_names_iff_exists_sorted : n ∈ lib.names ↔ ∃ c ∈ lib.sorted, c.name = n := by
  rw [← (List.mergeSort_perm lib.names fun a b => decide (a ≤ b)).mem_iff, ← map_name_sorted,
    List.mem_map]

/-- The order is strict, so no class comes twice. -/
theorem pairwise_sorted : (lib.sorted.map (·.name)).Pairwise (· < ·) := by
  rw [map_name_sorted]
  have hle : (lib.names.mergeSort fun a b => decide (a ≤ b)).Pairwise
      fun a b => decide (a ≤ b) = true :=
    List.pairwise_mergeSort (by simpa using fun a b c => le_trans) (by simpa using le_total) _
  have hne : (lib.names.mergeSort fun a b => decide (a ≤ b)).Nodup :=
    (List.mergeSort_perm _ _).nodup_iff.2 lib.classes.distinct
  refine (hle.and hne).imp fun h => ?_
  exact lt_of_le_of_ne (of_decide_eq_true h.1) h.2

end Library

/-! ## Runs of one namespace -/

/-- The classes cut where the namespace changes. -/
def runs (cs : List ClassRecord) : List (List ClassRecord) :=
  cs.splitBy fun c d => c.namespaceName == d.namespaceName

/-- The namespace of a run, that of its first class. -/
def runNamespace (run : List ClassRecord) : String :=
  (run.head?.map ClassRecord.namespaceName).getD ""

/-- The lists are runs of one namespace each, and none could be longer. -/
structure AreRuns (rs : List (List ClassRecord)) : Prop where
  nonempty : [] ∉ rs
  alike : ∀ run ∈ rs, ∀ c ∈ run, c.namespaceName = runNamespace run
  apart : rs.IsChain fun run next => runNamespace run ≠ runNamespace next

theorem flatten_runs (cs : List ClassRecord) : (runs cs).flatten = cs :=
  List.flatten_splitBy _ cs

theorem areRuns_runs (cs : List ClassRecord) : AreRuns (runs cs) := by
  have hne : [] ∉ runs cs := List.nil_notMem_splitBy _ _
  have halike : ∀ run ∈ runs cs, ∀ c ∈ run, c.namespaceName = runNamespace run := by
    intro run hrun c hc
    have hchain : (run.map ClassRecord.namespaceName).IsChain (· = ·) :=
      (List.isChain_map _).2 ((List.isChain_of_mem_splitBy hrun).imp fun _ _ h => eq_of_beq h)
    obtain ⟨d, run, rfl⟩ := List.exists_cons_of_ne_nil (List.ne_nil_of_mem hc)
    have hall := List.isChain_eq_iff_eq_replicate.1 hchain d.namespaceName rfl
    exact List.eq_of_mem_replicate (hall ▸ List.mem_map_of_mem hc)
  refine ⟨hne, halike, (List.isChain_getLast_head_splitBy _ cs).imp_of_mem_imp ?_⟩
  rintro run next hrun hnext ⟨hr, hn, hdiffer⟩ heq
  -- the last class of a run and the first of the next would share a namespace
  rw [← halike run hrun _ (List.getLast_mem hr), ← halike next hnext _ (List.head_mem hn)] at heq
  simp [heq] at hdiffer

theorem AreRuns.tail {run : List ClassRecord} {rs : List (List ClassRecord)}
    (h : AreRuns (run :: rs)) : AreRuns rs where
  nonempty hnil := h.nonempty (List.mem_cons_of_mem _ hnil)
  alike run' hrun := h.alike run' (List.mem_cons_of_mem _ hrun)
  apart := h.apart.tail

/-! ## The text of the runs -/

/-- A run as it is written: in the block of its namespace, or on its own
without one. An empty line stands between two classes. -/
def runText (declaration : Bool → ClassRecord → String) (run : List ClassRecord) : String :=
  let ns := runNamespace run
  if ns = "" then "\n".intercalate (run.map (declaration false))
  else
    "declare module " ++ ns ++ " \x7b\n" ++ "\n".intercalate (run.map (declaration true)) ++
      "\x7d\n"

/-- Runs one after the other. An empty line follows a block that is not the
last one. -/
def runsText (declaration : Bool → ClassRecord → String) : List (List ClassRecord) → String
  | [] => ""
  | [run] => runText declaration run
  | run :: next :: rs =>
    runText declaration run ++ (if runNamespace run = "" then "" else "\n") ++
      runsText declaration (next :: rs)

variable {declaration : Bool → ClassRecord → List Piece} {cs rest : List ClassRecord}
variable {isOpen : Bool} {previous : Option String} {ns : String}

@[simp] theorem renderPieces_nil : renderPieces config [] = "" := rfl

theorem renderPieces_cons (p : Piece) (ps : List Piece) :
    renderPieces config (p :: ps) = p.render config ++ renderPieces config ps := by
  rw [renderPieces, List.map_cons, String.join_cons, renderPieces]

theorem renderPieces_singleton (p : Piece) : renderPieces config [p] = p.render config := by
  rw [renderPieces_cons, renderPieces_nil, String.append_empty]

theorem renderPieces_append (ps qs : List Piece) :
    renderPieces config (ps ++ qs) = renderPieces config ps ++ renderPieces config qs := by
  induction ps with
  | nil => simp
  | cons p ps ih => rw [List.cons_append, renderPieces_cons, renderPieces_cons, ih,
      String.append_assoc]

/-- Classes of the namespace of the class before them are only set apart. -/
theorem layout_alike (h : ∀ c ∈ cs, c.namespaceName = ns) :
    layout declaration isOpen (some ns) (cs ++ rest) =
      cs.flatMap (fun c => .blankLine :: declaration isOpen c) ++
        layout declaration isOpen (some ns) rest := by
  induction cs with
  | nil => rfl
  | cons c cs ih =>
    have hc : some ns = some c.namespaceName := by rw [h c List.mem_cons_self]
    rw [List.cons_append, layout, if_pos hc, ih fun d hd => h d (List.mem_cons_of_mem _ hd)]
    simp

/-- Where a run begins, the block before it ends and its own is opened. -/
theorem layout_run (h : ∀ d ∈ c :: cs, d.namespaceName = ns) (hprevious : previous ≠ some ns) :
    layout declaration isOpen previous (c :: cs ++ rest) =
      (if isOpen then [.closeNamespace, .blankLine] else []) ++
        (if ns = "" then [] else [.openNamespace ns]) ++
        (declaration (ns ≠ "") c ++
          cs.flatMap fun d => .blankLine :: declaration (ns ≠ "") d) ++
        layout declaration (ns ≠ "") (some ns) rest := by
  have hc : c.namespaceName = ns := h c List.mem_cons_self
  rw [List.cons_append, layout]
  simp only [hc, if_neg hprevious, layout_alike fun d hd => h d (List.mem_cons_of_mem _ hd)]
  by_cases hns : ns = "" <;> simp [hns]

theorem renderPieces_intercalate (b : Bool) (c : ClassRecord) (cs : List ClassRecord) :
    renderPieces config (declaration b c ++ cs.flatMap fun d => .blankLine :: declaration b d) =
      "\n".intercalate ((c :: cs).map fun d => renderPieces config (declaration b d)) := by
  induction cs generalizing c with
  | nil => simp
  | cons d cs ih =>
    rw [List.flatMap_cons, List.cons_append, renderPieces_append, renderPieces_cons, ih,
      List.map_cons, List.map_cons, List.map_cons, String.intercalate_cons_cons,
      String.append_assoc]
    rfl

/-- The first run is opened, written and closed before the others. -/
theorem runsText_cons (text : Bool → ClassRecord → String) (run : List ClassRecord)
    (rs : List (List ClassRecord)) :
    runsText text (run :: rs) =
      (if runNamespace run = "" then "" else "declare module " ++ runNamespace run ++ " \x7b\n") ++
        "\n".intercalate (run.map (text (runNamespace run ≠ ""))) ++
        (if runNamespace run = "" then "" else "\x7d\n" ++ if rs = [] then "" else "\n") ++
        runsText text rs := by
  cases rs with
  | nil => by_cases hns : runNamespace run = "" <;> simp [runsText, runText, hns]
  | cons next rs =>
    by_cases hns : runNamespace run = "" <;>
      simp [runsText, runText, hns, String.append_assoc]

/-- **Runs are written one after the other**, behind the end of the block that
is open before them. -/
theorem renderPieces_layout {rs : List (List ClassRecord)} (h : AreRuns rs)
    (hprevious : ∀ run ∈ rs.head?, previous ≠ some (runNamespace run)) :
    renderPieces config (layout declaration isOpen previous rs.flatten) =
      (if isOpen then "\x7d\n" ++ if rs = [] then "" else "\n" else "") ++
        runsText (fun b c => renderPieces config (declaration b c)) rs := by
  induction rs generalizing isOpen previous with
  | nil => cases isOpen <;> rfl
  | cons run rs ih =>
    obtain ⟨c, cs, rfl⟩ : ∃ c cs, run = c :: cs :=
      List.exists_cons_of_ne_nil fun hnil => h.nonempty (hnil ▸ List.mem_cons_self)
    have hnext : ∀ next ∈ rs.head?,
        some (runNamespace (c :: cs)) ≠ some (runNamespace next) := by
      intro next hnext heq
      exact (List.isChain_cons.1 h.apart).1 next hnext (Option.some.inj heq)
    have hends : renderPieces config (if isOpen then [.closeNamespace, .blankLine] else []) =
        if isOpen then "\x7d\n" ++ "\n" else "" := by
      cases isOpen <;> rfl
    have hopens : ∀ ns, renderPieces config (if ns = "" then [] else [.openNamespace ns]) =
        if ns = "" then "" else "declare module " ++ ns ++ " \x7b\n" := by
      intro ns
      split
      · rfl
      · exact renderPieces_singleton _
    rw [List.flatten_cons, layout_run (h.alike _ List.mem_cons_self) (hprevious _ rfl),
      renderPieces_append, renderPieces_append, renderPieces_append, renderPieces_intercalate,
      ih h.tail hnext, runsText_cons, hends, hopens]
    by_cases hns : runNamespace (c :: cs) = "" <;> simp [hns, String.append_assoc]

/-! ## Blocks -/

/-- The block of a namespace; the empty one has none. -/
def blockNamed? (ns : String) : Option String :=
  if ns = "" then none else some ns

/-- The block that a class has to stand in. -/
def blockOf? (c : ClassRecord) : Option String :=
  blockNamed? c.namespaceName

theorem isSome_blockOf? (c : ClassRecord) : (blockOf? c).isSome = decide (c.namespaceName ≠ "") := by
  by_cases h : c.namespaceName = "" <;> simp [blockOf?, blockNamed?, h]

/-- The name of a class is that of its block, a dot and the short name. -/
theorem name_of_blockOf? {n : String} (h : blockOf? c = some n) : n ++ "." ++ c.shortName = c.name := by
  rw [blockOf?, blockNamed?] at h
  split at h
  · cases h
  · rename_i hns
    rw [← Option.some.inj h]
    exact namespaceOf_append_shortNameOf hns

/-- The heads among the pieces, each with the block that it stands in, when
`block` is open before them. There is no answer if a block is opened within
another one, closed where none is open, or still open at the end. -/
def placedHeads? : Option String → List Piece → Option (List (Option String × String))
  | none, [] => some []
  | some _, [] => none
  | none, .openNamespace n :: ps => placedHeads? (some n) ps
  | some _, .openNamespace _ :: _ => none
  | none, .closeNamespace :: _ => none
  | some _, .closeNamespace :: ps => placedHeads? none ps
  | block, .head text :: ps => (placedHeads? block ps).map ((block, text) :: ·)
  | block, _ :: ps => placedHeads? block ps

/-- The piece is neither a head nor a bound of a block. -/
def Piece.isInner : Piece → Bool
  | .openNamespace _ | .closeNamespace | .head _ => false
  | _ => true

theorem placedHeads?_head (block : Option String) (text : String) (ps : List Piece) :
    placedHeads? block (.head text :: ps) =
      (placedHeads? block ps).map ((block, text) :: ·) := by
  cases block <;> rfl

theorem placedHeads?_inner {p : Piece} (h : p.isInner) (block : Option String) (ps : List Piece) :
    placedHeads? block (p :: ps) = placedHeads? block ps := by
  cases p <;> cases block <;> first | rfl | cases h

theorem placedHeads?_inner_append {inner : List Piece} (h : ∀ p ∈ inner, p.isInner)
    (block : Option String) (ps : List Piece) :
    placedHeads? block (inner ++ ps) = placedHeads? block ps := by
  induction inner with
  | nil => rfl
  | cons p inner ih =>
    rw [List.cons_append, placedHeads?_inner (h p List.mem_cons_self),
      ih fun q hq => h q (List.mem_cons_of_mem _ hq)]

/-- Between two runs the block that is open is closed, and that of the next
namespace is opened. -/
theorem placedHeads?_between (block : Option String) (ns : String) (ps : List Piece) :
    placedHeads? block
        ((if block.isSome then [.closeNamespace, .blankLine] else []) ++
          (if (blockNamed? ns).isSome then [.openNamespace ns] else []) ++ ps) =
      placedHeads? (blockNamed? ns) ps := by
  cases block <;> by_cases hns : ns = "" <;> simp [placedHeads?, blockNamed?, hns]

/-- The declaration of a class is its head and inner pieces, and only the head
depends on where it stands. -/
theorem exists_classPieces_eq (m : Mapper) (link : ClassRecord → String) (c : ClassRecord) :
    ∃ inner, (∀ b, classPieces m link b c = .head (classHead m b c) :: inner) ∧
      ∀ p ∈ inner, p.isInner := by
  refine ⟨_, fun _ => rfl, fun p hp => ?_⟩
  rcases List.mem_append.1 hp with hp | hp
  · rcases List.mem_append.1 hp with hp | hp
    · obtain ⟨params, -, rfl⟩ := Option.map_eq_some_iff.1 (Option.mem_toList.1 hp)
      rfl
    · obtain ⟨piece, -, rfl⟩ := List.mem_map.1 hp
      cases piece <;> rfl
  · rw [List.mem_singleton.1 hp]
    rfl

/-- **Heads are placed**: every class has one, in the block of its namespace,
and the blocks are opened and closed in turn. -/
theorem placedHeads?_layout {head : Bool → ClassRecord → String}
    (hdeclaration : ∀ c, ∃ inner, (∀ b, declaration b c = .head (head b c) :: inner) ∧
      ∀ p ∈ inner, p.isInner) (previous : Option String) (cs : List ClassRecord) :
    placedHeads? (previous.bind blockNamed?)
        (layout declaration (previous.bind blockNamed?).isSome previous cs) =
      some (cs.map fun c => (blockOf? c, head (blockOf? c).isSome c)) := by
  have hplaced : ∀ block b c ps, placedHeads? block (declaration b c ++ ps) =
      (placedHeads? block ps).map ((block, head b c) :: ·) := by
    intro block b c ps
    obtain ⟨inner, hinner, hall⟩ := hdeclaration c
    rw [hinner, List.cons_append, placedHeads?_head, placedHeads?_inner_append hall]
  induction cs generalizing previous with
  | nil => cases previous.bind blockNamed? <;> rfl
  | cons c cs ih =>
    rw [layout]
    by_cases hsame : previous = some c.namespaceName
    · -- the block that is open is that of the class
      have hblock : previous.bind blockNamed? = blockOf? c := by
        rw [hsame, Option.bind_some, blockOf?]
      have hrest := ih previous
      rw [hblock] at hrest ⊢
      simp only [if_pos hsame, List.cons_append]
      rw [placedHeads?_inner (by rfl), hplaced, hrest]
      rfl
    · have hrest := ih (some c.namespaceName)
      rw [Option.bind_some, ← blockOf?] at hrest
      simp only [if_neg hsame]
      rw [← isSome_blockOf?, List.append_assoc, blockOf?, placedHeads?_between, hplaced, ← blockOf?,
        hrest]
      rfl

theorem placedHeads?_declarationPieces (cwd : String) (config : Config) (lib : Library) :
    placedHeads? none (declarationPieces cwd config lib) =
      some (lib.sorted.map fun c =>
        (blockOf? c, classHead (mapperOf config lib) (blockOf? c).isSome c)) :=
  placedHeads?_layout (exists_classPieces_eq _ _) none lib.sorted

/-! ## The file -/

/-- The text of the declaration of a class. -/
def declarationText (cwd : String) (config : Config) (lib : Library) (inNamespace : Bool)
    (c : ClassRecord) : String :=
  renderPieces config (classPieces (mapperOf config lib)
    (fun c => sourceLink cwd config.output lib.root c.sourceFile) inNamespace c)

theorem exists_classHead_eq (m : Mapper) (c : ClassRecord) :
    ∃ rest, ∀ b, classHead m b c =
      "  // " ++ c.name ++ ("\n  " ++ if b then "" else "declare ") ++ rest := by
  refine ⟨declarationKeyword c ++ c.shortName ++ clause "extends" (parentTypes m c) ++
    clause "implements" (implementedTypes m c) ++ " \x7b\n", fun b => ?_⟩
  unfold classHead
  simp only [String.append_assoc]

/-- A declaration says `declare` outside of blocks and not within them, and
nothing else depends on where it stands. -/
theorem exists_declarationText_eq (cwd : String) (config : Config) (lib : Library)
    (c : ClassRecord) :
    ∃ rest,
      declarationText cwd config lib false c = "  // " ++ c.name ++ "\n  declare " ++ rest ∧
        declarationText cwd config lib true c = "  // " ++ c.name ++ "\n  " ++ rest := by
  obtain ⟨inner, hinner, -⟩ := exists_classPieces_eq (mapperOf config lib)
    (fun c => sourceLink cwd config.output lib.root c.sourceFile) c
  obtain ⟨rest, hhead⟩ := exists_classHead_eq (mapperOf config lib) c
  have htext : ∀ b, declarationText cwd config lib b c =
      "  // " ++ c.name ++ ("\n  " ++ if b then "" else "declare ") ++
        (rest ++ renderPieces config inner) := by
    intro b
    rw [declarationText, hinner, renderPieces_cons, ← String.append_assoc, ← hhead]
    rfl
  have hdeclare : "\n  " ++ "declare " = "\n  declare " := by decide
  refine ⟨rest ++ renderPieces config inner, ?_, ?_⟩
  · rw [htext, if_neg Bool.false_ne_true, hdeclare]
  · rw [htext, if_pos rfl, String.append_empty]

theorem renderPieces_declarationPieces (cwd : String) (config : Config) (lib : Library) :
    renderPieces config (declarationPieces cwd config lib) =
      runsText (declarationText cwd config lib) (runs lib.sorted) := by
  have hfirst : ∀ run ∈ (runs lib.sorted).head?,
      (none : Option String) ≠ some (runNamespace run) := by simp
  rw [declarationPieces]
  conv_lhs => rw [← flatten_runs lib.sorted]
  rw [renderPieces_layout (areRuns_runs lib.sorted) hfirst]
  exact String.empty_append

/-- A text is given when the working directory and the base declarations are
there. -/
theorem emit_eq (now : String) (config : Config) (lib : Library) (fs : FileSystem) :
    emit now config lib fs = readCurrentDir fs >>= fun cwd =>
      (readTemplate config fs).map fun template =>
        renderPieces config (filePieces cwd now config lib template) := by
  rw [emit]
  cases readCurrentDir fs with
  | error e => rfl
  | ok cwd => cases readTemplate config fs <;> rfl

/-- **The text of a declaration file.** Behind the heading, the base
declarations and their line break it is that of the maximal runs of classes
of one namespace, in the order of the names. Every class of the library is
declared once, in the block of its own namespace or, without one, outside of
all blocks. -/
theorem emit_eq_runsText (now : String) (config : Config) (lib : Library) (fs : FileSystem) :
    (emit now config lib fs = readCurrentDir fs >>= fun cwd =>
      (readTemplate config fs).map fun template =>
        "// Generated declaration file at " ++ config.timestamp.getD now ++ "\n" ++ template ++
          "\n" ++ runsText (declarationText cwd config lib) (runs lib.sorted)) ∧
    (lib.sorted.map (·.name)).Pairwise (· < ·) ∧
    (∀ c, c ∈ lib.sorted ↔ lib.find? c.name = some c) ∧
    (runs lib.sorted).flatten = lib.sorted ∧ AreRuns (runs lib.sorted) ∧
    (∀ cwd c, ∃ rest,
      declarationText cwd config lib false c = "  // " ++ c.name ++ "\n  declare " ++ rest ∧
        declarationText cwd config lib true c = "  // " ++ c.name ++ "\n  " ++ rest) ∧
    (∀ cwd, placedHeads? none (declarationPieces cwd config lib) =
      some (lib.sorted.map fun c =>
        (blockOf? c, classHead (mapperOf config lib) (blockOf? c).isSome c))) ∧
    ∀ c n, blockOf? c = some n → n ++ "." ++ c.shortName = c.name := by
  refine ⟨?_, Library.pairwise_sorted, fun c => Library.mem_sorted_iff, flatten_runs _,
    areRuns_runs _, fun cwd => exists_declarationText_eq cwd _ _,
    fun cwd => placedHeads?_declarationPieces cwd _ _, fun c n => name_of_blockOf?⟩
  have hheading : (headingPiece now config).render config =
      "// Generated declaration file at " ++ config.timestamp.getD now ++ "\n" := rfl
  have htext (cwd template : String) :
      renderPieces config (filePieces cwd now config lib template) =
        "// Generated declaration file at " ++ config.timestamp.getD now ++ "\n" ++ template ++
          "\n" ++ runsText (declarationText cwd config lib) (runs lib.sorted) := by
    rw [filePieces, renderPieces_cons, renderPieces_cons, renderPieces_cons,
      renderPieces_declarationPieces, hheading, ← String.append_assoc, ← String.append_assoc]
    rfl
  simp only [emit_eq, htext]

end Ambient
