import Ambient.Proofs.Declaration.Inclusion
import Ambient.Proofs.Declaration.Layout

/-!
# What suppression changes

Which members are suppressed does not enter into the pieces of a file. It
shows only where a piece is written (`Piece.render_eq`): a method that is
listed under the class of its piece has the mark of a comment between its
indentation and its declaration. That class is the one being declared
(`hosted_declarationPieces`), also where the method is that of an included
mixin. So runs that differ only in what they suppress write the same pieces,
and differ in these marks alone (`emit_suppressing`).
-/

namespace Ambient

open Annotation

variable {m : Mapper} {link : ClassRecord → String} {c d : ClassRecord} {cs : List ClassRecord}
variable {host previous : Option String} {names path : List String} {ps : List Piece}
variable {config : Config} {lib : Library}

/-! ## The place of the mark -/

/-- The table lists the method of the piece under the class of the piece. -/
def Piece.isListed (suppressed : Table (List String)) : Piece → Bool
  | .method className _ x => ((suppressed.get? className).getD []).contains x.name
  | _ => false

/-- What a piece writes before the place of the mark: of a method its comment
and its indentation. -/
def Piece.lead : Piece → String
  | .method className link x =>
    Doc.block memberIndent (Doc.declaredLines className x.doc) link ++ memberIndent
  | _ => ""

/-- A configuration that says nothing and suppresses nothing. -/
def Config.silent : Config := ⟨"", .empty, .empty, none, none⟩

/-- What it writes behind that place: of a method its declaration with the
remarks on it, of another piece all there is, whatever the configuration. -/
def Piece.line : Piece → String
  | .method _ _ x => x.declaration ++ x.remarks ++ "\n"
  | p => p.render .silent

/-- **A piece depends on the table by its mark alone.** -/
theorem Piece.render_eq (config : Config) (p : Piece) :
    p.render config =
      p.lead ++ (if p.isListed config.suppressed then "// " else "") ++ p.line := by
  cases p with
  | method className link x =>
    have hrender : render config (.method className link x) =
        x.render className link (isListed config.suppressed (.method className link x)) := rfl
    rw [hrender, Method.render, lead, line]
    simp only [String.append_assoc]
  | _ =>
    simp only [lead, isListed, Bool.false_eq_true, if_false, String.empty_append]
    rfl

/-- The pieces are settled before anything is suppressed. -/
theorem filePieces_suppressing (cwd now : String) (config : Config)
    (suppressed : Table (List String)) (lib : Library) (template : String) :
    filePieces cwd now { config with suppressed := suppressed } lib template =
      filePieces cwd now config lib template := rfl

/-! ## The class of a method -/

/-- Every method stands in the declaration of its class: each head begins the
declaration of the next of the `names`, which is over at the tail, and
`host` is the class whose declaration has begun before the pieces. -/
def Hosted : Option String → List String → List Piece → Prop
  | host, names, [] => host = none ∧ names = []
  | host, names, p :: ps =>
    match p with
    | .head _ => host = none ∧ ∃ name rest, names = name :: rest ∧ Hosted (some name) rest ps
    | .method className _ _ => host = some className ∧ Hosted host names ps
    | .tail => host.isSome ∧ Hosted none names ps
    | _ => Hosted host names ps

/-- A body is written for one class, whosever mixins it includes. -/
theorem hosted_body_append (name link : String) (body : List BodyPiece) :
    Hosted (some name) names (body.map (BodyPiece.toPiece name link) ++ ps) ↔
      Hosted (some name) names ps := by
  induction body with
  | nil => rfl
  | cons piece body ih =>
    rw [List.map_cons, List.cons_append, ← ih]
    cases piece with
    | method x => exact and_iff_right rfl
    | mixin name => rfl

/-- The declaration of a class begins with its head and ends with its tail. -/
theorem hosted_classPieces_append (b : Bool) :
    Hosted none (c.name :: names) (classPieces m link b c ++ ps) ↔ Hosted none names ps := by
  have hconstruct : ∀ qs, Hosted (some c.name) names
      (((constructorParams? m c).map Piece.construct).toList ++ qs) ↔
        Hosted (some c.name) names qs := by
    intro qs
    cases constructorParams? m c <;> rfl
  have hbody : Hosted (some c.name) names
      ((classBody m c).map (BodyPiece.toPiece c.name (link c)) ++ .tail :: ps) ↔
        Hosted none names ps := by
    rw [hosted_body_append]
    exact and_iff_right rfl
  rw [classPieces, List.cons_append, List.append_assoc, List.cons_append, List.append_assoc,
    List.singleton_append, ← hbody, ← hconstruct]
  constructor
  · rintro ⟨-, name, rest, hnames, h⟩
    cases hnames
    exact h
  · intro h
    exact ⟨rfl, c.name, names, rfl, h⟩

/-- Nothing between two declarations is a method. -/
theorem hosted_between_append (isOpen opens : Bool) (ns : String) :
    Hosted none names ((if isOpen then [.closeNamespace, .blankLine] else []) ++
      (if opens then [.openNamespace ns] else []) ++ ps) ↔ Hosted none names ps := by
  cases isOpen <;> cases opens <;> rfl

/-- **Every method is written for the class being declared**, in the order of
the classes. -/
theorem hosted_layout (isOpen : Bool) :
    Hosted none (cs.map (·.name)) (layout (classPieces m link) isOpen previous cs) := by
  induction cs generalizing isOpen previous with
  | nil => cases isOpen <;> exact ⟨rfl, rfl⟩
  | cons c cs ih =>
    rw [List.map_cons, layout]
    by_cases hsame : previous = some c.namespaceName
    · simp only [if_pos hsame, List.cons_append]
      exact (hosted_classPieces_append isOpen).2 (ih isOpen)
    · simp only [if_neg hsame]
      rw [List.append_assoc, hosted_between_append]
      exact (hosted_classPieces_append _).2 (ih _)

theorem hosted_declarationPieces (cwd : String) (config : Config) (lib : Library) :
    Hosted none (lib.sorted.map (·.name)) (declarationPieces cwd config lib) :=
  hosted_layout false

/-! ## Included methods -/

/-- What stands in the declaration of a class stands in the file. -/
theorem mem_layout {declaration : Bool → ClassRecord → List Piece} {p : Piece}
    (hp : ∀ b, p ∈ declaration b c) (hc : c ∈ cs) (isOpen : Bool) :
    p ∈ layout declaration isOpen previous cs := by
  induction cs generalizing isOpen previous with
  | nil => cases hc
  | cons d cs ih =>
    rw [layout]
    rcases List.mem_cons.1 hc with rfl | hc
    · split <;> simp [hp]
    · split <;> simp [ih hc]

/-- What a class declares itself is written wherever its body is. -/
theorem Written.mem_classBody (h : Written m c path d) {piece : BodyPiece}
    (hpiece : piece ∈ ownPieces m d) : piece ∈ classBody m c := by
  refine h.infix_classBody.subset ?_
  rw [bodyPieces_eq]
  exact List.mem_append_left _ hpiece

/-- A method of an included mixin is written for the class that includes
it. -/
theorem exists_method_mem_declarationPieces (cwd : String) (hc : lib.find? c.name = some c)
    (h : Written (mapperOf config lib) c path d) {x : Method}
    (hx : .method x ∈ ownPieces (mapperOf config lib) d) :
    ∃ link, Piece.method c.name link x ∈ declarationPieces cwd config lib := by
  refine ⟨sourceLink cwd config.output lib.root c.sourceFile, ?_⟩
  refine mem_layout (fun b => ?_) (Library.mem_sorted_iff.2 hc) false
  have hpiece := List.mem_map_of_mem (f := BodyPiece.toPiece c.name
    (sourceLink cwd config.output lib.root c.sourceFile)) (h.mem_classBody hx)
  exact List.mem_cons_of_mem _ (List.mem_append_left _ (List.mem_append_right _ hpiece))

/-! ## Two runs -/

/-- **Suppression only comments out.** Whatever is suppressed, a run fails
alike or writes the same pieces, and all that changes is which methods are
marked: those listed under the class whose declaration they stand in. A
method of an included mixin stands in that of the class that includes it. -/
theorem emit_suppressing (now : String) (config : Config) (lib : Library) (fs : FileSystem) :
    (∀ suppressed, emit now { config with suppressed := suppressed } lib fs =
      readCurrentDir fs >>= fun cwd => (readTemplate config fs).map fun template =>
        String.join ((filePieces cwd now config lib template).map fun p =>
          p.lead ++ (if p.isListed suppressed then "// " else "") ++ p.line)) ∧
    ∀ cwd template,
      Hosted none (lib.sorted.map (·.name)) (filePieces cwd now config lib template) ∧
      ∀ c path d x, lib.find? c.name = some c → Written (mapperOf config lib) c path d →
        .method x ∈ ownPieces (mapperOf config lib) d →
          ∃ link, Piece.method c.name link x ∈ filePieces cwd now config lib template := by
  refine ⟨fun suppressed => ?_, fun cwd template => ⟨?_, ?_⟩⟩
  · have hrender : Piece.render { config with suppressed := suppressed } = fun p =>
        p.lead ++ (if p.isListed suppressed then "// " else "") ++ p.line := by
      funext p
      exact p.render_eq _
    simp only [emit_eq, renderPieces, filePieces_suppressing, hrender]
    rfl
  · -- nothing before the declarations is a head or a method
    exact hosted_declarationPieces cwd config lib
  · intro c path d x hc h hx
    obtain ⟨link, hmem⟩ := exists_method_mem_declarationPieces cwd hc h hx
    exact ⟨link, List.mem_cons_of_mem _ (List.mem_cons_of_mem _ (List.mem_cons_of_mem _ hmem))⟩

end Ambient
