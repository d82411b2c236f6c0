import Ambient.Declaration.Class
import Ambient.Declaration.Config
import Ambient.Declaration.SourceLink
import Ambient.Declaration.Template

/-!
# Declaration files

A file is a list of pieces: the line with the time of generation, the base
declarations, and the declarations of all classes in the order of their
names. Classes of one namespace that follow each other share its block,
and classes without a namespace stand outside of all blocks. The pieces do
not depend on which members are suppressed; that only shows when a method
is written.
-/

namespace Ambient

open Annotation

/-- A piece of a declaration file. -/
inductive Piece where
  | heading (time : String)
  | template (text : String)
  | blankLine
  | openNamespace (name : String)
  | closeNamespace
  /-- The comment and the head line of a class. -/
  | head (text : String)
  | construct (params : String)
  /-- The marker before the body of a mixin. -/
  | mixin (name : String)
  /-- A method in the declaration of a class, with the link to the source. -/
  | method (className link : String) (method : Method)
  | tail

/-- The text of a piece. -/
def Piece.render (config : Config) : Piece → String
  | .heading time => "// Generated declaration file at " ++ time ++ "\n"
  | .template text => text
  | .blankLine => "\n"
  | .openNamespace name => "declare module " ++ name ++ " \x7b\n"
  | .closeNamespace => "\x7d\n"
  | .head text => text
  | .construct params => memberIndent ++ "constructor (" ++ params ++ ");\n"
  | .mixin name => memberIndent ++ "// Mixin: " ++ name ++ "\n"
  | .method className link m => m.render className link (config.isSuppressed className m.name)
  | .tail => classTail

/-- A part of a body in the declaration of a class. -/
def BodyPiece.toPiece (className link : String) : BodyPiece → Piece
  | .method m => .method className link m
  | .mixin name => .mixin name

/-- The declaration of a class. -/
def classPieces (m : Mapper) (link : ClassRecord → String) (inNamespace : Bool) (c : ClassRecord) :
    List Piece :=
  .head (classHead m inNamespace c) ::
    ((constructorParams? m c).map Piece.construct).toList ++
    (classBody m c).map (BodyPiece.toPiece c.name (link c)) ++ [.tail]

/-- Classes one after the other, in blocks by namespace. `previous` is the
namespace of the class before, and `isOpen` tells whether its block is
open. -/
def layout (declaration : Bool → ClassRecord → List Piece) :
    Bool → Option String → List ClassRecord → List Piece
  | isOpen, _, [] => if isOpen then [.closeNamespace] else []
  | isOpen, previous, c :: cs =>
    let ns := c.namespaceName
    if previous = some ns then
      .blankLine :: declaration isOpen c ++ layout declaration isOpen previous cs
    else
      let opens : Bool := ns ≠ ""
      (if isOpen then [.closeNamespace, .blankLine] else []) ++
        (if opens then [.openNamespace ns] else []) ++
        declaration opens c ++ layout declaration opens (some ns) cs

/-- The classes of a library in the order of their names. -/
def Library.sorted (lib : Library) : List ClassRecord :=
  (lib.names.mergeSort fun a b => decide (a ≤ b)).filterMap lib.find?

/-- The mapper of a configuration, once the search for its aliases is made. -/
def mapperOf (config : Config) (lib : Library) : Mapper :=
  ⟨.ofTable config.aliases, lib⟩

/-- The pieces after the base declarations and their line break, for a working
directory. -/
def declarationPieces (cwd : String) (config : Config) (lib : Library) : List Piece :=
  layout
    (classPieces (mapperOf config lib) fun c =>
      sourceLink cwd config.output lib.root c.sourceFile)
    false none lib.sorted

/-- The line with the time of generation: the fixed one, or else `now`. -/
def headingPiece (now : String) (config : Config) : Piece :=
  .heading (config.timestamp.getD now)

/-- All pieces of the file with the given base declarations. -/
def filePieces (cwd now : String) (config : Config) (lib : Library) (template : String) :
    List Piece :=
  headingPiece now config :: .template template :: .blankLine ::
    declarationPieces cwd config lib

/-- The text of pieces. -/
def renderPieces (config : Config) (pieces : List Piece) : String :=
  String.join (pieces.map (Piece.render config))

end Ambient
