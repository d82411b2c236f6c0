import Ambient.Annotation.Mapping
import Ambient.Declaration.Doc

/-!
# Method declarations

Everything a class declares is a method: its functions, the accessors of
its properties and the accessor of a singleton. A method is one line below
a comment. The line of a suppressed method is itself a comment.
-/

namespace Ambient

open Annotation

/-- A method as it is declared. -/
structure Method where
  /-- The name as the record has it. -/
  name : String
  access : Access
  isStatic : Bool
  isAbstract : Bool
  isOverride : Bool
  /-- The method came into the class from a mixin. -/
  fromMixin : Bool
  params : String
  returnType : String
  /-- The documentation as the record has it. -/
  doc : List String

/-- The indentation of members. -/
def memberIndent : String := "    "

/-- The word for a visibility, where it has one. -/
def Access.word : Access → String
  | .publicAccess => "public "
  | .protectedAccess => "protected "
  | .privateAccess | .unspecified => ""

namespace Method

/-- The declaration itself. -/
def declaration (m : Method) : String :=
  m.access.word ++ (if m.isStatic then "static " else "") ++
    (if m.isAbstract then "abstract " else "") ++ (if m.isOverride then "override " else "") ++
    memberName m.name ++ "(" ++ m.params ++ "): " ++ m.returnType ++ ";"

/-- The remarks after the declaration. -/
def remarks (m : Method) : String :=
  match m.isAbstract, m.fromMixin with
  | false, false => ""
  | true, false => " // Abstract"
  | false, true => " // Mixin"
  | true, true => " // Abstract Mixin"

/-- The method in the declaration of a class: comment and line. -/
def render (m : Method) (className link : String) (suppressed : Bool) : String :=
  Doc.block memberIndent (Doc.declaredLines className m.doc) link ++
    memberIndent ++ (if suppressed then "// " else "") ++ m.declaration ++ m.remarks ++ "\n"

end Method

/-- The parameters from the first one on. Once one is optional, or gathers a
variable number of arguments, so is every later one. -/
def paramTexts (m : Mapper) : Bool → List Param → List String
  | _, [] => []
  | isOptional, p :: params =>
    let isOptional := isOptional || p.isOptional || p.name == "varargs"
    (p.name ++ (if isOptional then "?" else "") ++ ": " ++ m.mapRef p.type) ::
      paramTexts m isOptional params

/-- The parameters of a member; a list that was never seen is empty. -/
def renderParams (m : Mapper) (params : Option (List Param)) : String :=
  ", ".intercalate (paramTexts m false (params.getD []))

/-- The type a member returns. -/
def renderReturn (m : Mapper) (type : Option TypeRef) : String :=
  match type with
  | none => "void"
  | some type => m.mapRef (some type)

end Ambient
