import Ambient.Annotation.Alias
import Ambient.Annotation.Notation
import Ambient.Library.Basic

/-!
# The declaration type of an annotation

An annotation is mapped in stages, and each sees what the one before it
leaves. An opaque marker and a bare array are settled at once. Then the
aliases are replaced and the nullable marker is dropped, and a name of a
described class is settled by qualifying it. Of what is left, promises are
qualified, loose tokens replaced and generic arrays made postfix.
-/

namespace Ambient.Annotation

open Text

/-- The type of which nothing is known. -/
def anyType : List Char := "any".toList

/-- An array of which nothing more is known. -/
def anyArray : List Char := "any[]".toList

/-- What every known class is qualified with, so that a namespace block
cannot shadow it. -/
def globalScope : List Char := "globalThis.".toList

/-- The annotation carries no usable type. -/
def isOpaque (s : List Char) : Bool :=
  s.isEmpty || s == "[[ Function ]]".toList

/-- The text without its array brackets. -/
def withoutArrays (s : List Char) : List Char :=
  replaceWord "[]".toList [] s

/-- The described classes and the aliases that a mapping works with. -/
structure Mapper where
  aliases : Aliases
  library : Library

namespace Mapper

variable (m : Mapper)

/-- The text is the full name of a described class that lies in a namespace. -/
def isKnownClass (s : List Char) : Bool :=
  s.contains '.' && m.library.contains (String.ofList s)

/-- The text is such a name, perhaps with array brackets. -/
def denotesClass (s : List Char) : Bool :=
  m.isKnownClass s || m.isKnownClass (withoutArrays s)

/-- The expression after its aliases are replaced and its nullable marker is
dropped. -/
def expand (s : List Char) : List Char :=
  beforeNullable (substitute m.aliases s)

/-- An expression that names no described class, in declaration notation. -/
def restate (s : List Char) : List Char :=
  bracketArrays [] (replaceLoose (qualifyPromises s))

/-- The declaration type of an expression. -/
def mapChars (s : List Char) : List Char :=
  if isOpaque s then anyType
  else if s = "Array".toList then anyArray
  else
    let t := m.expand s
    if m.denotesClass t then globalScope ++ t else restate t

/-- The declaration type of an expression. -/
def mapType (expr : String) : String :=
  String.ofList (m.mapChars expr.toList)

/-- The declaration type of a type reference, with a pair of brackets for
every dimension. Without a usable type it is `any`. -/
def mapRef (type : Option TypeRef) : String :=
  match type.bind TypeRef.resolve? with
  | some (name, dimensions) =>
    m.mapType name ++ String.ofList ((List.replicate dimensions "[]".toList).flatten)
  | none => String.ofList anyType

/-- The declaration type of an expression that may be missing. -/
def mapOptional (expr : Option String) : String :=
  (expr.map m.mapType).getD (String.ofList anyType)

end Mapper

end Ambient.Annotation
