import Ambient.Text.Search
import Ambient.Text.Uppercase

/-!
# Names of classes and members

A class name is a dotted path: what stands before the last dot is its
namespace, what follows is its short name. A member name that is not a
plain identifier is written between double quotes.
-/

namespace Ambient

/-- The parts of a name before and after its last dot. -/
def splitLastDot (name : List Char) : List Char × List Char :=
  let short := (name.reverse.takeWhile (· ≠ '.')).reverse
  (name.take (name.length - short.length - 1), short)

/-- A name is cut at a dot that no other follows. -/
theorem splitLastDot_append {ns short : List Char} (h : '.' ∉ short) :
    splitLastDot (ns ++ '.' :: short) = (ns, short) := by
  have hshort : (ns ++ '.' :: short).reverse.takeWhile (· ≠ '.') = short.reverse := by
    rw [List.reverse_append, List.reverse_cons, List.append_assoc, List.singleton_append,
      Text.takeWhile_ne_append_cons (mt List.mem_reverse.1 h)]
  have hlength : (ns ++ '.' :: short).length - short.length - 1 = ns.length := by
    simp only [List.length_append, List.length_cons]
    omega
  simp only [splitLastDot, hshort, List.reverse_reverse, hlength, List.take_left]

/-- A name without a dot is all short name. -/
theorem splitLastDot_eq_of_notMem {name : List Char} (h : '.' ∉ name) :
    splitLastDot name = ([], name) := by
  have hshort : name.reverse.takeWhile (· ≠ '.') = name.reverse := by
    simpa using Text.takeWhile_ne_append (mt List.mem_reverse.1 h) []
  simp only [splitLastDot, hshort, List.reverse_reverse, Nat.sub_self, Nat.zero_sub,
    List.take_zero]

/-- A name with a dot has a last one. -/
theorem exists_eq_append_dot {name : List Char} (h : '.' ∈ name) :
    ∃ ns short, name = ns ++ '.' :: short ∧ '.' ∉ short := by
  obtain ⟨short, ns, hname, hshort⟩ := List.eq_append_cons_of_mem (List.mem_reverse.2 h)
  refine ⟨ns.reverse, short.reverse, ?_, by simpa using hshort⟩
  rw [← List.reverse_reverse name, hname]
  simp

/-- The namespace of a class, empty when its name has no dot. -/
def namespaceOf (name : String) : String :=
  String.ofList (splitLastDot name.toList).1

/-- The last segment of a class name. -/
def shortNameOf (name : String) : String :=
  String.ofList (splitLastDot name.toList).2

/-- The namespace, a dot and the short name are the name again. -/
theorem namespaceOf_append_shortNameOf {name : String} (h : namespaceOf name ≠ "") :
    namespaceOf name ++ "." ++ shortNameOf name = name := by
  rw [← String.toList_inj]
  by_cases hdot : '.' ∈ name.toList
  · obtain ⟨ns, short, hname, hshort⟩ := exists_eq_append_dot hdot
    simp [namespaceOf, shortNameOf, hname, splitLastDot_append hshort]
  · exact absurd (by rw [namespaceOf, splitLastDot_eq_of_notMem hdot]) h

/-- The source file of a class whose record names none: its path with the
dots as slashes. -/
def sourceFileOf (name : String) : String :=
  String.ofList (name.toList.map fun c => if c = '.' then '/' else c) ++ ".js"

/-- A letter of ASCII or an underscore. -/
def isIdentifierStart (c : Char) : Bool :=
  c.isAlpha || c == '_'

/-- A letter or a digit of ASCII or an underscore. -/
def isIdentifierChar (c : Char) : Bool :=
  c.isAlphanum || c == '_'

/-- A name that can stand in a declaration as it is. -/
def isPlainIdentifier (name : String) : Bool :=
  match name.toList with
  | [] => false
  | c :: rest => isIdentifierStart c && rest.all isIdentifierChar

/-- A member name as declarations write it. -/
def memberName (name : String) : String :=
  if isPlainIdentifier name then name else "\"" ++ name ++ "\""

example : namespaceOf "a.b.C" = "a.b" ∧ shortNameOf "a.b.C" = "C" := by decide +kernel
example : namespaceOf "C" = "" ∧ shortNameOf "C" = "C" := by decide +kernel
example : namespaceOf ".C" = "" ∧ shortNameOf "C." = "" := by decide +kernel

end Ambient
