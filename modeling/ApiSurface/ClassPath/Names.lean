/-
ApiSurface.ClassPath.Names — lists of names, and the names of entries.

Names are sorted by code point. An entry of an archive or folder defines a class
when it ends in `.class`, is no overlay under `META-INF/` and describes neither
a module nor a package; the class name is the entry without its ending, with
dots for slashes.
-/

namespace ApiSurface

namespace Names

/-- Names in order. -/
def sorted (names : List String) : List String :=
  names.mergeSort fun a b => decide (a ≤ b)

/-- Names without repetitions, each at its first place. -/
def distinct (names : List String) : List String :=
  names.eraseDups

/-- Names in order between brackets. -/
def bracketed (names : List String) : String :=
  "[" ++ ", ".intercalate (sorted names) ++ "]"

/-- Named things without repetitions of a name, each at its first place. -/
def firstOfEach {α : Type} (entries : List (String × α)) : List (String × α) :=
  entries.foldl (fun kept entry => if kept.any (·.1 == entry.1) then kept else kept ++ [entry]) []

/-- The part of a dotted name before its last dot, or nothing. -/
def qualifier (name : String) : String :=
  String.ofList ((name.toList.reverse.dropWhile (· != '.')).drop 1).reverse

/-- The part of a dotted name behind its last dot. -/
def simple (name : String) : String :=
  String.ofList (name.toList.reverse.takeWhile (· != '.')).reverse

end Names

/-- The ending of the entries that define classes. -/
def classEnding : List Char := ".class".toList

/-- The folder of entries that define no classes of their own. -/
def overlayFolder : List Char := "META-INF/".toList

/-- The last names of entries that describe a module or a package. -/
def descriptionNames : List (List Char) := ["module-info".toList, "package-info".toList]

/-- The name of the class that an entry defines. -/
def classDefinedBy? (entry : String) : Option String :=
  let chars := entry.toList
  if classEnding.isSuffixOf chars && !overlayFolder.isPrefixOf chars then
    let stem := chars.take (chars.length - classEnding.length)
    let last := (stem.reverse.takeWhile (· != '/')).reverse
    if descriptionNames.contains last then none
    else some (String.ofList (stem.map fun c => if c = '/' then '.' else c))
  else none

end ApiSurface
