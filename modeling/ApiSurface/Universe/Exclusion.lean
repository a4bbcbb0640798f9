/-
ApiSurface.Universe.Exclusion — classes left out by their names.

A package pattern leaves out the classes of the packages that it stands for, and
those of all packages below the one that it names literally. A class pattern
leaves out the classes that it stands for. A literal name stands for itself,
also where it could be read as a pattern. Empty patterns leave nothing out; a
package pattern of dots alone names the empty package.
-/
import ApiSurface.ClassPath.Names
import ApiSurface.Text.Blank
import ApiSurface.Text.Glob

namespace ApiSurface

/-- The patterns of the classes to leave out. -/
structure Exclusion where
  packages : List String
  classes : List String
deriving DecidableEq

namespace Exclusion

/-- The exclusion that leaves nothing out. -/
def nothing : Exclusion := ⟨[], []⟩

/-- A name without the dots at its ends. -/
def withoutOuterDots (name : String) : String :=
  String.ofList (Text.trimBoth (· == '.') name.toList)

/-- The exclusion that patterns make as they are written. -/
def ofPatterns (packages classes : List String) : Exclusion where
  packages := (packages.filter (· != "")).map withoutOuterDots
  classes := classes.filter (· != "")

/-- Whether a package is below the one with a given name. -/
def isBelow (package ancestor : String) : Bool :=
  (ancestor.toList ++ ['.']).isPrefixOf package.toList

/-- Whether a pattern stands for a name. -/
def standsFor (pattern name : String) : Bool :=
  name == pattern || (Glob.ofString pattern).matchesString name

/-- Whether a package pattern leaves a package out. -/
def coversPackage (pattern package : String) : Bool :=
  standsFor pattern package || isBelow package pattern

/-- Whether a class is left out. -/
def covers (x : Exclusion) (name : String) : Bool :=
  x.packages.any (coversPackage · (Names.qualifier name)) || x.classes.any (standsFor · name)

end Exclusion

end ApiSurface
