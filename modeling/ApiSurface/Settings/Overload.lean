/-
ApiSurface.Settings.Overload — single overloads to leave out.

An overload is given as a class name, a number sign, and the name of the method
followed by its descriptor. Blanks around both sides are dropped.
-/
import ApiSurface.Settings.Basic
import ApiSurface.Settings.Fault

namespace ApiSurface

/-- One overload of a method of a class. -/
structure Overload where
  className : String
  /-- The name of the method followed by its descriptor. -/
  signature : String
deriving DecidableEq

namespace Overload

/-- The overload that a text spells. -/
def parse (entry : String) : Except SettingsFault Overload :=
  let chars := entry.toList
  match chars.dropWhile (· != '#') with
  | [] => .error (.badExclusion entry)
  | _ :: behind =>
    let className := Text.strip (String.ofList (chars.takeWhile (· != '#')))
    let signature := Text.strip (String.ofList behind)
    if className = "" || signature = "" then .error (.badExclusion entry)
    else .ok ⟨className, signature⟩

end Overload

/-- Method exclusions with some more overloads of a class. -/
def MethodExclusions.add (x : MethodExclusions) (className : String) (signatures : List String) :
    MethodExclusions :=
  putValue className (Names.distinct ((x.lookup className).getD [] ++ signatures)) x

end ApiSurface
