/-
ApiSurface.Settings.Basic — what a run is asked to do.

The settings name the artifacts to scan, the class path they are resolved
against, where the results go, and what to leave out. Every source has one
output file, named after it.
-/
import ApiSurface.Disk.Path
import ApiSurface.Universe.Exclusion
import ApiSurface.Visibility.Rules

namespace ApiSurface

/-- What a run is asked to do. -/
structure Settings where
  /-- The folder of the settings. -/
  root : Path
  /-- The artifacts to scan. -/
  sources : List Path
  classpath : List Path
  /-- The folder of the results. -/
  outputFolder : Path
  /-- Patterns of packages to leave out; a missing one leaves nothing out. -/
  excludedPackages : List (Option String)
  /-- Patterns of classes to leave out; a missing one leaves nothing out. -/
  excludedClasses : List (Option String)
  excludedMethods : MethodExclusions
  isVerbose : Bool
  /-- How many artifacts may be scanned at a time. -/
  jobs : Nat
  markers : Markers

namespace Settings

/-- The ending of archives, which output names do not keep. -/
def archiveEnding : List Char := ".jar".toList

/-- A name without the ending of archives. -/
def withoutArchiveEnding (name : String) : String :=
  let chars := name.toList
  if archiveEnding.isSuffixOf chars then
    String.ofList (chars.take (chars.length - archiveEnding.length))
  else name

/-- The output file of a source. -/
def outputPath (s : Settings) (source : Path) : Path :=
  s.outputFolder.child (withoutArchiveEnding source.name ++ ".txt")

/-- The classes that the settings leave out. -/
def exclusion (s : Settings) : Exclusion :=
  Exclusion.ofPatterns (s.excludedPackages.filterMap id) (s.excludedClasses.filterMap id)

end Settings

end ApiSurface
