/-
ApiSurface.CommandLine.Overrides — settings as a command line changes them.

Sources and the folder of the results on the command line take the place of
those in the settings. Class path entries and exclusions come on top of them.
-/
import ApiSurface.CommandLine.Arguments
import ApiSurface.Settings.Load

namespace ApiSurface.CommandLine

/-- The text that is given, which must be one. -/
def textOf : Given String → Except SettingsFault String
  | .value text => .ok text
  | .nothing => .error .absentText

/-- The paths in a class path, which colons separate. -/
def classpathEntries (text : String) : List Path :=
  (((splitAtChar ':' text.toList).map String.ofList).filter (· != "")).map Path.ofString

/-- Method exclusions with the overloads that texts name. -/
def withOverloads (x : MethodExclusions) :
    List (Given String) → Except SettingsFault MethodExclusions
  | [] => .ok x
  | given :: rest => do
    let o ← Overload.parse (← textOf given)
    withOverloads (x.add o.className [o.signature]) rest

/-- The count of jobs that a command line asks for, or else that of the settings. -/
def jobsOr (usual : Nat) : Option (Given Int) → Except SettingsFault Nat
  | none => .ok usual
  | some .nothing => .error .absentCount
  | some (.value n) => if n < 1 then .error .badJobsOption else .ok n.toNat

namespace Arguments

/-- Settings as the arguments change them. -/
def applyTo (a : Arguments) (s : Settings) : Except SettingsFault Settings := do
  let classpath ← a.classpath.mapM textOf
  let excludedMethods ← withOverloads s.excludedMethods a.excludedMethods
  let jobs ← jobsOr s.jobs a.jobs
  return { s with
    sources := if a.sources.isEmpty then s.sources else a.sources.map Path.ofString
    classpath := s.classpath ++ classpath.flatMap classpathEntries
    outputFolder := ((a.outputFolder.bind Given.value?).map Path.ofString).getD s.outputFolder
    excludedPackages := s.excludedPackages ++ a.excludedPackages.map Given.value?
    excludedClasses := s.excludedClasses ++ a.excludedClasses.map Given.value?
    excludedMethods := excludedMethods
    isVerbose := a.isVerbose || s.isVerbose
    jobs := jobs }

/-- The settings that the arguments ask for, with a reader for the settings file. -/
def settings (a : Arguments) (read : Yaml.Reader) (d : Disk) (h : Host) :
    Except SettingsFault Settings := do
  a.applyTo (← Settings.load read d h (Path.ofString (← textOf a.config)))

end Arguments

end ApiSurface.CommandLine
