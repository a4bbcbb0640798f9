/-
ApiSurface.Settings.Load — settings from a file.

Settings stand in a YAML mapping. A value of an unsuitable kind counts as
absent, and a number or truth value where a text is asked for is written out.
A single text counts as a list of one. Only a count of jobs below one, and
method exclusions that are no mapping, are refused.

A path that means a folder means the settings file in it, and a tilde in front
means the user's own folder. Where there is no file the settings are the usual
ones. Paths in the file start from its folder.

What a text says as YAML is left to a reader that is handed in (`Yaml.Reader`). The
program takes `reader`, which looks as deep as settings go.
-/
import ApiSurface.Disk.Replace
import ApiSurface.Settings.Overload
import ApiSurface.Text.Quoted
import ApiSurface.Yaml.Meaning

namespace ApiSurface.Settings

/-! ## 1. Values -/

/-- Words for truth values. -/
def truthText (b : Bool) : String := Value.shownBoolean b

/-- The text of an integer, which must not be too long. -/
def integerText (n : Int) : Except SettingsFault String :=
  if Number.maxDigits < (Number.digits n.natAbs).length then .error .longInteger
  else .ok (Number.integerText n)

/-- A value as a text; collections, dates, bytes and nothing are none. -/
def text? : Yaml.Value → Except SettingsFault (Option String)
  | .text s => .ok (some s)
  | .boolean b => .ok (some (truthText b))
  | .integer n => (integerText n).map some
  | .real x => .ok (some x.text)
  | _ => .ok none

/-- The texts among some values. -/
def textsAmong : List Yaml.Value → Except SettingsFault (List String)
  | [] => .ok []
  | v :: rest => do
    let text ← text? v
    return text.toList ++ (← textsAmong rest)

/-- A value as a list of texts. Bytes are a list of numbers. -/
def texts : Yaml.Value → Except SettingsFault (List String)
  | .text s => .ok [s]
  | .list items => textsAmong items
  | .bytes b => .ok (b.map fun n => Number.integerText n.toNat)
  | _ => .ok []

/-- A value as an integer. -/
def integer? : Yaml.Value → Option Int
  | .integer n => some n
  | .text s => Number.integer? s
  | _ => none

/-- A value as a truth value. -/
def truth? : Yaml.Value → Option Bool
  | .boolean b => some b
  | .text s =>
    let word := String.ofList ((Text.strip s).toList.map Number.lowerAscii)
    if ["true", "yes", "1"].contains word then some true
    else if ["false", "no", "0"].contains word then some false
    else none
  | _ => none

/-- The text of a key; collections are never keys. -/
def keyText : Yaml.Value → Except SettingsFault String
  | .nothing => .ok "None"
  | .boolean b => .ok (truthText b)
  | .integer n => integerText n
  | .real x => .ok x.text
  | .text s => .ok s
  | .date d => .ok d.text
  | .bytes b => .ok (Text.quotedBytes b)
  | .list _ | .mapping _ | .opaqueValue => .ok ""

/-- The value of an entry; an entry that is missing says nothing. -/
def entry (data : Yaml.Value) (key : String) : Yaml.Value := (data.entry? key).getD .nothing

/-- The text of an entry, unless it is empty or none. -/
def textEntry? (data : Yaml.Value) (key : String) : Except SettingsFault (Option String) :=
  return (← text? (entry data key)).filter (· != "")

/-! ## 2. Parts -/

/-- The markers that a value gives. -/
def markersOf (data : Yaml.Value) : Except SettingsFault Markers := do
  let usual := Markers.standard
  return {
    internalSuffix := (← textEntry? data "internal_suffix").getD usual.internalSuffix
    defaultInternal := (← textEntry? data "default_internal").getD usual.defaultInternal
    doNotImplement := (← textEntry? data "do_not_implement").getD usual.doNotImplement
    internalPackage := (← textEntry? data "internal_package").getD usual.internalPackage
    blacklist := ← texts (entry data "blacklist") }

/-- The method exclusions that the entries of a mapping give. Keys with the same text
are one class. -/
def exclusionsOf (entries : List (Yaml.Value × Yaml.Value)) :
    Except SettingsFault MethodExclusions :=
  entries.foldlM (fun found (key, value) => do
    let signatures ← texts value
    if signatures.isEmpty then return found
    else return found.add (← keyText key) signatures) []

/-- The method exclusions that a value gives. -/
def methodExclusions : Yaml.Value → Except SettingsFault MethodExclusions
  | .nothing => .ok []
  | .mapping entries => exclusionsOf entries
  | _ => .error .badExclusions

/-- The count of jobs that a value gives. -/
def jobsOf (v : Yaml.Value) : Except SettingsFault Nat :=
  match integer? v with
  | none => .ok 1
  | some n => if n < 1 then .error .badJobs else .ok n.toNat

/-- The folder of the results where settings name none. -/
def usualOutput : Path := ⟨.here, ["build", "api"]⟩

/-- The settings where there is no file. -/
def usual (root : Path) : Settings where
  root := root
  sources := []
  classpath := []
  outputFolder := root.join usualOutput
  excludedPackages := []
  excludedClasses := []
  excludedMethods := []
  isVerbose := false
  jobs := 1
  markers := Markers.standard

/-- The settings that a mapping gives, seen from a folder. -/
def ofValue (root : Path) (data : Yaml.Value) : Except SettingsFault Settings := do
  let output ← textEntry? data "output_dir"
  let jobs ← jobsOf (entry data "jobs")
  let under (entries : List String) : List Path := entries.map fun e => root.join (Path.ofString e)
  return {
    root := root
    sources := under (← texts (entry data "sources"))
    classpath := under (← texts (entry data "classpath"))
    outputFolder := root.join ((output.map Path.ofString).getD usualOutput)
    excludedPackages := (← texts (entry data "exclude_packages")).map some
    excludedClasses := (← texts (entry data "exclude_classes")).map some
    excludedMethods := ← methodExclusions (entry data "exclude_methods")
    isVerbose := (truth? (entry data "verbose")).getD false
    jobs := jobs
    markers := ← markersOf (entry data "markers") }

/-! ## 3. Files -/

/-- How deep settings go: the lists of overloads stand in a mapping in the mapping of
all settings. -/
def depth : Nat := 3

/-- The reader of settings files. -/
def reader : Yaml.Reader := Yaml.read depth

/-- The name of a settings file. -/
def fileName : String := "apiscan.yml"

/-- The path of the settings file that `p` means. -/
def filePath (d : Disk) (home : Place) (p : Path) : Path :=
  Path.resolved home (if d.isFolder home p then p.child fileName else p)

/-- A text with a line feed at the end of every line, whatever ended it before. -/
def withLineFeeds : List Char → List Char
  | [] => []
  | '\r' :: '\n' :: rest => '\n' :: withLineFeeds rest
  | '\r' :: rest => '\n' :: withLineFeeds rest
  | c :: rest => c :: withLineFeeds rest

/-- What the text of a settings file says. A file of blanks says nothing. -/
def readText (read : Yaml.Reader) (file : String) (text : List Char) :
    Except SettingsFault Yaml.Value :=
  if text.all Text.isBlank then .ok .nothing
  else
    match read text with
    | .ok v => .ok v
    | .error .malformed => .error (.unparsable file)
    | .error why => .error (.senseless why)

/-- The settings in the text of a file. -/
def ofText (read : Yaml.Reader) (root : Path) (file : String) (text : List Char) :
    Except SettingsFault Settings := do
  match ← readText read file text with
  | .nothing => ofValue root (.mapping [])
  | .mapping entries => ofValue root (.mapping entries)
  | _ => .error (.notMapping file)

/-- The settings in the file that a path means, which has no tilde in front. -/
def loadFrom (read : Yaml.Reader) (d : Disk) (home : Place) (p : Path) :
    Except SettingsFault Settings :=
  let file := filePath d home p
  match d.read home file with
  | .ok bytes =>
    match String.fromUTF8? bytes with
    | some s => ofText read file.parent file.name (withLineFeeds s.toList)
    | none => .error .notUtf8
  | .error .missing | .error .notFolder => .ok (usual file.parent)
  | .error why => .error (.host why)

/-- The settings in the file that a path means. -/
def load (read : Yaml.Reader) (d : Disk) (h : Host) (p : Path) : Except SettingsFault Settings :=
  match p.expanded? h.personal with
  | some p => loadFrom read d h.home p
  | none => .error .unknownUser

end ApiSurface.Settings
