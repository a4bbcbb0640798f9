/-
ApiSurface.CommandLine.Run — a run of the program, from a command line to an exit code.

A run reads the command line, then the settings, sets up the log, and scans. A
run that is refused has code two, and one that fails has code one and says why.
A fault that is not foreseen ends the run without a code. In any case the log
has everything up to there, and the disk has what was written before.
-/
import ApiSurface.CommandLine.Overrides
import ApiSurface.Log.Sinks
import ApiSurface.Scan.Pool

namespace ApiSurface.CommandLine

/-- A fault that is not foreseen. -/
inductive Escape where
  | settings (why : SettingsFault)
  | logFile (why : Trouble)
  /-- The log file is given as nothing. -/
  | absentLogFile
  | scan (why : Fault)

/-- How a run ends. -/
inductive Ending where
  | exit (code : Nat)
  | escape (why : Escape)

/-- What a run leaves behind. -/
structure RunResult where
  ending : Ending
  /-- The text of the standard output. -/
  output : String
  /-- The text of the standard error output. -/
  errors : String
  disk : Disk

/-! ## 1. Texts -/

/-- The form of a command line. -/
def usage : String :=
  "usage: apiscan [-h] [-v] [-q] [--log-file FILE] scan [-h] [-v] [-q] [--config FILE]\n" ++
  "               [--classpath ENTRY] [--exclude-package PATTERN] [--exclude-class PATTERN]\n" ++
  "               [--exclude-method CLASS#NAMEDESC] [--output-dir FOLDER] [-j COUNT]\n" ++
  "               [SOURCE ...]\n"

/-- A path as it is shown to somebody in the folder `home`. -/
def shownPath (home : Place) (p : Path) : String :=
  (((Path.resolved home p).relativeTo? home).getD p).text

/-- What a run says about the written files. -/
def writtenText (home : Place) (written : List Path) : String :=
  String.join (written.map fun p => "API written to " ++ shownPath home p ++ "\n")

/-- What a run says about settings that cannot be used. -/
def settingsText (why : SettingsFault) : String :=
  "apiscan: invalid configuration: " ++ why.message ++ "\n"

/-- What a run says where there is nothing to scan. -/
def nothingText : String := "apiscan: no artifacts to scan\n"

/-- What a run says about a scan that failed. -/
def failureText (why : Fault) : String :=
  "apiscan scan failed: " ++ why.message ++ "\nRun with --verbose for more details.\n"

/-! ## 2. Runs -/

/-- What is asked of the log by a command line and the settings. -/
def logRequest (a : Arguments) (s : Settings) : Log.Request :=
  ⟨s.isVerbose, a.isQuiet, (a.logFile.bind Given.value?).map Path.ofString⟩

/-- Scans what the settings name, with a log that is set up. -/
def runScan (h : Host) (s : Settings) (log : Log.State) : RunResult :=
  let result := Scan.scanAll s h ⟨log, []⟩
  let console := Log.consoleText log.sinks result.world.records
  match result.outcome with
  | .ok written => ⟨.exit 0, writtenText h.home written, console, result.world.disk⟩
  | .error why =>
    if why.isScanFailure then ⟨.exit 1, "", console ++ failureText why, result.world.disk⟩
    else ⟨.escape (.scan why), "", console, result.world.disk⟩

/-- Carries out what a command line asks for, with the settings that it leads to. -/
def runWith (stamp : String) (h : Host) (a : Arguments) (s : Settings) (d : Disk) : RunResult :=
  if a.logFile = some .nothing then ⟨.escape .absentLogFile, "", "", d⟩
  else
    match (logRequest a s).setUp d h.home with
    | (.error why, d') => ⟨.escape (.logFile why), "", "", d'⟩
    | (.ok sinks, d') =>
      if s.sources.isEmpty then ⟨.exit 1, "", nothingText, d'⟩
      else runScan h s ⟨some sinks, d', stamp⟩

/-- Carries out a command line. -/
def run (read : Yaml.Reader) (stamp : String) (h : Host) (d : Disk) (texts : List String) :
    RunResult :=
  match parse texts with
  | .error .helped => ⟨.exit 0, usage, "", d⟩
  | .error .refused => ⟨.exit 2, "", usage, d⟩
  | .ok a =>
    match a.settings read d h with
    | .error why =>
      if why.isReported then ⟨.exit 1, "", settingsText why, d⟩
      else ⟨.escape (.settings why), "", "", d⟩
    | .ok s => runWith stamp h a s d

end ApiSurface.CommandLine
