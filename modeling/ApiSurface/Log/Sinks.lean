/-
ApiSurface.Log.Sinks — where log records go.

A record has to reach the level of the log, and then the level of a sink. The
console is always a sink, and a file may be another one. A quiet console shows
warnings and what is graver, while the file has everything that reaches the
level of the log. A log file keeps what it held before. When another file is put
in its place, that one is no log file, and the rest of the log is lost.

Before the log is set up, the bare messages of warnings and what is graver go to
the console.
-/
import ApiSurface.Disk.Basic
import ApiSurface.Log.Record

namespace ApiSurface.Log

/-! ## 1. Levels -/

/-- What is asked of the log. -/
structure Request where
  isVerbose : Bool
  isQuiet : Bool
  /-- The log file, if there is one. -/
  file : Option Path

namespace Request

/-- The level of the log: a verbose one has everything. -/
def level (r : Request) : Level := if r.isVerbose then .debug else .info

/-- The level of the console. -/
def consoleLevel (r : Request) : Level := if r.isQuiet then .warning else r.level

end Request

/-- A log file that is open. -/
structure LogFile where
  place : Place
  level : Level
  /-- Whether another file has been put in its place. -/
  isReplaced : Bool
deriving DecidableEq

/-- A log that is set up. -/
structure Sinks where
  level : Level
  console : Level
  /-- The log file, if there is one. -/
  file : Option LogFile
deriving DecidableEq

namespace Sinks

/-- The sinks after a file has been put at a place. -/
def withReplaced (s : Sinks) (place : Place) : Sinks :=
  { s with file := s.file.map fun f =>
      if f.place = place then { f with isReplaced := true } else f }

end Sinks

/-! ## 2. Setting up -/

/-- Opens a log file. The folders on the way are made, and so is the file, where they
are missing. -/
def openFile (d : Disk) (home : Place) (p : Path) : Except Trouble Place × Disk :=
  match d.makeFolders home p.anchor p.parent.parts with
  | (.error why, d') => (.error why, d')
  | (.ok (), d') =>
    match d'.filePlace home (Path.resolved home p) with
    | .error why => (.error why, d')
    | .ok place =>
      if (d'.node? place).isSome then (.ok place, d') else (.ok place, d'.put place (.file .empty))

/-- Sets up the log as a request asks. -/
def Request.setUp (r : Request) (d : Disk) (home : Place) : Except Trouble Sinks × Disk :=
  match r.file with
  | none => (.ok ⟨r.level, r.consoleLevel, none⟩, d)
  | some p =>
    let (place, d') := openFile d home p
    (place.map fun place => ⟨r.level, r.consoleLevel, some ⟨place, r.level, false⟩⟩, d')

/-! ## 3. Lines -/

/-- The line of a record on the console. -/
def consoleLine (r : Record) : String :=
  "[" ++ rootName ++ "] " ++ r.level.name ++ " " ++ r.message ++ "\n"

/-- The line of a record in a file. The stamp says when it was left. -/
def fileLine (stamp : String) (r : Record) : String :=
  stamp ++ " " ++ r.level.name ++ " " ++ r.logger ++ " [" ++ r.thread ++ "]: " ++ r.message ++ "\n"

/-- What the console shows of a record. -/
def shownOnConsole (sinks : Option Sinks) (r : Record) : String :=
  match sinks with
  | none => if r.level.reaches .warning then r.message ++ "\n" else ""
  | some s => if r.level.reaches s.level && r.level.reaches s.console then consoleLine r else ""

/-- What a log file gets of a record. -/
def keptInFile (s : Sinks) (f : LogFile) (stamp : String) (r : Record) : String :=
  if !f.isReplaced && r.level.reaches s.level && r.level.reaches f.level then fileLine stamp r
  else ""

/-- What the console shows of some records. -/
def consoleText (sinks : Option Sinks) (records : List Record) : String :=
  String.join (records.map (shownOnConsole sinks))

/-! ## 4. Delivery -/

/-- A log and the disk with its files. -/
structure State where
  /-- The sinks, once the log is set up. -/
  sinks : Option Sinks
  disk : Disk
  /-- The date and time that lines in files start with. -/
  stamp : String

namespace State

/-- The state after a record has gone to the log file. -/
def deliver (s : State) (r : Record) : State :=
  match s.sinks with
  | none => s
  | some sinks =>
    match sinks.file with
    | none => s
    | some f => { s with disk := s.disk.append f.place (keptInFile sinks f s.stamp r).toUTF8 }

/-- The state after some records have gone to the log file. -/
def deliverAll (s : State) (records : List Record) : State := records.foldl deliver s

/-- The state with another disk, on which a file has been put at a place. -/
def withFile (s : State) (d : Disk) (place : Place) : State :=
  { s with disk := d, sinks := s.sinks.map (·.withReplaced place) }

end State

end ApiSurface.Log
