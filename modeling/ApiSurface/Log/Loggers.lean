/-
ApiSurface.Log.Loggers — loggers, their handlers, and the way of a record.

A logger has a name, and what stands before a dot of the name may be the name of a logger
above it. A record goes from its logger upwards. It has to reach the level of the first
logger on this way that has one. Then it comes to the handlers of all loggers on the way,
as far as these pass records on, and every handler takes it whose level it reaches. If there
is no handler at all, the bare message of a warning and what is graver goes to the console.

Setting up the log is a matter of the shared logger. Its handlers are taken away one by one,
and those that a request asks for are put in their place; what it does then is what `Sinks`
say.
-/
import ApiSurface.Log.Sinks

namespace ApiSurface.Log

/-! ## 1. Handlers -/

/-- What writes records. -/
inductive Handler where
  | console (level : Level)
  | file (f : LogFile)
deriving DecidableEq

namespace Handler

/-- The level that a record has to reach. -/
def level : Handler → Level
  | console level => level
  | file f => f.level

/-- Writes a record: the disk afterwards, and what the console shows. -/
def write (h : Handler) (stamp : String) (r : Record) (d : Disk) : Disk × String :=
  match h with
  | console _ => (d, consoleLine r)
  | file f => (if f.isReplaced then d else d.append f.place (fileLine stamp r).toUTF8, "")

end Handler

/-- Hands a record to handlers, one after the other. -/
def emit (stamp : String) (r : Record) : List Handler → Disk → Disk × String
  | [], d => (d, "")
  | h :: rest, d =>
    if r.level.reaches h.level then
      let (d', shown) := h.write stamp r d
      let (d'', more) := emit stamp r rest d'
      (d'', shown ++ more)
    else emit stamp r rest d

/-! ## 2. Loggers -/

/-- A logger. -/
structure Logger where
  /-- Its own level, if it has one. -/
  level : Option Level
  handlers : List Handler
  /-- Whether records go on to the loggers above. -/
  passesOn : Bool
deriving DecidableEq

namespace Logger

/-- A logger that nothing was asked of. -/
def fresh : Logger := ⟨none, [], true⟩

/-- A logger with one more handler. -/
def add (l : Logger) (h : Handler) : Logger := { l with handlers := l.handlers ++ [h] }

/-- A logger without a handler. -/
def remove (l : Logger) (h : Handler) : Logger := { l with handlers := l.handlers.erase h }

/-- A logger from which the handlers that it has now are removed in turn. -/
def cleared (l : Logger) : Logger := l.handlers.foldl remove l

end Logger

/-- The level at the top of all loggers, where there are no handlers. -/
def topLevel : Level := .warning

/-- The level that a record needs on its way. -/
def threshold (way : List Logger) : Level := (way.findSome? (·.level)).getD topLevel

/-- The handlers that a record comes to on its way. -/
def handlersOn : List Logger → List Handler
  | [] => []
  | l :: rest => l.handlers ++ if l.passesOn then handlersOn rest else []

/-- The names of the loggers above a name, the nearest first. All names are written
backwards. At a dot, what stands before it is looked up; if there is no such logger, a second
dot right before the first one does not count. -/
def above (isThere : List Char → Bool) : List Char → List (List Char)
  | [] => []
  | ['.'] => []
  | '.' :: c :: rest =>
    if isThere (c :: rest) then (c :: rest) :: above isThere (c :: rest) else above isThere rest
  | _ :: rest => above isThere rest

/-- The loggers that there are, by their names. -/
structure Loggers where
  entries : List (String × Logger)

namespace Loggers

/-- Whether there is a logger of a name. -/
def has (loggers : Loggers) (name : String) : Bool := (loggers.entries.lookup name).isSome

/-- The logger of a name; one that is not there yet is a fresh one. -/
def get (loggers : Loggers) (name : String) : Logger :=
  (loggers.entries.lookup name).getD .fresh

/-- The loggers with another one of a name. -/
def set (loggers : Loggers) (name : String) (l : Logger) : Loggers := ⟨(name, l) :: loggers.entries⟩

/-- The loggers with one of a name, which is made if it is missing. -/
def ensure (loggers : Loggers) (name : String) : Loggers :=
  if loggers.has name then loggers else loggers.set name .fresh

/-- The names on the way of a record of a logger. -/
def wayNames (loggers : Loggers) (name : String) : List String :=
  let backwards := name.toList.reverse
  name :: (above (fun n => loggers.has (String.ofList n.reverse)) backwards).map
    fun n => String.ofList n.reverse

/-- The loggers on the way of a record of a logger. -/
def way (loggers : Loggers) (name : String) : List Logger := (loggers.wayNames name).map loggers.get

end Loggers

/-! ## 3. Components -/

/-- What a component has to say. -/
structure Message where
  /-- The component; the empty one and none at all have the shared logger. -/
  component : Option String
  level : Level
  text : String
  thread : String
  /-- The date and time when it is left. -/
  stamp : String

/-- The record of a message. -/
def Message.record (m : Message) : Record := ⟨m.level, loggerName m.component, m.text, m.thread⟩

/-- The loggers of a process, and the disk with the log files. -/
structure System where
  loggers : Loggers
  disk : Disk

/-- The system after a component has left a message, and what the console shows of it. -/
def System.leave (s : System) (m : Message) : System × String :=
  let loggers := s.loggers.ensure (loggerName m.component)
  let way := loggers.way (loggerName m.component)
  if m.level.reaches (threshold way) then
    match handlersOn way with
    | [] => (⟨loggers, s.disk⟩, shownOnConsole none m.record)
    | handlers =>
      let (disk, shown) := emit m.stamp m.record handlers s.disk
      (⟨loggers, disk⟩, shown)
  else (⟨loggers, s.disk⟩, "")

/-- Sets up the shared logger as a request asks. The system is given back on failure too,
with the console as the only sink. -/
def Request.configure (r : Request) (home : Place) (s : System) : Except Trouble Unit × System :=
  let shared : Logger := { s.loggers.get rootName with level := some r.level, passesOn := false }
  let shared := shared.cleared.add (.console r.consoleLevel)
  match r.file with
  | none => (.ok (), ⟨s.loggers.set rootName shared, s.disk⟩)
  | some p =>
    match openFile s.disk home p with
    | (.error why, disk) => (.error why, ⟨s.loggers.set rootName shared, disk⟩)
    | (.ok place, disk) =>
      (.ok (), ⟨s.loggers.set rootName (shared.add (.file ⟨place, r.level, false⟩)), disk⟩)

/-! ## 4. Histories -/

/-- What happens to a log. -/
inductive Event where
  /-- The log is set up, anew if it was before. -/
  | setUp (request : Request)
  /-- Some component leaves a message. -/
  | message (m : Message)

/-- The system behind an event, and what the console shows of it. -/
def System.step (home : Place) (s : System) : Event → Except Trouble (System × String)
  | .setUp request =>
    let (outcome, s') := request.configure home s
    outcome.map fun _ => (s', "")
  | .message m => .ok (s.leave m)

/-- The system behind some events, and what the console shows of them. -/
def System.run (home : Place) (s : System) : List Event → Except Trouble (System × String)
  | [] => .ok (s, "")
  | e :: rest => do
    let (s', shown) ← s.step home e
    let (s'', more) ← s'.run home rest
    return (s'', shown ++ more)

end ApiSurface.Log
