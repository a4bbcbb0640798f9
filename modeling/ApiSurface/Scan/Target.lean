/-
ApiSurface.Scan.Target — the scan of one artifact.

A scan goes through four steps: it is announced, the class path and the target
are opened, the public interface is rendered, and the text is written. Nothing is
written before the text is complete, and a fault in any step ends the scan.
Faults that a scan reports are logged.

The steps are kept apart, with a `Stage` between them, so that the scans of
several artifacts can be interleaved. What a step logs is in the log file when
the next one begins, which matters where the log file is part of what is scanned,
or is replaced by a result.
-/
import ApiSurface.Disk.Replace
import ApiSurface.Log.Sinks
import ApiSurface.Settings.Basic
import ApiSurface.Snapshot.Block

namespace ApiSurface.Scan

/-! ## 1. Rendering -/

/-- The fault of a text that cannot be rendered. -/
def renderFault (target : Path) : ClassFault → Fault
  | .malformed why => .badDescriptor target why
  | .illTyped why => .classFile (.illTyped why)

/-- The text of the public interface of a target, and the count of its classes. -/
def renderTable (s : Settings) (t : ClassTable) (target : Path) : Report Fault String := do
  let known ← Universe.enumerate t s.exclusion target
  let classification := Classification.ofUniverse known s.markers
  classification.report
  let metadata ← Metadata.resolve t
  let v : View := ⟨known, classification, s.markers, s.excludedMethods, metadata⟩
  let classes ← v.includedClasses
  let text ← (Snapshot.render v classes).mapFault (renderFault target)
  Report.info "scanner" (target.name ++ ": " ++ toString classes.length ++ " public API classes")
  return text

/-- The text of the public interface behind a handle. -/
def render (s : Settings) (d : Disk) (home : Place) (h : Handle) : Report Fault String :=
  renderTable s (h.table d home) h.target

/-! ## 2. Writing -/

/-- The fault of a file that cannot be replaced. -/
def writeFault (p : Path) : ReplaceFault → Fault
  | .host .nullInPath => .nullInPath
  | .host why => .cannotWrite p why
  | .unencodable => .unencodable

/-- Writes a file all at once. The content is missing for a text that has no bytes. -/
def write (h : Host) (d : Disk) (p : Path) (content : Option ByteArray) :
    Report Fault Unit × Disk :=
  match d.replaceFile h p content with
  | (.error why, d') => (Report.ofExcept (.error (writeFault p why)), d')
  | (.ok (), d') =>
    let size := (content.map ByteArray.size).getD 0
    (Report.debug "writer" ("Wrote " ++ toString size ++ " bytes to " ++ p.text), d')

/-! ## 3. What scans share -/

/-- What the scans of a run share: the log with the disk, and all records so far. -/
structure World where
  log : Log.State
  records : List Log.Record

namespace World

/-- A disk on which scans run without a log. -/
def ofDisk (d : Disk) : World := ⟨⟨none, d, ""⟩, []⟩

/-- The disk. -/
def disk (w : World) : Disk := w.log.disk

/-- The world after a thread has left some records. -/
def leave (w : World) (thread : String) (records : List Log.Record) : World :=
  let records := records.map fun r => { r with thread := thread }
  ⟨w.log.deliverAll records, w.records ++ records⟩

/-- The world with the disk after the file that `p` means has been replaced, or after
an attempt at that. -/
def withWritten (w : World) (home : Place) (p : Path) (hasSucceeded : Bool) (d : Disk) : World :=
  match hasSucceeded, d.locate home p with
  | true, .ok place => { w with log := w.log.withFile d place }
  | _, _ => { w with log := { w.log with disk := d } }

end World

/-! ## 4. Steps -/

/-- How far the scan of a source has come. -/
inductive Stage where
  | waiting
  | announced
  | opened (h : Handle)
  | rendered (text : String)
  | finished (outcome : Except Fault Path)

/-- The outcome of a scan that is finished. -/
def Stage.outcome? : Stage → Option (Except Fault Path)
  | .finished outcome => some outcome
  | _ => none

/-- What a scan logs about the fault that ends it. -/
def failureRecords (source : Path) (why : Fault) : List Log.Record :=
  if why.isScanFailure then
    [Log.record .error "scanner"
      ("API scan of " ++ source.text ++ " has failed: " ++ why.message)]
  else []

/-- The stage behind a step, with the records that the step leaves. -/
def advance {α : Type} (source : Path) (x : Report Fault α) (next : α → Stage) :
    Stage × List Log.Record :=
  match x.outcome with
  | .ok a => (next a, x.records)
  | .error why => (.finished (.error why), x.records ++ failureRecords source why)

/-- Says where the result of a scan goes. -/
def announce (h : Host) (output : Path) : Stage × List Log.Record :=
  if output.hasNull then (.finished (.error .nullInPath), [])
  else
    (.announced, [Log.record .info "scanner"
      ("API file: " ++ (Path.resolved h.home output).text)])

/-- The next step in the scan of a source, carried out by a thread. -/
def step (s : Settings) (h : Host) (thread : String) (source : Path) (stage : Stage) (w : World) :
    Stage × World :=
  match stage with
  | .waiting =>
    let (stage', records) := announce h (s.outputPath source)
    (stage', w.leave thread records)
  | .announced =>
    let (stage', records) :=
      advance source (Handle.resolve w.disk h.home source s.classpath) .opened
    (stage', w.leave thread records)
  | .opened handle =>
    let (stage', records) := advance source (render s w.disk h.home handle) .rendered
    (stage', w.leave thread records)
  | .rendered text =>
    let output := s.outputPath source
    let (report, d') := write h w.disk output (some text.toUTF8)
    let (stage', records) := advance source report fun () => .finished (.ok output)
    (stage', (w.withWritten h.home output report.outcome.isOk d').leave thread records)
  | .finished _ => (stage, w)

/-- Some steps in a row. -/
def steps (s : Settings) (h : Host) (source : Path) : Nat → Stage → World → Stage × World
  | 0, stage, w => (stage, w)
  | n + 1, stage, w =>
    let (stage', w') := step s h Log.mainThread source stage w
    steps s h source n stage' w'

/-- The count of steps after which every scan is finished. -/
def stepCount : Nat := 4

/-- The whole scan of a source. -/
def scan (s : Settings) (h : Host) (source : Path) (w : World) : Stage × World :=
  steps s h source stepCount .waiting w

end ApiSurface.Scan
