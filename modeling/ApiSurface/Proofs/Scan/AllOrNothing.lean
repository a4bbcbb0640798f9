/-
ApiSurface.Proofs.Scan.AllOrNothing — a scan writes its text, or no file at all.

Whatever goes wrong in a scan, no file changes but the log, and no file is new. A scan that
fails before it writes does not make folders either; one that fails in writing may leave
folders on the way to its output. A scan that succeeds changes its output file only
(`Scan.scan_all_or_nothing`).

A scan may be let down at every point, also where the disk would not do so. So the
statements are about scans with any `Services`: what opening, rendering and encoding answer
is left open, and the host may refuse each step of the write. The plain scan is the one with
the services that settings describe (`scan_eq`).
-/
import ApiSurface.Proofs.Disk.Grows
import ApiSurface.Proofs.Scan.FolderTargets
import ApiSurface.Proofs.Scan.WrittenFiles

namespace ApiSurface

/-! ## 1. The log file -/

/-- A place is that of the log file. -/
def Log.State.Logs (l : Log.State) (q : Place) : Prop :=
  ∃ sinks f, l.sinks = some sinks ∧ sinks.file = some f ∧ f.place = q

namespace Log.State

variable {l : Log.State}

theorem sinks_deliver (r : Record) : (l.deliver r).sinks = l.sinks := by
  unfold deliver
  split
  · rfl
  · split <;> rfl

theorem grows_deliver (r : Record) :
    Disk.Grows l.Logs Disk.nowhere Disk.nowhere l.disk (l.deliver r).disk := by
  unfold deliver
  split
  · exact .refl _
  next sinks hsinks =>
  split
  · exact .refl _
  next f hf =>
  refine Disk.grows_append.mono ?_ (fun _ => id) fun _ => id
  rintro q rfl
  exact ⟨sinks, f, hsinks, hf, rfl⟩

/-- Records change the log file, and the log file stays where it is. -/
theorem grows_deliverAll (records : List Record) :
    Disk.Grows l.Logs Disk.nowhere Disk.nowhere l.disk (l.deliverAll records).disk ∧
      (l.deliverAll records).Logs = l.Logs := by
  induction records generalizing l with
  | nil => exact ⟨.refl _, rfl⟩
  | cons r records ih =>
    have hlogs : (l.deliver r).Logs = l.Logs := by
      unfold Logs
      rw [sinks_deliver]
    obtain ⟨hgrows, hsame⟩ := ih (l := l.deliver r)
    rw [hlogs] at hgrows hsame
    exact ⟨(grows_deliver r).trans hgrows, hsame⟩

/-- A file that comes in the place of the log file does not move the log file. -/
theorem logs_withFile (d : Disk) (place : Place) : (l.withFile d place).Logs = l.Logs := by
  funext q
  refine propext ⟨?_, ?_⟩
  · rintro ⟨sinks, f, hsinks, hf, rfl⟩
    obtain ⟨sinks, hs, rfl⟩ := Option.map_eq_some_iff.mp hsinks
    obtain ⟨f, hfile, rfl⟩ := Option.map_eq_some_iff.mp hf
    refine ⟨sinks, f, hs, hfile, ?_⟩
    split_ifs <;> rfl
  · rintro ⟨sinks, f, hsinks, hf, rfl⟩
    refine ⟨sinks.withReplaced place, _, by rw [withFile, hsinks]; rfl,
      by rw [Sinks.withReplaced, hf]; rfl, ?_⟩
    dsimp only
    split_ifs <;> rfl

end Log.State

namespace Scan

/-- A place is that of the log file of a world. -/
abbrev World.Logs (w : World) : Place → Prop := w.log.Logs

theorem logs_withWritten (w : World) (home : Place) (p : Path) (hasSucceeded : Bool) (d : Disk) :
    (w.withWritten home p hasSucceeded d).Logs = w.Logs := by
  unfold World.withWritten
  split
  · exact Log.State.logs_withFile _ _
  · rfl

/-! ## 2. Scans with any services -/

/-- What a scan calls for before it writes. -/
structure Services where
  /-- Opens the target and its class path. -/
  opens : Disk → Report Fault Handle
  /-- Renders what is opened. -/
  renders : Disk → Handle → Report Fault String
  /-- The bytes of a text, if it has any. -/
  encodes : String → Option ByteArray

namespace Services

/-- The services that settings describe. -/
def standard (s : Settings) (h : Host) (source : Path) : Services where
  opens d := Handle.resolve d h.home source s.classpath
  renders d handle := render s d h.home handle
  encodes text := some text.toUTF8

/-- The next step of a scan with some services. -/
def step (x : Services) (s : Settings) (h : Host) (source : Path) (stage : Stage) (w : World) :
    Stage × World :=
  match stage with
  | .waiting =>
    let (stage', records) := announce h (s.outputPath source)
    (stage', w.leave Log.mainThread records)
  | .announced =>
    let (stage', records) := advance source (x.opens w.disk) .opened
    (stage', w.leave Log.mainThread records)
  | .opened handle =>
    let (stage', records) := advance source (x.renders w.disk handle) .rendered
    (stage', w.leave Log.mainThread records)
  | .rendered text =>
    let output := s.outputPath source
    let (report, d') := write h w.disk output (x.encodes text)
    let (stage', records) := advance source report fun () => .finished (.ok output)
    (stage', (w.withWritten h.home output report.outcome.isOk d').leave Log.mainThread records)
  | .finished _ => (stage, w)

/-- A scan with some services after some steps. -/
def steps (x : Services) (s : Settings) (h : Host) (source : Path) (w : World) :
    Nat → Stage × World
  | 0 => (.waiting, w)
  | n + 1 => x.step s h source (x.steps s h source w n).1 (x.steps s h source w n).2

/-- The whole scan with some services. -/
def scan (x : Services) (s : Settings) (h : Host) (source : Path) (w : World) : Stage × World :=
  x.steps s h source w stepCount

variable {x : Services} {s : Settings} {h : Host} {source : Path} {w : World}

/-- With the services of the settings it is the plain scan. -/
theorem scan_eq : (standard s h source).scan s h source w = Scan.scan s h source w := by
  have hstep : ∀ stage w, (standard s h source).step s h source stage w =
      Scan.step s h Log.mainThread source stage w := by
    intro stage w
    cases stage <;> rfl
  have hsteps : ∀ n, (standard s h source).steps s h source w n =
      Scan.steps s h source n .waiting w := by
    intro n
    induction n with
    | zero => rfl
    | succ n ih => rw [steps, ih, hstep, steps_succ]
  exact hsteps stepCount

/-! ## 3. Steps -/

theorem grows_leave (w : World) (thread : String) (records : List Log.Record) :
    Disk.Grows w.Logs Disk.nowhere Disk.nowhere w.disk (w.leave thread records).disk ∧
      (w.leave thread records).Logs = w.Logs :=
  w.log.grows_deliverAll _

/-- A stage that a scan has reached after some steps without having written. -/
inductive Unwritten (n : Nat) : Stage → Prop where
  | failed (why : Fault) : Unwritten n (.finished (.error why))
  | underWay {stage : Stage} : stage.rank = n → n < stepCount → Unwritten n stage

theorem Unwritten.advance {α : Type} {y : Report Fault α} {next : α → Stage} {n : Nat}
    (hn : n < stepCount) (hnext : ∀ a, (next a).rank = n) :
    Unwritten n (Scan.advance source y next).1 := by
  unfold Scan.advance
  split
  · exact .underWay (hnext _) hn
  · exact .failed _

variable (x s h source) in
/-- The steps before the last one leave records and do nothing else. -/
theorem step_unwritten {n : Nat} {stage : Stage} (hn : n < 3) (hs : Unwritten n stage) (w : World) :
    Unwritten (n + 1) (x.step s h source stage w).1 ∧
      Disk.Grows w.Logs Disk.nowhere Disk.nowhere w.disk (x.step s h source stage w).2.disk ∧
      (x.step s h source stage w).2.Logs = w.Logs := by
  cases hs with
  | failed why => exact ⟨.failed why, .refl _, rfl⟩
  | underWay hrank _ =>
    have hlt : n + 1 < stepCount := Nat.succ_lt_succ hn
    subst hrank
    cases stage with
    | waiting =>
      refine ⟨?_, grows_leave w _ _⟩
      unfold step announce
      split_ifs
      · exact .failed _
      · exact .underWay rfl hlt
    | announced => exact ⟨.advance hlt fun _ => rfl, grows_leave w _ _⟩
    | opened handle => exact ⟨.advance hlt fun _ => rfl, grows_leave w _ _⟩
    | rendered text => simp [Stage.rank] at hn
    | finished outcome => simp [Stage.rank] at hn

variable (x s h source w) in
/-- A scan up to its text leaves records and does nothing else. -/
theorem steps_unwritten {n : Nat} (hn : n ≤ 3) :
    Unwritten n (x.steps s h source w n).1 ∧
      Disk.Grows w.Logs Disk.nowhere Disk.nowhere w.disk (x.steps s h source w n).2.disk ∧
      (x.steps s h source w n).2.Logs = w.Logs := by
  induction n with
  | zero => exact ⟨.underWay rfl (by decide), .refl _, rfl⟩
  | succ n ih =>
    obtain ⟨hs, hgrows, hlogs⟩ := ih (Nat.le_of_succ_le hn)
    obtain ⟨hs', hgrows', hlogs'⟩ := step_unwritten x s h source hn hs (x.steps s h source w n).2
    rw [hlogs] at hgrows' hlogs'
    exact ⟨hs', hgrows.trans hgrows', hlogs'⟩

/-- The step that writes a text, put together from the write. -/
theorem step_rendered {text : String} {report : Report Fault Unit} {d' : Disk}
    (hw : write h w.disk (s.outputPath source) (x.encodes text) = (report, d')) :
    x.step s h source (.rendered text) w =
      ((advance source report fun () => .finished (.ok (s.outputPath source))).1,
        (w.withWritten h.home (s.outputPath source) report.outcome.isOk d').leave Log.mainThread
          (advance source report fun () => .finished (.ok (s.outputPath source))).2) := by
  unfold step
  dsimp only
  rw [hw]

/-- The output path of a source is below the output folder. -/
theorem parent_outputPath : (s.outputPath source).parent = s.outputFolder := by
  simp [Settings.outputPath, Path.parent, Path.child]

/-- The step that writes a text fails if the write does, and leaves folders at most. -/
theorem step_of_refused {text : String} {why : ReplaceFault} {d' : Disk}
    (hreplace : w.disk.replaceFile h (s.outputPath source) (x.encodes text) = (.error why, d')) :
    (x.step s h source (.rendered text) w).1 =
        .finished (.error (writeFault (s.outputPath source) why)) ∧
      Disk.Grows w.Logs (s.outputFolder.OnTheWay h.home) Disk.nowhere w.disk
        (x.step s h source (.rendered text) w).2.disk := by
  have hgrows := w.disk.replaceFile_grows h (s.outputPath source) (x.encodes text)
  rw [hreplace, parent_outputPath] at hgrows
  have hgrows : Disk.Grows Disk.nowhere (s.outputFolder.OnTheWay h.home) Disk.nowhere w.disk d' :=
    (hgrows.resolve_right fun hok => by cases hok.1).2
  have hwrite : write h w.disk (s.outputPath source) (x.encodes text) =
      (Report.ofExcept (.error (writeFault (s.outputPath source) why)), d') := by
    rw [write, hreplace]
  obtain ⟨hleave, -⟩ := grows_leave
    (w.withWritten h.home (s.outputPath source) false d') Log.mainThread
    (advance source (Report.ofExcept (.error (writeFault (s.outputPath source) why)))
      fun () => .finished (.ok (s.outputPath source))).2
  rw [step_rendered hwrite]
  exact ⟨rfl, (hgrows.mono (fun _ => False.elim) (fun _ => id) fun _ => id).trans
    (hleave.mono (fun _ => id) (fun _ => False.elim) fun _ => id)⟩

/-- The step that writes a text succeeds if the write does, and leaves the text. -/
theorem step_of_written {text : String} {d' : Disk}
    (hreplace : w.disk.replaceFile h (s.outputPath source) (x.encodes text) = (.ok (), d')) :
    ∃ bytes, (x.step s h source (.rendered text) w).1 = .finished (.ok (s.outputPath source)) ∧
      x.encodes text = some bytes ∧
      (x.step s h source (.rendered text) w).2.disk.HasFile h.home (s.outputPath source) bytes ∧
      Disk.Grows w.Logs (s.outputFolder.OnTheWay h.home)
        (· = (s.outputPath source).destination h.home) w.disk
        (x.step s h source (.rendered text) w).2.disk := by
  have hgrows := w.disk.replaceFile_grows h (s.outputPath source) (x.encodes text)
  rw [hreplace, parent_outputPath] at hgrows
  obtain ⟨-, ⟨bytes, hbytes⟩, hgrows⟩ := hgrows.resolve_left fun herror => by
    obtain ⟨⟨why, hwhy⟩, -⟩ := herror
    cases hwhy
  have hcases := w.disk.replaceFile_cases h (s.outputPath source) bytes
  rw [← hbytes, hreplace] at hcases
  obtain ⟨-, hfile, -⟩ := hcases.resolve_left fun herror => by
    obtain ⟨why, hwhy, -⟩ := herror
    cases hwhy
  obtain ⟨report, hwrite, hok⟩ : ∃ report, write h w.disk (s.outputPath source) (x.encodes text) =
      (report, d') ∧ report.outcome = .ok () := by
    rw [write, hreplace]
    exact ⟨_, rfl, rfl⟩
  have hsucceeded : report.outcome.isOk = true := by rw [hok]; rfl
  obtain ⟨hleave, -⟩ := grows_leave (w.withWritten h.home (s.outputPath source) true d')
    Log.mainThread (advance source report fun () => .finished (.ok (s.outputPath source))).2
  rw [logs_withWritten, disk_withWritten] at hleave
  rw [step_rendered hwrite, hsucceeded]
  -- what is logged afterwards goes to other files than the one just written
  refine ⟨bytes, by simp [advance, hok], hbytes,
    (keeps_leave (keeps_withWritten hfile) _).file, ?_⟩
  exact (hgrows.mono (fun _ => False.elim) (fun _ => id) fun _ => id).trans
    (hleave.mono (fun _ => id) (fun _ => False.elim) fun _ => False.elim)

variable (x s h source) in
/-- The step that writes a text fails for the cause that the write has, and leaves folders at
most; or it succeeds and leaves the text. -/
theorem step_writes (text : String) (w : World) :
    (∃ why, (x.step s h source (.rendered text) w).1 =
        .finished (.error (writeFault (s.outputPath source) why)) ∧
      (w.disk.replaceFile h (s.outputPath source) (x.encodes text)).1 = .error why ∧
      Disk.Grows w.Logs (s.outputFolder.OnTheWay h.home) Disk.nowhere w.disk
        (x.step s h source (.rendered text) w).2.disk) ∨
    ∃ bytes, (x.step s h source (.rendered text) w).1 = .finished (.ok (s.outputPath source)) ∧
      (w.disk.replaceFile h (s.outputPath source) (x.encodes text)).1 = .ok () ∧
      x.encodes text = some bytes ∧
      (x.step s h source (.rendered text) w).2.disk.HasFile h.home (s.outputPath source) bytes ∧
      Disk.Grows w.Logs (s.outputFolder.OnTheWay h.home)
        (· = (s.outputPath source).destination h.home) w.disk
        (x.step s h source (.rendered text) w).2.disk := by
  obtain ⟨result, d', hreplace⟩ : ∃ result d',
      w.disk.replaceFile h (s.outputPath source) (x.encodes text) = (result, d') := ⟨_, _, rfl⟩
  cases result with
  | error why =>
    obtain ⟨hstage, hgrows⟩ := step_of_refused hreplace
    exact .inl ⟨why, hstage, by rw [hreplace], hgrows⟩
  | ok =>
    obtain ⟨bytes, hstage, hbytes, hfile, hgrows⟩ := step_of_written hreplace
    exact .inr ⟨bytes, hstage, by rw [hreplace], hbytes, hfile, hgrows⟩

/-! ## 4. The whole scan -/

/-- A scan with an outcome, from a world to another, writes its text or no file at all. The
log file gets more lines in any case. -/
structure AllOrNothing (x : Services) (s : Settings) (h : Host) (source : Path) (w : World)
    (outcome : Except Fault Path) (w' : World) : Prop where
  /-- A scan that fails before its text is there changes nothing. -/
  unwritten : ∀ why, (x.steps s h source w 3).1 = .finished (.error why) →
    outcome = .error why ∧ Disk.Grows w.Logs Disk.nowhere Disk.nowhere w.disk w'.disk
  /-- A scan that fails changes no file and adds none; it may add folders on the way to its
  output. -/
  failed : ∀ why, outcome = .error why →
    Disk.Grows w.Logs (s.outputFolder.OnTheWay h.home) Disk.nowhere w.disk w'.disk
  /-- A scan that fails adds nothing at its output either, if the path of the output folder
  does not lead back. -/
  absent : ∀ why, outcome = .error why → ".." ∉ s.outputFolder.parts →
    w.disk.node? ((s.outputPath source).destination h.home) = none →
    w'.disk.node? ((s.outputPath source).destination h.home) = none
  /-- What the disk or the host has against the write is what the scan reports. -/
  refused : ∀ text why, (x.steps s h source w 3).1 = .rendered text →
    ((x.steps s h source w 3).2.disk.replaceFile h (s.outputPath source) (x.encodes text)).1 =
      .error (.host why) → why ≠ .nullInPath → outcome = .error (.cannotWrite (s.outputPath source) why)
  /-- A scan that succeeds leaves the bytes of its text at its output, and changes no other
  file. -/
  succeeded : ∀ output, outcome = .ok output → output = s.outputPath source ∧
    ∃ text bytes, (x.steps s h source w 3).1 = .rendered text ∧ x.encodes text = some bytes ∧
      w'.disk.HasFile h.home output bytes ∧
      Disk.Grows w.Logs (s.outputFolder.OnTheWay h.home) (· = output.destination h.home)
        w.disk w'.disk

/-- Where a failed scan may add folders, its output is not, unless the path leads back. -/
theorem not_onTheWay_output (h : Host) (source : Path) (hdots : ".." ∉ s.outputFolder.parts) :
    ¬ s.outputFolder.OnTheWay h.home ((s.outputPath source).destination h.home) := by
  rw [Settings.outputPath, Path.destination_child _ _ (Settings.outputName_ne source)]
  exact Path.not_onTheWay_of_no_dots hdots _

theorem node?_output_eq_none {w' : World} (hdots : ".." ∉ s.outputFolder.parts)
    (hgrows : Disk.Grows w.Logs (s.outputFolder.OnTheWay h.home) Disk.nowhere w.disk w'.disk)
    (hnone : w.disk.node? ((s.outputPath source).destination h.home) = none) :
    w'.disk.node? ((s.outputPath source).destination h.home) = none := by
  rw [Option.eq_none_iff_forall_ne_some]
  intro node hnode
  exact not_onTheWay_output h source hdots (hgrows.fresh _ node id hnone hnode).2

section

variable {w₁ w' : World} {text : String}

/-- A scan that has failed before its text was there. -/
theorem allOrNothing_of_failed {why : Fault}
    (hreached : x.steps s h source w 3 = (.finished (.error why), w₁))
    (hquiet : Disk.Grows w.Logs Disk.nowhere Disk.nowhere w.disk w₁.disk) :
    x.AllOrNothing s h source w (.error why) w₁ := by
  have hgrows : Disk.Grows w.Logs (s.outputFolder.OnTheWay h.home) Disk.nowhere w.disk w₁.disk :=
    hquiet.mono (fun _ => id) (fun _ => False.elim) fun _ => id
  constructor
  · intro why' hwhy'
    rw [hreached] at hwhy'
    cases hwhy'
    exact ⟨rfl, hquiet⟩
  · exact fun _ _ => hgrows
  · exact fun _ _ hdots hnone => node?_output_eq_none hdots hgrows hnone
  · intro text why' htext
    rw [hreached] at htext
    cases htext
  · intro output houtput
    cases houtput

/-- A scan that has failed to write its text. -/
theorem allOrNothing_of_refused {why : ReplaceFault}
    (hreached : x.steps s h source w 3 = (.rendered text, w₁))
    (hreplace : (w₁.disk.replaceFile h (s.outputPath source) (x.encodes text)).1 = .error why)
    (hgrows : Disk.Grows w.Logs (s.outputFolder.OnTheWay h.home) Disk.nowhere w.disk w'.disk) :
    x.AllOrNothing s h source w (.error (writeFault (s.outputPath source) why)) w' := by
  constructor
  · intro why' hwhy'
    rw [hreached] at hwhy'
    cases hwhy'
  · exact fun _ _ => hgrows
  · exact fun _ _ hdots hnone => node?_output_eq_none hdots hgrows hnone
  · intro text' why' htext' hreplace' hnull
    rw [hreached] at htext' hreplace'
    cases htext'
    rw [hreplace] at hreplace'
    cases hreplace'
    cases why' with
    | nullInPath => exact absurd rfl hnull
    | _ => rfl
  · intro output houtput
    cases houtput

/-- A scan that has written its text. -/
theorem allOrNothing_of_written {bytes : ByteArray}
    (hreached : x.steps s h source w 3 = (.rendered text, w₁))
    (hreplace : (w₁.disk.replaceFile h (s.outputPath source) (x.encodes text)).1 = .ok ())
    (hbytes : x.encodes text = some bytes)
    (hfile : w'.disk.HasFile h.home (s.outputPath source) bytes)
    (hgrows : Disk.Grows w.Logs (s.outputFolder.OnTheWay h.home)
      (· = (s.outputPath source).destination h.home) w.disk w'.disk) :
    x.AllOrNothing s h source w (.ok (s.outputPath source)) w' := by
  constructor
  · intro why hwhy
    rw [hreached] at hwhy
    cases hwhy
  · intro why hwhy
    cases hwhy
  · intro why hwhy
    cases hwhy
  · intro text' why htext' hreplace'
    rw [hreached] at htext' hreplace'
    cases htext'
    rw [hreplace] at hreplace'
    cases hreplace'
  · intro output houtput
    cases houtput
    exact ⟨rfl, text, bytes, by rw [hreached], hbytes, hfile, hgrows⟩

end

/-- Whatever its services answer, a scan comes to an end, and writes all or nothing. -/
theorem exists_allOrNothing (x : Services) (s : Settings) (h : Host) (source : Path) (w : World) :
    ∃ outcome w', x.scan s h source w = (.finished outcome, w') ∧
      x.AllOrNothing s h source w outcome w' := by
  obtain ⟨hs, hquiet, hlogs⟩ :=
    steps_unwritten x s h source w (Nat.le_refl 3)
  obtain ⟨stage, w₁, hreached⟩ : ∃ stage w₁, x.steps s h source w 3 = (stage, w₁) := ⟨_, _, rfl⟩
  have hscan : x.scan s h source w = x.step s h source stage w₁ := by
    have hlast : x.scan s h source w =
        x.step s h source (x.steps s h source w 3).1 (x.steps s h source w 3).2 := rfl
    rw [hlast, hreached]
  rw [hreached] at hs hquiet hlogs
  cases hs with
  | failed why => exact ⟨.error why, w₁, hscan, allOrNothing_of_failed hreached hquiet⟩
  | underWay hrank _ =>
    obtain ⟨text, rfl⟩ : ∃ text, stage = .rendered text := by
      cases stage with
      | rendered text => exact ⟨text, rfl⟩
      | _ => simp [Stage.rank] at hrank
    have hlogs : w₁.log.Logs = w.Logs := hlogs
    rcases step_writes x s h source text w₁ with
      ⟨why, hstage, hreplace, hwrite⟩ | ⟨bytes, hstage, hreplace, hbytes, hfile, hwrite⟩
    · rw [World.Logs, hlogs] at hwrite
      refine ⟨_, _, hscan.trans (Prod.ext hstage rfl), allOrNothing_of_refused hreached hreplace ?_⟩
      exact (hquiet.mono (fun _ => id) (fun _ => False.elim) fun _ => id).trans hwrite
    · rw [World.Logs, hlogs] at hwrite
      refine ⟨_, _, hscan.trans (Prod.ext hstage rfl),
        allOrNothing_of_written hreached hreplace hbytes hfile ?_⟩
      exact (hquiet.mono (fun _ => id) (fun _ => False.elim) fun _ => False.elim).trans hwrite

end Services

/-- Whatever opening, rendering and encoding answer in a scan, and whatever steps of the write
the host refuses, the scan comes to an end and writes all or nothing. So does the plain scan,
which goes by what is on the disk. -/
theorem scan_all_or_nothing (s : Settings) (h : Host) (source : Path) (w : World) :
    (∀ x : Services, ∃ outcome w', x.scan s h source w = (.finished outcome, w') ∧
      x.AllOrNothing s h source w outcome w') ∧
    ∃ outcome w', scan s h source w = (.finished outcome, w') ∧
      (Services.standard s h source).AllOrNothing s h source w outcome w' := by
  refine ⟨fun x => x.exists_allOrNothing s h source w, ?_⟩
  obtain ⟨outcome, w', hscan, hall⟩ := (Services.standard s h source).exists_allOrNothing s h source w
  exact ⟨outcome, w', Services.scan_eq.symm.trans hscan, hall⟩

/-! ## 5. An output folder that leads back

The path of the output folder goes through the place of the output and back. -/

namespace Sample

/-- The settings of a scan of the empty folder, whose output folder leads back. -/
def leadingBack : Settings :=
  { settings [] with sources := [emptyTarget], outputFolder := ⟨.root, ["out", "b.txt", ".."]⟩ }

/-- The disk after the scan. -/
def withFolder : Disk := ⟨twoFolders.nodes ++ [(["out"], .folder), (["out", "b.txt"], .folder)]⟩

theorem resolve_leadingBack :
    (Handle.resolve twoFolders [] emptyTarget []).outcome = .ok emptyHandle := by
  cbv

theorem render_leadingBack : (render leadingBack twoFolders [] emptyHandle).outcome = .ok "" :=
  render_of_no_files rfl rfl

/-- The second folder on the way is made at the place of the output. -/
theorem makeFolders_leadingBack :
    twoFolders.makeFolders [] .root ["out", "b.txt", ".."] = (.ok (), withFolder) := by
  have hout : twoFolders.makeFolders [] .root ["out"] =
      (.ok (), ⟨twoFolders.nodes ++ [(["out"], .folder)]⟩) := by
    rw [Disk.makeFolders]
    rfl
  have hmissing : twoFolders.makeFolder [] ⟨.root, ["out", "b.txt"]⟩ = .error .missing := rfl
  have hmissing' : twoFolders.makeFolder [] ⟨.root, ["out", "b.txt", ".."]⟩ = .error .missing := rfl
  have hthrough : twoFolders.makeFolders [] .root ["out", "b.txt"] = (.ok (), withFolder) := by
    rw [Disk.makeFolders, hmissing]
    simp only [List.dropLast, hout]
    rfl
  rw [Disk.makeFolders, hmissing']
  simp only [List.dropLast, hthrough]
  rfl

theorem replaceFile_leadingBack :
    twoFolders.replaceFile host (leadingBack.outputPath emptyTarget) (some "".toUTF8) =
      (.error (.host .isFolder), withFolder) := by
  have houtput : leadingBack.outputPath emptyTarget = ⟨.root, ["out", "b.txt", "..", "b.txt"]⟩ := by
    cbv
  have htemporary : withFolder.temporaryPlace [] ⟨.root, ["out", "b.txt", "..", "b.txt"]⟩ =
      .ok ["out", ".b.txt.00000000.tmp"] := rfl
  simp only [houtput, Disk.replaceFile, host, Host.attempt, Host.willing, Path.parent, List.dropLast,
    makeFolders_leadingBack, htemporary]
  rfl

end Sample

/-- A write that is refused ends a scan, and what the write has done stays. -/
theorem World.IsUnlogged.refuse {s : Settings} {h : Host} {source : Path} {w : World} {d d' : Disk}
    {thread text : String} {why : ReplaceFault} (hw : w.IsUnlogged d)
    (hreplace : d.replaceFile h (s.outputPath source) (some text.toUTF8) = (.error why, d')) :
    ∃ w', step s h thread source (.rendered text) w =
      (.finished (.error (writeFault (s.outputPath source) why)), w') ∧ w'.IsUnlogged d' := by
  have hdisk : w.disk = d := by rw [World.disk, hw]
  have hwrite : Scan.write h w.disk (s.outputPath source) (some text.toUTF8) =
      (Report.ofExcept (.error (writeFault (s.outputPath source) why)), d') := by
    rw [hdisk, Scan.write, hreplace]
  refine ⟨_, Scan.step_rendered hwrite, leave ?_ _⟩
  unfold withWritten IsUnlogged
  rw [hw]
  rfl

/-- A scan that cannot write its output, since the path of the output folder has made a
folder of it. -/
theorem scan_leaves_folder_at_output :
    Sample.twoFolders.find [] (Sample.leadingBack.outputPath Sample.emptyTarget) =
      .error .missing ∧
    ∃ w', scan Sample.leadingBack Sample.host Sample.emptyTarget (.ofDisk Sample.twoFolders) =
        (.finished (.error (.cannotWrite (Sample.leadingBack.outputPath Sample.emptyTarget)
          .isFolder)), w') ∧
      w'.disk.find [] (Sample.leadingBack.outputPath Sample.emptyTarget) = .ok .folder := by
  have houtput : Sample.leadingBack.outputPath Sample.emptyTarget =
      ⟨.root, ["out", "b.txt", "..", "b.txt"]⟩ := by
    cbv
  have hstart : World.IsUnlogged (.ofDisk Sample.twoFolders) Sample.twoFolders := rfl
  obtain ⟨w₁, hs₁, hw₁⟩ : ∃ w₁, step Sample.leadingBack Sample.host Log.mainThread
      Sample.emptyTarget .waiting (.ofDisk Sample.twoFolders) = (.announced, w₁) ∧
      w₁.IsUnlogged Sample.twoFolders :=
    hstart.announce (by rw [houtput]; decide)
  obtain ⟨w₂, hs₂, hw₂⟩ : ∃ w₂, step Sample.leadingBack Sample.host Log.mainThread
      Sample.emptyTarget .announced w₁ = (.opened Sample.emptyHandle, w₂) ∧
      w₂.IsUnlogged Sample.twoFolders :=
    hw₁.openTarget Sample.resolve_leadingBack
  obtain ⟨w₃, hs₃, hw₃⟩ : ∃ w₃, step Sample.leadingBack Sample.host Log.mainThread
      Sample.emptyTarget (.opened Sample.emptyHandle) w₂ = (.rendered "", w₃) ∧
      w₃.IsUnlogged Sample.twoFolders :=
    hw₂.render Sample.render_leadingBack
  obtain ⟨w₄, hs₄, hw₄⟩ : ∃ w₄, step Sample.leadingBack Sample.host Log.mainThread
      Sample.emptyTarget (.rendered "") w₃ = (.finished (.error (.cannotWrite
        (Sample.leadingBack.outputPath Sample.emptyTarget) .isFolder)), w₄) ∧
      w₄.IsUnlogged Sample.withFolder :=
    hw₃.refuse Sample.replaceFile_leadingBack
  have hdisk : w₄.disk = Sample.withFolder := by rw [World.disk, hw₄]
  refine ⟨by rw [houtput]; rfl, w₄, ?_, ?_⟩
  · simp only [scan, stepCount, steps, hs₁, hs₂, hs₃, hs₄]
  · rw [hdisk, houtput]
    rfl

end Scan

end ApiSurface
