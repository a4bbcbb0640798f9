/-
ApiSurface.Proofs.Scan.Evolution — what scans do to the disk, and what they read of it.

A step of a scan logs records, or makes folders on the way to its output and writes it; so
the disk evolves, whichever thread takes the step (`step_evolves`). Where the log and the
outputs are at places that no input is read from, this does not change what is read
(`Settings.Drifts`): a handle that was opened is what would be opened now, and a text that
was rendered is what would be rendered now (`Stage.IsCurrent`). Each step keeps this up for
the scan that takes it, and for all others.
-/
import ApiSurface.Proofs.ClassPath.Unaffected
import ApiSurface.Proofs.Disk.Replacing
import ApiSurface.Proofs.Scan.AllOrNothing

namespace ApiSurface

/-! ## 1. Inputs and outputs -/

namespace Settings

/-- The paths that are scanned, and those of the class path. -/
def inputs (s : Settings) : List Path := s.sources ++ s.classpath

/-- No input is read from a place. -/
def Unread (s : Settings) (home : Place) (q : Place) : Prop :=
  ∀ p ∈ s.inputs, ¬ p.Reads home q

/-- A place is that of an output. -/
def Writes (s : Settings) (home : Place) (q : Place) : Prop :=
  ∃ source ∈ s.sources, q = (s.outputPath source).destination home

/-- A disk evolves as it does in scans: folders come on the way to the output folder, and files
at the places of outputs, and files change where no input is read from. -/
abbrev Drifts (s : Settings) (home : Place) : Disk → Disk → Prop :=
  Disk.Evolves (s.Unread home) (s.outputFolder.OnTheWay home) (s.Writes home)

variable {s : Settings} {home q : Place}

/-- The name of the output of a source. -/
def outputName (source : Path) : String := withoutArchiveEnding source.name ++ ".txt"

theorem destination_outputPath (source : Path) :
    (s.outputPath source).destination home = s.outputFolder.destination home ++ [outputName source] :=
  Path.destination_child _ _ (outputName_ne source)

theorem Writes.definesNone (h : s.Writes home q) : DefinesNone q := by
  obtain ⟨source, -, rfl⟩ := h
  rw [destination_outputPath]
  exact definesNone_text _ _

theorem outputName_ne_temporary (source : Path) (name : String) (n : Nat) :
    outputName source ≠ Disk.temporaryName name n := by
  intro h
  have hlast := congrArg (fun name : String => name.toList.getLast?) h
  unfold outputName Disk.temporaryName at hlast
  rw [String.toList_append, String.toList_append, List.getLast?_append, List.getLast?_append] at hlast
  simp at hlast

/-- No output is a temporary file. -/
theorem not_writes_temporary {name : String} (n : Nat) :
    ¬ s.Writes home (Disk.temporaryAt (s.outputFolder.destination home) name n) := by
  rintro ⟨source, -, hq⟩
  rw [destination_outputPath] at hq
  exact outputName_ne_temporary source name n
    (List.singleton_inj.mp (List.append_cancel_left hq)).symm

end Settings

/-! ## 2. Steps -/

namespace Log.State

variable {l : Log.State}

theorem distinct_deliver (r : Record) (hd : l.disk.HasDistinctPlaces) :
    (l.deliver r).disk.HasDistinctPlaces := by
  unfold deliver
  split
  · exact hd
  · split
    · exact hd
    · exact hd.append

theorem distinct_deliverAll (records : List Record) (hd : l.disk.HasDistinctPlaces) :
    (l.deliverAll records).disk.HasDistinctPlaces := by
  induction records generalizing l with
  | nil => exact hd
  | cons r records ih => exact ih (distinct_deliver r hd)

end Log.State

namespace Scan

variable {s : Settings} {h : Host} {source : Path} {stage : Stage} {w : World} {thread : String}

theorem evolves_leave (w : World) (thread : String) (records : List Log.Record) :
    Disk.Evolves w.Logs Disk.nowhere Disk.nowhere w.disk (w.leave thread records).disk ∧
      (w.leave thread records).Logs = w.Logs := by
  obtain ⟨hgrows, hlogs⟩ := Services.grows_leave w thread records
  exact ⟨.of_grows hgrows (Log.State.distinct_deliverAll _), hlogs⟩

/-- A write does to the disk what the replacement of the file does, and ends as it does. -/
theorem write_eq {d d' : Disk} {p : Path} {content : Option ByteArray} {report : Report Fault Unit}
    (hw : write h d p content = (report, d')) :
    report.outcome = (d.replaceFile h p content).1.mapError (writeFault p) ∧
      d' = (d.replaceFile h p content).2 := by
  unfold write at hw
  split at hw
  · next heq =>
    cases hw
    rw [heq]
    exact ⟨rfl, rfl⟩
  · next heq =>
    cases hw
    rw [heq]
    exact ⟨rfl, rfl⟩

/-- The log stays where it is. -/
theorem logs_step (s : Settings) (h : Host) (thread : String) (source : Path) (stage : Stage)
    (w : World) : (step s h thread source stage w).2.Logs = w.Logs := by
  have hleave : ∀ (w : World) (records : List Log.Record), (w.leave thread records).Logs = w.Logs :=
    fun w records => (evolves_leave w thread records).2
  cases stage with
  | waiting => exact hleave w _
  | announced => exact hleave w _
  | opened handle => exact hleave w _
  | rendered text =>
    obtain ⟨report, d', hw⟩ :
        ∃ r d', write h w.disk (s.outputPath source) (some text.toUTF8) = (r, d') := ⟨_, _, rfl⟩
    rw [step_rendered hw, hleave, logs_withWritten]
  | finished outcome => rfl

/-- What a step does to the disk is done by records that are left, and by the replacement of
the output. -/
theorem step_relates {R : Disk → Disk → Prop} (hrefl : R w.disk w.disk)
    (htrans : ∀ {d d' d''}, R d d' → R d' d'' → R d d'')
    (hleave : ∀ (v : World) (records : List Log.Record), v.Logs = w.Logs →
      R v.disk (v.leave thread records).disk)
    (hreplace : ∀ (d : Disk) (bytes : ByteArray),
      R d (d.replaceFile h (s.outputPath source) (some bytes)).2) :
    R w.disk (step s h thread source stage w).2.disk := by
  cases stage with
  | waiting => exact hleave w _ rfl
  | announced => exact hleave w _ rfl
  | opened handle => exact hleave w _ rfl
  | rendered text =>
    obtain ⟨report, d', hw⟩ :
        ∃ r d', write h w.disk (s.outputPath source) (some text.toUTF8) = (r, d') := ⟨_, _, rfl⟩
    have hwritten := hreplace w.disk text.toUTF8
    rw [← (write_eq hw).2] at hwritten
    have hlogged := hleave (w.withWritten h.home (s.outputPath source) report.outcome.isOk d')
      (advance source report fun () => .finished (.ok (s.outputPath source))).2
      (logs_withWritten _ _ _ _ _)
    rw [disk_withWritten] at hlogged
    rw [step_rendered hw]
    exact htrans hwritten hlogged
  | finished outcome => exact hrefl

/-- What a step does to the disk: records are logged, and folders are made and the output is
written. The log stays where it is. -/
theorem step_evolves (s : Settings) (h : Host) (thread : String) (source : Path) (stage : Stage)
    (w : World) :
    Disk.Evolves (fun q => w.Logs q ∨ q = (s.outputPath source).destination h.home)
        (s.outputFolder.OnTheWay h.home) (· = (s.outputPath source).destination h.home) w.disk
        (step s h thread source stage w).2.disk ∧
      (step s h thread source stage w).2.Logs = w.Logs := by
  refine ⟨step_relates (.refl _) .trans (fun v records hv => ?_) fun d bytes => ?_,
    logs_step s h thread source stage w⟩
  · obtain ⟨hev, -⟩ := evolves_leave v thread records
    rw [hv] at hev
    exact hev.mono (fun _ => .inl) (fun _ => False.elim) fun _ => False.elim
  · have hreplace := d.evolves_replaceFile h (s.outputPath source) bytes
    rw [Services.parent_outputPath] at hreplace
    rcases hreplace with ⟨-, -, hfailed⟩ | ⟨-, -, hwritten⟩
    · exact hfailed.mono (fun _ => False.elim) (fun _ => id) fun _ => False.elim
    · exact hwritten.mono (fun _ => .inr) (fun _ => id) fun _ => id

/-- In a step the log file grows at its end, and no file changes but the log and the output. -/
theorem step_grows (s : Settings) (h : Host) (thread : String) (source : Path) (stage : Stage)
    (w : World) :
    Disk.Grows w.Logs (s.outputFolder.OnTheWay h.home)
      (· = (s.outputPath source).destination h.home) w.disk
      (step s h thread source stage w).2.disk := by
  refine step_relates (.refl _) .trans (fun v records hv => ?_) fun d bytes => ?_
  · obtain ⟨hgrows, -⟩ := Services.grows_leave v thread records
    rw [hv] at hgrows
    exact hgrows.mono (fun _ => id) (fun _ => False.elim) fun _ => False.elim
  · have hreplace := d.replaceFile_grows h (s.outputPath source) (some bytes)
    rw [Services.parent_outputPath] at hreplace
    rcases hreplace with ⟨-, hfailed⟩ | ⟨-, -, hwritten⟩
    · exact hfailed.mono (fun _ => False.elim) (fun _ => id) fun _ => False.elim
    · exact hwritten.mono (fun _ => False.elim) (fun _ => id) fun _ => id

/-! ## 3. Worlds in which the inputs stay as they are -/

/-- In a world scans do not change what they read: the files that define classes can be
reached, and nothing is read from the log or from outputs. -/
structure World.IsSteady (w : World) (s : Settings) (h : Host) : Prop where
  leads : w.disk.Leads
  logs : ∀ q, w.Logs q → s.Unread h.home q
  writes : ∀ q, s.Writes h.home q → s.Unread h.home q

theorem World.IsSteady.drifts {w' : World} (hw : w.IsSteady s h)
    (hd : s.Drifts h.home w.disk w'.disk) (hlogs : w'.Logs = w.Logs) : w'.IsSteady s h where
  leads := hw.leads.evolves hd fun _ => Settings.Writes.definesNone
  logs := by
    rw [hlogs]
    exact hw.logs
  writes := hw.writes

/-- A step leads from one such world to another one. -/
theorem World.IsSteady.step (hw : w.IsSteady s h) (hsource : source ∈ s.sources)
    (thread : String) (stage : Stage) :
    s.Drifts h.home w.disk (Scan.step s h thread source stage w).2.disk ∧
      (Scan.step s h thread source stage w).2.IsSteady s h := by
  obtain ⟨hev, hlogs⟩ := step_evolves s h thread source stage w
  have hwrites : ∀ q, q = (s.outputPath source).destination h.home → s.Writes h.home q :=
    fun q hq => ⟨source, hsource, hq⟩
  have hd : s.Drifts h.home w.disk (Scan.step s h thread source stage w).2.disk :=
    hev.mono (fun q hq => hq.elim (hw.logs q) fun hq => hw.writes q (hwrites q hq)) (fun _ => id)
      hwrites
  exact ⟨hd, hw.drifts hd hlogs⟩

/-! ## 4. Texts -/

/-- The text that a scan of a source would render from a disk. -/
def textOf (s : Settings) (h : Host) (d : Disk) (source : Path) : Except Fault String := do
  let handle ← (Handle.resolve d h.home source s.classpath).outcome
  (render s d h.home handle).outcome

variable {d d' : Disk} {handle : Handle}

section

variable (hd : d.Leads) (hwrites : ∀ q, s.Writes h.home q → s.Unread h.home q)
  (hsource : source ∈ s.sources) (hdrifts : s.Drifts h.home d d')
include hd hwrites hsource hdrifts

/-- What was opened is opened again later, and then the same is rendered, or fails alike. -/
theorem resolve_drifts
    (hresolve : (Handle.resolve d h.home source s.classpath).outcome = .ok handle) :
    (Handle.resolve d' h.home source s.classpath).outcome = .ok handle ∧
      render s d' h.home handle = render s d h.home handle := by
  have hinputs : ∀ p ∈ source :: s.classpath, ∀ q, s.Unread h.home q ∨ s.Writes h.home q →
      ¬ p.Reads h.home q := by
    intro p hp q hq
    have hmem : p ∈ s.inputs := by
      rcases List.mem_cons.mp hp with rfl | hp
      · exact List.mem_append_left _ hsource
      · exact List.mem_append_right _ hp
    exact hq.elim (fun hq => hq p hmem) fun hq => hwrites q hq p hmem
  obtain ⟨hresolve', htable⟩ := Handle.resolve_evolves hd hdrifts hinputs hresolve
  exact ⟨hresolve', by rw [render, render, htable]⟩

theorem textOf_drifts
    (hresolve : (Handle.resolve d h.home source s.classpath).outcome = .ok handle) :
    textOf s h d' source = textOf s h d source := by
  obtain ⟨hresolve', hrender⟩ := resolve_drifts hd hwrites hsource hdrifts hresolve
  simp only [textOf, hresolve, hresolve', bind, Except.bind, hrender]

theorem textOf_eq_ok_drifts {text : String} (ht : textOf s h d source = .ok text) :
    textOf s h d' source = .ok text := by
  obtain ⟨handle, hresolve, -⟩ := bind_eq_ok.mp ht
  rw [textOf_drifts hd hwrites hsource hdrifts hresolve, ht]

end

/-! ## 5. Stages that are up to date -/

/-- What a scan has in its hands is what it would get from a disk. -/
def Stage.IsCurrent (s : Settings) (h : Host) (source : Path) (d : Disk) : Stage → Prop
  | .opened handle => (Handle.resolve d h.home source s.classpath).outcome = .ok handle
  | .rendered text => textOf s h d source = .ok text
  | .waiting | .announced | .finished _ => True

theorem Stage.IsCurrent.drifts (hc : stage.IsCurrent s h source d) (hd : d.Leads)
    (hwrites : ∀ q, s.Writes h.home q → s.Unread h.home q) (hsource : source ∈ s.sources)
    (hdrifts : s.Drifts h.home d d') : stage.IsCurrent s h source d' := by
  cases stage with
  | opened handle => exact (resolve_drifts hd hwrites hsource hdrifts hc).1
  | rendered text => exact textOf_eq_ok_drifts hd hwrites hsource hdrifts hc
  | _ => trivial

theorem isCurrent_advance {α : Type} {x : Report Fault α} {next : α → Stage}
    (hnext : ∀ a, x.outcome = .ok a → (next a).IsCurrent s h source d) :
    (advance source x next).1.IsCurrent s h source d := by
  unfold advance
  split
  · next a ha => exact hnext a ha
  · trivial

/-- A step of a scan keeps it up to date. -/
theorem Stage.IsCurrent.step (hc : stage.IsCurrent s h source w.disk) (hw : w.IsSteady s h)
    (hsource : source ∈ s.sources) (thread : String) :
    (Scan.step s h thread source stage w).1.IsCurrent s h source
      (Scan.step s h thread source stage w).2.disk := by
  obtain ⟨hd, -⟩ := hw.step hsource thread stage
  refine Stage.IsCurrent.drifts (d := w.disk) ?_ hw.leads hw.writes hsource hd
  cases stage with
  | waiting =>
    unfold Scan.step announce
    split_ifs <;> trivial
  | announced => exact isCurrent_advance fun handle hresolve => hresolve
  | opened handle =>
    exact isCurrent_advance fun text hrender => bind_eq_ok.mpr ⟨handle, hc, hrender⟩
  | rendered text => exact isCurrent_advance fun _ _ => trivial
  | finished outcome => trivial

end Scan

end ApiSurface
