/-
ApiSurface.Proofs.Scan.Rescan — scanning again changes nothing.

A run changes the disk that it reads: it makes folders, perhaps inside of folders that it
scans, and puts its results there. But results define no classes, so after the run every
source still gives the text that was rendered for it, and the text can be written once more
(`Repeats`). Both remain so while the disk evolves as it does in scans; hence a second run
goes through as the first did, and writes what is there already
(`rescan_changes_nothing`).

Two things are to be set apart (`rescan_meets_log_and_link`). In each run that succeeds the log
says where the results go, so an open log file gets longer by that (`inOrder_extends_log`). And
a link in a folder that is scanned may have a name that stands for a class; if it leads to a
result, the second run reads the result as a class.
-/
import ApiSurface.Proofs.Disk.Links
import ApiSurface.Proofs.Log.Delivery
import ApiSurface.Proofs.Scan.Evolution
import Mathlib.Tactic.IntervalCases

namespace ApiSurface.Scan

variable {s : Settings} {h : Host} {source : Path} {w w' : World} {d d' : Disk} {text : String}

/-! ## 1. Scans that can be repeated -/

/-- From a disk on, a source gives a text that can be written to its output. -/
structure Repeats (s : Settings) (h : Host) (d : Disk) (source : Path) (text : String) : Prop where
  gives : textOf s h d source = .ok text
  writes : ∀ d', s.Drifts h.home d d' →
    (d'.replaceFile h (s.outputPath source) (some text.toUTF8)).1 = .ok ()

theorem Repeats.drifts (hr : Repeats s h w.disk source text) (hw : w.IsSteady s h)
    (hsource : source ∈ s.sources) (hd : s.Drifts h.home w.disk d') :
    Repeats s h d' source text where
  gives := textOf_eq_ok_drifts hw.leads hw.writes hsource hd hr.gives
  writes d'' hd' := hr.writes d'' (hd.trans hd')

/-- The steps of a scan lead through worlds in which the inputs stay as they are, and the scan
is up to date in each of them. -/
theorem steps_current (hw : w.IsSteady s h) (hsource : source ∈ s.sources) (n : Nat) :
    s.Drifts h.home w.disk (steps s h source n .waiting w).2.disk ∧
      (steps s h source n .waiting w).2.IsSteady s h ∧
      (steps s h source n .waiting w).1.IsCurrent s h source
        (steps s h source n .waiting w).2.disk := by
  induction n with
  | zero => exact ⟨.refl _, hw, trivial⟩
  | succ n ih =>
    obtain ⟨hd, hw', hc⟩ := ih
    rw [steps_succ]
    obtain ⟨hd', hw''⟩ := hw'.step hsource Log.mainThread (steps s h source n .waiting w).1
    exact ⟨hd.trans hd', hw'', hc.step hw' hsource Log.mainThread⟩

/-- A scan that succeeds has done so in the step that wrote its text. -/
theorem exists_rendered_of_steps {n : Nat} {output : Path}
    (hf : (steps s h source n .waiting w).1 = .finished (.ok output)) :
    ∃ k text, (steps s h source k .waiting w).1 = .rendered text ∧
      steps s h source n .waiting w =
        step s h Log.mainThread source (.rendered text) (steps s h source k .waiting w).2 := by
  induction n with
  | zero => cases hf
  | succ n ih =>
    rw [steps_succ] at hf ⊢
    by_cases hn : (steps s h source n .waiting w).1 = .finished (.ok output)
    · obtain ⟨k, text, hk, hlast⟩ := ih hn
      refine ⟨k, text, hk, ?_⟩
      rw [hn, ← hlast]
      exact Prod.ext hn.symm rfl
    · obtain ⟨text, htext, -⟩ := step_finishes hf hn
      exact ⟨n, text, htext, by rw [htext]⟩

/-- A file that can be replaced has a path that can be followed. -/
theorem hasNull_of_replaceFile {p : Path} {bytes : ByteArray}
    (hok : (d.replaceFile h p (some bytes)).1 = .ok ()) : ¬ p.hasNull = true := by
  rcases d.replaceFile_cases h p bytes with ⟨why, hwhy, -⟩ | ⟨-, hfile, -⟩
  · rw [hok] at hwhy
    cases hwhy
  · exact Disk.hasNull_of_locate hfile.locate

/-- A scan that has succeeded can be repeated. -/
theorem scan_repeats (hw : w.IsSteady s h) (hsource : source ∈ s.sources) {output : Path}
    (hscan : scan s h source w = (.finished (.ok output), w')) :
    s.Drifts h.home w.disk w'.disk ∧ w'.IsSteady s h ∧
      ∃ text, Renders s h source w text ∧ Repeats s h w'.disk source text := by
  obtain ⟨hd, hw', -⟩ := steps_current hw hsource stepCount
  rw [show steps s h source stepCount .waiting w = _ from hscan] at hd hw'
  obtain ⟨k, text, hk, hlast⟩ := exists_rendered_of_steps (congrArg Prod.fst hscan)
  obtain ⟨-, hv, hc⟩ := steps_current hw hsource k
  rw [hk] at hc
  generalize (steps s h source k .waiting w).2 = v at hlast hv hc
  obtain ⟨report, d', hwrite⟩ :
      ∃ r d', write h v.disk (s.outputPath source) (some text.toUTF8) = (r, d') := ⟨_, _, rfl⟩
  have hstep : step s h Log.mainThread source (.rendered text) v = (.finished (.ok output), w') :=
    hlast.symm.trans hscan
  obtain ⟨hlater, -⟩ := hv.step hsource Log.mainThread (.rendered text)
  rw [hstep] at hlater
  rw [step_rendered hwrite, Prod.mk.injEq] at hstep
  obtain ⟨hfinished, rfl⟩ := hstep
  obtain ⟨houtcome, rfl⟩ := write_eq hwrite
  have hok : (v.disk.replaceFile h (s.outputPath source) (some text.toUTF8)).1 = .ok () := by
    refine mapError_eq_ok.mp (houtcome.symm.trans ?_)
    cases hreport : report.outcome with
    | ok => rfl
    | error why =>
      rw [advance, hreport] at hfinished
      cases hfinished
  obtain ⟨hleave, -⟩ := evolves_leave (v.withWritten h.home (s.outputPath source)
      report.outcome.isOk (v.disk.replaceFile h (s.outputPath source) (some text.toUTF8)).2)
    Log.mainThread (advance source report fun () => .finished (.ok (s.outputPath source))).2
  rw [disk_withWritten, logs_withWritten] at hleave
  refine ⟨hd, hw', text, ⟨k, hk⟩, textOf_eq_ok_drifts hv.leads hv.writes hsource hlater hc,
    fun d'' hd'' => ?_⟩
  have hev := (hleave.mono hv.logs (fun _ => False.elim) fun _ => False.elim).trans hd''
  exact Disk.Evolves.replaceFile_again (Settings.outputName_ne source) hok hev
    fun n => Settings.not_writes_temporary n

/-- A scan that can be repeated succeeds. -/
theorem scan_again (hw : w.IsSteady s h) (hsource : source ∈ s.sources)
    (hr : Repeats s h w.disk source text) :
    ∃ w', scan s h source w = (.finished (.ok (s.outputPath source)), w') := by
  have hnull := hasNull_of_replaceFile (hr.writes w.disk (.refl _))
  obtain ⟨w₁, hs₁⟩ : ∃ w₁, step s h Log.mainThread source .waiting w = (.announced, w₁) :=
    ⟨_, by rw [step, announce, if_neg hnull]⟩
  obtain ⟨hd₁, hw₁⟩ := hw.step hsource Log.mainThread .waiting
  rw [hs₁] at hd₁ hw₁
  have hr₁ := hr.drifts hw hsource hd₁
  obtain ⟨handle, hresolve, -⟩ := bind_eq_ok.mp hr₁.gives
  obtain ⟨w₂, hs₂⟩ : ∃ w₂, step s h Log.mainThread source .announced w₁ = (.opened handle, w₂) :=
    ⟨_, by rw [step, advance, hresolve]⟩
  obtain ⟨hd₂, hw₂⟩ := hw₁.step hsource Log.mainThread .announced
  rw [hs₂] at hd₂ hw₂
  have hr₂ := hr₁.drifts hw₁ hsource hd₂
  obtain ⟨hresolve₂, -⟩ := resolve_drifts hw₁.leads hw₁.writes hsource hd₂ hresolve
  have hrender : (render s w₂.disk h.home handle).outcome = .ok text := by
    have hgives := hr₂.gives
    simp only [textOf, hresolve₂, bind, Except.bind] at hgives
    exact hgives
  obtain ⟨w₃, hs₃⟩ : ∃ w₃, step s h Log.mainThread source (.opened handle) w₂ =
      (.rendered text, w₃) := ⟨_, by rw [step, advance, hrender]⟩
  obtain ⟨hd₃, hw₃⟩ := hw₂.step hsource Log.mainThread (.opened handle)
  rw [hs₃] at hd₃ hw₃
  have hr₃ := hr₂.drifts hw₂ hsource hd₃
  obtain ⟨report, d', hwrite⟩ : ∃ r d', write h w₃.disk (s.outputPath source) (some text.toUTF8) =
      (r, d') := ⟨_, _, rfl⟩
  have hok : report.outcome = .ok () :=
    (write_eq hwrite).1.trans (mapError_eq_ok.mpr (hr₃.writes _ (.refl _)))
  obtain ⟨w₄, hs₄⟩ : ∃ w₄, step s h Log.mainThread source (.rendered text) w₃ =
      (.finished (.ok (s.outputPath source)), w₄) := ⟨_, by rw [step_rendered hwrite, advance, hok]⟩
  exact ⟨w₄, CarriesOut.scan ⟨handle, text, w₁, w₂, w₃, hs₁, hs₂, hs₃, hs₄⟩⟩

/-! ## 2. Runs -/

/-- After a run that succeeds each source gives the text that was rendered for it, and can be
scanned again. -/
theorem inOrder_repeats {sources paths : List Path} (hsources : ∀ a ∈ sources, a ∈ s.sources)
    (hw : w.IsSteady s h) (hok : (inOrder s h sources w).outcome = .ok paths) :
    s.Drifts h.home w.disk (inOrder s h sources w).world.disk ∧
      (inOrder s h sources w).world.IsSteady s h ∧
      ∀ (i : Nat) (a : Path), sources[i]? = some a → ∃ text,
        RendersInOrder s h sources w i text ∧
          Repeats s h (inOrder s h sources w).world.disk a text := by
  induction sources generalizing w paths with
  | nil => exact ⟨.refl _, hw, nofun⟩
  | cons source rest ih =>
    obtain ⟨hsource, hrest⟩ := List.forall_mem_cons.mp hsources
    obtain ⟨w₁, others, hscan, hothers, -, hrun⟩ := inOrder_cons_eq_ok hok
    obtain ⟨hd, hw₁, text, hrenders, hrepeats⟩ := scan_repeats hw hsource hscan
    obtain ⟨hd₁, hw₂, hall⟩ := ih hrest hw₁ hothers
    rw [hrun rest]
    refine ⟨hd.trans hd₁, hw₂, fun i a hi => ?_⟩
    cases i with
    | zero =>
      cases hi
      exact ⟨text, ⟨source, rfl, hrenders⟩, hrepeats.drifts hw₁ hsource hd₁⟩
    | succ i =>
      obtain ⟨other, ⟨a', ha', hother⟩, hagain⟩ := hall i a hi
      refine ⟨other, ⟨a', ha', ?_⟩, hagain⟩
      rw [List.take_succ_cons, hrun]
      exact hother

/-- A run over sources that can be scanned again succeeds. -/
theorem inOrder_again {sources : List Path} (hsources : ∀ a ∈ sources, a ∈ s.sources)
    (hw : w.IsSteady s h) (hr : ∀ a ∈ sources, ∃ text, Repeats s h w.disk a text) :
    (inOrder s h sources w).outcome = .ok (sources.map s.outputPath) := by
  induction sources generalizing w with
  | nil => rfl
  | cons source rest ih =>
    obtain ⟨hsource, hrest⟩ := List.forall_mem_cons.mp hsources
    obtain ⟨⟨text, htext⟩, hothers⟩ := List.forall_mem_cons.mp hr
    obtain ⟨w₁, hscan⟩ := scan_again hw hsource htext
    obtain ⟨hd, hw₁, -⟩ := scan_repeats hw hsource hscan
    have hagain := ih hrest hw₁ fun a ha => by
      obtain ⟨other, hother⟩ := hothers a ha
      exact ⟨other, hother.drifts hw (hrest a ha) hd⟩
    rw [inOrder, hscan]
    simp only [hagain, Except.map, List.map_cons]

/-- In some steps of a scan the log file grows at its end, and no file changes but the log and
the output. -/
theorem steps_grows (s : Settings) (h : Host) (source : Path) (n : Nat) (stage : Stage) (w : World) :
    Disk.Grows w.Logs (s.outputFolder.OnTheWay h.home)
        (· = (s.outputPath source).destination h.home) w.disk (steps s h source n stage w).2.disk ∧
      (steps s h source n stage w).2.Logs = w.Logs := by
  induction n with
  | zero => exact ⟨.refl _, rfl⟩
  | succ n ih =>
    obtain ⟨hgrows, hlogs⟩ := ih
    have hstep := step_grows s h Log.mainThread source (steps s h source n stage w).1
      (steps s h source n stage w).2
    rw [hlogs] at hstep
    rw [steps_succ, logs_step]
    exact ⟨hgrows.trans hstep, hlogs⟩

/-- In a run, however it ends, the log file grows at its end, and no file changes but the log
and the outputs. -/
theorem inOrder_grows {sources : List Path} (hsources : ∀ a ∈ sources, a ∈ s.sources) (w : World) :
    Disk.Grows w.Logs (s.outputFolder.OnTheWay h.home) (s.Writes h.home) w.disk
      (inOrder s h sources w).world.disk := by
  induction sources generalizing w with
  | nil => exact .refl _
  | cons source rest ih =>
    obtain ⟨hsource, hrest⟩ := List.forall_mem_cons.mp hsources
    obtain ⟨hscan, hlogs⟩ : _ ∧ (scan s h source w).2.Logs = w.Logs :=
      steps_grows s h source stepCount .waiting w
    have hscan : Disk.Grows w.Logs (s.outputFolder.OnTheWay h.home) (s.Writes h.home) w.disk
        (scan s h source w).2.disk :=
      hscan.mono (fun _ => id) (fun _ => id) fun q hq => ⟨source, hsource, hq⟩
    have hothers := ih hrest (scan s h source w).2
    rw [hlogs] at hothers
    rw [inOrder]
    split
    · next heq =>
      rw [heq] at hscan
      exact hscan
    · next heq =>
      rw [heq] at hscan hothers
      exact hscan.trans hothers

/-! ## 3. The same run again -/

/-- Where an output is, all on the way to the output folder are folders. -/
theorem folder_of_hasFile {bytes : ByteArray} (hfile : d.HasFile h.home (s.outputPath source) bytes)
    {q : Place} (hq : s.outputFolder.OnTheWay h.home q) : d.node? q = some .folder := by
  obtain ⟨front, hfront, rfl⟩ := hq
  have hl := hfile.locate
  rw [Disk.locate_eq_follow (Disk.hasNull_of_locate hl)] at hl
  refine Disk.folder_of_follow hl (hfront.trans (List.prefix_append _ _)) fun heq => ?_
  have hlength := congrArg List.length heq
  have hle := hfront.length_le
  simp only [Settings.outputPath, Path.child, List.length_append, List.length_singleton] at hlength
  omega

section

variable {paths paths' : List Path} (hw : w.IsSteady s h)
  (hok : (inOrder s h s.sources w).outcome = .ok paths)
  (hdisk : w'.disk = (inOrder s h s.sources w).world.disk) (hw' : w'.IsSteady s h)
  (hok' : (inOrder s h s.sources w').outcome = .ok paths')
include hw hok hdisk hw' hok'

/-- A second run writes the text that is there. The sources that share an output have the same
last one among them both times. -/
theorem node?_output_again (hsource : source ∈ s.sources) :
    (inOrder s h s.sources w').world.disk.node? ((s.outputPath source).destination h.home) =
      w'.disk.node? ((s.outputPath source).destination h.home) := by
  obtain ⟨text, ⟨i, a, hi, hp, hrenders, hlast⟩, hk⟩ := (inOrder_files hok).2 source hsource
  obtain ⟨text', ⟨j, b, hj, hp', hrenders', hlast'⟩, hk'⟩ := (inOrder_files hok').2 source hsource
  obtain rfl : i = j := by
    rcases Nat.lt_trichotomy i j with hlt | heq | hlt
    · exact absurd hp' (hlast j b hlt hj)
    · exact heq
    · exact absurd hp (hlast' i a hlt hi)
  obtain rfl : a = b := Option.some_inj.mp (hi.symm.trans hj)
  have ha : a ∈ s.sources := List.mem_of_getElem? hi
  obtain ⟨-, -, hall⟩ := inOrder_repeats (fun _ => id) hw hok
  obtain ⟨first, hfirst, hrepeats⟩ := hall i a hi
  obtain rfl : first = text := hrenders.unique hfirst
  obtain ⟨hd, -, hall'⟩ := inOrder_repeats (fun _ => id) hw' hok'
  obtain ⟨second, hsecond, hrepeats'⟩ := hall' i a hi
  obtain rfl : second = text' := hrenders'.unique hsecond
  rw [← hdisk] at hrepeats
  have hsame := (hrepeats.drifts hw' ha hd).gives.symm.trans hrepeats'.gives
  have hnode : (inOrder s h s.sources w).world.disk.node? _ = some (.file first.toUTF8) := hk.file.node
  have hnode' : (inOrder s h s.sources w').world.disk.node? _ = some (.file second.toUTF8) :=
    hk'.file.node
  rw [hnode', hdisk, hnode, Except.ok.inj hsame]

/-- A second run leaves every place as it is, but the log file, which grows at its end. -/
theorem node?_again (q : Place) :
    (inOrder s h s.sources w').world.disk.node? q = w'.disk.node? q ∨
      w'.Logs q ∧ ∃ bytes more, w'.disk.node? q = some (.file bytes) ∧
        (inOrder s h s.sources w').world.disk.node? q = some (.file (bytes ++ more)) := by
  by_cases hwrites : s.Writes h.home q
  · obtain ⟨source, hsource, rfl⟩ := hwrites
    exact .inl (node?_output_again hw hok hdisk hw' hok' hsource)
  have hgrows : Disk.Grows w'.Logs (s.outputFolder.OnTheWay h.home) (s.Writes h.home) w'.disk
      (inOrder s h s.sources w').world.disk := inOrder_grows (fun _ => id) w'
  cases hn : w'.disk.node? q with
  | some node =>
    rcases hgrows.kept q node hwrites hn with hn' | ⟨hlogs, bytes, more, rfl, hn'⟩
    · exact .inl hn'
    · exact .inr ⟨hlogs, bytes, more, rfl, hn'⟩
  | none =>
    refine .inl (Option.eq_none_iff_forall_ne_some.mpr fun node hn' => ?_)
    obtain ⟨rfl, hmade⟩ := hgrows.fresh q node hwrites hn hn'
    -- All folders on the way are there since the first run, if that has written anything.
    cases hsources : s.sources with
    | nil =>
      rw [hsources] at hn'
      exact absurd (hn.symm.trans hn') (by simp)
    | cons source rest =>
      obtain ⟨text, -, hk⟩ := (inOrder_files hok).2 source (hsources ▸ List.mem_cons_self)
      have hfile : (inOrder s h s.sources w).world.disk.HasFile h.home (s.outputPath source)
          text.toUTF8 := hk.file
      have hfolder := folder_of_hasFile hfile hmade
      rw [← hdisk, hn] at hfolder
      cases hfolder

end

/-- Scanning again changes nothing: after a run one after another that has succeeded, a run
from the disk that it has left succeeds too, with the same paths, and every place holds what
it held. If the log goes to a file, that one grows at its end. All that is asked for is that no
output stands where an input leads, that no input is read from the log file, and that no link
leads to an output or the log file. The output folder may lie in a folder that is scanned, or
have any name. -/
theorem rescan_changes_nothing (s : Settings) (h : Host) (links : List Link) (w w' : World)
    (hsequential : isSequential s = true) (htree : w.disk.IsTree) (hshows : w.disk.Shows links)
    (houtputs : ∀ source ∈ s.sources, ∀ p ∈ s.inputs,
      (s.outputPath source).destination h.home ≠ p.destination h.home)
    (hlogs : ∀ q, w.Logs q ∨ w'.Logs q → s.Unread h.home q)
    (hlinks : ∀ link ∈ links, ∀ q, (w.Logs q ∨ w'.Logs q) ∨ s.Writes h.home q →
      q ≠ link.place ∧ q ≠ link.target) {paths : List Path}
    (hok : (scanAll s h w).outcome = .ok paths)
    (hdisk : w'.disk = (scanAll s h w).world.disk.throughAll links) :
    (scanAll s h w').outcome = .ok paths ∧
      ∀ q, (scanAll s h w').world.disk.node? q = w'.disk.node? q ∨
        w'.Logs q ∧ ∃ bytes more, w'.disk.node? q = some (.file bytes) ∧
          (scanAll s h w').world.disk.node? q = some (.file (bytes ++ more)) := by
  rw [scanAll, if_pos hsequential] at hok hdisk ⊢
  have hwrites : ∀ q, s.Writes h.home q → s.Unread h.home q := by
    rintro q hq p hp
    refine hq.definesNone.not_reads ?_
    obtain ⟨source, hsource, rfl⟩ := hq
    exact houtputs source hsource p hp
  have hw : w.IsSteady s h := ⟨htree.leads, fun q hq => hlogs q (.inl hq), hwrites⟩
  obtain ⟨hdrifts, hafter, hall⟩ := inOrder_repeats (fun _ => id) hw hok
  have hseen : (inOrder s h s.sources w).world.disk.Shows links :=
    hshows.grows (inOrder_grows (fun _ => id) w) fun link hlink q hq =>
      hlinks link hlink q (hq.imp_left .inl)
  rw [hseen.throughAll_eq (hdrifts.distinct htree.nodup)] at hdisk
  have hw' : w'.IsSteady s h := ⟨hdisk ▸ hafter.leads, fun q hq => hlogs q (.inr hq), hwrites⟩
  have hok' : (inOrder s h s.sources w').outcome = .ok (s.sources.map s.outputPath) := by
    refine inOrder_again (fun _ => id) hw' fun a ha => ?_
    obtain ⟨i, hi⟩ := List.mem_iff_getElem?.mp ha
    obtain ⟨text, -, hrepeats⟩ := hall i a hi
    exact ⟨text, hdisk ▸ hrepeats⟩
  rw [(inOrder_files hok).1]
  exact ⟨hok', node?_again hw hok hdisk hw' hok'⟩

/-! ## 4. A small run again -/

theorem World.not_logs_ofDisk (d : Disk) (q : Place) : ¬ (World.ofDisk d).Logs q := by
  rintro ⟨sinks, f, hsinks, -⟩
  cases hsinks

namespace Sample

theorem isTree_twoFolders : twoFolders.IsTree := by
  refine Disk.isTree_of_nodes (by decide) ?_ ?_
  · intro n hn i hi
    simp only [twoFolders, disk, List.cons_append, List.nil_append, List.mem_cons,
      List.not_mem_nil, or_false] at hn
    rcases hn with rfl | rfl | rfl | rfl | rfl <;> dsimp at hi <;> interval_cases i <;> rfl
  · decide

/-- The results of the small run stand in the root folder. -/
theorem eq_of_writes {q : Place} (jobs : Nat) (hq : (bothTargets jobs).Writes host.home q) :
    q = ["a.txt"] ∨ q = ["b.txt"] := by
  obtain ⟨source, hsource, rfl⟩ := hq
  rcases List.mem_pair.mp hsource with rfl | rfl
  · rw [outputPath_first]
    exact .inl rfl
  · rw [outputPath_second]
    exact .inr rfl

/-- No result of the small run stands where a source is. -/
theorem destination_ne (jobs : Nat) : ∀ source ∈ (bothTargets jobs).sources,
    ∀ p ∈ (bothTargets jobs).inputs,
      ((bothTargets jobs).outputPath source).destination host.home ≠ p.destination host.home := by
  intro source hsource p hp
  have hp : p ∈ [target, emptyTarget] := by simpa [Settings.inputs, bothTargets, settings] using hp
  rcases List.mem_pair.mp hsource with rfl | rfl
  · rw [outputPath_first]
    rcases List.mem_pair.mp hp with rfl | rfl <;> decide
  · rw [outputPath_second]
    rcases List.mem_pair.mp hp with rfl | rfl <;> decide

end Sample

/-- The small run over two sources that lie in the output folder, and the same run again. One of
the sources holds a link that leads nowhere. -/
theorem rescan_changes_nothing_of_sample :
    (scanAll (Sample.bothTargets 1) Sample.host (.ofDisk Sample.twoFolders)).outcome =
        .ok Sample.results ∧
      (scanAll (Sample.bothTargets 1) Sample.host (.ofDisk
        ((scanAll (Sample.bothTargets 1) Sample.host (.ofDisk Sample.twoFolders)).world.disk.throughAll
          [⟨["a", "p", "C.class"], ["c"]⟩]))).outcome = .ok Sample.results := by
  have hfirst : (scanAll (Sample.bothTargets 1) Sample.host (.ofDisk Sample.twoFolders)).outcome =
      .ok Sample.results := Sample.outcome_inOrder 1 rfl
  have hshows : Sample.twoFolders.Shows [⟨["a", "p", "C.class"], ["c"]⟩] := by
    intro link hlink bytes htarget
    obtain rfl := List.mem_singleton.mp hlink
    cases htarget
  have hagain := rescan_changes_nothing (Sample.bothTargets 1) Sample.host
    [⟨["a", "p", "C.class"], ["c"]⟩] (.ofDisk Sample.twoFolders) (.ofDisk _) rfl
    Sample.isTree_twoFolders hshows (Sample.destination_ne 1)
    (fun q hq => (hq.elim (World.not_logs_ofDisk _ q) (World.not_logs_ofDisk _ q)).elim)
    (fun link hlink q hq => by
      obtain rfl := List.mem_singleton.mp hlink
      rcases hq with hq | hq
      · exact (hq.elim (World.not_logs_ofDisk _ q) (World.not_logs_ofDisk _ q)).elim
      · rcases Sample.eq_of_writes 1 hq with rfl | rfl <;> decide)
    hfirst rfl
  exact ⟨hfirst, hagain.1⟩

/-! ## 5. What is to be set apart

An open log file gets more lines in every run, also in one that changes nothing else. -/

/-- Records of a level come to the log file at a place. -/
def World.LogsTo (w : World) (level : Log.Level) (q : Place) : Prop :=
  ∃ sinks f, w.log.sinks = some sinks ∧ sinks.file = some f ∧ f.place = q ∧ f.isReplaced = false ∧
    level.reaches sinks.level = true ∧ level.reaches f.level = true

theorem extends_leave {r : Log.Record} {q : Place} {bytes : ByteArray} (hl : w.LogsTo r.level q)
    (hq : w.disk.node? q = some (.file bytes)) (thread : String) :
    Disk.Extends q w.disk (w.leave thread [r]).disk := by
  obtain ⟨⟨_, d, stamp⟩, records⟩ := w
  obtain ⟨sinks, f, rfl, hf, rfl, hkept⟩ := hl
  have hq : d.node? f.place = some (.file bytes) := hq
  have hdeliver := Log.node?_deliver hf stamp { r with thread := thread } d f.place
  rw [if_pos hkept, Disk.node?_append hq, if_pos rfl] at hdeliver
  refine ⟨bytes, _, ?_, hq, hdeliver⟩
  simp [Log.fileLine, show 0 < "\n".utf8ByteSize by decide]

/-- The first step of a scan that gets on says where the result goes. -/
theorem extends_announce {q : Place} {bytes : ByteArray} (hl : w.LogsTo .info q)
    (hq : w.disk.node? q = some (.file bytes)) (hnull : ¬ (s.outputPath source).hasNull = true)
    (thread : String) : Disk.Extends q w.disk (step s h thread source .waiting w).2.disk := by
  rw [step, announce, if_neg hnull]
  exact extends_leave hl hq thread

theorem scan_extends_log {q : Place} {bytes : ByteArray} {output : Path} (hl : w.LogsTo .info q)
    (hq : w.disk.node? q = some (.file bytes)) (hne : q ≠ (s.outputPath source).destination h.home)
    (hscan : scan s h source w = (.finished (.ok output), w')) : Disk.Extends q w.disk w'.disk := by
  obtain ⟨stage, w₁, hstep⟩ : ∃ stage w₁, step s h Log.mainThread source .waiting w = (stage, w₁) :=
    ⟨_, _, rfl⟩
  have hrest : scan s h source w = steps s h source 3 (step s h Log.mainThread source .waiting w).1
      (step s h Log.mainThread source .waiting w).2 := rfl
  rw [hscan, hstep] at hrest
  have hnull : ¬ (s.outputPath source).hasNull = true := by
    intro hnull
    rw [step, announce, if_pos hnull] at hstep
    cases hstep
    cases hrest
  have hannounced := extends_announce (h := h) hl hq hnull Log.mainThread
  obtain ⟨hgrows, -⟩ := steps_grows s h source 3 stage w₁
  rw [hstep] at hannounced
  rw [← hrest] at hgrows
  exact hannounced.grows hgrows hne

/-- A run that succeeds makes an open log file longer, since each scan says where its result
goes. -/
theorem inOrder_extends_log {sources paths : List Path} {q : Place} {bytes : ByteArray}
    (hsources : ∀ a ∈ sources, a ∈ s.sources) (hne : sources ≠ []) (hl : w.LogsTo .info q)
    (hq : w.disk.node? q = some (.file bytes)) (hwrites : ¬ s.Writes h.home q)
    (hok : (inOrder s h sources w).outcome = .ok paths) :
    Disk.Extends q w.disk (inOrder s h sources w).world.disk := by
  cases sources with
  | nil => exact absurd rfl hne
  | cons source rest =>
    obtain ⟨hsource, hrest⟩ := List.forall_mem_cons.mp hsources
    obtain ⟨w₁, others, hscan, -, -, hrun⟩ := inOrder_cons_eq_ok hok
    have hfirst := scan_extends_log hl hq (fun heq => hwrites ⟨source, hsource, heq⟩) hscan
    have hothers := inOrder_grows (h := h) hrest w₁
    rw [hrun rest]
    exact hfirst.grows hothers hwrites

namespace Sample

/-- An empty folder, and a log file. -/
def withLog : Disk := ⟨[(["b"], .folder), (["scan.log"], .file .empty)]⟩

/-- A world with that log file open. -/
def logged (d : Disk) : World :=
  ⟨⟨some ⟨.info, .info, some ⟨["scan.log"], .info, false⟩⟩, d, "2024-05-01 12:00:00,000"⟩, []⟩

/-- The settings of a scan of the empty folder. -/
def oneTarget : Settings := { bothTargets 1 with sources := [emptyTarget] }

theorem scanAll_one (w : World) :
    scanAll oneTarget host w = inOrder oneTarget host oneTarget.sources w := if_pos rfl

theorem outputPath_one : oneTarget.outputPath emptyTarget = ⟨.root, ["b.txt"]⟩ := outputPath_second 1

theorem isTree_withLog : withLog.IsTree := by
  refine Disk.isTree_of_nodes (by decide) ?_ ?_
  · intro n hn i hi
    simp only [withLog, List.mem_cons, List.not_mem_nil, or_false] at hn
    rcases hn with rfl | rfl <;> dsimp at hi <;> interval_cases i <;> rfl
  · decide

/-- No input is read from a place that the path of the folder does not lead to. -/
theorem unread_of_apart {q : Place} (hq : ¬ ["b"] <+: q) : oneTarget.Unread host.home q := by
  intro p hp hreads
  obtain rfl := List.mem_singleton.mp hp
  obtain ⟨parts, rfl, -⟩ := hreads
  exact hq (List.prefix_append _ _)

theorem eq_of_writes_one {q : Place} (hq : oneTarget.Writes host.home q) : q = ["b.txt"] := by
  obtain ⟨source, hsource, rfl⟩ := hq
  obtain rfl : source = emptyTarget := List.mem_singleton.mp hsource
  rw [outputPath_one]
  rfl

theorem isSteady_logged {d : Disk} (hd : d.Leads) : (logged d).IsSteady oneTarget host where
  leads := hd
  logs := by
    rintro q ⟨sinks, f, hsinks, hf, rfl⟩
    cases hsinks
    cases hf
    exact unread_of_apart (by decide)
  writes q hq := unread_of_apart (by rw [eq_of_writes_one hq]; decide)

/-- A run that succeeds leaves a longer log file. -/
theorem extends_logged {d : Disk} {bytes : ByteArray} {paths : List Path}
    (hd : d.node? ["scan.log"] = some (.file bytes))
    (hok : (inOrder oneTarget host oneTarget.sources (logged d)).outcome = .ok paths) :
    Disk.Extends ["scan.log"] d (inOrder oneTarget host oneTarget.sources (logged d)).world.disk := by
  have hlogs : (logged d).LogsTo .info ["scan.log"] := ⟨_, _, rfl, rfl, rfl, rfl, rfl, rfl⟩
  refine inOrder_extends_log (fun _ => id) (List.cons_ne_nil _ _) hlogs hd (fun hwrites => ?_) hok
  exact absurd (eq_of_writes_one hwrites) (by decide)

/-- A run that can be repeated succeeds, with the log file open. -/
theorem outcome_logged {d : Disk} (hd : d.Leads) {text : String}
    (hr : Repeats oneTarget host d emptyTarget text) :
    (inOrder oneTarget host oneTarget.sources (logged d)).outcome = .ok [⟨.root, ["b.txt"]⟩] := by
  have hrun := inOrder_again (fun _ => id) (isSteady_logged hd) fun a ha => by
    obtain rfl := List.mem_singleton.mp ha
    exact ⟨text, hr⟩
  rw [hrun, ← outputPath_one]
  rfl

theorem resolve_one : (Handle.resolve withLog host.home emptyTarget oneTarget.classpath).outcome =
    .ok emptyHandle := by
  cbv

theorem render_one : (render oneTarget withLog host.home emptyHandle).outcome = .ok "" :=
  render_of_no_files rfl rfl

/-- The disk after a run without a log. -/
def withResult : Disk := ⟨withLog.nodes ++ [(["b.txt"], .file .empty)]⟩

theorem replaceFile_one : withLog.replaceFile host (oneTarget.outputPath emptyTarget)
    (some "".toUTF8) = (.ok (), withResult) := by
  have htemporary : withLog.temporaryPlace [] ⟨.root, ["b.txt"]⟩ =
      .ok [".b.txt.00000000.tmp"] := rfl
  rw [outputPath_one, replaceFile_root htemporary]
  rfl

theorem repeats_one : Repeats oneTarget host withLog emptyTarget "" where
  gives := by
    rw [textOf, resolve_one]
    exact render_one
  writes d' hd := by
    have hok : (withLog.replaceFile host (oneTarget.outputPath emptyTarget) (some "".toUTF8)).1 =
        .ok () := congrArg Prod.fst replaceFile_one
    rw [← hok]
    refine hd.fst_replaceFile (Settings.outputName_ne emptyTarget) (by decide) ?_ ?_ ?_ _
    · rintro front back hfront hback hnone
      obtain rfl := List.prefix_nil.mp hback
      rwa [List.prefix_nil.mp hfront] at hnone
    · rintro part ⟨front, hfront, hpart⟩
      obtain rfl := List.prefix_nil.mp hfront
      exact absurd hpart (List.append_ne_nil_of_right_ne_nil _ (List.cons_ne_nil part []))
    · rintro q ⟨source, -, rfl⟩
      exact ⟨_, Settings.destination_outputPath source,
        fun n => Settings.outputName_ne_temporary source _ n⟩

/-- The disk after a run with the log file open. -/
def withMoreLog : Disk := (scanAll oneTarget host (logged withLog)).world.disk

/-- A link in the folder that is scanned, which leads to the result. -/
def resultLink : Link := ⟨["b", "A.class"], ["b.txt"]⟩

/-- What is seen through the link after the run: the result, which is no class. -/
def withEmptyClass : Disk := ⟨withResult.nodes ++ [(["b", "A.class"], .file .empty)]⟩

theorem throughAll_withResult : withResult.throughAll [resultLink] = withEmptyClass := rfl

def classHandle : Handle := ⟨emptyTarget, .folder [("A", ⟨.root, ["b", "A.class"]⟩)], [], []⟩

theorem resolve_withEmptyClass :
    (Handle.resolve withEmptyClass [] emptyTarget []).outcome = .ok classHandle := by
  have hbelow : withEmptyClass.filesBelow ["b"] = [["A.class"]] := by cbv
  have hclass : classDefinedBy? ("/".intercalate ["A.class"]) = some "A" := by decide
  have hl : withEmptyClass.locate [] emptyTarget = .ok ["b"] := rfl
  have hn : withEmptyClass.node? ["b"] = some .folder := rfl
  have hopen : Source.openAt withEmptyClass [] emptyTarget = .ok classHandle.own := by
    simp only [Source.openAt, hl, hn, Source.ofFolder, hbelow, List.filterMap_cons, hclass]
    rfl
  simp only [Handle.resolve, Handle.openEntry, hopen]
  rfl

theorem render_withEmptyClass : (render oneTarget withEmptyClass [] classHandle).outcome =
    .error (.cannotParse "A" .truncated) := by
  have hnames : classHandle.targetNames = ["A"] := by cbv
  have hfind : classHandle.find withEmptyClass [] "A" = .ok (some ([], .target)) := rfl
  have hparse : ClassFile.parse [] = .error (.malformed .truncated) := by cbv
  have hlookUp : classHandle.lookUp withEmptyClass [] "A" = .error (.cannotParse "A" .truncated) := by
    simp only [Handle.lookUp, hfind, Handle.parsed, hparse]
    rfl
  have hrecord : (classHandle.table withEmptyClass []).record "A" .ordinary =
      .error (.cannotParse "A" .truncated) := by
    rw [ClassTable.record, if_pos (by decide)]
    exact congrArg (Except.map _) hlookUp
  have hcovers : oneTarget.exclusion.covers "A" = false := by cbv
  have hown : (Universe.addOwn (classHandle.table withEmptyClass []) oneTarget.exclusion ["A"]
      .empty []).outcome = .error (.cannotParse "A" .truncated) := by
    rw [Universe.addOwn, if_neg (by simp [hcovers]), hrecord]
    rfl
  rw [render, renderTable, Report.outcome_bind, Universe.enumerate, Report.outcome_bind,
    show (classHandle.table withEmptyClass []).own = ["A"] from hnames, hown]
  rfl

/-- The first run comes to its result, since the link leads nowhere yet. -/
theorem scanAll_withLog :
    (scanAll oneTarget host (.ofDisk withLog)).outcome = .ok [⟨.root, ["b.txt"]⟩] ∧
      (scanAll oneTarget host (.ofDisk withLog)).world.disk = withResult := by
  have hw : World.IsUnlogged (.ofDisk withLog) withLog := rfl
  obtain ⟨w', hscan, hw'⟩ := hw.exists_carriesOut (by rw [outputPath_one]; decide) resolve_one
    render_one replaceFile_one Log.mainThread
  rw [scanAll_one, show oneTarget.sources = [emptyTarget] from rfl, inOrder, hscan.scan,
    outputPath_one]
  exact ⟨rfl, congrArg Log.State.disk hw'⟩

/-- The second run takes the result for a class. -/
theorem scanAll_withEmptyClass : (scanAll oneTarget host (.ofDisk withEmptyClass)).outcome =
    .error (.cannotParse "A" .truncated) := by
  have hw : World.IsUnlogged (.ofDisk withEmptyClass) withEmptyClass := rfl
  obtain ⟨w₁, hs₁, hw₁⟩ : ∃ w₁, step oneTarget host Log.mainThread emptyTarget .waiting
      (.ofDisk withEmptyClass) = (.announced, w₁) ∧ w₁.IsUnlogged withEmptyClass :=
    hw.announce (by rw [outputPath_one]; decide)
  obtain ⟨w₂, hs₂, hw₂⟩ : ∃ w₂, step oneTarget host Log.mainThread emptyTarget .announced w₁ =
      (.opened classHandle, w₂) ∧ w₂.IsUnlogged withEmptyClass :=
    hw₁.openTarget resolve_withEmptyClass
  obtain ⟨w₃, hs₃, -⟩ : ∃ w₃, step oneTarget host Log.mainThread emptyTarget (.opened classHandle)
      w₂ = (.finished (.error (.cannotParse "A" .truncated)), w₃) ∧ w₃.IsUnlogged withEmptyClass :=
    hw₂.refuseText render_withEmptyClass
  have hscan : scan oneTarget host emptyTarget (.ofDisk withEmptyClass) =
      (.finished (.error (.cannotParse "A" .truncated)), w₃) := by
    simp only [scan, stepCount, steps, hs₁, hs₂, hs₃]
    rfl
  rw [scanAll_one, show oneTarget.sources = [emptyTarget] from rfl, inOrder, hscan]

end Sample

/-- The log file and links to results have to be set apart. An empty folder is scanned twice, with
the same paths. If the log goes to a file, that one is not what it was before the second run. And
if there is a link in the folder that leads to the result, the second run takes the result for a
class and fails. -/
theorem rescan_meets_log_and_link :
    isSequential Sample.oneTarget = true ∧ Sample.withLog.IsTree ∧
      (∀ source ∈ Sample.oneTarget.sources, ∀ p ∈ Sample.oneTarget.inputs,
        (Sample.oneTarget.outputPath source).destination [] ≠ p.destination []) ∧
      ((scanAll Sample.oneTarget Sample.host (Sample.logged Sample.withLog)).outcome =
          .ok [⟨.root, ["b.txt"]⟩] ∧
        (scanAll Sample.oneTarget Sample.host (Sample.logged Sample.withMoreLog)).outcome =
          .ok [⟨.root, ["b.txt"]⟩] ∧
        (scanAll Sample.oneTarget Sample.host (Sample.logged Sample.withMoreLog)).world.disk.node?
          ["scan.log"] ≠ Sample.withMoreLog.node? ["scan.log"]) ∧
      Sample.withLog.Shows [Sample.resultLink] ∧
      (scanAll Sample.oneTarget Sample.host (.ofDisk Sample.withLog)).outcome =
        .ok [⟨.root, ["b.txt"]⟩] ∧
      (scanAll Sample.oneTarget Sample.host (.ofDisk
        ((scanAll Sample.oneTarget Sample.host (.ofDisk Sample.withLog)).world.disk.throughAll
          [Sample.resultLink]))).outcome = .error (.cannotParse "A" .truncated) := by
  have hleads := Sample.isTree_withLog.leads
  have hfirst := Sample.outcome_logged hleads Sample.repeats_one
  obtain ⟨-, hafter, hall⟩ :=
    inOrder_repeats (fun _ => id) (Sample.isSteady_logged hleads) hfirst
  obtain ⟨text, -, hagain⟩ := hall 0 Sample.emptyTarget rfl
  obtain ⟨_, _, -, -, hlog⟩ := Sample.extends_logged rfl hfirst
  have hsecond := Sample.outcome_logged hafter.leads hagain
  refine ⟨rfl, Sample.isTree_withLog, ?_, ⟨?_, ?_, ?_⟩, ?_, Sample.scanAll_withLog.1, ?_⟩
  · intro source hsource p hp
    obtain rfl := List.mem_singleton.mp hsource
    obtain rfl := List.mem_singleton.mp hp
    rw [Sample.outputPath_one]
    decide
  · rw [Sample.scanAll_one, hfirst]
  · rw [Sample.withMoreLog, Sample.scanAll_one, Sample.scanAll_one, hsecond]
  · rw [Sample.withMoreLog, Sample.scanAll_one, Sample.scanAll_one]
    exact (Sample.extends_logged hlog hsecond).ne
  · intro link hlink bytes htarget
    obtain rfl := List.mem_singleton.mp hlink
    cases htarget
  · rw [Sample.scanAll_withLog.2, Sample.throughAll_withResult]
    exact Sample.scanAll_withEmptyClass

end ApiSurface.Scan
