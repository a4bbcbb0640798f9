/-
ApiSurface.Proofs.Scan.Blocks — the text of a scan as a list of blocks.

`Scan.blocks` goes through the same stages as rendering and keeps the lines of each
class apart, under the name of the class. Rendering is these lines written one
after another, and fails where `Scan.blocks` fails (`outcome_renderTable`). So
statements about blocks are statements about the text, without having to find the
ends of blocks in it.
-/
import ApiSurface.Proofs.Lists
import ApiSurface.Proofs.Visibility.Rules
import ApiSurface.Scan.Target

namespace ApiSurface

namespace Snapshot

/-- The lines of some classes, each under the name of its class. -/
def blocks (v : View) : List ClassRecord → Report ClassFault (List (String × List String))
  | [] => return []
  | r :: rest => do
    let lines ← block v r
    return (r.name, lines) :: (← blocks v rest)

/-- The text of blocks that stand one after another. -/
def ofBlocks (bs : List (String × List String)) : String := ofLines (bs.flatMap (·.2))

theorem outcome_collect_block (v : View) (classes : List ClassRecord) :
    (collect (block v) classes).outcome =
      (blocks v classes).outcome.map fun bs => bs.flatMap (·.2) := by
  induction classes with
  | nil => rfl
  | cons r rest ih =>
    simp only [collect, blocks, Report.outcome_bind, Report.outcome_pure]
    rw [ih]
    cases (block v r).outcome with
    | error why => rfl
    | ok lines => cases (blocks v rest).outcome <;> rfl

/-- The text of some classes is that of their blocks. -/
theorem outcome_render (v : View) (classes : List ClassRecord) :
    (render v classes).outcome = (blocks v classes).outcome.map ofBlocks := by
  simp only [render, Report.outcome_bind, Report.outcome_pure, outcome_collect_block]
  cases (blocks v classes).outcome <;> rfl

/-- Every block is that of its class, in the order of the classes. -/
theorem blocks_eq_ok {v : View} {classes : List ClassRecord} {bs : List (String × List String)}
    (h : (blocks v classes).outcome = .ok bs) :
    List.Forall₂ (fun r b => b.1 = r.name ∧ (block v r).outcome = .ok b.2) classes bs := by
  induction classes generalizing bs with
  | nil =>
    cases h
    exact .nil
  | cons r rest ih =>
    obtain ⟨lines, hl, h⟩ := Report.outcome_bind_eq_ok.mp h
    obtain ⟨others, ho, h⟩ := Report.outcome_bind_eq_ok.mp h
    cases h
    exact .cons ⟨rfl, hl⟩ (ih ho)

/-- The blocks carry the names of the classes. -/
theorem map_fst_of_blocks {v : View} {classes : List ClassRecord}
    {bs : List (String × List String)} (h : (blocks v classes).outcome = .ok bs) :
    bs.map (·.1) = classes.map (·.name) := by
  have hbs := blocks_eq_ok h
  clear h
  induction hbs with
  | nil => rfl
  | cons hb _ ih => rw [List.map_cons, List.map_cons, hb.1, ih]

end Snapshot

namespace Scan

/-- What decides about publication in a scan that knows the classes of a universe. -/
def view (s : Settings) (known : Universe) (metadata : Option Metadata) : View :=
  ⟨known, .ofUniverse known s.markers, s.markers, s.excludedMethods, metadata⟩

/-- The blocks of the public interface of a target. -/
def blocks (s : Settings) (t : ClassTable) (target : Path) :
    Report Fault (List (String × List String)) := do
  let known ← Universe.enumerate t s.exclusion target
  let metadata ← Metadata.resolve t
  let classes ← (view s known metadata).includedClasses
  (Snapshot.blocks (view s known metadata) classes).mapFault (renderFault target)

/-- A scan renders exactly its blocks, and fails where they do. -/
theorem outcome_renderTable (s : Settings) (t : ClassTable) (target : Path) :
    (renderTable s t target).outcome = (blocks s t target).outcome.map Snapshot.ofBlocks := by
  simp only [renderTable, blocks, Report.outcome_bind]
  cases (Universe.enumerate t s.exclusion target).outcome with
  | error why => rfl
  | ok known =>
    cases (Metadata.resolve t).outcome with
    | error why => rfl
    | ok metadata =>
      have hv : (⟨known, .ofUniverse known s.markers, s.markers, s.excludedMethods, metadata⟩ :
          View) = view s known metadata := rfl
      simp only [hv, bind, Except.bind]
      cases (view s known metadata).includedClasses.outcome with
      | error why => rfl
      | ok classes =>
        simp only [Report.mapFault, Snapshot.outcome_render]
        cases (Snapshot.blocks (view s known metadata) classes).outcome <;> rfl

/-- The stages of a scan that succeeds. -/
theorem blocks_eq_ok {s : Settings} {t : ClassTable} {target : Path}
    {bs : List (String × List String)} (h : (blocks s t target).outcome = .ok bs) :
    ∃ known metadata classes,
      (Universe.enumerate t s.exclusion target).outcome = .ok known ∧
      (Metadata.resolve t).outcome = .ok metadata ∧
      (view s known metadata).includedClasses.outcome = .ok classes ∧
      (Snapshot.blocks (view s known metadata) classes).outcome = .ok bs := by
  obtain ⟨known, hk, h⟩ := Report.outcome_bind_eq_ok.mp h
  obtain ⟨metadata, hm, h⟩ := Report.outcome_bind_eq_ok.mp h
  obtain ⟨classes, hc, h⟩ := Report.outcome_bind_eq_ok.mp h
  exact ⟨known, metadata, classes, hk, hm, hc, Report.outcome_mapFault_eq_ok.mp h⟩

/-- A text that is rendered is that of some blocks. -/
theorem exists_blocks_of_render {s : Settings} {t : ClassTable} {target : Path} {text : String}
    (h : (renderTable s t target).outcome = .ok text) :
    ∃ bs, (blocks s t target).outcome = .ok bs ∧ text = Snapshot.ofBlocks bs := by
  rw [outcome_renderTable] at h
  cases hb : (blocks s t target).outcome with
  | error why => simp [hb, Except.map] at h
  | ok bs =>
    rw [hb] at h
    exact ⟨bs, rfl, (Except.ok.inj h).symm⟩

/-- The stages of a scan that renders a text: what it knows, the note on kinds, the classes
that it includes, and the text of these. -/
structure Stages (s : Settings) (t : ClassTable) (target : Path) (known : Universe)
    (metadata : Option Metadata) (classes : List ClassRecord) (text : String) : Prop where
  enumerates : (Universe.enumerate t s.exclusion target).outcome = .ok known
  resolves : (Metadata.resolve t).outcome = .ok metadata
  includes : (view s known metadata).includedClasses.outcome = .ok classes
  renders : (Snapshot.render (view s known metadata) classes).outcome = .ok text

/-- A scan renders a text through its stages. -/
theorem renderTable_eq_ok_iff {s : Settings} {t : ClassTable} {target : Path} {text : String} :
    (renderTable s t target).outcome = .ok text ↔
      ∃ known metadata classes, Stages s t target known metadata classes text := by
  constructor
  · intro h
    obtain ⟨known, hk, h⟩ := Report.outcome_bind_eq_ok.mp h
    obtain ⟨_, -, h⟩ := Report.outcome_bind_eq_ok.mp h
    obtain ⟨metadata, hm, h⟩ := Report.outcome_bind_eq_ok.mp h
    obtain ⟨classes, hc, h⟩ := Report.outcome_bind_eq_ok.mp h
    obtain ⟨text', ht, h⟩ := Report.outcome_bind_eq_ok.mp h
    obtain ⟨_, -, h⟩ := Report.outcome_bind_eq_ok.mp h
    cases h
    exact ⟨known, metadata, classes, hk, hm, hc, Report.outcome_mapFault_eq_ok.mp ht⟩
  · rintro ⟨known, metadata, classes, h⟩
    refine Report.outcome_bind_eq_ok.mpr ⟨known, h.enumerates, ?_⟩
    refine Report.outcome_bind_eq_ok.mpr ⟨(), rfl, ?_⟩
    refine Report.outcome_bind_eq_ok.mpr ⟨metadata, h.resolves, ?_⟩
    refine Report.outcome_bind_eq_ok.mpr ⟨classes, h.includes, ?_⟩
    exact Report.outcome_bind_eq_ok.mpr ⟨text, Report.outcome_mapFault_eq_ok.mpr h.renders, rfl⟩

namespace Stages

variable {s : Settings} {t : ClassTable} {target : Path} {known : Universe}
  {metadata : Option Metadata} {classes : List ClassRecord} {text : String}
  (h : Stages s t target known metadata classes text)
include h

/-- A scan includes the candidates that are published, in the order of their names. -/
theorem classes_eq :
    classes = View.sortedByName (known.classes.filter (view s known metadata).publishes) := by
  obtain ⟨selected, hselected, hclasses⟩ := Report.outcome_bind_eq_ok.mp h.includes
  cases hclasses
  rw [(View.selectFrom_eq_ok hselected).1]
  rfl

/-- A class that a scan includes is the record of a candidate. -/
theorem exists_record {r : ClassRecord} (hr : r ∈ classes) :
    ∃ name ∈ known.candidates, known.record? name = some r := by
  rw [h.classes_eq, View.mem_sortedByName] at hr
  exact Universe.mem_classes.mp (List.mem_filter.mp hr).1

/-- A scan goes through its stages in one way. -/
theorem unique {known' : Universe} {metadata' : Option Metadata} {classes' : List ClassRecord}
    {text' : String} (h' : Stages s t target known' metadata' classes' text') :
    known = known' ∧ metadata = metadata' ∧ classes = classes' ∧ text = text' := by
  obtain rfl : known = known' := Except.ok.inj (h.enumerates.symm.trans h'.enumerates)
  obtain rfl : metadata = metadata' := Except.ok.inj (h.resolves.symm.trans h'.resolves)
  obtain rfl : classes = classes' := Except.ok.inj (h.includes.symm.trans h'.includes)
  exact ⟨rfl, rfl, rfl, Except.ok.inj (h.renders.symm.trans h'.renders)⟩

end Stages

end Scan

end ApiSurface
