/-
ApiSurface.Proofs.Scan.StoredNames — the names under which classes are stored.

A scan tells classes apart by the names under which they are stored, and leaves them
out by these names, while a block carries the name inside its class file. Blocks and
admitted stored names are in one-to-one correspondence, so a name can head two blocks
only where two stored names lead to classes of that name, and a class that an
exclusion covers can have a block only where it is stored under another name.

Nothing is asked of the class path, nor of classes of the target that are left out.
-/
import ApiSurface.Proofs.Scan.Locality
import Mathlib.Data.List.Perm.Basic

namespace ApiSurface

/-- Every class of the target that is not left out is stored under its own name. -/
def ClassTable.StoresAdmittedByName (t : ClassTable) (x : Exclusion) : Prop :=
  ∀ name c, t.Admits x name → t.file? name = some c → c.name = name

/-- The results of a partial function belong to different places of the list. -/
theorem exists_sublist_forall₂_filterMap {α β : Type} (f : α → Option β) (l : List α) :
    ∃ sources, sources.Sublist l ∧
      List.Forall₂ (fun a b => f a = some b) sources (l.filterMap f) := by
  induction l with
  | nil => exact ⟨[], .slnil, .nil⟩
  | cons a l ih =>
    obtain ⟨sources, hsub, hall⟩ := ih
    cases ha : f a with
    | none => exact ⟨sources, hsub.cons a, by rwa [List.filterMap_cons_none ha]⟩
    | some b =>
      rw [List.filterMap_cons_some ha]
      exact ⟨a :: sources, hsub.cons_cons a, .cons ha hall⟩

namespace Scan

variable {s : Settings} {t : ClassTable} {u : Universe} {metadata : Option Metadata}

/-- A candidate that is published is an admitted class of the target. -/
theorem exists_file_of_publishes (ht : t.Coherent) (h : u.Traces t s.exclusion [] []) {name : String}
    {r : ClassRecord} (hn : name ∈ u.candidates) (hr : u.record? name = some r)
    (hp : (view s u metadata).publishes r = true) :
    t.Admits s.exclusion name ∧ ∃ c, t.file? name = some c ∧ c.name = r.name := by
  obtain ⟨hd, -⟩ := View.exclusionReason?_eq_none_iff.mp (View.publishes_eq_true_iff.mp hp)
  have he := (View.declaredReason?_eq_none_iff.mp hd).2.1
  obtain ⟨r', hr', hwhy⟩ := (h.mem_candidates name).mp hn
  rw [h.record?_eq_some_iff.mpr hr', Option.some_inj] at hr
  subst hr
  have ha := hwhy.resolve_right (by simp [he])
  obtain ⟨c, hc, hrecord⟩ := h.exists_record_of_admits ht ha
  rw [h.record?_eq_some_iff.mpr hr', Option.some_inj] at hrecord
  exact ⟨ha, c, hc, by rw [hrecord]; rfl⟩

/-- The classes that a scan includes belong to different names, each an admitted one of
the target. -/
theorem exists_names_of_includedClasses (ht : t.Coherent) (h : u.Traces t s.exclusion [] [])
    {classes : List ClassRecord}
    (hc : (view s u metadata).includedClasses.outcome = .ok classes) :
    ∃ names, names.Nodup ∧ (∀ name ∈ names, t.Admits s.exclusion name) ∧
      List.Forall₂ (fun name r => ∃ c, t.file? name = some c ∧ c.name = r.name) names classes := by
  obtain ⟨selected, hs, hc⟩ := Report.outcome_bind_eq_ok.mp hc
  cases hc
  obtain ⟨rfl, -⟩ := View.selectFrom_eq_ok hs
  -- Sorting moves the names along with the classes.
  have hperm : (u.classes.filter (view s u metadata).publishes).Perm
      (View.sortedByName (u.classes.filter (view s u metadata).publishes)) :=
    (List.mergeSort_perm _ _).symm
  obtain ⟨sources, hsub, hall⟩ := exists_sublist_forall₂_filterMap
    (fun name => (u.record? name).filter (view s u metadata).publishes) u.candidates
  rw [← List.filter_filterMap, ← Universe.classes_eq_filterMap] at hall
  obtain ⟨names, hnames, hall⟩ :
      Relation.Comp List.Perm (List.Forall₂ _) sources (View.sortedByName _) := by
    rw [← List.forall₂_comp_perm_eq_perm_comp_forall₂]
    exact ⟨_, hall, hperm⟩
  have hcandidates : ∀ name ∈ names, name ∈ u.candidates :=
    fun name hn => hsub.subset (hnames.mem_iff.mpr hn)
  have hpublished := (List.forall₂_and_left _ _).mpr ⟨hcandidates, hall⟩
  obtain ⟨hadmits, hfiles⟩ := (List.forall₂_and_left _ _).mp <|
    hpublished.imp fun name r ⟨hn, hr⟩ => by
      obtain ⟨hr, hp⟩ := Option.filter_eq_some_iff.mp hr
      exact exists_file_of_publishes ht h hn hr hp
  exact ⟨names, (hnames.nodup_iff).mp (hsub.nodup h.nodup_candidates), hadmits, hfiles⟩

/-- A rendered text is made of blocks that belong to different names, each an admitted one
of the target, and a block carries the name inside the class file. Where these classes are
stored under their own names, no two blocks carry the same name, and none carries one
that the exclusion covers. -/
theorem render_names_of_stored {d : Disk} {home : Place} {target : Path} {classpath : List Path}
    {h : Handle} {text : String}
    (hopen : (Handle.resolve d home target classpath).outcome = .ok h)
    (hrender : (render s d home h).outcome = .ok text) :
    ∃ bs names, (blocks s (h.table d home) h.target).outcome = .ok bs ∧ text = Snapshot.ofBlocks bs ∧
      names.Nodup ∧ (∀ name ∈ names, (h.table d home).Admits s.exclusion name) ∧
      List.Forall₂ (fun name b => ∃ c, (h.table d home).file? name = some c ∧ c.name = b) names
        (bs.map (·.1)) ∧
      ((h.table d home).StoresAdmittedByName s.exclusion →
        (bs.map (·.1)).Nodup ∧ ∀ name ∈ bs.map (·.1), s.exclusion.covers name = false) := by
  have ht := Handle.coherent_table hopen
  obtain ⟨bs, hb, htext⟩ := exists_blocks_of_render hrender
  obtain ⟨known, metadata, classes, hk, -, hc, hbs⟩ := blocks_eq_ok hb
  obtain ⟨names, hnodup, hadmits, hall⟩ :=
    exists_names_of_includedClasses ht (Universe.enumerate_traces ht hk) hc
  have hnames : List.Forall₂ (fun name b => ∃ c, (h.table d home).file? name = some c ∧ c.name = b)
      names (bs.map (·.1)) := by
    rw [Snapshot.map_fst_of_blocks hbs, List.forall₂_map_right_iff]
    exact hall
  refine ⟨bs, names, hb, htext, hnodup, hadmits, hnames, fun hstored => ?_⟩
  have hsame : names = bs.map (·.1) := by
    rw [← List.forall₂_eq_eq_eq]
    refine ((List.forall₂_and_left _ _).mpr ⟨hadmits, hnames⟩).imp ?_
    rintro name b ⟨ha, c, hc, rfl⟩
    exact (hstored name c ha hc).symm
  rw [← hsame]
  exact ⟨hnodup, fun name hn => (hadmits name hn).2⟩

/-- The small target stores its classes under their names, so leaving `p.B` out leaves no
block of that name. -/
theorem render_names_of_sample :
    ∃ bs, (blocks (Sample.settings ["p.B"]) Sample.table Sample.target).outcome = .ok bs ∧
      (bs.map (·.1)).Nodup ∧
      ∀ name ∈ bs.map (·.1), (Sample.settings ["p.B"]).exclusion.covers name = false := by
  have h := render_names_of_stored Sample.resolve_target Sample.render_withoutB
  rw [Sample.table_handle] at h
  obtain ⟨bs, -, hb, -, -, -, -, hstored⟩ := h
  exact ⟨bs, hb, hstored fun name c _ hc => Sample.storedByName_table name c hc⟩

end Scan

end ApiSurface
