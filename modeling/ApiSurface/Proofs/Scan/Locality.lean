/-
ApiSurface.Proofs.Scan.Locality — the block of a class depends on nothing but what
the class reaches.

Two scans of different targets, with different class paths and exclusions, give a
class the same block if every name that the class reaches means the same class file
to both. The classification of a scan is made from all its classes, and its universe
in the order in which it meets them; but the views of both scans agree on the names
that the class reaches (`Scan.view_agreeOn`), and what decides about its block lies
among these.
-/
import ApiSurface.Proofs.Scan.PublicInterface
import ApiSurface.Proofs.Visibility.Agreement

namespace ApiSurface

/-! ## 1. Blocks -/

namespace Snapshot

theorem collect_congr {α β : Type} {f g : α → Report ClassFault (List β)} {l : List α}
    (h : ∀ a ∈ l, f a = g a) : collect f l = collect g l := by
  induction l with
  | nil => rfl
  | cons a rest ih =>
    rw [collect, collect, h a List.mem_cons_self,
      ih fun b hb => h b (List.mem_cons_of_mem _ hb)]

/-- Views that agree on what a class refers to give it the same block. -/
theorem block_eq {names : String → Prop} {v₁ v₂ : View} (h : View.AgreeOn names v₁ v₂)
    {r : ClassRecord} (hr : ∀ q ∈ r.references, names q.1)
    (hrec₁ : v₁.known.record? r.name = some r) (hrec₂ : v₂.known.record? r.name = some r)
    (howner : ∀ m ∈ r.methods, m.owner = r.name) : block v₁ r = block v₂ r := by
  have hmember : ∀ {m : Member}, (∀ n ∈ m.annotations, n ∈ r.memberAnnotations) →
      ∀ line, memberLines v₁ m line = memberLines v₂ m line := fun hm line => by
    rw [memberLines, memberLines, h.memberAnnotations_eq fun n hn =>
      hr (n, .annotationType) (ClassRecord.mem_references_of_memberAnnotation (hm n hn))]
  have hmethods : collect (fun m => return memberLines v₁ m.toMember (← methodLine m))
        (v₁.publicMethods r) =
      collect (fun m => return memberLines v₂ m.toMember (← methodLine m))
        (v₂.publicMethods r) := by
    rw [← h.publicMethods_eq hr hrec₁ hrec₂ howner]
    refine collect_congr fun m hm => ?_
    have hm' := List.mem_mergeSort.mp (List.mem_filter.mp hm).1
    simp only [hmember fun n hn => List.mem_append_left _ (List.mem_flatMap.mpr ⟨m, hm', hn⟩)]
  have hfields : collect (fun f => return memberLines v₁ f.toMember (← fieldLine f))
        (v₁.publicFields r) =
      collect (fun f => return memberLines v₂ f.toMember (← fieldLine f))
        (v₂.publicFields r) := by
    rw [← h.publicFields_eq hr]
    refine collect_congr fun f hf => ?_
    have hf' := List.mem_mergeSort.mp (List.mem_filter.mp hf).1
    simp only [hmember fun n hn => List.mem_append_right _ (List.mem_flatMap.mpr ⟨f, hf', hn⟩)]
  rw [block, block, hmethods, hfields, h.visibleAnnotations_eq hr]

/-- The block of a class stands under the name of the class. -/
theorem lookup_blocks {v : View} {classes : List ClassRecord} {bs : List (String × List String)}
    (h : (blocks v classes).outcome = .ok bs) (hnodup : (classes.map (·.name)).Nodup)
    {r : ClassRecord} (hr : r ∈ classes) :
    ∃ lines, (block v r).outcome = .ok lines ∧ bs.lookup r.name = some lines := by
  induction classes generalizing bs with
  | nil => cases hr
  | cons r' rest ih =>
    obtain ⟨lines, hl, h⟩ := Report.outcome_bind_eq_ok.mp h
    obtain ⟨others, ho, h⟩ := Report.outcome_bind_eq_ok.mp h
    cases h
    rw [List.map_cons, List.nodup_cons] at hnodup
    rcases List.mem_cons.mp hr with rfl | hr
    · exact ⟨lines, hl, by simp⟩
    · obtain ⟨lines', hl', hlookup⟩ := ih ho hnodup.2 hr
      have hne : (r.name == r'.name) = false := by
        rw [beq_eq_false_iff_ne]
        exact fun he => hnodup.1 (he ▸ List.mem_map_of_mem hr)
      exact ⟨lines', hl', by rw [List.lookup_cons, hne]; exact hlookup⟩

theorem lookup_blocks_eq_none {v : View} {classes : List ClassRecord}
    {bs : List (String × List String)} (h : (blocks v classes).outcome = .ok bs) {name : String}
    (hname : name ∉ classes.map (·.name)) : bs.lookup name = none := by
  rw [lookup_eq_none_iff_not_mem, map_fst_of_blocks h]
  exact hname

end Snapshot

/-! ## 2. Views of scans that agree from a class on -/

namespace Scan

variable {s₁ s₂ : Settings} {t₁ t₂ : ClassTable} {u₁ u₂ : Universe}
  {metadata₁ metadata₂ : Option Metadata} {start : String}

/-- What two scans know of annotation types agrees where their records agree. -/
theorem exists_annotation_congr (ht₁ : t₁.Coherent) (ht₂ : t₂.Coherent)
    (h₁ : u₁.Traces t₁ s₁.exclusion [] []) (h₂ : u₂.Traces t₂ s₂.exclusion [] [])
    (hnames₁ : t₁.StoredByName) (hnames₂ : t₂.StoredByName) {names : String → Prop}
    (hagree : Universe.AgreeOn names u₁.records u₂.records)
    (hclosed : Universe.ClosedOn names u₁.records) {n : String} (hn : names n)
    {p₁ p₂ : List String → Prop} (hp : ∀ l, (∀ a ∈ l, names a) → (p₁ l ↔ p₂ l)) :
    (∃ r ∈ u₁.annotations, r.name = n ∧ p₁ r.annotations) ↔
      ∃ r ∈ u₂.annotations, r.name = n ∧ p₂ r.annotations := by
  rw [h₁.exists_annotation_iff ht₁ hnames₁ (p := fun r => p₁ r.annotations),
    h₂.exists_annotation_iff ht₂ hnames₂ (p := fun r => p₂ r.annotations)]
  have hlookup := hagree n hn
  unfold Universe.record?
  cases hr₁ : u₁.records.lookup n with
  | none => simp [hagree.lookup_eq_none hn hr₁]
  | some r₁ =>
    obtain ⟨r₂, hr₂, heq⟩ := hagree.lookup_eq_some hn hr₁
    have hkind : r₁.isAnnotationType = r₂.isAnnotationType :=
      (congrArg ClassRecord.isAnnotationType heq :)
    have hannotations : r₁.annotations = r₂.annotations :=
      (congrArg ClassRecord.annotations heq :)
    have hin : ∀ a ∈ r₁.annotations, names a := fun a ha =>
      hclosed n r₁ hn hr₁ (a, .annotationType) (ClassRecord.mem_references_of_annotation ha)
    simp [hr₂, ← hkind, ← hannotations, hp _ hin]

/-- The views of two scans agree on what an admitted class reaches. -/
theorem view_agreeOn (hmarkers : s₁.markers = s₂.markers)
    (hmethods : s₁.excludedMethods = s₂.excludedMethods)
    (ht₁ : t₁.Coherent) (ht₂ : t₂.Coherent)
    (h₁ : u₁.Traces t₁ s₁.exclusion [] []) (h₂ : u₂.Traces t₂ s₂.exclusion [] [])
    (hnames₁ : t₁.StoredByName) (hnames₂ : t₂.StoredByName)
    (hroles₁ : t₁.HasSingleRoles s₁.exclusion) (hroles₂ : t₂.HasSingleRoles s₂.exclusion)
    (hmeta₁ : metadata₁.map (·.defaultKind) = t₁.defaultKind?)
    (hmeta₂ : metadata₂.map (·.defaultKind) = t₂.defaultKind?)
    (hstart₁ : t₁.Admits s₁.exclusion start) (hstart₂ : t₂.Admits s₂.exclusion start)
    (hagree : t₁.AgreeFrom t₂ start) :
    View.AgreeOn (t₁.Reaches start) (view s₁ u₁ metadata₁) (view s₂ u₂ metadata₂) := by
  have hrecords :=
    Universe.Traces.agreeOn_reaches ht₁ ht₂ h₁ h₂ hroles₁ hroles₂ hstart₁ hstart₂ hagree
  have hclosed : Universe.ClosedOn (t₁.Reaches start) u₁.records := h₁.closedOn_reaches ht₁
  have hannotation : ∀ n, t₁.Reaches start n → ∀ p₁ p₂ : List String → Prop,
      (∀ l, (∀ a ∈ l, t₁.Reaches start a) → (p₁ l ↔ p₂ l)) →
        ((∃ r ∈ u₁.annotations, r.name = n ∧ p₁ r.annotations) ↔
          ∃ r ∈ u₂.annotations, r.name = n ∧ p₂ r.annotations) := fun n hn _ _ hp =>
    exists_annotation_congr ht₁ ht₂ h₁ h₂ hnames₁ hnames₂ hrecords hclosed hn hp
  have hinternal : ∀ n, t₁.Reaches start n →
      (n ∈ (Classification.ofUniverse u₁ s₁.markers).internal ↔
        n ∈ (Classification.ofUniverse u₂ s₂.markers).internal) := fun n hn => by
    have hex := hannotation n hn (fun _ => True) (fun _ => True) fun _ _ => Iff.rfl
    simp only [and_true] at hex
    rw [Classification.mem_internal, Classification.mem_internal, hmarkers, hex]
  refine ⟨hmarkers, hmethods, hrecords, hclosed, hinternal, fun n hn => ?_, fun n hn => ?_,
    fun hn => ?_⟩
  · have hcarriers := hannotation n hn
      (fun l => ∃ a ∈ l, a ∈ (Classification.ofUniverse u₁ s₁.markers).internal)
      (fun l => ∃ a ∈ l, a ∈ (Classification.ofUniverse u₂ s₂.markers).internal)
      fun l hl => exists_congr fun a => and_congr_right fun ha => hinternal a (hl a ha)
    rw [Bool.eq_iff_iff, Classification.shows_eq_true_iff, Classification.shows_eq_true_iff, view,
      view, Classification.mem_invisible, Classification.mem_invisible, hinternal n hn, hcarriers,
      hmarkers]
  · rw [view, view, Classification.mem_inherited, Classification.mem_inherited]
    exact hannotation n hn _ _ fun _ _ => Iff.rfl
  · have hkind : t₁.defaultKind? = t₂.defaultKind? := by
      rw [ClassTable.defaultKind?, ClassTable.defaultKind?, hagree _ hn]
    rw [← hmeta₁, ← hmeta₂] at hkind
    exact Option.map_injective (fun a b hab => by cases a; cases b; exact congrArg _ hab) hkind

/-! ## 3. The block of one class -/

/-- A candidate has its block under its name if it is published, and else no block. -/
theorem lookup_of_candidate {v : View} {classes : List ClassRecord}
    {bs : List (String × List String)} (hnodup : (v.known.classes.map (·.name)).Nodup)
    (hc : v.includedClasses.outcome = .ok classes)
    (hbs : (Snapshot.blocks v classes).outcome = .ok bs) {r : ClassRecord}
    (hr : r ∈ v.known.classes) :
    (v.publishes r = true ∧ ∃ lines, (Snapshot.block v r).outcome = .ok lines ∧
        bs.lookup r.name = some lines) ∨
      (v.publishes r = false ∧ bs.lookup r.name = none) := by
  obtain ⟨selected, hs, hc⟩ := Report.outcome_bind_eq_ok.mp hc
  cases hc
  obtain ⟨rfl, -⟩ := View.selectFrom_eq_ok hs
  have hmem : ∀ r', r' ∈ View.sortedByName (v.known.classes.filter v.publishes) ↔
      r' ∈ v.known.classes ∧ v.publishes r' = true := fun r' => by
    rw [View.mem_sortedByName, List.mem_filter]
  cases hp : v.publishes r with
  | true =>
    have hlt := View.sortedByName_lt (hnodup.sublist (List.filter_sublist (p := v.publishes).map _))
    exact .inl ⟨rfl, Snapshot.lookup_blocks hbs (hlt.imp ne_of_lt) ((hmem r).mpr ⟨hr, hp⟩)⟩
  | false =>
    refine .inr ⟨rfl, Snapshot.lookup_blocks_eq_none hbs fun hn => ?_⟩
    obtain ⟨r', hr', hname⟩ := List.mem_map.mp hn
    obtain ⟨hr', hp'⟩ := (hmem r').mp hr'
    rw [List.inj_on_of_nodup_map hnodup hr' hr hname, hp] at hp'
    cases hp'

/-- Two scans that are complete and know their classes by their names, and in both of
which the target defines a class that is not left out, give that class the same block
or none, if all that the class reaches means the same to both. -/
theorem render_local {d₁ d₂ : Disk} {home₁ home₂ : Place} {target₁ target₂ : Path}
    {classpath₁ classpath₂ : List Path} {h₁ h₂ : Handle} {text₁ text₂ : String}
    (hmarkers : s₁.markers = s₂.markers) (hmethods : s₁.excludedMethods = s₂.excludedMethods)
    (hopen₁ : (Handle.resolve d₁ home₁ target₁ classpath₁).outcome = .ok h₁)
    (hopen₂ : (Handle.resolve d₂ home₂ target₂ classpath₂).outcome = .ok h₂)
    (hnames₁ : (h₁.table d₁ home₁).StoredByName) (hnames₂ : (h₂.table d₂ home₂).StoredByName)
    (hroles₁ : (h₁.table d₁ home₁).HasSingleRoles s₁.exclusion)
    (hroles₂ : (h₂.table d₂ home₂).HasSingleRoles s₂.exclusion)
    (hrender₁ : (render s₁ d₁ home₁ h₁).outcome = .ok text₁)
    (hrender₂ : (render s₂ d₂ home₂ h₂).outcome = .ok text₂)
    (hstart₁ : (h₁.table d₁ home₁).Admits s₁.exclusion start)
    (hstart₂ : (h₂.table d₂ home₂).Admits s₂.exclusion start)
    (hagree : (h₁.table d₁ home₁).AgreeFrom (h₂.table d₂ home₂) start) :
    ∃ bs₁ bs₂, (blocks s₁ (h₁.table d₁ home₁) h₁.target).outcome = .ok bs₁ ∧
      (blocks s₂ (h₂.table d₂ home₂) h₂.target).outcome = .ok bs₂ ∧
      text₁ = Snapshot.ofBlocks bs₁ ∧ text₂ = Snapshot.ofBlocks bs₂ ∧
      bs₁.lookup start = bs₂.lookup start := by
  have ht₁ := Handle.coherent_table hopen₁
  have ht₂ := Handle.coherent_table hopen₂
  obtain ⟨bs₁, hb₁, htext₁⟩ := exists_blocks_of_render hrender₁
  obtain ⟨bs₂, hb₂, htext₂⟩ := exists_blocks_of_render hrender₂
  refine ⟨bs₁, bs₂, hb₁, hb₂, htext₁, htext₂, ?_⟩
  obtain ⟨u₁, metadata₁, classes₁, hu₁, hm₁, hc₁, hbs₁⟩ := blocks_eq_ok hb₁
  obtain ⟨u₂, metadata₂, classes₂, hu₂, hm₂, hc₂, hbs₂⟩ := blocks_eq_ok hb₂
  have htr₁ := Universe.enumerate_traces ht₁ hu₁
  have htr₂ := Universe.enumerate_traces ht₂ hu₂
  have hview := view_agreeOn hmarkers hmethods ht₁ ht₂ htr₁ htr₂ hnames₁ hnames₂ hroles₁ hroles₂
    (Metadata.resolve_eq_ok hm₁) (Metadata.resolve_eq_ok hm₂) hstart₁ hstart₂ hagree
  obtain ⟨c, hfile₁, hrec₁⟩ := htr₁.exists_record_of_admits ht₁ hstart₁
  obtain ⟨c₂, hfile₂, hrec₂⟩ := htr₂.exists_record_of_admits ht₂ hstart₂
  rw [← hagree _ .refl, hfile₁] at hfile₂
  cases hfile₂
  have hname : (ClassRecord.ofClassFile false c).name = start := hnames₁ start c hfile₁
  have hr₁ := ((htr₁.mem_classes_iff ht₁ hnames₁).mpr
    ⟨by rw [hname]; exact hstart₁, c, by rw [hname]; exact hfile₁, rfl⟩).1
  have hr₂ := ((htr₂.mem_classes_iff ht₂ hnames₂).mpr
    ⟨by rw [hname]; exact hstart₂, c, by rw [hname, ← hagree _ .refl]; exact hfile₁, rfl⟩).1
  have hrefs := fun q hq => hview.closed start _ .refl hrec₁ q hq
  rw [← hname] at hrec₁ hrec₂
  have hpublishes := hview.publishes_eq hrefs (by rw [hname]; exact .refl)
    ClassRecord.lookup_annotationValues_eq_none
  have howner : ∀ m ∈ (ClassRecord.ofClassFile false c).methods, m.owner = c.name := fun m hm => by
    obtain ⟨_, -, rfl⟩ := List.mem_map.mp hm
    rfl
  have hblock := Snapshot.block_eq hview hrefs hrec₁ hrec₂ howner
  have hnodup₁ := htr₁.nodup_classes ht₁ hnames₁
  have hnodup₂ := htr₂.nodup_classes ht₂ hnames₂
  rw [← hname]
  rcases lookup_of_candidate hnodup₁ hc₁ hbs₁ hr₁ with ⟨hp₁, lines, hl₁, hlook₁⟩ | ⟨hp₁, hlook₁⟩
  · rcases lookup_of_candidate hnodup₂ hc₂ hbs₂ hr₂ with ⟨-, lines₂, hl₂, hlook₂⟩ | ⟨hp₂, -⟩
    · rw [hblock, hl₂] at hl₁
      cases hl₁
      rw [hlook₁, hlook₂]
    · rw [hpublishes, hp₂] at hp₁
      cases hp₁
  · rcases lookup_of_candidate hnodup₂ hc₂ hbs₂ hr₂ with ⟨hp₂, -⟩ | ⟨-, hlook₂⟩
    · rw [hpublishes, hp₂] at hp₁
      cases hp₁
    · rw [hlook₁, hlook₂]

namespace Sample

/-- What a scan that leaves `p.B` out knows; the class is reached all the same. -/
def knownWithoutB : Universe where
  records := knownClasses.records
  candidates := ["p.A", "q.C"]
  recorded := by simp [knownClasses, List.lookup_cons]

theorem render_withoutB : (render (settings ["p.B"]) disk [] handle).outcome =
    .ok "public class p.A extends p.B\n##\n" := by
  refine render_eq_ok knownWithoutB [.ofClassFile false (classFile "p.A" "p.B")]
    (by cbv) (fun c => ?_) (List.mergeSort_singleton _) (fun c => by cbv)
  have ha := exclusionReason?_classFile knownWithoutB c "p.A" "p.B" (by decide)
  have hclasses : knownWithoutB.classes =
      [.ofClassFile false (classFile "p.A" "p.B"), .placeholder "q.C" .ordinary] := rfl
  rw [hclasses]
  simp only [View.selectFrom, View.includesClass, ha, exclusionReason?_missing]
  rfl

end Sample

/-- Leaving the superclass out of the small target does not touch the block of `p.A`. -/
theorem render_local_of_sample :
    ∃ bs₁ bs₂, (blocks (Sample.settings []) Sample.table Sample.target).outcome = .ok bs₁ ∧
      (blocks (Sample.settings ["p.B"]) Sample.table Sample.target).outcome = .ok bs₂ ∧
      bs₁.lookup "p.A" = bs₂.lookup "p.A" := by
  have hadmits : ∀ excluded, (Sample.settings excluded).exclusion.covers "p.A" = false →
      (Sample.handle.table Sample.disk []).Admits (Sample.settings excluded).exclusion "p.A" :=
    fun excluded hx => ⟨by rw [Sample.table_handle]; simp [Sample.table], hx⟩
  have h := render_local (by rfl) (by rfl)
    Sample.resolve_target Sample.resolve_target
    (by rw [Sample.table_handle]; exact Sample.storedByName_table)
    (by rw [Sample.table_handle]; exact Sample.storedByName_table)
    (by rw [Sample.table_handle]; exact Sample.hasSingleRoles_table _)
    (by rw [Sample.table_handle]; exact Sample.hasSingleRoles_table _)
    Sample.render_target Sample.render_withoutB
    (hadmits [] (by decide)) (hadmits ["p.B"] (by cbv)) (fun _ _ => rfl)
  rw [Sample.table_handle] at h
  obtain ⟨bs₁, bs₂, hb₁, hb₂, -, -, hlookup⟩ := h
  exact ⟨bs₁, bs₂, hb₁, hb₂, hlookup⟩

end Scan

end ApiSurface
