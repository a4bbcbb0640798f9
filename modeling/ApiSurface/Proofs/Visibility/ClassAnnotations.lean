/-
ApiSurface.Proofs.Visibility.ClassAnnotations — which annotations the header of a class has.

Two lists stand for a set of names that is split in two: the annotations of the class, and
the inherited ones of everything above it, without those of the platform. The split is that
of the classification, and the order is that of the names, but for one name that comes
first. `ListsAnnotations` says all of this of two lists, and `classAnnotations_lists` says
it of the lists of every class that the universe has under its own name. Above a class is
what references lead to (`Universe.IsAbove`); no walk is mentioned.
-/
import ApiSurface.Proofs.Universe.Ancestors
import ApiSurface.Proofs.Visibility.Classification
import ApiSurface.Visibility.Rules

namespace ApiSurface

/-! ## 1. Names in order -/

theorem mem_orderAnnotations_iff {pinned : Option String} {names : List String} {name : String} :
    name ∈ orderAnnotations pinned names ↔ name ∈ names := by
  rw [orderAnnotations, List.mem_append, List.mem_filter, List.mem_filter, ← and_or_left,
    Names.mem_sorted, Names.mem_distinct]
  exact and_iff_left (by by_cases h : some name = pinned <;> simp [h])

/-- Without a pinned name the order is that of the names. -/
theorem orderAnnotations_none (names : List String) :
    orderAnnotations none names = Names.sorted (Names.distinct names) := by
  simp [orderAnnotations]

/-- The pinned name comes first, if it is there, and the others follow in order. -/
theorem orderAnnotations_pinned (pinned : String) (names : List String) :
    ∃ rest : List String, rest.Pairwise (· < ·) ∧ pinned ∉ rest ∧
      orderAnnotations pinned names = if pinned ∈ names then pinned :: rest else rest := by
  have hlt := Names.sorted_distinct_lt names
  have hnodup : (Names.sorted (Names.distinct names)).Nodup :=
    Names.nodup_sorted (Names.nodup_distinct names)
  refine ⟨(Names.sorted (Names.distinct names)).filter (some · != some pinned), hlt.filter _,
    by simp, ?_⟩
  have hfront : (Names.sorted (Names.distinct names)).filter (some · == some pinned) =
      if pinned ∈ names then [pinned] else [] := by
    simp only [Option.some_beq_some, List.filter_beq, hnodup.count, Names.mem_sorted,
      Names.mem_distinct]
    split_ifs <;> rfl
  rw [orderAnnotations, hfront]
  split_ifs <;> rfl

/-- Each name is listed once. -/
theorem nodup_orderAnnotations (pinned : Option String) (names : List String) :
    (orderAnnotations pinned names).Nodup := by
  cases pinned with
  | none =>
    rw [orderAnnotations_none]
    exact Names.nodup_sorted (Names.nodup_distinct names)
  | some pinned =>
    obtain ⟨rest, hlt, hout, heq⟩ := orderAnnotations_pinned pinned names
    have hrest : rest.Nodup := hlt.imp fun h => ne_of_lt h
    rw [heq]
    split_ifs
    · exact List.nodup_cons.mpr ⟨hout, hrest⟩
    · exact hrest

namespace View

/-! ## 2. The annotations above a class -/

variable {v : View} {r a : ClassRecord} {name : String}

theorem isPlatform_iff :
    isPlatform name = true ↔ "java.".toList <+: name.toList ∨ "kotlin.".toList <+: name.toList := by
  simp [isPlatform, platformPrefixes]

/-- A class takes over annotations from everything above it. -/
theorem eq_or_mem_ancestors_iff (hr : v.known.record? r.name = some r) :
    a = r ∨ a ∈ v.ancestors r ↔ v.known.IsAbove r a := by
  rw [Universe.isAbove_iff hr, ← Universe.mem_roots_or_interfaces_iff hr, Universe.roots, ancestors]
  split_ifs with hkind
  · rw [List.mem_singleton]
  · rw [List.mem_append, List.mem_cons, or_assoc]

/-- What refers to nothing takes over nothing. -/
theorem ancestors_eq_nil (hsuper : r.superclassName? = none)
    (hinterfaces : r.interfaces = []) : v.ancestors r = [] := by
  have hnone : v.known.superclasses r = [] := by
    rw [Universe.superclasses, hsuper, Universe.superclassesFrom]
  rw [ancestors, Universe.interfaces_eq, Universe.roots, hnone, List.nil_append]
  split_ifs <;> simp [hinterfaces, Universe.interfacesFrom]

/-- The annotations of a class are its own and the inherited ones above it. -/
theorem mem_effectiveAnnotations_iff (hr : v.known.record? r.name = some r) :
    name ∈ v.effectiveAnnotations r ↔
      name ∈ r.annotations ∨
        name ∈ v.classification.inherited ∧ ∃ a, v.known.IsAbove r a ∧ name ∈ a.annotations := by
  simp only [effectiveAnnotations, List.mem_append, List.mem_filter, List.mem_flatMap,
    List.contains_iff_mem, ← eq_or_mem_ancestors_iff hr]
  constructor
  · rintro (hown | ⟨⟨a, ha, hname⟩, hinherited⟩)
    · exact .inl hown
    · exact .inr ⟨hinherited, a, .inr ha, hname⟩
  · rintro (hown | ⟨hinherited, a, rfl | ha, hname⟩)
    · exact .inl hown
    · exact .inl hname
    · exact .inr ⟨⟨a, ha, hname⟩, hinherited⟩

/-! ## 3. The lists of a class -/

/-- Two lists hold the annotations of a class: its own and the inherited ones of what lies
above it, apart from those of the platform. -/
structure ListsAnnotations (v : View) (r : ClassRecord) (shown : ShownAnnotations) : Prop where
  /-- Each name is in one list, and once. -/
  nodup : (shown.visible ++ shown.hidden).Nodup
  mem_iff : ∀ name, name ∈ shown.visible ∨ name ∈ shown.hidden ↔
    ¬ ("java.".toList <+: name.toList ∨ "kotlin.".toList <+: name.toList) ∧
      (name ∈ r.annotations ∨
        name ∈ v.classification.inherited ∧ ∃ a, v.known.IsAbove r a ∧ name ∈ a.annotations)
  /-- The classification tells which of the lists a name is in. -/
  hidden_iff : ∀ name, name ∈ shown.visible ∨ name ∈ shown.hidden →
    (name ∈ shown.hidden ↔ name ∈ v.classification.invisible)
  hidden_lt : shown.hidden.Pairwise (· < ·)
  /-- Names that are shown stand in order, but for the one that comes before all others. -/
  visible_lt : ∃ rest : List String, rest.Pairwise (· < ·) ∧ v.markers.doNotImplement ∉ rest ∧
    shown.visible =
      if v.markers.doNotImplement ∈ shown.visible then v.markers.doNotImplement :: rest else rest

/-- Annotation types show no annotations. Of any other class that the universe has under its
own name, whatever refers to what in the universe, the lists hold exactly the direct and the
inherited annotations, split and in order. -/
theorem classAnnotations_lists (v : View) {r : ClassRecord}
    (hr : v.known.record? r.name = some r) :
    (r.isAnnotationType = true → v.classAnnotations r = ⟨[], []⟩) ∧
      (r.isAnnotationType = false → v.ListsAnnotations r (v.classAnnotations r)) := by
  refine ⟨fun hkind => by rw [classAnnotations, if_pos hkind], fun hkind => ?_⟩
  rw [classAnnotations, if_neg (by simp [hkind])]
  constructor
  case nodup =>
    refine List.nodup_append'.mpr ⟨nodup_orderAnnotations _ _, nodup_orderAnnotations _ _, ?_⟩
    intro name hvisible hhidden
    have hshown := (List.mem_filter.mp (mem_orderAnnotations_iff.mp hvisible)).2
    have hnot := (List.mem_filter.mp (mem_orderAnnotations_iff.mp hhidden)).2
    simp [hshown] at hnot
  case mem_iff =>
    intro name
    simp only [mem_orderAnnotations_iff, List.mem_filter, ← and_or_left, Bool.not_eq_true',
      Bool.eq_false_iff, ne_eq, em, and_true, isPlatform_iff, mem_effectiveAnnotations_iff hr]
    exact and_comm
  case hidden_iff =>
    intro name hlisted
    simp only [mem_orderAnnotations_iff, List.mem_filter] at hlisted ⊢
    have hname := hlisted.elim (·.1) (·.1)
    simp [hname, Classification.shows]
  case hidden_lt =>
    change (orderAnnotations none _).Pairwise (· < ·)
    rw [orderAnnotations_none]
    exact Names.sorted_distinct_lt _
  case visible_lt =>
    simp only [mem_orderAnnotations_iff]
    exact orderAnnotations_pinned _ _

/-! ## 4. Two hierarchies

In the first one two classes extend each other, and two interfaces extend a third one that
extends one of them. In the second one a class extends a class without a name. -/

namespace HierarchySample

/-- A record that matters for nothing but what stands above it. -/
def plain (name : String) (kind : ClassKind) (superclass : Option String)
    (interfaces annotations : List String) : ClassRecord :=
  { ClassRecord.placeholder name kind with
    superclass := superclass, interfaces := interfaces, annotations := annotations }

/-- A view of some records under their own names. -/
def viewOf (records : List ClassRecord) : View where
  known := { records := records.map fun r => (r.name, r), candidates := [], recorded := nofun }
  classification := .ofUniverse
    { records := records.map fun r => (r.name, r), candidates := [], recorded := nofun } .standard
  markers := .standard
  excludedMethods := []
  metadata := none

/-- An annotation type that passes from a class to those that extend it. -/
def note : ClassRecord :=
  plain "q.Note" .annotationType none [] [Classification.inheritanceMarker]

def leaf : ClassRecord := plain "p.A" .ordinary (some "p.B") [] []

def base : ClassRecord := plain "p.B" .ordinary (some "p.A") ["p.I", "p.J", "p.Gone"] []

def left : ClassRecord := plain "p.I" .interface none ["p.K"] []

def right : ClassRecord := plain "p.J" .interface none ["p.K"] []

def top : ClassRecord := plain "p.K" .interface none ["p.I"] ["q.Note"]

/-- The first hierarchy. -/
def circle : View := viewOf [leaf, base, left, right, top, note]

/-- A class that extends one without a name. -/
def orphan : ClassRecord := plain "p.A" .ordinary (some "") [] []

def nameless : ClassRecord := plain "" .ordinary none [] ["q.Note"]

/-- The second hierarchy. -/
def gap : View := viewOf [orphan, nameless, note]

theorem name_of_record?_viewOf {records : List ClassRecord} {name : String} {r : ClassRecord}
    (hr : (viewOf records).known.record? name = some r) : r.name = name :=
  Universe.name_of_lookup_map hr

theorem inherited_note {records : List ClassRecord} (h : note ∈ records) :
    "q.Note" ∈ (viewOf records).classification.inherited := by
  refine Classification.mem_inherited.mpr ⟨note, ?_, rfl, List.mem_singleton_self _⟩
  refine List.mem_filter.mpr ⟨?_, rfl⟩
  simpa [List.map_map] using h

end HierarchySample

open HierarchySample in
/-- An annotation is taken over through a circle and a diamond, past a name without a
record. -/
theorem classAnnotations_lists_through_circle :
    circle.known.record? leaf.name = some leaf ∧ leaf.isAnnotationType = false ∧
      circle.ListsAnnotations leaf (circle.classAnnotations leaf) ∧
      ("q.Note" ∈ (circle.classAnnotations leaf).visible ∨
        "q.Note" ∈ (circle.classAnnotations leaf).hidden) := by
  have hlists := (classAnnotations_lists circle (r := leaf) rfl).2 rfl
  refine ⟨rfl, rfl, hlists, (hlists.mem_iff "q.Note").mpr ⟨by decide, .inr ⟨?_, top, ?_, ?_⟩⟩⟩
  · exact inherited_note (by simp)
  · have hbase : circle.known.SuperclassOf leaf base := ⟨"p.B", by decide, rfl⟩
    have hleft : circle.known.InterfaceOf base left := ⟨"p.I", by decide, rfl⟩
    have htop : circle.known.InterfaceOf left top := ⟨"p.K", by decide, rfl⟩
    exact ⟨base, .single hbase, .tail (.single hleft) htop⟩
  · exact List.mem_singleton_self _

open HierarchySample in
/-- A class takes over nothing from a superclass without a name, although the universe has
the superclass and the annotation is inherited. -/
theorem classAnnotations_skip_nameless_superclass :
    (∀ name r, gap.known.record? name = some r → r.name = name) ∧
      gap.known.record? orphan.name = some orphan ∧ orphan.isAnnotationType = false ∧
      orphan.superclass = some nameless.name ∧
      gap.known.record? nameless.name = some nameless ∧
      "q.Note" ∈ nameless.annotations ∧ "q.Note" ∈ gap.classification.inherited ∧
      isPlatform "q.Note" = false ∧
      "q.Note" ∉ (gap.classAnnotations orphan).visible ∧
      "q.Note" ∉ (gap.classAnnotations orphan).hidden := by
  have hnone : gap.effectiveAnnotations orphan = [] := by
    rw [effectiveAnnotations, ancestors_eq_nil (by decide) (by decide)]
    rfl
  have hlists : ∀ name, name ∉ (gap.classAnnotations orphan).visible ∧
      name ∉ (gap.classAnnotations orphan).hidden := by
    intro name
    rw [classAnnotations, if_neg (by decide), hnone]
    simp [mem_orderAnnotations_iff]
  exact ⟨fun _ _ => name_of_record?_viewOf, rfl, rfl, rfl, rfl, List.mem_singleton_self _,
    inherited_note (by simp), by decide, hlists "q.Note"⟩

end View

end ApiSurface
