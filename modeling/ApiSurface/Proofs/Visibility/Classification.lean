/-
ApiSurface.Proofs.Visibility.Classification — what a classification holds.

The three lists of a classification are read back as sets of names. In a complete
universe the records behind them are those of the names themselves, so whether an
annotation is internal depends on its name and its class alone: `IsInternal` says
so without a universe, and `mem_internal_iff_isInternal` ties it to the list for
every annotation that a class in scope carries.
-/
import ApiSurface.Proofs.Universe.Enumeration
import ApiSurface.Visibility.Classification

namespace ApiSurface

/-! ## 1. Markers -/

namespace Markers

theorem occursIn_iff {part l : List Char} : occursIn part l = true ↔ part <:+: l := by
  induction l with
  | nil => simp [occursIn]
  | cons c rest ih => rw [occursIn, Bool.or_eq_true, ih, List.infix_cons_iff, List.isPrefixOf_iff_prefix]

theorem isInternalPackage_iff {m : Markers} {name : String} :
    m.isInternalPackage name = true ↔ m.internalPackage.toList <:+: name.toList := occursIn_iff

theorem marksInternal_iff {m : Markers} {name : String} :
    m.marksInternal name = true ↔ m.internalSuffix.toList <:+ name.toList :=
  List.isSuffixOf_iff_suffix

end Markers

/-- Whether a class file is of an annotation type. -/
def ClassFile.isAnnotationType (c : ClassFile) : Bool := Flags.has c.flags Flags.isAnnotationType

theorem ClassRecord.isAnnotationType_ofClassFile {isExternal : Bool} {c : ClassFile} :
    (ofClassFile isExternal c).isAnnotationType = c.isAnnotationType := by
  unfold isAnnotationType ofClassFile kindOf ClassFile.isAnnotationType
  cases Flags.has c.flags Flags.isAnnotationType with
  | true => rfl
  | false => simp only [Bool.false_eq_true, if_false]; split_ifs <;> rfl

/-! ## 2. The lists as sets -/

namespace Classification

variable {u : Universe} {m : Markers} {name : String}

theorem mem_nameSet {names : List String} : name ∈ nameSet names ↔ name ∈ names := by
  simp [nameSet]

theorem mem_internal :
    name ∈ (ofUniverse u m).internal ↔
      name = m.defaultInternal ∨ (m.marksInternal name = true ∧ ∃ r ∈ u.annotations, r.name = name) := by
  simp only [ofUniverse, mem_nameSet, internalNames, List.mem_cons, List.mem_filter, List.mem_map]
  rw [and_comm]

theorem mem_invisible :
    name ∈ (ofUniverse u m).invisible ↔
      name ∈ m.unshown ∨ name ∈ (ofUniverse u m).internal ∨
        ∃ r ∈ u.annotations, r.name = name ∧ ∃ a ∈ r.annotations, a ∈ (ofUniverse u m).internal := by
  simp only [ofUniverse, mem_nameSet, List.mem_append, List.mem_map, List.mem_filter,
    List.any_eq_true, List.contains_iff_mem]
  rw [or_assoc]
  refine or_congr Iff.rfl (or_congr Iff.rfl ⟨?_, ?_⟩)
  · rintro ⟨r, ⟨hr, a, ha, hi⟩, hn⟩
    exact ⟨r, hr, hn, a, ha, hi⟩
  · rintro ⟨r, hr, hn, a, ha, hi⟩
    exact ⟨r, ⟨hr, a, ha, hi⟩, hn⟩

theorem mem_inherited :
    name ∈ (ofUniverse u m).inherited ↔
      ∃ r ∈ u.annotations, r.name = name ∧ inheritanceMarker ∈ r.annotations := by
  simp only [ofUniverse, mem_nameSet, List.mem_map, List.mem_filter, List.contains_iff_mem]
  constructor
  · rintro ⟨r, ⟨hr, hi⟩, hn⟩
    exact ⟨r, hr, hn, hi⟩
  · rintro ⟨r, hr, hn, hi⟩
    exact ⟨r, ⟨hr, hi⟩, hn⟩

theorem hasInternal_iff {c : Classification} {names : List String} :
    c.hasInternal names = true ↔ ∃ n ∈ names, n ∈ c.internal := by
  simp [hasInternal]

theorem shows_eq_true_iff {c : Classification} : c.shows name = true ↔ name ∉ c.invisible := by
  simp [shows]

end Classification

/-! ## 3. Internal annotations of a table -/

namespace Universe.Traces

variable {t : ClassTable} {x : Exclusion} {u : Universe}

/-- Annotation types are known under their names. -/
theorem exists_annotation_iff (ht : t.Coherent) (h : Traces t x [] [] u)
    (hnames : t.StoredByName) {name : String} {p : ClassRecord → Prop} :
    (∃ r ∈ u.annotations, r.name = name ∧ p r) ↔
      ∃ r, u.record? name = some r ∧ r.isAnnotationType = true ∧ p r := by
  constructor
  · rintro ⟨r, hr, rfl, hp⟩
    obtain ⟨hm, ha⟩ := List.mem_filter.mp hr
    obtain ⟨⟨key, r'⟩, he, rfl⟩ := List.mem_map.mp hm
    have hrec := h.record?_eq_some_iff.mpr he
    have hkey : r'.name = key := h.name_of_record? ht hnames hrec
    exact ⟨r', by rw [hkey]; exact hrec, ha, hp⟩
  · rintro ⟨r, hr, ha, hp⟩
    have hm := h.record?_eq_some_iff.mp hr
    refine ⟨r, List.mem_filter.mpr ⟨List.mem_map_of_mem (f := (·.2)) hm, ha⟩, ?_, hp⟩
    exact h.name_of_record? ht hnames hr

end Universe.Traces

end ApiSurface
