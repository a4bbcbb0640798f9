/-
ApiSurface.Proofs.Snapshot.Written — what the text of a public interface is written in.

A record is written in an alphabet if the texts are that its class declares: its name, the
names that it refers to, and the names, descriptors and signatures of its members. Then so is
every line of its block (`forall_mem_block`), since all the rest of a line is printable:
keywords, marks, separators and literals. The text has the ends of the lines besides
(`mem_render`).
-/
import ApiSurface.Proofs.ClassFile.Texts
import ApiSurface.Proofs.Descriptor.Written
import ApiSurface.Proofs.Snapshot.Literals
import ApiSurface.Proofs.Universe.Table
import ApiSurface.Snapshot.Block

namespace ApiSurface

open Alphabet

variable {A : Alphabet}

/-! ## 1. Records -/

/-- A member is written in an alphabet. -/
def Member.WrittenIn (A : Alphabet) (m : Member) : Prop :=
  A.WritesMember m.name m.descriptor m.signature m.annotations

/-- What a record says of a class is written in an alphabet, as far as its block shows it. -/
structure ClassRecord.WrittenIn (A : Alphabet) (r : ClassRecord) : Prop where
  name : A.Writes r.name
  references : ∀ q ∈ r.references, A.Writes q.1
  methods : ∀ m ∈ r.methods, m.toMember.WrittenIn A
  fields : ∀ f ∈ r.fields, f.toMember.WrittenIn A

namespace ClassFile.WrittenIn

variable {c : ClassFile} (h : c.WrittenIn A)
include h

/-- A class refers to names of the alphabet. -/
theorem refersTo {name : String} {role : ClassKind} (hr : c.RefersTo name role) :
    A.Writes name := by
  cases hr with
  | superclass hs _ => exact h.superclass name hs
  | interface hi => exact h.interfaces name hi
  | ofClass ha => exact h.annotations _ ha
  | ofMethod hm ha => exact (h.methods _ hm).annotations _ (List.mem_map_of_mem ha)
  | ofField hf ha => exact (h.fields _ hf).annotations _ (List.mem_map_of_mem ha)

/-- The record of a class is written in the alphabet of the class. -/
theorem record (isExternal : Bool) : (ClassRecord.ofClassFile isExternal c).WrittenIn A where
  name := h.name
  references q hq := h.refersTo (ClassRecord.mem_references_ofClassFile.mp hq)
  methods m hm := by
    obtain ⟨info, hinfo, rfl⟩ := List.mem_map.mp hm
    have hwritten := h.methods info hinfo
    refine ⟨hwritten.name, hwritten.descriptor, hwritten.signature, fun n hn => ?_⟩
    exact hwritten.annotations n (Names.mem_distinct.mp hn)
  fields f hf := by
    obtain ⟨info, hinfo, rfl⟩ := List.mem_map.mp hf
    have hwritten := h.fields info hinfo
    refine ⟨hwritten.name, hwritten.descriptor, hwritten.signature, fun n hn => ?_⟩
    exact hwritten.annotations n (Names.mem_distinct.mp hn)

end ClassFile.WrittenIn

/-- A placeholder is written in an alphabet if its name is. -/
theorem ClassRecord.writtenIn_placeholder {name : String} (h : A.Writes name) (kind : ClassKind) :
    (ClassRecord.placeholder name kind).WrittenIn A where
  name := h
  references := by simp
  methods := nofun
  fields := nofun

namespace Snapshot

/-! ## 2. Words -/

theorem writes_words {parts : List String} (h : ∀ s ∈ parts, A.Writes s) : A.Writes (words parts) :=
  writes_intercalate (Writes.of_printable (by decide)) h

theorem writes_listed {parts : List String} (h : ∀ s ∈ parts, A.Writes s) :
    A.Writes (listed parts) :=
  writes_intercalate (Writes.of_printable (by decide)) h

theorem writes_keywords {table : List (Nat × String)} (h : ∀ e ∈ table, printable.Writes e.2)
    (flags : Nat) : ∀ s ∈ Flags.keywords table flags, A.Writes s := by
  intro s hs
  obtain ⟨e, he, rfl⟩ := List.mem_map.mp hs
  exact Writes.of_printable (h e (List.mem_filter.mp he).1)

theorem writes_clause {keyword : String} {names : List String} (hk : printable.Writes keyword)
    (h : ∀ n ∈ names, A.Writes n) : ∀ s ∈ clause keyword names, A.Writes s := by
  unfold clause
  split_ifs
  · exact List.forall_mem_nil _
  · simp only [List.forall_mem_cons]
    exact ⟨Writes.of_printable hk, writes_listed h, List.forall_mem_nil _⟩

theorem writes_simple {name : String} (h : A.Writes name) : A.Writes (Names.simple name) := by
  refine writes_ofList.mpr (Spells.subset h fun c hc => ?_)
  exact List.mem_reverse.mp ((List.takeWhile_subset _) (List.mem_reverse.mp hc))

theorem writes_annotationLines {indent : String} {names : List String}
    (hi : printable.Writes indent) (h : ∀ n ∈ names, A.Writes n) :
    ∀ line ∈ annotationLines indent names, A.Writes line := by
  intro line hline
  obtain ⟨name, hname, rfl⟩ := List.mem_map.mp hline
  rw [writes_append, writes_append]
  exact ⟨⟨Writes.of_printable hi, Writes.of_printable (by decide)⟩, writes_simple (h name hname)⟩

/-! ## 3. Lines -/

theorem writes_header {r : ClassRecord} (h : r.WrittenIn A) : A.Writes (header r) := by
  have hinterfaces : ∀ n ∈ r.interfaces, A.Writes n := fun n hn =>
    h.references (n, .interface) (by simp [ClassRecord.references, hn])
  have hsuperclass : ∀ n ∈ r.superclassName?.toList, A.Writes n := fun n hn =>
    h.references (n, .ordinary) (by simp [ClassRecord.references, Option.mem_toList.mp hn])
  have hnamed : ∀ {keyword}, printable.Writes keyword → ∀ s ∈ [keyword, r.name], A.Writes s := by
    intro keyword hk
    simp only [List.forall_mem_cons]
    exact ⟨Writes.of_printable hk, h.name, List.forall_mem_nil _⟩
  refine writes_words (List.forall_mem_append.mpr ⟨writes_keywords (by decide) _, ?_⟩)
  split_ifs
  · exact hnamed (by decide)
  · rw [List.forall_mem_append]
    exact ⟨hnamed (by decide), writes_clause (by decide) hinterfaces⟩
  · rw [List.forall_mem_append, List.forall_mem_append]
    exact ⟨⟨hnamed (by decide), writes_clause (by decide) hsuperclass⟩,
      writes_clause (by decide) hinterfaces⟩

/-- The types of a member are read from its signature or its descriptor. -/
theorem typesOf_eq_ok {α : Type} {m : Member} {read : String → Except Malformed α} {types : α}
    (h : (typesOf m read).outcome = .ok types) :
    ∃ text, (text = m.descriptor ∨ text ∈ m.signature) ∧ read text = .ok types := by
  have hdescriptor : (Report.ofExcept ((read m.descriptor).mapError ClassFault.malformed)).outcome
      = .ok types → ∃ text, (text = m.descriptor ∨ text ∈ m.signature) ∧ read text = .ok types :=
    fun h => ⟨m.descriptor, .inl rfl, mapError_eq_ok.mp h⟩
  unfold typesOf at h
  split at h
  · exact hdescriptor h
  · next signature hsignature =>
    split at h
    · next found hread =>
      cases h
      exact ⟨signature, .inr (Option.mem_filter_iff.mp hsignature).1, hread⟩
    · obtain ⟨_, -, h⟩ := Report.outcome_bind_eq_ok.mp h
      exact hdescriptor h

/-- The types of a member are read from a text of the alphabet. -/
theorem exists_typesOf {α : Type} {m : Member} {read : String → Except Malformed α} {types : α}
    (hm : m.WrittenIn A) (h : (typesOf m read).outcome = .ok types) :
    ∃ text, A.Writes text ∧ read text = .ok types := by
  obtain ⟨text, rfl | htext, hread⟩ := typesOf_eq_ok h
  · exact ⟨m.descriptor, hm.descriptor, hread⟩
  · exact ⟨text, hm.signature text htext, hread⟩

theorem writes_methodLine {m : MethodRecord} {line : String}
    (h : (methodLine m).outcome = .ok line) (hm : m.toMember.WrittenIn A) : A.Writes line := by
  obtain ⟨types, htypes, h⟩ := Report.outcome_bind_eq_ok.mp h
  cases h
  obtain ⟨text, htext, hread⟩ := exists_typesOf hm htypes
  obtain ⟨hresult, hparameters⟩ := Descriptor.writes_renderedMethod hread htext
  refine writes_words ?_
  simp only [List.forall_mem_append, List.forall_mem_cons]
  refine ⟨⟨writes_keywords (by decide) _, ?_⟩, ?_, List.forall_mem_nil _⟩
  · split_ifs
    · exact List.forall_mem_nil _
    · exact List.forall_mem_singleton.mpr hresult
  · rw [writes_append, writes_append, writes_append]
    exact ⟨⟨⟨hm.name, Writes.of_printable (by decide)⟩, writes_listed hparameters⟩,
      Writes.of_printable (by decide)⟩

theorem writes_fieldLine {f : FieldRecord} {line : String}
    (h : (fieldLine f).outcome = .ok line) (hf : f.toMember.WrittenIn A) : A.Writes line := by
  obtain ⟨type, htype, h⟩ := Report.outcome_bind_eq_ok.mp h
  obtain ⟨text, htext, hread⟩ := exists_typesOf hf htype
  have hdeclaration : A.Writes
      (words (Flags.keywords Flags.fieldKeywords f.modifiers ++ [type, f.name])) := by
    refine writes_words ?_
    simp only [List.forall_mem_append, List.forall_mem_cons]
    exact ⟨writes_keywords (by decide) _, Descriptor.writes_rendered hread htext, hf.name,
      List.forall_mem_nil _⟩
  split at h
  · cases h
    exact hdeclaration
  · obtain ⟨literal, hliteral, h⟩ := Report.outcome_bind_eq_ok.mp h
    cases h
    rw [writes_append, writes_append]
    refine ⟨⟨hdeclaration, Writes.of_printable (by decide)⟩, Writes.of_printable ?_⟩
    exact Literal.printable_constant (mapError_eq_ok.mp hliteral)

theorem mem_orderAnnotations {pinned : Option String} {names : List String} {n : String}
    (h : n ∈ orderAnnotations pinned names) : n ∈ names := by
  rw [orderAnnotations, List.mem_append, List.mem_filter, List.mem_filter, Names.mem_sorted,
    Names.mem_distinct] at h
  rcases h with h | h
  · exact h.1
  · exact h.1

/-- The lines of a member: those of its shown annotations, and its own. -/
theorem forall_mem_memberLines {v : View} {m : Member} {line : String} (hm : m.WrittenIn A)
    (hline : A.Writes line) : ∀ l ∈ memberLines v m line, A.Writes l := by
  refine List.forall_mem_append.mpr ⟨writes_annotationLines (by decide) fun n hn => ?_, ?_⟩
  · exact hm.annotations n (List.mem_filter.mp (mem_orderAnnotations hn)).1
  · rw [List.forall_mem_singleton, writes_append]
    exact ⟨Writes.of_printable (by decide), hline⟩

/-! ## 4. Blocks -/

/-- What holds of the results for all elements holds of what is collected. -/
theorem forall_mem_collect {α β : Type} {P : β → Prop} {f : α → Report ClassFault (List β)}
    {items : List α} {results : List β} (hcollect : (collect f items).outcome = .ok results)
    (h : ∀ a ∈ items, ∀ bs, (f a).outcome = .ok bs → ∀ b ∈ bs, P b) : ∀ b ∈ results, P b := by
  induction items generalizing results with
  | nil =>
    cases hcollect
    exact nofun
  | cons a rest ih =>
    rw [List.forall_mem_cons] at h
    obtain ⟨front, hfront, hcollect⟩ := Report.outcome_bind_eq_ok.mp hcollect
    obtain ⟨back, hback, hcollect⟩ := Report.outcome_bind_eq_ok.mp hcollect
    cases hcollect
    exact List.forall_mem_append.mpr ⟨h.1 front hfront, ih hback h.2⟩

variable {v : View}

/-- The lines of a class are written in the alphabet of its record and of the annotations that
it shows. -/
theorem forall_mem_block {r : ClassRecord} {lines : List String}
    (h : (block v r).outcome = .ok lines) (hr : r.WrittenIn A)
    (hshown : ∀ n ∈ (v.classAnnotations r).visible, A.Writes n) : ∀ l ∈ lines, A.Writes l := by
  obtain ⟨methods, hmethods, h⟩ := Report.outcome_bind_eq_ok.mp h
  obtain ⟨fields, hfields, h⟩ := Report.outcome_bind_eq_ok.mp h
  cases h
  have hmethods : ∀ l ∈ methods, A.Writes l := by
    refine forall_mem_collect hmethods fun m hm ls hls => ?_
    obtain ⟨line, hline, hls⟩ := Report.outcome_bind_eq_ok.mp hls
    cases hls
    have hwritten := hr.methods m (List.mem_mergeSort.mp (List.mem_filter.mp hm).1)
    exact forall_mem_memberLines hwritten (writes_methodLine hline hwritten)
  have hfields : ∀ l ∈ fields, A.Writes l := by
    refine forall_mem_collect hfields fun f hf ls hls => ?_
    obtain ⟨line, hline, hls⟩ := Report.outcome_bind_eq_ok.mp hls
    cases hls
    have hwritten := hr.fields f (List.mem_mergeSort.mp (List.mem_filter.mp hf).1)
    exact forall_mem_memberLines hwritten (writes_fieldLine hline hwritten)
  simp only [List.forall_mem_append, List.forall_mem_cons]
  exact ⟨⟨⟨⟨writes_annotationLines (by decide) hshown, writes_header hr, List.forall_mem_nil _⟩,
    hmethods⟩, hfields⟩, Writes.of_printable (by decide), List.forall_mem_nil _⟩

/-- The lines of classes are written in the alphabet of their records. -/
theorem forall_mem_blocks {classes : List ClassRecord} {lines : List String}
    (h : (collect (block v) classes).outcome = .ok lines)
    (hclasses : ∀ r ∈ classes, r.WrittenIn A)
    (hshown : ∀ r ∈ classes, ∀ n ∈ (v.classAnnotations r).visible, A.Writes n) :
    ∀ l ∈ lines, A.Writes l :=
  forall_mem_collect h fun r hr _ hls => forall_mem_block hls (hclasses r hr) (hshown r hr)

/-- The text of classes has characters of the alphabet of its records, and line feeds. -/
theorem mem_render {classes : List ClassRecord} {text : String}
    (h : (render v classes).outcome = .ok text) (hclasses : ∀ r ∈ classes, r.WrittenIn A)
    (hshown : ∀ r ∈ classes, ∀ n ∈ (v.classAnnotations r).visible, A.Writes n) :
    ∀ c ∈ text.toList, c = '\n' ∨ A.has c := by
  obtain ⟨lines, hlines, h⟩ := Report.outcome_bind_eq_ok.mp h
  cases h
  have hlines := forall_mem_blocks hlines hclasses hshown
  intro c hc
  rw [ofLines, String.toList_join, List.mem_flatMap] at hc
  obtain ⟨_, hl, hc⟩ := hc
  obtain ⟨line, hline, rfl⟩ := List.mem_map.mp hl
  rw [String.toList_append, List.mem_append] at hc
  rcases hc with hc | hc
  · exact .inr (hlines line hline c hc)
  · exact .inl (by simpa using hc)

end Snapshot

end ApiSurface
