/-
ApiSurface.Proofs.Descriptor.Written — the characters of written types.

Source text writes a type with the characters of its descriptor or signature, and printable
ones. That goes by the tree of the type: keywords, brackets and separators are printable,
and every name in the written form is a part of the spelled one, with dots for slashes.
-/
import ApiSurface.Proofs.Descriptor.Methods
import ApiSurface.Proofs.Text.Alphabet

namespace ApiSurface

open Alphabet Descriptor

variable {A : Alphabet}

/-! ## 1. Names and rows -/

/-- In source text a class name has the characters of the name, and dots. -/
theorem mem_of_mem_sourceName {name : List Char} {c : Char} (h : c ∈ sourceName name) :
    c ∈ name ∨ c = '.' := by
  unfold sourceName at h
  split at h
  · next simple hparts =>
    have hpart : simple ∈ name.splitOn '/' := by simp [hparts]
    exact .inl (mem_of_mem_splitOn hpart h)
  · rw [← dotted_eq_intercalate, dotted, List.mem_map] at h
    obtain ⟨d, hd, rfl⟩ := h
    split_ifs
    · exact .inr rfl
    · exact .inl hd

theorem spells_sourceName {name : List Char} (h : A.Spells name) : A.Spells (sourceName name) :=
  fun c hc => (mem_of_mem_sourceName hc).elim (h c) fun e => e ▸ A.has_of_isPrintable (by decide)

theorem spells_words (b : Bound) : A.Spells b.words.toList :=
  Spells.of_printable (by cases b <;> decide)

/-! ## 2. Types -/

mutual

/-- A type is written in the alphabet that it is spelled in. -/
theorem JavaType.spells_render : ∀ {t : JavaType}, A.Spells t.spell → A.Spells t.render
  | .primitive p, _ => Spells.of_printable (by cases p <;> decide)
  | .array element, h => by
    rw [JavaType.spell, spells_cons] at h
    rw [JavaType.render, spells_append]
    exact ⟨JavaType.spells_render h.2, Spells.of_printable (by decide)⟩
  | .variable name, h => by
    rw [JavaType.spell, List.cons_append, spells_cons, spells_append] at h
    rw [JavaType.render]
    exact h.2.1
  | .declared segments, h => by
    rw [JavaType.spell, spells_cons] at h
    rw [JavaType.render]
    exact segments.spells_renderOuter h.2

theorem Segments.spells_renderOuter :
    ∀ segments : Segments, A.Spells segments.spell → A.Spells segments.renderOuter
  | .last name arguments, h => by
    rw [Segments.spell, spells_append, spells_append] at h
    rw [Segments.renderOuter, spells_append]
    exact ⟨spells_sourceName h.1.1, arguments.spells_render h.1.2⟩
  | .nested name arguments inner, h => by
    rw [Segments.spell, spells_append, spells_append, spells_cons] at h
    rw [Segments.renderOuter, spells_append, spells_append]
    exact ⟨⟨spells_sourceName h.1.1, arguments.spells_render h.1.2⟩,
      inner.spells_renderInner h.2.2⟩

theorem Segments.spells_renderInner :
    ∀ segments : Segments, A.Spells segments.spell → A.Spells segments.renderInner
  | .last name arguments, h => by
    rw [Segments.spell, spells_append, spells_append] at h
    rw [Segments.renderInner, List.cons_append, spells_cons, spells_append]
    exact ⟨A.has_of_isPrintable (by decide), h.1.1, arguments.spells_render h.1.2⟩
  | .nested name arguments inner, h => by
    rw [Segments.spell, spells_append, spells_append, spells_cons] at h
    rw [Segments.renderInner, List.cons_append, List.cons_append, spells_cons, spells_append,
      spells_append]
    exact ⟨A.has_of_isPrintable (by decide), ⟨h.1.1, arguments.spells_render h.1.2⟩,
      inner.spells_renderInner h.2.2⟩

theorem Arguments.spells_render :
    ∀ arguments : Arguments, A.Spells arguments.spell → A.Spells arguments.render
  | .absent, _ => spells_nil
  | .given list, h => by
    rw [Arguments.spell, spells_cons] at h
    rw [Arguments.render, spells_append, spells_cons]
    exact ⟨⟨A.has_of_isPrintable (by decide), spells_intercalate (Spells.of_printable (by decide))
      (list.spells_render h.2)⟩, Spells.of_printable (by decide)⟩

theorem ArgumentList.spells_render :
    ∀ list : ArgumentList, A.Spells list.spell → ∀ word ∈ list.render, A.Spells word
  | .nil, _ => by
    rw [ArgumentList.render]
    exact nofun
  | .any rest, h => by
    rw [ArgumentList.spell, spells_cons] at h
    rw [ArgumentList.render, List.forall_mem_cons]
    exact ⟨Spells.of_printable (by decide), rest.spells_render h.2⟩
  | .bounded bound type rest, h => by
    rw [ArgumentList.spell, spells_append, spells_append] at h
    rw [ArgumentList.render, List.forall_mem_cons, spells_append]
    exact ⟨⟨spells_words bound, JavaType.spells_render h.1.2⟩, rest.spells_render h.2⟩

end

/-! ## 3. Whole texts -/

namespace Descriptor

theorem spells_of_startsText {spelled : List Char} {text : String} (h : StartsText spelled text)
    (ht : A.Writes text) : A.Spells spelled := by
  obtain ⟨tail, heq, -⟩ := h
  rw [Writes, heq, spells_append] at ht
  exact ht.1

/-- The type of a field is written in the alphabet of its descriptor or signature. -/
theorem writes_rendered {text written : String} (h : rendered text = .ok written)
    (ht : A.Writes text) : A.Writes written := by
  obtain ⟨type, htype, rfl⟩ := rendered_eq_ok.mp h
  rw [writes_ofList]
  exact JavaType.spells_render (spells_of_startsText htype.2 ht)

theorem writes_withEllipsis {type : String} (h : A.Writes type) : A.Writes (withEllipsis type) := by
  unfold withEllipsis
  dsimp only
  split_ifs
  · rw [writes_ofList, spells_append]
    exact ⟨Spells.subset h (List.take_subset _ _), Spells.of_printable (by decide)⟩
  · exact h

theorem forall_mem_changeLast {α : Type} {P : α → Prop} {f : α → α} (hf : ∀ a, P a → P (f a))
    {items : List α} (h : ∀ a ∈ items, P a) : ∀ a ∈ changeLast f items, P a := by
  induction items using changeLast.induct with
  | case1 => exact List.forall_mem_nil _
  | case2 a =>
    rw [changeLast, List.forall_mem_singleton]
    exact hf a (List.forall_mem_singleton.mp h)
  | case3 a rest _ ih =>
    rw [List.forall_mem_cons] at h
    rw [changeLast, List.forall_mem_cons]
    · exact ⟨h.1, ih h.2⟩
    · assumption

/-- The types of a method are written in the alphabet of its descriptor or signature. -/
theorem writes_renderedMethod {text : String} {isVarargs : Bool} {written : MethodText}
    (h : renderedMethod text isVarargs = .ok written) (ht : A.Writes text) :
    A.Writes written.result ∧ ∀ parameter ∈ written.parameters, A.Writes parameter := by
  obtain ⟨m, ⟨-, front, -, hspells⟩, rfl⟩ := renderedMethod_eq_ok.mp h
  have hspelled := spells_of_startsText hspells ht
  rw [spells_append, spells_append, spells_cons, spells_cons] at hspelled
  have hresult : A.Writes (String.ofList m.result.render) := by
    rw [writes_ofList]
    exact JavaType.spells_render hspelled.2.2
  have hparameters : ∀ s ∈ m.parameters.map (fun t => String.ofList t.render), A.Writes s := by
    intro s hs
    obtain ⟨type, htype, rfl⟩ := List.mem_map.mp hs
    rw [writes_ofList]
    refine JavaType.spells_render (hspelled.1.2.2.subset ?_)
    exact fun c hc => List.mem_flatMap.mpr ⟨type, htype, hc⟩
  cases isVarargs with
  | false => exact ⟨hresult, hparameters⟩
  | true =>
    refine ⟨hresult, forall_mem_changeLast (P := A.Writes) (fun _ hs => ?_) hparameters⟩
    exact writes_withEllipsis hs

end Descriptor

end ApiSurface
