/-
ApiSurface.Proofs.ClassFile.Value — reading back annotations.

An element value is read back from its bytes as soon as the depth that the reader may
go down is not less than the count of bytes (`Value.Written.takes`): the tag of a value
takes a byte, so what is nested in it has fewer. The bytes that follow a value only
allow for more depth, so it does not matter what they are.
-/
import ApiSurface.Proofs.ClassFile.Pool
import Mathlib.Data.List.Nodup

namespace ApiSurface

open Number (Double)
open Reader

/-! ## 1. Element values by name -/

theorem putValue_of_not_mem {α : Type} {name : String} {value : α} {l : List (String × α)}
    (h : name ∉ l.map (·.1)) : putValue name value l = l ++ [(name, value)] := by
  induction l with
  | nil => rfl
  | cons entry rest ih =>
    obtain ⟨n, v⟩ := entry
    rw [List.map_cons, List.mem_cons, not_or] at h
    rw [putValue, if_neg fun e => h.1 e.symm, ih h.2, List.cons_append]

/-- Values with different names are collected as they stand. -/
theorem collectValues_of_nodup {pairs : List (String × Value)}
    (h : (pairs.map (·.1)).Nodup) : collectValues pairs = pairs := by
  have hfold : ∀ (l found : List (String × Value)), ((found ++ l).map (·.1)).Nodup →
      l.foldl (fun values pair => putValue pair.1 pair.2 values) found = found ++ l := by
    intro l
    induction l with
    | nil => intro found _; simp
    | cons pair rest ih =>
      intro found hnodup
      have hnot : pair.1 ∉ found.map (·.1) := by
        intro hmem
        rw [List.map_append, List.nodup_append] at hnodup
        exact hnodup.2.2 pair.1 hmem pair.1 (by simp) rfl
      rw [List.foldl_cons, putValue_of_not_mem hnot, ih _ (by simpa using hnodup)]
      simp
  simpa [collectValues] using hfold pairs [] (by simpa using h)

/-! ## 2. Annotations around element values -/

variable {pool : Pool} {es : List Constant}

theorem Pool.Stores.takes_typeName (h : pool.Stores es) {type : String} {l : List UInt8}
    (ht : TextAt es type l) : (Reader.typeName pool).Takes l (binaryNameOfDescriptor type) :=
  (h.takes_name ht).bind_pure

/-- An annotation is read back if its element values are. -/
theorem Pool.Stores.takes_annotation (h : pool.Stores es) {value : Reader Value} {type : String}
    {l : List UInt8} {values : List (String × Value)} {chunks : List (List UInt8 × List UInt8)}
    (isVisible : Bool) (ht : TextAt es type l) (hcount : values.length < 2 ^ 16)
    (hnodup : (values.map (·.1)).Nodup) (hlen : values.length = chunks.length)
    (hnames : ∀ p ∈ values.zip chunks, TextAt es p.1.1 p.2.1)
    (hvalues : ∀ p ∈ values.zip chunks, value.Takes p.2.2 p.1.2) :
    (readAnnotationWith value pool isVisible).Takes
      (l ++ (bigEndian 2 values.length ++ (chunks.map fun c => c.1 ++ c.2).flatten))
      ⟨binaryNameOfDescriptor type, isVisible, values⟩ := by
  have hpairs : List.Forall₂ (fun (a : String × Value) c => Takes (do
      let name ← Reader.name pool
      let v ← value
      pure (name, v)) c a) values (chunks.map fun c => c.1 ++ c.2) := by
    rw [List.forall₂_map_right_iff, List.forall₂_iff_zip]
    refine ⟨hlen, fun {a c} hmem => ?_⟩
    exact (h.takes_name (hnames _ hmem)).bind (hvalues _ hmem).bind_pure
  have hread := (takes_counted hcount hpairs).bind_pure
    (f := fun pairs => Annotation.mk (binaryNameOfDescriptor type) isVisible (collectValues pairs))
  rw [collectValues_of_nodup hnodup] at hread
  exact (h.takes_typeName ht).bind hread

/-! ## 3. Element values -/

theorem takes_tagByte {tag : Char} (h : tag.toNat < 2 ^ 8) : u1.Takes (tagByte tag) tag.toNat :=
  takes_u1 h

theorem length_le_flatten {chunks : List (List UInt8)} {c : List UInt8} (hc : c ∈ chunks) :
    c.length ≤ chunks.flatten.length := by
  induction chunks with
  | nil => cases hc
  | cons d chunks ih =>
    rw [List.flatten_cons, List.length_append]
    rcases List.mem_cons.mp hc with rfl | hc
    · omega
    · have := ih hc
      omega

theorem Scalar.toCharacter_val (p : CodePoint) : toCharacter (.integer p.val) = .ok [p] := by
  have hlt := p.isLt
  have hrange : ¬ ((p.val : Int) < -0x80000000 || (0x80000000 : Int) ≤ p.val) = true := by
    rw [Bool.or_eq_true, decide_eq_true_eq, decide_eq_true_eq]
    omega
  have hpoint : CodePoint.ofNat? p.val = some p := by rw [CodePoint.ofNat?, dif_pos hlt]
  rw [toCharacter, if_neg hrange, if_neg (by omega), Int.toNat_natCast, hpoint]

/-- A number or a text of the pool is followed to it and converted. -/
theorem Pool.Stores.takes_converted (h : pool.Stores es) {i : Nat} {c : Constant}
    (hi : Pool.Holds es i c) {s : Scalar} (hs : pool.scalar i = .ok s) {α : Type}
    (convert : Scalar → Except IllTyped α) {a : α} (he : convert s = .ok a) (f : α → Value) :
    Takes (do return f (← typed (convert (← Reader.scalar pool)))) (bigEndian 2 i) (f a) := by
  have hread := (h.takes_scalar hi hs).bind (f := fun s => do return f (← typed (convert s)))
    (takes_typed he).bind_pure
  rwa [List.append_nil] at hread

/-- The tag of a value takes a byte. -/
theorem Value.Written.length_pos {v : Value} {l : List UInt8} (hv : Value.Written es v l) :
    0 < l.length := by
  cases hv <;> simp only [tagByte, List.length_append, length_bigEndian] <;> omega

/-- An element value is read back from its bytes if the reader may go deep enough. -/
theorem Value.Written.takes_within (h : pool.Stores es) {v : Value} {l : List UInt8}
    (hv : Value.Written es v l) {depth : Nat} (hdepth : l.length ≤ depth + 1) :
    (Value.readWithin pool (depth + 1)).Takes l v := by
  induction hv generalizing depth with
  | @integer tag i n htag hi =>
    have hread := h.takes_converted hi (h.scalar_integer hi) Scalar.toInteger rfl Value.integer
    simp only [List.mem_cons, List.not_mem_nil, or_false] at htag
    rcases htag with rfl | rfl | rfl
    · exact (takes_tagByte (by decide)).bind hread
    · exact (takes_tagByte (by decide)).bind hread
    · exact (takes_tagByte (by decide)).bind hread
  | long hi =>
    exact (takes_tagByte (by decide)).bind
      (h.takes_converted hi (h.scalar_long hi) Scalar.toInteger rfl Value.integer)
  | float hi =>
    exact (takes_tagByte (by decide)).bind
      (h.takes_converted hi (h.scalar_float hi) Scalar.toReal rfl Value.real)
  | double hi =>
    exact (takes_tagByte (by decide)).bind
      (h.takes_converted hi (h.scalar_double hi) Scalar.toReal rfl Value.real)
  | @boolean i n hi =>
    have hread := (h.takes_scalar hi (h.scalar_integer hi)).bind_pure
      (f := fun s => Value.boolean s.truth)
    exact (takes_tagByte (by decide)).bind hread
  | @character i p hi =>
    exact (takes_tagByte (by decide)).bind (h.takes_converted hi (h.scalar_integer hi)
      Scalar.toCharacter (Scalar.toCharacter_val p) Value.text)
  | text hs =>
    exact (takes_tagByte (by decide)).bind
      ((h.takes_name hs).bind_pure (f := fun s => Value.text (Text.ofString s)))
  | enumConstant ht hc =>
    exact (takes_tagByte (by decide)).bind ((h.takes_typeName ht).bind
      ((h.takes_name hc).bind_pure (f := Value.enumConstant _)))
  | classLiteral hd =>
    exact (takes_tagByte (by decide)).bind ((h.takes_name hd).bind_pure (f := Value.classLiteral))
  | annotation ht hcount hnodup hlen hnames hvalues ih =>
    rename_i type l values chunks
    have hvalue : ∀ p ∈ values.zip chunks, (Value.readWithin pool depth).Takes p.2.2 p.1.2 := by
      intro p hp
      have hpos := (hvalues p hp).length_pos
      have hle : p.2.2.length ≤ depth := by
        have hmem := List.mem_map_of_mem (f := fun c : List UInt8 × List UInt8 => c.1 ++ c.2)
          (List.of_mem_zip hp).2
        have hchunk := length_le_flatten hmem
        simp only [tagByte, List.length_append, length_bigEndian] at hdepth hchunk
        omega
      obtain ⟨d, rfl⟩ : ∃ d, depth = d + 1 := ⟨depth - 1, by omega⟩
      exact ih p hp hle
    have hread := (h.takes_annotation true ht hcount hnodup hlen hnames hvalue).bind_pure
      (f := fun a => Value.annotationLiteral a.type a.isVisible a.values)
    exact (takes_tagByte (by decide)).bind hread
  | @list items chunks hcount hlen hitems ih =>
    have hitem : List.Forall₂ (fun v c => (Value.readWithin pool depth).Takes c v) items chunks := by
      rw [List.forall₂_iff_zip]
      refine ⟨hlen, fun {v c} hp => ?_⟩
      have hpos : 0 < c.length := (hitems _ hp).length_pos
      have hle : c.length ≤ depth := by
        have hchunk := length_le_flatten (List.of_mem_zip hp).2
        simp only [tagByte, List.length_append, length_bigEndian] at hdepth
        omega
      obtain ⟨d, rfl⟩ : ∃ d, depth = d + 1 := ⟨depth - 1, by omega⟩
      exact ih _ hp hle
    exact (takes_tagByte (by decide)).bind
      ((takes_counted hcount hitem).bind_pure (f := Value.list))

/-- An element value is read back from its bytes. -/
theorem Value.Written.takes (h : pool.Stores es) {v : Value} {l : List UInt8}
    (hv : Value.Written es v l) : (Value.read pool).Takes l v := by
  intro rest
  have hpos := hv.length_pos
  obtain ⟨d, hd⟩ : ∃ d, (l ++ rest).length = d + 1 :=
    ⟨(l ++ rest).length - 1, by simp only [List.length_append]; omega⟩
  have hdepth : l.length ≤ d + 1 := by
    rw [← hd, List.length_append]
    omega
  change Value.readWithin pool (l ++ rest).length (l ++ rest) = _
  rw [hd]
  exact hv.takes_within h hdepth rest

/-- An annotation is read back from its bytes, marked as visible or not by the reader. -/
theorem Annotation.Written.takes (h : pool.Stores es) {a : Annotation} {l : List UInt8}
    (ha : a.Written es l) : (readAnnotationWith (Value.read pool) pool a.isVisible).Takes l a := by
  obtain ⟨type, isVisible, values⟩ := a
  unfold Annotation.Written at ha
  generalize hl : tagByte '@' ++ l = l' at ha
  generalize hv : Value.annotationLiteral type true values = v at ha
  cases ha with
  | annotation ht hcount hnodup hlen hnames hvalues =>
    cases hv
    rw [List.append_cancel_left hl]
    exact h.takes_annotation isVisible ht hcount hnodup hlen hnames
      fun p hp => (hvalues p hp).takes h
  | _ => cases hv

end ApiSurface
