/-
ApiSurface.Proofs.ClassFile.Faults — how reading a class can fail.

Bytes that are no class are refused as malformed. Apart from that, reading ends only at a
constant that is no value of the type it is used as. Along the readers, each of them is
blamed for the constants that it gets to (`Reader.Blames`), or for none (`Reader.Plain`),
and so a class is read ill-typed exactly if one of its `ClassFile.uses` has a flaw
(`ClassFile.parse_eq_illTyped_iff`). Bytes that use their constants as the format says are a
class or malformed, whatever else is wrong with them (`ClassFile.parse_of_prescribed`).
-/
import ApiSurface.ClassPath.Handle
import ApiSurface.Proofs.ClassFile.Uses

namespace ApiSurface

open Reader

/-! ## 1. Flaws end the reading -/

/-- A computation ends ill-typed exactly if one of some constants is no value of its type. -/
def Blames {α : Type} (e : Except ClassFault α) (uses : List ConstantUse) : Prop :=
  ∀ why, e = .error (.illTyped why) ↔ ∃ u ∈ uses, u.flaw? = some why

namespace Blames

variable {α β : Type} {e : Except ClassFault α} {uses : List ConstantUse}

theorem ok (a : α) : Blames (.ok a) [] := by
  simp [Blames]

theorem malformed (why : Malformed) :
    Blames (.error (.malformed why) : Except ClassFault α) [] := by
  simp [Blames]

/-- What comes second is blamed only if the first succeeds. -/
theorem bind {f : α → Except ClassFault β} {uses' : α → List ConstantUse} (he : Blames e uses)
    (hf : ∀ a, Blames (f a) (uses' a)) : Blames (e >>= f) (uses ++ ConstantUse.after e uses') := by
  intro why
  cases e with
  | error fault =>
    have hsame : (Except.error fault >>= f) = .error (.illTyped why) ↔
        (.error fault : Except ClassFault α) = .error (.illTyped why) := by
      simp [Bind.bind, Except.bind]
    rw [hsame, ConstantUse.after, List.append_nil, he why]
  | ok a =>
    have hnone : ¬ ∃ u ∈ uses, u.flaw? = some why := by
      rw [← he why]
      exact nofun
    simp only [ConstantUse.after, List.mem_append, or_and_right, exists_or, hnone, false_or]
    exact hf a why

/-- What follows blames nothing. -/
theorem bind_plain {f : α → Except ClassFault β} (he : Blames e uses) (hf : ∀ a, Blames (f a) []) :
    Blames (e >>= f) uses := by
  have h := he.bind hf
  have hnil : ConstantUse.after e (fun _ => []) = [] := by
    cases e <;> rfl
  rwa [hnil, List.append_nil] at h

theorem map (he : Blames e uses) (f : α → β) : Blames (e.map f) uses := by
  have hmap : e.map f = e >>= fun a => .ok (f a) := by
    cases e <;> rfl
  rw [hmap]
  exact he.bind_plain fun a => ok (f a)

/-- Attributes that change an entity one after the other. -/
theorem foldlM {step : β → Attribute → Except ClassFault β}
    {uses : β → Attribute → List ConstantUse}
    (hstep : ∀ s a, Blames (step s a) (uses s a)) (as : List Attribute) (s : β) :
    Blames (as.foldlM step s) (Attribute.usesInTurn step uses s as) := by
  induction as generalizing s with
  | nil => exact ok s
  | cons a as ih =>
    rw [List.foldlM_cons]
    exact (hstep s a).bind fun s' => ih s'

end Blames

namespace Reader

variable {α β : Type}

/-- A reader ends ill-typed exactly if it gets to a constant that is no value of its type. -/
def Blames (r : Reader α) (uses : List UInt8 → List ConstantUse) : Prop :=
  ∀ l, ApiSurface.Blames (r l) (uses l)

/-- A reader never ends ill-typed. -/
def Plain (r : Reader α) : Prop := r.Blames fun _ => []

theorem Blames.bind {r : Reader α} {f : α → Reader β} {uses : List UInt8 → List ConstantUse}
    {uses' : α → List UInt8 → List ConstantUse} (hr : r.Blames uses)
    (hf : ∀ a, (f a).Blames (uses' a)) : (r >>= f).Blames fun l => uses l ++ behind r uses' l :=
  fun l => (hr l).bind fun p => hf p.1 p.2

theorem Blames.bind_plain {r : Reader α} {f : α → Reader β} {uses : List UInt8 → List ConstantUse}
    (hr : r.Blames uses) (hf : ∀ a, (f a).Plain) : (r >>= f).Blames uses :=
  fun l => (hr l).bind_plain fun p => hf p.1 p.2

theorem Plain.bind {r : Reader α} {f : α → Reader β} {uses : α → List UInt8 → List ConstantUse}
    (hr : r.Plain) (hf : ∀ a, (f a).Blames (uses a)) : (r >>= f).Blames (behind r uses) :=
  Blames.bind hr hf

theorem plain_pure (a : α) : (pure a : Reader α).Plain := fun l => .ok (a, l)

theorem plain_fail (why : Malformed) : (fail why : Reader α).Plain := fun _ => .malformed why

theorem plain_look (e : Except Malformed α) : (look e).Plain := by
  cases e with
  | error why => exact plain_fail why
  | ok a => exact plain_pure a

theorem plain_bytes (n : Nat) : (bytes n).Plain := by
  intro l
  unfold bytes
  split_ifs
  · exact .ok _
  · exact .malformed _

theorem plain_number (n : Nat) : (number n).Plain :=
  (plain_bytes n).bind_plain fun _ => plain_pure _

theorem plain_u1 : u1.Plain := plain_number 1

theorem plain_u2 : u2.Plain := plain_number 2

theorem plain_u4 : u4.Plain := plain_number 4

theorem blames_many {one : Reader α} {uses : List UInt8 → List ConstantUse} (h : one.Blames uses)
    (n : Nat) : (many n one).Blames (usesOfMany n one uses) := by
  induction n with
  | zero => exact plain_pure []
  | succ n ih => exact h.bind fun _ => ih.bind_plain fun _ => plain_pure _

theorem blames_counted {one : Reader α} {uses : List UInt8 → List ConstantUse}
    (h : one.Blames uses) : (counted one).Blames (usesOfCounted one uses) :=
  plain_u2.bind fun n => blames_many h n

theorem plain_many {one : Reader α} (h : one.Plain) (n : Nat) : (many n one).Plain := by
  induction n with
  | zero => exact plain_pure []
  | succ n ih => exact h.bind_plain fun _ => ih.bind_plain fun _ => plain_pure _

theorem plain_counted {one : Reader α} (h : one.Plain) : (counted one).Plain :=
  plain_u2.bind_plain fun n => plain_many h n

variable {pool : Pool}

theorem plain_name : (Reader.name pool).Plain := plain_u2.bind_plain fun _ => plain_look _

theorem plain_typeName : (Reader.typeName pool).Plain := plain_name.bind_plain fun _ => plain_pure _

/-- A number or a text is used as a value of a type if it ends ill-typed just where the
conversion to this type fails. -/
theorem blames_use {type : Char} {f : Scalar → Reader β}
    (hf : ∀ s l why, f s l = .error (.illTyped why) ↔ ConstantUse.convert type s = .error why) :
    (Reader.scalar pool >>= f).Blames (behind u2 fun index _ => [⟨pool, type, index⟩]) := by
  change ((u2 >>= fun index => look (pool.scalar index)) >>= f).Blames _
  rw [bind_assoc]
  refine plain_u2.bind fun index l why => ?_
  simp only [List.mem_singleton, exists_eq_left, ConstantUse.flaw?]
  cases pool.scalar index with
  | error malformed => exact ⟨nofun, nofun⟩
  | ok s =>
    change f s l = _ ↔ _
    rw [hf]
    cases hc : ConstantUse.convert type s with
    | error cause => simp [hc]
    | ok v => simp [hc]

theorem typed_eq_error {e : Except IllTyped α} {l : List UInt8} {why : IllTyped} :
    typed e l = .error (.illTyped why) ↔ e = .error why := by
  cases e with
  | error cause =>
    change Except.error (ClassFault.illTyped cause) = _ ↔ Except.error cause = _
    simp
  | ok a => exact ⟨nofun, nofun⟩

/-- A converted number or text, and what is made of it. -/
theorem typed_bind_eq_error {e : Except IllTyped α} {f : α → β} {l : List UInt8} {why : IllTyped} :
    (typed e >>= fun a => pure (f a)) l = .error (.illTyped why) ↔ e.map f = .error why := by
  have hmap : (typed e >>= fun a => pure (f a)) = typed (e.map f) := by
    cases e <;> rfl
  rw [hmap, typed_eq_error]

end Reader

/-! ## 2. Annotations -/

section

variable {pool : Pool}

theorem readElementWith_blames {value : Reader Value} {uses : List UInt8 → List ConstantUse}
    (h : value.Blames uses) :
    (readElementWith value pool).Blames (behind (Reader.name pool) fun _ => uses) :=
  plain_name.bind fun _ => h.bind_plain fun _ => plain_pure _

theorem readAnnotationWith_blames {value : Reader Value} {uses : List UInt8 → List ConstantUse}
    (h : value.Blames uses) (isVisible : Bool) :
    (readAnnotationWith value pool isVisible).Blames (usesOfAnnotationWith value uses pool) :=
  plain_typeName.bind fun _ =>
    (blames_counted (readElementWith_blames h)).bind_plain fun _ => plain_pure _

/-- Each level is blamed as the level below it is, by the tag that it starts with. -/
theorem Value.readWithin_blames (depth : Nat) :
    (Value.readWithin pool depth).Blames (Value.usesWithin pool depth) := by
  induction depth with
  | zero => exact plain_fail .truncated
  | succ depth ih =>
    refine plain_u1.bind fun code => ?_
    split
    -- numbers and characters, which are converted
    case h_1 heq | h_2 heq | h_3 heq | h_4 heq | h_5 heq | h_6 heq | h_8 heq =>
      rw [heq, if_pos (by decide)]
      exact blames_use fun s l why => typed_bind_eq_error
    -- truth values, of which every number and text is one
    case h_7 heq =>
      rw [heq, if_pos (by decide)]
      exact blames_use fun s l why => ⟨nofun, nofun⟩
    -- texts and class literals, and constants of enum types: these are texts of the pool
    case h_9 heq | h_11 heq =>
      rw [heq, if_neg (by decide), if_neg (by decide), if_neg (by decide)]
      exact plain_name.bind_plain fun _ => plain_pure _
    case h_10 heq =>
      rw [heq, if_neg (by decide), if_neg (by decide), if_neg (by decide)]
      exact plain_typeName.bind_plain fun _ => plain_name.bind_plain fun _ => plain_pure _
    -- annotations and lists, with values one level below
    case h_12 heq =>
      rw [heq, if_neg (by decide), if_pos rfl]
      exact (readAnnotationWith_blames ih true).bind_plain fun _ => plain_pure _
    case h_13 heq =>
      rw [heq, if_neg (by decide), if_neg (by decide), if_pos rfl]
      exact (blames_counted ih).bind_plain fun _ => plain_pure _
    case h_14 hB hI hJ hS hD hF hZ hC _ _ _ hAnnotation hList =>
      have hletters : Char.ofNat code ∉ ConstantUse.letters := by
        simpa [ConstantUse.letters] using ⟨hB, hC, hD, hF, hI, hJ, hS, hZ⟩
      rw [if_neg hletters, if_neg hAnnotation, if_neg hList]
      exact plain_fail _

theorem Value.read_blames : (Value.read pool).Blames (Value.uses pool) := fun l =>
  Value.readWithin_blames l.length l

theorem readAnnotations_blames (isVisible : Bool) :
    (readAnnotations pool isVisible).Blames (usesOfAnnotations pool isVisible) :=
  blames_counted (readAnnotationWith_blames Value.read_blames isVisible)

/-! ## 3. Attributes and members -/

theorem Attribute.takeAll_plain : (Attribute.takeAll pool).Plain :=
  plain_counted <| plain_name.bind_plain fun _ => plain_u4.bind_plain fun n =>
    (plain_bytes n).bind_plain fun _ => plain_pure _

theorem Attribute.get_blames {α : Type} {r : Reader α} {uses : List UInt8 → List ConstantUse}
    (h : r.Blames uses) (a : Attribute) : Blames (a.get r) (uses a.body) :=
  (h a.body).map (·.1)

theorem Attribute.usesOfAnnotations_eq_nil {a : Attribute} (h : a.annotationVisibility? = none) :
    a.usesOfAnnotations pool = [] := by
  simp [Attribute.usesOfAnnotations, h]

/-- An attribute of another name holds no annotations. -/
theorem Attribute.usesOfAnnotations_of_name {a : Attribute} {name : String} (h : a.name = name)
    (hvisible : name ≠ "RuntimeVisibleAnnotations")
    (hinvisible : name ≠ "RuntimeInvisibleAnnotations") : a.usesOfAnnotations pool = [] := by
  refine Attribute.usesOfAnnotations_eq_nil ?_
  rw [Attribute.annotationVisibility?, h, if_neg hvisible, if_neg hinvisible]

/-- What a part of the class becomes with an attribute that may hold annotations. -/
theorem Attribute.annotations_blames {α : Type} (a : Attribute) (f : List Annotation → α) (s : α) :
    Blames (match a.annotationVisibility? with
      | some isVisible => do return f (← a.get (readAnnotations pool isVisible))
      | none => pure s) (a.usesOfAnnotations pool) := by
  cases hvisible : a.annotationVisibility? with
  | none =>
    rw [Attribute.usesOfAnnotations_eq_nil hvisible]
    exact .ok s
  | some isVisible =>
    simp only [Attribute.usesOfAnnotations, hvisible]
    exact (a.get_blames (readAnnotations_blames isVisible)).bind_plain fun _ => .ok _

theorem FieldInfo.constant_blames (descriptor : String) :
    (do typed ((← Reader.scalar pool).fieldValue descriptor) : Reader Value).Blames
      (FieldInfo.usesOfConstant pool descriptor) := by
  unfold FieldInfo.usesOfConstant
  split_ifs with hchar
  · subst hchar
    exact blames_use fun s l why => typed_eq_error
  · -- only the conversion to a character can fail
    refine (plain_u2.bind_plain fun _ => plain_look _).bind_plain fun s l => ?_
    unfold Scalar.fieldValue
    split_ifs
    · exact .ok _
    · exact .ok _

theorem FieldInfo.withAttribute_blames (f : FieldInfo) (a : Attribute) :
    Blames (f.withAttribute pool a) (f.usesOfAttribute pool a) := by
  unfold FieldInfo.withAttribute FieldInfo.usesOfAttribute
  split_ifs with hconstant hsignature
  · exact (a.get_blames (constant_blames f.descriptor)).bind_plain fun _ => .ok _
  · rw [Attribute.usesOfAnnotations_of_name hsignature (by decide) (by decide)]
    exact (a.get_blames plain_name).bind_plain fun _ => .ok _
  · exact a.annotations_blames _ f

theorem MethodInfo.withAttribute_blames (m : MethodInfo) (a : Attribute) :
    Blames (m.withAttribute pool a) (MethodInfo.usesOfAttribute pool a) := by
  unfold MethodInfo.withAttribute MethodInfo.usesOfAttribute
  split_ifs with hsignature hdefault hdefault
  · exact absurd (hsignature.symm.trans hdefault) (by decide)
  · rw [Attribute.usesOfAnnotations_of_name hsignature (by decide) (by decide)]
    exact (a.get_blames plain_name).bind_plain fun _ => .ok _
  · exact (a.get_blames Value.read_blames).bind_plain fun _ => .ok _
  · exact a.annotations_blames _ m

theorem InnerClass.read_plain : (InnerClass.read pool).Plain := by
  refine plain_u2.bind_plain fun inner => plain_u2.bind_plain fun outer => plain_u2.bind_plain
    fun simpleName => plain_u2.bind_plain fun flags => (plain_look _).bind_plain fun _ =>
    (plain_look _).bind_plain fun _ => ?_
  split_ifs
  · exact plain_pure _
  · exact ((plain_look _).bind_plain fun _ => plain_pure _).bind_plain fun _ => plain_pure _

theorem Enclosing.read_plain : (Enclosing.read pool).Plain := by
  refine plain_u2.bind_plain fun _ => (plain_look _).bind_plain fun owner =>
    plain_u2.bind_plain fun index => ?_
  split_ifs
  · exact plain_pure _
  · exact ((plain_look _).bind_plain fun _ => plain_pure _).bind_plain fun _ => plain_pure _

theorem ClassFile.withAttribute_blames (c : ClassFile) (a : Attribute) :
    Blames (c.withAttribute pool a) (a.usesOfAnnotations pool) := by
  unfold ClassFile.withAttribute
  split_ifs with hsignature hinner henclosing
  · rw [Attribute.usesOfAnnotations_of_name hsignature (by decide) (by decide)]
    exact (a.get_blames plain_name).bind_plain fun _ => .ok _
  · rw [Attribute.usesOfAnnotations_of_name hinner (by decide) (by decide)]
    exact (a.get_blames (plain_counted InnerClass.read_plain)).bind_plain fun _ => .ok _
  · rw [Attribute.usesOfAnnotations_of_name henclosing (by decide) (by decide)]
    exact (a.get_blames Enclosing.read_plain).bind_plain fun _ => .ok _
  · exact a.annotations_blames _ c

/-- A member starts with its flags, its name and its descriptor; its attributes follow. -/
theorem member_blames {α : Type} (start : Nat → String → String → α)
    (step : α → Attribute → Except ClassFault α) (uses : α → Attribute → List ConstantUse)
    (hstep : ∀ s a, Blames (step s a) (uses s a)) :
    (do
      let flags ← u2
      let name ← Reader.name pool
      let descriptor ← Reader.name pool
      let attributes ← Attribute.takeAll pool
      StateT.lift <| attributes.foldlM step (start flags name descriptor) : Reader α).Blames
      (pool.usesOfMember start step uses) :=
  plain_u2.bind fun flags => plain_name.bind fun name => plain_name.bind fun descriptor =>
    Attribute.takeAll_plain.bind fun as l =>
      (Blames.foldlM hstep as (start flags name descriptor)).bind_plain fun a => .ok (a, l)

theorem FieldInfo.read_blames : (FieldInfo.read pool).Blames (FieldInfo.uses pool) :=
  member_blames _ (FieldInfo.withAttribute pool) (FieldInfo.usesOfAttribute pool)
    FieldInfo.withAttribute_blames

theorem MethodInfo.read_blames : (MethodInfo.read pool).Blames (MethodInfo.uses pool) :=
  member_blames _ (MethodInfo.withAttribute pool) (fun _ => MethodInfo.usesOfAttribute pool)
    MethodInfo.withAttribute_blames

end

/-! ## 4. Classes -/

theorem Constant.read_plain (index : Nat) : (Constant.read index).Plain := by
  unfold Constant.read
  refine plain_u1.bind_plain fun code => ?_
  split
  · exact plain_fail _
  · refine plain_u2.bind_plain fun n => Reader.Blames.bind_plain ?_ fun _ => plain_pure _
    refine (plain_bytes n).bind_plain fun spelled => ?_
    split
    · exact plain_pure _
    · exact plain_fail _
  · exact plain_u4.bind_plain fun _ => plain_pure _
  · exact plain_u4.bind_plain fun _ => plain_pure _
  · exact (plain_number 8).bind_plain fun _ => plain_pure _
  · exact (plain_number 8).bind_plain fun _ => plain_pure _
  · exact plain_u2.bind_plain fun _ => plain_pure _
  · exact plain_u2.bind_plain fun _ => plain_pure _
  · exact plain_u2.bind_plain fun _ => plain_u2.bind_plain fun _ => plain_pure _
  · exact (plain_bytes _).bind_plain fun _ => plain_pure _

theorem Pool.readFrom_plain (count index : Nat) (slots : Array (Option Constant)) :
    (Pool.readFrom count index slots).Plain := by
  fun_induction Pool.readFrom count index slots with
  | case1 index slots hlt ih2 ih1 =>
    refine (Constant.read_plain index).bind_plain fun c => ?_
    split_ifs
    · exact ih2 c
    · exact ih1 c
  | case2 => exact plain_pure _

theorem Pool.read_plain : Pool.read.Plain :=
  plain_u2.bind_plain fun count => (Pool.readFrom_plain count 1 #[none]).bind_plain fun _ =>
    plain_pure _

namespace ClassFile

theorem read_eq : ClassFile.read = readStart >>= fun p => readRest p.1 p.2 := by
  unfold ClassFile.read readStart
  rw [bind_assoc]
  refine bind_congr fun magic => ?_
  split_ifs
  · simp only [bind_assoc, pure_bind]
    rfl
  · rfl

theorem readStart_plain : readStart.Plain := by
  unfold readStart
  refine plain_u4.bind_plain fun magic => ?_
  split_ifs
  · refine plain_u2.bind_plain fun minor => plain_u2.bind_plain fun major => ?_
    refine Pool.read_plain.bind_plain fun pool => plain_u2.bind_plain fun flags => ?_
    refine plain_u2.bind_plain fun _ => (plain_look _).bind_plain fun name => ?_
    refine plain_u2.bind_plain fun _ => (plain_look _).bind_plain fun superclass => ?_
    exact (plain_counted (plain_u2.bind_plain fun _ => plain_look _)).bind_plain fun interfaces =>
      plain_pure _
  · exact fun _ => .malformed _

theorem readRest_blames (pool : Pool) (c : ClassFile) :
    (readRest pool c).Blames (usesOfRest pool c) := by
  refine (blames_counted FieldInfo.read_blames).bind fun fields => ?_
  refine (blames_counted MethodInfo.read_blames).bind fun methods => ?_
  refine Attribute.takeAll_plain.bind fun as l => ?_
  exact (Blames.foldlM withAttribute_blames as _).bind_plain fun c => .ok (c, l)

theorem read_blames : ClassFile.read.Blames ClassFile.uses := by
  rw [read_eq]
  exact readStart_plain.bind fun p => readRest_blames p.1 p.2

/-- Reading a class ends ill-typed exactly if it gets to a constant that is no value of the type
that it is used as. -/
theorem parse_eq_illTyped_iff {bytes : List UInt8} {why : IllTyped} :
    parse bytes = .error (.illTyped why) ↔ ∃ u ∈ uses bytes, u.flaw? = some why :=
  (read_blames bytes).map (·.1) why

/-- Bytes that use their constants as the format says are a class, or malformed. So a class with
these bytes is loaded, or it is reported that they cannot be parsed. -/
theorem parse_of_prescribed {bytes : List UInt8} (h : ∀ u ∈ uses bytes, u.IsPrescribed) :
    ((∃ c, parse bytes = .ok c) ∨ ∃ why, parse bytes = .error (.malformed why)) ∧
      ∀ d home (handle : Handle) name scope,
        handle.find d home name = .ok (some (bytes, scope)) →
          (∃ found, (handle.load d home name).1 = .ok found) ∨
            ∃ why, (handle.load d home name).1 = .error (.cannotParse name why) := by
  have hparse : (∃ c, parse bytes = .ok c) ∨ ∃ why, parse bytes = .error (.malformed why) := by
    cases hp : parse bytes with
    | ok c => exact .inl ⟨c, rfl⟩
    | error fault =>
      cases fault with
      | malformed why => exact .inr ⟨why, rfl⟩
      | illTyped why =>
        obtain ⟨u, hu, hflaw⟩ := parse_eq_illTyped_iff.mp hp
        rw [ConstantUse.flaw?_eq_none (h u hu)] at hflaw
        cases hflaw
  refine ⟨hparse, fun d home handle name scope hfind => ?_⟩
  unfold Handle.load
  cases handle.loaded.lookup name with
  | some found => exact .inl ⟨found, rfl⟩
  | none =>
    simp only [Handle.lookUp, hfind, Handle.parsed]
    obtain ⟨c, hc⟩ | ⟨why, hwhy⟩ := hparse
    · rw [hc]
      exact .inl ⟨_, rfl⟩
    · rw [hwhy]
      exact .inr ⟨why, rfl⟩

namespace Annotated

/-! A class with a constant of characters and an annotation that nests values of all kinds. -/

/-- The entries of the pool: names, and a number of each kind. -/
def poolBytes : List UInt8 := [
  0, 13,
  1, 0, 3, 112, 47, 65,
  7, 0, 1,
  1, 0, 1, 67,
  3, 0, 0, 0, 65,
  1, 0, 13, 67, 111, 110, 115, 116, 97, 110, 116, 86, 97, 108, 117, 101,
  1, 0, 25, 82, 117, 110, 116, 105, 109, 101, 86, 105, 115, 105, 98, 108, 101,
    65, 110, 110, 111, 116, 97, 116, 105, 111, 110, 115,
  1, 0, 5, 76, 112, 47, 78, 59,
  6, 0x3F, 0xE0, 0, 0, 0, 0, 0, 0,
  5, 0, 0, 0, 0, 0, 0, 0, 7,
  4, 0x3F, 0, 0, 0]

/-- The annotation: a list of a byte and a truth value, a number of each other kind, and an
annotation with a character. -/
def annotationBytes : List UInt8 := [
  0, 7, 0, 5,
  0, 1, 91, 0, 2, 66, 0, 4, 90, 0, 4,
  0, 3, 68, 0, 8,
  0, 5, 74, 0, 10,
  0, 6, 70, 0, 12,
  0, 7, 64, 0, 7, 0, 1, 0, 3, 67, 0, 4]

def bytes : List UInt8 :=
  [0xCA, 0xFE, 0xBA, 0xBE, 0, 0, 0, 52] ++ poolBytes ++ [0, 0x21, 0, 2, 0, 0, 0, 0] ++
    [0, 1, 0, 0x19, 0, 3, 0, 3, 0, 1, 0, 5, 0, 0, 0, 2, 0, 4] ++ [0, 0] ++
    [0, 1, 0, 6, 0, 0, 0, 44, 0, 1] ++ annotationBytes

/-- A disk with the class in a folder. -/
def disk : Disk := ⟨[(["A.class"], .file ⟨bytes.toArray⟩)]⟩

/-- The folder as the target. -/
def handle : Handle := ⟨⟨.root, []⟩, .folder [("p.A", ⟨.root, ["A.class"]⟩)], [], []⟩

end Annotated

/-- All constants that the class uses are of the kinds that the format says. -/
theorem parse_of_prescribed_annotated :
    (∀ u ∈ uses Annotated.bytes, u.IsPrescribed) ∧
      (uses Annotated.bytes).map (fun u => (u.type, u.index)) =
        [('C', 4), ('B', 4), ('Z', 4), ('D', 8), ('J', 10), ('F', 12), ('C', 4)] ∧
      Annotated.handle.find Annotated.disk [] "p.A" = .ok (some (Annotated.bytes, .target)) ∧
      ((∃ found, (Annotated.handle.load Annotated.disk [] "p.A").1 = .ok found) ∨
        ∃ why, (Annotated.handle.load Annotated.disk [] "p.A").1 =
          .error (.cannotParse "p.A" why)) := by
  have huses : ∀ u ∈ uses Annotated.bytes, u.IsPrescribed := by decide +kernel
  have hfind : Annotated.handle.find Annotated.disk [] "p.A" =
      .ok (some (Annotated.bytes, .target)) := rfl
  exact ⟨huses, by decide +kernel, hfind, (parse_of_prescribed huses).2 _ _ _ _ _ hfind⟩

end ClassFile

end ApiSurface
