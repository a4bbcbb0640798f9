/-
ApiSurface.Proofs.ClassFile.RoundTrip — parsing undoes writing.

Whatever bytes the format allows for a class, parsing them gives this class. The
freedom of the format is all in `ClassFile.Written`: the theorem holds for every order
of the pool and of attributes, and for everything that a class file may hold beside
what the class declares.
-/
import ApiSurface.Proofs.ClassFile.Attributes

namespace ApiSurface

open Reader

variable {pool : Pool} {es : List Constant}

/-! ## 1. Nested and enclosing classes -/

/-- An index that may be missing is followed, or read as nothing, before what is next. -/
theorem OptionalAt.exists_takes {α : Type} {at' : α → List UInt8 → Prop}
    (find : Nat → Except Malformed α)
    (hfind : ∀ a l, at' a l → ∃ i, 0 < i ∧ i < 2 ^ 16 ∧ l = bigEndian 2 i ∧ find i = .ok a)
    {a? : Option α} {l : List UInt8} (h : OptionalAt at' a? l) :
    ∃ i, i < 2 ^ 16 ∧ l = bigEndian 2 i ∧
      ∀ {β : Type} {next : Option α → Reader β} {b : β}, (next a?).Takes [] b →
        Takes (if i = 0 then pure none >>= next else (some <$> look (find i)) >>= next) [] b := by
  cases a? with
  | none => exact ⟨0, by decide, h, fun hnext => (takes_pure none).bind_nil hnext⟩
  | some a =>
    obtain ⟨i, hpos, hi, hl, ha⟩ := hfind a l h
    refine ⟨i, hi, hl, fun hnext => ?_⟩
    rw [if_neg (by omega)]
    exact (takes_look ha).map.bind_nil hnext

theorem InnerClass.Written.takes (h : pool.Stores es) {e : InnerClass} {l : List UInt8}
    (he : e.Written es l) : (InnerClass.read pool).Takes l e := by
  obtain ⟨hinner, houter, hname, hflags⟩ := he
  obtain ⟨i, hi, rfl, hinner'⟩ := h.exists_className hinner
  obtain ⟨j, hj, rfl, houter'⟩ := h.exists_optionalClassName houter
  obtain ⟨k, hk, rfl, hname'⟩ := hname.exists_takes pool.utf8 (by
    rintro s l ⟨k, hk, rfl⟩
    exact ⟨k, hk.pos, h.lt hk, rfl, h.utf8 hk⟩)
  have hlast := (takes_u2 hflags).bind (f := fun flags => do
      let inner ← look (pool.className i)
      let outer ← look (pool.optionalClassName j)
      let simpleName ← if k = 0 then pure none else some <$> look (pool.utf8 k)
      return InnerClass.mk inner outer simpleName flags)
    ((takes_look hinner').bind_nil ((takes_look houter').bind_nil (hname' (takes_pure e))))
  rw [List.append_nil] at hlast
  exact (takes_u2 hi).bind ((takes_u2 hj).bind ((takes_u2 hk).bind hlast))

theorem Enclosing.Written.takes (h : pool.Stores es) {e : Enclosing} {l : List UInt8}
    (he : e.Written es l) : (Enclosing.read pool).Takes l e := by
  obtain ⟨howner, hmethod⟩ := he
  obtain ⟨i, hi, rfl, howner'⟩ := h.exists_className howner
  obtain ⟨k, hk, rfl, hmethod'⟩ := hmethod.exists_takes pool.nameAndType (by
    rintro m l ⟨k, name, descriptor, hk, hn, hd, rfl⟩
    exact ⟨k, hk.pos, h.lt hk, rfl, h.nameAndType hk hn hd⟩)
  have hlast := (takes_u2 hk).bind (f := fun index => do
      let method ← if index = 0 then pure none else some <$> look (pool.nameAndType index)
      return Enclosing.mk e.owner method) (hmethod' (takes_pure e))
  rw [List.append_nil] at hlast
  exact (takes_u2 hi).bind ((takes_look howner').bind_nil hlast)

/-! ## 2. The attributes of a class -/

/-- What the attributes ahead still have to add to a class `g` for it to be `c`. -/
structure ClassFile.Pending (es : List Constant) (as : List Attribute) (g c : ClassFile) :
    Prop where
  major : g.major = c.major
  minor : g.minor = c.minor
  flags : g.flags = c.flags
  name : g.name = c.name
  superclass : g.superclass = c.superclass
  interfaces : g.interfaces = c.interfaces
  fields : g.fields = c.fields
  methods : g.methods = c.methods
  signature : Attribute.Sets as "Signature" (TextAt es) g.signature c.signature
  enclosing : Attribute.Sets as "EnclosingMethod" (Enclosing.Written es) g.enclosing c.enclosing
  innerClasses : Attribute.Adds as (·.name = "InnerClasses")
    (fun a group => Counted (InnerClass.Written es) group a.body) g.innerClasses c.innerClasses
  annotations : Attribute.Adds as (·.annotationVisibility?.isSome) (fun a group =>
    Counted (fun x l => Annotation.Written es x l ∧ a.annotationVisibility? = some x.isVisible)
      group a.body) g.annotations c.annotations

/-- One attribute ahead makes one step of what is pending. -/
theorem ClassFile.Pending.step (h : pool.Stores es) {a : Attribute} {as : List Attribute}
    {g c : ClassFile} (hp : ClassFile.Pending es (a :: as) g c) :
    ∃ g', ClassFile.withAttribute pool g a = .ok g' ∧ ClassFile.Pending es as g' c := by
  by_cases hs : a.name = "Signature"
  · obtain ⟨x, hx, hrest⟩ := hp.signature.take hs
    have hget := Attribute.get_eq_ok (h.takes_name hx)
    refine ⟨{ g with signature := some x }, ?_, { hp with
      signature := hrest
      enclosing := hp.enclosing.skip (by rw [hs]; decide)
      innerClasses := hp.innerClasses.skip (by simp [hs])
      annotations := hp.annotations.skip (by simp [Attribute.annotationVisibility?, hs]) }⟩
    rw [withAttribute, if_pos hs, hget]
    rfl
  by_cases hi : a.name = "InnerClasses"
  · obtain ⟨group, hg, hrest⟩ := hp.innerClasses.take (by simp [hi])
    have hget := Attribute.get_eq_ok (hg.takes fun e l he => he.takes h)
    refine ⟨{ g with innerClasses := g.innerClasses ++ group }, ?_, { hp with
      signature := hp.signature.skip hs
      enclosing := hp.enclosing.skip (by rw [hi]; decide)
      innerClasses := hrest
      annotations := hp.annotations.skip (by simp [Attribute.annotationVisibility?, hi]) }⟩
    rw [withAttribute, if_neg hs, if_pos hi, hget]
    rfl
  by_cases he : a.name = "EnclosingMethod"
  · obtain ⟨x, hx, hrest⟩ := hp.enclosing.take he
    have hget := Attribute.get_eq_ok (hx.takes h)
    refine ⟨{ g with enclosing := some x }, ?_, { hp with
      signature := hp.signature.skip hs
      enclosing := hrest
      innerClasses := hp.innerClasses.skip (by simp [hi])
      annotations := hp.annotations.skip (by simp [Attribute.annotationVisibility?, he]) }⟩
    rw [withAttribute, if_neg hs, if_neg hi, if_pos he, hget]
    rfl
  cases hv : a.annotationVisibility? with
  | none =>
    refine ⟨g, ?_, { hp with
      signature := hp.signature.skip hs
      enclosing := hp.enclosing.skip he
      innerClasses := hp.innerClasses.skip (by simp [hi])
      annotations := hp.annotations.skip (by simp [hv]) }⟩
    rw [withAttribute, if_neg hs, if_neg hi, if_neg he, hv]
    rfl
  | some isVisible =>
    obtain ⟨group, hg, hrest⟩ := hp.annotations.take (by simp [hv])
    have hget := Attribute.get_eq_ok (h.takes_annotations hg hv)
    refine ⟨{ g with annotations := g.annotations ++ group }, ?_, { hp with
      signature := hp.signature.skip hs
      enclosing := hp.enclosing.skip he
      innerClasses := hp.innerClasses.skip (by simp [hi])
      annotations := hrest }⟩
    rw [withAttribute, if_neg hs, if_neg hi, if_neg he, hv]
    simp only [hget]
    rfl

/-- Nothing is pending when no attribute is ahead. -/
theorem ClassFile.Pending.eq_of_nil {g c : ClassFile} (hp : ClassFile.Pending es [] g c) : g = c := by
  obtain ⟨hmajor, hminor, hflags, hname, hsuperclass, hinterfaces, hfields, hmethods, hsignature,
    henclosing, hinner, hannotations⟩ := hp
  have hsignature := hsignature.eq_of_nil
  have henclosing := henclosing.eq_of_nil
  have hinner := hinner.eq_of_nil
  have hannotations := hannotations.eq_of_nil
  cases c
  cases g
  simp_all

/-! ## 3. Classes -/

/-- A class is read back from its bytes. -/
theorem ClassFile.Written.takes {c : ClassFile} {l : List UInt8} (hc : c.Written l) :
    ClassFile.read.Takes l c := by
  obtain ⟨hminor, hmajor, hflags, hpool, hname, hsuperclass, hinterfaces, hfields, hmethods,
    hattributes, hsignature, hinner, henclosing, hannotations⟩ := hc
  obtain ⟨pool, htakes, h⟩ := hpool.takes
  obtain ⟨i, hi, rfl, hname'⟩ := h.exists_className hname
  obtain ⟨j, hj, rfl, hsuperclass'⟩ := h.exists_optionalClassName hsuperclass
  have hp : ClassFile.Pending _ _ ⟨c.major, c.minor, c.flags, c.name, c.superclass, c.interfaces,
      none, c.fields, c.methods, [], [], none⟩ c :=
    ⟨rfl, rfl, rfl, rfl, rfl, rfl, rfl, rfl, hsignature.sets, henclosing.sets, hinner.adds,
      hannotations.adds⟩
  have hlast := (h.takes_attributes hattributes).bind (f := fun as => StateT.lift
    (as.foldlM (ClassFile.withAttribute pool) ⟨c.major, c.minor, c.flags, c.name, c.superclass,
      c.interfaces, none, c.fields, c.methods, [], [], none⟩)) (takes_lift
      (Attribute.foldlM_eq_ok (ClassFile.Pending _ · · c) (fun _ hp => hp.eq_of_nil)
        (fun _ _ _ hp => hp.step h) hp))
  rw [List.append_nil] at hlast
  unfold ClassFile.read
  refine (takes_u4 (by decide)).bind ?_
  rw [if_pos rfl]
  refine (takes_u2 hminor).bind ((takes_u2 hmajor).bind (htakes.bind ?_))
  refine (takes_u2 hflags).bind ((takes_u2 hi).bind ((takes_look hname').bind_nil ?_))
  refine (takes_u2 hj).bind ((takes_look hsuperclass').bind_nil ?_)
  refine (hinterfaces.takes fun n l hn => h.takes_className hn).bind ?_
  refine (hfields.takes fun f l hf => hf.takes h).bind ?_
  exact (hmethods.takes fun m l hm => hm.takes h).bind hlast

/-- Parsing undoes writing. -/
theorem ClassFile.parse_of_written {c : ClassFile} {l : List UInt8} (hc : c.Written l) :
    ClassFile.parse l = .ok c := by
  rw [parse, hc.takes.run]
  rfl

/-! ## 4. A small class

Its pool has an entry of two indices and one that nothing points to, and an attribute
that is not known stands before the constant of its field. -/

namespace ClassFile.Small

def entries : List Constant := [
  .long 7, .utf8 "p/A", .classRef 3, .utf8 "F", .utf8 "Z", .integer 1, .utf8 "ConstantValue",
  .utf8 "Custom", .uninspected .moduleRef [0, 3]]

def poolBytes : List UInt8 := [
  0, 11,
  5, 0, 0, 0, 0, 0, 0, 0, 7,
  1, 0, 3, 112, 47, 65,
  7, 0, 3,
  1, 0, 1, 70,
  1, 0, 1, 90,
  3, 0, 0, 0, 1,
  1, 0, 13, 67, 111, 110, 115, 116, 97, 110, 116, 86, 97, 108, 117, 101,
  1, 0, 6, 67, 117, 115, 116, 111, 109,
  19, 0, 3]

def flag : FieldInfo := ⟨0x19, "F", "Z", none, some (.boolean true), []⟩

def fieldBytes : List UInt8 := [
  0, 0x19, 0, 5, 0, 6, 0, 2,
  0, 9, 0, 0, 0, 3, 1, 2, 3,
  0, 8, 0, 0, 0, 2, 0, 7]

def file : ClassFile := ⟨52, 0, 0x21, "p.A", none, [], none, [flag], [], [], [], none⟩

def bytes : List UInt8 :=
  [0xCA, 0xFE, 0xBA, 0xBE, 0, 0, 0, 52] ++ poolBytes ++ [0, 0x21, 0, 4, 0, 0, 0, 0, 0, 1]
    ++ fieldBytes ++ [0, 0, 0, 0]

theorem written_poolBytes : Pool.Written entries poolBytes := by
  have hchunks : List.Forall₂ Constant.Written entries _ :=
    .cons (.long (by decide) (by decide)) <| .cons (Constant.written_utf8 (by decide)) <|
    .cons (.classRef (by decide)) <| .cons (Constant.written_utf8 (by decide)) <|
    .cons (Constant.written_utf8 (by decide)) <| .cons (.integer (by decide) (by decide)) <|
    .cons (Constant.written_utf8 (by decide)) <| .cons (Constant.written_utf8 (by decide)) <|
    .cons (.uninspected (by decide) rfl) .nil
  exact ⟨by decide, _, hchunks, by decide⟩

theorem written_fieldBytes : FieldInfo.Written entries flag fieldBytes := by
  have hname : TextAt entries flag.name [0, 5] :=
    ⟨5, ⟨entries.take 3, entries.drop 4, rfl, rfl⟩, rfl⟩
  have hdescriptor : TextAt entries flag.descriptor [0, 6] :=
    ⟨6, ⟨entries.take 4, entries.drop 5, rfl, rfl⟩, rfl⟩
  have hcustom : Attribute.Written entries ⟨"Custom", [1, 2, 3]⟩ [0, 9, 0, 0, 0, 3, 1, 2, 3] :=
    ⟨[0, 9], ⟨9, ⟨entries.take 7, entries.drop 8, rfl, rfl⟩, rfl⟩, by decide, rfl⟩
  have hconstant : Attribute.Written entries ⟨"ConstantValue", [0, 7]⟩ [0, 8, 0, 0, 0, 2, 0, 7] :=
    ⟨[0, 8], ⟨8, ⟨entries.take 6, entries.drop 7, rfl, rfl⟩, rfl⟩, by decide, rfl⟩
  have hvalue : ConstantAt entries flag.descriptor (.boolean true) [0, 7] :=
    ConstantAt.boolean (i := 7) (n := 1) rfl ⟨entries.take 5, entries.drop 6, rfl, rfl⟩
  have hattributes : Counted (Attribute.Written entries)
      [⟨"Custom", [1, 2, 3]⟩, ⟨"ConstantValue", [0, 7]⟩] (fieldBytes.drop 6) :=
    ⟨by decide, _, .cons hcustom (.cons hconstant .nil), rfl⟩
  exact .intro (by decide) hname hdescriptor hattributes ⟨[0, 7], by simp, hvalue⟩
    (by simp [Attribute.Gives, flag]) ⟨[], .nil, rfl⟩

theorem written_bytes : file.Written bytes := by
  have hname : ClassAt entries file.name [0, 4] :=
    ⟨4, 3, "p/A", ⟨entries.take 2, entries.drop 3, rfl, rfl⟩,
      ⟨entries.take 1, entries.drop 2, rfl, rfl⟩, by decide, rfl⟩
  have hfields : Counted (FieldInfo.Written entries) file.fields ([0, 1] ++ fieldBytes) :=
    ⟨by decide, _, .cons written_fieldBytes .nil, by simp [file, bigEndian]⟩
  have hnone : Counted (Attribute.Written entries) [] [0, 0] := ⟨by decide, [], .nil, rfl⟩
  have hinterfaces : Counted (ClassAt entries) file.interfaces [0, 0] := ⟨by decide, [], .nil, rfl⟩
  have hmethods : Counted (MethodInfo.Written entries) file.methods [0, 0] :=
    ⟨by decide, [], .nil, rfl⟩
  have hsuperclass : OptionalAt (ClassAt entries) file.superclass [0, 0] := rfl
  exact .intro (by decide) (by decide) (by decide) written_poolBytes hname hsuperclass hinterfaces
    hfields hmethods hnone (by simp [Attribute.Gives, file]) ⟨[], .nil, rfl⟩
    (by simp [Attribute.Gives, file]) ⟨[], .nil, rfl⟩

end ClassFile.Small

/-- The small class is read back. -/
theorem ClassFile.parse_of_written_small :
    Small.file.Written Small.bytes ∧ parse Small.bytes = .ok Small.file :=
  ⟨Small.written_bytes, parse_of_written Small.written_bytes⟩

/-! ## 5. Texts that are none

A string constant of a program may hold a surrogate without a partner. It is written
like any other unit, but what is read is the replacement character. -/

namespace ClassFile.Small

/-- A class with a constant of the type of strings. -/
def fileOfText (t : Text) : ClassFile :=
  ⟨52, 0, 0x21, "A", none, [], none, [⟨0x19, "S", "Ljava/lang/String;", none, some (.text t), []⟩],
    [], [], [], none⟩

/-- The bytes of a pool entry that holds some units. -/
def entryOfUnits (us : List Nat) : List UInt8 :=
  bigEndian 1 Tag.utf8.code ++ bigEndian 2 (ModifiedUtf8.encode us).length ++ ModifiedUtf8.encode us

/-- The bytes of this class, with the units of the text in its pool. -/
def bytesOfText (t : Text) : List UInt8 :=
  [0xCA, 0xFE, 0xBA, 0xBE, 0, 0, 0, 52, 0, 8] ++ entryOfUnits (ModifiedUtf8.units "A") ++ [7, 0, 1]
    ++ entryOfUnits (ModifiedUtf8.units "S") ++ entryOfUnits (ModifiedUtf8.units "Ljava/lang/String;")
    ++ entryOfUnits (ModifiedUtf8.units "ConstantValue") ++ entryOfUnits (Text.units t) ++ [8, 0, 6]
    ++ [0, 0x21, 0, 2, 0, 0, 0, 0, 0, 1, 0, 0x19, 0, 3, 0, 4, 0, 1, 0, 5, 0, 0, 0, 2, 0, 7, 0, 0, 0, 0]

/-- A text of one surrogate. -/
def unpaired : Text := [⟨0xD800, by decide⟩]

/-- The entries of this class that are read if its text is one surrogate. -/
def mendedEntries : List Constant := [
  .utf8 "A", .classRef 1, .utf8 "S", .utf8 "Ljava/lang/String;", .utf8 "ConstantValue",
  .utf8 "\uFFFD", .string 6]

/-- The bytes of each of these entries. -/
def unpairedChunks : List (List UInt8) := [
  entryOfUnits (ModifiedUtf8.units "A"), [7, 0, 1], entryOfUnits (ModifiedUtf8.units "S"),
  entryOfUnits (ModifiedUtf8.units "Ljava/lang/String;"),
  entryOfUnits (ModifiedUtf8.units "ConstantValue"), entryOfUnits (Text.units unpaired), [8, 0, 6]]

/-- The bytes behind the pool. -/
def behindPool : List UInt8 := [
  0, 0x21, 0, 2, 0, 0, 0, 0,
  0, 1, 0, 0x19, 0, 3, 0, 4, 0, 1, 0, 5, 0, 0, 0, 2, 0, 7,
  0, 0, 0, 0]

theorem encoded_mendedEntries : List.Forall₂ Constant.Encoded mendedEntries unpairedChunks := by
  have hmended : ModifiedUtf8.decode? (ModifiedUtf8.encode (Text.units unpaired)) =
      some "\uFFFD" := by decide
  exact .cons (.written (Constant.written_utf8 (by decide))) <|
    .cons (.written (.classRef (by decide))) <|
    .cons (.written (Constant.written_utf8 (by decide))) <|
    .cons (.written (Constant.written_utf8 (by decide))) <|
    .cons (.written (Constant.written_utf8 (by decide))) <| .cons (.utf8 hmended (by decide)) <|
    .cons (.written (.string (by decide))) .nil

-- The end is evaluated, and that compares long names character by character.
set_option maxRecDepth 2000 in
theorem parse_bytesOfText_unpaired :
    parse (bytesOfText unpaired) = .ok (fileOfText (Text.ofString "\uFFFD")) := by
  have hpool : Pool.read.Takes (bigEndian 2 8 ++ unpairedChunks.flatten) _ :=
    Pool.takes_encoded encoded_mendedEntries (by decide) (fun _ _ => Pool.Holds.lt) (by decide)
  have hbytes : bytesOfText unpaired = bigEndian 4 magic ++ (bigEndian 2 0 ++ (bigEndian 2 52 ++
      ((bigEndian 2 8 ++ unpairedChunks.flatten) ++ behindPool))) := by decide
  have hread : ClassFile.read (bytesOfText unpaired) =
      .ok (fileOfText (Text.ofString "\uFFFD"), []) := by
    rw [hbytes, ClassFile.read, (takes_u4 (by decide)).bind_append, if_pos rfl]
    refine ((takes_u2 (n := 0) (by decide)).bind_append _ _).trans ?_
    refine ((takes_u2 (n := 52) (by decide)).bind_append _ _).trans ?_
    refine (hpool.bind_append _ _).trans ?_
    rfl
  rw [parse, StateT.run, hread]
  rfl

end ClassFile.Small

/-- A class with an unpaired surrogate in a string constant is not read back. -/
theorem ClassFile.parse_unpaired_surrogate :
    parse (Small.bytesOfText Small.unpaired) = .ok (Small.fileOfText (Text.ofString "\uFFFD")) ∧
      parse (Small.bytesOfText Small.unpaired) ≠ .ok (Small.fileOfText Small.unpaired) := by
  have hparse := Small.parse_bytesOfText_unpaired
  refine ⟨hparse, fun h => ?_⟩
  rw [hparse] at h
  have hconstant := congrArg (fun c : Except ClassFault ClassFile =>
    c.toOption.map fun c => c.fields.map (·.constant)) h
  simp [Small.fileOfText, Small.unpaired, Text.ofString, CodePoint.ofChar, Except.toOption] at hconstant

end ApiSurface
