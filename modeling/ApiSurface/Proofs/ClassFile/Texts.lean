/-
ApiSurface.Proofs.ClassFile.Texts — where the texts of a class come from.

Whatever bytes a class is read from, each text of its pool is the decoded one of an entry
that stands in these bytes (`Pool.read_ensures`). Names, descriptors, signatures and the
types of annotations are texts of the pool, and so is written in the alphabet of the bytes
what the class declares (`ClassFile.parse_writtenIn`). That is the converse of reading back
what was written: the bytes are not known to be written by anybody.

Statements about readers are triples. The condition in front is about the bytes ahead, the
one behind about what was read and the bytes that are left; a reader that fails satisfies
any. Where only what was read matters, `Yields` says so.
-/
import ApiSurface.Proofs.ClassFile.CodePoints
import ApiSurface.Proofs.ClassFile.Takes
import ApiSurface.Proofs.Outcome
import Mathlib.Data.List.Induction

namespace ApiSurface

open Alphabet Reader

/-! ## 1. Triples -/

namespace Reader

variable {α β : Type}

/-- If `pre` holds of the bytes ahead of a reader that succeeds, `post` holds of what it gives
and of the bytes behind it. -/
def Ensures (pre : List UInt8 → Prop) (r : Reader α) (post : α → List UInt8 → Prop) : Prop :=
  ∀ l a rest, pre l → r l = .ok (a, rest) → post a rest

/-- What a reader gives, whatever lies ahead of it. -/
def Yields (r : Reader α) (P : α → Prop) : Prop := r.Ensures (fun _ => True) fun a _ => P a

theorem ensures_pure {a : α} {post : α → List UInt8 → Prop} :
    (pure a : Reader α).Ensures (post a) post := by
  intro l a' rest hpre h
  cases h
  exact hpre

theorem ensures_fail {pre : List UInt8 → Prop} {post : α → List UInt8 → Prop} (why : Malformed) :
    (fail why : Reader α).Ensures pre post := by
  intro l a rest _ h
  cases h

/-- Readers in a row. -/
theorem Ensures.bind {pre : List UInt8 → Prop} {r : Reader α} {mid : α → List UInt8 → Prop}
    {f : α → Reader β} {post : β → List UInt8 → Prop} (hr : r.Ensures pre mid)
    (hf : ∀ a, (f a).Ensures (mid a) post) : (r >>= f).Ensures pre post := by
  intro l b rest hpre h
  obtain ⟨⟨a, l'⟩, ha, hb⟩ := bind_eq_ok.mp h
  exact hf a l' b rest (hr l a l' hpre ha) hb

theorem Ensures.mono {pre pre' : List UInt8 → Prop} {r : Reader α}
    {post post' : α → List UInt8 → Prop} (h : r.Ensures pre post) (hpre : ∀ l, pre' l → pre l)
    (hpost : ∀ a rest, post a rest → post' a rest) : r.Ensures pre' post' :=
  fun l a rest hl hr => hpost a rest (h l a rest (hpre l hl) hr)

/-- The bytes that are taken stood in front of those that are left. -/
theorem ensures_bytes {pre : List UInt8 → Prop} (n : Nat) :
    (bytes n).Ensures pre fun front rest => front.length = n ∧ pre (front ++ rest) := by
  intro l front rest hpre h
  unfold bytes at h
  split_ifs at h with hn
  cases h
  rw [List.take_append_drop]
  exact ⟨List.length_take_of_le (hasAtLeast_iff.mp hn), hpre⟩

/-- Bytes are those of the number that they spell. -/
theorem bigEndian_ofBigEndian (l : List UInt8) : bigEndian l.length (ofBigEndian l) = l := by
  induction l using List.reverseRecOn with
  | nil => rfl
  | append_singleton l b ih =>
    have hdiv : (ofBigEndian l * 256 + b.toNat) / 256 = ofBigEndian l := by
      have hb := b.toNat_lt
      omega
    have hlast : UInt8.ofNat (ofBigEndian l * 256 + b.toNat) = b := by
      rw [← UInt8.toNat_inj, UInt8.toNat_ofNat']
      have hb := b.toNat_lt
      omega
    rw [List.length_append, List.length_singleton, bigEndian, ofBigEndian_append, hdiv, ih, hlast]

theorem ofBigEndian_lt (l : List UInt8) : ofBigEndian l < 256 ^ l.length := by
  induction l using List.reverseRecOn with
  | nil => decide
  | append_singleton l b ih =>
    have hb := b.toNat_lt
    rw [ofBigEndian_append, List.length_append, List.length_singleton, Nat.pow_succ]
    omega

/-- A number that is read fits in the bytes it was read from, which are its own. -/
theorem ensures_number_lt {pre : List UInt8 → Prop} (n : Nat) :
    (number n).Ensures pre fun k rest => k < 256 ^ n ∧ pre (bigEndian n k ++ rest) := by
  refine (ensures_bytes n).bind fun front => ?_
  refine ensures_pure.mono (fun rest h => ?_) fun _ _ => id
  obtain ⟨rfl, hpre⟩ := h
  rw [bigEndian_ofBigEndian]
  exact ⟨ofBigEndian_lt front, hpre⟩

theorem ensures_number {pre : List UInt8 → Prop} (n : Nat) :
    (number n).Ensures pre fun k rest => pre (bigEndian n k ++ rest) :=
  (ensures_number_lt n).mono (fun _ => id) fun _ _ => And.right

/-- What is left is the end of what was there. -/
theorem ensures_suffix {all : List UInt8} (n : Nat) :
    (number n).Ensures (· <:+ all) fun _ rest => rest <:+ all :=
  (ensures_number n).mono (fun _ => id) fun k rest h =>
    (List.suffix_append (bigEndian n k) rest).trans h

/-! ### What is read -/

theorem yields_any (r : Reader α) : r.Yields fun _ => True := fun _ _ _ _ _ => trivial

theorem yields_pure {a : α} {P : α → Prop} (h : P a) : (pure a : Reader α).Yields P :=
  ensures_pure.mono (fun _ _ => h) fun _ _ => id

theorem Ensures.of_yields {p : Prop} {r : Reader α} {P : α → Prop} (h : p → r.Yields P) :
    r.Ensures (fun _ => p) fun a _ => P a :=
  fun l a rest hp hr => h hp l a rest trivial hr

theorem Yields.bind {r : Reader α} {f : α → Reader β} {P : α → Prop} {Q : β → Prop}
    (hr : r.Yields P) (hf : ∀ a, P a → (f a).Yields Q) : (r >>= f).Yields Q :=
  Ensures.bind hr fun a => .of_yields (hf a)

theorem yields_look {e : Except Malformed α} {P : α → Prop} (h : ∀ a, e = .ok a → P a) :
    (look e).Yields P := by
  cases e with
  | error why => exact ensures_fail why
  | ok a => exact yields_pure (h a rfl)

theorem yields_lift {e : Except ClassFault α} {P : α → Prop} (h : ∀ a, e = .ok a → P a) :
    Yields (StateT.lift e) P := by
  intro l a rest _ hl
  obtain ⟨a', ha', hpure⟩ := bind_eq_ok.mp hl
  cases hpure
  exact h a ha'

theorem yields_many {one : Reader α} {P : α → Prop} (h : one.Yields P) (n : Nat) :
    (many n one).Yields fun items => ∀ a ∈ items, P a := by
  induction n with
  | zero => exact yields_pure nofun
  | succ n ih =>
    refine h.bind fun a ha => ih.bind fun rest hrest => yields_pure ?_
    exact List.forall_mem_cons.mpr ⟨ha, hrest⟩

theorem yields_counted {one : Reader α} {P : α → Prop} (h : one.Yields P) :
    (counted one).Yields fun items => ∀ a ∈ items, P a :=
  (yields_any u2).bind fun n _ => yields_many h n

end Reader

theorem Attribute.get_yields {α : Type} {a : Attribute} {read : Reader α} {P : α → Prop} {x : α}
    (hr : read.Yields P) (h : a.get read = .ok x) : P x := by
  obtain ⟨⟨x, rest⟩, hread, rfl⟩ := map_eq_ok.mp h
  exact hr a.body x rest trivial hread

/-! ## 2. The pool -/

/-- The bytes of a text entry: its tag, the count of the bytes of the text, and these. -/
def Constant.textEntry (spelled : List UInt8) : List UInt8 :=
  bigEndian 1 Tag.utf8.code ++ (bigEndian 2 spelled.length ++ spelled)

/-- A text is the decoded one of a text entry that stands in some bytes. -/
def ClassFile.SpellsText (all : List UInt8) (s : String) : Prop :=
  ∃ spelled, Constant.textEntry spelled <:+: all ∧ ModifiedUtf8.decode? spelled = some s

theorem Tag.code_of_ofCode? {n : Nat} {tag : Tag} (h : ofCode? n = some tag) : tag.code = n := by
  simpa using List.find?_some h

theorem Reader.ensures_utf8Text {pre : List UInt8 → Prop} (n : Nat) :
    (utf8Text n).Ensures pre fun s rest => ∃ spelled, spelled.length = n ∧
      ModifiedUtf8.decode? spelled = some s ∧ pre (spelled ++ rest) := by
  refine (ensures_bytes n).bind fun spelled => ?_
  split
  · next s hs => exact ensures_pure.mono (fun rest h => ⟨spelled, h.1, hs, h.2⟩) fun _ _ => id
  · exact ensures_fail _

/-- A text of the pool is decoded from the bytes behind its tag and its count. -/
theorem Constant.read_ensures {all : List UInt8} (index : Nat) :
    (Constant.read index).Ensures (· <:+ all) fun c rest =>
      rest <:+ all ∧ ∀ s, c = .utf8 s → ClassFile.SpellsText all s := by
  refine (ensures_number 1).bind fun code => ?_
  have hskip : ∀ {α : Type} {r : Reader α} {post : α → List UInt8 → Prop},
      r.Ensures (· <:+ all) post → r.Ensures (fun l => bigEndian 1 code ++ l <:+ all) post :=
    fun h => h.mono (fun l hl => (List.suffix_append _ _).trans hl) fun _ _ => id
  have hother : ∀ {c : Constant}, c.tag ≠ .utf8 → (pure c : Reader Constant).Ensures (· <:+ all)
      fun c rest => rest <:+ all ∧ ∀ s, c = .utf8 s → ClassFile.SpellsText all s := by
    intro c hc
    refine ensures_pure.mono (fun rest hrest => ⟨hrest, ?_⟩) fun _ _ => id
    rintro s rfl
    exact absurd rfl hc
  split
  · exact ensures_fail _
  · next htag =>
    refine (ensures_number 2).bind fun size => (ensures_utf8Text size).bind fun s => ?_
    refine ensures_pure.mono (fun rest h => ?_) fun _ _ => id
    obtain ⟨spelled, rfl, hs, hsuffix⟩ := h
    rw [← Tag.code_of_ofCode? htag, ← List.append_assoc, ← List.append_assoc] at hsuffix
    refine ⟨(List.suffix_append _ _).trans hsuffix, fun s' heq => ?_⟩
    cases heq
    refine ⟨spelled, ?_, hs⟩
    rw [textEntry, ← List.append_assoc]
    exact (List.prefix_append _ _).isInfix.trans hsuffix.isInfix
  · exact hskip ((ensures_suffix 4).bind fun n => hother nofun)
  · exact hskip ((ensures_suffix 4).bind fun n => hother nofun)
  · exact hskip ((ensures_suffix 8).bind fun n => hother nofun)
  · exact hskip ((ensures_suffix 8).bind fun n => hother nofun)
  · exact hskip ((ensures_suffix 2).bind fun n => hother nofun)
  · exact hskip ((ensures_suffix 2).bind fun n => hother nofun)
  · exact hskip ((ensures_suffix 2).bind fun n => (ensures_suffix 2).bind fun m => hother nofun)
  · next tag hutf8 _ _ _ _ _ _ _ _ =>
    refine hskip ((ensures_bytes tag.payloadSize).bind fun payload => ?_)
    refine (hother (c := .uninspected tag payload) hutf8).mono (fun rest h => ?_) fun _ _ => id
    exact (List.suffix_append _ _).trans h.2

namespace Pool

/-- Entries put behind the slots of others add their texts. -/
theorem readFrom_ensures {all : List UInt8} (count index : Nat) (slots : Array (Option Constant))
    (hslots : ∀ s, some (.utf8 s) ∈ slots.toList → ClassFile.SpellsText all s) :
    (readFrom count index slots).Ensures (· <:+ all) fun slots' _ =>
      ∀ s, some (.utf8 s) ∈ slots'.toList → ClassFile.SpellsText all s := by
  have hmore : ∀ {slots : Array (Option Constant)} {c : Constant},
      (∀ s, some (.utf8 s) ∈ slots.toList → ClassFile.SpellsText all s) →
        (∀ s, c = .utf8 s → ClassFile.SpellsText all s) →
          ∀ s, some (.utf8 s) ∈ (slots ++ slotsOf c).toList → ClassFile.SpellsText all s := by
    intro slots c hslots hc s hs
    rw [Array.toList_append, List.mem_append] at hs
    rcases hs with hs | hs
    · exact hslots s hs
    · refine hc s ?_
      unfold slotsOf at hs
      split_ifs at hs <;> simpa [eq_comm] using hs
  fun_induction readFrom count index slots with
  | case1 index slots hlt ih2 ih1 =>
    refine (Constant.read_ensures index).bind fun c l slots' rest hl h => ?_
    have hslots' := hmore hslots hl.2
    split_ifs at h
    · exact ih2 c hslots' l slots' rest hl.1 h
    · exact ih1 c hslots' l slots' rest hl.1 h
  | case2 => exact ensures_pure.mono (fun _ _ => hslots) fun _ _ => id

/-- A pool is written in an alphabet if all its texts are. -/
def WrittenIn (A : Alphabet) (pool : Pool) : Prop :=
  ∀ s, some (.utf8 s) ∈ pool.slots.toList → A.Writes s

/-- The texts of a pool are spelled by the bytes that the pool is read from. -/
theorem read_ensures {all : List UInt8} {A : Alphabet}
    (hA : ∀ s, ClassFile.SpellsText all s → A.Writes s) :
    Pool.read.Ensures (· <:+ all) fun pool _ => pool.WrittenIn A := by
  refine (ensures_suffix 2).bind fun count => ?_
  refine (readFrom_ensures count 1 #[none] (by simp)).bind fun slots => ?_
  exact ensures_pure.mono (fun _ h s hs => hA s (h s hs)) fun _ _ => id

end Pool

variable {A : Alphabet}

/-! ## 3. Names -/

theorem writes_binaryName {internal : String} (h : A.Writes internal) :
    A.Writes (binaryName internal) := writes_ofList.mpr (spells_dots h)

theorem writes_binaryNameOfDescriptor {descriptor : String} (h : A.Writes descriptor) :
    A.Writes (binaryNameOfDescriptor descriptor) := by
  unfold binaryNameOfDescriptor
  split
  · next rest heq =>
    split_ifs
    · refine writes_binaryName (writes_ofList.mpr ?_)
      refine Spells.subset h fun c hc => ?_
      rw [heq]
      exact List.mem_cons_of_mem _ ((List.dropLast_sublist rest).subset hc)
    · exact writes_binaryName h
  · exact writes_binaryName h

namespace Pool.WrittenIn

variable {pool : Pool} (h : pool.WrittenIn A)
include h

theorem utf8 {i : Nat} {s : String} (hs : pool.utf8 i = .ok s) : A.Writes s := by
  obtain ⟨c, hc, hs⟩ := bind_eq_ok.mp hs
  split at hs
  · cases hs
    refine h s ?_
    have hslot := Option.join_eq_some_iff.mp (Pool.entry?_of_entry hc)
    exact Array.mem_toList_iff.mpr (Array.mem_of_getElem? hslot)
  · cases hs

theorem className {i : Nat} {name : String} (hn : pool.className i = .ok name) : A.Writes name := by
  obtain ⟨c, -, hn⟩ := bind_eq_ok.mp hn
  split at hn
  · obtain ⟨internal, hinternal, hn⟩ := bind_eq_ok.mp hn
    cases hn
    exact writes_binaryName (h.utf8 hinternal)
  · cases hn

theorem optionalClassName {i : Nat} {name? : Option String}
    (hn : pool.optionalClassName i = .ok name?) : ∀ name ∈ name?, A.Writes name := by
  unfold Pool.optionalClassName at hn
  split_ifs at hn
  · cases hn
    exact nofun
  · obtain ⟨name, hname, rfl⟩ := map_eq_ok.mp hn
    rintro _ ⟨⟩
    exact h.className hname

theorem yields_name : (Reader.name pool).Yields A.Writes :=
  (yields_any u2).bind fun _ _ => yields_look fun _ => h.utf8

theorem yields_typeName : (Reader.typeName pool).Yields A.Writes :=
  h.yields_name.bind fun _ hs => yields_pure (writes_binaryNameOfDescriptor hs)

theorem yields_className {i : Nat} : (look (pool.className i)).Yields A.Writes :=
  yields_look fun _ => h.className

/-- The type of an annotation is a name; its element values may be anything. -/
theorem yields_annotations {isVisible : Bool} :
    (readAnnotations pool isVisible).Yields fun as => ∀ a ∈ as, A.Writes a.type :=
  yields_counted (h.yields_typeName.bind fun _ htype =>
    (yields_any _).bind fun _ _ => yields_pure htype)

end Pool.WrittenIn

/-! ## 4. Members -/

/-- The texts of a member that its declaration shows are written in an alphabet. -/
structure Alphabet.WritesMember (A : Alphabet) (name descriptor : String)
    (signature : Option String) (annotations : List String) : Prop where
  name : A.Writes name
  descriptor : A.Writes descriptor
  signature : ∀ s ∈ signature, A.Writes s
  annotations : ∀ n ∈ annotations, A.Writes n

namespace Alphabet.WritesMember

variable {name descriptor : String} {signature : Option String} {annotations : List String}

theorem setSignature (h : A.WritesMember name descriptor signature annotations) {s : String}
    (hs : A.Writes s) : A.WritesMember name descriptor (some s) annotations where
  name := h.name
  descriptor := h.descriptor
  signature := by
    rintro _ ⟨⟩
    exact hs
  annotations := h.annotations

theorem addAnnotations {as more : List Annotation}
    (h : A.WritesMember name descriptor signature (as.map (·.type)))
    (hmore : ∀ a ∈ more, A.Writes a.type) :
    A.WritesMember name descriptor signature ((as ++ more).map (·.type)) where
  name := h.name
  descriptor := h.descriptor
  signature := h.signature
  annotations := by
    rw [List.map_append, List.forall_mem_append]
    exact ⟨h.annotations, List.forall_mem_map.mpr hmore⟩

end Alphabet.WritesMember

/-- A field is written in an alphabet. -/
def FieldInfo.WrittenIn (A : Alphabet) (f : FieldInfo) : Prop :=
  A.WritesMember f.name f.descriptor f.signature (f.annotations.map (·.type))

/-- A method is written in an alphabet. -/
def MethodInfo.WrittenIn (A : Alphabet) (m : MethodInfo) : Prop :=
  A.WritesMember m.name m.descriptor m.signature (m.annotations.map (·.type))

/-- A member starts with its flags, its name and its descriptor, and its attributes change it one
after the other. What holds at the start, and is kept by every attribute, holds of the member. -/
theorem Pool.WrittenIn.yields_member {pool : Pool} (h : pool.WrittenIn A) {α : Type} {P : α → Prop}
    {start : Nat → String → String → α} {step : α → Attribute → Except ClassFault α}
    (hstart : ∀ flags name descriptor, A.Writes name → A.Writes descriptor →
      P (start flags name descriptor))
    (hstep : ∀ m a m', P m → step m a = .ok m' → P m') :
    Yields (do
      let flags ← u2
      let name ← Reader.name pool
      let descriptor ← Reader.name pool
      let attributes ← Attribute.takeAll pool
      StateT.lift (attributes.foldlM step (start flags name descriptor))) P := by
  refine (yields_any u2).bind fun flags _ => h.yields_name.bind fun name hname => ?_
  refine h.yields_name.bind fun descriptor hdescriptor => (yields_any _).bind fun as _ => ?_
  exact yields_lift fun _ => foldlM_preserves hstep (hstart flags name descriptor hname hdescriptor)

/-- What an attribute adds to a field is written in the alphabet of the pool. -/
theorem FieldInfo.WrittenIn.withAttribute {pool : Pool} (h : pool.WrittenIn A) {f f' : FieldInfo}
    {a : Attribute} (hf : f.WrittenIn A) (hstep : f.withAttribute pool a = .ok f') :
    f'.WrittenIn A := by
  unfold FieldInfo.withAttribute at hstep
  split_ifs at hstep
  · obtain ⟨v, -, hstep⟩ := bind_eq_ok.mp hstep
    cases hstep
    exact hf
  · obtain ⟨s, hs, hstep⟩ := bind_eq_ok.mp hstep
    cases hstep
    exact hf.setSignature (Attribute.get_yields h.yields_name hs)
  · split at hstep
    · obtain ⟨more, hmore, hstep⟩ := bind_eq_ok.mp hstep
      cases hstep
      exact hf.addAnnotations (Attribute.get_yields h.yields_annotations hmore)
    · cases hstep
      exact hf

/-- What an attribute adds to a method is written in the alphabet of the pool. -/
theorem MethodInfo.WrittenIn.withAttribute {pool : Pool} (h : pool.WrittenIn A)
    {m m' : MethodInfo} {a : Attribute} (hm : m.WrittenIn A)
    (hstep : m.withAttribute pool a = .ok m') : m'.WrittenIn A := by
  unfold MethodInfo.withAttribute at hstep
  split_ifs at hstep
  · obtain ⟨s, hs, hstep⟩ := bind_eq_ok.mp hstep
    cases hstep
    exact hm.setSignature (Attribute.get_yields h.yields_name hs)
  · obtain ⟨v, -, hstep⟩ := bind_eq_ok.mp hstep
    cases hstep
    exact hm
  · split at hstep
    · obtain ⟨more, hmore, hstep⟩ := bind_eq_ok.mp hstep
      cases hstep
      exact hm.addAnnotations (Attribute.get_yields h.yields_annotations hmore)
    · cases hstep
      exact hm

/-- A member that has no attributes yet is written in the alphabet of its name and descriptor. -/
theorem Alphabet.writesMember_bare {name descriptor : String} (hname : A.Writes name)
    (hdescriptor : A.Writes descriptor) : A.WritesMember name descriptor none [] :=
  ⟨hname, hdescriptor, by simp, by simp⟩

/-- A field is written in the alphabet of the pool. -/
theorem FieldInfo.read_yields {pool : Pool} (h : pool.WrittenIn A) :
    (FieldInfo.read pool).Yields (WrittenIn A) :=
  h.yields_member (fun _ _ _ => writesMember_bare) fun _ _ _ => .withAttribute h

/-- A method is written in the alphabet of the pool. -/
theorem MethodInfo.read_yields {pool : Pool} (h : pool.WrittenIn A) :
    (MethodInfo.read pool).Yields (WrittenIn A) :=
  h.yields_member (fun _ _ _ => writesMember_bare) fun _ _ _ => .withAttribute h

/-! ## 5. Classes -/

/-- What a class declares is written in an alphabet, as far as its declaration shows it. -/
structure ClassFile.WrittenIn (A : Alphabet) (c : ClassFile) : Prop where
  name : A.Writes c.name
  superclass : ∀ n ∈ c.superclass, A.Writes n
  interfaces : ∀ n ∈ c.interfaces, A.Writes n
  fields : ∀ f ∈ c.fields, f.WrittenIn A
  methods : ∀ m ∈ c.methods, m.WrittenIn A
  annotations : ∀ a ∈ c.annotations, A.Writes a.type

namespace ClassFile

/-- What an attribute adds to a class is written in the alphabet of the pool. -/
theorem WrittenIn.withAttribute {pool : Pool} (h : pool.WrittenIn A) {c c' : ClassFile}
    {a : Attribute} (hc : c.WrittenIn A) (hstep : c.withAttribute pool a = .ok c') :
    c'.WrittenIn A := by
  unfold ClassFile.withAttribute at hstep
  split_ifs at hstep
  · obtain ⟨s, -, hstep⟩ := bind_eq_ok.mp hstep
    cases hstep
    exact ⟨hc.name, hc.superclass, hc.interfaces, hc.fields, hc.methods, hc.annotations⟩
  · obtain ⟨inner, -, hstep⟩ := bind_eq_ok.mp hstep
    cases hstep
    exact ⟨hc.name, hc.superclass, hc.interfaces, hc.fields, hc.methods, hc.annotations⟩
  · obtain ⟨enclosing, -, hstep⟩ := bind_eq_ok.mp hstep
    cases hstep
    exact ⟨hc.name, hc.superclass, hc.interfaces, hc.fields, hc.methods, hc.annotations⟩
  · split at hstep
    · obtain ⟨more, hmore, hstep⟩ := bind_eq_ok.mp hstep
      cases hstep
      exact ⟨hc.name, hc.superclass, hc.interfaces, hc.fields, hc.methods,
        List.forall_mem_append.mpr
          ⟨hc.annotations, Attribute.get_yields h.yields_annotations hmore⟩⟩
    · cases hstep
      exact hc

/-- A class that is read from bytes is written in every alphabet that has the texts which the
bytes spell. -/
theorem read_ensures {all : List UInt8} (hA : ∀ s, SpellsText all s → A.Writes s) :
    ClassFile.read.Ensures (· <:+ all) fun c _ => c.WrittenIn A := by
  unfold ClassFile.read
  refine (ensures_suffix 4).bind fun magic => ?_
  split_ifs
  · refine (ensures_suffix 2).bind fun minor => (ensures_suffix 2).bind fun major => ?_
    refine (Pool.read_ensures hA).bind fun pool => .of_yields fun h => ?_
    refine (yields_any u2).bind fun flags _ => (yields_any u2).bind fun _ _ => ?_
    refine h.yields_className.bind fun name hname => (yields_any u2).bind fun _ _ => ?_
    refine (yields_look fun _ => h.optionalClassName).bind fun superclass hsuperclass => ?_
    refine (yields_counted ((yields_any u2).bind fun _ _ => h.yields_className)).bind
      fun interfaces hinterfaces => ?_
    refine (yields_counted (FieldInfo.read_yields h)).bind fun fields hfields => ?_
    refine (yields_counted (MethodInfo.read_yields h)).bind fun methods hmethods => ?_
    refine (yields_any _).bind fun as _ => yields_lift fun c hc => ?_
    exact foldlM_preserves (fun _ _ _ => .withAttribute h)
      ⟨hname, hsuperclass, hinterfaces, hfields, hmethods, by simp⟩ hc
  · intro l c rest _ h
    cases h

theorem parse_writtenIn {bytes : List UInt8} {c : ClassFile} (hc : parse bytes = .ok c)
    (hA : ∀ s, SpellsText bytes s → A.Writes s) : c.WrittenIn A := by
  obtain ⟨⟨c, rest⟩, hread, rfl⟩ := map_eq_ok.mp hc
  exact read_ensures hA bytes c rest (List.suffix_refl bytes) hread

/-! ## 6. Code points -/

/-- A code point is one of those that a text entry in some bytes spells. -/
def SpellsPoint (all : List UInt8) (n : Nat) : Prop :=
  ∃ spelled ns, Constant.textEntry spelled <:+: all ∧ ModifiedUtf8.numbers? spelled = some ns ∧
    n ∈ ns

/-- A text that bytes spell has code points that they spell. -/
theorem SpellsText.spellsPoint {all : List UInt8} {s : String} (h : SpellsText all s) {c : Char}
    (hc : c ∈ s.toList) : SpellsPoint all c.toNat := by
  obtain ⟨spelled, hentry, hs⟩ := h
  exact ⟨spelled, _, hentry, ModifiedUtf8.numbers?_of_decode? hs, List.mem_map_of_mem hc⟩

/-- No text entry spells a surrogate. -/
theorem SpellsPoint.not_surrogate {all : List UInt8} {n : Nat} (h : SpellsPoint all n) :
    ¬ ModifiedUtf8.isSurrogate n := by
  obtain ⟨spelled, ns, -, hns, hn⟩ := h
  obtain ⟨ps, -, rfl⟩ := Option.map_eq_some_iff.mp hns
  exact ModifiedUtf8.not_surrogate_of_mem_mended hn

end ClassFile

end ApiSurface
