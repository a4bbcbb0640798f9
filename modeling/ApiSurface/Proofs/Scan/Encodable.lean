/-
ApiSurface.Proofs.Scan.Encodable — every text that a scan renders can be written.

A class file may hold surrogates: halves of pairs in its texts, and numbers of this range
in its character constants. None gets into the text of a scan. Every code point of the
text is a line feed, or printable, or one that a text entry of a class file spells
(`render_encodable`), and of these three none is a surrogate. So the text has bytes, and
writing it never fails for want of them.

A character of the text thus is never one that took the place of a number without a
character: the entry that it comes from spells the number of this very character.
-/
import ApiSurface.Proofs.ClassFile.RoundTrip
import ApiSurface.Proofs.Scan.FolderTargets
import ApiSurface.Proofs.Scan.PublicInterface
import ApiSurface.Proofs.Snapshot.Written
import ApiSurface.Proofs.Visibility.Agreement

namespace ApiSurface

open Alphabet

/-! ## 1. Texts without surrogates -/

namespace Text

theorem isSurrogate_eq_false_iff {p : CodePoint} :
    p.isSurrogate = false ↔ ¬ ModifiedUtf8.isSurrogate p.val := by
  rw [CodePoint.isSurrogate, ModifiedUtf8.isSurrogate, ← Bool.decide_and, decide_eq_false_iff_not]

/-- A printable code point is no surrogate. -/
theorem not_surrogate_of_isPrintable {n : Nat} (h : isPrintable n = true) :
    ¬ ModifiedUtf8.isSurrogate n := by
  have hvalid := isValidChar_of_isPrintable h
  unfold Nat.isValidChar at hvalid
  unfold ModifiedUtf8.isSurrogate
  omega

theorem toChar?_ofChar (c : Char) : (CodePoint.ofChar c).toChar? = some c := by
  have hvalid : (CodePoint.ofChar c).val.isValidChar := c.valid
  rw [CodePoint.toChar?, if_pos hvalid]
  exact congrArg some (Char.ofNat_toNat c)

/-- A string is the one with its code points. -/
theorem toString?_ofString (s : String) : (ofString s).toString? = some s := by
  have hlist : ∀ l : List Char, (l.map CodePoint.ofChar).mapM CodePoint.toChar? = some l := by
    intro l
    induction l with
    | nil => rfl
    | cons c l ih =>
      rw [List.map_cons, List.mapM_cons, toChar?_ofChar, ih]
      rfl
  rw [toString?, ofString, hlist, Option.map_some, String.ofList_toList]

end Text

/-! ## 2. Class files behind a handle -/

namespace Handle

variable {d : Disk} {home : Place} {h : Handle}

/-- A code point is spelled by a class file that is found behind a handle. -/
def SpellsPoint (d : Disk) (home : Place) (h : Handle) (n : Nat) : Prop :=
  ∃ name bytes scope, h.find d home name = .ok (some (bytes, scope)) ∧
    ClassFile.SpellsPoint bytes n

/-- The characters that are printable, or spelled by a class file behind a handle. -/
def alphabet (d : Disk) (home : Place) (h : Handle) : Alphabet where
  has c := Text.isPrintable c.toNat = true ∨ h.SpellsPoint d home c.toNat
  has_of_isPrintable := .inl

/-- A class that is found behind a handle is written in the alphabet of the handle. -/
theorem writtenIn_lookUp {name : String} {loaded : Loaded}
    (hl : h.lookUp d home name = .ok (some loaded)) :
    loaded.file.WrittenIn (h.alphabet d home) := by
  unfold lookUp at hl
  split at hl
  · cases hl
  · cases hl
  · next bytes scope hfind =>
    obtain ⟨found, hparsed, heq⟩ := map_eq_ok.mp hl
    cases heq
    unfold parsed at hparsed
    split at hparsed
    · next file hfile =>
      cases hparsed
      refine ClassFile.parse_writtenIn hfile fun s hs c hc => .inr ?_
      exact ⟨name, bytes, scope, hfind, hs.spellsPoint hc⟩
    · cases hparsed
    · cases hparsed

/-- No class file spells a surrogate. -/
theorem SpellsPoint.not_surrogate {n : Nat} (hn : h.SpellsPoint d home n) :
    ¬ ModifiedUtf8.isSurrogate n := by
  obtain ⟨_, _, _, -, hspells⟩ := hn
  exact hspells.not_surrogate

end Handle

/-! ## 3. Records of a universe -/

namespace Universe.Traces

variable {t : ClassTable} {x : Exclusion} {u : Universe} {A : Alphabet}

/-- Where all classes are written in an alphabet, so are the records of a universe: they are
those of classes, and placeholders with names that classes refer to. -/
theorem writtenIn_record? (ht : t.Coherent) (h : u.Traces t x [] [])
    (hfiles : ∀ name c, t.file? name = some c → c.WrittenIn A) {name : String} {r : ClassRecord}
    (hr : u.record? name = some r) : r.WrittenIn A := by
  rcases h.record?_cases ht hr with ⟨isExternal, c, hc, rfl⟩ | ⟨role, start, -, -, hrefers, rfl⟩
  · exact (hfiles name c hc).record isExternal
  · obtain ⟨c, hc, hto⟩ := hrefers
    exact ClassRecord.writtenIn_placeholder ((hfiles start c hc).refersTo hto) role

end Universe.Traces

/-- A class shows annotations whose names are written in the alphabet of the records. -/
theorem View.writes_classAnnotations {v : View} {A : Alphabet}
    (hknown : ∀ name r, v.known.record? name = some r → r.WrittenIn A) {r : ClassRecord}
    (hr : r.WrittenIn A) : ∀ n ∈ (v.classAnnotations r).visible, A.Writes n := by
  have hagree : AgreeOn A.Writes v v :=
    { markers := rfl, excludedMethods := rfl, records := fun _ _ => rfl
      closed := fun name r _ hl => (hknown name r hl).references
      internal := fun _ _ => .rfl, shows := fun _ _ => rfl, inherited := fun _ _ => .rfl
      metadata := fun _ => rfl }
  intro n hn
  unfold classAnnotations at hn
  split_ifs at hn
  · cases hn
  · have hn := List.mem_filter.mp (Snapshot.mem_orderAnnotations hn)
    exact hagree.names_of_mem_effectiveAnnotations hr.references (List.mem_filter.mp hn.1).1

namespace Scan

/-! ## 4. Rendering and writing -/

/-- Replacing a file by bytes fails for reasons of the host alone. -/
theorem replaceFile_ne_unencodable (d : Disk) (host : Host) (p : Path) (bytes : ByteArray) :
    (d.replaceFile host p (some bytes)).1 ≠ .error .unencodable := by
  have hhost : ∀ why, (.error (.host why) : Except ReplaceFault Unit) ≠ .error .unencodable := by
    simp
  unfold Disk.replaceFile Disk.fillAndRename
  split
  · exact hhost _
  · split
    · exact hhost _
    · split
      · exact hhost _
      · dsimp only
        split
        · exact hhost _
        · split
          · exact hhost _
          · simp

/-- Writing a text that has bytes does not fail for want of them. -/
theorem write_ne_unencodable (host : Host) (d : Disk) (p : Path) (bytes : ByteArray) :
    (write host d p (some bytes)).1.outcome ≠ .error .unencodable := by
  have hreplace := replaceFile_ne_unencodable d host p bytes
  unfold write
  split
  · next why d' heq =>
    rw [heq] at hreplace
    intro h
    have hwhy : writeFault p why = .unencodable := Except.error.inj h
    unfold writeFault at hwhy
    split at hwhy
    · cases hwhy
    · cases hwhy
    · exact hreplace rfl
  · exact nofun

variable {s : Settings} {t : ClassTable} {target : Path} {A : Alphabet} {text : String}

/-- Where all classes are written in an alphabet, the text of a scan has characters of it, and
line feeds. -/
theorem mem_renderTable (ht : t.Coherent)
    (hfiles : ∀ name c, t.file? name = some c → c.WrittenIn A)
    (htext : (renderTable s t target).outcome = .ok text) :
    ∀ c ∈ text.toList, c = '\n' ∨ A.has c := by
  obtain ⟨known, metadata, classes, h⟩ := renderTable_eq_ok_iff.mp htext
  have htraces := Universe.enumerate_traces ht h.enumerates
  have hknown : ∀ name r, known.record? name = some r → r.WrittenIn A := fun _ _ =>
    htraces.writtenIn_record? ht hfiles
  have hclasses : ∀ r ∈ classes, r.WrittenIn A := by
    intro r hr
    obtain ⟨name, -, hrecord⟩ := h.exists_record hr
    exact hknown name r hrecord
  exact Snapshot.mem_render h.renders hclasses fun r hr =>
    View.writes_classAnnotations hknown (hclasses r hr)

/-- Whatever bytes the class files of a target and its class path are, a text that a scan
renders of them holds no surrogate, and writing it never fails for want of bytes. Each of its
code points is a line feed, or printable, or spelled by a text entry of one of the class
files. -/
theorem render_encodable {d : Disk} {home : Place} {classpath : List Path} {h : Handle}
    (hopen : (Handle.resolve d home target classpath).outcome = .ok h)
    (htext : (render s d home h).outcome = .ok text) :
    (∀ p ∈ Text.ofString text, p.val = '\n'.toNat ∨ Text.isPrintable p.val = true ∨
      h.SpellsPoint d home p.val) ∧
    (∀ p ∈ Text.ofString text, p.isSurrogate = false) ∧
    (Text.ofString text).utf8? = some text.toUTF8 ∧
    ∀ host d' output,
      (write host d' output (Text.ofString text).utf8?).1.outcome ≠ .error .unencodable := by
  have hfiles : ∀ name c, (h.table d home).file? name = some c →
      c.WrittenIn (h.alphabet d home) := by
    intro name c hc
    obtain ⟨loaded, hl, rfl⟩ := ClassTable.file?_eq_some.mp hc
    exact Handle.writtenIn_lookUp hl
  have hpoints : ∀ p ∈ Text.ofString text, p.val = '\n'.toNat ∨ Text.isPrintable p.val = true ∨
      h.SpellsPoint d home p.val := by
    intro p hp
    obtain ⟨c, hc, rfl⟩ := List.mem_map.mp hp
    rcases mem_renderTable (Handle.coherent_table hopen) hfiles htext c hc with rfl | hc
    · exact .inl rfl
    · exact .inr hc
  have hutf8 : (Text.ofString text).utf8? = some text.toUTF8 := by
    rw [Text.utf8?, Text.toString?_ofString, Option.map_some]
  refine ⟨hpoints, fun p hp => Text.isSurrogate_eq_false_iff.mpr ?_, hutf8, ?_⟩
  · rcases hpoints p hp with hfeed | hprintable | hspells
    · rw [hfeed]
      decide
    · exact Text.not_surrogate_of_isPrintable hprintable
    · exact hspells.not_surrogate
  · intro host d' output
    rw [hutf8]
    exact write_ne_unencodable host d' output text.toUTF8

/-! ## 5. A small class with surrogates

A folder with one class, which has one field. The name of the field ends in a half of a pair,
and the field is a character that is the same half. -/

namespace SurrogateSample

open ClassFile.Small (unpaired)
open Reader (bigEndian)

def entries : List Constant := [
  .utf8 "p/A", .classRef 1, .utf8 "M\uFFFD", .utf8 "C", .utf8 "ConstantValue", .integer 0xD800]

def poolBytes : List UInt8 := [
  0, 7,
  1, 0, 3, 112, 47, 65,
  7, 0, 1,
  1, 0, 4, 77, 0xED, 0xA0, 0x80,
  1, 0, 1, 67,
  1, 0, 13, 67, 111, 110, 115, 116, 97, 110, 116, 86, 97, 108, 117, 101,
  3, 0, 0, 0xD8, 0]

def field : FieldInfo := ⟨0x19, "M\uFFFD", "C", none, some (.text unpaired), []⟩

def fieldBytes : List UInt8 := [0, 0x19, 0, 3, 0, 4, 0, 1, 0, 5, 0, 0, 0, 2, 0, 6]

def classFile : ClassFile := ⟨52, 0, 0x21, "p.A", none, [], none, [field], [], [], [], none⟩

def bytes : List UInt8 :=
  [0xCA, 0xFE, 0xBA, 0xBE, 0, 0, 0, 52] ++ poolBytes ++ [0, 0x21, 0, 2, 0, 0, 0, 0, 0, 1]
    ++ fieldBytes ++ [0, 0, 0, 0]

theorem written_poolBytes : Pool.Written entries poolBytes := by
  have hunits : ∀ u ∈ [77, 0xD800], u < 0x10000 := by decide
  have hname : (Constant.utf8 "M\uFFFD").Written [1, 0, 4, 77, 0xED, 0xA0, 0x80] :=
    .utf8 hunits (by decide)
  have hchunks : List.Forall₂ Constant.Written entries _ :=
    .cons (Constant.written_utf8 (by decide)) <| .cons (.classRef (by decide)) <|
    .cons hname <| .cons (Constant.written_utf8 (by decide)) <|
    .cons (Constant.written_utf8 (by decide)) <| .cons (.integer (by decide) (by decide)) .nil
  exact ⟨by decide, _, hchunks, by decide⟩

theorem written_fieldBytes : FieldInfo.Written entries field fieldBytes := by
  have hname : TextAt entries field.name [0, 3] :=
    ⟨3, ⟨entries.take 2, entries.drop 3, rfl, rfl⟩, rfl⟩
  have hdescriptor : TextAt entries field.descriptor [0, 4] :=
    ⟨4, ⟨entries.take 3, entries.drop 4, rfl, rfl⟩, rfl⟩
  have hconstant : Attribute.Written entries ⟨"ConstantValue", [0, 6]⟩ [0, 5, 0, 0, 0, 2, 0, 6] :=
    ⟨[0, 5], ⟨5, ⟨entries.take 4, entries.drop 5, rfl, rfl⟩, rfl⟩, by decide, rfl⟩
  have hvalue : ConstantAt entries field.descriptor (.text unpaired) [0, 6] :=
    ConstantAt.character (i := 6) rfl ⟨entries.take 5, [], rfl, rfl⟩
  have hattributes : Counted (Attribute.Written entries) [⟨"ConstantValue", [0, 6]⟩]
      (fieldBytes.drop 6) := ⟨by decide, _, .cons hconstant .nil, rfl⟩
  exact .intro (by decide) hname hdescriptor hattributes ⟨[0, 6], by simp, hvalue⟩
    (by simp [Attribute.Gives, field]) ⟨[], .nil, rfl⟩

theorem written_bytes : classFile.Written bytes := by
  have hname : ClassAt entries classFile.name [0, 2] :=
    ⟨2, 1, "p/A", ⟨entries.take 1, entries.drop 2, rfl, rfl⟩, ⟨[], entries.drop 1, rfl, rfl⟩,
      by decide, rfl⟩
  have hfields : Counted (FieldInfo.Written entries) classFile.fields ([0, 1] ++ fieldBytes) :=
    ⟨by decide, _, .cons written_fieldBytes .nil, by simp [classFile, bigEndian]⟩
  have hnone : Counted (Attribute.Written entries) [] [0, 0] := ⟨by decide, [], .nil, rfl⟩
  have hinterfaces : Counted (ClassAt entries) classFile.interfaces [0, 0] :=
    ⟨by decide, [], .nil, rfl⟩
  have hmethods : Counted (MethodInfo.Written entries) classFile.methods [0, 0] :=
    ⟨by decide, [], .nil, rfl⟩
  have hsuperclass : OptionalAt (ClassAt entries) classFile.superclass [0, 0] := rfl
  exact .intro (by decide) (by decide) (by decide) written_poolBytes hname hsuperclass hinterfaces
    hfields hmethods hnone (by simp [Attribute.Gives, classFile]) ⟨[], .nil, rfl⟩
    (by simp [Attribute.Gives, classFile]) ⟨[], .nil, rfl⟩

def disk : Disk where
  nodes := [
    (["a"], .folder), (["a", "p"], .folder), (["a", "p", "A.class"], .file ⟨bytes.toArray⟩)]

def handle : Handle where
  target := Sample.target
  own := .folder [("p.A", ⟨.root, ["a", "p", "A.class"]⟩)]
  dependencies := []
  loaded := []

def known : Universe where
  records := [("p.A", .ofClassFile false classFile)]
  candidates := ["p.A"]
  recorded := by simp

theorem resolve_target : (Handle.resolve disk [] Sample.target []).outcome = .ok handle := by
  refine Handle.resolve_folder ["a"] rfl rfl ?_ rfl rfl rfl
  have hfiles : disk.filesBelow ["a"] = [["p", "A.class"]] := by cbv
  rw [hfiles]
  rfl

theorem table_handle : handle.table disk [] = .ofFiles [("p.A", classFile)] :=
  Handle.table_of_folder rfl rfl (List.pairwise_singleton _ _)
    (.cons ⟨rfl, _, rfl, ClassFile.parse_of_written written_bytes⟩ .nil)

set_option maxRecDepth 4000 in
theorem render_target : (render (Sample.settings []) disk [] handle).outcome =
    .ok "public class p.A\n  public static final char M\uFFFD = '\\ud800'\n##\n" := by
  rw [render, table_handle]
  refine renderTable_of_isPlain known (fun _ => true) (by cbv) rfl ?_ (List.pairwise_singleton _ _)
    fun c => by cbv
  intro r hr
  rw [List.mem_singleton.mp hr]
  exact ⟨by cbv, rfl, by cbv, rfl, by cbv, rfl, by cbv⟩

end SurrogateSample

/-- Of the two surrogates in the small class one is replaced and one is spelled out. -/
theorem render_encodable_of_sample :
    (Handle.resolve SurrogateSample.disk [] Sample.target []).outcome = .ok SurrogateSample.handle ∧
    (render (Sample.settings []) SurrogateSample.disk [] SurrogateSample.handle).outcome =
      .ok "public class p.A\n  public static final char M\uFFFD = '\\ud800'\n##\n" ∧
    ∀ p ∈ Text.ofString "public class p.A\n  public static final char M\uFFFD = '\\ud800'\n##\n",
      p.isSurrogate = false :=
  ⟨SurrogateSample.resolve_target, SurrogateSample.render_target,
    (render_encodable SurrogateSample.resolve_target SurrogateSample.render_target).2.1⟩

end Scan

end ApiSurface
