/-
ApiSurface.Proofs.Snapshot.Layout — the blocks of a text are told from its lines.

A text is lines one after another. No length says how many lines a block has, and nothing
stands around a line to keep it apart. What a line is for is told by its beginning: the lines
of annotations begin with `@`, those of members with the indent, and a block ends with the
terminator. `readBlocks?` goes by the beginnings alone, and reads blocks back if these are as
they should be (`readBlocks?_flatMap_lines`).

They are so for classes and members that are published, since these are public or protected
and the keyword for it comes first. And no line is cut in two: constants are printable, and no
printable character ends a line, whichever characters a reader takes as ends (`LineEnds`). So
the blocks of a text can be read back, and they are those of its classes
(`readBlocks?_render`).
-/
import ApiSurface.Proofs.Snapshot.TextLiterals
import ApiSurface.Proofs.Snapshot.Written
import ApiSurface.Proofs.Visibility.Alike

namespace ApiSurface

namespace Snapshot

/-! ## 1. Lines -/

/-- The characters that a reader takes as ends of lines: the line feed, and maybe others that
are not printable. -/
structure LineEnds where
  isEnd : Char → Bool
  lineFeed : isEnd '\n' = true
  not_printable : ∀ {c}, isEnd c = true → Text.isPrintable c.toNat = false

namespace LineEnds

/-- All control characters and separators. Each convention has some of them. -/
def breaks : LineEnds where
  isEnd c := decide (Literal.IsBreak c.toNat)
  lineFeed := by decide
  not_printable hc := Literal.excludesBreaks_isPrintable _ (of_decide_eq_true hc)

/-- The characters that do not end a line. -/
def alphabet (ends : LineEnds) : Alphabet where
  has c := ends.isEnd c = false
  has_of_isPrintable h := by
    rw [Bool.eq_false_iff]
    intro hend
    rw [ends.not_printable hend] at h
    cases h

/-- The lines of a text. What stands behind the last end is none. -/
def lines (ends : LineEnds) (text : String) : List String :=
  (text.toList.splitOnP ends.isEnd).dropLast.map String.ofList

end LineEnds

/-- Lines without ends in them are the lines of their text. -/
theorem LineEnds.lines_ofLines {ends : LineEnds} {lines : List String}
    (h : ∀ line ∈ lines, ends.alphabet.Writes line) : ends.lines (ofLines lines) = lines := by
  have hchars : (ofLines lines).toList = lines.flatMap fun line => line.toList ++ ['\n'] := by
    rw [ofLines, String.toList_join, List.flatMap_map]
    simp only [String.toList_append]
    rfl
  rw [LineEnds.lines, hchars, splitOnP_flatMap_concat ends.lineFeed h, List.dropLast_concat,
    List.map_map]
  simp

/-! ## 2. Blocks -/

/-- The lines of a member: those of its annotations, and its own. -/
structure MemberShape where
  annotations : List String
  line : String
deriving DecidableEq

/-- The lines of a class: those of its annotations, its header, and those of its members. -/
structure BlockShape where
  annotations : List String
  header : String
  members : List MemberShape
deriving DecidableEq

/-- The lines of a member, one after another. -/
def MemberShape.lines (m : MemberShape) : List String := m.annotations ++ [m.line]

/-- The lines of a class above the terminator. -/
def BlockShape.interior (b : BlockShape) : List String :=
  b.annotations ++ b.header :: b.members.flatMap MemberShape.lines

/-- The lines of a class. -/
def BlockShape.lines (b : BlockShape) : List String := b.interior ++ [terminator]

/-- Whether a line begins with a mark. -/
def begins (mark line : String) : Bool := mark.toList.isPrefixOf line.toList

/-- The beginning of the annotations of classes. -/
def annotationMark : String := "@"

/-- The beginning of the annotations of members. -/
def memberAnnotationMark : String := memberIndent ++ annotationMark

/-- The members that lines show. Annotations belong to the next line that is none. -/
def readMembers? : List String → Option (List MemberShape)
  | [] => some []
  | line :: rest =>
    if begins memberAnnotationMark line then
      match readMembers? rest with
      | some (m :: others) => some ({ m with annotations := line :: m.annotations } :: others)
      | _ => none
    else if begins memberIndent line then (readMembers? rest).map (⟨[], line⟩ :: ·)
    else none

/-- The block that lines show: annotations, a line that is none, and members. -/
def readBlock? (lines : List String) : Option BlockShape :=
  match lines.dropWhile (begins annotationMark) with
  | [] => none
  | header :: rest =>
    (readMembers? rest).map fun members =>
      ⟨lines.takeWhile (begins annotationMark), header, members⟩

/-- The blocks that lines show, each with the terminator as its last line. -/
def readBlocks? (lines : List String) : Option (List BlockShape) :=
  (lines.splitOn terminator).dropLast.mapM readBlock?

/-- The lines of a member begin as such lines do. -/
structure MemberShape.WellMarked (m : MemberShape) : Prop where
  annotations : ∀ line ∈ m.annotations, begins memberAnnotationMark line = true
  indented : begins memberIndent m.line = true
  line : begins memberAnnotationMark m.line = false

/-- The lines of a class begin as such lines do, and its header ends no block. -/
structure BlockShape.WellMarked (b : BlockShape) : Prop where
  annotations : ∀ line ∈ b.annotations, begins annotationMark line = true
  header : begins annotationMark b.header = false
  not_terminator : b.header ≠ terminator
  members : ∀ m ∈ b.members, m.WellMarked

/-! ## 3. Reading blocks back -/

theorem readMembers?_lines {m : MemberShape} (h : m.WellMarked) (rest : List String) :
    readMembers? (m.lines ++ rest) = (readMembers? rest).map (m :: ·) := by
  obtain ⟨annotations, line⟩ := m
  have hannotations := h.annotations
  have hindented : begins memberIndent line = true := h.indented
  have hline : begins memberAnnotationMark line = false := h.line
  clear h
  change readMembers? ((annotations ++ [line]) ++ rest) = _
  -- Each annotation is put in front of those that reading on has found for the member.
  induction annotations with
  | nil =>
    rw [List.nil_append, List.singleton_append, readMembers?, hline, hindented]
    rfl
  | cons first others ih =>
    obtain ⟨hfirst, hothers⟩ := List.forall_mem_cons.mp hannotations
    rw [List.cons_append, List.cons_append, readMembers?, hfirst, ih hothers]
    cases readMembers? rest <;> rfl

theorem readMembers?_flatMap_lines {members : List MemberShape}
    (h : ∀ m ∈ members, m.WellMarked) :
    readMembers? (members.flatMap MemberShape.lines) = some members := by
  induction members with
  | nil => rfl
  | cons m members ih =>
    obtain ⟨hm, hmembers⟩ := List.forall_mem_cons.mp h
    rw [List.flatMap_cons, readMembers?_lines hm, ih hmembers]
    rfl

theorem readBlock?_interior {b : BlockShape} (h : b.WellMarked) :
    readBlock? b.interior = some b := by
  rw [readBlock?, BlockShape.interior, List.dropWhile_append_of_pos h.annotations,
    List.takeWhile_append_of_pos h.annotations, List.dropWhile_cons_of_neg (by simp [h.header]),
    List.takeWhile_cons_of_neg (by simp [h.header]), List.append_nil]
  simp only [readMembers?_flatMap_lines h.members]
  rfl

theorem begins_terminator_eq_false :
    begins annotationMark terminator = false ∧ begins memberAnnotationMark terminator = false ∧
      begins memberIndent terminator = false := by
  decide

/-- No line of a block but the last one is the terminator. -/
theorem terminator_notMem_interior {b : BlockShape} (h : b.WellMarked) :
    terminator ∉ b.interior := by
  obtain ⟨hmark, hmemberMark, hindent⟩ := begins_terminator_eq_false
  rw [BlockShape.interior, List.mem_append, List.mem_cons, List.mem_flatMap]
  rintro (hmem | heq | ⟨m, hm, hmem⟩)
  · exact absurd (h.annotations _ hmem) (by simp [hmark])
  · exact h.not_terminator heq.symm
  · rw [MemberShape.lines, List.mem_append, List.mem_singleton] at hmem
    rcases hmem with hmem | heq
    · exact absurd ((h.members m hm).annotations _ hmem) (by simp [hmemberMark])
    · exact absurd (heq ▸ (h.members m hm).indented) (by simp [hindent])

/-- The terminators cut lines into blocks. -/
theorem splitOn_terminator {blocks : List BlockShape} (h : ∀ b ∈ blocks, b.WellMarked) :
    (blocks.flatMap BlockShape.lines).splitOn terminator =
      blocks.map BlockShape.interior ++ [[]] := by
  refine splitOnP_flatMap_concat (p := (· == terminator)) (beq_self_eq_true terminator) ?_
  intro b hb line hline
  rw [beq_eq_false_iff_ne]
  rintro rfl
  exact terminator_notMem_interior (h b hb) hline

/-- There are as many terminators as blocks. -/
theorem count_terminator {blocks : List BlockShape} (h : ∀ b ∈ blocks, b.WellMarked) :
    (blocks.flatMap BlockShape.lines).count terminator = blocks.length := by
  induction blocks with
  | nil => rfl
  | cons b blocks ih =>
    obtain ⟨hb, hblocks⟩ := List.forall_mem_cons.mp h
    rw [List.flatMap_cons, List.count_append, ih hblocks, BlockShape.lines, List.count_append,
      List.count_eq_zero.mpr (terminator_notMem_interior hb), List.length_cons]
    simp [Nat.add_comm]

/-- Blocks are read back from their lines. -/
theorem readBlocks?_flatMap_lines {blocks : List BlockShape} (h : ∀ b ∈ blocks, b.WellMarked) :
    readBlocks? (blocks.flatMap BlockShape.lines) = some blocks := by
  rw [readBlocks?, splitOn_terminator h, List.dropLast_concat]
  induction blocks with
  | nil => rfl
  | cons b blocks ih =>
    obtain ⟨hb, hblocks⟩ := List.forall_mem_cons.mp h
    rw [List.map_cons, List.mapM_cons, readBlock?_interior hb, ih hblocks]
    rfl

example : readBlocks? ["@Mark", "public class p.A", "  @Mark", "  public void m()",
    "  public int n", "##"] =
    some [⟨["@Mark"], "public class p.A",
      [⟨["  @Mark"], "  public void m()"⟩, ⟨[], "  public int n"⟩]⟩] := by decide

/-! ## 4. The block of a class -/

/-- The lines of a member with the given line. -/
def memberShape (v : View) (m : Member) (line : String) : MemberShape where
  annotations := annotationLines memberIndent (v.memberAnnotations m).visible
  line := memberIndent ++ line

/-- Lines show members of some sort: of those declared each included one once, in the order of
names and, where names are equal, of descriptors. -/
def Shows {α : Type} (v : View) (member : α → Member) (included : α → Bool)
    (line : α → Report ClassFault String) (declared : List α) (shapes : List MemberShape) : Prop :=
  ∃ inOrder : List α, inOrder.Perm (declared.filter included) ∧
    inOrder.Pairwise (fun a b => (member a).name < (member b).name ∨
      (member a).name = (member b).name ∧ (member a).descriptor ≤ (member b).descriptor) ∧
    List.Forall₂ (fun a shape => ∃ text, (line a).outcome = .ok text ∧
      shape = memberShape v (member a) text) inOrder shapes

/-- A block is that of a class: it has the shown annotations, the header, and lines for the
included methods and then for the included fields that the class itself declares. -/
structure IsBlockOf (v : View) (r : ClassRecord) (b : BlockShape) : Prop where
  annotations : b.annotations = annotationLines "" (v.classAnnotations r).visible
  header : b.header = Snapshot.header r
  members : ∃ methods fields, b.members = methods ++ fields ∧
    Shows v MethodRecord.toMember v.includesMethod methodLine r.methods methods ∧
    Shows v FieldRecord.toMember v.includesField fieldLine r.fields fields

/-- Where each part that is collected is the lines of something, so is the whole. -/
theorem exists_of_collect {α β γ : Type} {f : α → Report ClassFault (List β)} (R : α → γ → Prop)
    (lines : γ → List β) (hf : ∀ a part, (f a).outcome = .ok part → ∃ c, R a c ∧ part = lines c)
    {items : List α} {results : List β} (h : (collect f items).outcome = .ok results) :
    ∃ cs, List.Forall₂ R items cs ∧ results = cs.flatMap lines := by
  induction items generalizing results with
  | nil =>
    cases h
    exact ⟨[], .nil, rfl⟩
  | cons a rest ih =>
    obtain ⟨front, hfront, h⟩ := Report.outcome_bind_eq_ok.mp h
    obtain ⟨back, hback, h⟩ := Report.outcome_bind_eq_ok.mp h
    cases h
    obtain ⟨c, hc, rfl⟩ := hf a front hfront
    obtain ⟨cs, hcs, rfl⟩ := ih hback
    exact ⟨c :: cs, .cons hc hcs, rfl⟩

variable {v : View}

/-- The lines that a block has for members of some sort show them. -/
theorem exists_shows {α : Type} {member : α → Member} {included : α → Bool}
    {line : α → Report ClassFault String} {declared : List α} {results : List String}
    (h : (collect (fun a => return memberLines v (member a) (← line a))
      ((declared.mergeSort fun a b => View.memberLe (member a) (member b)).filter included)).outcome
        = .ok results) :
    ∃ shapes, Shows v member included line declared shapes ∧
      results = shapes.flatMap MemberShape.lines := by
  obtain ⟨shapes, hshapes, rfl⟩ := exists_of_collect
    (fun a shape => ∃ text, (line a).outcome = .ok text ∧ shape = memberShape v (member a) text)
    MemberShape.lines (fun a part hpart => by
      obtain ⟨text, htext, hpart⟩ := Report.outcome_bind_eq_ok.mp hpart
      cases hpart
      exact ⟨_, ⟨text, htext, rfl⟩, rfl⟩) h
  refine ⟨shapes, ⟨_, (List.mergeSort_perm _ _).filter _, ?_, hshapes⟩, rfl⟩
  have hsorted : (declared.mergeSort fun a b => View.memberLe (member a) (member b)).Pairwise
      fun a b => View.memberLe (member a) (member b) = true :=
    List.pairwise_mergeSort
      (fun a b c => View.memberLe_trans (member a) (member b) (member c))
      (fun a b => View.memberLe_total (member a) (member b)) declared
  exact (hsorted.filter included).imp View.memberLe_iff.mp

/-- The lines of a class are those of a block of the class. -/
theorem exists_isBlockOf {r : ClassRecord} {lines : List String}
    (h : (block v r).outcome = .ok lines) : ∃ b, IsBlockOf v r b ∧ lines = b.lines := by
  obtain ⟨methods, hmethods, h⟩ := Report.outcome_bind_eq_ok.mp h
  obtain ⟨fields, hfields, h⟩ := Report.outcome_bind_eq_ok.mp h
  cases h
  obtain ⟨methodShapes, hmethodShapes, rfl⟩ := exists_shows hmethods
  obtain ⟨fieldShapes, hfieldShapes, rfl⟩ := exists_shows hfields
  refine ⟨⟨annotationLines "" (v.classAnnotations r).visible, header r,
    methodShapes ++ fieldShapes⟩, ⟨rfl, rfl, _, _, rfl, hmethodShapes, hfieldShapes⟩, ?_⟩
  simp [BlockShape.lines, BlockShape.interior]

/-! ## 5. Published classes -/

/-- What begins with a letter of a word for visibility. -/
def StartsVisible (line : String) : Prop := line.toList.head? = some 'p'

instance (line : String) : Decidable (StartsVisible line) :=
  inferInstanceAs (Decidable (_ = _))

theorem startsVisible_append {line : String} (h : StartsVisible line) (rest : String) :
    StartsVisible (line ++ rest) := by
  unfold StartsVisible at *
  rw [String.toList_append, List.head?_append, h]
  rfl

theorem startsVisible_words {word : String} (h : StartsVisible word) (others : List String) :
    StartsVisible (words (word :: others)) := by
  cases others with
  | nil =>
    rw [words, String.intercalate_singleton]
    exact h
  | cons next others =>
    rw [words, String.intercalate_cons_cons]
    exact startsVisible_append (startsVisible_append h _) _

/-- The words for visibility stand in front of all others. -/
theorem startsVisible_keywords {flags : Nat} (h : Flags.isVisible flags = true)
    (table : List (Nat × String)) (others : List String) :
    StartsVisible (words (Flags.keywords
      ((Flags.isPublic, "public") :: (Flags.isProtected, "protected") :: table) flags ++ others)) := by
  rw [Flags.isVisible, Flags.visibilityMask, Flags.has_or_right, Bool.or_eq_true] at h
  unfold Flags.keywords
  cases hpublic : Flags.has flags Flags.isPublic with
  | true =>
    simp only [List.filter_cons, hpublic, if_true, List.map_cons, List.cons_append]
    exact startsVisible_words (by decide) _
  | false =>
    have hprotected : Flags.has flags Flags.isProtected = true := by simpa [hpublic] using h
    simp only [List.filter_cons, hpublic, hprotected, Bool.false_eq_true, if_false, if_true,
      List.map_cons, List.cons_append]
    exact startsVisible_words (by decide) _

/-- The flags that a header shows are visible if those of the class are. -/
theorem isVisible_and {flags mask : Nat} (hmask : mask &&& Flags.visibilityMask = Flags.visibilityMask)
    (h : Flags.isVisible flags = true) : Flags.isVisible (flags &&& mask) = true := by
  rw [Flags.isVisible, Flags.has] at *
  rwa [Nat.and_assoc, hmask]

theorem startsVisible_header {r : ClassRecord} (h : Flags.isVisible r.modifiers = true) :
    StartsVisible (header r) := by
  refine startsVisible_keywords ?_ _ _
  split_ifs
  · exact isVisible_and (by decide) h
  · exact isVisible_and (by decide) h

theorem startsVisible_methodLine {m : MethodRecord} {line : String}
    (hm : Flags.isVisible m.modifiers = true) (h : (methodLine m).outcome = .ok line) :
    StartsVisible line := by
  obtain ⟨types, -, h⟩ := Report.outcome_bind_eq_ok.mp h
  cases h
  rw [List.append_assoc]
  exact startsVisible_keywords hm _ _

theorem startsVisible_fieldLine {f : FieldRecord} {line : String}
    (hf : Flags.isVisible f.modifiers = true) (h : (fieldLine f).outcome = .ok line) :
    StartsVisible line := by
  obtain ⟨type, -, h⟩ := Report.outcome_bind_eq_ok.mp h
  have hdeclaration : StartsVisible
      (words (Flags.keywords Flags.fieldKeywords f.modifiers ++ [type, f.name])) :=
    startsVisible_keywords hf _ _
  split at h
  · cases h
    exact hdeclaration
  · obtain ⟨literal, -, h⟩ := Report.outcome_bind_eq_ok.mp h
    cases h
    exact startsVisible_append (startsVisible_append hdeclaration _) _

theorem begins_append (mark rest : String) : begins mark (mark ++ rest) = true := by
  rw [begins, String.toList_append, List.isPrefixOf_iff_prefix]
  exact List.prefix_append _ _

theorem begins_of_mem_annotationLines {indent line : String} {names : List String}
    (h : line ∈ annotationLines indent names) : begins (indent ++ annotationMark) line = true := by
  obtain ⟨name, -, rfl⟩ := List.mem_map.mp h
  exact begins_append _ _

theorem not_begins_annotationMark {line : String} (h : StartsVisible line) :
    begins annotationMark line = false := by
  obtain ⟨rest, hrest⟩ := List.head?_eq_some_iff.mp h
  rw [begins, hrest]
  rfl

theorem wellMarked_memberShape {m : Member} {line : String} (h : StartsVisible line) :
    (memberShape v m line).WellMarked where
  annotations _ := begins_of_mem_annotationLines
  indented := begins_append _ _
  line := by
    obtain ⟨rest, hrest⟩ := List.head?_eq_some_iff.mp h
    change begins memberAnnotationMark (memberIndent ++ line) = false
    rw [begins, String.toList_append, hrest]
    rfl

theorem wellMarked_of_shows {α : Type} {member : α → Member} {included : α → Bool}
    {line : α → Report ClassFault String} {declared : List α} {shapes : List MemberShape}
    (h : Shows v member included line declared shapes)
    (hvisible : ∀ a, included a = true → ∀ text, (line a).outcome = .ok text → StartsVisible text) :
    ∀ shape ∈ shapes, shape.WellMarked := by
  intro shape hshape
  obtain ⟨inOrder, hperm, -, hshapes⟩ := h
  obtain ⟨a, ha, text, htext, rfl⟩ := exists_of_mem_right hshapes hshape
  exact wellMarked_memberShape
    (hvisible a (List.mem_filter.mp (hperm.mem_iff.mp ha)).2 text htext)

theorem isVisible_of_includesMethod {m : MethodRecord} (h : v.includesMethod m = true) :
    Flags.isVisible m.modifiers = true := by
  simp only [View.includesMethod, Bool.and_eq_true] at h
  exact h.1.1.1.1.1

theorem isVisible_of_includesField {f : FieldRecord} (h : v.includesField f = true) :
    Flags.isVisible f.modifiers = true := by
  simp only [View.includesField, Bool.and_eq_true] at h
  exact h.1.1

/-- A class that is published is public or protected. -/
theorem isVisible_of_includesClass {r : ClassRecord}
    (h : (v.includesClass r).outcome = .ok true) : Flags.isVisible r.modifiers = true := by
  have hpublishes := View.publishes_eq_true_iff.mp (View.includesClass_eq_ok h).1.symm
  have hreason := (View.exclusionReason?_eq_none_iff.mp hpublishes).1
  exact (View.declaredReason?_eq_none_iff.mp hreason).2.2.2.2.1

/-- The lines of a published class begin as they should. -/
theorem IsBlockOf.wellMarked {r : ClassRecord} {b : BlockShape} (h : IsBlockOf v r b)
    (hr : (v.includesClass r).outcome = .ok true) : b.WellMarked where
  annotations line hline := by
    rw [h.annotations] at hline
    exact begins_of_mem_annotationLines hline
  header := by
    rw [h.header]
    exact not_begins_annotationMark (startsVisible_header (isVisible_of_includesClass hr))
  not_terminator := by
    have hheader := startsVisible_header (isVisible_of_includesClass hr)
    rw [h.header]
    intro heq
    rw [heq] at hheader
    exact absurd hheader (by decide)
  members := by
    obtain ⟨methods, fields, hmembers, hmethods, hfields⟩ := h.members
    rw [hmembers, List.forall_mem_append]
    exact ⟨wellMarked_of_shows hmethods fun m hm _ =>
        startsVisible_methodLine (isVisible_of_includesMethod hm),
      wellMarked_of_shows hfields fun f hf _ =>
        startsVisible_fieldLine (isVisible_of_includesField hf)⟩

/-- The text of published classes is made of their blocks in turn, and a reader gets these back
from its lines, if what the classes declare and show has no ends of lines in it. Constants may
have any: there are as many terminators as classes, and each ends the block of its class. -/
theorem readBlocks?_render {ends : LineEnds} {classes : List ClassRecord} {text : String}
    (h : (render v classes).outcome = .ok text)
    (hpublished : ∀ r ∈ classes, (v.includesClass r).outcome = .ok true)
    (hwritten : ∀ r ∈ classes, r.WrittenIn ends.alphabet)
    (hshown : ∀ r ∈ classes, ∀ n ∈ (v.classAnnotations r).visible, ends.alphabet.Writes n) :
    ∃ blocks : List BlockShape,
      List.Forall₂ (IsBlockOf v) classes blocks ∧
      (∀ b ∈ blocks, b.WellMarked) ∧
      text = ofLines (blocks.flatMap BlockShape.lines) ∧
      ends.lines text = blocks.flatMap BlockShape.lines ∧
      (ends.lines text).count terminator = classes.length ∧
      (ends.lines text).splitOn terminator = blocks.map BlockShape.interior ++ [[]] ∧
      readBlocks? (ends.lines text) = some blocks := by
  obtain ⟨lines, hcollect, h⟩ := Report.outcome_bind_eq_ok.mp h
  cases h
  have hwrites := forall_mem_blocks hcollect hwritten hshown
  obtain ⟨blocks, hblocks, rfl⟩ := exists_of_collect (IsBlockOf v) BlockShape.lines
    (fun _ _ => exists_isBlockOf) hcollect
  have hmarked : ∀ b ∈ blocks, b.WellMarked := by
    intro b hb
    obtain ⟨r, hr, hblock⟩ := exists_of_mem_right hblocks hb
    exact hblock.wellMarked (hpublished r hr)
  have hlines : ends.lines (ofLines (blocks.flatMap BlockShape.lines)) =
      blocks.flatMap BlockShape.lines := LineEnds.lines_ofLines hwrites
  refine ⟨blocks, hblocks, hmarked, rfl, hlines, ?_, ?_, ?_⟩
  · rw [hlines, count_terminator hmarked, hblocks.length_eq]
  · rw [hlines, splitOn_terminator hmarked]
  · rw [hlines, readBlocks?_flatMap_lines hmarked]

namespace LayoutSample

/-- A method that carries an annotation. -/
def marked : MethodRecord := ⟨"m", "()V", Flags.isPublic, "p.A", ["p.Mark"], none⟩

/-- A constant that has the end of a block in it. -/
def terminating : FieldRecord :=
  ⟨⟨"N", "Ljava/lang/String;", Flags.isPublic, "p.A", [], none⟩,
    some (.text (Text.ofString "\n##\n"))⟩

def record : ClassRecord :=
  { ClassRecord.placeholder "p.A" .ordinary with
    modifiers := Flags.isPublic
    isExternal := false
    methods := [marked]
    fields := [terminating] }

def view : View := ⟨.empty, ⟨[], [], []⟩, .standard, [], none⟩

/-- The lines of the class. -/
def lines : List String :=
  ["public class p.A", "  @Mark", "  public void m()",
    "  public String N = \"\\n##\\n\"", "##"]

theorem fieldLine_terminating :
    (fieldLine terminating).outcome =
      .ok "public String N = \"\\n##\\n\"" := by
  have htype : (typesOf terminating.toMember Descriptor.rendered).outcome =
      .ok "String" := by cbv
  have hliteral : Literal.text '"' (Text.ofString "\n##\n") = "\"\\n##\\n\"" := by
    decide +kernel
  have hconstant : Literal.constant terminating.descriptor (.text (Text.ofString "\n##\n")) =
      .ok "\"\\n##\\n\"" := congrArg Except.ok hliteral
  have hfound : terminating.constant = some (.text (Text.ofString "\n##\n")) := rfl
  rw [fieldLine, Report.outcome_bind, htype]
  simp only [hfound, hconstant, bind, Except.bind, Except.mapError]
  cbv

theorem render_record : (render view [record]).outcome = .ok (ofLines lines) := by
  have hmethods : view.publicMethods record = [marked] := by cbv
  have hfields : view.publicFields record = [terminating] := by cbv
  have hmethod : (methodLine marked).outcome = .ok "public void m()" := by cbv
  have hblock : (block view record).outcome = .ok lines := by
    simp only [block, hmethods, hfields, collect, Report.outcome_bind, Report.outcome_pure,
      hmethod, fieldLine_terminating]
    cbv
  simp only [render, collect, Report.outcome_bind, Report.outcome_pure, hblock]
  rfl

theorem includesClass_record : (view.includesClass record).outcome = .ok true := by
  have hpackage : view.markers.isInternalPackage record.name = false := by cbv
  have hordinary : record.isAnnotationType = true → view.classification.shows record.name = true :=
    fun h => absurd h (by decide)
  have hreason : view.exclusionReason? record = .ok none := by
    rw [View.exclusionReason?_eq_none_iff, View.declaredReason?_eq_none_iff]
    refine ⟨⟨hpackage, rfl, hordinary, rfl, by decide, rfl, rfl⟩, fun m hm => ?_⟩
    cases hm
  rw [View.includesClass, hreason]
  rfl

theorem writtenIn (A : Alphabet) : record.WrittenIn A where
  name := Alphabet.Writes.of_printable (by decide)
  references := by
    have hreferences : record.references = [("p.Mark", .annotationType)] := by cbv
    rw [hreferences, List.forall_mem_singleton]
    exact Alphabet.Writes.of_printable (by decide)
  methods := by
    have hunsigned : ∀ s ∈ marked.signature, A.Writes s := fun s hs => by cases hs
    have hannotations : ∀ n ∈ marked.annotations, A.Writes n :=
      List.forall_mem_singleton.mpr (Alphabet.Writes.of_printable (by decide))
    exact List.forall_mem_singleton.mpr ⟨Alphabet.Writes.of_printable (by decide),
      Alphabet.Writes.of_printable (by decide), hunsigned, hannotations⟩
  fields := by
    have hunsigned : ∀ s ∈ terminating.signature, A.Writes s := fun s hs => by cases hs
    exact List.forall_mem_singleton.mpr ⟨Alphabet.Writes.of_printable (by decide),
      Alphabet.Writes.of_printable (by decide), hunsigned, List.forall_mem_nil _⟩

end LayoutSample

open LayoutSample in
/-- The constant ends no line and no block, whatever a reader takes as ends of lines. -/
theorem readBlocks?_render_of_sample :
    ∃ blocks, List.Forall₂ (IsBlockOf view) [record] blocks ∧
      (LineEnds.breaks.lines (ofLines lines)).count terminator = 1 ∧
      readBlocks? (LineEnds.breaks.lines (ofLines lines)) = some blocks := by
  have hshown : ∀ n ∈ (view.classAnnotations record).visible, LineEnds.breaks.alphabet.Writes n := by
    have hannotations : view.classAnnotations record = ⟨[], []⟩ := by cbv
    rw [hannotations]
    exact List.forall_mem_nil _
  obtain ⟨blocks, hblocks, -, -, -, hcount, -, hread⟩ := readBlocks?_render render_record
    (List.forall_mem_singleton.mpr includesClass_record)
    (List.forall_mem_singleton.mpr (writtenIn LineEnds.breaks.alphabet))
    (List.forall_mem_singleton.mpr hshown)
  exact ⟨blocks, hblocks, hcount, hread⟩

end Snapshot

end ApiSurface
