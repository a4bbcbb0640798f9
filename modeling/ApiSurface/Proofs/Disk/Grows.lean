/-
ApiSurface.Proofs.Disk.Grows — what is new on a disk.

`Grows logged made written d d'` bounds what an operation from `d` to `d'` does. Nothing
goes away. New nodes are folders at the places `made`, and files change in one way only:
those at the places `logged` get more bytes at their ends. The places `written` are left
open, and what they hold is said apart.

Making the folders of a path makes those on the way to it and nothing else
(`grows_makeFolders`). Replacing a file does that too, whether it fails or not, and writes
the file at most (`replaceFile_grows`): the temporary file is not there any more.
-/
import ApiSurface.Proofs.Disk.Preserves

namespace ApiSurface

/-- A place is on the way of a path: a beginning of the path leads to it. -/
def Path.OnTheWay (home : Place) (p : Path) (q : Place) : Prop :=
  ∃ parts, parts <+: p.parts ∧ q = Path.destination home ⟨p.anchor, parts⟩

/-- Where a path leads if it never leads back. -/
theorem Path.destination_of_no_dots {home : Place} {p : Path} (h : ".." ∉ p.parts) :
    p.destination home = (if p.isAbsolute then [] else home) ++ p.parts := by
  rw [destination]
  generalize (if p.isAbsolute then [] else home) = start
  generalize p.parts = parts at h
  induction parts generalizing start with
  | nil => simp
  | cons part rest ih =>
    rw [List.mem_cons, not_or] at h
    rw [List.foldl_cons, goOn, if_neg (Ne.symm h.1), ih _ h.2]
    simp

/-- On the way of a path that never leads back there is nothing behind its end. -/
theorem Path.not_onTheWay_of_no_dots {home : Place} {p : Path} (h : ".." ∉ p.parts) (name : String) :
    ¬ p.OnTheWay home (p.destination home ++ [name]) := by
  rintro ⟨parts, hparts, heq⟩
  have hdots : ".." ∉ parts := fun hmem => h (hparts.subset hmem)
  have hstart : (⟨p.anchor, parts⟩ : Path).isAbsolute = p.isAbsolute := rfl
  rw [destination_of_no_dots h, destination_of_no_dots hdots, hstart] at heq
  have hlength := congrArg List.length heq
  have hle := hparts.length_le
  simp only [List.length_append, List.length_singleton] at hlength
  omega

namespace Disk

/-- From one disk to another nothing goes away; new nodes are folders, and files change at
their ends only. -/
structure Grows (logged made written : Place → Prop) (d d' : Disk) : Prop where
  kept : ∀ q node, ¬ written q → d.node? q = some node → d'.node? q = some node ∨
    logged q ∧ ∃ bytes more, node = .file bytes ∧ d'.node? q = some (.file (bytes ++ more))
  fresh : ∀ q node, ¬ written q → d.node? q = none → d'.node? q = some node →
    node = .folder ∧ made q

/-- No place. -/
abbrev nowhere : Place → Prop := fun _ => False

namespace Grows

variable {logged made written : Place → Prop} {d d' d'' : Disk}

theorem of_node? (h : ∀ q, ¬ written q → d'.node? q = d.node? q) : Grows logged made written d d' where
  kept q node hw hq := .inl (by rw [h q hw, hq])
  fresh q node hw hq hq' := by
    rw [h q hw, hq] at hq'
    cases hq'

theorem refl (d : Disk) : Grows logged made written d d := of_node? fun _ _ => rfl

theorem trans (h : Grows logged made written d d') (h' : Grows logged made written d' d'') :
    Grows logged made written d d'' where
  kept q node hw hq := by
    rcases h.kept q node hw hq with hq' | ⟨hl, bytes, more, rfl, hq'⟩
    · exact h'.kept q node hw hq'
    · rcases h'.kept q _ hw hq' with hq'' | ⟨-, bytes', more', heq, hq''⟩
      · exact .inr ⟨hl, bytes, more, rfl, hq''⟩
      · cases heq
        exact .inr ⟨hl, bytes, more ++ more', rfl, by rw [hq'', ByteArray.append_assoc]⟩
  fresh q node hw hq hq'' := by
    cases hq' : d'.node? q with
    | none => exact h'.fresh q node hw hq' hq''
    | some middle =>
      obtain ⟨rfl, hm⟩ := h.fresh q middle hw hq hq'
      rcases h'.kept q _ hw hq' with heq | ⟨-, _, _, heq, -⟩
      · rw [heq, Option.some_inj] at hq''
        exact ⟨hq''.symm, hm⟩
      · cases heq

theorem mono {logged' made' written' : Place → Prop} (h : Grows logged made written d d')
    (hl : ∀ q, logged q → logged' q) (hm : ∀ q, made q → made' q)
    (hw : ∀ q, written q → written' q) : Grows logged' made' written' d d' where
  kept q node hq hn := by
    rcases h.kept q node (fun h => hq (hw q h)) hn with hn' | ⟨hlogged, hmore⟩
    · exact .inl hn'
    · exact .inr ⟨hl q hlogged, hmore⟩
  fresh q node hq hn hn' := by
    obtain ⟨hnode, hmade⟩ := h.fresh q node (fun h => hq (hw q h)) hn hn'
    exact ⟨hnode, hm q hmade⟩

end Grows

variable {logged made written : Place → Prop} {d d' : Disk} {home place : Place} {p : Path}

/-- More bytes at the end of a file. -/
theorem grows_append {bytes : ByteArray} :
    Grows (· = place) nowhere nowhere d (d.append place bytes) := by
  cases hplace : d.node? place with
  | none =>
    rw [append, hplace]
    exact .refl d
  | some node =>
    cases node with
    | folder =>
      rw [append, hplace]
      exact .refl d
    | file old =>
      have hne : place ≠ [] := ne_nil_of_node? (d := d) (by simp [hplace])
      rw [append, hplace]
      constructor
      · intro q node _ hq
        rw [node?_put hne]
        split_ifs with h
        · subst h
          rw [hplace, Option.some_inj] at hq
          exact .inr ⟨rfl, old, bytes, hq.symm, rfl⟩
        · exact .inl hq
      · intro q node _ hq hq'
        rw [node?_put hne, if_neg, hq] at hq'
        · cases hq'
        · rintro rfl
          rw [hplace] at hq
          cases hq

/-- A file goes on behind what it held before. -/
def Extends (place : Place) (d d' : Disk) : Prop :=
  ∃ bytes more, 0 < more.size ∧ d.node? place = some (.file bytes) ∧
    d'.node? place = some (.file (bytes ++ more))

theorem Extends.ne (h : Extends place d d') : d'.node? place ≠ d.node? place := by
  obtain ⟨bytes, more, hmore, hold, hnew⟩ := h
  rw [hold, hnew, Ne, Option.some_inj, Node.file.injEq]
  intro heq
  have hsize := congrArg ByteArray.size heq
  rw [ByteArray.size_append] at hsize
  omega

/-- A file that has become longer stays so while the disk grows. -/
theorem Extends.grows {d'' : Disk} (h : Extends place d d')
    (hgrows : Grows logged made written d' d'') (hw : ¬ written place) : Extends place d d'' := by
  obtain ⟨bytes, more, hmore, hold, hnew⟩ := h
  rcases hgrows.kept place _ hw hnew with hsame | ⟨-, bytes', more', heq, hlater⟩
  · exact ⟨bytes, more, hmore, hold, hsame⟩
  · cases heq
    refine ⟨bytes, more ++ more', ?_, hold, by rw [hlater, ByteArray.append_assoc]⟩
    rw [ByteArray.size_append]
    omega

/-- No file is lost, and files change at their ends only. -/
def FilesGrow (d d' : Disk) : Prop :=
  ∀ q old, d.node? q = some (.file old) → ∃ more, d'.node? q = some (.file (old ++ more))

theorem FilesGrow.refl (d : Disk) : FilesGrow d d :=
  fun q old h => ⟨.empty, by rw [h, ByteArray.append_empty]⟩

theorem FilesGrow.trans {d'' : Disk} (h : FilesGrow d d') (h' : FilesGrow d' d'') : FilesGrow d d'' := by
  intro q old hq
  obtain ⟨more, hmore⟩ := h q old hq
  obtain ⟨rest, hrest⟩ := h' q _ hmore
  exact ⟨more ++ rest, by rw [hrest, ByteArray.append_assoc]⟩

theorem Grows.filesGrow (h : Grows logged made nowhere d d') : FilesGrow d d' := by
  intro q old hq
  rcases h.kept q _ id hq with hsame | ⟨-, bytes, more, heq, hmore⟩
  · exact ⟨.empty, by rw [hsame, ByteArray.append_empty]⟩
  · cases heq
    exact ⟨more, hmore⟩

theorem Spares.filesGrow (h : Spares d d') : FilesGrow d d' :=
  fun q old hq => ⟨.empty, by rw [h.file q old id hq, ByteArray.append_empty]⟩

/-! ## Folders -/

theorem grows_makeFolder (h : d.makeFolder home p = .ok d') :
    Grows nowhere (· = p.destination home) nowhere d d' := by
  obtain ⟨-, hnone, rfl⟩ := makeFolder_eq_ok.mp h
  have hne : p.destination home ≠ [] := ne_nil_of_node? (by rw [hnone]; simp)
  constructor
  · intro q node _ hq
    rw [node?_put hne, if_neg]
    · exact .inl hq
    · rintro rfl
      rw [hnone] at hq
      cases hq
  · intro q node _ hq hq'
    rw [node?_put hne] at hq'
    split_ifs at hq' with hplace
    · exact ⟨(Option.some_inj.mp hq').symm, hplace⟩
    · rw [hq] at hq'
      cases hq'

/-- Making the folders of a path makes folders on the way of it, whether it succeeds or
fails. -/
theorem grows_makeFolders (d : Disk) (home : Place) (anchor : Anchor) (parts : List String) :
    Grows nowhere (Path.OnTheWay home ⟨anchor, parts⟩) nowhere d
      (d.makeFolders home anchor parts).2 := by
  refine makeFolders_rel .refl (fun _ _ _ => .trans) (fun d d' begun hbegun hmake => ?_) d
  refine (grows_makeFolder hmake).mono (fun _ => id) ?_ fun _ => id
  rintro _ rfl
  exact ⟨begun, hbegun, rfl⟩

/-! ## Replacing a file -/

/-- A temporary file that is gone leaves nothing behind. -/
theorem node?_remove_put {temporary : Place} {node : Node} (hfree : d.node? temporary = none)
    (q : Place) : ((d.put temporary node).remove temporary).node? q = d.node? q := by
  have hne : temporary ≠ [] := ne_nil_of_node? (d := d) (by simp [hfree])
  rw [node?_remove hne, node?_put hne]
  split_ifs with hq
  · rw [hq, hfree]
  · rfl

/-- Filling a temporary file and putting it in its place changes that place, or nothing. -/
theorem fillAndRename_grows {h : Host} {temporary : Place} {content : Option ByteArray}
    (hfree : d.node? temporary = none) (hd' : d' = d.put temporary (.file .empty)) :
    ((∃ why, (d'.fillAndRename h temporary p content).1 = .error why) ∧
      Grows nowhere nowhere nowhere d (d'.fillAndRename h temporary p content).2) ∨
    ((d'.fillAndRename h temporary p content).1 = .ok () ∧ (∃ bytes, content = some bytes) ∧
      Grows nowhere nowhere (· = p.destination h.home) d
        (d'.fillAndRename h temporary p content).2) := by
  have hgone : Grows nowhere nowhere nowhere d (d'.remove temporary) := by
    rw [hd']
    exact .of_node? fun q _ => node?_remove_put hfree q
  cases content with
  | none => exact .inl ⟨⟨_, rfl⟩, hgone⟩
  | some bytes =>
  unfold fillAndRename
  dsimp only
  split
  · exact .inl ⟨⟨_, rfl⟩, hgone⟩
  split
  · exact .inl ⟨⟨_, rfl⟩, hgone⟩
  next place hrename =>
  obtain ⟨hl, hn⟩ := filePlace_eq_ok (attempt_eq_ok hrename)
  obtain rfl := locate_eq_ok hl
  have hput : ∀ q, q ≠ p.destination h.home →
      ((d'.remove temporary).put (p.destination h.home) (.file bytes)).node? q = d.node? q := by
    intro q hq
    rw [node?_put (ne_nil_of_node? hn), if_neg hq, hd', node?_remove_put hfree]
  exact .inr ⟨rfl, ⟨bytes, rfl⟩, .of_node? hput⟩

/-- Replacing a file makes folders on the way to it. If it fails, nothing else is new, and
if it succeeds, it was given bytes, and nothing else is new but the file. -/
theorem replaceFile_grows (d : Disk) (h : Host) (p : Path) (content : Option ByteArray) :
    ((∃ why, (d.replaceFile h p content).1 = .error why) ∧
      Grows nowhere (p.parent.OnTheWay h.home) nowhere d (d.replaceFile h p content).2) ∨
    ((d.replaceFile h p content).1 = .ok () ∧ (∃ bytes, content = some bytes) ∧
      Grows nowhere (p.parent.OnTheWay h.home) (· = p.destination h.home) d
        (d.replaceFile h p content).2) := by
  unfold replaceFile
  split
  · exact .inl ⟨⟨_, rfl⟩, .refl d⟩
  have hfolders := grows_makeFolders d h.home p.anchor p.parent.parts
  split
  · next heq =>
    rw [heq] at hfolders
    exact .inl ⟨⟨_, rfl⟩, hfolders⟩
  next d₁ heq =>
  rw [heq] at hfolders
  split
  · exact .inl ⟨⟨_, rfl⟩, hfolders⟩
  next temporary htemporary =>
  have hfree := freePlace_eq_ok (attempt_eq_ok htemporary)
  rcases @fillAndRename_grows d₁ _ p h temporary content hfree rfl with
    ⟨hwhy, hgrows⟩ | ⟨hok, hbytes, hgrows⟩
  · exact .inl ⟨hwhy, hfolders.trans (hgrows.mono (fun _ => id) (fun _ => False.elim) fun _ => id)⟩
  · refine .inr ⟨hok, hbytes, (hfolders.mono (fun _ => id) (fun _ => id) fun _ => False.elim).trans ?_⟩
    exact hgrows.mono (fun _ => id) (fun _ => False.elim) fun _ => id

end Disk

end ApiSurface
