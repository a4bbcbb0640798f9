/-
ApiSurface.Text.Glob — wildcard patterns.

In a pattern `*` stands for any run of characters, `?` for any one character,
and square brackets for one character of a set. Every other character stands for
itself, and so does an opening bracket that is never closed.

A set is closed by the first closing bracket that is not its first member. An
exclamation mark in front makes it stand for the characters outside. A hyphen
between two members makes a range of them; at either end of the set it is a
member. The ends of a range that runs downwards are dropped together with the
hyphen, and only what is left then decides about the exclamation mark and about
emptiness: the empty set stands for no character, and a lone exclamation mark
for any.
-/

namespace ApiSurface

/-- One part of a pattern. -/
inductive GlobPart where
  | exactly (c : Char)
  /-- Any one character. -/
  | anyOne
  /-- Any characters, as many as there are. -/
  | anyRun
  /-- A character in one of the ranges, or in none of them if the set is negated. -/
  | oneOf (negated : Bool) (ranges : List (Char × Char))
deriving DecidableEq

/-- A pattern. -/
abbrev Glob := List GlobPart

namespace Glob

/-! ## 1. Sets -/

/-- Cuts the inside of a set at the hyphens that make ranges. The first `skip`
characters of a piece are not looked at, since a hyphen there is a member. -/
def cutAtRanges (skip : Nat) (inside : List Char) : List (List Char) :=
  let tail := inside.drop skip
  match _h : tail.dropWhile (· != '-') with
  | _ :: c :: rest =>
    (inside.take skip ++ tail.takeWhile (· != '-')) :: cutAtRanges 2 (c :: rest)
  | _ => [inside]
termination_by inside.length
decreasing_by
  have hd := congrArg List.length _h
  have hle : (tail.dropWhile (· != '-')).length ≤ tail.length :=
    (List.dropWhile_suffix (fun x => x != '-')).length_le
  have : tail.length ≤ inside.length := by simp [tail]
  simp only [List.length_cons] at hd ⊢
  omega

/-- Joins two neighbouring pieces if the range between them runs downwards. -/
def joinPieces (piece : List Char) : List (List Char) → List (List Char)
  | [] => [piece]
  | next :: rest =>
    match piece.getLast?, next.head? with
    | some low, some high =>
      if high < low then (piece.dropLast ++ next.tail) :: rest else piece :: next :: rest
    | _, _ => piece :: next :: rest

/-- Pieces between which all ranges run upwards. -/
def withoutDownwardRanges (pieces : List (List Char)) : List (List Char) :=
  pieces.foldr joinPieces []

/-- The members of a set, in a row, with a gap in place of every hyphen that makes a
range. -/
def membersOf : List (List Char) → List (Option Char)
  | [] => []
  | [piece] => piece.map some
  | piece :: rest => piece.map some ++ none :: membersOf rest

/-- The ranges that members in a row make. -/
def rangesOf : List (Option Char) → List (Char × Char)
  | [] => []
  | low :: none :: high :: rest => (low.getD '-', high.getD '-') :: rangesOf rest
  | c :: rest => (c.getD '-', c.getD '-') :: rangesOf rest

/-- The set that the inside of two brackets spells. -/
def setOf (inside : List Char) : GlobPart :=
  let skip := if inside.head? = some '!' then 2 else 1
  match membersOf (withoutDownwardRanges (cutAtRanges skip inside)) with
  | [some '!'] => .anyOne
  | some '!' :: members => .oneOf true (rangesOf members)
  | members => .oneOf false (rangesOf members)

/-- The inside of a set and what follows its closing bracket. -/
def splitSet? (afterOpening : List Char) : Option (List Char × List Char) :=
  let mark := if afterOpening.head? = some '!' then 1 else 0
  let first := mark + if (afterOpening.drop mark).head? = some ']' then 1 else 0
  let tail := afterOpening.drop first
  match tail.dropWhile (· != ']') with
  | _ :: rest => some (afterOpening.take first ++ tail.takeWhile (· != ']'), rest)
  | [] => none

/-- What follows a set is shorter than the set and it together. -/
theorem length_of_splitSet? {s inside rest : List Char} (h : splitSet? s = some (inside, rest)) :
    rest.length < s.length := by
  have shorter : ∀ t : List Char, (t.dropWhile (· != ']')).length ≤ t.length :=
    fun t => (List.dropWhile_suffix (fun x => x != ']')).length_le
  simp only [splitSet?] at h
  split at h
  · rename_i d hd
    cases h
    have hle := (congrArg List.length hd) ▸ shorter _
    simp only [List.length_cons, List.length_drop] at hle
    omega
  · cases h

/-! ## 2. Patterns -/

/-- The parts of a pattern. -/
def parts : List Char → Glob
  | [] => []
  | c :: rest =>
    if c = '*' then .anyRun :: parts rest
    else if c = '?' then .anyOne :: parts rest
    else if c = '[' then
      match h : splitSet? rest with
      | some (inside, rest') =>
        have := length_of_splitSet? h
        setOf inside :: parts rest'
      | none => .exactly '[' :: parts rest
    else .exactly c :: parts rest
termination_by s => s.length

/-- The pattern that a text spells. -/
def ofString (s : String) : Glob := parts s.toList

/-- Whether a character lies in a range. -/
def inRange (c : Char) (range : Char × Char) : Bool := range.1 ≤ c && c ≤ range.2

/-- Whether a part other than a run stands for a character. -/
def standsFor (c : Char) : GlobPart → Bool
  | .exactly d => c == d
  | .anyOne => true
  | .anyRun => false
  | .oneOf negated ranges => ranges.any (inRange c) != negated

/-! ## 3. Matching

A text is read from its end. For every tail of the pattern it is known whether
that tail stands for what has been read, so every character is looked at once
for each part of the pattern. -/

/-- For every tail of a pattern, whether it stands for the empty text. -/
def emptyRow : Glob → List Bool
  | [] => [true]
  | part :: g =>
    let below := emptyRow g
    (part == .anyRun && below.headD false) :: below

/-- For every tail of a pattern, whether it stands for a text that starts with a
character, from the same row for the text behind the character. -/
def rowBefore (c : Char) : Glob → List Bool → List Bool
  | [], _ => [false]
  | part :: g, row =>
    let below := rowBefore c g row.tail
    let fits :=
      if part = .anyRun then below.headD false || row.headD false
      else standsFor c part && row.tail.headD false
    fits :: below

/-- For every tail of a pattern, whether it stands for a text. -/
def row (g : Glob) (s : List Char) : List Bool :=
  s.foldr (fun c row => rowBefore c g row) (emptyRow g)

/-- Whether a pattern stands for a whole text. -/
def matchesChars (g : Glob) (s : List Char) : Bool := (row g s).headD false

theorem tail_row (part : GlobPart) (g : Glob) (s : List Char) :
    (row (part :: g) s).tail = row g s := by
  induction s with
  | nil => rfl
  | cons c s ih => exact congrArg (rowBefore c g) ih

/-- No part stands for the empty text alone. -/
@[simp] theorem matchesChars_nil (s : List Char) : matchesChars [] s = s.isEmpty := by
  cases s <;> rfl

/-- A part that is no run stands for the first character, and the others for the rest. -/
theorem matchesChars_cons {part : GlobPart} (h : part ≠ .anyRun) (g : Glob) (s : List Char) :
    matchesChars (part :: g) s = match s with
      | [] => false
      | c :: s => standsFor c part && matchesChars g s := by
  cases s with
  | nil => simp [matchesChars, row, emptyRow, h]
  | cons c s =>
    have ht := tail_row part g s
    simp only [matchesChars, row, List.foldr_cons, rowBefore, if_neg h, List.headD_cons] at ht ⊢
    rw [ht]

/-- A run stands for nothing, or for a character and what another run stands for. -/
theorem matchesChars_anyRun (g : Glob) (s : List Char) :
    matchesChars (.anyRun :: g) s = (matchesChars g s || match s with
      | [] => false
      | _ :: s => matchesChars (.anyRun :: g) s) := by
  cases s with
  | nil => simp [matchesChars, row, emptyRow]
  | cons c s =>
    have ht := tail_row .anyRun g s
    simp only [matchesChars, row, List.foldr_cons, rowBefore] at ht ⊢
    rw [ht]
    rfl

/-- Whether a pattern stands for a whole string. -/
def matchesString (g : Glob) (s : String) : Bool := matchesChars g s.toList

end Glob

end ApiSurface
