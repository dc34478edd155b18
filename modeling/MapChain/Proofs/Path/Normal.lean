import MapChain.Path.Basic

/-!
# Normal absolute paths

A location is an absolute path made of names only. Whatever is seen from an absolute
directory resolves to a location, and a location is its own normal form, so a chain
built in an absolute directory speaks of locations throughout.
-/

namespace MapChain

/-- A part that names a file or directory. -/
def Part.IsName (part : Part) : Prop := ∃ name, part = .name name

namespace Path

/-- An absolute path without steps up and references to the directory itself. -/
structure IsLocation (path : Path) : Prop where
  absolute : path.absolute = true
  named : ∀ part ∈ path.parts, part.IsName

/-- The root directory is a location. -/
theorem isLocation_root : IsLocation root := ⟨rfl, by simp [root]⟩

/-- Names are stacked one on the other. -/
theorem foldl_push_names (absolute : Bool) (stack parts : List Part)
    (named : ∀ part ∈ parts, part.IsName) :
    parts.foldl (push absolute) stack = parts.reverse ++ stack := by
  induction parts generalizing stack with
  | nil => rfl
  | cons part parts inductionHypothesis =>
    obtain ⟨name, rfl⟩ := named part (by simp)
    have tailNamed : ∀ other ∈ parts, other.IsName := fun other member =>
      named other (by simp [member])
    simp [push, inductionHypothesis _ tailNamed]

/-- As many steps up as there are names on top of a stack remove these names. -/
theorem foldl_push_ups (absolute : Bool) (names stack : List Part)
    (named : ∀ part ∈ names, part.IsName) :
    (List.replicate names.length .up).foldl (push absolute) (names ++ stack) = stack := by
  induction names with
  | nil => rfl
  | cons part names inductionHypothesis =>
    obtain ⟨name, rfl⟩ := named part (by simp)
    have tailNamed : ∀ other ∈ names, other.IsName := fun other member =>
      named other (by simp [member])
    simpa [List.replicate_succ, push] using inductionHypothesis tailNamed

/-- Above steps up, with no name to leave, a further step up is kept. -/
theorem push_up_replicate (above : Nat) :
    push false (List.replicate above .up) .up = List.replicate (above + 1) .up := by
  cases above <;> rfl

/-- Above steps up, with no name to leave, further steps up are all kept. -/
theorem foldl_push_replicate_up (above steps : Nat) :
    (List.replicate steps .up).foldl (push false) (List.replicate above .up) =
      List.replicate (above + steps) .up := by
  induction steps generalizing above with
  | zero => rfl
  | succ steps inductionHypothesis =>
    rw [List.replicate_succ, List.foldl_cons, push_up_replicate, inductionHypothesis,
      Nat.add_right_comm, Nat.add_assoc]

/-- Below the root every stack holds names only. -/
theorem foldl_push_named (parts stack : List Part) (named : ∀ part ∈ stack, part.IsName) :
    ∀ part ∈ parts.foldl (push true) stack, part.IsName := by
  induction parts generalizing stack with
  | nil => exact named
  | cons part parts inductionHypothesis =>
    refine inductionHypothesis (push true stack part) ?_
    cases part with
    | here => exact named
    | name name =>
      intro other member
      rcases List.mem_cons.mp member with rfl | member
      · exact ⟨name, rfl⟩
      · exact named other member
    | up =>
      cases stack with
      | nil => simp [push]
      | cons top below =>
        obtain ⟨name, rfl⟩ := named top (by simp)
        exact fun other member => named other (by simp_all [push])

/-- The normal form of an absolute path is a location. -/
theorem isLocation_normalize (path : Path) (absolute : path.absolute = true) :
    IsLocation path.normalize := by
  refine ⟨absolute, ?_⟩
  intro part member
  rw [normalize, List.mem_reverse, absolute] at member
  exact foldl_push_named path.parts [] (by simp) part member

/-- A location is its own normal form. -/
theorem normalize_eq_self (path : Path) (location : IsLocation path) : path.normalize = path := by
  simp [normalize, foldl_push_names _ _ _ location.named]

/-- The locations are the absolute paths that are normal. -/
theorem isLocation_iff {path : Path} :
    path.IsLocation ↔ path.absolute = true ∧ path.normalize = path := by
  constructor
  · exact fun location => ⟨location.absolute, normalize_eq_self path location⟩
  · rintro ⟨absolute, normal⟩
    exact normal ▸ isLocation_normalize path absolute

/-- An absolute path is seen as it is. -/
theorem under_of_absolute (base : Path) {path : Path} (absolute : path.absolute = true) :
    base.under path = path := if_pos (.inl absolute)

/-- From the path without parts every path is seen as it is. -/
theorem empty_under (path : Path) : empty.under path = path := if_pos (.inr rfl)

/-- From any other path a relative path adds its parts, references to the directory itself apart. -/
theorem under_of_relative {base path : Path} (somewhere : base ≠ empty)
    (relative : ¬path.absolute = true) :
    base.under path = ⟨base.absolute, base.parts ++ path.parts.filter (· ≠ .here)⟩ :=
  if_neg (not_or.mpr ⟨relative, somewhere⟩)

/-- An absolute directory is somewhere. -/
theorem ne_empty_of_absolute {base : Path} (absolute : base.absolute = true) : base ≠ empty := by
  rintro rfl
  simp [empty] at absolute

/-- What is seen from an absolute directory is absolute. -/
theorem under_absolute (base path : Path) (absolute : base.absolute = true) :
    (base.under path).absolute = true := by
  by_cases away : path.absolute = true
  · rw [under_of_absolute base away]
    exact away
  · rw [under_of_relative (ne_empty_of_absolute absolute) away]
    exact absolute

/-- What is seen from an absolute directory resolves to a location. -/
theorem isLocation_resolve (base path : Path) (absolute : base.absolute = true) :
    IsLocation (base.resolve path) :=
  isLocation_normalize _ (under_absolute base path absolute)

/-- A location is seen alike from everywhere. -/
theorem under_eq_self (base path : Path) (location : IsLocation path) :
    base.under path = path := under_of_absolute base location.absolute

/-- From everywhere a location resolves to itself. -/
theorem resolve_eq_self (base path : Path) (location : IsLocation path) :
    base.resolve path = path := by
  rw [resolve, under_eq_self base path location, normalize_eq_self path location]

/-- The directory of a location is a location. -/
theorem isLocation_parent (path : Path) (location : IsLocation path) : IsLocation path.parent :=
  ⟨location.absolute, fun part member => location.named part (List.dropLast_subset _ member)⟩

/-- A name in a location's directory is a location. -/
theorem isLocation_under (base path : Path) (location : IsLocation base)
    (named : ∀ part ∈ path.parts, part.IsName) : IsLocation (base.under path) := by
  refine ⟨under_absolute base path location.absolute, ?_⟩
  intro part member
  by_cases away : path.absolute = true
  · rw [under_of_absolute base away] at member
    exact named part member
  · rw [under_of_relative (ne_empty_of_absolute location.absolute) away] at member
    rcases List.mem_append.mp member with member | member
    · exact location.named part member
    · exact named part (List.mem_filter.mp member).1

/-- The name of content without a file is a name. -/
theorem named_anonymous : ∀ part ∈ anonymous.parts, part.IsName := by
  have parts : anonymous.parts = [.name ⟨"<anonymous>".toList, by decide⟩] := rfl
  intro part member
  rw [parts, List.mem_singleton] at member
  exact ⟨_, member⟩

end Path

end MapChain
