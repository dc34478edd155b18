import MapChain.Proofs.Path.Canonical
import MapChain.Store.Memory

/-!
# Paths without steps up

A store in memory drops a step up that meets no name, where a normal path keeps it. So what it
makes of a path is the normal form without its climb, and of an absolute path the normal form.

A relative path that is resolved in a relative directory is seen from there twice when the
store looks for it. It comes to the same location only if it has climbed out of the directory
by as many steps as the directory has names.
-/

namespace MapChain.Path

/-- The location that names lead to; the root if there are none. -/
def ofNames (absolute : Bool) (names : List Part) : Path :=
  if names = [] then root else ⟨absolute, names⟩

/-- The parts that are left of a path lead to its location. -/
theorem clamp_eq (path : Path) :
    path.clamp = ofNames path.absolute (path.parts.foldl clampPush []).reverse := by
  rw [clamp, ofNames]
  split
  · rename_i nothing
    rw [if_pos (List.reverse_eq_nil_iff.mpr nothing)]
  · rename_i something
    rw [if_neg (by simpa using something)]

/-- Names that lead on from nowhere differ if their paths do. -/
theorem ofNames_false_inj {names others : List Part} :
    ofNames false names = ofNames false others ↔ names = others := by
  refine ⟨fun same => ?_, congrArg _⟩
  by_cases nothing : names = [] <;> by_cases none : others = [] <;>
    simp_all [ofNames, root]

/-- A part changes the names on a stack alike whether the steps up below them are kept or not. -/
theorem clampPush_filter {absolute : Bool} {stack : List Part} (stacked : IsStack absolute stack)
    (part : Part) :
    clampPush (stack.filter (· ≠ .up)) part = (push absolute stack part).filter (· ≠ .up) := by
  obtain ⟨names, climb, rfl, named, grounded⟩ := stacked
  cases part with
  | here => rfl
  | name name => rfl
  | up =>
    cases names with
    | cons top names =>
      obtain ⟨name, rfl⟩ := named top (by simp)
      rfl
    | nil =>
      cases absolute with
      | true =>
        obtain rfl := grounded rfl
        rfl
      | false => simp [push_up_replicate, clampPush]

/-- Taking parts onto a stack, one after the other, comes to the same names whether the steps up
below them are kept or not. -/
theorem foldl_clampPush_filter {absolute : Bool} {stack : List Part}
    (stacked : IsStack absolute stack) (parts : List Part) :
    parts.foldl clampPush (stack.filter (· ≠ .up)) =
      (parts.foldl (push absolute) stack).filter (· ≠ .up) := by
  induction parts generalizing stack with
  | nil => rfl
  | cons part parts inductionHypothesis =>
    rw [List.foldl_cons, List.foldl_cons, clampPush_filter stacked]
    exact inductionHypothesis (stacked.push part)

/-- The location of a path is that of the names in its normal form. -/
theorem clamp_eq_ofNames (path : Path) :
    path.clamp = ofNames path.absolute (path.normalize.parts.filter (· ≠ .up)) := by
  have start : IsStack path.absolute [] := ⟨[], 0, rfl, by simp, fun _ => rfl⟩
  have names := foldl_clampPush_filter start path.parts
  rw [List.filter_nil] at names
  rw [clamp_eq, names, normalize, List.filter_reverse]

/-- A store takes a name off for each step up, as long as there are names. -/
theorem foldl_clampPush_replicate_up (stack : List Part) (steps : Nat) :
    (List.replicate steps .up).foldl clampPush stack = stack.drop steps := by
  induction steps generalizing stack with
  | zero => rfl
  | succ steps inductionHypothesis =>
    rw [List.replicate_succ, List.foldl_cons, inductionHypothesis]
    simp [clampPush]

/-- Names are stacked one on the other. -/
theorem foldl_clampPush_names (stack parts : List Part) (named : ∀ part ∈ parts, part.IsName) :
    parts.foldl clampPush stack = parts.reverse ++ stack := by
  induction parts generalizing stack with
  | nil => rfl
  | cons part parts inductionHypothesis =>
    obtain ⟨⟨name, rfl⟩, rest⟩ := List.forall_mem_cons.mp named
    simp [clampPush, inductionHypothesis _ rest]

section Climb

variable (climb : Nat) {names : List Part} (named : ∀ part ∈ names, part.IsName)

include named

/-- Without its steps up, a climb with names behind it is these names. -/
theorem filter_up_climb :
    (List.replicate climb Part.up ++ names).filter (· ≠ .up) = names := by
  have kept : names.filter (· ≠ .up) = names := by
    rw [List.filter_eq_self]
    intro part member
    obtain ⟨name, rfl⟩ := named part member
    rfl
  rw [List.filter_append, kept]
  simp

/-- A climb with names behind it does not refer to the directory itself. -/
theorem filter_here_climb : (List.replicate climb Part.up ++ names).filter (· ≠ .here) =
    List.replicate climb Part.up ++ names := by
  rw [List.filter_eq_self]
  intro part member
  rcases List.mem_append.mp member with member | member
  · rw [List.eq_of_mem_replicate member]
    rfl
  · obtain ⟨name, rfl⟩ := named part member
    rfl

/-- The steps up in a climb with names behind it are those of the climb. -/
theorem count_up_climb : (List.replicate climb Part.up ++ names).count .up = climb := by
  have downward : .up ∉ names := by
    intro member
    obtain ⟨name, impossible⟩ := named .up member
    simp at impossible
  rw [List.count_append, List.count_replicate_self, List.count_eq_zero_of_not_mem downward,
    Nat.add_zero]

/-- In a store a climb with names behind it takes a name off for each step up, as long as there are
names, and then puts its own names on. -/
theorem foldl_clampPush_climb (stack : List Part) :
    (List.replicate climb Part.up ++ names).foldl clampPush stack =
      names.reverse ++ stack.drop climb := by
  rw [List.foldl_append, foldl_clampPush_replicate_up, foldl_clampPush_names _ _ named]

end Climb

/-- The location of an absolute path is its normal form. -/
theorem clamp_of_absolute {path : Path} (absolute : path.absolute = true) :
    path.clamp = path.normalize := by
  obtain ⟨rooted, named⟩ := isLocation_normalize path absolute
  have names : path.normalize.parts.filter (· ≠ .up) = path.normalize.parts :=
    filter_up_climb 0 named
  have spelled : path.normalize = ⟨true, path.normalize.parts⟩ := by rw [← rooted]
  rw [clamp_eq_ofNames, names, absolute, ofNames]
  split
  · rename_i nothing
    rw [spelled, nothing, root]
  · exact spelled.symm

/-- A store keeps a location as it is. -/
theorem clamp_eq_self (path : Path) (location : path.IsLocation) : path.clamp = path := by
  rw [clamp_of_absolute location.absolute, normalize_eq_self path location]

/-- A path that a store can be started in: names, and where there are none the root. -/
structure IsGrounded (path : Path) : Prop where
  named : ∀ part ∈ path.parts, part.IsName
  rooted : ¬path.absolute = true → path.parts ≠ []

/-- A store can be started in what it makes of a path. -/
theorem isGrounded_clamp (path : Path) : path.clamp.IsGrounded := by
  obtain ⟨climb, names, spelled, named, _⟩ := path.isNormal_normalize
  rw [clamp_eq_ofNames, spelled, filter_up_climb climb named, ofNames]
  split
  · exact ⟨isLocation_root.named, fun relative => absurd rfl relative⟩
  · rename_i something
    exact ⟨named, fun _ => something⟩

/-- A relative path that is resolved in a relative directory and then seen from there again comes
to its location exactly if it climbs by as many steps as the directory has names.

The climb takes that many names off the directory, and what is left of these stands in front of
the path's own names. -/
theorem clamp_under_resolve_iff {base path : Path} (grounded : base.IsGrounded)
    (baseRelative : ¬base.absolute = true) (relative : ¬path.absolute = true) :
    (base.under (base.resolve path)).clamp = (base.under path).clamp ↔
      base.parts.length ≤ (base.resolve path).parts.count .up := by
  have somewhere : base ≠ empty := by
    rintro rfl
    exact grounded.rooted baseRelative rfl
  have seen : (base.under path).absolute = base.absolute := by
    rw [under_of_relative somewhere relative]
  obtain ⟨climb, names, spelled, named, _⟩ := (base.under path).isNormal_normalize
  have resolved : base.resolve path = ⟨base.absolute, List.replicate climb .up ++ names⟩ := by
    rw [← spelled, ← seen]
    rfl
  have onward : ¬(base.resolve path).absolute = true := by
    rw [resolved]
    exact baseRelative
  have twice : (base.under (base.resolve path)).clamp =
      ofNames base.absolute ((base.parts.reverse.drop climb).reverse ++ names) := by
    rw [clamp_eq, under_of_relative somewhere onward, resolved, filter_here_climb climb named,
      List.foldl_append, foldl_clampPush_names _ _ grounded.named, List.append_nil,
      foldl_clampPush_climb climb named, List.reverse_append, List.reverse_reverse]
  have once : (base.under path).clamp = ofNames base.absolute names := by
    rw [clamp_eq_ofNames, spelled, filter_up_climb climb named, seen]
  have plain : base.absolute = false := by simpa using baseRelative
  rw [twice, once, plain, ofNames_false_inj, List.append_left_eq_self, List.reverse_eq_nil_iff,
    List.drop_eq_nil_iff, List.length_reverse, resolved, count_up_climb climb named]

end MapChain.Path
