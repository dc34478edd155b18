import MapChain.Path.Relative
import MapChain.Proofs.Path.Normal
import MapChain.Proofs.Path.Written
import Mathlib.Data.Set.Operations

/-!
# Relative paths lead to their target

Between two locations the way from a directory to a target resolves to that target, also
after the way has been written down and read again. Hence, as seen from one directory,
two targets never share a way.
-/

namespace MapChain.Path

/-- Two lists are what they start with in common and what is left of each. -/
theorem dropCommon_spec (first second : List Part) :
    ∃ common, first = common ++ (dropCommon first second).1 ∧
      second = common ++ (dropCommon first second).2 := by
  induction first generalizing second with
  | nil => exact ⟨[], by simp [dropCommon]⟩
  | cons part first inductionHypothesis =>
    cases second with
    | nil => exact ⟨[], by simp [dropCommon]⟩
    | cons other second =>
      by_cases same : part = other
      · obtain ⟨common, left, right⟩ := inductionHypothesis second
        refine ⟨part :: common, ?_⟩
        simpa [dropCommon, same] using ⟨left, right⟩
      · exact ⟨[], by simp [dropCommon, same]⟩

/-- The parts of steps that count when they are seen from a directory. -/
theorem steps_parts (target : List Part) (climb : Nat) (named : ∀ part ∈ target, part.IsName) :
    (steps target climb).parts.filter (· ≠ .here) = List.replicate climb .up ++ target := by
  have kept : ∀ part ∈ List.replicate climb Part.up ++ target, part ≠ .here := by
    intro part member
    rcases List.mem_append.mp member with member | member
    · simp [List.eq_of_mem_replicate member]
    · obtain ⟨name, rfl⟩ := named part member
      simp
  simp only [steps]
  split
  · rename_i nothing
    simp [nothing]
  · exact List.filter_eq_self.mpr (by simpa using kept)

/-- Steps are a relative path. -/
theorem steps_relative (target : List Part) (climb : Nat) :
    (steps target climb).absolute = false := by
  simp only [steps]
  split <;> rfl

/-- Steps read back from their text. -/
theorem steps_isSpelled (target : List Part) (climb : Nat)
    (named : ∀ part ∈ target, part.IsName) : (steps target climb).IsSpelled := by
  have kept : Part.here ∉ List.replicate climb Part.up ++ target := by
    intro member
    rcases List.mem_append.mp member with member | member
    · simpa using List.eq_of_mem_replicate member
    · obtain ⟨name, impossible⟩ := named .here member
      simp at impossible
  simp only [steps]
  split
  · simp [IsSpelled]
  · exact fun member => kept (List.mem_of_mem_tail member)

/-- Steps that climb out of a directory's last names lead to what lies beside these. -/
theorem resolve_steps (common names target : List Part)
    (commonNamed : ∀ part ∈ common, part.IsName) (namesNamed : ∀ part ∈ names, part.IsName)
    (targetNamed : ∀ part ∈ target, part.IsName) :
    resolve ⟨true, common ++ names⟩ (steps target names.length) = ⟨true, common ++ target⟩ := by
  have climb : (List.replicate names.length .up).foldl (push true)
      (names.reverse ++ common.reverse) = common.reverse := by
    simpa using foldl_push_ups true names.reverse common.reverse (by simpa using namesNamed)
  have seen : under ⟨true, common ++ names⟩ (steps target names.length) =
      ⟨true, common ++ names ++ (List.replicate names.length .up ++ target)⟩ := by
    have relative : ¬(steps target names.length).absolute = true := by simp [steps_relative]
    rw [under_of_relative (ne_empty_of_absolute rfl) relative,
      steps_parts target names.length targetNamed]
  have stacked : (common ++ names ++ (List.replicate names.length Part.up ++ target)).foldl
      (push true) [] = target.reverse ++ common.reverse := by
    rw [List.foldl_append, List.foldl_append, List.foldl_append,
      foldl_push_names true [] common commonNamed, foldl_push_names true _ names namesNamed,
      List.append_nil, climb, foldl_push_names true _ target targetNamed]
  simp only [resolve, seen, normalize, stacked, List.reverse_append, List.reverse_reverse]

/-- The way from a directory to a target climbs out of the names that only the directory has and
goes down through those that only the target has. -/
theorem exists_relativeTo_eq_steps {target base : Path} (targetPlaced : IsLocation target)
    (basePlaced : IsLocation base) : ∃ common names ahead, target = ⟨true, common ++ ahead⟩ ∧
      base = ⟨true, common ++ names⟩ ∧ target.relativeTo base = steps ahead names.length := by
  obtain ⟨_, targetParts⟩ := target
  obtain ⟨_, baseParts⟩ := base
  obtain ⟨rfl, _⟩ := targetPlaced
  obtain ⟨rfl, _⟩ := basePlaced
  obtain ⟨common, left, right⟩ := dropCommon_spec targetParts baseParts
  exact ⟨common, _, _, congrArg (Path.mk true) left, congrArg (Path.mk true) right, rfl⟩

/-- The way from a directory to a target leads to the target. -/
theorem resolve_way {target base : Path} (targetPlaced : IsLocation target)
    (basePlaced : IsLocation base) : base.resolve (target.relativeTo base) = target := by
  obtain ⟨common, names, ahead, rfl, rfl, way⟩ := exists_relativeTo_eq_steps targetPlaced basePlaced
  rw [way]
  exact resolve_steps common names ahead
    (fun part member => targetPlaced.named part (List.mem_append_left _ member))
    (fun part member => basePlaced.named part (List.mem_append_right _ member))
    (fun part member => targetPlaced.named part (List.mem_append_right _ member))

/-- The way from a directory to a target reads back from its text. -/
theorem ofText_way {target base : Path} (targetPlaced : IsLocation target)
    (basePlaced : IsLocation base) :
    ofText (target.relativeTo base).text = target.relativeTo base := by
  obtain ⟨common, names, ahead, rfl, _, way⟩ := exists_relativeTo_eq_steps targetPlaced basePlaced
  rw [way]
  exact ofText_text _ (steps_isSpelled ahead names.length
    fun part member => targetPlaced.named part (List.mem_append_right _ member))

/-- The way from a directory to a target leads to the target as it is written. -/
theorem resolve_relativeTo (target base : Path) (targetPlaced : IsLocation target)
    (basePlaced : IsLocation base) :
    base.resolve (ofText (target.relativeTo base).text) = target := by
  rw [ofText_way targetPlaced basePlaced, resolve_way targetPlaced basePlaced]

/-- What ways from a directory are good for: each leads to its target, also when it has been
written down and read again, and no two targets share one. -/
structure AreWays (base : Path) (way : Path → Path) : Prop where
  lead : ∀ target, target.IsLocation → base.resolve (way target) = target
  read : ∀ target, target.IsLocation → ofText (way target).text = way target
  distinct : Set.InjOn way {target | target.IsLocation}

/-- Between locations, relative paths are ways. -/
theorem areWays_relativeTo {base : Path} (placed : base.IsLocation) :
    AreWays base fun target => target.relativeTo base := by
  refine ⟨fun target location => resolve_way location placed,
    fun target location => ofText_way location placed, ?_⟩
  intro first firstPlaced second secondPlaced same
  have one := resolve_way firstPlaced placed
  have other := resolve_way secondPlaced placed
  calc first = base.resolve (first.relativeTo base) := one.symm
    _ = base.resolve (second.relativeTo base) := congrArg base.resolve same
    _ = second := other

/-- A directory two levels down, with a name that holds blanks and points. -/
def nested : Path := ofText "/work/my ..scripts"

/-- Relative paths lead from a directory two levels down to the root, to the directory itself and to
a file beside it. -/
theorem areWays_relativeTo_nested :
    (nested.IsLocation ∧ AreWays nested fun target => target.relativeTo nested) ∧
      (root.relativeTo nested).text = "../.." ∧ (nested.relativeTo nested).text = "." ∧
      ((ofText "/work/.. /a.js").relativeTo nested).text = "../.. /a.js" := by
  have placed : nested.IsLocation := isLocation_iff.mpr ⟨rfl, by decide +kernel⟩
  exact ⟨⟨placed, areWays_relativeTo placed⟩, by decide +kernel, by decide +kernel,
    by decide +kernel⟩

end MapChain.Path
