import MapChain.Chain.Build
import MapChain.Proofs.Path.Normal

/-!
# Normal forms of paths

A normal path climbs first and then goes down through names; an absolute one does not climb.
Every path has exactly one normal form, and a path that goes on from a directory has the same
one whether the directory is brought into its own before or not. So it makes no difference
through how many directories a file is named: that of a map, its source root, the source.
-/

namespace MapChain.Path

/-- A stack of parts, the last one on top, that holds names and below them steps up. At the
root no step up is kept. -/
def IsStack (absolute : Bool) (stack : List Part) : Prop :=
  ∃ names climb, stack = names ++ List.replicate climb .up ∧
    (∀ part ∈ names, part.IsName) ∧ (absolute = true → climb = 0)

/-- A path without references to the directory itself whose steps up, if it has any, come before
all names. An absolute one has none. -/
def IsNormal (path : Path) : Prop :=
  ∃ climb names, path.parts = List.replicate climb .up ++ names ∧
    (∀ part ∈ names, part.IsName) ∧ (path.absolute = true → climb = 0)

/-- The parts of a normal path are a stack from the bottom up. -/
theorem isNormal_iff_isStack (path : Path) :
    path.IsNormal ↔ IsStack path.absolute path.parts.reverse := by
  constructor
  · rintro ⟨climb, names, spelled, named, grounded⟩
    exact ⟨names.reverse, climb, by simp [spelled], by simpa using named, grounded⟩
  · rintro ⟨names, climb, spelled, named, grounded⟩
    rw [List.reverse_eq_iff] at spelled
    exact ⟨climb, names.reverse, by simp [spelled], by simpa using named, grounded⟩

/-- Every part that is taken onto a stack leaves a stack. -/
theorem IsStack.push {absolute : Bool} {stack : List Part} (stacked : IsStack absolute stack)
    (part : Part) : IsStack absolute (push absolute stack part) := by
  obtain ⟨names, climb, rfl, named, grounded⟩ := stacked
  cases part with
  | here => exact ⟨names, climb, rfl, named, grounded⟩
  | name name =>
    refine ⟨.name name :: names, climb, rfl, ?_, grounded⟩
    exact List.forall_mem_cons.mpr ⟨⟨name, rfl⟩, named⟩
  | up =>
    cases names with
    | cons top names =>
      obtain ⟨name, rfl⟩ := named top (by simp)
      exact ⟨names, climb, rfl, fun other member => named other (by simp [member]), grounded⟩
    | nil =>
      cases absolute with
      | true =>
        obtain rfl := grounded rfl
        exact ⟨[], 0, rfl, named, fun _ => rfl⟩
      | false => exact ⟨[], climb + 1, push_up_replicate climb, named, by simp⟩

/-- Taking parts onto a stack, one after the other, leaves a stack. -/
theorem IsStack.foldl_push {absolute : Bool} {stack : List Part} (stacked : IsStack absolute stack)
    (parts : List Part) : IsStack absolute (parts.foldl (Path.push absolute) stack) := by
  induction parts generalizing stack with
  | nil => exact stacked
  | cons part parts inductionHypothesis => exact inductionHypothesis (stacked.push part)

/-- The stack that a path's parts come to. -/
def stack (path : Path) : List Part := path.parts.foldl (push path.absolute) []

/-- What a path's parts come to holds names above steps up. -/
theorem isStack_stack (path : Path) : IsStack path.absolute path.stack :=
  IsStack.foldl_push ⟨[], 0, rfl, by simp, fun _ => rfl⟩ path.parts

/-- Steps up that meet no name are kept, except at the root. -/
theorem foldl_push_climb (absolute : Bool) (climb : Nat) (grounded : absolute = true → climb = 0) :
    (List.replicate climb .up).foldl (push absolute) [] = List.replicate climb .up := by
  cases absolute with
  | true =>
    obtain rfl := grounded rfl
    rfl
  | false => simpa using foldl_push_replicate_up 0 climb

/-- A stack that is taken up part by part is the same stack again. -/
theorem IsStack.foldl_reverse {absolute : Bool} {stack : List Part}
    (stacked : IsStack absolute stack) :
    stack.reverse.foldl (Path.push absolute) [] = stack := by
  obtain ⟨names, climb, rfl, named, grounded⟩ := stacked
  rw [List.reverse_append, List.reverse_replicate, List.foldl_append,
    foldl_push_climb absolute climb grounded,
    foldl_push_names absolute _ _ (by simpa using named), List.reverse_reverse]

/-- A path is normal exactly if it is its own normal form. -/
theorem normalize_eq_self_iff (path : Path) : path.normalize = path ↔ path.IsNormal := by
  rw [isNormal_iff_isStack]
  constructor
  · intro same
    have own : path.parts.reverse = path.stack :=
      List.reverse_eq_iff.mpr (congrArg parts same).symm
    rw [own]
    exact path.isStack_stack
  · intro stacked
    have again := stacked.foldl_reverse
    rw [List.reverse_reverse] at again
    simp only [normalize, again, List.reverse_reverse]

/-- References to the directory itself add nothing to a stack. -/
theorem foldl_push_filter_here (absolute : Bool) (stack parts : List Part) :
    (parts.filter (· ≠ .here)).foldl (push absolute) stack = parts.foldl (push absolute) stack := by
  induction parts generalizing stack with
  | nil => rfl
  | cons part parts inductionHypothesis =>
    cases part with
    | here => exact inductionHypothesis stack
    | up => exact inductionHypothesis _
    | name name => exact inductionHypothesis _

/-- A relative path goes on from the stack that its directory comes to. -/
theorem normalize_under (base path : Path) (relative : path.absolute = false) :
    (base.under path).normalize =
      ⟨base.absolute, (path.parts.foldl (push base.absolute) base.stack).reverse⟩ := by
  obtain ⟨absolute, parts⟩ := path
  obtain rfl : absolute = false := relative
  by_cases nowhere : base = empty
  · subst nowhere
    rfl
  · rw [under_of_relative nowhere (by simp)]
    simp only [normalize, List.foldl_append, foldl_push_filter_here]
    rfl

/-- The normal form of a directory comes to the same stack as the directory. -/
theorem stack_normalize (path : Path) : path.normalize.stack = path.stack :=
  path.isStack_stack.foldl_reverse

/-- A path that goes on from a directory has the same normal form as from the directory's. -/
theorem normalize_under_normalize (base path : Path) :
    (base.normalize.under path).normalize = (base.under path).normalize := by
  cases kind : path.absolute with
  | true => rw [under_of_absolute _ kind, under_of_absolute _ kind]
  | false =>
    rw [normalize_under base path kind, normalize_under base.normalize path kind, stack_normalize]
    rfl

/-- The path without parts leads to the directory that it is seen from. -/
theorem under_empty (base : Path) : base.under empty = base := by
  by_cases nowhere : base = empty
  · rw [nowhere, empty_under]
  · rw [under_of_relative nowhere (by decide)]
    simp [empty]

/-- What is seen from somewhere is somewhere. -/
theorem under_ne_empty {base path : Path} (somewhere : base ≠ empty)
    (relative : ¬path.absolute = true) : base.under path ≠ empty := by
  obtain ⟨absolute, parts⟩ := base
  rw [under_of_relative somewhere relative]
  intro nowhere
  obtain ⟨rfl, nothing⟩ := Path.mk.inj nowhere
  obtain ⟨rfl, _⟩ := List.append_eq_nil_iff.mp nothing
  exact somewhere rfl

/-- A path is joined to its directory before another goes on from it, or afterwards. -/
theorem under_under (base path other : Path) :
    (base.under path).under other = base.under (path.under other) := by
  by_cases away : other.absolute = true
  · rw [under_of_absolute _ away, under_of_absolute path away, under_of_absolute base away]
  by_cases nowhere : base = empty
  · rw [nowhere, empty_under, empty_under]
  by_cases still : path = empty
  · rw [still, under_empty, empty_under]
  by_cases absolute : path.absolute = true
  · have onward : (path.under other).absolute = true := under_absolute path other absolute
    rw [under_of_absolute base absolute, under_of_absolute base onward]
  · have onward : ¬(path.under other).absolute = true := by
      rw [under_of_relative still away]
      exact absolute
    rw [under_of_relative (under_ne_empty nowhere absolute) away,
      under_of_relative nowhere absolute, under_of_relative nowhere onward,
      under_of_relative still away]
    simp

/-- A path that goes on from another is found in one step or through where the other leads. -/
theorem resolve_under (base path other : Path) :
    base.resolve (path.under other) = (base.resolve path).resolve other := by
  rw [resolve, resolve, resolve, normalize_under_normalize, under_under]

/-- The normal form of a path is normal. -/
theorem isNormal_normalize (path : Path) : path.normalize.IsNormal := by
  rw [isNormal_iff_isStack, normalize, List.reverse_reverse]
  exact path.isStack_stack

/-- What a normal form of paths is: a normal path of the same kind, none other than the path
itself if that is normal. A name and a step up behind it leave nothing, and a directory may be
brought into its normal form before a path goes on from it. -/
structure IsNormalization (normal : Path → Path) : Prop where
  isNormal : ∀ path, (normal path).IsNormal
  absolute : ∀ path, (normal path).absolute = path.absolute
  fixed : ∀ path, normal path = path ↔ path.IsNormal
  again : ∀ path, normal (normal path) = normal path
  back : ∀ path name, normal (path.under ⟨false, [.name name, .up]⟩) = normal path
  joined : ∀ base path, normal (base.under path) = normal ((normal base).under path)

/-- Normalizing gives the normal form of every path, and a source is found at the same path
whether its map's directory, the source root and the source are followed one after the other or
joined first. -/
theorem isNormalization_normalize : IsNormalization normalize ∧
    ∀ (document : Document) (directory source : Path),
      (Workspace.sourceDirectory document directory).resolve source =
        directory.resolve ((ofText (document.sourceRoot.getD "")).under source) := by
  constructor
  · exact {
      isNormal := isNormal_normalize
      absolute := fun path => rfl
      fixed := normalize_eq_self_iff
      again := fun path => (normalize_eq_self_iff _).mpr (isNormal_normalize path)
      back := fun path name => normalize_under path _ rfl
      joined := fun base path => (normalize_under_normalize base path).symm }
  · intro document directory source
    have unrooted : directory.resolve ((ofText "").under source) = directory.resolve source := by
      have nowhere : ofText "" = empty := by decide
      rw [nowhere, empty_under]
    cases given : document.sourceRoot with
    | none => simp only [Workspace.sourceDirectory, given, Option.getD_none, unrooted]
    | some root =>
      simp only [Workspace.sourceDirectory, given, Option.getD_some]
      by_cases void : root = ""
      · rw [if_pos void, void, unrooted]
      · rw [if_neg void, resolve_under]

end MapChain.Path
