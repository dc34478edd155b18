import MapChain.Path.Basic

/-!
# Relative paths

How to reach one path from a directory: as many steps up as the directory has parts
beyond those that both share, then the parts of the target that are left. Paths count
as they are written, so the result leads to the target where both are normal. A target
that cannot be reached by steps, because only it is absolute, is given as it is.
-/

namespace MapChain.Path

/-- Both lists without the parts that they start with in common. -/
def dropCommon : List Part → List Part → List Part × List Part
  | first :: firsts, second :: seconds =>
    if first = second then dropCommon firsts seconds else (first :: firsts, second :: seconds)
  | firsts, seconds => (firsts, seconds)

/-- The steps that lead from a directory to a path below neither. -/
def steps (target : List Part) (climb : Nat) : Path :=
  match List.replicate climb .up ++ target with
  | [] => ⟨false, [.here]⟩
  | parts => ⟨false, parts⟩

/-- How to reach `target` from the directory `base`. -/
def relativeTo (target base : Path) : Path :=
  if target.absolute = base.absolute then
    let (target, base) := dropCommon target.parts base.parts
    steps target base.length
  else if target.absolute then target
  else steps target.parts (base.parts.length + 1)

end MapChain.Path
