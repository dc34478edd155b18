import Mathlib.Data.List.Induction

/-!
# Entries at their first use

A list that is read from left to right uses each of its items a first time. What is left
when every later use is struck out is the list of its items in the order of their first
uses. Reading one item more adds it to this list if it has not been used before, and
nothing else, which is how all that is said here is shown.
-/

namespace MapChain.FirstUses

variable {α β : Type*} [BEq α] [LawfulBEq α] [BEq β] [LawfulBEq β]

/-- An item that has been used before is not listed again. -/
theorem eraseDups_concat_of_mem {items : List α} {item : α} (known : item ∈ items) :
    (items ++ [item]).eraseDups = items.eraseDups := by
  rw [List.eraseDups_append, List.removeAll, List.filter_cons_of_neg (by simpa using known)]
  simp

/-- An item that has not been used before is listed behind the others. -/
theorem eraseDups_concat_of_not_mem {items : List α} {item : α} (new : item ∉ items) :
    (items ++ [item]).eraseDups = items.eraseDups ++ [item] := by
  rw [List.eraseDups_append, List.removeAll, List.filter_cons_of_pos (by simpa using new)]
  simp [List.eraseDups_cons]

/-- No item is listed twice. -/
theorem nodup_eraseDups (items : List α) : items.eraseDups.Nodup := by
  induction items using List.reverseRecOn with
  | nil => simp
  | append_singleton items item inductionHypothesis =>
    by_cases known : item ∈ items
    · exact eraseDups_concat_of_mem known ▸ inductionHypothesis
    · rw [eraseDups_concat_of_not_mem known, List.nodup_append]
      refine ⟨inductionHypothesis, by simp, ?_⟩
      rintro other listed last own rfl
      obtain rfl := List.mem_singleton.mp own
      exact known (List.mem_eraseDups.mp listed)

/-- Items that are turned into others, different ones into different ones, are used in the
same order. -/
theorem eraseDups_map (turn : α → β) (items : List α)
    (apart : ∀ first ∈ items, ∀ second ∈ items, turn first = turn second → first = second) :
    (items.map turn).eraseDups = items.eraseDups.map turn := by
  induction items using List.reverseRecOn with
  | nil => rfl
  | append_singleton items item inductionHypothesis =>
    have earlier := inductionHypothesis fun first early second other =>
      apart first (by simp [early]) second (by simp [other])
    rw [List.map_append, List.map_singleton]
    by_cases known : item ∈ items
    · rw [eraseDups_concat_of_mem known, eraseDups_concat_of_mem (List.mem_map_of_mem known),
        earlier]
    · have new : turn item ∉ items.map turn := by
        intro member
        obtain ⟨other, early, same⟩ := List.mem_map.mp member
        exact known (apart other (by simp [early]) item (by simp) same ▸ early)
      rw [eraseDups_concat_of_not_mem known, eraseDups_concat_of_not_mem new, earlier,
        List.map_append, List.map_singleton]

end MapChain.FirstUses
