import Mathlib.Data.List.Forall2

/-!
# Lists that correspond item by item

Two lists correspond if they are equally long and the items at each place are related.
Results of a list that was processed correspond to its items; related lists end in related
items; and a place or an item of one list leads to its counterpart in the other.
-/

namespace MapChain.Itemwise

/-- A computation that succeeds goes through a value of its first part. -/
theorem exists_of_bind_eq_ok {first : Except ε α} {next : α → Except ε β} {result : β}
    (succeeded : first >>= next = .ok result) :
    ∃ value, first = .ok value ∧ next value = .ok result := by
  cases first with
  | error error => simp [bind, Except.bind] at succeeded
  | ok value => exact ⟨value, rfl, succeeded⟩

/-- A computation that fails does so in its first part or after it. -/
theorem cases_of_bind_eq_error {first : Except ε α} {next : α → Except ε β} {error : ε}
    (failed : first >>= next = .error error) :
    first = .error error ∨ ∃ value, first = .ok value ∧ next value = .error error := by
  cases first with
  | error own => exact .inl (congrArg _ (Except.error.inj failed))
  | ok value => exact .inr ⟨value, rfl, failed⟩

/-- A computation whose result is translated succeeds if it does without. -/
theorem exists_of_map_eq_ok {computation : Except ε α} {translate : α → β} {result : β}
    (succeeded : computation.map translate = .ok result) :
    ∃ value, computation = .ok value ∧ translate value = result := by
  cases computation with
  | error error => simp [Except.map] at succeeded
  | ok value => exact ⟨value, rfl, Except.ok.inj succeeded⟩

/-- A list is processed item by item. -/
theorem forall₂_of_mapM_eq_ok (action : α → Except ε β) (items : List α) (results : List β)
    (processed : items.mapM action = .ok results) :
    List.Forall₂ (fun item result => action item = .ok result) items results := by
  induction items generalizing results with
  | nil =>
    obtain rfl := Except.ok.inj processed
    exact .nil
  | cons item items inductionHypothesis =>
    rw [List.mapM_cons] at processed
    obtain ⟨first, done, rest⟩ := exists_of_bind_eq_ok processed
    obtain ⟨others, gathered, last⟩ := exists_of_bind_eq_ok rest
    obtain rfl := Except.ok.inj last
    exact .cons done (inductionHypothesis others gathered)

/-- Where processing a list fails, a first item fails with the same error. -/
theorem exists_of_mapM_eq_error (action : α → Except ε β) (items : List α) (error : ε)
    (failed : items.mapM action = .error error) :
    ∃ (index : Nat) (item : α), items[index]? = some item ∧ action item = .error error ∧
      ∀ earlier < index, ∀ other, items[earlier]? = some other →
        ∃ result, action other = .ok result := by
  induction items with
  | nil => simp [pure, Except.pure] at failed
  | cons item items inductionHypothesis =>
    rw [List.mapM_cons] at failed
    rcases cases_of_bind_eq_error failed with fails | ⟨result, done, rest⟩
    · exact ⟨0, item, rfl, fails, by simp⟩
    · rcases cases_of_bind_eq_error rest with others | ⟨_, _, last⟩
      · obtain ⟨index, culprit, found, fails, before⟩ := inductionHypothesis others
        refine ⟨index + 1, culprit, found, fails, ?_⟩
        intro earlier less other listed
        cases earlier with
        | zero =>
          obtain rfl := Option.some.inj listed
          exact ⟨result, done⟩
        | succ earlier => exact before earlier (by omega) other listed
      · simp [pure, Except.pure] at last

/-- A list whose items may have no result is processed item by item. -/
theorem forall₂_of_mapM_eq_some (action : α → Option β) (items : List α) (results : List β)
    (processed : items.mapM action = some results) :
    List.Forall₂ (fun item result => action item = some result) items results := by
  induction items generalizing results with
  | nil =>
    obtain rfl := Option.some.inj processed
    exact .nil
  | cons item items inductionHypothesis =>
    rw [List.mapM_cons] at processed
    obtain ⟨first, done, rest⟩ := Option.bind_eq_some_iff.mp processed
    obtain ⟨others, gathered, last⟩ := Option.bind_eq_some_iff.mp rest
    obtain rfl := Option.some.inj last
    exact .cons done (inductionHypothesis others gathered)

/-- Items that are not all good have a first one that is not. -/
theorem exists_first_of_not_forall {items : List α} {good : α → Prop}
    (bad : ¬∀ item ∈ items, good item) : ∃ front item behind,
    items = front ++ item :: behind ∧ ¬good item ∧ ∀ other ∈ front, good other := by
  induction items with
  | nil => simp at bad
  | cons item items inductionHypothesis =>
    by_cases own : good item
    · have later : ¬∀ other ∈ items, good other :=
        fun all => bad (List.forall_mem_cons.mpr ⟨own, all⟩)
      obtain ⟨front, culprit, behind, rfl, fails, before⟩ := inductionHypothesis later
      exact ⟨item :: front, culprit, behind, rfl, fails, List.forall_mem_cons.mpr ⟨own, before⟩⟩
    · exact ⟨[], item, items, rfl, own, by simp⟩

variable {Related : α → β → Prop}

/-- Corresponding lists end in corresponding items or both in none. -/
theorem rel_getLast? {first : List α} {second : List β}
    (related : List.Forall₂ Related first second) :
    Option.Rel Related first.getLast? second.getLast? := by
  have reversed : List.Forall₂ Related first.reverse second.reverse := List.rel_reverse related
  rw [List.getLast?_eq_head?_reverse, List.getLast?_eq_head?_reverse]
  generalize first.reverse = front, second.reverse = other at reversed
  cases reversed with
  | nil => exact .none
  | cons last _ => exact .some last

/-- An item of the second list has a counterpart in the first. -/
theorem exists_of_mem_right {first : List α} {second : List β}
    (related : List.Forall₂ Related first second) {item : β} (member : item ∈ second) :
    ∃ counterpart ∈ first, Related counterpart item := by
  induction related with
  | nil => simp at member
  | cons head _ inductionHypothesis =>
    rcases List.mem_cons.mp member with rfl | member
    · exact ⟨_, by simp, head⟩
    · obtain ⟨counterpart, inside, each⟩ := inductionHypothesis member
      exact ⟨counterpart, by simp [inside], each⟩

/-- Where two correspondences of items lead on to a third, so do those of lists. -/
theorem compose {Next : β → γ → Prop} {Whole : α → γ → Prop} {first : List α}
    {second : List β} {third : List γ} (related : List.Forall₂ Related first second)
    (next : List.Forall₂ Next second third)
    (each : ∀ early middle late, Related early middle → Next middle late → Whole early late) :
    List.Forall₂ Whole first third := by
  induction related generalizing third with
  | nil =>
    cases next
    exact .nil
  | cons head _ inductionHypothesis =>
    cases next with
    | cons nextHead rest => exact .cons (each _ _ _ head nextHead) (inductionHypothesis rest)

/-- Corresponding lists have corresponding items at a place or both none. -/
theorem rel_getElem? {first : List α} {second : List β}
    (related : List.Forall₂ Related first second) (place : Nat) :
    Option.Rel Related first[place]? second[place]? := by
  induction related generalizing place with
  | nil => exact .none
  | cons head _ inductionHypothesis =>
    cases place with
    | zero => exact .some head
    | succ place => simpa using inductionHypothesis place

end MapChain.Itemwise
