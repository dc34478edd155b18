import MapChain.Chain.Flatten

/-!
# Sources and names that have been reached

Flattening only ever adds to what it has reached, so an index that was given out keeps
its entry. An index is the rank of its entry in as many bits as a segment holds. It
leads back to the entry as long as the list is no longer than these bits can count.
-/

namespace MapChain

/-- An index that a list's entry was given. The entry's rank is cut to the width of an
index. -/
def StandsFor (entries : List α) (index : UInt32) (entry : α) : Prop :=
  ∃ rank, entries[rank]? = some entry ∧ index = UInt32.ofNat rank

namespace StandsFor

/-- An index keeps its entry when more are added behind it. -/
theorem append {entries : List α} {index : UInt32} {entry : α}
    (stands : StandsFor entries index entry) (more : List α) :
    StandsFor (entries ++ more) index entry := by
  obtain ⟨rank, found, same⟩ := stands
  have inside : rank < entries.length := (List.getElem?_eq_some_iff.mp found).1
  exact ⟨rank, by rw [List.getElem?_append_left inside, found], same⟩

/-- Cutting a rank never makes it point behind the list. -/
theorem toNat_lt {entries : List α} {index : UInt32} {entry : α}
    (stands : StandsFor entries index entry) : index.toNat < entries.length := by
  obtain ⟨rank, found, rfl⟩ := stands
  have inside : rank < entries.length := (List.getElem?_eq_some_iff.mp found).1
  have least : rank % 2 ^ 32 ≤ rank := Nat.mod_le rank _
  rw [UInt32.toNat_ofNat']
  omega

/-- In a list that indices can count an index leads to its entry. -/
theorem getElem?_eq_some {entries : List α} {index : UInt32} {entry : α}
    (stands : StandsFor entries index entry) (countable : entries.length ≤ UInt32.size) :
    entries[index.toNat]? = some entry := by
  obtain ⟨rank, found, rfl⟩ := stands
  have inside : rank < entries.length := (List.getElem?_eq_some_iff.mp found).1
  have whole : rank % 2 ^ 32 = rank := Nat.mod_eq_of_lt (Nat.lt_of_lt_of_le inside countable)
  rw [UInt32.toNat_ofNat', whole, found]

/-- Indices stand for what entries are turned into. -/
theorem map {entries : List α} {index : UInt32} {entry : α}
    (stands : StandsFor entries index entry) (turn : α → β) :
    StandsFor (entries.map turn) index (turn entry) := by
  obtain ⟨rank, found, same⟩ := stands
  exact ⟨rank, by rw [List.getElem?_map, found, Option.map_some], same⟩

end StandsFor

namespace Reached

/-- Everything that was reached before is reached still, under the same indices. -/
structure Grows (before after : Reached) : Prop where
  sources : before.sources <+: after.sources
  names : before.names <+: after.names

/-- Nothing need be added. -/
theorem Grows.refl (reached : Reached) : reached.Grows reached := ⟨List.prefix_rfl, List.prefix_rfl⟩

/-- What grows twice grows. -/
theorem Grows.trans {first second third : Reached} (early : first.Grows second)
    (late : second.Grows third) : first.Grows third :=
  ⟨early.sources.trans late.sources, early.names.trans late.names⟩

/-- An origin that a hit is written as. -/
structure Records (reached : Reached) (hit : Hit) (origin : Origin) : Prop where
  source : StandsFor (reached.sources.map (·.1)) origin.source hit.location.source
  line : origin.line = if hit.location.line = 0 then 0 else hit.location.line - 1
  column : origin.column = hit.location.column
  name : Option.Rel (StandsFor reached.names) origin.name hit.location.name

/-- A record stays one when more is reached. -/
theorem Records.mono {before after : Reached} {hit : Hit} {origin : Origin}
    (records : before.Records hit origin) (grows : before.Grows after) :
    after.Records hit origin := by
  obtain ⟨source, line, column, name⟩ := records
  obtain ⟨⟨sources, wider⟩, names, longer⟩ := grows
  refine ⟨?_, line, column, ?_⟩
  · rw [← wider, List.map_append]
    exact source.append _
  · rw [← longer]
    generalize origin.name = index, hit.location.name = entry at name ⊢
    cases name with
    | none => exact .none
    | some stands => exact .some (stands.append names)

/-- Lines are recorded from zero on. -/
theorem Records.line_add_one {reached : Reached} {hit : Hit} {origin : Origin}
    (records : reached.Records hit origin) (counted : hit.location.line ≠ 0) :
    origin.line.toNat + 1 = hit.location.line.toNat := by
  have positive : hit.location.line.toNat ≠ 0 := fun zero => counted (UInt32.toNat_inj.mp zero)
  have one : (1 : UInt32) ≤ hit.location.line := by
    rw [UInt32.le_iff_toNat_le, UInt32.toNat_one]
    omega
  rw [records.line, if_neg counted, UInt32.toNat_sub_of_le _ _ one, UInt32.toNat_one]
  omega

/-- Reaching a source adds it if need be and gives its index. -/
theorem source_spec (reached : Reached) (path : Path) (content : Option String) :
    reached.Grows (reached.source path content).1 ∧
      StandsFor ((reached.source path content).1.sources.map (·.1))
        (UInt32.ofNat (reached.source path content).2) path := by
  simp only [source]
  split
  · rename_i rank found
    obtain ⟨inside, same, _⟩ := List.findIdx?_eq_some_iff_getElem.mp found
    refine ⟨.refl reached, rank, ?_, rfl⟩
    simpa [List.getElem?_eq_getElem inside] using same
  · refine ⟨⟨List.prefix_append _ _, List.prefix_rfl⟩, reached.sources.length, ?_, rfl⟩
    simp

/-- Reaching a name adds it if need be and gives its index. -/
theorem name_spec (reached : Reached) (name : String) :
    reached.Grows (reached.name name).1 ∧
      StandsFor (reached.name name).1.names (UInt32.ofNat (reached.name name).2) name := by
  simp only [Reached.name]
  split
  · rename_i rank found
    obtain ⟨inside, same, _⟩ := List.findIdx?_eq_some_iff_getElem.mp found
    refine ⟨.refl reached, rank, ?_, rfl⟩
    simpa [List.getElem?_eq_getElem inside] using same
  · refine ⟨⟨List.prefix_rfl, List.prefix_append _ _⟩, reached.names.length, ?_, rfl⟩
    simp

/-- Reaching no name gives no index. -/
theorem name?_spec (reached : Reached) (name : Option String) :
    reached.Grows (reached.name? name).1 ∧
      Option.Rel (StandsFor (reached.name? name).1.names) (reached.name? name).2 name := by
  cases name with
  | none => exact ⟨.refl reached, .none⟩
  | some name =>
    obtain ⟨grows, stands⟩ := reached.name_spec name
    exact ⟨grows, .some stands⟩

/-- A hit's origin records the hit. -/
theorem origin_spec (reached : Reached) (hit : Hit) :
    reached.Grows (reached.origin hit).1 ∧
      (reached.origin hit).1.Records hit (reached.origin hit).2 := by
  obtain ⟨sourceGrows, sourceStands⟩ := reached.source_spec hit.location.source hit.content
  obtain ⟨nameGrows, nameStands⟩ :=
    (reached.source hit.location.source hit.content).1.name?_spec hit.location.name
  refine ⟨sourceGrows.trans nameGrows, ?_, rfl, rfl, nameStands⟩
  obtain ⟨more, wider⟩ := nameGrows.sources
  simp only [origin]
  rw [← wider, List.map_append]
  exact sourceStands.append _

end Reached

end MapChain
