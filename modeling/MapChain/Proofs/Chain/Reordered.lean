import MapChain.Proofs.Chain.Anchors
import MapChain.Proofs.Chain.Visits

/-!
# The order of what is given

Texts and maps are given for paths, and paths that are spelled differently can name one file.
If all that is given for one file is the same, the order of the entries counts for nothing: the
same text and the same map is found for every file, and the depth that building runs on adds up
to the same. If not, the last entry wins, and another order can lead to another chain.
-/

namespace MapChain

/-- Entries whose paths name the same file hold the same. -/
def Overrides.IsSingleValued (cwd : Path) (entries : List (Path × α)) : Prop :=
  ∀ first ∈ entries, ∀ second ∈ entries,
    cwd.resolve first.1 = cwd.resolve second.1 → first.2 = second.2

/-- Overrides with the same entries in another order. -/
structure Overrides.Reorders (overrides other : Overrides) : Prop where
  contents : other.contents.Perm overrides.contents
  maps : other.maps.Perm overrides.maps

namespace Overrides

variable {cwd path : Path} {entries : List (Path × α)}

/-- An entry for a path has one that counts. -/
theorem exists_entry?_of_mem {entry : Path × α} (member : entry ∈ entries)
    (named : cwd.resolve entry.1 = path) : ∃ value, entry? cwd path entries = some value := by
  have present : (entries.reverse.find? fun entry => cwd.resolve entry.1 = path).isSome = true := by
    rw [List.find?_isSome]
    exact ⟨entry, by simpa using member, by simpa using named⟩
  obtain ⟨found, had⟩ := Option.isSome_iff_exists.mp present
  exact ⟨found.2, by rw [Overrides.entry?, had]; rfl⟩

/-- Where entries for one file hold the same, any of them tells what counts. -/
theorem entry?_eq_some_iff (single : IsSingleValued cwd entries) {value : α} :
    entry? cwd path entries = some value ↔
      ∃ key, (key, value) ∈ entries ∧ cwd.resolve key = path := by
  constructor
  · exact mem_of_entry?
  · rintro ⟨key, member, named⟩
    obtain ⟨own, found⟩ := exists_entry?_of_mem member named
    obtain ⟨other, inside, same⟩ := mem_of_entry? found
    have held : own = value := single _ inside _ member (same.trans named.symm)
    exact held ▸ found

/-- In another order entries still hold the same. -/
theorem IsSingleValued.perm {other : List (Path × α)} (single : IsSingleValued cwd entries)
    (reordered : other.Perm entries) : IsSingleValued cwd other := by
  intro first firstMember second secondMember
  exact single first (reordered.mem_iff.mp firstMember) second (reordered.mem_iff.mp secondMember)

/-- Where entries for one file hold the same, what counts for a path is the same in every order. -/
theorem entry?_perm {other : List (Path × α)} (single : IsSingleValued cwd entries)
    (reordered : other.Perm entries) (path : Path) :
    entry? cwd path other = entry? cwd path entries := by
  apply Option.ext
  intro value
  rw [entry?_eq_some_iff single, entry?_eq_some_iff (single.perm reordered)]
  simp only [reordered.mem_iff]

end Overrides

/-- Entries add up to the same in every order. -/
theorem volumeOf_perm (size : α → Nat) {entries other : List α} (reordered : other.Perm entries) :
    volumeOf size other = volumeOf size entries := by
  refine reordered.foldr_eq' ?_ 0
  intro first _ second _ volume
  omega

namespace Chain

variable {provider : Provider} {overrides other : Overrides}

/-- Where the same texts and maps are given, a file's chain is the same. -/
theorem chain_reordered (reorders : overrides.Reorders other)
    (texts : ∀ path, Workspace.given? ⟨provider, other⟩ path =
      Workspace.given? ⟨provider, overrides⟩ path)
    (maps : ∀ path, Workspace.givenMap? ⟨provider, other⟩ path =
      Workspace.givenMap? ⟨provider, overrides⟩ path) (path : Path) (content : String) :
    Workspace.chain ⟨provider, other⟩ path content =
      Workspace.chain ⟨provider, overrides⟩ path content := by
  have depth : Workspace.depth ⟨provider, other⟩ content =
      Workspace.depth ⟨provider, overrides⟩ content := by
    simp only [Workspace.depth, Overrides.volume, volumeOf_perm _ reorders.contents,
      volumeOf_perm _ reorders.maps]
  have links (path : Path) (content : String) : Workspace.link? ⟨provider, other⟩ path content =
      Workspace.link? ⟨provider, overrides⟩ path content := by
    simp only [Workspace.link?, Workspace.document?, Workspace.required, Workspace.text, texts,
      maps]
  have sources (target : Path) (carried : Option String) :
      Workspace.sourceText? ⟨provider, other⟩ target carried =
        Workspace.sourceText? ⟨provider, overrides⟩ target carried := by
    simp only [Workspace.sourceText?, texts]
  apply Workspace.chain_congr _ depth links sources
  rfl

/-- The order of what is given does not matter to building, as long as all that is given for one
file is the same. -/
theorem build_reordered (provider : Provider) (overrides other : Overrides)
    (contents : Overrides.IsSingleValued provider.cwd overrides.contents)
    (maps : Overrides.IsSingleValued provider.cwd overrides.maps)
    (reorders : overrides.Reorders other) :
    (∀ root, build ⟨provider, other⟩ root = build ⟨provider, overrides⟩ root) ∧
      ∀ content, buildContent ⟨provider, other⟩ content =
        buildContent ⟨provider, overrides⟩ content := by
  have texts (path : Path) : Workspace.given? ⟨provider, other⟩ path =
      Workspace.given? ⟨provider, overrides⟩ path :=
    Overrides.entry?_perm contents reorders.contents path
  have documents (path : Path) : Workspace.givenMap? ⟨provider, other⟩ path =
      Workspace.givenMap? ⟨provider, overrides⟩ path :=
    Overrides.entry?_perm maps reorders.maps path
  have chains := chain_reordered reorders texts documents
  constructor
  · intro root
    simp only [build, Workspace.required, Workspace.text, texts, chains]
  · intro content
    exact chains _ content

/-- Texts that are given for two files, for one of them twice. -/
def givenTwice : Overrides where
  contents := [(.ofText "a.js", "a"), (.ofText "b/../a.js", "a"), (.ofText "/b.js", "b")]

/-- The texts that are given for two files, in another order. -/
def givenTwiceBackwards : Overrides where
  contents := givenTwice.contents.reverse

/-- Texts that are given for two files, for one of them twice, come to the same in another order. -/
theorem build_reordered_givenTwice :
    Overrides.IsSingleValued Path.root givenTwice.contents ∧
      Overrides.IsSingleValued Path.root givenTwice.maps ∧
      givenTwice.Reorders givenTwiceBackwards ∧
      build ⟨Memory.provider {}, givenTwiceBackwards⟩ (.ofText "a.js") =
        .ok ⟨[⟨.ofText "/a.js", "a", none, []⟩], .root⟩ := by
  have contents : Overrides.IsSingleValued Path.root givenTwice.contents := by
    unfold Overrides.IsSingleValued
    decide +kernel
  have maps : Overrides.IsSingleValued Path.root givenTwice.maps := by
    simp [Overrides.IsSingleValued, givenTwice]
  have reorders : givenTwice.Reorders givenTwiceBackwards :=
    ⟨List.reverse_perm _, .refl _⟩
  have built : build ⟨Memory.provider {}, givenTwice⟩ (.ofText "a.js") =
      .ok ⟨[⟨.ofText "/a.js", "a", none, []⟩], .root⟩ := by decide +kernel
  obtain ⟨same, _⟩ := build_reordered (Memory.provider {}) givenTwice givenTwiceBackwards
    contents maps reorders
  exact ⟨contents, maps, reorders, (same _).trans built⟩

/-- Two texts that are given for one file, under two names. -/
def givenApart : Overrides where
  contents := [(.ofText "/a.js", "first"), (.ofText "a.js", "second")]

/-- With different texts for one file, the order does matter. -/
theorem not_build_reordered : ¬∀ (provider : Provider) (overrides other : Overrides) (root : Path),
    provider.cwd.absolute = true → (overrides.contents.map Prod.fst).Nodup →
      (overrides.maps.map Prod.fst).Nodup → overrides.Reorders other →
        build ⟨provider, other⟩ root = build ⟨provider, overrides⟩ root := by
  intro agree
  have same := agree (Memory.provider {}) givenApart
    { contents := givenApart.contents.reverse } (.ofText "a.js") rfl (by decide +kernel)
    (by decide +kernel) ⟨List.reverse_perm _, .refl _⟩
  have first : build ⟨Memory.provider {}, givenApart⟩ (.ofText "a.js") =
      .ok ⟨[⟨.ofText "/a.js", "second", none, []⟩], .root⟩ := by decide +kernel
  have second : build ⟨Memory.provider {}, { contents := givenApart.contents.reverse }⟩
      (.ofText "a.js") = .ok ⟨[⟨.ofText "/a.js", "first", none, []⟩], .root⟩ := by
    decide +kernel
  rw [first, second] at same
  simp at same

end Chain

end MapChain
