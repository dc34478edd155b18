import MapChain.Proofs.Chain.Link

/-!
# What resolving does

Resolving a file either ends at once, because the file has no map, or gives one result for
every source of its map. `Leads` says what a result can be: nothing for a source without
a name, a file of the same branch, a path without text, or a file with text that is
resolved below the branch in turn. All that is proved about built trees starts from here,
and nothing else looks into the recursion.
-/

namespace MapChain

open Itemwise

namespace Workspace

section

variable {workspace : Workspace}

/-- A source that has a text and is new on the branch is followed. -/
theorem resolveSource_of_new {directory target : Path} {branch : List Path}
    {entry : String × Option String} {text : String}
    (named : ¬entry.1.toList.all Text.isBlank = true)
    (seen : target = directory.resolve (.ofText entry.1)) (new : target ∉ branch)
    (found : workspace.sourceText? target entry.2 = .ok (some text))
    (follow : Path → String → Except ChainError Resolution) :
    workspace.resolveSource directory branch follow entry = follow target text := by
  subst seen
  rw [resolveSource, if_neg named]
  simp only [if_neg new, found]
  rfl

/-- A file with a map goes on with the sources of the map. -/
theorem resolve_of_link {path : Path} {content : String} {link : Link}
    (linked : workspace.link? path content = .ok (some link)) (above : List Path) (depth : Nat) :
    workspace.resolve (depth + 1) path content above =
      (link.table.sources.zip link.table.contents).mapM
        (workspace.resolveSource link.directory (path :: above) fun place text =>
          workspace.resolve depth place text (path :: above)) >>= fun children =>
        .ok (.file path content (some link.table) children) := by
  rw [resolve, linked]
  rfl

/-- A file without a map is all that its tree holds. -/
theorem resolve_of_bare {path : Path} {content : String}
    (unmapped : workspace.link? path content = .ok none) (above : List Path) (depth : Nat) :
    workspace.resolve (depth + 1) path content above = .ok (.file path content none []) := by
  rw [resolve, unmapped]
  rfl

end

variable (workspace : Workspace)

/-- What a source entry of a map, with the text that the map carries for it, can lead to.
`directory` is the one that the map's sources are seen from, and `branch` holds the files
from the one with the map up to the root. -/
inductive Leads (directory : Path) (branch : List Path) :
    String × Option String → Resolution → Prop where
  | blank (entry : String × Option String) (void : entry.1.toList.all Text.isBlank = true) :
      Leads directory branch entry .blank
  | ancestor (entry : String × Option String) (path : Path)
      (named : ¬entry.1.toList.all Text.isBlank = true)
      (target : path = directory.resolve (.ofText entry.1)) (known : path ∈ branch) :
      Leads directory branch entry (.ancestor path)
  | unresolved (entry : String × Option String) (path : Path)
      (named : ¬entry.1.toList.all Text.isBlank = true)
      (target : path = directory.resolve (.ofText entry.1)) (new : path ∉ branch)
      (missing : workspace.sourceText? path entry.2 = .ok none) :
      Leads directory branch entry (.unresolved path)
  | file (entry : String × Option String) (path : Path) (content : String) (depth : Nat)
      (tree : Resolution) (named : ¬entry.1.toList.all Text.isBlank = true)
      (target : path = directory.resolve (.ofText entry.1)) (new : path ∉ branch)
      (found : workspace.sourceText? path entry.2 = .ok (some content))
      (resolved : workspace.resolve depth path content branch = .ok tree) :
      Leads directory branch entry tree

/-- A source that is resolved leads somewhere. -/
theorem leads_of_resolveSource {directory : Path} {branch : List Path} {depth : Nat}
    {entry : String × Option String} {tree : Resolution}
    (resolved : workspace.resolveSource directory branch
      (fun path content => workspace.resolve depth path content branch) entry = .ok tree) :
    workspace.Leads directory branch entry tree := by
  rw [resolveSource] at resolved
  by_cases void : entry.1.toList.all Text.isBlank = true
  · rw [if_pos void] at resolved
    obtain rfl := Except.ok.inj resolved
    exact .blank entry void
  · rw [if_neg void] at resolved
    by_cases known : directory.resolve (.ofText entry.1) ∈ branch
    · simp only [if_pos known] at resolved
      obtain rfl := Except.ok.inj resolved
      exact .ancestor entry _ void rfl known
    · simp only [if_neg known] at resolved
      obtain ⟨text, found, rest⟩ := exists_of_bind_eq_ok resolved
      cases text with
      | none =>
        obtain rfl := Except.ok.inj rest
        exact .unresolved entry _ void rfl known found
      | some content => exact .file entry _ content depth tree void rfl known found rest

/-- A file that is resolved has no map and no children, or a map and for each source of it
something that the source leads to. -/
theorem resolve_cases {depth : Nat} {path : Path} {content : String} {above : List Path}
    {tree : Resolution} (resolved : workspace.resolve depth path content above = .ok tree) :
    workspace.link? path content = .ok none ∧ tree = .file path content none [] ∨
      ∃ link children, workspace.link? path content = .ok (some link) ∧
        tree = .file path content (some link.table) children ∧
        List.Forall₂ (workspace.Leads link.directory (path :: above))
          (link.table.sources.zip link.table.contents) children := by
  cases depth with
  | zero => simp [resolve] at resolved
  | succ depth =>
    obtain ⟨link, found, rest⟩ := exists_of_bind_eq_ok resolved
    cases link with
    | none => exact .inl ⟨found, (Except.ok.inj rest).symm⟩
    | some link =>
      obtain ⟨children, gathered, last⟩ := exists_of_bind_eq_ok rest
      refine .inr ⟨link, children, found, (Except.ok.inj last).symm, ?_⟩
      have each := forall₂_of_mapM_eq_ok _ _ _ gathered
      exact each.imp fun _ _ resolved => workspace.leads_of_resolveSource resolved

/-- What is resolved is a file with the path and the text that were asked for. -/
theorem exists_file_of_resolve {depth : Nat} {path : Path} {content : String}
    {above : List Path} {tree : Resolution}
    (resolved : workspace.resolve depth path content above = .ok tree) :
    ∃ table children, tree = .file path content table children := by
  rcases workspace.resolve_cases resolved with ⟨_, rfl⟩ | ⟨link, children, _, rfl, _⟩
  · exact ⟨none, [], rfl⟩
  · exact ⟨some link.table, children, rfl⟩

/-- A chain is the numbered tree of its root. -/
theorem chain_cases {path : Path} {content : String} {chain : Chain}
    (built : workspace.chain path content = .ok chain) :
    ∃ depth tree, workspace.resolve depth path content [] = .ok tree ∧
      chain = .ofTree workspace.provider.cwd tree := by
  obtain ⟨tree, resolved, rest⟩ := exists_of_bind_eq_ok built
  exact ⟨_, tree, resolved, (Except.ok.inj rest).symm⟩

end Workspace

end MapChain
