import MapChain.Proofs.Chain.Link

/-!
# Computations that are not cut off

Building runs on a depth, and at depth zero its recursion is cut off with an error of its
own. No other step of building gives that error, so a computation settles if what it is
put together from settles. If it moreover comes to the same at every larger depth it is
steady, and does not hang on the depth at all.
-/

namespace MapChain

/-- A result that is not that of a recursion that was cut off. -/
def Settles (result : Except ChainError α) : Prop := ∀ path, result ≠ .error (.tooDeep path)

/-- A value is not cut off. -/
theorem settles_ok (value : α) : Settles (.ok value) := by simp [Settles]

/-- An error of a computation that was not cut off is that of another one that was not. -/
theorem Settles.error {error : ChainError}
    (settles : Settles (.error error : Except ChainError α)) :
    Settles (.error error : Except ChainError β) := by
  intro path same
  exact settles path (congrArg _ (Except.error.inj same))

/-- A computation is not cut off if neither its first part nor what follows is. -/
theorem Settles.bind {first : Except ChainError α} {next : α → Except ChainError β}
    (settles : Settles first) (following : ∀ value, first = .ok value → Settles (next value)) :
    Settles (first >>= next) := by
  cases first with
  | error error => exact settles.error
  | ok value => exact following value rfl

/-- Processing a list is not cut off if no item's part is. -/
theorem settles_mapM {action : α → Except ChainError β} {items : List α}
    (settles : ∀ item ∈ items, Settles (action item)) : Settles (items.mapM action) := by
  induction items with
  | nil => exact settles_ok []
  | cons item items inductionHypothesis =>
    rw [List.mapM_cons]
    refine (settles item (by simp)).bind fun first _ => ?_
    have rest := inductionHypothesis fun other member => settles other (by simp [member])
    exact rest.bind fun others _ => settles_ok (first :: others)

/-- Lists are processed alike where their items are. -/
theorem mapM_congr_left {action other : α → Except ε β} {items : List α}
    (same : ∀ item ∈ items, action item = other item) : items.mapM action = items.mapM other := by
  induction items with
  | nil => rfl
  | cons item items inductionHypothesis =>
    rw [List.mapM_cons, List.mapM_cons, same item (by simp),
      inductionHypothesis fun later member => same later (by simp [member])]

/-- A computation on a depth that is not cut off at some depth, and that comes to the same at
every larger one. -/
structure Steady (run : Nat → Except ChainError α) (depth : Nat) : Prop where
  settles : Settles (run depth)
  same : ∀ deeper, depth ≤ deeper → run deeper = run depth

namespace Steady

/-- A computation that does not look at the depth is steady unless it is cut off. -/
theorem of_eq {run : Nat → Except ChainError α} {result : Except ChainError α}
    (settles : Settles result) (constant : ∀ depth, run depth = result) (depth : Nat) :
    Steady run depth := by
  refine ⟨constant depth ▸ settles, ?_⟩
  intro deeper _
  rw [constant, constant]

/-- What comes to the same as a steady computation is steady. -/
theorem congr {run other : Nat → Except ChainError α} {depth : Nat} (steady : Steady other depth)
    (same : ∀ depth, run depth = other depth) : Steady run depth :=
  (funext same : run = other) ▸ steady

/-- What is steady on one level less is steady on one more. -/
theorem succ {run : Nat → Except ChainError α} {depth : Nat}
    (steady : Steady (fun depth => run (depth + 1)) depth) : Steady run (depth + 1) := by
  refine ⟨steady.settles, ?_⟩
  intro deeper least
  cases deeper with
  | zero => omega
  | succ deeper => exact steady.same deeper (by omega)

/-- Turning the values of a computation keeps it steady. -/
theorem turn {run : Nat → Except ChainError α} {depth : Nat} (steady : Steady run depth)
    (turned : α → β) : Steady (fun depth => run depth >>= fun value => .ok (turned value)) depth :=
  ⟨steady.settles.bind fun value _ => settles_ok (turned value),
    fun deeper least => congrArg (· >>= _) (steady.same deeper least)⟩

/-- Processing a list is steady if every item's part is. -/
theorem mapM {action : Nat → α → Except ChainError β} {items : List α} {depth : Nat}
    (steady : ∀ item ∈ items, Steady (fun depth => action depth item) depth) :
    Steady (fun depth => items.mapM (action depth)) depth :=
  ⟨settles_mapM fun item member => (steady item member).settles,
    fun deeper least => mapM_congr_left fun item member => (steady item member).same deeper least⟩

end Steady

namespace Workspace

variable {workspace : Workspace}

/-- Reading a text that a chain needs is not cut off. -/
theorem settles_required (path : Path) : Settles (workspace.required path) := by
  intro place
  simp only [required]
  cases workspace.text path with
  | ok text => simp [Except.mapError]
  | error fault => simp [Except.mapError, ChainError.ofFault]

/-- An error about a map is not that of a recursion that was cut off. -/
theorem settles_ofMapError (origin : MapOrigin) (error : MapError) :
    Settles (.error (.ofMapError origin error) : Except ChainError α) := by
  intro path
  cases error <;> simp [ChainError.ofMapError]

/-- Following a map is not cut off. -/
theorem settles_link? (path : Path) (content : String) :
    Settles (workspace.link? path content) := by
  have document : Settles (workspace.document? path content) := by
    simp only [document?]
    split
    · exact settles_ok _
    · split
      · exact settles_ok _
      · split
        · exact settles_ok _
        · exact settles_ofMapError _ _
      · refine (settles_required _).bind fun text _ => ?_
        split
        · exact settles_ok _
        · exact settles_ofMapError _ _
  refine document.bind fun found _ => ?_
  split
  · exact settles_ok _
  · split
    · exact settles_ok _
    · exact settles_ofMapError _ _

/-- Looking for the text of a source is not cut off. -/
theorem settles_sourceText? (path : Path) (carried : Option String) :
    Settles (workspace.sourceText? path carried) := by
  simp only [sourceText?]
  split
  · exact settles_ok _
  · split
    · exact settles_ok _
    · split
      · exact settles_ok _
      · simp [Settles, ChainError.ofFault]
      · exact settles_ok _

end Workspace

end MapChain
