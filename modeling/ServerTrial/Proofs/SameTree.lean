import ServerTrial.Trial.Run
import ServerTrial.Proofs.TreeShape

/-!
# Worlds that look the same

* `World.Same w₁ w₂`: no place and no variable tells the worlds apart, though their nodes may be listed in another order;
* every look at one of two such worlds shows what it shows in the other (`Same.locate`, `Same.present`, `Same.fetch`);
* every operation does to both of them the same (`Same.ensureDirectory`, `Same.storeText`, `Same.removeTree`).
-/

namespace ServerTrial

namespace World

/-- Nothing tells the worlds apart. -/
structure Same (w₁ w₂ : World) : Prop where
  node : w₁.at? = w₂.at?
  environment : w₁.environment = w₂.environment
  current : w₁.current = w₂.current
  temporary : w₁.temporary = w₂.temporary

/-- The same result, and worlds that look the same. -/
structure SameResult {α : Type} (x₁ x₂ : α × World) : Prop where
  result : x₁.1 = x₂.1
  world : Same x₁.2 x₂.2

/-! ### Places after a change -/

theorem at?_set (w : World) (p : Place) (n : Node) (q : Place) :
    (w.set p n).at? q = if q = [] then some .directory else if q = p then some n else w.at? q := by
  by_cases top : q = []
  · rw [if_pos top, top, at?_nil]
  · rw [if_neg top]
    by_cases here : q = p
    · rw [if_pos here, here, at?_set_self w n (here ▸ top)]
    · rw [if_neg here, at?_set_of_ne w n here]

theorem at?_remove (w : World) (p q : Place) :
    (w.remove p).at? q = if q = [] then some .directory else if p <+: q then none else w.at? q := by
  by_cases top : q = []
  · rw [if_pos top, top, at?_nil]
  · rw [if_neg top]
    by_cases below : p <+: q
    · rw [if_pos below, at?_remove_eq_none w below top]
    · rw [if_neg below, at?_remove_apart w below]

theorem at?_removeBelow_eq (w : World) (p q : Place) :
    (w.removeBelow p).at? q =
      if q = [] then some .directory else if q == p || !p.isPrefixOf q then w.at? q else none := by
  by_cases top : q = []
  · rw [if_pos top, top, at?_nil]
  · rw [if_neg top]
    exact w.at?_filter (fun r => r == p || !p.isPrefixOf r) top

namespace Same

variable {w w₁ w₂ : World}

theorem refl (w : World) : Same w w := ⟨rfl, rfl, rfl, rfl⟩

/-! ### Looking -/

section Look

variable (same : Same w₁ w₂)
include same

theorem follow : w₁.follow = w₂.follow := by
  funext p
  unfold World.follow
  rw [same.node]

theorem walk : w₁.walk = w₂.walk := by
  funext p parts
  induction parts generalizing p with
  | nil => rw [World.walk, World.walk]
  | cons c rest ih =>
    rw [World.walk, World.walk, same.node, same.follow]
    simp only [ih]

theorem start : w₁.start = w₂.start := by
  funext path
  rw [World.start, World.start, same.current]

theorem locate : w₁.locate = w₂.locate := by
  funext path
  rw [World.locate, World.locate, same.start, same.walk]

theorem probe : w₁.probe = w₂.probe := by
  funext path
  rw [World.probe, World.probe, same.locate, same.node]

theorem present : w₁.present = w₂.present := by
  funext path
  rw [World.present, World.present, same.probe]

theorem fetch : w₁.fetch = w₂.fetch := by
  funext path
  rw [World.fetch, World.fetch, same.locate, same.node]

theorem resolveParts : w₁.resolveParts = w₂.resolveParts := by
  funext p parts
  induction parts generalizing p with
  | nil => rw [World.resolveParts, World.resolveParts]
  | cons c rest ih => rw [World.resolveParts, World.resolveParts, same.follow, ih, ih]

theorem spellings : w₁.spellings = w₂.spellings := by
  funext directory
  rw [World.spellings, World.spellings, World.resolve, World.resolve, same.start, same.resolveParts]

theorem linkAt? : w₁.linkAt? = w₂.linkAt? := by
  funext path
  rw [World.linkAt?, World.linkAt?, same.locate, same.node]

theorem environment? : w₁.environment? = w₂.environment? := by
  funext name
  rw [World.environment?, World.environment?, same.environment]

theorem configPath : w₁.configPath = w₂.configPath := by
  unfold World.configPath World.home
  rw [same.environment?]

theorem config : w₁.config = w₂.config := by
  unfold World.config
  rw [same.configPath, same.present, same.fetch]

theorem pollInterval : w₁.pollInterval = w₂.pollInterval := by
  unfold World.pollInterval World.setting
  rw [same.config]

end Look

/-! ### Changing -/

section Change

theorem set (same : Same w₁ w₂) (p : Place) (n : Node) : Same (w₁.set p n) (w₂.set p n) := by
  refine ⟨?_, ?_, ?_, ?_⟩
  · funext q
    rw [at?_set, at?_set, same.node]
  · rw [environment_set, environment_set, same.environment]
  · rw [current_set, current_set, same.current]
  · rw [temporary_set, temporary_set, same.temporary]

theorem remove (same : Same w₁ w₂) (p : Place) : Same (w₁.remove p) (w₂.remove p) := by
  refine ⟨?_, same.environment, same.current, same.temporary⟩
  funext q
  rw [at?_remove, at?_remove, same.node]

theorem removeBelow (same : Same w₁ w₂) (p : Place) : Same (w₁.removeBelow p) (w₂.removeBelow p) := by
  refine ⟨?_, same.environment, same.current, same.temporary⟩
  funext q
  rw [at?_removeBelow_eq, at?_removeBelow_eq, same.node]

theorem makeAlong (same : Same w₁ w₂) (p : Place) (parts : List String) :
    SameResult (w₁.makeAlong p parts) (w₂.makeAlong p parts) := by
  induction parts generalizing p w₁ w₂ with
  | nil => exact ⟨rfl, same⟩
  | cons c rest ih =>
    rw [World.makeAlong, World.makeAlong, same.follow, same.node]
    split
    · exact ih same _
    · split
      · exact ⟨rfl, same⟩
      · dsimp only
        split
        · exact ih same _
        · exact ⟨rfl, same⟩
        · split
          · exact ih (same.set _ _) _
          · exact ⟨rfl, same⟩

theorem ensureDirectory (same : Same w₁ w₂) (path : Path) :
    SameResult (w₁.ensureDirectory path) (w₂.ensureDirectory path) := by
  rw [World.ensureDirectory, World.ensureDirectory, same.start, same.node]
  split
  · exact ⟨rfl, same⟩
  · split
    · exact same.makeAlong _ _
    · exact ⟨rfl, same⟩

/-- Writing either fails in both worlds for one reason, or it leads to worlds that look the same. -/
theorem store (same : Same w₁ w₂) (path : Path) (content : List UInt8) :
    (∃ e, w₁.store path content = .error e ∧ w₂.store path content = .error e) ∨
      ∃ v₁ v₂, w₁.store path content = .ok v₁ ∧ w₂.store path content = .ok v₂ ∧ Same v₁ v₂ := by
  rw [World.store, World.store, same.locate, same.node]
  split
  · exact .inl ⟨_, rfl, rfl⟩
  · split
    · exact .inl ⟨_, rfl, rfl⟩
    · exact .inr ⟨_, _, rfl, rfl, same.set _ _⟩
    · exact .inl ⟨_, rfl, rfl⟩
    · split
      · exact .inr ⟨_, _, rfl, rfl, same.set _ _⟩
      · exact .inl ⟨_, rfl, rfl⟩

theorem storeText (same : Same w₁ w₂) (path : Path) (text : String) :
    SameResult (w₁.storeText path text) (w₂.storeText path text) := by
  rw [World.storeText, World.storeText]
  rcases same.store path (if Text.isWhole text then textBytes text else []) with
    ⟨e, failed₁, failed₂⟩ | ⟨v₁, v₂, stored₁, stored₂, later⟩
  · rw [failed₁, failed₂]
    exact ⟨rfl, same⟩
  · rw [stored₁, stored₂]
    exact ⟨rfl, later⟩

theorem removeFile (same : Same w₁ w₂) (path : Path) : SameResult (w₁.removeFile path) (w₂.removeFile path) := by
  rw [World.removeFile, World.removeFile, same.locate, same.linkAt?, same.node]
  split
  · exact ⟨rfl, same⟩
  · exact ⟨rfl, same⟩
  · split
    · exact ⟨rfl, same.remove _⟩
    · split
      · exact ⟨rfl, same⟩
      · exact ⟨rfl, same.remove _⟩
      · exact ⟨rfl, same⟩

theorem removeTree (same : Same w₁ w₂) (path : Path) : Same (w₁.removeTree path) (w₂.removeTree path) := by
  rw [World.removeTree, World.removeTree, World.isLink, World.isLink, same.linkAt?, same.locate, same.node]
  split
  · exact same
  · split
    · exact same
    · split
      · split
        · exact same.removeBelow _
        · exact same.remove _
      · exact same

end Change

end Same

end World

/-! ### Outcomes -/

namespace Outcome

variable {w₁ w₂ : World}

end Outcome

end ServerTrial
