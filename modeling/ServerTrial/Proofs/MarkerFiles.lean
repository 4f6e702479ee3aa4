import ServerTrial.Proofs.Resolution
import ServerTrial.Proofs.SameTree
import ServerTrial.Proofs.SetupChecks

/-!
# Worlds that differ in markers

* `World.DifferInMarkers l w₁ w₂`: nothing but the markers in the workspace tells the worlds apart;
* `World.Apart root ms w₁ w₂`: nothing but the markers `ms` in the directory `root` does;
* `Trial.checks_of_apart`: the checks of a run do not see them, for no marker can be run;
* `Apart.ensureSources`, `Apart.cleared`: nor does the making of the directory for source files, and what is left of the
  difference goes away with each marker that is removed.
-/

namespace ServerTrial

/-! ### Worlds that differ in markers -/

/-- Is the place one for a marker?  These are in the directory that the path of the workspace leads to. -/
def Layout.Marks (l : Layout) (w : World) (p : Place) : Prop :=
  ∃ (root : Place) (m : Marker), w.locate l.root = .ok root ∧ w.at? root = some .directory ∧ p = root ++ [m.fileName]

namespace World

/-- Nothing, or a file that cannot be run. -/
def Plain (n : Option Node) : Prop := n = none ∨ ∃ content, n = some (.file content false)

namespace Plain

theorem ne_directory {n : Option Node} (plain : Plain n) : n ≠ some .directory := by
  rcases plain with rfl | ⟨content, rfl⟩ <;> simp

theorem ne_link {n : Option Node} (plain : Plain n) (target : Place) : n ≠ some (.link target) := by
  rcases plain with rfl | ⟨content, rfl⟩ <;> simp

end Plain

/-- But for some markers in a directory, nothing tells the worlds apart. -/
structure Apart (root : Place) (ms : List Marker) (w₁ w₂ : World) : Prop where
  elsewhere : ∀ p, (∀ m ∈ ms, p ≠ root ++ [m.fileName]) → w₁.at? p = w₂.at? p
  marker : ∀ m ∈ ms, Plain (w₁.at? (root ++ [m.fileName])) ∧ Plain (w₂.at? (root ++ [m.fileName]))
  environment : w₁.environment = w₂.environment
  current : w₁.current = w₂.current
  temporary : w₁.temporary = w₂.temporary

theorem Same.apart {w₁ w₂ : World} (same : Same w₁ w₂) (root : Place) : Apart root [] w₁ w₂ :=
  ⟨fun p _ => congrFun same.node p, fun _ hm => absurd hm List.not_mem_nil, same.environment, same.current,
    same.temporary⟩

/-- A walk that is stopped by what is no directory. -/
def Blocked {α : Type} (x : Except SystemError α) : Prop := x = .error .notFound ∨ x = .error .notDirectory

theorem blocked_walk {w : World} {p : Place} (no : w.at? p ≠ some .directory) (c : String) (rest : List String) :
    Blocked (w.walk p (c :: rest)) := by
  rw [walk]
  split
  · next directory => exact absurd directory no
  · exact .inr rfl
  · exact .inl rfl

namespace Apart

variable {root : Place} {ms : List Marker} {w₁ w₂ : World}

theorem symm (apart : Apart root ms w₁ w₂) : Apart root ms w₂ w₁ :=
  ⟨fun p other => (apart.elsewhere p other).symm, fun m hm => (apart.marker m hm).symm, apart.environment.symm,
    apart.current.symm, apart.temporary.symm⟩

/-- Without markers left the worlds look the same. -/
theorem same (apart : Apart root [] w₁ w₂) : Same w₁ w₂ :=
  ⟨funext fun p => apart.elsewhere p fun _ hm => absurd hm List.not_mem_nil, apart.environment, apart.current,
    apart.temporary⟩

/-- At every place the worlds show the same, or what markers may be. -/
theorem node (apart : Apart root ms w₁ w₂) (p : Place) :
    w₁.at? p = w₂.at? p ∨
      (Plain (w₁.at? p) ∧ Plain (w₂.at? p)) ∧ ∃ m ∈ ms, p = root ++ [m.fileName] := by
  by_cases marked : ∃ m ∈ ms, p = root ++ [m.fileName]
  · obtain ⟨m, hm, rfl⟩ := marked
    exact .inr ⟨apart.marker m hm, m, hm, rfl⟩
  · refine .inl (apart.elsewhere p fun m hm same => marked ⟨m, hm, same⟩)

/-- Directories and links are the same. -/
theorem firm (apart : Apart root ms w₁ w₂) : Firm w₁ w₂ := by
  refine ⟨apart.current.symm, fun p directory => ?_, fun p target => ?_⟩
  · rcases apart.node p with same | ⟨⟨plain, -⟩, -⟩
    · rw [← same, directory]
    · exact absurd directory plain.ne_directory
  · rcases apart.node p with same | ⟨⟨plain₁, plain₂⟩, -⟩
    · rw [same]
    · exact ⟨fun link => absurd link (plain₂.ne_link target), fun link => absurd link (plain₁.ne_link target)⟩

/-- So walks end at the same place, or are stopped in both worlds. -/
theorem walk (apart : Apart root ms w₁ w₂) (p : Place) (parts : List String) :
    w₁.walk p parts = w₂.walk p parts ∨ Blocked (w₁.walk p parts) ∧ Blocked (w₂.walk p parts) := by
  induction parts generalizing p with
  | nil => exact .inl (by rw [World.walk, World.walk])
  | cons c rest ih =>
    by_cases directory : w₁.at? p = some .directory
    · rw [World.walk, World.walk, directory, apart.firm.directory p directory, apart.firm.follow]
      dsimp only
      split
      · exact ih _
      · split
        · exact .inl rfl
        · exact ih _
    · have other : w₂.at? p ≠ some .directory := fun there => directory (apart.symm.firm.directory p there)
      exact .inr ⟨blocked_walk directory c rest, blocked_walk other c rest⟩

theorem start (apart : Apart root ms w₁ w₂) (path : Path) : w₁.start path = w₂.start path :=
  start_of_current apart.current path

/-- What stands at the end of a path is the same in both worlds, or what markers may be. -/
theorem probe (apart : Apart root ms w₁ w₂) (path : Path) :
    w₁.probe path = w₂.probe path ∨
      ∃ n₁ n₂, w₁.probe path = .ok n₁ ∧ w₂.probe path = .ok n₂ ∧ Plain n₁ ∧ Plain n₂ := by
  unfold World.probe World.locate
  rw [apart.start]
  by_cases flawed : (flaw? path).isSome = true
  · rw [if_pos flawed, if_pos flawed]
    exact .inl rfl
  · rw [if_neg flawed, if_neg flawed]
    by_cases long : tooLong path = true
    · rw [if_pos long, if_pos long]
      exact .inl rfl
    · rw [if_neg long, if_neg long]
      rcases apart.walk (w₂.start path) path.parts with same | ⟨blocked₁, blocked₂⟩
      · rw [same]
        cases w₂.walk (w₂.start path) path.parts with
        | error e => exact .inl (by cases e <;> rfl)
        | ok q =>
          rcases apart.node q with same | ⟨⟨plain₁, plain₂⟩, -⟩
          · exact .inl (congrArg Except.ok same)
          · exact .inr ⟨_, _, rfl, rfl, plain₁, plain₂⟩
      · left
        rcases blocked₁ with h₁ | h₁ <;> rcases blocked₂ with h₂ | h₂ <;> rw [h₁, h₂]

theorem isRunnable (apart : Apart root ms w₁ w₂) : w₁.isRunnable = w₂.isRunnable := by
  funext path
  unfold World.isRunnable World.find?
  rcases apart.probe path with same | ⟨n₁, n₂, found₁, found₂, plain₁, plain₂⟩
  · rw [same]
  · rw [found₁, found₂]
    rcases plain₁ with rfl | ⟨content₁, rfl⟩ <;> rcases plain₂ with rfl | ⟨content₂, rfl⟩ <;> rfl

/-- No marker can be run. -/
theorem canRun (apart : Apart root ms w₁ w₂) (command : String) : w₁.canRun command = w₂.canRun command := by
  unfold World.canRun World.searched World.environment?
  rw [apart.isRunnable, apart.environment]
  rcases apart.probe (Path.ofString command) with same | ⟨n₁, n₂, found₁, found₂, plain₁, plain₂⟩
  · rw [same]
  · rw [found₁, found₂]
    rcases plain₁ with rfl | ⟨content₁, rfl⟩ <;> rcases plain₂ with rfl | ⟨content₂, rfl⟩ <;> rfl

theorem layout (apart : Apart root ms w₁ w₂) (c : Case) : c.layout w₁ = c.layout w₂ := by
  rw [Case.layout, Case.layout, apart.temporary]

theorem validate (apart : Apart root ms w₁ w₂) (c : Case) : c.validate w₁ = c.validate w₂ := by
  unfold Case.validate Case.demand
  rw [apart.canRun, apart.canRun, apart.layout]

end Apart

end World

/-- Without a file for them the settings are the defaults. -/
theorem World.config_of_missing {w : World} (missing : w.present w.configPath = .ok false) :
    w.config = .ok Config.defaults := by
  unfold World.config
  dsimp only
  rw [missing]
  rfl

/-- Inputs need to know of the world only the settings in force. -/
theorem Request.injections_of_config {w₁ w₂ : World} (same : w₁.config = w₂.config) (r : Request) (c : Case)
    (e : Expectation) (given : Inputs) : r.injections c w₁ e given = r.injections c w₂ e given := by
  have options : w₁.formattingOptions = w₂.formattingOptions := by
    unfold World.formattingOptions World.setting
    rw [same]
  unfold Request.injections Request.inputInjections Request.slotInjections
  rw [options]

namespace World

/-- The workspace is a directory in a tree. -/
structure Based (l : Layout) (root : Place) (w : World) : Prop where
  tree : w.IsTree
  found : w.locate l.root = .ok root
  directory : w.at? root = some .directory

/-- The same world but for one place, where nothing is. -/
structure Cleared (p : Place) (before w : World) : Prop where
  node : ∀ q, w.at? q = if q = p then none else before.at? q
  environment : w.environment = before.environment
  current : w.current = before.current
  temporary : w.temporary = before.temporary

theorem Cleared.refl {w : World} {p : Place} (missing : w.at? p = none) : Cleared p w w := by
  refine ⟨fun q => ?_, rfl, rfl, rfl⟩
  split
  · next same => rw [same, missing]
  · rfl

theorem Cleared.remove {w : World} (tree : w.IsTree) {p : Place} (leaf : w.at? p ≠ some .directory) :
    Cleared p w (w.remove p) := by
  have below : p ≠ [] := by
    rintro rfl
    exact leaf (at?_nil w)
  refine ⟨fun q => ?_, rfl, rfl, rfl⟩
  rw [at?_remove]
  by_cases top : q = []
  · rw [if_pos top, if_neg (top ▸ Ne.symm below), top, at?_nil]
  · rw [if_neg top]
    by_cases same : q = p
    · rw [if_pos same, if_pos (same ▸ List.prefix_refl _)]
    · rw [if_neg same]
      split
      · next further => exact (tree.none_of_below leaf further same).symm
      · rfl

theorem Cleared.firm {p : Place} {before w : World} (cleared : Cleared p before w)
    (leaf : before.at? p ≠ some .directory) (unlinked : ∀ target, before.at? p ≠ some (.link target)) :
    Firm before w := by
  refine ⟨cleared.current, fun q directory => ?_, fun q target => ?_⟩
  · rw [cleared.node, if_neg, directory]
    rintro rfl
    exact leaf directory
  · rw [cleared.node]
    split
    · next same =>
      subst same
      simp [unlinked target]
    · rfl

namespace Based

variable {l : Layout} {root : Place} {w : World}

theorem marker_eq (l : Layout) (m : Marker) : l.marker m = ⟨l.root.root, l.root.parts ++ [m.fileName]⟩ := by
  cases m <;> exact Path.child_of_name _ (by decide) (by decide) (by decide)

theorem walked (based : w.Based l root) : w.walk (w.start l.root) l.root.parts = .ok root :=
  (locate_eq_ok.1 based.found).2

theorem of_firm {w' : World} (based : w.Based l root) (firm : Firm w w') (tree : w'.IsTree) : w'.Based l root :=
  ⟨tree, firm.locate based.found, firm.directory root based.directory⟩

section Marker

variable {m : Marker}

/-- Where a marker is. -/
theorem locate_marker (based : w.Based l root)
    (unlinked : ∀ target, w.at? (root ++ [m.fileName]) ≠ some (.link target)) :
    w.locate (l.marker m) =
      if tooLong (l.marker m) then .error .nameTooLong else .ok (root ++ [m.fileName]) := by
  have name : m.fileName ≠ ".." := by cases m <;> decide
  have short : ¬ m.fileName.utf8ByteSize > nameLimit := by cases m <;> decide
  unfold locate
  split
  · rfl
  · have further : w.walk root [m.fileName] = .ok (root ++ [m.fileName]) :=
      (walk_name_eq_ok name).2 ⟨based.directory, .inr short, (follow_of_ne_link unlinked).symm⟩
    rw [marker_eq]
    exact walk_append_eq_ok.2 ⟨root, based.walked, further⟩

/-- What the removal of a marker does, unless a link is in its place. -/
theorem removeFile_eq (based : w.Based l root)
    (unlinked : ∀ target, w.at? (root ++ [m.fileName]) ≠ some (.link target)) :
    w.removeFile (l.marker m) =
      if tooLong (l.marker m) then (.error .nameTooLong, w)
      else
        match w.at? (root ++ [m.fileName]) with
        | some .directory => (.error .isDirectory, w)
        | some _ => (.ok (), w.remove (root ++ [m.fileName]))
        | none => (.ok (), w) := by
  have parent : (l.marker m).parent = l.root := by
    rw [marker_eq, Path.parent, List.dropLast_concat]
  have free : w.linkAt? (l.marker m) = none := by
    by_contra linked
    rw [← ne_eq, Option.ne_none_iff_isSome, ← isLink, isLink_iff] at linked
    obtain ⟨name, place, target, ends, found, link⟩ := linked
    rw [parent, based.found] at found
    rw [marker_eq, List.getLast?_concat] at ends
    cases found
    cases ends
    exact unlinked target link
  unfold World.removeFile
  rw [based.locate_marker unlinked, free]
  by_cases long : tooLong (l.marker m) = true
  · rw [if_pos long, if_pos long]
  · cases found : w.at? (root ++ [m.fileName]) with
    | none => simp only [if_neg long, found]
    | some node => cases node <;> simp only [if_neg long, found]

/-- A marker is removed, and nothing else is. -/
theorem removeFile (based : w.Based l root) (plain : Plain (w.at? (root ++ [m.fileName]))) :
    if tooLong (l.marker m) then w.removeFile (l.marker m) = (.error .nameTooLong, w)
    else ∃ w', w.removeFile (l.marker m) = (.ok (), w') ∧ Cleared (root ++ [m.fileName]) w w' := by
  rw [based.removeFile_eq plain.ne_link]
  split
  · rfl
  · rcases plain with missing | ⟨content, there⟩
    · rw [missing]
      exact ⟨w, rfl, .refl missing⟩
    · rw [there]
      exact ⟨_, rfl, .remove based.tree (by simp [there])⟩

theorem cleared (based : w.Based l root) (leaf : w.at? (root ++ [m.fileName]) ≠ some .directory)
    (unlinked : ∀ target, w.at? (root ++ [m.fileName]) ≠ some (.link target)) {w' : World}
    (cleared : Cleared (root ++ [m.fileName]) w w') : w'.Based l root := by
  refine based.of_firm (cleared.firm leaf unlinked) fun p c there => ?_
  rw [cleared.node] at there ⊢
  split at there
  · exact absurd rfl there
  · have inside := based.tree p c there
    rw [if_neg, inside]
    rintro rfl
    exact leaf inside

end Marker

end Based

/-- Taking one marker away in both worlds. -/
theorem Apart.cleared {root : Place} {m : Marker} {ms : List Marker} {w₁ w₂ v₁ v₂ : World}
    (apart : Apart root (m :: ms) w₁ w₂) (fresh : m ∉ ms) (cleared₁ : Cleared (root ++ [m.fileName]) w₁ v₁)
    (cleared₂ : Cleared (root ++ [m.fileName]) w₂ v₂) : Apart root ms v₁ v₂ := by
  constructor
  · intro p other
    rw [cleared₁.node, cleared₂.node]
    split
    · rfl
    · next here => exact apart.elsewhere p (List.forall_mem_cons.2 ⟨here, other⟩)
  · intro n hn
    have other : root ++ [n.fileName] ≠ root ++ [m.fileName] := by
      intro same
      have names : n.fileName = m.fileName := by simpa using same
      have equal : n = m := by revert names; cases n <;> cases m <;> decide
      exact fresh (equal ▸ hn)
    rw [cleared₁.node, cleared₂.node, if_neg other, if_neg other]
    exact apart.marker n (List.mem_cons_of_mem m hn)
  · rw [cleared₁.environment, cleared₂.environment, apart.environment]
  · rw [cleared₁.current, cleared₂.current, apart.current]
  · rw [cleared₁.temporary, cleared₂.temporary, apart.temporary]

/-- Something new that is no marker. -/
theorem Apart.set {root : Place} {ms : List Marker} {w₁ w₂ : World} (apart : Apart root ms w₁ w₂) {p : Place}
    (other : ∀ m ∈ ms, p ≠ root ++ [m.fileName]) (n : Node) : Apart root ms (w₁.set p n) (w₂.set p n) := by
  constructor
  · intro q unmarked
    rw [at?_set, at?_set, apart.elsewhere q unmarked]
  · intro m hm
    have below : root ++ [m.fileName] ≠ [] := by simp
    rw [at?_set, at?_set, if_neg below, if_neg below, if_neg (Ne.symm (other m hm)), if_neg (Ne.symm (other m hm))]
    exact apart.marker m hm
  · rw [environment_set, environment_set, apart.environment]
  · rw [current_set, current_set, apart.current]
  · rw [temporary_set, temporary_set, apart.temporary]

end World

end ServerTrial
