import ServerTrial.Trial.Run
import ServerTrial.Proofs.TreeChanges

/-!
# What a run may change

* `Trial.Preserves I t`: the trial `t` keeps the property `I` of the world, however it goes;
* `Layout.IsConfined.preserves_perform`, `Layout.IsConfined.preserves_cleanup`: what a run writes and removes lies below
  the directory for workspaces if the workspace does;
* `Layout.confinement`: the ids that confine every workspace, and what a run of a confined case leaves as it was.
-/

namespace ServerTrial

/-! ### Properties that trials preserve -/

namespace Trial

variable {α β : Type} {I : World → Prop}

/-- However the trial goes, the property of the world is kept. -/
def Preserves (I : World → Prop) (t : Trial α) : Prop := ∀ s, I s.world → I (t.runIn s).2.world

theorem runIn_bind (t : Trial α) (f : α → Trial β) (s : Session) :
    (t >>= f).runIn s =
      match t.runIn s with
      | (.ok a, s') => (f a).runIn s'
      | (.error e, s') => (.error e, s') := by
  unfold runIn ExceptT.run StateT.run
  simp only [bind, ExceptT.bind, ExceptT.mk, StateT.bind, ExceptT.bindCont]
  cases t s with
  | mk result s' => cases result <;> rfl

theorem preserves_bind {t : Trial α} {f : α → Trial β} (first : Preserves I t) (later : ∀ a, Preserves I (f a)) :
    Preserves I (t >>= f) := by
  intro s h
  rw [runIn_bind]
  have h' := first s h
  split
  · next same => exact later _ _ (by rwa [same] at h')
  · next same => rwa [same] at h'

theorem preserves_pure (a : α) : Preserves I (pure a) := fun _ h => h

theorem preserves_throw (e : Failure) : Preserves I (throw e : Trial α) := fun _ h => h

theorem preserves_ofExcept (x : Except Failure α) : Preserves I (ofExcept x) := fun _ h => h

theorem preserves_ofExcept_bind {x : Except Failure α} {f : α → Trial β} (later : ∀ a, x = .ok a → Preserves I (f a)) :
    Preserves I (ofExcept x >>= f) := by
  cases x with
  | error e => exact fun _ h => h
  | ok a => exact later a rfl

theorem preserves_ofFault (x : Except Fault α) : Preserves I (ofFault x) := fun _ h => h

theorem preserves_world : Preserves I world := fun _ h => h

theorem preserves_modify {f : Session → Session} (keep : ∀ s, I s.world → I (f s).world) :
    Preserves I (modify f) := keep

theorem preserves_change {ε : Type} {failure : ε → Failure} {f : World → Except ε Unit × World}
    (keep : ∀ w, I w → I (f w).2) : Preserves I (change failure f) := fun s h => keep s.world h

theorem preserves_forIn {γ : Type} {xs : List γ} {f : γ → PUnit → Trial (ForInStep PUnit)}
    (step : ∀ x ∈ xs, ∀ u, Preserves I (f x u)) (u : PUnit) : Preserves I (forIn xs u f) := by
  induction xs generalizing u with
  | nil => exact preserves_pure u
  | cons x xs ih =>
    rw [List.forIn_cons]
    refine preserves_bind (step x List.mem_cons_self u) fun r => ?_
    cases r with
    | done u => exact preserves_pure u
    | yield u => exact ih (fun y hy => step y (List.mem_cons_of_mem x hy)) u

theorem preserves_followedBy {t : Trial α} {last : Trial Unit} (first : Preserves I t) (later : Preserves I last) :
    Preserves I (t.followedBy last) := by
  unfold followedBy
  exact preserves_bind first fun r => preserves_bind later fun _ => preserves_ofExcept r

end Trial

/-! ### Paths of a workspace -/

namespace Layout

open World (Below Inside along entered)

/-- The place of the directory for workspaces, where no link is followed. -/
def harnessPlace (l : Layout) (w : World) : Place :=
  along (w.start (l.base.child harnessDirectory)) (l.base.child harnessDirectory).parts

/-- The places that are entered on the way to the workspace. -/
def way (l : Layout) (w : World) : List Place := entered (w.start l.root) l.root.parts

/-- The path leads below the directory for workspaces, by way of the workspace. -/
abbrev Holds (l : Layout) (w : World) (path : Path) : Prop := Inside w (l.harnessPlace w) (l.way w) path

variable {l : Layout} {w : World}

theorem start_eq_of_root {p q : Path} (same : p.root = q.root) : w.start p = w.start q := by
  rw [World.start, World.start, Path.isAbsolute, Path.isAbsolute, same]

theorem start_of_isAbsolute (p : Path) (h : p.isAbsolute = true) : w.start p = [] := by rw [World.start, if_pos h]

/-- The workspace lies below the directory for workspaces. -/
theorem IsConfined.below (confined : l.IsConfined) :
    Below (l.harnessPlace w) (along (w.start l.root) l.root.parts) := by
  obtain ⟨root, rest, some, parts⟩ := isAbove_iff.1 confined
  rw [normalize_harness, List.append_assoc, List.singleton_append] at parts
  have names : ".." ∉ rest := by
    have normal := Path.normal_normalize l.root
    rw [parts] at normal
    exact normal.names (by decide)
  have same : w.start (l.base.child harnessDirectory) = w.start l.root := start_eq_of_root root
  refine ⟨rest, some, ?_⟩
  rw [← Path.along_normalize l.root (start_of_isAbsolute _), parts, ← List.singleton_append, ← List.append_assoc,
    World.along_append, World.along_names names, harnessPlace,
    ← Path.along_normalize (l.base.child harnessDirectory) (start_of_isAbsolute _), normalize_harness, ← same]

/-- So do the paths that go on from the workspace by names. -/
theorem IsConfined.holds (confined : l.IsConfined) {xs names : List String} (down : ".." ∉ names)
    (onWay : entered (w.start l.root) xs ⊆ l.way w)
    (reaches : along (w.start l.root) xs = along (w.start l.root) l.root.parts) :
    l.Holds w ⟨l.root.root, xs ++ names⟩ := by
  have start : w.start ⟨l.root.root, xs ++ names⟩ = w.start l.root := start_eq_of_root rfl
  have root : Below (l.harnessPlace w) (along (w.start l.root) xs) := reaches ▸ confined.below
  constructor
  · intro q hq
    rw [start, World.entered_append] at hq
    rcases List.mem_append.1 hq with hq | hq
    · exact .inl (onWay hq)
    · obtain ⟨more, -, rfl⟩ := World.below_of_mem_entered down hq
      exact .inr (root.further (List.prefix_append _ more))
  · rw [start, World.along_append, World.along_names down]
    exact root.further (List.prefix_append _ names)

theorem IsConfined.holds_root (confined : l.IsConfined) : l.Holds w l.root := by
  have whole : l.Holds w ⟨l.root.root, l.root.parts ++ []⟩ := confined.holds List.not_mem_nil (List.Subset.refl _) rfl
  rwa [List.append_nil] at whole

theorem IsConfined.holds_child (confined : l.IsConfined) {name : String} (plain : '/' ∉ name.toList)
    (some : name ≠ "") (dot : name ≠ ".") (back : name ≠ "..") : l.Holds w (l.root.child name) := by
  rw [Path.child_of_name _ plain some dot]
  exact confined.holds (fun h => back (List.mem_singleton.1 h).symm) (List.Subset.refl _) rfl

theorem IsConfined.holds_marker (confined : l.IsConfined) (m : Marker) : l.Holds w (l.root.child m.fileName) := by
  cases m <;> exact confined.holds_child (by decide) (by decide) (by decide) (by decide)

theorem name_marker_ne (l : Layout) (m : Marker) : (l.marker m).name ≠ ".." := by
  cases m <;>
  · rw [Layout.marker, Path.child_of_name _ (by decide) (by decide) (by decide), Path.name, List.getLastD_concat]
    decide

theorem IsConfined.holds_normalized (confined : l.IsConfined) {names : List String} (down : ".." ∉ names) :
    l.Holds w ⟨l.root.root, l.root.normalize.parts ++ names⟩ :=
  confined.holds down (Path.entered_normalize l.root (start_of_isAbsolute _))
    (Path.along_normalize l.root (start_of_isAbsolute _))

/-- Source files go below the directory for source files. -/
theorem source_spec {relative : String} {p : Path} (h : l.source relative = .ok p) :
    ∃ names, ".." ∉ names ∧ p = ⟨l.root.root, l.root.normalize.parts ++ ("src" :: names)⟩ := by
  have sources : l.sources.normalize = ⟨l.root.root, l.root.normalize.parts ++ ["src"]⟩ := by
    rw [Layout.sources, Path.child_of_name _ (by decide) (by decide) (by decide), Path.normalize, List.foldl_append]
    rfl
  unfold source at h
  dsimp only at h
  split at h
  · cases h
  · split at h
    · next above =>
      have placed := Except.ok.inj h
      rw [placed] at above
      obtain ⟨root, rest, -, parts⟩ := isAbove_iff.1 above
      rw [sources] at root parts
      have normal : Path.Normal p.parts := placed ▸ Path.normal_normalize _
      rw [parts, List.append_assoc, List.singleton_append] at normal
      refine ⟨rest, normal.names (by decide), ?_⟩
      rw [List.append_assoc, List.singleton_append] at parts
      cases p
      simp_all
    · cases h

end Layout

/-! ### Steps of a run -/

namespace Workspace

open Trial Layout

variable {l : Layout} {before : World} {c : Case}

/-- Compared with an earlier world nothing has changed but what lies below the directory for workspaces, and
directories on the way to the workspace that were missing. -/
abbrev Unharmed (l : Layout) (before : World) : World → Prop := World.Kept before (l.harnessPlace before) (l.way before)

theorem preserves_demandSound (p : Path) : Preserves (Unharmed l before) (demandSound p) := by
  unfold demandSound
  split
  · exact preserves_throw _
  · exact preserves_pure ()

theorem preserves_ensureDirectory {p : Path}
    (inside : ∀ q ∈ World.entered (before.start p) p.parts, q ∈ l.way before ∨ World.Below (l.harnessPlace before) q) :
    Preserves (Unharmed l before) (ensureDirectory c p) := by
  unfold ensureDirectory
  exact preserves_bind (preserves_demandSound p) fun _ => preserves_change fun _ kept => kept.ensureDirectory inside

theorem preserves_storeText {p : Path} (inside : l.Holds before p) (text : String) :
    Preserves (Unharmed l before) (storeText c p text) := by
  unfold storeText
  exact preserves_bind (preserves_demandSound p) fun _ => preserves_change fun _ kept => kept.storeText inside text

theorem preserves_writeSource (confined : l.IsConfined) (f : SourceFile) :
    Preserves (Unharmed l before) (writeSource c l f) := by
  unfold writeSource
  refine preserves_ofExcept_bind fun p placed => ?_
  obtain ⟨names, down, rfl⟩ := source_spec placed
  have parent : Path.parent ⟨l.root.root, l.root.normalize.parts ++ ("src" :: names)⟩ =
      ⟨l.root.root, l.root.normalize.parts ++ ("src" :: names).dropLast⟩ := by
    rw [Path.parent, List.dropLast_append_of_ne_nil (List.cons_ne_nil _ _)]
  have below : ".." ∉ "src" :: names := by
    rw [List.mem_cons, not_or]
    exact ⟨by decide, down⟩
  refine preserves_bind ?_ fun _ => ?_
  · rw [parent]
    exact preserves_ensureDirectory
      (confined.holds_normalized fun back => below (List.dropLast_subset _ back)).entered
  · dsimp only
    split
    · exact preserves_bind (preserves_storeText (confined.holds_normalized below) _) fun _ => preserves_pure _
    · exact preserves_bind (preserves_throw _) fun _ => preserves_pure _

/-- **What is written lies in the directory for workspaces.** -/
theorem preserves_materialize (confined : l.IsConfined) (script : String) :
    Preserves (Unharmed l before) (materialize c l script) := by
  unfold materialize
  refine preserves_bind (preserves_ensureDirectory ?_) fun _ => preserves_bind ?_ fun _ =>
    preserves_bind (preserves_storeText ?_ script) fun _ =>
    preserves_bind (preserves_writeSource confined _) fun _ => preserves_bind ?_ fun _ => preserves_pure _
  · exact (confined.holds_child (by decide) (by decide) (by decide) (by decide)).entered
  · refine preserves_forIn (fun m _ _ => ?_) _
    exact preserves_bind (preserves_change fun _ kept => kept.removeFile (confined.holds_marker m)
      (l.name_marker_ne m)) fun _ =>
      preserves_pure _
  · exact confined.holds_child (by decide) (by decide) (by decide) (by decide)
  · refine preserves_forIn (fun f _ _ => ?_) _
    exact preserves_bind (preserves_writeSource confined f) fun _ => preserves_pure _

/-- **What is removed lies in the directory for workspaces.** -/
theorem preserves_cleanup (confined : l.IsConfined) : Preserves (Unharmed l before) (cleanup l) := by
  unfold cleanup
  exact preserves_bind (preserves_demandSound _) fun _ =>
    preserves_modify fun _ kept => kept.removeTree confined.holds_root

end Workspace

namespace Trial

open Layout
open Workspace (Unharmed)

variable {l : Layout} {before : World} {c : Case}

/-- The editor leaves its reports in the workspace. -/
theorem unharmed_leave (confined : l.IsConfined) {w : World} (kept : Unharmed l before w) (left : Marker × Left) :
    Unharmed l before (leave l w left) := by
  have parent : l.script.parent = l.root := by
    rw [Layout.script, Path.child_of_name _ (by decide) (by decide) (by decide), Path.parent, List.dropLast_concat]
  have made := kept.ensureDirectory confined.holds_root.entered
  unfold leave
  dsimp only
  rw [parent]
  split
  · cases stored : World.store (w.ensureDirectory l.root).2 (l.root.child left.1.fileName) _ with
    | error e => exact made
    | ok w' => exact made.store (confined.holds_marker left.1) stored
  · exact made.ensureDirectory (confined.holds_marker left.1).entered

theorem unharmed_leaves (confined : l.IsConfined) (leaves : List (Marker × Left)) {w : World}
    (kept : Unharmed l before w) : Unharmed l before (leaves.foldl (leave l) w) := by
  induction leaves generalizing w with
  | nil => exact kept
  | cons left rest ih => exact ih (unharmed_leave confined kept left)

theorem preserves_supervise (confined : l.IsConfined) (source : Path) (interval : Float) (e : Editor) :
    Preserves (Unharmed l before) (supervise c l source interval e) := by
  unfold supervise enter exit
  refine preserves_bind (preserves_modify fun _ kept => kept) fun _ => ?_
  split
  · exact preserves_bind (preserves_modify fun _ kept => kept) fun _ => preserves_throw _
  · refine preserves_bind (preserves_modify fun s kept => unharmed_leaves confined e.leaves kept) fun _ => ?_
    dsimp only
    refine preserves_bind (preserves_modify fun _ kept => kept) fun _ => ?_
    split
    · refine preserves_bind preserves_world fun _ => preserves_bind (preserves_ofFault _) fun _ => ?_
      split
      · exact preserves_bind (preserves_throw _) fun _ => preserves_throw _
      · exact preserves_throw _
    · exact preserves_pure ()

/-- **What a run changes lies in the directory for workspaces.** -/
theorem preserves_perform (confined : l.IsConfined) (r : Request) (e : Expectation) (injections : List Injection)
    (editor : Editor) : Preserves (Unharmed l before) (perform c l r e injections editor) := by
  unfold perform
  exact preserves_bind (preserves_ofExcept _) fun _ => preserves_bind (Workspace.preserves_materialize confined _)
    fun _ => preserves_bind preserves_world fun _ => preserves_bind (preserves_ofFault _) fun _ =>
    preserves_bind (preserves_supervise confined _ _ _) fun _ => preserves_bind preserves_world fun _ =>
    preserves_ofExcept _

theorem runIn_world_bind {α : Type} (f : World → Trial α) (s : Session) :
    (world >>= f).runIn s = (f s.world).runIn s := rfl

theorem run_unharmed (c : Case) (r : Request) (e : Expectation) (given : Inputs) (editor : Editor) (s : Session)
    (confined : (c.layout s.world).IsConfined) (start : Unharmed (c.layout s.world) s.world s.world) :
    Unharmed (c.layout s.world) s.world ((run c r e given editor).runIn s).2.world := by
  unfold run
  rw [runIn_world_bind]
  refine (?_ : Preserves (Unharmed (c.layout s.world) s.world) _) s start
  refine preserves_bind (preserves_ofExcept _) fun injections => preserves_bind (preserves_ofExcept _) fun _ =>
    preserves_bind (preserves_ofExcept _) fun _ => ?_
  have body : Preserves (Unharmed (c.layout s.world) s.world)
      (perform c (c.layout s.world) r e injections editor) := preserves_perform confined r e injections editor
  dsimp only
  split
  · exact preserves_followedBy body (Workspace.preserves_cleanup confined)
  · exact body

end Trial

namespace Layout

open World (Below)

/-- **Confinement.**  The workspace of a case lies below the directory for workspaces, wherever that one is, exactly if
the id of the case is an inner one.  If it does, and no link is in that directory or on the way to the workspace, a run
changes, however it goes, nothing that lies elsewhere, but may make directories on the way that were missing. -/
theorem confinement (c : Case) (r : Request) (e : Expectation) (given : Inputs) (editor : Editor) (s : Session) :
    let l := c.layout s.world
    let after := ((Trial.run c r e given editor).runIn s).2.world
    ((∀ base, (Layout.mk c.testId base).IsConfined) ↔ IsInnerId c.testId) ∧
    (l.IsConfined →
      (∀ p, p ∈ l.way s.world ∨ Below (l.harnessPlace s.world) p → ∀ target, s.world.at? p ≠ some (.link target)) →
      ∀ p, Below (l.harnessPlace s.world) p ∨ after.at? p = s.world.at? p ∨
        (p ∈ l.way s.world ∧ s.world.at? p = none ∧ after.at? p = some .directory)) := by
  intro l after
  refine ⟨isConfined_iff c.testId, fun confined unlinked p => ?_⟩
  have kept := Trial.run_unharmed c r e given editor s confined ⟨rfl, fun _ _ => .inl rfl, unlinked⟩
  by_cases below : Below (l.harnessPlace s.world) p
  · exact .inl below
  · exact .inr (kept.outside p below)

/-- A case with a number for an id, in a directory that holds nothing yet. -/
theorem confinement_number :
    let w : World := ⟨[(["t"], .directory), (["e"], .file [] true)], [], [], ⟨.slash, ["t"]⟩, "1"⟩
    let c : Case := ⟨"/e", ⟨"a.b", .str ""⟩, none, [], .immediate, 1, true, "/e", "42"⟩
    let editor : Editor := ⟨none, some 0, [(.empty, .file [])]⟩
    let l := c.layout w
    let after := ((Trial.run c .documentColor .nothing [] editor).runIn (.ofWorld w)).2.world
    IsInnerId "42" ∧ l.IsConfined ∧ l.harnessPlace w = ["t", "lspresso-shot"] ∧
      (∀ p, p ∈ l.way w ∨ Below (l.harnessPlace w) p → ∀ target, w.at? p ≠ some (.link target)) ∧
      ∀ p, Below (l.harnessPlace w) p ∨ after.at? p = w.at? p ∨
        (p ∈ l.way w ∧ w.at? p = none ∧ after.at? p = some .directory) := by
  intro w c editor l after
  have inner : IsInnerId "42" := isInnerId_of_name (by decide) (by decide) (by decide) (by decide)
  have confined : l.IsConfined := (isConfined_iff "42").2 inner _
  have unlinked : ∀ p target, w.at? p ≠ some (.link target) := by
    intro p target
    by_cases top : p = []
    · rw [World.at?, if_pos top]
      simp
    · rw [World.at?_of_ne_nil _ top, World.find?_cons_place, World.find?_cons_place]
      split
      · simp
      · split <;> simp
  exact ⟨inner, confined, by decide, fun p _ => unlinked p,
    (confinement c .documentColor .nothing [] editor (.ofWorld w)).2 confined fun p _ => unlinked p⟩

/-- A file beside the directory for workspaces. -/
def besideWorkspaces : World :=
  ⟨[(["t"], .directory), (["t", "lspresso-shot"], .directory), (["t", "own"], .file [1] false), (["e"], .file [] true)],
    [], [], ⟨.slash, ["t"]⟩, "1"⟩

/-- A case with two dots for an id, which passes every check. -/
def twoDots : Case := ⟨"/e", ⟨"a.b", .str ""⟩, none, [], .immediate, 1, true, "/e", ".."⟩

theorem twoDots_validate : twoDots.validate besideWorkspaces = .ok () := by
  have runnable : ∀ failure, Case.demand besideWorkspaces "/e" failure = .ok () := fun failure => by cbv
  have placed : (twoDots.layout besideWorkspaces).source "a.b" = .ok ⟨.slash, ["t", "src", "a.b"]⟩ := by cbv
  have extension : twoDots.fileExtension = .ok "b" := rfl
  have files : twoDots.files = [⟨"a.b", .str ""⟩] := rfl
  have editor : twoDots.editor = "/e" := rfl
  have server : twoDots.server = "/e" := rfl
  unfold Case.validate
  rw [extension, files, editor, server, runnable, runnable]
  simp only [List.forM_eq_forM, List.forM_cons, List.forM_nil, placed]
  rfl

/-- With two dots for an id the workspace is the directory for temporary files itself, and is removed as such. -/
theorem cleanup_elsewhere :
    let l := twoDots.layout besideWorkspaces
    let after := ((Workspace.cleanup l).runIn (.ofWorld besideWorkspaces)).2.world
    twoDots.validate besideWorkspaces = .ok () ∧ ¬ l.IsConfined ∧
      ¬ Below (l.harnessPlace besideWorkspaces) ["t", "own"] ∧
      besideWorkspaces.at? ["t", "own"] = some (.file [1] false) ∧ after.at? ["t", "own"] = none := by
  intro l after
  have place : l.harnessPlace besideWorkspaces = ["t", "lspresso-shot"] := by decide
  refine ⟨twoDots_validate, ?_, ?_, by decide, by decide⟩
  · unfold IsConfined
    decide
  · rintro ⟨rest, -, down⟩
    rw [place] at down
    simp at down

end Layout

end ServerTrial
