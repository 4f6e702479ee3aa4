import ServerTrial.Proofs.LexicalPath

/-!
# What operations on the tree change

* `World.Kept before top way w`: the tree of `w` differs from the one of `before` only below the place `top`, and by
  directories that were missing on the `way` there;
* `World.Inside before top way path`: the path leads below `top`, and on the way there enters no places but these;
* `Kept.ensureDirectory`, `Kept.store`, `Kept.removeFile`, `Kept.removeTree`: operations on such paths keep the tree so.

No link is at any of these places, so a path leads where its components say (`Kept.walk`).
-/

namespace ServerTrial

namespace World

/-! ### What stands at a place after a change -/

section At

variable (w : World)

theorem at?_of_ne_nil {p : Place} (h : p ≠ []) : w.at? p = (w.nodes.find? fun e => e.1 == p).map Prod.snd := by
  rw [at?, if_neg h]

theorem find?_cons_place (e : Place × Node) (nodes : List (Place × Node)) (p : Place) :
    ((e :: nodes).find? fun x => x.1 == p).map Prod.snd =
      if e.1 = p then some e.2 else (nodes.find? fun x => x.1 == p).map Prod.snd := by
  rw [List.find?_cons]
  split
  · next here => rw [if_pos (beq_iff_eq.1 here)]; rfl
  · next there => rw [if_neg (beq_eq_false_iff_ne.1 there)]

theorem at?_set_of_ne {p q : Place} (n : Node) (h : q ≠ p) : (w.set p n).at? q = w.at? q := by
  by_cases top : q = []
  · rw [at?, at?, if_pos top, if_pos top]
  · rw [at?_of_ne_nil _ top, at?_of_ne_nil _ top, set]
    split
    · dsimp only
      induction w.nodes with
      | nil => rfl
      | cons e nodes ih =>
        rw [List.map_cons, find?_cons_place, find?_cons_place, ih]
        by_cases here : e.1 = p
        · simp [here, Ne.symm h]
        · simp [here]
    · dsimp only
      rw [List.find?_append, List.find?_singleton, if_neg (by simpa using Ne.symm h), Option.or_none]

theorem at?_set_self {p : Place} (n : Node) (h : p ≠ []) : (w.set p n).at? p = some n := by
  rw [at?_of_ne_nil _ h, set]
  split
  · next there =>
    dsimp only
    induction nodes : w.nodes generalizing w with
    | nil => simp [nodes] at there
    | cons e rest ih =>
      rw [List.map_cons, find?_cons_place]
      by_cases here : e.1 = p
      · simp [here]
      · have later := ih { w with nodes := rest } (by simpa [nodes, here] using there) rfl
        rw [later]
        simp [here]
  · next missing =>
    have none : w.nodes.find? (fun e => e.1 == p) = none := by
      rw [List.find?_eq_none]
      exact fun e he same => missing (List.any_eq_true.2 ⟨e, he, same⟩)
    simp [none]

theorem at?_filter (keep : Place → Bool) {q : Place} (h : q ≠ []) :
    World.at? { w with nodes := w.nodes.filter fun e => keep e.1 } q = if keep q then w.at? q else none := by
  rw [at?_of_ne_nil _ h, at?_of_ne_nil _ h]
  dsimp only
  induction w.nodes with
  | nil => simp
  | cons e nodes ih =>
    rw [List.filter_cons, find?_cons_place]
    by_cases there : e.1 = q
    · by_cases kept : keep q = true
      · rw [if_pos (there ▸ kept), find?_cons_place, if_pos there, if_pos kept, if_pos there]
      · rw [if_neg (there ▸ kept), ih, if_neg kept, if_neg kept]
    · rw [if_neg there, ← ih]
      split
      · rw [find?_cons_place, if_neg there]
      · rfl

theorem isPrefixOf_eq_false {p q : Place} (h : ¬ p <+: q) : p.isPrefixOf q = false :=
  Bool.eq_false_iff.2 fun yes => h (List.isPrefixOf_iff_prefix.1 yes)

/-- Removing what stands at a place changes nothing elsewhere. -/
theorem at?_remove_apart {p q : Place} (h : ¬ p <+: q) : (w.remove p).at? q = w.at? q := by
  by_cases top : q = []
  · rw [at?, at?, if_pos top, if_pos top]
  · exact (w.at?_filter (fun r => !p.isPrefixOf r) top).trans (if_pos (by rw [isPrefixOf_eq_false h]; rfl))

theorem at?_remove_eq_none {p q : Place} (h : p <+: q) (some : q ≠ []) : (w.remove p).at? q = none :=
  (w.at?_filter (fun r => !p.isPrefixOf r) some).trans (if_neg (by simpa using h))

theorem at?_removeBelow_apart {p q : Place} (h : ¬ p <+: q) : (w.removeBelow p).at? q = w.at? q := by
  by_cases top : q = []
  · rw [at?, at?, if_pos top, if_pos top]
  · have stays : (q == p || !p.isPrefixOf q) = true := by rw [isPrefixOf_eq_false h, Bool.not_false, Bool.or_true]
    exact (w.at?_filter (fun r => r == p || !p.isPrefixOf r) top).trans (if_pos stays)

theorem at?_removeBelow {p q : Place} (some : q ≠ []) :
    (w.removeBelow p).at? q = w.at? q ∨ (w.removeBelow p).at? q = none := by
  have := w.at?_filter (fun r => r == p || !p.isPrefixOf r) some
  split at this
  · exact .inl this
  · exact .inr this

end At

/-! ### Operations on the tree -/

/-- Compared with an earlier world the tree is the same, but for what lies below a place and for directories that were
missing on the way.  There are no links at these places. -/
structure Kept (before : World) (top : Place) (way : List Place) (w : World) : Prop where
  current : w.current = before.current
  outside : ∀ p, ¬ Below top p →
    w.at? p = before.at? p ∨ (p ∈ way ∧ before.at? p = none ∧ w.at? p = some .directory)
  unlinked : ∀ p, p ∈ way ∨ Below top p → ∀ target, w.at? p ≠ some (.link target)

/-- A path that leads below the place, on the way or below it. -/
structure Inside (before : World) (top : Place) (way : List Place) (path : Path) : Prop where
  entered : ∀ q ∈ entered (before.start path) path.parts, q ∈ way ∨ Below top q
  below : Below top (along (before.start path) path.parts)

namespace Kept

variable {before w : World} {top : Place} {way : List Place}

theorem start (kept : Kept before top way w) (path : Path) : w.start path = before.start path := by
  rw [World.start, World.start, kept.current]

theorem set (kept : Kept before top way w) {q : Place} (below : Below top q) {n : Node}
    (plain : ∀ target, n ≠ .link target) : Kept before top way (w.set q n) where
  current := by
    rw [World.set]
    split <;> exact kept.current
  outside p hp := by
    have other : p ≠ q := fun same => hp (same ▸ below)
    rw [at?_set_of_ne w n other]
    exact kept.outside p hp
  unlinked p hp target := by
    by_cases same : p = q
    · rw [same, at?_set_self w n below.ne_nil]
      exact fun h => plain target (Option.some.inj h)
    · rw [at?_set_of_ne w n same]
      exact kept.unlinked p hp target

/-- A missing directory may be made on the way, too. -/
theorem make (kept : Kept before top way w) {q : Place} (allowed : q ∈ way ∨ Below top q) (missing : w.at? q = none) :
    Kept before top way (w.set q .directory) := by
  by_cases below : Below top q
  · exact kept.set below fun target h => nomatch h
  · have onWay : q ∈ way := allowed.resolve_right below
    have some : q ≠ [] := by
      rintro rfl
      rw [at?, if_pos rfl] at missing
      cases missing
    refine ⟨?_, fun p hp => ?_, fun p hp target => ?_⟩
    · rw [World.set]
      split <;> exact kept.current
    · by_cases same : p = q
      · subst same
        rw [at?_set_self w _ some]
        refine .inr ⟨onWay, ?_, rfl⟩
        rcases kept.outside p hp with h | ⟨_, _, h⟩
        · rw [← h, missing]
        · rw [missing] at h
          cases h
      · rw [at?_set_of_ne w _ same]
        exact kept.outside p hp
    · by_cases same : p = q
      · rw [same, at?_set_self w _ some]
        exact fun h => nomatch h
      · rw [at?_set_of_ne w _ same]
        exact kept.unlinked p hp target

theorem remove (kept : Kept before top way w) {q : Place} (below : Below top q) : Kept before top way (w.remove q) where
  current := kept.current
  outside p hp := by
    rw [at?_remove_apart w fun further => hp (below.further further)]
    exact kept.outside p hp
  unlinked p hp target := by
    by_cases further : q <+: p
    · rw [at?_remove_eq_none w further (below.further further).ne_nil]
      exact fun h => nomatch h
    · rw [at?_remove_apart w further]
      exact kept.unlinked p hp target

theorem removeBelow (kept : Kept before top way w) {q : Place} (below : Below top q) :
    Kept before top way (w.removeBelow q) where
  current := kept.current
  outside p hp := by
    rw [at?_removeBelow_apart w fun further => hp (below.further further)]
    exact kept.outside p hp
  unlinked p hp target := by
    by_cases further : q <+: p
    · rcases at?_removeBelow w (p := q) (below.further further).ne_nil with h | h
      · rw [h]
        exact kept.unlinked p hp target
      · rw [h]
        exact fun h => nomatch h
    · rw [at?_removeBelow_apart w further]
      exact kept.unlinked p hp target

theorem follow (kept : Kept before top way w) {q : Place} (allowed : q ∈ way ∨ Below top q) : w.follow q = q := by
  unfold World.follow
  split
  · next target h => exact absurd h (kept.unlinked q allowed target)
  · rfl

/-- Where no link is entered, a walk that ends well ends where the components lead. -/
theorem walk (kept : Kept before top way w) {p q : Place} {parts : List String}
    (inside : ∀ q ∈ World.entered p parts, q ∈ way ∨ Below top q) (found : w.walk p parts = .ok q) :
    q = along p parts := by
  induction parts generalizing p with
  | nil => exact (Except.ok.inj found).symm
  | cons c rest ih =>
    rw [World.walk] at found
    rw [World.entered] at inside
    split at found
    · split at found
      · next back =>
        rw [if_pos back] at inside
        rw [along, if_pos back]
        exact ih inside found
      · next name =>
        rw [if_neg name] at inside
        split at found
        · cases found
        · rw [kept.follow (inside _ List.mem_cons_self)] at found
          rw [along, if_neg name]
          exact ih (fun q hq => inside q (List.mem_cons_of_mem _ hq)) found
    · cases found
    · cases found

theorem locate (kept : Kept before top way w) {path : Path} (inside : Inside before top way path) {q : Place}
    (found : w.locate path = .ok q) : Below top q := by
  rw [World.locate] at found
  split at found
  · cases found
  · rw [kept.start] at found
    rw [kept.walk inside.entered found]
    exact inside.below

theorem makeAlong (kept : Kept before top way w) {p : Place} {parts : List String}
    (inside : ∀ q ∈ World.entered p parts, q ∈ way ∨ Below top q) : Kept before top way (w.makeAlong p parts).2 := by
  induction parts generalizing p w with
  | nil => exact kept
  | cons c rest ih =>
    rw [World.makeAlong]
    rw [World.entered] at inside
    split
    · next back =>
      rw [if_pos back] at inside
      exact ih kept inside
    · next name =>
      rw [if_neg name] at inside
      have here := inside _ List.mem_cons_self
      have later : ∀ q ∈ World.entered (p ++ [c]) rest, q ∈ way ∨ Below top q :=
        fun q hq => inside q (List.mem_cons_of_mem _ hq)
      split
      · exact kept
      · rw [kept.follow here]
        dsimp only
        split
        · exact ih kept later
        · exact kept
        · next missing =>
          split
          · exact ih (kept.make here missing) later
          · exact kept

theorem ensureDirectory (kept : Kept before top way w) {path : Path}
    (inside : ∀ q ∈ World.entered (before.start path) path.parts, q ∈ way ∨ Below top q) :
    Kept before top way (w.ensureDirectory path).2 := by
  rw [World.ensureDirectory]
  split
  · exact kept
  · rw [kept.start]
    split
    · exact kept.makeAlong inside
    · exact kept

theorem store (kept : Kept before top way w) {path : Path} (inside : Inside before top way path)
    {content : List UInt8} {w' : World} (stored : w.store path content = .ok w') : Kept before top way w' := by
  rw [World.store] at stored
  split at stored
  · cases stored
  · next place found =>
    have below := kept.locate inside found
    split at stored
    · cases stored
    · rw [← Except.ok.inj stored]
      exact kept.set below fun target h => nomatch h
    · cases stored
    · split at stored
      · rw [← Except.ok.inj stored]
        exact kept.set below fun target h => nomatch h
      · cases stored

theorem storeText (kept : Kept before top way w) {path : Path} (inside : Inside before top way path) (text : String) :
    Kept before top way (w.storeText path text).2 := by
  rw [World.storeText]
  split
  · exact kept
  · next stored => exact kept.store inside stored

/-- No link stands at the end of such a path. -/
theorem linkAt?_eq_none (kept : Kept before top way w) {path : Path} (inside : Inside before top way path)
    (name : path.name ≠ "..") : w.linkAt? path = none := by
  unfold World.linkAt?
  split
  · next last place ends found =>
    obtain ⟨init, parts⟩ := List.getLast?_eq_some_iff.1 ends
    have named : last ≠ ".." := by rwa [Path.name, parts, List.getLastD_concat] at name
    have entered := inside.entered
    rw [parts, World.entered_append] at entered
    have reached : place = along (before.start path) init := by
      rw [World.locate, Path.parent, parts, List.dropLast_concat] at found
      split at found
      · cases found
      · rw [show w.start ⟨path.root, init⟩ = before.start path from kept.start path] at found
        exact kept.walk (fun q hq => entered q (List.mem_append_left _ hq)) found
    have here : place ++ [last] ∈ World.entered (along (before.start path) init) [last] := by
      rw [World.entered, if_neg named, reached]
      exact List.mem_cons_self
    split
    · next target link => exact absurd link (kept.unlinked _ (entered _ (List.mem_append_right _ here)) target)
    · rfl
  · rfl

theorem removeFile (kept : Kept before top way w) {path : Path} (inside : Inside before top way path)
    (name : path.name ≠ "..") : Kept before top way (w.removeFile path).2 := by
  rw [World.removeFile]
  split
  · exact kept
  · exact kept
  · next place found =>
    rw [kept.linkAt?_eq_none inside name]
    dsimp only
    split
    · exact kept
    · exact kept.remove (kept.locate inside found)
    · exact kept

theorem removeTree (kept : Kept before top way w) {path : Path} (inside : Inside before top way path) :
    Kept before top way (w.removeTree path) := by
  rw [World.removeTree]
  split
  · exact kept
  · split
    · exact kept
    · next place found =>
      have below := kept.locate inside found
      split
      · split
        · exact kept.removeBelow below
        · exact kept.remove below
      · exact kept

end Kept

end World

end ServerTrial
