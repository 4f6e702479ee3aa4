import ServerTrial.Proofs.TreeChanges

/-!
# The shape of the tree

* `World.IsTree w`: whatever is there stands in a directory;
* `World.Grown before w`, `World.Thinned before w`, `World.Firm before w`: places that were missing may be directories
  now; something may be missing now; directories and links are where they were;
* `World.Free w path`: no link stands at the end of the path, and it leads to a directory or to nothing;
* `World.Solid w path`: it leads to a directory.

`Thinned.walk` says where a path may lead after a removal, `Free.find?_removeTree` that a free path leads nowhere once
what it leads to has been removed.
-/

namespace ServerTrial

namespace World

variable {w before : World}

/-! ### Walking in steps -/

theorem at?_nil (w : World) : w.at? [] = some .directory := if_pos rfl

theorem mem_nodes_of_at? {p : Place} {n : Node} (found : w.at? p = some n) : p = [] ∨ (p, n) ∈ w.nodes := by
  rw [at?] at found
  split at found
  · next top => exact .inl top
  · obtain ⟨e, first, rfl⟩ := Option.map_eq_some_iff.1 found
    have place : e.1 = p := beq_iff_eq.1 (List.find?_some (p := fun e : Place × Node => e.1 == p) first)
    exact .inr (place ▸ List.mem_of_find?_eq_some first)

/-- Where one component leads from a directory. -/
def enter (w : World) (p : Place) (c : String) : Place := if c = ".." then p.dropLast else w.follow (p ++ [c])

/-- May the component be walked along?  Steps back may, and names that are not too long. -/
def Passable (c : String) : Prop := c = ".." ∨ ¬ c.utf8ByteSize > nameLimit

theorem walk_cons_eq_ok {p q : Place} {c : String} {rest : List String} :
    w.walk p (c :: rest) = .ok q ↔ w.at? p = some .directory ∧ Passable c ∧ w.walk (w.enter p c) rest = .ok q := by
  rw [walk, enter, Passable]
  cases w.at? p with
  | none => simp
  | some node =>
    cases node with
    | file _ _ => simp
    | link _ => simp
    | directory =>
      by_cases back : c = ".."
      · simp [back]
      · by_cases long : c.utf8ByteSize > nameLimit
        · simp [back, long]
        · simp [back, long]

theorem walk_append_eq_ok {p q : Place} {xs ys : List String} :
    w.walk p (xs ++ ys) = .ok q ↔ ∃ m, w.walk p xs = .ok m ∧ w.walk m ys = .ok q := by
  induction xs generalizing p with
  | nil => simp [walk]
  | cons c rest ih =>
    simp only [List.cons_append, walk_cons_eq_ok, ih]
    constructor
    · rintro ⟨directory, passable, m, first, later⟩
      exact ⟨m, ⟨directory, passable, first⟩, later⟩
    · rintro ⟨m, ⟨directory, passable, first⟩, later⟩
      exact ⟨directory, passable, m, first, later⟩

/-- A walk to a name ends at what the name stands for in a directory. -/
theorem walk_name_eq_ok {p q : Place} {name : String} (down : name ≠ "..") :
    w.walk p [name] = .ok q ↔ w.at? p = some .directory ∧ Passable name ∧ q = w.follow (p ++ [name]) := by
  rw [walk_cons_eq_ok, walk, enter, if_neg down, Except.ok.injEq, eq_comm (a := w.follow _)]

theorem follow_of_ne_link {p : Place} (plain : ∀ target, w.at? p ≠ some (.link target)) : w.follow p = p := by
  unfold follow
  split
  · next target link => exact absurd link (plain target)
  · rfl

theorem locate_eq_ok {path : Path} {q : Place} :
    w.locate path = .ok q ↔ tooLong path = false ∧ w.walk (w.start path) path.parts = .ok q := by
  unfold locate
  cases tooLong path <;> simp

/-- What stands at the end of a path. -/
theorem find?_eq (w : World) (path : Path) :
    w.find? path =
      if (flaw? path).isSome then none
      else
        match w.locate path with
        | .ok place => w.at? place
        | .error _ => none := by
  unfold find? probe
  split
  · rfl
  · cases w.locate path with
    | ok place => rfl
    | error e => cases e <;> rfl

theorem find?_eq_none {path : Path} (nowhere : ∀ place, w.locate path = .ok place → w.at? place = none) :
    w.find? path = none := by
  rw [find?_eq]
  split
  · rfl
  · cases found : w.locate path with
    | ok place => exact nowhere place found
    | error e => rfl

/-- A link stands at the end of a path if it stands in the directory that the path without its last component leads
to. -/
theorem isLink_iff {path : Path} :
    w.isLink path = true ↔ ∃ name place target, path.parts.getLast? = some name ∧
      w.locate path.parent = .ok place ∧ w.at? (place ++ [name]) = some (.link target) := by
  unfold isLink linkAt?
  cases path.parts.getLast? with
  | none => simp
  | some name =>
    cases w.locate path.parent with
    | error e => simp
    | ok place =>
      cases there : w.at? (place ++ [name]) with
      | none => simp [there]
      | some node => cases node <;> simp [there]

theorem size_intercalate_le (xs : List String) (x : String) :
    ("/".intercalate xs).utf8ByteSize ≤ ("/".intercalate (xs ++ [x])).utf8ByteSize := by
  induction xs with
  | nil => simp
  | cons y ys ih =>
    cases ys with
    | nil =>
      rw [List.singleton_append, String.intercalate_cons_cons, String.intercalate_singleton]
      simp only [String.utf8ByteSize_append]
      omega
    | cons z zs =>
      rw [List.cons_append] at ih
      rw [List.cons_append, List.cons_append, String.intercalate_cons_cons, String.intercalate_cons_cons]
      simp only [String.utf8ByteSize_append]
      omega

/-- Without its last component no path is too long that was not so before. -/
theorem tooLong_parent {path : Path} (short : tooLong path = false) : tooLong path.parent = false := by
  unfold tooLong at short ⊢
  rw [decide_eq_false_iff_not] at short ⊢
  rcases List.eq_nil_or_concat path.parts with none | ⟨init, last, parts⟩
  · have same : path.parent = path := by
      cases path
      simp_all [Path.parent]
    rwa [same]
  · rw [List.concat_eq_append] at parts
    have parent : path.parent = ⟨path.root, init⟩ := by rw [Path.parent, parts, List.dropLast_concat]
    rw [Path.toString, if_neg (by simp [parts]), parts, String.utf8ByteSize_append] at short
    rw [parent, Path.toString]
    dsimp only
    split
    · decide
    · have shorter := size_intercalate_le init last
      rw [String.utf8ByteSize_append]
      omega

/-- A file is written where one is, or where nothing is in a directory. -/
theorem store_eq_ok_iff {path : Path} {content : List UInt8} {w' : World} :
    w.store path content = .ok w' ↔ ∃ q, w.locate path = .ok q ∧
      ((∃ old executable, w.at? q = some (.file old executable) ∧ w' = w.set q (.file content executable)) ∨
        w.at? q = none ∧ w.at? q.dropLast = some .directory ∧ w' = w.set q (.file content false)) := by
  rw [store]
  cases w.locate path with
  | error e => simp
  | ok q =>
    simp only [Except.ok.injEq, exists_eq_left']
    cases w.at? q with
    | none =>
      cases w.at? q.dropLast with
      | none => simp
      | some node => cases node <;> simp [eq_comm]
    | some node =>
      cases node with
      | directory => simp
      | link target => simp
      | file old executable =>
        refine ⟨fun same => .inl ⟨old, executable, rfl, (Except.ok.inj same).symm⟩, ?_⟩
        rintro (⟨_, _, ⟨⟩, same⟩ | ⟨⟨⟩, -⟩)
        rw [same]

theorem store_eq_ok {path : Path} {content : List UInt8} {w' : World} (stored : w.store path content = .ok w') :
    ∃ q executable, w.locate path = .ok q ∧ w' = w.set q (.file content executable) ∧
      w.at? q ≠ some .directory ∧ (∀ target, w.at? q ≠ some (.link target)) ∧
        (w.at? q = none → w.at? q.dropLast = some .directory) := by
  obtain ⟨q, located, ⟨old, executable, there, rfl⟩ | ⟨missing, above, rfl⟩⟩ := store_eq_ok_iff.1 stored
  · exact ⟨q, executable, located, rfl, by simp [there], by simp [there], by simp [there]⟩
  · exact ⟨q, false, located, rfl, by simp [missing], by simp [missing], fun _ => above⟩

/-! ### Trees -/

/-- Whatever is there stands in a directory. -/
def IsTree (w : World) : Prop := ∀ p c, w.at? (p ++ [c]) ≠ none → w.at? p = some .directory

namespace IsTree

theorem missing (tree : w.IsTree) {p : Place} (none : w.at? p ≠ some .directory) (c : String) :
    w.at? (p ++ [c]) = .none := by
  by_contra there
  exact none (tree p c there)

theorem dropLast (tree : w.IsTree) {p : Place} (directory : w.at? p = some .directory) :
    w.at? p.dropLast = some .directory := by
  rcases List.eq_nil_or_concat p with rfl | ⟨init, last, rfl⟩
  · exact directory
  · rw [List.concat_eq_append] at directory ⊢
    rw [List.dropLast_concat]
    exact tree init last (by simp [directory])

theorem make (tree : w.IsTree) {p : Place} {c : String} (directory : w.at? p = some .directory) :
    (w.set (p ++ [c]) .directory).IsTree := by
  intro q d there
  by_cases made : q ++ [d] = p ++ [c]
  · obtain ⟨rfl, -⟩ := List.append_inj' made rfl
    rwa [at?_set_of_ne _ _ (by simp)]
  · rw [at?_set_of_ne _ _ made] at there
    by_cases same : q = p ++ [c]
    · rw [same, at?_set_self _ _ (by simp)]
    · rw [at?_set_of_ne _ _ same]
      exact tree q d there

theorem remove (tree : w.IsTree) (q : Place) : (w.remove q).IsTree := by
  intro p c there
  by_cases below : q <+: p ++ [c]
  · exact absurd (at?_remove_eq_none w below (by simp)) there
  · rw [at?_remove_apart w below] at there
    rw [at?_remove_apart w fun further => below (further.trans (List.prefix_append p [c]))]
    exact tree p c there

theorem makeAlong (tree : w.IsTree) {p : Place} (directory : w.at? p = some .directory) (parts : List String) :
    (w.makeAlong p parts).2.IsTree := by
  induction parts generalizing p w with
  | nil => exact tree
  | cons c rest ih =>
    rw [World.makeAlong]
    split
    · exact ih tree (tree.dropLast directory)
    · split
      · exact tree
      · dsimp only
        split
        · next into => exact ih tree into
        · exact tree
        · split
          · next here =>
            rw [here]
            exact ih (tree.make directory) (at?_set_self _ _ (by simp))
          · exact tree

theorem ensureDirectory (tree : w.IsTree) (path : Path) : (w.ensureDirectory path).2.IsTree := by
  rw [World.ensureDirectory]
  split
  · exact tree
  · split
    · next directory => exact tree.makeAlong directory path.parts
    · exact tree

theorem store (tree : w.IsTree) {path : Path} {content : List UInt8} {w' : World}
    (stored : w.store path content = .ok w') : w'.IsTree := by
  obtain ⟨q, executable, -, rfl, leaf, -, above⟩ := store_eq_ok stored
  have inner : q ≠ [] := by
    rintro rfl
    exact leaf (at?_nil w)
  have parent : w.at? q.dropLast = some .directory := by
    by_cases missing : w.at? q = none
    · exact above missing
    · obtain ⟨init, last, rfl⟩ := (List.eq_nil_or_concat' q).resolve_left inner
      rw [List.dropLast_concat]
      exact tree init last missing
  intro p c there
  have other : p ≠ q := by
    rintro rfl
    rw [at?_set_of_ne _ _ (by simp)] at there
    exact there (tree.missing leaf c)
  rw [at?_set_of_ne _ _ other]
  by_cases same : p ++ [c] = q
  · rwa [← same, List.dropLast_concat] at parent
  · rw [at?_set_of_ne _ _ same] at there
    exact tree p c there

theorem removeFile (tree : w.IsTree) (path : Path) : (w.removeFile path).2.IsTree := by
  rw [World.removeFile]
  split
  · exact tree
  · exact tree
  · split
    · exact tree.remove _
    · split
      · exact tree
      · exact tree.remove _
      · exact tree

end IsTree

/-! ### Growing, thinning, standing firm -/

/-- Directories have been made where nothing was, and else all is as it was. -/
structure Grown (before w : World) : Prop where
  current : w.current = before.current
  same : ∀ p, w.at? p = before.at? p ∨ (before.at? p = none ∧ w.at? p = some .directory)

/-- Something may have been removed, and else all is as it was. -/
structure Thinned (before w : World) : Prop where
  current : w.current = before.current
  same : ∀ p, w.at? p = before.at? p ∨ w.at? p = none

/-- Directories and links are where they were, and no link has been made. -/
structure Firm (before w : World) : Prop where
  current : w.current = before.current
  directory : ∀ p, before.at? p = some .directory → w.at? p = some .directory
  link : ∀ p target, w.at? p = some (.link target) ↔ before.at? p = some (.link target)

theorem start_of_current (same : w.current = before.current) (path : Path) : w.start path = before.start path := by
  rw [start, start, same]

/-- What a change of the tree leaves alone. -/
theorem current_set (w : World) (p : Place) (n : Node) : (w.set p n).current = w.current := by
  rw [set]
  split <;> rfl

theorem environment_set (w : World) (p : Place) (n : Node) : (w.set p n).environment = w.environment := by
  rw [set]
  split <;> rfl

theorem temporary_set (w : World) (p : Place) (n : Node) : (w.set p n).temporary = w.temporary := by
  rw [set]
  split <;> rfl

namespace Grown

theorem refl (w : World) : Grown w w := ⟨rfl, fun _ => .inl rfl⟩

theorem trans {w' : World} (first : Grown before w) (later : Grown w w') : Grown before w' := by
  refine ⟨later.current.trans first.current, fun p => ?_⟩
  rcases later.same p with same | ⟨missing, made⟩
  · rw [same]
    exact first.same p
  · rcases first.same p with same | ⟨-, there⟩
    · exact .inr ⟨same ▸ missing, made⟩
    · rw [there] at missing
      cases missing

theorem make {p : Place} (missing : w.at? p = none) : Grown w (w.set p .directory) := by
  refine ⟨current_set w p _, fun q => ?_⟩
  by_cases same : q = p
  · subst same
    have below : q ≠ [] := by
      rintro rfl
      rw [at?_nil] at missing
      cases missing
    exact .inr ⟨missing, at?_set_self w _ below⟩
  · exact .inl (at?_set_of_ne w _ same)

theorem makeAlong (w : World) (p : Place) (parts : List String) : Grown w (w.makeAlong p parts).2 := by
  induction parts generalizing p w with
  | nil => exact refl w
  | cons c rest ih =>
    rw [World.makeAlong]
    split
    · exact ih w _
    · split
      · exact refl w
      · dsimp only
        split
        · exact ih w _
        · exact refl w
        · next missing =>
          split
          · exact (make missing).trans (ih _ _)
          · exact refl w

theorem ensureDirectory (w : World) (path : Path) : Grown w (w.ensureDirectory path).2 := by
  rw [World.ensureDirectory]
  split
  · exact refl w
  · split
    · exact makeAlong w _ _
    · exact refl w

theorem firm (grown : Grown before w) : Firm before w := by
  refine ⟨grown.current, fun p directory => ?_, fun p target => ?_⟩
  · rcases grown.same p with same | ⟨-, made⟩
    · rw [same, directory]
    · exact made
  · rcases grown.same p with same | ⟨missing, made⟩
    · rw [same]
    · simp [missing, made]

end Grown

namespace Firm

theorem refl (w : World) : Firm w w := (Grown.refl w).firm

theorem trans {w' : World} (first : Firm before w) (later : Firm w w') : Firm before w' :=
  ⟨later.current.trans first.current, fun p directory => later.directory p (first.directory p directory),
    fun p target => (later.link p target).trans (first.link p target)⟩

/-- Writing a file where one is, or where nothing is. -/
theorem set {p : Place} (content : List UInt8) (executable : Bool) (directory : w.at? p ≠ some .directory)
    (plain : ∀ target, w.at? p ≠ some (.link target)) : Firm w (w.set p (.file content executable)) := by
  refine ⟨current_set w p _, fun q there => ?_, fun q target => ?_⟩
  · have other : q ≠ p := by
      rintro rfl
      exact directory there
    rwa [at?_set_of_ne w _ other]
  · by_cases same : q = p
    · subst same
      have below : q ≠ [] := by
        rintro rfl
        exact directory (at?_nil w)
      simp [at?_set_self w _ below, plain]
    · rw [at?_set_of_ne w _ same]

theorem store {path : Path} {content : List UInt8} {w' : World} (stored : w.store path content = .ok w') :
    Firm w w' := by
  obtain ⟨q, executable, -, rfl, leaf, unlinked, -⟩ := store_eq_ok stored
  exact set content executable leaf unlinked

theorem storeText (w : World) (path : Path) (text : String) : Firm w (w.storeText path text).2 := by
  rw [World.storeText]
  split
  · exact refl w
  · next stored => exact store stored

theorem follow (firm : Firm before w) (p : Place) : w.follow p = before.follow p := by
  by_cases linked : ∃ target, before.at? p = some (.link target)
  · obtain ⟨target, link⟩ := linked
    rw [World.follow, World.follow, link, (firm.link p target).2 link]
  · rw [not_exists] at linked
    rw [follow_of_ne_link linked, follow_of_ne_link fun target link => linked target ((firm.link p target).1 link)]

/-- A walk that has ended well still does so. -/
theorem walk (firm : Firm before w) {p q : Place} {parts : List String} (found : before.walk p parts = .ok q) :
    w.walk p parts = .ok q := by
  induction parts generalizing p with
  | nil => rwa [World.walk] at found ⊢
  | cons c rest ih =>
    rw [walk_cons_eq_ok] at found ⊢
    obtain ⟨directory, passable, later⟩ := found
    have same : w.enter p c = before.enter p c := by rw [enter, enter, firm.follow]
    rw [same]
    exact ⟨firm.directory p directory, passable, ih later⟩

theorem locate (firm : Firm before w) {path : Path} {q : Place} (found : before.locate path = .ok q) :
    w.locate path = .ok q := by
  rw [locate_eq_ok] at found ⊢
  rw [start_of_current firm.current]
  exact ⟨found.1, firm.walk found.2⟩

end Firm

namespace Thinned

theorem refl (w : World) : Thinned w w := ⟨rfl, fun _ => .inl rfl⟩

theorem remove (w : World) (p : Place) : Thinned w (w.remove p) := by
  refine ⟨rfl, fun q => ?_⟩
  by_cases below : p <+: q
  · by_cases top : q = []
    · exact .inl (by rw [top, at?_nil, at?_nil])
    · exact .inr (at?_remove_eq_none w below top)
  · exact .inl (at?_remove_apart w below)

theorem removeFile (w : World) (path : Path) : Thinned w (w.removeFile path).2 := by
  rw [World.removeFile]
  split
  · exact refl w
  · exact refl w
  · split
    · exact remove w _
    · split
      · exact refl w
      · exact remove w _
      · exact refl w

/-- After a removal a walk ends where it did before, or where nothing is. -/
theorem walk (thinned : Thinned before w) {p q : Place} {parts : List String} (found : w.walk p parts = .ok q) :
    before.walk p parts = .ok q ∨ w.at? q = none := by
  induction parts generalizing p with
  | nil =>
    rw [World.walk] at found ⊢
    exact .inl found
  | cons c rest ih =>
    rw [walk_cons_eq_ok] at found ⊢
    obtain ⟨directory, passable, later⟩ := found
    have there : before.at? p = some .directory := by
      rcases thinned.same p with same | missing
      · rw [← same, directory]
      · rw [missing] at directory
        cases directory
    by_cases same : w.enter p c = before.enter p c
    · rw [← same]
      exact (ih later).imp (fun before => ⟨there, passable, before⟩) id
    · -- the component was the name of a link that is gone
      have name : c ≠ ".." := by
        rintro rfl
        exact same (by rw [enter, enter, if_pos rfl, if_pos rfl])
      have gone : w.at? (p ++ [c]) = none := by
        rcases thinned.same (p ++ [c]) with kept | gone
        · exact absurd (by rw [enter, enter, follow, follow, kept]) same
        · exact gone
      rw [enter, if_neg name, follow_of_ne_link (by simp [gone])] at later
      cases rest with
      | nil =>
        rw [World.walk] at later
        exact .inr (Except.ok.inj later ▸ gone)
      | cons d rest =>
        rw [walk_cons_eq_ok, gone] at later
        cases later.1

theorem locate (thinned : Thinned before w) {path : Path} {q : Place} (found : w.locate path = .ok q) :
    before.locate path = .ok q ∨ w.at? q = none := by
  rw [locate_eq_ok, start_of_current thinned.current] at found
  rcases thinned.walk found.2 with same | missing
  · exact .inl (locate_eq_ok.2 ⟨found.1, same⟩)
  · exact .inr missing

end Thinned

/-! ### Paths that may be removed -/

/-- No link stands at the end of the path, and it leads to a directory or to nothing. -/
structure Free (w : World) (path : Path) : Prop where
  unlinked : w.isLink path = false
  place : ∀ q, w.locate path = .ok q → w.at? q = none ∨ w.at? q = some .directory

/-- The path leads to a directory, and not by a link at its end. -/
structure Solid (w : World) (path : Path) : Prop where
  unlinked : w.isLink path = false
  place : ∃ q, w.locate path = .ok q ∧ w.at? q = some .directory

theorem Solid.free {path : Path} (solid : w.Solid path) : w.Free path := by
  refine ⟨solid.unlinked, fun q found => ?_⟩
  obtain ⟨r, there, directory⟩ := solid.place
  cases found.symm.trans there
  exact .inr directory

theorem Thinned.free (thinned : Thinned before w) (tree : w.IsTree) {path : Path} (free : before.Free path) :
    w.Free path := by
  constructor
  · by_contra linked
    rw [Bool.not_eq_false, isLink_iff] at linked
    obtain ⟨name, place, target, ends, found, link⟩ := linked
    have stood : before.at? (place ++ [name]) = some (.link target) := by
      rcases thinned.same (place ++ [name]) with same | missing
      · rw [← same, link]
      · rw [missing] at link
        cases link
    rcases thinned.locate found with before | missing
    · have linked := isLink_iff.2 ⟨name, place, target, ends, before, stood⟩
      rw [free.unlinked] at linked
      cases linked
    · rw [tree.missing (by simp [missing])] at link
      cases link
  · intro q found
    rcases thinned.locate found with before | missing
    · rcases thinned.same q with same | missing
      · rw [same]
        exact free.place q before
      · exact .inl missing
    · exact .inl missing

theorem Firm.solid (firm : Firm before w) {path : Path} (solid : before.Solid path) :
    w.Solid path := by
  obtain ⟨q, found, directory⟩ := solid.place
  refine ⟨?_, q, firm.locate found, firm.directory q directory⟩
  by_contra linked
  rw [Bool.not_eq_false, isLink_iff] at linked
  obtain ⟨name, place, target, ends, parent, link⟩ := linked
  obtain ⟨init, parts⟩ := List.getLast?_eq_some_iff.1 ends
  obtain ⟨short, walked⟩ := locate_eq_ok.1 found
  rw [parts] at walked
  obtain ⟨m, first, -⟩ := walk_append_eq_ok.1 walked
  have stood : before.locate path.parent = .ok m := by
    rw [locate_eq_ok, Path.parent, parts, List.dropLast_concat]
    refine ⟨?_, first⟩
    have := tooLong_parent short
    rwa [Path.parent, parts, List.dropLast_concat] at this
  cases parent.symm.trans (firm.locate stood)
  have linked := isLink_iff.2 ⟨name, place, target, ends, stood, (firm.link _ target).1 link⟩
  rw [solid.unlinked] at linked
  cases linked

/-- Making directories leaves a path free that goes by two names from a directory. -/
theorem Grown.free (grown : Grown before w) (tree : before.IsTree) {base : Path} {b : Place}
    (found : before.locate base = .ok b) (directory : before.at? b = some .directory) {above name : String}
    (up : above ≠ "..") (down : name ≠ "..") (free : before.Free ⟨base.root, base.parts ++ [above, name]⟩) :
    w.Free ⟨base.root, base.parts ++ [above, name]⟩ := by
  have start : w.start base = before.start base := start_of_current grown.current base
  have walked : before.walk (before.start base) base.parts = .ok b := (locate_eq_ok.1 found).2
  have further : ∀ {names : List String} {q : Place},
      w.walk (w.start base) (base.parts ++ names) = .ok q → w.walk b names = .ok q := by
    intro names q whole
    obtain ⟨m, first, later⟩ := walk_append_eq_ok.1 whole
    rw [start, grown.firm.walk walked] at first
    cases first
    exact later
  constructor
  · by_contra linked
    rw [Bool.not_eq_false, isLink_iff] at linked
    obtain ⟨last, place, target, ends, parent, link⟩ := linked
    have above_parts : Path.parent ⟨base.root, base.parts ++ [above, name]⟩ = ⟨base.root, base.parts ++ [above]⟩ := by
      simp [Path.parent]
    rw [above_parts, locate_eq_ok] at parent
    obtain ⟨-, passable, rfl⟩ := (walk_name_eq_ok up).1 (further parent.2)
    have stood : before.locate ⟨base.root, base.parts ++ [above]⟩ = .ok (w.follow (b ++ [above])) := by
      refine locate_eq_ok.2 ⟨parent.1, walk_append_eq_ok.2 ⟨b, walked, (walk_name_eq_ok up).2 ?_⟩⟩
      exact ⟨directory, passable, grown.firm.follow _⟩
    have linked := isLink_iff.2 ⟨last, _, target, ends, above_parts ▸ stood, (grown.firm.link _ target).1 link⟩
    rw [free.unlinked] at linked
    cases linked
  · intro q now
    obtain ⟨short, whole⟩ := locate_eq_ok.1 now
    obtain ⟨-, passable, later⟩ := walk_cons_eq_ok.1 (further whole)
    obtain ⟨entered, passable', rfl⟩ := (walk_name_eq_ok down).1 later
    rw [enter, if_neg up, grown.firm.follow] at entered ⊢
    rw [grown.firm.follow]
    rcases grown.same (before.follow (b ++ [above])) with same | ⟨missing, -⟩
    · have stood : before.locate ⟨base.root, base.parts ++ [above, name]⟩ =
          .ok (before.follow (before.follow (b ++ [above]) ++ [name])) := by
        refine locate_eq_ok.2 ⟨short, walk_append_eq_ok.2 ⟨b, walked, walk_cons_eq_ok.2 ⟨directory, passable, ?_⟩⟩⟩
        rw [enter, if_neg up, walk_name_eq_ok down]
        exact ⟨same ▸ entered, passable', rfl⟩
      rcases grown.same (before.follow (before.follow (b ++ [above]) ++ [name])) with kept | ⟨-, made⟩
      · rw [kept]
        exact free.place _ stood
      · exact .inr made
    · have nothing : before.at? (before.follow (b ++ [above]) ++ [name]) = none := tree.missing (by simp [missing]) name
      rw [follow_of_ne_link (by simp [nothing])]
      rcases grown.same (before.follow (b ++ [above]) ++ [name]) with kept | ⟨-, made⟩
      · exact .inl (kept.trans nothing)
      · exact .inr made

/-- Where no link stands at its end, a path leads to what is called like its last component. -/
theorem Free.ne_nil {path : Path} (free : w.Free path) (named : path.parts ≠ []) (down : path.name ≠ "..") {q : Place}
    (found : w.locate path = .ok q) : q ≠ [] := by
  rcases List.eq_nil_or_concat path.parts with none | ⟨init, last, parts⟩
  · exact absurd none named
  · rw [List.concat_eq_append] at parts
    rw [Path.name, parts, List.getLastD_concat] at down
    obtain ⟨short, whole⟩ := locate_eq_ok.1 found
    rw [parts] at whole
    obtain ⟨m, first, later⟩ := walk_append_eq_ok.1 whole
    obtain ⟨-, -, rfl⟩ := (walk_name_eq_ok down).1 later
    have parent : w.locate path.parent = .ok m := by
      refine locate_eq_ok.2 ⟨tooLong_parent short, ?_⟩
      rw [Path.parent, parts, List.dropLast_concat]
      exact first
    have plain : ∀ target, w.at? (m ++ [last]) ≠ some (.link target) := by
      intro target link
      have linked := isLink_iff.2 ⟨last, m, target, by rw [parts, List.getLast?_concat], parent, link⟩
      rw [free.unlinked] at linked
      cases linked
    rw [follow_of_ne_link plain]
    simp

end World

end ServerTrial
