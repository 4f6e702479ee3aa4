import ServerTrial.Proofs.TreeShape

/-!
# Where paths lead

* `World.eq_resolveParts_of_walk`: a walk that ends well ends where the components are resolved to;
* `World.Unlinked w top`: no link stands at a place or below it, so names lead straight down from there;
* `World.walk_of_makeAlong`: directories that have been made along components can be walked along;
* `World.prefix_of_made`: along a path in normal form only directories above its end are made.
-/

namespace ServerTrial

namespace World

variable {w before : World} {p q top : Place} {parts : List String}

/-! ### Resolving -/

theorem resolveParts_cons (w : World) (p : Place) (c : String) (rest : List String) :
    w.resolveParts p (c :: rest) = w.resolveParts (w.enter p c) rest := by
  rw [resolveParts, enter]
  split <;> rfl

theorem resolveParts_append (xs ys : List String) :
    w.resolveParts p (xs ++ ys) = w.resolveParts (w.resolveParts p xs) ys := by
  induction xs generalizing p with
  | nil => rfl
  | cons c xs ih => rw [List.cons_append, resolveParts_cons, resolveParts_cons, ih]

theorem eq_resolveParts_of_walk (found : w.walk p parts = .ok q) : q = w.resolveParts p parts := by
  induction parts generalizing p with
  | nil => exact (Except.ok.inj found).symm
  | cons c rest ih =>
    rw [resolveParts_cons]
    exact ih (walk_cons_eq_ok.1 found).2.2

theorem eq_resolve_of_locate {path : Path} (found : w.locate path = .ok q) : q = (w.resolve path).parts :=
  eq_resolveParts_of_walk (locate_eq_ok.1 found).2

/-- Where directories and links stay, paths lead to the same places. -/
theorem Firm.resolveParts (firm : Firm before w) : w.resolveParts = before.resolveParts := by
  funext p parts
  induction parts generalizing p with
  | nil => rfl
  | cons c rest ih => rw [resolveParts_cons, resolveParts_cons, ih, enter, enter, firm.follow]

/-! ### Without links -/

/-- No link stands at the place or below it. -/
def Unlinked (w : World) (top : Place) : Prop := ∀ q, top <+: q → ∀ target, w.at? q ≠ some (.link target)

theorem Unlinked.further (unlinked : w.Unlinked top) (below : top <+: q) : w.Unlinked q :=
  fun _ further => unlinked _ (below.trans further)

theorem Firm.unlinked (firm : Firm before w) (unlinked : before.Unlinked top) : w.Unlinked top :=
  fun q below target link => unlinked q below target ((firm.link q target).1 link)

theorem Unlinked.follow (unlinked : w.Unlinked top) (below : top <+: q) : w.follow q = q :=
  follow_of_ne_link (unlinked q below)

theorem Unlinked.resolveParts (unlinked : w.Unlinked top) (names : ".." ∉ parts) :
    w.resolveParts top parts = top ++ parts := by
  induction parts generalizing top with
  | nil => rw [List.append_nil, World.resolveParts]
  | cons c rest ih =>
    rw [List.mem_cons, not_or] at names
    have down : top <+: top ++ [c] := List.prefix_append top [c]
    rw [resolveParts_cons, enter, if_neg (Ne.symm names.1), unlinked.follow down, ih (unlinked.further down) names.2,
      List.append_assoc, List.singleton_append]

/-- Nothing stands below what is no directory. -/
theorem IsTree.none_of_below (tree : w.IsTree) (leaf : w.at? p ≠ some .directory) (below : p <+: q) (other : q ≠ p) :
    w.at? q = none := by
  obtain ⟨rest, rfl⟩ := below
  induction rest using List.reverseRecOn with
  | nil => exact absurd (List.append_nil p) other
  | append_singleton init c ih =>
    rw [← List.append_assoc]
    by_cases first : init = []
    · rw [first, List.append_nil]
      exact tree.missing leaf c
    · have above := ih (by simpa using first)
      exact tree.missing (by simp [above]) c

theorem IsTree.unlinked_of_missing (tree : w.IsTree) (missing : w.at? p = none) : w.Unlinked p := by
  intro q below target
  by_cases same : q = p
  · rw [same, missing]
    exact nofun
  · rw [tree.none_of_below (by rw [missing]; exact nofun) below same]
    exact nofun

/-! ### Making directories -/

theorem directory_of_walk (found : w.walk p parts = .ok q) (directory : w.at? q = some .directory) :
    w.at? p = some .directory := by
  cases parts with
  | nil =>
    rw [walk] at found
    rwa [Except.ok.inj found]
  | cons c rest => exact (walk_cons_eq_ok.1 found).1

/-- Where all directories are there, none is made. -/
theorem makeAlong_of_walk {xs : List String} (ys : List String) (found : w.walk p xs = .ok q)
    (directory : w.at? q = some .directory) : w.makeAlong p (xs ++ ys) = w.makeAlong q ys := by
  induction xs generalizing p with
  | nil =>
    rw [walk] at found
    rw [Except.ok.inj found, List.nil_append]
  | cons c rest ih =>
    obtain ⟨-, passable, later⟩ := walk_cons_eq_ok.1 found
    rw [List.cons_append, makeAlong]
    by_cases back : c = ".."
    · rw [enter, if_pos back] at later
      rw [if_pos back]
      exact ih later
    · rw [enter, if_neg back] at later
      rw [if_neg back, if_neg (passable.resolve_left back)]
      dsimp only
      rw [directory_of_walk later directory]
      exact ih later

theorem ensureDirectory_of_locate {path : Path} (found : w.locate path = .ok q)
    (directory : w.at? q = some .directory) :
    w.ensureDirectory path = (.ok (), w) := by
  obtain ⟨short, walked⟩ := locate_eq_ok.1 found
  have along := makeAlong_of_walk [] walked directory
  rw [List.append_nil, makeAlong] at along
  rw [ensureDirectory, if_neg (by rw [short]; exact Bool.false_ne_true), directory_of_walk walked directory]
  exact along

section Make

variable {w' : World} {c : String} {rest : List String}

/-- A step that goes well enters a directory, or makes the one that it enters. -/
theorem makeAlong_cons_eq_ok (tree : w.IsTree) (start : w.at? p = some .directory)
    (made : w.makeAlong p (c :: rest) = (.ok (), w')) :
    Passable c ∧
      (w.at? (w.enter p c) = some .directory ∧ w.makeAlong (w.enter p c) rest = (.ok (), w') ∨
        c ≠ ".." ∧ w.enter p c = p ++ [c] ∧ w.at? (p ++ [c]) = none ∧
          (w.set (p ++ [c]) .directory).makeAlong (p ++ [c]) rest = (.ok (), w')) := by
  rw [makeAlong] at made
  by_cases back : c = ".."
  · rw [if_pos back] at made
    have entered : w.enter p c = p.dropLast := by rw [enter, if_pos back]
    rw [entered]
    exact ⟨.inl back, .inl ⟨tree.dropLast start, made⟩⟩
  · have entered : w.enter p c = w.follow (p ++ [c]) := by rw [enter, if_neg back]
    rw [if_neg back] at made
    rw [entered]
    split at made
    · cases made
    · next short =>
      refine ⟨.inr short, ?_⟩
      dsimp only at made
      split at made
      · next there => exact .inl ⟨there, made⟩
      · cases made
      · next missing =>
        split at made
        · next here =>
          rw [here] at missing made
          exact .inr ⟨back, here, missing, made⟩
        · cases made

/-- **Along a path in normal form only directories above its end are made.** -/
theorem prefix_of_made (tree : w.IsTree) (start : w.at? p = some .directory) (normal : Path.Normal parts)
    (made : w.makeAlong p parts = (.ok (), w')) (missing : w.at? q = none) (there : w'.at? q ≠ none) :
    q <+: w.resolveParts p parts := by
  induction parts generalizing w p with
  | nil =>
    cases made
    exact absurd missing there
  | cons c rest ih =>
    obtain ⟨first, normal⟩ := List.pairwise_cons.1 normal
    rw [resolveParts_cons]
    obtain ⟨-, ⟨next, made⟩ | ⟨name, here, gap, made⟩⟩ := makeAlong_cons_eq_ok tree start made
    · exact ih tree next normal made missing
    · rw [here]
      by_cases same : q = p ++ [c]
      · -- nothing stands below what was missing, so no link leads elsewhere
        rw [same, (tree.unlinked_of_missing gap).resolveParts fun back => name (first ".." back rfl)]
        exact List.prefix_append _ _
      · rw [← (Grown.make gap).firm.resolveParts]
        exact ih (tree.make start) (at?_set_self w _ (by simp)) normal made (by rwa [at?_set_of_ne w _ same])

end Make

end World

end ServerTrial
