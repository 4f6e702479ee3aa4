import Mathlib
import ServerTrial.World.Layout
import ServerTrial.World.Tree

/-!
# Paths where no link is followed

* `World.along p parts`: the place to which components lead from the place `p`; `World.entered p parts`: the places that
  are entered by name on the way;
* `Path.normal_normalize`: in a normalized path steps back stand in front only;
* `Path.along_normalize`, `Path.entered_normalize`: a normalized path leads to the same place, and enters no others;
* `Layout.isConfined_iff`: the ids that keep the workspace below the directory for workspaces, whatever the base is.
-/

namespace ServerTrial

namespace World

/-! ### Walking without links -/

/-- Where components lead from a place. -/
def along (p : Place) : List String → Place
  | [] => p
  | c :: rest => if c = ".." then along p.dropLast rest else along (p ++ [c]) rest

/-- The places that are entered by name on the way. -/
def entered (p : Place) : List String → List Place
  | [] => []
  | c :: rest => if c = ".." then entered p.dropLast rest else (p ++ [c]) :: entered (p ++ [c]) rest

/-- Does the second place lie below the first? -/
def Below (top p : Place) : Prop := ∃ rest, rest ≠ [] ∧ p = top ++ rest

theorem Below.ne_nil {top p : Place} (h : Below top p) : p ≠ [] := by
  obtain ⟨rest, some, rfl⟩ := h
  exact fun none => some (List.append_eq_nil_iff.1 none).2

theorem Below.further {top p q : Place} (h : Below top p) (further : p <+: q) : Below top q := by
  obtain ⟨rest, some, rfl⟩ := h
  obtain ⟨more, rfl⟩ := further
  exact ⟨rest ++ more, fun none => some (List.append_eq_nil_iff.1 none).1, List.append_assoc ..⟩

theorem along_append (p : Place) (xs ys : List String) : along p (xs ++ ys) = along (along p xs) ys := by
  induction xs generalizing p with
  | nil => rfl
  | cons c xs ih =>
    rw [List.cons_append, along, along]
    split <;> exact ih _

theorem entered_append (p : Place) (xs ys : List String) :
    entered p (xs ++ ys) = entered p xs ++ entered (along p xs) ys := by
  induction xs generalizing p with
  | nil => rfl
  | cons c xs ih =>
    rw [List.cons_append, entered, entered, along]
    split
    · exact ih _
    · rw [ih, List.cons_append]

/-- Names lead straight down. -/
theorem along_names {parts : List String} (names : ".." ∉ parts) (p : Place) : along p parts = p ++ parts := by
  induction parts generalizing p with
  | nil => exact (List.append_nil p).symm
  | cons c rest ih =>
    rw [List.mem_cons, not_or] at names
    rw [along, if_neg (Ne.symm names.1), ih names.2, List.append_assoc, List.singleton_append]

theorem below_of_mem_entered {parts : List String} (names : ".." ∉ parts) {p q : Place} (hq : q ∈ entered p parts) :
    Below p q := by
  induction parts generalizing p with
  | nil => exact absurd hq List.not_mem_nil
  | cons c rest ih =>
    rw [List.mem_cons, not_or] at names
    rw [entered, if_neg (Ne.symm names.1)] at hq
    rcases List.mem_cons.1 hq with rfl | hq
    · exact ⟨[c], List.cons_ne_nil c [], rfl⟩
    · obtain ⟨more, -, rfl⟩ := ih names.2 hq
      exact ⟨c :: more, List.cons_ne_nil c more, by rw [List.append_assoc, List.singleton_append]⟩

end World

namespace Path

open World (along entered along_append entered_append)

/-! ### Normal form -/

/-- Steps back stand in front only. -/
def Normal (parts : List String) : Prop := parts.Pairwise fun a b => b = ".." → a = ".."

theorem Normal.append_step {done : List String} (normal : Normal done) {part : String}
    (back : part = ".." → ∀ a ∈ done, a = "..") : Normal (done ++ [part]) :=
  List.pairwise_append.2 ⟨normal, List.pairwise_singleton _ _, fun a ha b hb same => by
    rw [List.mem_singleton.1 hb] at same
    exact back same a ha⟩

theorem normal_stepLexically {rooted : Bool} {done : List String} (normal : Normal done) (part : String) :
    Normal (stepLexically rooted done part) := by
  unfold stepLexically
  split
  · next back =>
    split
    · split
      · exact List.Pairwise.nil
      · exact List.pairwise_singleton _ _
    · next last found =>
      obtain ⟨init, rfl⟩ := List.getLast?_eq_some_iff.1 found
      split
      · next up =>
        refine normal.append_step fun _ a ha => ?_
        rcases List.mem_append.1 ha with ha | ha
        · exact (List.pairwise_append.1 normal).2.2 a ha last (List.mem_singleton_self last) up
        · rw [List.mem_singleton.1 ha, up]
      · rw [List.dropLast_concat]
        exact (List.pairwise_append.1 normal).1
  · next name => exact normal.append_step fun back => absurd back name

theorem normal_foldl {rooted : Bool} (parts : List String) {done : List String} (normal : Normal done) :
    Normal (parts.foldl (stepLexically rooted) done) := by
  induction parts generalizing done with
  | nil => exact normal
  | cons part rest ih => exact ih (normal_stepLexically normal part)

theorem normal_normalize (p : Path) : Normal p.normalize.parts := normal_foldl p.parts List.Pairwise.nil

/-- Behind a name there are only names. -/
theorem Normal.names {xs rest : List String} {name : String} (normal : Normal (xs ++ name :: rest)) (h : name ≠ "..") :
    ".." ∉ rest := by
  intro back
  have tail := (List.pairwise_append.1 normal).2.1
  exact h ((List.pairwise_cons.1 tail).1 ".." back rfl)

/-! ### Where normalized paths lead -/

section Along

variable {rooted : Bool} {start : Place}

theorem along_stepLexically (top : rooted = true → start = []) (done : List String) (part : String) :
    along start (stepLexically rooted done part) = along (along start done) [part] := by
  unfold stepLexically
  split
  · next back =>
    subst back
    split
    · next none =>
      rw [List.getLast?_eq_none_iff.1 none]
      split
      · next yes => rw [top yes]; rfl
      · rfl
    · next last found =>
      obtain ⟨init, rfl⟩ := List.getLast?_eq_some_iff.1 found
      split
      · exact along_append ..
      · next name =>
        have into : along start (init ++ [last]) = along start init ++ [last] := by
          rw [along_append, along, if_neg name, along]
        rw [List.dropLast_concat, into, along, if_pos rfl, along, List.dropLast_concat]
  · exact along_append ..

theorem along_foldl (top : rooted = true → start = []) (parts done : List String) :
    along start (parts.foldl (stepLexically rooted) done) = along (along start done) parts := by
  induction parts generalizing done with
  | nil => rfl
  | cons part rest ih =>
    rw [List.foldl_cons, ih, along_stepLexically top, ← along_append, List.singleton_append]

theorem entered_stepLexically (done : List String) (part : String) :
    entered start (stepLexically rooted done part) ⊆ entered start (done ++ [part]) := by
  unfold stepLexically
  split
  · next back =>
    split
    · split <;> exact List.nil_subset _
    · next last found =>
      obtain ⟨init, rfl⟩ := List.getLast?_eq_some_iff.1 found
      split
      · rw [back]
        exact List.Subset.refl _
      · rw [List.dropLast_concat, entered_append, entered_append]
        exact fun q hq => List.mem_append_left _ (List.mem_append_left _ hq)
  · exact List.Subset.refl _

theorem entered_foldl (top : rooted = true → start = []) (parts done : List String) :
    entered start (parts.foldl (stepLexically rooted) done) ⊆ entered start (done ++ parts) := by
  induction parts generalizing done with
  | nil => rw [List.append_nil]; exact List.Subset.refl _
  | cons part rest ih =>
    intro q hq
    have further := ih _ hq
    rw [entered_append, along_stepLexically top, ← along_append] at further
    rw [← List.singleton_append, ← List.append_assoc, entered_append]
    rcases List.mem_append.1 further with first | later
    · exact List.mem_append_left _ (entered_stepLexically done part first)
    · exact List.mem_append_right _ later

/-- The normalized path leads to the same place. -/
theorem along_normalize (p : Path) (top : p.isAbsolute = true → start = []) :
    along start p.normalize.parts = along start p.parts := along_foldl top p.parts []

/-- The normalized path enters no further places. -/
theorem entered_normalize (p : Path) (top : p.isAbsolute = true → start = []) :
    entered start p.normalize.parts ⊆ entered start p.parts := entered_foldl top p.parts []

end Along

/-! ### Names as paths -/

theorem splitChars_of_not_mem {separator : Char} {cs : List Char} (h : separator ∉ cs) :
    splitChars separator cs = [cs] := by
  induction cs with
  | nil => rfl
  | cons c cs ih =>
    rw [List.mem_cons, not_or] at h
    rw [splitChars, if_neg (Ne.symm h.1), ih h.2]

/-- A text without slashes is one component, unless it is empty or a single dot. -/
theorem ofString_of_name {name : String} (plain : '/' ∉ name.toList) (some : name ≠ "") (dot : name ≠ ".") :
    ofString name = ⟨.here, [name]⟩ := by
  have root : rootOf name.toList = .here := by
    unfold rootOf
    split
    · next h => rw [h] at plain; simp at plain
    · next h => rw [h] at plain; simp at plain
    · next h => rw [h] at plain; simp at plain
    · rfl
  rw [ofString, root, splitText, splitChars_of_not_mem plain, List.map_singleton, String.ofList_toList]
  simp [some, dot]

theorem child_of_name (p : Path) {name : String} (plain : '/' ∉ name.toList) (some : name ≠ "") (dot : name ≠ ".") :
    p.child name = ⟨p.root, p.parts ++ [name]⟩ := by
  rw [child, ofString_of_name plain some dot]
  rfl

theorem normalize_child (p : Path) {name : String} (plain : '/' ∉ name.toList) (some' : name ≠ "") (dot : name ≠ ".")
    (down : name ≠ "..") : (p.child name).normalize = ⟨p.root, p.normalize.parts ++ [name]⟩ := by
  rw [child_of_name _ plain some' dot, normalize, List.foldl_append, List.foldl_cons, List.foldl_nil, stepLexically,
    if_neg down]
  rfl

end Path

/-! ### Ids -/

namespace Layout

open ServerTrial.Path (stepLexically)

/-- Once normalized, the workspace lies below the directory that holds all workspaces. -/
def IsConfined (l : Layout) : Prop := (l.base.child harnessDirectory).normalize.isAbove l.root.normalize = true

/-- The components of an id, taken lexically from the directory that holds all workspaces. -/
def resolvedId (id : String) : List String := (Path.ofString id).parts.foldl (stepLexically false) [harnessDirectory]

/-- The id leads below the directory that holds all workspaces without going above the directory it is in. -/
def IsInnerId (id : String) : Prop :=
  (Path.ofString id).isAbsolute = false ∧ ∃ rest, rest ≠ [] ∧ resolvedId id = harnessDirectory :: rest

/-- A step back in front is never taken back. -/
theorem back_mem_foldl {rooted : Bool} (parts : List String) {done : List String} (h : ".." ∈ done) :
    ".." ∈ parts.foldl (stepLexically rooted) done := by
  induction parts generalizing done with
  | nil => exact h
  | cons part rest ih =>
    refine ih ?_
    unfold stepLexically
    split
    · split
      · next none =>
        rw [List.getLast?_eq_none_iff.1 none] at h
        exact absurd h List.not_mem_nil
      · next last found =>
        obtain ⟨init, rfl⟩ := List.getLast?_eq_some_iff.1 found
        split
        · exact List.mem_append_left _ h
        · next name =>
          rw [List.dropLast_concat]
          exact (List.mem_append.1 h).resolve_right fun same => name (List.mem_singleton.1 same).symm
    · exact List.mem_append_left _ h

/-- What stays below a start does not depend on what is above it. -/
theorem foldl_append_of_names {rooted : Bool} (top parts : List String) {done : List String}
    (names : ".." ∉ parts.foldl (stepLexically false) done) :
    parts.foldl (stepLexically rooted) (top ++ done) = top ++ parts.foldl (stepLexically false) done := by
  induction parts generalizing done with
  | nil => rfl
  | cons part rest ih =>
    rw [List.foldl_cons] at names
    have start : ".." ∉ stepLexically false done part := fun back => names (back_mem_foldl rest back)
    have step : stepLexically rooted (top ++ done) part = top ++ stepLexically false done part := by
      unfold stepLexically at start ⊢
      split
      · next back =>
        rw [if_pos back] at start
        split at start
        · exact absurd (List.mem_singleton_self "..") start
        · next last found =>
          obtain ⟨init, rfl⟩ := List.getLast?_eq_some_iff.1 found
          rw [← List.append_assoc, List.getLast?_concat]
          dsimp only
          split
          · next up =>
            rw [if_pos up] at start
            exact absurd (List.mem_append_right _ (List.mem_singleton_self "..")) start
          · rw [List.dropLast_concat, List.dropLast_concat]
      · rw [List.append_assoc]
    rw [List.foldl_cons, List.foldl_cons, step, ih names]

theorem isAbove_iff {p q : Path} :
    p.isAbove q = true ↔ p.root = q.root ∧ ∃ rest, rest ≠ [] ∧ q.parts = p.parts ++ rest := by
  unfold Path.isAbove
  simp only [Bool.and_eq_true, beq_iff_eq, List.isPrefixOf_iff_prefix, decide_eq_true_eq]
  constructor
  · rintro ⟨⟨root, rest, parts⟩, longer⟩
    refine ⟨root, rest, ?_, parts.symm⟩
    rintro rfl
    rw [← parts, List.append_nil] at longer
    exact lt_irrefl _ longer
  · rintro ⟨root, rest, some, parts⟩
    refine ⟨⟨root, rest, parts.symm⟩, ?_⟩
    have := List.length_pos_iff.2 some
    rw [parts, List.length_append]
    omega

theorem harness_eq (base : Path) : base.child harnessDirectory = ⟨base.root, base.parts ++ [harnessDirectory]⟩ :=
  base.child_of_name (by decide) (by decide) (by decide)

theorem normalize_harness (base : Path) :
    (base.child harnessDirectory).normalize = ⟨base.root, base.normalize.parts ++ [harnessDirectory]⟩ :=
  base.normalize_child (by decide) (by decide) (by decide) (by decide)

theorem sources_eq_root (l : Layout) : l.sources = ⟨l.root.root, l.root.parts ++ ["src"]⟩ :=
  Path.child_of_name _ (by decide) (by decide) (by decide)

/-- **The ids that keep every workspace where workspaces are.** -/
theorem isConfined_iff (id : String) : (∀ base, (Layout.mk id base).IsConfined) ↔ IsInnerId id := by
  unfold IsConfined IsInnerId
  simp only [isAbove_iff, normalize_harness]
  constructor
  · intro h
    -- below the current directory nothing is above the directory for workspaces
    obtain ⟨root, rest, some, parts⟩ := h ⟨.here, []⟩
    have relative : (Path.ofString id).isAbsolute = false := by
      by_contra absolute
      rw [Bool.not_eq_false] at absolute
      rw [Layout.root, harness_eq, Path.child, Path.join, if_pos absolute] at root
      have here : (Path.ofString id).root = .here := root.symm
      rw [Path.isAbsolute, here] at absolute
      exact absurd absolute (by decide)
    refine ⟨relative, rest, some, ?_⟩
    rw [Layout.root, harness_eq, Path.child, Path.join, if_neg (by simp [relative])] at parts
    exact parts
  · rintro ⟨relative, rest, some, inner⟩ base
    have names : ".." ∉ resolvedId id := by
      have normal : Path.Normal ([] ++ harnessDirectory :: rest) :=
        inner ▸ Path.normal_foldl _ (List.pairwise_singleton _ _)
      rw [inner, List.mem_cons, not_or]
      exact ⟨by decide, normal.names (by decide)⟩
    have root : (Layout.mk id base).root =
        ⟨base.root, base.parts ++ [harnessDirectory] ++ (Path.ofString id).parts⟩ := by
      rw [Layout.root, harness_eq, Path.child, Path.join, if_neg (by simp [relative])]
    refine ⟨by rw [root]; rfl, rest, some, ?_⟩
    rw [root, Path.normalize, List.foldl_append, List.foldl_append]
    change (Path.ofString id).parts.foldl _ (base.normalize.parts ++ [harnessDirectory]) = _
    rw [foldl_append_of_names _ _ names, ← resolvedId, inner, List.append_assoc, List.singleton_append]

/-- A single name is such an id. -/
theorem isInnerId_of_name {id : String} (plain : '/' ∉ id.toList) (some : id ≠ "") (dot : id ≠ ".") (back : id ≠ "..") :
    IsInnerId id := by
  have name := Path.ofString_of_name plain some dot
  refine ⟨by rw [name]; rfl, [id], List.cons_ne_nil id [], ?_⟩
  rw [resolvedId, name, List.foldl_cons, List.foldl_nil, stepLexically, if_neg back, List.singleton_append]

end Layout

end ServerTrial
