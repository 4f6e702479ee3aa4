import ServerTrial.Proofs.Repair

/-!
# Places that resolve

The place that a check names for what it refuses has steps in it that lead nowhere, such as names of branches.

* `Data.Onward d s x`: the step leads from the data to a part of them;
* `Data.Reaches d path last`: each step of the path leads on, and the last one to `last`;
* `Data.Threads d path place`: the place is the path with steps put in that lead nowhere from where they stand;
* `Data.walk_eq_iff`: a walk along a place takes the path that threads it, and ends where this leads;
* `Data.resolve?_exact`: so a place resolves to that path, if it leads to the data that are looked for.
-/

namespace ServerTrial

namespace Data

/-! ### Steps and paths -/

/-- A step leads to a part: a key of an object to its value, an index of an array to its item. -/
inductive Onward : Data → Step → Data → Prop
  | key {es : List (String × Data)} {k : String} {x : Data} (found : find? k es = some x) : Onward (obj es) (.key k) x
  | index {xs : List Data} {i : Int} {x : Data} (low : 0 ≤ i) (found : xs[i.toNat]? = some x) :
      Onward (arr xs) (.index i) x

/-- Along a path each step leads on. -/
inductive Reaches : Data → List Step → Data → Prop
  | here (d : Data) : Reaches d [] d
  | onward {d x last : Data} {s : Step} {rest : List Step} (first : Onward d s x) (others : Reaches x rest last) :
      Reaches d (s :: rest) last

/-- A place is a path with further steps, each of which leads nowhere from where the path has come to. -/
inductive Threads : Data → List Step → List Step → Prop
  | done (d : Data) : Threads d [] []
  | skip {d : Data} {s : Step} {path place : List Step} (stuck : ∀ x, ¬ Onward d s x) (others : Threads d path place) :
      Threads d path (s :: place)
  | take {d x : Data} {s : Step} {path place : List Step} (first : Onward d s x) (others : Threads x path place) :
      Threads d (s :: path) (s :: place)

theorem step?_eq_some_iff {d x : Data} {s : Step} : d.step? s = some x ↔ Onward d s x := by
  constructor
  · intro h
    cases s with
    | key k =>
      cases d with
      | obj es => exact .key h
      | _ => simp [step?, get?] at h
    | index i =>
      cases d with
      | arr xs =>
        simp only [step?] at h
        split at h
        · simp at h
        · next low => exact .index (by omega) h
      | _ => simp [step?] at h
  · intro h
    cases h with
    | key found => exact found
    | index low found =>
      simp only [step?]
      rw [if_neg (not_lt.2 low)]
      exact found

theorem step?_eq_none_iff {d : Data} {s : Step} : d.step? s = none ↔ ∀ x, ¬ Onward d s x := by
  simp only [← step?_eq_some_iff, Option.eq_none_iff_forall_ne_some, ne_eq]

theorem Onward.unique {d x y : Data} {s : Step} (h : Onward d s x) (h' : Onward d s y) : x = y := by
  rw [← step?_eq_some_iff] at h h'
  exact Option.some.inj (h.symm.trans h')

/-- What is put in only makes a place longer. -/
theorem Threads.sublist {d : Data} {path place : List Step} (h : Threads d path place) : path.Sublist place := by
  induction h with
  | done d => exact .slnil
  | skip stuck others ih => exact ih.cons _
  | take first others ih => exact ih.cons_cons _

/-! ### Walking -/

/-- **A walk** takes the path that threads the place, and ends where the path leads. -/
theorem walk_eq_iff {place path : List Step} {d last : Data} :
    d.walk place = (path, last) ↔ Threads d path place ∧ Reaches d path last := by
  induction place generalizing d path with
  | nil =>
    rw [walk]
    constructor
    · intro h
      cases h
      exact ⟨.done _, .here _⟩
    · rintro ⟨threads, reaches⟩
      cases threads
      cases reaches
      rfl
  | cons s place ih =>
    rw [walk]
    cases step : d.step? s with
    | none =>
      have stuck := step?_eq_none_iff.1 step
      dsimp only
      rw [ih]
      constructor
      · rintro ⟨threads, reaches⟩
        exact ⟨.skip stuck threads, reaches⟩
      · rintro ⟨threads, reaches⟩
        cases threads with
        | skip _ others => exact ⟨others, reaches⟩
        | take first _ => exact absurd first (stuck _)
    | some x =>
      have first := step?_eq_some_iff.1 step
      dsimp only
      constructor
      · intro h
        obtain ⟨rfl, rfl⟩ := Prod.mk.inj h
        obtain ⟨threads, reaches⟩ := ih.1 (Prod.mk.eta (p := x.walk place)).symm
        exact ⟨.take first threads, .onward first reaches⟩
      · rintro ⟨threads, reaches⟩
        cases threads with
        | skip stuck _ => exact absurd first (stuck x)
        | take other others =>
          cases reaches with
          | onward again reaches =>
            obtain rfl := first.unique other
            obtain rfl := first.unique again
            rw [ih.2 ⟨others, reaches⟩]

/-- Data are of one kind when they are made alike. -/
theorem sameKind_iff {c d : Data} : c.sameKind d = true ↔ c.ctorIdx = d.ctorIdx := by
  cases c <;> cases d <;> simp [sameKind, Data.ctorIdx]

/-- **A place resolves to the path that threads it**, if this leads to data equal to those that are looked for and of
their kind; otherwise it does not resolve. -/
theorem resolve?_exact (d target : Data) (place path : List Step) :
    (d.resolve? place target = some path → path.Sublist place) ∧
      (d.resolve? place target = some path ↔ Threads d path place ∧
        ∃ last, Reaches d path last ∧ last.ctorIdx = target.ctorIdx ∧ last.same target = true) := by
  have exact' : d.resolve? place target = some path ↔ Threads d path place ∧
      ∃ last, Reaches d path last ∧ last.ctorIdx = target.ctorIdx ∧ last.same target = true := by
    unfold resolve?
    cases walked : d.walk place with
    | mk taken last =>
      obtain ⟨threads, reaches⟩ := walk_eq_iff.1 walked
      simp only [Option.ite_none_right_eq_some, Bool.and_eq_true, Option.some.injEq, sameKind_iff]
      constructor
      · rintro ⟨⟨kind, same⟩, rfl⟩
        exact ⟨threads, last, reaches, kind, same⟩
      · rintro ⟨others, end', leads, kind, same⟩
        obtain ⟨rfl, rfl⟩ := Prod.mk.inj (walked.symm.trans (walk_eq_iff.2 ⟨others, leads⟩))
        exact ⟨⟨kind, same⟩, rfl⟩
  exact ⟨fun resolved => (exact'.1 resolved).1.sublist, exact'⟩

/-- The name of a branch and a key that the data lack are left out on the way to an empty container. -/
theorem resolve?_exact_nested :
    let d := obj [("a", arr [int 1, obj [("b", arr [])]])]
    let place : List Step := [.key "a", .key "list[item]", .index 1, .key "tag", .key "b"]
    let path : List Step := [.key "a", .index 1, .key "b"]
    d.resolve? place (arr []) = some path ∧ path.Sublist place ∧ Threads d path place := by
  intro d place path
  have resolved : d.resolve? place (arr []) = some path := by decide +kernel
  obtain ⟨shorter, iff⟩ := resolve?_exact d (arr []) place path
  exact ⟨resolved, shorter resolved, (iff.1 resolved).1⟩

end Data

end ServerTrial
