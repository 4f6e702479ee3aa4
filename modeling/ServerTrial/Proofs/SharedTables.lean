import ServerTrial.Proofs.Merging

/-!
# Tables that are shared

Tables are changed in place, and a table that is put into another one is in both.  Here they have addresses.

* `Config.copyTable`, `Config.mergeTable`: the copy of a table, and the change of one table by another, step by step;
* `Config.Stands`: the table at an address, with all below it, is the one that is meant;
* `Config.Owns`: a table has all that is below it to itself, but for what is shared where that is allowed;
* `Config.mergeTable_spec`: the change makes the merged table, and leaves every other table as it is; by induction on
  the table above, over its entries with the keys that may share as the invariant;
* `Config.merged_apart`: so a merged copy has nothing in common with the table that was copied;
* `Config.defaults_stand`: whatever callers do with the settings that they load, the defaults stay what they are.
-/

namespace ServerTrial.Config

/-- What a key leads to: a table, which has an address, or a value of another kind. -/
inductive Item where
  | table (address : Nat)
  | value (d : Data)

/-- The entries of a table. -/
abbrev Cell := List (String × Item)

/-- The tables by their addresses. -/
abbrev Heap := List Cell

/-! ### Copying and merging in place -/

/-- Copies entries, the tables among them by `copy`. -/
def copyEntries (copy : Heap → Nat → Option (Nat × Heap)) : Heap → Cell → Option (Cell × Heap)
  | h, [] => some ([], h)
  | h, (k, .value d) :: es => do
    let (es, h) ← copyEntries copy h es
    return ((k, .value d) :: es, h)
  | h, (k, .table a) :: es => do
    let (a, h) ← copy h a
    let (es, h) ← copyEntries copy h es
    return ((k, .table a) :: es, h)

/-- Makes a table with the entries of another one, whose tables are copied; they lie no deeper than `depth`. -/
def copyTable : Nat → Heap → Nat → Option (Nat × Heap)
  | 0, _, _ => none
  | depth + 1, h, a => do
    let es ← h[a]?
    let (es, h) ← copyEntries (copyTable depth) h es
    return (h.length, h ++ [es])

/-- Puts an entry into a table; where both have a table, `merge` changes the one below. -/
def mergeEntry (merge : Heap → Nat → Nat → Option Heap) (base : Nat) (h : Heap) (e : String × Item) : Option Heap := do
  let own ← h[base]?
  match e.2, Data.find? e.1 own with
  | .table above, some (.table below) => merge h below above
  | x, _ => some (h.set base (Data.put e.1 x own))

/-- Puts the entries of one table into another one; its tables lie no deeper than `depth`. -/
def mergeTable : Nat → Heap → Nat → Nat → Option Heap
  | 0, _, _, _ => none
  | depth + 1, h, base, above => do
    let es ← h[above]?
    es.foldlM (mergeEntry (mergeTable depth) base) h

/-- Copies a table and puts the entries of another one into the copy. -/
def mergeCopy (depth : Nat) (h : Heap) (base above : Nat) : Option (Nat × Heap) := do
  let (copy, h) ← copyTable depth h base
  let h ← mergeTable depth h copy above
  return (copy, h)

/-! ### What is at an address -/

mutual

/-- The item is these data, with all tables below it. -/
def Stands (h : Heap) (x : Item) : Data → Prop
  | .obj es => ∃ a cell, x = .table a ∧ h[a]? = some cell ∧ EntriesStand h cell es
  | d => x = .value d

def EntriesStand (h : Heap) : Cell → List (String × Data) → Prop
  | [], [] => True
  | (k, x) :: xs, (l, d) :: es => k = l ∧ Stands h x d ∧ EntriesStand h xs es
  | _, _ => False

end

/-- The table is the item, or lies below it. -/
inductive Reaches (h : Heap) : Item → Nat → Prop
  | here (a : Nat) : Reaches h (.table a) a
  | further {a t : Nat} {cell : Cell} {e : String × Item} (there : h[a]? = some cell) (mem : e ∈ cell)
      (rest : Reaches h e.2 t) : Reaches h (.table a) t

mutual

/-- The item is these data, and its tables have their addresses from `lo` up to `hi`, each to itself.  Where it is
mixed, there may also be items that are shared with others: what these are they are in `old`. -/
def Owns (old : Heap) (shared : Item → Prop) (h : Heap) (mixed : Bool) (lo hi : Nat) (x : Item) : Data → Prop
  | .obj es => lo ≤ hi ∧ ((mixed = true ∧ shared x ∧ Stands old x (.obj es)) ∨
      ∃ a cell, x = .table a ∧ lo ≤ a ∧ a < hi ∧ h[a]? = some cell ∧
        OwnsEntries old shared h (fun _ => mixed) lo a cell es)
  | d => lo ≤ hi ∧ x = .value d

def OwnsEntries (old : Heap) (shared : Item → Prop) (h : Heap) (mixed : String → Bool) (lo hi : Nat) :
    Cell → List (String × Data) → Prop
  | [], [] => lo ≤ hi
  | (k, x) :: xs, (l, d) :: es => k = l ∧ ∃ mid, Owns old shared h (mixed k) lo mid x d ∧
      OwnsEntries old shared h mixed mid hi xs es
  | _, _ => False

end

variable {h h' old : Heap} {x : Item}

theorem stands_of_flat {d : Data} (flat : ∀ es, d ≠ .obj es) : Stands h x d ↔ x = .value d := by
  rw [Stands]
  exact flat

theorem stands_obj_iff {es : List (String × Data)} :
    Stands h x (.obj es) ↔ ∃ a cell, x = .table a ∧ h[a]? = some cell ∧ EntriesStand h cell es := by
  rw [Stands]

theorem entriesStand_iff {xs : Cell} {es : List (String × Data)} :
    EntriesStand h xs es ↔ List.Forall₂ (fun x e => x.1 = e.1 ∧ Stands h x.2 e.2) xs es := by
  induction xs generalizing es with
  | nil => cases es <;> simp [EntriesStand]
  | cons x xs ih =>
    cases es with
    | nil => simp [EntriesStand]
    | cons e es => rw [EntriesStand, ih, List.forall₂_cons, and_assoc]

theorem forall₂_imp_of_mem {α β : Type} {R S : α → β → Prop} {xs : List α} {ys : List β} (h : List.Forall₂ R xs ys)
    (step : ∀ x ∈ xs, ∀ y ∈ ys, R x y → S x y) : List.Forall₂ S xs ys := by
  induction h with
  | nil => exact .nil
  | cons first _ ih =>
    exact .cons (step _ List.mem_cons_self _ List.mem_cons_self first) (ih fun x hx y hy =>
      step x (List.mem_cons_of_mem _ hx) y (List.mem_cons_of_mem _ hy))

/-- **The frame**: an item stays what it is as long as the tables that it reaches do. -/
theorem Stands.frame {d : Data} (stands : Stands h x d) (same : ∀ t, Reaches h x t → h'[t]? = h[t]?) :
    Stands h' x d := by
  induction d using Data.byEntries generalizing x with
  | obj es ih =>
    obtain ⟨a, cell, rfl, there, entries⟩ := stands_obj_iff.1 stands
    refine stands_obj_iff.2 ⟨a, cell, rfl, (same a (.here a)).trans there, ?_⟩
    rw [entriesStand_iff] at entries ⊢
    exact forall₂_imp_of_mem entries fun y hy e he ⟨key, stands⟩ =>
      ⟨key, ih e he stands fun t reaches => same t (.further there hy reaches)⟩
  | flat d plain =>
    rw [stands_of_flat plain] at stands ⊢
    exact stands

theorem Stands.exists_obj {a : Nat} {d : Data} (stands : Stands h (.table a) d) : ∃ es, d = .obj es := by
  by_contra flat
  exact nomatch (stands_of_flat (not_exists.1 flat)).1 stands

theorem Stands.entry {a : Nat} {d : Data} {cell : Cell} {e : String × Item} (stands : Stands h (.table a) d)
    (there : h[a]? = some cell) (mem : e ∈ cell) : ∃ d', Stands h e.2 d' := by
  obtain ⟨es, rfl⟩ := stands.exists_obj
  obtain ⟨_, cell', ⟨⟩, there', entries⟩ := stands_obj_iff.1 stands
  obtain rfl := Option.some.inj (there.symm.trans there')
  obtain ⟨i, bound, rfl⟩ := List.getElem_of_mem mem
  have each := (List.forall₂_iff_get.1 (entriesStand_iff.1 entries)).2 i bound
  exact ⟨_, (each ((entriesStand_iff.1 entries).length_eq ▸ bound)).2⟩

theorem Stands.lt_length {d : Data} (stands : Stands h x d) {t : Nat} (reaches : Reaches h x t) : t < h.length := by
  induction reaches generalizing d with
  | here a =>
    obtain ⟨es, rfl⟩ := stands.exists_obj
    obtain ⟨_, cell, ⟨⟩, there, -⟩ := stands_obj_iff.1 stands
    exact (List.getElem?_eq_some_iff.1 there).1
  | further there mem _ ih =>
    obtain ⟨d', stands⟩ := stands.entry there mem
    exact ih stands

/-- All tables that there were are as they were. -/
def Keeps (old h : Heap) : Prop := ∀ t < old.length, h[t]? = old[t]?

theorem Keeps.le (keeps : Keeps old h) : old.length ≤ h.length := by
  by_contra shorter
  have gone := keeps h.length (by omega)
  rw [List.getElem?_eq_none (Nat.le_refl _)] at gone
  exact shorter (List.getElem?_eq_none_iff.1 gone.symm)

theorem Stands.keep {d : Data} (stands : Stands old x d) (keeps : Keeps old h) : Stands h x d :=
  stands.frame fun t reaches => keeps t (stands.lt_length reaches)

/-- Nothing else is reached as long as the tables that an item reaches stay what they are. -/
theorem Reaches.frame {t : Nat} (reaches : Reaches h' x t) (same : ∀ s, Reaches h x s → h'[s]? = h[s]?) :
    Reaches h x t := by
  induction reaches with
  | here a => exact .here a
  | @further a t cell e there mem _ ih =>
    rw [same a (.here a)] at there
    exact .further there mem (ih fun s below => same s (.further there mem below))

theorem Reaches.of_keeps {t : Nat} (reaches : Reaches h x t) (inside : ∀ s, Reaches old x s → s < old.length)
    (keeps : Keeps old h) : Reaches old x t := reaches.frame fun s below => keeps s (inside s below)

/-! ### Tables that are not shared -/

section Owns

variable {shared : Item → Prop} {mixed : Bool} {lo hi : Nat}

theorem owns_of_flat {d : Data} (flat : ∀ es, d ≠ .obj es) :
    Owns old shared h mixed lo hi x d ↔ lo ≤ hi ∧ x = .value d := by
  rw [Owns]
  exact flat

theorem owns_obj_iff {es : List (String × Data)} : Owns old shared h mixed lo hi x (.obj es) ↔
    lo ≤ hi ∧ ((mixed = true ∧ shared x ∧ Stands old x (.obj es)) ∨ ∃ a cell, x = .table a ∧ lo ≤ a ∧ a < hi ∧
      h[a]? = some cell ∧ OwnsEntries old shared h (fun _ => mixed) lo a cell es) := by
  rw [Owns]

theorem Owns.le {d : Data} (owns : Owns old shared h mixed lo hi x d) : lo ≤ hi := by
  by_cases flat : ∀ es, d ≠ .obj es
  · exact ((owns_of_flat flat).1 owns).1
  · obtain ⟨es, rfl⟩ := not_forall_not.1 flat
    exact (owns_obj_iff.1 owns).1

/-- Induction along entries and what they stand for. -/
@[elab_as_elim]
theorem OwnsEntries.along {mixed : String → Bool}
    {P : (lo : Nat) → (xs : Cell) → (es : List (String × Data)) → OwnsEntries old shared h mixed lo hi xs es → Prop}
    (nil : ∀ lo (le : lo ≤ hi), P lo [] [] le)
    (cons : ∀ lo mid k x d xs es (first : Owns old shared h (mixed k) lo mid x d)
      (rest : OwnsEntries old shared h mixed mid hi xs es), P mid xs es rest →
        P lo ((k, x) :: xs) ((k, d) :: es) ⟨rfl, mid, first, rest⟩)
    (lo : Nat) (xs : Cell) (es : List (String × Data)) (owns : OwnsEntries old shared h mixed lo hi xs es) :
    P lo xs es owns := by
  induction xs generalizing lo es with
  | nil =>
    cases es with
    | nil => exact nil lo owns
    | cons => exact owns.elim
  | cons x xs ih =>
    cases es with
    | nil => exact owns.elim
    | cons e es =>
      obtain ⟨k, x⟩ := x
      obtain ⟨l, d⟩ := e
      obtain ⟨rfl, mid, first, rest⟩ := owns
      exact cons lo mid k x d xs es first rest (ih mid es rest)

theorem OwnsEntries.le {mixed : String → Bool} {xs : Cell} {es : List (String × Data)}
    (owns : OwnsEntries old shared h mixed lo hi xs es) : lo ≤ hi := by
  induction lo, xs, es, owns using OwnsEntries.along with
  | nil lo le => exact le
  | cons lo mid k x d xs es first rest ih => exact first.le.trans ih

/-- What is owned depends on the own tables only, and it is owned as well in a wider range or where more may be
shared. -/
def MayGrow (old : Heap) (shared : Item → Prop) (h h' : Heap) (d : Data) : Prop :=
  ∀ {x : Item} {mixed mixed' : Bool} {lo hi lo' hi' : Nat}, Owns old shared h mixed lo hi x d →
    (mixed = true → mixed' = true) → lo' ≤ lo → hi ≤ hi' → (∀ t, lo ≤ t → t < hi → h'[t]? = h[t]?) →
    Owns old shared h' mixed' lo' hi' x d

theorem OwnsEntries.grow_of {mixed mixed' : String → Bool} {lo' hi' : Nat} {xs : Cell} {es : List (String × Data)}
    (each : ∀ e ∈ es, MayGrow old shared h h' e.2) (owns : OwnsEntries old shared h mixed lo hi xs es)
    (more : ∀ k, mixed k = true → mixed' k = true) (lower : lo' ≤ lo) (higher : hi ≤ hi')
    (same : ∀ t, lo ≤ t → t < hi → h'[t]? = h[t]?) : OwnsEntries old shared h' mixed' lo' hi' xs es := by
  induction lo, xs, es, owns using OwnsEntries.along generalizing lo' with
  | nil lo le => exact lower.trans (le.trans higher)
  | cons lo mid k x d xs es first rest ih =>
    obtain ⟨own, each⟩ := List.forall_mem_cons.1 each
    have le := first.le
    have le' := rest.le
    exact ⟨rfl, mid, own first (more k) lower (Nat.le_refl mid) fun t low high => same t low (by omega),
      ih each (Nat.le_refl mid) fun t low high => same t (by omega) high⟩

theorem mayGrow (d : Data) : MayGrow old shared h h' d := by
  induction d using Data.byEntries with
  | obj es ih =>
    intro x mixed mixed' lo hi lo' hi' owns more lower higher same
    obtain ⟨le, ⟨may, elsewhere⟩ | ⟨a, cell, rfl, above, below, there, entries⟩⟩ := owns_obj_iff.1 owns
    · exact owns_obj_iff.2 ⟨by omega, .inl ⟨more may, elsewhere⟩⟩
    · refine owns_obj_iff.2 ⟨by omega, .inr ⟨a, cell, rfl, by omega, by omega, (same a above below).trans there, ?_⟩⟩
      exact entries.grow_of ih (fun _ => more) lower (Nat.le_refl a) fun t low high => same t low (by omega)
  | flat d plain =>
    intro x mixed mixed' lo hi lo' hi' owns _ lower higher _
    rw [owns_of_flat plain] at owns ⊢
    exact ⟨by omega, owns.2⟩

theorem OwnsEntries.grow {mixed mixed' : String → Bool} {lo' hi' : Nat} {xs : Cell} {es : List (String × Data)}
    (owns : OwnsEntries old shared h mixed lo hi xs es) (more : ∀ k, mixed k = true → mixed' k = true)
    (lower : lo' ≤ lo) (higher : hi ≤ hi') (same : ∀ t, lo ≤ t → t < hi → h'[t]? = h[t]?) :
    OwnsEntries old shared h' mixed' lo' hi' xs es := owns.grow_of (fun e _ => mayGrow e.2) more lower higher same

/-- What is owned is what it should be. -/
theorem Owns.stands {d : Data} (owns : Owns old shared h mixed lo hi x d) (keeps : Keeps old h) : Stands h x d := by
  induction d using Data.byEntries generalizing x mixed lo hi with
  | obj es ih =>
    obtain ⟨-, ⟨-, -, elsewhere⟩ | ⟨a, cell, rfl, -, -, there, entries⟩⟩ := owns_obj_iff.1 owns
    · exact elsewhere.keep keeps
    · refine stands_obj_iff.2 ⟨a, cell, rfl, there, ?_⟩
      clear there owns
      induction lo, cell, es, entries using OwnsEntries.along with
      | nil => trivial
      | cons lo mid k x d xs es first rest ih' =>
        obtain ⟨own, each⟩ := List.forall_mem_cons.1 ih
        exact ⟨rfl, own first, ih' each⟩
  | flat d plain => exact (stands_of_flat plain).2 ((owns_of_flat plain).1 owns).2

theorem OwnsEntries.of_mem {mixed : String → Bool} {xs : Cell} {es : List (String × Data)}
    (owns : OwnsEntries old shared h mixed lo hi xs es) {e : String × Item} (mem : e ∈ xs) :
    ∃ lo' hi' d, lo ≤ lo' ∧ hi' ≤ hi ∧ Owns old shared h (mixed e.1) lo' hi' e.2 d := by
  induction lo, xs, es, owns using OwnsEntries.along with
  | nil => cases mem
  | cons lo mid k x d xs es first rest ih =>
    rcases List.mem_cons.1 mem with rfl | mem
    · exact ⟨lo, mid, d, Nat.le_refl lo, rest.le, first⟩
    · obtain ⟨lo', hi', d', above, below, own⟩ := ih mem
      exact ⟨lo', hi', d', first.le.trans above, below, own⟩

/-- **What is reached is owned or shared.** -/
theorem Owns.reaches {d : Data} (owns : Owns old shared h mixed lo hi x d) (keeps : Keeps old h) {t : Nat}
    (reaches : Reaches h x t) : (lo ≤ t ∧ t < hi) ∨ ∃ y, shared y ∧ Reaches old y t := by
  induction reaches generalizing d mixed lo hi with
  | here a =>
    have stands := owns.stands keeps
    obtain ⟨es, rfl⟩ := stands.exists_obj
    obtain ⟨-, ⟨-, fromShared, elsewhere⟩ | ⟨_, cell, ⟨⟩, above, below, -, -⟩⟩ := owns_obj_iff.1 owns
    · exact .inr ⟨_, fromShared, .here a⟩
    · exact .inl ⟨above, below⟩
  | @further a t cell e there mem rest ih =>
    have stands := owns.stands keeps
    obtain ⟨es, rfl⟩ := stands.exists_obj
    obtain ⟨-, ⟨-, fromShared, elsewhere⟩ | ⟨_, cell', ⟨⟩, above, below, there', entries⟩⟩ := owns_obj_iff.1 owns
    · exact .inr ⟨_, fromShared, Reaches.of_keeps (.further there mem rest) (fun s => elsewhere.lt_length) keeps⟩
    · obtain rfl := Option.some.inj (there.symm.trans there')
      obtain ⟨lo', hi', d', lower, upper, own⟩ := entries.of_mem mem
      refine (ih own).imp_left fun inside => ?_
      omega

/-- An entry has a part of the tables to itself, and another one may take its place. -/
structure Replaceable (old : Heap) (shared : Item → Prop) (h : Heap) (mixed : String → Bool) (lo hi : Nat) (xs : Cell)
    (es : List (String × Data)) (k : String) (lo' hi' : Nat) (y : Item) (d : Data) : Prop where
  item : Data.find? k xs = some y
  data : Data.find? k es = some d
  low : lo ≤ lo'
  high : hi' ≤ hi
  owns : Owns old shared h (mixed k) lo' hi' y d
  replace : ∀ h' z v, (∀ t, lo ≤ t → t < hi → ¬ (lo' ≤ t ∧ t < hi') → h'[t]? = h[t]?) →
    Owns old shared h' true lo' hi' z v →
      OwnsEntries old shared h' (fun l => mixed l || l == k) lo hi (Data.put k z xs) (Data.put k v es)

theorem OwnsEntries.find {mixed : String → Bool} {xs : Cell} {es : List (String × Data)} (k : String)
    (owns : OwnsEntries old shared h mixed lo hi xs es) : (Data.find? k xs = none ∧ Data.find? k es = none) ∨
      ∃ lo' hi' y d, Replaceable old shared h mixed lo hi xs es k lo' hi' y d := by
  have more : ∀ l, mixed l = true → (mixed l || l == k) = true := fun l is => by rw [is, Bool.true_or]
  induction lo, xs, es, owns using OwnsEntries.along with
  | nil => exact .inl ⟨rfl, rfl⟩
  | cons lo mid l x d xs es first rest ih =>
    have le := first.le
    by_cases here : l = k
    · refine .inr ⟨lo, mid, x, d, if_pos here, if_pos here, Nat.le_refl lo, rest.le, here ▸ first, ?_⟩
      intro h' z v frame own
      rw [Data.put, Data.put, if_pos here, if_pos here]
      refine ⟨rfl, mid, ?_, rest.grow more (Nat.le_refl mid) (Nat.le_refl hi) fun t low high =>
        frame t (by omega) high (by omega)⟩
      simpa [here] using own
    · rcases ih with ⟨absent, absent'⟩ | ⟨lo', hi', y, d', entry⟩
      · exact .inl ⟨(if_neg here).trans absent, (if_neg here).trans absent'⟩
      · refine .inr ⟨lo', hi', y, d', (if_neg here).trans entry.item, (if_neg here).trans entry.data,
          le.trans entry.low, entry.high, entry.owns, ?_⟩
        intro h' z v frame own
        have le' := rest.le
        have low := entry.low
        rw [Data.put, Data.put, if_neg here, if_neg here]
        exact ⟨rfl, mid, mayGrow d first (more l) (Nat.le_refl lo) (Nat.le_refl mid) fun t _ below =>
            frame t (by omega) (by omega) (by omega),
          entry.replace h' z v (fun t above => frame t (by omega)) own⟩

/-- A new entry follows the others. -/
theorem OwnsEntries.put_new {mixed mixed' : String → Bool} {xs : Cell} {es : List (String × Data)} {k : String}
    {z : Item} {v : Data} (owns : OwnsEntries old shared h mixed lo hi xs es)
    (more : ∀ l, mixed l = true → mixed' l = true) (absent : Data.find? k xs = none)
    (own : Owns old shared h (mixed' k) hi hi z v) :
    OwnsEntries old shared h mixed' lo hi (Data.put k z xs) (Data.put k v es) := by
  induction lo, xs, es, owns using OwnsEntries.along with
  | nil lo le => exact ⟨rfl, hi, mayGrow v own id le (Nat.le_refl hi) fun _ _ _ => rfl, Nat.le_refl hi⟩
  | cons lo mid l x d xs es first rest ih =>
    have other : l ≠ k := fun same => by simp [Data.find?, same] at absent
    rw [Data.find?, if_neg other] at absent
    rw [Data.put, Data.put, if_neg other, if_neg other]
    exact ⟨rfl, mid, mayGrow d first (more l) (Nat.le_refl lo) (Nat.le_refl mid) fun _ _ _ => rfl, ih absent⟩

end Owns

/-! ### The copy -/

mutual

/-- How many tables lie in one another. -/
def tableDepth : Data → Nat
  | .obj es => entriesDepth es + 1
  | _ => 0

def entriesDepth : List (String × Data) → Nat
  | [] => 0
  | (_, d) :: es => max (tableDepth d) (entriesDepth es)

end

theorem tableDepth_le {es : List (String × Data)} {e : String × Data} (mem : e ∈ es) :
    tableDepth e.2 ≤ entriesDepth es := by
  induction es with
  | nil => cases mem
  | cons f es ih =>
    rw [entriesDepth]
    rcases List.mem_cons.1 mem with rfl | mem
    · exact le_max_left _ _
    · exact (ih mem).trans (le_max_right _ _)

section Copying

variable (old) (shared : Item → Prop)

/-- What is made for an item: new tables, which nothing else has, and nothing else changes. -/
structure Copied (h h' : Heap) (x : Item) (d : Data) : Prop where
  keeps : Keeps h h'
  owns : Owns old shared h' false h.length h'.length x d

theorem Keeps.append (h : Heap) (cell : Cell) : Keeps h (h ++ [cell]) := fun _ below => List.getElem?_append_left below

theorem copyEntries_spec {copy : Heap → Nat → Option (Nat × Heap)} {xs : Cell} {es : List (String × Data)}
    (each : ∀ e ∈ es, ∀ h a, Stands h (.table a) e.2 →
      ∃ c h', copy h a = some (c, h') ∧ Copied old shared h h' (.table c) e.2) (stands : EntriesStand h xs es) :
    ∃ ys h', copyEntries copy h xs = some (ys, h') ∧ Keeps h h' ∧
      OwnsEntries old shared h' (fun _ => false) h.length h'.length ys es := by
  induction xs generalizing h es with
  | nil =>
    cases es with
    | nil => exact ⟨[], h, rfl, fun _ _ => rfl, Nat.le_refl _⟩
    | cons => exact stands.elim
  | cons x xs ih =>
    cases es with
    | nil => exact stands.elim
    | cons e es =>
      obtain ⟨k, x⟩ := x
      obtain ⟨l, d⟩ := e
      obtain ⟨rfl, first, rest⟩ := stands
      obtain ⟨own, each⟩ := List.forall_mem_cons.1 each
      cases x with
      | value v =>
        obtain ⟨ys, h', done, keeps, owns⟩ := ih each rest
        refine ⟨(k, .value v) :: ys, h', by rw [copyEntries, done]; rfl, keeps, rfl, h.length, ?_, owns⟩
        by_cases flat : ∀ es, d ≠ .obj es
        · exact (owns_of_flat flat).2 ⟨Nat.le_refl _, (stands_of_flat flat).1 first⟩
        · obtain ⟨inner, rfl⟩ := not_forall_not.1 flat
          obtain ⟨a, _, same, -⟩ := stands_obj_iff.1 first
          cases same
      | table a =>
        obtain ⟨c, h₁, copied, new⟩ := own h a first
        have rest' : EntriesStand h₁ xs es := by
          rw [entriesStand_iff] at rest ⊢
          exact rest.imp fun x e ⟨key, stands⟩ => ⟨key, stands.keep new.keeps⟩
        obtain ⟨ys, h', done, keeps, owns⟩ := ih each rest'
        refine ⟨(k, .table c) :: ys, h', by rw [copyEntries, copied]; simp [done], ?_, rfl, h₁.length, ?_, owns⟩
        · exact fun t below => (keeps t (below.trans_le new.keeps.le)).trans (new.keeps t below)
        · exact mayGrow d new.owns id (Nat.le_refl _) (Nat.le_refl _) fun t _ below => keeps t below

/-- **The copy has all its tables to itself.** -/
theorem copyTable_spec {depth : Nat} {d : Data} (deep : tableDepth d ≤ depth) {a : Nat}
    (stands : Stands h (.table a) d) :
    ∃ c h', copyTable depth h a = some (c, h') ∧ Copied old shared h h' (.table c) d := by
  induction depth generalizing d h a with
  | zero =>
    obtain ⟨es, rfl⟩ := stands.exists_obj
    rw [tableDepth] at deep
    omega
  | succ depth ih =>
    obtain ⟨es, rfl⟩ := stands.exists_obj
    obtain ⟨_, cell, ⟨⟩, there, entries⟩ := stands_obj_iff.1 stands
    rw [tableDepth] at deep
    obtain ⟨ys, h', done, keeps, owns⟩ := copyEntries_spec old shared
      (fun e mem h a stands => ih ((tableDepth_le mem).trans (by omega)) stands) entries
    have longer := keeps.le
    refine ⟨h'.length, h' ++ [ys], ?_, ?_, ?_⟩
    · simp [copyTable, there, done]
    · exact fun t below => (Keeps.append h' ys t (below.trans_le longer)).trans (keeps t below)
    · refine owns_obj_iff.2 ⟨by simp; omega, .inr ⟨h'.length, ys, rfl, longer, by simp, by simp, ?_⟩⟩
      exact owns.grow (fun _ => id) (Nat.le_refl _) (Nat.le_refl _) fun t _ below => Keeps.append h' ys t below

end Copying

/-! ### The change -/

section Changing

variable {shared : Item → Prop} {mixed : String → Bool} {merge : Heap → Nat → Nat → Option Heap} {lo base : Nat}
  {o b : List (String × Data)}

/-- What is shared may stand anywhere. -/
theorem owns_shared {v : Data} {hi : Nat} (stands : Stands old x v) (isShared : shared x) (le : lo ≤ hi) :
    Owns old shared h true lo hi x v := by
  by_cases flat : ∀ es, v ≠ .obj es
  · exact (owns_of_flat flat).2 ⟨le, (stands_of_flat flat).1 stands⟩
  · obtain ⟨es, rfl⟩ := not_forall_not.1 flat
    exact owns_obj_iff.2 ⟨le, .inl ⟨rfl, isShared, stands⟩⟩

/-- Putting the table `o`, which is shared, into one of the tables from `lo` up to `hi` gives the merged table, and
changes no other one. -/
def Puts (old : Heap) (shared : Item → Prop) (merge : Heap → Nat → Nat → Option Heap) (o : List (String × Data)) :
    Prop :=
  ∀ {h : Heap} {base above lo hi : Nat} {b : List (String × Data)}, old.length ≤ lo → Keeps old h →
    Owns old shared h false lo hi (.table base) (.obj b) → Stands old (.table above) (.obj o) →
      shared (.table above) → ∃ h', merge h base above = some h' ∧ (∀ t, ¬ (lo ≤ t ∧ t < hi) → h'[t]? = h[t]?) ∧
        Owns old shared h' true lo hi (.table base) (.obj (Config.merge o b))

/-- The table has these entries, and those that are not mixed to itself. -/
def Has (old : Heap) (shared : Item → Prop) (h : Heap) (mixed : String → Bool) (lo base : Nat)
    (es : List (String × Data)) : Prop := ∃ cell, h[base]? = some cell ∧ OwnsEntries old shared h mixed lo base cell es

theorem put_of_find? {α : Type} {k : String} {y : α} {es : List (String × α)} (found : Data.find? k es = some y) :
    Data.put k y es = es := by
  induction es with
  | nil => cases found
  | cons e es ih =>
    obtain ⟨l, z⟩ := e
    rw [Data.find?] at found
    rw [Data.put]
    split
    · next same =>
      rw [if_pos same, Option.some.injEq] at found
      rw [found]
    · next other =>
      rw [if_neg other] at found
      rw [ih found]

theorem mergeEntry_put {cell : Cell} {k : String} (there : h[base]? = some cell)
    (apart : ∀ i j, x = .table i → Data.find? k cell ≠ some (.table j)) :
    mergeEntry merge base h (k, x) = some (h.set base (Data.put k x cell)) := by
  simp only [mergeEntry, there, Option.bind_eq_bind, Option.bind_some]

theorem mergeEntry_table {cell : Cell} {k : String} {above below : Nat} (there : h[base]? = some cell)
    (found : Data.find? k cell = some (.table below)) :
    mergeEntry merge base h (k, .table above) = merge h below above := by
  simp only [mergeEntry, there, found, Option.bind_eq_bind, Option.bind_some]

/-- One entry is put into the table as merging does. -/
theorem mergeEntry_spec (lower : old.length ≤ lo) (keeps : Keeps old h) {k : String} {v : Data}
    (stands : Stands old x v) (isShared : shared x) (tables : ∀ inner, v = .obj inner → Puts old shared merge inner)
    (own : mixed k = false) (has : Has old shared h mixed lo base b) :
    ∃ h', mergeEntry merge base h (k, x) = some h' ∧ (∀ t, ¬ (lo ≤ t ∧ t < base + 1) → h'[t]? = h[t]?) ∧
      Has old shared h' (fun l => mixed l || l == k) lo base (Data.put k (laid v (Data.find? k b)) b) := by
  obtain ⟨cell, there, entries⟩ := has
  have le := entries.le
  have bound := (List.getElem?_eq_some_iff.1 there).1
  -- where no table is changed the item itself is put under the key
  have taken : (h.set base (Data.put k x cell))[base]? = some (Data.put k x cell) := List.getElem?_set_self bound
  have kept : ∀ t, t ≠ base → (h.set base (Data.put k x cell))[t]? = h[t]? := fun t other =>
    List.getElem?_set_ne (Ne.symm other)
  have above : ∀ i, x = .table i → ∃ inner, v = .obj inner := fun i same => (same ▸ stands).exists_obj
  rcases entries.find k with ⟨absent, absent'⟩ | ⟨lo', hi', y, d, entry⟩
  · refine ⟨_, mergeEntry_put there (by simp [absent]), fun t outside => kept t (by omega), _, taken, ?_⟩
    have alone : laid v none = v := laid_eq_self fun _ _ _ => nofun
    rw [absent', alone]
    have same : OwnsEntries old shared (h.set base (Data.put k x cell)) mixed lo base cell b :=
      entries.grow (fun _ => id) (Nat.le_refl lo) (Nat.le_refl base) fun t _ below => kept t below.ne
    refine same.put_new (fun l is => by rw [is, Bool.true_or]) absent ?_
    simpa using owns_shared stands isShared (Nat.le_refl base)
  · have inside := entry.low
    have inside' := entry.high
    have part := entry.owns
    rw [own] at part
    rw [entry.data]
    by_cases both : ∃ inner below, v = .obj inner ∧ d = .obj below
    · obtain ⟨inner, below, rfl, rfl⟩ := both
      obtain ⟨a, _, rfl, -⟩ := stands_obj_iff.1 stands
      obtain ⟨-, ⟨⟨⟩, -⟩ | ⟨c, _, rfl, -⟩⟩ := owns_obj_iff.1 part
      obtain ⟨h', done, frame, merged⟩ := tables inner rfl (by omega) keeps part stands isShared
      refine ⟨h', (mergeEntry_table there entry.item).trans done, fun t outside => frame t (by omega), cell,
        (frame base (by omega)).trans there, ?_⟩
      have replaced := entry.replace h' _ _ (fun t _ _ => frame t) merged
      rwa [put_of_find? entry.item] at replaced
    · have apart : ∀ i j, x = .table i → Data.find? k cell ≠ some (.table j) := by
        rintro i j rfl found
        obtain ⟨inner, same⟩ := above i rfl
        rw [entry.item, Option.some.injEq] at found
        rw [found] at part
        obtain ⟨below, same'⟩ := (part.stands keeps).exists_obj
        exact both ⟨inner, below, same, same'⟩
      refine ⟨_, mergeEntry_put there apart, fun t outside => kept t (by omega), _, taken, ?_⟩
      rw [laid_eq_self fun i j same same' => both ⟨i, j, same, Option.some.inj same'⟩]
      exact entry.replace _ x v (fun t _ below _ => kept t below.ne) (owns_shared stands isShared entry.owns.le)

/-- So are all of them. -/
theorem foldlM_mergeEntry {xs : Cell} (lower : old.length ≤ lo) (keeps : Keeps old h) (stands : EntriesStand old xs o)
    (isShared : ∀ e ∈ xs, shared e.2) (distinct : (o.map Prod.fst).Nodup)
    (tables : ∀ e ∈ o, ∀ inner, e.2 = .obj inner → Puts old shared merge inner) (own : ∀ e ∈ o, mixed e.1 = false)
    (has : Has old shared h mixed lo base b) :
    ∃ h', xs.foldlM (mergeEntry merge base) h = some h' ∧ (∀ t, ¬ (lo ≤ t ∧ t < base + 1) → h'[t]? = h[t]?) ∧
      Has old shared h' (fun _ => true) lo base (Config.merge o b) := by
  induction xs generalizing h mixed o b with
  | nil =>
    cases o with
    | nil =>
      obtain ⟨cell, there, entries⟩ := has
      rw [Config.merge]
      exact ⟨h, rfl, fun _ _ => rfl, cell, there, entries.grow (fun _ _ => rfl) (Nat.le_refl lo) (Nat.le_refl base)
        fun _ _ _ => rfl⟩
    | cons => exact stands.elim
  | cons x xs ih =>
    cases o with
    | nil => exact stands.elim
    | cons e o =>
      obtain ⟨k, x⟩ := x
      obtain ⟨_, v⟩ := e
      obtain ⟨rfl, first, rest⟩ := stands
      rw [List.map_cons, List.nodup_cons] at distinct
      obtain ⟨isShared, restShared⟩ := List.forall_mem_cons.1 isShared
      obtain ⟨table, tables⟩ := List.forall_mem_cons.1 tables
      obtain ⟨own, restOwn⟩ := List.forall_mem_cons.1 own
      obtain ⟨h₁, done, frame, has₁⟩ := mergeEntry_spec lower keeps first isShared table own has
      have keeps₁ : Keeps old h₁ := fun t below => (frame t (by omega)).trans (keeps t below)
      have own₁ : ∀ e ∈ o, (mixed e.1 || e.1 == k) = false := by
        intro e mem
        have other : e.1 ≠ k := fun same => distinct.1 (List.mem_map.2 ⟨e, mem, same⟩)
        rw [restOwn e mem, Bool.false_or, beq_false_of_ne other]
      obtain ⟨h', done', frame', has'⟩ := ih keeps₁ rest restShared distinct.2 tables own₁ has₁
      rw [merge_cons]
      exact ⟨h', by rw [List.foldlM_cons, done]; exact done', fun t outside =>
        (frame' t outside).trans (frame t outside), has'⟩

/-- **Putting one table into another one gives the merged table**, and no table changes but those that were the other
one's own. -/
theorem mergeTable_spec (closed : ∀ a cell e, shared (.table a) → old[a]? = some cell → e ∈ cell → shared e.2)
    (keyed : (Data.obj o).Keyed) {depth : Nat} (deep : tableDepth (.obj o) ≤ depth) :
    Puts old shared (mergeTable depth) o := by
  induction o, keyed using byTables generalizing depth with
  | step o keyed ih =>
    intro h base above lo hi b lower keeps owns stands isShared
    rw [tableDepth] at deep
    obtain _ | depth := depth
    · omega
    obtain ⟨_, cell, ⟨⟩, there, entries⟩ := stands_obj_iff.1 stands
    obtain ⟨le, ⟨⟨⟩, -⟩ | ⟨_, cell', ⟨⟩, low, high, there', entries'⟩⟩ := owns_obj_iff.1 owns
    have distinct := (Data.keyed_obj_iff.1 keyed).1
    have tables : ∀ e ∈ o, ∀ inner, e.2 = .obj inner → Puts old shared (mergeTable depth) inner := by
      intro e mem inner same
      have found := Data.find?_of_mem distinct mem
      have less := tableDepth_le mem
      rw [same] at found less
      exact @ih e.1 inner found depth (less.trans (Nat.le_of_succ_le_succ deep))
    have has : Has old shared h (fun _ => false) lo base b := ⟨cell', there', entries'⟩
    obtain ⟨h', done, frame, cell'', there'', entries''⟩ := foldlM_mergeEntry lower keeps entries
      (fun e mem => closed above cell e isShared there mem) distinct tables (fun _ _ => rfl) has
    refine ⟨h', ?_, fun t outside => frame t (by omega), owns_obj_iff.2 ⟨le, .inr ⟨base, cell'', rfl, low, high,
      there'', entries''⟩⟩⟩
    have stays : h[above]? = some cell := (keeps above (stands.lt_length (.here above))).trans there
    rw [mergeTable, stays]
    exact done

end Changing

/-! ### What a merged copy has -/

/-- **A merged copy** is the merged table; nothing that there was has changed, and every table of the copy is new or
one of the table that was put over it. -/
theorem merged_apart {base above : Nat} {b o : List (String × Data)} (keyed : (Data.obj o).Keyed)
    (stands : Stands h (.table base) (.obj b)) (stands' : Stands h (.table above) (.obj o)) {depth : Nat}
    (deep : tableDepth (.obj b) ≤ depth) (deep' : tableDepth (.obj o) ≤ depth) :
    ∃ m h', mergeCopy depth h base above = some (m, h') ∧ Keeps h h' ∧ Stands h' (.table m) (.obj (merge o b)) ∧
      ∀ t, Reaches h' (.table m) t → h.length ≤ t ∨ Reaches h (.table above) t := by
  obtain ⟨c, h₁, copied, new⟩ := copyTable_spec h (fun y => ∀ t, Reaches h y t → Reaches h (.table above) t) deep stands
  obtain ⟨h', done, frame, owns⟩ := mergeTable_spec
    (fun a cell e isShared (there : h[a]? = some cell) mem t reaches => isShared t (.further there mem reaches)) keyed
    deep' (Nat.le_refl _) new.keeps new.owns stands' (fun _ => id)
  have keeps : Keeps h h' := fun t below => (frame t (by omega)).trans (new.keeps t below)
  refine ⟨c, h', by simp [mergeCopy, copied, done], keeps, owns.stands keeps, fun t reaches => ?_⟩
  rcases owns.reaches keeps reaches with inside | ⟨y, isShared, reaches⟩
  · exact .inl inside.1
  · exact .inr (isShared t reaches)

/-! ### The defaults, whatever is done with settings -/

/-- The tables of the defaults, alone. -/
def defaultTables : Heap :=
  [[("command", .value (.str "nvim")), ("poll_interval", .value (.float 0.05))],
    [("timeout", .value (.float 1.0)), ("cleanup", .value (.bool false))],
    [("tab_size", .value (.int 4)), ("insert_spaces", .value (.bool true))], [("level", .value (.str "warning"))],
    [("editor", .table 0), ("defaults", .table 1), ("formatting", .table 2), ("log", .table 3)]]

theorem stands_defaultTables : Stands defaultTables (.table 4) (.obj defaults) :=
  ⟨4, _, rfl, rfl, rfl, ⟨0, _, rfl, rfl, rfl, rfl, rfl, rfl, trivial⟩, rfl,
    ⟨1, _, rfl, rfl, rfl, rfl, rfl, rfl, trivial⟩, rfl, ⟨2, _, rfl, rfl, rfl, rfl, rfl, rfl, trivial⟩, rfl,
    ⟨3, _, rfl, rfl, rfl, rfl, trivial⟩, trivial⟩

/-- What callers do with the tables they hold: they load settings, with a file or without one, they make tables, and
they look into those they hold and change them. -/
inductive Act (defaults : Nat) : Heap × List Item → Heap × List Item → Prop
  | load {h h' held m depth} (deep : tableDepth (.obj Config.defaults) ≤ depth)
      (made : copyTable depth h defaults = some (m, h')) : Act defaults (h, held) (h', .table m :: held)
  | loadFile {h h' held m depth read es} (deep : tableDepth (.obj Config.defaults) ≤ depth)
      (deep' : tableDepth (.obj es) ≤ depth) (mem : .table read ∈ held) (keyed : (Data.obj es).Keyed)
      (stands : Stands h (.table read) (.obj es)) (made : mergeCopy depth h defaults read = some (m, h')) :
      Act defaults (h, held) (h', .table m :: held)
  | make {h held cell} (own : ∀ k a, (k, .table a) ∈ cell → .table a ∈ held) :
      Act defaults (h, held) (h ++ [cell], .table h.length :: held)
  | look {h held a cell e} (mem : .table a ∈ held) (there : h[a]? = some cell) (mem' : e ∈ cell) :
      Act defaults (h, held) (h, e.2 :: held)
  | change {h held a cell} (mem : .table a ∈ held) (own : ∀ k a, (k, .table a) ∈ cell → .table a ∈ held) :
      Act defaults (h, held) (h.set a cell, held)

/-- One thing after another. -/
inductive Acts (defaults : Nat) : Heap × List Item → Heap × List Item → Prop
  | none (s) : Acts defaults s s
  | more {s s' s''} (before : Acts defaults s s') (act : Act defaults s' s'') : Acts defaults s s''

/-- The item reaches no table of the defaults. -/
def Apart (defaults : Nat) (h : Heap) (x : Item) : Prop :=
  ∀ t, Reaches h x t → t < h.length ∧ ¬ Reaches h (.table defaults) t

/-- The defaults are what they are, and no caller holds a table of theirs. -/
structure Untouched (defaults : Nat) (s : Heap × List Item) : Prop where
  stands : Stands s.1 (.table defaults) (.obj Config.defaults)
  apart : ∀ x ∈ s.2, Apart defaults s.1 x

section Untouched

variable {defaults : Nat} {held : List Item}

theorem apart_value (d : Data) : Apart defaults h (.value d) := fun _ => nofun

theorem Apart.below {a : Nat} {cell : Cell} {e : String × Item} (apart : Apart defaults h (.table a))
    (there : h[a]? = some cell) (mem : e ∈ cell) : Apart defaults h e.2 := fun t reaches =>
  apart t (.further there mem reaches)

theorem Apart.keep (apart : Apart defaults h x) {d : Data} (stands : Stands h (.table defaults) d)
    (keeps : Keeps h h') : Apart defaults h' x := fun t reaches =>
  have own := apart t (reaches.of_keeps (fun s below => (apart s below).1) keeps)
  ⟨own.1.trans_le keeps.le, fun fromDefaults => own.2 (fromDefaults.of_keeps (fun _ => stands.lt_length) keeps)⟩

/-- A caller may hold a new item as well, if that reaches new tables and such that are apart. -/
theorem Untouched.add (safe : Untouched defaults (h, held)) (keeps : Keeps h h')
    (new : ∀ t, Reaches h' x t → t < h'.length ∧ (h.length ≤ t ∨ ¬ Reaches h (.table defaults) t)) :
    Untouched defaults (h', x :: held) := by
  refine ⟨safe.stands.keep keeps, List.forall_mem_cons.2 ⟨fun t reaches => ⟨(new t reaches).1, fun fromDefaults => ?_⟩,
    fun y mem => (safe.apart y mem).keep safe.stands keeps⟩⟩
  have old := fromDefaults.of_keeps (fun _ => safe.stands.lt_length) keeps
  rcases (new t reaches).2 with later | other
  · exact absurd (safe.stands.lt_length old) (Nat.not_lt.2 later)
  · exact other old

theorem apart_of_own {cell : Cell} (safe : Untouched defaults (h, held))
    (own : ∀ k a, (k, .table a) ∈ cell → .table a ∈ held) {e : String × Item} (mem : e ∈ cell) :
    Apart defaults h e.2 := by
  obtain ⟨k, x⟩ := e
  cases x with
  | table a => exact safe.apart _ (own k a mem)
  | value d => exact apart_value d

/-- **Nothing that a caller does touches the defaults.** -/
theorem Untouched.act {s s' : Heap × List Item} (safe : Untouched defaults s) (act : Act defaults s s') :
    Untouched defaults s' := by
  cases act with
  | @load h h' held m depth deep made =>
    obtain ⟨c, h₁, copied, new⟩ := copyTable_spec h (fun _ => False) deep safe.stands
    obtain ⟨rfl, rfl⟩ := Prod.mk.inj (Option.some.inj (made.symm.trans copied))
    refine safe.add new.keeps fun t reaches => ?_
    rcases new.owns.reaches new.keeps reaches with ⟨low, high⟩ | ⟨_, ⟨⟩, _⟩
    exact ⟨high, .inl low⟩
  | @loadFile h h' held m depth read es deep deep' mem keyed stands made =>
    obtain ⟨c, h₁, merged, keeps, stands', new⟩ := merged_apart keyed safe.stands stands deep deep'
    obtain ⟨rfl, rfl⟩ := Prod.mk.inj (Option.some.inj (made.symm.trans merged))
    refine safe.add keeps fun t reaches => ⟨stands'.lt_length reaches, ?_⟩
    exact (new t reaches).imp_right fun fromRead => (safe.apart _ mem t fromRead).2
  | @make h held cell own =>
    have keeps := Keeps.append h cell
    refine safe.add keeps fun t reaches => ?_
    cases reaches with
    | here => exact ⟨by simp, .inl (Nat.le_refl _)⟩
    | further there mem rest =>
      rw [List.getElem?_concat_length, Option.some.injEq] at there
      have apart := apart_of_own safe own (there ▸ mem)
      have old := apart t (rest.of_keeps (fun s below => (apart s below).1) keeps)
      exact ⟨old.1.trans_le keeps.le, .inr old.2⟩
  | @look h held a cell e mem there mem' =>
    exact safe.add (fun _ _ => rfl) fun t reaches =>
      ((safe.apart _ mem).below there mem' t reaches).imp_right .inr
  | @change h held a cell mem own =>
    have other : ∀ t, Reaches h (.table defaults) t → (h.set a cell)[t]? = h[t]? := fun t reaches =>
      List.getElem?_set_ne fun same => (safe.apart _ mem a (.here a)).2 (by rwa [same])
    refine ⟨safe.stands.frame other, fun x mem t reaches => ?_⟩
    have apart := safe.apart x mem
    have old : t < h.length ∧ ¬ Reaches h (.table defaults) t := by
      clear mem
      induction reaches with
      | here b => exact apart b (.here b)
      | @further b t cell' e there mem _ ih =>
        refine ih ?_
        by_cases same : a = b
        · subst same
          rw [List.getElem?_set_self (apart a (.here a)).1, Option.some.injEq] at there
          exact apart_of_own safe own (there ▸ mem)
        · rw [List.getElem?_set_ne same] at there
          exact apart.below there mem
    exact ⟨by simpa using old.1, fun reaches => old.2 (reaches.frame other)⟩

/-- **The defaults never change**, whatever is loaded, and whatever callers do with what they have loaded. -/
theorem defaults_stand {s s' : Heap × List Item} (safe : Untouched defaults s) (acts : Acts defaults s s') :
    Untouched defaults s' := by
  induction acts with
  | none => exact safe
  | more _ act ih => exact ih.act act

end Untouched

end ServerTrial.Config
