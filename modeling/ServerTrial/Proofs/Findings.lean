import ServerTrial.Proofs.SameData

/-!
# Where two values differ

* `Difference.Finds`: what there is to find at a place of two values, going down through equal keys and indices;
* `Difference.Finds.unique`: one thing is found at a place;
* `Difference.byKeyedSides`: induction along these places, where objects have each key once;
* `Difference.agree_iff_sameAt`: two values are equal when only equal leaves are found in them.
-/

namespace ServerTrial

namespace Difference

/-! ### Findings -/

/-- A place in a value: the keys and indices that lead there, from outside in. -/
abbrev Place := List Step

/-- What is found at a place, with what stands there. -/
inductive Finding where
  | equal (value : Data)
  | differing (expected actual : Data)
  | missing (expected : Data)
  | extra (actual : Data)

def Finding.isEqual : Finding → Bool
  | .equal _ => true
  | _ => false

/-- Are both sides objects, or both arrays? -/
def goesDown : Data → Data → Bool
  | .obj _, .obj _ => true
  | .arr _, .arr _ => true
  | _, _ => false

/-- Induction over two sides: both are arrays, both objects, or none is gone down into. -/
@[elab_as_elim]
theorem bySides {P : Data → Option Data → Prop}
    (arr : ∀ xs ys, (∀ x ∈ xs, ∀ a, P x a) → P (.arr xs) (some (.arr ys)))
    (obj : ∀ es fs, (∀ e ∈ es, ∀ a, P e.2 a) → P (.obj es) (some (.obj fs)))
    (leaf : ∀ e a, (∀ x ∈ a, goesDown e x = false) → P e a) (e : Data) (a : Option Data) : P e a := by
  induction e using Data.byParts generalizing a with
  | arr xs ih =>
    match a with
    | some (.arr ys) => exact arr xs ys ih
    | none => exact leaf _ _ nofun
    | some .null | some (.bool _) | some (.int _) | some (.float _) | some (.str _) | some (.moment _)
    | some (.obj _) => exact leaf _ _ fun x hx => by cases hx; rfl
  | obj es ih =>
    match a with
    | some (.obj fs) => exact obj es fs ih
    | none => exact leaf _ _ nofun
    | some .null | some (.bool _) | some (.int _) | some (.float _) | some (.str _) | some (.moment _)
    | some (.arr _) => exact leaf _ _ fun x hx => by cases hx; rfl
  | flat e flat =>
    refine leaf e a fun x _ => ?_
    cases e with
    | arr => cases flat
    | obj => cases flat
    | _ => rfl

/-- Induction over two sides whose objects have each key once: what stands at an index or key is taken with what stands
there on the other side. -/
@[elab_as_elim]
theorem byKeyedSides {P : Data → Option Data → Prop}
    (arr : ∀ xs ys, (∀ i : Nat, ∀ x ∈ xs[i]?, P x ys[i]?) → P (.arr xs) (some (.arr ys)))
    (obj : ∀ es fs, (es.map Prod.fst).Nodup → (fs.map Prod.fst).Nodup →
      (∀ k, ∀ x ∈ Data.find? k es, P x (Data.find? k fs)) → P (.obj es) (some (.obj fs)))
    (leaf : ∀ e a, (∀ x ∈ a, goesDown e x = false) → P e a) (e : Data) (a : Option Data) (he : e.Keyed)
    (ha : ∀ y ∈ a, y.Keyed) : P e a := by
  induction e, a using bySides with
  | arr xs ys ih =>
    have hy := Data.keyed_arr_iff.1 (ha _ rfl)
    rw [Data.keyed_arr_iff] at he
    refine arr xs ys fun i x there => ?_
    have inside := List.mem_of_getElem? there
    exact ih x inside ys[i]? (he x inside) fun y there => hy y (List.mem_of_getElem? there)
  | obj es fs ih =>
    have hf := Data.keyed_obj_iff.1 (ha _ rfl)
    rw [Data.keyed_obj_iff] at he
    refine obj es fs he.1 hf.1 fun k x there => ?_
    have inside := Check.mem_of_find? there
    exact ih (k, x) inside (Data.find? k fs) (he.2 (k, x) inside) fun y there => hf.2 (k, y) (Check.mem_of_find? there)
  | leaf e a flat => exact leaf e a flat

/-- What is found in two values, of which one may be lacking. -/
inductive Finds : Option Data → Option Data → Place → Finding → Prop
  | missing (e) : Finds (some e) none [] (.missing e)
  | extra (a) : Finds none (some a) [] (.extra a)
  | equal {e a} : goesDown e a = false → e.same a = true → Finds (some e) (some a) [] (.equal e)
  | differing {e a} : goesDown e a = false → e.same a = false → Finds (some e) (some a) [] (.differing e a)
  | key {es fs p f} (k : String) : Finds (Data.find? k es) (Data.find? k fs) p f →
      Finds (some (.obj es)) (some (.obj fs)) (.key k :: p) f
  | index {xs ys p f} (i : Nat) : Finds xs[i]? ys[i]? p f →
      Finds (some (.arr xs)) (some (.arr ys)) (.index i :: p) f

/-- What is found at a leaf of the expected side. -/
def leafFinding (e : Data) : Option Data → Finding
  | none => .missing e
  | some a => if e.same a then .equal e else .differing e a

section Finds

variable {p : Place} {f : Finding}

theorem finds_none_left {a : Option Data} : Finds none a p f ↔ ∃ x, a = some x ∧ p = [] ∧ f = .extra x := by
  constructor
  · rintro ⟨⟩
    exact ⟨_, rfl, rfl, rfl⟩
  · rintro ⟨x, rfl, rfl, rfl⟩
    exact .extra x

theorem finds_obj {es fs : List (String × Data)} : Finds (some (.obj es)) (some (.obj fs)) p f ↔
    ∃ k q, p = .key k :: q ∧ Finds (Data.find? k es) (Data.find? k fs) q f := by
  constructor
  · intro h
    cases h with
    | equal flat => cases flat
    | differing flat => cases flat
    | key k h => exact ⟨k, _, rfl, h⟩
  · rintro ⟨k, q, rfl, h⟩
    exact .key k h

theorem finds_arr {xs ys : List Data} : Finds (some (.arr xs)) (some (.arr ys)) p f ↔
    ∃ (i : Nat) (q : Place), p = .index i :: q ∧ Finds xs[i]? ys[i]? q f := by
  constructor
  · intro h
    cases h with
    | equal flat => cases flat
    | differing flat => cases flat
    | index i h => exact ⟨i, _, rfl, h⟩
  · rintro ⟨i, q, rfl, h⟩
    exact .index i h

theorem finds_leaf {e : Data} {a : Option Data} (flat : ∀ x ∈ a, goesDown e x = false) :
    Finds (some e) a p f ↔ p = [] ∧ f = leafFinding e a := by
  constructor
  · intro h
    cases h with
    | missing => exact ⟨rfl, rfl⟩
    | equal _ same => exact ⟨rfl, by rw [leafFinding, if_pos same]⟩
    | differing _ other => exact ⟨rfl, by rw [leafFinding, other, if_neg Bool.false_ne_true]⟩
    | key => cases flat _ rfl
    | index => cases flat _ rfl
  · rintro ⟨rfl, rfl⟩
    cases a with
    | none => exact .missing e
    | some a =>
      rw [leafFinding]
      split
      · next same => exact .equal (flat a rfl) same
      · next other => exact .differing (flat a rfl) (Bool.eq_false_iff.2 other)

/-- One thing is found at a place. -/
theorem Finds.unique {e a : Option Data} {g : Finding} (h : Finds e a p f) (h' : Finds e a p g) : f = g := by
  have leaf : ∀ {e a f g}, (∀ x ∈ a, goesDown e x = false) → Finds (some e) a [] f → Finds (some e) a [] g → f = g :=
    fun flat h h' => ((finds_leaf flat).1 h).2.trans ((finds_leaf flat).1 h').2.symm
  induction h with
  | missing e => exact leaf (fun _ hx => by cases hx) (.missing e) h'
  | extra a =>
    obtain ⟨x, same, -, rfl⟩ := finds_none_left.1 h'
    rw [Option.some.inj same]
  | equal flat same => exact leaf (fun x hx => by cases hx; exact flat) (.equal flat same) h'
  | differing flat other => exact leaf (fun x hx => by cases hx; exact flat) (.differing flat other) h'
  | key k _ ih =>
    obtain ⟨_, _, same, h'⟩ := finds_obj.1 h'
    cases same
    exact ih h'
  | index i _ ih =>
    obtain ⟨j, q, same, h'⟩ := finds_arr.1 h'
    obtain ⟨index, rfl⟩ := List.cons.inj same
    obtain rfl : i = j := Int.ofNat.inj (Step.index.inj index)
    exact ih h'

end Finds

/-! ### Equality and findings -/

/-- Only equal leaves are found. -/
def Agree (e a : Option Data) : Prop := ∀ p f, Finds e a p f → f.isEqual = true

theorem agree_iff_of_leaf {e : Data} {a : Option Data} (flat : ∀ x ∈ a, goesDown e x = false) :
    Agree (some e) a ↔ Data.SameAt (some e) a := by
  have own : Agree (some e) a ↔ (leafFinding e a).isEqual = true := by
    constructor
    · exact fun h => h [] _ ((finds_leaf flat).2 ⟨rfl, rfl⟩)
    · intro equal p f h
      rw [((finds_leaf flat).1 h).2]
      exact equal
  rw [own]
  cases a with
  | none => exact iff_of_false nofun nofun
  | some a =>
    rw [Data.sameAt_some, leafFinding]
    cases e.same a <;> simp [Finding.isEqual]

/-- Where an expected value is lacking, nothing may stand. -/
theorem agree_iff_sameAt_of {e a : Option Data} (parts : ∀ x ∈ e, Agree (some x) a ↔ Data.SameAt (some x) a) :
    Agree e a ↔ Data.SameAt e a := by
  cases e with
  | some x => exact parts x rfl
  | none =>
    cases a with
    | none => exact iff_of_true (fun p f h => by cases h) .none
    | some y => exact iff_of_false (fun h => by cases h [] _ (.extra y)) nofun

/-- **Two values are equal when only equal leaves are found in them.** -/
theorem agree_iff_sameAt (e : Data) (a : Option Data) (he : e.Keyed) (ha : ∀ y ∈ a, y.Keyed) :
    Agree (some e) a ↔ Data.SameAt (some e) a := by
  refine byKeyedSides ?arr ?obj ?leaf e a he ha
  case arr =>
    intro xs ys ih
    rw [Data.sameAt_some, Data.same_arr_iff, ← forall_congr' fun i => agree_iff_sameAt_of (ih i)]
    constructor
    · exact fun h i p f found => h _ f (.index i found)
    · intro h p f found
      obtain ⟨i, q, rfl, inside⟩ := finds_arr.1 found
      exact h i q f inside
  case obj =>
    intro es fs distinct distinct' ih
    rw [Data.sameAt_some, Data.same_obj_iff distinct distinct', ← forall_congr' fun k => agree_iff_sameAt_of (ih k)]
    constructor
    · exact fun h k p f found => h _ f (.key k found)
    · intro h p f found
      obtain ⟨k, q, rfl, inside⟩ := finds_obj.1 found
      exact h k q f inside
  case leaf => exact fun e a flat => agree_iff_of_leaf flat

end Difference

end ServerTrial
