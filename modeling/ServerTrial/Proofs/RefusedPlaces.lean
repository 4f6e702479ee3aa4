import ServerTrial.Proofs.Refusals

/-!
# Empty containers that are refused

* `Refuses s d p`: an empty container at the place `p` of the data is refused;
* `Ambiguous s d`: an object that is checked against a union has a property with the name of one of the branches.  The
  places of refusals name branches as well, so that such a property leads astray;
* `refuses_iff_of_isFull`, `refuses_head_iff`: what is refused within a container, if none is ambiguous, is refused
  within its parts;
* `refuses_iff_of_empty`: an empty container that is not taken is refused where it stands.
-/

namespace ServerTrial

open Check

/-! ### Places -/

namespace Data

theorem resolve?_cons {d x target : Data} {t : Step} {place : List Step} (there : d.step? t = some x) :
    d.resolve? (t :: place) target = (x.resolve? place target).map (t :: ·) := by
  simp only [resolve?, walk, there]
  split <;> rfl

/-- A step that leads nowhere is passed over. -/
theorem resolve?_skip {d target : Data} {t : Step} {place : List Step} (nowhere : d.step? t = none) :
    d.resolve? (t :: place) target = d.resolve? place target := by
  simp only [resolve?, walk, nowhere]

theorem isEmptyContainer_cases {d : Data} (h : d.isEmptyContainer = true) : d = .arr [] ∨ d = .obj [] := by
  unfold isEmptyContainer at h
  split at h
  · exact .inl rfl
  · exact .inr rfl
  · cases h

/-- An empty container stands where the walk to it ends. -/
theorem resolve?_eq_some_iff {d target : Data} {place path : List Step} (empty : target.isEmptyContainer = true) :
    d.resolve? place target = some path ↔ (d.walk place).1 = path ∧ d.at? path = some target := by
  constructor
  · intro h
    refine ⟨?_, at?_of_resolve? h empty⟩
    simp only [resolve?, Option.ite_none_right_eq_some, Option.some.injEq] at h
    exact h.2
  · rintro ⟨rfl, there⟩
    rw [at?_walk, Option.some.injEq] at there
    simp only [resolve?, there]
    rcases isEmptyContainer_cases empty with rfl | rfl <;> rfl

end Data

/-- An empty container at a place of the data is refused. -/
def Refuses (s : Shape) (d : Data) (p : List Step) : Prop :=
  ∃ r ∈ refusals (check d s), r.data.isEmptyContainer = true ∧ r.path? d = some p

/-- An object that is checked against a union has a property with the name of one of the branches: what is refused
within that branch is looked for under the property. -/
inductive Ambiguous : Shape → Data → Prop
  | here {m shapes es} : .model m ∈ shapes → m.name ∈ es.map Prod.fst → Ambiguous (.union shapes) (.obj es)
  | branch {s shapes d} : s ∈ shapes → Ambiguous s d → Ambiguous (.union shapes) d
  | inner {s d} : Ambiguous s d → Ambiguous (.optional s) d
  | part {d s t a x} : Part d s t a x → Ambiguous a x → Ambiguous s d

/-- Data without a property that has the name of a model are not ambiguous. -/
theorem not_ambiguous_of_keys {s : Shape} {d : Data} (h : d.All fun x => ∀ m : Model, x.get? m.name = none) :
    ¬ Ambiguous s d := by
  intro ambiguous
  induction ambiguous with
  | @here m shapes es _ there =>
    obtain ⟨x, found⟩ := Data.exists_find?_of_mem there
    cases ((Data.all_obj_iff.1 h).1 m).symm.trans found
  | branch _ _ ih => exact ih h
  | inner _ ih => exact ih h
  | part part _ ih =>
    rcases part.mem with ⟨xs, rfl, hx⟩ | ⟨es, k, rfl, hx⟩
    · exact ih ((Data.all_arr_iff.1 h).2 _ hx)
    · exact ih ((Data.all_obj_iff.1 h).2 _ hx)

namespace Shape

/-- The shapes that a shape which may be null or has branches stands for. -/
def heads : Shape → List Shape
  | .optional inner => heads inner
  | .union branches => branches
  | s => [s]

/-- May the shape be a branch of a union? -/
def isBranch : Shape → Bool
  | .optional _ | .union _ | .table _ => false
  | _ => true

/-- Is there a branch in each union, and are they no unions again? -/
def isFlat : Shape → Bool
  | .optional inner => isFlat inner
  | .union branches => !branches.isEmpty && branches.all isBranch
  | _ => true

theorem isHead_of_isBranch {s : Shape} (h : s.isBranch = true) : s.isHead = true := by
  cases s <;> first
    | rfl
    | cases h

theorem heads_of_isHead {s : Shape} (h : s.isHead = true) : s.heads = [s] := by
  cases s <;> first
    | rfl
    | cases h

/-- A shape is optional, a union, or a head. -/
theorem head_induction {motive : Shape → Prop} (optional : ∀ inner, motive inner → motive (.optional inner))
    (union : ∀ shapes, motive (.union shapes)) (head : ∀ s : Shape, s.isHead = true → motive s) (s : Shape) :
    motive s := by
  induction s using heads.induct with
  | case1 inner ih => exact optional inner ih
  | case2 shapes => exact union shapes
  | case3 s noOptional noUnion =>
    refine head s ?_
    unfold isHead
    split
    · exact absurd rfl (noOptional _)
    · exact absurd rfl (noUnion _)
    · rfl

theorem isHead_of_mem_heads {s h : Shape} (flat : s.isFlat = true) (hh : h ∈ s.heads) : h.isHead = true := by
  induction s using head_induction with
  | optional inner ih => exact ih flat hh
  | union shapes => exact isHead_of_isBranch (List.all_eq_true.1 (Bool.and_eq_true_iff.1 flat).2 h hh)
  | head s head =>
    rw [heads_of_isHead head, List.mem_singleton] at hh
    rwa [hh]

theorem takes_optional {d : Data} (some : d ≠ .null) (inner : Shape) : (optional inner).takes d = inner.takes d := by
  rw [takes, check_optional some, takes]

/-- What is not null is taken by one of the heads. -/
theorem takes_iff_heads {d : Data} {s : Shape} (some : d ≠ .null) :
    s.takes d = true ↔ ∃ h ∈ s.heads, h.takes d = true := by
  induction s using head_induction with
  | optional inner ih => rw [takes_optional some, ih, heads]
  | union shapes => exact takes_union
  | head s head => simp [heads_of_isHead head]

end Shape

theorem Ambiguous.of_head {s h : Shape} {d : Data} (hh : h ∈ s.heads) (ambiguous : Ambiguous h d) : Ambiguous s d := by
  induction s using Shape.head_induction with
  | optional inner ih => exact .inner (ih hh)
  | union shapes => exact .branch hh ambiguous
  | head s head =>
    rw [Shape.heads_of_isHead head, List.mem_singleton] at hh
    exact hh ▸ ambiguous

/-! ### What is refused within data -/

theorem Refuses.takes_eq_false {s : Shape} {d : Data} {p : List Step} (h : Refuses s d p) : s.takes d = false := by
  obtain ⟨r, hr, -⟩ := h
  cases taken : s.takes d with
  | false => rfl
  | true =>
    rw [refusals_of_isOk taken] at hr
    cases hr

/-- A place that is refused is that of an empty container. -/
theorem Refuses.at? {s : Shape} {d : Data} {p : List Step} (h : Refuses s d p) :
    ∃ c, d.at? p = some c ∧ c.isEmptyContainer = true := by
  obtain ⟨r, -, empty, path⟩ := h
  exact ⟨r.data, Data.at?_of_resolve? path empty, empty⟩

theorem refuses_optional {d : Data} {inner : Shape} {p : List Step} (some : d ≠ .null) :
    Refuses (.optional inner) d p ↔ Refuses inner d p := by
  rw [Refuses, check_optional some, Refuses]

section Full

variable {d : Data} {s h : Shape} {p : List Step}

theorem Data.ne_null_of_isFull (full : d.isFull = true) : d ≠ .null := by
  rintro rfl
  cases full

/-- What a head refuses within a container it refuses within a part. -/
theorem refuses_head_iff (full : d.isFull = true) (readable : d.Readable) (head : h.isHead = true) :
    Refuses h d p ↔ ∃ t a x q, p = t :: q ∧ Part d h t a x ∧ Refuses a x q := by
  constructor
  · rintro ⟨r, hr, empty, path⟩
    obtain ⟨t, a, x, part, q, hq, rfl⟩ := (mem_refusals_iff full head empty).1 hr
    have below : (x.resolve? q.place q.data).map (t :: ·) = some p :=
      (Data.resolve?_cons (part.step? readable)).symm.trans path
    obtain ⟨p', path', rfl⟩ := Option.map_eq_some_iff.1 below
    exact ⟨t, a, x, p', rfl, part, q, hq, empty, path'⟩
  · rintro ⟨t, a, x, q, rfl, part, r, hr, empty, path⟩
    have above : (r.under t).path? d = some (t :: q) := by
      refine (Data.resolve?_cons (part.step? readable)).trans ?_
      exact congrArg (Option.map (t :: ·)) path
    have same : (r.under t).data.isEmptyContainer = true := empty
    exact ⟨r.under t, (mem_refusals_iff full head same).2 ⟨t, a, x, part, r, hr, rfl⟩, empty, above⟩

/-- The name of a branch that has parts of the data checked leads nowhere. -/
theorem step?_label {shapes : List Shape} (branch : h.isBranch = true) (hh : h ∈ shapes)
    (clear : ¬ Ambiguous (.union shapes) d) {t : Step} {a : Shape} {x : Data} (part : Part d h t a x) :
    d.step? (.key h.label) = none := by
  cases part with
  | entry => cases branch
  | field => exact Data.find?_eq_none fun there => clear (.here hh there)
  | _ => rfl

/-- A shape that refuses a container refuses within it what its heads refuse. -/
theorem refuses_iff_of_isFull (full : d.isFull = true) (flat : s.isFlat = true) (clear : ¬ Ambiguous s d) :
    Refuses s d p ↔ s.takes d = false ∧ ∃ h ∈ s.heads, Refuses h d p := by
  have some := d.ne_null_of_isFull full
  induction s using Shape.head_induction with
  | optional inner ih =>
    rw [refuses_optional some, Shape.takes_optional some]
    exact ih flat fun ambiguous => clear (.inner ambiguous)
  | head s head =>
    rw [Shape.heads_of_isHead head]
    exact ⟨fun h => ⟨h.takes_eq_false, s, List.mem_singleton_self s, h⟩,
      fun ⟨_, h, hh, refuses⟩ => List.mem_singleton.1 hh ▸ refuses⟩
  | union shapes =>
    have branches := List.all_eq_true.1 (Bool.and_eq_true_iff.1 flat).2
    -- the label of a branch is passed over on the way to what the branch refuses
    have skip {h : Shape} (hh : h ∈ shapes) {r : Refusal} (hr : r ∈ refusals (check d h))
        (empty : r.data.isEmptyContainer = true) : (r.under (.key h.label)).path? d = r.path? d := by
      obtain ⟨t, a, x, part, -⟩ := (mem_refusals_iff full (Shape.isHead_of_isBranch (branches h hh)) empty).1 hr
      exact Data.resolve?_skip (step?_label (branches h hh) hh clear part)
    constructor
    · rintro ⟨r, hr, empty, path⟩
      obtain ⟨refused, h, hh, q, hq, rfl⟩ := mem_refusals_union.1 hr
      exact ⟨refused, h, hh, q, hq, empty, (skip hh hq empty).symm.trans path⟩
    · rintro ⟨refused, h, hh, r, hr, empty, path⟩
      exact ⟨r.under (.key h.label), mem_refusals_union.2 ⟨refused, h, hh, r, hr, rfl⟩, empty,
        (skip hh hr empty).trans path⟩

end Full

section Empty

variable {c : Data} {s : Shape} {p : List Step}

theorem Data.step?_of_empty (empty : c.isEmptyContainer = true) (t : Step) : c.step? t = none := by
  rcases isEmptyContainer_cases empty with rfl | rfl <;> cases t <;> simp [step?, get?, find?]

theorem Data.walk_of_empty (empty : c.isEmptyContainer = true) : ∀ place : List Step, c.walk place = ([], c)
  | [] => rfl
  | t :: place => by
    rw [walk, step?_of_empty empty]
    exact walk_of_empty empty place

/-- A shape that does not take an empty container refuses it as such. -/
theorem exists_refusal_of_empty (empty : c.isEmptyContainer = true) (flat : s.isFlat = true)
    (refused : s.takes c = false) : ∃ r ∈ refusals (check c s), r.data = c := by
  have some : c ≠ .null := by
    rintro rfl
    cases empty
  have ofHead : ∀ h : Shape, h.isHead = true → h.takes c = false → ∃ r ∈ refusals (check c h), r.data = c := by
    intro h head refused
    cases opens : h.opens c with
    | false =>
      have narrow : h ≠ .any := by
        rintro rfl
        rw [Shape.takes, check_eq_node] at refused
        cases refused
      rw [check_eq_refuse (.inr empty) head opens narrow]
      exact ⟨_, List.mem_singleton_self _, rfl⟩
    | true =>
      rcases Shape.opens_cases opens with
        ⟨item, xs, rfl, rfl⟩ | ⟨a, b, xs, rfl, rfl⟩ | ⟨entry, es, rfl, rfl⟩ | ⟨m, es, rfl, rfl⟩
      all_goals rcases Data.isEmptyContainer_cases empty with same | same <;> cases same
      · rw [takes_list] at refused
        cases refused
      · rw [check_pair]
        exact ⟨_, List.mem_cons_self, rfl⟩
      · rw [takes_table] at refused
        cases refused
      · have missing : ∃ f ∈ m.fields, f.default = none := by
          by_contra all
          push Not at all
          have taken : (Shape.model m).takes (.obj []) = true :=
            takes_model.2 fun f hf =>
              ⟨by rintro _ ⟨⟩, fun _ => Option.isSome_iff_ne_none.2 (all f hf)⟩
          cases refused.symm.trans taken
        obtain ⟨f, hf, required⟩ := missing
        exact ⟨_, refusals_model ▸ mem_refusals_fields.2 ⟨f, hf, .inr ⟨rfl, required, rfl⟩⟩, rfl⟩
  induction s using Shape.head_induction with
  | optional inner ih =>
    rw [check_optional some]
    exact ih flat (Shape.takes_optional some inner ▸ refused)
  | head s head => exact ofHead s head refused
  | union shapes =>
    obtain ⟨present, branches⟩ := Bool.and_eq_true_iff.1 flat
    cases shapes with
    | nil => cases present
    | cons h shapes =>
      have own : h.takes c = false := by
        cases taken : h.takes c with
        | false => rfl
        | true => rw [takes_union.2 ⟨h, List.mem_cons_self, taken⟩] at refused; cases refused
      obtain ⟨r, hr, data⟩ :=
        ofHead h (Shape.isHead_of_isBranch (List.all_eq_true.1 branches h List.mem_cons_self)) own
      exact ⟨r.under (.key h.label), mem_refusals_union.2 ⟨refused, h, List.mem_cons_self, r, hr, rfl⟩, data⟩

/-- An empty container that a shape does not take is refused where it stands. -/
theorem refuses_iff_of_empty (empty : c.isEmptyContainer = true) (flat : s.isFlat = true) :
    Refuses s c p ↔ p = [] ∧ s.takes c = false := by
  constructor
  · intro h
    refine ⟨?_, h.takes_eq_false⟩
    obtain ⟨x, there, -⟩ := h.at?
    cases p with
    | nil => rfl
    | cons t p =>
      rw [Data.at?, Data.step?_of_empty empty] at there
      cases there
  · rintro ⟨rfl, refused⟩
    obtain ⟨r, hr, rfl⟩ := exists_refusal_of_empty empty flat refused
    exact ⟨r, hr, empty, (Data.resolve?_eq_some_iff empty).2 ⟨by rw [Data.walk_of_empty empty], rfl⟩⟩

end Empty

end ServerTrial
