import ServerTrial.Proofs.Recheck

/-!
# Where a check refuses data

* `Shape.takes s d`: the check succeeds; `Check.refusals`: what it refuses if it does not;
* `Part d s t a x`: the shape `s` has the part `x` of the data `d`, which stands at the step `t`, checked against `a`;
* `takes_iff`, `mem_refusals_iff`: containers are taken if they have the outline of the shape and all parts are taken,
  and what is refused within them is refused within a part;
* `takes_union`, `mem_refusals_union`: a union takes what one of its branches takes, and refuses what each of them
  refuses, under the label of the branch.
-/

namespace ServerTrial

/-- Does the check of the data succeed? -/
def Shape.takes (s : Shape) (d : Data) : Bool := (check d s).isOk

/-- A refusal within the part at a step. -/
def Refusal.under (t : Step) (r : Refusal) : Refusal := ⟨t :: r.place, r.data⟩

/-- An array or object with content. -/
def Data.isFull : Data → Bool
  | arr (_ :: _) => true
  | obj (_ :: _) => true
  | _ => false

namespace Check

/-! ### Refusals of gathered parts -/

/-- What is refused. -/
def refusals {α : Type} : Except (List Refusal) α → List Refusal
  | .ok _ => []
  | .error rs => rs

@[simp] theorem refusals_ok {α : Type} (x : α) : refusals (.ok x) = [] := rfl

@[simp] theorem refusals_error {α : Type} (rs : List Refusal) : refusals (.error rs : Except (List Refusal) α) = rs :=
  rfl

@[simp] theorem isOk_ok {ε α : Type} (x : α) : (Except.ok x : Except ε α).isOk = true := rfl

@[simp] theorem isOk_error {ε α : Type} (e : ε) : (Except.error e : Except ε α).isOk = false := rfl

section Gathering

variable {α : Type} {t : Step} {o : Outcome} {f : Value → α} {g : Gathered α} {r : Refusal}

theorem isOk_under : (under t o).isOk = o.isOk := by cases o <;> rfl

theorem refusals_under : refusals (under t o) = (refusals o).map (Refusal.under t) := by cases o <;> rfl

theorem isOk_join : (join f o g).isOk = (o.isOk && g.isOk) := by cases o <;> cases g <;> rfl

theorem refusals_join : refusals (join f o g) = refusals o ++ refusals g := by
  cases o <;> cases g <;> simp [join, refusals]

theorem isOk_gather {h : List α → Value} : (gather h g).isOk = g.isOk := by cases g <;> rfl

theorem refusals_gather {h : List α → Value} : refusals (gather h g) = refusals g := by cases g <;> rfl

theorem refusals_of_isOk (h : o.isOk = true) : refusals o = [] := by
  cases o with
  | ok m => rfl
  | error rs => cases h

end Gathering

theorem mem_refusals_under {t : Step} {o : Outcome} {r : Refusal} :
    r ∈ refusals (under t o) ↔ ∃ q ∈ refusals o, r = q.under t := by
  rw [refusals_under, List.mem_map]
  simp only [eq_comm]

theorem isOk_items {item : Shape} :
    ∀ {xs : List Data} {i : Nat}, (items item i (xs.map check)).isOk = xs.all item.takes
  | [], _ => rfl
  | x :: xs, i => by rw [List.map_cons, items, isOk_join, isOk_under, isOk_items, List.all_cons, Shape.takes]

theorem mem_refusals_items {item : Shape} {r : Refusal} : ∀ {xs : List Data} {i : Nat},
    r ∈ refusals (items item i (xs.map check)) ↔
      ∃ j x, xs[j]? = some x ∧ ∃ q ∈ refusals (check x item), r = q.under (.index ((i + j : Nat) : Int))
  | [], i => by simp [items, refusals]
  | x :: xs, i => by
    rw [List.map_cons, items, refusals_join, List.mem_append, mem_refusals_under, mem_refusals_items]
    constructor
    · rintro (head | ⟨j, y, there, q, hq, rfl⟩)
      · exact ⟨0, x, rfl, head⟩
      · exact ⟨j + 1, y, there, q, hq, by rw [Nat.add_right_comm, Nat.add_assoc]⟩
    · rintro ⟨j, y, there, q, hq, rfl⟩
      cases j with
      | zero =>
        cases there
        exact .inl ⟨q, hq, rfl⟩
      | succ j => exact .inr ⟨j, y, there, q, hq, by rw [Nat.add_right_comm, Nat.add_assoc]⟩

theorem isOk_entries {entry : Shape} :
    ∀ {es : List (String × Data)},
      (entries entry (es.map fun e => (e.1, check e.2))).isOk = es.all fun e => entry.takes e.2
  | [] => rfl
  | e :: es => by rw [List.map_cons, entries, isOk_join, isOk_under, isOk_entries, List.all_cons, Shape.takes]

theorem mem_refusals_entries {entry : Shape} {r : Refusal} : ∀ {es : List (String × Data)},
    r ∈ refusals (entries entry (es.map fun e => (e.1, check e.2))) ↔
      ∃ e ∈ es, ∃ q ∈ refusals (check e.2 entry), r = q.under (.key e.1)
  | [] => by simp [entries, refusals]
  | e :: es => by
    rw [List.map_cons, entries, refusals_join, List.mem_append, mem_refusals_under, mem_refusals_entries,
      List.exists_mem_cons_iff]

section Fields

variable {whole : Data} {es : List (String × Data)} {r : Refusal}

theorem isOk_fields : ∀ {fs : List Field}, (fields whole (es.map fun e => (e.1, check e.2)) fs).isOk = true ↔
    ∀ f ∈ fs, (∀ e, given? f.label es = some e → f.shape.takes e.2 = true) ∧
      (given? f.label es = none → f.default.isSome = true)
  | [] => by simp [fields]
  | f :: fs => by
    rw [fields, given?_map, List.forall_mem_cons, ← isOk_fields]
    cases given? f.label es with
    | some e => simp [isOk_join, isOk_under, Shape.takes]
    | none =>
      cases f.default with
      | some v => simp [isOk_join]
      | none => simp [isOk_join]

/-- A field is refused where it is given, or the record for want of it. -/
theorem mem_refusals_fields : ∀ {fs : List Field},
    r ∈ refusals (fields whole (es.map fun e => (e.1, check e.2)) fs) ↔
      ∃ f ∈ fs, (∃ e, given? f.label es = some e ∧ ∃ q ∈ refusals (check e.2 f.shape), r = q.under (.key e.1)) ∨
        given? f.label es = none ∧ f.default = none ∧ r = ⟨[.key f.label.key], whole⟩
  | [] => by simp [fields, refusals]
  | f :: fs => by
    rw [fields, given?_map, List.exists_mem_cons_iff, ← mem_refusals_fields]
    cases given? f.label es with
    | some e => simp [refusals_join, mem_refusals_under]
    | none =>
      cases f.default with
      | some v => simp [refusals_join]
      | none => simp [refusals_join]

end Fields

/-! ### Branches -/

/-- If no branch of a union succeeds, what each refuses is refused under its label. -/
theorem branches_refusals (d : Data) : ∀ shapes : List Shape,
    (∃ s ∈ shapes, s.takes d = true) ∧ (∃ m ms, branches d (partsOf d) shapes = .ok (m :: ms)) ∨
      (∀ s ∈ shapes, s.takes d = false) ∧ branches d (partsOf d) shapes =
        .error (shapes.flatMap fun s => (refusals (check d s)).map (Refusal.under (.key s.label)))
  | [] => .inr ⟨by simp, rfl⟩
  | s :: shapes => by
    rw [branches, ← check_eq_node, List.exists_mem_cons_iff, List.forall_mem_cons, Shape.takes]
    rcases branches_refusals d shapes with ⟨there, m, ms, hb⟩ | ⟨none, hb⟩
    · rw [hb]
      cases check d s with
      | ok m' => exact .inl ⟨.inr there, m', m :: ms, rfl⟩
      | error rs => exact .inl ⟨.inr there, m, ms, rfl⟩
    · rw [hb, List.flatMap_cons]
      cases check d s with
      | ok m' => exact .inl ⟨.inl rfl, m', [], rfl⟩
      | error rs => exact .inr ⟨⟨rfl, none⟩, rfl⟩

end Check

open Check

theorem takes_union {d : Data} {shapes : List Shape} :
    (Shape.union shapes).takes d = true ↔ ∃ s ∈ shapes, s.takes d = true := by
  rw [Shape.takes, check_eq_node, node]
  rcases branches_refusals d shapes with ⟨there, m, ms, hb⟩ | ⟨none, hb⟩
  · rw [hb]
    exact ⟨fun _ => there, fun _ => rfl⟩
  · rw [hb]
    refine ⟨fun h => (nomatch h), fun ⟨s, hs, taken⟩ => ?_⟩
    rw [none s hs] at taken
    cases taken

theorem mem_refusals_union {d : Data} {shapes : List Shape} {r : Refusal} :
    r ∈ refusals (check d (.union shapes)) ↔
      (Shape.union shapes).takes d = false ∧ ∃ s ∈ shapes, ∃ q ∈ refusals (check d s), r = q.under (.key s.label) := by
  cases taken : (Shape.union shapes).takes d with
  | true => simp [refusals_of_isOk taken]
  | false =>
    rw [Shape.takes, check_eq_node, node] at taken
    rw [congrFun (check_eq_node d) (.union shapes), node]
    rcases branches_refusals d shapes with ⟨-, m, ms, hb⟩ | ⟨none, hb⟩
    · rw [hb] at taken
      cases taken
    · rw [hb]
      simp [refusals, eq_comm]

/-! ### Parts -/

/-- The parts of data that a shape has checked, each with its step and the shape it is checked against. -/
inductive Part : Data → Shape → Step → Shape → Data → Prop
  | item {xs item i x} : xs[i]? = some x → Part (.arr xs) (.list item) (.index (i : Nat)) item x
  | single {x a b} : Part (.arr [x]) (.pair a b) (.index 0) a x
  | first {x y a b} : Part (.arr [x, y]) (.pair a b) (.index 0) a x
  | second {x y a b} : Part (.arr [x, y]) (.pair a b) (.index 1) b y
  | entry {es k x entry} : (k, x) ∈ es → Part (.obj es) (.table entry) (.key k) entry x
  | field {es m f k x} : f ∈ Model.fields m → given? f.label es = some (k, x) →
      Part (.obj es) (.model m) (.key k) f.shape x

/-- The shape takes data of this outline if it takes their parts. -/
inductive Outlines : Shape → Data → Prop
  | any (d) : Outlines .any d
  | list (item xs) : Outlines (.list item) (.arr xs)
  | pair (a b x y) : Outlines (.pair a b) (.arr [x, y])
  | table (entry es) : Outlines (.table entry) (.obj es)
  | model {m es} : (∀ f ∈ Model.fields m, given? f.label es = none → f.default.isSome = true) →
      Outlines (.model m) (.obj es)

namespace Shape

/-- Neither optional nor a union. -/
def isHead : Shape → Bool
  | .optional _ | .union _ => false
  | _ => true

/-- Does the check go on with parts of the data? -/
def opens : Shape → Data → Bool
  | .list _, .arr _ => true
  | .pair _ _, .arr _ => true
  | .table _, .obj _ => true
  | .model _, .obj _ => true
  | _, _ => false

theorem opens_cases {s : Shape} {d : Data} (h : s.opens d = true) :
    (∃ item xs, s = .list item ∧ d = .arr xs) ∨ (∃ a b xs, s = .pair a b ∧ d = .arr xs) ∨
      (∃ entry es, s = .table entry ∧ d = .obj es) ∨ ∃ m es, s = .model m ∧ d = .obj es := by
  unfold opens at h
  split at h
  · exact .inl ⟨_, _, rfl, rfl⟩
  · exact .inr (.inl ⟨_, _, _, rfl, rfl⟩)
  · exact .inr (.inr (.inl ⟨_, _, rfl, rfl⟩))
  · exact .inr (.inr (.inr ⟨_, _, rfl, rfl⟩))
  · cases h

end Shape

theorem Part.opens {d x : Data} {s a : Shape} {t : Step} (h : Part d s t a x) : s.opens d = true := by cases h <;> rfl

/-- A shape that does not open data refuses containers as a whole, unless it takes anything. -/
theorem check_eq_refuse {d : Data} {s : Shape} (container : d.isFull = true ∨ d.isEmptyContainer = true)
    (head : s.isHead = true) (closed : s.opens d = false) (narrow : s ≠ .any) : check d s = refuse d := by
  have container : (∃ xs, d = .arr xs) ∨ ∃ es, d = .obj es := by
    cases d with
    | arr xs => exact .inl ⟨xs, rfl⟩
    | obj es => exact .inr ⟨es, rfl⟩
    | _ => rcases container with no | no <;> cases no
  have stranger : ∀ e, member? e d = none := by
    intro e
    unfold member?
    rcases container with ⟨xs, rfl⟩ | ⟨es, rfl⟩ <;> split <;> rfl
  rw [check_eq_node]
  cases s with
  | member e => rw [node, stranger]
  | any => exact absurd rfl narrow
  | optional inner => cases head
  | union shapes => cases head
  | _ =>
    rcases container with ⟨xs, rfl⟩ | ⟨es, rfl⟩ <;> first
      | rfl
      | cases closed

/-! ### Shapes that open data -/

section Opening

variable {item entry a b : Shape} {m : Model} {xs : List Data} {es : List (String × Data)} {r : Refusal}

theorem takes_list : (Shape.list item).takes (.arr xs) = xs.all item.takes := by
  rw [Shape.takes, check_eq_node]
  exact isOk_gather.trans isOk_items

theorem mem_refusals_list : r ∈ refusals (check (.arr xs) (.list item)) ↔
    ∃ i x, xs[i]? = some x ∧ ∃ q ∈ refusals (check x item), r = q.under (.index (i : Nat)) := by
  have items : refusals (check (.arr xs) (.list item)) = refusals (items item 0 (xs.map check)) := by
    rw [check_eq_node]
    exact refusals_gather
  rw [items, mem_refusals_items]
  simp only [Nat.zero_add]

theorem takes_table : (Shape.table entry).takes (.obj es) = es.all fun e => entry.takes e.2 := by
  rw [Shape.takes, check_eq_node]
  exact isOk_gather.trans isOk_entries

theorem mem_refusals_table : r ∈ refusals (check (.obj es) (.table entry)) ↔
    ∃ e ∈ es, ∃ q ∈ refusals (check e.2 entry), r = q.under (.key e.1) := by
  have entries : refusals (check (.obj es) (.table entry)) =
      refusals (entries entry (es.map fun e => (e.1, check e.2))) := by
    rw [check_eq_node]
    exact refusals_gather
  rw [entries, mem_refusals_entries]

theorem check_pair : check (.arr xs) (.pair a b) = pair a b (.arr xs) (xs.map check) :=
  congrFun (check_eq_node _) _

theorem isOk_pair {whole : Data} {f g : Shape → Outcome} :
    (pair a b whole [f, g]).isOk = ((f a).isOk && (g b).isOk) := by
  rw [pair]
  cases f a <;> cases g b <;> rfl

theorem refusals_pair {whole : Data} {f g : Shape → Outcome} : refusals (pair a b whole [f, g]) =
    refusals (under (.index 0) (f a)) ++ refusals (under (.index 1) (g b)) := by
  rw [pair]
  cases f a <;> cases g b <;> simp [under]

/-- What is refused within a pair is refused within one of its parts, or it is the pair. -/
theorem mem_refusals_pair (narrow : r.data ≠ .arr xs) : r ∈ refusals (check (.arr xs) (.pair a b)) ↔
    ∃ t c x, Part (.arr xs) (.pair a b) t c x ∧ ∃ q ∈ refusals (check x c), r = q.under t := by
  rw [check_pair]
  match xs with
  | [] =>
    refine iff_of_false (fun hr => ?_) (by rintro ⟨_, _, _, part, -⟩; cases part)
    rcases List.mem_pair.1 hr with rfl | rfl <;> exact narrow rfl
  | [x] =>
    have missing : r ≠ ⟨[.index 1], .arr [x]⟩ := fun same => narrow (congrArg Refusal.data same)
    rw [List.map_cons, List.map_nil, pair, refusals_gather, refusals_join, List.mem_append, mem_refusals_under,
      refusals_error, List.mem_singleton, or_iff_left missing]
    constructor
    · exact fun refused => ⟨_, _, x, .single, refused⟩
    · rintro ⟨t, c, y, part, refused⟩
      cases part
      exact refused
  | [x, y] =>
    rw [List.map_cons, List.map_cons, List.map_nil, refusals_pair, List.mem_append, mem_refusals_under,
      mem_refusals_under]
    constructor
    · rintro (refused | refused)
      · exact ⟨_, _, x, .first, refused⟩
      · exact ⟨_, _, y, .second, refused⟩
    · rintro ⟨t, c, z, part, refused⟩
      cases part with
      | first => exact .inl refused
      | second => exact .inr refused
  | x :: y :: z :: rest =>
    refine iff_of_false (fun hr => ?_) (by rintro ⟨_, _, _, part, -⟩; cases part)
    exact narrow (congrArg Refusal.data (List.mem_singleton.1 hr))

theorem takes_pair : (Shape.pair a b).takes (.arr xs) = true ↔
    ∃ x y, xs = [x, y] ∧ a.takes x = true ∧ b.takes y = true := by
  rw [Shape.takes, check_pair]
  match xs with
  | [] => simp [pair]
  | [x] => simp [pair, isOk_gather, isOk_join]
  | [x, y] => simp [isOk_pair, Shape.takes]
  | x :: y :: z :: rest => simp [pair, refuse]

theorem check_model : check (.obj es) (.model m) = record m (.obj es) (es.map fun e => (e.1, check e.2)) :=
  congrFun (check_eq_node _) _

theorem takes_model : (Shape.model m).takes (.obj es) = true ↔
    ∀ f ∈ m.fields, (∀ e, given? f.label es = some e → f.shape.takes e.2 = true) ∧
      (given? f.label es = none → f.default.isSome = true) := by
  refine Iff.trans ?_ (isOk_fields : (fields (.obj es) (es.map fun e => (e.1, check e.2)) m.fields).isOk = true ↔ _)
  rw [Shape.takes, check_model, record]
  cases fields (.obj es) (es.map fun e => (e.1, check e.2)) m.fields <;> simp

theorem refusals_model : refusals (check (.obj es) (.model m)) =
    refusals (fields (.obj es) (es.map fun e => (e.1, check e.2)) m.fields) := by
  rw [check_model, record]
  cases fields (.obj es) (es.map fun e => (e.1, check e.2)) m.fields <;> simp

end Opening

/-! ### Containers and their parts -/

section Parts

variable {d : Data} {s : Shape}

theorem outlines_opens (h : Outlines s d) (narrow : s ≠ .any) : s.opens d = true := by
  cases h with
  | any => exact absurd rfl narrow
  | _ => rfl

/-- Containers are taken if they have the outline of the shape and their parts are taken. -/
theorem takes_iff (full : d.isFull = true) (head : s.isHead = true) :
    s.takes d = true ↔ Outlines s d ∧ ∀ t a x, Part d s t a x → a.takes x = true := by
  cases opens : s.opens d with
  | false =>
    by_cases wide : s = .any
    · subst wide
      refine iff_of_true ?_ ⟨.any d, fun t a x part => ?_⟩
      · rw [Shape.takes, check_eq_node]
        rfl
      · cases opens.symm.trans part.opens
    · rw [Shape.takes, check_eq_refuse (.inl full) head opens wide]
      exact iff_of_false Bool.false_ne_true fun h => nomatch opens.symm.trans (outlines_opens h.1 wide)
  | true =>
    rcases Shape.opens_cases opens with
      ⟨item, xs, rfl, rfl⟩ | ⟨a, b, xs, rfl, rfl⟩ | ⟨entry, es, rfl, rfl⟩ | ⟨m, es, rfl, rfl⟩
    · rw [takes_list, List.all_eq_true]
      constructor
      · refine fun all => ⟨.list item xs, fun t a x part => ?_⟩
        cases part with
        | item there => exact all x (List.mem_of_getElem? there)
      · rintro ⟨-, parts⟩ x hx
        obtain ⟨i, there⟩ := List.getElem?_of_mem hx
        exact parts _ _ x (.item there)
    · rw [takes_pair]
      constructor
      · rintro ⟨x, y, rfl, first, second⟩
        refine ⟨.pair a b x y, fun t a x part => ?_⟩
        cases part with
        | first => exact first
        | second => exact second
      · rintro ⟨outline, parts⟩
        cases outline with
        | pair _ _ x y => exact ⟨x, y, rfl, parts _ _ x .first, parts _ _ y .second⟩
    · rw [takes_table, List.all_eq_true]
      constructor
      · refine fun all => ⟨.table entry es, fun t a x part => ?_⟩
        cases part with
        | entry there => exact all _ there
      · rintro ⟨-, parts⟩ e he
        exact parts _ _ e.2 (.entry he)
    · rw [takes_model]
      constructor
      · refine fun all => ⟨.model fun f hf => (all f hf).2, fun t a x part => ?_⟩
        cases part with
        | field hf given => exact (all _ hf).1 _ given
      · rintro ⟨outline, parts⟩ f hf
        cases outline with
        | model present => exact ⟨fun e given => parts _ _ e.2 (.field hf given), present f hf⟩

/-- What is refused within a container is refused within a part. -/
theorem mem_refusals_iff {r : Refusal} (full : d.isFull = true) (head : s.isHead = true)
    (empty : r.data.isEmptyContainer = true) :
    r ∈ refusals (check d s) ↔
      ∃ t a x, Part d s t a x ∧ ∃ q ∈ refusals (check x a), r = q.under t := by
  have other : r.data ≠ d := by
    rintro rfl
    unfold Data.isEmptyContainer at empty
    split at empty <;> simp_all [Data.isFull]
  cases opens : s.opens d with
  | false =>
    refine iff_of_false (fun hr => ?_) fun ⟨t, a, x, part, _⟩ => nomatch opens.symm.trans part.opens
    by_cases wide : s = .any
    · subst wide
      rw [check_eq_node] at hr
      cases hr
    · rw [check_eq_refuse (.inl full) head opens wide] at hr
      exact other (congrArg Refusal.data (List.mem_singleton.1 hr))
  | true =>
    rcases Shape.opens_cases opens with
      ⟨item, xs, rfl, rfl⟩ | ⟨a, b, xs, rfl, rfl⟩ | ⟨entry, es, rfl, rfl⟩ | ⟨m, es, rfl, rfl⟩
    · rw [mem_refusals_list]
      constructor
      · rintro ⟨i, x, there, refused⟩
        exact ⟨_, _, x, .item there, refused⟩
      · rintro ⟨t, a, x, part, refused⟩
        cases part with
        | item there => exact ⟨_, x, there, refused⟩
    · exact mem_refusals_pair other
    · rw [mem_refusals_table]
      constructor
      · rintro ⟨e, he, refused⟩
        exact ⟨_, _, e.2, .entry he, refused⟩
      · rintro ⟨t, a, x, part, refused⟩
        cases part with
        | entry there => exact ⟨_, there, refused⟩
    · rw [refusals_model, mem_refusals_fields]
      constructor
      · rintro ⟨f, hf, ⟨e, given, refused⟩ | ⟨-, -, rfl⟩⟩
        · exact ⟨_, _, e.2, .field hf given, refused⟩
        · exact absurd rfl other
      · rintro ⟨t, a, x, part, refused⟩
        cases part with
        | field hf given => exact ⟨_, hf, .inl ⟨_, given, refused⟩⟩

end Parts

/-- In data with distinct keys a part stands at its step. -/
theorem Part.step? {d x : Data} {s a : Shape} {t : Step} (readable : d.Readable) (h : Part d s t a x) :
    d.step? t = some x := by
  cases h with
  | item there => simpa [Data.step?] using there
  | single => rfl
  | first => rfl
  | second => rfl
  | entry there => exact Data.find?_of_mem (Data.all_obj_iff.1 readable).1 there
  | field _ given => exact Data.find?_of_mem (Data.all_obj_iff.1 readable).1 (mem_of_given? given)

theorem Part.mem {d x : Data} {s a : Shape} {t : Step} (h : Part d s t a x) :
    (∃ xs, d = .arr xs ∧ x ∈ xs) ∨ ∃ es k, d = .obj es ∧ (k, x) ∈ es := by
  cases h with
  | item there => exact .inl ⟨_, rfl, List.mem_of_getElem? there⟩
  | single => exact .inl ⟨_, rfl, List.mem_singleton_self x⟩
  | first => exact .inl ⟨_, rfl, List.mem_cons_self⟩
  | second => exact .inl ⟨_, rfl, List.mem_cons_of_mem _ List.mem_cons_self⟩
  | entry there => exact .inr ⟨_, _, rfl, there⟩
  | field _ given => exact .inr ⟨_, _, rfl, mem_of_given? given⟩

theorem Part.readable {d x : Data} {s a : Shape} {t : Step} (readable : d.Readable) (h : Part d s t a x) :
    x.Readable := by
  rcases h.mem with ⟨xs, rfl, hx⟩ | ⟨es, k, rfl, hx⟩
  · exact (Data.all_arr_iff.1 readable).2 x hx
  · exact (Data.all_obj_iff.1 readable).2 _ hx

theorem Part.brackets_lt {d x : Data} {s a : Shape} {t : Step} (h : Part d s t a x) : x.brackets < d.brackets := by
  rcases h.mem with ⟨xs, rfl, hx⟩ | ⟨es, k, rfl, hx⟩
  · exact Nat.lt_succ_of_le (Data.bracketsOfItems_le.1 (Nat.le_refl _) x hx)
  · exact Nat.lt_succ_of_le (Data.bracketsOfEntries_le.1 (Nat.le_refl _) _ hx)

end ServerTrial
