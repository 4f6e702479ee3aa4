import Mathlib
import ServerTrial.Protocol.Check

/-!
# What a check yields

* `Checks d s v`: the check of the data `d` against the shape `s` may yield the value `v`; one rule for each kind of
  shape, without counts and exactness;
* `checks_of_check`: it yields no other values;
* `Fits s v`: the value `v` is one of the shape `s`, wherever it comes from; `Checks.fits`: a check yields values of its
  shape.
-/

namespace ServerTrial

/-! ### Two lists side by side -/

section Zip

variable {α β γ : Type}

theorem map_eq_map_of_zip {f : α → γ} {g : β → γ} :
    ∀ {xs : List α} {ys : List β}, xs.length = ys.length → (∀ p ∈ xs.zip ys, f p.1 = g p.2) → xs.map f = ys.map g
  | [], [], _, _ => rfl
  | x :: xs, y :: ys, length, parts => by
    rw [List.map_cons, List.map_cons, parts (x, y) List.mem_cons_self,
      map_eq_map_of_zip (Nat.succ.inj length) fun p hp => parts p (List.mem_cons_of_mem _ hp)]

theorem eq_of_mem_zip {f : α → γ} {g : β → γ} :
    ∀ {xs : List α} {ys : List β}, xs.map f = ys.map g → ∀ {p : α × β}, p ∈ xs.zip ys → f p.1 = g p.2
  | x :: xs, y :: ys, h, p, hp => by
    rw [List.map_cons, List.map_cons] at h
    obtain ⟨head, rest⟩ := List.cons.inj h
    rcases List.mem_cons.1 hp with rfl | hp
    · exact head
    · exact eq_of_mem_zip rest hp

theorem exists_mem_zip {y : β} :
    ∀ {xs : List α} {ys : List β}, xs.length = ys.length → y ∈ ys → ∃ x, (x, y) ∈ xs.zip ys
  | [], [], _, hy => absurd hy List.not_mem_nil
  | x :: xs, z :: ys, length, hy => by
    rcases List.mem_cons.1 hy with rfl | hy
    · exact ⟨x, List.mem_cons_self⟩
    · obtain ⟨x', hx'⟩ := exists_mem_zip (Nat.succ.inj length) hy
      exact ⟨x', List.mem_cons_of_mem _ hx'⟩

theorem exists_zip_mem {x : α} :
    ∀ {xs : List α} {ys : List β}, xs.length = ys.length → x ∈ xs → ∃ y, (x, y) ∈ xs.zip ys
  | [], [], _, hx => absurd hx List.not_mem_nil
  | z :: xs, y :: ys, length, hx => by
    rcases List.mem_cons.1 hx with rfl | hx
    · exact ⟨y, List.mem_cons_self⟩
    · obtain ⟨y', hy'⟩ := exists_zip_mem (Nat.succ.inj length) hx
      exact ⟨y', List.mem_cons_of_mem _ hy'⟩

theorem length_eq_of_map_eq {f : α → γ} {g : β → γ} {xs : List α} {ys : List β} (h : xs.map f = ys.map g) :
    xs.length = ys.length := by
  simpa using congrArg List.length h

theorem map_values_of_zip {f : β → β} {xs ys : List (α × β)} (keys : xs.map Prod.fst = ys.map Prod.fst)
    (values : ∀ p ∈ xs.zip ys, f p.2.2 = p.1.2) : ys.map (fun e => (e.1, f e.2)) = xs := by
  have entries : xs.map id = ys.map fun e => (e.1, f e.2) :=
    map_eq_map_of_zip (length_eq_of_map_eq keys) fun p hp => Prod.ext (eq_of_mem_zip keys hp) (values p hp).symm
  rw [← entries, List.map_id]

end Zip

/-! ### Checking as a relation -/

/-- The check of data against a shape may yield a value.  A field is checked where it is given, and has its default if
it is given nowhere. -/
inductive Checks : Data → Shape → Value → Prop
  | text (s : String) : Checks (.str s) .text (.plain (.str s))
  | whole {d n asGiven} : Scalar.whole? d = some (n, asGiven) → Checks d .whole (.plain (.int n))
  | real {d x asGiven} : Scalar.real? d = some (x, asGiven) → Checks d .real (.plain (.float x))
  | flag {d b asGiven} : Scalar.flag? d = some (b, asGiven) → Checks d .flag (.plain (.bool b))
  | any (d : Data) : Checks d .any (.free d)
  | word (w : String) : Checks (.str w) (.word w) (.plain (.str w))
  | member {d e name data} : Check.member? e d = some (name, data) → Checks d (.member e) (.member e name data)
  | model {m xs vs} : vs.map Prod.fst = m.fields.map Field.label →
      (∀ p ∈ m.fields.zip vs, ∀ k d, Check.given? p.1.label xs = some (k, d) → Checks d p.1.shape p.2.2) →
      (∀ p ∈ m.fields.zip vs, Check.given? p.1.label xs = none → p.1.default = some p.2.2) →
      Checks (.obj xs) (.model m) (.record m vs (Check.extras m (.obj xs)))
  | list {xs item vs} : xs.length = vs.length → (∀ p ∈ xs.zip vs, Checks p.1 item p.2) →
      Checks (.arr xs) (.list item) (.list vs)
  | pair {x y a b v w} : Checks x a v → Checks y b w → Checks (.arr [x, y]) (.pair a b) (.pair v w)
  | table {es entry vs} : es.map Prod.fst = vs.map Prod.fst → (∀ p ∈ es.zip vs, Checks p.1.2 entry p.2.2) →
      Checks (.obj es) (.table entry) (.table vs)
  | null (inner : Shape) : Checks .null (.optional inner) .null
  | given {d inner v} : d ≠ .null → Checks d inner v → Checks d (.optional inner) v
  | branch {d s shapes v} : s ∈ shapes → Checks d s v → Checks d (.union shapes) v

namespace Check

theorem checkItems_eq_map : ∀ xs : List Data, checkItems xs = xs.map check
  | [] => rfl
  | x :: xs => congrArg (check x :: ·) (checkItems_eq_map xs)

theorem checkEntries_eq_map : ∀ es : List (String × Data), checkEntries es = es.map fun e => (e.1, check e.2)
  | [] => rfl
  | (k, x) :: es => congrArg ((k, check x) :: ·) (checkEntries_eq_map es)

/-- The parts that the check of data leaves to be checked. -/
def partsOf : Data → Parts
  | .arr xs => .items (xs.map check)
  | .obj es => .entries (es.map fun e => (e.1, check e.2))
  | _ => .none

theorem check_eq_node (d : Data) : check d = node d (partsOf d) := by
  cases d with
  | arr xs => rw [check, checkItems_eq_map]; rfl
  | obj es => rw [check, checkEntries_eq_map]; rfl
  | _ => rw [check]; rfl

/-! ### Gathering -/

theorem under_eq_ok {s : Step} {o : Outcome} {m : Match} : under s o = .ok m ↔ o = .ok m := by
  cases o <;> simp [under]

theorem join_eq_ok {α : Type} {f : Value → α} {o : Outcome} {g : Gathered α} {r : List α × Option Nat × Exactness} :
    join f o g = .ok r ↔ ∃ m vs given exactness, o = .ok m ∧ g = .ok (vs, given, exactness) ∧
      r = (f m.value :: vs, Match.addGiven m.given given, m.exactness.min exactness) := by
  unfold join
  cases o with
  | error rs => cases g <;> simp
  | ok m =>
    cases g with
    | error rs => simp
    | ok r' =>
      obtain ⟨vs, given, exactness⟩ := r'
      constructor
      · intro h
        cases h
        exact ⟨m, vs, given, exactness, rfl, rfl, rfl⟩
      · rintro ⟨m', vs', given', exactness', ho, hg, rfl⟩
        cases ho
        cases hg
        rfl

/-- Items that are gathered are checked one by one. -/
theorem checks_of_items {item : Shape} {xs : List Data} {r : List Value × Option Nat × Exactness} {i : Nat}
    (ih : ∀ x ∈ xs, ∀ m, check x item = .ok m → Checks x item m.value) (h : items item i (xs.map check) = .ok r) :
    xs.length = r.1.length ∧ ∀ p ∈ xs.zip r.1, Checks p.1 item p.2 := by
  induction xs generalizing i r with
  | nil =>
    cases h
    exact ⟨rfl, by simp⟩
  | cons x xs step =>
    rw [List.map_cons, items] at h
    obtain ⟨m, vs, given, exactness, hm, hg, rfl⟩ := join_eq_ok.1 h
    obtain ⟨length, rest⟩ := step (fun y hy => ih y (List.mem_cons_of_mem x hy)) hg
    refine ⟨congrArg (· + 1) length, fun p hp => ?_⟩
    rcases List.mem_cons.1 hp with rfl | hp
    · exact ih x List.mem_cons_self m (under_eq_ok.1 hm)
    · exact rest p hp

theorem checks_of_entries {entry : Shape} {es : List (String × Data)}
    {r : List (String × Value) × Option Nat × Exactness}
    (ih : ∀ e ∈ es, ∀ m, check e.2 entry = .ok m → Checks e.2 entry m.value)
    (h : entries entry (es.map fun e => (e.1, check e.2)) = .ok r) :
    es.map Prod.fst = r.1.map Prod.fst ∧ ∀ p ∈ es.zip r.1, Checks p.1.2 entry p.2.2 := by
  induction es generalizing r with
  | nil =>
    cases h
    exact ⟨rfl, by simp⟩
  | cons e es step =>
    rw [List.map_cons, entries] at h
    obtain ⟨m, vs, given, exactness, hm, hg, rfl⟩ := join_eq_ok.1 h
    obtain ⟨keys, rest⟩ := step (fun y hy => ih y (List.mem_cons_of_mem e hy)) hg
    refine ⟨congrArg (e.1 :: ·) keys, fun p hp => ?_⟩
    rcases List.mem_cons.1 hp with rfl | hp
    · exact ih e List.mem_cons_self m (under_eq_ok.1 hm)
    · exact rest p hp

theorem find?_map {α β : Type} (f : α → β) (key : String) (es : List (String × α)) :
    Data.find? key (es.map fun e => (e.1, f e.2)) = (Data.find? key es).map f := by
  induction es with
  | nil => rfl
  | cons e es ih =>
    rw [List.map_cons, Data.find?, Data.find?, ih]
    split <;> rfl

theorem given?_map {α β : Type} (f : α → β) (l : Label) (es : List (String × α)) :
    given? l (es.map fun e => (e.1, f e.2)) = (given? l es).map fun e => (e.1, f e.2) := by
  unfold given?
  rw [find?_map, find?_map]
  cases Data.find? l.key es with
  | some x => rfl
  | none => cases Data.find? l.name es <;> rfl

theorem mem_of_find? {α : Type} {key : String} {x : α} :
    ∀ {es : List (String × α)}, Data.find? key es = some x → (key, x) ∈ es
  | (k, y) :: es, h => by
    rw [Data.find?] at h
    split at h
    · next same =>
      cases h
      rw [same]
      exact List.mem_cons_self
    · exact List.mem_cons_of_mem _ (mem_of_find? h)

theorem mem_of_given? {α : Type} {l : Label} {es : List (String × α)} {e : String × α} (h : given? l es = some e) :
    e ∈ es := by
  unfold given? at h
  split at h
  · next x hx =>
    cases h
    exact mem_of_find? hx
  · obtain ⟨x, hx, rfl⟩ := Option.map_eq_some_iff.1 h
    exact mem_of_find? hx

/-- Fields that are gathered are checked where they are given, or have their defaults. -/
theorem checks_of_fields {whole : Data} {es : List (String × Data)} {fs : List Field}
    {r : List (Label × Value) × Option Nat × Exactness}
    (ih : ∀ e ∈ es, ∀ s m, check e.2 s = .ok m → Checks e.2 s m.value)
    (h : fields whole (es.map fun e => (e.1, check e.2)) fs = .ok r) :
    r.1.map Prod.fst = fs.map Field.label ∧
      (∀ p ∈ fs.zip r.1, ∀ k d, given? p.1.label es = some (k, d) → Checks d p.1.shape p.2.2) ∧
      ∀ p ∈ fs.zip r.1, given? p.1.label es = none → p.1.default = some p.2.2 := by
  induction fs generalizing r with
  | nil =>
    cases h
    exact ⟨rfl, by simp, by simp⟩
  | cons f fs step =>
    rw [fields, given?_map] at h
    cases hf : given? f.label es with
    | some e =>
      rw [hf] at h
      obtain ⟨m, vs, given, exactness, hm, hg, rfl⟩ := join_eq_ok.1 h
      obtain ⟨labels, checked, defaults⟩ := step hg
      refine ⟨congrArg (f.label :: ·) labels, fun p hp k d hk => ?_, fun p hp hk => ?_⟩
      · rcases List.mem_cons.1 hp with rfl | hp
        · rw [hf] at hk
          cases hk
          exact ih _ (mem_of_given? hf) _ m (under_eq_ok.1 hm)
        · exact checked p hp k d hk
      · rcases List.mem_cons.1 hp with rfl | hp
        · rw [hf] at hk; cases hk
        · exact defaults p hp hk
    | none =>
      rw [hf] at h
      cases hd : f.default with
      | none =>
        rw [hd] at h
        obtain ⟨m, vs, given, exactness, hm, hg, rfl⟩ := join_eq_ok.1 h
        cases hm
      | some v =>
        rw [hd] at h
        obtain ⟨m, vs, given, exactness, hm, hg, rfl⟩ := join_eq_ok.1 h
        cases hm
        obtain ⟨labels, checked, defaults⟩ := step hg
        refine ⟨congrArg (f.label :: ·) labels, fun p hp k d hk => ?_, fun p hp hk => ?_⟩
        · rcases List.mem_cons.1 hp with rfl | hp
          · rw [hf] at hk; cases hk
          · exact checked p hp k d hk
        · rcases List.mem_cons.1 hp with rfl | hp
          · exact hd
          · exact defaults p hp hk

/-! ### Nodes -/

/-- The value of one of some branches. -/
theorem best_mem (first : Match) (others : List Match) : first.best others ∈ first :: others := by
  unfold Match.best
  induction others generalizing first with
  | nil => exact List.mem_singleton.2 rfl
  | cons next others ih =>
    rw [List.foldl_cons]
    rcases List.mem_cons.1 (ih (if next.beats first then next else first)) with h | h
    · rw [h]
      split
      · exact List.mem_cons_of_mem _ List.mem_cons_self
      · exact List.mem_cons_self
    · exact List.mem_cons_of_mem _ (List.mem_cons_of_mem _ h)

/-- Each branch that succeeds is one of the shapes. -/
theorem mem_branches {d : Data} {parts : Parts} {m : Match} :
    ∀ {shapes : List Shape} {ms : List Match}, branches d parts shapes = .ok ms → m ∈ ms →
      ∃ s ∈ shapes, node d parts s = .ok m := by
  intro shapes
  induction shapes with
  | nil => intro ms h; cases h
  | cons s shapes ih =>
    intro ms h hm
    rw [branches] at h
    cases hs : node d parts s with
    | ok m' =>
      rw [hs, under] at h
      cases hb : branches d parts shapes with
      | ok ms' =>
        rw [hb] at h
        cases h
        rcases List.mem_cons.1 hm with rfl | hm
        · exact ⟨s, List.mem_cons_self, hs⟩
        · obtain ⟨t, ht, hn⟩ := ih hb hm
          exact ⟨t, List.mem_cons_of_mem _ ht, hn⟩
      | error rs =>
        rw [hb] at h
        cases h
        rw [List.mem_singleton.1 hm]
        exact ⟨s, List.mem_cons_self, hs⟩
    | error rs =>
      rw [hs, under] at h
      cases hb : branches d parts shapes with
      | ok ms' =>
        rw [hb] at h
        cases h
        obtain ⟨t, ht, hn⟩ := ih hb hm
        exact ⟨t, List.mem_cons_of_mem _ ht, hn⟩
      | error rs' => rw [hb] at h; cases h

/-- A union yields the value of a branch. -/
theorem branch_of_union {d : Data} {parts : Parts} {shapes : List Shape} {m : Match}
    (h : node d parts (.union shapes) = .ok m) : ∃ s ∈ shapes, node d parts s = .ok m := by
  rw [node] at h
  cases hb : branches d parts shapes with
  | error rs => rw [hb] at h; cases h
  | ok ms =>
    rw [hb] at h
    cases ms with
    | nil => cases h
    | cons first others =>
      cases h
      exact mem_branches hb (best_mem first others)

/-- What the parts of data must satisfy: their own checks yield what `Checks` says. -/
def PartsHold : Data → Prop
  | .arr xs => ∀ x ∈ xs, ∀ s m, check x s = .ok m → Checks x s m.value
  | .obj es => ∀ e ∈ es, ∀ s m, check e.2 s = .ok m → Checks e.2 s m.value
  | _ => True

theorem gather_eq_ok {α : Type} {f : List α → Value} {g : Gathered α} {m : Match} (h : gather f g = .ok m) :
    ∃ r, g = .ok r ∧ m.value = f r.1 := by
  unfold gather at h
  split at h
  · cases h
    exact ⟨_, rfl, rfl⟩
  · cases h

theorem checks_of_pair {xs : List Data} {a b : Shape} {m : Match} (hp : PartsHold (.arr xs))
    (h : pair a b (.arr xs) (xs.map check) = .ok m) : Checks (.arr xs) (.pair a b) m.value := by
  match xs with
  | [] => cases h
  | [x] =>
    obtain ⟨r, hr, -⟩ := gather_eq_ok h
    obtain ⟨_, _, _, _, _, hg, -⟩ := join_eq_ok.1 hr
    cases hg
  | [x, y] =>
    simp only [List.map_cons, List.map_nil, pair] at h
    cases hx : check x a with
    | error rs =>
      rw [hx] at h
      cases hy : check y b <;> rw [hy] at h <;> cases h
    | ok mx =>
      cases hy : check y b with
      | error rs => rw [hx, hy] at h; cases h
      | ok my =>
        rw [hx, hy] at h
        cases h
        exact .pair (hp x (by simp) a mx hx) (hp y (by simp) b my hy)
  | x :: y :: z :: rest => cases h

theorem checks_of_model {d : Data} {m : Model} {r : Match} (hp : PartsHold d)
    (h : node d (partsOf d) (.model m) = .ok r) : Checks d (.model m) r.value := by
  cases d with
  | obj es =>
    simp only [node, partsOf, record] at h
    split at h
    · cases h
    · next vs given exactness hf =>
      cases h
      obtain ⟨labels, checked, defaults⟩ := checks_of_fields hp hf
      exact .model labels checked defaults
  | _ => cases h

theorem checks_of_list {d : Data} {item : Shape} {r : Match} (hp : PartsHold d)
    (h : node d (partsOf d) (.list item) = .ok r) : Checks d (.list item) r.value := by
  cases d with
  | arr xs =>
    obtain ⟨g, hg, hv⟩ := gather_eq_ok h
    obtain ⟨length, checked⟩ := checks_of_items (fun x hx m => hp x hx item m) hg
    rw [hv]
    exact .list length checked
  | _ => cases h

theorem checks_of_table {d : Data} {entry : Shape} {r : Match} (hp : PartsHold d)
    (h : node d (partsOf d) (.table entry) = .ok r) : Checks d (.table entry) r.value := by
  cases d with
  | obj es =>
    obtain ⟨g, hg, hv⟩ := gather_eq_ok h
    obtain ⟨keys, checked⟩ := checks_of_entries (fun e he m => hp e he entry m) hg
    rw [hv]
    exact .table keys checked
  | _ => cases h

mutual

theorem checks_of_node {d : Data} (hp : PartsHold d) :
    ∀ (s : Shape) {m : Match}, node d (partsOf d) s = .ok m → Checks d s m.value
  | .text, m, h => by
    cases d <;> cases h
    exact .text _
  | .whole, m, h => by
    rw [node] at h
    split at h
    · next n asGiven hn => cases h; exact .whole hn
    · cases h
  | .real, m, h => by
    rw [node] at h
    split at h
    · next x asGiven hx => cases h; exact .real hx
    · cases h
  | .flag, m, h => by
    rw [node] at h
    split at h
    · next b asGiven hb => cases h; exact .flag hb
    · cases h
  | .any, m, h => by
    cases h
    exact .any d
  | .word w, m, h => by
    cases d with
    | str t =>
      rw [node] at h
      split at h
      · next same =>
        cases h
        rw [same]
        exact .word w
      · cases h
    | _ => cases h
  | .member e, m, h => by
    rw [node] at h
    split at h
    · next name data hm => cases h; exact .member hm
    · cases h
  | .model m, r, h => checks_of_model hp h
  | .list item, r, h => checks_of_list hp h
  | .pair a b, r, h => by
    cases d with
    | arr xs => exact checks_of_pair hp h
    | _ => cases h
  | .table entry, r, h => checks_of_table hp h
  | .optional inner, r, h => by
    cases d with
    | null =>
      cases h
      exact .null inner
    | _ => exact .given (by simp) (checks_of_node hp inner h)
  | .union shapes, r, h => by
    obtain ⟨s, hs, hn⟩ := branch_of_union h
    exact .branch hs (checks_of_branches hp shapes s hs hn)

theorem checks_of_branches {d : Data} (hp : PartsHold d) :
    ∀ (shapes : List Shape) (s : Shape), s ∈ shapes → ∀ {m : Match}, node d (partsOf d) s = .ok m →
      Checks d s m.value
  | s' :: shapes, s, hs, m, h => by
    rcases List.mem_cons.1 hs with same | hs
    · rw [same] at h ⊢
      exact checks_of_node hp s' h
    · exact checks_of_branches hp shapes s hs h

end

end Check

mutual

/-- The check of data yields what `Checks` says. -/
theorem checks_of_check : ∀ (d : Data) {s : Shape} {m : Match}, check d s = .ok m → Checks d s m.value
  | .arr xs, s, m, h => by
    rw [Check.check_eq_node] at h
    exact Check.checks_of_node (d := .arr xs) (checks_of_checkItems xs) s h
  | .obj es, s, m, h => by
    rw [Check.check_eq_node] at h
    exact Check.checks_of_node (d := .obj es) (checks_of_checkEntries es) s h
  | .null, s, m, h => Check.checks_of_node (d := .null) trivial s h
  | .bool b, s, m, h => Check.checks_of_node (d := .bool b) trivial s h
  | .int n, s, m, h => Check.checks_of_node (d := .int n) trivial s h
  | .float x, s, m, h => Check.checks_of_node (d := .float x) trivial s h
  | .str t, s, m, h => Check.checks_of_node (d := .str t) trivial s h
  | .moment t, s, m, h => Check.checks_of_node (d := .moment t) trivial s h

theorem checks_of_checkItems : ∀ (xs : List Data), ∀ x ∈ xs, ∀ s m, check x s = .ok m → Checks x s m.value
  | y :: xs, x, hx, s, m, h => by
    rcases List.mem_cons.1 hx with same | hx
    · rw [same] at h ⊢
      exact checks_of_check y h
    · exact checks_of_checkItems xs x hx s m h

theorem checks_of_checkEntries :
    ∀ (es : List (String × Data)), ∀ e ∈ es, ∀ s m, check e.2 s = .ok m → Checks e.2 s m.value
  | (k, x) :: es, e, he, s, m, h => by
    rcases List.mem_cons.1 he with same | he
    · rw [same] at h ⊢
      exact checks_of_check x h
    · exact checks_of_checkEntries es e he s m h

end

/-! ### Values of a shape -/

/-- The value is one of the shape. -/
inductive Fits : Shape → Value → Prop
  | text (s : String) : Fits .text (.plain (.str s))
  | whole (n : Int) : Fits .whole (.plain (.int n))
  | real (x : Float) : Fits .real (.plain (.float x))
  | flag (b : Bool) : Fits .flag (.plain (.bool b))
  | any (d : Data) : Fits .any (.free d)
  | word (w : String) : Fits (.word w) (.plain (.str w))
  | member {e name data} : (name, data) ∈ e.members → Fits (.member e) (.member e name data)
  | model {m vs extras} : vs.map Prod.fst = m.fields.map Field.label →
      (∀ p ∈ m.fields.zip vs, Fits p.1.shape p.2.2) → (m.isOpen = false → extras = []) →
      Fits (.model m) (.record m vs extras)
  | list {item vs} : (∀ v ∈ vs, Fits item v) → Fits (.list item) (.list vs)
  | pair {a b v w} : Fits a v → Fits b w → Fits (.pair a b) (.pair v w)
  | table {entry es} : (∀ e ∈ es, Fits entry e.2) → Fits (.table entry) (.table es)
  | null (inner : Shape) : Fits (.optional inner) .null
  | given {inner v} : v.isNull = false → Fits inner v → Fits (.optional inner) v
  | branch {s shapes v} : s ∈ shapes → Fits s v → Fits (.union shapes) v

/-- Is the default of the field plainly one of its shape: null, the fixed word, or an empty list? -/
def Field.hasPlainDefault (f : Field) : Bool :=
  match f.default, f.shape with
  | none, _ => true
  | some (.plain .null), .optional _ => true
  | some (.plain (.str t)), .word w => t == w
  | some (.list []), .list _ => true
  | _, _ => false

theorem Model.all_hasPlainDefault (m : Model) : m.fields.all Field.hasPlainDefault = true := by
  cases m <;> rfl

/-- What a field of a model has when it is left out fits the field. -/
theorem Model.fits_default {m : Model} {f : Field} {v : Value} (hf : f ∈ m.fields) (hv : f.default = some v) :
    Fits f.shape v := by
  have plain := List.all_eq_true.1 m.all_hasPlainDefault f hf
  unfold Field.hasPlainDefault at plain
  split at plain
  · next none => rw [none] at hv; cases hv
  · next inner null shape =>
    rw [null] at hv
    cases hv
    rw [shape]
    exact .null inner
  · next t w word shape =>
    rw [word] at hv
    cases hv
    rw [shape, beq_iff_eq.1 plain]
    exact .word w
  · next item empty shape =>
    rw [empty] at hv
    cases hv
    rw [shape]
    exact .list (by simp)
  · cases plain

theorem member_of_member? {e : Enumeration} {d data : Data} {name : String} (h : Check.member? e d = some (name, data)) :
    (name, data) ∈ e.members := by
  unfold Check.member? at h
  split at h
  · split at h
    · exact List.mem_of_find?_eq_some h
    · cases h
  · split at h
    · exact List.mem_of_find?_eq_some h
    · cases h

/-- Only null is checked to null. -/
theorem Checks.isNull_eq_false {d : Data} {s : Shape} {v : Value} (h : Checks d s v) (some : d ≠ .null) :
    v.isNull = false := by
  induction h with
  | any d =>
    cases d with
    | null => exact absurd rfl some
    | _ => rfl
  | null inner => exact absurd rfl some
  | given _ _ ih => exact ih some
  | branch _ _ ih => exact ih some
  | _ => rfl

/-- A check yields values of its shape. -/
theorem Checks.fits {d : Data} {s : Shape} {v : Value} (h : Checks d s v) : Fits s v := by
  induction h with
  | text s => exact .text s
  | whole _ => exact .whole _
  | real _ => exact .real _
  | flag _ => exact .flag _
  | any d => exact .any d
  | word w => exact .word w
  | member hm => exact .member (member_of_member? hm)
  | @model m xs vs labels _ defaults ih =>
    refine .model labels (fun p hp => ?_) (fun closed => ?_)
    · cases hf : Check.given? p.1.label xs with
      | none => exact Model.fits_default (List.of_mem_zip hp).1 (defaults p hp hf)
      | some e => exact ih p hp e.1 e.2 hf
    · rw [Check.extras, closed]
      rfl
  | @list xs item vs length _ ih =>
    refine .list fun v hv => ?_
    obtain ⟨x, hx⟩ := exists_mem_zip length hv
    exact ih (x, v) hx
  | pair _ _ ih₁ ih₂ => exact .pair ih₁ ih₂
  | @table es entry vs keys _ ih =>
    refine .table fun e he => ?_
    obtain ⟨x, hx⟩ := exists_mem_zip (length_eq_of_map_eq keys) he
    exact ih (x, e) hx
  | null inner => exact .null inner
  | given some checked ih => exact .given (checked.isNull_eq_false some) ih
  | branch hs _ ih => exact .branch hs ih

end ServerTrial
