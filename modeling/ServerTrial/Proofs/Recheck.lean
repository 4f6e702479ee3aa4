import ServerTrial.Proofs.Settled

/-!
# Checking what a value stands for

* `Value.given`: how many fields a value has that are not null, at every depth;
* `Yields d s v`: the check of the data yields the value, and counts its fields;
* `Check.record_eq`: the check of a record from the checks of its fields;
* `Match.best_eq`: a branch that prevails over the others is the best one;
* `Fits.yields`: a value of a settled shape is what the check of its content yields.
-/

namespace ServerTrial

/-! ### Counting fields -/

namespace Value

mutual

/-- The number of fields that are not null, at every depth, if there is a record. -/
def given : Value → Option Nat
  | plain _ | free _ | member _ _ _ => none
  | list items => givenOfItems items
  | pair a b => Match.addGiven (given a) (given b)
  | table entries => givenOfEntries entries
  | record _ fields _ =>
    Match.addGiven (givenOfFields fields) (some (fields.filter fun p => !p.2.isNull).length)

def givenOfItems : List Value → Option Nat
  | [] => none
  | v :: vs => Match.addGiven (given v) (givenOfItems vs)

def givenOfEntries : List (String × Value) → Option Nat
  | [] => none
  | (_, v) :: vs => Match.addGiven (given v) (givenOfEntries vs)

def givenOfFields : List (Label × Value) → Option Nat
  | [] => none
  | (_, v) :: vs => Match.addGiven (given v) (givenOfFields vs)

end

end Value

/-- The check of the data yields the value, and counts the fields that the value has. -/
def Yields (d : Data) (s : Shape) (v : Value) : Prop := ∃ exactness, check d s = .ok ⟨v, v.given, exactness⟩

namespace Check

/-! ### Lists and tables -/

/-- Items are checked one by one; what becomes of each is related to it. -/
theorem items_eq {item : Shape} {p : Value → Value → Prop} :
    ∀ {vs : List Value} {i : Nat}, (∀ v ∈ vs, ∃ w, p v w ∧ Yields v.content item w) →
      ∃ ws exactness, List.Forall₂ p vs ws ∧
        items item i ((Value.contentOfItems vs).map check) = .ok (ws, Value.givenOfItems ws, exactness)
  | [], _, _ => ⟨[], .exact, .nil, rfl⟩
  | v :: vs, i, h => by
    obtain ⟨⟨w, head, first, hw⟩, rest⟩ := List.forall_mem_cons.1 h
    obtain ⟨ws, others, tail, hws⟩ := items_eq (i := i + 1) rest
    refine ⟨w :: ws, first.min others, .cons head tail, ?_⟩
    rw [Value.contentOfItems, List.map_cons, items, hw, hws]
    rfl

/-- The check of a list from those of its items. -/
theorem list_eq {item : Shape} {p : Value → Value → Prop} {vs : List Value}
    (h : ∀ v ∈ vs, ∃ w, p v w ∧ Yields v.content item w) :
    ∃ ws, List.Forall₂ p vs ws ∧ Yields (Value.list vs).content (.list item) (.list ws) := by
  obtain ⟨ws, exactness, related, hws⟩ := items_eq (i := 0) h
  refine ⟨ws, related, exactness, ?_⟩
  rw [check_eq_node]
  show gather .list (items item 0 ((Value.contentOfItems vs).map check)) = _
  rw [hws]
  rfl

theorem entries_eq {entry : Shape} :
    ∀ {es : List (String × Value)}, (∀ e ∈ es, Yields e.2.content entry e.2) →
      ∃ exactness, entries entry ((Value.contentOfEntries es).map fun e => (e.1, check e.2)) =
        .ok (es, Value.givenOfEntries es, exactness)
  | [], _ => ⟨.exact, rfl⟩
  | (k, v) :: es, h => by
    obtain ⟨⟨first, hv⟩, rest⟩ := List.forall_mem_cons.1 h
    obtain ⟨others, hes⟩ := entries_eq rest
    dsimp only at hv
    refine ⟨first.min others, ?_⟩
    rw [Value.contentOfEntries, List.map_cons, entries, hv, hes]
    rfl

/-! ### Records -/

/-- How the field of a record comes out of entries: it is given there, or it is left out and null. -/
inductive Read (xs : List (String × Data)) (f : Field) (v : Value) : Prop
  | given {k d} : given? f.label xs = some (k, d) → v.isNull = false → Yields d f.shape v → Read xs f v
  | left : given? f.label xs = none → f.default = some .null → v = .null → Read xs f v

theorem fields_eq (whole : Data) {xs : List (String × Data)} :
    ∀ {fs : List Field} {vs : List (Label × Value)}, vs.map Prod.fst = fs.map Field.label →
      (∀ p ∈ fs.zip vs, Read xs p.1 p.2.2) →
      (∃ exactness, fields whole (xs.map fun e => (e.1, check e.2)) fs =
        .ok (vs, Value.givenOfFields vs, exactness)) ∧
      (fs.filter fun f => (given? f.label xs).isSome).length = (vs.filter fun p => !p.2.isNull).length
  | [], [], _, _ => ⟨⟨.exact, rfl⟩, rfl⟩
  | f :: fs, (l, v) :: vs, labels, read => by
    obtain ⟨label, labels⟩ := List.cons.inj labels
    obtain ⟨head, rest⟩ := List.forall_mem_cons.1 read
    obtain ⟨⟨others, hvs⟩, count⟩ := fields_eq whole labels rest
    dsimp only at label head
    rw [fields, given?_map, List.filter_cons, List.filter_cons]
    cases head with
    | given there some yields =>
      obtain ⟨first, hv⟩ := yields
      rw [there, some]
      refine ⟨⟨first.min others, ?_⟩, congrArg (· + 1) count⟩
      simp only [Option.map_some, hv, hvs, label]
      rfl
    | left missing default null =>
      rw [missing, null]
      refine ⟨⟨Exactness.exact.min others, ?_⟩, count⟩
      simp only [Option.map_none, default, hvs, label]
      rfl

/-- The check of a record from those of its fields. -/
theorem record_eq {m : Model} {xs : List (String × Data)} {vs : List (Label × Value)} (closed : m.isOpen = false)
    (labels : vs.map Prod.fst = m.fields.map Field.label) (read : ∀ p ∈ m.fields.zip vs, Read xs p.1 p.2.2) :
    check (.obj xs) (.model m) = .ok ⟨.record m vs [], (Value.record m vs []).given, .made⟩ := by
  obtain ⟨⟨exactness, hvs⟩, count⟩ := fields_eq (.obj xs) labels read
  have none : extras m (.obj xs) = [] := by
    rw [extras, closed]
    rfl
  have number : countGiven (xs.map fun e => (e.1, check e.2)) m.fields = (vs.filter fun p => !p.2.isNull).length := by
    rw [← count, countGiven]
    simp only [given?_map, Option.isSome_map]
  rw [check_eq_node]
  show record m (.obj xs) (xs.map fun e => (e.1, check e.2)) = _
  rw [record, hvs]
  dsimp only
  rw [none, number]
  rfl

/-! ### Optional places -/

theorem check_optional {d : Data} (some : d ≠ .null) (inner : Shape) : check d (.optional inner) = check d inner := by
  rw [check_eq_node]
  cases d with
  | null => exact absurd rfl some
  | _ => rfl

/-! ### Unions -/

/-- What the branches make of data that succeed. -/
def takers (d : Data) (shapes : List Shape) : List Match := shapes.filterMap fun s => (check d s).toOption

theorem branches_eq (d : Data) : ∀ shapes : List Shape,
    takers d shapes = [] ∧ (∃ refusals, branches d (partsOf d) shapes = .error refusals) ∨
      takers d shapes ≠ [] ∧ branches d (partsOf d) shapes = .ok (takers d shapes)
  | [] => .inl ⟨rfl, [], rfl⟩
  | s :: shapes => by
    rw [branches, takers, List.filterMap_cons, ← takers, ← check_eq_node]
    rcases branches_eq d shapes with ⟨none, refusals, hb⟩ | ⟨some, hb⟩
    · rw [hb, none]
      cases check d s with
      | ok m => exact .inr ⟨by simp [Except.toOption], rfl⟩
      | error rs => exact .inl ⟨rfl, _, rfl⟩
    · rw [hb]
      cases check d s with
      | ok m => exact .inr ⟨by simp [Except.toOption], rfl⟩
      | error rs => exact .inr ⟨some, rfl⟩

end Check

/-- More fields win. -/
theorem Match.beats_of_lt {m x : Match} {a b : Nat} (hx : x.given = some a) (hm : m.given = some b) (fewer : a < b) :
    m.beats x = true ∧ x.beats m = false := by
  have other : a ≠ b := by omega
  have other' : b ≠ a := by omega
  simp only [beats, hx, hm, if_pos other, if_pos other', decide_eq_true_eq, decide_eq_false_iff_not]
  omega

/-- One that all others lose against is the best. -/
theorem Match.best_eq {m : Match} : ∀ {first : Match} {others : List Match}, m ∈ first :: others →
    (∀ x ∈ first :: others, x = m ∨ m.beats x = true ∧ x.beats m = false) → first.best others = m
  | first, [], there, _ => (List.mem_singleton.1 there).symm
  | first, next :: others, there, loses => by
    obtain ⟨head, second, rest⟩ : _ ∧ _ ∧ _ := by simpa using loses
    have step : first.best (next :: others) = (if next.beats first then next else first).best others := rfl
    rw [step]
    refine best_eq ?_ ?_
    · rcases List.mem_cons.1 there with rfl | there
      · rcases second with rfl | ⟨-, loses⟩
        · simp
        · simp [loses]
      · rcases List.mem_cons.1 there with rfl | there
        · rcases head with rfl | ⟨wins, -⟩
          · simp
          · simp [wins]
        · exact List.mem_cons_of_mem _ there
    · refine List.forall_mem_cons.2 ⟨?_, rest⟩
      split
      · exact second
      · exact head

namespace Check

/-- A union yields the value of a branch that all others lose against. -/
theorem union_eq {d : Data} {shapes : List Shape} {s : Shape} {m : Match} (hs : s ∈ shapes) (hm : check d s = .ok m)
    (loses : ∀ t ∈ shapes, ∀ x, check d t = .ok x → x = m ∨ m.beats x = true ∧ x.beats m = false) :
    check d (.union shapes) = .ok m := by
  have there : m ∈ takers d shapes := List.mem_filterMap.2 ⟨s, hs, by rw [hm]; rfl⟩
  have rivals : ∀ x ∈ takers d shapes, x = m ∨ m.beats x = true ∧ x.beats m = false := by
    intro x hx
    obtain ⟨t, ht, hx⟩ := List.mem_filterMap.1 hx
    cases checked : check d t with
    | ok y =>
      rw [checked] at hx
      cases hx
      exact loses t ht _ checked
    | error rs =>
      rw [checked] at hx
      cases hx
  rw [check_eq_node, node]
  rcases branches_eq d shapes with ⟨none, -⟩ | ⟨-, hb⟩
  · rw [none] at there
    exact absurd there List.not_mem_nil
  · rw [hb]
    cases found : takers d shapes with
    | nil =>
      rw [found] at there
      exact absurd there List.not_mem_nil
    | cons first others =>
      rw [found] at there rivals
      exact congrArg Except.ok (Match.best_eq there rivals)

/-- A union of which a branch succeeds yields what one of them does. -/
theorem union_ok {d : Data} {shapes : List Shape} {s : Shape} {m : Match} (hs : s ∈ shapes) (hm : check d s = .ok m) :
    ∃ t ∈ shapes, ∃ x, check d t = .ok x ∧ check d (.union shapes) = .ok x := by
  have there : m ∈ takers d shapes := List.mem_filterMap.2 ⟨s, hs, by rw [hm]; rfl⟩
  rw [check_eq_node, node]
  rcases branches_eq d shapes with ⟨none, -⟩ | ⟨-, hb⟩
  · rw [none] at there
    exact absurd there List.not_mem_nil
  · rw [hb]
    cases found : takers d shapes with
    | nil =>
      rw [found] at there
      exact absurd there List.not_mem_nil
    | cons first others =>
      rw [found] at hb
      obtain ⟨t, ht, hn⟩ := mem_branches hb (best_mem first others)
      exact ⟨t, ht, _, hn, rfl⟩

end Check

/-! ### Members -/

namespace Enumeration

theorem find?_numberedFrom {p : String × Data} : ∀ {names : List String} {n : Nat}, p ∈ numberedFrom n names →
    ∃ k : Nat, n ≤ k ∧ p.2 = .int k ∧ (numberedFrom n names).find? (fun q => q.2.same (.int k)) = some p
  | name :: names, n, hp => by
    rw [numberedFrom] at hp ⊢
    rcases List.mem_cons.1 hp with rfl | hp
    · refine ⟨n, Nat.le_refl n, rfl, ?_⟩
      rw [List.find?_cons]
      simp [Data.same, Data.sameNumber, Data.number?, Data.Number.same]
    · obtain ⟨k, above, number, found⟩ := find?_numberedFrom hp
      have other : (Data.int n).same (.int k) = false := by
        simp only [Data.same, Data.sameNumber, Data.number?, Data.Number.same, beq_eq_false_iff_ne]
        omega
      refine ⟨k, by omega, number, ?_⟩
      rw [List.find?_cons, other]
      exact found

theorem find?_worded {p : String × Data} : ∀ {pairs : List (String × String)}, (pairs.map Prod.snd).Nodup →
    p ∈ worded pairs → ∃ s, s ∈ pairs.map Prod.snd ∧ p.2 = .str s ∧
      (worded pairs).find? (fun q => q.2.same (.str s)) = some p
  | (name, t) :: pairs, distinct, hp => by
    rw [List.map_cons, List.nodup_cons] at distinct
    have step : worded ((name, t) :: pairs) = (name, .str t) :: worded pairs := rfl
    rw [step] at hp ⊢
    rcases List.mem_cons.1 hp with rfl | hp
    · refine ⟨t, List.mem_cons_self, rfl, ?_⟩
      rw [List.find?_cons]
      simp [Data.same]
    · obtain ⟨s, hs, word, found⟩ := find?_worded distinct.2 hp
      have other : (Data.str t).same (.str s) = false := by
        simp only [Data.same, beq_eq_false_iff_ne]
        rintro rfl
        exact distinct.1 hs
      refine ⟨s, List.mem_cons_of_mem t hs, word, ?_⟩
      rw [List.find?_cons, other]
      exact found

/-- What a member stands for is read as that member. -/
theorem member?_of_mem {e : Enumeration} {p : String × Data} (hp : p ∈ e.members) : Check.member? e p.2 = some p := by
  cases numbered : e.isNumbered with
  | true =>
    have all : ∃ names, e.members = numberedFrom 1 names := by
      cases e <;> first
        | exact ⟨_, rfl⟩
        | cases numbered
    obtain ⟨names, all⟩ := all
    rw [all] at hp
    obtain ⟨k, -, number, found⟩ := find?_numberedFrom hp
    simp only [Check.member?, numbered, if_true, number, Scalar.whole?, all]
    exact found
  | false =>
    have all : ∃ pairs, (pairs.map Prod.snd).Nodup ∧ e.members = worded pairs := by
      cases e <;> first
        | exact ⟨_, by decide, rfl⟩
        | cases numbered
    obtain ⟨pairs, distinct, all⟩ := all
    rw [all] at hp
    obtain ⟨s, -, word, found⟩ := find?_worded distinct hp
    simp only [Check.member?, numbered, Bool.false_eq_true, if_false, word, all]
    exact found

end Enumeration

/-- Only null stands for null. -/
theorem Fits.content_ne_null {s : Shape} {v : Value} (h : Fits s v) (some : v.isNull = false) :
    v.content ≠ .null := by
  induction h with
  | any d =>
    rintro rfl
    cases some
  | @member e name data hm =>
    intro null
    have data_eq : data = .null := null
    have read := Enumeration.member?_of_mem hm
    rw [data_eq] at read
    unfold Check.member? at read
    split at read <;> cases read
  | null inner => cases some
  | given _ _ ih => exact ih some
  | branch _ _ ih => exact ih some
  | _ => simp [Value.content]

theorem Fits.eq_null {inner : Shape} {v : Value} (h : Fits (.optional inner) v) (null : v.isNull = true) :
    v = .null := by
  cases h with
  | null => rfl
  | given some _ =>
    rw [null] at some
    cases some

/-! ### Fields -/

section Fields

variable {m : Model} {vs : List (Label × Value)}

theorem Value.find?_contentOfFields {key : String} (absent : ∀ p ∈ vs, p.2.isNull = false → p.1.key ≠ key) :
    Data.find? key (contentOfFields vs) = none := by
  refine Data.find?_eq_none fun there => ?_
  obtain ⟨e, he, same⟩ := List.mem_map.1 there
  obtain ⟨p, hp, some, rfl⟩ := mem_contentOfFields.1 he
  exact absent p hp some same

/-- A field that is null is not among the data of its record. -/
theorem Model.given?_of_null (labels : vs.map Prod.fst = m.fields.map Field.label) {f : Field} {p : Label × Value}
    (hp : (f, p) ∈ m.fields.zip vs) (null : p.2.isNull = true) :
    Check.given? f.label (Value.contentOfFields vs) = none := by
  have label : f.label = p.1 := eq_of_mem_zip labels.symm hp
  have keys : (vs.map fun p => p.1.key).Nodup := by
    have := congrArg (List.map Label.key) labels
    rw [List.map_map, List.map_map] at this
    exact this ▸ m.keys_nodup
  have absent : ∀ q ∈ vs, q.2.isNull = false → q.1.key ≠ f.label.key := by
    intro q hq some same
    have same : q = p := List.inj_on_of_nodup_map keys hq (List.of_mem_zip hp).2 (by rw [same, label])
    rw [same, null] at some
    cases some
  rw [Check.given?, Value.find?_contentOfFields absent, Value.find?_contentOfFields]
  · rfl
  · intro q hq some same
    obtain ⟨g, hg⟩ := exists_mem_zip (length_eq_of_map_eq labels).symm hq
    have other : g.label = q.1 := eq_of_mem_zip labels.symm hg
    have named : f.label = g.label :=
      Model.label_of_name (List.of_mem_zip hp).1 (List.of_mem_zip hg).1 (by rw [other, same])
    exact absent q hq some (by rw [named, other])

/-- What no field of a record has for its key is not given by its data. -/
theorem Model.given?_of_other (labels : vs.map Prod.fst = m.fields.map Field.label) {l : Label}
    (other : ∀ f ∈ m.fields, f.label.key ≠ l.key ∧ f.label.key ≠ l.name) :
    Check.given? l (Value.contentOfFields vs) = none := by
  have absent : ∀ p ∈ vs, p.1.key ≠ l.key ∧ p.1.key ≠ l.name := by
    intro p hp
    obtain ⟨f, hf⟩ := exists_mem_zip (length_eq_of_map_eq labels).symm hp
    have own : f.label = p.1 := eq_of_mem_zip labels.symm hf
    rw [← own]
    exact other f (List.of_mem_zip hf).1
  rw [Check.given?, Value.find?_contentOfFields fun p hp _ => (absent p hp).1,
    Value.find?_contentOfFields fun p hp _ => (absent p hp).2]
  rfl

/-- A field comes out of the data of a record, also where another model has it. -/
theorem Model.read_field (labels : vs.map Prod.fst = m.fields.map Field.label) {f g : Field} {p : Label × Value}
    (hp : (f, p) ∈ m.fields.zip vs) (label : g.label = f.label) (plain : g.isPlain = true) (fits : Fits g.shape p.2)
    (yields : Yields p.2.content g.shape p.2) : Check.Read (Value.contentOfFields vs) g p.2 := by
  have own : f.label = p.1 := eq_of_mem_zip labels.symm hp
  cases null : p.2.isNull with
  | false =>
    have there : (g.label.key, p.2.content) ∈ Value.contentOfFields vs :=
      Value.mem_contentOfFields.2 ⟨p, (List.of_mem_zip hp).2, null, by rw [label, own]⟩
    exact .given (Check.given?_of_mem (Model.keys_content_nodup labels) there) null yields
  | true =>
    unfold Field.isPlain at plain
    split at plain
    · next inner shape default =>
      rw [shape] at fits
      exact .left (label ▸ Model.given?_of_null labels hp null) default (fits.eq_null null)
    · rw [fits.solid plain] at null
      cases null

end Fields

/-! ### Rivals -/

/-- A location is a URI with a range. -/
theorem Fits.eq_location {v : Value} (h : Fits (.model .location) v) :
    ∃ s r, v = .record .location [(⟨"uri", "uri"⟩, .plain (.str s)), (⟨"range", "range"⟩, r)] [] ∧
      r.isNull = false := by
  cases h with
  | @model _ vs extras labels fits none =>
    rcases vs with _ | ⟨⟨l, u⟩, _ | ⟨⟨l', r⟩, _ | _⟩⟩ <;> simp [Model.fields, Model.need] at labels
    obtain ⟨rfl, rfl⟩ := labels
    obtain rfl := none rfl
    obtain ⟨uri, range⟩ : Fits .text u ∧ Fits (.model .range) r := by simpa [Model.fields, Model.need] using fits
    cases uri with
    | text s => exact ⟨s, r, rfl, range.solid rfl⟩

/-- Read as one without a range, a location has fewer fields. -/
theorem Fits.loses_location {v : Value} {x : Match} {exactness : Exactness} (h : Fits (.model .location) v)
    (hx : check v.content (.model .workspaceSymbolLocation) = .ok x) :
    Match.beats ⟨v, v.given, exactness⟩ x = true ∧ x.beats ⟨v, v.given, exactness⟩ = false := by
  obtain ⟨s, r, rfl, range⟩ := h.eq_location
  have content : (Value.record .location
      [(⟨"uri", "uri"⟩, .plain (.str s)), (⟨"range", "range"⟩, r)] []).content =
      .obj [("uri", .str s), ("range", r.content)] := by
    simp only [Value.content, Value.contentOfFields, range]
    rfl
  have one : check (.obj [("uri", .str s), ("range", r.content)]) (.model .workspaceSymbolLocation) =
      .ok ⟨.record .workspaceSymbolLocation [(⟨"uri", "uri"⟩, .plain (.str s))] [], some 1, .made⟩ := by
    have read : ∀ p ∈ Model.workspaceSymbolLocation.fields.zip [((⟨"uri", "uri"⟩ : Label), Value.plain (.str s))],
        Check.Read [("uri", .str s), ("range", r.content)] p.1 p.2.2 := by
      intro p hp
      rw [List.mem_singleton.1 hp]
      exact .given rfl rfl ⟨.exact, rfl⟩
    exact Check.record_eq rfl rfl read
  have many : ∃ k, (Value.record .location
      [(⟨"uri", "uri"⟩, .plain (.str s)), (⟨"range", "range"⟩, r)] []).given = some (k + 2) := by
    simp only [Value.given, Value.givenOfFields, List.filter_cons, range]
    cases r.given with
    | none => exact ⟨0, rfl⟩
    | some k => exact ⟨k, rfl⟩
  obtain ⟨k, many⟩ := many
  rw [content, one] at hx
  cases hx
  exact Match.beats_of_lt rfl many (by omega)

/-- Read as an integer, a text is no longer exact. -/
theorem Check.loses_text {s : String} {x : Match} (hx : check (.str s) .whole = .ok x) :
    Match.beats ⟨.plain (.str s), none, .exact⟩ x = true ∧ x.beats ⟨.plain (.str s), none, .exact⟩ = false := by
  rw [check_eq_node, node, Scalar.whole?] at hx
  cases spelled : Scalar.wholeOfText s with
  | some n =>
    rw [spelled] at hx
    cases hx
    exact ⟨rfl, rfl⟩
  | none =>
    rw [spelled] at hx
    cases hx

/-- The items of a list that is taken are taken one by one. -/
theorem Checks.items_of_list {item : Shape} {vs : List Value} {w : Value}
    (h : Checks (Value.list vs).content (.list item) w) : ∀ v ∈ vs, ∃ u, Checks v.content item u := by
  have content : (Value.list vs).content = .arr (vs.map Value.content) := by
    rw [Value.content, Value.contentOfItems_eq_map]
  rw [content] at h
  generalize shape : Shape.list item = s at h
  generalize data : vs.map Value.content = xs at h
  cases h with
  | @list _ _ ws length checks =>
    cases shape
    intro v hv
    have there : v.content ∈ xs := data ▸ List.mem_map_of_mem hv
    obtain ⟨u, hu⟩ := exists_zip_mem length there
    exact ⟨u, checks (v.content, u) hu⟩
  | _ => cases shape

/-- What a list of records stands for is refused, but for the empty list, by a list of a model apart from theirs. -/
theorem Model.refuses_list_of_apart {a b : Model} {v w : Value} {vs : List Value} (h : a.apart b = true)
    (closed : a.isOpen = false) (fits : Fits (.model a) v) : ¬ Checks (Value.list (v :: vs)).content (.list (.model b)) w := by
  intro checks
  obtain ⟨u, taken⟩ := checks.items_of_list v List.mem_cons_self
  exact Model.refuses_of_apart h closed fits taken

/-- What prevails wins over whatever else is made of the data. -/
theorem Shape.loses_of_prevails {a b : Shape} {v : Value} {x : Match} {exactness : Exactness}
    (h : a.prevails b = true) (settled : a.isSettled = true) (fits : Fits a v)
    (hm : check v.content a = .ok ⟨v, v.given, exactness⟩) (hx : check v.content b = .ok x) :
    x = ⟨v, v.given, exactness⟩ ∨
      Match.beats ⟨v, v.given, exactness⟩ x = true ∧ x.beats ⟨v, v.given, exactness⟩ = false := by
  have checks := checks_of_check _ hx
  unfold Shape.prevails at h
  split at h
  · rcases Bool.or_eq_true_iff.1 h with apart | pair
    · exact absurd checks (Model.refuses_of_apart apart (Model.isOpen_of_isReply settled) fits)
    · obtain ⟨location, place⟩ := Bool.and_eq_true_iff.1 pair
      obtain rfl := beq_iff_eq.1 location
      obtain rfl := beq_iff_eq.1 place
      exact .inr (fits.loses_location hx)
  · cases fits with
    | @list _ vs fits =>
      cases vs with
      | nil =>
        cases hm
        cases hx
        exact .inl rfl
      | cons u us =>
        have first := fits u List.mem_cons_self
        exact absurd checks (Model.refuses_list_of_apart h (Model.isOpen_of_isReply settled) first)
  · cases fits
    cases hm
    exact .inr (Check.loses_text hx)
  · cases fits
    generalize x.value = w at checks
    cases checks
  · exact absurd checks (Shape.refuses_of_differs h fits)

/-- **A value of a settled shape is what the check of its content yields.** -/
theorem Fits.yields {s : Shape} {v : Value} (h : Fits s v) (settled : s.isSettled = true) :
    Yields v.content s v := by
  induction h with
  | text s => exact ⟨.exact, rfl⟩
  | whole n => exact ⟨.exact, rfl⟩
  | real x => exact ⟨.exact, rfl⟩
  | flag b => exact ⟨.exact, rfl⟩
  | any d => exact ⟨.free, by cases d <;> rfl⟩
  | word w =>
    refine ⟨.exact, ?_⟩
    rw [Check.check_eq_node]
    show (if w = w then _ else _) = _
    rw [if_pos rfl]
    rfl
  | @member e name data hm =>
    refine ⟨.made, ?_⟩
    have read := Enumeration.member?_of_mem hm
    rw [Check.check_eq_node]
    unfold Check.node
    rw [Value.content, read]
    rfl
  | @model m vs extras labels fits none ih =>
    have closed := Model.isOpen_of_isReply settled
    have yields : ∀ p ∈ m.fields.zip vs, Yields p.2.2.content p.1.shape p.2.2 := fun p hp =>
      ih p hp (Model.fields_of_isSettled settled (List.of_mem_zip hp).1).1
    refine ⟨.made, ?_⟩
    rw [(Fits.model labels fits none).content_record closed, none closed]
    refine Check.record_eq closed labels fun p hp => ?_
    obtain ⟨-, plain⟩ := Model.fields_of_isSettled settled (List.of_mem_zip hp).1
    exact Model.read_field labels hp rfl plain (fits p hp) (yields p hp)
  | @list item vs _ ih =>
    obtain ⟨ws, same, yields⟩ := Check.list_eq (p := Eq) fun v hv => ⟨v, rfl, ih v hv settled⟩
    obtain rfl : vs = ws := by simpa using same
    exact yields
  | @pair a b v w _ _ ih₁ ih₂ =>
    obtain ⟨first, second⟩ := Bool.and_eq_true_iff.1 settled
    obtain ⟨e₁, hv⟩ := ih₁ first
    obtain ⟨e₂, hw⟩ := ih₂ second
    refine ⟨.made, ?_⟩
    rw [Check.check_eq_node]
    show Check.pair a b (.arr [v.content, w.content]) [check v.content, check w.content] = _
    rw [Check.pair, hv, hw]
    rfl
  | @table entry es _ ih =>
    obtain ⟨exactness, hes⟩ := Check.entries_eq fun e he => ih e he settled
    refine ⟨exactness, ?_⟩
    rw [Check.check_eq_node]
    show Check.gather .table (Check.entries entry ((Value.contentOfEntries es).map fun e => (e.1, check e.2))) = _
    rw [hes]
    rfl
  | null inner => exact ⟨.exact, rfl⟩
  | given some fits ih =>
    obtain ⟨exactness, hv⟩ := ih settled
    exact ⟨exactness, by rw [Check.check_optional (fits.content_ne_null some), hv]⟩
  | @branch s shapes v hs fits ih =>
    have own := Shape.isSettled_of_mem settled hs
    obtain ⟨exactness, hv⟩ := ih own
    refine ⟨exactness, Check.union_eq hs hv fun t ht x hx => ?_⟩
    rcases Shape.prevails_of_mem settled hs ht with rfl | prevails
    · exact .inl (Except.ok.inj (hx.symm.trans hv))
    · exact Shape.loses_of_prevails prevails own fits hv hx

end ServerTrial
