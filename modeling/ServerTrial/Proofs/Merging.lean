import ServerTrial.Config
import ServerTrial.Proofs.SameData

/-!
# Merging tables

* `Config.find?_merge`, `Config.keys_merge`: what a merged table has under a key, and its keys in their order;
* `Config.byTables`: induction over the tables in a table;
* `Config.merge_idem`, `Config.merge_absorb`: a table that has been put over another one, or lies under it, changes
  nothing when it is merged again;
* `Config.descend_merge`: what is at the end of a path of keys;
* `Data.same_self_of_comparable`, `Config.same_merge`: equal tables merge into equal ones.
-/

namespace ServerTrial

namespace Data

/-! ### Tables as maps -/

/-- Tables with the same keys in the same order and the same values under them are one. -/
theorem eq_of_find? {α : Type} {es fs : List (String × α)} (keys : es.map Prod.fst = fs.map Prod.fst)
    (distinct : (es.map Prod.fst).Nodup) (same : ∀ k, find? k es = find? k fs) : es = fs := by
  induction es generalizing fs with
  | nil => exact (List.map_eq_nil_iff.1 keys.symm).symm
  | cons e es ih =>
    obtain ⟨k, x⟩ := e
    cases fs with
    | nil => cases keys
    | cons f fs =>
      obtain ⟨l, y⟩ := f
      rw [List.map_cons, List.map_cons, List.cons.injEq] at keys
      obtain ⟨rfl, keys⟩ := keys
      rw [List.map_cons, List.nodup_cons] at distinct
      have first := same k
      rw [find?, find?, if_pos rfl, if_pos rfl, Option.some.injEq] at first
      refine congrArg₂ List.cons (by rw [first]) (ih keys distinct.2 fun m => ?_)
      by_cases here : k = m
      · rw [← here, find?_eq_none distinct.1, find?_eq_none (keys ▸ distinct.1)]
      · simpa only [find?, if_neg here] using same m

/-- Induction over what tables hold; arrays are not looked into. -/
@[elab_as_elim]
theorem byEntries {P : Data → Prop} (obj : ∀ es, (∀ e ∈ es, P e.2) → P (.obj es))
    (flat : ∀ d, (∀ es, d ≠ .obj es) → P d) (d : Data) : P d := by
  induction d using byParts with
  | arr xs => exact flat _ fun _ => nofun
  | obj es ih => exact obj es ih
  | flat d plain =>
    refine flat d ?_
    rintro es rfl
    cases plain

/-- What is at the end of a path of keys. -/
def descend : List String → Data → Option Data
  | [], d => some d
  | k :: ks, d => (d.get? k).bind (descend ks)

end Data

namespace Config

variable {o b : List (String × Data)}

/-! ### Merging key by key -/

/-- What a value is when it is put over another one, if there is one. -/
def laid : Data → Option Data → Data
  | .obj inner, some (.obj old) => .obj (merge inner old)
  | v, _ => v

theorem laid_eq_self {v : Data} {old : Option Data} (apart : ∀ i j, v = .obj i → old ≠ some (.obj j)) :
    laid v old = v := by
  unfold laid
  split
  · exact absurd rfl (apart _ _ rfl)
  · rfl

theorem laid_of_flat {v : Data} (flat : ∀ es, v ≠ .obj es) (old : Option Data) : laid v old = v :=
  laid_eq_self fun i _ same => absurd same (flat i)

theorem laid_obj (inner : List (String × Data)) {old : Option Data} (flat : ∀ es, old ≠ some (.obj es)) :
    laid (.obj inner) old = .obj inner := laid_eq_self fun _ j _ => flat j

theorem merge_cons (k : String) (v : Data) (o b : List (String × Data)) :
    merge ((k, v) :: o) b = merge o (Data.put k (laid v (Data.find? k b)) b) := by
  cases v with
  | obj inner =>
    rw [merge]
    split
    · next old found => rw [found, laid]
    · next flat => rw [laid_obj inner flat]
  | _ => simp only [merge, laid]

/-- **The rule for a key**: a value above decides, together with a table below it; where there is none, the one below
stays. -/
theorem find?_merge (distinct : (o.map Prod.fst).Nodup) (k : String) : Data.find? k (merge o b) =
    ((Data.find? k o).map fun v => laid v (Data.find? k b)).or (Data.find? k b) := by
  induction o generalizing b with
  | nil =>
    rw [merge]
    rfl
  | cons e o ih =>
    obtain ⟨l, v⟩ := e
    rw [List.map_cons, List.nodup_cons] at distinct
    rw [merge_cons, ih distinct.2, Data.find?_put, Data.find?]
    by_cases here : k = l
    · rw [if_pos here, if_pos here.symm, here, Data.find?_eq_none distinct.1]
      rfl
    · rw [if_neg here, if_neg (Ne.symm here)]

/-- The keys below keep their places, and the new ones follow. -/
theorem keys_merge (distinct : (o.map Prod.fst).Nodup) :
    (merge o b).map Prod.fst = b.map Prod.fst ++ (o.map Prod.fst).filter (· ∉ b.map Prod.fst) := by
  induction o generalizing b with
  | nil =>
    rw [merge]
    exact (List.append_nil _).symm
  | cons e o ih =>
    obtain ⟨l, v⟩ := e
    rw [List.map_cons, List.nodup_cons] at distinct
    rw [merge_cons, ih distinct.2, Data.keys_put, List.map_cons]
    by_cases there : l ∈ b.map Prod.fst
    · rw [if_pos there, List.filter_cons_of_neg (by simpa using there)]
    · rw [if_neg there, List.filter_cons_of_pos (by simpa using there), List.append_assoc, List.singleton_append]
      refine congrArg _ (congrArg _ (List.filter_congr fun k mem => ?_))
      have other : k ≠ l := fun same => distinct.1 (same ▸ mem)
      simp [other]

theorem nodup_merge (distinct : (o.map Prod.fst).Nodup) (distinct' : (b.map Prod.fst).Nodup) :
    ((merge o b).map Prod.fst).Nodup := by
  rw [keys_merge distinct]
  refine List.nodup_append.2 ⟨distinct', distinct.filter _, fun k mem l new same => ?_⟩
  have absent := (List.mem_filter.1 new).2
  rw [← same] at absent
  simp [mem] at absent

theorem keyed_of_find? {k : String} {v : Data} (keyed : (Data.obj o).Keyed) (found : Data.find? k o = some v) :
    v.Keyed := (Data.keyed_obj_iff.1 keyed).2 (k, v) (Check.mem_of_find? found)

/-- Induction over the tables in a table. -/
@[elab_as_elim]
theorem byTables {P : (o : List (String × Data)) → (Data.obj o).Keyed → Prop}
    (step : ∀ o keyed, (∀ k inner (found : Data.find? k o = some (.obj inner)), P inner (keyed_of_find? keyed found)) →
      P o keyed) (o : List (String × Data)) (keyed : (Data.obj o).Keyed) : P o keyed := by
  have all : ∀ d : Data, ∀ o, d = .obj o → ∀ keyed : (Data.obj o).Keyed, P o keyed := by
    intro d
    induction d using Data.byEntries with
    | obj es ih =>
      rintro o ⟨⟩ keyed
      refine step es keyed fun k inner found => ?_
      exact ih (k, .obj inner) (Check.mem_of_find? found) inner rfl _
    | flat d plain => exact fun o same => absurd same (plain o)
  exact all (.obj o) o rfl keyed

/-- What holds of all data in two tables holds in the merged one, if it holds of every table with distinct keys. -/
theorem all_merge {p : Data → Prop} (tables : ∀ es, (es.map Prod.fst).Nodup → p (.obj es)) (ho : (Data.obj o).Keyed)
    (hb : (Data.obj b).Keyed) (all : (Data.obj o).All p) (all' : (Data.obj b).All p) :
    (Data.obj (merge o b)).All p := by
  induction o, ho using byTables generalizing b with
  | step o ho ih =>
    have distinct := (Data.keyed_obj_iff.1 ho).1
    have distinct' := nodup_merge distinct (Data.keyed_obj_iff.1 hb).1
    have parts := (Data.all_obj_iff.1 all).2
    have parts' := (Data.all_obj_iff.1 all').2
    refine Data.all_obj_iff.2 ⟨tables _ distinct', fun e mem => ?_⟩
    have found := Data.find?_of_mem distinct' mem
    rw [find?_merge distinct] at found
    cases above : Data.find? e.1 o with
    | none =>
      rw [above] at found
      exact parts' _ (Check.mem_of_find? found)
    | some v =>
      rw [above, Option.map_some, Option.some_or, Option.some.injEq] at found
      rw [← found]
      have own := parts _ (Check.mem_of_find? above)
      unfold laid
      split
      · next inner old below =>
        exact ih e.1 inner above (keyed_of_find? hb below) own (parts' _ (Check.mem_of_find? below))
      · exact own

theorem keyed_merge (ho : (Data.obj o).Keyed) (hb : (Data.obj b).Keyed) : (Data.obj (merge o b)).Keyed :=
  all_merge (fun _ distinct => distinct) ho hb ho hb

/-! ### Merging again -/

/-- A merged table is known by its keys and by what it has under each. -/
theorem merge_eq {m : List (String × Data)} (ho : (o.map Prod.fst).Nodup) (hb : (b.map Prod.fst).Nodup)
    (keys : b.map Prod.fst ++ (o.map Prod.fst).filter (· ∉ b.map Prod.fst) = m.map Prod.fst)
    (each : ∀ k, ((Data.find? k o).map fun v => laid v (Data.find? k b)).or (Data.find? k b) = Data.find? k m) :
    merge o b = m :=
  Data.eq_of_find? ((keys_merge ho).trans keys) (nodup_merge ho hb) fun k => (find?_merge ho k).trans (each k)

theorem filter_eq_nil_of_subset {xs ys : List String} (sub : xs ⊆ ys) : xs.filter (· ∉ ys) = [] :=
  List.filter_eq_nil_iff.2 fun k mem => by simpa using sub mem

theorem merge_self (ho : (Data.obj o).Keyed) : merge o o = o := by
  induction o, ho using byTables with
  | step o ho ih =>
    have distinct := (Data.keyed_obj_iff.1 ho).1
    refine merge_eq distinct distinct ?_ fun k => ?_
    · rw [filter_eq_nil_of_subset (List.Subset.refl _), List.append_nil]
    · cases found : Data.find? k o with
      | none => rfl
      | some v =>
        rw [Option.map_some, Option.some_or, Option.some.injEq]
        cases v with
        | obj inner => rw [laid, ih k inner found]
        | _ => rfl

/-- **What has been put over a table changes nothing when it is put over it again.** -/
theorem merge_idem (ho : (Data.obj o).Keyed) (hb : (Data.obj b).Keyed) : merge o (merge o b) = merge o b := by
  induction o, ho using byTables generalizing b with
  | step o ho ih =>
    have distinct := (Data.keyed_obj_iff.1 ho).1
    have distinct' := nodup_merge distinct (Data.keyed_obj_iff.1 hb).1
    have covered : o.map Prod.fst ⊆ (merge o b).map Prod.fst := fun k mem => by
      rw [keys_merge distinct, List.mem_append, List.mem_filter]
      by_cases there : k ∈ b.map Prod.fst
      · exact .inl there
      · exact .inr ⟨mem, by simpa using there⟩
    refine merge_eq distinct distinct' ?_ fun k => ?_
    · rw [filter_eq_nil_of_subset covered, List.append_nil]
    · rw [find?_merge distinct]
      cases above : Data.find? k o with
      | none => rfl
      | some v =>
        rw [Option.map_some, Option.some_or, Option.map_some, Option.some_or, Option.some.injEq]
        cases v with
        | obj inner =>
          by_cases below : ∃ old, Data.find? k b = some (.obj old)
          · obtain ⟨old, below⟩ := below
            rw [below, laid, laid, ih k inner above (keyed_of_find? hb below)]
          · rw [laid_obj inner (not_exists.1 below), laid, merge_self (keyed_of_find? ho above)]
        | _ => rfl

/-- **A table changes nothing when what has been put over it is put over it again.** -/
theorem merge_absorb (ho : (Data.obj o).Keyed) (hb : (Data.obj b).Keyed) : merge (merge o b) b = merge o b := by
  induction o, ho using byTables generalizing b with
  | step o ho ih =>
    have distinct := (Data.keyed_obj_iff.1 ho).1
    have distinctBelow := (Data.keyed_obj_iff.1 hb).1
    have distinct' := nodup_merge distinct distinctBelow
    refine merge_eq distinct' distinctBelow ?_ fun k => ?_
    · rw [keys_merge distinct, List.filter_append, filter_eq_nil_of_subset (List.Subset.refl _), List.nil_append,
        List.filter_filter]
      simp
    · rw [find?_merge distinct]
      cases above : Data.find? k o with
      | none =>
        cases below : Data.find? k b with
        | none => rfl
        | some x =>
          rw [Option.map_none, Option.none_or, Option.map_some, Option.some_or, Option.some.injEq]
          cases x with
          | obj old => rw [laid, merge_self (keyed_of_find? hb below)]
          | _ => rfl
      | some v =>
        rw [Option.map_some, Option.some_or, Option.map_some, Option.some_or, Option.some.injEq]
        cases v with
        | obj inner =>
          by_cases below : ∃ old, Data.find? k b = some (.obj old)
          · obtain ⟨old, below⟩ := below
            rw [below, laid, laid, ih k inner above (keyed_of_find? hb below)]
          · rw [laid_obj inner (not_exists.1 below), laid_obj inner (not_exists.1 below)]
        | _ => rfl

/-! ### Paths of keys -/

end Config

namespace Data

/-- Somewhere along a path of keys the data hold what is no table. -/
def Stops (d : Data) (p : List String) : Prop :=
  ∃ q ks v, p = q ++ ks ∧ descend q d = some v ∧ ∀ es, v ≠ .obj es

theorem stops_of_flat {d : Data} (flat : ∀ es, d ≠ .obj es) (p : List String) : d.Stops p := ⟨[], p, d, rfl, rfl, flat⟩

theorem stops_cons_iff {es : List (String × Data)} {k : String} {ks : List String} :
    (obj es).Stops (k :: ks) ↔ ∃ v, find? k es = some v ∧ v.Stops ks := by
  constructor
  · rintro ⟨q, rest, v, path, there, flat⟩
    cases q with
    | nil =>
      rw [descend, Option.some.injEq] at there
      exact absurd there.symm (flat es)
    | cons l q =>
      obtain ⟨rfl, rfl⟩ := List.cons.inj path
      obtain ⟨x, found, there⟩ := Option.bind_eq_some_iff.1 there
      exact ⟨x, found, q, rest, v, rfl, there, flat⟩
  · rintro ⟨x, found, q, rest, v, rfl, there, flat⟩
    exact ⟨k :: q, rest, v, rfl, Option.bind_eq_some_iff.2 ⟨x, found, there⟩, flat⟩

theorem not_stops_nil (es : List (String × Data)) : ¬ (obj es).Stops [] := by
  rintro ⟨q, ks, v, path, there, flat⟩
  rw [(List.append_eq_nil_iff.1 path.symm).1, descend, Option.some.injEq] at there
  exact flat es there.symm

/-- Below what is no table there is nothing. -/
theorem descend_of_flat {d : Data} (flat : ∀ es, d ≠ .obj es) (k : String) (ks : List String) :
    descend (k :: ks) d = none := by
  cases d with
  | obj es => exact absurd rfl (flat es)
  | _ => rfl

theorem descend_cons (k : String) (ks : List String) (es : List (String × Data)) :
    descend (k :: ks) (obj es) = (find? k es).bind (descend ks) := rfl

theorem bind_descend_ne_obj {x : Option Data} (flat : ∀ es, x ≠ some (.obj es)) (ks : List String) :
    ∀ es, x.bind (descend ks) ≠ some (.obj es) := by
  intro es there
  obtain ⟨d, rfl, there⟩ := Option.bind_eq_some_iff.1 there
  cases ks with
  | nil => exact flat es there
  | cons k ks =>
    rw [Option.bind_some, descend_of_flat fun es same => flat es (congrArg some same)] at there
    cases there

end Data

namespace Config

/-- What a merged table has at the end of a path of keys: what the upper one has there, if that has no table there or on
the way; both tables merged, or the upper one if there is none below; else what the lower one has. -/
structure Decides (o b m : List (String × Data)) (p : List String) : Prop where
  above : (Data.obj o).Stops p → Data.descend p (.obj m) = Data.descend p (.obj o)
  both : ∀ inner, Data.descend p (.obj o) = some (.obj inner) →
    Data.descend p (.obj m) = some (laid (.obj inner) (Data.descend p (.obj b)))
  below : ¬ (Data.obj o).Stops p → Data.descend p (.obj o) = none →
    Data.descend p (.obj m) = Data.descend p (.obj b)

section Decides

variable {m : List (String × Data)} {k : String} {ks : List String}

theorem descend_of_find? {v : Data} {es : List (String × Data)} (found : Data.find? k es = some v) (ks : List String) :
    Data.descend (k :: ks) (.obj es) = Data.descend ks v := by rw [Data.descend_cons, found, Option.bind_some]

theorem stops_cons_of_find? {v : Data} (found : Data.find? k o = some v) :
    (Data.obj o).Stops (k :: ks) ↔ v.Stops ks := by
  rw [Data.stops_cons_iff]
  exact ⟨fun ⟨x, there, stops⟩ => Option.some.inj (found.symm.trans there) ▸ stops, fun stops => ⟨v, found, stops⟩⟩

/-- Nothing is above. -/
theorem Decides.of_none (above : Data.find? k o = none) (rule : Data.find? k m = Data.find? k b) :
    Decides o b m (k :: ks) := by
  refine ⟨fun stops => ?_, fun inner there => ?_, fun _ _ => by rw [Data.descend_cons, rule, Data.descend_cons]⟩
  · obtain ⟨v, found, -⟩ := Data.stops_cons_iff.1 stops
    rw [above] at found
    cases found
  · rw [Data.descend_cons, above] at there
    cases there

/-- What is above is no table, and ends the path. -/
theorem Decides.of_flat {v : Data} (flat : ∀ es, v ≠ .obj es) (above : Data.find? k o = some v)
    (rule : Data.find? k m = some v) : Decides o b m (k :: ks) := by
  have own := descend_of_find? above ks
  refine ⟨fun _ => (descend_of_find? rule ks).trans own.symm, fun inner there => ?_, fun through _ => ?_⟩
  · rw [own] at there
    exact absurd there (Data.bind_descend_ne_obj (fun es same => flat es (Option.some.inj same)) ks inner)
  · exact absurd ((stops_cons_of_find? above).2 (Data.stops_of_flat flat ks)) through

/-- Both have a table, and the path goes on in them. -/
theorem Decides.of_tables {inner old below : List (String × Data)} (above : Data.find? k o = some (.obj inner))
    (lower : Data.find? k b = some (.obj old)) (rule : Data.find? k m = some (.obj below))
    (further : Decides inner old below ks) : Decides o b m (k :: ks) := by
  have own := descend_of_find? above ks
  have merged := descend_of_find? rule ks
  have beneath := descend_of_find? lower ks
  have stops : (Data.obj o).Stops (k :: ks) ↔ (Data.obj inner).Stops ks := stops_cons_of_find? above
  exact ⟨fun h => by rw [merged, own, further.above (stops.1 h)],
    fun deeper there => by rw [merged, beneath, further.both deeper (own ▸ there)],
    fun h there => by rw [merged, beneath, further.below (fun s => h (stops.2 s)) (own ▸ there)]⟩

/-- The table above is taken as a whole. -/
theorem Decides.of_whole {inner : List (String × Data)} (above : Data.find? k o = some (.obj inner))
    (flat : ∀ old, Data.find? k b ≠ some (.obj old)) (rule : Data.find? k m = some (.obj inner)) :
    Decides o b m (k :: ks) := by
  have own := descend_of_find? above ks
  have merged := (descend_of_find? rule ks).trans own.symm
  refine ⟨fun _ => merged, fun deeper there => ?_, fun _ there => ?_⟩
  · rw [merged, there, Data.descend_cons, laid_obj deeper (Data.bind_descend_ne_obj flat ks)]
  · rw [merged, there, Data.descend_cons]
    cases ks with
    | nil =>
      rw [own] at there
      cases there
    | cons l ks =>
      cases found : Data.find? k b with
      | none => rfl
      | some x => rw [Option.bind_some, Data.descend_of_flat fun es same => flat es (same ▸ found)]

/-- **The rule for a path**, at any depth. -/
theorem descend_merge (ho : (Data.obj o).Keyed) (p : List String) : Decides o b (merge o b) p := by
  induction p generalizing o b with
  | nil =>
    refine ⟨fun stops => absurd stops (Data.not_stops_nil o), fun inner there => ?_, fun _ none => nomatch none⟩
    rw [Data.descend, Option.some.injEq, Data.obj.injEq] at there
    rw [← there]
    rfl
  | cons k ks ih =>
    have rule := find?_merge (b := b) (Data.keyed_obj_iff.1 ho).1 k
    cases above : Data.find? k o with
    | none =>
      rw [above, Option.map_none, Option.none_or] at rule
      exact .of_none above rule
    | some v =>
      rw [above, Option.map_some, Option.some_or] at rule
      by_cases flat : ∀ es, v ≠ .obj es
      · rw [laid_of_flat flat] at rule
        exact .of_flat flat above rule
      · obtain ⟨inner, rfl⟩ := not_forall_not.1 flat
        by_cases below : ∃ old, Data.find? k b = some (.obj old)
        · obtain ⟨old, below⟩ := below
          rw [below, laid] at rule
          exact .of_tables above below rule (ih (keyed_of_find? ho above))
        · rw [laid_obj inner (not_exists.1 below)] at rule
          exact .of_whole above (not_exists.1 below) rule

end Decides

end Config

/-! ### Equal tables -/

namespace Data

/-- Data without not-a-number, which equals nothing. -/
def IsComparable (d : Data) : Prop := d.All fun
  | .float x => x.isNaN = false
  | _ => True

theorem number?_same_self {d : Data} {a : Number} (h : d.IsComparable) (number : d.number? = some a) :
    a.same a = true := by
  cases d with
  | bool => cases number; exact beq_self_eq_true _
  | int => cases number; exact beq_self_eq_true _
  | float x =>
    cases number
    have number : x.isNaN = false := h
    refine Real64.beq_iff.2 ⟨fun nan => ?_, .inl rfl⟩
    change x.toModel.unpack.isNaN = false at number
    rw [nan] at number
    cases number
  | _ => cases number

theorem same_self_of_comparable {d : Data} (keyed : d.Keyed) (h : d.IsComparable) : d.same d = true := by
  induction d using byParts with
  | arr xs ih =>
    rw [keyed_arr_iff] at keyed
    refine same_arr_iff.2 fun i => ?_
    cases there : xs[i]? with
    | none => exact .none
    | some x =>
      have mem := List.mem_of_getElem? there
      exact .some (ih x mem (keyed x mem) ((all_arr_iff.1 h).2 x mem))
  | obj es ih =>
    rw [keyed_obj_iff] at keyed
    refine (same_obj_iff keyed.1 keyed.1).2 fun k => ?_
    cases there : find? k es with
    | none => exact .none
    | some x =>
      have mem := Check.mem_of_find? there
      exact .some (ih (k, x) mem (keyed.2 (k, x) mem) ((all_obj_iff.1 h).2 (k, x) mem))
  | flat d flat =>
    refine (same_flat_iff flat).2 ?_
    cases number : d.number? with
    | none => exact .inl ⟨rfl, rfl⟩
    | some a => exact .inr ⟨a, a, rfl, rfl, number?_same_self h number⟩

end Data

namespace Config

theorem same_laid {v v' : Data} (same : v.same v' = true) {old : Option Data}
    (tables : ∀ i i' j, v = .obj i → v' = .obj i' → old = some (.obj j) →
      (Data.obj (merge i j)).same (.obj (merge i' j)) = true) : (laid v old).same (laid v' old) = true := by
  by_cases flat : ∀ es, v ≠ .obj es
  · have flat' : ∀ es, v' ≠ .obj es := by
      rintro es rfl
      cases v <;> first
        | exact flat _ rfl
        | simp [Data.same, Data.sameNumber, Data.number?] at same
    rwa [laid_of_flat flat, laid_of_flat flat']
  · obtain ⟨i, rfl⟩ := not_forall_not.1 flat
    obtain ⟨i', rfl⟩ := Data.exists_obj_of_same same
    by_cases below : ∃ j, old = some (.obj j)
    · obtain ⟨j, rfl⟩ := below
      exact tables i i' j rfl rfl rfl
    · rwa [laid_obj i (not_exists.1 below), laid_obj i' (not_exists.1 below)]

/-- **Equal tables that are put over one table give equal ones.** -/
theorem same_merge {o' : List (String × Data)} (ho : (Data.obj o).Keyed) (ho' : (Data.obj o').Keyed)
    (hb : (Data.obj b).Keyed) (free : (Data.obj b).IsComparable) (same : (Data.obj o).same (.obj o') = true) :
    (Data.obj (merge o b)).same (.obj (merge o' b)) = true := by
  induction o, ho using byTables generalizing o' b with
  | step o ho ih =>
    have distinct := (Data.keyed_obj_iff.1 ho).1
    have distinct' := (Data.keyed_obj_iff.1 ho').1
    have distinctBelow := (Data.keyed_obj_iff.1 hb).1
    rw [Data.same_obj_iff distinct distinct'] at same
    rw [Data.same_obj_iff (nodup_merge distinct distinctBelow) (nodup_merge distinct' distinctBelow)]
    intro k
    have own := same k
    rw [find?_merge distinct, find?_merge distinct']
    cases above : Data.find? k o with
    | none =>
      rw [above] at own
      rw [own.eq_none_iff.1 rfl]
      cases below : Data.find? k b with
      | none => exact .none
      | some x =>
        have mem := Check.mem_of_find? below
        exact .some (Data.same_self_of_comparable (keyed_of_find? hb below) ((Data.all_obj_iff.1 free).2 (k, x) mem))
    | some v =>
      rw [above] at own
      cases above' : Data.find? k o' with
      | none =>
        rw [above'] at own
        cases own
      | some v' =>
        rw [above', Data.sameAt_some] at own
        refine .some (same_laid own ?_)
        rintro i i' j rfl rfl below
        exact ih k i above (keyed_of_find? ho' above') (keyed_of_find? hb below)
          ((Data.all_obj_iff.1 free).2 (k, .obj j) (Check.mem_of_find? below)) own

end Config

end ServerTrial
