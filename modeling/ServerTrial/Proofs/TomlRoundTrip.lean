import ServerTrial.Proofs.TomlTables

/-!
# Tables read back

* `Toml.Leads`: a name leads to a table in the draft of a document, or to nothing yet where the table is empty;
* `Toml.Marks.Clear`: nothing keeps a table from being opened under a name;
* `Toml.section_lines`: on a draft where both hold, the lines of a table put the table under its name; by induction on
  the table the marks that they leave lie below the name, and so apart from the tables beside it;
* `Toml.ofToml_toToml`: a table that is written is read back, its tables behind its other entries.
-/

namespace ServerTrial.Toml

/-! ### Changes in a table -/

variable {through : Bool} {f g : Entries → Option Entries}

theorem changeAt_append (ks js : List String) (es : Entries) :
    changeAt through f (ks ++ js) es = changeAt through (changeAt through f js) ks es := by
  induction ks generalizing es with
  | nil => rfl
  | cons k ks ih => simp only [List.cons_append, changeAt, ih]

theorem changeAt_put_obj (k : String) (ks : List String) (inner es : Entries) :
    changeAt through f (k :: ks) (Data.put k (.obj inner) es) =
      (changeAt through f ks inner).map fun inner => Data.put k (.obj inner) es := by
  rw [changeAt, Data.find?_put, if_pos rfl]
  simp only [Data.put_put]

theorem changeAt_put_arr (k : String) (ks : List String) (items : List Data) (inner es : Entries) :
    changeAt true f (k :: ks) (Data.put k (.arr (items ++ [.obj inner])) es) =
      (changeAt true f ks inner).map fun inner => Data.put k (.arr (items ++ [.obj inner])) es := by
  rw [changeAt, Data.find?_put, if_pos rfl]
  simp [Data.put_put]

/-- A change after a change is one change. -/
theorem changeAt_bind (ks : List String) (es : Entries) :
    (changeAt through f ks es).bind (changeAt through g ks) = changeAt through (fun t => (f t).bind g) ks es := by
  induction ks generalizing es with
  | nil => rfl
  | cons k ks ih =>
    have below (old : Entries) {set : Entries → Entries}
        (again : ∀ inner, changeAt through g (k :: ks) (set inner) = (changeAt through g ks inner).map set) :
        ((changeAt through f ks old).map set).bind (changeAt through g (k :: ks)) =
          (changeAt through (fun t => (f t).bind g) ks old).map set := by
      rw [← ih, Option.bind_map, Option.map_bind]
      exact Option.bind_congr fun inner _ => again inner
    rw [changeAt, changeAt]
    split
    · exact below [] fun inner => changeAt_put_obj k ks inner es
    · next old _ => exact below old fun inner => changeAt_put_obj k ks inner es
    · split
      · next arrays =>
        subst arrays
        split
        · next items _ _ old _ => exact below old fun inner => changeAt_put_arr k ks items.dropLast inner es
        · rfl
      · rfl
    · rfl

/-! ### The table at a name -/

/-- A name leads to a table, or to nothing yet and the table is empty; `put` puts another one there. -/
def Leads (es : Entries) (name : List String) (t : Entries) (put : Entries → Entries) : Prop :=
  ∀ f, changeAt true f name es = (f t).map put

namespace Leads

variable {es t : Entries} {name : List String} {put : Entries → Entries}

theorem here (es : Entries) : Leads es [] es id := by
  intro f
  rw [Option.map_id]
  rfl

/-- What has been put there is there. -/
theorem again (leads : Leads es name t put) (t' : Entries) : Leads (put t') name t' put := by
  intro f
  have set : changeAt true (fun _ => some t') name es = some (put t') := leads _
  have both : (changeAt true (fun _ => some t') name es).bind (changeAt true f name) =
      changeAt true (fun _ => f t') name es := changeAt_bind name es
  rw [set, leads] at both
  exact both

/-- Below the table nothing has a key that it has not. -/
theorem below (leads : Leads es name t put) {k : String} (fresh : k ∉ t.map Prod.fst) :
    Leads es (name ++ [k]) [] fun inner => put (t ++ [(k, .obj inner)]) := by
  intro f
  rw [changeAt_append, leads, changeAt, Data.find?_eq_none fresh, Option.map_map]
  refine congrArg (fun set => Option.map set (f [])) (funext fun inner => ?_)
  exact congrArg put (Data.put_of_not_mem fresh)

end Leads

/-! ### What may still be opened -/

namespace Marks

/-- No mark stands at a name or below it, nor does one freeze it from above. -/
structure Clear (m : Marks) (name : List String) : Prop where
  opened : ∀ p ∈ m.opened, ¬ name <+: p
  frozen : ∀ p ∈ m.frozen, ¬ name <+: p ∧ ¬ p <+: name

/-- New marks are where they may be. -/
structure Grows (opened frozen : List String → Prop) (m m' : Marks) : Prop where
  opened : ∀ p ∈ m'.opened, p ∈ m.opened ∨ opened p
  frozen : ∀ p ∈ m'.frozen, p ∈ m.frozen ∨ frozen p

variable {m m' m'' : Marks} {name : List String} {o o' f f' : List String → Prop}

theorem Grows.refl (m : Marks) : Grows o f m m := ⟨fun _ => .inl, fun _ => .inl⟩

theorem Grows.trans (first : Grows o f m m') (second : Grows o f m' m'') : Grows o f m m'' :=
  ⟨fun p mem => (second.opened p mem).elim (first.opened p) .inr,
    fun p mem => (second.frozen p mem).elim (first.frozen p) .inr⟩

theorem Grows.imp (grows : Grows o f m m') (opened : ∀ p, o p → o' p) (frozen : ∀ p, f p → f' p) : Grows o' f' m m' :=
  ⟨fun p mem => (grows.opened p mem).imp_right (opened p), fun p mem => (grows.frozen p mem).imp_right (frozen p)⟩

theorem Clear.isOpened (clear : m.Clear name) : m.isOpened name = false := by
  rw [Marks.isOpened, ← Bool.not_eq_true, List.contains_iff_mem]
  exact fun mem => clear.opened name mem (List.prefix_refl name)

theorem isFrozen_eq_false (clear : ∀ p ∈ m.frozen, ¬ p <+: name) : m.isFrozen name = false := by
  rw [Marks.isFrozen, List.any_eq_false]
  intro p mem frozen
  exact clear p mem (List.isPrefixOf_iff_prefix.1 frozen)

/-- What is marked apart from a name leaves it clear. -/
theorem Clear.grows (clear : m.Clear name) (grows : Grows o f m m') (opened : ∀ p, o p → ¬ name <+: p)
    (frozen : ∀ p, f p → ¬ name <+: p ∧ ¬ p <+: name) : m'.Clear name where
  opened p mem := (grows.opened p mem).elim (clear.opened p) (opened p)
  frozen p mem := (grows.frozen p mem).elim (clear.frozen p) (frozen p)

theorem Clear.below (clear : m.Clear name) (k : String) : m.Clear (name ++ [k]) where
  opened p mem within := clear.opened p mem ((List.prefix_append name [k]).trans within)
  frozen p mem := by
    obtain ⟨low, high⟩ := clear.frozen p mem
    refine ⟨fun within => low ((List.prefix_append name [k]).trans within), fun above => ?_⟩
    rcases List.prefix_concat_iff.1 above with rfl | above
    · exact low (List.prefix_append name [k])
    · exact high above

end Marks

/-- Names of tables in one table lie apart, and so does what is below them. -/
theorem apart_of_ne {name p : List String} {k k' : String} (ne : k ≠ k') (within : name ++ [k'] <+: p) :
    ¬ name ++ [k] <+: p ∧ ¬ p <+: name ++ [k] := by
  have differ : ¬ name ++ [k] <+: name ++ [k'] := by
    rw [List.prefix_append_right_inj]
    simpa using ne
  have differ' : ¬ name ++ [k'] <+: name ++ [k] := by
    rw [List.prefix_append_right_inj]
    simpa using ne.symm
  refine ⟨fun low => ?_, fun high => differ' (within.trans high)⟩
  exact (List.prefix_or_prefix_of_prefix low within).elim differ differ'

/-! ### Lines of a table -/

variable {es t : Entries} {name : List String} {put : Entries → Entries} {d : Draft}

/-- Opens a table that is not there or empty. -/
theorem openTable_of_clear (settled : d.pending = []) (clear : d.marks.Clear name)
    (leads : Leads d.entries name t put) :
    d.openTable name = some { d with entries := put t, table := name, marks := d.marks.addOpened name } := by
  have kept : d.settle = d := by
    obtain ⟨es, table, marks, pending⟩ := d
    cases settled
    rfl
  rw [Draft.openTable, kept, clear.isOpened, Marks.isFrozen_eq_false fun p mem => (clear.frozen p mem).2, leads]
  rfl

/-- Adds an entry to the open table. -/
theorem add_of_fresh {k : String} {x : Data} (thawed : ∀ p ∈ d.marks.frozen, ¬ p <+: d.table)
    (leads : Leads d.entries d.table t put) (fresh : k ∉ t.map Prod.fst) :
    d.add [k] x = some { d with
      entries := put (t ++ [(k, x)])
      marks := if isContainer x then d.marks.addFrozen (d.table ++ [k]) else d.marks } := by
  have through : Draft.passed d.table [k] = [] := rfl
  have parent : d.table ++ [k].dropLast = d.table := List.append_nil _
  have added : addNew k x t = some (t ++ [(k, x)]) := by
    rw [addNew, Data.find?_eq_none fresh]
    rfl
  have last : [k].getLastD "" = k := rfl
  rw [Draft.add, through, parent, Marks.isFrozen_eq_false thawed, last, leads, added]
  simp

/-- Adds entries to the open table. -/
theorem add_entries {more : Entries} (distinct : ((t ++ more).map Prod.fst).Nodup)
    (thawed : ∀ p ∈ d.marks.frozen, ¬ p <+: d.table) (leads : Leads d.entries d.table t put)
    (held : d.entries = put t) :
    ∃ d', (more.map fun e => Line.entry e.1 e.2).foldlM Line.step d = some d' ∧ d'.pending = d.pending ∧
      d'.entries = put (t ++ more) ∧
      Marks.Grows (fun _ => False) (fun p => ∃ e ∈ more, p = d.table ++ [e.1]) d.marks d'.marks := by
  induction more generalizing d t with
  | nil => exact ⟨d, rfl, rfl, by rw [held, List.append_nil], .refl _⟩
  | cons e more ih =>
    have fresh : e.1 ∉ t.map Prod.fst := by
      rw [List.map_append, List.map_cons, List.nodup_append] at distinct
      exact fun mem => distinct.2.2 _ mem _ List.mem_cons_self rfl
    have added := add_of_fresh (x := e.2) thawed leads fresh
    have grows : Marks.Grows (fun _ => False) (fun p => ∃ e' ∈ e :: more, p = d.table ++ [e'.1]) d.marks
        (if isContainer e.2 then d.marks.addFrozen (d.table ++ [e.1]) else d.marks) := by
      split
      · refine ⟨fun _ => .inl, fun p mem => (List.mem_cons.1 mem).symm.imp_right fun same => ?_⟩
        exact ⟨e, List.mem_cons_self, same⟩
      · exact .refl _
    have thawed' : ∀ p ∈ (if isContainer e.2 then d.marks.addFrozen (d.table ++ [e.1]) else d.marks).frozen,
        ¬ p <+: d.table := by
      intro p mem above
      obtain old | ⟨e', -, rfl⟩ := grows.frozen p mem
      · exact thawed p old above
      · exact absurd above.length_le (by simp)
    obtain ⟨d', told, settled, entries, grown⟩ := ih (d := { d with
        entries := put (t ++ [(e.1, e.2)])
        marks := if isContainer e.2 then d.marks.addFrozen (d.table ++ [e.1]) else d.marks })
      (by rwa [List.append_assoc]) thawed' (leads.again _) rfl
    refine ⟨d', ?_, settled, by rw [entries, List.append_assoc]; rfl, grows.trans (grown.imp (fun _ => id) ?_)⟩
    · rw [List.map_cons, List.foldlM_cons]
      exact (congrArg (Option.bind · _) added).trans told
    · rintro p ⟨e', mem, same⟩
      exact ⟨e', List.mem_cons_of_mem _ mem, same⟩

mutual

/-- A table as it is read back: its tables come last. -/
def arranged : Data → Data
  | .obj entries => .obj (inLine entries ++ tables entries)
  | x => x

/-- The tables in a table as they are read back. -/
def tables : Entries → Entries
  | [] => []
  | (k, .obj inner) :: rest => (k, arranged (.obj inner)) :: tables rest
  | _ :: rest => tables rest

end

theorem tables_cons_of_inLine {k : String} {x : Data} (inLine : isSection x = false) (rest : Entries) :
    tables ((k, x) :: rest) = tables rest := by
  cases x with
  | obj inner => cases inLine
  | _ => rfl

theorem tables_append (entries more : Entries) : tables (entries ++ more) = tables entries ++ tables more := by
  induction entries with
  | nil => rfl
  | cons e entries ih =>
    obtain ⟨k, x⟩ := e
    cases x with
    | obj inner => exact congrArg (_ :: ·) ih
    | _ => exact ih

theorem innerLines_cons_of_inLine {k : String} {x : Data} (inLine : isSection x = false) (name : List String)
    (rest : Entries) : innerLines name ((k, x) :: rest) = innerLines name rest := by
  cases x with
  | obj inner => cases inLine
  | _ => rfl

/-- No key is lost. -/
theorem Tabular.keys {entries : Entries} (tabular : Tabular entries) :
    ((inLine entries ++ tables entries).map Prod.fst).Perm (entries.map Prod.fst) := by
  induction tabular with
  | nil => exact .refl _
  | plain _ _ plain _ _ ih =>
    rw [inLine, List.filter_cons, plain, tables_cons_of_inLine plain]
    exact .cons _ ih
  | table _ _ _ _ _ ih =>
    rw [tables, List.map_append, List.map_cons]
    refine List.perm_middle.trans (.cons _ ?_)
    rwa [List.map_append] at ih

theorem Tabular.nodup {entries : Entries} (tabular : Tabular entries) :
    ((inLine entries ++ tables entries).map Prod.fst).Nodup := by
  refine tabular.keys.nodup_iff.2 ?_
  induction tabular with
  | nil => exact List.nodup_nil
  | plain _ fresh _ _ _ ih => exact List.nodup_cons.2 ⟨fresh, ih⟩
  | table _ fresh _ _ _ ih => exact List.nodup_cons.2 ⟨fresh, ih⟩

theorem foldlM_blanks (parts : List (List Line)) (d : Draft) :
    ([Line.blank].intercalate parts).foldlM Line.step d = parts.flatten.foldlM Line.step d := by
  induction parts generalizing d with
  | nil => rfl
  | cons part parts ih =>
    cases parts with
    | nil => rw [List.intercalate_singleton, List.flatten_singleton]
    | cons part' parts =>
      rw [List.intercalate_cons_cons, List.flatten_cons, List.append_assoc, List.foldlM_append, List.foldlM_append]
      refine congrArg _ (funext fun d' => ?_)
      rw [List.singleton_append, List.foldlM_cons]
      exact ih d'

/-- The first lines of a table, on a draft that lacks it. -/
theorem own_lines {entries : Entries} (tabular : Tabular entries) (alone : Bool) (settled : d.pending = [])
    (clear : d.marks.Clear name) (leads : Leads d.entries name [] put)
    (root : name = [] → d.table = [] ∧ d.entries = put []) :
    ∃ d', (ownLines name entries alone).foldlM Line.step d = some d' ∧ d'.pending = [] ∧
      Leads d'.entries name (inLine entries) put ∧ (alone = true → d'.entries = put (inLine entries)) ∧
      Marks.Grows (· = name) (fun p => ∃ e ∈ inLine entries, p = name ++ [e.1]) d.marks d'.marks := by
  have distinct : (([] ++ inLine entries).map Prod.fst).Nodup := by
    have all := tabular.nodup
    rw [List.map_append, List.nodup_append] at all
    exact all.1
  unfold ownLines
  by_cases named : name = []
  · obtain ⟨top, held⟩ := root named
    subst named
    rw [← top] at leads
    obtain ⟨d', told, settled', entries', grown⟩ := add_entries distinct
      (by rw [top]; exact fun p mem above => (clear.frozen p mem).1 List.nil_prefix) leads held
    refine ⟨d', told, settled'.trans settled, ?_, fun _ => entries', grown.imp (fun _ => False.elim) fun p => ?_⟩
    · rw [entries', ← top]
      exact leads.again _
    · rw [top]
      exact id
  · by_cases shown : (!name.isEmpty && (!(inLine entries).isEmpty || alone)) = true
    · have opened := openTable_of_clear settled clear leads
      have grows : Marks.Grows (· = name) (fun p => ∃ e ∈ inLine entries, p = name ++ [e.1]) d.marks
          (d.marks.addOpened name) :=
        ⟨fun p mem => (List.mem_cons.1 mem).symm, fun _ => .inl⟩
      obtain ⟨d', told, settled', entries', grown⟩ := add_entries distinct
        (d := { d with entries := put [], table := name, marks := d.marks.addOpened name })
        (fun p mem above => (clear.frozen p mem).2 above) (leads.again []) rfl
      refine ⟨d', ?_, settled'.trans settled, ?_, fun _ => entries',
        grows.trans (grown.imp (fun _ => False.elim) fun _ => id)⟩
      · rw [if_pos shown, List.singleton_append, List.foldlM_cons]
        exact (congrArg (Option.bind · _) opened).trans told
      · rw [entries']
        exact leads.again _
    · have empty : inLine entries = [] ∧ alone = false := by
        rw [Bool.and_eq_true, Bool.not_eq_true', List.isEmpty_eq_false_iff, Bool.or_eq_true, not_and, not_or,
          Bool.not_eq_true', Bool.not_eq_false, List.isEmpty_iff, Bool.not_eq_true] at shown
        exact shown named
      rw [if_neg shown, empty.1]
      refine ⟨d, rfl, settled, leads, fun told => ?_, .refl _⟩
      cases told.symm.trans empty.2

/-- The lines of the tables in a table put these behind what has been read of it. -/
def ReadsTables (entries : Entries) : Prop :=
  ∀ {name : List String} {t : Entries} {put : Entries → Entries} {d : Draft}, d.pending = [] →
    Leads d.entries name t put → ((innerLines name entries).isEmpty = true → d.entries = put t) →
    (∀ k ∈ (tables entries).map Prod.fst, k ∉ t.map Prod.fst ∧ d.marks.Clear (name ++ [k])) →
    ∃ d', (innerLines name entries).flatten.foldlM Line.step d = some d' ∧ d'.pending = [] ∧
      d'.entries = put (t ++ tables entries) ∧
      Marks.Grows (fun p => ∃ k ∈ (tables entries).map Prod.fst, name ++ [k] <+: p)
        (fun p => ∃ k ∈ (tables entries).map Prod.fst, name ++ [k] <+: p) d.marks d'.marks

/-- The lines of a table put it, as it is arranged, where nothing has been. -/
theorem section_lines {entries : Entries} (tabular : Tabular entries) (inner : ReadsTables entries)
    (settled : d.pending = []) (clear : d.marks.Clear name) (leads : Leads d.entries name [] put)
    (root : name = [] → d.table = [] ∧ d.entries = put []) :
    ∃ d', (linesOf name (.obj entries)).foldlM Line.step d = some d' ∧ d'.pending = [] ∧
      d'.entries = put (inLine entries ++ tables entries) ∧ Marks.Grows (name <+: ·) (name <+: ·) d.marks d'.marks := by
  obtain ⟨d₁, told, settled₁, leads₁, held, grown⟩ :=
    own_lines tabular (innerLines name entries).isEmpty settled clear leads root
  have distinct := tabular.nodup
  rw [List.map_append, List.nodup_append] at distinct
  have free : ∀ k ∈ (tables entries).map Prod.fst,
      k ∉ (inLine entries).map Prod.fst ∧ d₁.marks.Clear (name ++ [k]) := by
    intro k mem
    refine ⟨fun twice => distinct.2.2 k twice k mem rfl, (clear.below k).grows grown ?_ ?_⟩
    · rintro p rfl within
      exact absurd within.length_le (by simp)
    · rintro p ⟨e, among, rfl⟩
      refine apart_of_ne ?_ (List.prefix_refl _)
      rintro rfl
      exact distinct.2.2 _ (List.mem_map_of_mem among) _ mem rfl
  have below (p : List String) : (∃ k ∈ (tables entries).map Prod.fst, name ++ [k] <+: p) → name <+: p := by
    rintro ⟨k, -, within⟩
    exact (List.prefix_append _ _).trans within
  obtain ⟨d₂, told', settled₂, entries₂, grown'⟩ := inner settled₁ leads₁ held free
  refine ⟨d₂, ?_, settled₂, entries₂, (grown.imp ?_ ?_).trans (grown'.imp below below)⟩
  · rw [linesOf, sectionLines, foldlM_blanks, List.flatten_append]
    have own : (if (ownLines name entries (innerLines name entries).isEmpty).isEmpty then []
        else [ownLines name entries (innerLines name entries).isEmpty]).flatten =
        ownLines name entries (innerLines name entries).isEmpty := by
      split
      · next none => rw [List.isEmpty_iff.1 none, List.flatten_nil]
      · exact List.flatten_singleton
    rw [own, List.foldlM_append, told]
    exact told'
  · rintro p rfl
    exact List.prefix_refl _
  · rintro p ⟨e, -, rfl⟩
    exact List.prefix_append _ _

theorem Tabular.readsTables {entries : Entries} (tabular : Tabular entries) : ReadsTables entries := by
  induction tabular with
  | nil =>
    intro name t put d settled leads held free
    exact ⟨d, rfl, settled, by rw [held rfl]; exact congrArg put (List.append_nil t).symm, .refl _⟩
  | @plain k x rest _ _ plain _ _ ih =>
    intro name t put d settled leads held free
    have none : innerLines name ((k, x) :: rest) = innerLines name rest := innerLines_cons_of_inLine plain name rest
    rw [none] at held ⊢
    rw [tables_cons_of_inLine plain] at free ⊢
    exact ih settled leads held free
  | @table k inner rest _ fresh own behind ihOwn ih =>
    intro name t put d settled leads held free
    rw [tables, List.map_cons] at free
    obtain ⟨⟨new, clear⟩, others⟩ := List.forall_mem_cons.1 free
    obtain ⟨d₁, told, settled₁, entries₁, grown⟩ := section_lines own ihOwn settled clear (leads.below new) (by simp)
    have leads₁ : Leads d₁.entries name (t ++ [(k, .obj (inLine inner ++ tables inner))]) put := by
      rw [entries₁]
      exact leads.again _
    have free₁ : ∀ k' ∈ (tables rest).map Prod.fst,
        k' ∉ (t ++ [(k, Data.obj (inLine inner ++ tables inner))]).map Prod.fst ∧ d₁.marks.Clear (name ++ [k']) := by
      intro k' mem
      have ne : k' ≠ k := by
        rintro rfl
        refine fresh (behind.keys.subset ?_)
        rw [List.map_append]
        exact List.mem_append_right _ mem
      obtain ⟨away, clear'⟩ := others k' mem
      refine ⟨?_, clear'.grows grown (fun p within => (apart_of_ne ne within).1) fun p => apart_of_ne ne⟩
      rw [List.map_append, List.mem_append, not_or]
      exact ⟨away, by simpa using ne⟩
    obtain ⟨d₂, told', settled₂, entries₂, grown'⟩ := ih settled₁ leads₁ (fun _ => entries₁) free₁
    have first (p : List String) (within : name ++ [k] <+: p) :
        ∃ k' ∈ (tables ((k, Data.obj inner) :: rest)).map Prod.fst, name ++ [k'] <+: p :=
      ⟨k, List.mem_cons_self, within⟩
    have later (p : List String) : (∃ k' ∈ (tables rest).map Prod.fst, name ++ [k'] <+: p) →
        ∃ k' ∈ (tables ((k, Data.obj inner) :: rest)).map Prod.fst, name ++ [k'] <+: p := by
      rintro ⟨k', mem, within⟩
      exact ⟨k', List.mem_cons_of_mem _ mem, within⟩
    refine ⟨d₂, ?_, settled₂, ?_, (grown.imp first first).trans (grown'.imp later later)⟩
    · rw [innerLines, List.flatten_cons, List.foldlM_append, told]
      exact told'
    · rw [entries₂, List.append_assoc]
      rfl

/-- **A table is read back**, its tables behind its other entries. -/
theorem ofToml_toToml {entries : Entries} (tabular : Tabular entries) :
    Data.ofToml ((Data.toToml entries).getD "") = .ok (inLine entries ++ tables entries) := by
  have clear : Marks.none.Clear [] := ⟨List.forall_mem_nil _, List.forall_mem_nil _⟩
  obtain ⟨d, told, -, held, -⟩ := section_lines (d := .empty) tabular tabular.readsTables rfl clear (.here []) fun _ =>
    ⟨rfl, rfl⟩
  obtain ⟨text, written, chars, sound⟩ := toToml_lines tabular
  rw [written, ← show d.entries = inLine entries ++ tables entries from held]
  exact ofToml_lines chars sound told

end ServerTrial.Toml
