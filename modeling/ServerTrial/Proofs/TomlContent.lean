import ServerTrial.Toml.Document
import ServerTrial.Toml.Writer
import ServerTrial.Proofs.Results
import ServerTrial.Proofs.SameData

/-!
# What TOML documents hold

* `Data.Tidy`: no null, and no key twice in a table;
* `Toml.changeAt_tidy`: a change at the end of a key keeps the document tidy;
* `Toml.ofToml_tidy`: a document that is read is tidy;
* `Toml.isSome_toToml_iff`: a table has a TOML text exactly if nothing in it is null, as in what is tidy.
-/

namespace ServerTrial

namespace Data

/-- Not null, and no table with a key twice. -/
def IsTidy : Data → Prop
  | null => False
  | obj es => (es.map Prod.fst).Nodup
  | _ => True

/-- All places are such as TOML documents have. -/
def Tidy (d : Data) : Prop := d.All IsTidy

theorem tidy_arr_iff {xs : List Data} : (arr xs).Tidy ↔ ∀ x ∈ xs, x.Tidy := all_arr_iff.trans (and_iff_right trivial)

theorem tidy_obj_iff {es : List (String × Data)} :
    (obj es).Tidy ↔ (es.map Prod.fst).Nodup ∧ ∀ e ∈ es, e.2.Tidy := all_obj_iff

/-- No place is null. -/
def NullFree (d : Data) : Prop := d.All (· ≠ null)

theorem nullFree_arr_iff {xs : List Data} : (arr xs).NullFree ↔ ∀ x ∈ xs, x.NullFree := by
  simp [NullFree, all_arr_iff]

theorem nullFree_obj_iff {es : List (String × Data)} : (obj es).NullFree ↔ ∀ e ∈ es, e.2.NullFree := by
  simp only [NullFree, all_obj_iff, ne_eq, reduceCtorEq, not_false_eq_true, true_and]

theorem tidy_nil : (obj []).Tidy := tidy_obj_iff.2 ⟨List.nodup_nil, List.forall_mem_nil _⟩

theorem Tidy.keyed {d : Data} (tidy : d.Tidy) : d.Keyed := by
  induction d using byParts with
  | arr xs ih => exact keyed_arr_iff.2 fun x hx => ih x hx (tidy_arr_iff.1 tidy x hx)
  | obj es ih =>
    exact keyed_obj_iff.2 ⟨(tidy_obj_iff.1 tidy).1, fun e he => ih e he ((tidy_obj_iff.1 tidy).2 e he)⟩
  | flat d flat => exact keyed_of_flat flat

theorem Tidy.nullFree {d : Data} (tidy : d.Tidy) : d.NullFree := by
  induction d using byParts with
  | arr xs ih => exact nullFree_arr_iff.2 fun x hx => ih x hx (tidy_arr_iff.1 tidy x hx)
  | obj es ih => exact nullFree_obj_iff.2 fun e he => ih e he ((tidy_obj_iff.1 tidy).2 e he)
  | flat d flat =>
    cases d with
    | null => exact tidy.elim
    | arr => cases flat
    | obj => cases flat
    | _ => exact nofun

theorem Tidy.put {es : List (String × Data)} (tidy : (obj es).Tidy) (k : String) {x : Data} (own : x.Tidy) :
    (obj (put k x es)).Tidy := by
  rw [tidy_obj_iff] at tidy ⊢
  refine ⟨nodup_put tidy.1, fun e mem => ?_⟩
  rcases mem_put mem with rfl | mem
  · exact own
  · exact tidy.2 e mem

end Data

namespace Toml

/-! ### Reading -/

theorem tidy_of_find? {k : String} {x : Data} {es : Entries} (tidy : (Data.obj es).Tidy)
    (found : Data.find? k es = some x) : x.Tidy := (Data.tidy_obj_iff.1 tidy).2 (k, x) (Check.mem_of_find? found)

/-- **A change at the end of a key** keeps the document tidy, if it keeps the table there tidy. -/
theorem changeAt_tidy {through : Bool} {f : Entries → Option Entries}
    (change : ∀ es es', (Data.obj es).Tidy → f es = some es' → (Data.obj es').Tidy) {ks : List String}
    {es es' : Entries} (tidy : (Data.obj es).Tidy) (changed : changeAt through f ks es = some es') :
    (Data.obj es').Tidy := by
  induction ks generalizing es es' with
  | nil => exact change es es' tidy changed
  | cons k ks ih =>
    rw [changeAt] at changed
    split at changed
    · obtain ⟨inner, below, rfl⟩ := Option.map_eq_some_iff.1 changed
      exact tidy.put k (ih Data.tidy_nil below)
    · next old found =>
      obtain ⟨inner, below, rfl⟩ := Option.map_eq_some_iff.1 changed
      exact tidy.put k (ih (tidy_of_find? tidy found) below)
    · next items found =>
      split at changed
      · split at changed
        · next old last =>
          obtain ⟨inner, below, rfl⟩ := Option.map_eq_some_iff.1 changed
          have parts := Data.tidy_arr_iff.1 (tidy_of_find? tidy found)
          refine tidy.put k (Data.tidy_arr_iff.2 fun x mem => ?_)
          rcases List.mem_append.1 mem with before | mem
          · exact parts x (List.mem_of_mem_dropLast before)
          · rw [List.mem_singleton.1 mem]
            exact ih (parts _ (List.mem_of_getLast? last)) below
        · cases changed
      · cases changed
    · cases changed

theorem addNew_tidy {k : String} {x : Data} (own : x.Tidy) (es es' : Entries) (tidy : (Data.obj es).Tidy)
    (added : addNew k x es = some es') : (Data.obj es').Tidy := by
  rw [addNew] at added
  split at added
  · cases added
  · next free =>
    cases added
    have put := tidy.put k own
    rwa [Data.put_of_not_mem (Data.find?_eq_none_iff.1 (by simpa using free))] at put

theorem addTable_tidy {k : String} (es es' : Entries) (tidy : (Data.obj es).Tidy)
    (added : addTable k es = some es') : (Data.obj es').Tidy := by
  have one : (Data.arr [.obj []]).Tidy := Data.tidy_arr_iff.2 (List.forall_mem_singleton.2 Data.tidy_nil)
  rw [addTable] at added
  split at added
  · next free =>
    cases added
    have put := tidy.put k one
    rwa [Data.put_of_not_mem (Data.find?_eq_none_iff.1 free)] at put
  · next items found =>
    cases added
    refine tidy.put k (Data.tidy_arr_iff.2 fun x mem => ?_)
    rcases List.mem_append.1 mem with mem | mem
    · exact Data.tidy_arr_iff.1 (tidy_of_find? tidy found) x mem
    · exact Data.tidy_arr_iff.1 one x mem
  · cases added

theorem based_tidy {base : Nat} {isDigit : Char → Bool} {cs rest : List Char} {d : Data}
    (read : based base isDigit cs = some (d, rest)) : d.Tidy := by
  rw [based] at read
  dsimp only at read
  split at read <;> cases read
  trivial

theorem decimal_tidy {cs rest : List Char} {d : Data} (read : decimal cs = .ok (d, rest)) : d.Tidy := by
  have either {a b : Prop} [Decidable a] [Decidable b] {x : Float} {n : Int} {e : Error} {r : List Char}
      (read : (if a then .ok (.float x, r) else if b then .error e else .ok (.int n, r) : Parse Data) = .ok (d, rest)) :
      d.Tidy := by
    split at read
    · cases read
      trivial
    · split at read <;> cases read
      trivial
  unfold decimal at read
  dsimp only at read
  split at read
  · cases read
  · exact either read

theorem specialFloat_tidy {cs rest : List Char} {d : Data} (read : specialFloat cs = some (d, rest)) : d.Tidy := by
  unfold specialFloat at read
  split at read <;> cases read <;> trivial

theorem number_tidy {cs rest : List Char} {d : Data} (read : number cs = .ok (d, rest)) : d.Tidy := by
  unfold number at read
  extract_lets other at read
  cases found : other with
  | some r =>
    rw [found] at read
    cases read
    simp only [other] at found
    split at found
    · exact based_tidy found
    · exact based_tidy found
    · exact based_tidy found
    · cases found
  | none =>
    rw [found] at read
    dsimp only at read
    split at read
    · cases special : specialFloat cs with
      | none =>
        rw [special] at read
        cases read
      | some r =>
        rw [special] at read
        cases read
        exact specialFloat_tidy special
    · exact decimal_tidy read

theorem moment_tidy {cs rest : List Char} {d : Data} (read : moment cs = some (some (d, rest))) : d.Tidy := by
  unfold moment at read
  split at read
  · split at read
    · cases read
    · split at read
      · cases read
        trivial
      · split at read <;> cases read <;> trivial
  · split at read <;> cases read
    trivial

theorem scalar_tidy {cs rest : List Char} {d : Data} (read : scalar cs = .ok (d, rest)) : d.Tidy := by
  have text {r : Read (List Char)}
      (read : Parse.ofRead (r.map fun r => (Data.str (String.ofList r.1), r.2)) = .ok (d, rest)) : d.Tidy := by
    cases r with
    | none => cases read
    | some r =>
      cases read
      trivial
  unfold scalar at read
  split at read
  · exact text read
  · exact text read
  · cases read
    trivial
  · cases read
    trivial
  · split at read
    · next r found =>
      cases r with
      | none => cases read
      | some r =>
        cases read
        exact moment_tidy found
    · exact number_tidy read

theorem addInline_tidy {k : List String} {x : Data} {es es' : Entries} {marks : Marks} (own : x.Tidy)
    (tidy : (Data.obj es).Tidy) (added : addInline k x es marks = .ok es') : (Data.obj es').Tidy := by
  unfold addInline at added
  split at added
  · cases added
  · split at added
    · next changed =>
      cases added
      exact changeAt_tidy (addNew_tidy own) tidy changed
    · cases added

/-- What is read with so much fuel is tidy. -/
structure ReadsTidy (fuel : Nat) : Prop where
  value : ∀ {depth cs d rest}, Toml.value fuel depth cs = .ok (d, rest) → d.Tidy
  items : ∀ {depth cs xs rest}, Toml.items fuel depth cs = .ok (xs, rest) → ∀ x ∈ xs, x.Tidy
  inline : ∀ {depth es marks cs es' rest}, (Data.obj es).Tidy →
    Toml.inlineEntries fuel depth es marks cs = .ok (es', rest) → (Data.obj es').Tidy
  entry : ∀ {depth cs e rest}, Toml.entry fuel depth cs = .ok (e, rest) → e.2.Tidy

namespace ReadsTidy

variable {fuel depth : Nat} {cs rest : List Char}

theorem value_succ (ih : ReadsTidy fuel) {d : Data} (read : Toml.value (fuel + 1) depth cs = .ok (d, rest)) :
    d.Tidy := by
  unfold Toml.value at read
  split at read
  · split at read
    · cases read
    · obtain ⟨cs', -, read⟩ := bind_eq_ok read
      split at read
      · cases read
        exact Data.tidy_arr_iff.2 (List.forall_mem_nil _)
      · obtain ⟨⟨xs, rest'⟩, parts, read⟩ := bind_eq_ok read
        cases read
        exact Data.tidy_arr_iff.2 (ih.items parts)
  · split at read
    · cases read
    · obtain ⟨cs', -, read⟩ := bind_eq_ok read
      split at read
      · cases read
        exact Data.tidy_nil
      · obtain ⟨⟨es, rest'⟩, parts, read⟩ := bind_eq_ok read
        cases read
        exact ih.inline Data.tidy_nil parts
  · exact scalar_tidy read

theorem items_succ (ih : ReadsTidy fuel) {xs : List Data} (read : Toml.items (fuel + 1) depth cs = .ok (xs, rest)) :
    ∀ x ∈ xs, x.Tidy := by
  rw [Toml.items] at read
  obtain ⟨⟨x, rest'⟩, first, read⟩ := bind_eq_ok read
  have own := ih.value first
  obtain ⟨cs', -, read⟩ := bind_eq_ok read
  split at read
  · cases read
    exact List.forall_mem_singleton.2 own
  · obtain ⟨cs', -, read⟩ := bind_eq_ok read
    split at read
    · cases read
      exact List.forall_mem_singleton.2 own
    · obtain ⟨⟨others, rest'⟩, parts, read⟩ := bind_eq_ok read
      cases read
      exact List.forall_mem_cons.2 ⟨own, ih.items parts⟩
  · cases read

theorem inline_succ (ih : ReadsTidy fuel) {es es' : Entries} {marks : Marks} (tidy : (Data.obj es).Tidy)
    (read : inlineEntries (fuel + 1) depth es marks cs = .ok (es', rest)) : (Data.obj es').Tidy := by
  rw [inlineEntries] at read
  obtain ⟨⟨⟨k, x⟩, rest'⟩, first, read⟩ := bind_eq_ok read
  obtain ⟨grown, added, read⟩ := bind_eq_ok read
  have tidy' := addInline_tidy (ih.entry first) tidy added
  obtain ⟨cs', -, read⟩ := bind_eq_ok read
  split at read
  · cases read
    exact tidy'
  · obtain ⟨cs', -, read⟩ := bind_eq_ok read
    split at read
    · cases read
      exact tidy'
    · exact ih.inline tidy' read
  · cases read

theorem entry_succ (ih : ReadsTidy fuel) {e : List String × Data}
    (read : Toml.entry (fuel + 1) depth cs = .ok (e, rest)) : e.2.Tidy := by
  rw [Toml.entry.eq_def] at read
  dsimp only at read
  split at read
  · obtain ⟨⟨x, rest'⟩, first, read⟩ := bind_eq_ok read
    cases read
    exact ih.value first
  · cases read

end ReadsTidy

/-- **Values are tidy**, and so are the tables that are written in line. -/
theorem read_tidy (fuel : Nat) : ReadsTidy fuel := by
  induction fuel with
  | zero =>
    refine ⟨fun read => ?_, fun read => ?_, fun _ read => ?_, fun read => ?_⟩
    · rw [value] at read; cases read
    · rw [items] at read; cases read
    · rw [inlineEntries] at read; cases read
    · rw [entry] at read; cases read
  | succ fuel ih => exact ⟨ih.value_succ, ih.items_succ, ih.inline_succ, ih.entry_succ⟩

namespace Draft

/-- The document is tidy as far as it is read. -/
def IsTidy (d : Draft) : Prop := (Data.obj d.entries).Tidy

theorem IsTidy.add {d d' : Draft} {k : List String} {x : Data} (tidy : d.IsTidy) (own : x.Tidy)
    (added : d.add k x = some d') : d'.IsTidy := by
  unfold Draft.add at added
  dsimp only at added
  split at added
  · cases added
  · split at added
    · cases added
    · split at added
      · cases added
      · next entries changed =>
        cases added
        exact changeAt_tidy (addNew_tidy own) tidy changed

theorem IsTidy.openTable {d d' : Draft} {k : List String} (tidy : d.IsTidy) (opened : d.openTable k = some d') :
    d'.IsTidy := by
  unfold Draft.openTable at opened
  dsimp only at opened
  split at opened
  · cases opened
  · obtain ⟨entries, changed, rfl⟩ := Option.map_eq_some_iff.1 opened
    exact changeAt_tidy (fun es es' tidy same => Option.some.inj same ▸ tidy) tidy changed

theorem IsTidy.openItem {d d' : Draft} {k : List String} (tidy : d.IsTidy) (opened : d.openItem k = some d') :
    d'.IsTidy := by
  unfold Draft.openItem at opened
  dsimp only at opened
  split at opened
  · cases opened
  · obtain ⟨entries, changed, rfl⟩ := Option.map_eq_some_iff.1 opened
    exact changeAt_tidy addTable_tidy tidy changed

theorem IsTidy.before {d : Option Draft} {d' : Draft} {rest rest' : List Char} (tidy : ∀ e, d = some e → e.IsTidy)
    (read : before rest d = .ok (d', rest')) : d'.IsTidy := by
  cases d with
  | none => cases read
  | some e =>
    cases read
    exact tidy _ rfl

end Draft

/-- **Each statement leaves the document tidy.** -/
theorem statement_tidy {d d' : Draft} {cs rest : List Char} (tidy : d.IsTidy)
    (read : statement d cs = .ok (d', rest)) : d'.IsTidy := by
  unfold statement at read
  split at read
  · split at read
    · exact .before (fun _ => tidy.openItem) read
    · cases read
  · split at read
    · exact .before (fun _ => tidy.openTable) read
    · cases read
  · cases read
    exact tidy
  · obtain ⟨⟨⟨k, x⟩, rest'⟩, first, read⟩ := bind_eq_ok read
    exact .before (fun _ => tidy.add ((read_tidy _).entry first)) read

theorem statements_tidy {fuel : Nat} {d d' : Draft} {cs : List Char} (tidy : d.IsTidy)
    (read : statements fuel d cs = .ok d') : d'.IsTidy := by
  induction fuel generalizing d cs with
  | zero => cases read
  | succ fuel ih =>
    rw [statements] at read
    split at read
    · cases read
      exact tidy
    · exact ih tidy read
    · split at read
      · cases read
      · next told =>
        have tidy' := statement_tidy tidy told
        split at read
        · cases read
          exact tidy'
        · exact ih tidy' read
        · cases read

/-- **A document that is read is tidy.** -/
theorem ofToml_tidy {text : String} {es : Entries} (read : Data.ofToml text = .ok es) : (Data.obj es).Tidy := by
  have start : Draft.empty.IsTidy := Data.tidy_nil
  unfold Data.ofToml at read
  dsimp only at read
  cases told : statements ((unixLines text.toList).length + 1) Draft.empty (unixLines text.toList) with
  | error e =>
    rw [told] at read
    cases read
  | ok d =>
    rw [told] at read
    cases read
    exact statements_tidy start told

/-! ### Writing -/

theorem isSome_allSome_iff {texts : List (Option String)} : (allSome texts).isSome ↔ ∀ t ∈ texts, t.isSome := by
  induction texts with
  | nil => simp [allSome]
  | cons t texts ih => cases t <;> simp [allSome, ih]

theorem valueTexts_eq_map (level : Nat) (xs : List Data) : valueTexts level xs = xs.map (valueText level) := by
  induction xs with
  | nil => rfl
  | cons x xs ih => rw [valueTexts, ih, List.map_cons]

theorem entryTexts_eq_map (es : Entries) :
    entryTexts es = es.map fun e => (valueText 0 e.2).map (keyText e.1 ++ " = " ++ ·) := by
  induction es with
  | nil => rfl
  | cons e es ih => rw [entryTexts, ih, List.map_cons]

theorem isSome_entryTexts_iff {es : Entries} :
    (∀ t ∈ entryTexts es, t.isSome) ↔ ∀ e ∈ es, (valueText 0 e.2).isSome := by
  rw [entryTexts_eq_map, List.forall_mem_map]
  simp only [Option.isSome_map]

/-- Null is all that cannot be written as a value. -/
theorem isSome_valueText_iff {d : Data} (level : Nat) : (valueText level d).isSome ↔ d.NullFree := by
  induction d using Data.byParts generalizing level with
  | arr xs ih =>
    rw [Data.nullFree_arr_iff]
    cases xs with
    | nil => simp [valueText]
    | cons x xs =>
      rw [valueText, Option.isSome_map, valueTexts_eq_map, isSome_allSome_iff, List.forall_mem_map]
      · exact forall₂_congr fun y mem => ih y mem _
      · exact nofun
  | obj es ih =>
    rw [Data.nullFree_obj_iff]
    cases es with
    | nil => simp [valueText]
    | cons e es =>
      rw [valueText, Option.isSome_map, isSome_allSome_iff, isSome_entryTexts_iff]
      · exact forall₂_congr fun f mem => ih f mem 0
      · exact nofun
  | flat d flat =>
    cases d with
    | arr => cases flat
    | obj => cases flat
    | _ => simp [valueText, Data.NullFree, Data.All]

/-- A section has a text if all that is written in it has one. -/
theorem isSome_assembleSection_iff {plain : Entries} {sections : List (String × Bool × Pending)} {name : String}
    {inArray : Bool} : (assembleSection plain sections name inArray).isSome ↔
      (∀ e ∈ plain, (valueText 0 e.2).isSome) ∧ ∀ s ∈ sections,
        (s.2.2 (if name.isEmpty then keyText s.1 else name ++ "." ++ keyText s.1) s.2.1).isSome := by
  have lines : (∀ t ∈ (entryTexts plain).map fun t => t.map (· ++ "\n"), t.isSome) ↔
      ∀ e ∈ plain, (valueText 0 e.2).isSome := by
    rw [← isSome_entryTexts_iff, List.forall_mem_map]
    simp only [Option.isSome_map]
  have header : ∀ t ∈ (if inArray then [some ("[[" ++ name ++ "]]\n")]
      else if !name.isEmpty && (!plain.isEmpty || sections.isEmpty) then [some ("[" ++ name ++ "]\n")]
      else [] : List (Option String)), t.isSome := by
    split
    · simp
    · split <;> simp
  have own : (allSome ((if inArray then [some ("[[" ++ name ++ "]]\n")]
      else if !name.isEmpty && (!plain.isEmpty || sections.isEmpty) then [some ("[" ++ name ++ "]\n")]
      else []) ++ (entryTexts plain).map fun t => t.map (· ++ "\n"))).isSome ↔
        ∀ e ∈ plain, (valueText 0 e.2).isSome := by
    rw [isSome_allSome_iff, List.forall_mem_append, lines]
    exact and_iff_right header
  have inner := @isSome_allSome_iff (sections.map fun s =>
    s.2.2 (if name.isEmpty then keyText s.1 else name ++ "." ++ keyText s.1) s.2.1)
  rw [List.forall_mem_map] at inner
  rw [← own, ← inner]
  unfold assembleSection
  dsimp only
  split
  · next some some' =>
    rw [some, some']
    simp
  · next missing =>
    simp only [Option.isSome_none, Bool.false_eq_true, false_iff, not_and]
    intro some some'
    exact missing _ _ (Option.eq_some_of_isSome some) (Option.eq_some_of_isSome some')

theorem sectionsOf_eq_flatMap (es : Entries) : sectionsOf es = es.flatMap fun e => sectionsOf [e] := by
  induction es with
  | nil => rfl
  | cons e es ih =>
    have first : sectionsOf (e :: es) = sectionsOf [e] ++ sectionsOf es := by
      obtain ⟨k, x⟩ := e
      cases x <;> simp [sectionsOf]
    rw [first, ih, List.flatMap_cons]

theorem sectionItems_eq_map (xs : List Data) : sectionItems xs = xs.map section? := by
  induction xs with
  | nil => rfl
  | cons x xs ih => rw [sectionItems, ih, List.map_cons]

/-- The sections that come of a value under a key have their texts, whatever they are called. -/
theorem isSome_sectionsOf_iff {d : Data} (k : String) (heading : String × Bool × Pending → String × Bool) :
    (∀ s ∈ sectionsOf [(k, d)], (s.2.2 (heading s).1 (heading s).2).isSome) ↔ (isSection d = true → d.NullFree) := by
  induction d using Data.byParts generalizing k heading with
  | arr xs ih =>
    rw [sectionsOf, sectionsOf, List.append_nil, sectionItems_eq_map, Data.nullFree_arr_iff]
    by_cases section' : isSection (.arr xs) = true
    · rw [if_pos section', List.forall_mem_map, List.forall_mem_map]
      simp only [section', true_imp_iff]
      refine forall₂_congr fun x mem => ?_
      -- only tables are items of an array of sections
      have table : isTable x = true := by
        simp only [isSection, Bool.and_eq_true, List.all_eq_true] at section'
        exact section'.1.2 x mem
      cases x with
      | obj es => simpa [sectionsOf, isSection] using ih _ mem "" fun _ => heading (k, true, section? (.obj es))
      | _ => cases table
    · simp [section']
  | obj es ih =>
    have one : sectionsOf [(k, .obj es)] = [(k, false, section? (.obj es))] := rfl
    have all : isSection (.obj es) = true := rfl
    rw [one, List.forall_mem_singleton, section?, isSome_assembleSection_iff, sectionsOf_eq_flatMap,
      List.forall_mem_flatMap, Data.nullFree_obj_iff]
    generalize (heading _).1 = name
    have parts : ∀ e ∈ es, (∀ s ∈ sectionsOf [e],
        (s.2.2 (if name.isEmpty then keyText s.1 else name ++ "." ++ keyText s.1) s.2.1).isSome) ↔
          (isSection e.2 = true → e.2.NullFree) := fun e mem =>
      ih e mem e.1 fun s => (if name.isEmpty then keyText s.1 else name ++ "." ++ keyText s.1, s.2.1)
    simp only [all, true_imp_iff, isSome_valueText_iff, List.mem_filter, Bool.not_eq_true']
    constructor
    · rintro ⟨plain, sections⟩ e mem
      cases section' : isSection e.2 with
      | false => exact plain e ⟨mem, section'⟩
      | true => exact (parts e mem).1 (sections e mem) section'
    · intro free
      exact ⟨fun e mem => free e mem.1, fun e mem => (parts e mem).2 fun _ => free e mem⟩
  | flat d flat =>
    cases d with
    | arr => cases flat
    | obj => cases flat
    | _ => simp [sectionsOf, isSection]

/-- **A table has a TOML text exactly if nothing in it is null**, at whatever depth. -/
theorem isSome_toToml_iff {es : Entries} : (Data.toToml es).isSome ↔ (Data.obj es).NullFree := by
  have own := isSome_sectionsOf_iff (d := .obj es) "" fun _ => ("", false)
  have one : sectionsOf [("", .obj es)] = [("", false, section? (.obj es))] := rfl
  rw [one, List.forall_mem_singleton] at own
  exact own.trans (forall_prop_of_true rfl)

theorem isSome_toToml {es : Entries} (tidy : (Data.obj es).Tidy) : (Data.toToml es).isSome :=
  isSome_toToml_iff.2 tidy.nullFree

end Toml

end ServerTrial
