import ServerTrial.Proofs.Readable

/-!
# Relative paths taken twice

* `Uri.Stacked spellings u`: behind the spelling that is taken off the URI `u` stands another one;
* `Uri.clean_clean_iff`: to take a spelling off a second time changes exactly these URIs;
* `Value.localize_eq_self_iff`: a value whose tables have distinct keys is kept exactly if all its URIs are;
* `Request.localize_twice`: a reply with relative paths is kept exactly if none of its URIs starts with a spelling, and
  none does if no URI of the original reply is stacked.
-/

namespace ServerTrial

/-! ### One URI -/

namespace Uri

variable {spellings : List String} {u : String}

/-- The URI starts with the spelling that is taken off, and with another spelling behind it. -/
def Stacked (spellings : List String) (u : String) : Prop :=
  ∃ s t rest, spellings.find? (fun p => p.toList.isPrefixOf u.toList) = some s ∧ t ∈ spellings ∧ u = s ++ (t ++ rest)

/-- What is taken off stood in front. -/
theorem eq_append_clean {s : String} (first : spellings.find? (fun p => p.toList.isPrefixOf u.toList) = some s) :
    u = s ++ clean spellings u := by
  have fits : s.toList <+: u.toList :=
    List.isPrefixOf_iff_prefix.1 (List.find?_some (p := fun p : String => p.toList.isPrefixOf u.toList) first)
  obtain ⟨rest, hrest⟩ := fits
  refine String.toList_injective ?_
  rw [clean, first, String.toList_append, String.toList_ofList, ← hrest, List.drop_left]

theorem clean_eq_self_iff (nonempty : ∀ s ∈ spellings, s ≠ "") :
    clean spellings u = u ↔ ∀ s ∈ spellings, ¬ s.toList <+: u.toList := by
  refine ⟨fun same s hs fits => ?_, clean_eq_self⟩
  cases first : spellings.find? (fun p => p.toList.isPrefixOf u.toList) with
  | none => exact List.find?_eq_none.1 first s hs (List.isPrefixOf_iff_prefix.2 fits)
  | some t =>
    -- a spelling has been taken off, so the rest is shorter
    have split := congrArg (fun x => x.toList.length) (eq_append_clean first)
    rw [same] at split
    simp only [String.toList_append, List.length_append] at split
    have empty : t.toList = [] := List.length_eq_zero_iff.1 (by omega)
    exact nonempty t (List.mem_of_find?_eq_some first) (String.toList_eq_nil_iff.1 empty)

theorem stacked_iff : Stacked spellings u ↔ ∃ t ∈ spellings, t.toList <+: (clean spellings u).toList := by
  constructor
  · rintro ⟨s, t, rest, first, ht, split⟩
    have same : clean spellings u = t ++ rest := by
      have both := congrArg String.toList ((eq_append_clean first).symm.trans split)
      rw [String.toList_append, String.toList_append] at both
      exact String.toList_injective (List.append_cancel_left both)
    exact ⟨t, ht, ⟨rest.toList, by rw [same, String.toList_append]⟩⟩
  · rintro ⟨t, ht, rest, split⟩
    cases first : spellings.find? (fun p => p.toList.isPrefixOf u.toList) with
    | none =>
      have fits : t.toList <+: u.toList := by
        rw [clean, first] at split
        exact ⟨rest, split⟩
      exact absurd (List.isPrefixOf_iff_prefix.2 fits) (List.find?_eq_none.1 first t ht)
    | some s =>
      refine ⟨s, t, String.ofList rest, first, ht, ?_⟩
      have tail : clean spellings u = t ++ String.ofList rest :=
        String.toList_injective (by rw [String.toList_append, String.toList_ofList, split])
      rw [← tail]
      exact eq_append_clean first

/-- **A URI is cleaned once** unless it is stacked. -/
theorem clean_clean_iff (nonempty : ∀ s ∈ spellings, s ≠ "") :
    clean spellings (clean spellings u) = clean spellings u ↔ ¬ Stacked spellings u := by
  rw [clean_eq_self_iff nonempty, stacked_iff]
  exact ⟨fun h ⟨t, ht, fits⟩ => h t ht fits, fun h t ht fits => h ⟨t, ht, fits⟩⟩

/-! ### Spellings end with a slash -/

/-- Texts are left out, and the others stay in their order. -/
theorem distinct_sublist (xs : List String) : (distinct xs).Sublist xs := by
  have run : ∀ (rest done : List String),
      (rest.foldl (fun acc y => if acc.contains y then acc else acc ++ [y]) done).Sublist (done ++ rest) := by
    intro rest
    induction rest with
    | nil =>
      intro done
      rw [List.append_nil]
      exact List.Sublist.refl _
    | cons y rest ih =>
      intro done
      rw [List.foldl_cons]
      split
      · exact (ih done).trans ((List.sublist_cons_self y rest).append_left done)
      · have later := ih (done ++ [y])
        rwa [List.append_assoc, List.singleton_append] at later
  exact run xs []

theorem mem_of_mem_distinct {x : String} {xs : List String} (h : x ∈ distinct xs) : x ∈ xs :=
  (distinct_sublist xs).subset h

/-- No text is lost. -/
theorem mem_distinct {x : String} {xs : List String} (h : x ∈ xs) : x ∈ distinct xs := by
  have run : ∀ (rest done : List String), x ∈ done ∨ x ∈ rest →
      x ∈ rest.foldl (fun acc y => if acc.contains y then acc else acc ++ [y]) done := by
    intro rest
    induction rest with
    | nil => exact fun done hx => hx.resolve_right List.not_mem_nil
    | cons y rest ih =>
      intro done hx
      refine ih _ ?_
      dsimp only
      split
      · next there =>
        rcases hx with hx | hx
        · exact .inl hx
        · rcases List.mem_cons.1 hx with rfl | hx
          · exact .inl (List.contains_iff_mem.1 there)
          · exact .inr hx
      · rcases hx with hx | hx
        · exact .inl (List.mem_append_left _ hx)
        · rcases List.mem_cons.1 hx with rfl | hx
          · exact .inl (List.mem_append_right _ (List.mem_singleton_self x))
          · exact .inr hx
  exact run xs [] (.inr h)

theorem endSlash_ne_empty (s : String) : endSlash s ≠ "" := by
  intro h
  have := congrArg String.toList h
  simp [endSlash] at this

end Uri

theorem World.spellings_ne_empty {w : World} {directory : Path} {spellings : List String}
    (known : w.spellings directory = .ok spellings) : ∀ s ∈ spellings, s ≠ "" := by
  intro s hs
  unfold World.spellings at known
  split at known
  · cases known
  · rw [← Except.ok.inj known] at hs
    obtain ⟨t, -, rfl⟩ := List.mem_map.1 (Uri.mem_of_mem_distinct hs)
    exact Uri.endSlash_ne_empty t

/-! ### Entries with mapped keys -/

namespace Data

theorem mem_keys_put {α : Type} {k key : String} {x : α} {es : List (String × α)} :
    k ∈ (put key x es).map Prod.fst ↔ k = key ∨ k ∈ es.map Prod.fst := by
  rw [keys_put]
  split
  · next there => exact ⟨.inr, fun h => h.elim (fun same => same ▸ there) id⟩
  · rw [List.mem_append, List.mem_singleton, or_comm]

/-- Every key is collected. -/
theorem mem_keys_collect {α : Type} {k : String} {es : List (String × α)} :
    k ∈ (collect es).map Prod.fst ↔ k ∈ es.map Prod.fst := by
  have run : ∀ (rest done : List (String × α)),
      k ∈ (rest.foldl (fun acc e => put e.1 e.2 acc) done).map Prod.fst ↔
        k ∈ done.map Prod.fst ∨ k ∈ rest.map Prod.fst := by
    intro rest
    induction rest with
    | nil => intro done; simp
    | cons e rest ih =>
      intro done
      rw [List.foldl_cons, ih, mem_keys_put, List.map_cons, List.mem_cons]
      tauto
  rw [collect, run]
  simp

/-- Collecting entries loses none of them only if their keys are distinct. -/
theorem nodup_of_length_collect {α : Type} {es : List (String × α)} (h : (collect es).length = es.length) :
    (es.map Prod.fst).Nodup := by
  have subset : (collect es).map Prod.fst ⊆ es.map Prod.fst := fun k hk => mem_keys_collect.1 hk
  have perm : ((collect es).map Prod.fst).Perm (es.map Prod.fst) :=
    ((collect_spec es).1.subperm subset).perm_of_length_le (by simp [h])
  exact perm.nodup (collect_spec es).1

/-- Entries are kept exactly if all keys and values are. -/
theorem collect_map_eq_self_iff {α : Type} {f : String → String} {g : α → α} {es : List (String × α)}
    (distinct : (es.map Prod.fst).Nodup) :
    collect (es.map fun e => (f e.1, g e.2)) = es ↔ ∀ e ∈ es, f e.1 = e.1 ∧ g e.2 = e.2 := by
  have pointwise : es.map (fun e => (f e.1, g e.2)) = es ↔ ∀ e ∈ es, f e.1 = e.1 ∧ g e.2 = e.2 := by
    have same := List.map_inj_left (l := es) (f := fun e => (f e.1, g e.2)) (g := id)
    rw [List.map_id] at same
    simpa [Prod.ext_iff] using same
  rw [← pointwise]
  constructor
  · intro h
    have length : (collect (es.map fun e => (f e.1, g e.2))).length = (es.map fun e => (f e.1, g e.2)).length := by
      rw [h, List.length_map]
    rwa [collect_of_nodup (nodup_of_length_collect length)] at h
  · intro h
    rw [h, collect_of_nodup distinct]

end Data

/-! ### All URIs of a value -/

namespace Value

/-- Induction over the parts of a value. -/
@[elab_as_elim]
theorem byParts {P : Value → Prop} (plain : ∀ d, P (.plain d)) (free : ∀ d, P (.free d))
    (member : ∀ e name d, P (.member e name d)) (list : ∀ vs, (∀ v ∈ vs, P v) → P (.list vs))
    (pair : ∀ a b, P a → P b → P (.pair a b)) (table : ∀ es, (∀ e ∈ es, P e.2) → P (.table es))
    (record : ∀ m fs extras, (∀ e ∈ fs, P e.2) → P (.record m fs extras)) (v : Value) : P v :=
  @Value.rec P (fun vs => ∀ v ∈ vs, P v) (fun es => ∀ e ∈ es, P e.2) (fun fs => ∀ e ∈ fs, P e.2)
    (fun e => P e.2) (fun e => P e.2) plain free member list pair table record
    (List.forall_mem_nil _) (fun _ _ hv hvs => List.forall_mem_cons.2 ⟨hv, hvs⟩)
    (List.forall_mem_nil _) (fun _ _ he hes => List.forall_mem_cons.2 ⟨he, hes⟩)
    (List.forall_mem_nil _) (fun _ _ he hes => List.forall_mem_cons.2 ⟨he, hes⟩)
    (fun _ _ h => h) (fun _ _ h => h) v

/-- The URIs that stand in a field itself. -/
def ownUris (m : Model) (name : String) (v : Value) : List String :=
  if m.holdsUri name then textIn v else if m.holdsUriKeys name then keysIn v else []

theorem mem_uris_list {u : String} {vs : List Value} : u ∈ (list vs).uris ↔ ∃ v ∈ vs, u ∈ v.uris := by
  change u ∈ urisOfItems vs ↔ _
  induction vs with
  | nil => simp [urisOfItems]
  | cons v vs ih => rw [urisOfItems, List.mem_append, ih, List.exists_mem_cons_iff]

theorem mem_uris_table {u : String} {es : List (String × Value)} :
    u ∈ (table es).uris ↔ ∃ e ∈ es, u ∈ e.2.uris := by
  change u ∈ urisOfEntries es ↔ _
  induction es with
  | nil => simp [urisOfEntries]
  | cons e es ih =>
    obtain ⟨k, v⟩ := e
    rw [urisOfEntries, List.mem_append, ih, List.exists_mem_cons_iff]

theorem mem_uris_record {u : String} {m : Model} {fs : List (Label × Value)} {extras : List (String × Data)} :
    u ∈ (record m fs extras).uris ↔ ∃ p ∈ fs, u ∈ ownUris m p.1.name p.2 ∨ u ∈ p.2.uris := by
  change u ∈ urisOfFields m fs ↔ _
  induction fs with
  | nil => simp [urisOfFields]
  | cons p fs ih =>
    obtain ⟨l, v⟩ := p
    rw [urisOfFields, List.mem_append, List.mem_append, ih, List.exists_mem_cons_iff]
    rfl

section Localize

variable {f : String → String}

/-- The own URIs of a field are mapped. -/
theorem ownUris_localizeOwn {m : Model} {name u : String} {v : Value}
    (h : u ∈ ownUris m name (localizeOwn f m name (v.localize f))) : ∃ w ∈ ownUris m name v, u = f w := by
  unfold ownUris localizeOwn at *
  split at h
  · next field =>
    rw [if_pos field]
    cases v with
    | plain d =>
      cases d with
      | str s => exact ⟨s, List.mem_singleton_self s, List.mem_singleton.1 h⟩
      | _ => exact absurd h List.not_mem_nil
    | _ => exact absurd h List.not_mem_nil
  · next field =>
    rw [if_neg field]
    split at h
    · next keyed =>
      rw [if_pos keyed]
      cases v with
      | table es =>
        rw [localize, localizeEntries_eq_map] at h
        have key := Data.mem_keys_collect.1 h
        simp only [List.map_map, List.mem_map, Function.comp_apply] at key
        obtain ⟨e, he, rfl⟩ := key
        exact ⟨e.1, List.mem_map_of_mem he, rfl⟩
      | _ => exact absurd h List.not_mem_nil
    · exact absurd h List.not_mem_nil

/-- Mapping the URI of a field, or the keys of its table, brings no further URIs. -/
theorem uris_localizeOwn {m : Model} {name u : String} {v : Value} (h : u ∈ (localizeOwn f m name v).uris) :
    u ∈ v.uris := by
  unfold localizeOwn at h
  split at h
  · unfold mapText at h
    split at h
    · exact h
    · exact h
  · split at h
    · unfold mapKeys at h
      split at h
      · obtain ⟨e, he, hu⟩ := mem_uris_table.1 h
        obtain ⟨e', he', rfl⟩ := List.mem_map.1 ((Data.collect_spec _).2 e he)
        exact mem_uris_table.2 ⟨e', he', hu⟩
      · exact h
    · exact h

/-- The URIs of a localized value are URIs of the value, mapped. -/
theorem exists_of_mem_uris_localize {u : String} {v : Value} (h : u ∈ (v.localize f).uris) :
    ∃ w ∈ v.uris, u = f w := by
  induction v using byParts with
  | plain d => exact absurd h List.not_mem_nil
  | free d => exact absurd h List.not_mem_nil
  | member e name d => exact absurd h List.not_mem_nil
  | list vs ih =>
    rw [localize, localizeItems_eq_map, mem_uris_list] at h
    obtain ⟨_, hv', hu⟩ := h
    obtain ⟨v, hv, rfl⟩ := List.mem_map.1 hv'
    obtain ⟨w, hw, same⟩ := ih v hv hu
    exact ⟨w, mem_uris_list.2 ⟨v, hv, hw⟩, same⟩
  | pair a b iha ihb =>
    rcases List.mem_append.1 h with h | h
    · obtain ⟨w, hw, same⟩ := iha h
      exact ⟨w, List.mem_append_left _ hw, same⟩
    · obtain ⟨w, hw, same⟩ := ihb h
      exact ⟨w, List.mem_append_right _ hw, same⟩
  | table es ih =>
    rw [localize, localizeEntries_eq_map, mem_uris_table] at h
    obtain ⟨_, he', hu⟩ := h
    obtain ⟨e, he, rfl⟩ := List.mem_map.1 he'
    obtain ⟨w, hw, same⟩ := ih e he hu
    exact ⟨w, mem_uris_table.2 ⟨e, he, hw⟩, same⟩
  | record m fs extras ih =>
    rw [localize, localizeFields_eq_map, mem_uris_record] at h
    obtain ⟨_, hp', parts⟩ := h
    obtain ⟨p, hp, rfl⟩ := List.mem_map.1 hp'
    rcases parts with own | inner
    · obtain ⟨w, hw, same⟩ := ownUris_localizeOwn own
      exact ⟨w, mem_uris_record.2 ⟨p, hp, .inl hw⟩, same⟩
    · obtain ⟨w, hw, same⟩ := ih p hp (uris_localizeOwn inner)
      exact ⟨w, mem_uris_record.2 ⟨p, hp, .inr hw⟩, same⟩

end Localize

/-! ### Values that are kept -/

/-- Tables whose keys are URIs have distinct keys, at every depth. -/
inductive Distinct : Value → Prop
  | plain (d : Data) : Distinct (.plain d)
  | free (d : Data) : Distinct (.free d)
  | member (e : Enumeration) (name : String) (d : Data) : Distinct (.member e name d)
  | list {vs} : (∀ v ∈ vs, Distinct v) → Distinct (.list vs)
  | pair {a b} : Distinct a → Distinct b → Distinct (.pair a b)
  | table {es} : (∀ e ∈ es, Distinct e.2) → Distinct (.table es)
  | record {m fs extras} : (∀ p ∈ fs, Distinct p.2) →
      (∀ p ∈ fs, m.holdsUriKeys p.1.name = true → (keysIn p.2).Nodup) → Distinct (.record m fs extras)

section Localize

variable {f : String → String}

theorem Distinct.localizeOwn {m : Model} {name : String} {v : Value} (h : Distinct v) :
    Distinct (localizeOwn f m name v) := by
  unfold Value.localizeOwn
  split
  · unfold mapText
    split
    · exact .plain _
    · exact h
  · split
    · unfold mapKeys
      split
      · cases h with
        | table parts =>
          refine .table fun e he => ?_
          obtain ⟨e', he', rfl⟩ := List.mem_map.1 ((Data.collect_spec _).2 e he)
          exact parts e' he'
      · exact h
    · exact h

theorem nodup_keysIn_localizeOwn {m : Model} {name : String} {v : Value} (keyed : m.holdsUriKeys name = true) :
    (keysIn (Value.localizeOwn f m name v)).Nodup := by
  have field : ¬ m.holdsUri name = true := by
    rw [holdsUri_iff]
    exact fun field => not_table_of_field field ((holdsUriKeys_iff m name).1 keyed)
  rw [Value.localizeOwn, if_neg field, if_pos keyed]
  cases v with
  | table es => exact (Data.collect_spec _).1
  | _ => exact List.nodup_nil

/-- Keys that become one are merged. -/
theorem distinct_localize (f : String → String) (v : Value) : Distinct (v.localize f) := by
  induction v using byParts with
  | plain d => exact .plain d
  | free d => exact .free d
  | member e name d => exact .member e name d
  | list vs ih =>
    rw [localize, localizeItems_eq_map]
    exact .list (List.forall_mem_map.2 ih)
  | pair a b iha ihb => exact .pair iha ihb
  | table es ih =>
    rw [localize, localizeEntries_eq_map]
    exact .table (List.forall_mem_map.2 ih)
  | record m fs extras ih =>
    rw [localize, localizeFields_eq_map]
    exact .record (List.forall_mem_map.2 fun p hp => (ih p hp).localizeOwn)
      (List.forall_mem_map.2 fun p _ keyed => nodup_keysIn_localizeOwn keyed)

/-- A field is kept exactly if its own URIs and its parts are. -/
theorem localizeOwn_eq_self_iff {m : Model} {name : String} {v : Value}
    (distinct : m.holdsUriKeys name = true → (keysIn v).Nodup) :
    Value.localizeOwn f m name (v.localize f) = v ↔ (∀ u ∈ ownUris m name v, f u = u) ∧ v.localize f = v := by
  unfold Value.localizeOwn ownUris
  split
  · cases v with
    | plain d =>
      cases d with
      | str s => simp [localize, mapText, textIn]
      | _ => simp [localize, mapText, textIn]
    | _ => simp [localize, mapText, textIn]
  · split
    · next keyed =>
      cases v with
      | table es =>
        rw [localize, localizeEntries_eq_map, mapKeys, List.map_map, table.injEq, table.injEq]
        have kept := Data.collect_map_eq_self_iff (f := f) (g := localize f) (distinct keyed)
        have values := List.map_inj_left (l := es) (f := fun e => (e.1, e.2.localize f)) (g := id)
        rw [List.map_id] at values
        rw [values]
        refine kept.trans ?_
        simp [keysIn, Prod.ext_iff, forall_and]
      | _ => simp [localize, mapKeys, keysIn]
    · simp

/-- **A value is kept exactly if all its URIs are**, where tables have distinct keys. -/
theorem localize_eq_self_iff {v : Value} (distinct : Distinct v) : v.localize f = v ↔ ∀ u ∈ v.uris, f u = u := by
  induction distinct with
  | plain d => simp [localize, uris]
  | free d => simp [localize, uris]
  | member e name d => simp [localize, uris]
  | @list vs _ ih =>
    have items := List.map_inj_left (l := vs) (f := localize f) (g := id)
    rw [List.map_id] at items
    rw [localize, localizeItems_eq_map, list.injEq, items]
    simp only [mem_uris_list, id_eq]
    constructor
    · rintro h u ⟨v, hv, hu⟩
      exact (ih v hv).1 (h v hv) u hu
    · intro h v hv
      exact (ih v hv).2 fun u hu => h u ⟨v, hv, hu⟩
  | @pair a b _ _ iha ihb =>
    rw [localize, pair.injEq, iha, ihb, uris, List.forall_mem_append]
  | @table es _ ih =>
    have entries := List.map_inj_left (l := es) (f := fun e => (e.1, localize f e.2)) (g := id)
    rw [List.map_id] at entries
    rw [localize, localizeEntries_eq_map, table.injEq, entries]
    simp only [mem_uris_table, id_eq, Prod.ext_iff, true_and]
    constructor
    · rintro h u ⟨e, he, hu⟩
      exact (ih e he).1 (h e he) u hu
    · intro h e he
      exact (ih e he).2 fun u hu => h u ⟨e, he, hu⟩
  | @record m fs extras _ keyed ih =>
    have fields := List.map_inj_left (l := fs)
      (f := fun p => (p.1, Value.localizeOwn f m p.1.name (localize f p.2))) (g := id)
    rw [List.map_id] at fields
    rw [localize, localizeFields_eq_map, record.injEq, fields]
    simp only [mem_uris_record, id_eq, Prod.ext_iff, true_and, and_true]
    constructor
    · rintro h u ⟨p, hp, own | inner⟩
      · exact ((localizeOwn_eq_self_iff (keyed p hp)).1 (h p hp)).1 u own
      · exact (ih p hp).1 ((localizeOwn_eq_self_iff (keyed p hp)).1 (h p hp)).2 u inner
    · intro h p hp
      exact (localizeOwn_eq_self_iff (keyed p hp)).2
        ⟨fun u own => h u ⟨p, hp, .inl own⟩, (ih p hp).2 fun u inner => h u ⟨p, hp, .inr inner⟩⟩

end Localize

end Value

/-! ### Replies -/

/-- Is the reply with relative paths kept when its paths are made relative once more? -/
def Request.KeepsLocalized (r : Request) (w : World) (l : Layout) (v : Value) : Prop :=
  ∀ v', r.localize (w.spellings l.sources) (some v) = .ok (some v') →
    r.localize (w.spellings l.sources) (some v') = .ok (some v')

namespace Request

theorem localize_eq_ok_iff {r : Request} {spellings : List String} {v v' : Value} :
    r.localize (.ok spellings) (some v) = .ok (some v') ↔ v.localize (Uri.clean spellings) = v' := by
  rw [localize, Value.localizeBy_eq]
  exact ⟨fun h => Option.some.inj (Except.ok.inj h), fun h => congrArg (fun v => Except.ok (some v)) h⟩

/-- Without spellings only replies without URIs are localized. -/
theorem keepsLocalized_of_error {r : Request} {w : World} {l : Layout} {e : Fault}
    (unknown : w.spellings l.sources = .error e) (v : Value) : r.KeepsLocalized w l v := by
  intro v' once
  rw [unknown] at once ⊢
  cases none : v.uris.isEmpty with
  | true =>
    rw [localize, Value.localizeBy, none] at once
    cases once
    rw [localize, Value.localizeBy, none]
    rfl
  | false =>
    rw [localize, Value.localizeBy, none] at once
    cases once

theorem keepsLocalized_iff {r : Request} {w : World} {l : Layout} {spellings : List String}
    (known : w.spellings l.sources = .ok spellings) (v : Value) :
    r.KeepsLocalized w l v ↔
      ∀ u ∈ (v.localize (Uri.clean spellings)).uris, ∀ s ∈ spellings, ¬ s.toList <+: u.toList := by
  have nonempty := World.spellings_ne_empty known
  have kept : r.KeepsLocalized w l v ↔
      (v.localize (Uri.clean spellings)).localize (Uri.clean spellings) = v.localize (Uri.clean spellings) := by
    unfold KeepsLocalized
    simp only [known, localize_eq_ok_iff]
    exact forall_eq'
  rw [kept, Value.localize_eq_self_iff (Value.distinct_localize _ v)]
  simp only [Uri.clean_eq_self_iff nonempty]

/-- **Relative paths taken twice.**  A reply with relative paths is kept exactly if none of its URIs starts with a
spelling of the directory for source files.  None does if no URI of the original reply is stacked, and stacked URIs
are exactly those that are not kept when they are cleaned a second time. -/
theorem localize_twice (r : Request) (w : World) (l : Layout) :
    (∀ v, r.KeepsLocalized w l v ↔ ∀ spellings, w.spellings l.sources = .ok spellings →
      ∀ u ∈ (v.localize (Uri.clean spellings)).uris, ∀ s ∈ spellings, ¬ s.toList <+: u.toList) ∧
    (∀ v, (∀ spellings, w.spellings l.sources = .ok spellings → ∀ u ∈ v.uris, ¬ Uri.Stacked spellings u) →
      r.KeepsLocalized w l v) ∧
    (∀ spellings, w.spellings l.sources = .ok spellings → ∀ u,
      Uri.clean spellings (Uri.clean spellings u) = Uri.clean spellings u ↔ ¬ Uri.Stacked spellings u) := by
  cases known : w.spellings l.sources with
  | error e =>
    exact ⟨fun v => ⟨fun _ _ h => absurd h (by simp), fun _ => keepsLocalized_of_error known v⟩,
      fun v _ => keepsLocalized_of_error known v, fun _ h => absurd h (by simp)⟩
  | ok spellings =>
    refine ⟨fun v => ?_, fun v free => ?_, fun _ same u => ?_⟩
    · rw [keepsLocalized_iff known]
      exact ⟨fun h _ same => Except.ok.inj same ▸ h, fun h => h spellings rfl⟩
    · refine (keepsLocalized_iff known v).2 fun u hu s hs fits => ?_
      obtain ⟨w', hw', rfl⟩ := Value.exists_of_mem_uris_localize hu
      exact free spellings rfl w' hw' (Uri.stacked_iff.2 ⟨s, hs, fits⟩)
    · rw [← Except.ok.inj same]
      exact Uri.clean_clean_iff (World.spellings_ne_empty known)

/-- The edit of one file that changes nothing. -/
def emptyEdit (uri : String) : Value :=
  .record .workspaceEdit [(⟨"changes", "changes"⟩, .table [(uri, .list [])]),
    (⟨"document_changes", "documentChanges"⟩, .null), (⟨"change_annotations", "changeAnnotations"⟩, .null)] []

/-- An edit of a file whose URI has the directory twice in front: each time one is taken off. -/
theorem localize_stacked :
    let w : World := ⟨[], [], [], ⟨.slash, ["tmp"]⟩, "1"⟩
    let l : Layout := ⟨"1", ⟨.slash, []⟩⟩
    let raw := "\x7b\"changes\":\x7b\"file:///lspresso-shot/1/src/file:///lspresso-shot/1/src/a\":[]\x7d\x7d"
    let spellings := ["file:///lspresso-shot/1/src/"]
    let once := emptyEdit "file:///lspresso-shot/1/src/a"
    decode rename.response rename.isLenient raw =
        .ok (emptyEdit "file:///lspresso-shot/1/src/file:///lspresso-shot/1/src/a") ∧
      w.spellings l.sources = .ok spellings ∧
      rename.localize (w.spellings l.sources)
        (some (emptyEdit "file:///lspresso-shot/1/src/file:///lspresso-shot/1/src/a")) = .ok (some once) ∧
      rename.localize (w.spellings l.sources) (some once) = .ok (some (emptyEdit "a")) ∧
      rename.localize (w.spellings l.sources) (some once) ≠ .ok (some once) := by
  intro w l raw spellings once
  have json : Data.ofJson raw =
      .ok (.obj [("changes", .obj [("file:///lspresso-shot/1/src/file:///lspresso-shot/1/src/a", .arr [])])]) :=
    (Data.ofJson_ofList _).trans rfl
  have decoded : decode rename.response rename.isLenient raw =
      .ok (emptyEdit "file:///lspresso-shot/1/src/file:///lspresso-shot/1/src/a") := by
    unfold decode
    rw [json]
    rfl
  have known : w.spellings l.sources = .ok spellings := by
    have given : l.sources = ⟨.slash, ["lspresso-shot", "1", "src"]⟩ := by decide
    rw [given, World.spellings_eq (q := ⟨.slash, ["lspresso-shot", "1", "src"]⟩)
      (s := "/lspresso-shot/1/src") (t := "/lspresso-shot/1/src") rfl (by decide) (by decide) (by decide) rfl rfl]
    rfl
  have first : Uri.clean spellings "file:///lspresso-shot/1/src/file:///lspresso-shot/1/src/a" =
      "file:///lspresso-shot/1/src/a" := (Uri.clean_ofList [_] _).trans rfl
  have second : Uri.clean spellings "file:///lspresso-shot/1/src/a" = "a" := (Uri.clean_ofList [_] _).trans rfl
  have localized (u u' : String) (clean : Uri.clean spellings u = u') :
      rename.localize (w.spellings l.sources) (some (emptyEdit u)) = .ok (some (emptyEdit u')) := by
    rw [known, localize_eq_ok_iff, ← clean]
    rfl
  refine ⟨decoded, known, localized _ _ first, localized _ _ second, fun same => ?_⟩
  rw [localized _ _ second] at same
  simp [once, emptyEdit] at same

end Request

end ServerTrial
