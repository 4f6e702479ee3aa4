import ServerTrial.Trial.Outcome
import ServerTrial.Proofs.Fits
import ServerTrial.Proofs.PercentEncoding

/-!
# Relative paths undo spellings

* `uriFields`, `uriTables`: where values hold URIs;
* `Respelled spellings v w`: the value `w` is `v` with spellings of a directory in front of some of its URIs;
* `Respelled.localize`: if no spelling starts with another one, the URIs of `w` as relative paths are those of `v`, and
  nothing else is changed;
* `Fits.uris_eq_nil`: the values of the other requests hold no URIs at all.
-/

namespace ServerTrial

/-! ### Places of URIs -/

/-- The fields that hold a URI. -/
def uriFields : List (Model × String) :=
  [(.location, "uri"), (.locationLink, "target_uri"), (.callHierarchyItem, "uri"), (.typeHierarchyItem, "uri"),
    (.documentLink, "target"), (.workspaceSymbolLocation, "uri"), (.optionalVersionedTextDocumentIdentifier, "uri"),
    (.createFile, "uri"), (.deleteFile, "uri"), (.renameFile, "old_uri"), (.renameFile, "new_uri"),
    (.workspaceFullDocumentDiagnosticReport, "uri"), (.workspaceUnchangedDocumentDiagnosticReport, "uri")]

/-- The fields that hold a table whose keys are URIs. -/
def uriTables : List (Model × String) :=
  [(.workspaceEdit, "changes"), (.relatedFullDocumentDiagnosticReport, "related_documents"),
    (.relatedUnchangedDocumentDiagnosticReport, "related_documents")]

theorem holdsUri_iff (m : Model) (name : String) : m.holdsUri name = true ↔ (m, name) ∈ uriFields := by
  unfold Model.holdsUri
  split <;> simp_all [uriFields]

theorem holdsUriKeys_iff (m : Model) (name : String) : m.holdsUriKeys name = true ↔ (m, name) ∈ uriTables := by
  unfold Model.holdsUriKeys
  split <;> simp_all [uriTables]

theorem not_table_of_field {m : Model} {name : String} (field : (m, name) ∈ uriFields) : (m, name) ∉ uriTables := by
  intro table
  simp only [uriTables, uriFields, List.mem_cons, Prod.mk.injEq, List.not_mem_nil, or_false] at field table
  rcases table with ⟨rfl, rfl⟩ | ⟨rfl, rfl⟩ | ⟨rfl, rfl⟩ <;> simp at field

/-! ### One URI -/

/-- No spelling starts with another one. -/
def PrefixFree (spellings : List String) : Prop :=
  ∀ s ∈ spellings, ∀ t ∈ spellings, s.toList <+: t.toList → s = t

/-- The URI starts with none of the spellings, and stays or gets one in front. -/
def RespelledUri (spellings : List String) (u w : String) : Prop :=
  (∀ s ∈ spellings, ¬ s.toList <+: u.toList) ∧ (w = u ∨ ∃ s ∈ spellings, w = s ++ u)

theorem clean_eq_self {spellings : List String} {u : String} (h : ∀ s ∈ spellings, ¬ s.toList <+: u.toList) :
    Uri.clean spellings u = u := by
  have none : spellings.find? (fun s => s.toList.isPrefixOf u.toList) = none :=
    List.find?_eq_none.2 fun s hs fits => h s hs (List.isPrefixOf_iff_prefix.1 fits)
  rw [Uri.clean, none]

/-- The spelling in front is the only one that fits. -/
theorem clean_append {spellings : List String} (free : PrefixFree spellings) {s : String} (hs : s ∈ spellings)
    (u : String) : Uri.clean spellings (s ++ u) = u := by
  have own : s.toList.isPrefixOf (s ++ u).toList = true :=
    List.isPrefixOf_iff_prefix.2 ⟨u.toList, by rw [String.toList_append]⟩
  have fits : ∃ t, spellings.find? (fun t => t.toList.isPrefixOf (s ++ u).toList) = some t := by
    cases found : spellings.find? (fun t => t.toList.isPrefixOf (s ++ u).toList) with
    | none => exact absurd own (List.find?_eq_none.1 found s hs)
    | some t => exact ⟨t, rfl⟩
  obtain ⟨t, found⟩ := fits
  have ht := List.mem_of_find?_eq_some found
  have other : t.toList <+: (s ++ u).toList :=
    List.isPrefixOf_iff_prefix.1 (List.find?_some (p := fun t : String => t.toList.isPrefixOf (s ++ u).toList) found)
  -- both stand in front of one text, so one of them starts with the other
  have same : t = s := by
    rcases List.prefix_or_prefix_of_prefix other (List.isPrefixOf_iff_prefix.1 own) with h | h
    · exact free t ht s hs h
    · exact (free s hs t ht h).symm
  rw [Uri.clean, found, same]
  dsimp only
  rw [String.toList_append, List.drop_left, String.ofList_toList]

theorem RespelledUri.clean {spellings : List String} (free : PrefixFree spellings) {u w : String}
    (h : RespelledUri spellings u w) : Uri.clean spellings w = u := by
  obtain ⟨foreign, rfl | ⟨s, hs, rfl⟩⟩ := h
  · exact clean_eq_self foreign
  · exact clean_append free hs u

/-! ### All URIs -/

/-- How the field of a record differs: a URI, or the keys of a table, may be respelled; where there are none the field
stays. -/
inductive RespelledField (spellings : List String) (m : Model) (name : String) : Value → Value → Prop
  | uri {u w} : (m, name) ∈ uriFields → RespelledUri spellings u w →
      RespelledField spellings m name (.text u) (.text w)
  | keys {es fs} : (m, name) ∈ uriTables → (es.map Prod.fst).Nodup → es.map Prod.snd = fs.map Prod.snd →
      (∀ p ∈ es.zip fs, RespelledUri spellings p.1.1 p.2.1) →
      RespelledField spellings m name (.table es) (.table fs)
  | other {v} : ((m, name) ∈ uriFields → v.textIn = []) → ((m, name) ∈ uriTables → v.keysIn = []) →
      RespelledField spellings m name v v

/-- The second value is the first with spellings in front of some of its URIs, none of which starts with a spelling.
In a record the parts of its fields are respelled first, then what is a URI in the record itself. -/
inductive Respelled (spellings : List String) : Value → Value → Prop
  | plain (d : Data) : Respelled spellings (.plain d) (.plain d)
  | free (d : Data) : Respelled spellings (.free d) (.free d)
  | member (e : Enumeration) (name : String) (d : Data) :
      Respelled spellings (.member e name d) (.member e name d)
  | list {vs ws} : vs.length = ws.length → (∀ p ∈ vs.zip ws, Respelled spellings p.1 p.2) →
      Respelled spellings (.list vs) (.list ws)
  | pair {a b c d} : Respelled spellings a c → Respelled spellings b d →
      Respelled spellings (.pair a b) (.pair c d)
  | table {es fs} : es.map Prod.fst = fs.map Prod.fst → (∀ p ∈ es.zip fs, Respelled spellings p.1.2 p.2.2) →
      Respelled spellings (.table es) (.table fs)
  | record {m vs us ws extras} : vs.map Prod.fst = us.map Prod.fst →
      (∀ p ∈ vs.zip us, Respelled spellings p.1.2 p.2.2) → us.map Prod.fst = ws.map Prod.fst →
      (∀ p ∈ us.zip ws, RespelledField spellings m p.1.1.name p.1.2 p.2.2) →
      Respelled spellings (.record m vs extras) (.record m ws extras)

/-! ### Entries with distinct keys -/

namespace Data

/-- Entries with distinct keys are collected as they are. -/
theorem collect_of_nodup {α : Type} {es : List (String × α)} (h : (es.map Prod.fst).Nodup) : collect es = es := by
  have run : ∀ (rest done : List (String × α)), ((done ++ rest).map Prod.fst).Nodup →
      rest.foldl (fun acc e => put e.1 e.2 acc) done = done ++ rest := by
    intro rest
    induction rest with
    | nil => intro done _; rw [List.append_nil]; rfl
    | cons e rest ih =>
      intro done distinct
      have new : e.1 ∉ done.map Prod.fst := by
        rw [List.map_append, List.map_cons, List.nodup_append] at distinct
        exact fun he => distinct.2.2 _ he _ List.mem_cons_self rfl
      rw [List.foldl_cons, put_of_not_mem new, ih _ (by simpa using distinct), List.append_assoc]
      rfl
  exact run es [] h

end Data

namespace Value

/-! ### Localizing part by part -/

theorem localizeItems_eq_map (clean : String → String) :
    ∀ vs : List Value, localizeItems clean vs = vs.map (localize clean)
  | [] => rfl
  | v :: vs => congrArg (localize clean v :: ·) (localizeItems_eq_map clean vs)

theorem localizeEntries_eq_map (clean : String → String) :
    ∀ es : List (String × Value), localizeEntries clean es = es.map fun e => (e.1, localize clean e.2)
  | [] => rfl
  | (k, v) :: es => congrArg ((k, localize clean v) :: ·) (localizeEntries_eq_map clean es)

/-- What becomes of a field whose parts have been localized. -/
def localizeOwn (clean : String → String) (m : Model) (name : String) (v : Value) : Value :=
  if m.holdsUri name then v.mapText clean else if m.holdsUriKeys name then v.mapKeys clean else v

theorem localizeFields_eq_map (clean : String → String) (m : Model) :
    ∀ fs : List (Label × Value), localizeFields clean m fs =
      fs.map fun p => (p.1, localizeOwn clean m p.1.name (localize clean p.2))
  | [] => rfl
  | (l, v) :: fs => by
    rw [localizeFields, localizeFields_eq_map clean m fs, List.map_cons, localizeOwn]

theorem mapText_of_textIn {clean : String → String} {v : Value} (h : textIn v = []) : v.mapText clean = v := by
  unfold textIn at h
  split at h
  · cases h
  · next other =>
    cases v with
    | plain d =>
      cases d with
      | str s => exact absurd rfl (other s)
      | _ => rfl
    | _ => rfl

theorem mapKeys_of_keysIn {clean : String → String} {v : Value} (h : keysIn v = []) : v.mapKeys clean = v := by
  cases v with
  | table es =>
    cases es with
    | nil => rfl
    | cons e es => cases h
  | _ => rfl

theorem textIn_localize (clean : String → String) (v : Value) : textIn (v.localize clean) = textIn v := by
  cases v <;> rfl

theorem keysIn_localize (clean : String → String) (v : Value) : keysIn (v.localize clean) = keysIn v := by
  cases v with
  | table es => rw [localize, localizeEntries_eq_map, keysIn, keysIn, List.map_map]; rfl
  | _ => rfl

end Value

/-- The parts of the field being localized, so is the field. -/
theorem RespelledField.localize {spellings : List String} (free : PrefixFree spellings) {m : Model} {name : String}
    {u w : Value} (h : RespelledField spellings m name u w) :
    (w.localize (Uri.clean spellings)).localizeOwn (Uri.clean spellings) m name =
      u.localize (Uri.clean spellings) := by
  unfold Value.localizeOwn
  cases h with
  | uri place respelled =>
    rw [if_pos ((holdsUri_iff m name).2 place)]
    exact congrArg Value.text (respelled.clean free)
  | @keys es fs place distinct values respelled =>
    have field : ¬ m.holdsUri name = true := by
      rw [holdsUri_iff]
      exact fun field => not_table_of_field field place
    rw [if_neg field, if_pos ((holdsUriKeys_iff m name).2 place)]
    simp only [Value.localize, Value.localizeEntries_eq_map, Value.mapKeys, List.map_map]
    have entries : fs.map ((fun e => (Uri.clean spellings e.1, e.2)) ∘
        fun e => (e.1, e.2.localize (Uri.clean spellings))) =
        es.map fun e => (e.1, e.2.localize (Uri.clean spellings)) := by
      refine (map_eq_map_of_zip (length_eq_of_map_eq values) fun p hp => ?_).symm
      exact Prod.ext ((respelled p hp).clean free).symm
        (congrArg (Value.localize (Uri.clean spellings)) (eq_of_mem_zip values hp))
    rw [entries, Data.collect_of_nodup (by rwa [List.map_map])]
  | other field table =>
    split
    · next place =>
      exact Value.mapText_of_textIn ((Value.textIn_localize _ u).trans (field ((holdsUri_iff m name).1 place)))
    · split
      · next place =>
        exact Value.mapKeys_of_keysIn ((Value.keysIn_localize _ u).trans (table ((holdsUriKeys_iff m name).1 place)))
      · rfl

/-- **Relative paths undo spellings.**  A value that has been respelled gets back all its URIs, and keeps everything
else. -/
theorem Respelled.localize {spellings : List String} (free : PrefixFree spellings) {v w : Value}
    (h : Respelled spellings v w) : w.localize (Uri.clean spellings) = v := by
  induction h with
  | plain d => rfl
  | free d => rfl
  | member e name d => rfl
  | @list vs ws length _ ih =>
    have items := map_eq_map_of_zip (f := id) length fun p hp => (ih p hp).symm
    rw [Value.localize, Value.localizeItems_eq_map, ← items, List.map_id]
  | pair _ _ ih₁ ih₂ => rw [Value.localize, ih₁, ih₂]
  | table keys _ ih => rw [Value.localize, Value.localizeEntries_eq_map, map_values_of_zip keys ih]
  | @record m vs us ws extras labels _ labels' own ih =>
    have parts := map_values_of_zip labels ih
    have fields := map_eq_map_of_zip (f := fun e => (e.1, e.2.localize (Uri.clean spellings)))
      (g := fun e => (e.1, (e.2.localize (Uri.clean spellings)).localizeOwn (Uri.clean spellings) m e.1.name))
      (length_eq_of_map_eq labels') fun p hp => by
        have same := eq_of_mem_zip labels' hp
        exact Prod.ext same (by rw [← same]; exact ((own p hp).localize free).symm)
    rw [Value.localize, Value.localizeFields_eq_map, ← fields, parts]

/-! ### Values without URIs -/

namespace Value

mutual

/-- Where there is no URI, nothing is changed. -/
theorem localize_of_uris {clean : String → String} : ∀ v : Value, v.uris = [] → v.localize clean = v
  | .plain _, _ => rfl
  | .free _, _ => rfl
  | .member _ _ _, _ => rfl
  | .list vs, h => congrArg Value.list (localizeItems_of_uris vs h)
  | .pair a b, h => by
    obtain ⟨ha, hb⟩ := List.append_eq_nil_iff.1 h
    rw [localize, localize_of_uris a ha, localize_of_uris b hb]
  | .table es, h => congrArg Value.table (localizeEntries_of_uris es h)
  | .record m fs extras, h => congrArg (Value.record m · extras) (localizeFields_of_uris m fs h)

theorem localizeItems_of_uris {clean : String → String} :
    ∀ vs : List Value, urisOfItems vs = [] → localizeItems clean vs = vs
  | [], _ => rfl
  | v :: vs, h => by
    obtain ⟨hv, hvs⟩ := List.append_eq_nil_iff.1 h
    rw [localizeItems, localize_of_uris v hv, localizeItems_of_uris vs hvs]

theorem localizeEntries_of_uris {clean : String → String} :
    ∀ es : List (String × Value), urisOfEntries es = [] → localizeEntries clean es = es
  | [], _ => rfl
  | (k, v) :: es, h => by
    obtain ⟨hv, hes⟩ := List.append_eq_nil_iff.1 h
    rw [localizeEntries, localize_of_uris v hv, localizeEntries_of_uris es hes]

theorem localizeFields_of_uris {clean : String → String} (m : Model) :
    ∀ fs : List (Label × Value), urisOfFields m fs = [] → localizeFields clean m fs = fs
  | [], _ => rfl
  | (l, v) :: fs, h => by
    obtain ⟨front, hfs⟩ := List.append_eq_nil_iff.1 h
    obtain ⟨own, hv⟩ := List.append_eq_nil_iff.1 front
    rw [localizeFields, localize_of_uris v hv, localizeFields_of_uris m fs hfs]
    split at own
    · next field => rw [if_pos field, mapText_of_textIn own]
    · next field =>
      split at own
      · next table => rw [if_neg field, if_pos table, mapKeys_of_keysIn own]
      · next table => rw [if_neg field, if_neg table]

end

end Value

mutual

/-- A value without URIs is a respelling of itself. -/
theorem Respelled.of_uris (spellings : List String) : ∀ v : Value, v.uris = [] → Respelled spellings v v
  | .plain d, _ => .plain d
  | .free d, _ => .free d
  | .member e name d, _ => .member e name d
  | .list vs, h => .list rfl (Respelled.of_urisOfItems spellings vs h)
  | .pair a b, h =>
    .pair (Respelled.of_uris spellings a (List.append_eq_nil_iff.1 h).1)
      (Respelled.of_uris spellings b (List.append_eq_nil_iff.1 h).2)
  | .table es, h => .table rfl (Respelled.of_urisOfEntries spellings es h)
  | .record m fs _, h =>
    .record rfl (fun p hp => (Respelled.of_urisOfFields spellings m fs h p hp).1) rfl
      (fun p hp => (Respelled.of_urisOfFields spellings m fs h p hp).2)

theorem Respelled.of_urisOfItems (spellings : List String) :
    ∀ vs : List Value, Value.urisOfItems vs = [] → ∀ p ∈ vs.zip vs, Respelled spellings p.1 p.2
  | v :: vs, h, p, hp => by
    obtain ⟨hv, hvs⟩ := List.append_eq_nil_iff.1 h
    rcases List.mem_cons.1 hp with rfl | hp
    · exact Respelled.of_uris spellings v hv
    · exact Respelled.of_urisOfItems spellings vs hvs p hp

theorem Respelled.of_urisOfEntries (spellings : List String) :
    ∀ es : List (String × Value), Value.urisOfEntries es = [] → ∀ p ∈ es.zip es, Respelled spellings p.1.2 p.2.2
  | (k, v) :: es, h, p, hp => by
    obtain ⟨hv, hes⟩ := List.append_eq_nil_iff.1 h
    rcases List.mem_cons.1 hp with rfl | hp
    · exact Respelled.of_uris spellings v hv
    · exact Respelled.of_urisOfEntries spellings es hes p hp

theorem Respelled.of_urisOfFields (spellings : List String) (m : Model) :
    ∀ fs : List (Label × Value), Value.urisOfFields m fs = [] → ∀ p ∈ fs.zip fs,
      Respelled spellings p.1.2 p.2.2 ∧ RespelledField spellings m p.1.1.name p.1.2 p.2.2
  | (l, v) :: fs, h, p, hp => by
    obtain ⟨front, hfs⟩ := List.append_eq_nil_iff.1 h
    obtain ⟨own, hv⟩ := List.append_eq_nil_iff.1 front
    rcases List.mem_cons.1 hp with rfl | hp
    · refine ⟨Respelled.of_uris spellings v hv, .other (fun place => ?_) (fun place => ?_)⟩
      · rwa [if_pos ((holdsUri_iff m l.name).2 place)] at own
      · split at own
        · next field => exact absurd place (not_table_of_field ((holdsUri_iff m l.name).1 field))
        · rwa [if_pos ((holdsUriKeys_iff m l.name).2 place)] at own
    · exact Respelled.of_urisOfFields spellings m fs hfs p hp

end

namespace Value

theorem localizeBy_eq {spellings : List String} (v : Value) :
    v.localizeBy (.ok spellings) = .ok (v.localize (Uri.clean spellings)) := by
  unfold localizeBy
  split
  · next none => rw [localize_of_uris v (List.isEmpty_iff.1 none)]
  · rfl

end Value

mutual

/-- The models that a value of a shape may be made of at its top. -/
def Shape.models : Shape → List Model
  | .model m => [m]
  | .list item => item.models
  | .pair a b => a.models ++ b.models
  | .table entry => entry.models
  | .optional inner => inner.models
  | .union branches => modelsOfBranches branches
  | _ => []

def Shape.modelsOfBranches : List Shape → List Model
  | [] => []
  | s :: rest => s.models ++ modelsOfBranches rest

end

/-- Does the model have URIs, at any depth? -/
def Model.hasUris : Model → Bool
  | location | locationLink | optionalVersionedTextDocumentIdentifier | textDocumentEdit | createFile | renameFile
  | deleteFile | workspaceEdit | symbolInformation | workspaceSymbolLocation | workspaceSymbol
  | diagnosticRelatedInformation | diagnostic | callHierarchyItem | callHierarchyIncomingCall
  | callHierarchyOutgoingCall | typeHierarchyItem | documentLink | inlayHintLabelPart | inlayHint
  | codeActionContext | codeAction | fullDocumentDiagnosticReport | relatedFullDocumentDiagnosticReport
  | relatedUnchangedDocumentDiagnosticReport | workspaceFullDocumentDiagnosticReport
  | workspaceUnchangedDocumentDiagnosticReport | workspaceDiagnosticReport => true
  | _ => false

/-- A model without URIs holds none in its fields, and is made of such models. -/
theorem Model.fields_of_hasUris (m : Model) (h : m.hasUris = false) (f : Field) (hf : f ∈ m.fields) :
    m.holdsUri f.label.name = false ∧ m.holdsUriKeys f.label.name = false ∧
      ∀ n ∈ f.shape.models, n.hasUris = false := by
  have all : m.hasUris = true ∨ (m.fields.all fun f => !m.holdsUri f.label.name && !m.holdsUriKeys f.label.name &&
      f.shape.models.all fun n => !n.hasUris) = true := by
    cases m <;> first
      | exact .inl rfl
      | exact .inr (by decide)
  rcases all with yes | all
  · rw [yes] at h; cases h
  · have own := List.all_eq_true.1 all f hf
    simp only [Bool.and_eq_true, Bool.not_eq_true', List.all_eq_true] at own
    exact ⟨own.1.1, own.1.2, own.2⟩

theorem Shape.models_subset {s : Shape} {n : Model} (hn : n ∈ s.models) :
    ∀ {shapes : List Shape}, s ∈ shapes → n ∈ Shape.modelsOfBranches shapes
  | t :: shapes, hs => by
    rw [modelsOfBranches, List.mem_append]
    rcases List.mem_cons.1 hs with rfl | hs
    · exact .inl hn
    · exact .inr (models_subset hn hs)

namespace Value

theorem urisOfItems_eq_nil {vs : List Value} (h : ∀ v ∈ vs, v.uris = []) : urisOfItems vs = [] := by
  induction vs with
  | nil => rfl
  | cons v vs ih =>
    rw [urisOfItems, h v List.mem_cons_self, ih fun u hu => h u (List.mem_cons_of_mem v hu)]
    rfl

theorem urisOfEntries_eq_nil {es : List (String × Value)} (h : ∀ e ∈ es, e.2.uris = []) :
    urisOfEntries es = [] := by
  induction es with
  | nil => rfl
  | cons e es ih =>
    obtain ⟨k, v⟩ := e
    rw [urisOfEntries, h (k, v) List.mem_cons_self, ih fun u hu => h u (List.mem_cons_of_mem _ hu)]
    rfl

theorem urisOfFields_eq_nil {m : Model} {fs : List (Label × Value)}
    (h : ∀ e ∈ fs, m.holdsUri e.1.name = false ∧ m.holdsUriKeys e.1.name = false ∧ e.2.uris = []) :
    urisOfFields m fs = [] := by
  induction fs with
  | nil => rfl
  | cons e fs ih =>
    obtain ⟨l, v⟩ := e
    obtain ⟨field, table, parts⟩ := h (l, v) List.mem_cons_self
    rw [urisOfFields, parts, ih fun u hu => h u (List.mem_cons_of_mem _ hu), if_neg (by rw [field]; decide),
      if_neg (by rw [table]; decide)]
    rfl

end Value

/-- Values made of models without URIs have none. -/
theorem Fits.uris_eq_nil {s : Shape} {v : Value} (h : Fits s v) (free : ∀ n ∈ s.models, n.hasUris = false) :
    v.uris = [] := by
  induction h with
  | @model m vs extras labels _ _ ih =>
    refine Value.urisOfFields_eq_nil fun e he => ?_
    obtain ⟨f, hf⟩ := exists_mem_zip (length_eq_of_map_eq labels).symm he
    obtain ⟨field, table, parts⟩ := m.fields_of_hasUris (free m (List.mem_singleton.2 rfl)) f (List.of_mem_zip hf).1
    rw [eq_of_mem_zip labels.symm hf] at field table
    exact ⟨field, table, ih (f, e) hf parts⟩
  | list _ ih => exact Value.urisOfItems_eq_nil fun v hv => ih v hv free
  | pair _ _ ih₁ ih₂ =>
    rw [Value.uris, ih₁ fun n hn => free n (List.mem_append_left _ hn),
      ih₂ fun n hn => free n (List.mem_append_right _ hn)]
    rfl
  | table _ ih => exact Value.urisOfEntries_eq_nil fun e he => ih e he free
  | given _ _ ih => exact ih free
  | branch hs _ ih => exact ih fun n hn => free n (Shape.models_subset hn hs)
  | _ => rfl

/-! ### Replies -/

/-- May replies to the request have URIs? -/
def Request.hasUris (r : Request) : Bool := r.response.models.any Model.hasUris

example : Request.all.filter (fun r => !r.hasUris) =
    [.codeLens, .codeLensResolve, .documentColor, .colorPresentation, .completion, .completionResolve,
      .documentHighlight, .executeCommand, .foldingRange, .formatting, .hover, .linkedEditingRange, .moniker,
      .selectionRange, .semanticTokensFull, .semanticTokensFullDelta, .semanticTokensRange, .signatureHelp] := by
  decide

/-- **Relative paths undo spellings in replies.**  However many of the URIs of a reply have been respelled, each with
any of the spellings of the directory for source files, the reply with relative paths is the original one.  The values
of the requests whose replies have no URIs are kept. -/
theorem Request.localize_undoes_spellings (r : Request) (w : World) (l : Layout) :
    (∀ spellings v v', w.spellings l.sources = .ok spellings → PrefixFree spellings → Respelled spellings v v' →
      r.localize (w.spellings l.sources) (some v') = .ok (some v)) ∧
    (∀ v, r.hasUris = false → Fits r.response v → r.localize (w.spellings l.sources) (some v) = .ok (some v)) := by
  refine ⟨fun spellings v v' known free respelled => ?_, fun v none fits => ?_⟩
  · rw [known, Request.localize, Value.localizeBy_eq, respelled.localize free]
    rfl
  · have uris : v.uris = [] := fits.uris_eq_nil fun n hn => by
      unfold Request.hasUris at none
      simpa using List.any_eq_false.1 none n hn
    rw [Request.localize, Value.localizeBy, uris]
    rfl

/-- A stretch of a file. -/
def Value.locationAt (uri : String) (range : Value) : Value :=
  .record .location [(⟨"uri", "uri"⟩, .text uri), (⟨"range", "range"⟩, range)] []

theorem Respelled.locationAt {spellings : List String} {u u' : String} {range : Value}
    (h : RespelledUri spellings u u') (none : range.uris = []) :
    Respelled spellings (.locationAt u range) (.locationAt u' range) := by
  refine @Respelled.record spellings .location _ [(⟨"uri", "uri"⟩, .text u), (⟨"range", "range"⟩, range)] _ [] rfl
    (fun p hp => ?_) rfl (fun p hp => ?_)
  · rcases List.mem_cons.1 hp with rfl | hp
    · exact .plain (.str u)
    · rw [List.mem_singleton.1 hp]
      exact .of_uris spellings range none
  · rcases List.mem_cons.1 hp with rfl | hp
    · refine .uri ?_ h
      change (Model.location, "uri") ∈ uriFields
      decide
    · rw [List.mem_singleton.1 hp]
      refine .other (fun place => absurd place ?_) (fun place => absurd place ?_)
      · change (Model.location, "range") ∉ uriFields
        decide
      · change (Model.location, "range") ∉ uriTables
        decide

/-- A range on one line. -/
def Value.lineRange (line first last : Int) : Value :=
  .record .range
    [(⟨"start", "start"⟩, .record .position
        [(⟨"line", "line"⟩, .whole line), (⟨"character", "character"⟩, .whole first)] []),
      (⟨"end", "end"⟩, .record .position
        [(⟨"line", "line"⟩, .whole line), (⟨"character", "character"⟩, .whole last)] [])] []

theorem Value.localize_locationAt (clean : String → String) (uri : String) (range : Value) :
    (Value.locationAt uri range).localize clean = .locationAt (clean uri) (range.localize clean) := rfl

/-- A reference in a directory with a blank in its name, which is reached by a link: four spellings. -/
theorem Request.localize_undoes_spellings_blank :
    let w : World := ⟨[(["r"], .directory), (["l"], .link ["r"])],
      [], [], ⟨.slash, ["tmp"]⟩, "1"⟩
    let l : Layout := ⟨"1", ⟨.slash, ["l", "a b"]⟩⟩
    let spellings :=
      ["file:///l/a%20b/lspresso-shot/1/src/", "file:///l/a b/lspresso-shot/1/src/",
        "file:///r/a%20b/lspresso-shot/1/src/", "file:///r/a b/lspresso-shot/1/src/"]
    let v : Value := .list [.locationAt "main.rs" (.lineRange 0 0 1)]
    let v' : Value := .list [.locationAt "file:///r/a%20b/lspresso-shot/1/src/main.rs" (.lineRange 0 0 1)]
    let tokens : Value := .free (.str "file:///l/a%20b/lspresso-shot/1/src/main.rs")
    w.spellings l.sources = .ok spellings ∧ PrefixFree spellings ∧ Respelled spellings v v' ∧
      Request.references.localize (w.spellings l.sources) (some v') = .ok (some v) ∧
      Request.executeCommand.hasUris = false ∧ Fits Request.executeCommand.response tokens ∧
      Request.executeCommand.localize (w.spellings l.sources) (some tokens) = .ok (some tokens) := by
  intro w l spellings v v' tokens
  have known : w.spellings l.sources = .ok spellings := by
    have given : l.sources = ⟨.slash, ["l", "a b", "lspresso-shot", "1", "src"]⟩ := by decide
    rw [given, World.spellings_eq (q := ⟨.slash, ["r", "a b", "lspresso-shot", "1", "src"]⟩)
      (s := "/l/a b/lspresso-shot/1/src") (t := "/r/a b/lspresso-shot/1/src")
      rfl (by decide) (by decide) (by decide) rfl rfl]
    rfl
  have free : PrefixFree spellings := by
    unfold PrefixFree
    decide
  have respelled : Respelled spellings v v' := by
    refine .list rfl fun p hp => ?_
    rw [List.mem_singleton.1 hp]
    exact .locationAt ⟨by decide, .inr ⟨"file:///r/a%20b/lspresso-shot/1/src/", by decide, by decide⟩⟩ rfl
  have fits : Fits Request.executeCommand.response tokens := .any _
  exact ⟨known, free, respelled, (Request.localize_undoes_spellings .references w l).1 spellings v v' known free respelled,
    by decide, fits, (Request.localize_undoes_spellings .executeCommand w l).2 tokens (by decide) fits⟩

/-- Where the given directory starts with the one that it leads to, more is taken off than was put in front. -/
theorem Request.localize_longer_spelling :
    let w : World := ⟨[], [], [], ⟨.slash, ["tmp"]⟩, "1"⟩
    let l : Layout := ⟨"1", ⟨.slash, ["t", "lspresso-shot", "1", "src", "..", "..", ".."]⟩⟩
    let spellings :=
      ["file:///t/lspresso-shot/1/src/../../../lspresso-shot/1/src/", "file:///t/lspresso-shot/1/src/"]
    let v : Value := .list [.locationAt "../../../lspresso-shot/1/src/main.rs" (.lineRange 0 0 1)]
    let v' : Value := .list
      [.locationAt "file:///t/lspresso-shot/1/src/../../../lspresso-shot/1/src/main.rs" (.lineRange 0 0 1)]
    w.spellings l.sources = .ok spellings ∧ Respelled spellings v v' ∧
      Request.references.localize (w.spellings l.sources) (some v') =
        .ok (some (.list [.locationAt "main.rs" (.lineRange 0 0 1)])) ∧
      Request.references.localize (w.spellings l.sources) (some v') ≠ .ok (some v) := by
  intro w l spellings v v'
  have known : w.spellings l.sources = .ok spellings := by
    have given : l.sources =
        ⟨.slash, ["t", "lspresso-shot", "1", "src", "..", "..", "..", "lspresso-shot", "1", "src"]⟩ := by decide
    rw [given, World.spellings_eq (q := ⟨.slash, ["t", "lspresso-shot", "1", "src"]⟩)
      (s := "/t/lspresso-shot/1/src/../../../lspresso-shot/1/src") (t := "/t/lspresso-shot/1/src")
      rfl (by decide) (by decide) (by decide) rfl rfl]
    rfl
  have respelled : Respelled spellings v v' := by
    refine .list rfl fun p hp => ?_
    rw [List.mem_singleton.1 hp]
    exact .locationAt ⟨by decide, .inr ⟨"file:///t/lspresso-shot/1/src/", by decide, by decide⟩⟩ rfl
  have localized : Request.references.localize (w.spellings l.sources) (some v') =
      .ok (some (.list [.locationAt "main.rs" (.lineRange 0 0 1)])) := by
    have clean : Uri.clean spellings "file:///t/lspresso-shot/1/src/../../../lspresso-shot/1/src/main.rs" = "main.rs" := by
      decide
    rw [known, Request.localize, Value.localizeBy_eq, Value.localize, Value.localizeItems_eq_map, List.map_singleton,
      Value.localize_locationAt, clean]
    rfl
  refine ⟨known, respelled, localized, fun same => ?_⟩
  rw [localized] at same
  simp [v, Value.locationAt, Value.text] at same

end ServerTrial
