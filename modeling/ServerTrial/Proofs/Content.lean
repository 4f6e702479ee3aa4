import ServerTrial.Proofs.Readable

/-!
# The data of a value

* `Value.content`: the data a value stands for, fields that are not null under their keys;
* `Value.toData_eq_content`: a value whose content is sound is put into messages as its content;
* `Value.sound_localize`, `Fits.localize`: relative paths leave the content sound and the shape the same;
* `Data.same_self`: sound data equal themselves.
-/

namespace ServerTrial

/-! ### Sound data -/

namespace Data

/-- Data that can be written and read again: regular, readable, and with at most so many brackets around a place. -/
structure Sound (n : Nat) (d : Data) : Prop where
  regular : d.Regular
  readable : d.Readable
  shallow : d.brackets ≤ n

section Sound

variable {n : Nat}

theorem Sound.mono {d : Data} {m : Nat} (h : d.Sound m) (le : m ≤ n) : d.Sound n :=
  ⟨h.regular, h.readable, Nat.le_trans h.shallow le⟩

theorem sound_arr_iff {xs : List Data} : (arr xs).Sound n ↔ 1 ≤ n ∧ ∀ x ∈ xs, x.Sound (n - 1) := by
  constructor
  · rintro ⟨regular, readable, shallow⟩
    rw [brackets] at shallow
    have parts := bracketsOfItems_le.1 (Nat.le_sub_one_of_lt shallow)
    exact ⟨by omega, fun x hx =>
      ⟨(all_arr_iff.1 regular).2 x hx, (all_arr_iff.1 readable).2 x hx, parts x hx⟩⟩
  · rintro ⟨positive, parts⟩
    have inner : bracketsOfItems xs ≤ n - 1 := bracketsOfItems_le.2 fun x hx => (parts x hx).shallow
    refine ⟨all_arr_iff.2 ⟨trivial, fun x hx => (parts x hx).regular⟩,
      all_arr_iff.2 ⟨trivial, fun x hx => (parts x hx).readable⟩, ?_⟩
    rw [brackets]
    omega

theorem sound_obj_iff {es : List (String × Data)} :
    (obj es).Sound n ↔ 1 ≤ n ∧ (∀ k ∈ es.map Prod.fst, Text.isWhole k = true) ∧ (es.map Prod.fst).Nodup ∧
      ∀ e ∈ es, e.2.Sound (n - 1) := by
  constructor
  · rintro ⟨regular, readable, shallow⟩
    rw [brackets] at shallow
    have parts := bracketsOfEntries_le.1 (Nat.le_sub_one_of_lt shallow)
    refine ⟨by omega, List.forall_mem_map.2 (all_obj_iff.1 regular).1, (all_obj_iff.1 readable).1, fun e he => ?_⟩
    exact ⟨(all_obj_iff.1 regular).2 e he, (all_obj_iff.1 readable).2 e he, parts e he⟩
  · rintro ⟨positive, whole, distinct, parts⟩
    have inner : bracketsOfEntries es ≤ n - 1 := bracketsOfEntries_le.2 fun e he => (parts e he).shallow
    refine ⟨all_obj_iff.2 ⟨List.forall_mem_map.1 whole, fun e he => (parts e he).regular⟩,
      all_obj_iff.2 ⟨distinct, fun e he => (parts e he).readable⟩, ?_⟩
    rw [brackets]
    omega

end Sound

/-! ### Free data in messages -/

theorem replaced_of_whole {s : String} (h : Text.isWhole s = true) : Text.replaced s = s := by
  have run : ∀ cs : List Char, cs.any Text.isStandIn = false →
      cs.flatMap (fun c => if Text.isStandIn c = true then List.replicate 3 (Char.ofNat 0xFFFD) else [c]) = cs := by
    intro cs
    induction cs with
    | nil => intro _; rfl
    | cons c cs ih =>
      intro none
      rw [List.any_cons, Bool.or_eq_false_iff] at none
      rw [List.flatMap_cons, ih none.2, none.1]
      rfl
  rw [Text.replaced, run s.toList (by simpa [Text.isWhole] using h), String.ofList_toList]

mutual

/-- Sound data are in the form of messages. -/
theorem messageForm_of_sound : ∀ (d : Data) {n : Nat}, d.Sound n → d.messageForm = d
  | null, _, _ => rfl
  | bool _, _, _ => rfl
  | int _, _, _ => rfl
  | str _, _, _ => rfl
  | float x, _, h => by
    have finite : x.isFinite = true := h.regular
    rw [messageForm, if_pos finite]
  | moment m, _, h => absurd h.readable id
  | arr xs, n, h => by
    rw [messageForm, messageFormItems_of_sound xs (sound_arr_iff.1 h).2]
  | obj es, n, h => by
    obtain ⟨-, whole, distinct, parts⟩ := sound_obj_iff.1 h
    rw [messageForm, messageFormEntries_of_sound es whole parts, collect_of_nodup distinct]

theorem messageFormItems_of_sound :
    ∀ (xs : List Data) {n : Nat}, (∀ x ∈ xs, x.Sound n) → messageFormItems xs = xs
  | [], _, _ => rfl
  | x :: xs, _, h => by
    obtain ⟨head, rest⟩ := List.forall_mem_cons.1 h
    rw [messageFormItems, messageForm_of_sound x head, messageFormItems_of_sound xs rest]

theorem messageFormEntries_of_sound : ∀ (es : List (String × Data)) {n : Nat},
    (∀ k ∈ es.map Prod.fst, Text.isWhole k = true) → (∀ e ∈ es, e.2.Sound n) → messageFormEntries es = es
  | [], _, _, _ => rfl
  | (k, x) :: es, _, whole, h => by
    obtain ⟨headKey, restKeys⟩ := List.forall_mem_cons.1 whole
    obtain ⟨head, rest⟩ := List.forall_mem_cons.1 h
    rw [messageFormEntries, replaced_of_whole headKey, messageForm_of_sound x head,
      messageFormEntries_of_sound es restKeys rest]

end

/-! ### Sound data equal themselves -/

theorem find?_of_mem {α : Type} {e : String × α} :
    ∀ {es : List (String × α)}, (es.map Prod.fst).Nodup → e ∈ es → find? e.1 es = some e.2
  | (k, x) :: es, distinct, he => by
    rw [List.map_cons, List.nodup_cons] at distinct
    rcases List.mem_cons.1 he with rfl | he
    · rw [find?, if_pos rfl]
    · have other : k ≠ e.1 := fun same => distinct.1 (List.mem_map.2 ⟨e, he, same.symm⟩)
      rw [find?, if_neg other, find?_of_mem distinct.2 he]

theorem sameEntries_of_find? {ys : List (String × Data)} :
    ∀ {xs : List (String × Data)}, (∀ e ∈ xs, ∃ y, find? e.1 ys = some y ∧ e.2.same y = true) →
      sameEntries xs ys = true
  | [], _ => rfl
  | (k, x) :: xs, h => by
    obtain ⟨⟨y, there, same⟩, rest⟩ := List.forall_mem_cons.1 h
    dsimp only at there same
    rw [sameEntries, there, sameEntries_of_find? rest, Bool.and_true]
    exact same

mutual

/-- Sound data equal themselves. -/
theorem same_self : ∀ (d : Data) {n : Nat}, d.Sound n → d.same d = true
  | null, _, _ => rfl
  | bool b, _, _ => by cases b <;> rfl
  | int m, _, _ => by simp [same, sameNumber, number?, Number.same]
  | str s, _, _ => by simp [same]
  | float x, _, h => Real64.beq_self h.regular
  | moment m, _, h => absurd h.readable id
  | arr xs, n, h => by
    rw [same]
    exact sameItems_self xs (sound_arr_iff.1 h).2
  | obj es, n, h => by
    obtain ⟨-, -, distinct, parts⟩ := sound_obj_iff.1 h
    have equal := same_self_of_entries es parts
    rw [same, beq_self_eq_true, Bool.true_and]
    exact sameEntries_of_find? fun e he => ⟨e.2, find?_of_mem distinct he, equal e he⟩

theorem sameItems_self : ∀ (xs : List Data) {n : Nat}, (∀ x ∈ xs, x.Sound n) → sameItems xs xs = true
  | [], _, _ => rfl
  | x :: xs, _, h => by
    obtain ⟨head, rest⟩ := List.forall_mem_cons.1 h
    rw [sameItems, same_self x head, sameItems_self xs rest]
    rfl

theorem same_self_of_entries :
    ∀ (es : List (String × Data)) {n : Nat}, (∀ e ∈ es, e.2.Sound n) → ∀ e ∈ es, e.2.same e.2 = true
  | [], _, _ => by simp
  | (k, x) :: es, _, h => by
    obtain ⟨head, rest⟩ := List.forall_mem_cons.1 h
    exact List.forall_mem_cons.2 ⟨same_self x head, same_self_of_entries es rest⟩

end

end Data

/-! ### The content of a value -/

namespace Value

mutual

/-- The data a value stands for: fields that are not null under their keys. -/
def content : Value → Data
  | plain d => d
  | free d => d
  | member _ _ d => d
  | list items => .arr (contentOfItems items)
  | pair a b => .arr [content a, content b]
  | table entries => .obj (contentOfEntries entries)
  | record _ fields extras => .obj (contentOfFields fields ++ extras.filter fun e => !(free e.2).isNull)

def contentOfItems : List Value → List Data
  | [] => []
  | v :: vs => content v :: contentOfItems vs

def contentOfEntries : List (String × Value) → List (String × Data)
  | [] => []
  | (k, v) :: vs => (k, content v) :: contentOfEntries vs

def contentOfFields : List (Label × Value) → List (String × Data)
  | [] => []
  | (l, v) :: vs => if v.isNull then contentOfFields vs else (l.key, content v) :: contentOfFields vs

end

theorem contentOfItems_eq_map : ∀ vs : List Value, contentOfItems vs = vs.map content
  | [] => rfl
  | v :: vs => congrArg (content v :: ·) (contentOfItems_eq_map vs)

theorem contentOfEntries_eq_map :
    ∀ es : List (String × Value), contentOfEntries es = es.map fun e => (e.1, content e.2)
  | [] => rfl
  | (k, v) :: es => congrArg ((k, content v) :: ·) (contentOfEntries_eq_map es)

theorem keys_contentOfEntries (es : List (String × Value)) :
    (contentOfEntries es).map Prod.fst = es.map Prod.fst := by
  rw [contentOfEntries_eq_map, List.map_map]
  rfl

/-- The fields that are not null, under their keys. -/
theorem contentOfFields_eq : ∀ vs : List (Label × Value),
    contentOfFields vs = (vs.filter fun p => !p.2.isNull).map fun p => (p.1.key, p.2.content)
  | [] => rfl
  | (l, v) :: vs => by
    rw [contentOfFields, List.filter_cons, contentOfFields_eq vs]
    cases v.isNull <;> rfl

theorem mem_contentOfFields {e : String × Data} {vs : List (Label × Value)} :
    e ∈ contentOfFields vs ↔ ∃ p ∈ vs, p.2.isNull = false ∧ e = (p.1.key, p.2.content) := by
  rw [contentOfFields_eq, List.mem_map]
  constructor
  · rintro ⟨p, hp, rfl⟩
    obtain ⟨there, some⟩ := List.mem_filter.1 hp
    exact ⟨p, there, by simpa using some, rfl⟩
  · rintro ⟨p, hp, some, rfl⟩
    exact ⟨p, List.mem_filter.2 ⟨hp, by simpa using some⟩, rfl⟩

theorem keys_contentOfFields (vs : List (Label × Value)) :
    (contentOfFields vs).map Prod.fst = (vs.filter fun p => !p.2.isNull).map fun p => p.1.key := by
  rw [contentOfFields_eq, List.map_map]
  rfl

/-! ### Content is what messages hold -/

theorem extrasForm_of_sound {n : Nat} {extras : List (String × Data)}
    (h : ∀ e ∈ extras.filter fun e => !(free e.2).isNull, e.2.Sound n) :
    extrasForm extras = extras.filter fun e => !(free e.2).isNull := by
  induction extras with
  | nil => rfl
  | cons e extras ih =>
    obtain ⟨k, d⟩ := e
    rw [List.filter_cons] at h ⊢
    cases d with
    | null => exact ih h
    | _ =>
      obtain ⟨head, rest⟩ := List.forall_mem_cons.1 h
      rw [extrasForm, Data.messageForm_of_sound _ head, ih rest]
      · rfl
      · simp

mutual

/-- A value with sound content is put into messages as its content. -/
theorem toDataIn_eq_content (b : Bool) : ∀ (v : Value) {n : Nat}, v.content.Sound n → v.toDataIn b = v.content
  | plain d, _, _ => rfl
  | free d, _, h => by
    rw [toDataIn, content]
    split
    · exact Data.messageForm_of_sound d h
    · rfl
  | member e name d, _, _ => rfl
  | list vs, n, h => by
    rw [content, Data.sound_arr_iff] at h
    rw [toDataIn, content, toDataItems_eq_content b vs h.2]
  | pair v w, n, h => by
    rw [content, Data.sound_arr_iff] at h
    rw [toDataIn, content, toDataIn_eq_content b v (h.2 _ (by simp)), toDataIn_eq_content b w (h.2 _ (by simp))]
  | table es, n, h => by
    obtain ⟨-, whole, distinct, parts⟩ := Data.sound_obj_iff.1 h
    have entries := toDataEntries_eq_content b es parts
    have plain : (contentOfEntries es).map (fun e => (Text.replaced e.1, e.2)) = contentOfEntries es := by
      refine (List.map_congr_left fun e he => ?_).trans (List.map_id _)
      exact Prod.ext (Data.replaced_of_whole (whole e.1 (List.mem_map_of_mem he))) rfl
    rw [toDataIn, content, entries]
    cases b with
    | false => rfl
    | true => rw [if_pos rfl, plain, Data.collect_of_nodup distinct]
  | record m vs extras, n, h => by
    obtain ⟨-, -, -, parts⟩ := Data.sound_obj_iff.1 h
    obtain ⟨own, further⟩ := List.forall_mem_append.1 parts
    rw [toDataIn, content, toDataFields_eq_content vs own, extrasForm_of_sound further]

theorem toDataItems_eq_content (b : Bool) : ∀ (vs : List Value) {n : Nat}, (∀ x ∈ contentOfItems vs, x.Sound n) →
    toDataItems b vs = contentOfItems vs
  | [], _, _ => rfl
  | v :: vs, _, h => by
    obtain ⟨head, rest⟩ := List.forall_mem_cons.1 h
    rw [toDataItems, contentOfItems, toDataIn_eq_content b v head, toDataItems_eq_content b vs rest]

theorem toDataEntries_eq_content (b : Bool) : ∀ (es : List (String × Value)) {n : Nat},
    (∀ e ∈ contentOfEntries es, e.2.Sound n) → toDataEntries b es = contentOfEntries es
  | [], _, _ => rfl
  | (k, v) :: es, _, h => by
    obtain ⟨head, rest⟩ := List.forall_mem_cons.1 h
    rw [toDataEntries, contentOfEntries, toDataIn_eq_content b v head, toDataEntries_eq_content b es rest]

theorem toDataFields_eq_content : ∀ (vs : List (Label × Value)) {n : Nat},
    (∀ e ∈ contentOfFields vs, e.2.Sound n) → toDataFields vs = contentOfFields vs
  | [], _, _ => rfl
  | (l, v) :: vs, _, h => by
    rw [toDataFields, contentOfFields]
    rw [contentOfFields] at h
    cases null : v.isNull with
    | true =>
      rw [null] at h
      exact toDataFields_eq_content vs h
    | false =>
      rw [null] at h
      obtain ⟨head, rest⟩ := List.forall_mem_cons.1 h
      rw [if_neg Bool.false_ne_true, if_neg Bool.false_ne_true, toDataIn_eq_content true v head,
        toDataFields_eq_content vs rest]

end

/-! ### Relative paths -/

theorem isNull_localize (clean : String → String) (v : Value) : (v.localize clean).isNull = v.isNull := by
  cases v <;> rfl

theorem isNull_localizeOwn (clean : String → String) (m : Model) (name : String) (v : Value) :
    (localizeOwn clean m name v).isNull = v.isNull := by
  unfold localizeOwn
  split
  · unfold mapText
    split <;> rfl
  · split
    · unfold mapKeys
      split <;> rfl
    · rfl

/-- Texts without lone surrogates stay so. -/
def KeepsWhole (clean : String → String) : Prop := ∀ s, Text.isWhole s = true → Text.isWhole (clean s) = true

theorem keepsWhole_clean (spellings : List String) : KeepsWhole (Uri.clean spellings) := by
  intro s h
  unfold Uri.clean
  split
  · next p _ =>
    have all : ∀ c ∈ s.toList, ¬ Text.isStandIn c = true := by simpa [Text.isWhole] using h
    have part : ∀ c ∈ s.toList.drop p.toList.length, ¬ Text.isStandIn c = true :=
      fun c hc => all c (List.mem_of_mem_drop hc)
    simpa [Text.isWhole] using part
  · exact h

section Localize

variable {clean : String → String}

theorem sound_mapText (keeps : KeepsWhole clean) {n : Nat} {v : Value} (h : v.content.Sound n) :
    (v.mapText clean).content.Sound n := by
  unfold mapText
  split
  · next s =>
    exact ⟨keeps s h.regular, trivial, Nat.zero_le n⟩
  · exact h

theorem sound_mapKeys (keeps : KeepsWhole clean) {n : Nat} {v : Value} (h : v.content.Sound n) :
    (v.mapKeys clean).content.Sound n := by
  unfold mapKeys
  split
  · next es =>
    obtain ⟨positive, whole, distinct, parts⟩ := Data.sound_obj_iff.1 h
    rw [keys_contentOfEntries] at whole
    rw [contentOfEntries_eq_map] at parts
    obtain ⟨nodup, mem⟩ := Data.collect_spec (es.map fun e => (clean e.1, e.2))
    rw [content, Data.sound_obj_iff, keys_contentOfEntries, contentOfEntries_eq_map]
    refine ⟨positive, fun k hk => ?_, nodup, fun e he => ?_⟩
    · obtain ⟨e, he, rfl⟩ := List.mem_map.1 hk
      obtain ⟨e', he', rfl⟩ := List.mem_map.1 (mem e he)
      exact keeps e'.1 (whole e'.1 (List.mem_map_of_mem he'))
    · obtain ⟨e', he', rfl⟩ := List.mem_map.1 he
      obtain ⟨e'', he'', rfl⟩ := List.mem_map.1 (mem e' he')
      exact parts (e''.1, e''.2.content) (List.mem_map.2 ⟨e'', he'', rfl⟩)
  · exact h

theorem sound_localizeOwn (keeps : KeepsWhole clean) {n : Nat} {m : Model} {name : String} {v : Value}
    (h : v.content.Sound n) : (localizeOwn clean m name v).content.Sound n := by
  unfold localizeOwn
  split
  · exact sound_mapText keeps h
  · split
    · exact sound_mapKeys keeps h
    · exact h

mutual

/-- Relative paths leave the content sound. -/
theorem sound_localize (keeps : KeepsWhole clean) :
    ∀ (v : Value) {n : Nat}, v.content.Sound n → (v.localize clean).content.Sound n
  | plain _, _, h => h
  | free _, _, h => h
  | member _ _ _, _, h => h
  | list vs, n, h => by
    rw [content, Data.sound_arr_iff] at h
    rw [localize, content, Data.sound_arr_iff]
    exact ⟨h.1, sound_localizeItems keeps vs h.2⟩
  | pair v w, n, h => by
    rw [content, Data.sound_arr_iff, List.forall_mem_cons, List.forall_mem_singleton] at h
    rw [localize, content, Data.sound_arr_iff, List.forall_mem_cons, List.forall_mem_singleton]
    exact ⟨h.1, sound_localize keeps v h.2.1, sound_localize keeps w h.2.2⟩
  | table es, n, h => by
    rw [content, Data.sound_obj_iff] at h
    rw [localize, content, Data.sound_obj_iff]
    obtain ⟨keys, parts⟩ := sound_localizeEntries keeps es h.2.2.2
    rw [keys]
    exact ⟨h.1, h.2.1, h.2.2.1, parts⟩
  | record m vs extras, n, h => by
    rw [content, Data.sound_obj_iff, List.forall_mem_append] at h
    rw [localize, content, Data.sound_obj_iff, List.forall_mem_append]
    obtain ⟨keys, parts⟩ := sound_localizeFields keeps m vs h.2.2.2.1
    rw [List.map_append, keys, ← List.map_append]
    exact ⟨h.1, h.2.1, h.2.2.1, parts, h.2.2.2.2⟩

theorem sound_localizeItems (keeps : KeepsWhole clean) :
    ∀ (vs : List Value) {n : Nat}, (∀ x ∈ contentOfItems vs, x.Sound n) →
      ∀ x ∈ contentOfItems (localizeItems clean vs), x.Sound n
  | [], _, h => h
  | v :: vs, _, h => by
    obtain ⟨head, rest⟩ := List.forall_mem_cons.1 h
    exact List.forall_mem_cons.2 ⟨sound_localize keeps v head, sound_localizeItems keeps vs rest⟩

theorem sound_localizeEntries (keeps : KeepsWhole clean) :
    ∀ (es : List (String × Value)) {n : Nat}, (∀ e ∈ contentOfEntries es, e.2.Sound n) →
    (contentOfEntries (localizeEntries clean es)).map Prod.fst = (contentOfEntries es).map Prod.fst ∧
      ∀ e ∈ contentOfEntries (localizeEntries clean es), e.2.Sound n
  | [], _, h => ⟨rfl, h⟩
  | (k, v) :: es, _, h => by
    obtain ⟨head, rest⟩ := List.forall_mem_cons.1 h
    obtain ⟨keys, parts⟩ := sound_localizeEntries keeps es rest
    exact ⟨congrArg (k :: ·) keys, List.forall_mem_cons.2 ⟨sound_localize keeps v head, parts⟩⟩

theorem sound_localizeFields (keeps : KeepsWhole clean) (m : Model) : ∀ (vs : List (Label × Value)) {n : Nat},
    (∀ e ∈ contentOfFields vs, e.2.Sound n) →
    (contentOfFields (localizeFields clean m vs)).map Prod.fst = (contentOfFields vs).map Prod.fst ∧
      ∀ e ∈ contentOfFields (localizeFields clean m vs), e.2.Sound n
  | [], _, h => ⟨rfl, h⟩
  | (l, v) :: vs, _, h => by
    rw [localizeFields, contentOfFields, contentOfFields, ← localizeOwn, isNull_localizeOwn, isNull_localize]
    rw [contentOfFields] at h
    cases null : v.isNull with
    | true =>
      rw [null] at h
      exact sound_localizeFields keeps m vs h
    | false =>
      rw [null] at h
      obtain ⟨head, rest⟩ := List.forall_mem_cons.1 h
      obtain ⟨keys, parts⟩ := sound_localizeFields keeps m vs rest
      exact ⟨congrArg (l.key :: ·) keys,
        List.forall_mem_cons.2 ⟨sound_localizeOwn keeps (sound_localize keeps v head), parts⟩⟩

end

end Localize

end Value

/-! ### Relative paths and shapes -/

/-- A field that holds a URI takes texts. -/
theorem Model.shape_of_holdsUri {m : Model} {f : Field} (hf : f ∈ m.fields) (uri : m.holdsUri f.label.name = true) :
    f.shape = .text ∨ f.shape = .optional .text := by
  have all : (m.fields.all fun f => !m.holdsUri f.label.name ||
      match f.shape with
      | .text => true
      | .optional .text => true
      | _ => false) = true := by
    cases m <;> decide +kernel
  have own := List.all_eq_true.1 all f hf
  rw [uri, Bool.not_true, Bool.false_or] at own
  split at own
  · next text => exact .inl text
  · next text => exact .inr text
  · cases own

section Localize

variable {clean : String → String}

theorem Fits.mapText {s : Shape} {v : Value} (text : s = .text ∨ s = .optional .text) (h : Fits s v) :
    Fits s (v.mapText clean) := by
  rcases text with rfl | rfl
  · cases h with
    | text s => exact .text (clean s)
  · cases h with
    | null => exact .null .text
    | given some inner =>
      cases inner with
      | text s => exact .given rfl (.text (clean s))

theorem Fits.mapKeys {s : Shape} {v : Value} (h : Fits s v) : Fits s (v.mapKeys clean) := by
  induction h with
  | text s => exact .text s
  | whole n => exact .whole n
  | real x => exact .real x
  | flag b => exact .flag b
  | any d => exact .any d
  | word w => exact .word w
  | member hm => exact .member hm
  | model labels parts closed _ => exact .model labels parts closed
  | list parts _ => exact .list parts
  | pair first second _ _ => exact .pair first second
  | @table entry es parts _ =>
    refine .table fun e he => ?_
    obtain ⟨e', he', rfl⟩ := List.mem_map.1 ((Data.collect_spec (es.map fun e => (clean e.1, e.2))).2 e he)
    exact parts e' he'
  | null inner => exact .null inner
  | given some _ ih =>
    refine .given ?_ ih
    rw [← some]
    unfold Value.mapKeys
    split <;> rfl
  | branch hs _ ih => exact .branch hs ih

/-- Relative paths leave a value one of its shape. -/
theorem Fits.localize {s : Shape} {v : Value} (h : Fits s v) : Fits s (v.localize clean) := by
  induction h with
  | text s => exact .text s
  | whole n => exact .whole n
  | real x => exact .real x
  | flag b => exact .flag b
  | any d => exact .any d
  | word w => exact .word w
  | member hm => exact .member hm
  | @model m vs extras labels _ closed ih =>
    rw [Value.localize, Value.localizeFields_eq_map]
    refine .model (by rw [List.map_map, ← labels]; rfl) (fun p hp => ?_) closed
    rw [List.zip_map_right, List.mem_map] at hp
    obtain ⟨q, hq, rfl⟩ := hp
    have field := (List.of_mem_zip hq).1
    have label : q.1.label = q.2.1 := eq_of_mem_zip labels.symm hq
    dsimp only [Prod.map]
    unfold Value.localizeOwn
    split
    · next uri =>
      rw [← label] at uri
      exact (ih q hq).mapText (Model.shape_of_holdsUri field uri)
    · split
      · exact (ih q hq).mapKeys
      · exact ih q hq
  | list _ ih =>
    rw [Value.localize, Value.localizeItems_eq_map]
    exact .list (List.forall_mem_map.2 ih)
  | pair _ _ ih₁ ih₂ => exact .pair ih₁ ih₂
  | table _ ih =>
    rw [Value.localize, Value.localizeEntries_eq_map]
    exact .table (List.forall_mem_map.2 ih)
  | null inner => exact .null inner
  | given some _ ih => exact .given ((Value.isNull_localize clean _).trans some) ih
  | branch hs _ ih => exact .branch hs ih

end Localize

end ServerTrial
