import ServerTrial.Proofs.Decoded

/-!
# Distinct keys

An object is a list of entries in the order of their keys; that it has each key once is not part of its type.

* `Data.Keyed`: every object in the data has each key once; so it is with what is read from JSON (`Data.Readable.keyed`)
  and with what is put into messages (`Data.keyed_messageForm`);
* `Value.Keyed`: so it is with the objects, tables and records in a value; the message form of such a value is keyed
  (`Value.keyed_toDataIn`), and a value that fits its shape is one (`Fits.keyed`).
-/

namespace ServerTrial

namespace Data

/-! ### Data -/

/-- An array or an object. -/
def isComposite : Data → Bool
  | arr _ | obj _ => true
  | _ => false

/-- Induction over the parts of data. -/
@[elab_as_elim]
theorem byParts {P : Data → Prop} (arr : ∀ xs, (∀ x ∈ xs, P x) → P (.arr xs))
    (obj : ∀ es, (∀ e ∈ es, P e.2) → P (.obj es)) (flat : ∀ d, d.isComposite = false → P d) (d : Data) : P d :=
  @Data.rec P (fun xs => ∀ x ∈ xs, P x) (fun es => ∀ e ∈ es, P e.2) (fun e => P e.2)
    (flat _ rfl) (fun _ => flat _ rfl) (fun _ => flat _ rfl) (fun _ => flat _ rfl) (fun _ => flat _ rfl)
    (fun _ => flat _ rfl) arr obj
    (List.forall_mem_nil _) (fun _ _ hx hxs => List.forall_mem_cons.2 ⟨hx, hxs⟩)
    (List.forall_mem_nil _) (fun _ _ he hes => List.forall_mem_cons.2 ⟨he, hes⟩)
    (fun _ _ h => h) d

/-- An object has each key once. -/
def HasKeysOnce : Data → Prop
  | obj es => (es.map Prod.fst).Nodup
  | _ => True

/-- Every object has each key once. -/
def Keyed (d : Data) : Prop := d.All HasKeysOnce

theorem keyed_arr_iff {xs : List Data} : (arr xs).Keyed ↔ ∀ x ∈ xs, x.Keyed :=
  all_arr_iff.trans (and_iff_right trivial)

theorem keyed_obj_iff {es : List (String × Data)} :
    (obj es).Keyed ↔ (es.map Prod.fst).Nodup ∧ ∀ e ∈ es, e.2.Keyed := all_obj_iff

theorem keyed_of_flat {d : Data} (flat : d.isComposite = false) : d.Keyed := by
  cases d with
  | arr => cases flat
  | obj => cases flat
  | _ => trivial

/-- JSON texts yield no object with a key twice. -/
theorem Readable.keyed {d : Data} (h : d.Readable) : d.Keyed := by
  induction d using byParts with
  | arr xs ih => exact keyed_arr_iff.2 fun x hx => ih x hx ((all_arr_iff.1 h).2 x hx)
  | obj es ih => exact keyed_obj_iff.2 ⟨(all_obj_iff.1 h).1, fun e he => ih e he ((all_obj_iff.1 h).2 e he)⟩
  | flat d flat => exact keyed_of_flat flat

theorem messageFormItems_eq_map (xs : List Data) : messageFormItems xs = xs.map messageForm := by
  induction xs with
  | nil => rfl
  | cons x xs ih => exact congrArg (messageForm x :: ·) ih

theorem messageFormEntries_eq_map (es : List (String × Data)) :
    messageFormEntries es = es.map fun e => (Text.replaced e.1, e.2.messageForm) := by
  induction es with
  | nil => rfl
  | cons e es ih => exact congrArg ((Text.replaced e.1, e.2.messageForm) :: ·) ih

theorem keyed_collect {es : List (String × Data)} (h : ∀ e ∈ es, e.2.Keyed) : (obj (collect es)).Keyed := by
  obtain ⟨distinct, old⟩ := collect_spec es
  exact keyed_obj_iff.2 ⟨distinct, fun e he => h e (old e he)⟩

/-- Keys that become the same are joined. -/
theorem keyed_messageForm (d : Data) : d.messageForm.Keyed := by
  induction d using byParts with
  | arr xs ih =>
    rw [messageForm, messageFormItems_eq_map]
    exact keyed_arr_iff.2 (List.forall_mem_map.2 ih)
  | obj es ih =>
    rw [messageForm, messageFormEntries_eq_map]
    exact keyed_collect (List.forall_mem_map.2 ih)
  | flat d flat =>
    cases d with
    | arr => cases flat
    | obj => cases flat
    | float x =>
      rw [messageForm]
      split <;> trivial
    | moment m =>
      unfold messageForm
      split <;> trivial
    | _ => trivial

end Data

/-! ### Values -/

namespace Value

mutual

/-- Every object, table and record has each key once.  Free data in records are not asked: their keys are joined when
they are put into a message. -/
def Keyed (inRecord : Bool) : Value → Prop
  | plain d => d.Keyed
  | free d => inRecord = true ∨ d.Keyed
  | member _ _ d => d.Keyed
  | list items => AreKeyed inRecord items
  | pair a b => Keyed inRecord a ∧ Keyed inRecord b
  | table entries => (inRecord = true ∨ (entries.map Prod.fst).Nodup) ∧ AreKeyedEntries inRecord entries
  | record _ fields extras =>
    ((fields.map fun p => p.1.key) ++ extras.map Prod.fst).Nodup ∧ AreKeyedFields fields

def AreKeyed (inRecord : Bool) : List Value → Prop
  | [] => True
  | v :: vs => Keyed inRecord v ∧ AreKeyed inRecord vs

def AreKeyedEntries (inRecord : Bool) : List (String × Value) → Prop
  | [] => True
  | (_, v) :: vs => Keyed inRecord v ∧ AreKeyedEntries inRecord vs

def AreKeyedFields : List (Label × Value) → Prop
  | [] => True
  | (_, v) :: vs => Keyed true v ∧ AreKeyedFields vs

end

section Keyed

variable {b : Bool}

theorem areKeyed_iff {vs : List Value} : AreKeyed b vs ↔ ∀ v ∈ vs, v.Keyed b := by
  induction vs with
  | nil => simp [AreKeyed]
  | cons v vs ih => rw [AreKeyed, ih, List.forall_mem_cons]

theorem areKeyedEntries_iff {es : List (String × Value)} : AreKeyedEntries b es ↔ ∀ e ∈ es, e.2.Keyed b := by
  induction es with
  | nil => simp [AreKeyedEntries]
  | cons e es ih => rw [AreKeyedEntries, ih, List.forall_mem_cons]

theorem areKeyedFields_iff {vs : List (Label × Value)} : AreKeyedFields vs ↔ ∀ p ∈ vs, p.2.Keyed true := by
  induction vs with
  | nil => simp [AreKeyedFields]
  | cons p vs ih => rw [AreKeyedFields, ih, List.forall_mem_cons]

theorem keys_toDataFields (vs : List (Label × Value)) :
    ((toDataFields vs).map Prod.fst).Sublist (vs.map fun p => p.1.key) := by
  induction vs with
  | nil => exact .slnil
  | cons p vs ih =>
    obtain ⟨l, v⟩ := p
    rw [toDataFields]
    split
    · exact ih.cons _
    · exact ih.cons_cons _

theorem keys_toDataEntries (b : Bool) (es : List (String × Value)) :
    (toDataEntries b es).map Prod.fst = es.map Prod.fst := by
  induction es with
  | nil => rfl
  | cons e es ih => exact congrArg (e.1 :: ·) ih

theorem extrasForm_cons (k : String) (d : Data) (extras : List (String × Data)) :
    extrasForm ((k, d) :: extras) =
      if (free d).isNull then extrasForm extras else (k, d.messageForm) :: extrasForm extras := by
  cases d <;> rfl

theorem keys_extrasForm (extras : List (String × Data)) :
    ((extrasForm extras).map Prod.fst).Sublist (extras.map Prod.fst) := by
  induction extras with
  | nil => exact .slnil
  | cons e extras ih =>
    rw [extrasForm_cons]
    split
    · exact ih.cons _
    · exact ih.cons_cons _

theorem keyed_extrasForm (extras : List (String × Data)) : ∀ e ∈ extrasForm extras, e.2.Keyed := by
  induction extras with
  | nil => exact List.forall_mem_nil _
  | cons e extras ih =>
    rw [extrasForm_cons]
    split
    · exact ih
    · exact List.forall_mem_cons.2 ⟨Data.keyed_messageForm _, ih⟩

mutual

/-- **The message form of a value with distinct keys has distinct keys.** -/
theorem keyed_toDataIn (b : Bool) : ∀ (v : Value), v.Keyed b → (v.toDataIn b).Keyed
  | plain _, h => h
  | free d, h => by
    rw [toDataIn]
    split
    · exact d.keyed_messageForm
    · next outside => exact h.resolve_left outside
  | member _ _ _, h => h
  | list vs, h => Data.keyed_arr_iff.2 (keyed_toDataItems b vs h)
  | pair v w, h => by
    refine Data.keyed_arr_iff.2 (List.forall_mem_cons.2 ⟨keyed_toDataIn b v h.1, ?_⟩)
    exact List.forall_mem_singleton.2 (keyed_toDataIn b w h.2)
  | table es, h => by
    obtain ⟨distinct, parts⟩ := h
    have entries := keyed_toDataEntries b es parts
    rw [toDataIn]
    split
    · exact Data.keyed_collect (List.forall_mem_map.2 entries)
    · next outside =>
      refine Data.keyed_obj_iff.2 ⟨?_, entries⟩
      rw [keys_toDataEntries b es]
      exact distinct.resolve_left outside
  | record _ vs extras, h => by
    obtain ⟨distinct, parts⟩ := h
    rw [toDataIn]
    refine Data.keyed_obj_iff.2 ⟨?_, List.forall_mem_append.2 ⟨keyed_toDataFields vs parts, keyed_extrasForm extras⟩⟩
    rw [List.map_append]
    exact ((keys_toDataFields vs).append (keys_extrasForm extras)).nodup distinct

theorem keyed_toDataItems (b : Bool) : ∀ (vs : List Value), AreKeyed b vs → ∀ x ∈ toDataItems b vs, x.Keyed
  | [], _ => List.forall_mem_nil _
  | v :: vs, h => List.forall_mem_cons.2 ⟨keyed_toDataIn b v h.1, keyed_toDataItems b vs h.2⟩

theorem keyed_toDataEntries (b : Bool) : ∀ (es : List (String × Value)), AreKeyedEntries b es →
    ∀ e ∈ toDataEntries b es, e.2.Keyed
  | [], _ => List.forall_mem_nil _
  | (_, v) :: es, h => List.forall_mem_cons.2 ⟨keyed_toDataIn b v h.1, keyed_toDataEntries b es h.2⟩

theorem keyed_toDataFields : ∀ (vs : List (Label × Value)), AreKeyedFields vs → ∀ e ∈ toDataFields vs, e.2.Keyed
  | [], _ => List.forall_mem_nil _
  | (l, v) :: vs, h => by
    have rest := keyed_toDataFields vs h.2
    rw [toDataFields]
    split
    · exact rest
    · exact List.forall_mem_cons.2 ⟨keyed_toDataIn true v h.1, rest⟩

end

end Keyed

end Value

/-- **A value that fits a shape of replies, as a part of a record, has distinct keys.** -/
theorem Fits.keyed {s : Shape} {v : Value} (h : Fits s v) (reply : ∀ m ∈ s.models, m.isReply = true) :
    v.Keyed true := by
  induction h with
  | text _ => trivial
  | whole _ => trivial
  | real _ => trivial
  | flag _ => trivial
  | any _ => exact .inl rfl
  | word _ => trivial
  | member hp => exact (Enumeration.content_member hp).1.keyed
  | @model m vs extras labels _ closed ih =>
    have own := reply m (List.mem_singleton.2 rfl)
    have keys : vs.map (fun p => p.1.key) = m.fields.map fun f => f.label.key := by
      have := congrArg (List.map Label.key) labels
      rwa [List.map_map, List.map_map] at this
    refine ⟨?_, Value.areKeyedFields_iff.2 fun p hp => ?_⟩
    · rw [closed (Model.isOpen_of_isReply own), List.map_nil, List.append_nil, keys]
      exact m.keys_nodup
    · obtain ⟨f, hf⟩ := exists_mem_zip (length_eq_of_map_eq labels).symm hp
      exact ih (f, p) hf (Model.fields_of_isReply own (List.of_mem_zip hf).1)
  | list _ ih => exact Value.areKeyed_iff.2 fun v hv => ih v hv reply
  | pair _ _ ih₁ ih₂ =>
    exact ⟨ih₁ fun m hm => reply m (List.mem_append_left _ hm), ih₂ fun m hm => reply m (List.mem_append_right _ hm)⟩
  | table _ ih => exact ⟨.inl rfl, Value.areKeyedEntries_iff.2 fun e he => ih e he reply⟩
  | null _ => trivial
  | given _ _ ih => exact ih reply
  | branch hs _ ih => exact ih fun m hm => reply m (Shape.models_subset hm hs)

end ServerTrial
