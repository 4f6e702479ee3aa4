import ServerTrial.Proofs.Assembly
import ServerTrial.Proofs.Readable
import ServerTrial.Request.Parameters

/-!
# Inputs of the declared types

* `Request.inputType`: the type that an input is declared with; `Request.Declared`: inputs of these types;
* `Fits.isJson`: the message form of a value of a shape can be written as JSON;
* `Request.BadInputs`: which inputs of the declared types cannot be sent; `Request.inputs_sent`: all others are, as
  injections that can be compiled.
-/

namespace ServerTrial

/-! ### Message forms are JSON -/

namespace Data

theorem isJsonItems_iff {xs : List Data} : isJsonItems xs = true ↔ ∀ x ∈ xs, x.isJson = true := by
  induction xs with
  | nil => simp [isJsonItems]
  | cons x xs ih => simp [isJsonItems, ih]

theorem isJsonEntries_iff {es : List (String × Data)} : isJsonEntries es = true ↔ ∀ e ∈ es, e.2.isJson = true := by
  induction es with
  | nil => simp [isJsonEntries]
  | cons e es ih => simp [isJsonEntries, ih]

theorem isJson_arr {xs : List Data} : (arr xs).isJson = true ↔ ∀ x ∈ xs, x.isJson = true := by
  rw [isJson, isJsonItems_iff]

theorem isJson_obj {es : List (String × Data)} : (obj es).isJson = true ↔ ∀ e ∈ es, e.2.isJson = true := by
  rw [isJson, isJsonEntries_iff]

theorem isJson_collect {es : List (String × Data)} (h : ∀ e ∈ es, e.2.isJson = true) :
    (obj (collect es)).isJson = true :=
  isJson_obj.2 fun e he => h e ((collect_spec es).2 e he)

mutual

/-- Free data in a message have no dates or times left. -/
theorem isJson_messageForm : ∀ d : Data, d.messageForm.isJson = true
  | null | bool _ | int _ | str _ => rfl
  | float x => by
    rw [messageForm]
    split <;> rfl
  | moment m => by rcases m with _ | _ | _ | ⟨_, _, (_ | _) | _⟩ <;> rfl
  | arr xs => by
    rw [messageForm, isJson_arr]
    exact isJson_messageFormItems xs
  | obj es => isJson_collect (isJson_messageFormEntries es)

theorem isJson_messageFormItems : ∀ xs : List Data, ∀ x ∈ messageFormItems xs, x.isJson = true
  | [] => nofun
  | x :: xs => List.forall_mem_cons.2 ⟨isJson_messageForm x, isJson_messageFormItems xs⟩

theorem isJson_messageFormEntries : ∀ es : List (String × Data), ∀ e ∈ messageFormEntries es, e.2.isJson = true
  | [] => nofun
  | (_, x) :: es => List.forall_mem_cons.2 ⟨isJson_messageForm x, isJson_messageFormEntries es⟩

end

end Data

theorem Enumeration.isJson_of_mem {e : Enumeration} {name : String} {data : Data} (h : (name, data) ∈ e.members) :
    data.isJson = true := by
  have all : ∀ p ∈ e.members, p.2.isJson = true := by cases e <;> decide
  exact all _ h

namespace Value

theorem isJson_items {inRecord : Bool} {vs : List Value} (h : ∀ v ∈ vs, (v.toDataIn inRecord).isJson = true) :
    ∀ d ∈ toDataItems inRecord vs, d.isJson = true := by
  induction vs with
  | nil => exact nofun
  | cons v vs ih =>
    obtain ⟨first, rest⟩ := List.forall_mem_cons.1 h
    exact List.forall_mem_cons.2 ⟨first, ih rest⟩

theorem isJson_entries {inRecord : Bool} {es : List (String × Value)}
    (h : ∀ e ∈ es, (e.2.toDataIn inRecord).isJson = true) : ∀ e ∈ toDataEntries inRecord es, e.2.isJson = true := by
  induction es with
  | nil => exact nofun
  | cons e es ih =>
    obtain ⟨first, rest⟩ := List.forall_mem_cons.1 h
    exact List.forall_mem_cons.2 ⟨first, ih rest⟩

theorem isJson_fields {fs : List (Label × Value)} (h : ∀ f ∈ fs, (f.2.toDataIn true).isJson = true) :
    ∀ e ∈ toDataFields fs, e.2.isJson = true := by
  induction fs with
  | nil => exact nofun
  | cons f fs ih =>
    obtain ⟨first, rest⟩ := List.forall_mem_cons.1 h
    rw [toDataFields]
    split
    · exact ih rest
    · exact List.forall_mem_cons.2 ⟨first, ih rest⟩

theorem isJson_extras (es : List (String × Data)) : ∀ e ∈ extrasForm es, e.2.isJson = true := by
  induction es with
  | nil => exact nofun
  | cons e es ih =>
    obtain ⟨k, d⟩ := e
    cases d with
    | null => exact ih
    | _ => exact List.forall_mem_cons.2 ⟨Data.isJson_messageForm _, ih⟩

end Value

/-- **The message form of a value of a shape can be written as JSON.** -/
theorem Fits.isJson {s : Shape} {v : Value} (h : Fits s v) : (v.toDataIn true).isJson = true := by
  induction h with
  | text _ | whole _ | real _ | flag _ | word _ | null _ => rfl
  | any d => exact Data.isJson_messageForm d
  | member mem => exact Enumeration.isJson_of_mem mem
  | @model m vs extras labels _ _ ih =>
    have fields : ∀ f ∈ vs, (f.2.toDataIn true).isJson = true := by
      intro f hf
      obtain ⟨field, hp⟩ := exists_mem_zip (length_eq_of_map_eq labels).symm hf
      exact ih _ hp
    rw [Value.toDataIn, Data.isJson_obj]
    exact List.forall_mem_append.2 ⟨Value.isJson_fields fields, Value.isJson_extras extras⟩
  | list _ ih =>
    rw [Value.toDataIn, Data.isJson_arr]
    exact Value.isJson_items ih
  | pair _ _ first second =>
    rw [Value.toDataIn, Data.isJson_arr]
    simp [first, second]
  | table _ ih =>
    rw [Value.toDataIn]
    refine Data.isJson_collect fun e he => ?_
    obtain ⟨entry, mem, rfl⟩ := List.mem_map.1 he
    exact Value.isJson_entries ih entry mem
  | given _ _ ih => exact ih
  | branch _ _ ih => exact ih

/-! ### Records, positions and ranges -/

theorem Fits.eq_record {m : Model} {v : Value} (h : Fits (.model m) v) :
    ∃ fields extras, v = .record m fields extras := by
  cases h
  exact ⟨_, _, rfl⟩

theorem Fits.eq_list {item : Shape} {v : Value} (h : Fits (.list item) v) :
    ∃ vs, v = .list vs ∧ ∀ w ∈ vs, Fits item w := by
  cases h with
  | list fits => exact ⟨_, rfl, fits⟩

theorem Fits.eq_position {v : Value} (h : Fits (.model .position) v) : ∃ p : Position, v = p.toValue := by
  cases h with
  | @model _ vs extras labels fits none =>
    rcases vs with _ | ⟨⟨l, a⟩, _ | ⟨⟨l', b⟩, _ | _⟩⟩ <;> simp [Model.fields, Model.need] at labels
    obtain ⟨rfl, rfl⟩ := labels
    obtain rfl := none rfl
    obtain ⟨line, character⟩ : Fits .whole a ∧ Fits .whole b := by simpa [Model.fields, Model.need] using fits
    cases line
    cases character
    exact ⟨⟨_, _⟩, rfl⟩

theorem Fits.eq_range {v : Value} (h : Fits (.model .range) v) : ∃ r : Range, v = r.toValue := by
  cases h with
  | @model _ vs extras labels fits none =>
    rcases vs with _ | ⟨⟨l, a⟩, _ | ⟨⟨l', b⟩, _ | _⟩⟩ <;> simp [Model.fields, Model.need] at labels
    obtain ⟨rfl, rfl⟩ := labels
    obtain rfl := none rfl
    obtain ⟨start, stop⟩ : Fits (.model .position) a ∧ Fits (.model .position) b := by
      simpa [Model.fields, Model.need] using fits
    obtain ⟨p, rfl⟩ := start.eq_position
    obtain ⟨q, rfl⟩ := stop.eq_position
    exact ⟨⟨p, q⟩, rfl⟩

theorem Position.fits (p : Position) : Fits (.model .position) p.toValue := by
  refine .model rfl (fun f hf => ?_) fun _ => rfl
  rcases List.mem_cons.1 hf with rfl | hf
  · exact .whole p.line
  · rw [List.mem_singleton.1 hf]
    exact .whole p.character

/-! ### Injections that can be compiled -/

namespace Injection

/-- The injection is compiled into whatever table. -/
def Compiles (i : Injection) : Prop := ∀ table n, ∃ c, compile table n i = .ok c

end Injection

/-! ### Inputs of the declared types -/

/-- The types that inputs are declared with, beside null for those that may be left out. -/
inductive InputType where
  | text | flag | items | texts
  | shaped (s : Shape)

/-- The values of a type. -/
def InputType.Admits : InputType → Value → Prop
  | text, v => ∃ t, v = .text t
  | flag, v => ∃ b, v = .plain (.bool b)
  | items, v => ∃ ds, v = .plain (.arr ds)
  | texts, v => ∃ ts : List String, v = .plain (.arr (ts.map .str))
  | shaped s, v => Fits s v

namespace InputType

/-- Do values of the type hold no free data? -/
def isFlat : InputType → Bool
  | shaped (.model .position) | shaped (.model .range) => true
  | shaped _ => false
  | _ => true

theorem isShallow_of_isFlat {t : InputType} {v : Value} (flat : t.isFlat = true) (h : t.Admits v) :
    v.isShallow = true := by
  unfold isFlat at flat
  split at flat
  · obtain ⟨p, rfl⟩ := Fits.eq_position h
    rfl
  · obtain ⟨r, rfl⟩ := Fits.eq_range h
    rfl
  · cases flat
  · next other =>
    cases t with
    | shaped s => exact (other s rfl).elim
    | _ =>
      obtain ⟨_, rfl⟩ := h
      rfl

end InputType

namespace Request

/-- The type that an input is declared with. -/
def inputType (r : Request) (name : String) : InputType :=
  match r.inputShape? (if name = "range_" then "range" else name) with
  | some (_, s) => .shaped s
  | none =>
    if name = "include_declaration" then .flag
    else if name = "arguments" then .items
    else if name = "commands" then .texts
    else .text

/-- All inputs that are given belong to the request and have the declared types, and the required ones are given. -/
structure Declared (r : Request) (given : Inputs) : Prop where
  bound : r.bind (given.map Prod.fst) = .ok ()
  typed : ∀ slot ∈ r.slots, (r.inputType slot.name).Admits (input given slot.name) ∨
    slot.required = false ∧ input given slot.name = .null

/-- Which inputs of the declared types cannot be sent: records with data that nest too deep for a message; arguments of
a command with dates or times; names of commands without bytes. -/
inductive BadInputs (r : Request) (given : Inputs) : Fault → Prop
  | deep {slot : InputSlot} (mem : slot ∈ r.slots) (deep : (input given slot.name).isShallow = false) :
      BadInputs r given (.value "Maximum serialization depth exceeded")
  | arguments (runs : r = .executeCommand) (other : (input given "arguments").toData.isJson = false) :
      BadInputs r given .kind
  | commands (runs : r = .executeCommand) (json : (input given "arguments").toData.isJson = true) {ts : List String}
      (commands : input given "commands" = .plain (.arr (ts.map .str))) {t : String} (mem : t ∈ ts)
      (bytes : Text.isWhole t = false) : BadInputs r given .unencodable

/-! ### What is sent -/

/-- The inputs are sent as injections that can be compiled, or the fault is known. -/
structure Sends (x : Except Fault (List Injection)) (bad : Fault → Prop) : Prop where
  fails : ∀ y, x = .error y ↔ bad y
  compiles : ∀ is, x = .ok is → ∀ i ∈ is, i.Compiles

section Sends

variable {x : Except Fault (List Injection)} {P : Fault → Prop}

theorem Sends.congr {Q : Fault → Prop} (h : Sends x P) (same : ∀ y, P y ↔ Q y) : Sends x Q :=
  ⟨fun y => (h.fails y).trans (same y), h.compiles⟩

theorem Sends.map (h : Sends x P) {f : List Injection → List Injection}
    (keeps : ∀ is, (∀ i ∈ is, i.Compiles) → ∀ i ∈ f is, i.Compiles) : Sends (do return f (← x)) P := by
  cases x with
  | error y => exact ⟨h.fails, fun _ e => nomatch e⟩
  | ok is =>
    refine ⟨fun y => ?_, fun js same => Except.ok.inj same ▸ keeps is (h.compiles is rfl)⟩
    rw [← h.fails y]
    exact ⟨fun e => (nomatch e), fun e => (nomatch e)⟩

end Sends

section Slots

variable {r : Request} {c : Case} {w : World} {e : Expectation} {given : Inputs}

theorem Declared.required (declared : Declared r given) (name : String) (mem : (⟨name, true⟩ : InputSlot) ∈ r.slots) :
    (r.inputType name).Admits (input given name) := (declared.typed _ mem).resolve_right fun ⟨no, _⟩ => nomatch no

theorem Declared.optional (declared : Declared r given) (name : String) (mem : (⟨name, false⟩ : InputSlot) ∈ r.slots) :
    (r.inputType name).Admits (input given name) ∨ input given name = .null :=
  (declared.typed _ mem).imp_right And.right

theorem Declared.isShallow (declared : Declared r given) {slot : InputSlot} (mem : slot ∈ r.slots)
    (flat : (r.inputType slot.name).isFlat = true) : (input given slot.name).isShallow = true := by
  rcases declared.typed slot mem with admits | ⟨-, null⟩
  · exact InputType.isShallow_of_isFlat flat admits
  · rw [null]
    rfl

theorem hasSlot_of_bind {names : List String} (bound : r.bind names = .ok ()) :
    ∀ name ∈ names, r.hasSlot name = true := by
  unfold bind at bound
  split at bound
  · cases bound
  · split at bound
    · cases bound
    · split at bound
      · cases bound
      · split at bound
        · cases bound
        · next none =>
          intro name mem
          simpa using List.find?_eq_none.1 none name mem

theorem Declared.hasSlot (declared : Declared r given) {name : String} (mem : name ∈ given.map Prod.fst) :
    r.hasSlot name = true := hasSlot_of_bind declared.bound name mem

theorem hasSlot_reserved (r : Request) : ∀ name ∈ reservedNames, r.hasSlot name = false := by
  cases r <;> decide

/-- No input has the name of an argument of its own. -/
theorem free_of_bind {names : List String} (bound : r.bind names = .ok ()) :
    names.any reservedNames.contains = false := by
  rw [List.any_eq_false]
  intro name mem reserved
  have slot := hasSlot_of_bind bound name mem
  rw [hasSlot_reserved r name (by simpa using reserved)] at slot
  cases slot

/-- A request without slots takes no inputs. -/
theorem nil_of_bind {names : List String} (bare : r.slots = []) (bound : r.bind names = .ok ()) : names = [] := by
  refine List.eq_nil_iff_forall_not_mem.2 fun name mem => ?_
  have slot := hasSlot_of_bind bound name mem
  rw [hasSlot, bare] at slot
  cases slot

end Slots

end Request

end ServerTrial
