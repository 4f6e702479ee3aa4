import ServerTrial.Proofs.Content
import ServerTrial.Proofs.Repair

/-!
# What a decoded value holds

* `Scalar.natAbs_lt_of_whole?`: integers in another guise have no more digits than are read;
* `Checks.content_readable`: the content of a value is as readable as the data it was checked from, and nests no deeper;
* `Data.Exchanged.readable`: neither does an exchange of empty containers change that;
* `content_of_decode`: what is decoded holds what a JSON text can hold.
-/

namespace ServerTrial

/-! ### Integers -/

namespace Scalar

theorem digits?_digits {cs ds : List Char} (h : digits? cs = some ds) : ∀ c ∈ ds, Text.isDigit c = true := by
  fun_induction digits? cs generalizing ds with
  | case1 => cases h
  | case2 c digit =>
    cases h
    simpa using digit
  | case3 => cases h
  | case4 c rest digit ih =>
    obtain ⟨ds', hds, rfl⟩ := Option.map_eq_some_iff.1 h
    exact List.forall_mem_cons.2 ⟨digit, ih hds⟩
  | case5 => cases h
  | case6 c rest _ _ digit ih =>
    obtain ⟨ds', hds, rfl⟩ := Option.map_eq_some_iff.1 h
    exact List.forall_mem_cons.2 ⟨digit, ih hds⟩
  | case7 => cases h

theorem value_lt_of_wholeDigits? {cs ds : List Char} (h : wholeDigits? cs = some ds) : value ds < 10 ^ digitLimit := by
  unfold wholeDigits? at h
  split at h
  · next ds' read =>
    split at h
    · cases h
    · next short =>
      cases h
      have few : ds.length ≤ digitLimit := by
        simp only [Bool.or_eq_true, decide_eq_true_eq, not_or, Nat.not_lt] at short
        exact short.2
      exact Nat.lt_of_lt_of_le (Json.natural_lt (digits?_digits read)) (Nat.pow_le_pow_right (by decide) few)
  · cases h

theorem natAbs_lt_of_wholeOfText {s : String} {n : Int} (h : wholeOfText s = some n) :
    n.natAbs < 10 ^ digitLimit := by
  unfold wholeOfText at h
  simp only [Option.bind_eq_bind, Option.bind_eq_some_iff] at h
  obtain ⟨cs, -, h⟩ := h
  split at h
  · cases h
  · obtain ⟨ds, read, h⟩ := Option.bind_eq_some_iff.1 h
    have small := value_lt_of_wholeDigits? read
    cases h
    split
    · rwa [Int.natAbs_neg, Int.natAbs_natCast]
    · rwa [Int.natAbs_natCast]

theorem natAbs_lt_of_wholeOfReal {x : Float} {n : Int} (h : wholeOfReal x = some n) : n.natAbs < 10 ^ digitLimit := by
  unfold wholeOfReal at h
  split at h
  · split at h
    · next small =>
      cases h
      have below : (2 : Nat) ^ 63 ≤ 10 ^ 19 := by decide
      exact Nat.lt_of_lt_of_le (Nat.lt_of_lt_of_le small below) (Nat.pow_le_pow_right (by decide) (by decide))
    · cases h
  · cases h

/-- An integer in another guise has no more digits than are read. -/
theorem natAbs_lt_of_whole? {d : Data} {n : Int} {asGiven : Bool} (readable : d.Readable)
    (h : whole? d = some (n, asGiven)) : n.natAbs < 10 ^ digitLimit := by
  cases d with
  | int m =>
    cases h
    exact readable
  | bool b =>
    cases h
    exact Nat.lt_of_le_of_lt (by cases b <;> decide) (Nat.one_lt_pow (by decide) (by decide))
  | float x =>
    obtain ⟨m, hm, same⟩ := Option.map_eq_some_iff.1 h
    cases same
    exact natAbs_lt_of_wholeOfReal hm
  | str s =>
    obtain ⟨m, hm, same⟩ := Option.map_eq_some_iff.1 h
    cases same
    exact natAbs_lt_of_wholeOfText hm
  | _ => cases h

end Scalar

/-! ### Members and models -/

/-- What a member of an enumeration stands for is a short number or a text. -/
theorem Enumeration.content_member {e : Enumeration} {p : String × Data} (hp : p ∈ e.members) :
    p.2.Readable ∧ p.2.brackets = 0 := by
  have all : (e.members.all fun p =>
      match p.2 with
      | .int n => n.natAbs < 10 ^ 2
      | .str _ => true
      | _ => false) = true := by
    cases e <;> decide +kernel
  have own := List.all_eq_true.1 all p hp
  split at own
  · next n number =>
    rw [number]
    have few : n.natAbs < 10 ^ 2 := of_decide_eq_true own
    have limit : (10 : Nat) ^ 2 ≤ 10 ^ digitLimit := Nat.pow_le_pow_right (by decide) (by decide)
    exact ⟨Nat.lt_of_lt_of_le few limit, rfl⟩
  · next text =>
    rw [text]
    exact ⟨trivial, rfl⟩
  · cases own

/-- Is what the field has when it is left out, if anything, null or a text? -/
def Field.hasFlatDefault (f : Field) : Bool :=
  match f.default with
  | none => true
  | some (.plain .null) => true
  | some (.plain (.str _)) => true
  | _ => false

/-- May the model be part of a reply?  All may but those that only requests hold. -/
def Model.isReply : Model → Bool
  | formattingOptions | codeActionContext => false
  | _ => true

namespace Model

theorem isOpen_of_isReply {m : Model} (h : m.isReply = true) : m.isOpen = false := by
  cases m <;> first
    | rfl
    | cases h

/-- Parts of replies are made of such. -/
theorem fields_of_isReply {m : Model} (h : m.isReply = true) {f : Field} (hf : f ∈ m.fields) :
    ∀ n ∈ f.shape.models, n.isReply = true := by
  have all : m.isReply = false ∨ (m.fields.all fun f => f.shape.models.all Model.isReply) = true := by
    cases m <;> first
      | exact .inl rfl
      | exact .inr (by decide +kernel)
  rcases all with no | all
  · rw [no] at h
    cases h
  · exact List.all_eq_true.1 (List.all_eq_true.1 all f hf)

/-- A part of a reply that is left out is null or a word. -/
theorem content_default {m : Model} (h : m.isReply = true) {f : Field} {v : Value} (hf : f ∈ m.fields)
    (hv : f.default = some v) : v.content.Readable ∧ v.content.brackets = 0 := by
  have all : m.isReply = false ∨ m.fields.all Field.hasFlatDefault = true := by
    cases m <;> first
      | exact .inl rfl
      | exact .inr rfl
  rcases all with no | all
  · rw [no] at h
    cases h
  · have own := List.all_eq_true.1 all f hf
    unfold Field.hasFlatDefault at own
    split at own
    · next none =>
      rw [none] at hv
      cases hv
    · next null =>
      rw [null] at hv
      cases hv
      exact ⟨trivial, rfl⟩
    · next text =>
      rw [text] at hv
      cases hv
      exact ⟨trivial, rfl⟩
    · cases own

theorem keys_nodup (m : Model) : (m.fields.map fun f => f.label.key).Nodup := by
  cases m <;> decide +kernel

/-- A record has each key once. -/
theorem keys_content_nodup {m : Model} {vs : List (Label × Value)}
    (labels : vs.map Prod.fst = m.fields.map Field.label) :
    ((Value.contentOfFields vs).map Prod.fst).Nodup := by
  have keys : vs.map (fun p => p.1.key) = m.fields.map fun f => f.label.key := by
    have := congrArg (List.map Label.key) labels
    rwa [List.map_map, List.map_map] at this
  rw [Value.keys_contentOfFields]
  exact (List.filter_sublist.map _).nodup (keys ▸ m.keys_nodup)

end Model

/-! ### Checked values -/

/-- **The content of a value is as readable as the data it was checked from**, and nests no deeper. -/
theorem Checks.content_readable {d : Data} {s : Shape} {v : Value} (h : Checks d s v)
    (reply : ∀ m ∈ s.models, m.isReply = true) (readable : d.Readable) :
    v.content.Readable ∧ v.content.brackets ≤ d.brackets := by
  induction h with
  | text s => exact ⟨trivial, Nat.le_refl _⟩
  | whole hn => exact ⟨Scalar.natAbs_lt_of_whole? readable hn, Nat.zero_le _⟩
  | real _ => exact ⟨trivial, Nat.zero_le _⟩
  | flag _ => exact ⟨trivial, Nat.zero_le _⟩
  | any d => exact ⟨readable, Nat.le_refl _⟩
  | word w => exact ⟨trivial, Nat.le_refl _⟩
  | member hm =>
    obtain ⟨plain, flat⟩ := Enumeration.content_member (member_of_member? hm)
    exact ⟨plain, Nat.le_trans (Nat.le_of_eq flat) (Nat.zero_le _)⟩
  | @model m xs vs labels _ defaults ih =>
    obtain ⟨-, parts⟩ := Data.all_obj_iff.1 readable
    have own := reply m (List.mem_singleton.2 rfl)
    have each : ∀ p ∈ vs, p.2.content.Readable ∧ p.2.content.brackets ≤ Data.bracketsOfEntries xs := by
      intro p hp
      obtain ⟨f, hf⟩ := exists_mem_zip (length_eq_of_map_eq labels).symm hp
      have field := (List.of_mem_zip hf).1
      cases given : Check.given? f.label xs with
      | none =>
        obtain ⟨plain, flat⟩ := Model.content_default own field (defaults (f, p) hf given)
        exact ⟨plain, Nat.le_trans (Nat.le_of_eq flat) (Nat.zero_le _)⟩
      | some e =>
        have there := Check.mem_of_given? given
        obtain ⟨plain, shallow⟩ := ih (f, p) hf e.1 e.2 given (Model.fields_of_isReply own field) (parts e there)
        exact ⟨plain, Nat.le_trans shallow (Data.bracketsOfEntries_le.1 (Nat.le_refl _) e there)⟩
    have closed : Check.extras m (.obj xs) = [] := by
      rw [Check.extras, Model.isOpen_of_isReply own]
      rfl
    rw [Value.content, closed, List.filter_nil, List.append_nil]
    constructor
    · refine Data.all_obj_iff.2 ⟨Model.keys_content_nodup labels, fun e he => ?_⟩
      obtain ⟨p, hp, -, rfl⟩ := Value.mem_contentOfFields.1 he
      exact (each p hp).1
    · refine Nat.succ_le_succ (Data.bracketsOfEntries_le.2 fun e he => ?_)
      obtain ⟨p, hp, -, rfl⟩ := Value.mem_contentOfFields.1 he
      exact (each p hp).2
  | @list xs item vs length _ ih =>
    obtain ⟨-, parts⟩ := Data.all_arr_iff.1 readable
    have each : ∀ v ∈ vs, v.content.Readable ∧ v.content.brackets ≤ Data.bracketsOfItems xs := by
      intro v hv
      obtain ⟨x, hx⟩ := exists_mem_zip length hv
      have there := (List.of_mem_zip hx).1
      obtain ⟨plain, shallow⟩ := ih (x, v) hx reply (parts x there)
      exact ⟨plain, Nat.le_trans shallow (Data.bracketsOfItems_le.1 (Nat.le_refl _) x there)⟩
    rw [Value.content, Value.contentOfItems_eq_map]
    constructor
    · refine Data.all_arr_iff.2 ⟨trivial, List.forall_mem_map.2 fun v hv => (each v hv).1⟩
    · exact Nat.succ_le_succ (Data.bracketsOfItems_le.2 (List.forall_mem_map.2 fun v hv => (each v hv).2))
  | @pair x y a b v w _ _ ih₁ ih₂ =>
    obtain ⟨-, parts⟩ := Data.all_arr_iff.1 readable
    obtain ⟨first, shallow₁⟩ := ih₁ (fun m hm => reply m (List.mem_append_left _ hm)) (parts x (by simp))
    obtain ⟨second, shallow₂⟩ := ih₂ (fun m hm => reply m (List.mem_append_right _ hm)) (parts y (by simp))
    constructor
    · exact Data.all_arr_iff.2 ⟨trivial, by simpa using ⟨first, second⟩⟩
    · simp only [Value.content, Data.brackets, Data.bracketsOfItems]
      omega
  | @table es entry vs keys _ ih =>
    obtain ⟨distinct, parts⟩ := Data.all_obj_iff.1 readable
    have each : ∀ e ∈ vs, e.2.content.Readable ∧ e.2.content.brackets ≤ Data.bracketsOfEntries es := by
      intro e he
      obtain ⟨x, hx⟩ := exists_mem_zip (length_eq_of_map_eq keys) he
      have there := (List.of_mem_zip hx).1
      obtain ⟨plain, shallow⟩ := ih (x, e) hx reply (parts x there)
      exact ⟨plain, Nat.le_trans shallow (Data.bracketsOfEntries_le.1 (Nat.le_refl _) x there)⟩
    rw [Value.content]
    constructor
    · refine Data.all_obj_iff.2 ⟨?_, ?_⟩
      · rw [Data.IsReadable, Value.keys_contentOfEntries, ← keys]
        exact distinct
      · rw [Value.contentOfEntries_eq_map]
        exact List.forall_mem_map.2 fun e he => (each e he).1
    · rw [Value.contentOfEntries_eq_map]
      exact Nat.succ_le_succ (Data.bracketsOfEntries_le.2 (List.forall_mem_map.2 fun e he => (each e he).2))
  | null inner => exact ⟨trivial, Nat.le_refl _⟩
  | given _ _ ih => exact ih reply readable
  | branch hs _ ih => exact ih (fun m hm => reply m (Shape.models_subset hm hs)) readable

/-! ### Repaired data -/

namespace Data

mutual

/-- An exchange of empty containers leaves data readable, and as deep as they are. -/
theorem Exchanged.readable : ∀ {d d' : Data}, Exchanged d d' → d.Readable → d'.Readable ∧ d'.brackets = d.brackets
  | arr xs, arr ys, h, readable => by
    obtain ⟨parts, same⟩ := ExchangedItems.readable h (all_arr_iff.1 readable).2
    exact ⟨all_arr_iff.2 ⟨trivial, parts⟩, congrArg (· + 1) same⟩
  | obj xs, obj ys, h, readable => by
    obtain ⟨distinct, parts⟩ := all_obj_iff.1 readable
    obtain ⟨keys, parts', same⟩ := ExchangedEntries.readable h parts
    refine ⟨all_obj_iff.2 ⟨?_, parts'⟩, congrArg (· + 1) same⟩
    rw [IsReadable, keys]
    exact distinct
  | arr xs, obj ys, h, _ => by
    obtain ⟨rfl, rfl⟩ := h
    exact ⟨⟨List.nodup_nil, trivial⟩, rfl⟩
  | obj xs, arr ys, h, _ => by
    obtain ⟨rfl, rfl⟩ := h
    exact ⟨⟨trivial, trivial⟩, rfl⟩
  | null, _, rfl, readable => ⟨readable, rfl⟩
  | bool _, _, rfl, readable => ⟨readable, rfl⟩
  | int _, _, rfl, readable => ⟨readable, rfl⟩
  | float _, _, rfl, readable => ⟨readable, rfl⟩
  | str _, _, rfl, readable => ⟨readable, rfl⟩
  | moment _, _, rfl, readable => ⟨readable, rfl⟩

theorem ExchangedItems.readable : ∀ {xs ys : List Data}, ExchangedItems xs ys → (∀ x ∈ xs, x.Readable) →
    (∀ y ∈ ys, y.Readable) ∧ bracketsOfItems ys = bracketsOfItems xs
  | [], [], _, _ => by simp
  | x :: xs, y :: ys, h, readable => by
    obtain ⟨head, rest⟩ := List.forall_mem_cons.1 readable
    obtain ⟨first, same⟩ := h.1.readable head
    obtain ⟨others, same'⟩ := ExchangedItems.readable h.2 rest
    rw [bracketsOfItems, bracketsOfItems, same, same']
    exact ⟨List.forall_mem_cons.2 ⟨first, others⟩, rfl⟩

theorem ExchangedEntries.readable : ∀ {xs ys : List (String × Data)}, ExchangedEntries xs ys →
    (∀ e ∈ xs, e.2.Readable) → ys.map Prod.fst = xs.map Prod.fst ∧ (∀ e ∈ ys, e.2.Readable) ∧
      bracketsOfEntries ys = bracketsOfEntries xs
  | [], [], _, _ => by simp
  | (k, x) :: xs, (l, y) :: ys, h, readable => by
    obtain ⟨rfl, head', rest'⟩ := h
    obtain ⟨head, rest⟩ := List.forall_mem_cons.1 readable
    obtain ⟨first, same⟩ := head'.readable head
    obtain ⟨keys, others, same'⟩ := ExchangedEntries.readable rest' rest
    rw [bracketsOfEntries, bracketsOfEntries, same, same']
    exact ⟨congrArg (k :: ·) keys, List.forall_mem_cons.2 ⟨first, others⟩, rfl⟩

end

end Data

/-! ### Decoded values -/

/-- What is decoded was checked from the data of the text, some of whose empty containers are exchanged. -/
theorem checks_of_decode {shape : Shape} {lenient : Bool} {source : String} {v : Value}
    (h : decode shape lenient source = .ok v) :
    ∃ d d', Data.ofJson source = .ok d ∧ Data.Exchanged d d' ∧ Checks d' shape v := by
  unfold decode at h
  cases read : Data.ofJson source with
  | error e =>
    rw [read] at h
    cases h
  | ok d =>
    rw [read] at h
    obtain ⟨d', last, checked⟩ := (Decode.checkRepairing_eq_ok_iff shape lenient v _ _ d).1 h
    obtain ⟨places, repaired⟩ := (Decode.Repaired.start d).of_mem_tries (List.mem_of_mem_getLast? last)
    unfold Decode.checkPlainly at checked
    split at checked
    · next m hm =>
      cases checked
      exact ⟨d, d', rfl, repaired.exchanged, checks_of_check d' hm⟩
    · cases checked

/-- **What is decoded holds what a JSON text can hold**, but for what is no number. -/
theorem content_of_decode {shape : Shape} {lenient : Bool} {source : String} {v : Value}
    (reply : ∀ m ∈ shape.models, m.isReply = true) (h : decode shape lenient source = .ok v) :
    v.content.Readable ∧ v.content.brackets ≤ nestingLimit := by
  obtain ⟨d, d', read, exchanged, checked⟩ := checks_of_decode h
  obtain ⟨readable, shallow⟩ := Json.ofJson_readable read
  obtain ⟨readable', same⟩ := exchanged.readable readable
  obtain ⟨plain, within⟩ := checked.content_readable reply readable'
  exact ⟨plain, by omega⟩

end ServerTrial
