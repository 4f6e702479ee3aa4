import ServerTrial.Case.Table
import ServerTrial.Proofs.Symbols
import ServerTrial.Proofs.JsonText
import ServerTrial.Proofs.Verdict

/-!
# Replaying a reply

* `Request.recheck`: the message form of a reply, checked again, yields a value with the same message form;
* `CaseTable.expectation_recorded`: what a case file expects that holds the JSON text of a message form;
* `Outcome.replay_passes`: a reply passes a trial that expects its own message form.
-/

namespace ServerTrial

/-! ### Replies -/

namespace Request

/-- Replies are made of models that only replies have. -/
theorem isReply_response (r : Request) : ∀ m ∈ r.response.models, m.isReply = true := by
  have all : r.response.models.all Model.isReply = true := by cases r <;> rfl
  exact List.all_eq_true.1 all

/-- The shapes of all replies are settled but for one. -/
theorem isSettled_response (r : Request) : r = .workspaceSymbol ∨ r.response.isSettled = true := by
  cases r <;> first
    | exact .inl rfl
    | exact .inr (by decide +kernel)

end Request

/-! ### Message forms -/

namespace Value

theorem toMessage_eq_ok {v : Value} {d : Data} :
    v.toMessage = .ok d ↔ v.isShallow = true ∧ 2 * v.freeDepth ≤ nestingLimit ∧ v.toData = d := by
  unfold toMessage
  cases v.isShallow with
  | false => simp
  | true =>
    rw [Bool.not_true, if_neg Bool.false_ne_true]
    split
    · next within => simp [within]
    · next beyond => simp [beyond]

/-- The message form of a value with sound content is its content. -/
theorem content_of_toMessage {v : Value} {n : Nat} {d : Data} (sound : v.content.Sound n) (h : v.toMessage = .ok d) :
    d = v.content := by
  obtain ⟨-, -, rfl⟩ := toMessage_eq_ok.1 h
  exact toDataIn_eq_content false v sound

theorem areShallowFields_iff {vs : List (Label × Value)} :
    areShallowFields vs = true ↔ ∀ p ∈ vs, p.2.isShallowIn true = true := by
  induction vs with
  | nil => simp [areShallowFields]
  | cons p vs ih =>
    obtain ⟨l, v⟩ := p
    rw [areShallowFields, Bool.and_eq_true, ih, List.forall_mem_cons]

end Value

/-! ### Symbols that are recast -/

theorem Recast.isShallow {v w : Value} {b : Bool} (h : Recast v w) (shallow : v.isShallowIn b = true) :
    w.isShallowIn b = true := by
  cases h with
  | record own other none =>
    simp only [Value.isShallowIn, List.all_nil, Bool.and_true, Value.areShallowFields_iff] at shallow ⊢
    intro p hp
    rcases List.mem_cons.1 (other.mem_iff.1 hp) with rfl | hp
    · rfl
    · exact shallow p (own.mem_iff.2 (List.mem_cons_of_mem _ hp))

theorem Recast.areShallow {vs ws : List Value} {b : Bool} (h : List.Forall₂ Recast vs ws)
    (shallow : Value.areShallow b vs = true) : Value.areShallow b ws = true := by
  induction h with
  | nil => rfl
  | cons head _ ih =>
    rw [Value.areShallow, Bool.and_eq_true] at shallow ⊢
    exact ⟨head.isShallow shallow.1, ih shallow.2⟩

theorem SameContent.sound {v w : Value} {n : Nat} (h : SameContent v w) (sound : v.content.Sound n) :
    w.content.Sound n ∧ w.content.same v.content = true := by
  obtain ⟨es, es', hv, hw, perm⟩ := h
  rw [hv] at sound ⊢
  rw [hw]
  obtain ⟨positive, whole, distinct, parts⟩ := Data.sound_obj_iff.1 sound
  have keys := perm.map Prod.fst
  constructor
  · refine Data.sound_obj_iff.2 ⟨positive, fun k hk => whole k (keys.mem_iff.1 hk), keys.nodup_iff.2 distinct, ?_⟩
    intro e he
    exact parts e (perm.mem_iff.1 he)
  · rw [Data.same, perm.length_eq, beq_self_eq_true, Bool.true_and]
    refine Data.sameEntries_of_find? fun e he => ?_
    have there := perm.mem_iff.1 he
    exact ⟨e.2, Data.find?_of_mem distinct there, Data.same_self e.2 (parts e there)⟩

theorem SameContent.sound_items {vs ws : List Value} {n : Nat} (h : List.Forall₂ SameContent vs ws)
    (sound : ∀ x ∈ Value.contentOfItems vs, x.Sound n) :
    (∀ x ∈ Value.contentOfItems ws, x.Sound n) ∧
      Data.sameItems (Value.contentOfItems ws) (Value.contentOfItems vs) = true := by
  induction h with
  | nil => exact ⟨sound, rfl⟩
  | cons head _ ih =>
    obtain ⟨first, rest⟩ := List.forall_mem_cons.1 sound
    obtain ⟨here, same⟩ := head.sound first
    obtain ⟨others, sames⟩ := ih rest
    refine ⟨List.forall_mem_cons.2 ⟨here, others⟩, ?_⟩
    rw [Value.contentOfItems, Value.contentOfItems, Data.sameItems, same, sames]
    rfl

/-! ### Checking a message form again -/

/-- A list whose items are recast without loss has the same message form. -/
theorem Recast.toMessage {vs ws : List Value} {n : Nat} {d : Data} (related : List.Forall₂ Recast vs ws)
    (same : List.Forall₂ SameContent vs ws) (sound : (Value.list vs).content.Sound n)
    (h : (Value.list vs).toMessage = .ok d) : ∃ d', (Value.list ws).toMessage = .ok d' ∧ d'.same d = true := by
  obtain ⟨shallow, within, -⟩ := Value.toMessage_eq_ok.1 h
  obtain ⟨positive, parts⟩ := Data.sound_arr_iff.1 sound
  obtain ⟨parts', equal⟩ := SameContent.sound_items same parts
  have shallow' : (Value.list ws).isShallow = true := Recast.areShallow related shallow
  have sound' : (Value.list ws).content.Sound n := Data.sound_arr_iff.2 ⟨positive, parts'⟩
  refine ⟨(Value.list ws).content, ?_, ?_⟩
  · exact Value.toMessage_eq_ok.2 ⟨shallow', within, Value.toDataIn_eq_content false _ sound'⟩
  · rw [Value.content_of_toMessage sound h]
    exact equal

/-- **The message form of a reply, checked again, yields a value with the same message form.** -/
theorem Request.recheck (r : Request) {v : Value} {n : Nat} {d : Data} (fits : Fits r.response v)
    (sound : v.content.Sound n) (h : v.toMessage = .ok d) :
    ∃ m d', check d r.response = .ok m ∧ m.value.toMessage = .ok d' ∧ d'.same d = true := by
  obtain rfl := Value.content_of_toMessage sound h
  have itself : v.content.same v.content = true := Data.same_self v.content sound
  rcases r.isSettled_response with rfl | settled
  · obtain ⟨m, hm, same | ⟨vs, ws, rfl, value, related, same⟩⟩ := Fits.yields_symbols fits
    · exact ⟨m, v.content, hm, same ▸ h, itself⟩
    · obtain ⟨d', message, equal⟩ := Recast.toMessage related same sound h
      exact ⟨m, d', hm, value ▸ message, equal⟩
  · obtain ⟨exactness, hm⟩ := fits.yields settled
    exact ⟨_, v.content, hm, h, itself⟩

/-! ### Expecting a reply -/

namespace Expectation

/-- The ways in which a reply is expected as a whole. -/
def ofReply (v : Value) : List Expectation := [.value v, .exactly v, .response v]

variable {r : Request} {e : Expectation} {v reply : Value}

theorem of_mem_ofReply (he : e ∈ ofReply v) : e ≠ .nothing ∧ (∀ items, e ≠ .containing items) ∧ e.wanted = v ∧
    e.shape r = r.response ∧ e.isLenient r = r.isLenient := by
  simp only [ofReply, List.mem_cons, List.not_mem_nil, or_false] at he
  rcases he with rfl | rfl | rfl <;> simp [wanted, shape, isLenient, isEndState]

theorem met_of_mem_ofReply {d d' : Data} (he : e ∈ ofReply v) (wanted : v.toMessage = .ok d)
    (actual : reply.toMessage = .ok d') (same : d.same d' = true) : e.Met reply := by
  simp only [ofReply, List.mem_cons, List.not_mem_nil, or_false] at he
  rcases he with rfl | rfl | rfl <;> exact ⟨d, d', wanted, actual, same⟩

end Expectation

namespace CaseTable

theorem expectedData_json (path : Path) {text : String} {d : Data} (read : Data.ofJson text = .ok d) :
    expectedData path [("expected_json", .str text)] = .ok d := by
  have none : Data.find? "expected" [("expected_json", Data.str text)] = none := rfl
  have some : Data.find? "expected_json" [("expected_json", Data.str text)] = some (.str text) := rfl
  unfold expectedData
  rw [none, some]
  dsimp only
  rw [read]

/-- A case file that holds null expects no reply. -/
theorem expectation_null (path : Path) (r : Request) {text : String} (read : Data.ofJson text = .ok .null) :
    expectation path r .null [("expected_json", .str text)] = .ok .nothing := by
  unfold expectation
  rw [expectedData_json path read]
  rfl

/-- A case file that holds the data of a reply expects the reply. -/
theorem expectation_of_check (path : Path) (r : Request) {text : String} {d : Data} {m : Match}
    (read : Data.ofJson text = .ok d) (some : d ≠ .null) (hm : check d r.response = .ok m) :
    ∃ e ∈ Expectation.ofReply m.value,
      expectation path r .null [("expected_json", .str text)] = .ok e := by
  have exact : mode path .null d = .ok .exact := by
    cases d with
    | null => exact absurd rfl some
    | _ => rfl
  have value : checked path "expectation" r.response d = .ok m.value := by
    unfold checked
    rw [hm]
  unfold expectation
  rw [expectedData_json path read]
  simp only [bind, Except.bind, pure, Except.pure, exact, value, reduceCtorEq, if_false]
  cases r.hasEndState with
  | true => exact ⟨.response m.value, by simp [Expectation.ofReply], rfl⟩
  | false =>
    by_cases completion : r = .completion
    · exact ⟨.exactly m.value, by simp [Expectation.ofReply], by simp [completion]⟩
    · exact ⟨.value m.value, by simp [Expectation.ofReply], by simp [completion]⟩

end CaseTable

/-! ### Replaying -/

namespace Outcome

/-- Only null stands for null, also before relative paths are put in. -/
theorem null_of_decode {shape : Shape} {lenient : Bool} {raw : String} {v : Value}
    (decoded : decode shape lenient raw = .ok v) (null : v.isNull = true) : Data.ofJson raw = .ok .null := by
  obtain ⟨d, d', read, exchanged, checks⟩ := checks_of_decode decoded
  have same : d' = .null := by
    by_contra some
    rw [checks.isNull_eq_false some] at null
    cases null
  subst same
  cases d <;> first
    | exact read
    | cases exchanged

/-- **A reply passes a trial that expects its own message form.**  Let the value of a recorded reply hold floats that
are finite and texts without lone surrogates.  Then the reply can be shown with relative paths, and if that has a
message form at all, a case file with the JSON text of the form is read, and expects what is recorded. -/
theorem replay_passes (c : Case) (r : Request) (w : World) (l : Layout) (path : Path) (raw : String) (v : Value)
    (recorded : Recorded w l raw) (decoded : decode r.response r.isLenient raw = .ok v)
    (regular : v.content.Regular) :
    ∃ reply, v.localizeBy (w.spellings l.sources) = .ok reply ∧ ∀ d, reply.toMessage = .ok d →
      ∃ e, CaseTable.expectation path r .null [("expected_json", .str d.toJson)] = .ok e ∧
        resolve c r w l e = .ok () := by
  obtain ⟨readable, shallow⟩ := content_of_decode r.isReply_response decoded
  obtain ⟨_, _, _, _, checks⟩ := checks_of_decode decoded
  obtain ⟨spellings, known⟩ := spellings_of_shows recorded.shows
  have localized : v.localizeBy (w.spellings l.sources) = .ok (v.localize (Uri.clean spellings)) := by
    rw [known, Value.localizeBy_eq]
  have fits : Fits r.response (v.localize (Uri.clean spellings)) := checks.fits.localize
  have sound := Value.sound_localize (Value.keepsWhole_clean spellings) v ⟨regular, readable, shallow⟩
  refine ⟨_, localized, fun d message => ?_⟩
  obtain ⟨m, d', hm, message', same⟩ := r.recheck fits sound message
  have content := Value.content_of_toMessage sound message
  rw [← content] at sound
  have read : Data.ofJson d.toJson = .ok d := Data.ofJson_toJson sound.regular sound.readable sound.shallow
  by_cases null : d = .null
  · subst null
    refine ⟨.nothing, CaseTable.expectation_null path r read, ?_⟩
    have absent : v.isNull = true := by
      rw [← Value.isNull_localize (Uri.clean spellings)]
      by_contra some
      exact fits.content_ne_null (Bool.eq_false_iff.2 some) content.symm
    exact (Passes.emptyReply recorded rfl (null_of_decode decoded absent) (.inl rfl)).resolve
  · obtain ⟨e, he, parsed⟩ := CaseTable.expectation_of_check path r read null hm
    obtain ⟨some, -, -, shape, lenient⟩ := Expectation.of_mem_ofReply (r := r) he
    have reads : Reads w l (e.shape r) (e.isLenient r) raw (v.localize (Uri.clean spellings)) := by
      rw [shape, lenient]
      exact ⟨v, decoded, localized⟩
    exact ⟨e, parsed, Passes.resolve (.met recorded some reads (Expectation.met_of_mem_ofReply he message' message same))⟩

/-- A reply whose numbers come in other guises, and whose fields that are null are left out of the expectation. -/
theorem replay_passes_folding_range :
    let raw := "[\x7b\"startLine\": \"1\", \"endLine\": true, \"kind\": null\x7d]"
    let w := World.sole (textBytes raw)
    let v : Value := .list [.record .foldingRange
      [(⟨"start_line", "startLine"⟩, .whole 1), (⟨"start_character", "startCharacter"⟩, .null),
        (⟨"end_line", "endLine"⟩, .whole 1), (⟨"end_character", "endCharacter"⟩, .null), (⟨"kind", "kind"⟩, .null),
        (⟨"collapsed_text", "collapsedText"⟩, .null)] []]
    Recorded w .sole raw ∧ decode Request.foldingRange.response true raw = .ok v ∧ v.content.Regular ∧
      ∃ reply, v.localizeBy (w.spellings Layout.sole.sources) = .ok reply ∧ ∀ d, reply.toMessage = .ok d →
        ∃ e, CaseTable.expectation ⟨.here, ["case.toml"]⟩ .foldingRange .null
            [("expected_json", .str d.toJson)] = .ok e ∧
          resolve default .foldingRange w .sole e = .ok () := by
  intro raw w v
  have json : Data.ofJson raw =
      .ok (.arr [.obj [("startLine", .str "1"), ("endLine", .bool true), ("kind", .null)]]) :=
    (Data.ofJson_ofList _).trans rfl
  have decoded : decode Request.foldingRange.response true raw = .ok v := by
    unfold decode
    rw [json]
    rfl
  have regular : v.content.Regular := by
    have content : v.content = .arr [.obj [("startLine", .int 1), ("endLine", .int 1)]] := rfl
    have keys : ∀ e ∈ [("startLine", Data.int 1), ("endLine", .int 1)], Text.isWhole e.1 = true := by decide
    rw [content]
    exact ⟨trivial, ⟨keys, trivial, trivial, trivial⟩, trivial⟩
  exact ⟨recorded_sole raw, decoded, regular,
    replay_passes default .foldingRange w .sole ⟨.here, ["case.toml"]⟩ raw v (recorded_sole raw) decoded regular⟩

/-! ### Replies without a message form -/

/-- A reply without a message form does not pass a trial that expects it. -/
theorem resolve_without_message (c : Case) {r : Request} {w : World} {l : Layout} {e : Expectation} {raw : String}
    {v : Value} {x : Fault} (recorded : Recorded w l raw) (decoded : decode r.response r.isLenient raw = .ok v)
    (foreign : v.uris = []) (he : e ∈ Expectation.ofReply v) (formless : v.toMessage = .error x) :
    resolve c r w l e = .error (.fault x) := by
  obtain ⟨some, whole, wanted, shape, lenient⟩ := Expectation.of_mem_ofReply (r := r) he
  have reads : Reads w l (e.shape r) (e.isLenient r) raw v := by
    rw [shape, lenient]
    refine ⟨v, decoded, ?_⟩
    rw [Value.localizeBy, foreign]
    rfl
  have incomparable : e.Incomparable v x := .wanted whole (wanted ▸ formless)
  exact Derailed.resolve (.incomparable recorded some reads incomparable)

/-- The text of a value with sound content is decoded to the value. -/
theorem decode_content {s : Shape} {v : Value} (settled : s.isSettled = true) (fits : Fits s v)
    (sound : v.content.Sound nestingLimit) (lenient : Bool) : decode s lenient v.content.toJson = .ok v := by
  obtain ⟨exactness, checked⟩ := fits.yields settled
  unfold decode
  rw [Data.ofJson_toJson sound.regular sound.readable sound.shallow]
  unfold Decode.maxRepairs Decode.checkRepairing
  dsimp only
  rw [checked]

/-- Lists in each other, so many around an empty one. -/
def nested : Nat → Data
  | 0 => .arr []
  | n + 1 => .arr [nested n]

theorem depth_nested : ∀ n, (nested n).depth = n + 1
  | 0 => rfl
  | n + 1 => by rw [nested, Data.depth, Data.depthOfItems, Data.depthOfItems, depth_nested n, Nat.max_zero]

theorem nested_ne_null (n : Nat) : nested n ≠ .null := by
  cases n <;> simp [nested]

theorem sound_nested : ∀ n, (nested n).Sound (n + 1)
  | 0 => ⟨⟨trivial, trivial⟩, ⟨trivial, trivial⟩, Nat.le_refl 1⟩
  | n + 1 => by
    refine Data.sound_arr_iff.2 ⟨by omega, ?_⟩
    intro x hx
    rw [List.mem_singleton.1 hx]
    exact sound_nested n

/-- A code lens on one line, with data. -/
def lens (d : Data) : Value :=
  .record .codeLens
    [(⟨"range", "range"⟩, .lineRange 0 0 1), (⟨"command", "command"⟩, .null), (⟨"data", "data"⟩, .free d)] []

theorem fits_lens {d : Data} (some : d ≠ .null) : Fits (.model .codeLens) (lens d) := by
  have position : ∀ line character : Int, Fits (.model .position) (.record .position
      [(⟨"line", "line"⟩, .whole line), (⟨"character", "character"⟩, .whole character)] []) := by
    intro line character
    refine .model rfl ?_ fun _ => rfl
    simpa [Model.fields, Model.need] using ⟨Fits.whole line, Fits.whole character⟩
  have range : Fits (.model .range) (.lineRange 0 0 1) := by
    refine .model rfl ?_ fun _ => rfl
    simpa [Model.fields, Model.need] using ⟨position 0 0, position 0 1⟩
  have data : Fits (.optional .any) (.free d) := by
    refine .given ?_ (.any d)
    cases d <;> first
      | exact absurd rfl some
      | rfl
  refine .model rfl ?_ fun _ => rfl
  simpa [Model.fields, Model.need, Model.may] using ⟨range, Fits.null (.model .command), data⟩

theorem content_lens {d : Data} (some : d ≠ .null) : (lens d).content = .obj
    [("range", .obj [("start", .obj [("line", .int 0), ("character", .int 0)]),
      ("end", .obj [("line", .int 0), ("character", .int 1)])]), ("data", d)] := by
  cases d <;> first
    | exact absurd rfl some
    | rfl

theorem sound_lens {d : Data} {n : Nat} (some : d ≠ .null) (sound : d.Sound n) :
    (lens d).content.Sound (n + 3) := by
  have bit : ∀ b : Nat, b ≤ 1 → (Data.int b).Sound 0 := by
    intro b small
    have one : 1 < 10 ^ digitLimit := Nat.one_lt_pow (by decide) (by decide)
    exact ⟨trivial, Nat.lt_of_le_of_lt small one, Nat.le_refl 0⟩
  have position : ∀ b : Nat, b ≤ 1 → (Data.obj [("line", .int 0), ("character", .int b)]).Sound 1 := by
    intro b small
    refine Data.sound_obj_iff.2 ⟨Nat.le_refl 1, by simp; decide, by simp, ?_⟩
    simpa using ⟨bit 0 (by decide), bit b small⟩
  have range : (Data.obj [("start", .obj [("line", .int 0), ("character", .int 0)]),
      ("end", .obj [("line", .int 0), ("character", .int 1)])]).Sound 2 := by
    refine Data.sound_obj_iff.2 ⟨by decide, by decide, by decide, ?_⟩
    simpa using ⟨position 0 (by decide), position 1 (by decide)⟩
  rw [content_lens some]
  refine Data.sound_obj_iff.2 ⟨by omega, by simp; decide, by simp, ?_⟩
  simpa using ⟨range.mono (by omega), sound.mono (by omega)⟩

/-- **A reply with data that nest too deep has no message form**, and does not pass a trial that expects its data. -/
theorem replay_nested :
    let v : Value := .list [lens (nested 255)]
    let raw := v.content.toJson
    let w := World.sole (textBytes raw)
    let fault : Fault := .value "Maximum serialization depth exceeded"
    Recorded w .sole raw ∧ decode Request.codeLens.response true raw = .ok v ∧ v.content.Regular ∧
      v.localizeBy (w.spellings Layout.sole.sources) = .ok v ∧ v.toMessage = .error fault ∧
      ∃ e, CaseTable.expectation ⟨.here, ["case.toml"]⟩ .codeLens .null [("expected_json", .str raw)] = .ok e ∧
        resolve default .codeLens w .sole e = .error (.fault fault) := by
  have some : nested 255 ≠ .null := nested_ne_null 255
  have fits : Fits Request.codeLens.response (.list [lens (nested 255)]) :=
    .list fun v hv => List.mem_singleton.1 hv ▸ fits_lens some
  have sound : (Value.list [lens (nested 255)]).content.Sound nestingLimit := by
    refine Data.sound_arr_iff.2 ⟨by decide, fun x hx => ?_⟩
    rw [List.mem_singleton.1 hx]
    exact (sound_lens some (sound_nested 255)).mono (by decide)
  have foreign : (Value.list [lens (nested 255)]).uris = [] := rfl
  have deep : (Value.list [lens (nested 255)]).isShallow = false := by
    have beyond : ¬ (nested 255).depth ≤ Value.depthLimit := by
      rw [depth_nested]
      decide
    simp [Value.isShallow, Value.isShallowIn, Value.areShallow, Value.areShallowFields, lens, beyond]
  have present : (Value.list [lens (nested 255)]).content ≠ .null := by simp [Value.content]
  generalize Value.list [lens (nested 255)] = v at *
  intro v' raw w fault
  have recorded : Recorded w .sole raw := recorded_sole raw
  have decoded : decode Request.codeLens.response true raw = .ok v := decode_content rfl fits sound true
  have formless : v.toMessage = .error fault := by
    rw [Value.toMessage, deep]
    rfl
  obtain ⟨exactness, checked⟩ := fits.yields rfl
  have read := Data.ofJson_toJson sound.regular sound.readable sound.shallow
  obtain ⟨e, he, parsed⟩ := CaseTable.expectation_of_check ⟨.here, ["case.toml"]⟩ .codeLens read present checked
  refine ⟨recorded, decoded, sound.regular, ?_, formless, e, parsed, ?_⟩
  · rw [Value.localizeBy, foreign]
    rfl
  · exact resolve_without_message default recorded decoded foreign he formless

end Outcome

end ServerTrial
