import ServerTrial.Proofs.Payload
import ServerTrial.Proofs.Replay

/-!
# The forms that expectations have

* `CaseTable.States entries d`: a table gives the data, or a JSON text of them, as what is expected;
* `CaseTable.Parsed r given d e`: the rules by which an expectation is read from the mode and the data, and
  `CaseTable.exists_parsed`: there are no others;
* `CaseTable.Suits r given e`: the expectation has the form that goes with the request and the mode;
* `Expectation.Agrees r e`: the script, the reading of the reply and the comparison are all about the buffer, or all
  about the reply;
* `CaseTable.expectation_suits`: expectations that are read have both.
-/

namespace ServerTrial

/-! ### Replies are no texts -/

/-- The shape is one of records or of lists. -/
def Shape.isComposite : Shape → Bool
  | .model _ | .list _ => true
  | _ => false

theorem Fits.not_plain {s : Shape} (composite : s.isComposite = true) (d : Data) : ¬ Fits s (.plain d) := by
  intro fits
  cases fits <;> cases composite

namespace Request

theorem response_cases (r : Request) : r.response = .any ∨ r.response.isComposite = true ∨
    ∃ shapes, r.response = .union shapes ∧ shapes.all Shape.isComposite = true := by
  cases r <;> first
    | exact .inl rfl
    | exact .inr (.inl rfl)
    | exact .inr (.inr ⟨_, rfl, rfl⟩)

/-- No reply is read as a text by itself. -/
theorem not_fits_text (r : Request) (text : String) : ¬ Fits r.response (.text text) := by
  intro fits
  obtain any | composite | ⟨shapes, union, composite⟩ := r.response_cases
  · rw [any] at fits
    cases fits
  · exact Fits.not_plain composite _ fits
  · rw [union] at fits
    cases fits with
    | branch listed inner => exact Fits.not_plain (List.all_eq_true.1 composite _ listed) _ inner

theorem response_ne_text (r : Request) : r.response ≠ .text := by
  intro same
  exact r.not_fits_text "" (same ▸ .text "")

theorem hasEndState_iff (r : Request) : r.hasEndState = true ↔ r = .formatting ∨ r = .executeCommand := by
  cases r <;> simp [hasEndState, action?]

end Request

namespace CaseTable

/-! ### What a table gives -/

/-- What is expected is given as data, as a JSON text of them, or not at all. -/
inductive States (entries : List (String × Data)) : Data → Prop
  | data {d : Data} (given : Data.find? "expected" entries = some d)
      (only : Data.find? "expected_json" entries = none) : States entries d
  | json {text : String} {d : Data} (only : Data.find? "expected" entries = none)
      (given : Data.find? "expected_json" entries = some (.str text)) (read : Data.ofJson text = .ok d) :
      States entries d
  | absent (first : Data.find? "expected" entries = none) (second : Data.find? "expected_json" entries = none) :
      States entries .null

theorem expectedData_eq_ok_iff {path : Path} {entries : List (String × Data)} {d : Data} :
    expectedData path entries = .ok d ↔ States entries d := by
  constructor
  · intro h
    unfold expectedData at h
    split at h
    · cases h
    · next only =>
      cases h
      cases given : Data.find? "expected" entries with
      | none => exact .absent given only
      | some d => exact .data given only
    · next text only given =>
      split at h
      · next read =>
        cases h
        exact .json only given read
      · cases h
      · cases h
    · cases h
  · intro h
    unfold expectedData
    cases h with
    | data given only => rw [given, only]; rfl
    | json only given read =>
      rw [only, given]
      dsimp only
      rw [read]
    | absent first second => rw [first, second]; rfl

/-- A table gives one thing. -/
theorem States.unique {entries : List (String × Data)} {d d' : Data} (h : States entries d) (h' : States entries d') :
    d = d' := by
  have one : expectedData default entries = .ok d := expectedData_eq_ok_iff.2 h
  have other : expectedData default entries = .ok d' := expectedData_eq_ok_iff.2 h'
  exact Except.ok.inj (one.symm.trans other)

theorem Mode.ofName?_eq_some_iff {name : String} {m : Mode} : Mode.ofName? name = some m ↔ name = m.name := by
  unfold Mode.ofName?
  constructor
  · intro h
    have same := List.find?_some h
    exact (eq_of_beq same).symm
  · rintro rfl
    cases m <;> decide +kernel

theorem unknownMode_ne_ok {path : Path} {given : Data} {report : String → String} {m : Mode} :
    ((orFault (given.written Data.plain)).bind fun text => wrong path (report text)) ≠ .ok m := by
  intro h
  obtain ⟨text, -, wrong'⟩ := bind_eq_ok h
  cases wrong'

/-- A mode is named, or goes with whether anything is expected. -/
theorem mode_eq_ok_iff {path : Path} {given d : Data} {m : Mode} : mode path given d = .ok m ↔
    given = .str m.name ∨ given = .null ∧ (d = .null ∧ m = .none ∨ d ≠ .null ∧ m = .exact) := by
  unfold mode
  cases given with
  | null => cases d <;> simp [eq_comm]
  | str name =>
    simp only [Data.str.injEq, reduceCtorEq, false_and, or_false, ← Mode.ofName?_eq_some_iff]
    cases Mode.ofName? name with
    | some m' => simp
    | none => simpa using unknownMode_ne_ok
  | _ => simpa using unknownMode_ne_ok

/-! ### Rules for reading expectations -/

/-- A value that is expected as the whole reply to a request. -/
def whole (r : Request) (v : Value) : Expectation :=
  if r.hasEndState then .response v else if r = .completion then .exactly v else .value v

/-- How an expectation is read from the mode that is given and the data. -/
inductive Parsed (r : Request) (given d : Data) : Expectation → Prop
  | nothing (none : given = .str "none" ∨ given = .null ∧ d = .null) : Parsed r given d .nothing
  | containing {items : List Value} (named : given = .str "contains") (some : d ≠ .null) (request : r = .completion)
      (fit : ∀ v ∈ items, Fits (.model .completionItem) v) : Parsed r given d (.containing items)
  | endState {text : String} (named : given = .str "end_state") (request : r.hasEndState = true)
      (data : d = .str text) : Parsed r given d (.endState text)
  | reply {v : Value} (named : given = .null ∨ given = .str "exact" ∨ given = .str "response" ∧ r.hasEndState = true)
      (some : d ≠ .null) (fits : Fits r.response v) (value : v.isNull = false) : Parsed r given d (whole r v)

theorem fits_of_checked {path : Path} {what : String} {s : Shape} {d : Data} {v : Value} (some : d ≠ .null)
    (h : checked path what s d = .ok v) : Fits s v ∧ v.isNull = false := by
  unfold checked at h
  split at h
  · next m hm =>
    cases h
    have checks := checks_of_check d hm
    exact ⟨checks.fits, checks.isNull_eq_false some⟩
  · cases h

/-- What is expected as a reply is read the same way in each mode that has one. -/
theorem Parsed.of_checked {path : Path} {r : Request} {given d : Data} {v : Value}
    (named : given = .null ∨ given = .str "exact" ∨ given = .str "response" ∧ r.hasEndState = true) (some : d ≠ .null)
    (h : checked path "expectation" r.response d = .ok v) : Parsed r given d (whole r v) := by
  obtain ⟨fits, value⟩ := fits_of_checked some h
  exact .reply named some fits value

theorem exists_parsed {path : Path} {r : Request} {given : Data} {entries : List (String × Data)} {e : Expectation}
    (h : expectation path r given entries = .ok e) : ∃ d, States entries d ∧ Parsed r given d e := by
  unfold expectation at h
  obtain ⟨d, stated, h⟩ := bind_eq_ok h
  obtain ⟨m, named, h⟩ := bind_eq_ok h
  refine ⟨d, expectedData_eq_ok_iff.1 stated, ?_⟩
  rw [mode_eq_ok_iff] at named
  by_cases silent : m = .none
  · subst silent
    cases h
    refine .nothing ?_
    simpa [Mode.name] using named
  rw [if_neg silent] at h
  dsimp only at h
  split at h
  · cases h
  next some =>
  cases m with
  | none => exact absurd rfl silent
  | contains =>
    dsimp only at h
    split at h
    · cases h
    · next request =>
      obtain ⟨v, items, h⟩ := bind_eq_ok h
      obtain ⟨fits, -⟩ := fits_of_checked some items
      cases fits with
      | list fit =>
        cases h
        exact .containing (by simpa [Mode.name] using named) some (not_not.1 request) fit
  | endState =>
    dsimp only at h
    split at h
    · cases h
    · next request =>
      split at h
      · cases h
        exact .endState (by simpa [Mode.name] using named) (by simpa using request) rfl
      · cases h
  | exact =>
    obtain ⟨v, checked', h⟩ := bind_eq_ok h
    have parsed : Parsed r given d (whole r v) := .of_checked (by simp [Mode.name] at named; tauto) some checked'
    unfold whole at parsed
    split at h
    · next end' =>
      cases h
      rwa [if_pos end'] at parsed
    · next whole =>
      cases h
      rwa [if_neg whole] at parsed
  | response =>
    obtain ⟨v, checked', h⟩ := bind_eq_ok h
    split at h
    · next end' =>
      cases h
      have parsed : Parsed r given d (whole r v) := .of_checked (by simp [Mode.name] at named; tauto) some checked'
      rwa [whole, if_pos end'] at parsed
    · cases h

/-! ### The form of an expectation -/

/-- The expectation has the form that goes with the request and the mode. -/
structure Suits (r : Request) (given : Data) (e : Expectation) : Prop where
  /-- What the editor may perform is judged by the buffer or by the reply, and nothing else is. -/
  acted : (∃ text, e = .endState text) ∨ (∃ v, e = .response v) ↔ r = .formatting ∨ r = .executeCommand
  endState : (∃ text, e = .endState text) ↔ given = .str "end_state"
  completion : (∃ v, e = .exactly v) ∨ (∃ items, e = .containing items) ↔ r = .completion
  containing : (∃ items, e = .containing items) ↔ given = .str "contains"
  value : (∃ v, e = .value v) ↔ r ≠ .formatting ∧ r ≠ .executeCommand ∧ r ≠ .completion
  /-- A whole reply is a value of the shape of replies. -/
  fits : ∀ v, e = .value v ∨ e = .exactly v ∨ e = .response v → Fits r.response v ∧ v.isNull = false
  items : ∀ vs, e = .containing vs → ∀ v ∈ vs, Fits (.model .completionItem) v

theorem whole_cases (r : Request) (v : Value) :
    (r = .formatting ∨ r = .executeCommand) ∧ whole r v = .response v ∨ r = .completion ∧ whole r v = .exactly v ∨
      (r ≠ .formatting ∧ r ≠ .executeCommand ∧ r ≠ .completion) ∧ whole r v = .value v := by
  unfold whole
  by_cases end' : r.hasEndState = true
  · exact .inl ⟨r.hasEndState_iff.1 end', if_pos end'⟩
  · have others := mt r.hasEndState_iff.2 end'
    rw [not_or] at others
    rw [if_neg end']
    by_cases completion : r = .completion
    · exact .inr (.inl ⟨completion, if_pos completion⟩)
    · exact .inr (.inr ⟨⟨others.1, others.2, completion⟩, if_neg completion⟩)

theorem Parsed.suits {r : Request} {given d : Data} {e : Expectation} (parsed : Parsed r given d e)
    (expects : e ≠ .nothing) : Suits r given e := by
  cases parsed with
  | nothing none => exact absurd rfl expects
  | containing named some request fit =>
    subst named request
    constructor <;> simp_all
  | endState named request data =>
    subst named
    obtain rfl | rfl := r.hasEndState_iff.1 request <;> constructor <;> simp
  | @reply v named some fits value =>
    have other : given ≠ .str "end_state" ∧ given ≠ .str "contains" := by
      obtain rfl | rfl | ⟨rfl, -⟩ := named <;> simp
    obtain ⟨rfl | rfl, same⟩ | ⟨rfl, same⟩ | ⟨others, same⟩ := whole_cases r v <;> rw [same] <;>
      constructor <;> simp_all

end CaseTable

/-! ### Acting, reading and comparing -/

namespace Injection

/-- The script has the editor act on the reply. -/
def Act (is : List Injection) : Prop := ⟨"INVOKE_ACTION", "true"⟩ ∈ rawsAll is

end Injection

namespace Expectation

open Injection (Act)

/-- **What is done with a reply goes together.**  The script has the editor act on it if and only if what is recorded is
read as a text, without repairs, and compared with a text; it is the buffer then, and otherwise the reply. -/
structure Agrees (r : Request) (e : Expectation) : Prop where
  mode : Act (r.modeInjections e) ↔ ∃ text, e = .endState text
  script : ∀ c w given is, r.injections c w e given = .ok is → (Act is ↔ ∃ text, e = .endState text)
  shape : e.shape r = .text ↔ ∃ text, e = .endState text
  wanted : (∃ text, e.wanted = .text text) ↔ ∃ text, e = .endState text
  /-- The buffer is right exactly if it is the text. -/
  buffer : ∀ text, e = .endState text → ∀ raw reply, decode (e.shape r) (e.isLenient r) raw = .ok reply →
    ∃ seen, Data.ofJson raw = .ok (.str seen) ∧ reply = .text seen ∧
      ∀ testId, e.judge r testId reply = .ok () ↔ seen = text
  reply : (∀ text, e ≠ .endState text) → e.shape r = r.response ∧ e.isLenient r = r.isLenient

variable {r : Request} {e : Expectation}

theorem act_iff {commands : Option (List String)} {acts : Bool} :
    (⟨"INVOKE_ACTION", "true"⟩ : Substitution) ∈ r.replacements commands acts ↔ r.hasEndState = true ∧ acts = true := by
  unfold Request.replacements Request.hasEndState
  cases commands <;> cases r.action? <;> cases acts <;> simp

theorem isEndState_iff : e.isEndState = true ↔ ∃ text, e = .endState text := by
  cases e <;> simp [isEndState]

theorem toMessage_text (s : String) : (Value.text s).toMessage = .ok (.str s) := rfl

/-- Buffers are compared as texts. -/
theorem judge_endState (r : Request) (testId text seen : String) :
    (endState text).judge r testId (.text seen) = .ok () ↔ seen = text := by
  rw [judge_eq (by intro items h; cases h), wanted, toMessage_text, toMessage_text]
  simp only [Except.mapError, bind, Except.bind, Data.same]
  by_cases same : text = seen
  · simp [same, pure, Except.pure]
  · simp [same, Ne.symm same, Data.isJson]

/-- What is read as a text is one in the record. -/
theorem decode_text {lenient : Bool} {raw : String} {v : Value} (h : decode .text lenient raw = .ok v) :
    ∃ seen, Data.ofJson raw = .ok (.str seen) ∧ v = .text seen := by
  obtain ⟨d, d', read, exchanged, checks⟩ := checks_of_decode h
  cases checks with
  | text seen =>
    cases d <;> simp [Data.Exchanged] at exchanged
    rw [exchanged] at read
    exact ⟨_, read, rfl⟩

theorem wanted_eq_text_iff (fits : ∀ v, e = .value v ∨ e = .exactly v ∨ e = .response v → Fits r.response v) :
    (∃ text, e.wanted = .text text) ↔ ∃ text, e = .endState text := by
  constructor
  · rintro ⟨text, same⟩
    cases e with
    | nothing | containing items => cases same
    | endState t => exact ⟨t, rfl⟩
    | value v | exactly v | response v =>
      have reply := fits v (by simp)
      rw [show v = .text text from same] at reply
      exact absurd reply (r.not_fits_text text)
  · rintro ⟨text, rfl⟩
    exact ⟨text, rfl⟩

theorem agrees (acted : (∃ text, e = .endState text) → r.hasEndState = true)
    (fits : ∀ v, e = .value v ∨ e = .exactly v ∨ e = .response v → Fits r.response v) : Agrees r e := by
  have act : ∀ commands, (⟨"INVOKE_ACTION", "true"⟩ : Substitution) ∈ r.replacements commands e.isEndState ↔
      ∃ text, e = .endState text := by
    intro commands
    rw [act_iff, isEndState_iff]
    exact ⟨And.right, fun h => ⟨acted h, h⟩⟩
  refine ⟨?_, ?_, ?_, wanted_eq_text_iff fits, ?_, ?_⟩
  · rw [Act, Request.modeInjections_raws]
    exact act none
  · intro c w given is injected
    obtain ⟨commands, raws⟩ := r.injections_raws injected
    rw [Act, raws]
    exact act commands
  · unfold shape
    rw [← isEndState_iff]
    split
    · next both => simpa using (Bool.and_eq_true_iff.1 both).2
    · next apart =>
      have response := r.response_ne_text
      simp only [response, false_iff]
      intro end'
      exact apart (by rw [acted (isEndState_iff.1 end'), end']; rfl)
  · rintro text rfl raw reply decoded
    have shape : (endState text).shape r = .text := by
      simp [Expectation.shape, isEndState, acted ⟨text, rfl⟩]
    rw [shape] at decoded
    obtain ⟨seen, read, rfl⟩ := decode_text decoded
    exact ⟨seen, read, rfl, fun testId => judge_endState r testId text seen⟩
  · intro other
    have no : e.isEndState = false := by
      rw [Bool.eq_false_iff, ne_eq, isEndState_iff]
      rintro ⟨text, rfl⟩
      exact other text rfl
    simp [shape, isLenient, no]

end Expectation

namespace CaseTable

/-- **Expectations have the form that their request judges.**  What is read is no expectation exactly if the mode says
so or nothing is given; otherwise it has the form that goes with the request and the mode.  The script, the reading of a
reply and its comparison then agree on what is judged. -/
theorem expectation_suits {path : Path} {r : Request} {given : Data} {entries : List (String × Data)} {e : Expectation}
    (h : expectation path r given entries = .ok e) :
    (e = .nothing ↔ given = .str "none" ∨ given = .null ∧ States entries .null) ∧
      (e ≠ .nothing → Suits r given e) ∧ Expectation.Agrees r e := by
  obtain ⟨d, stated, parsed⟩ := exists_parsed h
  have null : States entries .null ↔ d = .null := ⟨stated.unique, fun same => same ▸ stated⟩
  have suits := parsed.suits
  refine ⟨?_, suits, Expectation.agrees ?_ ?_⟩
  · rw [null]
    cases parsed with
    | nothing none => simpa using none
    | containing named some request fit => simp [named]
    | endState named request data => simp [named]
    | @reply v named some fits value =>
      have expects : whole r v ≠ .nothing := by
        obtain ⟨-, same⟩ | ⟨-, same⟩ | ⟨-, same⟩ := whole_cases r v <;> simp [same]
      have other : given ≠ .str "none" := by
        obtain rfl | rfl | ⟨rfl, -⟩ := named <;> simp
      simp [expects, other, some]
  · rintro ⟨text, rfl⟩
    have acted := (suits (by simp)).acted
    rw [Request.hasEndState_iff, ← acted]
    exact .inl ⟨text, rfl⟩
  · intro v whole
    have expects : e ≠ .nothing := by
      obtain rfl | rfl | rfl := whole <;> simp
    exact ((suits expects).fits v whole).1

/-- The buffer after formatting. -/
theorem expectation_suits_formatting :
    expectation default .formatting (.str "end_state") [("expected", .str "a\n")] = .ok (.endState "a\n") ∧
      Injection.Act (Request.formatting.modeInjections (.endState "a\n")) ∧
      Expectation.shape .formatting (.endState "a\n") = .text := by
  have read : expectation default .formatting (.str "end_state") [("expected", .str "a\n")] =
      .ok (.endState "a\n") := by rfl
  obtain ⟨-, -, agrees⟩ := expectation_suits read
  exact ⟨read, agrees.mode.2 ⟨_, rfl⟩, agrees.shape.2 ⟨_, rfl⟩⟩

end CaseTable

end ServerTrial
