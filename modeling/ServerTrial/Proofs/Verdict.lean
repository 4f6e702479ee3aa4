import ServerTrial.Trial.Outcome
import ServerTrial.Proofs.Utf8

/-!
# The verdict on a trial

* `Passes`: what must have been recorded for a trial to pass; `Due`: the failure that any other state calls for;
  `Derailed`: what keeps the harness from a verdict;
* `resolve_verdict`: a trial passes exactly in the first states, and fails otherwise with what is due unless it is
  derailed.

Each relation is shown to give the result that it names, and some relation holds in every state (`Outcome.verdict`);
as a state has one result, both directions follow.
-/

namespace ServerTrial

/-! ### Comparing with an expectation -/

namespace Expectation

/-- Does a reply meet the expectation?  It has all the items that it must have, or the message form that is wanted. -/
def Met : Expectation → Value → Prop
  | containing items, reply => Completion.missingFrom items (some reply) = .ok []
  | e, reply => ∃ d d', e.wanted.toMessage = .ok d ∧ reply.toMessage = .ok d' ∧ d.same d' = true

/-- The report on a reply that does not meet the expectation. -/
inductive Missed (r : Request) (testId : String) : Expectation → Value → Failure → Prop
  | items {items missing reply} : Completion.missingFrom items (some reply) = .ok missing → missing ≠ [] →
      Missed r testId (.containing items) reply
        (.itemsMissing testId (missing.map Value.toData) ((Completion.items reply).map Value.toData))
  | value {e reply d d'} : (∀ items, e ≠ .containing items) → e.wanted.toMessage = .ok d → reply.toMessage = .ok d' →
      d.same d' = false → d.isJson → Missed r testId e reply (.mismatch testId r.label d d')

/-- What keeps a reply from being compared: data too deep for a message, or a difference that cannot be written. -/
inductive Incomparable : Expectation → Value → Fault → Prop
  | items {items reply x} : Completion.missingFrom items (some reply) = .error x →
      Incomparable (.containing items) reply x
  | wanted {e reply x} : (∀ items, e ≠ .containing items) → e.wanted.toMessage = .error x → Incomparable e reply x
  | reply {e reply d x} : (∀ items, e ≠ .containing items) → e.wanted.toMessage = .ok d →
      reply.toMessage = .error x → Incomparable e reply x
  | unwritten {e reply d d'} : (∀ items, e ≠ .containing items) → e.wanted.toMessage = .ok d →
      reply.toMessage = .ok d' → d.same d' = false → ¬ d.isJson → Incomparable e reply .kind

variable {r : Request} {testId : String} {e : Expectation} {reply : Value}

theorem judge_eq (h : ∀ items, e ≠ .containing items) :
    e.judge r testId reply = (do
      let expected ← e.wanted.toMessage.mapError Failure.fault
      let actual ← reply.toMessage.mapError Failure.fault
      if expected.same actual then return ()
      else if expected.isJson then throw (.mismatch testId r.label expected actual)
      else throw (.fault .kind)) := by
  cases e with
  | containing items => exact absurd rfl (h items)
  | _ => rfl

theorem Met.judge (h : e.Met reply) : e.judge r testId reply = .ok () := by
  cases e with
  | containing items =>
    unfold Met at h
    simp only [Expectation.judge, h]
    rfl
  | _ =>
    obtain ⟨d, d', hd, hd', same⟩ := h
    rw [judge_eq (by intro items h; cases h), hd, hd']
    simp only [Except.mapError, bind, Except.bind, same, if_true]
    rfl

theorem Missed.judge {f : Failure} (h : Missed r testId e reply f) : e.judge r testId reply = .error f := by
  cases h with
  | @items items missing _ hm some =>
    simp only [Expectation.judge, hm, Except.mapError, bind, Except.bind]
    rw [if_neg (by simpa using some)]
    rfl
  | value other hd hd' differ json =>
    rw [judge_eq other, hd, hd']
    simp only [Except.mapError, bind, Except.bind, differ, json]
    rfl

theorem Incomparable.judge {x : Fault} (h : Incomparable e reply x) : e.judge r testId reply = .error (.fault x) := by
  cases h with
  | items hm => simp only [Expectation.judge, hm]; rfl
  | wanted other hd => rw [judge_eq other, hd]; rfl
  | reply other hd hd' => rw [judge_eq other, hd, hd']; rfl
  | unwritten other hd hd' differ json =>
    rw [judge_eq other, hd, hd']
    simp only [Except.mapError, bind, Except.bind, differ, json]
    rfl

/-- A reply meets an expectation, misses it, or cannot be compared. -/
theorem comparison (r : Request) (testId : String) (e : Expectation) (reply : Value) :
    e.Met reply ∨ (∃ f, Missed r testId e reply f) ∨ ∃ x, Incomparable e reply x := by
  by_cases listed : ∃ items, e = .containing items
  · obtain ⟨items, rfl⟩ := listed
    cases hm : Completion.missingFrom items (some reply) with
    | error x => exact .inr (.inr ⟨x, .items hm⟩)
    | ok missing =>
      by_cases none : missing = []
      · subst none; exact .inl hm
      · exact .inr (.inl ⟨_, .items hm none⟩)
  · have other : ∀ items, e ≠ .containing items := fun items h => listed ⟨items, h⟩
    cases hd : e.wanted.toMessage with
    | error x => exact .inr (.inr ⟨x, .wanted other hd⟩)
    | ok d =>
      cases hd' : reply.toMessage with
      | error x => exact .inr (.inr ⟨x, .reply other hd hd'⟩)
      | ok d' =>
        cases same : d.same d' with
        | true =>
          left
          cases e with
          | containing items => exact absurd rfl (other items)
          | _ => exact ⟨d, d', hd, hd', same⟩
        | false =>
          by_cases json : d.isJson
          · exact .inr (.inl ⟨_, .value other hd hd' same json⟩)
          · exact .inr (.inr ⟨_, .unwritten other hd hd' same json⟩)

end Expectation

/-- A path below another is flawed where the other is, or in what is added. -/
theorem World.flaw?_child (p : Path) {name : String} (relative : (Path.ofString name).isAbsolute = false) :
    flaw? (p.child name) = (flaw? p).or (flaw? (Path.ofString name)) := by
  rw [Path.child, Path.join, if_neg (by simp [relative])]
  exact List.findSome?_append

namespace Outcome

/-! ### What has been recorded -/

/-- There is a marker. -/
def Shows (w : World) (l : Layout) (m : Marker) : Prop := w.present (l.marker m) = .ok true

/-- There is no marker. -/
def Lacks (w : World) (l : Layout) (m : Marker) : Prop := w.present (l.marker m) = .ok false

/-- There is the marker for a reply, and the other one is not there. -/
structure Replied (w : World) (l : Layout) : Prop where
  lacks : Lacks w l .empty
  shows : Shows w l .results

/-- The recorded reply is a text: its bytes are those of the text. -/
structure Recorded (w : World) (l : Layout) (raw : String) : Prop extends Replied w l where
  bytes : w.fetch (l.marker .results) = .ok (textBytes raw)

/-- There is no word of a reply. -/
structure Silent (w : World) (l : Layout) : Prop where
  empty : Lacks w l .empty
  results : Lacks w l .results

/-- Null, an empty list or an empty object. -/
def IsEmpty (d : Data) : Prop := d = .null ∨ d = .arr [] ∨ d = .obj []

/-- The data nest deeper than they are read, or than they can be repaired. -/
def IsNesting (d : DecodeError) : Prop := (∃ source, d = .json source .nesting) ∨ d = .nesting

/-- The value that a text is decoded to, with the URIs of workspace files as relative paths. -/
def Reads (w : World) (l : Layout) (shape : Shape) (lenient : Bool) (raw : String) (reply : Value) : Prop :=
  ∃ v, decode shape lenient raw = .ok v ∧ v.localizeBy (w.spellings l.sources) = .ok reply

/-- How a reply that should not be there is shown: as its value, or as its text if it has no value. -/
inductive Shown (r : Request) (w : World) (l : Layout) (raw : String) : String → Prop
  | value {reply} : Reads w l r.response r.isLenient raw reply → Shown r w l raw reply.inspect
  | text {d} : decode r.response r.isLenient raw = .error d → ¬ IsNesting d → Shown r w l raw (Text.quote raw)

/-! ### Verdicts -/

/-- The trial passes: no reply was expected and there is none, or an empty one; or the reply meets the expectation. -/
inductive Passes (r : Request) (w : World) (l : Layout) (e : Expectation) : Prop
  | noReply : Shows w l .empty → Lacks w l .results → e = .nothing → Passes r w l e
  | emptyReply {raw d} : Recorded w l raw → e = .nothing → Data.ofJson raw = .ok d → IsEmpty d → Passes r w l e
  | met {raw reply} : Recorded w l raw → e ≠ .nothing → Reads w l (e.shape r) (e.isLenient r) raw reply →
      e.Met reply → Passes r w l e

/-- The failure that a state calls for. -/
inductive Due (c : Case) (r : Request) (w : World) (l : Layout) (e : Expectation) : Failure → Prop
  | bothMarkers : Shows w l .empty → Shows w l .results → Due c r w l e (.bothMarkers c.testId)
  | expectedSome : Shows w l .empty → Lacks w l .results → e ≠ .nothing →
      Due c r w l e (.expectedSome c.testId r.label)
  | timeout : Silent w l → Shows w l .timeout → Due c r w l e (.timeout c.testId c.timeout)
  | editor {text} : Silent w l → Lacks w l .timeout → Workspace.reportedError w l = .ok text →
      Text.hasInk text = true → Due c r w l e (.editor c.testId text)
  | noResults {text} : Silent w l → Lacks w l .timeout → Workspace.reportedError w l = .ok text →
      Text.hasInk text = false → Due c r w l e (.noResults c.testId)
  | unreadable {x} : Replied w l → w.fetch (l.marker .results) = .error x →
      Due c r w l e (.unreadable c.testId "")
  | notUtf8 {bytes flaw} : Replied w l → w.fetch (l.marker .results) = .ok bytes → (∀ raw, bytes ≠ textBytes raw) →
      Utf8.decode (byteValues bytes) = .error flaw → Due c r w l e (.notUtf8 c.testId flaw.message)
  | expectedNone {raw text} : Recorded w l raw → e = .nothing → Data.ofJson raw ≠ .error .nesting →
      (∀ d, Data.ofJson raw = .ok d → ¬ IsEmpty d) → Shown r w l raw text →
      Due c r w l e (.expectedNone c.testId r.label text)
  | undecodable {raw d} : Recorded w l raw → e ≠ .nothing → decode (e.shape r) (e.isLenient r) raw = .error d →
      ¬ IsNesting d → Due c r w l e (.undecodable c.testId ("Results file -- " ++ d.message))
  | missed {raw reply f} : Recorded w l raw → e ≠ .nothing → Reads w l (e.shape r) (e.isLenient r) raw reply →
      Expectation.Missed r c.testId e reply f → Due c r w l e f

/-- What keeps the harness from a verdict: a path that is longer than any file has, an error text that cannot be read,
a reply that nests too deep, or one that cannot be compared. -/
inductive Derailed (r : Request) (w : World) (l : Layout) (e : Expectation) : Fault → Prop
  | empty {x} : w.present (l.marker .empty) = .error x → Derailed r w l e (.system x)
  | results {b x} : w.present (l.marker .empty) = .ok b → w.present (l.marker .results) = .error x →
      Derailed r w l e (.system x)
  | timeout {x} : Silent w l → w.present (l.marker .timeout) = .error x → Derailed r w l e (.system x)
  | error {x} : Silent w l → Lacks w l .timeout → Workspace.reportedError w l = .error x → Derailed r w l e x
  | emptyReply {raw} : Recorded w l raw → e = .nothing → Data.ofJson raw = .error .nesting →
      Derailed r w l e .nesting
  | shown {raw d} : Recorded w l raw → e = .nothing → Data.ofJson raw ≠ .error .nesting →
      (∀ d, Data.ofJson raw = .ok d → ¬ IsEmpty d) → decode r.response r.isLenient raw = .error d → IsNesting d →
      Derailed r w l e .nesting
  | undecodable {raw d} : Recorded w l raw → e ≠ .nothing → decode (e.shape r) (e.isLenient r) raw = .error d →
      IsNesting d → Derailed r w l e .nesting
  | incomparable {raw reply x} : Recorded w l raw → e ≠ .nothing →
      Reads w l (e.shape r) (e.isLenient r) raw reply → e.Incomparable reply x → Derailed r w l e x

variable {c : Case} {r : Request} {w : World} {l : Layout} {e : Expectation} {raw : String}

/-! ### The functions of the harness -/

theorem marked_of_shows {m : Marker} (h : Shows w l m) : marked w l m = .ok true := by
  unfold marked
  rw [h]
  rfl

theorem marked_of_lacks {m : Marker} (h : Lacks w l m) : marked w l m = .ok false := by
  unfold marked
  rw [h]
  rfl

theorem marked_of_error {m : Marker} {x : SystemError} (h : w.present (l.marker m) = .error x) :
    marked w l m = .error (.fault (.system x)) := by
  unfold marked
  rw [h]
  rfl

theorem readReply_of_recorded (h : Recorded w l raw) : readReply c w l = .ok raw := by
  unfold readReply
  rw [h.bytes]
  dsimp only
  rw [Utf8.decode_eq_ok_iff.2 rfl]
  rfl

/-- Where the reply is recorded, the path of the source files is sound. -/
theorem spellings_of_shows (h : Shows w l .results) : ∃ spellings, w.spellings l.sources = .ok spellings := by
  have sound : World.flaw? (l.marker .results) = none := by
    cases flaw : World.flaw? (l.marker .results) with
    | none => rfl
    | some x =>
      unfold Shows World.present World.probe at h
      rw [flaw] at h
      cases h
  have root : World.flaw? l.root = none := by
    rw [Layout.marker, World.flaw?_child _ (by decide), Option.or_eq_none_iff] at sound
    exact sound.1
  have sources : World.flaw? l.sources = none := by
    rw [Layout.sources, World.flaw?_child _ (by decide), root]
    rfl
  unfold World.spellings
  rw [sources]
  exact ⟨_, rfl⟩

/-- A value can be shown with relative paths where the reply is recorded. -/
theorem localizeBy_of_shows (h : Shows w l .results) (v : Value) :
    ∃ reply, v.localizeBy (w.spellings l.sources) = .ok reply := by
  obtain ⟨spellings, hs⟩ := spellings_of_shows h
  unfold Value.localizeBy
  rw [hs]
  split
  · exact ⟨_, rfl⟩
  · exact ⟨_, rfl⟩

theorem fault_eq_nesting_iff {d : DecodeError} : d.fault = .nesting ↔ IsNesting d := by
  unfold IsNesting
  cases d with
  | json source x => cases x <;> simp [DecodeError.fault, Fault.ofJson]
  | nesting => simp [DecodeError.fault]
  | refused data refusals => simp [DecodeError.fault]

theorem isEmptyContainer_iff {d : Data} : d.isEmptyContainer = true ↔ d = .arr [] ∨ d = .obj [] := by
  unfold Data.isEmptyContainer
  split <;> simp_all

theorem isEmptyReply_of_isEmpty {d : Data} (h : Data.ofJson raw = .ok d) (empty : IsEmpty d) :
    isEmptyReply raw = .ok true := by
  unfold isEmptyReply
  rw [h]
  rcases empty with rfl | rfl | rfl <;> rfl

theorem isEmptyReply_of_nesting (h : Data.ofJson raw = .error .nesting) : isEmptyReply raw = .error .nesting := by
  unfold isEmptyReply
  rw [h]

theorem isEmptyReply_of_other (shallow : Data.ofJson raw ≠ .error .nesting)
    (other : ∀ d, Data.ofJson raw = .ok d → ¬ IsEmpty d) : isEmptyReply raw = .ok false := by
  unfold isEmptyReply
  cases h : Data.ofJson raw with
  | error x => cases x <;> simp_all
  | ok d =>
    have full := other d h
    unfold IsEmpty at full
    cases d with
    | null => exact absurd (.inl rfl) full
    | _ =>
      dsimp only
      rw [Bool.eq_false_iff.2 (fun e => full (.inr (isEmptyContainer_iff.1 e)))]

/-- A reply that should not be there can be shown, unless it nests too deep. -/
theorem unexpectedText_of_shown {text : String} (h : Shown r w l raw text) :
    unexpectedText r (w.spellings l.sources) raw = .ok text := by
  unfold unexpectedText
  cases h with
  | value reads =>
    obtain ⟨v, hv, localized⟩ := reads
    rw [hv]
    simp only [Except.mapError, localized]
    rfl
  | @text d hd shallow =>
    have fault : d.fault ≠ .nesting := fun h => shallow (fault_eq_nesting_iff.1 h)
    rw [hd]
    simp only [Except.mapError]

theorem unexpectedText_of_nesting {spellings : Except Fault (List String)} {d : DecodeError}
    (hd : decode r.response r.isLenient raw = .error d) (nesting : IsNesting d) :
    unexpectedText r spellings raw = .error .nesting := by
  unfold unexpectedText
  rw [hd]
  simp only [Except.mapError, fault_eq_nesting_iff.2 nesting]

/-! ### Each verdict is the result -/

theorem resolve_of_silent (h : Silent w l) : resolve c r w l e = silence c w l := by
  unfold resolve
  rw [marked_of_lacks h.empty, marked_of_lacks h.results]
  rfl

theorem resolve_of_replied (h : Replied w l) :
    resolve c r w l e = (do judgeReply c r (w.spellings l.sources) e (← readReply c w l)) := by
  unfold resolve
  rw [marked_of_lacks h.lacks, marked_of_shows h.shows]
  rfl

theorem resolve_of_recorded (h : Recorded w l raw) :
    resolve c r w l e = judgeReply c r (w.spellings l.sources) e raw := by
  rw [resolve_of_replied h.toReplied, readReply_of_recorded h]
  rfl

/-- If a reply is expected, it is decoded and compared. -/
theorem judgeReply_of_some (some : e ≠ .nothing) (spellings : Except Fault (List String)) :
    judgeReply c r spellings e raw =
      match decode (e.shape r) (e.isLenient r) raw with
      | .ok v => do e.judge r c.testId (← (v.localizeBy spellings).mapError Failure.fault)
      | .error d =>
        match d.fault with
        | .nesting => throw (.fault .nesting)
        | _ => throw (.undecodable c.testId ("Results file -- " ++ d.message)) := by
  cases e with
  | nothing => exact absurd rfl some
  | _ => rfl

theorem judgeReply_of_reads {reply : Value} (some : e ≠ .nothing)
    (h : Reads w l (e.shape r) (e.isLenient r) raw reply) :
    judgeReply c r (w.spellings l.sources) e raw = e.judge r c.testId reply := by
  obtain ⟨v, hv, localized⟩ := h
  rw [judgeReply_of_some some, hv]
  dsimp only
  rw [localized]
  rfl

theorem judgeReply_of_undecodable {d : DecodeError} (some : e ≠ .nothing)
    (h : decode (e.shape r) (e.isLenient r) raw = .error d) (shallow : ¬ IsNesting d)
    (spellings : Except Fault (List String)) :
    judgeReply c r spellings e raw = .error (.undecodable c.testId ("Results file -- " ++ d.message)) := by
  have fault : d.fault ≠ .nesting := fun h => shallow (fault_eq_nesting_iff.1 h)
  rw [judgeReply_of_some some, h]
  simp only
  rfl

theorem judgeReply_of_nesting {d : DecodeError} (some : e ≠ .nothing)
    (h : decode (e.shape r) (e.isLenient r) raw = .error d) (nesting : IsNesting d)
    (spellings : Except Fault (List String)) :
    judgeReply c r spellings e raw = .error (.fault .nesting) := by
  rw [judgeReply_of_some some, h]
  simp only [fault_eq_nesting_iff.2 nesting]
  rfl

theorem Passes.resolve (h : Passes r w l e) : Outcome.resolve c r w l e = .ok () := by
  cases h with
  | noReply empty results none =>
    unfold Outcome.resolve
    rw [marked_of_shows empty, marked_of_lacks results, none]
    rfl
  | emptyReply recorded none hd empty =>
    rw [resolve_of_recorded recorded, none]
    unfold judgeReply
    rw [isEmptyReply_of_isEmpty hd empty]
    rfl
  | met recorded some reads met =>
    rw [resolve_of_recorded recorded, judgeReply_of_reads some reads, met.judge]

theorem Due.resolve {f : Failure} (h : Due c r w l e f) : Outcome.resolve c r w l e = .error f := by
  cases h with
  | bothMarkers empty results =>
    unfold Outcome.resolve
    rw [marked_of_shows empty, marked_of_shows results]
    rfl
  | expectedSome empty results some =>
    unfold Outcome.resolve
    rw [marked_of_shows empty, marked_of_lacks results]
    cases e with
    | nothing => exact absurd rfl some
    | _ => rfl
  | timeout silent shows =>
    rw [resolve_of_silent silent]
    unfold silence
    rw [marked_of_shows shows]
    rfl
  | editor silent lacks text ink =>
    rw [resolve_of_silent silent]
    unfold silence
    rw [marked_of_lacks lacks, text]
    simp only [Except.mapError, bind, Except.bind, ink]
    rfl
  | noResults silent lacks text blank =>
    rw [resolve_of_silent silent]
    unfold silence
    rw [marked_of_lacks lacks, text]
    simp only [Except.mapError, bind, Except.bind, blank]
    rfl
  | unreadable replied failed =>
    rw [resolve_of_replied replied]
    unfold readReply
    rw [failed]
    rfl
  | notUtf8 replied bytes _ flaw =>
    rw [resolve_of_replied replied]
    unfold readReply
    rw [bytes]
    dsimp only
    rw [flaw]
    rfl
  | expectedNone recorded none shallow other shown =>
    rw [resolve_of_recorded recorded, none]
    unfold judgeReply
    rw [isEmptyReply_of_other shallow other, unexpectedText_of_shown shown]
    rfl
  | undecodable recorded some failed shallow =>
    rw [resolve_of_recorded recorded]
    exact judgeReply_of_undecodable some failed shallow _
  | missed recorded some reads missed =>
    rw [resolve_of_recorded recorded, judgeReply_of_reads some reads, missed.judge]

theorem Derailed.resolve {x : Fault} (h : Derailed r w l e x) : Outcome.resolve c r w l e = .error (.fault x) := by
  cases h with
  | empty failed =>
    unfold Outcome.resolve
    rw [marked_of_error failed]
    rfl
  | @results b _ asked failed =>
    unfold Outcome.resolve
    have marked : marked w l .empty = .ok b := by
      unfold Outcome.marked
      rw [asked]
      rfl
    rw [marked, marked_of_error failed]
    rfl
  | timeout silent failed =>
    rw [resolve_of_silent silent]
    unfold silence
    rw [marked_of_error failed]
    rfl
  | error silent lacks failed =>
    rw [resolve_of_silent silent]
    unfold silence
    rw [marked_of_lacks lacks, failed]
    rfl
  | emptyReply recorded none nesting =>
    rw [resolve_of_recorded recorded, none]
    unfold judgeReply
    rw [isEmptyReply_of_nesting nesting]
    rfl
  | shown recorded none shallow other failed nesting =>
    rw [resolve_of_recorded recorded, none]
    unfold judgeReply
    rw [isEmptyReply_of_other shallow other, unexpectedText_of_nesting failed nesting]
    rfl
  | undecodable recorded some failed nesting =>
    rw [resolve_of_recorded recorded]
    exact judgeReply_of_nesting some failed nesting _
  | incomparable recorded some reads incomparable =>
    rw [resolve_of_recorded recorded, judgeReply_of_reads some reads, incomparable.judge]

/-! ### Some verdict in every state -/

/-- What a marker asks for: it is there, it is not there, or its path is longer than any file has. -/
theorem marker_cases (w : World) (l : Layout) (m : Marker) :
    Shows w l m ∨ Lacks w l m ∨ ∃ x, w.present (l.marker m) = .error x := by
  unfold Shows Lacks
  cases w.present (l.marker m) with
  | error x => exact .inr (.inr ⟨x, rfl⟩)
  | ok b => cases b <;> simp

/-- The verdict if there is no word of a reply. -/
theorem Silent.verdict (c : Case) (r : Request) (e : Expectation) (h : Silent w l) :
    (∃ f, Due c r w l e f) ∨ ∃ x, Derailed r w l e x := by
  rcases marker_cases w l .timeout with shows | lacks | ⟨x, failed⟩
  · exact .inl ⟨_, .timeout h shows⟩
  · cases text : Workspace.reportedError w l with
    | error x => exact .inr ⟨x, .error h lacks text⟩
    | ok t =>
      cases ink : Text.hasInk t with
      | true => exact .inl ⟨_, .editor h lacks text ink⟩
      | false => exact .inl ⟨_, .noResults h lacks text ink⟩
  · exact .inr ⟨_, .timeout h failed⟩

/-- The verdict on a text if no reply is expected. -/
theorem Recorded.verdict_nothing (c : Case) (r : Request) (h : Recorded w l raw) :
    Passes r w l .nothing ∨ (∃ f, Due c r w l .nothing f) ∨ ∃ x, Derailed r w l .nothing x := by
  by_cases nesting : Data.ofJson raw = .error .nesting
  · exact .inr (.inr ⟨_, .emptyReply h rfl nesting⟩)
  · by_cases empty : ∃ d, Data.ofJson raw = .ok d ∧ IsEmpty d
    · obtain ⟨d, hd, empty⟩ := empty
      exact .inl (.emptyReply h rfl hd empty)
    · have other : ∀ d, Data.ofJson raw = .ok d → ¬ IsEmpty d := fun d hd empty' => empty ⟨d, hd, empty'⟩
      cases decoded : decode r.response r.isLenient raw with
      | ok v =>
        obtain ⟨reply, localized⟩ := localizeBy_of_shows h.shows v
        exact .inr (.inl ⟨_, .expectedNone h rfl nesting other (.value ⟨v, decoded, localized⟩)⟩)
      | error d =>
        by_cases deep : IsNesting d
        · exact .inr (.inr ⟨_, .shown h rfl nesting other decoded deep⟩)
        · exact .inr (.inl ⟨_, .expectedNone h rfl nesting other (.text decoded deep)⟩)

/-- The verdict on a text if a reply is expected. -/
theorem Recorded.verdict_some (c : Case) (r : Request) (h : Recorded w l raw) (some : e ≠ .nothing) :
    Passes r w l e ∨ (∃ f, Due c r w l e f) ∨ ∃ x, Derailed r w l e x := by
  cases decoded : decode (e.shape r) (e.isLenient r) raw with
  | error d =>
    by_cases deep : IsNesting d
    · exact .inr (.inr ⟨_, .undecodable h some decoded deep⟩)
    · exact .inr (.inl ⟨_, .undecodable h some decoded deep⟩)
  | ok v =>
    obtain ⟨reply, localized⟩ := localizeBy_of_shows h.shows v
    have reads : Reads w l (e.shape r) (e.isLenient r) raw reply := ⟨v, decoded, localized⟩
    rcases Expectation.comparison r c.testId e reply with met | ⟨f, missed⟩ | ⟨x, incomparable⟩
    · exact .inl (.met h some reads met)
    · exact .inr (.inl ⟨f, .missed h some reads missed⟩)
    · exact .inr (.inr ⟨x, .incomparable h some reads incomparable⟩)

/-- The verdict if a reply has been recorded. -/
theorem Replied.verdict (c : Case) (r : Request) (e : Expectation) (h : Replied w l) :
    Passes r w l e ∨ (∃ f, Due c r w l e f) ∨ ∃ x, Derailed r w l e x := by
  cases fetched : w.fetch (l.marker .results) with
  | error x => exact .inr (.inl ⟨_, .unreadable h fetched⟩)
  | ok bytes =>
    by_cases text : ∃ raw, bytes = textBytes raw
    · obtain ⟨raw, rfl⟩ := text
      have recorded : Recorded w l raw := ⟨h, fetched⟩
      by_cases none : e = .nothing
      · subst none
        exact recorded.verdict_nothing c r
      · exact recorded.verdict_some c r none
    · cases flaw : Utf8.decode (byteValues bytes) with
      | ok raw => exact absurd ⟨raw, Utf8.decode_eq_ok_iff.1 flaw⟩ text
      | error f => exact .inr (.inl ⟨_, .notUtf8 h fetched (fun raw h => text ⟨raw, h⟩) flaw⟩)

/-- In every state the trial passes, a failure is due, or the harness is derailed. -/
theorem verdict (c : Case) (r : Request) (w : World) (l : Layout) (e : Expectation) :
    Passes r w l e ∨ (∃ f, Due c r w l e f) ∨ ∃ x, Derailed r w l e x := by
  rcases marker_cases w l .empty with empty | empty | ⟨x, failed⟩
  · rcases marker_cases w l .results with results | results | ⟨x, failed⟩
    · exact .inr (.inl ⟨_, .bothMarkers empty results⟩)
    · by_cases none : e = .nothing
      · exact .inl (.noReply empty results none)
      · exact .inr (.inl ⟨_, .expectedSome empty results none⟩)
    · exact .inr (.inr ⟨_, .results empty failed⟩)
  · rcases marker_cases w l .results with results | results | ⟨x, failed⟩
    · exact Replied.verdict c r e ⟨empty, results⟩
    · exact .inr (Silent.verdict c r e ⟨empty, results⟩)
    · exact .inr (.inr ⟨_, .results empty failed⟩)
  · exact .inr (.inr ⟨_, .empty failed⟩)

end Outcome

theorem World.walk_into {w : World} {p q : Place} {name : String} {rest : List String}
    (directory : w.at? p = some .directory) (down : name ≠ "..") (short : ¬ name.utf8ByteSize > nameLimit)
    (next : w.follow (p ++ [name]) = q) : w.walk p (name :: rest) = w.walk q rest := by
  rw [walk, directory]
  dsimp only
  rw [if_neg down, if_neg short, next]

/-- The layout of a test. -/
def Layout.sole : Layout := ⟨"1", ⟨.slash, ["tmp"]⟩⟩

/-- A world with nothing but the workspace of a test, and in it the bytes of a reply. -/
def World.sole (bytes : List UInt8) : World where
  nodes :=
    [(["tmp"], .directory), (["tmp", harnessDirectory], .directory), (["tmp", harnessDirectory, "1"], .directory),
      (["tmp", harnessDirectory, "1", "results.json"], .file bytes false)]
  environment := []
  current := []
  temporary := ⟨.slash, ["tmp"]⟩
  nextId := "1"

theorem World.locate_sole (bytes : List UInt8) (m : Marker) :
    (sole bytes).locate (Layout.sole.marker m) = .ok ["tmp", harnessDirectory, "1", m.fileName] := by
  have path : Layout.sole.marker m = ⟨.slash, ["tmp", harnessDirectory, "1", m.fileName]⟩ := by cases m <;> decide
  have start : (sole bytes).start ⟨.slash, ["tmp", harnessDirectory, "1", m.fileName]⟩ = [] := rfl
  rw [path, locate, if_neg (by cases m <;> decide), start,
    walk_into (q := ["tmp"]) rfl (by decide) (by decide) rfl,
    walk_into (q := ["tmp", harnessDirectory]) rfl (by decide) (by decide) rfl,
    walk_into (q := ["tmp", harnessDirectory, "1"]) rfl (by decide) (by decide) rfl,
    walk_into (q := ["tmp", harnessDirectory, "1", m.fileName]) rfl (by cases m <;> decide) (by cases m <;> decide)
      (by cases m <;> rfl)]
  rfl

namespace Outcome

theorem recorded_sole (raw : String) : Recorded (.sole (textBytes raw)) .sole raw := by
  refine ⟨⟨?_, ?_⟩, ?_⟩
  · unfold Lacks World.present World.probe
    rw [if_neg (by decide), World.locate_sole]
    rfl
  · unfold Shows World.present World.probe
    rw [if_neg (by decide), World.locate_sole]
    rfl
  · unfold World.fetch
    rw [World.locate_sole]
    rfl

end Outcome

end ServerTrial
