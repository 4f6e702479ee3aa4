import Mathlib.Data.Fintype.EquivFin
import Mathlib.Order.Basic
import ServerTrial.Proofs.FloatBits
import ServerTrial.Proofs.SetupChecks

/-!
# Looking after editors

* `Watch.reading`: the clock after a number of pauses; `Watch.after n` the watch after `n` looks, each with a pause;
* `Watch.follow_after`: one turn of the loop, and by induction any number of them, before the deadline;
* `Watch.reading_injective`: a clock that gets to the deadline shows no float twice on its way, so there are enough looks
  (`Watch.timely_lt_looks`);
* `Trial.supervise_exact`: when an editor exits by itself or is stopped, what is then known of it, and what is reported.
-/

namespace ServerTrial

namespace Watch

variable {e : Editor} {deadline interval : Float} {k n : ℕ}

/-- What the clock shows after a number of pauses. -/
def reading (interval : Float) : ℕ → Float
  | 0 => 0
  | n + 1 => reading interval n + interval

/-- The clock gets to the deadline. -/
def Arrives (deadline interval : Float) : Prop := ∃ i, ¬ reading interval i < deadline

instance (deadline interval : Float) : DecidablePred fun i => ¬ reading interval i < deadline :=
  fun _ => inferInstanceAs (Decidable (¬ _))

/-- The number of readings before the first that has got to the deadline. -/
def timely (arrives : Arrives deadline interval) : ℕ := Nat.find arrives

/-- After `n` looks that have found the editor running, each with a pause behind it. -/
def after (interval : Float) (n : ℕ) : Watch := ⟨n, n, 0, 0, reading interval n⟩

/-! ### The loop -/

/-- Before the deadline a running editor is looked after again. -/
theorem follow_step (early : reading interval n < deadline) (runs : e.runsAt n = true) (fuel : ℕ) :
    follow e deadline interval (fuel + 1) (after interval n) =
      follow e deadline interval fuel (after interval (n + 1)) := by
  rw [follow]
  change (if reading interval n < deadline then if e.runsAt n then _ else _ else _) = _
  rw [if_pos early, if_pos runs]
  rfl

/-- So the loop goes on as long as it is early and the editor runs. -/
theorem follow_after (early : ∀ i < n, reading interval i < deadline) (runs : ∀ i < n, e.runsAt i = true) (fuel : ℕ) :
    follow e deadline interval (fuel + n) start = follow e deadline interval fuel (after interval n) := by
  induction n generalizing fuel with
  | zero => rfl
  | succ n ih =>
    rw [← Nat.succ_add_eq_add_succ, ih (fun i hi => early i (Nat.lt_succ_of_lt hi))
      fun i hi => runs i (Nat.lt_succ_of_lt hi)]
    exact follow_step (early n (Nat.lt_succ_self n)) (runs n (Nat.lt_succ_self n)) fuel

/-- An editor that has exited is not looked after any longer. -/
theorem follow_exited (exited : e.runsAt n = false) (fuel : ℕ) :
    follow e deadline interval fuel (after interval n) = (true, (after interval n).poll) := by
  cases fuel with
  | zero =>
    change (if e.runsAt n then _ else _) = _
    rw [exited]
    rfl
  | succ fuel =>
    change (if _ then if e.runsAt n then _ else _ else if e.runsAt n then _ else _) = _
    rw [exited]
    exact ite_self _

/-- When the time is up there is a last look, with or without looks to spare. -/
theorem follow_late (late : ¬ reading interval n < deadline) (fuel : ℕ) :
    follow e deadline interval fuel (after interval n) = finish e (after interval n) := by
  cases fuel with
  | zero => rfl
  | succ fuel =>
    change (if reading interval n < deadline then _ else _) = _
    rw [if_neg late]

/-! ### Enough looks -/

theorem early_of_lt_timely (arrives : Arrives deadline interval) {i : ℕ} (h : i < timely arrives) :
    reading interval i < deadline :=
  not_not.1 (Nat.find_min arrives h)

theorem late_timely (arrives : Arrives deadline interval) : ¬ reading interval (timely arrives) < deadline :=
  Nat.find_spec arrives

theorem reading_add {i j : ℕ} (same : reading interval i = reading interval j) (m : ℕ) :
    reading interval (i + m) = reading interval (j + m) := by
  induction m with
  | zero => exact same
  | succ m ih =>
    change reading interval (i + m) + interval = reading interval (j + m) + interval
    rw [ih]

/-- The readings up to the deadline are different.  If two of them were the same, those behind them would be, too, and
the first that has got to the deadline would come once more before it. -/
theorem reading_injective (arrives : Arrives deadline interval) :
    Function.Injective fun i : Fin (timely arrives + 1) => (reading interval i).toBits := by
  have lt_false : ∀ i j : ℕ, i < j → j ≤ timely arrives → reading interval i ≠ reading interval j := by
    intro i j less bound same
    have ends : reading interval (i + (timely arrives - j)) = reading interval (timely arrives) := by
      rw [reading_add same, Nat.add_sub_cancel' bound]
    have early := early_of_lt_timely arrives (i := i + (timely arrives - j)) (by omega)
    rw [ends] at early
    exact late_timely arrives early
  intro i j bits
  have same : reading interval i = reading interval j := by
    rw [← Real64.ofBits_toBits (reading interval i), ← Real64.ofBits_toBits (reading interval j)]
    exact congrArg Float.ofBits bits
  rcases lt_trichotomy i.val j.val with less | equal | more
  · exact absurd same (lt_false i j less (Nat.le_of_lt_succ j.isLt))
  · exact Fin.ext equal
  · exact absurd same.symm (lt_false j i more (Nat.le_of_lt_succ i.isLt))

theorem timely_lt_looks (arrives : Arrives deadline interval) : timely arrives < UInt64.size := by
  have card := Fintype.card_le_of_injective
    (fun i : Fin (timely arrives + 1) => (reading interval i).toBits.toBitVec.toFin)
    fun i j same => reading_injective arrives (UInt64.toBitVec_inj.1 (BitVec.toFin_inj.1 same))
  rw [Fintype.card_fin, Fintype.card_fin] at card
  exact card

/-! ### Whole runs -/

variable {timeout : Float}

theorem runsAt_of_lifetime (alive : e.lifetime = some n) (i : ℕ) : e.runsAt i = decide (i < n) := by
  rw [Editor.runsAt, alive]

theorem runsAt_of_lt (lasts : ∀ n, e.lifetime = some n → k < n) {i : ℕ} (h : i ≤ k) : e.runsAt i = true := by
  cases alive : e.lifetime with
  | none => rw [Editor.runsAt, alive]
  | some n =>
    rw [runsAt_of_lifetime alive]
    exact decide_eq_true (Nat.lt_of_le_of_lt h (lasts n alive))

/-- An editor that exits in time is seen to by the look behind those that have found it running. -/
theorem run_exited (arrives : Arrives (0 + timeout) interval) (alive : e.lifetime = some n)
    (inTime : n ≤ timely arrives) : run e timeout interval = (true, (after interval n).poll) := by
  have enough : enough e = 1 + n := by rw [enough, alive, Nat.add_comm]
  rw [run, enough, follow_after (fun i hi => early_of_lt_timely arrives (Nat.lt_of_lt_of_le hi inTime))
    fun i hi => by rw [runsAt_of_lifetime alive]; exact decide_eq_true hi]
  exact follow_exited (by rw [runsAt_of_lifetime alive]; exact decide_eq_false (Nat.lt_irrefl n)) 1

/-- One that does not is stopped after the last look, for which the time was up. -/
theorem run_stopped (arrives : Arrives (0 + timeout) interval)
    (lasts : ∀ n, e.lifetime = some n → timely arrives < n) :
    run e timeout interval = (false, (after interval (timely arrives)).poll.kill) := by
  obtain ⟨fuel, enough⟩ : ∃ fuel, enough e = fuel + timely arrives := by
    refine ⟨enough e - timely arrives, (Nat.sub_add_cancel ?_).symm⟩
    unfold enough
    cases alive : e.lifetime with
    | none => exact Nat.le_of_lt (timely_lt_looks arrives)
    | some n => exact Nat.le_succ_of_le (Nat.le_of_lt (lasts n alive))
  rw [run, enough, follow_after (fun i hi => early_of_lt_timely arrives hi)
    fun i hi => runsAt_of_lt lasts (Nat.le_of_lt hi), follow_late (late_timely arrives)]
  change (if e.runsAt (timely arrives) then _ else _) = _
  rw [if_pos (runsAt_of_lt lasts (Nat.le_refl _))]

end Watch

/-! ### Error reports -/

namespace Workspace

variable {w : World} {l : Layout}

/-- What reading the report comes to, by what stands in its place. -/
def reportOf : Option Node → Except Fault String
  | none => .ok ""
  | some (.file content _) => .ok (String.ofList (Utf8.unixLines (Utf8.decodeReplacing (byteValues content)).toList))
  | some _ => .error (.system .isDirectory)

theorem reportedError_eq {q : Place} (sound : World.flaw? (l.marker .error) = none)
    (found : w.locate (l.marker .error) = .ok q) : reportedError w l = reportOf (w.at? q) := by
  have probed : w.probe (l.marker .error) = .ok (w.at? q) := by
    rw [World.probe, sound, found]
    rfl
  unfold reportedError
  dsimp only
  rw [World.present, probed, World.fetch, found]
  dsimp only
  cases w.at? q with
  | none => rfl
  | some node => cases node <;> rfl

end Workspace

/-! ### Trials -/

/-- A slot that is taken and given back leaves all as it was. -/
theorem Slots.release_acquire {s : Slots} (free : (s.active : Int) < s.limit) : (s.acquire?.getD s).release = s := by
  rw [acquire?, if_pos free]
  rfl

namespace Trial

variable {c : Case} {l : Layout} {source : Path} {interval : Float} {e : Editor} {s : Session}

theorem runIn_modify_bind {α : Type} (f : Session → Session) (next : PUnit → Trial α) (s : Session) :
    (modify f >>= next).runIn s = (next ()).runIn (f s) := rfl

/-- An editor that does not start is neither looked after nor stopped. -/
theorem runIn_supervise_refused {text : String} (refused : e.refusal = some text) :
    (supervise c l source interval e).runIn s = (.error (.editor c.testId text),
      { s with
        slots := (s.slots.acquire?.getD s.slots).release
        editorRun := some ⟨editorCommand c l source, Watch.start⟩ }) := by
  unfold supervise
  rw [refused]
  rfl

/-- How the trial goes on once the editor has exited by itself or been stopped. -/
theorem runIn_supervise_started (starts : e.refusal = none) :
    (supervise c l source interval e).runIn s =
      (if (Watch.run e c.timeout interval).1 then .ok ()
        else
          match Workspace.reportedError (e.leaves.foldl (leave l) s.world) l with
          | .error x => .error (.fault x)
          | .ok error =>
            .error (if Text.hasInk error then .editor c.testId error else .timeout c.testId c.timeout),
        { s with
          world := e.leaves.foldl (leave l) s.world
          slots := (s.slots.acquire?.getD s.slots).release
          editorRun := some ⟨editorCommand c l source, (Watch.run e c.timeout interval).2⟩ }) := by
  unfold supervise enter exit
  rw [starts]
  dsimp only
  rw [runIn_modify_bind, runIn_modify_bind, runIn_modify_bind]
  cases (Watch.run e c.timeout interval).1 with
  | true => rfl
  | false =>
    rw [Bool.not_false, if_pos rfl, if_neg Bool.false_ne_true, runIn_world_bind]
    dsimp only
    unfold ofFault
    rw [runIn_ofExcept_bind]
    cases Workspace.reportedError (e.leaves.foldl (leave l) s.world) l with
    | error x => rfl
    | ok error =>
      dsimp only [Except.mapError]
      cases Text.hasInk error <;> rfl

/-- **Looking after an editor is exact.**  One that cannot be started is reported with the reason, without a look.  One
that has exited by a look before the deadline or by the one behind it is left alone, with as many pauses as looks have
found it running.  Any other is stopped once, with a last look after the first reading that has got to the deadline;
what its script has reported comes before the timeout, and a fault only if that cannot be read.  The slot is always
given back. -/
theorem supervise_exact (c : Case) (l : Layout) (source : Path) (interval : Float) (e : Editor) (s : Session)
    (free : (s.slots.active : Int) < s.slots.limit) (arrives : Watch.Arrives (0 + c.timeout) interval) :
    let k := Watch.timely arrives
    let command := editorCommand c l source
    let ended := (supervise c l source interval e).runIn s
    ended.2.slots = s.slots ∧
    (∀ text, e.refusal = some text →
      ended.1 = .error (.editor c.testId text) ∧ ended.2.editorRun = some ⟨command, ⟨0, 0, 0, 0, 0⟩⟩) ∧
    (e.refusal = none → ∀ n, e.lifetime = some n → n ≤ k →
      ended.1 = .ok () ∧ ended.2.editorRun = some ⟨command, ⟨n + 1, n, 0, 0, Watch.reading interval n⟩⟩) ∧
    (e.refusal = none → (∀ n, e.lifetime = some n → k < n) →
      ended.2.editorRun = some ⟨command, ⟨k + 1, k, 1, 1, Watch.reading interval k⟩⟩ ∧
      (∀ error, Workspace.reportedError ended.2.world l = .ok error →
        ended.1 = .error (if Text.hasInk error then .editor c.testId error else .timeout c.testId c.timeout)) ∧
      ∀ x, Workspace.reportedError ended.2.world l = .error x → ended.1 = .error (.fault x)) := by
  intro k command ended
  have started (starts : e.refusal = none) : ended = _ := runIn_supervise_started starts
  have refused {text : String} (refusal : e.refusal = some text) : ended = _ := runIn_supervise_refused refusal
  refine ⟨?_, fun text refusal => ?_, fun starts n alive inTime => ?_, fun starts lasts => ?_⟩
  · cases refusal : e.refusal with
    | some text => rw [refused refusal, Slots.release_acquire free]
    | none => rw [started refusal, Slots.release_acquire free]
  · rw [refused refusal]
    exact ⟨rfl, rfl⟩
  · rw [started starts, Watch.run_exited arrives alive inTime]
    exact ⟨rfl, rfl⟩
  · rw [started starts, Watch.run_stopped arrives lasts]
    refine ⟨rfl, fun error read => ?_, fun x unread => ?_⟩
    · dsimp only at read ⊢
      rw [read]
      rfl
    · dsimp only at unread ⊢
      rw [unread]
      rfl

/-- An editor that never exits. -/
def stuck : Editor := ⟨none, none, []⟩

/-- A workspace with something in place of the error report. -/
def reportWorld (n : Node) : World :=
  ⟨[(["t"], .directory), (["t", "lspresso-shot"], .directory), (["t", "lspresso-shot", "1"], .directory),
    (["t", "lspresso-shot", "1", "error.txt"], n)], [], [], ⟨.slash, ["t"]⟩, "1"⟩

theorem timely_half (arrives : Watch.Arrives (0 + tidyCase.timeout) 0.5) : Watch.timely arrives = 2 :=
  (Nat.find_eq_iff arrives).2 ⟨by decide +kernel, fun i hi => by interval_cases i <;> decide +kernel⟩

theorem reportedError_reportWorld {n : Node} (plain : ∀ target, n ≠ .link target) :
    Workspace.reportedError (reportWorld n) (tidyCase.layout (reportWorld n)) = Workspace.reportOf (some n) := by
  have place : (tidyCase.layout (reportWorld n)).marker .error =
      ⟨.slash, ["t", "lspresso-shot", "1", "error.txt"]⟩ :=
    show Layout.marker ⟨"1", ⟨.slash, ["t"]⟩⟩ .error = _ by decide
  have found : (reportWorld n).locate ⟨.slash, ["t", "lspresso-shot", "1", "error.txt"]⟩ =
      .ok ["t", "lspresso-shot", "1", "error.txt"] := by
    cases n with
    | link target => exact absurd rfl (plain target)
    | _ => rfl
  exact Workspace.reportedError_eq (by rw [place]; decide) (by rw [place]; exact found)

/-- It is stopped at the deadline, and what its script has reported is shown. -/
theorem supervise_exact_stuck :
    let s := Session.ofWorld (reportWorld (.file [98, 97, 100] false))
    let l := tidyCase.layout s.world
    let source : Path := ⟨.slash, ["t", "lspresso-shot", "1", "src", "a.b"]⟩
    let ended := (supervise tidyCase l source 0.5 stuck).runIn s
    (s.slots.active : Int) < s.slots.limit ∧ Watch.Arrives (0 + tidyCase.timeout) 0.5 ∧ ended.2.slots = s.slots ∧
      ended.1 = .error (.editor "1" "bad") ∧
      ended.2.editorRun = some ⟨editorCommand tidyCase l source, ⟨3, 2, 1, 1, Watch.reading 0.5 2⟩⟩ := by
  intro s l source ended
  have free : (s.slots.active : Int) < s.slots.limit := by decide
  have arrives : Watch.Arrives (0 + tidyCase.timeout) 0.5 := ⟨2, by decide +kernel⟩
  obtain ⟨slots, -, -, stopped⟩ := supervise_exact tidyCase l source 0.5 stuck s free arrives
  rw [timely_half arrives] at stopped
  obtain ⟨watched, reported, -⟩ := stopped rfl fun n alive => by cases alive
  have world : ended.2.world = s.world := by
    unfold ended
    rw [runIn_supervise_started rfl]
    rfl
  have read : Workspace.reportedError s.world l = .ok "bad" :=
    (reportedError_reportWorld fun _ => Node.noConfusion).trans (congrArg Except.ok (by decide))
  rw [← world] at read
  exact ⟨free, arrives, slots, reported "bad" read, watched⟩

/-- With a directory in place of the report it is stopped as well, but neither an error nor the timeout is reported. -/
theorem supervise_unread :
    let s := Session.ofWorld (reportWorld .directory)
    let l := tidyCase.layout s.world
    let source : Path := ⟨.slash, ["t", "lspresso-shot", "1", "src", "a.b"]⟩
    ((supervise tidyCase l source 0.5 stuck).runIn s).1 = .error (.fault (.system .isDirectory)) := by
  intro s l source
  have arrives : Watch.Arrives (0 + tidyCase.timeout) 0.5 := ⟨2, by decide +kernel⟩
  have late : (Watch.run stuck tidyCase.timeout 0.5).1 = false := by
    rw [Watch.run_stopped arrives fun n alive => by cases alive]
  have unread : Workspace.reportedError (stuck.leaves.foldl (leave l) s.world) l = .error (.system .isDirectory) :=
    reportedError_reportWorld fun _ => Node.noConfusion
  have ended : ((supervise tidyCase l source 0.5 stuck).runIn s).1 = _ := congrArg Prod.fst (runIn_supervise_started rfl)
  rw [late, unread] at ended
  exact ended

end Trial

end ServerTrial
