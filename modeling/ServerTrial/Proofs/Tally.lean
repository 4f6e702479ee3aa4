import Mathlib.Data.List.Basic
import ServerTrial.CommandLine.Perform
import ServerTrial.Proofs.Results

/-!
# Several case files

* `CommandLine.Row`: the trials of one file after the other, up to the last that is run;
* `CommandLine.row_runFiles`: one file, and by induction all, are run in the sessions that those before them leave;
* `CommandLine.run_exact`: what is printed for each file, what is counted, and the status; files behind the last that
  was run count as passed, so the count is that of the lines exactly if there are none.
-/

namespace ServerTrial.CommandLine

/-- A file with the outcome of its trial. -/
abbrev Verdict := String × Except Failure Unit

/-- The trial of one file. -/
def runFile (e : Editor) (typed : String) (s : Session) : Except Failure Unit × Session :=
  match CaseFile.load s.world (Path.ofString typed) with
  | .ok f => (f.run e).runIn s
  | .error f => (.error f, s)

/-- Is no further file run after this outcome? -/
def isLast (exitFirst : Bool) : Except Failure Unit → Bool
  | .ok _ => false
  | .error f => !f.isReport || exitFirst

/-- The trials of files from a session on: the verdicts up to the last file that is run, and the session then. -/
inductive Row (exitFirst : Bool) (e : Editor) : List String → Session → List Verdict → Session → Prop
  | done (s : Session) : Row exitFirst e [] s [] s
  | last {typed : String} {rest : List String} {s s' : Session} {outcome : Except Failure Unit} :
      runFile e typed s = (outcome, s') → isLast exitFirst outcome = true →
      Row exitFirst e (typed :: rest) s [(typed, outcome)] s'
  | next {typed : String} {rest : List String} {s s' s'' : Session} {outcome : Except Failure Unit}
      {others : List Verdict} :
      runFile e typed s = (outcome, s') → isLast exitFirst outcome = false → Row exitFirst e rest s' others s'' →
      Row exitFirst e (typed :: rest) s ((typed, outcome) :: others) s''

variable {exitFirst : Bool} {e : Editor} {files : List String} {s s' : Session} {verdicts : List Verdict}

/-! ### One file after the other -/

theorem runFiles_step (typed : String) (rest : List String) (s : Session) :
    runFiles exitFirst e (typed :: rest) s =
      if isLast exitFirst (runFile e typed s).1 then ([(typed, (runFile e typed s).1)], (runFile e typed s).2)
      else
        ((typed, (runFile e typed s).1) :: (runFiles exitFirst e rest (runFile e typed s).2).1,
          (runFiles exitFirst e rest (runFile e typed s).2).2) := by
  rw [runFiles]
  change (if (match (runFile e typed s).1 with | .ok _ => true | .error f => f.isReport && !exitFirst) then _ else _) = _
  have goesOn : (match (runFile e typed s).1 with | .ok _ => true | .error f => f.isReport && !exitFirst) =
      !isLast exitFirst (runFile e typed s).1 := by
    cases (runFile e typed s).1 with
    | ok _ => rfl
    | error f => rw [isLast, Bool.not_or, Bool.not_not]
  rw [goesOn]
  cases isLast exitFirst (runFile e typed s).1 <;> rfl

/-- Files are run as a row. -/
theorem row_runFiles (files : List String) (s : Session) :
    Row exitFirst e files s (runFiles exitFirst e files s).1 (runFiles exitFirst e files s).2 := by
  induction files generalizing s with
  | nil => exact .done s
  | cons typed rest ih =>
    rw [runFiles_step]
    cases last : isLast exitFirst (runFile e typed s).1 with
    | true => exact .last rfl last
    | false => exact .next rfl last (ih _)

namespace Row

/-- The verdicts are on the first files, in order. -/
theorem names (row : Row exitFirst e files s verdicts s') :
    verdicts.map Prod.fst = files.take verdicts.length := by
  induction row with
  | done => rfl
  | last => rfl
  | next _ _ _ ih => rw [List.map_cons, List.length_cons, List.take_succ_cons, ih]

theorem length_le (row : Row exitFirst e files s verdicts s') : verdicts.length ≤ files.length := by
  rw [← List.length_map (f := Prod.fst), row.names, List.length_take]
  exact Nat.min_le_right ..

/-- Only the last outcome may be one after which no file is run, and it is one if files are left. -/
theorem stops (row : Row exitFirst e files s verdicts s') :
    (∀ v ∈ verdicts.dropLast, isLast exitFirst v.2 = false) ∧
    (verdicts.length < files.length → ∃ v ∈ verdicts.getLast?, isLast exitFirst v.2 = true) := by
  induction row with
  | done => exact ⟨fun v hv => (List.not_mem_nil hv).elim, fun less => (Nat.lt_irrefl 0 less).elim⟩
  | last _ last => exact ⟨fun v hv => (List.not_mem_nil hv).elim, fun _ => ⟨_, rfl, last⟩⟩
  | @next typed _ _ _ _ outcome others _ goesOn _ ih =>
    cases others with
    | nil =>
      refine ⟨fun v hv => (List.not_mem_nil hv).elim, fun less => ?_⟩
      obtain ⟨v, final, -⟩ := ih.2 (Nat.lt_of_succ_lt_succ less)
      exact absurd final (by simp)
    | cons other others =>
      refine ⟨fun v hv => ?_, fun less => ?_⟩
      · obtain rfl | hv := List.mem_cons.1 hv
        · exact goesOn
        · exact ih.1 v hv
      · rw [List.getLast?_cons_cons]
        exact ih.2 (Nat.lt_of_succ_lt_succ less)

end Row

/-! ### What is printed -/

/-- The line below the verdicts. -/
def summary (passed failed : ℕ) : String := "\n" ++ toString passed ++ " passed, " ++ toString failed ++ " failed\n"

theorem summary_inj {a b failed : ℕ} : summary a failed = summary b failed ↔ a = b := by
  refine ⟨fun same => ?_, fun same => by rw [same]⟩
  unfold summary at same
  rw [String.append_left_inj, String.append_left_inj, String.append_left_inj, String.append_right_inj] at same
  have digits : Nat.toDigits 10 a = Nat.toDigits 10 b := by
    rw [← Nat.toList_repr, ← Nat.toList_repr]
    exact congrArg String.toList same
  rw [← Nat.ofDigitChars_ten_toDigits (n := a), digits, Nat.ofDigitChars_ten_toDigits]

/-- What an outcome that is no fault is, and what is printed for it. -/
theorem foreseen_cases {v : Verdict} (foreseen : fault? v.2 = none) :
    (v.2 = .ok () ∧ verdictText v = Colour.green.paint "ok" ++ " " ++ v.1 ++ "\n") ∨
    ∃ f, v.2 = .error f ∧ f.isReport = true ∧
      verdictText v = Colour.red.paint "FAIL" ++ " " ++ v.1 ++ "\n" ++ f.message ++ "\n" := by
  obtain ⟨typed, outcome⟩ := v
  cases outcome with
  | ok _ => exact .inl ⟨rfl, rfl⟩
  | error f =>
    cases report : f.isReport with
    | false =>
      rw [fault?, report] at foreseen
      cases foreseen
    | true => exact .inr ⟨f, rfl, report, if_pos report⟩

theorem isOk_eq (v : Verdict) (foreseen : fault? v.2 = none) : v.2.isOk = !isFailure v.2 := by
  obtain ⟨passed, -⟩ | ⟨f, failed, report, -⟩ := foreseen_cases foreseen
  · rw [passed]
    rfl
  · rw [failed, isFailure, report]
    rfl

theorem isLast_eq (v : Verdict) (foreseen : fault? v.2 = none) :
    isLast exitFirst v.2 = (isFailure v.2 && exitFirst) := by
  obtain ⟨passed, -⟩ | ⟨f, failed, report, -⟩ := foreseen_cases foreseen
  · rw [passed]
    rfl
  · rw [failed, isLast, isFailure, report]
    rfl

/-- Files are left only behind the one that failed, if no other is to be run then. -/
theorem Row.of_lt (row : Row exitFirst e files s verdicts s') (foreseen : ∀ v ∈ verdicts, fault? v.2 = none)
    (less : verdicts.length < files.length) :
    exitFirst = true ∧ (verdicts.countP fun v => isFailure v.2) = 1 ∧
      ∃ v ∈ verdicts.getLast?, isFailure v.2 = true := by
  obtain ⟨v, final, last⟩ := row.stops.2 less
  have split : verdicts.dropLast ++ [v] = verdicts := List.dropLast_append_getLast? v final
  rw [isLast_eq v (foreseen v (List.mem_of_getLast? final)), Bool.and_eq_true] at last
  refine ⟨last.2, ?_, v, final, last.1⟩
  have before : (verdicts.dropLast.countP fun v => isFailure v.2) = 0 := by
    refine List.countP_eq_zero.2 fun w hw failed => ?_
    have goesOn := row.stops.1 w hw
    rw [isLast_eq w (foreseen w (List.dropLast_subset _ hw)), failed, last.2] at goesOn
    cases goesOn
  rw [← split, List.countP_append, before, List.countP_singleton, if_pos last.1]

/-- Each verdict is counted once. -/
theorem passed_add_failed (foreseen : ∀ v ∈ verdicts, fault? v.2 = none) :
    (verdicts.countP fun v => v.2.isOk) + (verdicts.countP fun v => isFailure v.2) = verdicts.length := by
  rw [List.length_eq_countP_add_countP (fun v => isFailure v.2), Nat.add_comm]
  congr 1
  refine List.countP_congr fun v hv => ?_
  rw [isOk_eq v (foreseen v hv)]
  simp

theorem runAnswer_foreseen (n : ℕ) (foreseen : ∀ v ∈ verdicts, fault? v.2 = none) :
    runAnswer n verdicts =
      ⟨String.join (verdicts.map verdictText) ++ tallyText n (verdicts.countP fun v => isFailure v.2), "",
        if (verdicts.countP fun v => isFailure v.2) = 0 then 0 else 1, none⟩ := by
  have none : verdicts.findSome? (fun v => fault? v.2) = none := List.findSome?_eq_none_iff.2 foreseen
  unfold runAnswer
  rw [none]

theorem run_checked {g : Grammar} {scan : Scan} (given : scan.arguments ≠ [])
    (found : ∀ typed ∈ scan.arguments, checkFile s.world true "CASE_FILES..." typed = .ok ()) :
    run g scan e s =
      (runAnswer scan.arguments.length (runFiles (scan.has Command.exitFirst.key) e scan.arguments s).1,
        (runFiles (scan.has Command.exitFirst.key) e scan.arguments s).2) := by
  have nonempty : scan.arguments.isEmpty = false := List.isEmpty_eq_false_iff.2 given
  unfold run
  rw [nonempty]
  dsimp only
  rw [if_neg Bool.false_ne_true, forM_of_ok found]

/-- **The verdict on several files is exact.**  Files are run in order, each in the session that those before it leave,
up to the last or, if asked for, up to the first that fails; each that is run has its line, and the status tells whether
one has failed.  The summary counts the files that failed and all others, so it is that of the lines exactly if all
files were run. -/
theorem run_exact (g : Grammar) (scan : Scan) (e : Editor) (s : Session) (given : scan.arguments ≠ [])
    (found : ∀ typed ∈ scan.arguments, checkFile s.world true "CASE_FILES..." typed = .ok ())
    (foreseen : ∀ v ∈ (runFiles (scan.has Command.exitFirst.key) e scan.arguments s).1, fault? v.2 = none) :
    let files := scan.arguments
    let exitFirst := scan.has Command.exitFirst.key
    let verdicts := (runFiles exitFirst e files s).1
    let passed := verdicts.countP fun v => v.2.isOk
    let failed := verdicts.countP fun v => isFailure v.2
    let lines := String.join (verdicts.map verdictText)
    let a := (run g scan e s).1
    Row exitFirst e files s verdicts (run g scan e s).2 ∧
    verdicts.map Prod.fst = files.take verdicts.length ∧
    (∀ v ∈ verdicts, (v.2 = .ok () ∧ verdictText v = Colour.green.paint "ok" ++ " " ++ v.1 ++ "\n") ∨
      ∃ f, v.2 = .error f ∧ f.isReport = true ∧
        verdictText v = Colour.red.paint "FAIL" ++ " " ++ v.1 ++ "\n" ++ f.message ++ "\n") ∧
    (verdicts.length < files.length → exitFirst = true ∧ failed = 1 ∧ ∃ v ∈ verdicts.getLast?, isFailure v.2 = true) ∧
    a.output = lines ++
      (if 1 < files.length then summary (passed + (files.length - verdicts.length)) failed else "") ∧
    (1 < files.length → (a.output = lines ++ summary passed failed ↔ verdicts.length = files.length)) ∧
    a.errors = "" ∧ a.fault = none ∧
    ((∃ v ∈ verdicts, isFailure v.2 = true) ∧ a.status = 1 ∨ (∀ v ∈ verdicts, isFailure v.2 = false) ∧ a.status = 0) := by
  intro files exitFirst verdicts passed failed lines a
  have ran : run g scan e s = (runAnswer files.length verdicts, (runFiles exitFirst e files s).2) :=
    run_checked given found
  have answer : a = _ := (congrArg Prod.fst ran).trans (runAnswer_foreseen files.length foreseen)
  have row : Row exitFirst e files s verdicts (run g scan e s).2 := by
    rw [ran]
    exact row_runFiles files s
  have counted : passed + failed = verdicts.length := passed_add_failed foreseen
  have output : a.output = lines ++
      (if 1 < files.length then summary (passed + (files.length - verdicts.length)) failed else "") := by
    have others : files.length - failed = passed + (files.length - verdicts.length) := by
      have bound := row.length_le
      omega
    rw [answer, ← others]
    rfl
  refine ⟨row, row.names, fun v hv => foreseen_cases (foreseen v hv), row.of_lt foreseen, output, fun several => ?_,
    ?_, ?_, ?_⟩
  · rw [output, if_pos several, String.append_right_inj, summary_inj]
    have bound := row.length_le
    omega
  · rw [answer]
  · rw [answer]
  · rw [answer]
    by_cases clean : failed = 0
    · exact .inr ⟨fun v hv => Bool.eq_false_iff.2 (List.countP_eq_zero.1 clean v hv), if_pos clean⟩
    · exact .inl ⟨List.countP_pos_iff.1 (Nat.pos_of_ne_zero clean), if_neg clean⟩

/-- Empty files. -/
def emptyFiles : World := ⟨[(["a"], .file [] false), (["b"], .file [] false)], [], [], ⟨.slash, ["t"]⟩, "1"⟩

theorem checkFile_emptyFiles : ∀ typed ∈ ["/a", "/b"], checkFile emptyFiles true "CASE_FILES..." typed = .ok () := by
  exact List.forall_mem_cons.2 ⟨rfl, List.forall_mem_singleton.2 rfl⟩

theorem runFile_emptyFiles (e : Editor) :
    ∀ typed ∈ ["/a", "/b"], runFile e typed (.ofWorld emptyFiles) =
      (.error (.caseFile typed "missing `kind`"), .ofWorld emptyFiles) :=
  List.forall_mem_cons.2 ⟨rfl, List.forall_mem_singleton.2 rfl⟩

theorem runFiles_emptyFiles (exitFirst : Bool) (e : Editor) :
    runFiles exitFirst e ["/a", "/b"] (.ofWorld emptyFiles) =
      (("/a", .error (.caseFile "/a" "missing `kind`")) ::
        if exitFirst then [] else [("/b", .error (.caseFile "/b" "missing `kind`"))], .ofWorld emptyFiles) := by
  obtain ⟨first, second⟩ := List.forall_mem_cons.1 (runFile_emptyFiles e)
  rw [runFiles_step, first, runFiles_step, List.forall_mem_singleton.1 second]
  cases exitFirst <;> rfl

theorem foreseen_emptyFiles (exitFirst : Bool) (e : Editor) :
    ∀ v ∈ (runFiles exitFirst e ["/a", "/b"] (.ofWorld emptyFiles)).1, fault? v.2 = none := by
  rw [runFiles_emptyFiles]
  refine List.forall_mem_cons.2 ⟨rfl, ?_⟩
  cases exitFirst with
  | true => exact List.forall_mem_nil _
  | false => exact List.forall_mem_singleton.2 rfl

/-- Two files fail, and two are counted. -/
theorem run_exact_empty :
    let s := Session.ofWorld emptyFiles
    let scan : Scan := ⟨[], ["/a", "/b"]⟩
    let e : Editor := ⟨none, none, []⟩
    let verdicts : List Verdict :=
      [("/a", .error (.caseFile "/a" "missing `kind`")), ("/b", .error (.caseFile "/b" "missing `kind`"))]
    let a := (run Command.run.grammar scan e s).1
    scan.arguments ≠ [] ∧ (∀ typed ∈ scan.arguments, checkFile s.world true "CASE_FILES..." typed = .ok ()) ∧
      (∀ v ∈ (runFiles (scan.has Command.exitFirst.key) e scan.arguments s).1, fault? v.2 = none) ∧
      (runFiles (scan.has Command.exitFirst.key) e scan.arguments s).1 = verdicts ∧
      a.output = String.join (verdicts.map verdictText) ++ summary 0 2 ∧ a.status = 1 := by
  intro s scan e verdicts a
  have given : scan.arguments ≠ [] := List.cons_ne_nil _ _
  have foreseen := foreseen_emptyFiles false e
  have ran : (runFiles (scan.has Command.exitFirst.key) e scan.arguments s).1 = verdicts :=
    congrArg Prod.fst (runFiles_emptyFiles false e)
  obtain ⟨-, -, -, -, -, counted, -, -, status⟩ :=
    run_exact Command.run.grammar scan e s given checkFile_emptyFiles foreseen
  rw [ran] at counted status
  refine ⟨given, checkFile_emptyFiles, foreseen, ran, (counted (by decide)).2 rfl, ?_⟩
  obtain ⟨-, failed⟩ | ⟨clean, -⟩ := status
  · exact failed
  · cases clean _ List.mem_cons_self

/-- If the first one to fail is the last to be run, the other counts as passed. -/
theorem run_uncounted :
    let s := Session.ofWorld emptyFiles
    let scan : Scan := ⟨[(Command.exitFirst.key, "")], ["/a", "/b"]⟩
    let e : Editor := ⟨none, none, []⟩
    let verdicts : List Verdict := [("/a", .error (.caseFile "/a" "missing `kind`"))]
    let a := (run Command.run.grammar scan e s).1
    (runFiles (scan.has Command.exitFirst.key) e scan.arguments s).1 = verdicts ∧
      a.output = String.join (verdicts.map verdictText) ++ summary 1 1 ∧
      a.output ≠ String.join (verdicts.map verdictText) ++ summary 0 1 := by
  intro s scan e verdicts a
  have ran : runFiles (scan.has Command.exitFirst.key) e scan.arguments s = (verdicts, s) := runFiles_emptyFiles true e
  have output : a.output = String.join (verdicts.map verdictText) ++ summary 1 1 := by
    have answer : a = runAnswer 2 verdicts :=
      congrArg Prod.fst ((run_checked (List.cons_ne_nil _ _) checkFile_emptyFiles).trans (by rw [ran]))
    rw [answer]
    rfl
  refine ⟨congrArg Prod.fst ran, output, ?_⟩
  rw [output, ne_eq, String.append_right_inj, summary_inj]
  exact Nat.one_ne_zero

end ServerTrial.CommandLine
