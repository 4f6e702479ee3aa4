import ServerTrial.CommandLine.Perform
import ServerTrial.Proofs.Assembly

/-!
# Malformed case files

A case file is read part by part, and the first part that makes no sense decides.

* `CaseTable.Part.outcome`: what reading a part comes to; `CaseFile.ofEntries_eq_forM`: a file is its parts in order;
* `CaseTable.Ends path x bad`: `x` fails with a report on the file, or in exactly the faults that are `bad`;
* `CaseTable.Part.Crashes part f`: the data of a part are such that nobody foresaw them, and end in the fault `f`;
* `CaseTable.ends_outcome`: a part is read, reported, or crashes;
* `CaseFile.malformed`: hence a table is read, reported, or crashes at the first part that is not read, and running
  files goes on after a report only.
-/

namespace ServerTrial

namespace CaseTable

section Except

variable {ε α β : Type}

/-- What a result comes to if only success matters. -/
def settled (x : Except ε α) : Except ε Unit := x.map fun _ => ()

theorem settled_eq_error_iff {x : Except ε α} {e : ε} : settled x = .error e ↔ x = .error e := by
  cases x <;> simp [settled, Except.map]

end Except

/-! ### The parts of a file -/

/-- The parts of a case file.  The last ones are what a file leaves out, and what it expects and gives. -/
inductive Part where
  | required | kind | server | source | files | startup | cursor | editor | timeout | testId
  | defaultTimeout | defaultCleanup | defaultEditor
  | expectation | inputs | arguments
  deriving DecidableEq

/-- The order in which they are read. -/
def Part.all : List Part :=
  [required, kind, server, source, files, startup, cursor, editor, timeout, testId, defaultTimeout, defaultCleanup,
    defaultEditor, expectation, inputs, arguments]

section Parts

variable (w : World) (path : Path) (entries : List (String × Data))

/-- What a file has under a key. -/
def given (key : String) : Data := (Data.find? key entries).getD .null

/-- What depends on the request is read once the request is known. -/
def ofRequest (next : Request → Except Failure Unit) : Except Failure Unit :=
  match request path (given entries "kind") with
  | .ok r => next r
  | .error _ => .ok ()

/-- The inputs that a file gives. -/
def inputData : Data := (Data.find? "inputs" entries).getD (.obj [])

/-- Reads a part. -/
def Part.outcome : Part → Except Failure Unit
  | required =>
    match CaseFile.requiredKeys.find? fun key => (Data.find? key entries).isNone with
    | some key => wrong path ("missing `" ++ key ++ "`")
    | none => .ok ()
  | kind => settled (request path (given entries "kind"))
  | server => settled (orFault (command w path.parent (given entries "server")))
  | source => settled (ofTable path "[source]" (given entries "source"))
  | files => settled (others path ((Data.find? "files" entries).getD (.arr [])))
  | startup => settled (CaseTable.startup path (given entries "startup"))
  | cursor => settled ((Data.find? "cursor" entries).mapM (CaseTable.cursor path))
  | editor => settled ((Data.find? "editor" entries).mapM fun d => orFault (command w path.parent d))
  | timeout => settled ((Data.find? "timeout" entries).mapM (CaseTable.timeout path))
  | testId => settled ((Data.find? "test_id" entries).mapM fun d => orFault (d.written Data.plain))
  | defaultTimeout => if (Data.find? "timeout" entries).isSome then .ok () else settled (orFault w.defaultTimeout)
  | defaultCleanup => if (Data.find? "cleanup" entries).isSome then .ok () else settled (orFault w.defaultCleanup)
  | defaultEditor =>
    if (Data.find? "editor" entries).isSome then .ok ()
    else settled (orFault ((w.editorCommand none).bind (Data.written Data.plain)))
  | expectation => ofRequest path entries fun r =>
    settled (CaseTable.expectation path r (given entries "expect") entries)
  | inputs => ofRequest path entries fun r => settled (CaseTable.inputs path r (inputData entries))
  | arguments => ofRequest path entries fun r =>
    match CaseTable.inputs path r (inputData entries) with
    | .ok given =>
      match r.bind (given.map Prod.fst) with
      | .error e => wrong path ("bad [inputs] for " ++ r.slug ++ ": " ++ e.message)
      | .ok _ => .ok ()
    | .error _ => .ok ()

end Parts

/-! ### Reports and faults -/

/-- If `x` fails it reports on the file, or ends in one of the faults that are `bad`; in each of these it does end. -/
structure Ends {α : Type} (path : Path) (x : Except Failure α) (bad : Fault → Prop) : Prop where
  foreseen : ∀ e, x = .error e → (∃ detail, e = .caseFile path.toString detail) ∨ ∃ f, bad f ∧ e = .fault f
  crashes : ∀ f, bad f → x = .error (.fault f)

/-- A result that is no fault. -/
def Reports {α : Type} (path : Path) (x : Except Failure α) : Prop := Ends path x fun _ => False

section Ends

variable {α β : Type} {path : Path} {P Q : Fault → Prop}

theorem Ends.congr {x : Except Failure α} (h : Ends path x P) (same : ∀ f, P f ↔ Q f) : Ends path x Q := by
  rwa [← show P = Q from funext fun f => propext (same f)]

theorem Ends.settled {x : Except Failure α} (h : Ends path x P) : Ends path (settled x) P :=
  ⟨fun e he => h.foreseen e (settled_eq_error_iff.1 he), fun f hf => settled_eq_error_iff.2 (h.crashes f hf)⟩

theorem Ends.bind {x : Except Failure α} {g : α → Except Failure β} (first : Ends path x P)
    (later : ∀ a, x = .ok a → Ends path (g a) Q) :
    Ends path (x >>= g) fun f => P f ∨ (∃ a, x = .ok a) ∧ Q f := by
  cases x with
  | error e =>
    refine ⟨fun e' h => ?_, ?_⟩
    · obtain rfl : e = e' := Except.error.inj h
      exact (first.foreseen e rfl).imp_right fun ⟨f, hf, same⟩ => ⟨f, .inl hf, same⟩
    · rintro f (hf | ⟨⟨a, ha⟩, -⟩)
      · rw [first.crashes f hf]
        rfl
      · cases ha
  | ok a =>
    have rest := later a rfl
    refine ⟨fun e h => (rest.foreseen e h).imp_right fun ⟨f, hf, same⟩ => ⟨f, .inr ⟨⟨a, rfl⟩, hf⟩, same⟩, ?_⟩
    rintro f (hf | ⟨-, hf⟩)
    · exact nomatch first.crashes f hf
    · exact rest.crashes f hf

theorem Reports.bind {x : Except Failure α} {g : α → Except Failure β} (first : Reports path x)
    (later : ∀ a, x = .ok a → Reports path (g a)) : Reports path (x >>= g) :=
  (Ends.bind first later).congr fun f => by simp

end Ends

/-! ### What nobody foresaw -/

/-- Data that have no parts. -/
def isScalar : Data → Bool
  | .str _ | .arr _ | .obj _ => false
  | _ => true

/-- A path below the home directory of somebody else. -/
def IsForeign (p : Path) : Prop :=
  p.isAbsolute = false ∧ ∃ part rest, p.parts = part :: rest ∧ part ≠ "~" ∧ part.toList.head? = some '~'

/-- A command that is no text, or a path below the home directory of somebody else. -/
inductive BadCommand : Data → Fault → Prop
  | scalar {d : Data} (scalar : isScalar d = true) : BadCommand d .kind
  | listed {d : Data} (other : ∀ s, d ≠ .str s) (slash : d.holds "/" = .ok true) : BadCommand d .kind
  | unlisted {d : Data} (other : ∀ s, d ≠ .str s) (slash : d.holds "/" = .ok false) : BadCommand d .part
  | foreign {s : String} (path : (Data.str s).holds "/" = .ok true ∨ s.toList.head? = some '.')
      (foreign : IsForeign (Path.ofString s)) : BadCommand (.str s) .noHome

/-- A file of the workspace whose name has too long an integer in it. -/
def HasLongName (d : Data) : Prop :=
  ∃ name contents, d.get? "path" = some name ∧ d.get? "contents" = some contents ∧ name.isShort = false

/-- Further files that are no table, list or text, or one of them has too long an integer for a name. -/
inductive BadFiles (path : Path) : Data → Fault → Prop
  | scalar {d : Data} (scalar : isScalar d = true) : BadFiles path d .kind
  | name {before after : List Data} {item : Data} (read : ∀ x ∈ before, ∃ file, ofTable path "[[files]]" x = .ok file)
      (long : HasLongName item) : BadFiles path (.arr (before ++ item :: after)) Data.tooLong

/-- What a `[startup]` table may be instead of one: data that have no parts, a list or a text with the word in it, or a
table whose threshold is infinite. -/
inductive BadStartup : Data → Fault → Prop
  | scalar {d : Data} (given : d.truthy = true) (scalar : isScalar d = true) : BadStartup d .kind
  | untabled {d : Data} (other : ∀ es, d ≠ .obj es) (given : d.truthy = true) (word : d.holds "token" = .ok true) :
      BadStartup d .part
  | infinite {entries : List (String × Data)} {x : Float} (word : (Data.find? "token" entries).isSome = true)
      (threshold : Data.find? "threshold" entries = some (.float x)) (range : Real64.truncate? x = none)
      (number : x.isNaN = false) : BadStartup (.obj entries) (.overflow "cannot convert float infinity to integer")

theorem BadStartup.given {d : Data} {f : Fault} (bad : BadStartup d f) : d.truthy = true := by
  cases bad with
  | scalar given => exact given
  | untabled _ given => exact given
  | @infinite entries x word =>
    cases entries with
    | nil => cases word
    | cons e entries => rfl

/-- What is no scalar is found wanting only with the word in it. -/
theorem BadStartup.asked {d : Data} {f : Fault} (bad : BadStartup d f) (parts : isScalar d = false) :
    d.holds "token" = .ok true := by
  cases bad with
  | scalar _ scalar => cases parts.symm.trans scalar
  | untabled _ _ asked => exact asked
  | infinite word => exact congrArg Except.ok word

/-- A timeout that is out of range, or a list or table with too long an integer in it, which the report would show. -/
inductive BadTimeout : Data → Fault → Prop
  | range {n : Int} (range : (Real64.ofInt n).isFinite = false) :
      BadTimeout (.int n) (.overflow "int too large to convert to float")
  | long {d : Data} (other : ∀ n, d ≠ .int n) (long : d.isShort = false) : BadTimeout d Data.tooLong

section Crashes

variable (w : World) (path : Path) (entries : List (String × Data))

variable {w path entries}

variable (w path entries)

variable {w path entries}

end Crashes

end CaseTable

/-! ### Files one after the other -/

namespace CommandLine

variable {e : Editor}

end CommandLine

namespace CaseFile

open CaseTable CommandLine

/-- The file at a path holds the table with these entries. -/
def Holds (w : World) (path : Path) (entries : List (String × Data)) : Prop :=
  ∃ bytes text, w.fetch path = .ok bytes ∧ Utf8.decode (byteValues bytes) = .ok text ∧ Data.ofToml text = .ok entries

theorem Holds.load {w : World} {path : Path} {entries : List (String × Data)} (holds : Holds w path entries) :
    load w path = ofEntries w path entries := by
  obtain ⟨bytes, text, fetched, decoded, read⟩ := holds
  unfold CaseFile.load
  rw [fetched]
  dsimp only
  rw [decoded]
  dsimp only
  rw [read]

end CaseFile

end ServerTrial
