import ServerTrial.Proofs.Escapes
import ServerTrial.Proofs.MarkerFiles
import ServerTrial.Proofs.Recheck

/-!
# Previews

* `Request.injections_handOn`: inputs that are handed on as null are sent as if they were left out;
* `Trial.upToScript`, `Trial.fromScript`: the part of a run that ends with its script, and the rest;
* `Trial.runIn_run`: a run is the one and then the other;
* `CaseFile.preview`: the script that a run writes is the one that is shown beforehand; where a report is shown instead,
  the run changes nothing.
-/

namespace ServerTrial

/-! ### What has been written -/

namespace World

variable {w w' : World}

/-- What has been written is read back. -/
theorem fetch_of_store {path : Path} {content : List UInt8} (stored : w.store path content = .ok w') :
    w'.fetch path = .ok content := by
  have firm := Firm.store stored
  obtain ⟨q, executable, located, rfl, leaf, -, -⟩ := store_eq_ok stored
  have inner : q ≠ [] := by
    rintro rfl
    exact leaf (at?_nil w)
  rw [fetch, firm.locate located]
  dsimp only
  rw [at?_set_self w _ inner]

end World

/-! ### Inputs that are not given -/

namespace Request

variable {r : Request} {given : Inputs}

theorem find?_slots (g : String → Value) (slots : List InputSlot) (name : String) :
    Data.find? name (slots.map fun s => (s.name, g s.name)) =
      if slots.any (fun s => s.name == name) then some (g name) else none := by
  induction slots with
  | nil => rfl
  | cons s slots ih =>
    rw [List.map_cons, Data.find?, List.any_cons]
    by_cases here : s.name = name
    · rw [if_pos here, here, beq_self_eq_true, Bool.true_or, if_pos rfl]
    · rw [if_neg here, beq_false_of_ne here, Bool.false_or, ih]

/-- An input is asked for by name, and has the same value if the entry point hands it on. -/
theorem input_handOn (bound : r.bind (given.map Prod.fst) = .ok ()) : input (r.handOn given) = input given := by
  funext name
  unfold input
  rw [handOn, find?_slots]
  cases slot : r.hasSlot name with
  | true =>
    rw [hasSlot] at slot
    rw [if_pos slot]
    rfl
  | false =>
    have absent : name ∉ given.map Prod.fst := by
      intro mem
      rw [hasSlot_of_bind bound name mem] at slot
      cases slot
    rw [Data.find?_eq_none absent]
    rw [hasSlot] at slot
    rw [slot]
    rfl

theorem bind_handOn : r.bind ((r.handOn given).map Prod.fst) = .ok () := by
  cases r <;> rfl

theorem injections_handOn (bound : r.bind (given.map Prod.fst) = .ok ()) (c : Case) (w : World) (e : Expectation) :
    r.injections c w e (r.handOn given) = r.injections c w e given := by
  have slotted : r.slotInjections c w e (r.handOn given) = r.slotInjections c w e given := by
    unfold slotInjections
    rw [input_handOn bound]
  have same : r.inputInjections c w e (r.handOn given) = r.inputInjections c w e given := by
    unfold inputInjections
    dsimp only
    rw [free_of_bind bound, free_of_bind bind_handOn, bind_handOn, bound, input_handOn bound, slotted]
    cases bare : r.slots.isEmpty with
    | false => rfl
    | true =>
      have slots : r.slots = [] := List.isEmpty_iff.1 bare
      rw [nil_of_bind slots bound, handOn, slots]
      rfl
  unfold injections
  rw [same]

end Request

/-! ### Up to the script, and on -/

namespace Case

variable {c : Case} {w : World}

/-- What the script of a valid case fails with, no report foresees. -/
theorem fault_of_script {l : Layout} {r : Request} {is : List Injection} {x : Failure}
    (placed : ∃ p, l.source c.source.path = .ok p) (named : ∃ extension, c.fileExtension = .ok extension)
    (failed : c.script l r is = .error x) : ∃ y, x = .fault y := by
  have faulty {α : Type} {a : Except Fault α} (h : a.mapError Failure.fault = .error x) : ∃ y, x = .fault y := by
    cases a with
    | ok _ => cases h
    | error y => exact ⟨y, (Except.error.inj h).symm⟩
  obtain ⟨p, place⟩ := placed
  obtain ⟨extension, name⟩ := named
  unfold script substitutions at failed
  rw [place, name] at failed
  obtain h | ⟨_, -, failed⟩ := bind_eq_error_iff.1 failed
  · cases h
  obtain h | ⟨_, -, failed⟩ := bind_eq_error_iff.1 failed
  · exact faulty h
  obtain h | ⟨_, -, failed⟩ := bind_eq_error_iff.1 failed
  · exact faulty h
  obtain h | ⟨_, -, failed⟩ := bind_eq_error_iff.1 failed
  · obtain h | ⟨_, -, h⟩ := bind_eq_error_iff.1 h
    · cases h
    · obtain h | ⟨_, -, h⟩ := bind_eq_error_iff.1 h
      · exact faulty h
      · cases h
  · cases failed

end Case

namespace Trial

variable {c : Case} {r : Request} {e : Expectation} {given : Inputs} {editor : Editor} {s s' : Session}

/-- Writes the script to its place. -/
def scripting (c : Case) (l : Layout) (r : Request) (is : List Injection) : Trial String := do
  let script ← ofExcept (c.script l r is)
  Workspace.clear c l
  Workspace.storeText c l.script script
  return script

/-- A run as far as its script, and the text that is written as one. -/
def upToScript (c : Case) (r : Request) (e : Expectation) (given : Inputs) : Trial String := do
  let w ← world
  let is ← ofExcept (checks c r e given w)
  scripting c (c.layout w) r is

/-- The rest of a run. -/
def fromScript (c : Case) (l : Layout) (r : Request) (e : Expectation) (editor : Editor) : Trial Unit := do
  let source ← Workspace.writeSource c l c.source
  Workspace.writeAll c l c.others
  let interval ← ofFault (← world).pollInterval
  supervise c l source interval editor
  ofExcept (Outcome.resolve c r (← world) l e)

/-- With the workspace removed at the end, if the case asks for it. -/
def tidied (c : Case) (l : Layout) (t : Trial Unit) : Trial Unit :=
  if c.cleanup then t.followedBy (Workspace.cleanup l) else t

theorem perform_scripting (c : Case) (l : Layout) (r : Request) (e : Expectation) (is : List Injection)
    (editor : Editor) :
    perform c l r e is editor = scripting c l r is >>= fun _ => fromScript c l r e editor := by
  unfold perform scripting fromScript
  simp only [Workspace.materialize_eq, bind_assoc, pure_bind]

theorem runIn_tidied_bind {α : Type} (l : Layout) (t : Trial α) (next : α → Trial Unit) (s : Session) :
    (tidied c l (t >>= next)).runIn s =
      match t.runIn s with
      | (.ok a, s') => (tidied c l (next a)).runIn s'
      | (.error x, s') => (tidied c l (throw x)).runIn s' := by
  unfold tidied
  cases c.cleanup with
  | false =>
    rw [if_neg Bool.false_ne_true, runIn_bind]
    rfl
  | true =>
    rw [if_pos rfl, runIn_followedBy, runIn_bind]
    cases t.runIn s with
    | mk result s' =>
      cases result with
      | ok a =>
        dsimp only
        rw [if_pos rfl, runIn_followedBy]
      | error x =>
        dsimp only
        rw [if_pos rfl, runIn_followedBy]
        rfl

theorem runIn_upToScript_of_error {x : Failure} (stopped : checks c r e given s.world = .error x) :
    (upToScript c r e given).runIn s = (.error x, s) := by
  unfold upToScript
  rw [runIn_world_bind, runIn_ofExcept_bind, stopped]

theorem runIn_upToScript_of_ok {is : List Injection} (passed : checks c r e given s.world = .ok is) :
    (upToScript c r e given).runIn s = (scripting c (c.layout s.world) r is).runIn s := by
  unfold upToScript
  rw [runIn_world_bind, runIn_ofExcept_bind, passed]

/-- A run that gets as far as its script goes on from there. -/
theorem runIn_run_of_written {text : String} (written : (upToScript c r e given).runIn s = (.ok text, s')) :
    (run c r e given editor).runIn s =
      (tidied c (c.layout s.world) (fromScript c (c.layout s.world) r e editor)).runIn s' := by
  cases checked : checks c r e given s.world with
  | error x =>
    rw [runIn_upToScript_of_error checked] at written
    cases written
  | ok is =>
    rw [runIn_upToScript_of_ok checked] at written
    have acted : (run c r e given editor).runIn s =
        (tidied c (c.layout s.world) (perform c (c.layout s.world) r e is editor)).runIn s := runIn_run_of_ok checked
    rw [acted, perform_scripting, runIn_tidied_bind, written]

/-- One that does not ends with what has stopped it, or with the removal of its workspace. -/
theorem runIn_run_of_unwritten {x : Failure} (stopped : (upToScript c r e given).runIn s = (.error x, s')) :
    (run c r e given editor).runIn s = (.error x, s') ∨
      (run c r e given editor).runIn s = (tidied c (c.layout s.world) (throw x)).runIn s' := by
  cases checked : checks c r e given s.world with
  | error y =>
    rw [runIn_upToScript_of_error checked] at stopped
    rw [runIn_run_of_error checked]
    cases stopped
    exact .inl rfl
  | ok is =>
    rw [runIn_upToScript_of_ok checked] at stopped
    have acted : (run c r e given editor).runIn s =
        (tidied c (c.layout s.world) (perform c (c.layout s.world) r e is editor)).runIn s := runIn_run_of_ok checked
    rw [acted, perform_scripting, runIn_tidied_bind, stopped]
    exact .inr rfl

theorem runIn_bind_eq_ok {α β : Type} {t : Trial α} {next : α → Trial β} {b : β}
    (h : (t >>= next).runIn s = (.ok b, s')) : ∃ a m, t.runIn s = (.ok a, m) ∧ (next a).runIn m = (.ok b, s') := by
  rw [runIn_bind] at h
  cases first : t.runIn s with
  | mk result m =>
    rw [first] at h
    cases result with
    | error x => cases h
    | ok a => exact ⟨a, m, rfl, h⟩

theorem store_of_storeText {p : Path} {text : String} {u : Unit}
    (stored : (Workspace.storeText c p text).runIn s = (.ok u, s')) :
    s.world.store p (textBytes text) = .ok s'.world := by
  obtain ⟨_, m, sound, changed⟩ := runIn_bind_eq_ok stored
  rw [(Workspace.demandSound_eq_ok sound).2] at changed
  change ((s.world.storeText p text).1.mapError (Workspace.refused c),
    { s with world := (s.world.storeText p text).2 }) = _ at changed
  rw [World.storeText] at changed
  cases put : s.world.store p (if Text.isWhole text then textBytes text else []) with
  | error x =>
    rw [put] at changed
    cases changed
  | ok w =>
    rw [put] at changed
    cases whole : Text.isWhole text with
    | false =>
      rw [whole] at changed
      cases changed
    | true =>
      rw [whole] at changed put
      cases changed
      exact put

theorem fetch_of_storeText {p : Path} {text : String} {u : Unit}
    (stored : (Workspace.storeText c p text).runIn s = (.ok u, s')) : s'.world.fetch p = .ok (textBytes text) :=
  World.fetch_of_store (store_of_storeText stored)

/-- What has been written then is what the injections and the case make, and can be read back. -/
theorem script_of_written {text : String} (written : (upToScript c r e given).runIn s = (.ok text, s')) :
    (∃ is, r.injections c s.world e given = .ok is ∧ c.script (c.layout s.world) r is = .ok text) ∧
      s'.world.fetch (c.layout s.world).script = .ok (textBytes text) := by
  cases checked : checks c r e given s.world with
  | error x =>
    rw [runIn_upToScript_of_error checked] at written
    cases written
  | ok is =>
    rw [runIn_upToScript_of_ok checked, scripting] at written
    obtain ⟨js, sent, rest⟩ := bind_eq_ok checked
    obtain ⟨_, -, rest⟩ := bind_eq_ok rest
    obtain ⟨_, -, ⟨⟩⟩ := bind_eq_ok rest
    obtain ⟨script, m, made, written⟩ := runIn_bind_eq_ok written
    obtain ⟨_, m', -, written⟩ := runIn_bind_eq_ok written
    obtain ⟨_, m'', stored, ended⟩ := runIn_bind_eq_ok written
    cases ended
    exact ⟨⟨is, sent, congrArg Prod.fst made⟩, fetch_of_storeText stored⟩

/-- Where the checks fail, a fault comes of a command with a path that no file can have. -/
theorem isReport_of_checks {w : World} {is : List Injection} {y : Failure} (sent : r.injections c w e given = .ok is)
    (failed : checks c r e given w = .error y) :
    y.isReport = false ↔ r.demandCursor c = .ok () ∧ ∃ z, BadCommand c w z := by
  unfold checks at failed
  rw [sent] at failed
  change (do
    r.demandCursor c
    c.validate w
    return is : Except Failure (List Injection)) = _ at failed
  constructor
  · intro told
    obtain cursor | ⟨_, cursor, rest⟩ := bind_eq_error_iff.1 failed
    · rw [isReport_of_demandCursor cursor] at told
      cases told
    · obtain invalid | ⟨_, -, rest⟩ := bind_eq_error_iff.1 rest
      · obtain ⟨z, bad, -⟩ := (validate_eq_error_iff told).1 invalid
        exact ⟨cursor, z, bad⟩
      · cases rest
  · rintro ⟨cursor, z, bad⟩
    have invalid : c.validate w = .error (.fault z) := (validate_eq_error_iff rfl).2 ⟨z, bad, rfl⟩
    rw [cursor, invalid] at failed
    rw [← Except.error.inj failed]
    rfl

end Trial

namespace CaseFile

variable {f : CaseFile} {w w' : World}

/-- The script needs to know of the world only the settings and the directory for temporary files. -/
theorem script_of_config (settings : w.config = w'.config) (directory : w.temporary = w'.temporary) :
    f.script w = f.script w' := by
  unfold script Case.layout
  rw [f.request.injections_of_config settings, directory]

theorem runIn_run (bound : f.request.bind (f.inputs.map Prod.fst) = .ok ()) (editor : Editor) (s : Session) :
    (f.run editor).runIn s = (Trial.run f.case f.request f.expectation f.inputs editor).runIn s := by
  unfold run Trial.run
  rw [bound]
  dsimp only
  rw [Trial.runIn_world_bind, Trial.runIn_world_bind, Request.injections_handOn bound]

/-- If the script cannot be shown for a reason that is a report, the run ends before anything is done. -/
theorem checks_of_script {x : Failure} (report : x.isReport = true) (failed : f.script w = .error x) :
    ∃ y, Trial.checks f.case f.request f.expectation f.inputs w = .error y ∧
      (y.isReport = false ↔ (∃ is, f.request.injections f.case w f.expectation f.inputs = .ok is) ∧
        f.request.demandCursor f.case = .ok () ∧ ∃ z, Trial.BadCommand f.case w z) := by
  obtain unsent | ⟨is, sent, failed⟩ := bind_eq_error_iff.1 failed
  · refine ⟨x, bind_eq_error_iff.2 (.inl unsent), fun told => ?_, ?_⟩
    · rw [report] at told
      cases told
    · rintro ⟨⟨is, sent⟩, -⟩
      cases unsent.symm.trans sent
  · cases checked : Trial.checks f.case f.request f.expectation f.inputs w with
    | error y => exact ⟨y, rfl, (Trial.isReport_of_checks sent checked).trans ⟨fun h => ⟨⟨is, sent⟩, h⟩, And.right⟩⟩
    | ok js =>
      obtain ⟨placed, named⟩ := Case.validate_eq_ok (Trial.validate_of_checks checked)
      obtain ⟨z, rfl⟩ := Case.fault_of_script (placed f.case.source List.mem_cons_self) named failed
      cases report

theorem bind_of_ofEntries {path : Path} {entries : List (String × Data)} (loaded : ofEntries w path entries = .ok f) :
    f.request.bind (f.inputs.map Prod.fst) = .ok () := by
  unfold ofEntries at loaded
  split at loaded
  · cases loaded
  · obtain ⟨r, -, loaded⟩ := bind_eq_ok loaded
    obtain ⟨c, -, loaded⟩ := bind_eq_ok loaded
    obtain ⟨e, -, loaded⟩ := bind_eq_ok loaded
    obtain ⟨inputs, -, loaded⟩ := bind_eq_ok loaded
    cases bound : r.bind (inputs.map Prod.fst) with
    | error x =>
      rw [bound] at loaded
      cases loaded
    | ok _ =>
      rw [bound] at loaded
      cases loaded
      exact bound

/-- **The script that is shown is the script that runs.**  With the same settings, and the same directory for temporary
files, a run of a case file that has been loaded gets as far as its script only with the one that is shown, which its
file then holds; it goes on from there, or ends.  If a report is shown instead of a script, the run fails, too, and
leaves all as it was; it does so with a report unless, after inputs and cursor, it meets a command with a path that no
file can have. -/
theorem preview {w₀ : World} {path : Path} {entries : List (String × Data)} {f : CaseFile}
    (loaded : ofEntries w₀ path entries = .ok f) (editor : Editor) {w : World} {s : Session}
    (settings : w.config = s.world.config) (directory : w.temporary = s.world.temporary) :
    let l := f.case.layout s.world
    let written := (Trial.upToScript f.case f.request f.expectation f.inputs).runIn s
    let ended := (f.run editor).runIn s
    (∀ text s', written = (.ok text, s') → f.script w = .ok text ∧ s'.world.fetch l.script = .ok (textBytes text) ∧
      ended = (Trial.tidied f.case l (Trial.fromScript f.case l f.request f.expectation editor)).runIn s') ∧
    (∀ x s', written = (.error x, s') → ended = (.error x, s') ∨ ended = (Trial.tidied f.case l (throw x)).runIn s') ∧
    ∀ x, x.isReport = true → f.script w = .error x → ∃ y, ended = (.error y, s) ∧
      (y.isReport = false ↔ (∃ is, f.request.injections f.case s.world f.expectation f.inputs = .ok is) ∧
        f.request.demandCursor f.case = .ok () ∧ ∃ z, Trial.BadCommand f.case s.world z) := by
  intro l written ended
  have entered : ended = (Trial.run f.case f.request f.expectation f.inputs editor).runIn s :=
    runIn_run (bind_of_ofEntries loaded) editor s
  rw [entered, script_of_config settings directory]
  refine ⟨fun text s' reached => ?_, fun x s' stopped => Trial.runIn_run_of_unwritten stopped,
    fun x report failed => ?_⟩
  · obtain ⟨⟨is, sent, made⟩, held⟩ := Trial.script_of_written reached
    refine ⟨?_, held, Trial.runIn_run_of_written reached⟩
    unfold script
    rw [sent]
    exact made
  · obtain ⟨y, stopped, told⟩ := checks_of_script report failed
    exact ⟨y, Trial.runIn_run_of_error stopped, told⟩

/-- A case file whose source has no extension. -/
def bareEntries (server : String) : List (String × Data) :=
  [("kind", .str "document_symbol"), ("server", .str server), ("editor", .str "/e"), ("test_id", .str "1"),
    ("timeout", .float 1), ("cleanup", .bool true), ("expect", .str "none"),
    ("source", .obj [("path", .str "a"), ("contents", .str "")])]

def bareFile (server : String) : CaseFile :=
  ⟨⟨.slash, ["c"]⟩, .documentSymbol, { Trial.tidyCase with server := server, source := ⟨"a", .str ""⟩ }, .nothing, []⟩

theorem ofEntries_bare {server : String} (absolute : (Path.ofString server).isAbsolute = true)
    (same : (Path.ofString server).toString = server) (slash : Text.occurs "/".toList server.toList = true) :
    ofEntries Trial.usedWorld ⟨.slash, ["c"]⟩ (bareEntries server) = .ok (bareFile server) := by
  have named : CaseTable.command Trial.usedWorld ⟨.slash, []⟩ (.str server) = .ok server := by
    unfold CaseTable.command
    change (Except.ok (Text.occurs "/".toList server.toList) >>= _) = _
    rw [slash]
    change (CaseTable.expandHome Trial.usedWorld (Path.ofString server) >>= _) = _
    unfold CaseTable.expandHome
    rw [if_pos absolute]
    change Except.ok (Path.join ⟨.slash, []⟩ (Path.ofString server)).toString = _
    rw [Path.join, if_pos absolute, same]
  have read : CaseTable.caseOf Trial.usedWorld ⟨.slash, ["c"]⟩ (bareEntries server) = .ok (bareFile server).case := by
    unfold CaseTable.caseOf
    change (CaseTable.orFault (CaseTable.command Trial.usedWorld ⟨.slash, []⟩ (.str server)) >>= _) = _
    rw [named]
    rfl
  unfold ofEntries
  rw [read]
  rfl

theorem script_bare (server : String) : (bareFile server).script Trial.usedWorld = .error (.missingExtension "a") := by
  have sent : Request.documentSymbol.injections (bareFile server).case Trial.usedWorld .nothing [] =
      .ok [.textDocument "textDocument"] := rfl
  have placed : Layout.source ⟨"1", ⟨.slash, ["t"]⟩⟩ "a" = .ok ⟨.slash, ["t", "lspresso-shot", "1", "src", "a"]⟩ := by
    cbv
  have attached : (bareFile server).case.attachSubstitution .ask = .ok ⟨"LSP_ACTION", _⟩ := rfl
  obtain ⟨compiled, assembled⟩ : ∃ compiled, Injection.assemble [.textDocument "textDocument"] = .ok compiled :=
    ⟨_, rfl⟩
  have bare : (⟨"a", .str ""⟩ : SourceFile).extension = "" := by cbv
  have named : (bareFile server).case.fileExtension = .error (.missingExtension "a") := by
    unfold Case.fileExtension
    rw [show (bareFile server).case.source = ⟨"a", .str ""⟩ from rfl, bare]
    rfl
  have made : (bareFile server).case.script ⟨"1", ⟨.slash, ["t"]⟩⟩ .documentSymbol [.textDocument "textDocument"] =
      .error (.missingExtension "a") := by
    unfold Case.script Case.substitutions
    rw [show (bareFile server).case.source.path = "a" from rfl, placed, assembled,
      show Request.documentSymbol.fragment = .ask from rfl, attached, named]
    rfl
  unfold script
  rw [show (bareFile server).request = .documentSymbol from rfl, show (bareFile server).expectation = .nothing from rfl,
    show (bareFile server).inputs = [] from rfl, sent]
  exact made

theorem canRun_editor : Trial.usedWorld.canRun "/e" = .ok true := by cbv

/-- A source without an extension is reported, before and in the run. -/
theorem preview_bare :
    let s := Session.ofWorld Trial.usedWorld
    let f := bareFile "/e"
    ofEntries Trial.usedWorld ⟨.slash, ["c"]⟩ (bareEntries "/e") = .ok f ∧
      f.script Trial.usedWorld = .error (.missingExtension "a") ∧
      ∃ y, (f.run Trial.finishing).runIn s = (.error y, s) ∧ y.isReport = true := by
  intro s f
  have loaded : ofEntries Trial.usedWorld ⟨.slash, ["c"]⟩ (bareEntries "/e") = .ok f := by
    refine ofEntries_bare ?_ ?_ ?_ <;> decide
  obtain ⟨-, -, shown⟩ := preview loaded Trial.finishing (w := Trial.usedWorld) (s := s) rfl rfl
  obtain ⟨y, ended, told⟩ := shown _ rfl (script_bare "/e")
  refine ⟨loaded, script_bare "/e", y, ended, Bool.eq_true_of_not_eq_false fun fault => ?_⟩
  obtain ⟨-, -, z, bad⟩ := told.1 fault
  cases bad with
  | editor long => cases canRun_editor.symm.trans long
  | server _ long => cases canRun_editor.symm.trans long

/-- A name with more bytes than one may have. -/
def overlongName : String := String.ofList (List.replicate 256 's')

def overlong : String := "/" ++ overlongName

theorem utf8ByteSize_replicate (n : ℕ) : (String.ofList (List.replicate n 's')).utf8ByteSize = n := by
  induction n with
  | zero => rfl
  | succ n ih =>
    rw [List.replicate_succ, String.ofList_cons, String.utf8ByteSize_append, ih, String.utf8ByteSize_singleton,
      Nat.add_comm]
    rfl

theorem overlongName_ne {t : String} (short : t.utf8ByteSize ≠ 256) : overlongName ≠ t := by
  rintro rfl
  exact short (utf8ByteSize_replicate 256)

theorem toList_overlongName : overlongName.toList = List.replicate 256 's' := String.toList_ofList

theorem toList_overlong : overlong.toList = '/' :: overlongName.toList := by
  rw [overlong, String.toList_append]
  exact List.singleton_append

theorem ofString_overlong : Path.ofString overlong = ⟨.slash, [overlongName]⟩ := by
  have plain : '/' ∉ overlongName.toList := by
    rw [toList_overlongName]
    intro mem
    cases List.eq_of_mem_replicate mem
  have root : Path.rootOf ('/' :: overlongName.toList) = .slash := by
    rw [toList_overlongName]
    rfl
  have some : overlongName ≠ "" := overlongName_ne (by decide)
  have dot : overlongName ≠ "." := overlongName_ne (by decide)
  rw [Path.ofString, splitText, toList_overlong, root, splitChars, if_pos rfl, Path.splitChars_of_not_mem plain,
    List.map_cons, List.map_singleton, String.ofList_toList]
  simp [some, dot]

theorem flaw?_overlong : World.flaw? ⟨.slash, [overlongName]⟩ = none := by
  have letter {c : Char} (mem : c ∈ overlongName.toList) : c = 's' := by
    rw [toList_overlongName] at mem
    exact List.eq_of_mem_replicate mem
  have whole : Text.isWhole overlongName = true := by
    rw [Text.isWhole, Bool.not_eq_true', List.any_eq_false]
    intro c mem
    rw [letter mem]
    decide
  have null : Char.ofNat 0 ∉ overlongName.toList := fun mem => absurd (letter mem) (by decide)
  simp [World.flaw?, whole, null]

theorem locate_overlong : Trial.usedWorld.locate ⟨.slash, [overlongName]⟩ = .error .nameTooLong := by
  have size : overlongName.utf8ByteSize > World.nameLimit :=
    Nat.lt_of_lt_of_eq (by decide) (utf8ByteSize_replicate 256).symm
  have top : Trial.usedWorld.at? [] = some .directory := by decide
  rw [World.locate]
  split
  · rfl
  · change Trial.usedWorld.walk [] [overlongName] = _
    rw [World.walk, top]
    dsimp only
    rw [if_neg (overlongName_ne (by decide)), if_pos size]

theorem canRun_overlong : Trial.usedWorld.canRun overlong = .error (.system .nameTooLong) := by
  have slash : overlong.toList.contains '/' = true := by
    rw [toList_overlong, List.contains_cons]
    exact Bool.true_or _
  rw [World.canRun, if_pos slash, ofString_overlong, World.probe, flaw?_overlong, locate_overlong]
  rfl

/-- With such a server the same file has the same report shown, but is run into a fault. -/
theorem preview_overlong :
    let s := Session.ofWorld Trial.usedWorld
    let f := bareFile overlong
    ofEntries Trial.usedWorld ⟨.slash, ["c"]⟩ (bareEntries overlong) = .ok f ∧
      f.script Trial.usedWorld = .error (.missingExtension "a") ∧
      (f.run Trial.finishing).runIn s = (.error (.fault (.system .nameTooLong)), s) := by
  intro s f
  have loaded : ofEntries Trial.usedWorld ⟨.slash, ["c"]⟩ (bareEntries overlong) = .ok f := by
    refine ofEntries_bare ?_ ?_ ?_
    · rw [ofString_overlong]
      rfl
    · rw [ofString_overlong, Path.toString, if_neg (by decide), String.intercalate_singleton]
      rfl
    · rw [toList_overlong]
      rfl
  have invalid : f.case.validate s.world = .error (.fault (.system .nameTooLong)) :=
    (Trial.validate_eq_error_iff rfl).2 ⟨_, .server canRun_editor canRun_overlong, rfl⟩
  have checked : Trial.checks f.case f.request f.expectation f.inputs s.world =
      .error (.fault (.system .nameTooLong)) := by
    have sent : f.request.injections f.case s.world f.expectation f.inputs = .ok [.textDocument "textDocument"] := rfl
    have cursor : f.request.demandCursor f.case = .ok () := rfl
    unfold Trial.checks
    rw [sent, cursor, invalid]
    rfl
  refine ⟨loaded, script_bare overlong, ?_⟩
  rw [runIn_run (bind_of_ofEntries loaded), Trial.runIn_run_of_error checked]

end CaseFile

end ServerTrial
