import ServerTrial.Proofs.Results
import ServerTrial.Proofs.TomlRoundTrip
import ServerTrial.Case.Skeleton
import ServerTrial.Case.File

/-!
# Skeletons load

* `Skeleton.tabular_table`: the table of a skeleton is one that is read back, so that
* `Skeleton.ofToml_text`: the text of a skeleton is read as its table;
* `Skeleton.exists_inputs`: the inputs of a skeleton are of their shapes and fill the slots of their request;
* `Skeleton.loads`: a skeleton loads as what it is written for.
-/

namespace ServerTrial

namespace Request

/-- A slug has no blanks at its ends, and neither capitals nor hyphens. -/
theorem plain_slug (r : Request) : Text.trimChars r.slug.toList = r.slug.toList ∧
    (r.slug.toList.map Text.lowerChar).map (fun c => if c = '-' then '_' else c) = r.slug.toList := by
  have plain {cs : List Char} (h : Text.trimChars cs = cs ∧
      (cs.map Text.lowerChar).map (fun c => if c = '-' then '_' else c) = cs) :
      Text.trimChars (String.ofList cs).toList = (String.ofList cs).toList ∧
        ((String.ofList cs).toList.map Text.lowerChar).map (fun c => if c = '-' then '_' else c) =
          (String.ofList cs).toList := by
    rw [String.toList_ofList]
    exact h
  cases r <;> exact plain ⟨rfl, rfl⟩

theorem find?_slug (r : Request) : all.find? (fun r' => r'.slug == r.slug || r'.method == r.slug) = some r := by
  cases r <;> cbv

theorem ofName?_slug (r : Request) : ofName? r.slug = some r := by
  obtain ⟨trimmed, plain⟩ := plain_slug r
  have trim : Text.trim r.slug = r.slug := by rw [Text.trim, trimmed, String.ofList_toList]
  unfold ofName?
  dsimp only
  rw [trim, Text.lower, String.toList_ofList, plain, String.ofList_toList]
  exact find?_slug r

end Request

namespace Skeleton

open Toml

variable (r : Request) (server source : String)

theorem tabular_origin : Tabular [("line", .int 0), ("character", .int 0)] :=
  .plain (by decide) (by decide) rfl readBack_zero (.plain (by decide) (by decide) rfl readBack_zero .nil)

theorem tabular_emptyRange : Tabular [("start", origin), ("end", origin)] :=
  .table (by decide) (by decide) tabular_origin (.table (by decide) (by decide) tabular_origin .nil)

theorem tabular_inputs : Tabular (inputs r) := by
  have range : Tabular [("range", emptyRange)] := .table (by decide) (by decide) tabular_emptyRange .nil
  have item : Tabular [("item", item)] := by
    refine .table (by decide) (by decide) ?_ .nil
    refine .plain (by decide) (by decide) rfl (readBack_str _) ?_
    refine .plain (by decide) (by decide) rfl readBack_twelve ?_
    refine .plain (by decide) (by decide) rfl (readBack_str _) ?_
    refine .table (by decide) (by decide) tabular_emptyRange ?_
    exact .table (by decide) (by decide) tabular_emptyRange .nil
  cases r
  case references => exact .plain (by decide) (by decide) rfl readBack_false .nil
  case rename => exact .plain (by decide) (by decide) rfl (readBack_str _) .nil
  case workspaceSymbol => exact .plain (by decide) (by decide) rfl (readBack_str _) .nil
  case executeCommand =>
    exact .plain (by decide) (by decide) rfl (readBack_str _) (.plain (by decide) (by decide) rfl readBack_nil .nil)
  case semanticTokensRange => exact range
  case codeAction => exact range
  case incomingCalls => exact item
  case outgoingCalls => exact item
  case typeHierarchySupertypes => exact item
  case typeHierarchySubtypes => exact item
  case codeLensResolve => exact .table (by decide) (by decide) range .nil
  case documentLinkResolve => exact .table (by decide) (by decide) range .nil
  case codeActionResolve =>
    exact .table (by decide) (by decide) (.plain (by decide) (by decide) rfl (readBack_str _) .nil) .nil
  case completionResolve =>
    exact .table (by decide) (by decide) (.plain (by decide) (by decide) rfl (readBack_str _) .nil) .nil
  case colorPresentation =>
    refine .table (by decide) (by decide) ?_ range
    refine .plain (by decide) (by decide) rfl readBack_float_zero ?_
    refine .plain (by decide) (by decide) rfl readBack_float_zero ?_
    refine .plain (by decide) (by decide) rfl readBack_float_zero ?_
    exact .plain (by decide) (by decide) rfl readBack_float_one .nil
  all_goals exact .nil

theorem tabular_table : Tabular (table r server source) := by
  have head : Tabular [("kind", .str r.slug), ("server", .str server)] :=
    .plain (by decide) (by simp) rfl (readBack_str _) (.plain (by decide) (by decide) rfl (readBack_str _) .nil)
  have cursor : Tabular (if r.needsCursor || r = .documentHighlight then [("cursor", origin)] else []) := by
    split
    · exact .table (by decide) (by decide) tabular_origin .nil
    · exact .nil
  have expect : Tabular
      (if r.hasEndState then [("expect", .str "end_state"), ("expected", .str "")] else [("expect", .str "none")]) := by
    split
    · exact .plain (by decide) (by decide) rfl (readBack_str _)
        (.plain (by decide) (by decide) rfl (readBack_str _) .nil)
    · exact .plain (by decide) (by decide) rfl (readBack_str _) .nil
  have file : Tabular [("source", .obj [("path", .str source), ("contents", .str "")])] :=
    .table (by decide) (by decide) (.plain (by decide) (by decide) rfl (readBack_str _)
      (.plain (by decide) (by decide) rfl (readBack_str _) .nil)) .nil
  have given : Tabular (if (inputs r).isEmpty then [] else [("inputs", .obj (inputs r))]) := by
    split
    · exact .nil
    · exact .table (by decide) (by decide) (tabular_inputs r) .nil
  unfold table
  refine (((head.append cursor ?_).append expect ?_).append file ?_).append given ?_
  all_goals split_ifs <;> simp

/-- The table of a skeleton as it is read back, with the cursor behind the expectation. -/
def loaded : List (String × Data) :=
  let expect : Entries :=
    if r.hasEndState then [("expect", .str "end_state"), ("expected", .str "")] else [("expect", .str "none")]
  let cursor := if r.needsCursor || r = .documentHighlight then [("cursor", origin)] else []
  let given := if (inputs r).isEmpty then [] else [("inputs", .obj (inputs r))]
  [("kind", .str r.slug), ("server", .str server)] ++ expect ++ cursor ++
    [("source", .obj [("path", .str source), ("contents", .str "")])] ++ given

theorem arranged_inputs : arranged (.obj (inputs r)) = .obj (inputs r) := by
  cases r <;> rfl

theorem arranged_table :
    inLine (table r server source) ++ Toml.tables (table r server source) = loaded r server source := by
  have given : Toml.tables (if (inputs r).isEmpty then [] else [("inputs", .obj (inputs r))]) =
      if (inputs r).isEmpty then [] else [("inputs", .obj (inputs r))] := by
    split
    · rfl
    · exact congrArg (fun d => [("inputs", d)]) (arranged_inputs r)
  unfold table loaded
  rw [tables_append, given]
  split_ifs <;> rfl

/-- **A skeleton is read back.** -/
theorem ofToml_text : Data.ofToml (text r server source) = .ok (loaded r server source) := by
  rw [text, ofToml_toToml (tabular_table r server source), arranged_table]

/-! ### Loading -/

/-- The cursor of a skeleton. -/
def cursor : Option Position := if r.needsCursor || r = .documentHighlight then some ⟨0, 0⟩ else none

/-- What a skeleton expects. -/
def expectation : Request → Expectation
  | .formatting | .executeCommand => .endState ""
  | _ => .nothing

theorem expectation_eq : expectation r = if r.hasEndState then .endState "" else .nothing := by
  cases r <;> rfl

end Skeleton

open CaseTable (orFault)

/-- A command that asks for no one's home directory is taken relative to a directory if it is given as a path. -/
theorem CaseTable.command_str (w : World) (base : Path) {command : String}
    (homeless : ∀ part ∈ (Path.ofString command).parts, part.toList.head? ≠ some '~') :
    CaseTable.command w base (.str command) =
      .ok (if (Text.occurs "/".toList command.toList || command.toList.head? = some '.') = true
        then (base.join (Path.ofString command)).toString else command) := by
  have expanded : CaseTable.expandHome w (Path.ofString command) = .ok (Path.ofString command) := by
    unfold CaseTable.expandHome
    split
    · rfl
    · split
      · next parts => exact absurd rfl (homeless "~" (parts ▸ List.mem_cons_self))
      · next part _ _ parts => rw [if_neg (homeless part (parts ▸ List.mem_cons_self))]
      · rfl
  unfold CaseTable.command
  change (if (Text.occurs "/".toList command.toList || command.toList.head? = some '.') = true
    then CaseTable.expandHome w (Path.ofString command) >>= fun p => pure (base.join p).toString
    else pure command) = _
  rw [expanded]
  split <;> rfl

/-- What a case takes from the settings in force: timeout, cleanup and editor. -/
def World.caseDefaults (w : World) : Except Failure (Float × Bool × String) := do
  let timeout ← orFault w.defaultTimeout
  let cleanup ← orFault w.defaultCleanup
  let editor ← orFault ((w.editorCommand none).bind (Data.written Data.plain))
  return (timeout, cleanup, editor)

namespace Skeleton

variable {r server source} {w : World} {path : Path}

/-- A command is found for every server that asks for no one's home directory. -/
theorem command_of_homeless (w : World) (base : Path)
    (homeless : ∀ part ∈ (Path.ofString server).parts, part.toList.head? ≠ some '~') :
    ∃ command, CaseTable.command w base (.str server) = .ok command := ⟨_, CaseTable.command_str w base homeless⟩

theorem caseOf_loaded {command : String} (named : CaseTable.command w path.parent (.str server) = .ok command) :
    CaseTable.caseOf w path (loaded r server source) = w.caseDefaults.map fun (timeout, cleanup, editor) =>
      ⟨command, ⟨source, .str ""⟩, cursor r, [], .immediate, timeout, cleanup, editor, w.nextId⟩ := by
  have server' : Data.find? "server" (loaded r server source) = some (.str server) := rfl
  have source' : Data.find? "source" (loaded r server source) =
      some (.obj [("path", .str source), ("contents", .str "")]) := by
    unfold loaded
    split_ifs <;> rfl
  have cursor' : (Data.find? "cursor" (loaded r server source)).mapM (CaseTable.cursor path) = .ok (cursor r) := by
    unfold loaded cursor
    split_ifs <;> rfl
  have absent : ∀ key ∈ ["files", "startup", "editor", "timeout", "cleanup", "test_id"],
      Data.find? key (loaded r server source) = none := by
    intro key mem
    refine Data.find?_eq_none ?_
    revert key
    unfold loaded
    split_ifs <;> simp
  simp only [List.forall_mem_cons] at absent
  obtain ⟨files, startup, editor, timeout, cleanup, testId, -⟩ := absent
  unfold CaseTable.caseOf
  simp only [server', source', files, startup, editor, timeout, cleanup, testId]
  dsimp only [Option.getD]
  rw [named, cursor']
  unfold World.caseDefaults
  cases orFault w.defaultTimeout with
  | error x => rfl
  | ok t =>
    cases orFault w.defaultCleanup with
    | error x => rfl
    | ok c =>
      cases orFault ((w.editorCommand none).bind (Data.written Data.plain)) with
      | error x => rfl
      | ok e => rfl

theorem expectation_loaded : CaseTable.expectation path r ((Data.find? "expect" (loaded r server source)).getD .null)
    (loaded r server source) = .ok (expectation r) := by
  have given : Data.find? "expect" (loaded r server source) =
      some (.str (if r.hasEndState then "end_state" else "none")) := by
    unfold loaded
    split_ifs <;> rfl
  have expected : CaseTable.expectedData path (loaded r server source) =
      .ok (if r.hasEndState then .str "" else .null) := by
    unfold loaded
    split_ifs <;> rfl
  rw [expectation_eq]
  unfold CaseTable.expectation
  rw [given, expected]
  cases ends : r.hasEndState with
  | false => rfl
  | true =>
    rfl

theorem inputs_loaded : (Data.find? "inputs" (loaded r server source)).getD (.obj []) = .obj (inputs r) := by
  unfold loaded
  by_cases none : (inputs r).isEmpty = true
  · rw [if_pos none, List.isEmpty_iff.1 none]
    split_ifs <;> rfl
  · rw [if_neg none]
    split_ifs <;> rfl

/-- The inputs of a skeleton are of their shapes, and fill the slots of their request. -/
theorem exists_inputs (r : Request) (path : Path) :
    ∃ given, CaseTable.inputs path r (.obj (inputs r)) = .ok given ∧ r.bind (given.map Prod.fst) = .ok () := by
  cases r <;> exact ⟨_, rfl, rfl⟩

theorem ofEntries_loaded (source : String) {command : String} {given : Inputs}
    (named : CaseTable.command w path.parent (.str server) = .ok command)
    (read : CaseTable.inputs path r (.obj (inputs r)) = .ok given) (bound : r.bind (given.map Prod.fst) = .ok ()) :
    CaseFile.ofEntries w path (loaded r server source) = w.caseDefaults.map fun (timeout, cleanup, editor) =>
      ⟨path, r, ⟨command, ⟨source, .str ""⟩, cursor r, [], .immediate, timeout, cleanup, editor, w.nextId⟩,
        expectation r, given⟩ := by
  have complete : CaseFile.requiredKeys.find? (fun key => (Data.find? key (loaded r server source)).isNone) = none := by
    unfold loaded
    split_ifs <;> rfl
  have kind : CaseTable.request path ((Data.find? "kind" (loaded r server source)).getD .null) = .ok r := by
    rw [show Data.find? "kind" (loaded r server source) = some (.str r.slug) from rfl, Option.getD_some]
    unfold CaseTable.request
    dsimp only
    rw [Request.ofName?_slug]
  unfold CaseFile.ofEntries
  rw [complete]
  dsimp only
  rw [kind, caseOf_loaded named]
  cases w.caseDefaults with
  | error x => rfl
  | ok defaults =>
    change (CaseTable.expectation path r _ _ >>= fun e => CaseTable.inputs path r _ >>= fun given => _) = _
    rw [expectation_loaded, inputs_loaded, read]
    dsimp only [bind, Except.bind]
    rw [bound]
    rfl

/-- With the settings that hold without a file there is something for a case to take. -/
theorem caseDefaults_of_config (settings : w.config = .ok Config.defaults) :
    ∃ defaults, w.caseDefaults = .ok defaults := by
  have setting (sectionName key : String) :
      w.setting sectionName key = Config.setting Config.defaults sectionName key := by
    rw [World.setting, settings]
    rfl
  have editor : ∃ e, w.editorCommand none = .ok (.str e) := by
    unfold World.editorCommand World.editorCommand.fromSettings
    rw [setting]
    split
    · split
      · exact ⟨_, rfl⟩
      · exact ⟨_, rfl⟩
    · exact ⟨_, rfl⟩
  obtain ⟨e, editor⟩ := editor
  unfold World.caseDefaults World.defaultTimeout World.defaultCleanup
  rw [setting, setting, editor]
  exact ⟨_, rfl⟩

/-- **A skeleton loads** as what it is written for, whatever the server is, unless it asks for someone's home
directory, and whatever the source and the path of its file are.  It leaves to the settings in force what they decide
for every new case, and fails only if they do not. -/
theorem loads (r : Request) {server : String} (source : String)
    (homeless : ∀ part ∈ (Path.ofString server).parts, part.toList.head? ≠ some '~') :
    ∃ entries, Data.ofToml (text r server source) = .ok entries ∧ ∀ (w : World) (path : Path), ∃ command given,
      CaseTable.command w path.parent (.str server) = .ok command ∧ r.bind (given.map Prod.fst) = .ok () ∧
      (CaseFile.ofEntries w path entries = w.caseDefaults.map fun (timeout, cleanup, editor) =>
        ⟨path, r, ⟨command, ⟨source, .str ""⟩, cursor r, [], .immediate, timeout, cleanup, editor, w.nextId⟩,
          expectation r, given⟩) ∧
      (w.config = .ok Config.defaults → ∃ f, CaseFile.ofEntries w path entries = .ok f) := by
  refine ⟨_, ofToml_text r server source, fun w path => ?_⟩
  obtain ⟨command, named⟩ := command_of_homeless w path.parent homeless
  obtain ⟨given, read, bound⟩ := exists_inputs r path
  have file := ofEntries_loaded source named read bound
  refine ⟨command, given, named, bound, file, fun settings => ?_⟩
  obtain ⟨defaults, found⟩ := caseDefaults_of_config settings
  rw [found] at file
  exact ⟨_, file⟩

/-- A world without files. -/
def emptyWorld : World := ⟨[], [], [], ⟨.slash, ["t"]⟩, "1"⟩

theorem config_emptyWorld : emptyWorld.config = .ok Config.defaults := by
  have place : emptyWorld.configPath = ⟨.slash, ["root", ".config", "lspresso-shot", "config.toml"]⟩ := by
    decide +kernel
  have absent : emptyWorld.present ⟨.slash, ["root", ".config", "lspresso-shot", "config.toml"]⟩ = .ok false := rfl
  unfold World.config
  dsimp only
  rw [place, absent]
  rfl

/-- The skeleton for formatting loads, with the server next to its file. -/
theorem loads_formatting :
    ∃ entries, Data.ofToml (text .formatting "./server" "main.txt") = .ok entries ∧
      ∃ f, CaseFile.ofEntries emptyWorld ⟨.slash, ["cases", "case.toml"]⟩ entries = .ok f ∧ f.request = .formatting ∧
        f.case.server = "/cases/server" ∧ f.case.source.path = "main.txt" := by
  have homeless : ∀ part ∈ (Path.ofString "./server").parts, part.toList.head? ≠ some '~' := by decide
  obtain ⟨entries, read, loaded⟩ := loads .formatting "main.txt" homeless
  obtain ⟨command, given, named, -, file, total⟩ := loaded emptyWorld ⟨.slash, ["cases", "case.toml"]⟩
  have place : CaseTable.command emptyWorld ⟨.slash, ["cases"]⟩ (.str "./server") = .ok "/cases/server" := rfl
  cases named.symm.trans place
  obtain ⟨f, done⟩ := total config_emptyWorld
  cases defaults : emptyWorld.caseDefaults with
  | error x =>
    rw [defaults] at file
    cases file.symm.trans done
  | ok values =>
    rw [defaults] at file
    exact ⟨entries, read, _, file, rfl, rfl, rfl⟩

end Skeleton

end ServerTrial
