import ServerTrial.Proofs.TomlContent
import ServerTrial.Proofs.SharedTables
import ServerTrial.Proofs.Preview
import ServerTrial.Proofs.MarkerFiles
import ServerTrial.Proofs.Resolution
import ServerTrial.Proofs.Utf8

/-!
# Settings that are saved

* `World.Loads`: the settings in force are the defaults, or what the file for them puts over the defaults;
* `World.saveConfig_of_reads`: settings that were loaded from a file can be saved;
* `World.config_of_saveConfig`: settings that are saved are in force again, with the defaults below them;
* `Config.merging_lawful`: the laws of merging, and that loading what was saved gives equal settings.
-/

namespace ServerTrial

namespace Config

theorem tidy_defaults : (Data.obj defaults).Tidy := by
  simp [defaults, Data.Tidy, Data.All, Data.AllEntries, Data.IsTidy]

theorem keyed_defaults : (Data.obj defaults).Keyed := tidy_defaults.keyed

theorem comparable_defaults : (Data.obj defaults).IsComparable := by
  have interval : (0.05 : Float).isNaN = false := by decide +kernel
  have timeout : (1.0 : Float).isNaN = false := by decide +kernel
  simp only [defaults, Data.IsComparable, Data.All, Data.AllEntries, interval, timeout, and_self]

end Config

namespace World

variable {w w' : World}

/-! ### The file for settings -/

theorem environment_makeAlong (w : World) (p : Place) (parts : List String) :
    (w.makeAlong p parts).2.environment = w.environment := by
  induction parts generalizing w p with
  | nil => rfl
  | cons c rest ih =>
    rw [makeAlong]
    split
    · exact ih w _
    · split
      · rfl
      · dsimp only
        split
        · exact ih w _
        · rfl
        · split
          · rw [ih, environment_set]
          · rfl

theorem environment_ensureDirectory (w : World) (path : Path) :
    (w.ensureDirectory path).2.environment = w.environment := by
  rw [ensureDirectory]
  split
  · rfl
  · split
    · exact environment_makeAlong w _ _
    · rfl

theorem environment_of_store {path : Path} {content : List UInt8} (stored : w.store path content = .ok w') :
    w'.environment = w.environment := by
  obtain ⟨q, executable, -, rfl, -⟩ := store_eq_ok stored
  exact environment_set w q _

theorem configPath_of_environment (same : w'.environment = w.environment) : w'.configPath = w.configPath := by
  unfold configPath home environment?
  rw [same]

/-- The file for settings is read, and holds these entries. -/
structure Reads (w : World) (read : List (String × Data)) : Prop where
  sound : flaw? w.configPath = none
  fetched : ∃ text, w.fetch w.configPath = .ok (textBytes text) ∧ Data.ofToml text = .ok read

/-- The settings are the defaults, or what the file puts over them. -/
inductive Loads (w : World) : List (String × Data) → Prop
  | missing (none : w.present w.configPath = .ok false) : Loads w Config.defaults
  | file {read : List (String × Data)} (reads : w.Reads read) : Loads w (Config.merge read Config.defaults)

theorem Reads.present {read : List (String × Data)} (reads : w.Reads read) : w.present w.configPath = .ok true := by
  obtain ⟨text, fetched, -⟩ := reads.fetched
  rw [fetch] at fetched
  unfold World.present probe
  rw [reads.sound]
  cases located : w.locate w.configPath with
  | error e =>
    rw [located] at fetched
    cases fetched
  | ok place =>
    rw [located] at fetched
    cases there : w.at? place with
    | none => simp [there] at fetched
    | some node => simp [there, Except.map]

theorem Reads.config {read : List (String × Data)} (reads : w.Reads read) :
    w.config = .ok (Config.merge read Config.defaults) := by
  obtain ⟨text, fetched, parsed⟩ := reads.fetched
  have decoded : Utf8.decode (byteValues (textBytes text)) = .ok text := Utf8.decode_eq_ok_iff.2 rfl
  unfold World.config
  dsimp only
  rw [reads.present, fetched]
  simp [Except.mapError, bind, Except.bind, decoded, parsed, pure, Except.pure]

/-- A file that is there and found is one that can be read. -/
theorem sound_of_present {path : Path} (there : w.present path = .ok true) : flaw? path = none := by
  unfold World.present probe at there
  split at there
  · cases there
  · next sound => simpa using sound

/-- **Where the settings come from.** -/
theorem config_eq_ok_iff {c : List (String × Data)} : w.config = .ok c ↔ w.Loads c := by
  constructor
  · intro loaded
    unfold World.config at loaded
    dsimp only at loaded
    obtain ⟨there, present, loaded⟩ := bind_eq_ok loaded
    replace present := mapError_eq_ok present
    cases there with
    | false =>
      cases loaded
      exact .missing present
    | true =>
      obtain ⟨bytes, fetched, loaded⟩ := bind_eq_ok loaded
      obtain ⟨text, decoded, parsed⟩ := bind_eq_ok loaded
      obtain rfl := Utf8.decode_eq_ok_iff.1 (mapError_eq_ok decoded)
      split at parsed
      · next read parsed' =>
        cases parsed
        exact .file ⟨sound_of_present present, text, mapError_eq_ok fetched, parsed'⟩
      · cases parsed
  · intro loads
    cases loads with
    | missing none => exact config_of_missing none
    | file reads => exact reads.config

/-! ### Saving -/

/-- Saving writes the TOML text of the settings, which has bytes. -/
theorem saveConfig_eq_ok {c : List (String × Data)} (saved : w.saveConfig c = (.ok (), w')) :
    w'.configPath = w.configPath ∧
      ∃ text, Data.toToml c = some text ∧ w'.fetch w'.configPath = .ok (textBytes text) := by
  have environment := environment_ensureDirectory w w.configPath.parent
  unfold saveConfig at saved
  split at saved
  · cases saved
  · next w₁ made =>
    rw [made] at environment
    split at saved
    · next text written =>
      unfold storeText at saved
      split at saved
      · cases saved
      · next w₂ stored =>
        obtain ⟨outcome, rfl⟩ := Prod.mk.inj saved
        have whole : Text.isWhole text = true := by
          by_contra broken
          rw [if_neg broken] at outcome
          cases outcome
        have same := configPath_of_environment (environment_of_store stored)
        rw [if_pos whole] at stored
        exact ⟨same.trans (configPath_of_environment environment), text, written, same ▸ fetch_of_store stored⟩
    · split at saved <;> cases saved

/-- Where a file for settings can be read it can be written, in the directory that it stands in. -/
theorem store_of_fetch {own : List UInt8} (fetched : w.fetch w.configPath = .ok own) (content : List UInt8) :
    ∃ w', w.ensureDirectory w.configPath.parent = (.ok (), w) ∧ w.store w.configPath content = .ok w' := by
  obtain ⟨q, located, old, executable, there⟩ : ∃ q, w.locate w.configPath = .ok q ∧
      ∃ old executable, w.at? q = some (.file old executable) := by
    rw [fetch] at fetched
    split at fetched
    · cases fetched
    · next q located =>
      split at fetched
      · next old executable there => exact ⟨q, located, old, executable, there⟩
      · cases fetched
      · cases fetched
  obtain ⟨base, parts⟩ : ∃ base : List String, w.configPath.parts = base ++ ["config.toml"] :=
    ⟨_, congrArg Path.parts (Path.child_of_name _ (by decide) (by decide) (by decide))⟩
  obtain ⟨short, walked⟩ := locate_eq_ok.1 located
  rw [parts, walk_append_eq_ok] at walked
  obtain ⟨m, above, last⟩ := walked
  have directory := ((walk_name_eq_ok (by decide)).1 last).1
  have parent : w.locate w.configPath.parent = .ok m := by
    refine locate_eq_ok.2 ⟨tooLong_parent short, ?_⟩
    rw [Path.parent, parts, List.dropLast_concat]
    exact above
  exact ⟨_, ensureDirectory_of_locate parent directory,
    store_eq_ok_iff.2 ⟨q, located, .inl ⟨old, executable, there, rfl⟩⟩⟩

/-- **Settings that come from a file can be saved**, if their text has bytes. -/
theorem saveConfig_of_reads {read c : List (String × Data)} (reads : w.Reads read) {text : String}
    (written : Data.toToml c = some text) (whole : Text.isWhole text = true) :
    ∃ w', w.saveConfig c = (.ok (), w') := by
  obtain ⟨own, fetched, -⟩ := reads.fetched
  obtain ⟨w', made, stored⟩ := store_of_fetch fetched (textBytes text)
  refine ⟨w', ?_⟩
  unfold saveConfig
  rw [made]
  dsimp only
  rw [written]
  dsimp only
  rw [storeText, if_pos whole, stored]
  dsimp only
  rw [if_pos whole]

/-- **What was saved is in force again**, with the defaults below it. -/
theorem loads_of_saveConfig {c : List (String × Data)} (saved : w.saveConfig c = (.ok (), w'))
    (sound : flaw? w.configPath = none) :
    ∃ text, Data.toToml c = some text ∧ ∀ read, Data.ofToml text = .ok read → w'.Reads read := by
  obtain ⟨same, text, written, fetched⟩ := saveConfig_eq_ok saved
  exact ⟨text, written, fun read parsed => ⟨same ▸ sound, text, fetched, parsed⟩⟩

/-! ### Settings in force -/

theorem Reads.tidy {read : List (String × Data)} (reads : w.Reads read) : (Data.obj read).Tidy := by
  obtain ⟨text, -, parsed⟩ := reads.fetched
  exact Toml.ofToml_tidy parsed

theorem Loads.tidy {c : List (String × Data)} (loads : w.Loads c) : (Data.obj c).Tidy := by
  cases loads with
  | missing => exact Config.tidy_defaults
  | file reads =>
    exact Config.all_merge (fun _ distinct => distinct) reads.tidy.keyed Config.keyed_defaults reads.tidy
      Config.tidy_defaults

/-- The defaults add nothing to settings in force. -/
theorem Loads.complete {c : List (String × Data)} (loads : w.Loads c) : Config.merge c Config.defaults = c := by
  cases loads with
  | missing => exact Config.merge_self Config.keyed_defaults
  | file reads => exact Config.merge_absorb reads.tidy.keyed Config.keyed_defaults

/-- **Settings that are saved and loaded again are equal to what they were**, if their text is read as they are. -/
theorem config_of_saveConfig {c : List (String × Data)} (loads : w.Loads c) (saved : w.saveConfig c = (.ok (), w'))
    {text : String} (written : Data.toToml c = some text) {read : List (String × Data)}
    (parsed : Data.ofToml text = .ok read) (same : (Data.obj read).same (.obj c) = true) :
    ∃ again, w'.config = .ok again ∧ (Data.obj again).same (.obj c) = true := by
  cases flaw : flaw? w.configPath with
  | some f =>
    -- no file has that name, so the defaults are in force before and after
    have nowhere : w'.present w'.configPath = .ok false := by
      unfold World.present probe
      rw [(saveConfig_eq_ok saved).1, flaw]
      rfl
    cases loads with
    | missing =>
      exact ⟨_, config_of_missing nowhere,
        Data.same_self_of_comparable Config.keyed_defaults Config.comparable_defaults⟩
    | file reads =>
      rw [reads.sound] at flaw
      cases flaw
  | none =>
    obtain ⟨text', written', again⟩ := loads_of_saveConfig saved flaw
    obtain rfl := Option.some.inj (written.symm.trans written')
    have reads := again read parsed
    have equal := Config.same_merge reads.tidy.keyed loads.tidy.keyed Config.keyed_defaults
      Config.comparable_defaults same
    rw [loads.complete] at equal
    exact ⟨_, reads.config, equal⟩

end World

namespace Config

/-! ### The laws of merging -/

/-- What holds of two tables that are merged: the rule for a path; that nothing changes when either is merged in again;
and that the table below is as it was, with all tables in it, when a copy of it has been changed. -/
structure Merges (o b : List (String × Data)) : Prop where
  path : ∀ p, Decides o b (merge o b) p
  again : (Data.obj (merge o (merge o b))).same (.obj (merge o b)) = true
  absorbs : (Data.obj (merge (merge o b) b)).same (.obj (merge o b)) = true
  apart : ∀ {h : Heap} {base above depth : Nat}, Stands h (.table base) (.obj b) → Stands h (.table above) (.obj o) →
    tableDepth (.obj b) ≤ depth → tableDepth (.obj o) ≤ depth → ∃ m h', mergeCopy depth h base above = some (m, h') ∧
      Stands h' (.table m) (.obj (merge o b)) ∧ Stands h' (.table base) (.obj b) ∧ Keeps h h'

theorem comparable_merge {o b : List (String × Data)} (ho : (Data.obj o).Keyed) (hb : (Data.obj b).Keyed)
    (free : (Data.obj o).IsComparable) (free' : (Data.obj b).IsComparable) :
    (Data.obj (merge o b)).IsComparable := all_merge (fun _ _ => trivial) ho hb free free'

theorem merges_of_comparable {o b : List (String × Data)} (ho : (Data.obj o).Keyed) (hb : (Data.obj b).Keyed)
    (free : (Data.obj o).IsComparable) (free' : (Data.obj b).IsComparable) : Merges o b := by
  have own := Data.same_self_of_comparable (keyed_merge ho hb) (comparable_merge ho hb free free')
  refine ⟨descend_merge ho, by rwa [merge_idem ho hb], by rwa [merge_absorb ho hb], ?_⟩
  intro h base above depth stands stands' deep deep'
  obtain ⟨m, h', merged, keeps, made, -⟩ := merged_apart ho stands stands' deep deep'
  exact ⟨m, h', merged, made, stands.keep keeps, keeps⟩

/-- What holds of settings in force: they have a TOML text, and can be saved if a file for settings is there and the
text has bytes; if the text is read as what they are, then once they are saved equal settings are in force. -/
def Lasts (w : World) (c : List (String × Data)) : Prop :=
  ∃ text, Data.toToml c = some text ∧
    (w.present w.configPath = .ok true → Text.isWhole text = true → ∃ w', w.saveConfig c = (.ok (), w')) ∧
      ∀ read, Data.ofToml text = .ok read → (Data.obj read).same (.obj c) = true → ∀ w', w.saveConfig c = (.ok (), w') →
        ∃ again, w'.config = .ok again ∧ (Data.obj again).same (.obj c) = true

theorem lasts_of_loads {w : World} {c : List (String × Data)} (loads : w.Loads c) : Lasts w c := by
  obtain ⟨text, written⟩ := Option.isSome_iff_exists.1 (Toml.isSome_toToml loads.tidy)
  refine ⟨text, written, fun present whole => ?_, fun read parsed same w' saved =>
    World.config_of_saveConfig loads saved written parsed same⟩
  cases loads with
  | missing none =>
    rw [none] at present
    cases present
  | file reads => exact World.saveConfig_of_reads reads written whole

/-- **Merging obeys its laws**, for tables without not-a-number; settings that are saved last; and the defaults stay
what they are, whatever is done with the settings that were made of them. -/
theorem merging_lawful :
    (∀ o b, (Data.obj o).Keyed → (Data.obj b).Keyed → (Data.obj o).IsComparable → (Data.obj b).IsComparable →
      Merges o b) ∧
    (∀ w c, w.config = .ok c → Lasts w c) ∧
    ∀ h defaults s, Stands h (.table defaults) (.obj Config.defaults) → Acts defaults (h, []) s →
      Stands s.1 (.table defaults) (.obj Config.defaults) := by
  refine ⟨fun o b ho hb free free' => merges_of_comparable ho hb free free',
    fun w c loaded => lasts_of_loads (World.config_eq_ok_iff.1 loaded), fun h defaults s stands acts => ?_⟩
  have start : Untouched defaults (h, []) := ⟨stands, List.forall_mem_nil _⟩
  exact (defaults_stand start acts).stands

/-- Settings from a file that raises the level of the log are saved and loaded; and the defaults stand when a caller
empties the settings that it has loaded. -/
theorem merging_lawful_debug :
    (∃ w c w' again, World.config w = .ok c ∧ Data.descend ["log", "level"] (.obj c) = some (.str "debug") ∧
      w.saveConfig c = (.ok (), w') ∧ w'.config = .ok again ∧ (Data.obj again).same (.obj c) = true) ∧
    ∃ s, Acts 4 (defaultTables, []) s ∧ s.2 = [.table 9] ∧ s.1[9]? = some [] ∧
      Stands s.1 (.table 4) (.obj Config.defaults) := by
  obtain ⟨laws, lasting, unchanged⟩ := merging_lawful
  refine ⟨?_, ?_⟩
  · let o : List (String × Data) := [("log", .obj [("level", .str "debug")])]
    let w : World :=
      { nodes := [(["c"], .directory), (["c", "lspresso-shot"], .directory),
          (["c", "lspresso-shot", "config.toml"], .file (textBytes "[log]\nlevel = \"debug\"\n") false)]
        environment := [("XDG_CONFIG_HOME", "/c")]
        current := []
        temporary := ⟨.slash, ["tmp"]⟩
        nextId := "1" }
    let c : List (String × Data) :=
      [("editor", .obj [("command", .str "nvim"), ("poll_interval", .float 0.05)]),
        ("defaults", .obj [("timeout", .float 1.0), ("cleanup", .bool false)]),
        ("formatting", .obj [("tab_size", .int 4), ("insert_spaces", .bool true)]),
        ("log", .obj [("level", .str "debug")])]
    have merged : merge o Config.defaults = c := by simp [o, c, merge, Config.defaults, Data.find?, Data.put]
    have place : w.configPath = ⟨.slash, ["c", "lspresso-shot", "config.toml"]⟩ := by decide
    have reads : w.Reads o := by
      refine ⟨?_, "[log]\nlevel = \"debug\"\n", ?_, (Data.ofToml_ofList _).trans (by with_unfolding_all rfl)⟩
      · rw [place]
        rfl
      · rw [place]
        rfl
    have loaded : w.config = .ok c := merged ▸ reads.config
    have keyed : (Data.obj o).Keyed := reads.tidy.keyed
    have free : (Data.obj o).IsComparable := by simp [o, Data.IsComparable, Data.All, Data.AllEntries]
    have rule := (laws o Config.defaults keyed keyed_defaults free comparable_defaults).path ["log", "level"]
    have level := rule.above ⟨["log", "level"], [], .str "debug", rfl, rfl, fun _ same => by cases same⟩
    rw [merged] at level
    let front := "[editor]\ncommand = \"nvim\"\npoll_interval = 0.05\n\n[defaults]\ntimeout = 1.0\ncleanup = false\n\n"
    let text := front ++ "[formatting]\ntab_size = 4\ninsert_spaces = true\n\n[log]\nlevel = \"debug\"\n"
    have letters : text = String.ofList (_ ++ _) := String.ofList_append.symm
    have written : Data.toToml c = some text := by decide +kernel
    have back : (Data.ofToml text).toOption.any (fun r => (Data.obj r).same (.obj c)) = true := by
      rw [letters, Data.ofToml_ofList]
      decide +kernel
    obtain ⟨text', written', savable, again⟩ := lasting w c loaded
    obtain rfl : text = text' := Option.some.inj (written.symm.trans written')
    obtain ⟨w', saved⟩ := savable reads.present (letters ▸ (Text.isWhole_ofList _).trans rfl)
    cases parsed : Data.ofToml text with
    | error e =>
      rw [parsed] at back
      cases back
    | ok read =>
      rw [parsed] at back
      obtain ⟨settings, inForce, equal⟩ := again read parsed back w' saved
      exact ⟨w, c, w', settings, loaded, level.trans rfl, saved, inForce, equal⟩
  · obtain ⟨h', load, ten⟩ : ∃ h', Act 4 (defaultTables, []) (h', [.table 9]) ∧ h'.length = 10 :=
      ⟨_, .load (Nat.le_refl 2) rfl, rfl⟩
    have change : Act 4 (h', [.table 9]) (h'.set 9 [], [.table 9]) := .change (List.mem_singleton.2 rfl)
      fun _ _ mem => absurd mem List.not_mem_nil
    have acts : Acts 4 (defaultTables, []) (h'.set 9 [], [.table 9]) := .more (.more (.none _) load) change
    exact ⟨_, acts, rfl, List.getElem?_set_self (by omega), unchanged _ 4 _ stands_defaultTables acts⟩

end Config

end ServerTrial
