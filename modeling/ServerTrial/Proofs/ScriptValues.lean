import ServerTrial.Proofs.OnePass
import ServerTrial.Proofs.Payload

/-!
# Values in the script

The script of a case is what one chain of replacements makes of the script of its request (`Case.script_eq_chain`).
Every word in capitals there is a placeholder or holds none (`Request.template_named`), so the script has every
value as it was written exactly if no replacement finds its placeholder in a value put in before:
`Case.script_at_once`.  Such values there are: a command that ends like a
placeholder is cut short (`Case.not_intact_of_run_commands`).
-/

namespace ServerTrial

open Lua

namespace Lua

theorem Placeholder.commands_mem : commands ∈ placeholders :=
  List.mem_cons_of_mem _ (List.mem_append_left _ commands_mem_common)

namespace Template

theorem collect_named : ∃ lines, collect = ofLines lines ∧ NamedLines commonPlaceholders lines := by
  unfold collect
  refine ⟨_, rfl, ?_⟩
  apply Spelled.named
  · repeat (first | exact Spelled.nil | apply Spelled.cons)
  · decide

/-- Every word in capitals of a script is a placeholder or holds none. -/
theorem whole_named (f : Fragment) : ∀ w ∈ words [] (whole f).toList, Named (.assign :: namesOf f) w := by
  by_cases sends : f = .collect
  · subst sends
    obtain ⟨front, shared_eq, namedFront⟩ := shared_named
    obtain ⟨lines, collect_eq, namedLines⟩ := collect_named
    obtain ⟨back, attach_eq, namedBack⟩ := attach_named
    have all : NamedLines (.assign :: namesOf .collect) (front ++ lines ++ back) :=
      NamedLines.mono (List.subset_cons_of_subset _ (List.subset_append_left _ _))
        (List.forall_mem_append.2 ⟨List.forall_mem_append.2 ⟨namedFront, namedLines⟩, namedBack⟩)
    have text : (whole .collect).toList = (ofLines (front ++ lines ++ back)).toList := by
      rw [whole, ofFragment, shared_eq, collect_eq, attach_eq, String.toList_append, String.toList_append]
      simp only [toList_ofLines, List.flatMap_append]
    rw [text]
    exact all.words
  · obtain ⟨before, after, shape, namedBefore, namedAfter⟩ := whole_split sends
    have slot : words [] Placeholder.assign.letters = [Placeholder.assign.letters] :=
      words_of_capital (Placeholder.assign.letters_capital List.mem_cons_self) []
    have more : namesOf f ⊆ .assign :: namesOf f := List.subset_cons_self _ _
    rw [shape, words_append_cons rfl, words_append_cons rfl, slot]
    refine List.forall_mem_append.2 ⟨fun w hw => (namedBefore w hw).mono more, List.forall_mem_append.2 ⟨?_, ?_⟩⟩
    · exact List.forall_mem_singleton.2 (.inr List.mem_cons_self)
    · exact fun w hw => (namedAfter w hw).mono more

/-- Every script has a place for the commands that the editor advertises. -/
theorem commands_mem_words (f : Fragment) : Placeholder.commands.letters ∈ words [] (whole f).toList := by
  have line : ∃ lines, shared = ofLines lines ∧ "            COMMANDS" ∈ lines := by
    unfold shared
    exact ⟨_, rfl, by simp⟩
  obtain ⟨lines, shared_eq, inside⟩ := line
  obtain ⟨front, back, rfl⟩ := List.append_of_mem inside
  have spaces : "            COMMANDS".toList = List.replicate 11 ' ' ++ ' ' :: Placeholder.commands.letters :=
    String.toList_ofList
  have place : (whole f).toList = ((ofLines front).toList ++ List.replicate 11 ' ') ++ ' ' ::
      (Placeholder.commands.letters ++ '\n' :: ((ofLines back).toList ++ (ofFragment f ++ attach).toList)) := by
    rw [whole, shared_eq, String.append_assoc, String.toList_append]
    simp only [toList_ofLines, List.flatMap_append, List.flatMap_cons, spaces, List.append_assoc, List.cons_append,
      List.nil_append]
  rw [place]
  exact mem_words_between rfl rfl (Placeholder.commands.letters_capital Placeholder.commands_mem) _ _

end Template

theorem templatePlaceholders_subset : templatePlaceholders ⊆ placeholders :=
  List.cons_subset_cons _ (List.append_subset.2 ⟨List.subset_append_left _ _,
    List.subset_append_of_subset_right _ (List.cons_subset_cons _ (List.nil_subset _))⟩)

theorem Placeholder.invoke_mem : invoke ∈ placeholders :=
  List.mem_cons_of_mem _ (List.mem_append_right _ (List.mem_cons_of_mem _ List.mem_cons_self))

/-- Other placeholders than that for the function may be in such a script. -/
theorem mem_templatePlaceholders {f : Fragment} {q : Placeholder} (hq : q ∈ Placeholder.assign :: Template.namesOf f)
    (other : q.name ≠ Placeholder.invoke.name) : q ∈ templatePlaceholders := by
  rcases List.mem_cons.1 hq with rfl | hq
  · exact List.mem_cons_self
  refine List.mem_cons_of_mem _ ?_
  rcases List.mem_append.1 hq with common | action
  · exact List.mem_append_left _ common
  · split at action
    next =>
      rcases List.mem_cons.1 action with rfl | function
      · exact List.mem_append_right _ List.mem_cons_self
      · exact absurd (congrArg Placeholder.name (List.mem_singleton.1 function)) other
    next => exact absurd action List.not_mem_nil

end Lua

namespace Request

/-- The script of a request before anything of a case is filled in.  The function by which the editor performs the
request is a part of it. -/
def template (r : Request) : List Char :=
  match r.action? with
  | some action => fill (Template.whole r.fragment).toList ⟨Placeholder.invoke.name, action⟩
  | none => (Template.whole r.fragment).toList

variable {r : Request} {action : String}

theorem template_of_none (no : r.action? = none) : r.template = (Template.whole r.fragment).toList := by
  rw [template, no]

theorem template_of_some (h : r.action? = some action) : r.template =
    mapWords (fun w => fill w ⟨Placeholder.invoke.name, action⟩) [] (Template.whole r.fragment).toList := by
  have step := fill_mapWords (s := ⟨Placeholder.invoke.name, action⟩) Placeholder.invoke_mem rfl id []
    (Template.whole r.fragment).toList
  rw [mapWords_id, List.nil_append] at step
  rw [template, h]
  exact step

/-- The function is put in its place, and every other word stays. -/
theorem fill_invoke (action : String) {f : Fragment} {w : List Char}
    (named : Named (.assign :: Template.namesOf f) w) :
    (fill w ⟨Placeholder.invoke.name, action⟩ = w ∧ Named templatePlaceholders w) ∨
      w = Placeholder.invoke.letters ∧ fill w ⟨Placeholder.invoke.name, action⟩ = action.toList := by
  have invoke := Placeholder.invoke_mem
  rcases named with free | listed
  · exact .inl ⟨fill_of_unmarked invoke rfl free, .inl free⟩
  · obtain ⟨q, hq, rfl⟩ := List.mem_map.1 listed
    by_cases same : q.name = Placeholder.invoke.name
    · have letters : q.letters = Placeholder.invoke.letters := by
        rw [← q.toList_name, ← Placeholder.toList_name, same]
      rw [letters]
      exact .inr ⟨rfl, fill_same invoke rfl⟩
    · have inside : q ∈ templatePlaceholders := mem_templatePlaceholders hq same
      exact .inl ⟨fill_other invoke (templatePlaceholders_subset inside) rfl (Ne.symm same),
        .inr (List.mem_map_of_mem inside)⟩

/-- **What can be filled in for a request**: every word in capitals is a placeholder or holds none, and the function
is in its place. -/
theorem template_named (r : Request) : ∀ w ∈ words [] r.template, Named templatePlaceholders w := by
  cases h : r.action? with
  | none =>
    have plain : .assign :: Template.namesOf r.fragment ⊆ templatePlaceholders := by
      have apart : r.fragment ≠ .askOrAct := by
        cases r
        case formatting | executeCommand => exact nomatch h
        all_goals exact nofun
      rw [Template.namesOf, if_neg apart, List.append_nil]
      exact List.cons_subset_cons _ (List.subset_append_left _ _)
    rw [template_of_none h]
    exact fun w hw => (Template.whole_named _ w hw).mono plain
  | some action =>
    rw [template_of_some h, words_mapWords]
    intro w' hw'
    obtain ⟨w, hw, hw'⟩ := List.mem_flatMap.1 hw'
    rcases fill_invoke action (Template.whole_named _ w hw) with ⟨same, named⟩ | ⟨-, put⟩
    · rw [same] at hw'
      exact named.words templatePlaceholders_subset w' hw'
    · rw [put] at hw'
      refine (action_named h w' hw').mono (List.cons_subset.2 ⟨?_, List.nil_subset _⟩)
      simp [templatePlaceholders, commonPlaceholders]

/-- A placeholder of the script other than that for the function is still there. -/
theorem mem_words_template {q : Placeholder} (hq : q ∈ placeholders) (other : q.name ≠ Placeholder.invoke.name)
    (inside : q.letters ∈ words [] (Template.whole r.fragment).toList) : q.letters ∈ words [] r.template := by
  cases h : r.action? with
  | none =>
    rw [template_of_none h]
    exact inside
  | some action =>
    rw [template_of_some h, words_mapWords, List.mem_flatMap]
    refine ⟨q.letters, inside, ?_⟩
    rw [fill_other Placeholder.invoke_mem hq rfl (Ne.symm other), words_of_capital (q.letters_capital hq)]
    exact List.mem_singleton_self _

/-- A replacement that a request asks for is one of the commands, of the flag, or of the function. -/
theorem of_mem_replacements {commands : Option (List String)} {acts : Bool} {s : Substitution}
    (hs : s ∈ r.replacements commands acts) :
    (∃ cs, commands = some cs ∧ s = ⟨"COMMANDS", ", ".intercalate (cs.map Lua.quoted)⟩) ∨
      (s.placeholder = "INVOKE_ACTION" ∧ Unmarked s.replacement.toList) ∨
      s.placeholder = Placeholder.invoke.name ∧ r.action? = some s.replacement := by
  rcases List.mem_append.1 hs with advertised | mode
  · cases commands with
    | none => exact absurd advertised List.not_mem_nil
    | some cs => exact .inl ⟨cs, rfl, List.mem_singleton.1 advertised⟩
  · split at mode
    next action h =>
      rcases List.mem_cons.1 mode with rfl | function
      · refine .inr (.inl ⟨rfl, ?_⟩)
        dsimp only
        split <;> decide
      · rw [List.mem_singleton.1 function]
        exact .inr (.inr ⟨rfl, h⟩)
    next => exact absurd mode List.not_mem_nil

/-- The function is the last thing that a request asks to put in. -/
theorem replacements_concat (h : r.action? = some action) (commands : Option (List String)) (acts : Bool) :
    ∃ early, r.replacements commands acts = early ++ [⟨Placeholder.invoke.name, action⟩] ∧
      ∀ s ∈ early, s.placeholder ∈ ["COMMANDS", "INVOKE_ACTION"] := by
  refine ⟨(commands.map fun cs => ⟨"COMMANDS", ", ".intercalate (cs.map Lua.quoted)⟩).toList ++
    [⟨"INVOKE_ACTION", if acts then "true" else "false"⟩], ?_, ?_⟩
  · rw [replacements, h, List.append_assoc]
    rfl
  · cases commands <;> simp

/-- The chain of replacements makes the same of the script whether or not the function is in its place: what is
replaced before does not touch the function. -/
theorem foldl_fill_template {attach : Substitution} {commands : Option (List String)} {acts : Bool}
    (attached : attach.placeholder = "LSP_ACTION") {behind : List Substitution}
    (known : Known (attach :: r.replacements commands acts ++ behind)) :
    (attach :: r.replacements commands acts ++ behind).foldl fill r.template =
      (attach :: r.replacements commands acts ++ behind).foldl fill (Template.whole r.fragment).toList := by
  cases h : r.action? with
  | none => rw [template_of_none h]
  | some action =>
    obtain ⟨early, split, names⟩ := replacements_concat h commands acts
    rw [split, ← List.cons_append] at known ⊢
    have front := (List.forall_mem_append.1 known).1
    have others : ∀ name ∈ (attach :: early).map Substitution.placeholder,
        name ∈ ["LSP_ACTION", "COMMANDS", "INVOKE_ACTION"] := by
      rw [List.map_cons, List.forall_mem_cons, attached, List.forall_mem_map]
      exact ⟨List.mem_cons_self, fun s hs => List.mem_cons_of_mem _ (names s hs)⟩
    have first : Placeholder.invoke.name ∉ (attach :: early).map Substitution.placeholder := fun inside =>
      absurd (others _ inside) (by decide)
    have apart : ∀ q ∈ [(⟨"TIMEOUT_MS", _, rfl⟩ : Placeholder)], q ∈ placeholders ∧
        q.name ∉ (attach :: early ++ [(⟨Placeholder.invoke.name, action⟩ : Substitution)]).map
          Substitution.placeholder := by
      have known := List.mem_of_mem_tail Placeholder.timeout_mem_tail
      refine List.forall_mem_singleton.2
        ⟨List.mem_cons_of_mem _ (List.mem_append_left _ known), fun inside => ?_⟩
      rw [List.map_append, List.mem_append] at inside
      exact inside.elim (fun inside => absurd (others _ inside) (by decide)) (by simp [Placeholder.invoke])
    have stays := foldl_fill_of_named front apart (action_named h)
    have comes := foldl_fill_first front Placeholder.invoke_mem rfl first
    rw [template_of_some h, foldl_fill_mapWords known, foldl_fill_eq_mapWords known]
    refine mapWords_congr fun w hw => ?_
    rcases fill_invoke action (Template.whole_named _ w hw) with ⟨same, -⟩ | ⟨rfl, put⟩
    · rw [same]
    · rw [put, List.foldl_append, stays, List.foldl_append, comes, List.foldl_nil]

end Request

namespace Case

variable {c : Case} {l : Layout} {r : Request} {is : List Injection}

/-- The replacements that make the script of a case, in the order in which they are made. -/
def chain (c : Case) (l : Layout) (r : Request) (is : List Injection) : Except Failure (List Substitution) := do
  let _ ← l.source c.source.path
  let compiled ← (Injection.assemble is).mapError Failure.fault
  let attach ← (c.attachSubstitution r.fragment).mapError Failure.fault
  let standard ← c.substitutions l r.method
  return attach :: compiled.substitutions ++ standard ++ [⟨Placeholder.assign.name, blockText compiled.statements⟩]

theorem script_eq_chain : c.script l r is =
    (c.chain l r is).map fun subs => String.ofList (subs.foldl fill (Template.whole r.fragment).toList) := by
  unfold script chain
  cases l.source c.source.path with
  | error e => rfl
  | ok p =>
    cases Injection.assemble is with
    | error e => rfl
    | ok compiled =>
      cases c.attachSubstitution r.fragment with
      | error e => rfl
      | ok attach =>
        cases c.substitutions l r.method with
        | error e => rfl
        | ok standard =>
          exact congrArg (fun cs => Except.ok (String.ofList cs)) (List.foldl_concat ..).symm

theorem isOk_script : (c.script l r is).isOk = (c.chain l r is).isOk := by
  rw [script_eq_chain]
  cases c.chain l r is <;> rfl

theorem isOk_chain : (c.chain l r is).isOk = ((l.source c.source.path).isOk && (Injection.assemble is).isOk &&
    (c.attachSubstitution r.fragment).isOk && c.fileExtension.isOk && c.milliseconds.isOk) := by
  unfold chain substitutions
  cases l.source c.source.path with
  | error e => rfl
  | ok p =>
    cases Injection.assemble is with
    | error e => rfl
    | ok compiled =>
      cases c.attachSubstitution r.fragment with
      | error e => rfl
      | ok attach =>
        cases c.fileExtension with
        | error e => rfl
        | ok extension => cases c.milliseconds <;> rfl

/-- What the chain consists of, for injections that ask for the replacements of a request. -/
theorem chain_spec {commands : Option (List String)} {acts : Bool}
    (raws : Injection.rawsAll is = r.replacements commands acts) {subs : List Substitution}
    (h : c.chain l r is = .ok subs) : ∃ attach standard block,
      subs = attach :: r.replacements commands acts ++ standard ++ [⟨Placeholder.assign.name, block⟩] ∧
      c.attachSubstitution r.fragment = .ok attach ∧ c.substitutions l r.method = .ok standard := by
  unfold chain at h
  obtain ⟨_, -, h⟩ := bind_eq_ok h
  obtain ⟨compiled, assembled, h⟩ := bind_eq_ok h
  obtain ⟨attach, attached, h⟩ := bind_eq_ok h
  obtain ⟨standard, substituted, h⟩ := bind_eq_ok h
  rw [← raws, ← Injection.assemble_substitutions (mapError_eq_ok assembled)]
  exact ⟨attach, standard, _, (Except.ok.inj h).symm, mapError_eq_ok attached, substituted⟩

section Chain

variable {commands : Option (List String)} {acts : Bool} {subs : List Substitution}

theorem known_chain (raws : Injection.rawsAll is = r.replacements commands acts) (h : c.chain l r is = .ok subs) :
    Known subs := by
  obtain ⟨attach, standard, block, rfl, attached, substituted⟩ := chain_spec raws h
  exact (inner_chain (attachSubstitution_spec (l := l) attached).1 (substitutions_spec substituted).1).known.append
    (List.forall_mem_singleton.2 ⟨.assign, List.mem_cons_self, rfl⟩)

/-- **A script has its values at once exactly if the chain leaves them as they are.** -/
theorem script_eq_fillAtOnce_iff (raws : Injection.rawsAll is = r.replacements commands acts)
    (h : c.chain l r is = .ok subs) {text : String} (made : c.script l r is = .ok text) :
    text.toList = fillAtOnce subs r.template ↔ Intact r.template subs := by
  have known := known_chain raws h
  obtain ⟨attach, standard, block, rfl, attached, -⟩ := chain_spec raws h
  rw [script_eq_chain, h] at made
  rw [← Except.ok.inj made, String.toList_ofList, ← foldl_fill_eq_fillAtOnce_iff known fun w hw =>
    (r.template_named w hw).mono templatePlaceholders_subset]
  rw [List.append_assoc] at known ⊢
  rw [Request.foldl_fill_template (attachSubstitution_spec (l := l) attached).1 known]

/-- Values without placeholders stay as they are, and so does the block of the parameters, whatever it holds. -/
theorem intact_of_isUnmarked (free : c.IsUnmarked l) (raws : Injection.rawsAll is = r.replacements commands acts)
    (advertised : ∀ t ∈ commands.getD [], Unmarked t.toList) (h : c.chain l r is = .ok subs) :
    Intact r.template subs := by
  have known := known_chain raws h
  obtain ⟨attach, standard, block, rfl, attached, substituted⟩ := chain_spec raws h
  refine intact_concat known fun s hs inside => ?_
  rcases List.mem_append.1 hs with early | late
  · rcases List.mem_cons.1 early with rfl | asked
    · exact (attachSubstitution_spec attached).2 free
    · rcases Request.of_mem_replacements asked with ⟨cs, rfl, rfl⟩ | ⟨-, flag⟩ | ⟨name, -⟩
      · exact unmarked_commands advertised
      · exact flag
      · rw [name] at inside
        exact absurd (r.template_named _ inside) (by decide)
  · exact (substitutions_spec substituted).2 free s late

/-- A command that ends like a placeholder is cut short when the place of the commands is cleared. -/
theorem not_intact_of_run_commands
    (raws : Injection.rawsAll is = Request.executeCommand.replacements (some ["RUN_COMMANDS"]) acts)
    (h : c.chain l .executeCommand is = .ok subs) : ¬ Intact Request.executeCommand.template subs := by
  intro intact
  obtain ⟨attach, standard, block, rfl, attached, substituted⟩ := chain_spec raws h
  obtain ⟨front, rfl⟩ := substitutions_concat substituted
  have first := (attachSubstitution_spec (l := l) attached).1
  have standardNames := (substitutions_spec substituted).1
  have names := standardNames
  rw [List.map_append] at names
  have frontNames := List.append_inj_left' (names.trans (List.dropLast_append_getLast (by decide)).symm) rfl
  have place : Placeholder.commands.name.toList ∈ words [] Request.executeCommand.template := by
    rw [Placeholder.toList_name]
    exact Request.mem_words_template Placeholder.commands_mem (by decide) (Template.commands_mem_words _)
  have kept := intact [attach] ⟨Placeholder.commands.name, ", ".intercalate (["RUN_COMMANDS"].map quoted)⟩
    ((Request.executeCommand.replacements none acts ++ front) ++
      [⟨"COMMANDS", ""⟩, ⟨Placeholder.assign.name, block⟩])
    (by simp [Request.replacements, Placeholder.commands]) (by rw [List.map_singleton, first]; decide) place
  have written : (", ".intercalate (["RUN_COMMANDS"].map quoted)).toList = "\"RUN_COMMANDS\"".toList := by
    decide +kernel
  have sub : Known (Request.executeCommand.replacements none acts ++ front) :=
    inner_replacements.known.append (List.forall_mem_append.1 (inner_standard standardNames).known).1
  have early : (Request.executeCommand.replacements none acts ++ front).foldl fill "\"RUN_COMMANDS\"".toList =
      "\"RUN_COMMANDS\"".toList := by
    have absent : ∀ name ∈ (Request.executeCommand.replacements none acts ++ front).map Substitution.placeholder,
        Text.occurs name.toList "\"RUN_COMMANDS\"".toList = false := by
      rw [List.map_append, frontNames]
      change ∀ name ∈ ["INVOKE_ACTION", "INVOKE_FN"] ++ _, _
      decide +kernel
    exact foldl_fill_of_not_occurs sub fun s hs => absent _ (List.mem_map_of_mem hs)
  have cleared : fill "\"RUN_COMMANDS\"".toList ⟨"COMMANDS", ""⟩ = "\"RUN_\"".toList := by decide +kernel
  have late : fill "\"RUN_\"".toList ⟨Placeholder.assign.name, block⟩ = "\"RUN_\"".toList :=
    fill_of_unmarked List.mem_cons_self rfl (by decide +kernel)
  rw [written, List.foldl_append, early, List.foldl_cons, cleared, List.foldl_cons, late] at kept
  exact absurd kept (by decide +kernel)

end Chain

/-- **Values reach the script as they are**, for every request, case and list of advertised commands, exactly if the
chain leaves the values that it puts in as they are: then the script is the one of the request with all placeholders
replaced at once.  So it is if neither the values of the case nor the commands hold a placeholder, whatever the
parameters hold. -/
theorem script_at_once (c : Case) (l : Layout) (r : Request) (w : World) (e : Expectation) (given : Inputs)
    (is : List Injection) (injected : r.injections c w e given = .ok is) :
    (∃ commands, Injection.rawsAll is = r.replacements commands e.isEndState) ∧
    (c.script l r is).isOk = (c.chain l r is).isOk ∧
    ∀ text subs, c.script l r is = .ok text → c.chain l r is = .ok subs →
      (text.toList = fillAtOnce subs r.template ↔ Intact r.template subs) ∧
      (c.IsUnmarked l → ∀ commands : Option (List String),
        Injection.rawsAll is = r.replacements commands e.isEndState → (∀ t ∈ commands.getD [], Unmarked t.toList) →
        Intact r.template subs) := by
  obtain ⟨commands, raws⟩ := r.injections_raws injected
  refine ⟨⟨commands, raws⟩, ?_, fun text subs made chained => ⟨?_, ?_⟩⟩
  · exact isOk_script
  · exact script_eq_fillAtOnce_iff raws chained made
  · exact fun free commands raws advertised => intact_of_isUnmarked free raws advertised chained

/-- A command without placeholders. -/
theorem script_at_once_build :
    let w : World := ⟨[], [], [], ⟨.slash, ["t"]⟩, "1"⟩
    let c : Case := ⟨"/s", ⟨"a.b", .str ""⟩, none, [], .immediate, 1, true, "/e", "1"⟩
    let given : Inputs := [("command", .text "x"), ("commands", .list [.text "build"])]
    ∃ is, Request.executeCommand.injections c w .nothing given = .ok is ∧
      ∀ text subs, c.script (c.layout w) .executeCommand is = .ok text →
        c.chain (c.layout w) .executeCommand is = .ok subs →
        text.toList = fillAtOnce subs Request.executeCommand.template := by
  intro w c given
  have free : c.IsUnmarked (c.layout w) :=
    ⟨fun m => by cases m <;> decide +kernel, by decide +kernel, by decide +kernel, by decide +kernel,
      by decide +kernel, nofun⟩
  have injected : ∃ is, Request.executeCommand.injections c w .nothing given = .ok is ∧
      Injection.rawsAll is = Request.executeCommand.replacements (some ["build"]) false := ⟨_, rfl, rfl⟩
  obtain ⟨is, injected, raws⟩ := injected
  refine ⟨is, injected, fun text subs made chained => ?_⟩
  obtain ⟨-, -, spec⟩ := script_at_once c (c.layout w) .executeCommand w .nothing given is injected
  obtain ⟨at_once, intact⟩ := spec text subs made chained
  exact at_once.2 (intact free (some ["build"]) raws (by decide +kernel))

/-- The command stands in the script as `RUN_`. -/
theorem script_not_at_once :
    let w : World := ⟨[], [], [], ⟨.slash, ["t"]⟩, "1"⟩
    let c : Case := ⟨"/s", ⟨"a.b", .str ""⟩, none, [], .immediate, 1, true, "/e", "1"⟩
    let given : Inputs := [("command", .text "x"), ("commands", .list [.text "RUN_COMMANDS"])]
    ∃ is, Request.executeCommand.injections c w .nothing given = .ok is ∧
      (c.script (c.layout w) .executeCommand is).isOk = c.milliseconds.isOk ∧
      ∀ text subs, c.script (c.layout w) .executeCommand is = .ok text →
        c.chain (c.layout w) .executeCommand is = .ok subs →
        text.toList ≠ fillAtOnce subs Request.executeCommand.template := by
  intro w c given
  have injected : ∃ is, Request.executeCommand.injections c w .nothing given = .ok is ∧
      Injection.rawsAll is = Request.executeCommand.replacements (some ["RUN_COMMANDS"]) false ∧
      (Injection.assemble is).isOk = true := ⟨_, rfl, rfl, by decide +kernel⟩
  obtain ⟨is, injected, raws, assembled⟩ := injected
  refine ⟨is, injected, ?_, fun text subs made chained same => ?_⟩
  · have source : ((c.layout w).source c.source.path).isOk = true := by decide +kernel
    have attached : (c.attachSubstitution Request.executeCommand.fragment).isOk = true := rfl
    have extension : c.fileExtension.isOk = true := by decide +kernel
    rw [isOk_script, isOk_chain, source, assembled, attached, extension]
    rfl
  · exact not_intact_of_run_commands raws chained ((script_eq_fillAtOnce_iff raws chained made).1 same)

end Case

end ServerTrial
