import ServerTrial.Proofs.ScriptText
import ServerTrial.Proofs.Assembly
import ServerTrial.Request.Parameters

/-!
# Payloads stay as they are

What a request sends along stands in one block of the script, and the script around the block is made without
looking at it.  Of the injections only those of the two requests that the editor may perform ask for replacements
(`Request.injections_raws`), and these leave nothing to fill in (`resolves_chain`).  Hence the parts before and
behind the block are free of placeholders and the same for all inputs that ask for the same replacements, whatever
their JSON texts mention: `Case.script_around_block`.
-/

namespace ServerTrial

/-! ### Replacements of a request -/

/-- Something holds of what a computation yields, if it yields anything. -/
def Gives {ε α : Type} (P : α → Prop) (x : Except ε α) : Prop := ∀ a, x = .ok a → P a

section Gives

variable {ε α β : Type} {P : β → Prop}

theorem gives_pure {b : β} (h : P b) : Gives P (pure b : Except ε β) := fun _ eq => Except.ok.inj eq ▸ h

theorem gives_bind {x : Except ε α} {f : α → Except ε β} {Q : α → Prop} (h : Gives Q x)
    (next : ∀ a, Q a → Gives P (f a)) : Gives P (x >>= f) := by
  cases x with
  | error e => exact fun _ eq => nomatch eq
  | ok a => exact next a (h a rfl)

theorem gives_bind_any {x : Except ε α} {f : α → Except ε β} (next : ∀ a, Gives P (f a)) :
    Gives P (x >>= f) :=
  gives_bind (Q := fun _ => True) (fun _ _ => trivial) fun a _ => next a

theorem gives_mapM {f : α → Except ε β} (h : ∀ a, Gives P (f a)) (as : List α) :
    Gives (fun bs => ∀ b ∈ bs, P b) (as.mapM f) := by
  induction as with
  | nil => exact gives_pure nofun
  | cons a as ih =>
    rw [List.mapM_cons]
    exact gives_bind (h a) fun b hb => gives_bind ih fun bs hbs => gives_pure (List.forall_mem_cons.2 ⟨hb, hbs⟩)

end Gives

namespace Injection

/-- Injections that ask for no replacements. -/
def Plain (is : List Injection) : Prop := rawsAll is = []

theorem plain_nil : Plain [] := rfl

theorem plain_cons {i : Injection} {is : List Injection} (first : i.raws = []) (rest : Plain is) : Plain (i :: is) := by
  rw [Plain, rawsAll, first, rest, List.append_nil]

theorem Plain.append {is js : List Injection} (front : Plain is) (rest : Plain js) : Plain (is ++ js) := by
  rw [Plain, rawsAll_append, front, rest, List.append_nil]

theorem ofData_raws (name : String) (d : Data) : Gives (fun i => i.raws = []) (ofData name d) := by
  unfold ofData
  split
  · exact gives_pure rfl
  · exact fun _ eq => nomatch eq

theorem spreadData_raws (name : String) (fields : List String) (d : Data) :
    Gives (fun i => i.raws = []) (spreadData name fields d) := by
  unfold spreadData
  split
  · exact gives_pure rfl
  · exact fun _ eq => nomatch eq

theorem ofPosition_raws (v : Value) (name : String) : (ofPosition v name).raws = [] := by
  unfold ofPosition
  split <;> rfl

theorem ofRange_raws (v : Value) (name : String) : (ofRange v name).raws = [] := by
  unfold ofRange
  split <;> rfl

end Injection

namespace Request

open Injection (Plain plain_nil plain_cons)

theorem optionalInjection_plain (name : String) (v : Value) : Gives Plain (optionalInjection name v) := by
  unfold optionalInjection
  split
  · exact gives_pure plain_nil
  · exact gives_bind (Injection.ofData_raws _ _) fun _ hi => gives_pure (plain_cons hi plain_nil)

theorem spreadRecord_plain (name : String) (v : Value) : Gives Plain (spreadRecord name v) :=
  gives_bind_any fun _ => gives_bind (Injection.spreadData_raws _ _ _) fun _ hi =>
    gives_pure (plain_cons hi plain_nil)

variable {c : Case} {w : World} {e : Expectation} {given : Inputs}

/-- Requests that the editor cannot perform ask for no replacements. -/
theorem slotInjections_plain (r : Request) (no : r.action? = none) : Gives Plain (r.slotInjections c w e given) := by
  have one : ∀ {x : Except Fault Injection}, Gives (fun i => i.raws = []) x →
      Gives Plain (x >>= fun i => pure [i]) := fun h => gives_bind h fun _ hi => gives_pure (plain_cons hi plain_nil)
  unfold slotInjections
  cases r
  case formatting | executeCommand => exact nomatch no
  case incomingCalls | outgoingCalls | typeHierarchySupertypes | typeHierarchySubtypes =>
    exact gives_bind_any fun _ => one (Injection.spreadData_raws _ _ _)
  case references =>
    refine gives_bind (Injection.ofData_raws _ _) fun i hi => gives_pure (plain_cons ?_ plain_nil)
    exact plain_cons hi plain_nil
  case rename | workspaceSymbol => exact one (Injection.ofData_raws _ _)
  case codeLensResolve | documentLinkResolve | codeActionResolve | completionResolve => exact spreadRecord_plain _ _
  case selectionRange =>
    dsimp only
    split <;> exact gives_bind_any fun _ => gives_bind_any fun _ => one (Injection.ofData_raws _ _)
  case semanticTokensRange => exact gives_pure (plain_cons (Injection.ofRange_raws _ _) plain_nil)
  case signatureHelp =>
    dsimp only
    split
    · exact gives_pure plain_nil
    · exact gives_bind_any fun _ => one (Injection.ofData_raws _ _)
  case inlayHint =>
    dsimp only
    split
    · exact gives_pure (plain_cons (Injection.ofRange_raws _ _) plain_nil)
    · exact gives_bind_any fun _ => gives_pure (plain_cons rfl plain_nil)
  case codeAction =>
    dsimp only
    split <;> exact gives_bind_any fun _ => gives_bind (Injection.ofData_raws _ _) fun _ hi =>
      gives_pure (plain_cons (Injection.ofRange_raws _ _) (plain_cons hi plain_nil))
  case documentDiagnostic =>
    exact gives_bind (optionalInjection_plain _ _) fun _ hi => gives_bind (optionalInjection_plain _ _) fun _ hj =>
      gives_pure (hi.append hj)
  case workspaceDiagnostic =>
    refine gives_bind (optionalInjection_plain _ _) fun _ hi => ?_
    dsimp only
    split <;> exact gives_bind_any fun _ => gives_bind_any fun _ => gives_bind (Injection.ofData_raws _ _)
      fun _ hj => gives_pure (hi.append (plain_cons hj plain_nil))
  case colorPresentation =>
    exact gives_bind_any fun _ => gives_bind (Injection.ofData_raws _ _) fun _ hi =>
      gives_pure (plain_cons hi (plain_cons (Injection.ofRange_raws _ _) plain_nil))
  all_goals exact gives_pure plain_nil

/-- The replacements that a request asks for: the commands that the editor advertises, and whether and how the editor
performs the request. -/
def replacements (r : Request) (commands : Option (List String)) (acts : Bool) : List Substitution :=
  (commands.map fun cs => ⟨"COMMANDS", ", ".intercalate (cs.map Lua.quoted)⟩).toList ++
    match r.action? with
    | some action => [⟨"INVOKE_ACTION", if acts then "true" else "false"⟩, ⟨"INVOKE_FN", action⟩]
    | none => []

theorem modeInjections_raws (r : Request) :
    Injection.rawsAll (r.modeInjections e) = r.replacements none e.isEndState := by
  unfold modeInjections replacements
  cases r.action? <;> rfl

theorem commandLiteral_quoted (v : Value) : Gives (· ∈ Set.range Lua.quoted) (commandLiteral v) := by
  unfold commandLiteral
  split
  · split
    · exact gives_pure ⟨_, rfl⟩
    · exact fun _ eq => nomatch eq
  · exact fun _ eq => nomatch eq

theorem commandInjections_raws (commands : Value) :
    Gives (fun is => ∃ cs, Injection.rawsAll is = (Option.map (fun cs : List String =>
        (⟨"COMMANDS", ", ".intercalate (cs.map Lua.quoted)⟩ : Substitution)) cs).toList)
      (commandInjections commands) := by
  unfold commandInjections
  split
  · refine gives_bind_any fun vs => gives_bind (gives_mapM commandLiteral_quoted vs) fun literals quoted => ?_
    obtain ⟨cs, rfl⟩ : literals ∈ Set.range (List.map Lua.quoted) := by
      rw [Set.range_list_map]
      exact quoted
    exact gives_pure ⟨some cs, rfl⟩
  · exact gives_pure ⟨none, rfl⟩

theorem slotInjections_raws (r : Request) : Gives (fun is => ∃ commands,
    Injection.rawsAll is = r.replacements commands e.isEndState) (r.slotInjections c w e given) := by
  cases action : r.action? with
  | none =>
    refine fun is eq => ⟨none, ?_⟩
    rw [slotInjections_plain r action is eq, replacements, action]
    rfl
  | some f =>
    have mode := modeInjections_raws (e := e) r
    unfold slotInjections
    cases r
    case formatting =>
      have sent := fun name d => Injection.ofData_raws name d
      dsimp only
      split <;>
      · refine gives_bind_any fun _ => gives_bind_any fun _ => gives_bind (sent _ _) fun i hi =>
          gives_pure ⟨none, ?_⟩
        rw [Injection.rawsAll, hi, List.nil_append, mode]
    case executeCommand =>
      refine gives_bind (Injection.spreadData_raws _ _ _) fun i hi =>
        gives_bind (commandInjections_raws _) fun is ⟨commands, his⟩ => gives_pure ⟨commands, ?_⟩
      rw [Injection.rawsAll, hi, List.nil_append, Injection.rawsAll_append, his, mode]
      rfl
    all_goals exact nomatch action

theorem inputInjections_raws (r : Request) : Gives (fun is => ∃ commands,
    Injection.rawsAll is = r.replacements commands e.isEndState) (r.inputInjections c w e given) := by
  have plain : r.action? = none → ∀ {is : List Injection}, Plain is →
      ∃ commands, Injection.rawsAll is = r.replacements commands e.isEndState := by
    intro action is h
    refine ⟨none, ?_⟩
    rw [h, replacements, action]
    rfl
  unfold inputInjections
  dsimp only
  split
  · exact fun _ eq => nomatch eq
  · split
    next empty =>
      have action : r.action? = none := by cases r <;> first | rfl | exact nomatch empty
      split
      · exact gives_pure (plain action plain_nil)
      · exact fun _ eq => nomatch eq
    · split
      · exact fun _ eq => nomatch eq
      · split
        next highlight =>
          have action : r.action? = none := highlight ▸ rfl
          split
          · exact gives_pure (plain action (plain_cons (Injection.ofPosition_raws _ _) plain_nil))
          · split
            · refine gives_pure (plain action (plain_cons ?_ plain_nil))
              rw [Injection.raws] <;> exact nofun
            · exact fun _ eq => nomatch eq
        next =>
          intro is eq
          cases slots : r.slotInjections c w e given with
          | error f =>
            rw [slots] at eq
            exact nomatch eq
          | ok js =>
            rw [slots] at eq
            exact Except.ok.inj eq ▸ slotInjections_raws r js slots

theorem baseInjections_plain (r : Request) : Plain (r.baseInjections c) := by
  have none : ∀ {i : Injection}, i.raws = [] → Plain [i] := fun h => plain_cons h plain_nil
  unfold baseInjections
  refine Injection.Plain.append ?_ ?_
  · split
    · exact none (by rw [Injection.raws] <;> exact nofun)
    · exact plain_nil
  · split
    · split
      · exact none (by rw [Injection.raws] <;> exact nofun)
      · exact plain_nil
    · exact plain_nil

/-- **What a request asks to replace.** -/
theorem injections_raws (r : Request) {is : List Injection} (h : r.injections c w e given = .ok is) :
    ∃ commands, Injection.rawsAll is = r.replacements commands e.isEndState := by
  obtain ⟨sent, hsent, rfl⟩ := Injection.map_eq_ok h
  rw [Injection.rawsAll_append, baseInjections_plain, List.nil_append]
  exact inputInjections_raws r sent hsent

end Request

namespace Lua

/-- The function by which the editor performs a request brings no placeholder but that for the timeout. -/
theorem action_named {r : Request} {action : String} (h : r.action? = some action) :
    ∀ w ∈ words [] action.toList, Named [⟨"TIMEOUT_MS", _, rfl⟩] w := by
  have literal : ∀ {cs : List Char}, (∀ w ∈ words [] cs, Named [⟨"TIMEOUT_MS", _, rfl⟩] w) →
      ∀ w ∈ words [] (String.ofList cs).toList, Named [⟨"TIMEOUT_MS", _, rfl⟩] w := by
    intro cs named
    rw [String.toList_ofList]
    exact named
  cases r
  case formatting | executeCommand =>
    rw [← Option.some.inj h]
    exact literal (by decide)
  all_goals exact nomatch h

/-- Every replacement is one of a placeholder other than the slot. -/
def Inner (subs : List Substitution) : Prop :=
  ∀ s ∈ subs, ∃ p ∈ commonPlaceholders ++ actionPlaceholders, s.placeholder = p.name

theorem Inner.known {subs : List Substitution} (inner : Inner subs) : Known subs := fun s hs => by
  obtain ⟨p, hp, name⟩ := inner s hs
  exact ⟨p, List.mem_cons_of_mem _ hp, name⟩

/-- The slot stays as it is. -/
theorem Inner.assign_notMem {subs : List Substitution} (inner : Inner subs) :
    Placeholder.assign.name ∉ subs.map Substitution.placeholder := by
  have apart : ∀ p ∈ commonPlaceholders ++ actionPlaceholders, Placeholder.assign.letters ≠ p.letters := by
    decide
  intro present
  obtain ⟨s, hs, same⟩ := List.mem_map.1 present
  obtain ⟨p, hp, name⟩ := inner s hs
  refine apart p hp ?_
  rw [← Placeholder.toList_name, ← Placeholder.toList_name, ← same, name]

section Chain

variable {r : Request} {attach : Substitution} {standard : List Substitution} {commands : Option (List String)}
  {acts : Bool}

theorem inner_standard (names : standard.map Substitution.placeholder = commonPlaceholders.tail.map Placeholder.name) :
    Inner standard := fun s hs => by
  obtain ⟨p, hp, name⟩ := List.mem_map.1 (names ▸ List.mem_map_of_mem hs)
  exact ⟨p, List.mem_append_left _ (List.mem_of_mem_tail hp), name.symm⟩

theorem inner_replacements : Inner (r.replacements commands acts) := by
  unfold Request.replacements
  refine List.forall_mem_append.2 ⟨?_, ?_⟩
  · cases commands with
    | none => exact nofun
    | some cs =>
      exact List.forall_mem_singleton.2
        ⟨.commands, List.mem_append_left _ Placeholder.commands_mem_common, rfl⟩
  · cases r.action? with
    | none => exact nofun
    | some f =>
      exact List.forall_mem_cons.2
        ⟨⟨⟨"INVOKE_ACTION", _, rfl⟩, List.mem_append_right _ List.mem_cons_self, rfl⟩,
          List.forall_mem_singleton.2
            ⟨.invoke, List.mem_append_right _ (List.mem_cons_of_mem _ List.mem_cons_self), rfl⟩⟩

/-- The chain of replacements replaces every placeholder in the script of the request. -/
theorem chain_covers (attached : attach.placeholder = "LSP_ACTION")
    (names : standard.map Substitution.placeholder = commonPlaceholders.tail.map Placeholder.name) :
    ∀ q ∈ Template.namesOf r.fragment, q ∈ placeholders ∧
      q.name ∈ (attach :: r.replacements commands acts ++ standard).map Substitution.placeholder := by
  rw [List.cons_append, List.map_cons, List.map_append, names, attached]
  intro q hq
  rcases List.mem_append.1 hq with common | action
  · refine ⟨List.mem_cons_of_mem _ (List.mem_append_left _ common), ?_⟩
    rcases List.mem_cons.1 common with rfl | rest
    · exact List.mem_cons_self
    · exact List.mem_cons_of_mem _ (List.mem_append_right _ (List.mem_map_of_mem rest))
  · split at action
    next acts' =>
      refine ⟨List.mem_cons_of_mem _ (List.mem_append_right _ action), ?_⟩
      have mode : ∃ f, r.action? = some f := by
        cases r <;> first | exact ⟨_, rfl⟩ | exact nomatch acts'
      obtain ⟨f, hf⟩ := mode
      have listed : q.name ∈ ["INVOKE_ACTION", "INVOKE_FN"] := List.mem_map_of_mem action
      refine List.mem_cons_of_mem _ (List.mem_append_left _ ?_)
      rw [Request.replacements, hf, List.map_append]
      exact List.mem_append_right _ listed
    next => exact absurd action List.not_mem_nil

theorem inner_chain (attached : attach.placeholder = "LSP_ACTION")
    (names : standard.map Substitution.placeholder = commonPlaceholders.tail.map Placeholder.name) :
    Inner (attach :: r.replacements commands acts ++ standard) := by
  refine List.forall_mem_append.2 ⟨List.forall_mem_cons.2 ⟨?_, inner_replacements⟩, inner_standard names⟩
  exact ⟨⟨"LSP_ACTION", _, rfl⟩, List.mem_append_left _ List.mem_cons_self, attached⟩

/-- The chain of replacements leaves nothing to fill in.  The function that performs a request names a placeholder;
the replacements behind it fill that one too. -/
theorem resolves_chain (attached : attach.placeholder = "LSP_ACTION") (attachFree : Unmarked attach.replacement.toList)
    (names : standard.map Substitution.placeholder = commonPlaceholders.tail.map Placeholder.name)
    (free : ∀ s ∈ standard, Unmarked s.replacement.toList)
    (advertised : ∀ s ∈ r.replacements commands acts, s.placeholder = "COMMANDS" → Unmarked s.replacement.toList) :
    Resolves (attach :: r.replacements commands acts ++ standard) := by
  have inner : Inner (attach :: r.replacements commands acts ++ standard) := inner_chain attached names
  have known := inner.known
  have knownStandard := (inner_standard names).known
  have standardResolves : Resolves standard := by
    have append : Resolves (standard ++ []) := .append (by rwa [List.append_nil]) free trivial
    rwa [List.append_nil] at append
  unfold Request.replacements at known advertised ⊢
  have frontFree : ∀ s ∈ attach :: (commands.map fun cs =>
      (⟨"COMMANDS", ", ".intercalate (cs.map quoted)⟩ : Substitution)).toList, Unmarked s.replacement.toList := by
    refine List.forall_mem_cons.2 ⟨attachFree, fun s hs => advertised s (List.mem_append_left _ hs) ?_⟩
    cases commands with
    | none => exact absurd hs List.not_mem_nil
    | some cs => rw [List.mem_singleton.1 hs]
  rw [← List.cons_append] at known ⊢
  cases action : r.action? with
  | none =>
    rw [action, List.append_nil] at known
    rw [List.append_nil]
    exact Resolves.append known frontFree standardResolves
  | some f =>
    rw [action] at known
    rw [List.append_assoc] at known ⊢
    refine Resolves.append known frontFree ?_
    obtain ⟨-, inner⟩ := List.forall_mem_append.1 known
    refine ⟨?_, ?_, standardResolves⟩
    · obtain ⟨-, inner⟩ := List.forall_mem_cons.1 inner
      have flag : Unmarked (if acts = true then "true" else "false").toList := by split <;> decide
      exact (congrArg Unmarked (foldl_fill_of_unmarked inner flag)).mpr flag
    · refine standardResolves.unmarked_foldl knownStandard (fun q hq => ?_) (action_named action)
      have hq : q ∈ commonPlaceholders.tail := List.mem_singleton.1 hq ▸ Placeholder.timeout_mem_tail
      refine ⟨List.mem_cons_of_mem _ (List.mem_append_left _ (List.mem_of_mem_tail hq)), ?_⟩
      rw [names]
      exact List.mem_map_of_mem hq

end Chain

end Lua

namespace Case

open Lua

variable {c : Case} {l : Layout} {r : Request}

/-- What stands around the block that fills the parameters, or why there is no script. -/
def around (c : Case) (l : Layout) (r : Request) (raws : List Substitution) (before after : List Char) :
    Except Failure (String × String) := do
  let _ ← l.source c.source.path
  let attach ← (c.attachSubstitution r.fragment).mapError Failure.fault
  let standard ← c.substitutions l r.method
  let chain := attach :: raws ++ standard
  return (String.ofList (chain.foldl fill before ++ ['\n']), String.ofList ('\n' :: chain.foldl fill after))

/-- There is a script whenever the case itself allows one. -/
theorem isOk_around (sends : r.fragment ≠ .collect) (raws : List Substitution) (before after : List Char) :
    (c.around l r raws before after).isOk = ((l.source c.source.path).isOk && c.fileExtension.isOk &&
      c.milliseconds.isOk && (onAttach c.startup).isOk) := by
  unfold around substitutions attachSubstitution
  rw [if_neg sends]
  cases l.source c.source.path with
  | error e => rfl
  | ok p =>
    cases onAttach c.startup with
    | error e => simp [Except.map, Except.mapError, bind, Except.bind, Except.isOk, Except.toBool]
    | ok attach =>
      cases c.fileExtension with
      | error e => rfl
      | ok extension => cases c.milliseconds <;> rfl

/-- Where the script of the request has its slot, the parts around the block are made from the text before the slot
and the text behind it. -/
theorem script_eq_around (free : c.IsUnmarked l) {commands : Option (List String)} {acts : Bool}
    (advertised : ∀ s ∈ r.replacements commands acts, s.placeholder = "COMMANDS" → Unmarked s.replacement.toList)
    {before after : List Char}
    (shape : (Template.whole r.fragment).toList = before ++ '\n' :: (Placeholder.assign.letters ++ '\n' :: after))
    (namedBefore : ∀ w ∈ words [] before, Named (Template.namesOf r.fragment) w)
    (namedAfter : ∀ w ∈ words [] after, Named (Template.namesOf r.fragment) w) :
    (∀ front back, c.around l r (r.replacements commands acts) before after = .ok (front, back) →
      Unmarked front.toList ∧ Unmarked back.toList) ∧
    ∀ (is : List Injection) (compiled : Injection.Compiled), Injection.assemble is = .ok compiled →
      compiled.substitutions = r.replacements commands acts →
      c.script l r is = (c.around l r (r.replacements commands acts) before after).map fun ends =>
        ends.1 ++ blockText compiled.statements ++ ends.2 := by
  unfold around script
  cases l.source c.source.path with
  | error e => exact ⟨fun _ _ eq => (nomatch eq), fun _ _ _ _ => rfl⟩
  | ok p =>
    cases attached : c.attachSubstitution r.fragment with
    | error e =>
      refine ⟨fun _ _ eq => (nomatch eq), fun is compiled assembled _ => ?_⟩
      rw [assembled]
      rfl
    | ok attach =>
      cases substituted : c.substitutions l r.method with
      | error e =>
        refine ⟨fun _ _ eq => (nomatch eq), fun is compiled assembled _ => ?_⟩
        rw [assembled]
        rfl
      | ok standard =>
        obtain ⟨attachName, attachFree⟩ := attachSubstitution_spec attached
        obtain ⟨names, standardFree⟩ := substitutions_spec substituted
        have inner : Inner (attach :: r.replacements commands acts ++ standard) := inner_chain attachName names
        have resolves := resolves_chain attachName (attachFree free) names (standardFree free) advertised
        have covers : ∀ q ∈ Template.namesOf r.fragment, q ∈ placeholders ∧
            q.name ∈ (attach :: r.replacements commands acts ++ standard).map Substitution.placeholder :=
          chain_covers attachName names
        have freeBefore := resolves.unmarked_foldl inner.known covers namedBefore
        have freeAfter := resolves.unmarked_foldl inner.known covers namedAfter
        constructor
        · intro front back eq
          obtain ⟨rfl, rfl⟩ := Prod.mk.inj (Except.ok.inj eq)
          rw [String.toList_ofList, String.toList_ofList, unmarked_append_cons rfl, unmarked_cons rfl]
          exact ⟨⟨freeBefore, unmarked_nil⟩, freeAfter⟩
        · intro is compiled assembled same
          have filled := fill_slot inner.known inner.assign_notMem freeBefore freeAfter (blockText compiled.statements)
          rw [← shape, ← same] at filled
          rw [assembled]
          change Except.ok (String.ofList (fill _ ⟨Placeholder.assign.name, blockText compiled.statements⟩)) = _
          rw [filled]
          refine congrArg Except.ok (String.toList_injective ?_)
          simp [same]

/-- **Payloads stay as they are.**  For a request that is sent and a case none of whose values holds a placeholder,
there are two texts free of placeholders, made from the case, the request and the replacements that injections ask
for, such that for all inputs that ask for these replacements the script is the first text, the block that fills the
parameters, and the second text.  There are such texts whenever the case allows a script at all; otherwise no inputs
give one. -/
theorem script_around_block (c : Case) (l : Layout) (r : Request) (raws : List Substitution) (sent : r ≠ .diagnostics)
    (free : c.IsUnmarked l)
    (advertised : ∀ s ∈ raws, s.placeholder = "COMMANDS" → ∃ commands : List String,
      s.replacement = ", ".intercalate (commands.map Lua.quoted) ∧ ∀ t ∈ commands, Lua.Unmarked t.toList) :
    ∃ ends : Except Failure (String × String),
      (∀ front back, ends = .ok (front, back) → Lua.Unmarked front.toList ∧ Lua.Unmarked back.toList) ∧
      ends.isOk = ((l.source c.source.path).isOk && c.fileExtension.isOk && c.milliseconds.isOk &&
        (Lua.onAttach c.startup).isOk) ∧
      ∀ (w : World) (e : Expectation) (given : Inputs) (is : List Injection) (compiled : Injection.Compiled),
        r.injections c w e given = .ok is → Injection.assemble is = .ok compiled → compiled.substitutions = raws →
        c.script l r is = ends.map fun ends => ends.1 ++ Lua.blockText compiled.statements ++ ends.2 := by
  have sends : r.fragment ≠ .collect := by cases r <;> first | exact absurd rfl sent | exact nofun
  obtain ⟨before, after, shape, namedBefore, namedAfter⟩ := Template.whole_split sends
  by_cases possible : ∃ commands acts, raws = r.replacements commands acts
  · obtain ⟨commands, acts, rfl⟩ := possible
    have advertisedFree : ∀ s ∈ r.replacements commands acts, s.placeholder = "COMMANDS" →
        Unmarked s.replacement.toList := fun s hs name => by
      obtain ⟨texts, written, texts_free⟩ := advertised s hs name
      rw [written]
      exact unmarked_commands texts_free
    obtain ⟨unmarked, same⟩ := script_eq_around free advertisedFree shape namedBefore namedAfter
    exact ⟨_, unmarked, isOk_around sends _ _ _, fun w e given is compiled _ => same is compiled⟩
  · -- No inputs ask for such replacements.
    refine ⟨(c.around l r raws before after).map fun _ => ("", ""), ?_, ?_, ?_⟩
    · intro front back eq
      obtain ⟨_, -, blank⟩ := Injection.map_eq_ok eq
      obtain ⟨rfl, rfl⟩ := Prod.mk.inj blank
      exact ⟨by decide +kernel, by decide +kernel⟩
    · rw [← isOk_around sends raws before after]
      cases c.around l r raws before after <;> rfl
    · intro w e given is compiled injected assembled asked
      obtain ⟨commands, raw⟩ := r.injections_raws injected
      rw [← Injection.assemble_substitutions assembled, asked] at raw
      exact absurd ⟨commands, _, raw⟩ possible

/-- A new name that is the name of a placeholder. -/
theorem script_around_block_rename :
    let w : World := ⟨[], [], [], ⟨.slash, ["t"]⟩, "1"⟩
    let c : Case := ⟨"/s", ⟨"a.b", .str ""⟩, some ⟨0, 0⟩, [], .immediate, 1, true, "/e", "1"⟩
    let is : List Injection := [.textDocument "textDocument", .position ⟨0, 0⟩ "position",
      .json "newName" (Data.str "RESULTS_FILE").toJson]
    c.IsUnmarked (c.layout w) ∧
      Request.rename.injections c w .nothing [("new_name", .text "RESULTS_FILE")] = .ok is ∧
      ∃ compiled, Injection.assemble is = .ok compiled ∧ ∃ ends : Except Failure (String × String),
        (∀ front back, ends = .ok (front, back) → Lua.Unmarked front.toList ∧ Lua.Unmarked back.toList) ∧
        c.script (c.layout w) .rename is =
          ends.map fun ends => ends.1 ++ Lua.blockText compiled.statements ++ ends.2 := by
  intro w c is
  have free : c.IsUnmarked (c.layout w) :=
    ⟨fun m => by cases m <;> decide +kernel, by decide +kernel, by decide +kernel, by decide +kernel,
      by decide +kernel, nofun⟩
  have injected : Request.rename.injections c w .nothing [("new_name", .text "RESULTS_FILE")] = .ok is := rfl
  obtain ⟨ends, unmarked, -, same⟩ := script_around_block c (c.layout w) .rename [] nofun free nofun
  have assembled : ∃ compiled, Injection.assemble is = .ok compiled ∧ compiled.substitutions = [] := ⟨_, rfl, rfl⟩
  obtain ⟨compiled, assembled, none⟩ := assembled
  exact ⟨free, injected, compiled, assembled, ends, unmarked,
    same w .nothing _ is compiled injected assembled none⟩

end Case

end ServerTrial
