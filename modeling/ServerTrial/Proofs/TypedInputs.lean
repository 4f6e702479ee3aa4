import ServerTrial.Proofs.DeclaredInputs
import ServerTrial.Case.File
import ServerTrial.Case.Skeleton

/-!
# Inputs of a case file

The names in the table of inputs are those of the slots, but for the range, which a file calls by another name than its
slot.  A name that says nothing about what it gives is taken for a slot called like it.

* `Request.recordParameters`: the slots that take a record or a list of records, as their requests declare them;
* `CaseTable.Taken`: what one entry of the table gives; `CaseTable.taken_of_inputs`: what is given for a slot comes from
  the last entry for it;
* `CaseFile.inputs_typed`: so in a case file that loads every such slot has a value of its declared shape, unless the
  last entry for it is called `range_`.
-/

namespace ServerTrial

namespace Request

/-! ### Slots and names -/

/-- The slots of a request that take a record or a list of records. -/
def recordParameters : Request → List (String × Shape)
  | formatting => [("options", .model .formattingOptions)]
  | incomingCalls | outgoingCalls => [("item", .model .callHierarchyItem)]
  | typeHierarchySupertypes | typeHierarchySubtypes => [("item", .model .typeHierarchyItem)]
  | codeLensResolve => [("code_lens", .model .codeLens)]
  | documentLinkResolve => [("link", .model .documentLink)]
  | documentHighlight => [("position", .model .position)]
  | selectionRange => [("positions", .list (.model .position))]
  | semanticTokensRange | inlayHint => [("range_", .model .range)]
  | signatureHelp => [("context", .model .signatureHelpContext)]
  | codeAction => [("range_", .model .range), ("context", .model .codeActionContext)]
  | codeActionResolve => [("code_action", .model .codeAction)]
  | completionResolve => [("completion_item", .model .completionItem)]
  | workspaceDiagnostic => [("previous_result_ids", .list (.model .previousResultId))]
  | colorPresentation => [("color", .model .color), ("range_", .model .range)]
  | _ => []

/-- The slot that a name in a file fills. -/
def target (r : Request) (key : String) : String := ((r.inputShape? key).map Prod.fst).getD key

variable {r : Request} {name key : String} {shape : Shape}

/-- Each of them is an input of the request. -/
theorem hasSlot_of_mem_recordParameters (mem : (name, shape) ∈ r.recordParameters) : r.hasSlot name = true := by
  have all : (r.recordParameters.all fun p => r.hasSlot p.1) = true := by cases r <;> rfl
  exact List.all_eq_true.1 all _ mem

/-- No data are a record or a list of records. -/
theorem not_fits_plain (mem : (name, shape) ∈ r.recordParameters) (d : Data) : ¬ Fits shape (.plain d) := by
  have all : ∀ p ∈ r.recordParameters, (∃ m, p.2 = .model m) ∨ ∃ m, p.2 = .list (.model m) := by
    cases r <;> simp [recordParameters]
  intro fits
  obtain ⟨m, rfl⟩ | ⟨m, rfl⟩ : (∃ m, shape = .model m) ∨ ∃ m, shape = .list (.model m) := all _ mem
  · obtain ⟨_, _, same⟩ := fits.eq_record
    cases same
  · obtain ⟨_, same, _⟩ := fits.eq_list
    cases same

/-- The name that says what a slot is given is that of the slot, but for ranges. -/
theorem key_of_inputShape? {s : Shape} (told : r.inputShape? key = some (name, s)) :
    key = (if name = "range_" then "range" else name) ∧ key ≠ "range_" := by
  unfold inputShape? at told
  split at told
  case h_13 => cases told
  all_goals
    cases told
    decide

/-- A name that says what it gives says what the slot is declared with. -/
theorem shape_eq_of_inputShape? (mem : (name, shape) ∈ r.recordParameters) {s : Shape}
    (told : r.inputShape? key = some (name, s)) : s = shape ∧ key ≠ "range_" := by
  have all : ∀ p ∈ r.recordParameters, r.inputShape? (if p.1 = "range_" then "range" else p.1) = some p := by
    cases r <;> first
      | exact List.forall_mem_nil _
      | exact List.forall_mem_singleton.2 rfl
      | exact List.forall_mem_cons.2 ⟨rfl, List.forall_mem_singleton.2 rfl⟩
  obtain ⟨rfl, other⟩ := key_of_inputShape? told
  rw [all _ mem] at told
  exact ⟨(congrArg Prod.snd (Option.some.inj told)).symm, other⟩

/-- Only the slot for a range is not called by a name that says what it gives. -/
theorem eq_range_of_inputShape?_eq_none (mem : (name, shape) ∈ r.recordParameters)
    (silent : r.inputShape? name = none) : name = "range_" := by
  have all : (r.recordParameters.all fun p => (r.inputShape? p.1).isSome || p.1 == "range_") = true := by
    cases r <;> rfl
  have own := List.all_eq_true.1 all _ mem
  rw [silent, Option.isSome_none, Bool.false_or] at own
  exact eq_of_beq own

/-- **What a name says of the slot that it fills**: its declared shape, or nothing where the name is `range_`. -/
theorem inputShape?_of_target (mem : (name, shape) ∈ r.recordParameters) (fills : r.target key = name) :
    r.inputShape? key = if key = "range_" then none else some (name, shape) := by
  unfold target at fills
  cases told : r.inputShape? key with
  | none =>
    rw [told] at fills
    obtain rfl : key = name := fills
    rw [if_pos (eq_range_of_inputShape?_eq_none mem told)]
  | some p =>
    rw [told] at fills
    obtain rfl : p.1 = name := fills
    obtain ⟨same, other⟩ := shape_eq_of_inputShape? mem told
    rw [if_neg other, ← same]

end Request

namespace CaseTable

/-! ### Entry by entry -/

/-- What an entry of the inputs gives: a checked value where its name says what it should be, else its data. -/
inductive Taken (r : Request) (key : String) (d : Data) : Value → Prop
  | checked {slot : String} {s : Shape} {m : Match} (told : r.inputShape? key = some (slot, s))
      (fits : check d s = .ok m) : Taken r key d m.value
  | plain (silent : r.inputShape? key = none) : Taken r key d (.plain d)

/-- The last entry of a table for a slot. -/
def IsLast (r : Request) (table : List (String × Data)) (slot key : String) (d : Data) : Prop :=
  ∃ front back, table = front ++ (key, d) :: back ∧ r.target key = slot ∧ ∀ e ∈ back, r.target e.1 ≠ slot

theorem IsLast.of_concat {r : Request} (table : List (String × Data)) {e : String × Data} {slot key : String} {d : Data}
    (last : IsLast r (table ++ [e]) slot key d) (own : r.target e.1 = slot) : key = e.1 ∧ d = e.2 := by
  obtain ⟨front, back, split, -, later⟩ := last
  rcases List.eq_nil_or_concat' back with rfl | ⟨back, e', rfl⟩
  · obtain ⟨-, same⟩ := List.append_inj' split rfl
    exact ⟨by rw [(List.cons.inj same).1], by rw [(List.cons.inj same).1]⟩
  · rw [← List.cons_append, ← List.append_assoc] at split
    obtain ⟨-, same⟩ := List.append_inj' split rfl
    obtain rfl : e = e' := (List.cons.inj same).1
    exact absurd own (later e (List.mem_append_right _ List.mem_cons_self))

variable {path : Path} {r : Request} {table : List (String × Data)} {given : Inputs}

theorem inputs_nil : inputs path r (.obj []) = .ok [] := rfl

/-- The inputs are gathered entry by entry. -/
theorem inputs_concat {e : String × Data} (read : inputs path r (.obj (table ++ [e])) = .ok given) :
    ∃ before v, inputs path r (.obj table) = .ok before ∧ Taken r e.1 e.2 v ∧
      given = Data.put (r.target e.1) v before := by
  unfold inputs at read
  dsimp only at read
  rw [List.foldlM_append] at read
  obtain ⟨before, gathered, read⟩ := bind_eq_ok read
  rw [List.foldlM_cons] at read
  obtain ⟨after, step, last⟩ := bind_eq_ok read
  obtain rfl : after = given := Except.ok.inj last
  refine ⟨before, ?_⟩
  unfold Request.target
  split at step
  · next slot s told =>
    obtain ⟨v, fits, put⟩ := bind_eq_ok step
    unfold checked at fits
    split at fits
    · next m found =>
      cases fits
      exact ⟨m.value, gathered, .checked told found, by rw [told]; exact (Except.ok.inj put).symm⟩
    · cases fits
  · next silent => exact ⟨_, gathered, .plain silent, by rw [silent]; exact (Except.ok.inj step).symm⟩

/-- **What is given for a slot comes from the last entry for it**; nothing is given where no entry is for it. -/
theorem taken_of_inputs (read : inputs path r (.obj table) = .ok given) (slot : String) :
    (∀ v, Data.find? slot given = some v → ∃ key d, IsLast r table slot key d ∧ Taken r key d v) ∧
      (Data.find? slot given = none → ∀ e ∈ table, r.target e.1 ≠ slot) := by
  induction table using List.reverseRecOn generalizing given with
  | nil =>
    obtain rfl : [] = given := Except.ok.inj (inputs_nil.symm.trans read)
    exact ⟨nofun, fun _ => List.forall_mem_nil _⟩
  | append_singleton table e ih =>
    obtain ⟨before, v, gathered, taken, rfl⟩ := inputs_concat read
    obtain ⟨found, missing⟩ := ih gathered
    rw [Data.find?_put]
    by_cases own : slot = r.target e.1
    · rw [if_pos own]
      refine ⟨fun w same => ?_, nofun⟩
      obtain rfl : v = w := Option.some.inj same
      exact ⟨e.1, e.2, ⟨table, [], rfl, own.symm, List.forall_mem_nil _⟩, taken⟩
    · rw [if_neg own]
      refine ⟨fun w same => ?_, fun none => ?_⟩
      · obtain ⟨key, d, ⟨front, back, rfl, fills, later⟩, taken⟩ := found w same
        refine ⟨key, d, ⟨front, back ++ [e], by rw [List.append_assoc]; rfl, fills, ?_⟩, taken⟩
        exact List.forall_mem_append.2 ⟨later, List.forall_mem_singleton.2 (Ne.symm own)⟩
      · exact List.forall_mem_append.2 ⟨missing none, List.forall_mem_singleton.2 (Ne.symm own)⟩

/-- A value that was checked is one of the shape that its slot is declared with; data are none. -/
theorem Taken.typed {slot key : String} {d : Data} {v : Value} {shape : Shape} (taken : Taken r key d v)
    (mem : (slot, shape) ∈ r.recordParameters) (fills : r.target key = slot) :
    (key ≠ "range_" → (∃ m, check d shape = .ok m ∧ m.value = v) ∧ Fits shape v) ∧
      (key = "range_" → v = .plain d ∧ ¬ Fits shape v) := by
  have told := Request.inputShape?_of_target mem fills
  cases taken with
  | checked own fits =>
    rw [own] at told
    split at told
    · cases told
    · next other =>
      cases told
      exact ⟨fun _ => ⟨⟨_, fits, rfl⟩, (checks_of_check d fits).fits⟩, fun range => absurd range other⟩
  | plain silent =>
    rw [silent] at told
    split at told
    · next range =>
      exact ⟨fun other => absurd range other, fun _ => ⟨rfl, Request.not_fits_plain mem d⟩⟩
    · cases told

end CaseTable

namespace CaseFile

open CaseTable (IsLast)

variable {w : World} {path : Path} {entries : List (String × Data)} {f : CaseFile}

/-- A case file that loads has a table of inputs, and its names fill the slots of its request. -/
theorem inputs_of_ofEntries (loaded : ofEntries w path entries = .ok f) :
    ∃ table, (Data.find? "inputs" entries).getD (.obj []) = .obj table ∧
      CaseTable.inputs path f.request (.obj table) = .ok f.inputs ∧
        f.request.bind (f.inputs.map Prod.fst) = .ok () := by
  unfold ofEntries at loaded
  split at loaded
  · cases loaded
  · obtain ⟨r, -, loaded⟩ := bind_eq_ok loaded
    obtain ⟨case, -, loaded⟩ := bind_eq_ok loaded
    obtain ⟨expectation, -, loaded⟩ := bind_eq_ok loaded
    obtain ⟨inputs, read, loaded⟩ := bind_eq_ok loaded
    split at loaded
    · cases loaded
    · next bound =>
      cases loaded
      cases given : (Data.find? "inputs" entries).getD (.obj []) with
      | obj table =>
        rw [given] at read
        exact ⟨table, rfl, read, bound⟩
      | _ =>
        rw [given] at read
        cases read

/-- **The inputs of a case file that loads.**  Every entry gives an input, every input is one of the request, and it
comes from the last entry for it.  Where the request asks for a record or a list of records it is the value that was
checked against the declared shape, unless that entry is called `range_`: then it is data as they were read. -/
theorem inputs_typed (loaded : ofEntries w path entries = .ok f) :
    ∃ table, (Data.find? "inputs" entries).getD (.obj []) = .obj table ∧
      (∀ e ∈ table, (Data.find? (f.request.target e.1) f.inputs).isSome = true) ∧
      ∀ slot v, Data.find? slot f.inputs = some v → f.request.hasSlot slot = true ∧
        ∃ key d, IsLast f.request table slot key d ∧ ∀ shape, (slot, shape) ∈ f.request.recordParameters →
          (key ≠ "range_" → (∃ m, check d shape = .ok m ∧ m.value = v) ∧ Fits shape v) ∧
            (key = "range_" → v = .plain d ∧ ¬ Fits shape v) := by
  obtain ⟨table, given, read, bound⟩ := inputs_of_ofEntries loaded
  refine ⟨table, given, fun e he => ?_, fun slot v found => ?_⟩
  · cases missing : Data.find? (f.request.target e.1) f.inputs with
    | some v => rfl
    | none => exact absurd rfl ((CaseTable.taken_of_inputs read _).2 missing e he)
  · have known := Request.hasSlot_of_bind bound slot (List.mem_map.2 ⟨(slot, v), Check.mem_of_find? found, rfl⟩)
    obtain ⟨key, d, last, taken⟩ := (CaseTable.taken_of_inputs read slot).1 v found
    obtain ⟨front, back, split, fills, later⟩ := last
    exact ⟨known, key, d, ⟨front, back, split, fills, later⟩, fun shape mem => taken.typed mem fills⟩

/-- A case file that asks for the semantic tokens of a range. -/
def rangedEntries (inputs : List (String × Data)) : List (String × Data) :=
  [("kind", .str "semantic_tokens_range"), ("server", .str "s"), ("editor", .str "e"), ("test_id", .str "1"),
    ("timeout", .float 1), ("cleanup", .bool true), ("expect", .str "none"),
    ("source", .obj [("path", .str "a.b"), ("contents", .str "")]), ("inputs", .obj inputs)]

/-- It loads whatever is given for the range, if the inputs can be read. -/
theorem ofEntries_ranged (w : World) (path : Path) (inputs : List (String × Data)) {given : Inputs}
    (read : CaseTable.inputs path .semanticTokensRange (.obj inputs) = .ok given)
    (bound : Request.semanticTokensRange.bind (given.map Prod.fst) = .ok ()) :
    ∃ f, ofEntries w path (rangedEntries inputs) = .ok f ∧ f.request = .semanticTokensRange ∧ f.inputs = given := by
  have described : CaseTable.caseOf w path (rangedEntries inputs) =
      .ok ⟨"s", ⟨"a.b", .str ""⟩, none, [], .immediate, 1, true, "e", "1"⟩ := by
    rfl
  have complete : requiredKeys.find? (fun key => (Data.find? key (rangedEntries inputs)).isNone) = none := rfl
  have kind : CaseTable.request path ((Data.find? "kind" (rangedEntries inputs)).getD .null) =
      .ok .semanticTokensRange := rfl
  have expected : CaseTable.expectation path .semanticTokensRange
      ((Data.find? "expect" (rangedEntries inputs)).getD .null) (rangedEntries inputs) = .ok .nothing := rfl
  have table : (Data.find? "inputs" (rangedEntries inputs)).getD (.obj []) = .obj inputs := rfl
  unfold ofEntries
  rw [complete, table, described]
  dsimp only
  rw [kind]
  dsimp only [bind, Except.bind]
  rw [expected]
  dsimp only
  rw [read]
  dsimp only
  rw [bound]
  exact ⟨_, rfl, rfl, rfl⟩

/-- Of two entries for a range the last one is taken.  Here it is the one that is checked. -/
theorem inputs_typed_range :
    let w : World := ⟨[], [], [], ⟨.slash, ["t"]⟩, "1"⟩
    let entries := rangedEntries [("range_", .int 5), ("range", Skeleton.emptyRange)]
    ∃ f v, ofEntries w (Path.ofString "c.toml") entries = .ok f ∧ Data.find? "range_" f.inputs = some v ∧
      Fits (.model .range) v := by
  intro w entries
  obtain ⟨f, loaded, request, given⟩ := ofEntries_ranged w (Path.ofString "c.toml")
    [("range_", .int 5), ("range", Skeleton.emptyRange)] rfl rfl
  obtain ⟨table, same, -, typed⟩ := inputs_typed loaded
  obtain rfl : [("range_", .int 5), ("range", Skeleton.emptyRange)] = table := Data.obj.inj same
  obtain ⟨-, key, d, last, checked⟩ := typed "range_" _ (by rw [given]; rfl)
  rw [request] at last checked
  obtain ⟨rfl, rfl⟩ := last.of_concat [("range_", .int 5)] (e := ("range", Skeleton.emptyRange)) rfl
  exact ⟨f, _, loaded, by rw [given]; rfl, ((checked _ List.mem_cons_self).1 (by decide)).2⟩

/-- A range under the name of its slot is not checked, and stays the table that was read. -/
theorem inputs_untyped :
    let w : World := ⟨[], [], [], ⟨.slash, ["t"]⟩, "1"⟩
    ∃ f, ofEntries w (Path.ofString "c.toml") (rangedEntries [("range_", Skeleton.emptyRange)]) = .ok f ∧
      ("range_", .model .range) ∈ f.request.recordParameters ∧
      Data.find? "range_" f.inputs = some (.plain Skeleton.emptyRange) ∧
      ¬ Fits (.model .range) (.plain Skeleton.emptyRange) := by
  intro w
  obtain ⟨f, loaded, request, given⟩ := ofEntries_ranged w (Path.ofString "c.toml")
    [("range_", Skeleton.emptyRange)] rfl rfl
  have mem : ("range_", .model .range) ∈ Request.semanticTokensRange.recordParameters := List.mem_cons_self
  exact ⟨f, loaded, request ▸ mem, by rw [given]; rfl, Request.not_fits_plain mem _⟩

end CaseFile

end ServerTrial
