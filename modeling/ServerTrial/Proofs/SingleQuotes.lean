import ServerTrial.Proofs.Quotation
import ServerTrial.Proofs.ScriptValues

/-!
# Paths between single quotes

The templates have the quotation marks, and what is filled in between them has its own marks and backslashes behind
backslashes.  The end of a line is left as it is, and there a literal may not go on.

* `Quotation.contents_inSingleQuotes`: a text without line ends is read as its bytes, in front of anything; at a line
  end the literal breaks;
* `Quotation.Gap`: what stands around a word in a literal; `Case.pathSlots`: the words that paths are filled in for;
* `Case.chain_keeps`: a value without placeholders stands in the script where its word stood in the template;
* `Case.paths_quoted`: such a literal has the bytes of the path in it, and ends where the template ends it, exactly if
  no character of the path ends a line.
-/

namespace ServerTrial.Lua

namespace Quotation

/-! ### Texts that are filled in -/

/-- The character ends a line. -/
def EndsLine (c : Char) : Prop := c = '\n' ∨ c = '\r'

instance : DecidablePred EndsLine := fun c => inferInstanceAs (Decidable (c = '\n' ∨ c = '\r'))

theorem contents_escapeSingle {c : Char} (inner : ¬ EndsLine c) (cs : List Char) :
    contents '\'' (escapeSingle c ++ cs) = (contents '\'' cs).map fun read => (Utf8.unitsOf c ++ read.1, read.2) := by
  unfold escapeSingle
  split
  · next slash =>
    subst slash
    exact contents_escape (by decide) rfl
  · next slash =>
    split
    · next mark =>
      subst mark
      exact contents_escape (by decide) rfl
    · next mark => exact contents_char mark slash inner cs

/-- **A text is read as its bytes**, whatever follows it in the literal. -/
theorem contents_escapeSingles {cs : List Char} (inner : ∀ c ∈ cs, ¬ EndsLine c) (rest : List Char) :
    contents '\'' (cs.flatMap escapeSingle ++ rest) =
      (contents '\'' rest).map fun read => (cs.flatMap Utf8.unitsOf ++ read.1, read.2) := by
  induction cs with
  | nil => exact (Option.map_id' ..).symm
  | cons c cs ih =>
    obtain ⟨first, inner⟩ := List.forall_mem_cons.1 inner
    rw [List.flatMap_cons, List.append_assoc, contents_escapeSingle first, ih inner, Option.map_map, List.flatMap_cons]
    simp only [Function.comp_def, List.append_assoc]

/-- **The literal breaks at a line end.** -/
theorem contents_of_lineEnd {cs : List Char} (broken : ∃ c ∈ cs, EndsLine c) (rest : List Char) :
    contents '\'' (cs.flatMap escapeSingle ++ rest) = none := by
  induction cs with
  | nil =>
    obtain ⟨c, mem, -⟩ := broken
    cases mem
  | cons c cs ih =>
    rw [List.flatMap_cons, List.append_assoc]
    by_cases first : EndsLine c
    · have own : escapeSingle c = [c] := by rcases first with rfl | rfl <;> rfl
      have mark : c ≠ '\'' := by rcases first with rfl | rfl <;> decide
      have slash : c ≠ '\\' := by rcases first with rfl | rfl <;> decide
      rw [own, List.singleton_append, contents, if_neg mark, if_neg slash]
      exact if_pos first
    · obtain ⟨d, mem, ends⟩ := broken
      have later : d ∈ cs := (List.mem_cons.1 mem).resolve_left fun same => first (same ▸ ends)
      rw [contents_escapeSingle first, ih ⟨d, later, ends⟩]
      rfl

theorem contents_inSingleQuotes (s : String) (rest : List Char) :
    contents '\'' ((inSingleQuotes s).toList ++ rest) = if ∃ c ∈ s.toList, EndsLine c then none
      else (contents '\'' rest).map fun read => (byteValues (textBytes s) ++ read.1, read.2) := by
  rw [inSingleQuotes, String.toList_ofList, Utf8.byteValues_textBytes]
  split
  · next broken => exact contents_of_lineEnd broken rest
  · next whole => exact contents_escapeSingles (fun c mem ends => whole ⟨c, mem, ends⟩) rest

/-- Characters that mean nothing else are read as they are. -/
theorem contents_plain {cs : List Char} (plain : ∀ c ∈ cs, c ≠ '\'' ∧ c ≠ '\\' ∧ ¬ EndsLine c) (rest : List Char) :
    contents '\'' (cs ++ rest) = (contents '\'' rest).map fun read => (cs.flatMap Utf8.unitsOf ++ read.1, read.2) := by
  have same : cs.flatMap escapeSingle = cs := by
    conv_rhs => rw [← List.flatMap_singleton' cs]
    refine List.flatMap_congr fun c mem => ?_
    obtain ⟨mark, slash, -⟩ := plain c mem
    rw [escapeSingle, if_neg slash, if_neg mark]
  rw [← contents_escapeSingles (fun c mem => (plain c mem).2.2) rest, same]

/-! ### Gaps in a literal -/

/-- A gap in a literal between single quotes: what the literal has in front of it and behind it, up to the mark that
ends the literal. -/
structure Gap where
  opening : String
  ending : String
  /-- What the literal is read as behind the gap. -/
  tail : List Nat
  plain : ∀ c ∈ opening.toList, c ≠ '\'' ∧ c ≠ '\\' ∧ ¬ EndsLine c
  closes : ∀ rest, contents '\'' (ending.toList ++ rest) = some (tail, rest)
  openingClosed : Closed opening.toList
  endingClosed : ∃ sep behind, ending.toList = sep :: behind ∧ isCapital sep = false ∧ Closed behind

namespace Gap

/-- The literal with a text put in the gap. -/
def around (g : Gap) (text : List Char) : List Char := '\'' :: (g.opening.toList ++ (text ++ g.ending.toList))

/-- The whole literal is the gap. -/
def whole : Gap where
  opening := ""
  ending := "'"
  tail := []
  plain := by simp
  closes rest := by
    change contents '\'' ('\'' :: rest) = _
    exact contents_mark rest
  openingClosed := ⟨unmarked_nil, rfl⟩
  endingClosed := ⟨'\'', [], rfl, rfl, unmarked_nil, rfl⟩

variable {g : Gap}

/-- A literal with a text in it is read as its own bytes with those of the text between them. -/
theorem literal_around {text : List Char} {bytes : List Nat}
    (read : ∀ rest, contents '\'' (text ++ rest) = (contents '\'' rest).map fun read => (bytes ++ read.1, read.2))
    (rest : List Char) : literal '\'' (g.around text ++ rest) =
      some (byteValues (textBytes g.opening) ++ (bytes ++ g.tail), rest) := by
  rw [around, List.cons_append, literal, if_pos rfl, List.append_assoc, contents_plain g.plain, List.append_assoc, read,
    g.closes, Utf8.byteValues_textBytes]
  rfl

/-- **What a literal with a path in it is read as.** -/
theorem literal_around_inSingleQuotes (s : String) (rest : List Char) :
    literal '\'' (g.around (inSingleQuotes s).toList ++ rest) = if ∃ c ∈ s.toList, EndsLine c then none
      else some (byteValues (textBytes g.opening) ++ (byteValues (textBytes s) ++ g.tail), rest) := by
  split
  · next broken =>
    rw [around, List.cons_append, literal, if_pos rfl, List.append_assoc, contents_plain g.plain, List.append_assoc,
      contents_inSingleQuotes, if_pos broken]
    rfl
  · next unbroken =>
    exact literal_around (fun rest => by rw [contents_inSingleQuotes, if_neg unbroken]) rest

/-- The word stands in the text in such a gap. -/
def Holds (g : Gap) (word text : List Char) : Prop := ∃ front back, text = front ++ (g.around word ++ back)

theorem Holds.around {word text : List Char} (h : g.Holds word text) (before after : List Char) :
    g.Holds word (before ++ (text ++ after)) := by
  obtain ⟨front, back, rfl⟩ := h
  exact ⟨before ++ front, back ++ after, by simp only [List.append_assoc]⟩

end Gap

end Quotation

/-! ### Gaps that are filled in -/

/-- A chain leaves a text as it is behind which no word goes on. -/
theorem foldl_fill_append_closed {subs : List Substitution} (known : Known subs) {x : List Char} (closed : Closed x)
    (y : List Char) : subs.foldl fill (x ++ y) = x ++ subs.foldl fill y := by
  obtain ⟨free, ends⟩ := closed
  rcases List.eq_nil_or_concat' x with rfl | ⟨front, last, rfl⟩
  · rfl
  · rw [List.getLast?_concat, Option.any_some] at ends
    rw [unmarked_append_cons ends] at free
    rw [List.append_assoc, List.singleton_append, foldl_fill_append_cons known ends,
      foldl_fill_of_unmarked known free.1, List.append_assoc, List.singleton_append]

/-- What a chain makes of a word stands where the word stood. -/
theorem Quotation.Gap.Holds.foldl_fill {g : Quotation.Gap} {word text : List Char} (h : g.Holds word text)
    {subs : List Substitution} (known : Known subs) :
    g.Holds (subs.foldl fill word) (subs.foldl fill text) := by
  obtain ⟨front, back, rfl⟩ := h
  obtain ⟨sep, behind, ending, ends, closed⟩ := g.endingClosed
  refine ⟨subs.foldl fill front, subs.foldl fill back, ?_⟩
  simp only [Quotation.Gap.around, ending, List.cons_append, List.append_assoc]
  rw [foldl_fill_append_cons known rfl, foldl_fill_append_closed known g.openingClosed,
    foldl_fill_append_cons known ends, foldl_fill_append_closed known closed]

namespace Template

open Quotation (Gap EndsLine)

/-- The gap in the line that says where the workspace is. -/
def workspaceGap : Gap where
  opening := "Workspace root: "
  ending := "\\n'"
  tail := [10]
  plain := by simp [EndsLine]
  closes rest := by
    change Quotation.contents '\'' ('\\' :: 'n' :: '\'' :: rest) = _
    rw [Quotation.contents_escape (by decide) rfl, Quotation.contents_mark]
    rfl
  openingClosed := by decide +kernel
  endingClosed := ⟨'\\', ['n', '\''], rfl, rfl, by decide +kernel⟩

/-- A line of a template with a word between quotation marks. -/
theorem holds_ofLines {g : Gap} {word line : String} {lines : List String} (front back : String)
    (place : line = front ++ "'" ++ g.opening ++ word ++ g.ending ++ back) (mem : line ∈ lines) :
    g.Holds word.toList (ofLines lines).toList := by
  have inside : g.Holds word.toList line.toList :=
    ⟨front.toList, back.toList, by simp [place, Gap.around]⟩
  obtain ⟨before, after, rfl⟩ := List.append_of_mem mem
  have text : (ofLines (before ++ line :: after)).toList =
      (ofLines before).toList ++ (line.toList ++ '\n' :: (ofLines after).toList) := by
    simp [ofLines, String.toList_join, List.flatMap_map]
  rw [text]
  exact inside.around _ _

/-- Such a line of the part in front or of the part behind is in the whole script. -/
theorem holds_whole {g : Gap} (word line front back : String)
    (place : line = front ++ "'" ++ g.opening ++ word ++ g.ending ++ back)
    (mem : ∃ lines, (shared = ofLines lines ∨ attach = ofLines lines) ∧ line ∈ lines) (f : Fragment) :
    g.Holds word.toList (whole f).toList := by
  obtain ⟨lines, eq | eq, mem⟩ := mem
  · have inside := (holds_ofLines front back place mem).around [] (ofFragment f ++ attach).toList
    rwa [← eq, List.nil_append, ← String.toList_append, ← String.append_assoc] at inside
  · have inside := (holds_ofLines front back place mem).around (shared ++ ofFragment f).toList []
    rwa [← eq, List.append_nil, ← String.toList_append] at inside

end Template

end Lua

namespace Case

open Lua
open Lua.Quotation (Gap)

/-- A path, and the gap in the script that it is put in. -/
structure PathSlot where
  name : String
  gap : Gap
  path : String

/-- Where paths are filled in: the files by which the editor reports, the server and the directories. -/
def pathSlots (c : Case) (l : Layout) : List PathSlot := [
  ⟨"RESULTS_FILE", .whole, (l.marker .results).toString⟩,
  ⟨"ERROR_PATH", .whole, (l.marker .error).toString⟩,
  ⟨"LOG_PATH", .whole, (l.marker .log).toString⟩,
  ⟨"EMPTY_PATH", .whole, (l.marker .empty).toString⟩,
  ⟨"TIMEOUT_PATH", .whole, (l.marker .timeout).toString⟩,
  ⟨"EXECUTABLE_PATH", .whole, c.server⟩,
  ⟨"ROOT_PATH", Template.workspaceGap, l.root.toString⟩,
  ⟨"PARENT_PATH", .whole, l.sources.toString⟩]

variable {c : Case} {l : Layout}

/-- Every path is put in a literal. -/
theorem pathSlots_hold (f : Fragment) :
    ∀ slot ∈ c.pathSlots l, slot.gap.Holds slot.name.toList (Template.whole f).toList := by
  unfold pathSlots
  simp only [List.forall_mem_cons]
  refine ⟨Template.holds_whole _ "    local results_file, err = io.open('RESULTS_FILE', 'w')"
      "    local results_file, err = io.open(" ", 'w')" rfl ?_ f,
    Template.holds_whole _ "    local error_file = io.open('ERROR_PATH', 'a')"
      "    local error_file = io.open(" ", 'a')" rfl ?_ f,
    Template.holds_whole _ "    local log_file = io.open('LOG_PATH', 'a')"
      "    local log_file = io.open(" ", 'a')" rfl ?_ f,
    Template.holds_whole _ "    if not touch('EMPTY_PATH') then" "    if not touch(" ") then" rfl ?_ f,
    Template.holds_whole _ "    touch('TIMEOUT_PATH')" "    touch(" ")" rfl ?_ f,
    Template.holds_whole _ "            cmd = \x7b 'EXECUTABLE_PATH' \x7d," "            cmd = \x7b " " \x7d," rfl ?_ f,
    Template.holds_whole _ "report_log('Workspace root: ROOT_PATH\\n')" "report_log(" ")" rfl ?_ f,
    Template.holds_whole _ "            root_dir = 'PARENT_PATH'," "            root_dir = " "," rfl ?_ f, nofun⟩
  case refine_6 | refine_8 =>
    unfold Template.attach
    exact ⟨_, .inr rfl, by simp only [List.mem_cons, String.reduceEq, false_or, true_or]⟩
  all_goals
    unfold Template.shared
    exact ⟨_, .inl rfl, by simp only [List.mem_cons, String.reduceEq, false_or, true_or]⟩

/-- Every case has each of its paths, between its quotation marks, as the one replacement for its word. -/
theorem pathSlots_replaced {method : String} {subs : List Substitution} (h : c.substitutions l method = .ok subs) :
    ∀ slot ∈ c.pathSlots l, ∀ value,
      ⟨slot.name, value⟩ ∈ subs ↔ value = inSingleQuotes slot.path := by
  obtain ⟨ms, extension, timeout⟩ := substitutions_inv h
  rw [substitutions, extension, timeout] at h
  obtain rfl := Except.ok.inj h
  unfold pathSlots
  simp only [List.forall_mem_cons]
  simp only [List.mem_cons, Substitution.mk.injEq, String.reduceEq, false_and, true_and, List.not_mem_nil, or_false,
    false_or, implies_true, false_imp_iff, and_true]

/-- What every case has put in, but the commands, is put in by nothing else. -/
theorem names_apart {q : Placeholder} (standard : q ∈ commonPlaceholders.tail.dropLast) {r : Request}
    {attach : Substitution} (attached : attach.placeholder = "LSP_ACTION") (commands : Option (List String))
    (acts : Bool) :
    q.name ∉ (attach :: r.replacements commands acts).map Substitution.placeholder := by
  have others : ∀ q ∈ commonPlaceholders.tail.dropLast,
      q.name ∉ ["LSP_ACTION", "COMMANDS", "INVOKE_ACTION", "INVOKE_FN"] := by decide +kernel
  refine fun inside => others q standard ?_
  obtain ⟨s, mem, named⟩ := List.mem_map.1 inside
  rw [← named]
  rcases List.mem_cons.1 mem with rfl | asked
  · simp [attached]
  · rcases Request.of_mem_replacements asked with ⟨_, -, rfl⟩ | ⟨flag, -⟩ | ⟨function, -⟩
    · simp
    · simp [flag]
    · simp [function, Placeholder.invoke]

/-- **A value without placeholders stands in the script where its word stood in the template.** -/
theorem chain_keeps {r : Request} {is : List Injection} {commands : Option (List String)} {acts : Bool}
    (raws : Injection.rawsAll is = r.replacements commands acts) {text : String} (made : c.script l r is = .ok text)
    {q : Placeholder} (standard : q ∈ commonPlaceholders.tail.dropLast) {value : String}
    (put : ∀ subs, c.substitutions l r.method = .ok subs → ⟨q.name, value⟩ ∈ subs) (free : Unmarked value.toList)
    {g : Gap} (gap : g.Holds q.letters (Template.whole r.fragment).toList) : g.Holds value.toList text.toList := by
  rw [script_eq_chain] at made
  obtain ⟨subs, chained, rfl⟩ := Injection.map_eq_ok made
  have known := known_chain raws chained
  obtain ⟨attach, all, block, rfl, attached, substituted⟩ := chain_spec raws chained
  have names := (substitutions_spec substituted).1
  obtain ⟨before, after, rfl⟩ := List.append_of_mem (put all substituted)
  have distinct : (commonPlaceholders.tail.map Placeholder.name).Nodup := by decide +kernel
  have first : q.name ∉ (attach :: r.replacements commands acts ++ before).map Substitution.placeholder := by
    rw [List.map_append, List.mem_append, not_or]
    refine ⟨names_apart standard (attachSubstitution_spec (l := l) attached).1 commands acts, fun inside => ?_⟩
    rw [← names, List.map_append, List.map_cons] at distinct
    exact (List.nodup_append.1 distinct).2.2 _ inside _ List.mem_cons_self rfl
  have order : attach :: r.replacements commands acts ++ (before ++ ⟨q.name, value⟩ :: after) ++
      [⟨Placeholder.assign.name, block⟩] = (attach :: r.replacements commands acts ++ before) ++
        ⟨q.name, value⟩ :: (after ++ [⟨Placeholder.assign.name, block⟩]) := by simp
  have hq : q ∈ placeholders :=
    List.mem_cons_of_mem _ (List.mem_append_left _ (List.mem_of_mem_tail (List.mem_of_mem_dropLast standard)))
  have stands := gap.foldl_fill known
  rw [order] at known stands ⊢
  have behind := (List.forall_mem_cons.1 (List.forall_mem_append.1 known).2).2
  rw [foldl_fill_first known hq rfl first, foldl_fill_of_unmarked behind free] at stands
  rw [String.toList_ofList]
  exact stands

/-- **Paths between the quotation marks of a script.**  A text is put there as one literal for its bytes that ends where
the marks say, whatever follows it, exactly if none of its characters ends a line; otherwise there is no literal.  So it
is with the files by which the editor reports, the server and the directories of every case: each has one gap in a
literal of the template, in which it is put like this, and there it stands in every script, unless it holds a
placeholder itself. -/
theorem paths_quoted (c : Case) (l : Layout) :
    (∀ (s : String) (rest : List Char),
      Quotation.literal '\'' ('\'' :: ((inSingleQuotes s).toList ++ '\'' :: rest)) =
        if ∃ ch ∈ s.toList, Quotation.EndsLine ch then none else some (byteValues (textBytes s), rest)) ∧
    ∀ slot ∈ c.pathSlots l,
      (∀ f, slot.gap.Holds slot.name.toList (Template.whole f).toList) ∧
      (∀ method subs, c.substitutions l method = .ok subs →
        ∀ value, ⟨slot.name, value⟩ ∈ subs ↔ value = inSingleQuotes slot.path) ∧
      (∀ rest, Quotation.literal '\'' (slot.gap.around (inSingleQuotes slot.path).toList ++ rest) =
        if ∃ ch ∈ slot.path.toList, Quotation.EndsLine ch then none
        else some (byteValues (textBytes slot.gap.opening) ++ (byteValues (textBytes slot.path) ++ slot.gap.tail),
          rest)) ∧
      ∀ (r : Request) (w : World) (e : Expectation) (given : Inputs) (is : List Injection) (text : String),
        r.injections c w e given = .ok is → c.script l r is = .ok text → Unmarked slot.path.toList →
        slot.gap.Holds (inSingleQuotes slot.path).toList text.toList := by
  refine ⟨fun s rest => ?_, fun slot mem => ⟨fun f => pathSlots_hold f slot mem, ?_, ?_, ?_⟩⟩
  · rw [Quotation.literal, if_pos rfl, Quotation.contents_inSingleQuotes, Quotation.contents_mark]
    exact if_congr Iff.rfl rfl (by simp)
  · exact fun method subs substituted => pathSlots_replaced substituted slot mem
  · exact Gap.literal_around_inSingleQuotes slot.path
  · intro r w e given is text injected made free
    obtain ⟨commands, raws⟩ := r.injections_raws injected
    have known : ∃ q ∈ commonPlaceholders.tail.dropLast, q.name = slot.name := by
      have names : ∀ name ∈ (c.pathSlots l).map PathSlot.name,
          name ∈ commonPlaceholders.tail.dropLast.map Placeholder.name := by
        simp [pathSlots, commonPlaceholders]
      exact List.mem_map.1 (names _ (List.mem_map_of_mem mem))
    obtain ⟨q, standard, named⟩ := known
    refine chain_keeps raws made standard (fun subs substituted => ?_) (unmarked_inSingleQuotes free) ?_
    · rw [named]
      exact (pathSlots_replaced substituted slot mem _).2 rfl
    · rw [← q.toList_name, named]
      exact pathSlots_hold _ slot mem

/-- A line feed goes through as it is, and there is no literal. -/
theorem path_unquoted :
    ¬ ∀ (s : String) (rest : List Char), Quotation.literal '\'' ('\'' :: ((inSingleQuotes s).toList ++ '\'' :: rest)) =
      some (byteValues (textBytes s), rest) := by
  intro quoted
  have lineFeed : ∃ ch ∈ "new\nline".toList, Quotation.EndsLine ch := ⟨'\n', by decide +kernel, .inl rfl⟩
  have broken := quoted "new\nline" []
  rw [Quotation.literal, if_pos rfl, Quotation.contents_inSingleQuotes, if_pos lineFeed] at broken
  cases broken

end Case

end ServerTrial
