import ServerTrial.Proofs.Placeholders
import ServerTrial.Proofs.NumberText
import ServerTrial.Proofs.LuaLiteral
import ServerTrial.Proofs.Assembly

/-!
# The text around the parameters

Every script that sends a request has one slot for the parameters, on a line of its own, and every other word in
capitals of its text is a placeholder that is filled in or no placeholder at all (`Template.whole_split`).  Quoting
a value or writing a number brings no placeholder about (`unmarked_quoted`, `unmarked_inSingleQuotes`).  So the
replacements of a case whose values are free of placeholders leave nothing to fill in (`Case.substitutions_spec`).
-/

namespace ServerTrial

namespace Lua

/-! ### Templates -/

namespace Template

variable {names : List Placeholder}

/-- In the lines there are no placeholders but those listed. -/
def NamedLines (names : List Placeholder) (lines : List String) : Prop :=
  ∀ line ∈ lines, ∀ w ∈ words [] line.toList, Named names w

/-- In the lines there are no placeholders but those listed and, once and not in the first line, a line that is the
slot for the parameters. -/
inductive Slotted (names : List Placeholder) : List String → Prop where
  | here {cs : List Char} {after : List String} (named : ∀ w ∈ words [] cs, Named names w)
      (rest : NamedLines names after) : Slotted names (String.ofList cs :: "PARAM_ASSIGN" :: after)
  | later {cs : List Char} {lines : List String} (named : ∀ w ∈ words [] cs, Named names w)
      (rest : Slotted names lines) : Slotted names (String.ofList cs :: lines)

theorem NamedLines.nil : NamedLines names [] := fun _ h => absurd h List.not_mem_nil

/-- A line given by its characters. -/
theorem NamedLines.cons {cs : List Char} {lines : List String} (named : ∀ w ∈ words [] cs, Named names w)
    (rest : NamedLines names lines) : NamedLines names (String.ofList cs :: lines) :=
  List.forall_mem_cons.2 ⟨by rw [String.toList_ofList]; exact named, rest⟩

theorem NamedLines.mono {names more : List Placeholder} (sub : names ⊆ more) {lines : List String}
    (named : NamedLines names lines) : NamedLines more lines := fun line hline w hw => (named line hline w hw).mono sub

theorem toList_ofLines (lines : List String) :
    (ofLines lines).toList = lines.flatMap fun line => line.toList ++ ['\n'] := by
  simp [ofLines, String.toList_join, List.flatMap_map]

/-- The words of lines are those of each line, and empty ones. -/
theorem NamedLines.words {lines : List String} (named : NamedLines names lines) :
    ∀ w ∈ Lua.words [] (ofLines lines).toList, Named names w := by
  rw [toList_ofLines]
  induction lines with
  | nil => exact fun w hw => .inl (List.mem_singleton.1 hw ▸ unmarked_nil)
  | cons line rest ih =>
    obtain ⟨first, named⟩ := List.forall_mem_cons.1 named
    rw [List.flatMap_cons, List.append_assoc, List.singleton_append, words_append_cons rfl]
    exact List.forall_mem_append.2 ⟨first, ih named⟩

theorem Slotted.split {lines : List String} (h : Slotted names lines) : ∃ before last after,
    lines = before ++ last :: "PARAM_ASSIGN" :: after ∧ NamedLines names (before ++ [last]) ∧
      NamedLines names after := by
  induction h with
  | @here cs after named rest => exact ⟨[], _, after, rfl, .cons named .nil, rest⟩
  | later named _ ih =>
    obtain ⟨before, last, after, rfl, front, rest⟩ := ih
    exact ⟨_ :: before, last, after, rfl, .cons named front, rest⟩

/-- The placeholders in the script of a fragment. -/
def namesOf (f : Fragment) : List Placeholder :=
  commonPlaceholders ++ if f = .askOrAct then actionPlaceholders else []

/-! The lines of a template are spelled out one after the other, and then their letters, which are quicker to go through
than texts, are looked at all at once. -/

/-- The lines have the letters. -/
def Spelled (lines : List String) (letters : List (List Char)) : Prop := lines = letters.map String.ofList

theorem Spelled.nil : Spelled [] [] := rfl

theorem Spelled.cons {cs : List Char} {lines : List String} {letters : List (List Char)}
    (rest : Spelled lines letters) : Spelled (String.ofList cs :: lines) (cs :: letters) :=
  congrArg (String.ofList cs :: ·) rest

theorem Spelled.named {lines : List String} {letters : List (List Char)} (spelled : Spelled lines letters)
    (named : ∀ cs ∈ letters, ∀ w ∈ Lua.words [] cs, Named names w) : NamedLines names lines := by
  rw [spelled]
  refine List.forall_mem_map.2 fun cs hcs => ?_
  rw [String.toList_ofList]
  exact named cs hcs

/-- The lines have the letters, those in front of the slot and those behind it. -/
def SpelledAround (lines : List String) (before after : List (List Char)) : Prop :=
  ∃ rest, Spelled rest after ∧ lines = before.map String.ofList ++ "PARAM_ASSIGN" :: rest

theorem SpelledAround.here {lines : List String} {after : List (List Char)} (rest : Spelled lines after) :
    SpelledAround ("PARAM_ASSIGN" :: lines) [] after := ⟨lines, rest, rfl⟩

theorem SpelledAround.later {cs : List Char} {lines : List String} {before after : List (List Char)}
    (rest : SpelledAround lines before after) : SpelledAround (String.ofList cs :: lines) (cs :: before) after := by
  obtain ⟨rest, spelled, rfl⟩ := rest
  exact ⟨rest, spelled, rfl⟩

theorem SpelledAround.slotted {lines : List String} {before after : List (List Char)}
    (spelled : SpelledAround lines before after) (first : before ≠ [])
    (front : ∀ cs ∈ before, ∀ w ∈ Lua.words [] cs, Named names w)
    (back : ∀ cs ∈ after, ∀ w ∈ Lua.words [] cs, Named names w) : Slotted names lines := by
  obtain ⟨rest, behind, rfl⟩ := spelled
  induction before with
  | nil => exact absurd rfl first
  | cons cs before ih =>
    obtain ⟨named, front⟩ := List.forall_mem_cons.1 front
    cases before with
    | nil => exact .here named (behind.named back)
    | cons => exact .later named (ih (List.cons_ne_nil _ _) front)

theorem shared_named : ∃ lines, shared = ofLines lines ∧ NamedLines commonPlaceholders lines := by
  unfold shared
  refine ⟨_, rfl, ?_⟩
  apply Spelled.named
  · repeat (first | exact Spelled.nil | apply Spelled.cons)
  · decide +kernel

theorem attach_named : ∃ lines, attach = ofLines lines ∧ NamedLines commonPlaceholders lines := by
  unfold attach
  refine ⟨_, rfl, ?_⟩
  apply Spelled.named
  · repeat (first | exact Spelled.nil | apply Spelled.cons)
  · decide

/-- A fragment that sends a request has one slot. -/
theorem ofFragment_slotted {f : Fragment} (sends : f ≠ .collect) :
    ∃ lines, ofFragment f = ofLines lines ∧ Slotted (namesOf f) lines := by
  have slotted : ∀ {lines : List String}, Slotted (namesOf f) lines →
      ∃ lines', ofLines lines = ofLines lines' ∧ Slotted (namesOf f) lines' := fun h => ⟨_, rfl, h⟩
  cases f with
  | collect => exact absurd rfl sends
  | ask | askOrAct | askTwice =>
    refine slotted ?_
    apply SpelledAround.slotted
    · repeat (first
        | exact Spelled.nil
        | apply SpelledAround.here
        | apply SpelledAround.later
        | apply Spelled.cons)
    · exact List.cons_ne_nil _ _
    · decide
    · decide

/-- **The shape of a script that sends a request**: one slot on a line of its own. -/
theorem whole_split {f : Fragment} (sends : f ≠ .collect) : ∃ before after : List Char,
    (whole f).toList = before ++ '\n' :: (Placeholder.assign.letters ++ '\n' :: after) ∧
      (∀ w ∈ words [] before, Named (namesOf f) w) ∧ ∀ w ∈ words [] after, Named (namesOf f) w := by
  obtain ⟨front, shared_eq, namedFront⟩ := shared_named
  obtain ⟨lines, fragment_eq, slotted⟩ := ofFragment_slotted sends
  obtain ⟨back, attach_eq, namedBack⟩ := attach_named
  obtain ⟨before, last, after, rfl, namedBefore, namedAfter⟩ := slotted.split
  have opening : NamedLines (namesOf f) (front ++ (before ++ [last])) :=
    List.forall_mem_append.2 ⟨namedFront.mono (List.subset_append_left _ _), namedBefore⟩
  have ending : NamedLines (namesOf f) (after ++ back) :=
    List.forall_mem_append.2 ⟨namedAfter, namedBack.mono (List.subset_append_left _ _)⟩
  have text : (ofLines (front ++ (before ++ [last]))).toList =
      (ofLines (front ++ before)).toList ++ last.toList ++ ['\n'] := by
    simp only [toList_ofLines, List.flatMap_append, List.flatMap_cons, List.flatMap_nil, List.append_assoc,
      List.append_nil]
  have named := opening.words
  rw [text, words_append_cons rfl] at named
  refine ⟨(ofLines (front ++ before)).toList ++ last.toList, (ofLines (after ++ back)).toList, ?_,
    fun w hw => named w (List.mem_append_left _ hw), ending.words⟩
  have slot : "PARAM_ASSIGN".toList = Placeholder.assign.letters := Placeholder.assign.toList_name
  rw [whole, shared_eq, fragment_eq, attach_eq, String.toList_append, String.toList_append]
  simp only [toList_ofLines, List.flatMap_append, List.flatMap_cons, slot, List.append_assoc,
    List.cons_append, List.nil_append]

end Template

/-! ### Values -/

theorem isCapital_iff (c : Char) : isCapital c = true ↔ (0x41 ≤ c.toNat ∧ c.toNat ≤ 0x5A) ∨ c.toNat = 0x5F := by
  have upper : ('A' ≤ c ↔ 0x41 ≤ c.toNat) ∧ (c ≤ 'Z' ↔ c.toNat ≤ 0x5A) :=
    ⟨UInt32.le_iff_toNat_le, UInt32.le_iff_toNat_le⟩
  have line : c = '_' ↔ c.toNat = 0x5F := by rw [← Char.toNat_inj]; rfl
  simp only [isCapital, Bool.or_eq_true, Bool.and_eq_true, decide_eq_true_eq, beq_iff_eq, upper, line]

theorem isCapital_ofNat {n : Nat} (small : n < 0x80) :
    isCapital (Char.ofNat n) = true ↔ (0x41 ≤ n ∧ n ≤ 0x5A) ∨ n = 0x5F := by
  rw [isCapital_iff, Text.toNat_ofNat (by unfold Nat.isValidChar; omega)]

theorem unmarked_of_small {cs : List Char} (small : ∀ c ∈ cs, isCapital c = false) : Unmarked cs := by
  induction cs with
  | nil => exact unmarked_nil
  | cons c cs ih =>
    obtain ⟨first, small⟩ := List.forall_mem_cons.1 small
    exact (unmarked_cons first cs).2 (ih small)

theorem words_append_of_small {ds : List Char} (small : ∀ d ∈ ds, isCapital d = false) (cs : List Char) :
    ∀ w ∈ words [] (ds ++ cs), w ∈ words [] cs ∨ w = [] := by
  induction ds with
  | nil => exact fun w hw => .inl hw
  | cons d ds ih =>
    obtain ⟨first, small⟩ := List.forall_mem_cons.1 small
    rw [List.cons_append, words, if_neg (by simp [first])]
    exact List.forall_mem_cons.2 ⟨.inr rfl, ih small⟩

section Escape

variable {e : Char → List Char}

/-- Escaping that keeps capitals and writes other characters with other characters brings no words about. -/
theorem words_flatMap (keeps : ∀ c, isCapital c = true → e c = [c])
    (small : ∀ c, isCapital c = false → e c ≠ [] ∧ ∀ d ∈ e c, isCapital d = false) (word cs : List Char) :
    ∀ w ∈ words word (cs.flatMap e), w ∈ words word cs ∨ w = [] := by
  induction cs generalizing word with
  | nil => exact fun w hw => .inl hw
  | cons c cs ih =>
    rw [List.flatMap_cons, words]
    split
    next capital =>
      rw [keeps c capital, List.singleton_append, words, if_pos capital]
      exact ih _
    next other =>
      obtain ⟨some', small⟩ := small c (Bool.eq_false_iff.2 other)
      obtain ⟨d, ds, written⟩ := List.exists_cons_of_ne_nil some'
      rw [written] at small ⊢
      obtain ⟨first, rest⟩ := List.forall_mem_cons.1 small
      rw [List.cons_append, words, if_neg (by simp [first])]
      refine List.forall_mem_cons.2 ⟨.inl List.mem_cons_self, fun w hw => ?_⟩
      rcases words_append_of_small rest _ w hw with inside | empty
      · exact (ih [] w inside).imp (List.mem_cons_of_mem _) id
      · exact .inr empty

theorem unmarked_flatMap (keeps : ∀ c, isCapital c = true → e c = [c])
    (small : ∀ c, isCapital c = false → e c ≠ [] ∧ ∀ d ∈ e c, isCapital d = false) {cs : List Char}
    (free : Unmarked cs) : Unmarked (cs.flatMap e) := by
  rw [unmarked_iff_words] at free ⊢
  intro w hw
  rcases words_flatMap keeps small [] cs w hw with inside | rfl
  · exact free w inside
  · exact unmarked_nil

end Escape

theorem unmarked_inSingleQuotes {text : String} (free : Unmarked text.toList) :
    Unmarked (inSingleQuotes text).toList := by
  rw [inSingleQuotes, String.toList_ofList]
  refine unmarked_flatMap (fun c capital => ?_) (fun c other => ?_) free
  · unfold escapeSingle
    rw [if_neg, if_neg] <;> (rintro rfl; exact absurd capital (by decide))
  · have slash : isCapital '\\' = false := rfl
    have quote : isCapital '\'' = false := rfl
    unfold escapeSingle
    split
    · exact ⟨nofun, by simp [slash]⟩
    · split
      · exact ⟨nofun, by simp [slash, quote]⟩
      · exact ⟨nofun, fun d hd => List.mem_singleton.1 hd ▸ other⟩

theorem isCapital_digitChar (n : Nat) : isCapital (digitChar n) = false := by
  have bound := Nat.mod_lt n (by decide : 10 > 0)
  rw [Bool.eq_false_iff, Ne, isCapital_iff, toNat_digitChar]
  omega

theorem quoteUnit_small {n : Nat} (other : ¬ ((0x41 ≤ n ∧ n ≤ 0x5A) ∨ n = 0x5F)) :
    quoteUnit n ≠ [] ∧ ∀ d ∈ quoteUnit n, isCapital d = false := by
  have slash : isCapital '\\' = false := rfl
  have own : n < 0x80 → isCapital (Char.ofNat n) = false := fun low =>
    Bool.eq_false_iff.2 fun capital => other ((isCapital_ofNat low).1 capital)
  unfold quoteUnit
  split
  next special =>
    exact ⟨nofun, List.forall_mem_cons.2 ⟨slash, List.forall_mem_cons.2 ⟨own (by omega), nofun⟩⟩⟩
  next =>
    split
    next printable => exact ⟨nofun, List.forall_mem_cons.2 ⟨own (by omega), nofun⟩⟩
    next => exact ⟨nofun, by simp [slash, isCapital_digitChar]⟩

/-- A text between double quotes holds no placeholder if the text holds none. -/
theorem unmarked_quoted {text : String} (free : Unmarked text.toList) : Unmarked (quoted text).toList := by
  rw [toList_quoted, Utf8.byteValues_textBytes, List.flatMap_assoc, unmarked_cons rfl, unmarked_append_cons rfl,
    and_iff_left unmarked_nil]
  refine unmarked_flatMap (fun c capital => ?_) (fun c other => ?_) free
  · have bounds := (isCapital_iff c).1 capital
    rw [Utf8.unitsOf, if_pos (by omega), List.flatMap_singleton, quoteUnit, if_neg (by omega), if_pos (by omega),
      Char.ofNat_toNat]
  · have bounds := mt (isCapital_iff c).2 (Bool.eq_false_iff.1 other)
    have apart : ∀ n ∈ Utf8.unitsOf c, ¬ ((0x41 ≤ n ∧ n ≤ 0x5A) ∨ n = 0x5F) := by
      unfold Utf8.unitsOf
      dsimp only
      split
      · exact List.forall_mem_singleton.2 bounds
      · split
        · simp only [List.mem_cons, forall_eq_or_imp, List.not_mem_nil, false_imp_iff, implies_true, and_true]
          omega
        · split
          · simp only [List.mem_cons, forall_eq_or_imp, List.not_mem_nil, false_imp_iff, implies_true, and_true]
            omega
          · simp only [List.mem_cons, forall_eq_or_imp, List.not_mem_nil, false_imp_iff, implies_true, and_true]
            omega
    constructor
    · obtain ⟨n, hn⟩ := List.exists_mem_of_length_pos (Utf8.unitsOf_length_pos c)
      obtain ⟨d, hd⟩ := List.exists_mem_of_ne_nil _ (quoteUnit_small (apart n hn)).1
      exact List.ne_nil_of_mem (List.mem_flatMap.2 ⟨n, hn, hd⟩)
    · intro d hd
      obtain ⟨n, hn, hd⟩ := List.mem_flatMap.1 hd
      exact (quoteUnit_small (apart n hn)).2 d hd

/-- The text holds no placeholder, and no word in capitals goes on behind it. -/
def Closed (cs : List Char) : Prop := Unmarked cs ∧ cs.getLast?.any isCapital = false

instance (cs : List Char) : Decidable (Closed cs) :=
  inferInstanceAs (Decidable (Unmarked cs ∧ cs.getLast?.any isCapital = false))

theorem closed_literal {cs : List Char} (h : Closed cs) : Closed (String.ofList cs).toList := by
  rw [String.toList_ofList]
  exact h

theorem Closed.append {x y : List Char} (hx : Closed x) (hy : Closed y) : Closed (x ++ y) := by
  rcases List.eq_nil_or_concat' x with rfl | ⟨front, last, rfl⟩
  · exact hy
  · obtain ⟨free, ends⟩ := hx
    rw [List.getLast?_concat, Option.any_some] at ends
    rw [unmarked_append_cons ends] at free
    constructor
    · rw [List.append_assoc, List.singleton_append, unmarked_append_cons ends]
      exact ⟨free.1, hy.1⟩
    · rw [List.getLast?_append]
      cases h : y.getLast? with
      | none => rw [Option.none_or, List.getLast?_concat, Option.any_some, ends]
      | some d =>
        rw [Option.some_or, ← h]
        exact hy.2

theorem Closed.intercalate {sep : List Char} (between : Closed sep) {xs : List (List Char)}
    (each : ∀ x ∈ xs, Closed x) : Closed (sep.intercalate xs) := by
  induction xs with
  | nil => exact ⟨unmarked_nil, rfl⟩
  | cons x xs ih =>
    obtain ⟨first, each⟩ := List.forall_mem_cons.1 each
    cases xs with
    | nil => simpa using first
    | cons y ys =>
      rw [List.intercalate_cons_cons]
      exact (first.append between).append (ih each)

theorem closed_quoted {text : String} (free : Unmarked text.toList) : Closed (quoted text).toList := by
  refine ⟨unmarked_quoted free, ?_⟩
  rw [toList_quoted, ← List.cons_append, List.getLast?_concat]
  rfl

/-- Advertised commands bring no placeholder into the script if they hold none. -/
theorem unmarked_commands {commands : List String} (free : ∀ t ∈ commands, Unmarked t.toList) :
    Unmarked (", ".intercalate (commands.map quoted)).toList := by
  rw [String.toList_intercalate]
  refine (Closed.intercalate (closed_literal (by decide)) fun x hx => ?_).1
  obtain ⟨_, written, rfl⟩ := List.mem_map.1 hx
  obtain ⟨t, ht, rfl⟩ := List.mem_map.1 written
  exact closed_quoted (free t ht)

theorem unmarked_onProgressEnd {token : String} (free : Unmarked token.toList) :
    Unmarked (onAttach.onProgressEnd token).toList := by
  have between : Closed ("\n" ++ attachIndent).toList := by decide
  rw [onAttach.onProgressEnd, String.toList_intercalate]
  refine (Closed.intercalate between fun x hx => ?_).1
  obtain ⟨line, hline, rfl⟩ := List.mem_map.1 hx
  simp only [List.mem_cons, List.not_mem_nil, or_false] at hline
  rcases hline with rfl | rfl | rfl | rfl | rfl | rfl
  case inr.inl =>
    rw [String.toList_append, String.toList_append]
    exact ((closed_literal (by decide)).append (closed_quoted free)).append (closed_literal (by decide))
  all_goals exact closed_literal (by decide)

theorem unmarked_onAttach {startup : Startup} {text : String}
    (free : ∀ n token, startup = .progress n token → Unmarked token.toList) (h : onAttach startup = .ok text) :
    Unmarked text.toList := by
  cases startup with
  | immediate =>
    rw [← Except.ok.inj h]
    decide
  | progress n token =>
    rw [onAttach] at h
    split at h
    · rw [← Except.ok.inj h]
      exact unmarked_onProgressEnd (free n token rfl)
    · exact nomatch h

theorem unmarked_int (n : Int) : Unmarked (toString n).toList := by
  rw [Json.toList_toString]
  refine unmarked_of_small fun c hc => ?_
  rcases List.mem_append.1 hc with sign | digit
  · unfold Json.signChars at sign
    split at sign
    · exact List.mem_singleton.1 sign ▸ rfl
    · exact absurd sign List.not_mem_nil
  · have bounds := Json.digits_toDigits n.natAbs c digit
    simp only [Json.isDigit, Bool.and_eq_true, decide_eq_true_eq] at bounds
    have low : 0x30 ≤ c.toNat := UInt32.le_iff_toNat_le.1 bounds.1
    have high : c.toNat ≤ 0x39 := UInt32.le_iff_toNat_le.1 bounds.2
    rw [Bool.eq_false_iff, Ne, isCapital_iff]
    omega

end Lua

theorem Request.mem_all (r : Request) : r ∈ all := by
  cases r <;> exact List.elem_iff.1 rfl

theorem Request.unmarked_method (r : Request) : Lua.Unmarked r.method.toList := by
  have every : Lua.Template.NamedLines [] (all.map method) := by
    apply Lua.Template.Spelled.named
    · repeat (first | exact Lua.Template.Spelled.nil | apply Lua.Template.Spelled.cons)
    · decide
  exact Lua.unmarked_of_named (every _ (List.mem_map_of_mem r.mem_all))

namespace Case

open Lua

/-- What is filled in for the case holds no placeholder. -/
structure IsUnmarked (c : Case) (l : Layout) : Prop where
  markers : ∀ m, Unmarked (l.marker m).toString.toList
  root : Unmarked l.root.toString.toList
  sources : Unmarked l.sources.toString.toList
  server : Unmarked c.server.toList
  extension : Unmarked c.source.extension.toList
  token : ∀ n token, c.startup = .progress n token → Unmarked token.toList

variable {c : Case} {l : Layout}

theorem fileExtension_eq {extension : String} (h : c.fileExtension = .ok extension) :
    extension = c.source.extension := by
  unfold fileExtension at h
  dsimp only at h
  split at h
  · exact nomatch h
  · split at h
    · exact (Except.ok.inj h).symm
    · exact nomatch h

/-- A case has its replacements only if its source has an extension and its timeout is a number of milliseconds. -/
theorem substitutions_inv {method : String} {subs : List Substitution} (h : c.substitutions l method = .ok subs) :
    ∃ ms, c.fileExtension = .ok c.source.extension ∧ c.milliseconds = .ok ms := by
  unfold substitutions at h
  obtain ⟨suffix, extension, h⟩ := bind_eq_ok h
  obtain ⟨ms, timeout, -⟩ := bind_eq_ok h
  exact ⟨ms, by rw [extension, fileExtension_eq extension], mapError_eq_ok timeout⟩

/-- The replacements that every case has fill every placeholder but that for the attached server, with texts that
hold none if the values of the case hold none. -/
theorem substitutions_spec {r : Request} {subs : List Substitution} (h : c.substitutions l r.method = .ok subs) :
    subs.map Substitution.placeholder = commonPlaceholders.tail.map Placeholder.name ∧
      (c.IsUnmarked l → ∀ s ∈ subs, Unmarked s.replacement.toList) := by
  obtain ⟨ms, extension, timeout⟩ := substitutions_inv h
  rw [substitutions, extension, timeout] at h
  rw [← Except.ok.inj h]
  refine ⟨rfl, fun free => ?_⟩
  have marker := fun m => unmarked_inSingleQuotes (free.markers m)
  simp only [List.mem_cons, forall_eq_or_imp, List.not_mem_nil, false_imp_iff, implies_true, and_true]
  exact ⟨r.unmarked_method, marker _, marker _, marker _, marker _, marker _,
    unmarked_inSingleQuotes free.server, unmarked_inSingleQuotes free.root, unmarked_inSingleQuotes free.sources,
    free.extension, unmarked_int _, unmarked_int _, by decide⟩

/-- Where no commands are advertised their place is cleared at the end. -/
theorem substitutions_concat {method : String} {subs : List Substitution} (h : c.substitutions l method = .ok subs) :
    ∃ front, subs = front ++ [⟨"COMMANDS", ""⟩] := by
  obtain ⟨ms, extension, timeout⟩ := substitutions_inv h
  rw [substitutions, extension, timeout] at h
  rw [← Except.ok.inj h]
  exact ⟨[_, _, _, _, _, _, _, _, _, _, _, _], rfl⟩

theorem attachSubstitution_spec {f : Fragment} {s : Substitution} (h : c.attachSubstitution f = .ok s) :
    s.placeholder = "LSP_ACTION" ∧ (c.IsUnmarked l → Unmarked s.replacement.toList) := by
  unfold attachSubstitution at h
  obtain ⟨action, ready, rfl⟩ := Injection.map_eq_ok h
  refine ⟨rfl, fun free => ?_⟩
  split at ready
  · rw [← Except.ok.inj ready]
    exact unmarked_nil
  · exact unmarked_onAttach free.token ready

end Case

end ServerTrial
