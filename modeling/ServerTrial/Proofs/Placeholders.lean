import Mathlib
import ServerTrial.Lua.Script

/-!
# Placeholders

A placeholder is a word in capitals.  A text is gone through word by word (`mapWords`); as no placeholder holds a
character that ends a word, replacing one acts on each word alone (`replaceAll_mapWords`), and so does a chain of
replacements (`foldl_fill_mapWords`).  What a chain makes of a placeholder holds no placeholder if every value it
puts in is in the end free of them (`Resolves.unmarked_letters`).  The slot for the parameters is
filled last: `fill_slot` says that what stands around it does not depend on what is put there.
-/

namespace ServerTrial.Lua

/-- A character that words in capitals consist of. -/
def isCapital (c : Char) : Bool := ('A' ≤ c && c ≤ 'Z') || c == '_'

/-- A name for what is filled in, letter by letter. -/
structure Placeholder where
  name : String
  letters : List Char
  spelled : String.ofList letters = name

/-- The placeholder for the block that fills the parameters. -/
def Placeholder.assign : Placeholder := ⟨"PARAM_ASSIGN", _, rfl⟩

/-- The placeholders of what every script does. -/
def commonPlaceholders : List Placeholder := [
  ⟨"LSP_ACTION", _, rfl⟩, ⟨"REQUEST_METHOD", _, rfl⟩, ⟨"RESULTS_FILE", _, rfl⟩, ⟨"ERROR_PATH", _, rfl⟩,
  ⟨"LOG_PATH", _, rfl⟩, ⟨"EMPTY_PATH", _, rfl⟩, ⟨"TIMEOUT_PATH", _, rfl⟩, ⟨"EXECUTABLE_PATH", _, rfl⟩,
  ⟨"ROOT_PATH", _, rfl⟩, ⟨"PARENT_PATH", _, rfl⟩, ⟨"FILE_EXTENSION", _, rfl⟩, ⟨"TIMEOUT_MS", _, rfl⟩,
  ⟨"PROGRESS_THRESHOLD", _, rfl⟩, ⟨"COMMANDS", _, rfl⟩]

/-- The placeholders of scripts in which the editor may perform the request. -/
def actionPlaceholders : List Placeholder := [⟨"INVOKE_ACTION", _, rfl⟩, ⟨"INVOKE_FN", _, rfl⟩]

def placeholders : List Placeholder := .assign :: (commonPlaceholders ++ actionPlaceholders)

/-- The placeholder for the commands that the editor advertises. -/
def Placeholder.commands : Placeholder := ⟨"COMMANDS", _, rfl⟩

theorem Placeholder.commands_mem_common : commands ∈ commonPlaceholders :=
  List.mem_of_getElem? (show commonPlaceholders[13]? = some commands from rfl)

theorem Placeholder.timeout_mem_tail : (⟨"TIMEOUT_MS", _, rfl⟩ : Placeholder) ∈ commonPlaceholders.tail :=
  List.mem_of_getElem? (show commonPlaceholders.tail[10]? = some _ from rfl)

/-- The placeholder for the function by which the editor performs a request. -/
def Placeholder.invoke : Placeholder := ⟨"INVOKE_FN", _, rfl⟩

/-- The placeholders of a script that says by which function the editor performs a request. -/
def templatePlaceholders : List Placeholder := .assign :: (commonPlaceholders ++ [⟨"INVOKE_ACTION", _, rfl⟩])

/-- No placeholder occurs in the text. -/
def Unmarked (cs : List Char) : Prop := ∀ p ∈ placeholders, Text.occurs p.letters cs = false

instance (cs : List Char) : Decidable (Unmarked cs) :=
  inferInstanceAs (Decidable (∀ p ∈ placeholders, Text.occurs p.letters cs = false))

/-! ### Patterns and characters that are not in them -/

section Pattern

variable {p : List Char} {sep : Char}

theorem occurs_cons (c : Char) (cs : List Char) :
    Text.occurs p (c :: cs) = (p.isPrefixOf (c :: cs) || Text.occurs p cs) := rfl

theorem replaceFrom_zero_cons (v : List Char) (c : Char) (cs : List Char) :
    replaceFrom p v 0 (c :: cs) =
      if p.isPrefixOf (c :: cs) then v ++ replaceFrom p v (p.length - 1) cs else c :: replaceFrom p v 0 cs := by
  rw [replaceFrom]

theorem isPrefixOf_append_cons (out : sep ∉ p) (x y : List Char) : p.isPrefixOf (x ++ sep :: y) = p.isPrefixOf x := by
  induction p generalizing x with
  | nil => simp
  | cons a p ih =>
    rw [List.mem_cons, not_or] at out
    obtain ⟨other, out⟩ := out
    cases x with
    | nil => simp [List.isPrefixOf, Ne.symm other]
    | cons c x => rw [List.cons_append, List.isPrefixOf, List.isPrefixOf, ih out]

/-- A pattern occurs on one of the sides of a character that it does not hold. -/
theorem occurs_append_cons (out : sep ∉ p) (x y : List Char) :
    Text.occurs p (x ++ sep :: y) = (Text.occurs p x || Text.occurs p y) := by
  induction x with
  | nil =>
    have front := isPrefixOf_append_cons out [] y
    have empty : p.isPrefixOf [] = Text.occurs p [] := by cases p <;> rfl
    rw [List.nil_append] at front ⊢
    rw [occurs_cons, front, empty]
  | cons c x ih =>
    have front := isPrefixOf_append_cons out (c :: x) y
    rw [List.cons_append] at front ⊢
    rw [occurs_cons, front, ih, occurs_cons, Bool.or_assoc]

theorem length_le_of_isPrefixOf {x : List Char} (h : p.isPrefixOf x = true) : p.length ≤ x.length :=
  (List.isPrefixOf_iff_prefix.1 h).length_le

theorem replaceFrom_append_cons (some' : p ≠ []) (out : sep ∉ p) (v x y : List Char) {skip : Nat}
    (inside : skip ≤ x.length) :
    replaceFrom p v skip (x ++ sep :: y) = replaceFrom p v skip x ++ sep :: replaceFrom p v 0 y := by
  induction x generalizing skip with
  | nil =>
    obtain rfl : skip = 0 := Nat.le_zero.1 inside
    have front := isPrefixOf_append_cons out [] y
    rw [List.nil_append] at front ⊢
    rw [replaceFrom_zero_cons, front, if_neg (by simp [some']), replaceFrom, List.nil_append]
  | cons c x ih =>
    cases skip with
    | succ skip => rw [List.cons_append, replaceFrom, replaceFrom, ih (Nat.le_of_succ_le_succ inside)]
    | zero =>
      have front := isPrefixOf_append_cons out (c :: x) y
      rw [List.cons_append] at front ⊢
      rw [replaceFrom_zero_cons, replaceFrom_zero_cons, front]
      split
      next fits =>
        have room := length_le_of_isPrefixOf fits
        rw [ih (by rw [List.length_cons] at room; omega), List.append_assoc]
      next => rw [ih (Nat.zero_le _), List.cons_append]

/-- Replacing goes on afresh behind a character that the pattern does not hold. -/
theorem replaceAll_append_cons (some' : p ≠ []) (out : sep ∉ p) (v x y : List Char) :
    replaceAll p v (x ++ sep :: y) = replaceAll p v x ++ sep :: replaceAll p v y := by
  have full : ¬ p.isEmpty = true := by simpa using some'
  simp only [replaceAll, if_neg full]
  exact replaceFrom_append_cons some' out v x y (Nat.zero_le _)

theorem replaceFrom_of_length_le (v x : List Char) {skip : Nat} (all : x.length ≤ skip) :
    replaceFrom p v skip x = [] := by
  induction x generalizing skip with
  | nil => rw [replaceFrom]
  | cons c x ih =>
    cases skip with
    | zero => exact absurd all (Nat.not_succ_le_zero _)
    | succ skip => rw [replaceFrom, ih (Nat.le_of_succ_le_succ all)]

/-- Where the pattern is the whole text, its replacement is. -/
theorem replaceAll_self (some' : p ≠ []) (v : List Char) : replaceAll p v p = v := by
  cases p with
  | nil => exact absurd rfl some'
  | cons a p =>
    have fits : List.isPrefixOf (a :: p) (a :: p) = true := List.isPrefixOf_iff_prefix.2 (List.prefix_refl _)
    rw [replaceAll, List.isEmpty_cons, if_neg Bool.false_ne_true, replaceFrom, if_pos fits,
      replaceFrom_of_length_le v p (by simp), List.append_nil]

/-- Where the pattern does not occur nothing changes. -/
theorem replaceAll_of_not_occurs (some' : p ≠ []) (v : List Char) {x : List Char}
    (absent : Text.occurs p x = false) : replaceAll p v x = x := by
  have full : ¬ p.isEmpty = true := by simpa using some'
  rw [replaceAll, if_neg full]
  induction x with
  | nil => rw [replaceFrom]
  | cons c x ih =>
    rw [Text.occurs, Bool.or_eq_false_iff] at absent
    rw [replaceFrom, absent.1, if_neg Bool.false_ne_true, ih absent.2]

end Pattern

/-! ### Word by word -/

/-- A text with a function applied to each of its words in capitals; `word` is what has been read of the first. -/
def mapWords (f : List Char → List Char) (word : List Char) : List Char → List Char
  | [] => f word
  | c :: cs => if isCapital c then mapWords f (word ++ [c]) cs else f word ++ c :: mapWords f [] cs

/-- The words in capitals of a text, with empty ones between other characters. -/
def words (word : List Char) : List Char → List (List Char)
  | [] => [word]
  | c :: cs => if isCapital c then words (word ++ [c]) cs else word :: words [] cs

theorem mapWords_id (word cs : List Char) : mapWords id word cs = word ++ cs := by
  induction cs generalizing word with
  | nil => rw [mapWords, id, List.append_nil]
  | cons c cs ih =>
    rw [mapWords]
    split
    · rw [ih, List.append_assoc, List.singleton_append]
    · rw [ih, id, List.nil_append]

theorem mapWords_append_cons {sep : Char} (ends : isCapital sep = false) (f : List Char → List Char)
    (word x y : List Char) : mapWords f word (x ++ sep :: y) = mapWords f word x ++ sep :: mapWords f [] y := by
  induction x generalizing word with
  | nil => rw [List.nil_append, mapWords, mapWords, if_neg (by simp [ends])]
  | cons c x ih =>
    rw [List.cons_append, mapWords, mapWords]
    split
    · exact ih _
    · rw [ih, List.append_assoc, List.cons_append]

theorem words_append_cons {sep : Char} (ends : isCapital sep = false) (word x y : List Char) :
    words word (x ++ sep :: y) = words word x ++ words [] y := by
  induction x generalizing word with
  | nil => rw [List.nil_append, words, words, if_neg (by simp [ends]), List.singleton_append]
  | cons c x ih =>
    rw [List.cons_append, words, words]
    split
    · exact ih _
    · rw [ih, List.cons_append]

/-- A text in capitals is one word. -/
theorem words_of_capital {cs : List Char} (capitals : ∀ c ∈ cs, isCapital c = true) (word : List Char) :
    words word cs = [word ++ cs] := by
  induction cs generalizing word with
  | nil => rw [words, List.append_nil]
  | cons c cs ih =>
    obtain ⟨first, capitals⟩ := List.forall_mem_cons.1 capitals
    rw [words, if_pos first, ih capitals, List.append_assoc, List.singleton_append]

/-- The words of what becomes of a text are those of what becomes of its words. -/
theorem words_mapWords (f : List Char → List Char) (word cs : List Char) :
    words [] (mapWords f word cs) = (words word cs).flatMap fun w => words [] (f w) := by
  induction cs generalizing word with
  | nil => rw [mapWords, words, List.flatMap_singleton]
  | cons c cs ih =>
    rw [mapWords, words]
    split
    · exact ih _
    next small => rw [words_append_cons (Bool.eq_false_iff.2 small), ih, List.flatMap_cons]

theorem mapWords_congr {f g : List Char → List Char} {word cs : List Char} (same : ∀ w ∈ words word cs, f w = g w) :
    mapWords f word cs = mapWords g word cs := by
  induction cs generalizing word with
  | nil => exact same word (List.mem_singleton_self _)
  | cons c cs ih =>
    rw [words] at same
    rw [mapWords, mapWords]
    split at same
    next capital => rw [if_pos capital, if_pos capital, ih same]
    next small =>
      obtain ⟨first, same⟩ := List.forall_mem_cons.1 same
      rw [if_neg small, if_neg small, first, ih same]

/-- A text has the words of its parts. -/
theorem mem_words_between {sep sep' : Char} (ends : isCapital sep = false) (ends' : isCapital sep' = false)
    {cs : List Char} (capitals : ∀ c ∈ cs, isCapital c = true) (before after : List Char) :
    cs ∈ words [] (before ++ sep :: (cs ++ sep' :: after)) := by
  rw [words_append_cons ends, words_append_cons ends', words_of_capital capitals]
  exact List.mem_append_right _ (List.mem_append_left _ (List.mem_singleton_self _))

section Word

variable {p : List Char}

/-- A pattern in capitals occurs in a text if it occurs in what has become of one of its words. -/
theorem occurs_mapWords (capitals : ∀ c ∈ p, isCapital c = true) (f : List Char → List Char)
    (word cs : List Char) :
    Text.occurs p (mapWords f word cs) = (words word cs).any fun w => Text.occurs p (f w) := by
  induction cs generalizing word with
  | nil => rw [mapWords, words, List.any_cons, List.any_nil, Bool.or_false]
  | cons c cs ih =>
    rw [mapWords, words]
    split
    · exact ih _
    next small => rw [occurs_append_cons (fun inside => small (capitals c inside)), ih, List.any_cons]

/-- Replacing a pattern in capitals acts on each word alone. -/
theorem replaceAll_mapWords (some' : p ≠ []) (capitals : ∀ c ∈ p, isCapital c = true) (v : List Char)
    (f : List Char → List Char) (word cs : List Char) :
    replaceAll p v (mapWords f word cs) = mapWords (fun w => replaceAll p v (f w)) word cs := by
  induction cs generalizing word with
  | nil => rw [mapWords, mapWords]
  | cons c cs ih =>
    rw [mapWords, mapWords]
    split
    · exact ih _
    next small => rw [replaceAll_append_cons some' (fun inside => small (capitals c inside)), ih]

end Word

/-! ### The placeholders -/

namespace Placeholder

@[simp] theorem toList_name (p : Placeholder) : p.name.toList = p.letters := by
  rw [← p.spelled, String.toList_ofList]

theorem letters_ne_nil : ∀ p ∈ placeholders, p.letters ≠ [] := by decide

theorem letters_capital (p : Placeholder) (hp : p ∈ placeholders) : ∀ c ∈ p.letters, isCapital c = true := by
  have all : (placeholders.all fun p => p.letters.all isCapital) = true := by decide +kernel
  exact List.all_eq_true.1 (List.all_eq_true.1 all p hp)

/-- Only as a whole is a placeholder within another one. -/
theorem letters_eq_of_occurs : ∀ p ∈ placeholders, ∀ q ∈ placeholders, Text.occurs p.letters q.letters = true →
    p.letters = q.letters := by decide +kernel

theorem name_eq_of_letters_eq {p q : Placeholder} (h : p.letters = q.letters) : p.name = q.name := by
  rw [← p.spelled, ← q.spelled, h]

end Placeholder

/-- What becomes of a text word by word is free of placeholders if what becomes of each word is. -/
theorem unmarked_mapWords_iff (f : List Char → List Char) (word cs : List Char) :
    Unmarked (mapWords f word cs) ↔ ∀ w ∈ words word cs, Unmarked (f w) := by
  unfold Unmarked
  constructor
  · intro free w hw p hp
    have absent := free p hp
    rw [occurs_mapWords (p.letters_capital hp), List.any_eq_false] at absent
    exact Bool.eq_false_iff.2 (absent w hw)
  · intro free p hp
    rw [occurs_mapWords (p.letters_capital hp), List.any_eq_false]
    exact fun w hw => Bool.eq_false_iff.1 (free w hw p hp)

theorem unmarked_iff_words (cs : List Char) : Unmarked cs ↔ ∀ w ∈ words [] cs, Unmarked w := by
  simpa only [mapWords_id, List.nil_append, id] using unmarked_mapWords_iff id [] cs

theorem unmarked_append_cons {sep : Char} (ends : isCapital sep = false) (x y : List Char) :
    Unmarked (x ++ sep :: y) ↔ Unmarked x ∧ Unmarked y := by
  rw [unmarked_iff_words, words_append_cons ends, List.forall_mem_append, ← unmarked_iff_words,
    ← unmarked_iff_words]

theorem unmarked_nil : Unmarked [] := by decide +kernel

theorem unmarked_cons {sep : Char} (ends : isCapital sep = false) (cs : List Char) :
    Unmarked (sep :: cs) ↔ Unmarked cs := by
  rw [← List.nil_append (sep :: cs), unmarked_append_cons ends, and_iff_right unmarked_nil]

/-! ### Chains of replacements -/

/-- Every replacement is one of a placeholder. -/
def Known (subs : List Substitution) : Prop := ∀ s ∈ subs, ∃ p ∈ placeholders, s.placeholder = p.name

/-- Every value that the chain puts in is free of placeholders when the rest of the chain has gone over it. -/
def Resolves : List Substitution → Prop
  | [] => True
  | s :: rest => Unmarked (rest.foldl fill s.replacement.toList) ∧ Resolves rest

/-- The word holds no placeholder or is one of those listed. -/
def Named (names : List Placeholder) (w : List Char) : Prop := Unmarked w ∨ w ∈ names.map Placeholder.letters

/-- Most words are empty, which is found out before placeholders are looked for. -/
theorem named_iff (names : List Placeholder) (w : List Char) :
    (w.isEmpty = true ∨ Unmarked w ∨ w ∈ names.map Placeholder.letters) ↔ Named names w := by
  refine or_iff_right_of_imp fun empty => .inl ?_
  rw [List.isEmpty_iff.1 empty]
  exact unmarked_nil

instance (names : List Placeholder) (w : List Char) : Decidable (Named names w) :=
  decidable_of_iff _ (named_iff names w)

/-- A text is free of placeholders if its words are, which are quicker to go through than its places. -/
theorem unmarked_of_named {cs : List Char} (named : ∀ w ∈ words [] cs, Named [] w) : Unmarked cs :=
  (unmarked_iff_words cs).2 fun w hw => (named w hw).resolve_right List.not_mem_nil

theorem Named.mono {names more : List Placeholder} (sub : names ⊆ more) {w : List Char} (named : Named names w) :
    Named more w := named.imp id fun listed => List.map_subset _ sub listed

theorem Named.words {names : List Placeholder} (sub : names ⊆ placeholders) {w : List Char} (named : Named names w) :
    ∀ w' ∈ words [] w, Named names w' := by
  rcases named with free | listed
  · exact fun w' hw' => .inl ((unmarked_iff_words w).1 free w' hw')
  · obtain ⟨q, hq, rfl⟩ := List.mem_map.1 listed
    rw [words_of_capital (q.letters_capital (sub hq))]
    exact List.forall_mem_singleton.2 (.inr listed)

section Fill

variable {s : Substitution} {p q : Placeholder}

theorem fill_mapWords (hp : p ∈ placeholders) (name : s.placeholder = p.name) (f : List Char → List Char)
    (word cs : List Char) : fill (mapWords f word cs) s = mapWords (fun w => fill (f w) s) word cs := by
  unfold fill
  rw [name, p.toList_name]
  exact replaceAll_mapWords (p.letters_ne_nil hp) (p.letters_capital hp) _ f word cs

theorem fill_of_unmarked (hp : p ∈ placeholders) (name : s.placeholder = p.name) {cs : List Char}
    (free : Unmarked cs) : fill cs s = cs := by
  rw [fill, name, p.toList_name]
  exact replaceAll_of_not_occurs (p.letters_ne_nil hp) _ (free p hp)

/-- A placeholder is replaced as a whole. -/
theorem fill_same (hp : p ∈ placeholders) (name : s.placeholder = p.name) :
    fill p.letters s = s.replacement.toList := by
  rw [fill, name, p.toList_name]
  exact replaceAll_self (p.letters_ne_nil hp) _

/-- A placeholder stays when another one is replaced. -/
theorem fill_other (hp : p ∈ placeholders) (hq : q ∈ placeholders) (name : s.placeholder = p.name)
    (other : s.placeholder ≠ q.name) : fill q.letters s = q.letters := by
  rw [fill, name, p.toList_name]
  refine replaceAll_of_not_occurs (p.letters_ne_nil hp) _ (Bool.eq_false_iff.2 fun occurs => other ?_)
  rw [name]
  exact Placeholder.name_eq_of_letters_eq (p.letters_eq_of_occurs hp q hq occurs)

end Fill

section Chain

variable {subs : List Substitution}

theorem foldl_fill_mapWords (known : Known subs) (f : List Char → List Char) (word cs : List Char) :
    subs.foldl fill (mapWords f word cs) = mapWords (fun w => subs.foldl fill (f w)) word cs := by
  induction subs generalizing f with
  | nil => rfl
  | cons s rest ih =>
    obtain ⟨⟨p, hp, name⟩, known⟩ := List.forall_mem_cons.1 known
    rw [List.foldl_cons, fill_mapWords hp name, ih known]
    rfl

theorem foldl_fill_eq_mapWords (known : Known subs) (cs : List Char) :
    subs.foldl fill cs = mapWords (subs.foldl fill) [] cs := by
  simpa only [mapWords_id, List.nil_append, id] using foldl_fill_mapWords known id [] cs

theorem Known.capital (known : Known subs) {s : Substitution} (hs : s ∈ subs) :
    ∀ c ∈ s.placeholder.toList, isCapital c = true := by
  obtain ⟨p, hp, name⟩ := known s hs
  rw [name, p.toList_name]
  exact p.letters_capital hp

theorem Known.ne_nil (known : Known subs) {s : Substitution} (hs : s ∈ subs) : s.placeholder.toList ≠ [] := by
  obtain ⟨p, hp, name⟩ := known s hs
  rw [name, p.toList_name]
  exact p.letters_ne_nil hp

theorem Known.notMem (known : Known subs) {s : Substitution} (hs : s ∈ subs) {sep : Char}
    (ends : isCapital sep = false) : sep ∉ s.placeholder.toList := fun inside => by
  rw [known.capital hs sep inside] at ends
  exact nomatch ends

theorem Known.occurs_of_unmarked (known : Known subs) {cs : List Char} (free : Unmarked cs) :
    ∀ s ∈ subs, Text.occurs s.placeholder.toList cs = false := fun s hs => by
  obtain ⟨p, hp, name⟩ := known s hs
  rw [name, p.toList_name]
  exact free p hp

/-- Of a placeholder no other one is a part. -/
theorem Known.occurs_of_notMem (known : Known subs) {q : Placeholder} (hq : q ∈ placeholders)
    (absent : q.name ∉ subs.map Substitution.placeholder) :
    ∀ s ∈ subs, Text.occurs s.placeholder.toList q.letters = false := fun s hs => by
  obtain ⟨p, hp, name⟩ := known s hs
  rw [name, p.toList_name]
  refine Bool.eq_false_iff.2 fun occurs => absent (List.mem_map.2 ⟨s, hs, ?_⟩)
  rw [name, Placeholder.name_eq_of_letters_eq (p.letters_eq_of_occurs hp q hq occurs)]

/-- A chain leaves a text as it is in which none of its placeholders occurs. -/
theorem foldl_fill_of_not_occurs (known : Known subs) {cs : List Char}
    (absent : ∀ s ∈ subs, Text.occurs s.placeholder.toList cs = false) : subs.foldl fill cs = cs := by
  induction subs with
  | nil => rfl
  | cons s rest ih =>
    obtain ⟨own, absent⟩ := List.forall_mem_cons.1 absent
    rw [List.foldl_cons, fill, replaceAll_of_not_occurs (known.ne_nil List.mem_cons_self) _ own,
      ih (List.forall_mem_cons.1 known).2 absent]

theorem foldl_fill_of_unmarked (known : Known subs) {cs : List Char} (free : Unmarked cs) :
    subs.foldl fill cs = cs := foldl_fill_of_not_occurs known (known.occurs_of_unmarked free)

theorem foldl_fill_other (known : Known subs) {q : Placeholder} (hq : q ∈ placeholders)
    (absent : q.name ∉ subs.map Substitution.placeholder) : subs.foldl fill q.letters = q.letters :=
  foldl_fill_of_not_occurs known (known.occurs_of_notMem hq absent)

/-- A chain leaves a text as it is whose placeholders it does not replace. -/
theorem foldl_fill_of_named {subs : List Substitution} (known : Known subs) {names : List Placeholder}
    (apart : ∀ q ∈ names, q ∈ placeholders ∧ q.name ∉ subs.map Substitution.placeholder) {cs : List Char}
    (named : ∀ w ∈ words [] cs, Named names w) : subs.foldl fill cs = cs := by
  have same : ∀ w ∈ words [] cs, subs.foldl fill w = id w := by
    intro w hw
    rcases named w hw with free | listed
    · exact foldl_fill_of_unmarked known free
    · obtain ⟨q, hq, rfl⟩ := List.mem_map.1 listed
      exact foldl_fill_other known (apart q hq).1 (apart q hq).2
  rw [foldl_fill_eq_mapWords known, mapWords_congr same, mapWords_id, List.nil_append]

/-- A chain acts on both sides of a character that ends a word. -/
theorem foldl_fill_append_cons (known : Known subs) {sep : Char} (ends : isCapital sep = false) (x y : List Char) :
    subs.foldl fill (x ++ sep :: y) = subs.foldl fill x ++ sep :: subs.foldl fill y := by
  rw [foldl_fill_eq_mapWords known, mapWords_append_cons ends, ← foldl_fill_eq_mapWords known,
    ← foldl_fill_eq_mapWords known]

theorem Known.append {more : List Substitution} (known : Known subs) (rest : Known more) : Known (subs ++ more) :=
  List.forall_mem_append.2 ⟨known, rest⟩

/-- Texts without placeholders may be put in before. -/
theorem Resolves.append {more : List Substitution} (known : Known (subs ++ more))
    (free : ∀ s ∈ subs, Unmarked s.replacement.toList) (resolves : Resolves more) : Resolves (subs ++ more) := by
  induction subs with
  | nil => exact resolves
  | cons s rest ih =>
    obtain ⟨-, known⟩ := List.forall_mem_cons.1 known
    obtain ⟨own, free⟩ := List.forall_mem_cons.1 free
    refine ⟨?_, ih known free⟩
    rw [foldl_fill_of_unmarked known own]
    exact own

/-- Nothing of a placeholder that the chain replaces is left, whichever of its replacements comes first. -/
theorem Resolves.unmarked_letters (known : Known subs) (resolves : Resolves subs) {q : Placeholder}
    (hq : q ∈ placeholders) (present : q.name ∈ subs.map Substitution.placeholder) :
    Unmarked (subs.foldl fill q.letters) := by
  induction subs with
  | nil => exact absurd present List.not_mem_nil
  | cons s rest ih =>
    obtain ⟨⟨p, hp, name⟩, known⟩ := List.forall_mem_cons.1 known
    rw [List.foldl_cons]
    by_cases same : s.placeholder = q.name
    · rw [fill_same hq same]
      exact resolves.1
    · rw [fill_other hp hq name same]
      rw [List.map_cons, List.mem_cons] at present
      exact ih known resolves.2 (present.resolve_left (Ne.symm same))

/-- **Nothing is left to fill in** a text each of whose placeholders the chain replaces. -/
theorem Resolves.unmarked_foldl (known : Known subs) (resolves : Resolves subs) {names : List Placeholder}
    (covered : ∀ q ∈ names, q ∈ placeholders ∧ q.name ∈ subs.map Substitution.placeholder) {cs : List Char}
    (named : ∀ w ∈ words [] cs, Named names w) : Unmarked (subs.foldl fill cs) := by
  rw [foldl_fill_eq_mapWords known, unmarked_mapWords_iff]
  intro w hw
  rcases named w hw with free | listed
  · rw [foldl_fill_of_unmarked known free]
    exact free
  · obtain ⟨q, hq, rfl⟩ := List.mem_map.1 listed
    exact resolves.unmarked_letters known (covered q hq).1 (covered q hq).2

/-- **The slot is filled and nothing else changes**: what the chain makes of the text around the slot stands around
the block, whatever the block holds. -/
theorem fill_slot (known : Known subs) (kept : Placeholder.assign.name ∉ subs.map Substitution.placeholder)
    {before after : List Char} (freeBefore : Unmarked (subs.foldl fill before))
    (freeAfter : Unmarked (subs.foldl fill after)) (block : String) :
    fill (subs.foldl fill (before ++ '\n' :: (Placeholder.assign.letters ++ '\n' :: after)))
      ⟨Placeholder.assign.name, block⟩ =
    subs.foldl fill before ++ '\n' :: (block.toList ++ '\n' :: subs.foldl fill after) := by
  have slot : Placeholder.assign ∈ placeholders := List.mem_cons_self
  have newline : isCapital '\n' = false := rfl
  have whole : Known [⟨Placeholder.assign.name, block⟩] := fun s hs => by
    rw [List.mem_singleton] at hs
    exact ⟨.assign, slot, by rw [hs]⟩
  have both := foldl_fill_append_cons whole newline
  simp only [List.foldl_cons, List.foldl_nil] at both
  rw [foldl_fill_append_cons known newline, foldl_fill_append_cons known newline, both, both,
    foldl_fill_other known slot kept, fill_same slot rfl, fill_of_unmarked slot rfl freeBefore,
    fill_of_unmarked slot rfl freeAfter]

end Chain

end ServerTrial.Lua
