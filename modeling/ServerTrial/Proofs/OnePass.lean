import ServerTrial.Proofs.Placeholders

/-!
# Replacing in one pass

A chain of replacements goes over the text once for each of them, so that a later one may find its placeholder in
what an earlier one has put in.  `fillAtOnce` goes over the text once and never looks at what it has put in.  Word
by word (`fillAtOnce_eq_mapWords`) the two part company only where a value is changed by the replacements behind it;
as no replacement takes away a character between words (`pauses_foldl_fill`), what differs in a word differs in the
text (`mapWords_eq_iff`).  Hence the chain replaces everything at once exactly if it leaves the values that it puts
in as they are: `foldl_fill_eq_fillAtOnce_iff`.
-/

namespace ServerTrial.Lua

/-- The text with every placeholder replaced by the value that is first listed for it.  What is put in is not looked
at again; `skip` characters belong to a placeholder already replaced. -/
def fillAtOnceFrom (subs : List Substitution) : Nat → List Char → List Char
  | _, [] => []
  | skip + 1, _ :: cs => fillAtOnceFrom subs skip cs
  | 0, c :: cs =>
    match subs.find? fun s => s.placeholder.toList.isPrefixOf (c :: cs) with
    | some s => s.replacement.toList ++ fillAtOnceFrom subs (s.placeholder.toList.length - 1) cs
    | none => c :: fillAtOnceFrom subs 0 cs

/-- All placeholders replaced at once. -/
def fillAtOnce (subs : List Substitution) (text : List Char) : List Char := fillAtOnceFrom subs 0 text

/-- The chain leaves the values that it puts into the text as they are: for each placeholder of the text the value
first listed for it, which the replacements behind it go over. -/
def Intact (text : List Char) (subs : List Substitution) : Prop :=
  ∀ before s after, subs = before ++ s :: after → s.placeholder ∉ before.map Substitution.placeholder →
    s.placeholder.toList ∈ words [] text → after.foldl fill s.replacement.toList = s.replacement.toList

/-! ### One pass, word by word -/

section OnePass

variable {subs : List Substitution}

theorem fillAtOnceFrom_zero_cons (c : Char) (cs : List Char) :
    fillAtOnceFrom subs 0 (c :: cs) =
      match subs.find? fun s => s.placeholder.toList.isPrefixOf (c :: cs) with
      | some s => s.replacement.toList ++ fillAtOnceFrom subs (s.placeholder.toList.length - 1) cs
      | none => c :: fillAtOnceFrom subs 0 cs := by
  rw [fillAtOnceFrom]

/-- Which placeholder stands at the front is decided before the word ends. -/
theorem find?_append_cons (known : Known subs) {sep : Char} (ends : isCapital sep = false) (x y : List Char) :
    (subs.find? fun s => s.placeholder.toList.isPrefixOf (x ++ sep :: y)) =
      subs.find? fun s => s.placeholder.toList.isPrefixOf x := by
  induction subs with
  | nil => rfl
  | cons s rest ih =>
    rw [List.find?_cons, List.find?_cons, isPrefixOf_append_cons (known.notMem List.mem_cons_self ends),
      ih (List.forall_mem_cons.1 known).2]

theorem fillAtOnceFrom_append_cons (known : Known subs) {sep : Char} (ends : isCapital sep = false)
    (x y : List Char) {skip : Nat} (inside : skip ≤ x.length) :
    fillAtOnceFrom subs skip (x ++ sep :: y) = fillAtOnceFrom subs skip x ++ sep :: fillAtOnceFrom subs 0 y := by
  induction x generalizing skip with
  | nil =>
    obtain rfl : skip = 0 := Nat.le_zero.1 inside
    have front := find?_append_cons known ends [] y
    have nothing : (subs.find? fun s => s.placeholder.toList.isPrefixOf []) = none :=
      List.find?_eq_none.2 fun s hs => by simpa using known.ne_nil hs
    rw [List.nil_append] at front ⊢
    rw [fillAtOnceFrom_zero_cons, front, nothing, fillAtOnceFrom, List.nil_append]
  | cons c x ih =>
    cases skip with
    | succ skip => rw [List.cons_append, fillAtOnceFrom, fillAtOnceFrom, ih (Nat.le_of_succ_le_succ inside)]
    | zero =>
      have front := find?_append_cons known ends (c :: x) y
      rw [List.cons_append] at front ⊢
      rw [fillAtOnceFrom_zero_cons, fillAtOnceFrom_zero_cons, front]
      split
      next s found =>
        have fits : s.placeholder.toList.isPrefixOf (c :: x) = true := by simpa using List.find?_some found
        have room := length_le_of_isPrefixOf fits
        rw [ih (by rw [List.length_cons] at room; omega), List.append_assoc]
      next => rw [ih (Nat.zero_le _), List.cons_append]

theorem fillAtOnce_append_cons (known : Known subs) {sep : Char} (ends : isCapital sep = false) (x y : List Char) :
    fillAtOnce subs (x ++ sep :: y) = fillAtOnce subs x ++ sep :: fillAtOnce subs y :=
  fillAtOnceFrom_append_cons known ends x y (Nat.zero_le _)

theorem fillAtOnce_mapWords (known : Known subs) (f : List Char → List Char) (word cs : List Char) :
    fillAtOnce subs (mapWords f word cs) = mapWords (fun w => fillAtOnce subs (f w)) word cs := by
  induction cs generalizing word with
  | nil => rw [mapWords, mapWords]
  | cons c cs ih =>
    rw [mapWords, mapWords]
    split
    · exact ih _
    next small => rw [fillAtOnce_append_cons known (Bool.eq_false_iff.2 small), ih]

theorem fillAtOnce_eq_mapWords (known : Known subs) (cs : List Char) :
    fillAtOnce subs cs = mapWords (fillAtOnce subs) [] cs := by
  simpa only [mapWords_id, List.nil_append, id] using fillAtOnce_mapWords known id [] cs

/-- Where no placeholder of the chain occurs nothing changes. -/
theorem fillAtOnce_of_not_occurs {cs : List Char}
    (absent : ∀ s ∈ subs, Text.occurs s.placeholder.toList cs = false) : fillAtOnce subs cs = cs := by
  rw [fillAtOnce]
  induction cs with
  | nil => rw [fillAtOnceFrom]
  | cons c cs ih =>
    simp only [Text.occurs, Bool.or_eq_false_iff] at absent
    have nothing : (subs.find? fun s => s.placeholder.toList.isPrefixOf (c :: cs)) = none :=
      List.find?_eq_none.2 fun s hs => by simp [(absent s hs).1]
    rw [fillAtOnceFrom_zero_cons, nothing, ih fun s hs => (absent s hs).2]

theorem fillAtOnceFrom_of_length_le (cs : List Char) {skip : Nat} (all : cs.length ≤ skip) :
    fillAtOnceFrom subs skip cs = [] := by
  induction cs generalizing skip with
  | nil => rw [fillAtOnceFrom]
  | cons c cs ih =>
    cases skip with
    | zero => exact absurd all (Nat.not_succ_le_zero _)
    | succ skip => rw [fillAtOnceFrom, ih (Nat.le_of_succ_le_succ all)]

theorem fillAtOnce_of_unmarked (known : Known subs) {cs : List Char} (free : Unmarked cs) :
    fillAtOnce subs cs = cs := fillAtOnce_of_not_occurs (known.occurs_of_unmarked free)

variable {q : Placeholder}

theorem fillAtOnce_other (known : Known subs) (hq : q ∈ placeholders)
    (absent : q.name ∉ subs.map Substitution.placeholder) : fillAtOnce subs q.letters = q.letters :=
  fillAtOnce_of_not_occurs (known.occurs_of_notMem hq absent)

/-- A placeholder becomes the value that is first listed for it. -/
theorem fillAtOnce_first {before after : List Substitution} {s : Substitution}
    (known : Known (before ++ s :: after)) (hq : q ∈ placeholders) (name : s.placeholder = q.name)
    (first : q.name ∉ before.map Substitution.placeholder) :
    fillAtOnce (before ++ s :: after) q.letters = s.replacement.toList := by
  have whole : s.placeholder.toList = q.letters := by rw [name, q.toList_name]
  obtain ⟨c, cs, spelled⟩ := List.exists_cons_of_ne_nil (q.letters_ne_nil hq)
  have found : ((before ++ s :: after).find? fun s => s.placeholder.toList.isPrefixOf (c :: cs)) = some s := by
    refine List.find?_eq_some_iff_append.2 ⟨?_, before, after, rfl, fun t ht => ?_⟩
    · rw [whole, spelled]
      exact List.isPrefixOf_iff_prefix.2 (List.prefix_refl _)
    · have apart := Known.occurs_of_notMem (List.forall_mem_append.1 known).1 hq first t ht
      rw [spelled, occurs_cons, Bool.or_eq_false_iff] at apart
      rw [apart.1, Bool.not_false]
  rw [fillAtOnce, spelled, fillAtOnceFrom_zero_cons, found]
  dsimp only
  rw [fillAtOnceFrom_of_length_le cs (by rw [whole, spelled, List.length_cons, Nat.add_sub_cancel]),
    List.append_nil]

theorem foldl_fill_first {before after : List Substitution} {s : Substitution}
    (known : Known (before ++ s :: after)) (hq : q ∈ placeholders) (name : s.placeholder = q.name)
    (first : q.name ∉ before.map Substitution.placeholder) :
    (before ++ s :: after).foldl fill q.letters = after.foldl fill s.replacement.toList := by
  rw [List.foldl_append, List.foldl_cons, foldl_fill_other (List.forall_mem_append.1 known).1 hq first,
    fill_same hq name]

end OnePass

/-! ### What stands between words -/

/-- The number of characters that end a word. -/
def pauses (cs : List Char) : Nat := cs.countP fun c => !isCapital c

@[simp] theorem pauses_append (x y : List Char) : pauses (x ++ y) = pauses x + pauses y := List.countP_append

@[simp] theorem pauses_cons_of_small {c : Char} (ends : isCapital c = false) (cs : List Char) :
    pauses (c :: cs) = pauses cs + 1 := by
  rw [pauses, List.countP_cons_of_pos (by simp [ends]), pauses]

theorem pauses_of_capital {cs : List Char} (capitals : ∀ c ∈ cs, isCapital c = true) : pauses cs = 0 :=
  List.countP_eq_zero.2 fun c hc => by simp [capitals c hc]

theorem pauses_cons (c : Char) (cs : List Char) : pauses (c :: cs) = pauses [c] + pauses cs :=
  pauses_append [c] cs

/-- A replacement takes away nothing but occurrences of its pattern, and in capitals nothing pauses. -/
theorem pauses_replaceFrom {p : List Char} (some' : p ≠ []) (capitals : ∀ c ∈ p, isCapital c = true)
    (v cs : List Char) (skip : Nat) : pauses (cs.drop skip) ≤ pauses (replaceFrom p v skip cs) := by
  induction cs generalizing skip with
  | nil => simp [replaceFrom, pauses]
  | cons c cs ih =>
    cases skip with
    | succ skip =>
      rw [replaceFrom, List.drop_succ_cons]
      exact ih skip
    | zero =>
      rw [replaceFrom_zero_cons, List.drop_zero]
      split
      next fits =>
        obtain ⟨rest, split⟩ := List.isPrefixOf_iff_prefix.1 fits
        obtain ⟨a, p, rfl⟩ := List.exists_cons_of_ne_nil some'
        have own : pauses (c :: cs) = pauses rest := by
          rw [← split, pauses_append, pauses_of_capital capitals, Nat.zero_add]
        have tail : cs.drop p.length = rest := by
          rw [← (List.cons.inj split).2, List.append_eq, List.drop_left]
        have behind := ih p.length
        rw [tail] at behind
        rw [own, pauses_append, List.length_cons, Nat.add_sub_cancel]
        exact behind.trans (Nat.le_add_left _ _)
      next =>
        rw [pauses_cons, pauses_cons c (replaceFrom _ _ _ _)]
        exact Nat.add_le_add_left (ih 0) _

theorem pauses_foldl_fill {subs : List Substitution} (known : Known subs) (cs : List Char) :
    pauses cs ≤ pauses (subs.foldl fill cs) := by
  induction subs generalizing cs with
  | nil => exact Nat.le_refl _
  | cons s rest ih =>
    have some' := known.ne_nil (List.mem_cons_self (a := s))
    have full : ¬ s.placeholder.toList.isEmpty = true := by simpa using some'
    refine Nat.le_trans ?_ (ih (List.forall_mem_cons.1 known).2 _)
    rw [fill, replaceAll, if_neg full]
    exact pauses_replaceFrom some' (known.capital List.mem_cons_self) _ cs 0

theorem pauses_mapWords_le {f g : List Char → List Char} {word cs : List Char}
    (room : ∀ w ∈ words word cs, pauses (g w) ≤ pauses (f w)) :
    pauses (mapWords g word cs) ≤ pauses (mapWords f word cs) := by
  induction cs generalizing word with
  | nil => exact room word (List.mem_singleton_self _)
  | cons c cs ih =>
    rw [words] at room
    rw [mapWords, mapWords]
    split at room
    next capital =>
      rw [if_pos capital, if_pos capital]
      exact ih room
    next small =>
      obtain ⟨first, room⟩ := List.forall_mem_cons.1 room
      rw [if_neg small, if_neg small, pauses_append, pauses_append, pauses_cons, pauses_cons c (mapWords f _ _)]
      have rest := ih room
      omega

/-- Texts that pause equally often before the same pause are the same. -/
theorem eq_of_append_cons_eq {sep : Char} (ends : isCapital sep = false) {x y x' y' : List Char}
    (even : pauses x = pauses y) (same : x ++ sep :: x' = y ++ sep :: y') : x = y ∧ x' = y' := by
  rcases List.append_eq_append_iff.1 same with ⟨d, rfl, rest⟩ | ⟨d, rfl, rest⟩
  all_goals
    cases d with
    | nil => simpa [eq_comm] using rest
    | cons a d =>
      obtain ⟨rfl, -⟩ := List.cons.inj rest
      simp [ends] at even

/-- What differs in a word differs in the text. -/
theorem mapWords_eq_iff {f g : List Char → List Char} {word cs : List Char}
    (room : ∀ w ∈ words word cs, pauses (g w) ≤ pauses (f w)) :
    mapWords f word cs = mapWords g word cs ↔ ∀ w ∈ words word cs, f w = g w := by
  induction cs generalizing word with
  | nil => rw [mapWords, mapWords, words, List.forall_mem_singleton]
  | cons c cs ih =>
    rw [words] at room ⊢
    rw [mapWords, mapWords]
    split at room
    next capital =>
      rw [if_pos capital, if_pos capital, if_pos capital]
      exact ih room
    next small =>
      obtain ⟨first, room⟩ := List.forall_mem_cons.1 room
      rw [if_neg small, if_neg small, if_neg small, List.forall_mem_cons, ← ih room]
      constructor
      · intro same
        have rest := pauses_mapWords_le room
        have total := congrArg pauses same
        simp only [pauses_append, pauses_cons_of_small (Bool.eq_false_iff.2 small)] at total
        exact eq_of_append_cons_eq (Bool.eq_false_iff.2 small) (by omega) same
      · rintro ⟨own, rest⟩
        rw [own, rest]

/-! ### Chains and one pass -/

section Chain

variable {subs : List Substitution}

/-- The value that is first listed for a placeholder. -/
theorem exists_first {name : String} (present : name ∈ subs.map Substitution.placeholder) :
    ∃ before s after, subs = before ++ s :: after ∧ s.placeholder = name ∧
      name ∉ before.map Substitution.placeholder := by
  obtain ⟨front, back, split, first⟩ := List.eq_append_cons_of_mem present
  obtain ⟨before, rest, rfl, rfl, rest_eq⟩ := List.map_eq_append_iff.1 split
  obtain ⟨s, after, rfl, own, -⟩ := List.map_eq_cons_iff.1 rest_eq
  exact ⟨before, s, after, rfl, own, first⟩

/-- The chain and the one pass agree on words that are no placeholders or that the chain does not replace. -/
theorem foldl_fill_eq_fillAtOnce_of_named (known : Known subs) {w : List Char} (named : Named placeholders w) :
    subs.foldl fill w = fillAtOnce subs w ∨
      ∃ before s after, subs = before ++ s :: after ∧ s.placeholder.toList = w ∧
        s.placeholder ∉ before.map Substitution.placeholder ∧
        subs.foldl fill w = after.foldl fill s.replacement.toList ∧ fillAtOnce subs w = s.replacement.toList := by
  rcases named with free | listed
  · exact .inl (by rw [foldl_fill_of_unmarked known free, fillAtOnce_of_unmarked known free])
  · obtain ⟨q, hq, rfl⟩ := List.mem_map.1 listed
    by_cases present : q.name ∈ subs.map Substitution.placeholder
    · obtain ⟨before, s, after, rfl, name, first⟩ := exists_first present
      exact .inr ⟨before, s, after, rfl, by rw [name, q.toList_name], name ▸ first,
        foldl_fill_first known hq name first, fillAtOnce_first known hq name first⟩
    · exact .inl (by rw [foldl_fill_other known hq present, fillAtOnce_other known hq present])

/-- **A chain replaces everything at once exactly if it leaves the values that it puts in as they are.** -/
theorem foldl_fill_eq_fillAtOnce_iff (known : Known subs) {text : List Char}
    (named : ∀ w ∈ words [] text, Named placeholders w) :
    subs.foldl fill text = fillAtOnce subs text ↔ Intact text subs := by
  have room : ∀ w ∈ words [] text, pauses (fillAtOnce subs w) ≤ pauses (subs.foldl fill w) := by
    intro w hw
    rcases foldl_fill_eq_fillAtOnce_of_named known (named w hw) with same | ⟨before, s, after, rfl, -, -, left, right⟩
    · exact Nat.le_of_eq (congrArg pauses same.symm)
    · rw [left, right]
      exact pauses_foldl_fill (List.forall_mem_cons.1 (List.forall_mem_append.1 known).2).2 _
  rw [foldl_fill_eq_mapWords known, fillAtOnce_eq_mapWords known, mapWords_eq_iff room]
  constructor
  · rintro same before s after rfl first inside
    obtain ⟨q, hq, name⟩ := known s (List.mem_append_right _ List.mem_cons_self)
    have own := same _ inside
    rw [name] at first
    rwa [name, q.toList_name, foldl_fill_first known hq name first, fillAtOnce_first known hq name first] at own
  · intro intact w hw
    rcases foldl_fill_eq_fillAtOnce_of_named known (named w hw) with same |
      ⟨before, s, after, split, rfl, first, left, right⟩
    · exact same
    · rw [left, right]
      exact intact before s after split first hw

/-- Values without placeholders stay as they are, and the last one stays whatever it holds. -/
theorem intact_concat {last : Substitution} (known : Known (subs ++ [last])) {text : List Char}
    (free : ∀ s ∈ subs, s.placeholder.toList ∈ words [] text → Unmarked s.replacement.toList) :
    Intact text (subs ++ [last]) := by
  intro before s after split _ inside
  rcases List.eq_nil_or_concat' after with rfl | ⟨middle, t, rfl⟩
  · rfl
  · rw [split] at known
    have behind := (List.forall_mem_cons.1 (List.forall_mem_append.1 known).2).2
    refine foldl_fill_of_unmarked behind (free s ?_ inside)
    rw [← List.cons_append, ← List.append_assoc] at split
    rw [(List.append_inj' split rfl).1]
    exact List.mem_append_right _ List.mem_cons_self

end Chain

end ServerTrial.Lua
