import ServerTrial.Proofs.LexicalPath

/-!
# The text of a path

* `Path.Named`, `Path.Proper`: components hold no slashes and are not empty; no single dot is among them;
* `Path.proper_ofString`: a path that was read has such components;
* `Path.ofString_toString`: a path with such components is read back from its text.
-/

namespace ServerTrial

namespace Path

/-! ### Components -/

/-- Components are not empty and hold no slashes. -/
def Named (parts : List String) : Prop := ∀ c ∈ parts, c ≠ "" ∧ '/' ∉ c.toList

theorem Named.append {xs ys : List String} (left : Named xs) (right : Named ys) : Named (xs ++ ys) :=
  List.forall_mem_append.2 ⟨left, right⟩

theorem not_mem_of_mem_splitChars {separator : Char} {cs piece : List Char} (h : piece ∈ splitChars separator cs) :
    separator ∉ piece := by
  induction cs generalizing piece with
  | nil =>
    rw [List.mem_singleton.1 h]
    exact List.not_mem_nil
  | cons c cs ih =>
    rw [splitChars] at h
    split at h
    · rcases List.mem_cons.1 h with rfl | h
      · exact List.not_mem_nil
      · exact ih h
    · next other =>
      split at h
      · rw [List.mem_singleton.1 h, List.mem_singleton]
        exact Ne.symm other
      · next first rest split =>
        rcases List.mem_cons.1 h with rfl | h
        · rw [List.mem_cons, not_or]
          exact ⟨Ne.symm other, ih (split ▸ List.mem_cons_self)⟩
        · exact ih (split ▸ List.mem_cons_of_mem _ h)

theorem named_ofString (text : String) : Named (ofString text).parts := by
  intro c hc
  obtain ⟨piece, kept⟩ := List.mem_filter.1 hc
  obtain ⟨cs, hcs, rfl⟩ := List.mem_map.1 piece
  rw [Bool.and_eq_true, bne_iff_ne] at kept
  exact ⟨kept.1, by rw [String.toList_ofList]; exact not_mem_of_mem_splitChars hcs⟩

theorem named_child {p : Path} (named : Named p.parts) (name : String) : Named (p.child name).parts := by
  unfold child join
  split
  · exact named_ofString name
  · exact named.append (named_ofString name)

theorem isAbsolute_child {p : Path} (absolute : p.isAbsolute = true) (name : String) :
    (p.child name).isAbsolute = true := by
  unfold child join
  split
  · assumption
  · exact absolute

/-- Components as they are read: names or steps back. -/
structure Proper (parts : List String) : Prop where
  named : Named parts
  dotless : "." ∉ parts

theorem Proper.append {xs ys : List String} (left : Proper xs) (right : Proper ys) : Proper (xs ++ ys) :=
  ⟨left.named.append right.named, fun dot => (List.mem_append.1 dot).elim left.dotless right.dotless⟩

theorem Proper.sublist {xs ys : List String} (proper : Proper ys) (some' : xs ⊆ ys) : Proper xs :=
  ⟨fun c hc => proper.named c (some' hc), fun dot => proper.dotless (some' dot)⟩

theorem proper_ofString (text : String) : Proper (ofString text).parts := by
  refine ⟨named_ofString text, fun dot => ?_⟩
  have kept := (List.mem_filter.1 dot).2
  rw [Bool.and_eq_true, bne_iff_ne, bne_iff_ne] at kept
  exact kept.2 rfl

theorem proper_child {p : Path} (proper : Proper p.parts) (name : String) : Proper (p.child name).parts := by
  unfold child join
  split
  · exact proper_ofString name
  · exact proper.append (proper_ofString name)

/-! ### Reading back -/

theorem splitChars_append {separator : Char} {cs : List Char} (h : separator ∉ cs) (rest : List Char) :
    splitChars separator (cs ++ separator :: rest) = cs :: splitChars separator rest := by
  induction cs with
  | nil => rw [List.nil_append, splitChars, if_pos rfl]
  | cons c cs ih =>
    rw [List.mem_cons, not_or] at h
    rw [List.cons_append, splitChars, if_neg (Ne.symm h.1), ih h.2]

theorem splitText_intercalate {parts : List String} (some' : parts ≠ []) (plain : ∀ c ∈ parts, '/' ∉ c.toList) :
    splitText '/' ("/".intercalate parts) = parts := by
  induction parts with
  | nil => exact absurd rfl some'
  | cons c rest ih =>
    obtain ⟨first, later⟩ := List.forall_mem_cons.1 plain
    cases rest with
    | nil =>
      rw [String.intercalate_singleton, splitText, splitChars_of_not_mem first, List.map_singleton, String.ofList_toList]
    | cons d rest =>
      have slash : "/".toList = ['/'] := rfl
      have below := ih (List.cons_ne_nil d rest) later
      rw [splitText] at below
      rw [String.intercalate_cons_cons, splitText, String.toList_append, String.toList_append, slash, List.append_assoc,
        List.singleton_append, splitChars_append first, List.map_cons, String.ofList_toList, below]

theorem head?_intercalate {parts : List String} (named : Named parts) :
    ("/".intercalate parts).toList.head? ≠ some '/' := by
  cases parts with
  | nil => rw [String.intercalate_nil]; decide
  | cons c rest =>
    obtain ⟨⟨full, plain⟩, -⟩ := List.forall_mem_cons.1 named
    obtain ⟨d, ds, chars⟩ := List.exists_cons_of_ne_nil fun empty => full (String.toList_eq_nil_iff.1 empty)
    have other : some d ≠ some '/' := by
      rintro ⟨⟩
      exact plain (chars ▸ List.mem_cons_self)
    cases rest with
    | nil => rwa [String.intercalate_singleton, chars]
    | cons _ _ => rwa [String.intercalate_cons_cons, String.toList_append, String.toList_append, chars]

theorem isAbsolute_ofString (text : String) : (ofString text).isAbsolute = true ↔ text.toList.head? = some '/' := by
  unfold isAbsolute ofString rootOf
  dsimp only
  split
  · next h => rw [h]; simp
  · next h => rw [h]; simp
  · next h => rw [h]; simp
  · next _ _ other =>
    refine iff_of_false (by decide) fun first => ?_
    obtain ⟨rest, text⟩ := List.head?_eq_some_iff.1 first
    exact other rest text

/-- Behind the text of a root its slashes are read. -/
theorem rootOf_append (root : Root) {cs : List Char} (plain : cs.head? ≠ some '/') :
    rootOf ((rootText root).toList ++ cs) = root := by
  cases cs with
  | nil => cases root <;> rfl
  | cons c cs =>
    have other : c ≠ '/' := fun same => plain (congrArg some same)
    cases root <;> simp [rootText, rootOf, other]

theorem splitChars_root (root : Root) (cs : List Char) :
    ∃ front : List (List Char), (∀ x ∈ front, x = []) ∧
      splitChars '/' ((rootText root).toList ++ cs) = front ++ splitChars '/' cs := by
  cases root with
  | here => exact ⟨[], by simp, rfl⟩
  | slash => exact ⟨[[]], by simp, rfl⟩
  | doubleSlash => exact ⟨[[], []], by simp, rfl⟩

/-- **A path is read back from its text.** -/
theorem ofString_toString {p : Path} (proper : Proper p.parts) : ofString p.toString = p := by
  unfold toString
  split
  · next none =>
    obtain ⟨root, parts⟩ := p
    obtain ⟨rfl, rfl⟩ := none
    rfl
  · have root := rootOf_append p.root (head?_intercalate proper.named)
    obtain ⟨front, empty, split⟩ := splitChars_root p.root ("/".intercalate p.parts).toList
    -- what is split off in front is dropped as empty
    have dropped : (front.map String.ofList).filter (fun p => p != "" && p != ".") = [] := by
      rw [List.filter_eq_nil_iff]
      intro c hc
      obtain ⟨x, hx, rfl⟩ := List.mem_map.1 hc
      rw [empty x hx]
      decide
    have kept : (splitText '/' ("/".intercalate p.parts)).filter (fun p => p != "" && p != ".") = p.parts := by
      by_cases none : p.parts = []
      · rw [none]
        rfl
      · rw [splitText_intercalate none fun c hc => (proper.named c hc).2, List.filter_eq_self]
        intro c hc
        rw [Bool.and_eq_true, bne_iff_ne, bne_iff_ne]
        exact ⟨(proper.named c hc).1, fun dot => proper.dotless (dot ▸ hc)⟩
    rw [splitText] at kept
    rw [ofString, splitText, String.toList_append, root, split, List.map_append, List.filter_append, dropped,
      List.nil_append, kept]

end Path

namespace Layout

variable {l : Layout}

theorem named_root (named : Path.Named l.base.parts) : Path.Named l.root.parts :=
  Path.named_child (Path.named_child named _) _

theorem isAbsolute_root (absolute : l.base.isAbsolute = true) : l.root.isAbsolute = true :=
  Path.isAbsolute_child (Path.isAbsolute_child absolute _) _

end Layout

end ServerTrial
