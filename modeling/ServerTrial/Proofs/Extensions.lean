import ServerTrial.Proofs.SingleQuotes
import ServerTrial.Proofs.PathText

/-!
# The extension of the source

* `Path.IsLastName`: the last name in the text of a path, and what slashes and single dots may stand behind it;
* `Path.HasSuffix`: what stands behind the last dot of that name, if the name has begun before the dot;
* `Case.extension_passes`: which extensions pass, which are missing or refused, and what the one that passes is read as
  between the quotation marks of a script.
-/

namespace ServerTrial

namespace Path

/-! ### The pieces between separators -/

section Pieces

variable {separator : Char}

theorem exists_of_splitChars (separator : Char) (cs : List Char) : ∃ first rest,
    splitChars separator cs = first :: rest ∧ cs = first ++ rest.flatMap (separator :: ·) := by
  induction cs with
  | nil => exact ⟨[], [], rfl, rfl⟩
  | cons c cs ih =>
    obtain ⟨first, rest, pieces, joined⟩ := ih
    rw [splitChars, pieces]
    split
    · next same => exact ⟨[], first :: rest, rfl, by rw [same, List.flatMap_cons, List.nil_append, joined]; rfl⟩
    · exact ⟨c :: first, rest, rfl, by rw [List.cons_append, ← joined]⟩

theorem splitChars_append_cons (xs ys : List Char) :
    splitChars separator (xs ++ separator :: ys) = splitChars separator xs ++ splitChars separator ys := by
  induction xs with
  | nil => exact splitChars_append List.not_mem_nil ys
  | cons x xs ih =>
    obtain ⟨first, rest, pieces, -⟩ := exists_of_splitChars separator xs
    rw [List.cons_append, splitChars, splitChars, ih, pieces]
    split <;> rfl

theorem splitChars_flatMap {first : List Char} {rest : List (List Char)} (plain : separator ∉ first)
    (pieces : ∀ p ∈ rest, separator ∉ p) :
    splitChars separator (first ++ rest.flatMap (separator :: ·)) = first :: rest := by
  induction rest generalizing first with
  | nil => rw [List.flatMap_nil, List.append_nil, splitChars_of_not_mem plain]
  | cons next rest ih =>
    obtain ⟨second, pieces⟩ := List.forall_mem_cons.1 pieces
    rw [List.flatMap_cons, List.cons_append, splitChars_append plain, ih second pieces]

/-- A piece, with what stands in front of it and behind it. -/
theorem eq_of_splitChars {cs piece : List Char} {before after : List (List Char)}
    (h : splitChars separator cs = before ++ piece :: after) :
    ∃ front, cs = front ++ (piece ++ after.flatMap (separator :: ·)) ∧
      (front = [] ∨ ∃ above, front = above ++ [separator]) := by
  obtain ⟨first, rest, pieces, joined⟩ := exists_of_splitChars separator cs
  rw [pieces] at h
  cases before with
  | nil =>
    obtain ⟨rfl, rfl⟩ := List.cons.inj h
    exact ⟨[], joined, .inl rfl⟩
  | cons b before =>
    obtain ⟨rfl, rfl⟩ := List.cons.inj h
    refine ⟨first ++ before.flatMap (separator :: ·) ++ [separator], ?_, .inr ⟨_, rfl⟩⟩
    rw [joined, List.append_eq, List.flatMap_append, List.flatMap_cons]
    simp only [List.append_assoc, List.cons_append, List.nil_append]

end Pieces

/-! ### Names and suffixes -/

/-- The last name in the text of a path: behind the last slash, but for slashes and single dots at the end. -/
def IsLastName (text name : List Char) : Prop :=
  ∃ (front : List Char) (pieces : List (List Char)), text = front ++ (name ++ pieces.flatMap ('/' :: ·)) ∧
    (front = [] ∨ ∃ above, front = above ++ ['/']) ∧ (∀ p ∈ pieces, p = [] ∨ p = ['.']) ∧
      name ≠ [] ∧ name ≠ ['.'] ∧ '/' ∉ name

/-- The text of a path has a suffix: its last name has begun, then there is a dot, and then the suffix. -/
def HasSuffix (text suffix : List Char) : Prop :=
  suffix ≠ [] ∧ '.' ∉ suffix ∧ ∃ stem, stem ≠ [] ∧ IsLastName text (stem ++ '.' :: suffix)

/-- A piece that is a component. -/
def isComponent (piece : List Char) : Bool := piece != [] && piece != ['.']

theorem isComponent_iff {piece : List Char} : isComponent piece = true ↔ piece ≠ [] ∧ piece ≠ ['.'] := by
  rw [isComponent, Bool.and_eq_true, bne_iff_ne, bne_iff_ne]

theorem parts_ofString (text : String) :
    (ofString text).parts = ((splitChars '/' text.toList).filter isComponent).map String.ofList := by
  rw [ofString, splitText, List.filter_map]
  refine congrArg _ (List.filter_congr fun piece _ => ?_)
  have same : ∀ cs : List Char, String.ofList piece = String.ofList cs ↔ piece = cs :=
    fun cs => ⟨fun h => by simpa using congrArg String.toList h, congrArg String.ofList⟩
  rw [Bool.eq_iff_iff, isComponent_iff, Function.comp_apply, Bool.and_eq_true, bne_iff_ne, bne_iff_ne, Ne, Ne, same [],
    same ['.']]

theorem name_ofString_iff {text : String} {name : List Char} :
    (ofString text).name.toList = name ∧ name ≠ [] ↔ isComponent name = true ∧ ∃ before after,
      splitChars '/' text.toList = before ++ name :: after ∧ ∀ p ∈ after, isComponent p = false := by
  have last : (ofString text).name.toList = name ∧ name ≠ [] ↔
      (splitChars '/' text.toList).reverse.find? isComponent = some name := by
    rw [Path.name, parts_ofString, List.getLastD_eq_getLast?, List.getLast?_map, List.getLast?_filter]
    cases found : (splitChars '/' text.toList).reverse.find? isComponent with
    | none =>
      refine iff_of_false (fun h => h.2 ?_) nofun
      rw [← h.1]
      rfl
    | some piece =>
      have some' := (isComponent_iff.1 (List.find?_some found)).1
      rw [Option.map_some, Option.getD_some, String.toList_ofList, Option.some.injEq]
      exact ⟨And.left, fun same => ⟨same, same ▸ some'⟩⟩
  rw [last, List.find?_eq_some_iff_append]
  refine and_congr_right fun _ => ⟨?_, ?_⟩
  · rintro ⟨before, after, split, rest⟩
    rw [List.reverse_eq_iff, List.reverse_append, List.reverse_cons, List.append_assoc] at split
    exact ⟨after.reverse, before.reverse, split, fun p mem => by simpa using rest p (List.mem_reverse.1 mem)⟩
  · rintro ⟨before, after, split, rest⟩
    refine ⟨after.reverse, before.reverse, ?_, fun p mem => by simpa using rest p (List.mem_reverse.1 mem)⟩
    rw [split, List.reverse_append, List.reverse_cons, List.append_assoc]
    rfl

theorem isLastName_iff {text : String} {name : List Char} :
    IsLastName text.toList name ↔ (ofString text).name.toList = name ∧ name ≠ [] := by
  have left : ∀ p, isComponent p = false ↔ p = [] ∨ p = ['.'] := fun p => by
    rw [← Bool.not_eq_true, isComponent_iff, ← not_or, not_not]
  rw [name_ofString_iff, isComponent_iff]
  constructor
  · rintro ⟨front, pieces, joined, starts, rest, some', dot, plain⟩
    have behind : splitChars '/' (name ++ pieces.flatMap ('/' :: ·)) = name :: pieces := by
      refine splitChars_flatMap plain fun p mem => ?_
      rcases rest p mem with rfl | rfl <;> decide
    refine ⟨⟨some', dot⟩, ?_⟩
    rcases starts with rfl | ⟨above, rfl⟩
    · exact ⟨[], pieces, by rw [joined, List.nil_append, behind]; rfl, fun p mem => (left p).2 (rest p mem)⟩
    · refine ⟨splitChars '/' above, pieces, ?_, fun p mem => (left p).2 (rest p mem)⟩
      rw [joined, List.append_assoc, List.singleton_append, splitChars_append_cons, behind]
  · rintro ⟨⟨some', dot⟩, before, after, split, rest⟩
    obtain ⟨front, joined, starts⟩ := eq_of_splitChars split
    exact ⟨front, after, joined, starts, fun p mem => (left p).1 (rest p mem), some', dot,
      not_mem_of_mem_splitChars (split ▸ List.mem_append_right _ List.mem_cons_self)⟩

/-- Behind the last dot of a name. -/
theorem suffixOf_eq_iff {name suffix : List Char} (some' : suffix ≠ []) :
    suffixOf name = suffix ↔ '.' ∉ suffix ∧ ∃ stem, stem ≠ [] ∧ name = stem ++ '.' :: suffix := by
  have dotless : ∀ {cs : List Char}, '.' ∉ cs → ∀ c ∈ cs.reverse, (c != '.') = true := fun absent c mem =>
    bne_iff_ne.2 fun dot => absent (dot ▸ List.mem_reverse.1 mem)
  constructor
  · intro found
    unfold suffixOf at found
    dsimp only at found
    split at found
    · exact absurd found.symm some'
    · next long =>
      rw [found, Bool.or_eq_true, not_or, decide_eq_true_eq] at long
      have behind : name.reverse.takeWhile (fun c => c != '.') = suffix.reverse := by rw [← found, List.reverse_reverse]
      have joined := List.takeWhile_append_dropWhile (p := fun c => c != '.') (l := name.reverse)
      have first := List.head?_dropWhile_not (fun c => c != '.') name.reverse
      have length := congrArg List.length joined
      rw [behind] at joined
      rw [behind, List.length_append, List.length_reverse, List.length_reverse] at length
      refine ⟨fun dot => ?_, ?_⟩
      · have kept := List.mem_takeWhile_imp (behind ▸ List.mem_reverse.2 dot)
        exact absurd kept (by decide)
      · cases rest : name.reverse.dropWhile (fun c => c != '.') with
        | nil =>
          rw [rest, List.length_nil] at length
          omega
        | cons d stem =>
          rw [rest] at joined first length
          obtain rfl : d = '.' := by simpa using first
          refine ⟨stem.reverse, fun none => ?_, ?_⟩
          · rw [List.reverse_eq_nil_iff.1 none, List.length_singleton] at length
            omega
          · rw [← List.reverse_reverse name, ← joined]
            simp
  · rintro ⟨absent, stem, begun, rfl⟩
    have behind : (stem ++ '.' :: suffix).reverse.takeWhile (fun c => c != '.') = suffix.reverse := by
      rw [List.reverse_append, List.reverse_cons, List.append_assoc, List.takeWhile_append_of_pos (dotless absent)]
      exact List.append_nil _
    have length := List.length_pos_of_ne_nil begun
    unfold suffixOf
    rw [behind, List.reverse_reverse]
    refine if_neg fun short => ?_
    rw [Bool.or_eq_true, List.isEmpty_iff, decide_eq_true_eq, List.length_append, List.length_cons] at short
    rcases short with none | short
    · exact some' none
    · omega

/-- **The extension of a path is its suffix**, and empty if it has none. -/
theorem hasSuffix_iff {text : String} {suffix : List Char} :
    HasSuffix text.toList suffix ↔ (ofString text).extension.toList = suffix ∧ suffix ≠ [] := by
  rw [HasSuffix, Path.extension, String.toList_ofList, and_comm (a := suffixOf _ = _)]
  refine and_congr_right fun some' => ?_
  rw [suffixOf_eq_iff some']
  refine and_congr_right fun _ => exists_congr fun stem => and_congr_right fun _ => ?_
  rw [isLastName_iff, and_iff_left (by simp)]

end Path

namespace Case

open Lua
open Lua.Quotation (Gap)

/-! ### What passes -/

/-- An ASCII letter or digit, or one of three other characters. -/
def IsHarmlessChar (c : Char) : Prop := c.isAlphanum = true ∨ c = '_' ∨ c = '+' ∨ c = '-'

instance : DecidablePred IsHarmlessChar := fun c =>
  inferInstanceAs (Decidable (c.isAlphanum = true ∨ c = '_' ∨ c = '+' ∨ c = '-'))

/-- A text of such characters, and not an empty one. -/
def IsHarmless (extension : List Char) : Prop := extension ≠ [] ∧ ∀ c ∈ extension, IsHarmlessChar c

instance : DecidablePred IsHarmless := fun extension =>
  @instDecidableAnd _ _ inferInstance (List.decidableBAll IsHarmlessChar extension)

theorem isExtensionChar_iff (c : Char) : isExtensionChar c = true ↔ IsHarmlessChar c := by
  have upper : c.isUpper = (decide ('A' ≤ c) && decide (c ≤ 'Z')) := by
    rw [Char.isUpper]
    simp [Char.le_def]
  have letter : c.isAlpha = Text.isLetter c := by
    rw [Char.isAlpha, upper, Bool.or_comm]
    rfl
  have digit : c.isDigit = Text.isDigit c := rfl
  rw [IsHarmlessChar, Char.isAlphanum, letter, digit]
  simp [isExtensionChar, or_assoc]

/-- Whatever passes is harmless, but for a line feed at its end. -/
theorem isExtension_iff (text : String) : isExtension text = true ↔
    IsHarmless text.toList ∨ ∃ body, text.toList = body ++ ['\n'] ∧ IsHarmless body := by
  have harmless : ∀ cs : List Char, (!cs.isEmpty && cs.all isExtensionChar) = true ↔ IsHarmless cs := fun cs => by
    simp [IsHarmless, isExtensionChar_iff]
  have lineFeed : ¬ IsHarmlessChar '\n' := by decide
  unfold isExtension
  dsimp only
  rw [harmless]
  split
  · next ends =>
    obtain ⟨body, split⟩ := List.getLast?_eq_some_iff.1 ends
    rw [split, List.dropLast_concat]
    constructor
    · exact fun passes => .inr ⟨body, rfl, passes⟩
    · rintro (⟨-, all⟩ | ⟨_, same, passes⟩)
      · exact absurd (all '\n' (List.mem_append_right _ List.mem_cons_self)) lineFeed
      · rwa [List.append_inj_left' same rfl]
  · next other =>
    refine ⟨.inl, ?_⟩
    rintro (passes | ⟨body, split, -⟩)
    · exact passes
    · exact absurd (by rw [split, List.getLast?_concat]) other

variable {c : Case}

theorem fileExtension_def (c : Case) : c.fileExtension =
    if c.source.extension.toList = [] then .error (.missingExtension c.source.path)
    else if isExtension c.source.extension then .ok c.source.extension
    else .error (.invalidExtension c.source.path) := by
  unfold fileExtension
  exact if_congr (String.isEmpty_iff.trans String.toList_eq_nil_iff.symm) rfl rfl

theorem fileExtension_eq_ok_iff {extension : String} : c.fileExtension = .ok extension ↔
    Path.HasSuffix c.source.path.toList extension.toList ∧ isExtension extension = true := by
  rw [fileExtension_def, Path.hasSuffix_iff, String.toList_inj]
  change _ ↔ (c.source.extension = extension ∧ _) ∧ _
  split
  · next none =>
    refine iff_of_false nofun ?_
    rintro ⟨⟨rfl, some'⟩, -⟩
    exact some' none
  · next some' =>
    split
    · next passes =>
      rw [Except.ok.injEq]
      refine ⟨?_, fun h => h.1.1⟩
      rintro rfl
      exact ⟨⟨rfl, some'⟩, passes⟩
    · next fails =>
      refine iff_of_false nofun ?_
      rintro ⟨⟨rfl, -⟩, passes⟩
      exact fails passes

theorem fileExtension_eq_missing_iff : c.fileExtension = .error (.missingExtension c.source.path) ↔
    ∀ suffix, ¬ Path.HasSuffix c.source.path.toList suffix := by
  have own : (∀ suffix, ¬ Path.HasSuffix c.source.path.toList suffix) ↔ c.source.extension.toList = [] := by
    simp only [Path.hasSuffix_iff, not_and_not_right, forall_eq']
    rfl
  rw [own, fileExtension_def]
  split
  · next none => exact iff_of_true rfl none
  · next some' => split <;> exact iff_of_false nofun some'

theorem fileExtension_eq_invalid_iff : c.fileExtension = .error (.invalidExtension c.source.path) ↔
    ∃ suffix, Path.HasSuffix c.source.path.toList suffix ∧ ¬ isExtension (String.ofList suffix) = true := by
  have own : (∃ suffix, Path.HasSuffix c.source.path.toList suffix ∧ ¬ isExtension (String.ofList suffix) = true) ↔
      c.source.extension.toList ≠ [] ∧ ¬ isExtension c.source.extension = true := by
    simp only [Path.hasSuffix_iff, and_assoc, exists_eq_left', String.ofList_toList]
    rfl
  rw [own, fileExtension_def]
  split
  · next none => exact iff_of_false nofun fun h => h.1 none
  · next some' =>
    split
    · next passes => exact iff_of_false nofun fun h => h.2 passes
    · next fails => exact iff_of_true rfl ⟨some', fails⟩

/-- A harmless extension is one literal for its characters; a line feed breaks it. -/
theorem literal_extension {extension : String} (passes : isExtension extension = true) (rest : List Char) :
    Quotation.literal '\'' (Gap.whole.around extension.toList ++ rest) =
      if IsHarmless extension.toList then some (byteValues (textBytes extension), rest) else none := by
  have plain : ∀ ch, IsHarmlessChar ch → ch ≠ '\'' ∧ ch ≠ '\\' ∧ ¬ Quotation.EndsLine ch := by
    intro ch harmless
    refine ⟨?_, ?_, ?_⟩
    · rintro rfl
      exact absurd harmless (by decide)
    · rintro rfl
      exact absurd harmless (by decide)
    · rintro (rfl | rfl) <;> exact absurd harmless (by decide)
  split
  · next harmless =>
    have read := Quotation.contents_plain fun ch mem => plain ch (harmless.2 ch mem)
    rw [Gap.literal_around read, Utf8.byteValues_textBytes, Utf8.byteValues_textBytes]
    simp [Gap.whole]
  · next harmful =>
    obtain ⟨body, split, harmless⟩ := ((isExtension_iff extension).1 passes).resolve_left harmful
    have breaks : ∀ cs, Quotation.contents '\'' ('\n' :: cs) = none := fun cs => by
      rw [Quotation.contents, if_neg (by decide), if_neg (by decide), if_pos (.inl rfl)]
    rw [split, Gap.around, List.cons_append, Quotation.literal, if_pos rfl, List.append_assoc,
      Quotation.contents_plain Gap.whole.plain, List.append_assoc, List.append_assoc,
      Quotation.contents_plain fun ch mem => plain ch (harmless.2 ch mem), List.singleton_append, breaks]
    rfl

theorem holds_fileExtension (f : Fragment) :
    Gap.whole.Holds "FILE_EXTENSION".toList (Template.whole f).toList := by
  refine Template.holds_whole _ "        ['FILE_EXTENSION'] = 'lspresso_shot'," "        ["
    "] = 'lspresso_shot'," rfl ?_ f
  unfold Template.attach
  exact ⟨_, .inr rfl, by simp only [List.mem_cons, String.reduceEq, false_or, true_or]⟩

theorem fileExtension_replaced {l : Layout} {method : String} {subs : List Substitution}
    (h : c.substitutions l method = .ok subs) (value : String) :
    ⟨"FILE_EXTENSION", value⟩ ∈ subs ↔ c.fileExtension = .ok value := by
  obtain ⟨ms, extension, timeout⟩ := substitutions_inv h
  rw [substitutions, extension, timeout] at h
  obtain rfl := Except.ok.inj h
  rw [extension, Except.ok.injEq, eq_comm]
  simp only [List.mem_cons, Substitution.mk.injEq, String.reduceEq, false_and, true_and, List.not_mem_nil, or_false,
    false_or]

/-- **Which extensions pass.**  The suffix of the source passes if it is harmless, or harmless but for one line feed at
its end; a source without a suffix has no extension, and any other suffix is refused.  The extension that passes is put
between the quotation marks of a script, where it is one literal for its characters that ends where the marks say,
whatever follows it, exactly if it is harmless; with a line feed there is no literal.  There it stands in every script,
unless it holds a placeholder. -/
theorem extension_passes (c : Case) :
    (∀ extension, c.fileExtension = .ok extension ↔ Path.HasSuffix c.source.path.toList extension.toList ∧
      (IsHarmless extension.toList ∨ ∃ body, extension.toList = body ++ ['\n'] ∧ IsHarmless body)) ∧
    (c.fileExtension = .error (.missingExtension c.source.path) ↔
      ∀ suffix, ¬ Path.HasSuffix c.source.path.toList suffix) ∧
    (c.fileExtension = .error (.invalidExtension c.source.path) ↔ ∃ suffix, Path.HasSuffix c.source.path.toList suffix ∧
      ¬ IsHarmless suffix ∧ ∀ body, suffix = body ++ ['\n'] → ¬ IsHarmless body) ∧
    (∀ failure, c.fileExtension = .error failure →
      failure = .missingExtension c.source.path ∨ failure = .invalidExtension c.source.path) ∧
    ∀ extension, c.fileExtension = .ok extension →
      (∀ rest, Quotation.literal '\'' (Gap.whole.around extension.toList ++ rest) =
        if IsHarmless extension.toList then some (byteValues (textBytes extension), rest) else none) ∧
      (∀ f, Gap.whole.Holds "FILE_EXTENSION".toList (Template.whole f).toList) ∧
      ∀ (l : Layout) (r : Request) (w : World) (e : Expectation) (given : Inputs) (is : List Injection) (text : String),
        r.injections c w e given = .ok is → c.script l r is = .ok text → Unmarked extension.toList →
        Gap.whole.Holds extension.toList text.toList := by
  refine ⟨fun extension => ?_, fileExtension_eq_missing_iff, ?_, fun failure fails => ?_, fun extension ok => ?_⟩
  · rw [fileExtension_eq_ok_iff, isExtension_iff]
  · rw [fileExtension_eq_invalid_iff]
    refine exists_congr fun suffix => and_congr_right fun _ => ?_
    rw [isExtension_iff, String.toList_ofList, not_or, not_exists]
    simp only [not_and]
  · rw [fileExtension_def] at fails
    split at fails
    · exact .inl (Except.error.inj fails).symm
    · split at fails
      · cases fails
      · exact .inr (Except.error.inj fails).symm
  · have passes := (fileExtension_eq_ok_iff.1 ok).2
    refine ⟨literal_extension passes, holds_fileExtension, fun l r w e given is text injected made free => ?_⟩
    obtain ⟨commands, raws⟩ := r.injections_raws injected
    have listed : "FILE_EXTENSION" ∈ commonPlaceholders.tail.dropLast.map Placeholder.name := by decide +kernel
    obtain ⟨q, standard, named⟩ := List.mem_map.1 listed
    refine chain_keeps raws made standard (fun subs substituted => ?_) free ?_
    · rw [named]
      exact (fileExtension_replaced substituted extension).2 ok
    · rw [← q.toList_name, named]
      exact holds_fileExtension _

/-- A line feed at the end passes, and the literal breaks. -/
theorem extension_lineFeed :
    ¬ ∀ (c : Case) (extension : String), c.fileExtension = .ok extension ↔
      Path.HasSuffix c.source.path.toList extension.toList ∧ IsHarmless extension.toList := by
  intro only
  let c : Case := ⟨"/s", ⟨"main.rs\n", .str ""⟩, none, [], .immediate, 1, true, "/e", "1"⟩
  have path : "main.rs\n".toList = ['m', 'a', 'i', 'n'] ++ '.' :: ['r', 's', '\n'] := String.toList_ofList
  have extension : "rs\n".toList = ['r', 's'] ++ ['\n'] := String.toList_ofList
  have suffix : Path.HasSuffix c.source.path.toList ['r', 's', '\n'] :=
    ⟨by decide, by decide, ['m', 'a', 'i', 'n'], by decide, [], [], path, .inl rfl, nofun, by decide, by decide,
      by decide⟩
  have passes : isExtension "rs\n" = true := (isExtension_iff _).2 (.inr ⟨['r', 's'], extension, by decide⟩)
  have harmless := ((only c "rs\n").1 (fileExtension_eq_ok_iff.2 ⟨extension ▸ suffix, passes⟩)).2.2
  rw [extension] at harmless
  exact absurd (harmless '\n' (by decide)) (by decide)

end Case

end ServerTrial
