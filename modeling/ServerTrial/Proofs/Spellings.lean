import ServerTrial.Proofs.Confinement
import ServerTrial.Proofs.Idempotence
import ServerTrial.Proofs.PathText
import ServerTrial.Proofs.Resolution
import ServerTrial.Proofs.Utf8

/-!
# Spellings of a directory

A directory is written percent-encoded or not, as it is given or as the path it leads to, and the first of these
spellings that fits is taken off.  Which one that is follows from the numbers of slashes (`Uri.count_spelled`): where a
link leads to a place at the same depth, the path a directory leads to has no more components than the directory has as
it is given, and as many if it has no steps back.

* `World.OnlyLink`: the world has one link;
* `Uri.spelled`: a spelling, component by component;
* `Uri.clean_append_iff`: where no spelling is a proper beginning of a later one, the longest that fits is taken off;
* `Layout.spellings_taken_off`: so it is for the directory for source files, wherever it is.
-/

namespace ServerTrial

/-! ### Slashes -/

namespace Path

/-- The slashes of a path that ends with one. -/
def slashes (p : Path) : Nat := (rootText p.root).toList.count '/' + p.parts.length

end Path

open ServerTrial.Path (Named)

/-! ### Where directories lead -/

namespace World

/-- No link is there but one, which leads from `link` to `real` in the same directory. -/
def OnlyLink (w : World) : Prop :=
  ∀ p target, w.at? p = some (.link target) → p = ["lspo-world", "link"] ∧ target = ["lspo-world", "real"]

section Resolve

variable {w : World} {p : Place} {parts : List String}

theorem OnlyLink.follow (only : w.OnlyLink) (p : Place) :
    w.follow p = p ∨ p = ["lspo-world", "link"] ∧ w.follow p = ["lspo-world", "real"] := by
  unfold World.follow
  split
  · next target link =>
    obtain ⟨here, there⟩ := only p target link
    exact .inr ⟨here, there⟩
  · exact .inl rfl

theorem OnlyLink.length_follow (only : w.OnlyLink) (p : Place) : (w.follow p).length = p.length := by
  rcases only.follow p with same | ⟨rfl, there⟩
  · rw [same]
  · rw [there]
    rfl

theorem OnlyLink.named_follow (only : w.OnlyLink) (named : Named p) : Named (w.follow p) := by
  rcases only.follow p with same | ⟨-, there⟩
  · rwa [same]
  · rw [there]
    unfold Named
    decide

theorem OnlyLink.follow_concat (only : w.OnlyLink) (p : Place) {c : String} (other : c ≠ "link") :
    w.follow (p ++ [c]) = p ++ [c] := by
  rcases only.follow (p ++ [c]) with same | ⟨here, -⟩
  · exact same
  · have last := congrArg List.getLast? here
    rw [List.getLast?_concat] at last
    exact absurd (Option.some.inj last) other

/-- Another name than that of the link is entered as it is. -/
theorem OnlyLink.resolveParts_names (only : w.OnlyLink) {names : List String}
    (others : ∀ c ∈ names, c ≠ ".." ∧ c ≠ "link") : w.resolveParts p (parts ++ names) =
      w.resolveParts p parts ++ names := by
  rw [resolveParts_append]
  generalize w.resolveParts p parts = place
  induction names generalizing place with
  | nil => rw [List.append_nil, resolveParts]
  | cons c names ih =>
    obtain ⟨⟨back, link⟩, others⟩ := List.forall_mem_cons.1 others
    rw [resolveParts, if_neg back, only.follow_concat place link, ih others, List.append_assoc, List.singleton_append]

theorem OnlyLink.length_resolveParts_le (only : w.OnlyLink) (p : Place) (parts : List String) :
    (w.resolveParts p parts).length ≤ p.length + parts.length := by
  induction parts generalizing p with
  | nil => exact Nat.le_refl _
  | cons c parts ih =>
    rw [resolveParts, List.length_cons]
    split
    · have := ih p.dropLast
      rw [List.length_dropLast] at this
      omega
    · have := ih (w.follow (p ++ [c]))
      rw [only.length_follow, List.length_append, List.length_singleton] at this
      omega

theorem OnlyLink.length_resolveParts (only : w.OnlyLink) (names : ".." ∉ parts) (p : Place) :
    (w.resolveParts p parts).length = p.length + parts.length := by
  induction parts generalizing p with
  | nil => rfl
  | cons c parts ih =>
    rw [List.mem_cons, not_or] at names
    rw [resolveParts, if_neg (Ne.symm names.1), ih names.2, only.length_follow, List.length_append,
      List.length_singleton, List.length_cons]
    omega

theorem OnlyLink.named_resolveParts (only : w.OnlyLink) (top : Named p) (named : Named parts) :
    Named (w.resolveParts p parts) := by
  induction parts generalizing p with
  | nil => exact top
  | cons c parts ih =>
    obtain ⟨first, named⟩ := List.forall_mem_cons.1 named
    rw [resolveParts]
    split
    · exact ih (fun d hd => top d (List.dropLast_subset p hd)) named
    · exact ih (only.named_follow (top.append (List.forall_mem_singleton.2 first))) named

end Resolve

end World

/-! ### Component by component -/

namespace Uri

/-- A way to write the characters of a path: slashes and digits stay as they are, and nothing else is written with a
slash. -/
structure Writing (write : Char → List Char) : Prop where
  slash : write '/' = ['/']
  digit : ∀ {c}, Text.isDigit c = true → write c = [c]
  plain : ∀ {c}, c ≠ '/' → '/' ∉ write c
  some' : ∀ c, write c ≠ []

theorem writing_single : Writing fun c => [c] :=
  ⟨rfl, fun _ => rfl, fun other inside => other (List.mem_singleton.1 inside).symm, fun c => List.cons_ne_nil c []⟩

theorem hexDigit_ne_slash (n : Nat) : hexDigit n ≠ '/' := by
  intro same
  have number := congrArg Char.toNat same
  have slash : '/'.toNat = 0x2F := rfl
  rw [slash, hexDigit] at number
  split at number
  · rw [Text.toNat_ofNat (by unfold Nat.isValidChar; omega)] at number
    omega
  · by_cases valid : (0x37 + n).isValidChar
    · rw [Text.toNat_ofNat valid] at number
      omega
    · rw [Char.ofNat, dif_neg valid] at number
      cases number

theorem not_mem_encodeUnit {n : Nat} (other : n ≠ 0x2F) : '/' ∉ encodeUnit n := by
  unfold encodeUnit
  split
  · next plain =>
    intro inside
    have own : n < 0x80 := by
      simp only [isPlain, Bool.or_eq_true, Bool.and_eq_true, decide_eq_true_eq, beq_iff_eq] at plain
      omega
    have number := congrArg Char.toNat (List.mem_singleton.1 inside)
    rw [Text.toNat_ofNat (n := n) (by unfold Nat.isValidChar; omega)] at number
    exact other number.symm
  · simp only [List.mem_cons, List.not_mem_nil, or_false, not_or]
    exact ⟨by decide, (hexDigit_ne_slash _).symm, (hexDigit_ne_slash _).symm⟩

/-- Only a slash has the byte of a slash. -/
theorem eq_slash_of_mem_unitsOf {c : Char} (h : 0x2F ∈ Utf8.unitsOf c) : c = '/' := by
  have number : c.toNat = 0x2F := by
    unfold Utf8.unitsOf at h
    dsimp only at h
    split at h
    · exact (List.mem_singleton.1 h).symm
    · exfalso
      split at h
      · simp only [List.mem_cons, List.not_mem_nil, or_false] at h
        omega
      · split at h
        · simp only [List.mem_cons, List.not_mem_nil, or_false] at h
          omega
        · simp only [List.mem_cons, List.not_mem_nil, or_false] at h
          omega
  rw [← Char.ofNat_toNat c, number]

theorem encodeChar_digit {c : Char} (digit : Text.isDigit c = true) : encodeChar c = [c] := by
  simp only [Text.isDigit, Bool.and_eq_true, decide_eq_true_eq] at digit
  have low : 0x30 ≤ c.toNat := UInt32.le_iff_toNat_le.1 digit.1
  have high : c.toNat ≤ 0x39 := UInt32.le_iff_toNat_le.1 digit.2
  have plain : isPlain c.toNat = true := by simp [isPlain, low, high]
  have units : Utf8.unitsOf c = [c.toNat] := by rw [Utf8.unitsOf, if_pos (by omega)]
  rw [encodeChar, units, List.flatMap_singleton, encodeUnit, if_pos plain, Char.ofNat_toNat]

theorem writing_encodeChar : Writing encodeChar := by
  refine ⟨rfl, encodeChar_digit, fun {c} other inside => ?_, fun c none => ?_⟩
  · obtain ⟨n, hn, inside⟩ := List.mem_flatMap.1 inside
    by_cases slash : n = 0x2F
    · exact other (eq_slash_of_mem_unitsOf (slash ▸ hn))
    · exact not_mem_encodeUnit slash inside
  · obtain ⟨n, rest, units⟩ := List.exists_cons_of_length_pos (Utf8.unitsOf_length_pos c)
    have first := List.flatMap_eq_nil_iff.1 none n (units ▸ List.mem_cons_self)
    unfold encodeUnit at first
    split at first
    · cases first
    · cases first

/-- The components of a path, each with a slash behind it. -/
def spelledParts (write : Char → List Char) (parts : List String) : List Char :=
  parts.flatMap fun c => c.toList.flatMap write ++ ['/']

/-- What stands in front of the path. -/
def scheme : List Char := "file://".toList

theorem toList_scheme : "file://".toList = scheme := rfl

/-- A spelling of a path, by what is written for its characters. -/
def spelled (write : Char → List Char) (p : Path) : List Char :=
  scheme ++ ((Path.rootText p.root).toList ++ spelledParts write p.parts)

section Spelled

variable {write : Char → List Char} {p : Path} {parts : List String}

theorem spelledParts_append (xs ys : List String) :
    spelledParts write (xs ++ ys) = spelledParts write xs ++ spelledParts write ys := List.flatMap_append

theorem count_flatMap_write (writing : Writing write) {cs : List Char} (plain : '/' ∉ cs) :
    (cs.flatMap write).count '/' = 0 := by
  rw [List.count_eq_zero, List.mem_flatMap]
  rintro ⟨c, hc, inside⟩
  exact writing.plain (fun slash => plain (slash ▸ hc)) inside

theorem count_spelledParts (writing : Writing write) (named : Named parts) :
    (spelledParts write parts).count '/' = parts.length := by
  induction parts with
  | nil => rfl
  | cons c parts ih =>
    obtain ⟨first, named⟩ := List.forall_mem_cons.1 named
    rw [spelledParts, List.flatMap_cons, List.count_append, List.count_append, count_flatMap_write writing first.2,
      List.count_singleton_self, List.length_cons, ← ih named, spelledParts]
    omega

/-- **A spelling has a slash for each component**, and a few in front. -/
theorem count_spelled (writing : Writing write) (named : Named p.parts) :
    (spelled write p).count '/' = 2 + p.slashes := by
  have front : scheme.count '/' = 2 := by decide
  rw [spelled, List.count_append, List.count_append, count_spelledParts writing named, front, Path.slashes]

theorem getLast?_spelled (some' : p.parts ≠ []) : (spelled write p).getLast? = some '/' := by
  obtain ⟨init, c, parts⟩ := (List.eq_nil_or_concat' p.parts).resolve_left some'
  rw [spelled, parts, spelledParts_append, spelledParts, spelledParts, List.flatMap_singleton, ← List.append_assoc,
    ← List.append_assoc, ← List.append_assoc, List.getLast?_concat]

/-- A directory is written with a slash at its end. -/
theorem toList_endSlash {s : String} {x y : List Char} (split : s.toList = x ++ y) (some' : y ≠ []) (plain : '/' ∉ y) :
    (endSlash s).toList = s.toList ++ ['/'] := by
  obtain ⟨z, c, rfl⟩ := (List.eq_nil_or_concat' y).resolve_left some'
  have other : c ≠ '/' := by
    rintro rfl
    exact plain (List.mem_append_right _ (List.mem_singleton_self _))
  have last : ¬(c == '/') = true := fun same => other (beq_iff_eq.1 same)
  rw [endSlash, String.toList_ofList, split, ← List.append_assoc, List.reverse_append, List.reverse_singleton,
    List.singleton_append, List.dropWhile_cons_of_neg (p := (· == '/')) last, List.reverse_cons, List.reverse_reverse]

/-- The text of a path with a slash behind it. -/
theorem toList_toString_slash (some' : p.parts ≠ []) :
    p.toString.toList ++ ['/'] =
      (Path.rootText p.root).toList ++ p.parts.flatMap fun c => c.toList ++ ['/'] := by
  have root : ¬(p.root = .here ∧ p.parts = []) := fun none => some' none.2
  have slash : "/".toList = ['/'] := rfl
  obtain ⟨c, cs, parts⟩ := List.exists_cons_of_ne_nil some'
  rw [Path.toString, if_neg root, String.toList_append, String.toList_intercalate, slash, List.append_assoc, parts,
    List.map_cons, intercalate_concat, ← List.map_cons, List.flatMap_map]

/-- What stands in front of the last component is written component by component. -/
theorem flatMap_front (writing : Writing write) (root : Root) (front : List String) :
    ((Path.rootText root).toList ++ front.flatMap fun c => c.toList ++ ['/']).flatMap write =
      (Path.rootText root).toList ++ spelledParts write front := by
  have slashes : (Path.rootText root).toList.flatMap write = (Path.rootText root).toList := by
    cases root with
    | here => rfl
    | slash => simp [Path.rootText, writing.slash]
    | doubleSlash => simp [Path.rootText, writing.slash]
  rw [List.flatMap_append, slashes, List.flatMap_assoc, spelledParts]
  simp only [List.flatMap_append, List.flatMap_singleton, writing.slash]

/-- What is written for a path is a spelling of it, once it ends with a slash. -/
theorem toList_endSlash_eq_spelled (writing : Writing write) (named : Named p.parts) (some' : p.parts ≠ [])
    {s : String} (written : s.toList = scheme ++ p.toString.toList.flatMap write) :
    (endSlash s).toList = spelled write p := by
  have closed := toList_toString_slash some'
  obtain ⟨init, c, parts⟩ := (List.eq_nil_or_concat' p.parts).resolve_left some'
  obtain ⟨full, plain⟩ := named c (parts ▸ List.mem_append_right _ (List.mem_singleton_self c))
  -- the last component is written at the end, and without slashes
  have last : p.toString.toList =
      (Path.rootText p.root).toList ++ init.flatMap (fun c => c.toList ++ ['/']) ++ c.toList := by
    rw [parts, List.flatMap_append, List.flatMap_singleton, ← List.append_assoc, ← List.append_assoc] at closed
    exact List.append_cancel_right closed
  obtain ⟨d, cs, chars⟩ := List.exists_cons_of_ne_nil (fun empty => full (String.toList_eq_nil_iff.1 empty))
  have some'' : c.toList.flatMap write ≠ [] := by
    rw [chars, List.flatMap_cons]
    exact List.append_ne_nil_of_left_ne_nil (writing.some' d) _
  have clear : '/' ∉ c.toList.flatMap write := List.count_eq_zero.1 (count_flatMap_write writing plain)
  have slash : ['/'] = ['/'].flatMap write := by rw [List.flatMap_singleton, writing.slash]
  have split : s.toList = scheme ++ ((Path.rootText p.root).toList ++
      init.flatMap (fun c => c.toList ++ ['/'])).flatMap write ++ c.toList.flatMap write := by
    rw [written, last, List.flatMap_append, List.append_assoc]
  rw [toList_endSlash split some'' clear, written, List.append_assoc, slash, ← List.flatMap_append, closed,
    flatMap_front writing, spelled]

/-- Is the text a spelling of the path? -/
structure Spells (s : String) (p : Path) : Prop where
  named : Named p.parts
  some' : p.parts ≠ []
  written : ∃ write, Writing write ∧ s.toList = spelled write p

/-- Both ways to write one path. -/
def forms (p : Path) : List String := [ofPath p, rawOfPath p].map endSlash

theorem spells_of_mem_forms (named : Named p.parts) (some' : p.parts ≠ []) {s : String} (h : s ∈ forms p) :
    Spells s p := by
  simp only [forms, List.map_cons, List.map_nil, List.mem_cons, List.not_mem_nil, or_false] at h
  rcases h with rfl | rfl
  · exact ⟨named, some', encodeChar, writing_encodeChar, toList_endSlash_eq_spelled writing_encodeChar named some' (by
      rw [ofPath, String.toList_append, toList_encode, toList_scheme])⟩
  · exact ⟨named, some', fun c => [c], writing_single, toList_endSlash_eq_spelled writing_single named some' (by
      rw [rawOfPath, String.toList_append, List.flatMap_singleton', toList_scheme])⟩

end Spelled

section Spells

variable {s t : String} {p q : Path}

theorem eq_of_begins_of_count {x y : List Char} (fits : x <+: y) (ends : y.getLast? = some '/')
    (fewer : y.count '/' ≤ x.count '/') : x = y := by
  obtain ⟨z, rfl⟩ := fits
  rw [List.count_append] at fewer
  rcases List.eq_nil_or_concat' z with rfl | ⟨init, c, rfl⟩
  · rw [List.append_nil]
  · rw [← List.append_assoc, List.getLast?_concat] at ends
    rw [Option.some.inj ends, List.count_append, List.count_singleton_self] at fewer
    omega

/-- **A spelling is no proper beginning of one with no more slashes.** -/
theorem Spells.eq_of_begins (hs : Spells s p) (ht : Spells t q) (fewer : q.slashes ≤ p.slashes)
    (fits : s.toList <+: t.toList) : s = t := by
  obtain ⟨write, writing, written⟩ := hs.written
  obtain ⟨write', writing', written'⟩ := ht.written
  refine String.toList_injective (eq_of_begins_of_count fits ?_ ?_)
  · rw [written', getLast?_spelled ht.some']
  · rw [written, written', count_spelled writing hs.named, count_spelled writing' ht.named]
    omega

/-- Behind one slash stands a name, and no second one. -/
theorem Spells.not_prefix_of_roots (hs : Spells s p) (ht : Spells t q) (root : p.root = .slash)
    (root' : q.root = .doubleSlash) : ¬ s.toList <+: t.toList := by
  intro fits
  obtain ⟨write, writing, written⟩ := hs.written
  obtain ⟨write', writing', written'⟩ := ht.written
  obtain ⟨c, cs, parts⟩ := List.exists_cons_of_ne_nil hs.some'
  obtain ⟨full, plain⟩ := hs.named c (parts ▸ List.mem_cons_self)
  obtain ⟨d, ds, chars⟩ := List.exists_cons_of_ne_nil (fun empty => full (String.toList_eq_nil_iff.1 empty))
  obtain ⟨e, es, first⟩ := List.exists_cons_of_ne_nil (writing.some' d)
  have one : (Path.rootText .slash).toList = ['/'] := rfl
  have two : (Path.rootText .doubleSlash).toList = ['/', '/'] := rfl
  rw [written, written', spelled, spelled, List.prefix_append_right_inj, root, root', one, two, parts, spelledParts,
    List.flatMap_cons, chars, List.flatMap_cons, first] at fits
  have slash : e = '/' := (List.cons_prefix_cons.1 (List.cons_prefix_cons.1 fits).2).1
  have other : d ≠ '/' := by
    rintro rfl
    exact plain (chars ▸ List.mem_cons_self)
  exact writing.plain other (by rw [first, slash]; exact List.mem_cons_self)

theorem mem_spellings_iff : s ∈ spellings p q ↔ s ∈ forms p ∨ s ∈ forms q :=
  ⟨fun h => List.mem_append.1 (mem_of_mem_distinct h), fun h => mem_distinct (List.mem_append.2 h)⟩

end Spells

/-! ### The longest that fits -/

/-- No spelling is a proper beginning of a later one. -/
def Ordered (spellings : List String) : Prop := spellings.Pairwise fun s t => s.toList <+: t.toList → s = t

/-- **The longest spelling that fits is taken off.** -/
theorem clean_append_iff {spellings : List String} (ordered : Ordered spellings) {s : String} (hs : s ∈ spellings)
    (rest : String) : clean spellings (s ++ rest) = rest ↔
      ∀ t ∈ spellings, t.toList <+: (s ++ rest).toList → t.toList <+: s.toList := by
  have own : s.toList <+: (s ++ rest).toList := ⟨rest.toList, by rw [String.toList_append]⟩
  obtain ⟨t, first⟩ : ∃ t, spellings.find? (fun p => p.toList.isPrefixOf (s ++ rest).toList) = some t :=
    Option.isSome_iff_exists.1 (List.find?_isSome.2 ⟨s, hs, List.isPrefixOf_iff_prefix.2 own⟩)
  have split := congrArg String.toList (eq_append_clean first)
  obtain ⟨fits, before, after, order, unfit⟩ := List.find?_eq_some_iff_append.1 first
  have fits : t.toList <+: (s ++ rest).toList := List.isPrefixOf_iff_prefix.1 fits
  -- what fits as well comes later in the list, so it is not longer
  have longest : ∀ u ∈ spellings, u.toList <+: (s ++ rest).toList → t.toList <+: u.toList → t = u := by
    intro u hu other longer
    rw [order] at hu
    rcases List.mem_append.1 hu with hu | hu
    · have := unfit u hu
      rw [List.isPrefixOf_iff_prefix.2 other] at this
      cases this
    · rcases List.mem_cons.1 hu with rfl | hu
      · rfl
      · rw [Ordered, order] at ordered
        exact (List.pairwise_cons.1 (List.pairwise_append.1 ordered).2.1).1 u hu longer
  constructor
  · intro cleaned u hu other
    rw [cleaned, String.toList_append, String.toList_append] at split
    have same : s = t := String.toList_injective (List.append_cancel_right split)
    rcases List.prefix_or_prefix_of_prefix other own with shorter | longer
    · exact shorter
    · rw [← longest u hu other (same ▸ longer), same]
  · intro all
    have same : t = s := longest s hs own (all t (List.mem_of_find?_eq_some first) fits)
    rw [same, String.toList_append, String.toList_append] at split
    exact (String.toList_injective (List.append_cancel_left split)).symm

theorem ordered_spellings {p q : Path} (named : Named p.parts) (some' : p.parts ≠ []) (named' : Named q.parts)
    (some'' : q.parts ≠ []) (fewer : q.slashes ≤ p.slashes) : Ordered (spellings p q) := by
  have given := fun {s} => spells_of_mem_forms (s := s) named some'
  have led := fun {s} => spells_of_mem_forms (s := s) named' some''
  refine List.Pairwise.sublist (distinct_sublist (forms p ++ forms q)) (List.pairwise_append.2 ⟨?_, ?_, ?_⟩)
  · exact List.pairwise_of_forall_mem_list fun s hs t ht => (given hs).eq_of_begins (given ht) (Nat.le_refl _)
  · exact List.pairwise_of_forall_mem_list fun s hs t ht => (led hs).eq_of_begins (led ht) (Nat.le_refl _)
  · exact fun s hs t ht => (given hs).eq_of_begins (led ht) fewer

end Uri

/-! ### The directory for source files -/

namespace World

variable {w : World} {p : Path}

theorem resolve_of_isAbsolute (absolute : p.isAbsolute = true) :
    w.resolve p = ⟨.slash, w.resolveParts [] p.parts⟩ := by
  rw [resolve, Layout.start_of_isAbsolute p absolute]

theorem OnlyLink.named_resolve (only : w.OnlyLink) (absolute : p.isAbsolute = true) (named : Named p.parts) :
    Named (w.resolve p).parts := by
  rw [resolve_of_isAbsolute absolute]
  exact only.named_resolveParts (List.forall_mem_nil _) named

/-- Where a path leads is written with no more slashes than the path. -/
theorem OnlyLink.slashes_resolve_le (only : w.OnlyLink) (absolute : p.isAbsolute = true) :
    (w.resolve p).slashes ≤ p.slashes := by
  have parts := only.length_resolveParts_le [] p.parts
  have root : ∀ root : Root, root ≠ .here →
      (Path.rootText .slash).toList.count '/' ≤ (Path.rootText root).toList.count '/' := by
    intro root some'
    cases root with
    | here => exact absurd rfl some'
    | slash => decide
    | doubleSlash => decide
  rw [List.length_nil, Nat.zero_add] at parts
  rw [resolve_of_isAbsolute absolute]
  exact Nat.add_le_add (root p.root (bne_iff_ne.1 absolute)) parts

theorem OnlyLink.slashes_resolve (only : w.OnlyLink) (root : p.root = .slash) (names : ".." ∉ p.parts) :
    (w.resolve p).slashes = p.slashes := by
  have parts := only.length_resolveParts names []
  rw [List.length_nil, Nat.zero_add] at parts
  rw [resolve_of_isAbsolute (by rw [Path.isAbsolute, root]; rfl), Path.slashes, Path.slashes, parts, root]

/-- The path to the directory for source files leads to one of that name. -/
theorem OnlyLink.resolve_sources (only : w.OnlyLink) {l : Layout} (absolute : l.base.isAbsolute = true) :
    w.resolve l.sources = ⟨.slash, w.resolveParts [] l.root.parts ++ ["src"]⟩ := by
  have rooted : l.sources.isAbsolute = true := Path.isAbsolute_child (Layout.isAbsolute_root absolute) _
  have names : ∀ c ∈ ["src"], c ≠ ".." ∧ c ≠ "link" := by decide
  rw [resolve_of_isAbsolute rooted, Layout.sources_eq_root, only.resolveParts_names names]

/-- A world with the link, and no more. -/
def linked : World :=
  ⟨[(["lspo-world"], .directory), (["lspo-world", "real"], .directory),
    (["lspo-world", "link"], .link ["lspo-world", "real"])], [], [], ⟨.slash, ["tmp"]⟩, "1"⟩

theorem onlyLink_linked : linked.OnlyLink := by
  intro p target link
  rcases mem_nodes_of_at? link with rfl | inside
  · cases (at?_nil linked).symm.trans link
  · simp only [linked, List.mem_cons, Prod.mk.injEq, reduceCtorEq, and_false, List.not_mem_nil, or_false, false_or,
      Node.link.injEq] at inside
    exact inside

end World

namespace Layout

variable {w : World} {l : Layout} {spellings : List String}

theorem named_sources (named : Named l.base.parts) : Named l.sources.parts := Path.named_child (named_root named) _

theorem isAbsolute_sources (absolute : l.base.isAbsolute = true) : l.sources.isAbsolute = true :=
  Path.isAbsolute_child (isAbsolute_root absolute) _

theorem sources_parts_ne_nil (l : Layout) : l.sources.parts ≠ [] := by
  rw [sources_eq_root]
  exact List.append_ne_nil_of_right_ne_nil _ (List.cons_ne_nil _ _)

theorem spellings_eq_ok_iff : w.spellings l.sources = .ok spellings ↔
    World.flaw? l.sources = none ∧ Uri.spellings l.sources (w.resolve l.sources) = spellings := by
  unfold World.spellings
  split
  · next f flaw => simp [flaw]
  · next sound => simp [sound]

/-- Both directories that are spelled have names as components, and the one that is led to has no more slashes. -/
structure Spellable (w : World) (l : Layout) : Prop where
  given : Named l.sources.parts
  followed : Named (w.resolve l.sources).parts
  some' : (w.resolve l.sources).parts ≠ []
  fewer : (w.resolve l.sources).slashes ≤ l.sources.slashes

theorem spellable (only : w.OnlyLink) (absolute : l.base.isAbsolute = true) (named : Named l.base.parts) :
    Spellable w l := by
  have rooted := isAbsolute_sources absolute
  refine ⟨named_sources named, only.named_resolve rooted (named_sources named), ?_, only.slashes_resolve_le rooted⟩
  rw [only.resolve_sources absolute]
  exact List.append_ne_nil_of_right_ne_nil _ (List.cons_ne_nil _ _)

theorem Spellable.ordered (spellable : Spellable w l) (known : w.spellings l.sources = .ok spellings) :
    Uri.Ordered spellings := by
  rw [← (spellings_eq_ok_iff.1 known).2]
  exact Uri.ordered_spellings spellable.given (sources_parts_ne_nil l) spellable.followed spellable.some' spellable.fewer

theorem Spellable.spells (spellable : Spellable w l) (known : w.spellings l.sources = .ok spellings) {s : String}
    (hs : s ∈ spellings) : Uri.Spells s l.sources ∨ Uri.Spells s (w.resolve l.sources) := by
  rw [← (spellings_eq_ok_iff.1 known).2] at hs
  exact (Uri.mem_spellings_iff.1 hs).imp (Uri.spells_of_mem_forms spellable.given (sources_parts_ne_nil l))
    (Uri.spells_of_mem_forms spellable.followed spellable.some')

/-- Nothing that fits is longer than a spelling of the directory as it is given. -/
theorem Spellable.given_longest (spellable : Spellable w l) (known : w.spellings l.sources = .ok spellings)
    {s : String} (own : Uri.Spells s l.sources) {t : String} (ht : t ∈ spellings) (fits : s.toList <+: t.toList) :
    s = t := by
  rcases spellable.spells known ht with given | followed
  · exact own.eq_of_begins given (Nat.le_refl _) fits
  · exact own.eq_of_begins followed spellable.fewer fits

/-- Without steps back no spelling is a proper beginning of another one. -/
theorem Spellable.prefixFree (spellable : Spellable w l) (only : w.OnlyLink) (absolute : l.base.isAbsolute = true)
    (known : w.spellings l.sources = .ok spellings) (names : ".." ∉ l.sources.parts) : PrefixFree spellings := by
  intro s hs t ht fits
  rcases spellable.spells known hs with given | followed
  · exact spellable.given_longest known given ht fits
  · rcases spellable.spells known ht with given | followed'
    · have root : (w.resolve l.sources).root = .slash := rfl
      cases top : l.sources.root with
      | here => exact absurd top (bne_iff_ne.1 (isAbsolute_sources absolute))
      | slash => exact followed.eq_of_begins given (only.slashes_resolve top names).ge fits
      | doubleSlash => exact absurd fits (followed.not_prefix_of_roots given root top)
    · exact followed.eq_of_begins followed' (Nat.le_refl _) fits

/-- **What is taken off.**  There are spellings of the directory for source files unless its path has a flaw.  A URI
keeps what stands behind the longest spelling that it starts with, and is kept as a whole if it starts with none.  So
whatever follows a spelling of the directory as it is given is kept; and if the path has no steps back, whatever follows
any spelling. -/
theorem spellings_taken_off (only : w.OnlyLink) (testId : String) {base : String}
    (absolute : (Path.ofString base).isAbsolute = true) :
    let l : Layout := ⟨testId, Path.ofString base⟩
    (∀ f, w.spellings l.sources = .error f ↔ World.flaw? l.sources = some f) ∧
    ∀ spellings, w.spellings l.sources = .ok spellings →
      (∀ s ∈ spellings, ∀ rest, Uri.clean spellings (s ++ rest) = rest ↔
        ∀ t ∈ spellings, t.toList <+: (s ++ rest).toList → t.toList <+: s.toList) ∧
      (∀ u, (∀ s ∈ spellings, ¬ s.toList <+: u.toList) → Uri.clean spellings u = u) ∧
      (∀ s ∈ Uri.forms l.sources, s ∈ spellings ∧ ∀ rest, Uri.clean spellings (s ++ rest) = rest) ∧
      (".." ∉ l.sources.parts → ∀ s ∈ spellings, ∀ rest, Uri.clean spellings (s ++ rest) = rest) := by
  intro l
  have spellable := spellable (l := l) only absolute (Path.named_ofString base)
  refine ⟨fun f => ?_, fun spellings known => ?_⟩
  · unfold World.spellings
    split
    · next g flaw => rw [flaw, Except.error.injEq, Option.some.injEq]
    · next sound => rw [sound]; exact ⟨nofun, nofun⟩
  have ordered := spellable.ordered known
  refine ⟨fun s hs rest => Uri.clean_append_iff ordered hs rest, fun u foreign => clean_eq_self foreign,
    fun s hs => ?_, fun names s hs rest => clean_append (spellable.prefixFree only absolute known names) hs rest⟩
  have own : Uri.Spells s l.sources := Uri.spells_of_mem_forms spellable.given (sources_parts_ne_nil l) hs
  have inside : s ∈ spellings := by
    rw [← (spellings_eq_ok_iff.1 known).2]
    exact Uri.mem_spellings_iff.2 (.inl hs)
  refine ⟨inside, fun rest => (Uri.clean_append_iff ordered inside rest).2 fun t ht fits => ?_⟩
  have front : s.toList <+: (s ++ rest).toList := ⟨rest.toList, by rw [String.toList_append]⟩
  rcases List.prefix_or_prefix_of_prefix fits front with shorter | longer
  · exact shorter
  · rw [spellable.given_longest known own ht longer]

/-- A directory behind the link, with a blank in its name: four spellings. -/
theorem spellings_taken_off_blank :
    let l : Layout := ⟨"1", Path.ofString "/lspo-world/link/a b"⟩
    let spellings :=
      ["file:///lspo-world/link/a%20b/lspresso-shot/1/src/", "file:///lspo-world/link/a b/lspresso-shot/1/src/",
        "file:///lspo-world/real/a%20b/lspresso-shot/1/src/", "file:///lspo-world/real/a b/lspresso-shot/1/src/"]
    World.linked.OnlyLink ∧ l.base.isAbsolute = true ∧ World.linked.spellings l.sources = .ok spellings ∧
      ".." ∉ l.sources.parts ∧ ∀ s ∈ spellings, Uri.clean spellings (s ++ "main.rs") = "main.rs" := by
  intro l spellings
  have given : l.sources = ⟨.slash, ["lspo-world", "link", "a b", "lspresso-shot", "1", "src"]⟩ := by decide
  have known : World.linked.spellings l.sources = .ok spellings := by
    rw [given, World.spellings_eq (q := ⟨.slash, ["lspo-world", "real", "a b", "lspresso-shot", "1", "src"]⟩)
      (s := "/lspo-world/link/a b/lspresso-shot/1/src") (t := "/lspo-world/real/a b/lspresso-shot/1/src")
      rfl (by decide) (by decide) (by decide) rfl rfl]
    rfl
  have names : ".." ∉ l.sources.parts := by
    rw [given]
    decide
  have absolute : (Path.ofString "/lspo-world/link/a b").isAbsolute = true := by decide
  obtain ⟨-, taken⟩ := spellings_taken_off World.onlyLink_linked "1" absolute
  exact ⟨World.onlyLink_linked, absolute, known, names, fun s hs => (taken spellings known).2.2.2 names s hs "main.rs"⟩

/-- Where the directory as it is given starts with the one that it leads to, not all that follows the shorter spelling
is kept. -/
theorem longer_spelling_taken_off :
    let l : Layout := ⟨"1", Path.ofString "/lspo-world/tmp/lspresso-shot/1/src/../../.."⟩
    let s := "file:///lspo-world/tmp/lspresso-shot/1/src/"
    let rest := "../../../lspresso-shot/1/src/main.rs"
    World.linked.OnlyLink ∧ l.base.isAbsolute = true ∧
      ∃ spellings, World.linked.spellings l.sources = .ok spellings ∧ s ∈ spellings ∧
        Uri.clean spellings (s ++ rest) = "main.rs" ∧ Uri.clean spellings (s ++ rest) ≠ rest := by
  intro l s rest
  have given : l.sources = ⟨.slash, ["lspo-world", "tmp", "lspresso-shot", "1", "src", "..", "..", "..",
    "lspresso-shot", "1", "src"]⟩ := by decide
  have known : World.linked.spellings l.sources =
      .ok ["file:///lspo-world/tmp/lspresso-shot/1/src/../../../lspresso-shot/1/src/", s] := by
    rw [given, World.spellings_eq (q := ⟨.slash, ["lspo-world", "tmp", "lspresso-shot", "1", "src"]⟩)
      (s := "/lspo-world/tmp/lspresso-shot/1/src/../../../lspresso-shot/1/src")
      (t := "/lspo-world/tmp/lspresso-shot/1/src") rfl (by decide) (by decide) (by decide) rfl rfl]
    rfl
  have whole : s ++ rest = "file:///lspo-world/tmp/lspresso-shot/1/src/../../../lspresso-shot/1/src/main.rs" := by decide
  have taken : Uri.clean ["file:///lspo-world/tmp/lspresso-shot/1/src/../../../lspresso-shot/1/src/", s] (s ++ rest) =
      "main.rs" := by
    rw [whole]
    exact (Uri.clean_ofList [_, _] _).trans rfl
  refine ⟨World.onlyLink_linked, by decide, _, known, List.mem_cons_of_mem _ (List.mem_singleton_self _), taken, ?_⟩
  rw [taken]
  decide

end Layout

end ServerTrial
