import ServerTrial.Proofs.Removal
import ServerTrial.Proofs.Spellings

/-!
# Workspaces next to each other

Workspaces with different numbers in one directory.

* `Uri.Spells.number_eq`: the number of the workspace can be read off every spelling of its directory for source files;
* `Layout.Neighbours.within`: a spelling of the one starts with a spelling of the other only if the directory that is led
  to is spelled there, and the other is spelled as it is given;
* `Layout.sources_isolated`: a URI in the one is kept in reports on the other exactly unless that happens, and it does not
  if the directory of both is given without steps back.
-/

namespace ServerTrial

open ServerTrial.Layout (IsNumber)
open ServerTrial.Path (Named)

/-! ### Numbers in spellings -/

namespace Uri

variable {write : Char → List Char} {s : String}

theorem cut_last_slash {x x' y y' : List Char} (plain : '/' ∉ y) (plain' : '/' ∉ y')
    (same : x ++ '/' :: y = x' ++ '/' :: y') : x = x' ∧ y = y' := by
  rcases List.append_eq_append_iff.1 same with ⟨z, hx, hy⟩ | ⟨z, hx, hy⟩
  · cases z with
    | nil => exact ⟨by rw [hx, List.append_nil], (List.cons.inj hy).2⟩
    | cons c z =>
      refine absurd ?_ plain
      rw [(List.cons.inj hy).2]
      exact List.mem_append_right _ List.mem_cons_self
  · cases z with
    | nil => exact ⟨by rw [hx, List.append_nil], (List.cons.inj hy).2.symm⟩
    | cons c z =>
      refine absurd ?_ plain'
      rw [(List.cons.inj hy).2]
      exact List.mem_append_right _ List.mem_cons_self

theorem flatMap_number (writing : Writing write) {id : String} (number : IsNumber id) :
    id.toList.flatMap write = id.toList :=
  (List.flatMap_congr fun c hc => writing.digit (number.2 c hc)).trans (List.flatMap_singleton' _)

/-- A number next to the last component, between its slashes. -/
theorem spelled_number (writing : Writing write) (root : Root) {front : List String} (some' : front ≠ []) {id : String}
    (number : IsNumber id) (last : String) : ∃ x, spelled write ⟨root, front ++ [id, last]⟩ =
      x ++ '/' :: id.toList ++ '/' :: last.toList.flatMap write ++ ['/'] := by
  have ends : (spelled write ⟨root, front⟩).getLast? = some '/' := getLast?_spelled some'
  obtain ⟨x, hx⟩ := List.getLast?_eq_some_iff.1 ends
  refine ⟨x, ?_⟩
  have cut : spelled write ⟨root, front ++ [id, last]⟩ =
      spelled write ⟨root, front⟩ ++ spelledParts write [id, last] := by
    simp only [spelled, spelledParts_append, List.append_assoc]
  rw [cut, hx, spelledParts, List.flatMap_cons, List.flatMap_singleton, flatMap_number writing number]
  simp only [List.append_assoc, List.cons_append, List.nil_append]

theorem Spells.number_eq {root root' : Root} {front front' : List String} {id id' last last' : String}
    (hs : Spells s ⟨root, front ++ [id, last]⟩) (ht : Spells s ⟨root', front' ++ [id', last']⟩) (some' : front ≠ [])
    (some'' : front' ≠ []) (number : IsNumber id) (number' : IsNumber id') : id = id' := by
  obtain ⟨write, writing, written⟩ := hs.written
  obtain ⟨write', writing', written'⟩ := ht.written
  obtain ⟨x, hx⟩ := spelled_number writing root some' number last
  obtain ⟨x', hx'⟩ := spelled_number writing' root' some'' number' last'
  have plain : '/' ∉ last.toList.flatMap write :=
    List.count_eq_zero.1 (count_flatMap_write writing (hs.named last (by simp)).2)
  have plain' : '/' ∉ last'.toList.flatMap write' :=
    List.count_eq_zero.1 (count_flatMap_write writing' (ht.named last' (by simp)).2)
  have clear : '/' ∉ id.toList := (hs.named id (by simp)).2
  have clear' : '/' ∉ id'.toList := (ht.named id' (by simp)).2
  have same := written.symm.trans written'
  rw [hx, hx'] at same
  have front := (cut_last_slash plain plain' (List.append_cancel_right same)).1
  exact String.toList_injective (cut_last_slash clear clear' front).2

end Uri

/-! ### Neighbours -/

namespace Layout

variable {w : World} {l l' : Layout} {s t : String}

theorem IsNumber.sources_eq (number : IsNumber l.testId) :
    l.sources = ⟨l.base.root, l.base.parts ++ [harnessDirectory] ++ [l.testId, "src"]⟩ := by
  rw [sources_eq_root, number.root_eq]
  simp only [List.append_assoc, List.cons_append, List.nil_append]

theorem IsNumber.resolve_sources (number : IsNumber l.testId) (only : w.OnlyLink) (absolute : l.base.isAbsolute = true) :
    w.resolve l.sources =
      ⟨.slash, w.resolveParts [] l.base.parts ++ [harnessDirectory] ++ [l.testId, "src"]⟩ := by
  have names : ∀ c ∈ [harnessDirectory, l.testId], c ≠ ".." ∧ c ≠ "link" := by
    rw [List.forall_mem_cons, List.forall_mem_singleton]
    exact ⟨by decide, number.ne (c := '.') (by decide) (by decide), number.ne (c := 'l') (by decide) (by decide)⟩
  rw [only.resolve_sources absolute, number.root_eq, only.resolveParts_names names]
  simp only [List.append_assoc, List.cons_append, List.nil_append]

theorem IsNumber.flaw?_sources (number : IsNumber l.testId) : World.flaw? l.sources = none ↔ World.flaw? l.base = none := by
  have kept : World.flaw? l.sources = World.flaw? l.root := by
    rw [sources, World.flaw?_child _ (by decide)]
    exact Option.or_none
  rw [kept]
  refine ⟨fun sound => ?_, number.flaw?_root⟩
  unfold World.flaw? at sound ⊢
  rw [number.root_eq, List.findSome?_append, Option.or_eq_none_iff] at sound
  exact sound.1

/-- Workspaces with different numbers in one directory. -/
structure Neighbours (l l' : Layout) : Prop where
  base : l'.base = l.base
  absolute : l.base.isAbsolute = true
  named : Named l.base.parts
  number : IsNumber l.testId
  number' : IsNumber l'.testId
  other : l.testId ≠ l'.testId

namespace Neighbours

theorem symm (next : Neighbours l l') : Neighbours l' l :=
  ⟨next.base.symm, next.base ▸ next.absolute, next.base ▸ next.named, next.number', next.number, next.other.symm⟩

theorem spellable (next : Neighbours l l') (only : w.OnlyLink) : Spellable w l :=
  Layout.spellable only next.absolute next.named

theorem slashes_sources (next : Neighbours l l') : l'.sources.slashes = l.sources.slashes := by
  rw [next.number.sources_eq, next.number'.sources_eq, next.base]
  simp [Path.slashes]

theorem slashes_resolve (next : Neighbours l l') (only : w.OnlyLink) :
    (w.resolve l'.sources).slashes = (w.resolve l.sources).slashes := by
  rw [next.number.resolve_sources only next.absolute, next.number'.resolve_sources only (next.base ▸ next.absolute),
    next.base]
  simp [Path.slashes]

/-- Any spelling of the directory for source files ends with the number and one more component. -/
theorem spells (next : Neighbours l l') (only : w.OnlyLink)
    (hs : s ∈ Uri.forms l.sources ∨ s ∈ Uri.forms (w.resolve l.sources)) :
    ∃ root front, front ≠ [] ∧ Uri.Spells s ⟨root, front ++ [l.testId, "src"]⟩ := by
  have spellable := next.spellable only
  rcases hs with hs | hs
  · have own := Uri.spells_of_mem_forms spellable.given (sources_parts_ne_nil l) hs
    rw [next.number.sources_eq] at own
    exact ⟨_, _, List.append_ne_nil_of_right_ne_nil _ (List.cons_ne_nil _ _), own⟩
  · have own := Uri.spells_of_mem_forms spellable.followed spellable.some' hs
    rw [next.number.resolve_sources only next.absolute] at own
    exact ⟨_, _, List.append_ne_nil_of_right_ne_nil _ (List.cons_ne_nil _ _), own⟩

/-- No spelling is one of both directories. -/
theorem ne (next : Neighbours l l') (only : w.OnlyLink)
    (hs : s ∈ Uri.forms l.sources ∨ s ∈ Uri.forms (w.resolve l.sources))
    (ht : t ∈ Uri.forms l'.sources ∨ t ∈ Uri.forms (w.resolve l'.sources)) : s ≠ t := by
  rintro rfl
  obtain ⟨root, front, some', own⟩ := next.spells only hs
  obtain ⟨root', front', some'', own'⟩ := next.symm.spells only ht
  exact next.other (own.number_eq own' some' some'' next.number next.number')

/-- **One spelling within the other.** -/
theorem within (next : Neighbours l l') (only : w.OnlyLink)
    (hs : s ∈ Uri.forms l.sources ∨ s ∈ Uri.forms (w.resolve l.sources))
    (ht : t ∈ Uri.forms l'.sources ∨ t ∈ Uri.forms (w.resolve l'.sources)) (fits : s.toList <+: t.toList) :
    s ∈ Uri.forms (w.resolve l.sources) ∧ t ∈ Uri.forms l'.sources := by
  have spellable := next.spellable only
  have spellable' := next.symm.spellable only
  have given {s} := Uri.spells_of_mem_forms (s := s) spellable.given (sources_parts_ne_nil l)
  have given' {s} := Uri.spells_of_mem_forms (s := s) spellable'.given (sources_parts_ne_nil l')
  have led {s} := Uri.spells_of_mem_forms (s := s) spellable.followed spellable.some'
  have led' {s} := Uri.spells_of_mem_forms (s := s) spellable'.followed spellable'.some'
  have other := next.ne only hs ht
  have fewer := spellable.fewer
  have same := next.slashes_sources
  have same' := next.slashes_resolve only
  rcases hs with hs | hs
  · rcases ht with ht | ht
    · exact absurd ((given hs).eq_of_begins (given' ht) same.le fits) other
    · exact absurd ((given hs).eq_of_begins (led' ht) (same'.le.trans fewer) fits) other
  · rcases ht with ht | ht
    · exact ⟨hs, ht⟩
    · exact absurd ((led hs).eq_of_begins (led' ht) same'.le fits) other

/-- Without steps back the directory that is led to is not spelled in front of the other one. -/
theorem apart (next : Neighbours l l') (only : w.OnlyLink) (names : ".." ∉ l.base.parts)
    (hs : s ∈ Uri.forms (w.resolve l.sources)) (ht : t ∈ Uri.forms l'.sources) : ¬ s.toList <+: t.toList := by
  intro fits
  have spellable := next.spellable only
  have led := Uri.spells_of_mem_forms spellable.followed spellable.some' hs
  have given := Uri.spells_of_mem_forms (next.symm.spellable only).given (sources_parts_ne_nil l') ht
  have root : l.sources.root = l.base.root := by rw [next.number.sources_eq]
  have root' : l'.sources.root = l.base.root := by rw [next.number'.sources_eq, next.base]
  cases top : l.base.root with
  | here => exact bne_iff_ne.1 next.absolute top
  | slash =>
    have down : ".." ∉ l.sources.parts := by
      rw [next.number.sources_eq, List.mem_append, List.mem_append, List.mem_singleton, List.mem_cons,
        List.mem_singleton, not_or, not_or, not_or]
      exact ⟨⟨names, by decide⟩, (next.number.ne (c := '.') (by decide) (by decide)).symm, by decide⟩
    have same := only.slashes_resolve (root.trans top) down
    exact next.ne only (.inr hs) (.inl ht) (led.eq_of_begins given (next.slashes_sources.trans same.symm).le fits)
  | doubleSlash => exact led.not_prefix_of_roots given rfl (root'.trans top) fits

/-- Is the one directory given with the path that the other one leads to in front? -/
def Crossed (w : World) (l l' : Layout) : Prop :=
  ∃ s ∈ Uri.forms (w.resolve l.sources), ∃ t ∈ Uri.forms l'.sources, s.toList <+: t.toList

theorem not_crossed (next : Neighbours l l') (only : w.OnlyLink) (names : ".." ∉ l.base.parts) : ¬ Crossed w l l' :=
  fun ⟨_, hs, _, ht, fits⟩ => next.apart only names hs ht fits

/-- What stands in the one directory is kept in reports on the other one exactly if the directories do not cross. -/
theorem kept_iff (next : Neighbours l l') (only : w.OnlyLink) {spellings spellings' : List String}
    (known : w.spellings l.sources = .ok spellings) (known' : w.spellings l'.sources = .ok spellings') :
    (∀ s ∈ spellings', ∀ rest, Uri.clean spellings (s ++ rest) = s ++ rest) ↔
      ¬ Crossed w l l' ∧ ¬ Crossed w l' l := by
  have members : ∀ s, s ∈ spellings ↔ s ∈ Uri.forms l.sources ∨ s ∈ Uri.forms (w.resolve l.sources) := by
    intro s
    rw [← (spellings_eq_ok_iff.1 known).2, Uri.mem_spellings_iff]
  have members' : ∀ s, s ∈ spellings' ↔ s ∈ Uri.forms l'.sources ∨ s ∈ Uri.forms (w.resolve l'.sources) := by
    intro s
    rw [← (spellings_eq_ok_iff.1 known').2, Uri.mem_spellings_iff]
  have cleaned := fun {u} => Uri.clean_eq_self_iff (u := u) (World.spellings_ne_empty known)
  constructor
  · intro kept
    refine ⟨fun ⟨s, hs, t, ht, fits⟩ => ?_, fun ⟨s, hs, t, ht, rest, split⟩ => ?_⟩
    · have whole := kept t ((members' t).2 (.inl ht)) ""
      rw [String.append_empty] at whole
      exact cleaned.1 whole s ((members s).2 (.inr hs)) fits
    · refine cleaned.1 (kept s ((members' s).2 (.inr hs)) (String.ofList rest)) t ((members t).2 (.inl ht)) ?_
      rw [String.toList_append, String.toList_ofList, split]
  · rintro ⟨apart, apart'⟩ t ht rest
    refine cleaned.2 fun s hs fits => ?_
    have front : t.toList <+: (t ++ rest).toList := ⟨rest.toList, by rw [String.toList_append]⟩
    -- both stand in front of one URI, so one of them starts with the other
    rcases List.prefix_or_prefix_of_prefix fits front with fits | fits
    · obtain ⟨led, given⟩ := next.within only ((members s).1 hs) ((members' t).1 ht) fits
      exact apart ⟨s, led, t, given, fits⟩
    · obtain ⟨led, given⟩ := next.symm.within only ((members' t).1 ht) ((members s).1 hs) fits
      exact apart' ⟨t, led, s, given, fits⟩

end Neighbours

/-- **Workspaces are isolated.**  Let `a` and `b` be different numbers.  A URI with any spelling of the directory for
source files of `b` in front is kept in reports on `a`, whatever follows, exactly if neither directory is given with the
path that the other one leads to in front; and so it is if both are given without steps back. -/
theorem sources_isolated (only : w.OnlyLink) {base a b : String} (absolute : (Path.ofString base).isAbsolute = true)
    (ha : IsNumber a) (hb : IsNumber b) (other : a ≠ b) :
    let l : Layout := ⟨a, Path.ofString base⟩
    let l' : Layout := ⟨b, Path.ofString base⟩
    ∀ spellings', w.spellings l'.sources = .ok spellings' → ∃ spellings, w.spellings l.sources = .ok spellings ∧
      ((∀ s ∈ spellings', ∀ rest, Uri.clean spellings (s ++ rest) = s ++ rest) ↔
        ¬ Neighbours.Crossed w l l' ∧ ¬ Neighbours.Crossed w l' l) ∧
      (".." ∉ (Path.ofString base).parts →
        ∀ s ∈ spellings', ∀ rest, Uri.clean spellings (s ++ rest) = s ++ rest) := by
  intro l l' spellings' known'
  have next : Neighbours l l' := ⟨rfl, absolute, Path.named_ofString base, ha, hb, other⟩
  have sound : World.flaw? l.sources = none :=
    next.number.flaw?_sources.2 (next.number'.flaw?_sources.1 (spellings_eq_ok_iff.1 known').1)
  have known : w.spellings l.sources = .ok (Uri.spellings l.sources (w.resolve l.sources)) :=
    spellings_eq_ok_iff.2 ⟨sound, rfl⟩
  have isolated := next.kept_iff only known known'
  exact ⟨_, known, isolated, fun names => isolated.2 ⟨next.not_crossed only names, next.symm.not_crossed only names⟩⟩

/-- The number of one workspace starts with that of the other, and both are reached by the link. -/
theorem sources_isolated_longer :
    let l : Layout := ⟨"1", Path.ofString "/lspo-world/link"⟩
    let l' : Layout := ⟨"12", Path.ofString "/lspo-world/link"⟩
    let spellings' := ["file:///lspo-world/link/lspresso-shot/12/src/", "file:///lspo-world/real/lspresso-shot/12/src/"]
    World.linked.OnlyLink ∧ l.base.isAbsolute = true ∧ IsNumber l.testId ∧ IsNumber l'.testId ∧ l.testId ≠ l'.testId ∧
      World.linked.spellings l'.sources = .ok spellings' ∧ ".." ∉ (Path.ofString "/lspo-world/link").parts ∧
      ∃ spellings, World.linked.spellings l.sources = .ok spellings ∧
        ∀ s ∈ spellings', Uri.clean spellings (s ++ "main.rs") = s ++ "main.rs" := by
  intro l l' spellings'
  have absolute : l.base.isAbsolute = true := by decide
  have ha : IsNumber "1" := ⟨by decide, List.all_eq_true.1 rfl⟩
  have hb : IsNumber "12" := ⟨by decide, List.all_eq_true.1 rfl⟩
  have given : l'.sources = ⟨.slash, ["lspo-world", "link", "lspresso-shot", "12", "src"]⟩ := by decide
  have known' : World.linked.spellings l'.sources = .ok spellings' := by
    rw [given, World.spellings_eq (q := ⟨.slash, ["lspo-world", "real", "lspresso-shot", "12", "src"]⟩)
      (s := "/lspo-world/link/lspresso-shot/12/src") (t := "/lspo-world/real/lspresso-shot/12/src")
      rfl (by decide) (by decide) (by decide) rfl rfl]
    rfl
  have names : ".." ∉ (Path.ofString "/lspo-world/link").parts := by decide
  obtain ⟨spellings, known, -, kept⟩ := sources_isolated World.onlyLink_linked absolute ha hb (by decide) spellings' known'
  exact ⟨World.onlyLink_linked, absolute, ha, hb, by decide, known', names, spellings, known,
    fun s hs => kept names s hs "main.rs"⟩

/-- Steps back from a directory for source files lead to the directory of both: what stands in the other one is taken for
a file below the first. -/
theorem sources_crossed :
    let base := "/lspo-world/tmp/lspresso-shot/1/src/../../.."
    let l : Layout := ⟨"1", Path.ofString base⟩
    let l' : Layout := ⟨"2", Path.ofString base⟩
    let s := "file:///lspo-world/tmp/lspresso-shot/1/src/../../../lspresso-shot/2/src/"
    World.linked.OnlyLink ∧ l.base.isAbsolute = true ∧ IsNumber l.testId ∧ IsNumber l'.testId ∧ l.testId ≠ l'.testId ∧
      ∃ spellings spellings', World.linked.spellings l.sources = .ok spellings ∧
        World.linked.spellings l'.sources = .ok spellings' ∧ s ∈ spellings' ∧
        Uri.clean spellings (s ++ "main.rs") = "../../../lspresso-shot/2/src/main.rs" ∧
        Uri.clean spellings (s ++ "main.rs") ≠ s ++ "main.rs" := by
  intro base l l' s
  have ha : IsNumber "1" := ⟨by decide, List.all_eq_true.1 rfl⟩
  have hb : IsNumber "2" := ⟨by decide, List.all_eq_true.1 rfl⟩
  have given : l.sources = ⟨.slash, ["lspo-world", "tmp", "lspresso-shot", "1", "src", "..", "..", "..",
    "lspresso-shot", "1", "src"]⟩ := by decide
  have given' : l'.sources = ⟨.slash, ["lspo-world", "tmp", "lspresso-shot", "1", "src", "..", "..", "..",
    "lspresso-shot", "2", "src"]⟩ := by decide
  have known : World.linked.spellings l.sources =
      .ok ["file:///lspo-world/tmp/lspresso-shot/1/src/../../../lspresso-shot/1/src/",
        "file:///lspo-world/tmp/lspresso-shot/1/src/"] := by
    rw [given, World.spellings_eq (q := ⟨.slash, ["lspo-world", "tmp", "lspresso-shot", "1", "src"]⟩)
      (s := "/lspo-world/tmp/lspresso-shot/1/src/../../../lspresso-shot/1/src")
      (t := "/lspo-world/tmp/lspresso-shot/1/src") rfl (by decide) (by decide) (by decide) rfl rfl]
    rfl
  have known' : World.linked.spellings l'.sources = .ok [s, "file:///lspo-world/tmp/lspresso-shot/2/src/"] := by
    rw [given', World.spellings_eq (q := ⟨.slash, ["lspo-world", "tmp", "lspresso-shot", "2", "src"]⟩)
      (s := "/lspo-world/tmp/lspresso-shot/1/src/../../../lspresso-shot/2/src")
      (t := "/lspo-world/tmp/lspresso-shot/2/src") rfl (by decide) (by decide) (by decide) rfl rfl]
    rfl
  have whole : s ++ "main.rs" = "file:///lspo-world/tmp/lspresso-shot/1/src/../../../lspresso-shot/2/src/main.rs" := by
    decide
  have taken : Uri.clean ["file:///lspo-world/tmp/lspresso-shot/1/src/../../../lspresso-shot/1/src/",
      "file:///lspo-world/tmp/lspresso-shot/1/src/"] (s ++ "main.rs") = "../../../lspresso-shot/2/src/main.rs" := by
    rw [whole]
    exact (Uri.clean_ofList [_, _] _).trans rfl
  refine ⟨World.onlyLink_linked, by decide, ha, hb, by decide, _, _, known, known', List.mem_cons_self, taken, ?_⟩
  rw [taken, whole]
  decide

end Layout

end ServerTrial
