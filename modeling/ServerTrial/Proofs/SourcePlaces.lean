import ServerTrial.Proofs.PathText

/-!
# Where source files go

A text names a source file by its pieces between slashes, and is resolved without a look at the tree.

* `Path.resolved top pieces`: where pieces of a text lead from a place;
* `Path.normalize_join`: joining and normalizing resolves the text from the normalized directory;
* `Layout.Misplaced`: the texts that name no source file; `Layout.source_exact`: all others, and no more, are given a
  place of their own below the directory for source files.
-/

namespace ServerTrial

open World (Below along along_append along_names)

/-! ### Resolving a text -/

namespace Path

/-- Where pieces of a text lead from a place: empty ones and single dots stay there, two dots go up. -/
def resolved (top : List String) : List String → List String
  | [] => top
  | piece :: rest =>
    if piece = "" ∨ piece = "." then resolved top rest
    else if piece = ".." then resolved top.dropLast rest
    else resolved (top ++ [piece]) rest

theorem resolved_eq_along (top pieces : List String) :
    resolved top pieces = along top (pieces.filter fun p => p != "" && p != ".") := by
  induction pieces generalizing top with
  | nil => rfl
  | cons piece rest ih =>
    rw [resolved, List.filter_cons]
    split
    · next dropped =>
      rw [ih, if_neg]
      rw [Bool.and_eq_true, bne_iff_ne, bne_iff_ne, not_and_or, not_not, not_not]
      exact dropped
    · next kept =>
      rw [not_or] at kept
      have stays : (piece != "" && piece != ".") = true := by
        rw [Bool.and_eq_true, bne_iff_ne, bne_iff_ne]
        exact kept
      rw [if_pos stays, along]
      split <;> exact ih _

theorem resolved_splitText (top : List String) (text : String) :
    resolved top (splitText '/' text) = along top (ofString text).parts := resolved_eq_along top _

/-! ### Normalized paths -/

theorem foldl_stepLexically_names {rooted : Bool} {parts : List String} (names : ".." ∉ parts) (done : List String) :
    parts.foldl (stepLexically rooted) done = done ++ parts := by
  induction parts generalizing done with
  | nil => exact (List.append_nil done).symm
  | cons c rest ih =>
    rw [List.mem_cons, not_or] at names
    rw [List.foldl_cons, stepLexically, if_neg (Ne.symm names.1), ih names.2, List.append_assoc, List.singleton_append]

/-- A path without steps back is as it should be. -/
theorem normalize_of_names {p : Path} (names : ".." ∉ p.parts) : p.normalize = p := by
  rw [normalize, foldl_stepLexically_names names, List.nil_append]

theorem not_mem_foldl_rooted (parts : List String) {done : List String} (names : ".." ∉ done) :
    ".." ∉ parts.foldl (stepLexically true) done := by
  induction parts generalizing done with
  | nil => exact names
  | cons part rest ih =>
    refine ih ?_
    unfold stepLexically
    split
    · split
      · exact List.not_mem_nil
      · next last found =>
        have inside : last ∈ done := List.mem_of_getLast? found
        rw [if_neg fun up : last = ".." => names (up ▸ inside)]
        exact fun back => names (List.dropLast_subset done back)
    · next name =>
      rw [List.mem_append, List.mem_singleton, not_or]
      exact ⟨names, Ne.symm name⟩

/-- From the top every step back is taken. -/
theorem names_normalize {p : Path} (absolute : p.isAbsolute = true) : ".." ∉ p.normalize.parts := by
  rw [normalize, absolute]
  exact not_mem_foldl_rooted p.parts List.not_mem_nil

theorem normalize_eq_along {p : Path} (absolute : p.isAbsolute = true) : p.normalize.parts = along [] p.parts := by
  rw [← along_normalize p fun _ => rfl, along_names (names_normalize absolute), List.nil_append]

/-- **Joining and normalizing resolves the text from the normalized directory.** -/
theorem normalize_join {p : Path} (absolute : p.isAbsolute = true) {text : String}
    (relative : (ofString text).isAbsolute = false) :
    (p.normalize.join (ofString text)).normalize = ⟨p.root, resolved p.normalize.parts (splitText '/' text)⟩ := by
  have joined : p.normalize.join (ofString text) = ⟨p.root, p.normalize.parts ++ (ofString text).parts⟩ := by
    rw [join, if_neg (by rw [relative]; exact Bool.false_ne_true)]
    rfl
  have parts : (p.normalize.join (ofString text)).normalize.parts = along p.normalize.parts (ofString text).parts := by
    have rooted : Path.isAbsolute ⟨p.root, p.normalize.parts ++ (ofString text).parts⟩ = true := absolute
    rw [joined, normalize_eq_along rooted, along_append, along_names (names_normalize absolute), List.nil_append]
  rw [resolved_splitText, ← parts, joined]
  rfl

theorem proper_along {top parts : List String} (proper : Proper top) (proper' : Proper parts) :
    Proper (along top parts) := by
  induction parts generalizing top with
  | nil => exact proper
  | cons c rest ih =>
    have later : Proper rest := proper'.sublist (List.subset_cons_self c rest)
    have first : Proper [c] := proper'.sublist (List.cons_subset.2 ⟨List.mem_cons_self, List.nil_subset _⟩)
    rw [along]
    split
    · exact ih (proper.sublist (List.dropLast_subset top)) later
    · exact ih (proper.append first) later

theorem names_along {top parts : List String} (names : ".." ∉ top) : ".." ∉ along top parts := by
  induction parts generalizing top with
  | nil => exact names
  | cons c rest ih =>
    rw [along]
    split
    · exact ih fun back => names (List.dropLast_subset top back)
    · next name =>
      refine ih ?_
      rw [List.mem_append, List.mem_singleton, not_or]
      exact ⟨names, Ne.symm name⟩

end Path

/-! ### Source files -/

namespace Layout

variable {l : Layout} {relative : String}

/-- Where a text leads from the directory for source files. -/
def place (l : Layout) (relative : String) : List String :=
  Path.resolved l.sources.normalize.parts (splitText '/' relative)

/-- The text is empty or absolute, or it leads to the directory for source files itself or out of it. -/
def Misplaced (l : Layout) (relative : String) : Prop :=
  relative = "" ∨ relative.toList.head? = some '/' ∨ ¬ Below l.sources.normalize.parts (l.place relative)

/-- The files of the workspace that are no source files. -/
def reserved (l : Layout) : List Path := l.script :: Marker.all.map l.marker

theorem normalize_sources (l : Layout) : l.sources.normalize = ⟨l.root.root, l.root.normalize.parts ++ ["src"]⟩ :=
  l.root.normalize_child (by decide) (by decide) (by decide) (by decide)

/-- A text either names a source file or is refused. -/
theorem source_eq (absolute : l.root.isAbsolute = true) (relative : String) :
    l.Misplaced relative ∧ l.source relative = .error (.invalidPath relative) ∨
      ¬ l.Misplaced relative ∧ l.source relative = .ok ⟨l.root.root, l.place relative⟩ := by
  have rooted : l.sources.isAbsolute = true := Path.isAbsolute_child absolute _
  have root : l.sources.root = l.root.root := by rw [l.sources_eq_root]
  unfold source Misplaced
  dsimp only
  split
  · next refused =>
    rw [Bool.or_eq_true, String.isEmpty_iff, Path.isAbsolute_ofString] at refused
    exact .inl ⟨refused.imp_right .inl, rfl⟩
  · next taken =>
    rw [Bool.or_eq_true, String.isEmpty_iff, Path.isAbsolute_ofString, not_or] at taken
    have down : (Path.ofString relative).isAbsolute = false := by
      rw [← Bool.not_eq_true, Path.isAbsolute_ofString]
      exact taken.2
    rw [Path.normalize_join rooted down, root]
    have above : l.sources.normalize.isAbove ⟨l.root.root, l.place relative⟩ = true ↔
        Below l.sources.normalize.parts (l.place relative) := by
      rw [isAbove_iff]
      exact and_iff_right root
    split
    · next below =>
      refine .inr ⟨?_, rfl⟩
      rintro (empty | slash | outside)
      · exact taken.1 empty
      · exact taken.2 slash
      · exact outside (above.1 below)
    · next outside => exact .inl ⟨.inr (.inr fun below => outside (above.2 below)), rfl⟩

theorem source_eq_error_iff (absolute : l.root.isAbsolute = true) :
    l.source relative = .error (.invalidPath relative) ↔ l.Misplaced relative := by
  rcases source_eq absolute relative with ⟨misplaced, refused⟩ | ⟨placed, taken⟩
  · exact iff_of_true refused misplaced
  · exact iff_of_false (by rw [taken]; exact nofun) placed

theorem source_eq_ok_iff (absolute : l.root.isAbsolute = true) {p : Path} :
    l.source relative = .ok p ↔ ¬ l.Misplaced relative ∧ p = ⟨l.root.root, l.place relative⟩ := by
  rcases source_eq absolute relative with ⟨misplaced, refused⟩ | ⟨placed, taken⟩
  · exact iff_of_false (by rw [refused]; exact nofun) fun placed => placed.1 misplaced
  · rw [taken, Except.ok.injEq, eq_comm]
    exact (and_iff_right placed).symm

theorem below_of_placed (placed : ¬ l.Misplaced relative) : Below l.sources.normalize.parts (l.place relative) :=
  Classical.not_not.1 fun outside => placed (.inr (.inr outside))

/-- The path of a source file is in normal form. -/
theorem normal_source {p : Path} (placed : l.source relative = .ok p) : Path.Normal p.parts := by
  unfold source at placed
  dsimp only at placed
  split at placed
  · cases placed
  · split at placed
    · cases placed
      exact Path.normal_normalize _
    · cases placed

/-- A text without steps back names the file that its components lead to. -/
theorem source_of_names (absolute : l.root.isAbsolute = true) {names : List String}
    (text : Path.ofString relative = ⟨.here, names⟩) (down : ".." ∉ names) (some' : names ≠ []) :
    l.source relative = .ok ⟨l.sources.normalize.root, l.sources.normalize.parts ++ names⟩ := by
  have place : l.place relative = l.sources.normalize.parts ++ names := by
    rw [Layout.place, Path.resolved_splitText, text, World.along_names down]
  refine (source_eq_ok_iff absolute).2 ⟨?_, by rw [place, normalize_sources]⟩
  rintro (rfl | slash | outside)
  · exact some' (congrArg Path.parts text).symm
  · have absolute := (Path.isAbsolute_ofString relative).2 slash
    rw [text] at absolute
    exact Bool.false_ne_true absolute
  · exact outside ⟨names, some', place⟩

/-- No source file is a reserved one, or goes below one. -/
theorem not_prefix_of_reserved {q : Path} (hq : q ∈ l.reserved) {p : Path} (names : ".." ∉ p.parts)
    (below : Below l.sources.normalize.parts p.parts) :
    ¬ q.parts <+: p.parts ∧ ¬ q.normalize.parts <+: p.parts := by
  obtain ⟨name, other, parts⟩ : ∃ name, name ≠ "src" ∧ q.normalize.parts = l.root.normalize.parts ++ [name] := by
    rcases List.mem_cons.1 hq with rfl | hq
    · exact ⟨"init.lua", by decide, congrArg Path.parts
        (l.root.normalize_child (by decide) (by decide) (by decide) (by decide))⟩
    · obtain ⟨m, -, rfl⟩ := List.mem_map.1 hq
      refine ⟨m.fileName, ?_, ?_⟩
      · cases m <;> decide
      · cases m <;>
        exact congrArg Path.parts (l.root.normalize_child (by decide) (by decide) (by decide) (by decide))
  obtain ⟨rest, -, split⟩ := below
  rw [normalize_sources, List.append_assoc, List.singleton_append] at split
  have apart : ¬ q.normalize.parts <+: p.parts := by
    rw [parts, split, List.prefix_append_right_inj, List.cons_prefix_cons]
    exact fun same => other same.1
  refine ⟨fun fits => apart ?_, apart⟩
  rwa [Path.normalize_of_names fun back => names (fits.subset back)]

/-- **Source files are confined.**  A text is refused exactly if it is empty or absolute, or leads to the directory for
source files or out of it.  Any other text is given the place that it leads to, a path in normal form below that
directory, which is and goes below neither the script nor a marker.  Two texts are given one path exactly if they lead to
one place. -/
theorem source_exact (testId : String) {base : String} (absolute : (Path.ofString base).isAbsolute = true) :
    let l : Layout := ⟨testId, Path.ofString base⟩
    (∀ relative, l.source relative = .error (.invalidPath relative) ↔ l.Misplaced relative) ∧
    (∀ relative, ¬ l.Misplaced relative → l.source relative = .ok ⟨l.root.root, l.place relative⟩) ∧
    (∀ relative p, l.source relative = .ok p →
      p.normalize = p ∧ ".." ∉ p.parts ∧ Path.Proper p.parts ∧ l.sources.normalize.isAbove p = true ∧
        ∀ q ∈ l.reserved, ¬ q.parts <+: p.parts ∧ ¬ q.normalize.parts <+: p.parts) ∧
    ∀ relative relative' p p', l.source relative = .ok p → l.source relative' = .ok p' →
      (p = p' ↔ l.place relative = l.place relative') := by
  intro l
  have rooted : l.root.isAbsolute = true := isAbsolute_root absolute
  have sources : l.sources.isAbsolute = true := Path.isAbsolute_child rooted _
  have top : ".." ∉ l.sources.normalize.parts := Path.names_normalize sources
  have proper : Path.Proper l.sources.normalize.parts := by
    have given : Path.Proper l.sources.parts :=
      Path.proper_child (Path.proper_child (Path.proper_child (Path.proper_ofString base) _) _) _
    rw [Path.normalize_eq_along sources]
    exact Path.proper_along ⟨List.forall_mem_nil _, List.not_mem_nil⟩ given
  refine ⟨fun relative => source_eq_error_iff rooted,
    fun relative placed => (source_eq_ok_iff rooted).2 ⟨placed, rfl⟩, fun relative p taken => ?_,
    fun relative relative' p p' taken taken' => ?_⟩
  · obtain ⟨placed, rfl⟩ := (source_eq_ok_iff rooted).1 taken
    have below := below_of_placed placed
    have names : ".." ∉ l.place relative := by
      rw [place, Path.resolved_splitText]
      exact Path.names_along top
    refine ⟨Path.normalize_of_names names, names, ?_, ?_, fun q hq => not_prefix_of_reserved hq names below⟩
    · rw [place, Path.resolved_splitText]
      exact Path.proper_along proper (Path.proper_ofString relative)
    · rw [isAbove_iff, normalize_sources]
      rw [normalize_sources] at below
      exact ⟨rfl, below⟩
  · obtain ⟨-, rfl⟩ := (source_eq_ok_iff rooted).1 taken
    obtain ⟨-, rfl⟩ := (source_eq_ok_iff rooted).1 taken'
    rw [Path.mk.injEq]
    exact and_iff_right rfl

/-- A text that leaves the directory for source files and comes back to it. -/
theorem source_exact_back :
    let l : Layout := ⟨"7", Path.ofString "/t/../u"⟩
    let relative := "a/../../src/b//./c.rs"
    (Path.ofString "/t/../u").isAbsolute = true ∧ ¬ l.Misplaced relative ∧
      l.source relative = .ok ⟨.slash, ["u", "lspresso-shot", "7", "src", "b", "c.rs"]⟩ ∧
      l.source "../src" = .error (.invalidPath "../src") := by
  intro l relative
  have absolute : (Path.ofString "/t/../u").isAbsolute = true := by decide
  have sources : l.sources.normalize.parts = ["u", "lspresso-shot", "7", "src"] := by decide
  have place : l.place relative = ["u", "lspresso-shot", "7", "src", "b", "c.rs"] := by decide
  have place' : l.place "../src" = ["u", "lspresso-shot", "7", "src"] := by decide
  have placed : ¬ l.Misplaced relative := by
    rintro (empty | slash | outside)
    · exact absurd empty (by decide)
    · exact absurd slash (by decide)
    · exact outside ⟨["b", "c.rs"], by decide, by rw [place, sources]; rfl⟩
  have misplaced : l.Misplaced "../src" := by
    refine .inr (.inr ?_)
    rintro ⟨rest, some', parts⟩
    rw [place', sources] at parts
    exact some' (List.append_cancel_left (parts.symm.trans (List.append_nil _).symm))
  obtain ⟨refused, taken, -⟩ := source_exact "7" absolute
  refine ⟨absolute, placed, ?_, (refused "../src").2 misplaced⟩
  rw [taken relative placed, place]
  rfl

end Layout

end ServerTrial
