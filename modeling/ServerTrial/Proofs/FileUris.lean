import ServerTrial.Proofs.Isolation
import ServerTrial.Proofs.SourcePlaces

/-!
# URIs of source files

The URI of a source file is a spelling of the directory for source files with the path of the file behind it, both
written in one way.  The spelling is taken off, and what stands behind it stays as it is written.

* `Uri.encode_eq_self_iff`: the texts that are written as they are;
* `Uri.clean_given`: a spelling of a directory as it is given is taken off, wherever the directory leads to;
* `Layout.source_uris`: which URIs of source files come back as the texts that name the files.
-/

namespace ServerTrial

open ServerTrial.Path (Named Proper)

namespace Uri

/-! ### Texts that are written as they are -/

theorem lt_of_isPlain {n : Nat} (plain : isPlain n = true) : n < 0x80 := by
  simp only [isPlain, Bool.or_eq_true, Bool.and_eq_true, decide_eq_true_eq, beq_iff_eq] at plain
  omega

theorem encodeChar_of_isPlain {c : Char} (plain : isPlain c.toNat = true) : encodeChar c = [c] := by
  have units : Utf8.unitsOf c = [c.toNat] := by
    have := lt_of_isPlain plain
    rw [Utf8.unitsOf, if_pos (by omega)]
  rw [encodeChar, units, List.flatMap_singleton, encodeUnit, if_pos plain, Char.ofNat_toNat]

/-- The first byte of a character that is not written as it is, is encoded. -/
theorem encodeChar_of_not_isPlain {c : Char} (other : ¬ isPlain c.toNat = true) :
    ∃ x y rest, encodeChar c = '%' :: x :: y :: rest := by
  obtain ⟨n, more, units, encoded⟩ : ∃ n more, Utf8.unitsOf c = n :: more ∧ ¬ isPlain n = true := by
    unfold Utf8.unitsOf
    dsimp only
    split
    · exact ⟨_, _, rfl, other⟩
    · split
      · exact ⟨_, _, rfl, fun plain => by have := lt_of_isPlain plain; omega⟩
      · split
        · exact ⟨_, _, rfl, fun plain => by have := lt_of_isPlain plain; omega⟩
        · exact ⟨_, _, rfl, fun plain => by have := lt_of_isPlain plain; omega⟩
  exact ⟨_, _, _, by rw [encodeChar, units, List.flatMap_cons, encodeUnit, if_neg encoded]; rfl⟩

theorem length_le_flatMap_encodeChar (cs : List Char) : cs.length ≤ (cs.flatMap encodeChar).length := by
  induction cs with
  | nil => exact Nat.le_refl _
  | cons c cs ih =>
    have some' := List.length_pos_iff.2 (writing_encodeChar.some' c)
    rw [List.flatMap_cons, List.length_append, List.length_cons]
    omega

/-- **The texts that are their own encoding.** -/
theorem encode_eq_self_iff {s : String} : encode s = s ↔ ∀ c ∈ s.toList, isPlain c.toNat = true := by
  rw [← String.toList_inj, toList_encode]
  generalize s.toList = cs
  induction cs with
  | nil => simp
  | cons c cs ih =>
    rw [List.flatMap_cons, List.forall_mem_cons]
    by_cases plain : isPlain c.toNat = true
    · rw [encodeChar_of_isPlain plain, List.singleton_append, List.cons.injEq, ih]
      exact and_congr_left' (iff_of_true rfl plain)
    · refine iff_of_false (fun same => ?_) fun all => plain all.1
      -- the encoding is longer
      obtain ⟨x, y, rest, encoded⟩ := encodeChar_of_not_isPlain plain
      have longer := length_le_flatMap_encodeChar cs
      have lengths := congrArg List.length same
      simp only [encoded, List.length_append, List.length_cons] at lengths
      omega

/-- What is encoded to a text without percent signs is that text. -/
theorem eq_of_encode_eq {s t : String} (encoded : encode s = t) (clear : '%' ∉ t.toList) : s = t := by
  rw [← encoded, eq_comm, encode_eq_self_iff]
  intro c hc
  by_contra other
  obtain ⟨x, y, rest, first⟩ := encodeChar_of_not_isPlain other
  refine clear ?_
  rw [← encoded, toList_encode]
  exact List.mem_flatMap.2 ⟨c, hc, first ▸ List.mem_cons_self⟩

theorem proper_map_encode {names : List String} (proper : Proper names) : Proper (names.map encode) := by
  refine ⟨fun d hd => ?_, fun dot => ?_⟩
  · obtain ⟨c, hc, rfl⟩ := List.mem_map.1 hd
    obtain ⟨full, plain⟩ := proper.named c hc
    refine ⟨fun empty => full (eq_of_encode_eq empty (by decide)), ?_⟩
    rw [toList_encode]
    exact List.count_eq_zero.1 (count_flatMap_write writing_encodeChar plain)
  · obtain ⟨c, hc, encoded⟩ := List.mem_map.1 dot
    exact proper.dotless (eq_of_encode_eq encoded (by decide) ▸ hc)

/-! ### Files below a directory -/

section Below

variable {write : Char → List Char} {names : List String}

theorem toString_of_names (some' : names ≠ []) : (Path.mk .here names).toString = "/".intercalate names := by
  rw [Path.toString, if_neg fun none => some' none.2]
  exact String.empty_append

theorem intercalate_slash (some' : names ≠ []) :
    ("/".intercalate names).toList ++ ['/'] = names.flatMap fun c => c.toList ++ ['/'] := by
  rw [← toString_of_names some']
  exact toList_toString_slash (p := ⟨.here, names⟩) some'

theorem encode_intercalate (some' : names ≠ []) :
    encode ("/".intercalate names) = "/".intercalate (names.map encode) := by
  have some'' : names.map encode ≠ [] := by rwa [ne_eq, List.map_eq_nil_iff]
  have slash : ['/'].flatMap encodeChar = ['/'] := by rw [List.flatMap_singleton, writing_encodeChar.slash]
  have closed : (encode ("/".intercalate names)).toList ++ ['/'] =
      ("/".intercalate (names.map encode)).toList ++ ['/'] := by
    conv_lhs => rw [toList_encode, ← slash, ← List.flatMap_append, intercalate_slash some', List.flatMap_assoc]
    rw [intercalate_slash some'', List.flatMap_map]
    refine List.flatMap_congr fun c _ => ?_
    rw [List.flatMap_append, slash, toList_encode]
  exact String.toList_injective (List.append_cancel_right closed)

/-- A file is written behind a spelling of the directory that it is below. -/
theorem written_below (writing : Writing write) {p : Path} (below : p.parts ≠ []) (some' : names ≠ []) :
    scheme ++ (Path.mk p.root (p.parts ++ names)).toString.toList.flatMap write =
      spelled write p ++ ("/".intercalate names).toList.flatMap write := by
  have closed := toList_toString_slash (p := ⟨p.root, p.parts ++ names⟩) (List.append_ne_nil_of_left_ne_nil below _)
  dsimp only at closed
  rw [List.flatMap_append, ← intercalate_slash some', ← List.append_assoc, ← List.append_assoc] at closed
  rw [List.append_cancel_right closed, List.flatMap_append, flatMap_front writing, ← List.append_assoc]
  rfl

end Below

/-! ### Spellings as given -/

theorem distinct_append (xs ys : List String) : ∃ zs, distinct (xs ++ ys) = distinct xs ++ zs := by
  have run : ∀ done : List String, ∃ zs,
      ys.foldl (fun acc y => if acc.contains y then acc else acc ++ [y]) done = done ++ zs := by
    induction ys with
    | nil => exact fun done => ⟨[], (List.append_nil done).symm⟩
    | cons y ys ih =>
      intro done
      rw [List.foldl_cons]
      split
      · exact ih done
      · obtain ⟨zs, more⟩ := ih (done ++ [y])
        exact ⟨y :: zs, by rw [more, List.append_assoc, List.singleton_append]⟩
  rw [distinct, List.foldl_append]
  exact run _

/-- **A spelling of the directory as it is given is taken off**, for both of these stand in front. -/
theorem clean_given {p q : Path} (named : Named p.parts) (some' : p.parts ≠ []) {s : String} (hs : s ∈ forms p)
    (rest : String) : clean (spellings p q) (s ++ rest) = rest := by
  have own : s.toList <+: (s ++ rest).toList := ⟨rest.toList, by rw [String.toList_append]⟩
  obtain ⟨more, order⟩ : ∃ zs, spellings p q = distinct (forms p) ++ zs := distinct_append (forms p) (forms q)
  obtain ⟨t, found⟩ : ∃ t, (distinct (forms p)).find? (fun t => t.toList.isPrefixOf (s ++ rest).toList) = some t :=
    Option.isSome_iff_exists.1 (List.find?_isSome.2 ⟨s, mem_distinct hs, List.isPrefixOf_iff_prefix.2 own⟩)
  have first : (spellings p q).find? (fun t => t.toList.isPrefixOf (s ++ rest).toList) = some t := by
    rw [order, List.find?_append, found, Option.some_or]
  have ht : t ∈ forms p := mem_of_mem_distinct (List.mem_of_find?_eq_some found)
  have fits : t.toList <+: (s ++ rest).toList :=
    List.isPrefixOf_iff_prefix.1 (List.find?_some (p := fun t : String => t.toList.isPrefixOf _) found)
  have spells := spells_of_mem_forms named some' hs
  have spells' := spells_of_mem_forms named some' ht
  -- two spellings of one directory have equally many slashes, so neither is a proper beginning of the other
  have same : t = s := by
    rcases List.prefix_or_prefix_of_prefix fits own with shorter | longer
    · exact spells'.eq_of_begins spells (Nat.le_refl _) shorter
    · exact (spells.eq_of_begins spells' (Nat.le_refl _) longer).symm
  have split := congrArg String.toList (eq_append_clean first)
  rw [same, String.toList_append, String.toList_append] at split
  exact (String.toList_injective (List.append_cancel_left split)).symm

/-- What is kept of the URI of a file below a directory: the path below it, as it is written. -/
theorem clean_below {p q : Path} (named : Named p.parts) (some' : p.parts ≠ []) {names : List String}
    (below : names ≠ []) :
    clean (spellings p q) (rawOfPath ⟨p.root, p.parts ++ names⟩) = "/".intercalate names ∧
      clean (spellings p q) (ofPath ⟨p.root, p.parts ++ names⟩) = encode ("/".intercalate names) := by
  constructor
  · have given := toList_endSlash_eq_spelled writing_single named some' (s := rawOfPath p) (by
      rw [rawOfPath, String.toList_append, List.flatMap_singleton', toList_scheme])
    have split : rawOfPath ⟨p.root, p.parts ++ names⟩ = endSlash (rawOfPath p) ++ "/".intercalate names := by
      refine String.toList_injective ?_
      have written := written_below writing_single some' below
      rw [List.flatMap_singleton', List.flatMap_singleton', ← given] at written
      rwa [rawOfPath, String.toList_append, String.toList_append, toList_scheme]
    rw [split]
    exact clean_given named some' (List.mem_cons_of_mem _ (List.mem_singleton_self _)) _
  · have given := toList_endSlash_eq_spelled writing_encodeChar named some' (s := ofPath p) (by
      rw [ofPath, String.toList_append, toList_encode, toList_scheme])
    have split : ofPath ⟨p.root, p.parts ++ names⟩ = endSlash (ofPath p) ++ encode ("/".intercalate names) := by
      refine String.toList_injective ?_
      have written := written_below writing_encodeChar some' below
      rw [← given] at written
      rwa [ofPath, String.toList_append, String.toList_append, toList_encode, toList_encode, toList_scheme]
    rw [split]
    exact clean_given named some' List.mem_cons_self _

end Uri

/-! ### Source files -/

namespace Layout

variable {l : Layout} {relative : String} {p : Path}

/-- A source file is named from the directory for source files, by the text itself unless that steps back. -/
theorem source_names (absolute : l.root.isAbsolute = true) (normal : ".." ∉ l.sources.parts)
    (proper : Proper l.sources.parts) (placed : l.source relative = .ok p) :
    ∃ names, names ≠ [] ∧ ".." ∉ names ∧ Proper names ∧ p = ⟨l.sources.root, l.sources.parts ++ names⟩ ∧
      (".." ∉ (Path.ofString relative).parts → Path.ofString relative = ⟨.here, names⟩) := by
  obtain ⟨inside, rfl⟩ := (source_eq_ok_iff absolute).1 placed
  obtain ⟨names, some', place⟩ := below_of_placed inside
  rw [Path.normalize_of_names normal] at place
  have along' : World.along l.sources.parts (Path.ofString relative).parts = l.sources.parts ++ names := by
    rw [← Path.resolved_splitText, ← place, Layout.place, Path.normalize_of_names normal]
  have down : ".." ∉ l.sources.parts ++ names := along' ▸ Path.names_along normal
  have proper' : Proper (l.sources.parts ++ names) := along' ▸ Path.proper_along proper (Path.proper_ofString relative)
  refine ⟨names, some', fun back => down (List.mem_append_right _ back),
    proper'.sublist (List.subset_append_right _ _), by rw [place, sources_eq_root], fun straight => ?_⟩
  rw [World.along_names straight, List.append_cancel_left_eq] at along'
  have root : (Path.ofString relative).root = .here := by
    by_contra other
    exact inside (.inr (.inl ((Path.isAbsolute_ofString relative).1 (bne_iff_ne.2 other))))
  rw [← along', ← root]

/-- **URIs of source files.**  There are spellings of the directory for source files unless the base has a flaw.  Of the
URI of a source file its path from that directory is kept, percent-encoded as it was.  So a file comes back as the text
in normal form that names it if the text does not step out of the directory first, and if moreover all its characters are
written as they are, in case they are percent-encoded. -/
theorem source_uris (w : World) {testId base : String} (number : IsNumber testId)
    (absolute : (Path.ofString base).isAbsolute = true)
    (normal : (Path.ofString base).normalize = Path.ofString base) :
    let l : Layout := ⟨testId, Path.ofString base⟩
    ((∃ spellings, w.spellings l.sources = .ok spellings) ↔ World.flaw? l.base = none) ∧
    ∀ spellings, w.spellings l.sources = .ok spellings → ∀ relative p,
      (Path.ofString relative).normalize.toString = relative → l.source relative = .ok p →
        (∃ names, names ≠ [] ∧ ".." ∉ names ∧ p = ⟨l.sources.root, l.sources.parts ++ names⟩ ∧
          Uri.clean spellings (Uri.rawOfPath p) = "/".intercalate names ∧
          Uri.clean spellings (Uri.ofPath p) = Uri.encode ("/".intercalate names)) ∧
        (Uri.clean spellings (Uri.rawOfPath p) = relative ↔ ".." ∉ (Path.ofString relative).parts) ∧
        (Uri.clean spellings (Uri.ofPath p) = relative ↔
          ".." ∉ (Path.ofString relative).parts ∧ ∀ c ∈ relative.toList, Uri.isPlain c.toNat = true) := by
  intro l
  have straight : ".." ∉ l.sources.parts := by
    have names := Path.names_normalize absolute
    rw [normal] at names
    rw [IsNumber.sources_eq (l := l) number]
    simp only [List.mem_append, List.mem_cons, List.not_mem_nil, or_false, not_or]
    exact ⟨⟨names, by decide⟩, Ne.symm (number.ne (c := '.') (by decide) (by decide)), by decide⟩
  have proper : Proper l.sources.parts :=
    Path.proper_child (Path.proper_child (Path.proper_child (Path.proper_ofString base) _) _) _
  refine ⟨?_, fun spellings known relative p form placed => ?_⟩
  · rw [← IsNumber.flaw?_sources (l := l) number]
    exact ⟨fun ⟨spellings, known⟩ => (spellings_eq_ok_iff.1 known).1,
      fun sound => ⟨_, spellings_eq_ok_iff.2 ⟨sound, rfl⟩⟩⟩
  obtain ⟨names, some', down, own, rfl, same⟩ := source_names (isAbsolute_root absolute) straight proper placed
  obtain ⟨-, rfl⟩ := spellings_eq_ok_iff.1 known
  obtain ⟨raw, encoded⟩ := Uri.clean_below (q := w.resolve l.sources) proper.named (sources_parts_ne_nil l) some'
  have text : ".." ∉ (Path.ofString relative).parts → "/".intercalate names = relative := fun up => by
    rw [Path.normalize_of_names up, same up, Uri.toString_of_names some'] at form
    exact form
  refine ⟨⟨names, some', down, rfl, raw, encoded⟩, ?_, ?_⟩
  · rw [raw]
    refine ⟨fun back => ?_, text⟩
    rwa [← back, ← Uri.toString_of_names some', Path.ofString_toString own]
  · rw [encoded]
    constructor
    · intro back
      have up : ".." ∉ (Path.ofString relative).parts := by
        have some'' : names.map Uri.encode ≠ [] := by rwa [ne_eq, List.map_eq_nil_iff]
        rw [← back, Uri.encode_intercalate some', ← Uri.toString_of_names some'',
          Path.ofString_toString (p := ⟨.here, names.map Uri.encode⟩) (Uri.proper_map_encode own)]
        intro inside
        obtain ⟨c, hc, dots⟩ := List.mem_map.1 inside
        exact down (Uri.eq_of_encode_eq dots (by decide) ▸ hc)
      rw [text up] at back
      exact ⟨up, Uri.encode_eq_self_iff.1 back⟩
    · rintro ⟨up, plain⟩
      rw [text up]
      exact Uri.encode_eq_self_iff.2 plain

/-- Both URIs of a file in a directory of its own come back as its path. -/
theorem source_uris_nested :
    let l : Layout := ⟨"1", Path.ofString "/lspo-world/tmp"⟩
    let p : Path := ⟨.slash, ["lspo-world", "tmp", "lspresso-shot", "1", "src", "lib", "main.rs"]⟩
    IsNumber "1" ∧ l.base.isAbsolute = true ∧ l.base.normalize = l.base ∧ l.source "lib/main.rs" = .ok p ∧
      ∃ spellings, World.linked.spellings l.sources = .ok spellings ∧
        Uri.clean spellings (Uri.rawOfPath p) = "lib/main.rs" ∧ Uri.clean spellings (Uri.ofPath p) = "lib/main.rs" := by
  intro l p
  have number : IsNumber "1" := ⟨by decide, List.all_eq_true.1 rfl⟩
  have absolute : (Path.ofString "/lspo-world/tmp").isAbsolute = true := by decide
  have normal : (Path.ofString "/lspo-world/tmp").normalize = Path.ofString "/lspo-world/tmp" := by decide
  have rooted : l.root.isAbsolute = true := by decide
  have text : Path.ofString "lib/main.rs" = ⟨.here, ["lib", "main.rs"]⟩ := by decide
  have sources : l.sources.normalize = ⟨.slash, ["lspo-world", "tmp", "lspresso-shot", "1", "src"]⟩ := by decide
  have placed : l.source "lib/main.rs" = .ok p := by
    rw [source_of_names rooted text (by decide) (by decide), sources]
    rfl
  have plain : ∀ c ∈ "lib/main.rs".toList, Uri.isPlain c.toNat = true := List.all_eq_true.1 rfl
  obtain ⟨exist, back⟩ := source_uris World.linked number absolute normal
  obtain ⟨spellings, known⟩ := exist.2 (by decide)
  obtain ⟨-, raw, encoded⟩ := back spellings known "lib/main.rs" p (by decide) placed
  exact ⟨number, absolute, normal, placed, spellings, known, raw.2 (by decide), encoded.2 ⟨by decide, plain⟩⟩

/-- A blank stays encoded, so what comes back names another file. -/
theorem source_uri_blank :
    let l : Layout := ⟨"1", Path.ofString "/lspo-world/tmp"⟩
    let p : Path := ⟨.slash, ["lspo-world", "tmp", "lspresso-shot", "1", "src", "a b.rs"]⟩
    IsNumber "1" ∧ l.base.isAbsolute = true ∧ l.base.normalize = l.base ∧
      (Path.ofString "a b.rs").normalize.toString = "a b.rs" ∧ l.source "a b.rs" = .ok p ∧
      l.source "a%20b.rs" = .ok ⟨.slash, ["lspo-world", "tmp", "lspresso-shot", "1", "src", "a%20b.rs"]⟩ ∧
      ∃ spellings, World.linked.spellings l.sources = .ok spellings ∧
        Uri.clean spellings (Uri.ofPath p) = "a%20b.rs" ∧ Uri.clean spellings (Uri.ofPath p) ≠ "a b.rs" := by
  intro l p
  have number : IsNumber "1" := ⟨by decide, List.all_eq_true.1 rfl⟩
  have rooted : l.root.isAbsolute = true := by decide
  have text : Path.ofString "a b.rs" = ⟨.here, ["a b.rs"]⟩ := by decide
  have text' : Path.ofString "a%20b.rs" = ⟨.here, ["a%20b.rs"]⟩ := by decide
  have sources : l.sources = ⟨.slash, ["lspo-world", "tmp", "lspresso-shot", "1", "src"]⟩ := by decide
  have normal : l.sources.normalize = l.sources := by decide
  have given : l.source "a b.rs" = .ok p := by
    rw [source_of_names rooted text (by decide) (by decide), normal, sources]
    rfl
  have other : l.source "a%20b.rs" =
      .ok ⟨.slash, ["lspo-world", "tmp", "lspresso-shot", "1", "src", "a%20b.rs"]⟩ := by
    rw [source_of_names rooted text' (by decide) (by decide), normal, sources]
    rfl
  have known : World.linked.spellings l.sources = .ok (Uri.spellings l.sources (World.linked.resolve l.sources)) :=
    spellings_eq_ok_iff.2 ⟨number.flaw?_sources.2 (by decide), rfl⟩
  have written : Uri.encode ("/".intercalate ["a b.rs"]) = "a%20b.rs" := by cbv
  have kept : Uri.clean (Uri.spellings l.sources (World.linked.resolve l.sources)) (Uri.ofPath p) = "a%20b.rs" := by
    rw [← written, ← (Uri.clean_below (named_sources (Path.named_ofString _)) (sources_parts_ne_nil l)
      (List.cons_ne_nil "a b.rs" [])).2, sources]
    rfl
  refine ⟨number, by decide, by decide, by decide, given, other, _, known, kept, ?_⟩
  rw [kept]
  decide

end Layout

end ServerTrial
