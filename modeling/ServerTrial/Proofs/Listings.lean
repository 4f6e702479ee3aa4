import ServerTrial.Proofs.Content
import ServerTrial.Proofs.Idempotence
import ServerTrial.Proofs.JsonText
import ServerTrial.Proofs.Repair

/-!
# What is listed under URIs

A workspace edit lists text edits under the URIs of files, and a report on a document lists reports on related ones.
When the URIs become relative paths, keys may become one.

* `Value.listings v`: the tables by URIs of a value, at every depth;
* `Value.relocated f es`: such a table with mapped keys;
* `Value.Overwritten f es key x`: a later key is mapped to the same as `key`, and `x` is not listed there;
* `Value.isKept_iff`: what is listed in a table is still there exactly if it is not overwritten;
* `Request.localize_keeps_listed`: the same of replies.  Tables whose mapped keys are distinct lose nothing, and
  replies with such tables do not become equal if they list different things.
-/

namespace ServerTrial

namespace Data

/-- Of several entries with one key the last is collected. -/
theorem find?_collect {α : Type} (k : String) (es : List (String × α)) : find? k (collect es) = find? k es.reverse := by
  have append (xs ys : List (String × α)) : find? k (xs ++ ys) = (find? k xs).or (find? k ys) := by
    induction xs with
    | nil => rfl
    | cons x xs ih =>
      rw [List.cons_append, find?, find?, ih]
      split <;> rfl
  have run : ∀ (rest done : List (String × α)),
      find? k (rest.foldl (fun acc e => put e.1 e.2 acc) done) = (find? k rest.reverse).or (find? k done) := by
    intro rest
    induction rest with
    | nil => intro done; rfl
    | cons e rest ih =>
      intro done
      rw [List.foldl_cons, ih, find?_put, List.reverse_cons, append, Option.or_assoc]
      congr 1
      rw [find?, find?]
      by_cases same : e.1 = k
      · rw [if_pos same, if_pos same.symm]; rfl
      · rw [if_neg same, if_neg (Ne.symm same)]; rfl
  rw [collect, run]
  exact Option.or_none

/-- The last entry under a key is the one that is found from behind. -/
theorem find?_reverse_eq_some_iff {α : Type} {k : String} {x : α} {es : List (String × α)} :
    find? k es.reverse = some x ↔ ∃ front back, es = front ++ (k, x) :: back ∧ ∀ e ∈ back, e.1 ≠ k := by
  have search (xs : List (String × α)) :
      find? k xs = some x ↔ ∃ before after, xs = before ++ (k, x) :: after ∧ ∀ e ∈ before, e.1 ≠ k := by
    induction xs with
    | nil => simp [find?]
    | cons e xs ih =>
      rw [find?]
      by_cases same : e.1 = k
      · rw [if_pos same, Option.some.injEq]
        constructor
        · rintro rfl
          exact ⟨[], xs, by rw [← same]; rfl, List.forall_mem_nil _⟩
        · rintro ⟨before, after, split, other⟩
          cases before with
          | nil => exact congrArg Prod.snd (List.cons.inj split).1
          | cons f before => exact absurd ((List.cons.inj split).1 ▸ same) (other f List.mem_cons_self)
      · rw [if_neg same, ih]
        constructor
        · rintro ⟨before, after, rfl, other⟩
          exact ⟨e :: before, after, rfl, List.forall_mem_cons.2 ⟨same, other⟩⟩
        · rintro ⟨before, after, split, other⟩
          cases before with
          | nil => exact absurd (congrArg Prod.fst (List.cons.inj split).1) same
          | cons f before =>
            exact ⟨before, after, (List.cons.inj split).2, fun g hg => other g (List.mem_cons_of_mem f hg)⟩
  rw [search]
  constructor
  · rintro ⟨before, after, split, other⟩
    refine ⟨after.reverse, before.reverse, ?_, fun e he => other e (List.mem_reverse.1 he)⟩
    rw [← List.reverse_reverse es, split]
    simp
  · rintro ⟨front, back, rfl, other⟩
    exact ⟨back.reverse, front.reverse, by simp, fun e he => other e (List.mem_reverse.1 he)⟩

end Data

namespace Value

/-! ### Tables by URIs -/

/-- The entries of a table. -/
def listingIn : Value → List (List (String × Value))
  | table entries => [entries]
  | _ => []

mutual

/-- The tables by URIs of a value, at every depth outside of such tables. -/
def listings : Value → List (List (String × Value))
  | list items => listingsOfItems items
  | pair a b => listings a ++ listings b
  | table entries => listingsOfEntries entries
  | record m fields _ => listingsOfFields m fields
  | _ => []

def listingsOfItems : List Value → List (List (String × Value))
  | [] => []
  | v :: vs => listings v ++ listingsOfItems vs

def listingsOfEntries : List (String × Value) → List (List (String × Value))
  | [] => []
  | (_, v) :: es => listings v ++ listingsOfEntries es

def listingsOfFields (m : Model) : List (Label × Value) → List (List (String × Value))
  | [] => []
  | (l, v) :: fs => (if m.holdsUriKeys l.name then listingIn v else listings v) ++ listingsOfFields m fs

end

/-- A table with its keys and its values mapped; of entries whose keys become one the last stays. -/
def relocated (f : String → String) (es : List (String × Value)) : List (String × Value) :=
  Data.collect (es.map fun e => (f e.1, e.2.localize f))

/-- What stands under a URI: the items of a list, or else the value itself. -/
def listed : Value → List Value
  | list items => items
  | v => [v]

theorem listingsOfItems_eq_flatMap : ∀ vs : List Value, listingsOfItems vs = vs.flatMap listings
  | [] => rfl
  | v :: vs => congrArg (listings v ++ ·) (listingsOfItems_eq_flatMap vs)

theorem listingsOfEntries_eq_flatMap :
    ∀ es : List (String × Value), listingsOfEntries es = es.flatMap fun e => listings e.2
  | [] => rfl
  | (_, v) :: es => congrArg (listings v ++ ·) (listingsOfEntries_eq_flatMap es)

/-- The tables by URIs of a field. -/
def listingsOfField (m : Model) (name : String) (v : Value) : List (List (String × Value)) :=
  if m.holdsUriKeys name then listingIn v else listings v

theorem listingsOfFields_eq_flatMap (m : Model) :
    ∀ fs : List (Label × Value), listingsOfFields m fs = fs.flatMap fun p => listingsOfField m p.1.name p.2
  | [] => rfl
  | (l, v) :: fs => congrArg (listingsOfField m l.name v ++ ·) (listingsOfFields_eq_flatMap m fs)

section Localize

variable {f : String → String}

theorem listings_mapText (v : Value) : (v.mapText f).listings = v.listings := by
  unfold mapText
  split <;> rfl

/-- The tables of a field are relocated if those of its value are. -/
theorem listingsOfField_localizeOwn {m : Model} {name : String} {v : Value}
    (parts : (v.localize f).listings = v.listings.map (relocated f)) :
    listingsOfField m name (localizeOwn f m name (v.localize f)) = (listingsOfField m name v).map (relocated f) := by
  unfold listingsOfField localizeOwn
  split
  · next keyed =>
    have field : ¬ m.holdsUri name = true := by
      rw [holdsUri_iff]
      exact fun field => not_table_of_field field ((holdsUriKeys_iff m name).1 keyed)
    rw [if_neg field]
    cases v with
    | table es =>
      rw [localize, localizeEntries_eq_map, mapKeys, List.map_map]
      rfl
    | _ => rfl
  · split
    · rw [listings_mapText, parts]
    · exact parts

/-- **Localizing relocates the tables by URIs** and changes no others. -/
theorem listings_localize (v : Value) : (v.localize f).listings = v.listings.map (relocated f) := by
  induction v using byParts with
  | plain d => rfl
  | free d => rfl
  | member e name d => rfl
  | list vs ih =>
    rw [localize, localizeItems_eq_map, listings, listings, listingsOfItems_eq_flatMap, listingsOfItems_eq_flatMap,
      List.flatMap_map, List.map_flatMap]
    exact List.flatMap_congr ih
  | pair a b iha ihb =>
    rw [localize, listings, listings, iha, ihb, List.map_append]
  | table es ih =>
    rw [localize, localizeEntries_eq_map, listings, listings, listingsOfEntries_eq_flatMap,
      listingsOfEntries_eq_flatMap, List.flatMap_map, List.map_flatMap]
    exact List.flatMap_congr ih
  | record m fs extras ih =>
    rw [localize, localizeFields_eq_map, listings, listings, listingsOfFields_eq_flatMap, listingsOfFields_eq_flatMap,
      List.flatMap_map, List.map_flatMap]
    exact List.flatMap_congr fun p hp => listingsOfField_localizeOwn (ih p hp)

theorem listed_localize (v : Value) : listed (v.localize f) = (listed v).map (localize f) := by
  cases v with
  | list items => rw [localize, localizeItems_eq_map]; rfl
  | _ => rfl

/-! ### What stays -/

variable (f)

/-- Does a table list something under a mapped key? -/
def Lists (es : List (String × Value)) (key : String) (x : Value) : Prop :=
  ∃ y, Data.find? key es = some y ∧ x ∈ listed y

/-- What is listed under a key is still there under the mapped one. -/
def IsKept (es : List (String × Value)) (key : String) (x : Value) : Prop :=
  Lists (relocated f es) (f key) (x.localize f)

/-- The last key that is mapped to the same as the given one does not have it listed. -/
def Overwritten (es : List (String × Value)) (key : String) (x : Value) : Prop :=
  ∃ front last back, es = front ++ last :: back ∧ f last.1 = f key ∧ (∀ e ∈ back, f e.1 ≠ f key) ∧
    x.localize f ∉ (listed last.2).map (localize f)

/-- No two keys of a table are mapped to the same. -/
def KeepsApart (es : List (String × Value)) : Prop := (es.map fun e => f e.1).Nodup

/-- Two tables give the same value for every key. -/
def Agree (es es' : List (String × Value)) : Prop := ∀ key, Data.find? key es = Data.find? key es'

/-- Every entry is one of the other table, but for the spelling of the key and of the URIs in the value. -/
def Covered (es es' : List (String × Value)) : Prop :=
  ∀ e ∈ es, ∃ e' ∈ es', f e'.1 = f e.1 ∧ e'.2.localize f = e.2.localize f

variable {f} {es es' : List (String × Value)} {key : String} {x : Value}

/-- What is found in a relocated table stands under the last key that is mapped to the one asked for. -/
theorem find?_relocated {y : Value} : Data.find? key (relocated f es) = some y ↔
    ∃ front last back, es = front ++ last :: back ∧ f last.1 = key ∧ (∀ e ∈ back, f e.1 ≠ key) ∧
      last.2.localize f = y := by
  rw [relocated, Data.find?_collect, Data.find?_reverse_eq_some_iff]
  constructor
  · rintro ⟨front, back, split, other⟩
    obtain ⟨first, rest, parts, -, tail⟩ := List.map_eq_append_iff.1 split
    obtain ⟨last, later, cons, here, rfl⟩ := List.map_eq_cons_iff.1 tail
    exact ⟨first, last, later, cons ▸ parts, congrArg Prod.fst here, fun e he => other _ (List.mem_map_of_mem he),
      congrArg Prod.snd here⟩
  · rintro ⟨front, last, back, rfl, rfl, other, rfl⟩
    refine ⟨front.map fun e => (f e.1, e.2.localize f), back.map fun e => (f e.1, e.2.localize f), ?_,
      List.forall_mem_map.2 other⟩
    rw [List.map_append, List.map_cons]

/-- Some entry is the last one with its mapped key. -/
theorem exists_last {e : String × Value} (he : e ∈ es) :
    ∃ front last back, es = front ++ last :: back ∧ f last.1 = f e.1 ∧ ∀ e' ∈ back, f e'.1 ≠ f e.1 := by
  have there : f e.1 ∈ (relocated f es).map Prod.fst := by
    rw [relocated, Data.mem_keys_collect, List.map_map]
    exact List.mem_map.2 ⟨e, he, rfl⟩
  obtain ⟨y, hy⟩ := Data.exists_find?_of_mem there
  obtain ⟨front, last, back, split, same, other, -⟩ := find?_relocated.1 hy
  exact ⟨front, last, back, split, same, other⟩

/-- **What is listed stays unless it is overwritten.** -/
theorem isKept_iff {e : String × Value} (he : e ∈ es) : IsKept f es e.1 x ↔ ¬ Overwritten f es e.1 x := by
  obtain ⟨front, last, back, split, same, other⟩ := exists_last (f := f) he
  have found : Data.find? (f e.1) (relocated f es) = some (last.2.localize f) :=
    find?_relocated.2 ⟨front, last, back, split, same, other, rfl⟩
  unfold IsKept Lists
  rw [found]
  constructor
  · rintro ⟨y, hy, hx⟩ ⟨front', last', back', split', same', other', absent⟩
    have found' := find?_relocated.2 ⟨front', last', back', split', same', other', rfl⟩
    rw [found] at found'
    rw [← Option.some.inj hy, Option.some.inj found', listed_localize] at hx
    exact absent hx
  · intro h
    refine ⟨_, rfl, ?_⟩
    rw [listed_localize]
    by_contra absent
    exact h ⟨front, last, back, split, same, other, absent⟩

/-- In a table whose mapped keys are distinct every entry is the last one with its mapped key. -/
theorem KeepsApart.find? (apart : KeepsApart f es) {e : String × Value} (he : e ∈ es) :
    Data.find? (f e.1) (relocated f es) = some (e.2.localize f) := by
  obtain ⟨front, back, rfl⟩ := List.append_of_mem he
  refine find?_relocated.2 ⟨front, e, back, rfl, rfl, fun e' he' same => ?_, rfl⟩
  rw [KeepsApart, List.map_append, List.map_cons, List.nodup_append] at apart
  exact (List.nodup_cons.1 apart.2.1).1 (List.mem_map.2 ⟨e', he', same⟩)

/-- Such a table loses nothing. -/
theorem KeepsApart.isKept (apart : KeepsApart f es) {e : String × Value} (he : e ∈ es) (hx : x ∈ listed e.2) :
    IsKept f es e.1 x :=
  ⟨_, apart.find? he, listed_localize e.2 ▸ List.mem_map_of_mem hx⟩

/-- If such a table has become equal to another one, whatever the order, each of its entries is one of the other table
but for the spelling of the key and of the URIs in the value. -/
theorem KeepsApart.covered (apart : KeepsApart f es) (agree : Agree (relocated f es) (relocated f es')) :
    Covered f es es' := by
  intro e he
  have found := apart.find? he
  rw [agree] at found
  obtain ⟨front, last, back, rfl, same, -, value⟩ := find?_relocated.1 found
  exact ⟨last, List.mem_append_right _ List.mem_cons_self, same, value⟩

end Localize

end Value

/-! ### Replies -/

/-- A text edit names no file. -/
theorem Fits.localize_textEdit {x : Value} (h : Fits (.model .textEdit) x) (f : String → String) : x.localize f = x :=
  Value.localize_of_uris x (h.uris_eq_nil (by decide))

namespace Request

open Value

/-- **What a reply lists under URIs is kept unless it is overwritten.**  In the reply with relative paths the tables by
URIs are those of the original one with relocated keys.  A text edit or a report that stands under a URI is still there,
under the relative path, exactly if no later key of its table becomes the same path without listing it; in particular if
no two keys of the table become one.  Replies whose tables are such have the same entries if they become equal. -/
theorem localize_keeps_listed (r : Request) (w : World) (l : Layout) (spellings : List String)
    (known : w.spellings l.sources = .ok spellings) :
    (∀ v, ∃ v', r.localize (w.spellings l.sources) (some v) = .ok (some v') ∧
      v'.listings = v.listings.map (relocated (Uri.clean spellings)) ∧
      ∀ es ∈ v.listings, ∀ e ∈ es, ∀ x ∈ listed e.2,
        (IsKept (Uri.clean spellings) es e.1 x ↔ ¬ Overwritten (Uri.clean spellings) es e.1 x) ∧
        (KeepsApart (Uri.clean spellings) es → IsKept (Uri.clean spellings) es e.1 x) ∧
        (Fits (.model .textEdit) x → x.localize (Uri.clean spellings) = x)) ∧
    ∀ u v u' v', r.localize (w.spellings l.sources) (some u) = .ok (some u') →
      r.localize (w.spellings l.sources) (some v) = .ok (some v') →
      List.Forall₂ Agree u'.listings v'.listings →
      List.Forall₂ (fun es es' => KeepsApart (Uri.clean spellings) es → KeepsApart (Uri.clean spellings) es' →
        Covered (Uri.clean spellings) es es' ∧ Covered (Uri.clean spellings) es' es) u.listings v.listings := by
  rw [known]
  constructor
  · intro v
    refine ⟨v.localize (Uri.clean spellings), localize_eq_ok_iff.2 rfl, listings_localize v, ?_⟩
    intro es _ e he x hx
    exact ⟨isKept_iff he, fun apart => apart.isKept he hx, fun fits => fits.localize_textEdit _⟩
  · intro u v u' v' hu hv agree
    rw [← localize_eq_ok_iff.1 hu, ← localize_eq_ok_iff.1 hv, listings_localize, listings_localize,
      List.forall₂_map_left_iff, List.forall₂_map_right_iff] at agree
    refine agree.imp fun es es' agree apart apart' => ⟨apart.covered agree, apart'.covered fun key => ?_⟩
    exact (agree key).symm

/-- A text put at the start of a file. -/
def insertion (text : String) : Value :=
  .record .textEdit [(⟨"range", "range"⟩, .lineRange 0 0 0), (⟨"new_text", "newText"⟩, .text text),
    (⟨"annotation_id", "annotationId"⟩, .null)] []

/-- Text edits under the URIs of files. -/
def editOf (entries : List (String × List Value)) : Value :=
  .record .workspaceEdit [(⟨"changes", "changes"⟩, .table (entries.map fun e => (e.1, .list e.2))),
    (⟨"document_changes", "documentChanges"⟩, .null), (⟨"change_annotations", "changeAnnotations"⟩, .null)] []

/-- A layout with a directory for source files that has one spelling. -/
def topLayout : Layout := ⟨"1", ⟨.slash, []⟩⟩

def topWorld : World := ⟨[], [], [], ⟨.slash, ["tmp"]⟩, "1"⟩

theorem topWorld_spellings : topWorld.spellings topLayout.sources = .ok ["file:///lspresso-shot/1/src/"] := by
  have given : topLayout.sources = ⟨.slash, ["lspresso-shot", "1", "src"]⟩ := by decide
  rw [given, World.spellings_eq (q := ⟨.slash, ["lspresso-shot", "1", "src"]⟩)
    (s := "/lspresso-shot/1/src") (t := "/lspresso-shot/1/src") rfl (by decide) (by decide) (by decide) rfl rfl]
  rfl

/-- The edits of two files stay apart, whether a file is given by its URI or by its path. -/
theorem localize_keeps_listed_files :
    let f := Uri.clean ["file:///lspresso-shot/1/src/"]
    let es : List (String × Value) :=
      [("a", .list [insertion "x"]), ("file:///lspresso-shot/1/src/b", .list [insertion "y"])]
    let v := editOf [("a", [insertion "x"]), ("file:///lspresso-shot/1/src/b", [insertion "y"])]
    topWorld.spellings topLayout.sources = .ok ["file:///lspresso-shot/1/src/"] ∧ v.listings = [es] ∧
      KeepsApart f es ∧ IsKept f es "file:///lspresso-shot/1/src/b" (insertion "y") := by
  intro f es v
  have tables : v.listings = [es] := rfl
  have apart : KeepsApart f es := by
    have path : f "a" = "a" := (Uri.clean_ofList [_] _).trans rfl
    have uri : f "file:///lspresso-shot/1/src/b" = "b" := (Uri.clean_ofList [_] _).trans rfl
    have keys : es.map (fun e => f e.1) = ["a", "b"] := by rw [List.map_cons, List.map_singleton, path, uri]
    rw [KeepsApart, keys]
    decide
  obtain ⟨-, -, -, kept⟩ := (localize_keeps_listed .rename topWorld topLayout _ topWorld_spellings).1 v
  have there := kept es (tables ▸ List.mem_singleton_self es)
    ("file:///lspresso-shot/1/src/b", .list [insertion "y"]) (List.mem_cons_of_mem _ (List.mem_singleton_self _))
    (insertion "y") (List.mem_singleton_self _)
  exact ⟨topWorld_spellings, tables, apart, there.2.1 apart⟩

/-- The message form of a text put at the start of a file. -/
def insertionData (text : String) : Data :=
  .obj [("range", .obj [("start", .obj [("line", .int 0), ("character", .int 0)]),
    ("end", .obj [("line", .int 0), ("character", .int 0)])]), ("newText", .str text)]

theorem sound_insertionData {text : String} (whole : Text.isWhole text = true) : (insertionData text).Sound 3 := by
  have zero (n : Nat) : (Data.int 0).Sound n := ⟨trivial, Nat.pow_pos (by decide), Nat.zero_le n⟩
  have position : (Data.obj [("line", .int 0), ("character", .int 0)]).Sound 1 := by
    refine Data.sound_obj_iff.2 ⟨Nat.le_refl 1, by simp; decide, by simp, ?_⟩
    simpa using zero 0
  have range : (Data.obj [("start", .obj [("line", .int 0), ("character", .int 0)]),
      ("end", .obj [("line", .int 0), ("character", .int 0)])]).Sound 2 := by
    refine Data.sound_obj_iff.2 ⟨by decide, by decide, by decide, ?_⟩
    simpa using position
  refine Data.sound_obj_iff.2 ⟨by decide, by simp; decide, by simp, ?_⟩
  have inserted : (Data.str text).Sound 2 := ⟨whole, trivial, Nat.zero_le 2⟩
  simpa using ⟨range, inserted⟩

/-- A file whose edits are given twice, under its path and under its URI: the first edit is lost, and the reply becomes
equal to one that never had it. -/
theorem localize_loses_edit :
    let reply : Data := .obj [("changes", .obj [("a", .arr [insertionData "x"]),
      ("file:///lspresso-shot/1/src/a", .arr [insertionData "y"])])]
    let f := Uri.clean ["file:///lspresso-shot/1/src/"]
    let es : List (String × Value) :=
      [("a", .list [insertion "x"]), ("file:///lspresso-shot/1/src/a", .list [insertion "y"])]
    let v := editOf [("a", [insertion "x"]), ("file:///lspresso-shot/1/src/a", [insertion "y"])]
    let v' := editOf [("a", [insertion "y"])]
    decode rename.response rename.isLenient reply.toJson = .ok v ∧ v.listings = [es] ∧
      topWorld.spellings topLayout.sources = .ok ["file:///lspresso-shot/1/src/"] ∧
      rename.localize (topWorld.spellings topLayout.sources) (some v) = .ok (some v') ∧
      ¬ IsKept f es "a" (insertion "x") ∧
      v ≠ v' ∧ rename.localize (topWorld.spellings topLayout.sources) (some v') = .ok (some v') := by
  intro reply f es v v'
  have sound : reply.Sound nestingLimit := by
    have edits (text : String) (whole : Text.isWhole text = true) : (Data.arr [insertionData text]).Sound 4 := by
      refine Data.sound_arr_iff.2 ⟨by decide, fun x hx => ?_⟩
      exact List.mem_singleton.1 hx ▸ sound_insertionData whole
    have changes : (Data.obj [("a", .arr [insertionData "x"]),
        ("file:///lspresso-shot/1/src/a", .arr [insertionData "y"])]).Sound 5 := by
      refine Data.sound_obj_iff.2 ⟨by decide, by decide, by decide, ?_⟩
      simpa using ⟨edits "x" (by decide), edits "y" (by decide)⟩
    have whole : reply.Sound 6 := by
      refine Data.sound_obj_iff.2 ⟨by decide, by decide, by decide, ?_⟩
      simpa using changes
    exact whole.mono (by decide)
  have accepted : Decode.checkRepairing rename.response rename.isLenient Decode.maxRepairs []
      (.obj [("changes", .obj [("a", .arr [insertionData "x"]),
        ("file:///lspresso-shot/1/src/a", .arr [insertionData "y"])])]) =
      .ok (editOf [("a", [insertion "x"]), ("file:///lspresso-shot/1/src/a", [insertion "y"])]) := by cbv
  have decoded : decode rename.response rename.isLenient reply.toJson = .ok v := by
    rw [decode_of_read (Data.ofJson_toJson sound.regular sound.readable sound.shallow)]
    exact accepted
  have path : f "a" = "a" := (Uri.clean_ofList [_] _).trans rfl
  have uri : f "file:///lspresso-shot/1/src/a" = "a" := (Uri.clean_ofList [_] _).trans rfl
  have moved : v.localize f = v' := by
    have two : v.localize f = .record .workspaceEdit [(⟨"changes", "changes"⟩, .table (Data.collect
        [(f "a", .list [insertion "x"]), (f "file:///lspresso-shot/1/src/a", .list [insertion "y"])])),
        (⟨"document_changes", "documentChanges"⟩, .null), (⟨"change_annotations", "changeAnnotations"⟩, .null)] [] := rfl
    rw [two, path, uri]
    rfl
  have stays : v'.localize f = v' := by
    have one : v'.localize f = .record .workspaceEdit [(⟨"changes", "changes"⟩, .table (Data.collect
        [(f "a", .list [insertion "y"])])), (⟨"document_changes", "documentChanges"⟩, .null),
        (⟨"change_annotations", "changeAnnotations"⟩, .null)] [] := rfl
    rw [one, path]
    rfl
  have lost : ¬ IsKept f es "a" (insertion "x") := by
    have there : ("a", Value.list [insertion "x"]) ∈ es := List.mem_cons_self
    rw [isKept_iff there, not_not]
    refine ⟨[("a", .list [insertion "x"])], ("file:///lspresso-shot/1/src/a", .list [insertion "y"]), [], rfl,
      by rw [path, uri], List.forall_mem_nil _, ?_⟩
    have other : insertion "x" ≠ insertion "y" := by simp [insertion, Value.text]
    exact fun same => other (List.mem_singleton.1 same)
  rw [topWorld_spellings, localize_eq_ok_iff, localize_eq_ok_iff]
  refine ⟨decoded, rfl, rfl, moved, lost, ?_, stays⟩
  simp [v, v', editOf]

end Request

end ServerTrial
