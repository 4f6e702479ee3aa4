import ServerTrial.Proofs.RefusedPlaces

/-!
# Repairing a reply is complete

* `Shape.Concord a b`: of two shapes that the same data are checked against, neither asks for an exchange that spoils
  the data for the other, at no depth; `Request.concord_response`: the shapes of replies concord with themselves;
* `Swaps S d e`: `e` are the data `d` with just those empty containers exchanged that a shape of `S` refuses;
* `Swaps.takes`: if some exchange makes data good for a shape of `S`, this one does;
* `swaps_repair`: a round of repairs makes this exchange;
* `decode_complete`: hence one round is enough.
-/

namespace ServerTrial

open Check

/-! ### Shapes that concord -/

/-- May one entry be given for both fields? -/
def Field.meets (f g : Field) : Bool :=
  [f.label.key, f.label.name].any fun k => k == g.label.key || k == g.label.name

namespace Shape

/-- Is each empty container that the first shape takes, and not the other one as well, taken by the second shape? -/
def bears (a b : Shape) : Bool :=
  [Data.arr [], Data.obj []].all fun c => !a.takes c || b.takes c || a.takes c.exchanged

/-- Are the parts of data that are checked against both shapes checked against shapes that are related? -/
def relatesParts (related : Shape → Shape → Bool) : Shape → Shape → Bool
  | .model l, .model m => l == m || l.fields.all fun f => m.fields.all fun g => !f.meets g || related f.shape g.shape
  | .list a, .list b => related a b
  | .table a, .table b => related a b
  | .pair a b, .pair a' b' => related a a' && related b b'
  | .list _, .pair _ _ => false
  | .pair _ _, .list _ => false
  | .table _, .model _ => false
  | .model _, .table _ => false
  | _, _ => true

/-- Do the shapes concord?  The number bounds the depth at which two models meet. -/
def concords : Nat → Shape → Shape → Bool
  | 0, _, _ => false
  | n + 1, a, b =>
    a.isFlat && b.isFlat && a.bears b && a.heads.all fun s => b.heads.all fun t => relatesParts (concords n) s t

/-- Neither shape asks for an exchange that spoils data for the other. -/
def Concord (a b : Shape) : Prop := ∃ n, concords n a b = true

end Shape

namespace Model

/-- Fields of a model that meet are one field. -/
theorem eq_of_meets {m : Model} {f g : Field} (hf : f ∈ m.fields) (hg : g ∈ m.fields) (meets : f.meets g = true) :
    f = g := by
  have all : (m.fields.all fun f => m.fields.all fun g => !f.meets g || f.label.key == g.label.key) = true := by
    cases m <;> decide +kernel
  have own := List.all_eq_true.1 (List.all_eq_true.1 all f hf) g hg
  rw [meets, Bool.not_true, Bool.false_or, beq_iff_eq] at own
  exact List.inj_on_of_nodup_map m.keys_nodup hf hg own

theorem concord_field {m : Model} {f : Field} (hf : f ∈ m.fields) : f.shape.Concord f.shape := by
  have all : (m.fields.all fun f => f.shape.concords 8 f.shape) = true := by
    cases m <;> decide +kernel
  exact ⟨8, List.all_eq_true.1 all f hf⟩

end Model

/-- The shapes of replies concord with themselves. -/
theorem Request.concord_response (r : Request) : r.response.Concord r.response := ⟨8, by cases r <;> decide +kernel⟩

namespace Shape.Concord

variable {a b : Shape}

theorem step (h : a.Concord b) : ∃ n, a.isFlat = true ∧ b.isFlat = true ∧ a.bears b = true ∧
    ∀ s ∈ a.heads, ∀ t ∈ b.heads, relatesParts (concords n) s t = true := by
  obtain ⟨n, hn⟩ := h
  cases n with
  | zero => cases hn
  | succ n => exact ⟨n, by simpa [concords, and_assoc] using hn⟩

theorem isFlat (h : a.Concord b) : a.isFlat = true := by
  obtain ⟨-, flat, -⟩ := h.step
  exact flat

/-- An empty container that the first shape takes and the second one refuses may be exchanged. -/
theorem bears (h : a.Concord b) {c : Data} (empty : c.isEmptyContainer = true) (taken : a.takes c = true)
    (refused : b.takes c = false) : a.takes c.exchanged = true := by
  obtain ⟨-, -, -, bears, -⟩ := h.step
  have own : (!a.takes c || b.takes c || a.takes c.exchanged) = true := by
    refine List.all_eq_true.1 bears c ?_
    rcases Data.isEmptyContainer_cases empty with rfl | rfl <;> simp
  simpa [taken, refused] using own

/-- Shapes that concord have the same part of data checked against shapes that concord. -/
theorem part (h : a.Concord b) {s t c c' : Shape} {d x y : Data} {k l : Step} (hs : s ∈ a.heads) (ht : t ∈ b.heads)
    (left : Part d s k c x) (right : Part d t l c' y) (same : k = l) : c.Concord c' := by
  obtain ⟨n, -, -, -, parts⟩ := h.step
  have related := parts s hs t ht
  cases left with
  | item =>
    cases right with
    | item => exact ⟨n, related⟩
    | _ => cases related
  | single =>
    cases right with
    | item => cases related
    | single => exact ⟨n, (Bool.and_eq_true_iff.1 related).1⟩
  | first =>
    cases right with
    | item => cases related
    | first => exact ⟨n, (Bool.and_eq_true_iff.1 related).1⟩
    | second => simp at same
  | second =>
    cases right with
    | item => cases related
    | first => simp at same
    | second => exact ⟨n, (Bool.and_eq_true_iff.1 related).2⟩
  | entry =>
    cases right with
    | entry => exact ⟨n, related⟩
    | field => cases related
  | @field es l f k x hf given =>
    cases right with
    | entry => cases related
    | @field _ m g k' y hg given' =>
      cases same
      have meets : f.meets g = true := by
        have left := key_of_given? given
        have right := key_of_given? given'
        dsimp only at left right
        rcases left with left | left <;> rcases right with right | right <;>
          simp [Field.meets, ← left, ← right]
      rcases Bool.or_eq_true_iff.1 related with one | related
      · cases beq_iff_eq.1 one
        cases Model.eq_of_meets hf hg meets
        exact Model.concord_field hf
      · have own := List.all_eq_true.1 (List.all_eq_true.1 related f hf) g hg
        exact ⟨n, by simpa [meets] using own⟩

end Shape.Concord

/-! ### Parts of exchanged data -/

namespace Data

/-- Data that are no container are not exchanged. -/
theorem Exchanged.eq_of_scalar {d e : Data} (h : Exchanged d e) (full : d.isFull = false)
    (empty : d.isEmptyContainer = false) : e = d := by
  cases d with
  | arr xs =>
    cases xs with
    | nil => cases empty
    | cons x xs => cases full
  | obj es =>
    cases es with
    | nil => cases empty
    | cons e es => cases full
  | _ => cases e <;> simp_all [Exchanged]

/-- The exchanges of an empty container are both of the empty containers. -/
theorem Exchanged.cases_of_empty {c e : Data} (h : Exchanged c e) (empty : c.isEmptyContainer = true) :
    e = c ∨ e = c.exchanged := by
  rcases isEmptyContainer_cases empty with rfl | rfl
  · cases e with
    | arr ys => cases ys <;> simp_all [Exchanged, ExchangedItems]
    | obj ys => simp_all [Exchanged, exchanged]
    | _ => simp [Exchanged] at h
  · cases e with
    | obj ys => cases ys <;> simp_all [Exchanged, ExchangedEntries]
    | arr ys => simp_all [Exchanged, exchanged]
    | _ => simp [Exchanged] at h

mutual

theorem Exchanged.symm : ∀ {d e : Data}, Exchanged d e → Exchanged e d
  | arr _, arr _, h => ExchangedItems.symm h
  | obj _, obj _, h => ExchangedEntries.symm h
  | arr _, obj _, h => ⟨h.2, h.1⟩
  | obj _, arr _, h => ⟨h.2, h.1⟩
  | null, e, h | bool _, e, h | int _, e, h | float _, e, h | str _, e, h | moment _, e, h => by
    rw [h.eq_of_scalar rfl rfl]
    exact Exchanged.refl _

theorem ExchangedItems.symm : ∀ {xs ys : List Data}, ExchangedItems xs ys → ExchangedItems ys xs
  | [], [], _ => trivial
  | _ :: _, _ :: _, h => ⟨Exchanged.symm h.1, ExchangedItems.symm h.2⟩

theorem ExchangedEntries.symm : ∀ {es fs : List (String × Data)}, ExchangedEntries es fs → ExchangedEntries fs es
  | [], [], _ => trivial
  | (_, _) :: _, (_, _) :: _, h => ⟨h.1.symm, Exchanged.symm h.2.1, ExchangedEntries.symm h.2.2⟩

end

theorem ExchangedItems.get? {xs ys : List Data} {i : Nat} {x : Data} (h : ExchangedItems xs ys) (hx : xs[i]? = some x) :
    ∃ y, ys[i]? = some y ∧ Exchanged x y := by
  obtain ⟨y, hy, related, -⟩ := h.symm.at_index hx
  exact ⟨y, hy, related.symm⟩

theorem ExchangedEntries.find? {es fs : List (String × Data)} {k : String} {x : Data} (h : ExchangedEntries es fs)
    (hx : find? k es = some x) : ∃ y, find? k fs = some y ∧ Exchanged x y := by
  obtain ⟨y, hy, related, -⟩ := h.symm.at_key hx
  exact ⟨y, hy, related.symm⟩

theorem ExchangedEntries.mem {k : String} {x : Data} :
    ∀ {es fs : List (String × Data)}, ExchangedEntries es fs → (k, x) ∈ es → ∃ y, (k, y) ∈ fs ∧ Exchanged x y
  | (_, x') :: _, (_, y') :: _, h, hx => by
    obtain ⟨rfl, related, rest⟩ := h
    rcases List.mem_cons.1 hx with same | hx
    · cases same
      exact ⟨y', List.mem_cons_self, related⟩
    · obtain ⟨y, hy, related⟩ := rest.mem hx
      exact ⟨y, List.mem_cons_of_mem _ hy, related⟩

theorem ExchangedEntries.given? {es fs : List (String × Data)} {l : Label} {k : String} {x : Data}
    (h : ExchangedEntries es fs) (hx : Check.given? l es = some (k, x)) :
    ∃ y, Check.given? l fs = some (k, y) ∧ Exchanged x y := by
  rw [Check.given?] at hx ⊢
  cases own : Data.find? l.key es with
  | some x' =>
    rw [own] at hx
    cases hx
    obtain ⟨y, hy, related⟩ := h.find? own
    exact ⟨y, by rw [hy], related⟩
  | none =>
    rw [own] at hx
    obtain ⟨x', named, same⟩ := Option.map_eq_some_iff.1 hx
    cases same
    obtain ⟨y, hy, related⟩ := h.find? named
    cases other : Data.find? l.key fs with
    | none => exact ⟨y, by rw [hy]; rfl, related⟩
    | some z =>
      obtain ⟨w, hw, -⟩ := h.symm.find? other
      cases own.symm.trans hw

/-- Containers with content are exchanged within their content. -/
theorem Exchanged.cases_of_full {d e : Data} (h : Exchanged d e) (full : d.isFull = true) :
    (∃ xs ys, d = arr xs ∧ e = arr ys ∧ ExchangedItems xs ys) ∨
      ∃ es fs, d = obj es ∧ e = obj fs ∧ ExchangedEntries es fs := by
  cases d with
  | arr xs =>
    cases e with
    | arr ys => exact .inl ⟨xs, ys, rfl, rfl, h⟩
    | obj ys =>
      rw [h.1] at full
      cases full
    | _ => cases h
  | obj es =>
    cases e with
    | obj fs => exact .inr ⟨es, fs, rfl, rfl, h⟩
    | arr ys =>
      rw [h.1] at full
      cases full
    | _ => cases h
  | _ => cases full

theorem Exchanged.isFull {d e : Data} (h : Exchanged d e) (full : d.isFull = true) : e.isFull = true := by
  rcases h.cases_of_full full with ⟨xs, ys, rfl, rfl, related⟩ | ⟨es, fs, rfl, rfl, related⟩
  · cases xs with
    | nil => cases full
    | cons x xs =>
      cases ys with
      | nil => cases related
      | cons y ys => rfl
  · cases es with
    | nil => cases full
    | cons e es =>
      cases fs with
      | nil => cases related
      | cons f fs => rfl

end Data

section Exchange

variable {d e x : Data} {s a : Shape} {t : Step}

/-- Exchanged data have the same parts checked, exchanged as well. -/
theorem Part.exchanged (part : Part d s t a x) (h : Data.Exchanged d e) (full : d.isFull = true) :
    ∃ y, Part e s t a y ∧ Data.Exchanged x y := by
  rcases h.cases_of_full full with ⟨xs, ys, rfl, rfl, related⟩ | ⟨es, fs, rfl, rfl, related⟩
  · cases part with
    | item there =>
      obtain ⟨y, hy, related⟩ := related.get? there
      exact ⟨y, .item hy, related⟩
    | single =>
      match ys, related with
      | [y], related => exact ⟨y, .single, related.1⟩
    | first =>
      match ys, related with
      | [y, z], related => exact ⟨y, .first, related.1⟩
    | second =>
      match ys, related with
      | [y, z], related => exact ⟨z, .second, related.2.1⟩
  · cases part with
    | entry there =>
      obtain ⟨y, hy, related⟩ := related.mem there
      exact ⟨y, .entry hy, related⟩
    | field hf given =>
      obtain ⟨y, hy, related⟩ := related.given? given
      exact ⟨y, .field hf hy, related⟩

theorem Outlines.exchanged (outline : Outlines s d) (h : Data.Exchanged d e) (full : d.isFull = true) :
    Outlines s e := by
  rcases h.cases_of_full full with ⟨xs, ys, rfl, rfl, related⟩ | ⟨es, fs, rfl, rfl, related⟩
  · cases outline with
    | any => exact .any _
    | list item => exact .list item ys
    | pair a b x y =>
      match ys, related with
      | [x', y'], _ => exact .pair a b x' y'
  · cases outline with
    | any => exact .any _
    | table entry => exact .table entry fs
    | model present =>
      refine .model fun f hf missing => present f hf ?_
      cases given : given? f.label es with
      | none => rfl
      | some e =>
        obtain ⟨y, hy, -⟩ := related.given? given
        cases missing.symm.trans hy

end Exchange

/-! ### All that is refused, exchanged at once -/

/-- The data on the right are those on the left with the empty containers exchanged that some shape of `S` refuses. -/
structure Swaps (S : Shape → Prop) (d e : Data) : Prop where
  exchanged : Data.Exchanged d e
  swapped {p c} : d.at? p = some c → c.isEmptyContainer = true → (∃ s, S s ∧ Refuses s d p) → e.at? p = some c.exchanged
  kept {p c} : d.at? p = some c → c.isEmptyContainer = true → ¬ (∃ s, S s ∧ Refuses s d p) → e.at? p = some c

/-- The shapes that data are checked against at once: they concord, and the data are ambiguous for none of them. -/
structure Together (S : Shape → Prop) (d : Data) : Prop where
  concord {s t} : S s → S t → s.Concord t
  clear {s} : S s → ¬ Ambiguous s d

/-- The shapes that a part of data is checked against, of heads that refuse anything only if the whole shape does. -/
def ShapesBelow (S : Shape → Prop) (d : Data) (t : Step) (a : Shape) : Prop :=
  ∃ s, S s ∧ ∃ h ∈ s.heads, (s.takes d = true → h.takes d = true) ∧ ∃ x, Part d h t a x

section ShapesBelow

variable {S : Shape → Prop} {d e x y : Data} {t : Step}

theorem Together.below (together : Together S d) (readable : d.Readable) (hx : d.step? t = some x) :
    Together (ShapesBelow S d t) x where
  concord := by
    rintro a b ⟨s, hs, h, hh, -, x', left⟩ ⟨u, hu, k, hk, -, y', right⟩
    exact (together.concord hs hu).part hh hk left right rfl
  clear := by
    rintro a ⟨s, hs, h, hh, -, x', part⟩ ambiguous
    cases (part.step? readable).symm.trans hx
    exact together.clear hs (.of_head hh (.part part ambiguous))

/-- What is refused within a container is refused within a part. -/
theorem refuses_below_iff (together : Together S d) (full : d.isFull = true) (readable : d.Readable)
    (hx : d.step? t = some x) {p : List Step} :
    (∃ s, S s ∧ Refuses s d (t :: p)) ↔ ∃ a, ShapesBelow S d t a ∧ Refuses a x p := by
  have flat {s : Shape} (hs : S s) : s.isFlat = true := (together.concord hs hs).isFlat
  have split {s : Shape} (hs : S s) := refuses_iff_of_isFull (p := t :: p) full (flat hs) (together.clear hs)
  constructor
  · rintro ⟨s, hs, refuses⟩
    obtain ⟨refused, h, hh, refuses⟩ := (split hs).1 refuses
    obtain ⟨t', a, x', p', same, part, refuses⟩ :=
      (refuses_head_iff full readable (Shape.isHead_of_mem_heads (flat hs) hh)).1 refuses
    cases same
    cases (part.step? readable).symm.trans hx
    exact ⟨a, ⟨s, hs, h, hh, fun taken => (nomatch refused.symm.trans taken), x, part⟩, refuses⟩
  · rintro ⟨a, ⟨s, hs, h, hh, own, x', part⟩, refuses⟩
    cases (part.step? readable).symm.trans hx
    have head := Shape.isHead_of_mem_heads (flat hs) hh
    refine ⟨s, hs, (split hs).2 ⟨?_, h, hh, (refuses_head_iff full readable head).2 ⟨t, a, x, p, rfl, part, refuses⟩⟩⟩
    cases taken : s.takes d with
    | false => rfl
    | true =>
      have taken := ((takes_iff full head).1 (own taken)).2 t a x part
      cases refuses.takes_eq_false.symm.trans taken

theorem Swaps.below (swaps : Swaps S d e) (together : Together S d) (full : d.isFull = true) (readable : d.Readable)
    (hx : d.step? t = some x) (hy : e.step? t = some y) : Swaps (ShapesBelow S d t) x y where
  exchanged := by
    obtain ⟨x', hx', related, -⟩ := swaps.exchanged.at_step hy
    cases hx.symm.trans hx'
    exact related
  swapped := by
    intro p c there empty refused
    have above : d.at? (t :: p) = some c := by rw [Data.at?, hx]; exact there
    have := swaps.swapped above empty ((refuses_below_iff together full readable hx).2 refused)
    rwa [Data.at?, hy] at this
  kept := by
    intro p c there empty unrefused
    have above : d.at? (t :: p) = some c := by rw [Data.at?, hx]; exact there
    have := swaps.kept above empty fun refused => unrefused ((refuses_below_iff together full readable hx).1 refused)
    rwa [Data.at?, hy] at this

end ShapesBelow

/-- An empty container: all shapes that concord with one that takes it take it, or it may be exchanged. -/
theorem Swaps.takes_of_empty {S : Shape → Prop} {c e c' : Data} (swaps : Swaps S c e) (together : Together S c)
    (empty : c.isEmptyContainer = true) (other : Data.Exchanged c c') {s : Shape} (hs : S s)
    (taken : s.takes c' = true) : s.takes e = true := by
  by_cases refused : ∃ u, S u ∧ Refuses u c []
  · cases swaps.swapped rfl empty refused
    obtain ⟨u, hu, refuses⟩ := refused
    rcases other.cases_of_empty empty with rfl | rfl
    · exact (together.concord hs hu).bears empty taken refuses.takes_eq_false
    · exact taken
  · cases swaps.kept rfl empty refused
    rcases other.cases_of_empty empty with rfl | rfl
    · exact taken
    · cases own : s.takes c with
      | true => rfl
      | false =>
        have flat := (together.concord hs hs).isFlat
        exact absurd ⟨s, hs, (refuses_iff_of_empty empty flat).2 ⟨rfl, own⟩⟩ refused

/-- Of a shape that takes some exchange of a container, a head takes one: the container itself if the shape takes it. -/
theorem exists_head_of_takes {s : Shape} {d d' : Data} (full : d.isFull = true) (other : Data.Exchanged d d')
    (taken : s.takes d' = true) :
    ∃ h ∈ s.heads, (s.takes d = true → h.takes d = true) ∧ ∃ d'', Data.Exchanged d d'' ∧ h.takes d'' = true := by
  cases own : s.takes d with
  | true =>
    obtain ⟨h, hh, taken⟩ := (Shape.takes_iff_heads (d.ne_null_of_isFull full)).1 own
    exact ⟨h, hh, fun _ => taken, d, .refl d, taken⟩
  | false =>
    obtain ⟨h, hh, taken⟩ := (Shape.takes_iff_heads (d'.ne_null_of_isFull (other.isFull full))).1 taken
    exact ⟨h, hh, fun own => (nomatch own), d', other, taken⟩

/-- A container: it is good for a shape if its parts are good for the shapes below, as far as exchanges make them so. -/
theorem Swaps.takes_of_full {S : Shape → Prop} {d e d' : Data} (swaps : Swaps S d e) (readable : d.Readable)
    (full : d.isFull = true) (other : Data.Exchanged d d') {s : Shape} (hs : S s) (flat : s.isFlat = true)
    (below : ∀ {t a x y z}, ShapesBelow S d t a → x.brackets < d.brackets → x.Readable → d.step? t = some x →
      e.step? t = some y → Data.Exchanged x z → a.takes z = true → a.takes y = true)
    (taken : s.takes d' = true) : s.takes e = true := by
  obtain ⟨h, hh, own, d'', other, taken⟩ := exists_head_of_takes full other taken
  have head := Shape.isHead_of_mem_heads flat hh
  have full' := swaps.exchanged.isFull full
  have full'' := other.isFull full
  obtain ⟨outline, parts⟩ := (takes_iff full'' head).1 taken
  refine (Shape.takes_iff_heads (e.ne_null_of_isFull full')).2 ⟨h, hh, (takes_iff full' head).2 ⟨?_, ?_⟩⟩
  · exact (outline.exchanged other.symm full'').exchanged swaps.exchanged full
  · intro t a y right
    -- the part stands at the same step of all three, checked against the same shape
    obtain ⟨x, part, -⟩ := right.exchanged swaps.exchanged.symm full'
    obtain ⟨z, left, related⟩ := part.exchanged other full
    exact below ⟨s, hs, h, hh, own, x, part⟩ part.brackets_lt (part.readable readable) (part.step? readable)
      (right.step? (swaps.exchanged.readable readable).1) related (parts t a z left)

/-- **Exchanging all that is refused at once is good for each shape that some exchange is good for.** -/
theorem Swaps.takes {n : Nat} : ∀ {S : Shape → Prop} {d e d' : Data}, d.brackets < n → d.Readable → Together S d →
    Swaps S d e → Data.Exchanged d d' → ∀ {s : Shape}, S s → s.takes d' = true → s.takes e = true := by
  induction n with
  | zero => exact fun lt => absurd lt (Nat.not_lt_zero _)
  | succ n ih =>
    intro S d e d' lt readable together swaps other s hs taken
    cases empty : d.isEmptyContainer with
    | true => exact swaps.takes_of_empty together empty other hs taken
    | false =>
      cases full : d.isFull with
      | false =>
        rw [other.eq_of_scalar full empty] at taken
        rwa [swaps.exchanged.eq_of_scalar full empty]
      | true =>
        refine swaps.takes_of_full readable full other hs (together.concord hs hs).isFlat ?_ taken
        intro t a x y z ha less readable' hx hy related taken
        exact ih (Nat.lt_of_lt_of_le less (Nat.le_of_lt_succ lt)) readable' (together.below readable hx)
          (swaps.below together full readable hx hy) related ha taken

/-! ### A round of repairs -/

namespace Data

theorem setItem_eq_set (x : Data) : ∀ (xs : List Data) (i : Nat), setItem x xs i = xs.set i x
  | [], _ => rfl
  | _ :: _, 0 => rfl
  | y :: xs, i + 1 => congrArg (y :: ·) (setItem_eq_set x xs i)

/-- What stands one step below data in which something was replaced below another step. -/
theorem step?_replaceAt {d x : Data} {t : Step} (hx : d.step? t = some x) (z : Data) (p : List Step) (u : Step) :
    (replaceAt z (t :: p) d).step? u = if u = t then some (replaceAt z p x) else d.step? u := by
  cases t with
  | key k =>
    cases d with
    | obj es =>
      have found : find? k es = some x := hx
      rw [replaceAt, found]
      cases u with
      | key l => simp [step?, get?, find?_put]
      | index j => rfl
    | _ => cases hx
  | index i =>
    cases d with
    | arr xs =>
      obtain ⟨inside, found⟩ : ¬ i < 0 ∧ xs[i.toNat]? = some x := by
        simpa only [step?, Option.ite_none_left_eq_some] using hx
      simp only [replaceAt, found, if_neg inside, setItem_eq_set]
      cases u with
      | key l => rfl
      | index j =>
        by_cases below : j < 0
        · have other : Step.index j ≠ .index i := fun same => inside (Step.index.inj same ▸ below)
          simp [step?, below, other]
        · have same : (Step.index j = .index i) ↔ i.toNat = j.toNat := by
            rw [Step.index.injEq]
            omega
          have bound : i.toNat < xs.length := (List.getElem?_eq_some_iff.1 found).1
          simp [step?, below, same, List.getElem?_set, bound]
    | _ => cases hx

theorem at?_replaceAt_self {z c : Data} : ∀ {p : List Step} {d : Data}, d.at? p = some c →
    (replaceAt z p d).at? p = some z
  | [], _, _ => by rw [replaceAt, at?]
  | t :: p, d, h => by
    obtain ⟨x, hx, hc⟩ := Option.bind_eq_some_iff.1 h
    rw [at?, step?_replaceAt hx, if_pos rfl]
    exact at?_replaceAt_self hc

/-- Replacing an empty container leaves the others where they stand. -/
theorem at?_replaceAt_of_ne {z c c' : Data} (empty : c.isEmptyContainer = true) (empty' : c'.isEmptyContainer = true) :
    ∀ {p q : List Step} {d : Data}, d.at? p = some c → d.at? q = some c' → q ≠ p →
      (replaceAt z p d).at? q = some c'
  | [], [], _, _, _, other => absurd rfl other
  | [], u :: q, d, h, h', _ => by
    cases h
    rw [at?, step?_of_empty empty] at h'
    cases h'
  | t :: p, [], d, h, h', _ => by
    cases h'
    rw [at?, step?_of_empty empty'] at h
    cases h
  | t :: p, u :: q, d, h, h', other => by
    obtain ⟨x, hx, hc⟩ := Option.bind_eq_some_iff.1 h
    rw [at?, step?_replaceAt hx]
    by_cases same : u = t
    · subst same
      rw [if_pos rfl]
      rw [at?, hx] at h'
      exact at?_replaceAt_of_ne empty empty' hc h' fun rest => other (rest ▸ rfl)
    · rw [if_neg same]
      exact h'

/-- The walk to a place takes the same path through exchanged data. -/
theorem Exchanged.walk_eq : ∀ {d e : Data} {place : List Step}, Exchanged d e → (e.walk place).1 = (d.walk place).1
  | _, _, [], _ => rfl
  | d, e, t :: place, h => by
    rw [walk, walk]
    cases hy : e.step? t with
    | some y =>
      obtain ⟨x, hx, related, -⟩ := h.at_step hy
      rw [hx]
      exact congrArg (t :: ·) (walk_eq related)
    | none =>
      cases hx : d.step? t with
      | none => exact walk_eq h
      | some x =>
        obtain ⟨y, hy', -⟩ := h.symm.at_step hx
        cases hy.symm.trans hy'

end Data

namespace Decode

/-- The state of a round after some of the refusals: the places of the empty containers among them are seen, and what
stands there is exchanged. -/
structure Rounded (d : Data) (done : List Refusal) (r : Repair) : Prop where
  exchanged : Data.Exchanged d r.data
  seen {p} : p ∈ r.seen ↔ ∃ q ∈ done, q.data.isEmptyContainer = true ∧ q.path? d = some p
  swapped {p c} : d.at? p = some c → c.isEmptyContainer = true → p ∈ r.seen → r.data.at? p = some c.exchanged
  kept {p c} : d.at? p = some c → c.isEmptyContainer = true → p ∉ r.seen → r.data.at? p = some c

theorem Rounded.start (d : Data) : Rounded d [] ⟨d, [], false⟩ where
  exchanged := .refl d
  seen := by simp
  swapped _ _ seen := nomatch seen
  kept there _ _ := there

/-- A place not seen yet resolves to an empty container as it does in the data at the start. -/
theorem Rounded.path? {d : Data} {done : List Refusal} {r : Repair} (h : Rounded d done r) {refusal : Refusal}
    (empty : refusal.data.isEmptyContainer = true) {p : List Step} (unseen : p ∉ r.seen) :
    r.data.resolve? refusal.place refusal.data = some p ↔ refusal.path? d = some p := by
  rw [Refusal.path?, Data.resolve?_eq_some_iff empty, Data.resolve?_eq_some_iff empty, h.exchanged.walk_eq]
  refine and_congr_right fun _ => ⟨fun there => ?_, fun there => h.kept there empty unseen⟩
  obtain ⟨c, hc, related⟩ := h.exchanged.at? there
  have kept := h.kept hc (Data.exchanged_empty related empty).1 unseen
  rw [hc, kept.symm.trans there]

theorem exists_mem_concat {α : Type} {p : α → Prop} {xs : List α} {x : α} :
    (∃ y ∈ xs ++ [x], p y) ↔ (∃ y ∈ xs, p y) ∨ p x := by
  simp [or_and_right, exists_or]

/-- A refusal at a place seen before changes nothing. -/
theorem Rounded.idle {d : Data} {done : List Refusal} {r : Repair} (h : Rounded d done r) {refusal : Refusal}
    (known : ∀ p, refusal.data.isEmptyContainer = true → refusal.path? d = some p → p ∈ r.seen) :
    Rounded d (done ++ [refusal]) r where
  exchanged := h.exchanged
  seen := by
    intro p
    rw [h.seen, exists_mem_concat]
    exact (or_iff_left_of_imp fun ⟨empty, path⟩ => h.seen.1 (known p empty path)).symm
  swapped := h.swapped
  kept := h.kept

theorem Rounded.exchange {d : Data} {done : List Refusal} {r : Repair} (h : Rounded d done r) {refusal : Refusal}
    (empty : refusal.data.isEmptyContainer = true) {p : List Step} (unseen : p ∉ r.seen)
    (path : refusal.path? d = some p) :
    Rounded d (done ++ [refusal]) ⟨Data.replaceAt refusal.data.exchanged p r.data, p :: r.seen, true⟩ := by
  have there : d.at? p = some refusal.data := Data.at?_of_resolve? path empty
  have there' : r.data.at? p = some refusal.data := h.kept there empty unseen
  refine ⟨h.exchanged.replaceAt empty there', ?_, ?_, ?_⟩
  · intro q
    rw [List.mem_cons, h.seen, exists_mem_concat, or_comm]
    refine or_congr_right ⟨?_, fun ⟨_, path'⟩ => Option.some.inj (path'.symm.trans path)⟩
    rintro rfl
    exact ⟨empty, path⟩
  · intro q c hq empty' seen
    by_cases same : q = p
    · subst same
      cases there.symm.trans hq
      exact Data.at?_replaceAt_self there'
    · have swapped := h.swapped hq empty' ((List.mem_cons.1 seen).resolve_left same)
      refine Data.at?_replaceAt_of_ne empty ?_ there' swapped same
      rcases Data.isEmptyContainer_cases empty' with rfl | rfl <;> rfl
  · intro q c hq empty' unseen'
    obtain ⟨other, unseen'⟩ := not_or.1 (mt List.mem_cons.2 unseen')
    exact Data.at?_replaceAt_of_ne empty empty' there' (h.kept hq empty' unseen') other

theorem Rounded.step {d : Data} {done : List Refusal} {r : Repair} (h : Rounded d done r) (refusal : Refusal) :
    Rounded d (done ++ [refusal]) (r.step refusal) := by
  unfold Repair.step
  split
  · next empty =>
    split
    · next path resolved =>
      split
      · next seen =>
        refine h.idle fun p _ path' => ?_
        by_contra unseen
        have same := ((h.path? empty unseen).2 path').symm.trans resolved
        rw [Option.some.inj same] at unseen
        exact unseen (List.contains_iff_mem.1 seen)
      · next unseen =>
        have unseen : path ∉ r.seen := fun seen => unseen (List.contains_iff_mem.2 seen)
        exact h.exchange empty unseen ((h.path? empty unseen).1 resolved)
    · next resolved =>
      refine h.idle fun p _ path' => ?_
      by_contra unseen
      cases ((h.path? empty unseen).2 path').symm.trans resolved
  · next content => exact h.idle fun p empty _ => absurd empty content

theorem Rounded.repair (d : Data) (refusals : List Refusal) : Rounded d refusals (repair d [] refusals) := by
  have run : ∀ (rs done : List Refusal) (r : Repair), Rounded d done r →
      Rounded d (done ++ rs) (rs.foldl Repair.step r) := by
    intro rs
    induction rs with
    | nil =>
      intro done r h
      rwa [List.append_nil]
    | cons refusal rs ih =>
      intro done r h
      have rest := ih _ _ (h.step refusal)
      rwa [List.append_assoc] at rest
  exact run refusals [] _ (.start d)

/-- A round exchanges what is refused. -/
theorem swaps_repair (s : Shape) (d : Data) : Swaps (· = s) d (repair d [] (Check.refusals (check d s))).data := by
  have round := Rounded.repair d (Check.refusals (check d s))
  have seen {p : List Step} : p ∈ (repair d [] (Check.refusals (check d s))).seen ↔ ∃ u, u = s ∧ Refuses u d p := by
    rw [round.seen, exists_eq_left]
    rfl
  exact ⟨round.exchanged, fun there empty refused => round.swapped there empty (seen.2 refused),
    fun there empty refused => round.kept there empty (mt seen.1 refused)⟩

/-- A round that changes nothing leaves the data as they are. -/
theorem data_repair_of_unchanged {d : Data} {refusals : List Refusal} (h : (repair d [] refusals).changed = false) :
    (repair d [] refusals).data = d := by
  have run : ∀ (rs : List Refusal) (r : Repair),
      rs.foldl Repair.step r = r ∨ (rs.foldl Repair.step r).changed = true := by
    intro rs
    induction rs with
    | nil => exact fun r => .inl rfl
    | cons refusal rs ih =>
      intro r
      rw [List.foldl_cons]
      rcases r.step_cases refusal with same | ⟨path, c, -, -, -, changed⟩
      · rw [same]
        exact ih r
      · refine .inr ((ih _).elim (fun same => ?_) id)
        rw [same, changed]
  rcases run refusals ⟨d, [], false⟩ with same | changed
  · exact congrArg Repair.data same
  · cases h.symm.trans changed

theorem exists_checkPlainly_iff {s : Shape} {d : Data} : (∃ v, checkPlainly s d = .ok v) ↔ s.takes d = true := by
  rw [checkPlainly, Shape.takes]
  cases check d s <;> simp

theorem exists_checkRepairing_of_takes {s : Shape} {d : Data} (taken : s.takes d = true) (lenient : Bool) (fuel : Nat)
    (seen : List (List Step)) : ∃ v, checkRepairing s lenient fuel seen d = .ok v := by
  obtain ⟨v, plain⟩ := exists_checkPlainly_iff.2 taken
  have only := tries_eq_singleton fuel seen (.inr ⟨v, plain⟩ : lenient = false ∨ _)
  exact ⟨v, (checkRepairing_eq_ok_iff s lenient v fuel seen d).2 ⟨d, by rw [only]; rfl, plain⟩⟩

/-- One round of repairs is enough. -/
theorem checkRepairing_complete {s : Shape} {d d' : Data} (concord : s.Concord s) (readable : d.Readable)
    (clear : ¬ Ambiguous s d) (exchanged : Data.Exchanged d d') (taken : s.takes d' = true) (fuel : Nat) :
    (∃ v, checkRepairing s true (fuel + 1) [] d = .ok v) ∨
      isRepairable d = false ∧ checkRepairing s true (fuel + 1) [] d = .error .nesting := by
  cases own : s.takes d with
  | true => exact .inl (exists_checkRepairing_of_takes own true (fuel + 1) [])
  | false =>
    have together : Together (· = s) d := ⟨by rintro _ _ rfl rfl; exact concord, by rintro _ rfl; exact clear⟩
    have good : s.takes (repair d [] (Check.refusals (check d s))).data = true :=
      (swaps_repair s d).takes (Nat.lt_succ_self d.brackets) readable together exchanged rfl taken
    rw [Shape.takes] at own
    cases checked : check d s with
    | ok m =>
      rw [checked] at own
      cases own
    | error refusals =>
      rw [checked] at good
      rw [checkRepairing, checked]
      cases repairable : isRepairable d with
      | false => exact .inr ⟨rfl, rfl⟩
      | true =>
        cases changed : (repair d [] refusals).changed with
        | true =>
          simp only [changed]
          exact .inl (exists_checkRepairing_of_takes good true fuel _)
        | false =>
          rw [Check.refusals_error, data_repair_of_unchanged changed, Shape.takes, checked] at good
          cases good

end Decode

/-- **Lenient decoding is complete.**  A reply for which some exchange of empty containers is good for the response of
the request is decoded, whatever else its objects hold, unless an object that is checked against a union has a property
with the name of one of the branches.  Only a reply that nests too deep to be repaired is given up. -/
theorem decode_complete (r : Request) {source : String} {d d' : Data} (read : Data.ofJson source = .ok d)
    (exchanged : Data.Exchanged d d') (valid : ∃ v, Decode.checkPlainly r.response d' = .ok v)
    (clear : ¬ Ambiguous r.response d) :
    (∃ v, decode r.response r.isLenient source = .ok v) ∨
      Decode.isRepairable d = false ∧ decode r.response r.isLenient source = .error .nesting := by
  rw [decode, read]
  exact Decode.checkRepairing_complete r.concord_response (Json.ofJson_readable read).1 clear exchanged
    (Decode.exists_checkPlainly_iff.1 valid) _

/-- The reply to a code action with an edit that was written as a list, and with a property that no model has. -/
theorem decode_complete_edit :
    let r := Request.codeAction
    let source := "[\x7b\"title\": \"Fix\", \"edit\": [], \"note\": \x7b\x7d\x7d]"
    let d := Data.arr [.obj [("title", .str "Fix"), ("edit", .arr []), ("note", .obj [])]]
    let d' := Data.arr [.obj [("title", .str "Fix"), ("edit", .obj []), ("note", .obj [])]]
    Data.ofJson source = .ok d ∧ Data.Exchanged d d' ∧ (∃ v, Decode.checkPlainly r.response d' = .ok v) ∧
      ¬ Ambiguous r.response d ∧ ∃ v, decode r.response r.isLenient source = .ok v := by
  intro r source d d'
  have read : Data.ofJson source = .ok d := (Data.ofJson_ofList _).trans rfl
  have exchanged : Data.Exchanged d d' := ⟨⟨rfl, rfl, rfl, ⟨rfl, rfl⟩, rfl, trivial, trivial⟩, trivial⟩
  have valid : ∃ v, Decode.checkPlainly r.response d' = .ok v := ⟨_, rfl⟩
  have clear : ¬ Ambiguous r.response d := by
    have none : ∀ m : Model,
        Data.get? m.name (.obj [("title", .str "Fix"), ("edit", .arr []), ("note", .obj [])]) = none := by
      intro m
      cases m <;> decide
    exact not_ambiguous_of_keys ⟨fun _ => rfl,
      ⟨none, fun _ => rfl, ⟨fun _ => rfl, trivial⟩, ⟨fun _ => rfl, trivial⟩, trivial⟩, trivial⟩
  exact ⟨read, exchanged, valid, clear,
    (decode_complete r read exchanged valid clear).resolve_right fun deep => absurd deep.1 (by decide)⟩

/-- The items of a completion are not repaired beside a property with the name of the branch. -/
theorem decode_misses_items :
    let r := Request.completion
    let source := "\x7b\"isIncomplete\": false, \"items\": \x7b\x7d, \"CompletionList\": null\x7d"
    let d := Data.obj [("isIncomplete", .bool false), ("items", .obj []), ("CompletionList", .null)]
    let d' := Data.obj [("isIncomplete", .bool false), ("items", .arr []), ("CompletionList", .null)]
    Data.ofJson source = .ok d ∧ Data.Exchanged d d' ∧
      (∃ v, Decode.checkPlainly r.response d' = .ok v) ∧ Decode.isRepairable d = true ∧
      ∀ v, decode r.response r.isLenient source ≠ .ok v := by
  intro r source d d'
  have read : Data.ofJson source = .ok d := (Data.ofJson_ofList _).trans rfl
  have refused : ∃ e, decode r.response r.isLenient source = .error e := by
    rw [decode, read]
    exact ⟨_, rfl⟩
  obtain ⟨e, refused⟩ := refused
  refine ⟨read, ⟨rfl, rfl, rfl, ⟨rfl, rfl⟩, rfl, rfl, trivial⟩, ⟨_, rfl⟩, rfl, fun v decoded => ?_⟩
  cases refused.symm.trans decoded

end ServerTrial
