import ServerTrial.Proofs.Decoded

/-!
# Shapes that can be told apart

The branches of a union overlap in the data that they take, but hardly in the data that their values stand for.

* `Shape.differs a b`, `Model.apart a b`: a value of `a` stands for data that `b` refuses, as the kind of the data says,
  or a field that `b` reads;
* `Shape.prevails a b`: `b` refuses them, or its value loses against the one of `a`;
* `Shape.isSettled`: the branches of all unions in a shape prevail over each other; `Model.fields_of_isSettled`: they do
  so in the models that replies are made of.
-/

namespace ServerTrial

/-! ### Kinds of data -/

/-- The kinds of data by which shapes are told apart. -/
inductive Form where
  | text | array | object
  deriving DecidableEq

/-- The kind of data. -/
def Data.form? : Data → Option Form
  | str _ => some .text
  | arr _ => some .array
  | obj _ => some .object
  | _ => none

/-- The only kind of data that a shape takes, and that its values stand for. -/
def Shape.form? : Shape → Option Form
  | .text | .word _ => some .text
  | .list _ | .pair _ _ => some .array
  | .model _ | .table _ => some .object
  | _ => none

theorem Fits.form {s : Shape} {v : Value} {x : Form} (h : Fits s v) (hx : s.form? = some x) :
    v.content.form? = some x := by
  cases h <;> first
    | exact hx
    | cases hx

theorem Checks.form {d : Data} {s : Shape} {v : Value} {x : Form} (h : Checks d s v) (hx : s.form? = some x) :
    d.form? = some x := by
  cases h <;> first
    | exact hx
    | cases hx

namespace Shape

/-- Do the shapes take data of different kinds, or different words? -/
def differs : Shape → Shape → Bool
  | .word v, .word w => v != w
  | a, b =>
    match a.form?, b.form? with
    | some x, some y => x != y
    | _, _ => false

/-- The shape of what is not null. -/
def bare : Shape → Shape
  | .optional inner => inner
  | s => s

mutual

/-- Are no values of the shape null? -/
def isSolid : Shape → Bool
  | .any | .optional _ => false
  | .union branches => areSolid branches
  | _ => true

def areSolid : List Shape → Bool
  | [] => true
  | s :: rest => isSolid s && areSolid rest

end

theorem isSolid_of_mem {s : Shape} : ∀ {shapes : List Shape}, areSolid shapes = true → s ∈ shapes → s.isSolid = true
  | t :: shapes, h, hs => by
    rw [areSolid, Bool.and_eq_true] at h
    rcases List.mem_cons.1 hs with rfl | hs
    · exact h.1
    · exact isSolid_of_mem h.2 hs

end Shape

theorem Fits.solid {s : Shape} {v : Value} (h : Fits s v) (solid : s.isSolid = true) : v.isNull = false := by
  induction h with
  | any d => cases solid
  | null inner => cases solid
  | given some _ _ => exact some
  | branch hs _ ih => exact ih (Shape.isSolid_of_mem solid hs)
  | _ => rfl

theorem Fits.bare {s : Shape} {v : Value} (h : Fits s v) (some : v.isNull = false) : Fits s.bare v := by
  cases s with
  | optional inner =>
    cases h with
    | null => cases some
    | given _ fits => exact fits
  | _ => exact h

theorem Checks.bare {d : Data} {s : Shape} {v : Value} (h : Checks d s v) (some : d ≠ .null) : Checks d s.bare v := by
  cases s with
  | optional inner =>
    cases h with
    | null => exact absurd rfl some
    | given _ checks => exact checks
  | _ => exact h

/-- What a value of one shape stands for is refused by a shape that differs. -/
theorem Shape.refuses_of_differs {a b : Shape} {v w : Value} (h : a.differs b = true) (fits : Fits a v) :
    ¬ Checks v.content b w := by
  intro checks
  unfold Shape.differs at h
  split at h
  · cases fits
    cases checks
    simp at h
  · split at h
    · next x y hx hy =>
      have same : some x = some y := (fits.form hx).symm.trans (checks.form hy)
      cases same
      simp at h
    · cases h

/-- Differing shapes are told apart by data that are not null. -/
theorem Shape.form_of_differs {a b : Shape} {v : Value} (h : a.differs b = true) (fits : Fits a v) :
    v.content ≠ .null := by
  intro null
  unfold Shape.differs at h
  split at h
  · cases fits
    cases null
  · split at h
    · next x y hx hy =>
      have form := fits.form hx
      rw [null] at form
      cases form
    · cases h

/-! ### Records -/

/-- A field of the second model is refused, or missing, in data that a record of the first one stands for. -/
def Model.apart (a b : Model) : Bool :=
  b.fields.any fun g =>
    (a.fields.all fun f =>
      f.label.key != g.label.key && f.label.key != g.label.name || f.shape.bare.differs g.shape.bare) &&
    (g.default.isNone || a.fields.any fun f => f.label.key == g.label.key && f.shape.isSolid)

theorem Check.key_of_given? {α : Type} {l : Label} {es : List (String × α)} {e : String × α}
    (h : given? l es = some e) : e.1 = l.key ∨ e.1 = l.name := by
  unfold given? at h
  split at h
  · cases h
    exact .inl rfl
  · obtain ⟨x, -, rfl⟩ := Option.map_eq_some_iff.1 h
    exact .inr rfl

/-- What stands under the key of a field is given. -/
theorem Check.given?_of_mem {α : Type} {l : Label} {x : α} {es : List (String × α)} (distinct : (es.map Prod.fst).Nodup)
    (h : (l.key, x) ∈ es) : given? l es = some (l.key, x) := by
  rw [given?, Data.find?_of_mem distinct h]

section Records

variable {m : Model} {vs : List (Label × Value)} {extras : List (String × Data)}

/-- The data of a record are its fields that are not null. -/
theorem Fits.content_record (closed : m.isOpen = false) (h : Fits (.model m) (.record m vs extras)) :
    (Value.record m vs extras).content = .obj (Value.contentOfFields vs) := by
  cases h with
  | model _ _ none =>
    rw [none closed, Value.content, List.filter_nil, List.append_nil]

end Records

/-- What a record of a model stands for is refused by a model apart from it. -/
theorem Model.refuses_of_apart {a b : Model} {v w : Value} (h : a.apart b = true) (closed : a.isOpen = false)
    (fits : Fits (.model a) v) : ¬ Checks v.content (.model b) w := by
  intro checks
  cases fits with
  | @model _ vs extras labels parts none =>
    rw [(Fits.model labels parts none).content_record closed] at checks
    cases checks with
    | @model _ _ ws labels' checked defaults =>
      obtain ⟨g, hg, differs⟩ := List.any_eq_true.1 h
      obtain ⟨read, present⟩ := Bool.and_eq_true_iff.1 differs
      obtain ⟨p, hp⟩ := exists_zip_mem (length_eq_of_map_eq labels').symm hg
      cases given : Check.given? g.label (Value.contentOfFields vs) with
      | some e =>
        -- what `g` reads is a field of the record, from which the shape of `g` differs
        obtain ⟨q, hq, some, rfl⟩ := Value.mem_contentOfFields.1 (Check.mem_of_given? given)
        obtain ⟨f, hf⟩ := exists_mem_zip (length_eq_of_map_eq labels).symm hq
        have label : f.label = q.1 := eq_of_mem_zip labels.symm hf
        have other := List.all_eq_true.1 read f (List.of_mem_zip hf).1
        have key := Check.key_of_given? given
        dsimp only at key
        rw [← label] at key
        have differs : f.shape.bare.differs g.shape.bare = true := by
          rcases key with key | key <;> simpa [key] using other
        have part : Fits f.shape.bare q.2 := (parts (f, q) hf).bare some
        exact Shape.refuses_of_differs differs part
          ((checked (g, p) hp _ _ given).bare (Shape.form_of_differs differs part))
      | none =>
        -- `g` has to be given, or a field that is never null stands under its key
        have default := defaults (g, p) hp given
        dsimp only at default
        rw [default, Option.isNone_some, Bool.false_or, List.any_eq_true] at present
        obtain ⟨f, hf, solid⟩ := present
        obtain ⟨key, solid⟩ := Bool.and_eq_true_iff.1 solid
        obtain ⟨q, hq⟩ := exists_zip_mem (length_eq_of_map_eq labels).symm hf
        have label : f.label = q.1 := eq_of_mem_zip labels.symm hq
        have there : (g.label.key, q.2.content) ∈ Value.contentOfFields vs := by
          refine Value.mem_contentOfFields.2 ⟨q, (List.of_mem_zip hq).2, (parts (f, q) hq).solid solid, ?_⟩
          rw [← beq_iff_eq.1 key, label]
        rw [Check.given?_of_mem (Model.keys_content_nodup labels) there] at given
        cases given

/-! ### Unions -/

namespace Shape

/-- Is what a value of the first shape stands for refused by the second one, or does the second one make a value of it
that loses?  A text may spell a number, and a location without its range is one as well. -/
def prevails : Shape → Shape → Bool
  | .model a, .model b => a.apart b || a == .location && b == .workspaceSymbolLocation
  | .list (.model a), .list (.model b) => a.apart b
  | .text, .whole => true
  | .whole, .text => true
  | a, b => a.differs b

mutual

/-- Are the branches of all unions in the shape settled, and its models parts of replies? -/
def isSettled : Shape → Bool
  | .model m => m.isReply
  | .list item => isSettled item
  | .pair a b => isSettled a && isSettled b
  | .table entry => isSettled entry
  | .optional inner => isSettled inner
  | .union branches => areSettled branches
  | _ => true

/-- Does each branch prevail over the others? -/
def areSettled : List Shape → Bool
  | [] => true
  | s :: rest => isSettled s && rest.all (fun t => s.prevails t && t.prevails s) && areSettled rest

end

theorem isSettled_of_mem {s : Shape} :
    ∀ {shapes : List Shape}, areSettled shapes = true → s ∈ shapes → s.isSettled = true
  | t :: shapes, h, hs => by
    rw [areSettled, Bool.and_eq_true, Bool.and_eq_true] at h
    rcases List.mem_cons.1 hs with rfl | hs
    · exact h.1.1
    · exact isSettled_of_mem h.2 hs

/-- Of two branches of a settled union each prevails over the other one. -/
theorem prevails_of_mem {s t : Shape} :
    ∀ {shapes : List Shape}, areSettled shapes = true → s ∈ shapes → t ∈ shapes → s = t ∨ s.prevails t = true
  | u :: shapes, h, hs, ht => by
    rw [areSettled, Bool.and_eq_true, Bool.and_eq_true, List.all_eq_true] at h
    rcases List.mem_cons.1 hs with rfl | later
    · rcases List.mem_cons.1 ht with rfl | later'
      · exact .inl rfl
      · exact .inr (Bool.and_eq_true_iff.1 (h.1.2 t later')).1
    · rcases List.mem_cons.1 ht with rfl | later'
      · exact .inr (Bool.and_eq_true_iff.1 (h.1.2 s later)).2
      · exact prevails_of_mem h.2 later later'

end Shape

/-- Is the field never null, or null when left out? -/
def Field.isPlain (f : Field) : Bool :=
  match f.shape, f.default with
  | .optional _, some (.plain .null) => true
  | s, _ => s.isSolid

namespace Model

/-- The models that replies are made of are settled. -/
theorem fields_of_isSettled {m : Model} (h : m.isReply = true) {f : Field} (hf : f ∈ m.fields) :
    f.shape.isSettled = true ∧ f.isPlain = true := by
  have all : m.isReply = false ∨ (m.fields.all fun f => f.shape.isSettled && f.isPlain) = true := by
    cases m <;> first
      | exact .inl rfl
      | exact .inr (by decide +kernel)
  rcases all with no | all
  · rw [no] at h
    cases h
  · exact Bool.and_eq_true_iff.1 (List.all_eq_true.1 all f hf)

/-- No field has the name of another one for its key. -/
theorem label_of_name {m : Model} {f g : Field} (hf : f ∈ m.fields) (hg : g ∈ m.fields)
    (same : f.label.name = g.label.key) : f.label = g.label := by
  have all : (m.fields.all fun f => m.fields.all fun g => f.label.name != g.label.key || f.label == g.label) = true := by
    cases m <;> decide +kernel
  have own := List.all_eq_true.1 (List.all_eq_true.1 all f hf) g hg
  simpa [same] using own

end Model

end ServerTrial
