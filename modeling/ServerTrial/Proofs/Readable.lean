import ServerTrial.Proofs.NumberText
import ServerTrial.Proofs.Respelling

/-!
# What JSON texts hold

* `Data.All p`: something holds of the data at every place;
* `Data.Regular`: floats are finite and texts whole; `Data.Readable`: integers are short, keys distinct, no dates;
* `Json.ofJson_readable`: what is read is readable, and nests no deeper than is read.
-/

namespace ServerTrial

namespace Data

/-! ### At every place -/

mutual

/-- Something holds of the data at every place. -/
def All (p : Data → Prop) : Data → Prop
  | arr xs => p (arr xs) ∧ AllItems p xs
  | obj es => p (obj es) ∧ AllEntries p es
  | d => p d

def AllItems (p : Data → Prop) : List Data → Prop
  | [] => True
  | x :: xs => All p x ∧ AllItems p xs

def AllEntries (p : Data → Prop) : List (String × Data) → Prop
  | [] => True
  | (_, x) :: es => All p x ∧ AllEntries p es

end

section All

variable {p q : Data → Prop}

theorem allItems_iff {xs : List Data} : AllItems p xs ↔ ∀ x ∈ xs, x.All p := by
  induction xs with
  | nil => simp [AllItems]
  | cons x xs ih => rw [AllItems, ih, List.forall_mem_cons]

theorem allEntries_iff {es : List (String × Data)} : AllEntries p es ↔ ∀ e ∈ es, e.2.All p := by
  induction es with
  | nil => simp [AllEntries]
  | cons e es ih => rw [AllEntries, ih, List.forall_mem_cons]

theorem all_arr_iff {xs : List Data} : (arr xs).All p ↔ p (arr xs) ∧ ∀ x ∈ xs, x.All p := by
  rw [All, allItems_iff]

theorem all_obj_iff {es : List (String × Data)} : (obj es).All p ↔ p (obj es) ∧ ∀ e ∈ es, e.2.All p := by
  rw [All, allEntries_iff]

end All

/-! ### What a text can hold -/

/-- A float is finite, texts and keys have no lone surrogates. -/
def IsRegular : Data → Prop
  | float x => x.isFinite = true
  | str s => Text.isWhole s = true
  | obj es => ∀ e ∈ es, Text.isWhole e.1 = true
  | _ => True

/-- An integer has no more digits than are read, an object has each key once, and there is no date. -/
def IsReadable : Data → Prop
  | int n => n.natAbs < 10 ^ digitLimit
  | moment _ => False
  | obj es => (es.map Prod.fst).Nodup
  | _ => True

/-- No place is irregular. -/
def Regular (d : Data) : Prop := d.All IsRegular

/-- All places are such as JSON texts have. -/
def Readable (d : Data) : Prop := d.All IsReadable

/-! ### Brackets -/

mutual

/-- How deep brackets nest in the data. -/
def brackets : Data → Nat
  | arr xs => bracketsOfItems xs + 1
  | obj es => bracketsOfEntries es + 1
  | _ => 0

def bracketsOfItems : List Data → Nat
  | [] => 0
  | x :: xs => max (brackets x) (bracketsOfItems xs)

def bracketsOfEntries : List (String × Data) → Nat
  | [] => 0
  | (_, x) :: es => max (brackets x) (bracketsOfEntries es)

end

theorem bracketsOfItems_le {xs : List Data} {n : Nat} : bracketsOfItems xs ≤ n ↔ ∀ x ∈ xs, x.brackets ≤ n := by
  induction xs with
  | nil => simp [bracketsOfItems]
  | cons x xs ih => rw [bracketsOfItems, Nat.max_le, ih, List.forall_mem_cons]

theorem bracketsOfEntries_le {es : List (String × Data)} {n : Nat} :
    bracketsOfEntries es ≤ n ↔ ∀ e ∈ es, e.2.brackets ≤ n := by
  induction es with
  | nil => simp [bracketsOfEntries]
  | cons e es ih => rw [bracketsOfEntries, Nat.max_le, ih, List.forall_mem_cons]

/-! ### Collected entries -/

theorem keys_put {α : Type} (key : String) (x : α) (es : List (String × α)) :
    (put key x es).map Prod.fst = if key ∈ es.map Prod.fst then es.map Prod.fst else es.map Prod.fst ++ [key] := by
  induction es with
  | nil => rfl
  | cons e es ih =>
    obtain ⟨k, y⟩ := e
    rw [put]
    by_cases same : k = key
    · simp [same]
    · rw [if_neg same]
      simp only [List.map_cons, ih]
      by_cases there : key ∈ es.map Prod.fst
      · rw [if_pos there, if_pos (List.mem_cons_of_mem _ there)]
      · rw [if_neg there, if_neg (by simpa [Ne.symm same] using there), List.cons_append]

theorem nodup_put {α : Type} {key : String} {x : α} {es : List (String × α)} (h : (es.map Prod.fst).Nodup) :
    ((put key x es).map Prod.fst).Nodup := by
  rw [keys_put]
  split
  · exact h
  · next new =>
    refine List.nodup_append.2 ⟨h, by simp, ?_⟩
    rintro k hk _ hkey rfl
    rw [List.mem_singleton.1 hkey] at hk
    exact new hk

theorem mem_put {α : Type} {key : String} {x : α} {e : String × α} {es : List (String × α)} (h : e ∈ put key x es) :
    e = (key, x) ∨ e ∈ es := by
  induction es with
  | nil => exact .inl (List.mem_singleton.1 h)
  | cons f es ih =>
    rw [put] at h
    split at h
    · next same =>
      rcases List.mem_cons.1 h with rfl | h
      · exact .inl (by rw [same])
      · exact .inr (List.mem_cons_of_mem f h)
    · rcases List.mem_cons.1 h with rfl | h
      · exact .inr List.mem_cons_self
      · exact (ih h).imp_right (List.mem_cons_of_mem f)

theorem collect_spec {α : Type} (es : List (String × α)) :
    ((collect es).map Prod.fst).Nodup ∧ ∀ e ∈ collect es, e ∈ es := by
  have run : ∀ (rest done : List (String × α)), (done.map Prod.fst).Nodup →
      ((rest.foldl (fun acc e => put e.1 e.2 acc) done).map Prod.fst).Nodup ∧
        ∀ e ∈ rest.foldl (fun acc e => put e.1 e.2 acc) done, e ∈ done ∨ e ∈ rest := by
    intro rest
    induction rest with
    | nil => exact fun done distinct => ⟨distinct, fun e he => .inl he⟩
    | cons f rest ih =>
      intro done distinct
      obtain ⟨nodup, mem⟩ := ih (put f.1 f.2 done) (nodup_put distinct)
      refine ⟨nodup, fun e he => ?_⟩
      rcases mem e he with h | h
      · rcases mem_put h with rfl | h
        · exact .inr List.mem_cons_self
        · exact .inl h
      · exact .inr (List.mem_cons_of_mem f h)
  obtain ⟨nodup, mem⟩ := run es [] List.nodup_nil
  exact ⟨nodup, fun e he => (mem e he).resolve_left List.not_mem_nil⟩

end Data


/-! ### What is read -/

namespace Json

theorem natural_lt {ds : List Char} (digits : ∀ c ∈ ds, isDigit c = true) : natural ds < 10 ^ ds.length := by
  have run : ∀ (ds : List Char) (n : Nat), (∀ c ∈ ds, isDigit c = true) →
      ds.foldl (fun n c => 10 * n + (c.toNat - 48)) n < 10 ^ ds.length * (n + 1) := by
    intro ds
    induction ds with
    | nil => intro n _; simp
    | cons c ds ih =>
      intro n digits
      have digit := digits c List.mem_cons_self
      simp only [isDigit, Bool.and_eq_true, decide_eq_true_eq] at digit
      have upper : c.toNat ≤ 57 := digit.2
      rw [List.foldl_cons, List.length_cons, Nat.pow_succ, Nat.mul_assoc]
      refine lt_of_lt_of_le (ih _ fun x hx => digits x (List.mem_cons_of_mem c hx)) ?_
      exact Nat.mul_le_mul_left _ (by omega)
  have := run ds 0 digits
  rwa [Nat.zero_add, Nat.mul_one] at this

theorem wholeDigits_digits {cs ds rest : List Char} (h : wholeDigits cs = some (ds, rest)) :
    ∀ c ∈ ds, isDigit c = true := by
  unfold wholeDigits at h
  split at h
  · cases h
    simp
    rfl
  · next c cs _ =>
    split at h
    · rw [List.span_eq_takeWhile_dropWhile] at h
      cases h
      exact fun x hx => List.mem_takeWhile_imp hx
    · cases h
  · cases h

theorem natAbs_signed (negative : Bool) (n : Nat) : (if negative = true then -(n : Int) else n).natAbs = n := by
  cases negative <;> simp

theorem number?_readable {cs rest : List Char} {d : Data} (h : number? cs = some (.ok (d, rest))) :
    d.Readable ∧ d.brackets = 0 := by
  unfold number? at h
  dsimp only at h
  split at h
  · cases h
  · next whole tail read =>
    have bound := natural_lt (wholeDigits_digits read)
    cases dot : fraction tail with
    | some p =>
      simp only [dot] at h
      cases power : exponent p.2 with
      | some q =>
        simp only [power] at h
        cases h
        exact ⟨trivial, rfl⟩
      | none =>
        simp only [power] at h
        cases h
        exact ⟨trivial, rfl⟩
    | none =>
      simp only [dot] at h
      cases power : exponent tail with
      | some q =>
        simp only [power] at h
        cases h
        exact ⟨trivial, rfl⟩
      | none =>
        simp only [power, Bool.false_eq_true, if_false, List.append_nil] at h
        split at h
        · cases h
        · next short =>
          obtain ⟨same, -⟩ := Prod.mk.inj (Except.ok.inj (Option.some.inj h))
          subst same
          refine ⟨?_, rfl⟩
          have small : natural whole < 10 ^ digitLimit :=
            Nat.lt_of_lt_of_le bound (Nat.pow_le_pow_right (by decide) (Nat.not_lt.1 short))
          show Int.natAbs (if _ = true then _ else _) < _
          rwa [natAbs_signed]

theorem scalar_readable {cs rest : List Char} {d : Data} (h : scalar cs = .ok (d, rest)) :
    d.Readable ∧ d.brackets = 0 := by
  unfold scalar at h
  split at h
  · cases h
    exact ⟨trivial, rfl⟩
  split at h
  · cases h
    exact ⟨trivial, rfl⟩
  split at h
  · cases h
    exact ⟨trivial, rfl⟩
  split at h
  · cases h
    exact ⟨trivial, rfl⟩
  split at h
  · cases h
    exact ⟨trivial, rfl⟩
  split at h
  · cases h
    exact ⟨trivial, rfl⟩
  split at h
  · next r number =>
    rw [h] at number
    exact number?_readable number
  · cases h

/-- **What is read is readable, and nests no deeper than is read.** -/
theorem read_readable (fuel : Nat) :
    (∀ depth cs d rest, depth ≤ nestingLimit → value fuel depth cs = .ok (d, rest) →
      d.Readable ∧ depth + d.brackets ≤ nestingLimit) ∧
    (∀ depth cs xs rest, depth ≤ nestingLimit → items fuel depth cs = .ok (xs, rest) →
      ∀ x ∈ xs, x.Readable ∧ depth + x.brackets ≤ nestingLimit) ∧
    (∀ depth cs es rest, depth ≤ nestingLimit → members fuel depth cs = .ok (es, rest) →
      ∀ e ∈ es, e.2.Readable ∧ depth + e.2.brackets ≤ nestingLimit) := by
  induction fuel with
  | zero =>
    refine ⟨?_, ?_, ?_⟩
    · intro depth cs d rest _ h; rw [value] at h; cases h
    · intro depth cs d rest _ h; rw [items] at h; cases h
    · intro depth cs d rest _ h; rw [members] at h; cases h
  | succ fuel ih =>
    obtain ⟨ihValue, ihItems, ihMembers⟩ := ih
    refine ⟨?_, ?_, ?_⟩
    · intro depth cs d rest bound h
      unfold value at h
      split at h
      · split at h
        · cases h
          exact ⟨trivial, bound⟩
        · cases h
      · split at h
        · cases h
        · next deeper =>
          split at h
          · cases h
            exact ⟨⟨trivial, trivial⟩, Nat.lt_of_not_ge deeper⟩
          · split at h
            · next xs rest' read =>
              cases h
              have parts := ihItems _ _ _ _ (by omega) read
              refine ⟨Data.all_arr_iff.2 ⟨trivial, fun x hx => (parts x hx).1⟩, ?_⟩
              have most : Data.bracketsOfItems xs ≤ nestingLimit - (depth + 1) :=
                Data.bracketsOfItems_le.2 fun x hx => by have := (parts x hx).2; omega
              rw [Data.brackets]
              omega
            · cases h
      · split at h
        · cases h
        · next deeper =>
          split at h
          · cases h
            exact ⟨⟨List.nodup_nil, trivial⟩, Nat.lt_of_not_ge deeper⟩
          · split at h
            · next es rest' read =>
              cases h
              have parts := ihMembers _ _ _ _ (by omega) read
              obtain ⟨distinct, mem⟩ := Data.collect_spec es
              refine ⟨Data.all_obj_iff.2 ⟨distinct, fun e he => (parts e (mem e he)).1⟩, ?_⟩
              have most : Data.bracketsOfEntries (Data.collect es) ≤ nestingLimit - (depth + 1) :=
                Data.bracketsOfEntries_le.2 fun e he => by have := (parts e (mem e he)).2; omega
              rw [Data.brackets]
              omega
            · cases h
      · obtain ⟨readable, one⟩ := scalar_readable h
        exact ⟨readable, by omega⟩
    · intro depth cs xs rest bound h
      rw [items] at h
      split at h
      · cases h
      · next x rest' first =>
        have head := ihValue _ _ _ _ bound first
        split at h
        · cases h
          simpa using head
        · split at h
          · next others rest'' read =>
            cases h
            exact List.forall_mem_cons.2 ⟨head, ihItems _ _ _ _ bound read⟩
          · cases h
        · cases h
    · intro depth cs es rest bound h
      unfold members at h
      split at h
      · split at h
        · cases h
        · split at h
          · split at h
            · cases h
            · next x rest' first =>
              have head := ihValue _ _ _ _ bound first
              split at h
              · cases h
                simpa using head
              · split at h
                · next others rest'' read =>
                  cases h
                  exact List.forall_mem_cons.2 ⟨head, ihMembers _ _ _ _ bound read⟩
                · cases h
              · cases h
          · cases h
      · cases h

/-- A document that is read is readable. -/
theorem ofJson_readable {text : String} {d : Data} (h : Data.ofJson text = .ok d) :
    d.Readable ∧ d.brackets ≤ nestingLimit := by
  unfold Data.ofJson document at h
  split at h
  · cases h
  · split at h
    · cases h
    · next x rest read =>
      split at h
      · cases h
        have parts := (read_readable _).1 _ _ _ _ (Nat.zero_le _) read
        exact ⟨parts.1, by omega⟩
      · cases h

end Json

end ServerTrial
