import ServerTrial.Proofs.StringText
import ServerTrial.Proofs.JsonText

/-!
# JSON on one line

A JSON text holds no control characters (`Data.toJson_printable`), so it is one line, whatever texts the data hold.
-/

namespace ServerTrial

/-- No character of the text is a control character. -/
def Printable (cs : List Char) : Prop := ∀ c ∈ cs, 0x20 ≤ c.toNat

namespace Printable

variable {cs ds : List Char}

theorem nil : Printable [] := List.forall_mem_nil _

theorem append (front : Printable cs) (back : Printable ds) : Printable (cs ++ ds) :=
  List.forall_mem_append.2 ⟨front, back⟩

theorem of_sublist (h : Printable ds) (sub : cs.Sublist ds) : Printable (String.ofList cs).toList := by
  rw [String.toList_ofList]
  exact fun c hc => h c (sub.subset hc)

theorem cons {c : Char} (first : 0x20 ≤ c.toNat) (rest : Printable cs) : Printable (c :: cs) :=
  List.forall_mem_cons.2 ⟨first, rest⟩

theorem flatMap {α : Type} {xs : List α} {f : α → List Char} (each : ∀ x ∈ xs, Printable (f x)) :
    Printable (xs.flatMap f) := fun c hc => by
  obtain ⟨x, hx, hc⟩ := List.mem_flatMap.1 hc
  exact each x hx c hc

/-- Checked character by character. -/
theorem ofAll (all : (cs.all fun c => 0x20 ≤ c.toNat) = true) : Printable (String.ofList cs).toList := by
  rw [String.toList_ofList]
  exact fun c hc => of_decide_eq_true (List.all_eq_true.1 all c hc)

theorem notMem_return (h : Printable cs) : '\r' ∉ cs := fun inside => absurd (h _ inside) (by decide)

end Printable

theorem printable_digits (n : ℕ) : Printable (Nat.toDigits 10 n) := fun c hc => by
  have digit := Json.digits_toDigits n c hc
  simp only [Json.isDigit, Bool.and_eq_true, decide_eq_true_eq] at digit
  have low : 0x30 ≤ c.toNat := UInt32.le_iff_toNat_le.1 digit.1
  omega

theorem printable_nat (n : ℕ) : Printable (toString n).toList := by
  have chars : (toString n).toList = Nat.toDigits 10 n := Nat.toList_repr
  rw [chars]
  exact printable_digits n

theorem printable_int (n : ℤ) : Printable (toString n).toList := by
  rw [Json.toList_toString]
  refine .append ?_ (printable_digits _)
  unfold Json.signChars
  split
  · exact .cons (by decide) .nil
  · exact .nil

/-! ### Floats -/

namespace Real64

theorem printable_signed (negative : Bool) {text : String} (h : Printable text.toList) :
    Printable (signed negative text).toList := by
  rw [Json.toList_signed]
  refine .append ?_ h
  unfold Json.signChars
  split
  · exact .cons (by decide) .nil
  · exact .nil

theorem printable_zeros (n : ℕ) : Printable (zeros n).toList := by
  rw [zeros, String.toList_ofList]
  intro c hc
  rw [List.eq_of_mem_replicate hc]
  decide

theorem printable_exponentText (e : ℤ) : Printable (exponentText e).toList := by
  unfold exponentText
  dsimp only
  rw [String.toList_append]
  refine .append ?_ ?_
  · split
    · exact .ofAll rfl
    · exact .ofAll rfl
  · split
    · rw [String.toList_append]
      exact .append (.ofAll rfl) (printable_nat _)
    · exact printable_nat _

theorem printable_layOut (style : FloatStyle) {digits : String} (h : Printable digits.toList) (point : ℤ) :
    Printable (layOut style digits point).toList := by
  unfold layOut
  dsimp only
  split
  · rw [String.toList_append, String.toList_append]
    refine .append (.append (h.of_sublist (List.take_sublist _ _)) ?_)
      (printable_exponentText _)
    split
    · exact .nil
    · rw [String.toList_append]
      exact .append (.ofAll rfl) (h.of_sublist (List.drop_sublist _ _))
  · split
    · rw [String.toList_append, String.toList_append]
      exact .append (.append (.ofAll rfl) (printable_zeros _)) h
    · split
      · rw [String.toList_append, String.toList_append]
        exact .append (.append h (printable_zeros _)) (.ofAll rfl)
      · rw [String.toList_append, String.toList_append]
        exact .append (.append (h.of_sublist (List.take_sublist _ _)) (.ofAll rfl))
          (h.of_sublist (List.drop_sublist _ _))

theorem printable_text (x : Float) : Printable (text .json x).toList := by
  unfold text
  split
  · exact .ofAll rfl
  · exact printable_signed _ (.ofAll rfl)
  · split
    · exact printable_signed _ (.ofAll rfl)
    · exact printable_signed _ (printable_layOut _ (printable_nat _) _)

end Real64

/-! ### Texts -/

namespace Json

theorem printable_hex {n : ℕ} (small : n < 0x10000) : Printable ("\\u" ++ Text.hex 4 n).toList := by
  have digit : ∀ k < 16, 0x20 ≤ k.digitChar.toNat := by decide
  rw [String.toList_append, toList_hex small]
  refine .append (.ofAll rfl) ?_
  unfold hexChars
  exact .cons (digit _ (Nat.mod_lt _ (by decide))) (.cons (digit _ (Nat.mod_lt _ (by decide)))
    (.cons (digit _ (Nat.mod_lt _ (by decide))) (.cons (digit _ (Nat.mod_lt _ (by decide))) .nil)))

theorem printable_escapePoint {n : ℕ} (bound : n < 0x110000) : Printable (escapePoint n).toList := by
  rcases escapePoint_cases n with ⟨c, letter, text⟩ | ⟨-, low, high, text⟩ | ⟨small, text⟩ | ⟨large, text⟩
  all_goals rw [text]
  · have all : ∀ p ∈ escapeLetters, 0x20 ≤ p.2.toNat := by decide
    rw [String.toList_ofList]
    exact .cons (by decide) (.cons (all _ letter) .nil)
  · rw [String.toList_singleton]
    exact .cons (by rw [Text.toNat_ofNat (.inl (by omega))]; exact low) .nil
  · exact printable_hex small
  · rw [String.append_assoc, String.toList_append]
    exact .append (printable_hex (by omega)) (printable_hex (by omega))

theorem point_lt (c : Char) : Text.point c < 0x110000 := by
  have valid : c.toNat.isValidChar := c.valid
  simp only [Nat.isValidChar] at valid
  unfold Text.point
  split <;> omega

theorem printable_string (s : String) : Printable (string s).toList := by
  rw [string_toList, String.toList_join, List.flatMap_map, Text.points, List.flatMap_map]
  exact .cons (by decide) (.append (.flatMap fun c _ => printable_escapePoint (point_lt c)) (.cons (by decide) .nil))

end Json

namespace Data

open Json

mutual

/-- **A JSON text holds no control characters.** -/
theorem toJson_printable (d : Data) : Printable d.toJson.toList := by
  match d with
  | null => exact .ofAll rfl
  | bool b => cases b <;> exact .ofAll rfl
  | int n => exact printable_int n
  | float x => exact Real64.printable_text x
  | str s => exact printable_string s
  | moment _ =>
    rw [toJson]
    exact .ofAll rfl
  | arr items =>
    rw [toJson_arr]
    exact .cons (by decide) (.append (itemsText_printable items) (.cons (by decide) .nil))
  | obj entries =>
    rw [toJson_obj]
    exact .cons (by decide) (.append (entriesText_printable entries) (.cons (by decide) .nil))

theorem itemsText_printable (xs : List Data) : Printable (Json.itemsText xs) := by
  match xs with
  | [] => exact .nil
  | [x] =>
    rw [itemsText_singleton]
    exact x.toJson_printable
  | x :: y :: xs =>
    rw [itemsText_cons]
    exact .append x.toJson_printable (.cons (by decide) (.cons (by decide) (itemsText_printable (y :: xs))))

theorem entryText_printable (k : String) (x : Data) : Printable (entryText k x) :=
  .append (printable_string k) (.cons (by decide) (.cons (by decide) x.toJson_printable))

theorem entriesText_printable (es : List (String × Data)) : Printable (entriesText es) := by
  match es with
  | [] => exact .nil
  | [(k, x)] =>
    rw [entriesText_singleton]
    exact entryText_printable k x
  | (k, x) :: e :: es =>
    rw [entriesText_cons]
    exact .append (entryText_printable k x) (.cons (by decide) (.cons (by decide) (entriesText_printable (e :: es))))

end

end Data

end ServerTrial
