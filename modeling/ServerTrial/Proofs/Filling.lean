import ServerTrial.Proofs.Assembly
import ServerTrial.Proofs.LuaRun

/-!
# Filling tables

What statements do that fill a table (`Fills`): where the table stands ready, they add entries to it, and stop exactly
if some field is set twice.  Such statements can follow each other, since one changes little of what the next one needs:
the variables of surrounding tables keep their values, because every variable that is declared has a new number
(`Before`); other tables stay as they are (`Frame`); and the tables within a value are newer than the one it is put in
(`Stage`).
-/

namespace ServerTrial

/-! ### Names of variables -/

namespace Injection

theorem toList_localName (stem : String) (n : ℕ) :
    (localName stem n).toList = stem.toList ++ '_' :: Nat.toDigits 10 n := by
  have number : (toString n).toList = Nat.toDigits 10 n := Nat.toList_repr
  have mark : "_".toList = ['_'] := String.toList_ofList
  rw [localName, String.toList_append, String.toList_append, number, mark, List.append_assoc, List.singleton_append]

/-- The number is what stands behind the last underscore. -/
theorem localName_number {stem other : String} {k n : ℕ} (same : localName stem k = localName other n) : k = n := by
  have tail : ∀ (s : String) (m : ℕ),
      (localName s m).toList.reverse.takeWhile (· != '_') = (Nat.toDigits 10 m).reverse := by
    intro s m
    have digits : ∀ c ∈ (Nat.toDigits 10 m).reverse, (c != '_') = true := by
      intro c hc
      refine bne_iff_ne.2 ?_
      rintro rfl
      exact absurd (Json.digits_toDigits m '_' (List.mem_reverse.1 hc)) (by decide)
    rw [toList_localName, List.reverse_append, List.reverse_cons, List.append_assoc,
      List.takeWhile_append_of_pos digits, List.singleton_append, List.takeWhile_cons_of_neg (by decide),
      List.append_nil]
  have both := tail stem k
  rw [same, tail other n] at both
  have digits := List.reverse_injective both
  rw [← Nat.ofDigitChars_ten_toDigits (n := k), ← digits, Nat.ofDigitChars_ten_toDigits]

theorem localName_ne {name stem : String} {n : ℕ} (plain : '_' ∉ name.toList) : localName stem n ≠ name := by
  rintro rfl
  exact plain (by simp [toList_localName])

end Injection

namespace Lua

open Injection (localName setting)

/-- A name that a variable can be given for its contents. -/
structure IsStem (stem : String) : Prop where
  chars : ∀ c ∈ stem.toList, isWordChar c = true
  letter : ∃ c cs, stem.toList = c :: cs ∧ Text.isDigit c = false

theorem isStem_identifier (name : String) : IsStem (identifier name) :=
  ⟨(identifier_chars name).1, (identifier_chars name).2⟩

theorem isStem_json : IsStem "json" := by
  have chars : "json".toList = ['j', 's', 'o', 'n'] := String.toList_ofList
  exact ⟨by rw [chars]; exact List.all_eq_true.1 rfl, 'j', ['s', 'o', 'n'], chars, rfl⟩

namespace IsStem

variable {stem : String} (is : IsStem stem) (n : ℕ)
include is

theorem isName : Reader.IsName (localName stem n) := by
  obtain ⟨c, cs, text, letter⟩ := is.letter
  refine ⟨⟨c, cs ++ '_' :: Nat.toDigits 10 n, ?_, letter⟩, ?_, ?_⟩
  · rw [Injection.toList_localName, text, List.cons_append]
  · rw [Injection.toList_localName]
    refine List.forall_mem_append.2 ⟨is.chars, List.forall_mem_cons.2 ⟨rfl, fun d hd => ?_⟩⟩
    have digit : Text.isDigit d = true := Json.digits_toDigits n d hd
    simp [isWordChar, digit]
  · -- no word that is taken has an underscore
    have plain : (Reader.reserved.all fun w => !w.toList.contains '_') = true := by decide +kernel
    intro taken
    have none := List.all_eq_true.1 plain _ taken
    rw [Bool.not_eq_true', List.contains_eq_mem, decide_eq_false_iff_not] at none
    exact Injection.localName_ne none rfl

end IsStem

theorem localName_ne_interface (stem : String) (n : ℕ) : localName stem n ≠ Reader.interface :=
  Injection.localName_ne (by decide +kernel)

theorem localName_ne_assertion (stem : String) (n : ℕ) : localName stem n ≠ Reader.assertion :=
  Injection.localName_ne (by decide +kernel)

/-- The name is not one that a variable with a number from `n` on has. -/
def Before (n : ℕ) (x : String) : Prop := ∀ stem k, n ≤ k → x ≠ localName stem k

theorem Before.mono {n n' : ℕ} {x : String} (before : Before n x) (h : n ≤ n') : Before n' x :=
  fun stem k hk => before stem k (h.trans hk)

theorem before_localName (stem : String) (n : ℕ) : Before (n + 1) (localName stem n) := fun other k hk same => by
  have number := Injection.localName_number same
  omega

theorem before_paramsTable (n : ℕ) : Before n paramsTable := fun _ _ _ same =>
  Injection.localName_ne (by decide +kernel) same.symm

/-! ### Setting a field -/

/-- The variable refers to a table that comes to certain entries, with different keys. -/
structure Stage (m : Memory) (table : String) (r : ℕ) (done : List (String × Tree)) : Prop where
  bound : m.lookup table = .table r
  holds : Holds m.tables r (.table r) (.table done)
  distinct : (done.map Prod.fst).Nodup

/-- What statements about one table leave as it is, if the variables they declare have numbers from `n` on. -/
structure Frame (n r : ℕ) (m m' : Memory) : Prop where
  locals : ∀ x, Before n x → m'.lookup x = m.lookup x
  tables : ∀ q held, q ≠ r → m.tables[q]? = some held → m'.tables[q]? = some held

namespace Frame

variable {n n' r : ℕ} {m m' m'' : Memory}

theorem refl (n r : ℕ) (m : Memory) : Frame n r m m := ⟨fun _ _ => rfl, fun _ _ _ h => h⟩

theorem trans (first : Frame n r m m') (second : Frame n' r m' m'') (later : n ≤ n') : Frame n r m m'' where
  locals x before := (second.locals x (before.mono later)).trans (first.locals x before)
  tables q held other h := second.tables q held other (first.tables q held other h)

end Frame

namespace Stage

variable {m : Memory} {table key : String} {r : ℕ} {done : List (String × Tree)} (stage : Stage m table r done)
include stage

theorem get_eq_nil : m.get (m.lookup table) key = some .nil ↔ key ∉ done.map Prod.fst := by
  rw [stage.bound]
  cases stage.holds with
  | table _ stored each =>
    rw [Memory.get, stored, Option.map_some, Option.some_inj]
    exact each.field_eq_nil key

theorem nodup_iff (t : Tree) : ((done ++ [(key, t)]).map Prod.fst).Nodup ↔ key ∉ done.map Prod.fst := by
  rw [List.map_append, List.map_singleton, ← List.concat_eq_append, List.nodup_concat, and_iff_left stage.distinct]

/-- A field that is unset gets its value. -/
theorem set {v : Val} {t : Tree} (free : key ∉ done.map Prod.fst) (h : Holds m.tables (r + 1) v t) :
    ∃ m', m.set (m.lookup table) key v = some m' ∧ Stage m' table r (done ++ [(key, t)]) ∧ ∀ n, Frame n r m m' := by
  rw [stage.bound]
  cases stage.holds with
  | @table _ _ held _ _ stored each =>
    have inside : r < m.tables.length := (List.getElem?_eq_some_iff.1 stored).1
    have kept : ∀ q held', q ≠ r → m.tables[q]? = some held' →
        (m.tables.set r (held ++ [(key, v)]))[q]? = some held' := fun q held' other h => by
      rw [List.getElem?_set_ne (Ne.symm other), h]
    have newer : ∀ q held', r + 1 ≤ q → m.tables[q]? = some held' →
        (m.tables.set r (held ++ [(key, v)]))[q]? = some held' := fun q held' above => kept q held' (by omega)
    refine ⟨{ m with tables := m.tables.set r (held ++ [(key, v)]) }, ?_, ⟨stage.bound, ?_, ?_⟩,
      fun n => ⟨fun _ _ => rfl, kept⟩⟩
    · have put : Data.put key v held = held ++ [(key, v)] := Data.put_of_not_mem (each.keys ▸ free)
      rw [Memory.set, stored, Option.map_some, ← put]
      cases v with
      | nil => exact absurd rfl h.ne_nil
      | document | data d | table q => rfl
    · refine .table (Nat.le_refl r) (List.getElem?_set_self inside) ?_
      exact (each.mono (Nat.le_refl _) newer).append (.cons (h.mono (Nat.le_refl _) newer) (.nil _))
    · exact (stage.nodup_iff t).2 free

/-- A field is not set a second time. -/
theorem run_setting_of_mem (decode : String → Option Data) (value : Expr) (taken : key ∈ done.map Prod.fst) :
    run decode (setting table key value) m = none := by
  have stops : exec decode m (.guard table key) = none := by
    rw [exec]
    split
    · next unset => exact absurd taken (stage.get_eq_nil.1 unset)
    · rfl
  rw [setting, run, stops, Option.bind_none]

theorem run_setting {decode : String → Option Data} {value : Expr} {v : Val} {t : Tree}
    (free : key ∉ done.map Prod.fst) (evaluates : eval decode m value = some (v, m)) (h : Holds m.tables (r + 1) v t) :
    ∃ m', run decode (setting table key value) m = some m' ∧ Stage m' table r (done ++ [(key, t)]) ∧
      ∀ n, Frame n r m m' := by
  obtain ⟨m', assigned, next⟩ := stage.set free h
  refine ⟨m', ?_, next⟩
  have passes : exec decode m (.guard table key) = some m := by
    rw [exec, stage.get_eq_nil.2 free]
  have assigns : exec decode m (.assign table key value) = some m' := by
    rw [exec, evaluates, Option.bind_some]
    exact assigned
  rw [setting, run, passes, Option.bind_some, run, assigns, Option.bind_some, run]

end Stage

/-! ### Filling a table -/

/-- Where the table stands ready and the memory is as `ready` says, the statements add the entries to the table.  They
stop if this sets a field twice, and if `clash`, in which case they do so within a table among the entries. -/
structure Fills (decode : String → Option Data) (ready : Memory → Prop) (table : String) (n : ℕ)
    (ss : List Statement) (es : List (String × Tree)) (clash : Prop) : Prop where
  ends : ∀ {m r done}, ready m → Stage m table r done → ¬clash → ((done ++ es).map Prod.fst).Nodup →
    ∃ m', run decode ss m = some m' ∧ Stage m' table r (done ++ es) ∧ Frame n r m m'
  stops : ∀ {m r done}, ready m → Stage m table r done → clash ∨ ¬((done ++ es).map Prod.fst).Nodup →
    run decode ss m = none

namespace Fills

variable {decode : String → Option Data} {ready : Memory → Prop} {table : String} {n n' : ℕ}

theorem nil : Fills decode ready table n [] [] False where
  ends {m r done} _ stage _ _ := ⟨m, rfl, (List.append_nil done).symm ▸ stage, .refl n r m⟩
  stops {m r done} _ stage bad := by
    rw [List.append_nil] at bad
    exact bad.elim False.elim fun repeated => absurd stage.distinct repeated

/-- Statements for one part of the entries, and then for the other. -/
theorem append {ss ts : List Statement} {es fs : List (String × Tree)} {c d : Prop}
    (front : Fills decode ready table n ss es c) (back : Fills decode ready table n' ts fs d) (later : n ≤ n')
    (keeps : ∀ {r m m'}, Frame n r m m' → ready m → ready m') :
    Fills decode ready table n (ss ++ ts) (es ++ fs) (c ∨ d) where
  ends {m r done} h stage good distinct := by
    rw [← List.append_assoc] at distinct ⊢
    have earlier : ((done ++ es).map Prod.fst).Nodup := by
      rw [List.map_append] at distinct
      exact (List.nodup_append.1 distinct).1
    obtain ⟨m', first, stage', frame⟩ := front.ends h stage (fun clash => good (.inl clash)) earlier
    obtain ⟨m'', second, stage'', frame'⟩ := back.ends (keeps frame h) stage' (fun clash => good (.inr clash)) distinct
    exact ⟨m'', by rw [run_append, first, Option.bind_some, second], stage'', frame.trans frame' later⟩
  stops {m r done} h stage bad := by
    rw [← List.append_assoc] at bad
    rw [run_append]
    by_cases good : ¬c ∧ ((done ++ es).map Prod.fst).Nodup
    · obtain ⟨m', first, stage', frame⟩ := front.ends h stage good.1 good.2
      have rest : d ∨ ¬((done ++ es ++ fs).map Prod.fst).Nodup :=
        bad.imp_left fun clash => clash.resolve_left good.1
      rw [first, Option.bind_some, back.stops (keeps frame h) stage' rest]
    · have early : c ∨ ¬((done ++ es).map Prod.fst).Nodup := by
        rwa [not_and_or, not_not] at good
      rw [front.stops h stage early, Option.bind_none]

/-- Sets one field to a value that is at hand. -/
theorem setting {value : Expr} {key : String} {t : Tree}
    (evaluates : ∀ m, ready m → ∃ v, eval decode m value = some (v, m) ∧ ∀ low, Holds m.tables low v t) :
    Fills decode ready table n (Injection.setting table key value) [(key, t)] False where
  ends {m r done} h stage _ distinct := by
    obtain ⟨v, hv, holds⟩ := evaluates m h
    obtain ⟨m', ran, stage', frame⟩ := stage.run_setting ((stage.nodup_iff t).1 distinct) hv (holds _)
    exact ⟨m', ran, stage', frame n⟩
  stops {m r done} _ stage bad := by
    rw [false_or, stage.nodup_iff, not_not] at bad
    exact stage.run_setting_of_mem decode value bad

/-- Declares a variable for a text that is read, and goes on with its value at hand. -/
theorem declare {text stem : String} {d : Data} {ss : List Statement} {es : List (String × Tree)} {clash : Prop}
    (read : decode text = some d) (before : Before n table)
    (rest : Fills decode (fun m => m.lookup (localName stem n) = .data d) table (n + 1) ss es clash) :
    Fills decode (fun _ => True) table n (.declare (localName stem n) (.decoded text) :: ss) es clash := by
  have declared : ∀ m, run decode (.declare (localName stem n) (.decoded text) :: ss) m =
      run decode ss (m.declare (localName stem n) (.data d)) := fun m => by
    rw [run, exec, eval, read, Option.map_some, Option.map_some, Option.bind_some]
  have others : ∀ (m : Memory) x, Before n x → (m.declare (localName stem n) (.data d)).lookup x = m.lookup x :=
    fun m x before => m.lookup_declare_of_ne (before stem n (Nat.le_refl n)).symm _
  have staged : ∀ {m : Memory} {r done}, Stage m table r done →
      Stage (m.declare (localName stem n) (.data d)) table r done := fun {m r done} stage =>
    ⟨(others m table before).trans stage.bound, stage.holds, stage.distinct⟩
  refine ⟨fun {m r done} _ stage good distinct => ?_, fun {m r done} _ stage bad => ?_⟩
  · obtain ⟨m', ran, stage', frame⟩ := rest.ends (m.lookup_declare _ _) (staged stage) good distinct
    refine ⟨m', (declared m).trans ran, stage', fun x hx => ?_, frame.tables⟩
    exact (frame.locals x (hx.mono (Nat.le_succ n))).trans (others m x hx)
  · exact (declared m).trans (rest.stops (m.lookup_declare _ _) (staged stage) bad)

/-- The memory when a table within another one begins to be filled. -/
def inside (m : Memory) (own : String) : Memory :=
  Memory.declare { m with tables := m.tables ++ [[]] } own (.table m.tables.length)

theorem stage_inside (m : Memory) (own : String) : Stage (inside m own) own m.tables.length [] where
  bound := Memory.lookup_declare _ _ _
  holds := .table (Nat.le_refl _) List.getElem?_concat_length (.nil _)
  distinct := List.nodup_nil

/-- Declares a variable for a new table, fills this one, and then puts it in a field. -/
theorem nested (name : String) {stem : String} {ss : List Statement} {es : List (String × Tree)} {clash : Prop}
    (before : Before n table) (inner : Fills decode (fun _ => True) (localName stem n) (n + 1) ss es clash) :
    Fills decode (fun _ => True) table n
      (.declare (localName stem n) .emptyTable :: (ss ++ Injection.setting table name (.name (localName stem n))))
      [(name, .table es)] (clash ∨ ¬(es.map Prod.fst).Nodup) := by
  have entered : ∀ m : Memory, run decode (.declare (localName stem n) .emptyTable ::
      (ss ++ Injection.setting table name (.name (localName stem n)))) m =
        (run decode ss (inside m (localName stem n))).bind
          (run decode (Injection.setting table name (.name (localName stem n)))) := fun m => by
    rw [run, exec, eval, Option.map_some, Option.bind_some, run_append]
    rfl
  -- when the new table is filled, all that was there before is as it was
  have left : ∀ {m : Memory} {r done}, Stage m table r done → ¬clash → (es.map Prod.fst).Nodup →
      ∃ m', run decode ss (inside m (localName stem n)) = some m' ∧ Stage m' table r done ∧ Frame n r m m' ∧
        ∃ v, eval decode m' (.name (localName stem n)) = some (v, m') ∧ Holds m'.tables (r + 1) v (.table es) := by
    intro m r done stage good distinct
    obtain ⟨m', ran, filled, frame⟩ := inner.ends trivial (stage_inside m (localName stem n)) good distinct
    have locals : ∀ x, Before n x → m'.lookup x = m.lookup x := fun x hx =>
      (frame.locals x (hx.mono (Nat.le_succ n))).trans
        (Memory.lookup_declare_of_ne _ (hx stem n (Nat.le_refl n)).symm _)
    have tables : ∀ q held, m.tables[q]? = some held → m'.tables[q]? = some held := fun q held h => by
      have old : q < m.tables.length := (List.getElem?_eq_some_iff.1 h).1
      refine frame.tables q held (Nat.ne_of_lt old) ?_
      exact (List.getElem?_append_left old).trans h
    have older : r + 1 ≤ m.tables.length := by
      cases stage.holds with
      | table _ stored _ => exact (List.getElem?_eq_some_iff.1 stored).1
    refine ⟨m', ran, ⟨(locals table before).trans stage.bound, ?_, stage.distinct⟩,
      ⟨locals, fun q held _ => tables q held⟩, .table m.tables.length, ?_, ?_⟩
    · exact stage.holds.mono (Nat.le_refl r) fun q held _ => tables q held
    · rw [eval, filled.bound]
    · exact filled.holds.mono older fun _ _ _ h => h
  refine ⟨fun {m r done} _ stage good distinct => ?_, fun {m r done} _ stage bad => ?_⟩
  · rw [not_or, not_not] at good
    obtain ⟨m', ran, stage', frame, v, evaluates, holds⟩ := left stage good.1 good.2
    obtain ⟨m'', set, stage'', frame'⟩ := stage'.run_setting ((stage.nodup_iff _).1 distinct) evaluates holds
    exact ⟨m'', by rw [entered, ran, Option.bind_some, set], stage'', frame.trans (frame' n) (Nat.le_refl n)⟩
  · rw [entered]
    by_cases good : ¬clash ∧ (es.map Prod.fst).Nodup
    · obtain ⟨m', ran, stage', -, -, -, -⟩ := left stage good.1 good.2
      have taken : name ∈ done.map Prod.fst := by
        rw [stage.nodup_iff, not_not] at bad
        exact bad.resolve_left (not_or.2 ⟨good.1, not_not.2 good.2⟩)
      rw [ran, Option.bind_some, stage'.run_setting_of_mem decode _ taken]
    · have early : clash ∨ ¬(([] ++ es).map Prod.fst).Nodup := by
        rwa [not_and_or, not_not] at good
      rw [inner.stops trivial (stage_inside m (localName stem n)) early, Option.bind_none]

end Fills

end Lua

end ServerTrial
