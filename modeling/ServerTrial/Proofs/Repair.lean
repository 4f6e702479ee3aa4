import Mathlib
import ServerTrial.Protocol.Decode

/-!
# What repairing a reply changes

* `Exchanged d d'` — the data `d'` are `d` with some empty containers exchanged for the other kind in place;
* `Repaired d seen d'` — the invariant of the loop: `seen` lists distinct places of empty containers of `d`, and
  `d'` is `d` with these exchanged;
* `Repaired.repair` and `length_lt_repair`: a round keeps the invariant, and one that changes anything sees a new
  place.  Hence the loop ends after as many rounds as there are empty containers, and yields the value of exchanged
  data (`decode_exchanges`).

Nothing is assumed of the check but that it names places and the data refused there.
-/

namespace ServerTrial

namespace Data

/-! ### Places -/

/-- What stands at the end of a path. -/
def at? : List Step → Data → Option Data
  | [], d => some d
  | s :: rest, d => (d.step? s).bind (at? rest)

/-- Exchanges the container at the end of a path. -/
def exchangeAt (p : List Step) (d : Data) : Data :=
  match d.at? p with
  | some c => replaceAt c.exchanged p d
  | none => d

/-- Exchanges the containers at the ends of paths, the last one first. -/
def exchangeAll (places : List (List Step)) (d : Data) : Data := places.foldr exchangeAt d

mutual

/-- The places of the empty containers. -/
def emptyPlaces : Data → List (List Step)
  | arr [] => [[]]
  | obj [] => [[]]
  | arr (x :: xs) => emptyPlacesOfItems 0 (x :: xs)
  | obj (e :: es) => emptyPlacesOfEntries (e :: es)
  | _ => []

def emptyPlacesOfItems (i : Nat) : List Data → List (List Step)
  | [] => []
  | x :: xs => (emptyPlaces x).map (Step.index i :: ·) ++ emptyPlacesOfItems (i + 1) xs

def emptyPlacesOfEntries : List (String × Data) → List (List Step)
  | [] => []
  | (k, x) :: es => (emptyPlaces x).map (Step.key k :: ·) ++ emptyPlacesOfEntries es

end

mutual

/-- Are the second data the first with some empty containers exchanged?  Scalars are equal, containers with content
are of one kind with the same keys, and their parts are related in order. -/
def Exchanged : Data → Data → Prop
  | arr xs, arr ys => ExchangedItems xs ys
  | obj xs, obj ys => ExchangedEntries xs ys
  | arr xs, obj ys => xs = [] ∧ ys = []
  | obj xs, arr ys => xs = [] ∧ ys = []
  | d, d' => d = d'

def ExchangedItems : List Data → List Data → Prop
  | [], [] => True
  | x :: xs, y :: ys => Exchanged x y ∧ ExchangedItems xs ys
  | _, _ => False

def ExchangedEntries : List (String × Data) → List (String × Data) → Prop
  | [], [] => True
  | (k, x) :: xs, (l, y) :: ys => k = l ∧ Exchanged x y ∧ ExchangedEntries xs ys
  | _, _ => False

end

/-! ### Walking to a place -/

theorem at?_walk (place : List Step) : ∀ d : Data, d.at? (d.walk place).1 = some (d.walk place).2 := by
  induction place with
  | nil => intro d; rfl
  | cons s rest ih =>
    intro d
    rw [walk]
    split
    · next d' hs => simpa [at?, hs] using ih d'
    · exact ih d

theorem eq_of_sameKind_of_same {c target : Data} (kind : c.sameKind target) (same : c.same target)
    (h : target.isEmptyContainer) : c = target := by
  unfold isEmptyContainer at h
  split at h
  · cases c <;> simp only [sameKind, Bool.false_eq_true] at kind
    next xs => cases xs <;> simp [Data.same, sameItems] at same ⊢
  · cases c <;> simp only [sameKind, Bool.false_eq_true] at kind
    next xs => cases xs <;> simp [Data.same] at same ⊢
  · simp at h

/-- A place that resolves to an empty container leads to it. -/
theorem at?_of_resolve? {d target : Data} {place path : List Step} (h : d.resolve? place target = some path)
    (empty : target.isEmptyContainer) : d.at? path = some target := by
  unfold resolve? at h
  simp only [Option.ite_none_right_eq_some, Bool.and_eq_true, Option.some.injEq] at h
  obtain ⟨⟨kind, same⟩, rfl⟩ := h
  rw [at?_walk, eq_of_sameKind_of_same kind same empty]

/-! ### Places of empty containers -/

theorem mem_emptyPlacesOfItems {p : List Step} {c : Data} :
    ∀ {xs : List Data} {i j : Nat}, xs[j]? = some c → p ∈ c.emptyPlaces →
      Step.index ((i + j : Nat) : Int) :: p ∈ emptyPlacesOfItems i xs := by
  intro xs
  induction xs with
  | nil => intro i j h; simp at h
  | cons x xs ih =>
    intro i j h hp
    rw [emptyPlacesOfItems, List.mem_append]
    cases j with
    | zero =>
      left
      simp only [List.getElem?_cons_zero, Option.some.injEq] at h
      subst h
      exact List.mem_map.2 ⟨p, hp, rfl⟩
    | succ j =>
      right
      have := ih (i := i + 1) (by simpa using h) hp
      rwa [Nat.add_right_comm, Nat.add_assoc] at this

theorem mem_emptyPlacesOfEntries {p : List Step} {c : Data} {k : String} :
    ∀ {es : List (String × Data)}, find? k es = some c → p ∈ c.emptyPlaces →
      Step.key k :: p ∈ emptyPlacesOfEntries es := by
  intro es
  induction es with
  | nil => intro h; simp [find?] at h
  | cons e es ih =>
    obtain ⟨l, x⟩ := e
    intro h hp
    rw [emptyPlacesOfEntries, List.mem_append]
    by_cases hl : l = k
    · left
      subst hl
      simp only [find?, if_true, Option.some.injEq] at h
      subst h
      exact List.mem_map.2 ⟨p, hp, rfl⟩
    · right
      rw [find?, if_neg hl] at h
      exact ih h hp

theorem mem_emptyPlaces {c : Data} (empty : c.isEmptyContainer) :
    ∀ {p : List Step} {d : Data}, d.at? p = some c → p ∈ d.emptyPlaces := by
  intro p
  induction p with
  | nil =>
    intro d h
    simp only [at?, Option.some.injEq] at h
    subst h
    unfold isEmptyContainer at empty
    split at empty <;> simp_all [emptyPlaces]
  | cons s rest ih =>
    intro d h
    obtain ⟨x, hx, hc⟩ := Option.bind_eq_some_iff.1 h
    cases s with
    | key k =>
      cases d <;> simp only [step?, get?, reduceCtorEq] at hx
      next es =>
        cases es with
        | nil => simp [find?] at hx
        | cons e es => exact mem_emptyPlacesOfEntries hx (ih hc)
    | index i =>
      cases d <;> simp only [step?, reduceCtorEq] at hx
      next xs =>
        split at hx
        · simp at hx
        · next hi =>
          cases xs with
          | nil => simp at hx
          | cons y ys =>
            have := mem_emptyPlacesOfItems (i := 0) hx (ih hc)
            rwa [Nat.zero_add, Int.toNat_of_nonneg (by omega)] at this

/-! ### Exchanged data -/

mutual

theorem Exchanged.refl : ∀ d : Data, Exchanged d d
  | null => rfl
  | bool _ => rfl
  | int _ => rfl
  | float _ => rfl
  | str _ => rfl
  | moment _ => rfl
  | arr xs => ExchangedItems.refl xs
  | obj es => ExchangedEntries.refl es

theorem ExchangedItems.refl : ∀ xs : List Data, ExchangedItems xs xs
  | [] => trivial
  | x :: xs => ⟨Exchanged.refl x, ExchangedItems.refl xs⟩

theorem ExchangedEntries.refl : ∀ es : List (String × Data), ExchangedEntries es es
  | [] => trivial
  | (_, x) :: es => ⟨rfl, Exchanged.refl x, ExchangedEntries.refl es⟩

end

/-- An item has a counterpart, and may be replaced by whatever the counterpart is related to. -/
theorem ExchangedItems.at_index {y : Data} :
    ∀ {xs ys : List Data} {i : Nat}, ExchangedItems xs ys → ys[i]? = some y →
      ∃ x, xs[i]? = some x ∧ Exchanged x y ∧ ∀ z, Exchanged x z → ExchangedItems xs (setItem z ys i) := by
  intro xs
  induction xs with
  | nil =>
    intro ys i h hy
    cases ys with
    | nil => simp at hy
    | cons _ _ => exact h.elim
  | cons x xs ih =>
    intro ys i h hy
    cases ys with
    | nil => exact h.elim
    | cons y' ys =>
      obtain ⟨head, rest⟩ := h
      cases i with
      | zero =>
        simp only [List.getElem?_cons_zero, Option.some.injEq] at hy
        subst hy
        exact ⟨x, rfl, head, fun z hz => ⟨hz, rest⟩⟩
      | succ i =>
        obtain ⟨x', hx', hxy, replace⟩ := ih rest (by simpa using hy)
        exact ⟨x', by simpa using hx', hxy, fun z hz => ⟨head, replace z hz⟩⟩

theorem ExchangedEntries.at_key {k : String} {y : Data} :
    ∀ {xs ys : List (String × Data)}, ExchangedEntries xs ys → find? k ys = some y →
      ∃ x, find? k xs = some x ∧ Exchanged x y ∧ ∀ z, Exchanged x z → ExchangedEntries xs (put k z ys) := by
  intro xs
  induction xs with
  | nil =>
    intro ys h hy
    cases ys with
    | nil => simp [find?] at hy
    | cons _ _ => exact h.elim
  | cons e xs ih =>
    obtain ⟨l, x⟩ := e
    intro ys h hy
    cases ys with
    | nil => exact h.elim
    | cons f ys =>
      obtain ⟨l', y'⟩ := f
      obtain ⟨rfl, head, rest⟩ := h
      by_cases hl : l = k
      · subst hl
        simp only [find?, if_true, Option.some.injEq] at hy
        subst hy
        refine ⟨x, by simp [find?], head, fun z hz => ?_⟩
        rw [put, if_pos rfl]
        exact ⟨rfl, hz, rest⟩
      · rw [find?, if_neg hl] at hy
        obtain ⟨x', hx', hxy, replace⟩ := ih rest hy
        refine ⟨x', by rw [find?, if_neg hl, hx'], hxy, fun z hz => ?_⟩
        rw [put, if_neg hl]
        exact ⟨rfl, head, replace z hz⟩

/-- The data related to an empty container are the two empty containers. -/
theorem exchanged_empty {d c : Data} (h : Exchanged d c) (empty : c.isEmptyContainer) :
    d.isEmptyContainer ∧ Exchanged d c.exchanged := by
  unfold isEmptyContainer at empty
  split at empty
  · cases d with
    | arr xs => cases xs <;> simp_all [Exchanged, ExchangedItems, isEmptyContainer, exchanged]
    | obj es => simp_all [Exchanged, ExchangedEntries, isEmptyContainer, exchanged]
    | _ => simp [Exchanged] at h
  · cases d with
    | obj es => cases es <;> simp_all [Exchanged, ExchangedEntries, isEmptyContainer, exchanged]
    | arr xs => simp_all [Exchanged, ExchangedItems, isEmptyContainer, exchanged]
    | _ => simp [Exchanged] at h
  · simp at empty

/-- One step into related data: the parts are related, and the part on the right may be replaced. -/
theorem Exchanged.at_step {d d' y : Data} {s : Step} (h : Exchanged d d') (hy : d'.step? s = some y) :
    ∃ x, d.step? s = some x ∧ Exchanged x y ∧
      ∀ {rest : List Step} {z : Data}, Exchanged x (replaceAt z rest y) → Exchanged d (replaceAt z (s :: rest) d') := by
  cases s with
  | key k =>
    cases d' <;> simp only [step?, get?, reduceCtorEq] at hy
    next es' =>
      cases d <;> simp only [Exchanged, reduceCtorEq] at h
      · simp [h.2, find?] at hy
      · obtain ⟨x, hx, hxy, replace⟩ := h.at_key hy
        refine ⟨x, hx, hxy, fun {rest z} hz => ?_⟩
        simp only [replaceAt, hy]
        exact replace _ hz
  | index i =>
    cases d' <;> simp only [step?, reduceCtorEq] at hy
    next xs' =>
      split at hy
      · simp at hy
      · next hi =>
        cases d <;> simp only [Exchanged, reduceCtorEq] at h
        · obtain ⟨x, hx, hxy, replace⟩ := h.at_index hy
          refine ⟨x, by simp [step?, hi, hx], hxy, fun {rest z} hz => ?_⟩
          simp only [replaceAt, hy, if_neg hi]
          exact replace _ hz
        · simp [h.2] at hy

theorem Exchanged.at? {c' : Data} {p : List Step} :
    ∀ {d d' : Data}, Exchanged d d' → d'.at? p = some c' → ∃ c, d.at? p = some c ∧ Exchanged c c' := by
  induction p with
  | nil =>
    intro d d' h hc
    simp only [Data.at?, Option.some.injEq] at hc
    exact ⟨d, rfl, hc ▸ h⟩
  | cons s rest ih =>
    intro d d' h hc
    obtain ⟨y, hy, hc⟩ := Option.bind_eq_some_iff.1 hc
    obtain ⟨x, hx, hxy, -⟩ := h.at_step hy
    obtain ⟨c, hd, hcc⟩ := ih hxy hc
    exact ⟨c, by rw [Data.at?, hx]; exact hd, hcc⟩

/-- One more exchange of an empty container keeps data exchanged. -/
theorem Exchanged.replaceAt {c : Data} {p : List Step} (empty : c.isEmptyContainer) :
    ∀ {d d' : Data}, Exchanged d d' → d'.at? p = some c → Exchanged d (replaceAt c.exchanged p d') := by
  induction p with
  | nil =>
    intro d d' h hc
    simp only [Data.at?, Option.some.injEq] at hc
    subst hc
    exact (exchanged_empty h empty).2
  | cons s rest ih =>
    intro d d' h hc
    obtain ⟨y, hy, hc⟩ := Option.bind_eq_some_iff.1 hc
    obtain ⟨x, -, hxy, replace⟩ := h.at_step hy
    exact replace (ih hxy hc)

end Data

namespace Decode

/-! ### Rounds -/

/-- The invariant of the loop: `current` are the data with the empty containers at the distinct places `seen`
exchanged. -/
structure Repaired (data : Data) (seen : List (List Step)) (current : Data) : Prop where
  nodup : seen.Nodup
  empty : ∀ p ∈ seen, ∃ c, data.at? p = some c ∧ c.isEmptyContainer
  current_eq : current = data.exchangeAll seen
  exchanged : Data.Exchanged data current

theorem Repaired.start (data : Data) : Repaired data [] data :=
  ⟨List.nodup_nil, by simp, rfl, Data.Exchanged.refl data⟩

/-- There are no more places to see than there are empty containers. -/
theorem Repaired.length_le {data current : Data} {seen : List (List Step)} (h : Repaired data seen current) :
    seen.length ≤ data.emptyPlaces.length := by
  have sub : seen ⊆ data.emptyPlaces := by
    intro p hp
    obtain ⟨c, hc, empty⟩ := h.empty p hp
    exact Data.mem_emptyPlaces empty hc
  exact (h.nodup.subperm sub).length_le

/-- What one refusal does: nothing, or an exchange of the empty container at a place not seen before. -/
theorem Repair.step_cases (r : Repair) (refusal : Refusal) :
    r.step refusal = r ∨
      ∃ path c, c.isEmptyContainer ∧ r.data.at? path = some c ∧ path ∉ r.seen ∧
        r.step refusal = ⟨r.data.exchangeAt path, path :: r.seen, true⟩ := by
  unfold Repair.step
  split
  · next empty =>
    split
    · next path hpath =>
      split
      · exact .inl rfl
      · next unseen =>
        have hc := Data.at?_of_resolve? hpath empty
        refine .inr ⟨path, refusal.data, empty, hc, by simpa using unseen, ?_⟩
        rw [Data.exchangeAt, hc]
    · exact .inl rfl
  · exact .inl rfl

theorem Repaired.step {data : Data} {r : Repair} (h : Repaired data r.seen r.data) (refusal : Refusal) :
    Repaired data (r.step refusal).seen (r.step refusal).data := by
  rcases r.step_cases refusal with same | ⟨path, c, empty, hc, unseen, changed⟩
  · rwa [same]
  · rw [changed]
    -- the container stands at the same place of the original data, where it was empty too
    obtain ⟨c', hc', related⟩ := h.exchanged.at? hc
    refine ⟨List.nodup_cons.2 ⟨unseen, h.nodup⟩, ?_, ?_, ?_⟩
    · intro p hp
      rcases List.mem_cons.1 hp with rfl | hp
      · exact ⟨c', hc', (Data.exchanged_empty related empty).1⟩
      · exact h.empty p hp
    · rw [h.current_eq]; rfl
    · rw [Data.exchangeAt, hc]
      exact h.exchanged.replaceAt empty hc

/-- A round keeps the invariant. -/
theorem Repaired.repair {data current : Data} {seen : List (List Step)} (h : Repaired data seen current)
    (refusals : List Refusal) :
    Repaired data (repair current seen refusals).seen (repair current seen refusals).data := by
  have run : ∀ (rs : List Refusal) (r : Repair), Repaired data r.seen r.data →
      Repaired data (rs.foldl Repair.step r).seen (rs.foldl Repair.step r).data := by
    intro rs
    induction rs with
    | nil => intro r hr; exact hr
    | cons refusal rs ih => intro r hr; exact ih _ (hr.step refusal)
  exact run refusals _ h

/-- A round that changes anything sees a new place. -/
theorem length_lt_repair {current : Data} {seen : List (List Step)} {refusals : List Refusal}
    (h : (repair current seen refusals).changed = true) :
    seen.length < (repair current seen refusals).seen.length := by
  have run : ∀ (rs : List Refusal) (r : Repair),
      seen.length ≤ r.seen.length ∧ (r.changed → seen.length < r.seen.length) →
      seen.length ≤ (rs.foldl Repair.step r).seen.length ∧
        ((rs.foldl Repair.step r).changed → seen.length < (rs.foldl Repair.step r).seen.length) := by
    intro rs
    induction rs with
    | nil => intro r hr; exact hr
    | cons refusal rs ih =>
      intro r hr
      refine ih _ ?_
      rcases r.step_cases refusal with same | ⟨path, c, -, -, -, changed⟩
      · rwa [same]
      · rw [changed, List.length_cons]
        exact ⟨by omega, fun _ => by omega⟩
  exact (run refusals ⟨current, seen, false⟩ ⟨Nat.le_refl _, by simp⟩).2 h

/-! ### The loop -/

/-- The data that the loop checks, one after the other. -/
def tries (shape : Shape) (lenient : Bool) : Nat → List (List Step) → Data → List Data
  | 0, _, data => [data]
  | fuel + 1, seen, data =>
    match check data shape with
    | .ok _ => [data]
    | .error refusals =>
      if !lenient || !isRepairable data then [data]
      else
        let r := repair data seen refusals
        if r.changed then data :: tries shape lenient fuel r.seen r.data else [data]

theorem tries_eq_cons (shape : Shape) (lenient : Bool) (fuel : Nat) (seen : List (List Step)) (data : Data) :
    ∃ rest, tries shape lenient fuel seen data = data :: rest := by
  cases fuel with
  | zero => exact ⟨[], rfl⟩
  | succ fuel =>
    rw [tries]
    split
    · exact ⟨[], rfl⟩
    · split
      · exact ⟨[], rfl⟩
      · dsimp only
        split
        · exact ⟨_, rfl⟩
        · exact ⟨[], rfl⟩

/-- The loop yields what the check of the data tried last yields. -/
theorem checkRepairing_eq_ok_iff (shape : Shape) (lenient : Bool) (v : Value) :
    ∀ (fuel : Nat) (seen : List (List Step)) (data : Data),
      checkRepairing shape lenient fuel seen data = .ok v ↔
        ∃ d ∈ (tries shape lenient fuel seen data).getLast?, checkPlainly shape d = .ok v := by
  intro fuel
  induction fuel with
  | zero => intro seen data; simp [checkRepairing, tries]
  | succ fuel ih =>
    intro seen data
    rw [checkRepairing, tries]
    cases hc : check data shape with
    | ok m => simp [checkPlainly, hc]
    | error refusals =>
      cases lenient with
      | false => simp [checkPlainly, hc]
      | true =>
        cases hd : isRepairable data with
        | false => simp [checkPlainly, hc]
        | true =>
          by_cases hr : (repair data seen refusals).changed = true
          · obtain ⟨rest, hrest⟩ := tries_eq_cons shape true fuel (repair data seen refusals).seen
              (repair data seen refusals).data
            simp [hr, ih, hrest, List.getLast?_cons_cons]
          · simp [hr, checkPlainly, hc]

/-- Whatever is tried is repaired data. -/
theorem Repaired.of_mem_tries {shape : Shape} {lenient : Bool} {data d : Data} :
    ∀ {fuel : Nat} {seen : List (List Step)} {current : Data}, Repaired data seen current →
      d ∈ tries shape lenient fuel seen current → ∃ places, Repaired data places d := by
  intro fuel
  induction fuel with
  | zero =>
    intro seen current h hd
    rw [tries, List.mem_singleton] at hd
    exact ⟨seen, hd ▸ h⟩
  | succ fuel ih =>
    intro seen current h hd
    rw [tries] at hd
    split at hd
    · exact ⟨seen, List.mem_singleton.1 hd ▸ h⟩
    · split at hd
      · exact ⟨seen, List.mem_singleton.1 hd ▸ h⟩
      · dsimp only at hd
        split at hd
        · rcases List.mem_cons.1 hd with rfl | hd
          · exact ⟨seen, h⟩
          · exact ih (h.repair _) hd
        · exact ⟨seen, List.mem_singleton.1 hd ▸ h⟩

/-- Each further try has seen a new place of an empty container. -/
theorem Repaired.length_tries_le {shape : Shape} {lenient : Bool} {data : Data} :
    ∀ {fuel : Nat} {seen : List (List Step)} {current : Data}, Repaired data seen current →
      (tries shape lenient fuel seen current).length ≤ min fuel (data.emptyPlaces.length - seen.length) + 1 := by
  intro fuel
  induction fuel with
  | zero => intro seen current _; simp [tries]
  | succ fuel ih =>
    intro seen current h
    rw [tries]
    split
    · simp
    · split
      · simp
      · next refusals _ _ =>
        dsimp only
        split
        · next changed =>
          have longer := length_lt_repair changed
          have bound := (h.repair refusals).length_le
          have rest := ih (h.repair refusals)
          rw [List.length_cons]
          omega
        · simp

/-- Data that are not to be repaired, or need not be, are the only ones tried. -/
theorem tries_eq_singleton {shape : Shape} {lenient : Bool} {data : Data} (fuel : Nat) (seen : List (List Step))
    (h : lenient = false ∨ ∃ v, checkPlainly shape data = .ok v) :
    tries shape lenient fuel seen data = [data] := by
  cases fuel with
  | zero => rfl
  | succ fuel =>
    rw [tries]
    split
    · rfl
    · next refusals hc =>
      rcases h with rfl | ⟨v, hv⟩
      · simp
      · simp [checkPlainly, hc] at hv

end Decode

theorem decode_of_read {shape : Shape} {lenient : Bool} {source : String} {data : Data}
    (read : Data.ofJson source = .ok data) :
    decode shape lenient source = Decode.checkRepairing shape lenient Decode.maxRepairs [] data := by
  rw [decode, read]

/-- **Lenient decoding exchanges empty containers and nothing else.**  A value of a reply is the value of data that
are those of the reply with the empty containers at some distinct places exchanged; none are exchanged if the reply is
taken as it is, or has a value as it is.  There is at most one try more than there are empty containers, or than
`maxRepairs`. -/
theorem decode_exchanges (shape : Shape) (lenient : Bool) (source : String) :
    (∀ v, decode shape lenient source = .ok v →
      ∃ data data' places, Data.ofJson source = .ok data ∧
        data' ∈ (Decode.tries shape lenient Decode.maxRepairs [] data).getLast? ∧
        Decode.checkPlainly shape data' = .ok v ∧ Decode.Repaired data places data' ∧
        (lenient = false ∨ (∃ u, Decode.checkPlainly shape data = .ok u) → places = [] ∧ data' = data)) ∧
    ∀ data, Data.ofJson source = .ok data →
      (Decode.tries shape lenient Decode.maxRepairs [] data).length ≤
        min Decode.maxRepairs data.emptyPlaces.length + 1 := by
  refine ⟨fun v hv => ?_, fun data _ => ?_⟩
  · unfold decode at hv
    cases hj : Data.ofJson source with
    | error e => rw [hj] at hv; cases hv
    | ok data =>
      rw [hj] at hv
      obtain ⟨data', last, hv⟩ := (Decode.checkRepairing_eq_ok_iff shape lenient v _ _ _).1 hv
      by_cases untouched : lenient = false ∨ ∃ u, Decode.checkPlainly shape data = .ok u
      · have only := Decode.tries_eq_singleton Decode.maxRepairs [] untouched
        have same : data' = data := by simpa [only, eq_comm] using last
        exact ⟨data, data', [], rfl, last, hv, same ▸ Decode.Repaired.start data, fun _ => ⟨rfl, same⟩⟩
      · obtain ⟨places, hp⟩ := (Decode.Repaired.start data).of_mem_tries (List.mem_of_mem_getLast? last)
        exact ⟨data, data', places, rfl, last, hv, hp, fun h => absurd h untouched⟩
  · simpa using (Decode.Repaired.start data).length_tries_le

/-- A reply to a completion whose empty list of items was written as an object, seen below the label of a branch. -/
theorem decode_exchanges_completion_items :
    let shape : Shape := .union [.list (.model .completionItem), .model .completionList]
    let source := "\x7b\"isIncomplete\": false, \"items\": \x7b\x7d\x7d"
    let v : Value := .record .completionList
      [(⟨"is_incomplete", "isIncomplete"⟩, .plain (.bool false)), (⟨"item_defaults", "itemDefaults"⟩, .null),
        (⟨"items", "items"⟩, .list [])] []
    decode shape true source = .ok v ∧
      ∃ data data' places, Data.ofJson source = .ok data ∧
        data' ∈ (Decode.tries shape true Decode.maxRepairs [] data).getLast? ∧
        Decode.checkPlainly shape data' = .ok v ∧ Decode.Repaired data places data' ∧
        (true = false ∨ (∃ u, Decode.checkPlainly shape data = .ok u) → places = [] ∧ data' = data) := by
  intro shape source v
  have json : Data.ofJson source = .ok (.obj [("isIncomplete", .bool false), ("items", .obj [])]) :=
    (Data.ofJson_ofList _).trans rfl
  have decoded : decode shape true source = .ok v := by
    unfold decode
    rw [json]
    rfl
  exact ⟨decoded, (decode_exchanges shape true source).1 v decoded⟩

end ServerTrial
