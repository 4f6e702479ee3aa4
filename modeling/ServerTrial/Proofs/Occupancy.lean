import ServerTrial.Proofs.Supervision

/-!
# Clients that share the slots

Clients ask for a slot and leave the one they hold, in any order.  A client that finds all slots taken waits and asks
again later; a client leaves when its body has ended, be it by an exception.

* `Slots.run_stay`: a stay ends as its body does, and gives the slot back either way; `Trial.slots_supervise`: so does a
  run of an editor;
* `Sharing.Sound`: as many slots are taken as clients are inside, and no more than there are; `Sharing.Sound.step` and
  `Sharing.sound_after`: every step keeps this, so it holds after every run;
* `Sharing.occupancy`: what the slots show after every run, and what the next step does to them.
-/

namespace ServerTrial

namespace Slots

section Stay

variable {ε α : Type}

/-- A client's stay in the slot that it has taken.  Its body may change the slots, as the others come and go meanwhile;
then the slot is given back, also when the body ends by an exception. -/
def stay (body : ExceptT ε (StateM Slots) α) : ExceptT ε (StateM Slots) α := tryFinally body (modify release)

/-- A stay ends as its body does, and gives the slot back either way. -/
theorem run_stay (body : ExceptT ε (StateM Slots) α) (s : Slots) :
    (stay body).run.run s = ((body.run.run s).1, (body.run.run s).2.release) := by
  have ended : ∀ r : Except ε α × Slots, (stay (ExceptT.mk fun _ => r)).run.run s = (r.1, r.2.release) := by
    rintro ⟨result, s'⟩
    cases result <;> rfl
  exact ended (body.run.run s)

/-- The slots once a client has left whose body has ended so. -/
def afterLeave (ended : Except ε α) (s : Slots) : Slots := ((stay (ExceptT.mk (pure ended))).run.run s).2

theorem afterLeave_eq (ended : Except ε α) (s : Slots) : s.afterLeave ended = s.release := by
  rw [afterLeave, run_stay]
  rfl

end Stay

end Slots

/-- A run of an editor takes a slot and gives it back, whatever comes of it. -/
theorem Trial.slots_supervise (c : Case) (l : Layout) (source : Path) (interval : Float) (e : Editor) (s : Session) :
    ((supervise c l source interval e).runIn s).2.slots = (s.slots.acquire?.getD s.slots).release := by
  cases refusal : e.refusal with
  | some text => rw [runIn_supervise_refused refusal]
  | none => rw [runIn_supervise_started refusal]

/-- A step of one of the clients `κ`, whose bodies raise `ε`. -/
inductive Move (κ ε : Type) where
  | ask (c : κ)
  | leave (c : κ) (ended : Except ε Unit)

structure Sharing (κ : Type) where
  slots : Slots
  /-- Who is inside, once for each slot held. -/
  inside : List κ
  deriving DecidableEq

namespace Sharing

variable {κ ε : Type} [DecidableEq κ]

/-- The next step.  A client that has to wait changes nothing, and one that holds no slot has none to leave. -/
def step (g : Sharing κ) : Move κ ε → Sharing κ
  | .ask c =>
    match g.slots.acquire? with
    | some s => ⟨s, c :: g.inside⟩
    | none => g
  | .leave c ended => if c ∈ g.inside then ⟨g.slots.afterLeave ended, g.inside.erase c⟩ else g

/-- What a run of steps leads to, nobody being inside before. -/
def after (limit : Int) (moves : List (Move κ ε)) : Sharing κ := moves.foldl step ⟨Slots.free limit, []⟩

theorem after_concat (limit : Int) (moves : List (Move κ ε)) (m : Move κ ε) :
    after limit (moves ++ [m]) = (after limit moves).step m := by
  rw [after, List.foldl_append, List.foldl_cons, List.foldl_nil, after]

/-- As many slots are taken as clients are inside, and no more than there are. -/
structure Sound (limit : Int) (g : Sharing κ) : Prop where
  limit_eq : g.slots.limit = limit
  count : g.slots.active = g.inside.length
  within : (g.slots.active : Int) ≤ limit

section Step

variable {limit : Int} {g : Sharing κ}

/-- A slot is granted exactly while fewer are taken than there are. -/
theorem step_ask (sound : Sound limit g) (c : κ) : g.step (.ask c : Move κ ε) =
    if (g.slots.active : Int) < limit then ⟨⟨limit, g.slots.active + 1⟩, c :: g.inside⟩ else g := by
  rw [step, Slots.acquire?, sound.limit_eq]
  by_cases free : (g.slots.active : Int) < limit
  · rw [if_pos free, if_pos free]
  · rw [if_neg free, if_neg free]

/-- However its body has ended, a client that is inside gives back one slot. -/
theorem step_leave (sound : Sound limit g) {c : κ} (mem : c ∈ g.inside) (ended : Except ε Unit) :
    g.step (.leave c ended) = ⟨⟨limit, g.slots.active - 1⟩, g.inside.erase c⟩ := by
  rw [step, if_pos mem, Slots.afterLeave_eq, Slots.release, sound.limit_eq]

/-- **Every step keeps the count.** -/
theorem Sound.step (sound : Sound limit g) (m : Move κ ε) : Sound limit (g.step m) := by
  have count := sound.count
  have within := sound.within
  cases m with
  | ask c =>
    rw [step_ask sound]
    split
    · refine ⟨rfl, ?_, ?_⟩
      · rw [List.length_cons, ← count]
      · dsimp only
        omega
    · exact sound
  | leave c ended =>
    by_cases mem : c ∈ g.inside
    · rw [step_leave sound mem]
      have length := List.length_erase_of_mem mem
      refine ⟨rfl, ?_, ?_⟩
      · dsimp only
        omega
      · dsimp only
        omega
    · rw [Sharing.step, if_neg mem]
      exact sound

end Step

/-- **The count is right after every run.** -/
theorem sound_after {limit : Int} (nonneg : 0 ≤ limit) (moves : List (Move κ ε)) :
    Sound limit (after limit moves) := by
  induction moves using List.reverseRecOn with
  | nil => exact ⟨rfl, rfl, nonneg⟩
  | append_singleton moves m ih =>
    rw [after_concat]
    exact ih.step m

/-- Do clients ask only while they are outside? -/
def isOrderly (g : Sharing κ) : List (Move κ ε) → Bool
  | [] => true
  | .ask c :: moves => decide (c ∉ g.inside) && isOrderly (g.step (.ask c : Move κ ε)) moves
  | .leave c ended :: moves => isOrderly (g.step (.leave c ended)) moves

/-- Clients that ask only while they are outside are inside once. -/
theorem nodup_foldl {g : Sharing κ} (once : g.inside.Nodup) {moves : List (Move κ ε)}
    (orderly : isOrderly g moves = true) : (moves.foldl step g).inside.Nodup := by
  induction moves generalizing g with
  | nil => exact once
  | cons m moves ih =>
    cases m with
    | ask c =>
      rw [isOrderly, Bool.and_eq_true, decide_eq_true_eq] at orderly
      refine ih ?_ orderly.2
      rw [step]
      split
      · exact List.nodup_cons.2 ⟨orderly.1, once⟩
      · exact once
    | leave c ended =>
      refine ih ?_ orderly
      rw [step]
      split
      · exact once.erase c
      · exact once

/-- One that asks while a slot is free and leaves again leaves the slots as they were. -/
theorem slots_ask_leave {limit : Int} {g : Sharing κ} (sound : Sound limit g)
    (free : (g.slots.active : Int) < limit) (c : κ) (ended : Except ε Unit) :
    ((g.step (.ask c : Move κ ε)).step (.leave c ended)).slots = g.slots := by
  have inside : c ∈ (g.step (.ask c : Move κ ε)).inside := by
    rw [step_ask sound, if_pos free]
    exact List.mem_cons_self
  rw [step_leave (sound.step _) inside, step_ask sound, if_pos free, ← sound.limit_eq]
  rfl

/-- **The slots show how many clients are inside.**  After every run of steps by any number of clients as many slots are
taken as clients are inside, never more than there are and never fewer than none.  The next client that asks is granted
a slot exactly if fewer are taken than there are, and else nothing changes; one that leaves gives one back, whether its
body has returned or raised, as each run of an editor does; and none is taken when all have left. -/
theorem occupancy {limit : Int} (nonneg : 0 ≤ limit) (moves : List (Move κ ε)) :
    let g := after limit moves
    (g.slots.limit = limit ∧ g.slots.active = g.inside.length ∧ 0 ≤ (g.slots.active : Int) ∧
      (g.slots.active : Int) ≤ limit) ∧
    (isOrderly ⟨Slots.free limit, []⟩ moves = true → g.slots.active = g.inside.toFinset.card) ∧
    (∀ c, g.step (.ask c : Move κ ε) =
      if (g.slots.active : Int) < limit then ⟨⟨limit, g.slots.active + 1⟩, c :: g.inside⟩ else g) ∧
    (∀ c ∈ g.inside, ∀ ended : Except ε Unit, g.step (.leave c ended) = g.step (.leave c (.ok ()) : Move κ ε) ∧
      (g.step (.leave c ended)).slots.active + 1 = g.slots.active ∧
      (g.step (.leave c ended)).inside = g.inside.erase c) ∧
    (∀ (c : κ) (run : Case) (l : Layout) (source : Path) (interval : Float) (e : Editor) (s : Session),
      s.slots = g.slots → (g.slots.active : Int) < limit →
        let ended := (Trial.supervise run l source interval e).runIn s
        ended.2.slots = ((g.step (.ask c : Move κ Failure)).step (.leave c ended.1)).slots) ∧
    (g.inside = [] → g.slots.active = 0) := by
  intro g
  have sound : Sound limit g := sound_after nonneg moves
  refine ⟨⟨sound.limit_eq, sound.count, Int.natCast_nonneg _, sound.within⟩, fun orderly => ?_, step_ask sound,
    fun c mem ended => ?_, fun c run l source interval e s same free => ?_, fun empty => ?_⟩
  · have once : g.inside.Nodup := nodup_foldl List.nodup_nil orderly
    rw [sound.count, List.toFinset_card_of_nodup once]
  · have taken : 0 < g.slots.active := by
      rw [sound.count]
      exact List.length_pos_of_mem mem
    rw [step_leave sound mem, step_leave sound mem]
    exact ⟨rfl, Nat.sub_add_cancel taken, rfl⟩
  · dsimp only
    rw [slots_ask_leave sound free, Trial.slots_supervise, same, Slots.release_acquire (sound.limit_eq ▸ free)]
  · rw [sound.count, empty, List.length_nil]

/-- Two slots and three clients, the third of which gets in when the first has left by an exception. -/
theorem occupancy_two :
    let moves : List (Move Nat String) := [.ask 0, .ask 1, .ask 2, .leave 0 (.error "boom"), .ask 2]
    let g := after 2 moves
    (0 : Int) ≤ 2 ∧ isOrderly ⟨Slots.free 2, []⟩ moves = true ∧ g = ⟨⟨2, 2⟩, [2, 1]⟩ ∧
      g.slots.active = g.inside.toFinset.card ∧ g.step (.ask 0 : Move Nat String) = g ∧
      (g.step (.leave 1 (.error "boom") : Move Nat String)).slots.active + 1 = 2 := by
  intro moves g
  have orderly : isOrderly ⟨Slots.free 2, []⟩ moves = true := rfl
  obtain ⟨-, clients, asked, left, -⟩ := occupancy (show (0 : Int) ≤ 2 by decide) moves
  exact ⟨by decide, orderly, rfl, clients orderly, asked 0, (left 1 (by decide) (.error "boom")).2.1⟩

end Sharing

end ServerTrial
