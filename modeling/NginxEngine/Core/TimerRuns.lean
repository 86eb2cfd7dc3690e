import NginxEngine.Core.EventTimer
import NginxEngine.Machine

/-!
# Runs of the event timers

The loop of `ngx_event_expire_timers` calls the handler of each event that it takes out of the
tree, and a handler may add and delete timers. So the turns of the loop are the steps of a
machine, and what the handlers do is an input. A queue of deadlines goes along as a note.

## Main definitions

- `timerMachine` — the operations in any order, with the loop of `ngx_event_expire_timers`
- `Timely` — the times that are compared stay within half the range of the clock
- `TimersOk` — the invariant: the tree holds the queue

## Main results

- `timers_track_deadlines` — in every run the tree holds the queue, across overflows of the clock
- `expiry_in_order` — who is fired by a turn of the loop, and what is left when it ends
- `sleep_until_first_deadline` — what `ngx_event_find_timer` answers
- `expiry_ends` — the loop ends if handlers do not set timers for no time at all
-/

namespace NginxEngine.Core

/-- Who runs: a part of the loop that may call handlers of its own, the loop of
    `ngx_event_expire_timers` between two turns, or a handler that it has called. -/
inductive TimerPhase
  | idle
  | expiring
  | handler (ev : Ptr)
deriving DecidableEq, Repr

structure TimerLoop (w : Nat) where
  timers : Timers w
  phase : TimerPhase

inductive TimerInput (w : Nat)
  /-- `ngx_time_update` finds that `n` milliseconds have passed. -/
  | tick (n : Nat)
  /-- `ngx_add_timer(ev, timer)`. -/
  | add (ev : Ptr) (timer : BitVec (w + 1))
  /-- `if (ev->timer_set) ngx_del_timer(ev)`. -/
  | del (ev : Ptr)
  /-- `ngx_event_expire_timers` is called. -/
  | expire
  /-- A turn of its loop. -/
  | turn
  /-- The handler that it has called returns. -/
  | ret

/-- Handlers run inside and outside of `ngx_event_expire_timers`; the clock is read outside. -/
def timerStep {w : Nat} (fuel : Nat) (s : TimerLoop w) : TimerInput w → Option (TimerLoop w)
  | .tick n => if s.phase = .idle then
      some { s with timers := { s.timers with
        currentMsec := s.timers.currentMsec + BitVec.ofNat (w + 1) n } }
    else none
  | .add ev timer => if s.phase = .expiring then none
    else (s.timers.addTimer fuel ev timer).map fun t => { s with timers := t }
  | .del ev => if s.phase = .expiring then none
    else if s.timers.timerSet ev then
      (s.timers.delTimer fuel ev).map fun t => { s with timers := t }
    else some s
  | .expire => if s.phase = .idle then some { s with phase := .expiring } else none
  | .turn => if s.phase = .expiring then
      (s.timers.expireTurn fuel).map fun r => ⟨r.2, (r.1.map TimerPhase.handler).getD .idle⟩
    else none
  | .ret => match s.phase with
    | .handler _ => some { s with phase := .expiring }
    | _ => none

def timerMachine (w fuel : Nat) : Machine (TimerLoop w) (TimerInput w) := ⟨timerStep fuel⟩

/-- The queue of deadlines that goes along with a run. -/
def timerNote {w : Nat} (_ : TimerLoop w) (i : TimerInput w) (q : Deadlines Ptr) : Deadlines Ptr :=
  match i with
  | .tick n => q.pass n
  | .add ev timer => q.arm lazyDelay ev timer.toNat
  | .del ev => q.disarm ev
  | .turn => q.pop
  | .expire | .ret => q

/-- What the clock has to bear: timers belong to the given events, a timer is set for less
    than half the range of the clock, and no event that waits is left overdue for longer than
    the rest of that half. -/
def Timely {w : Nat} (events : List Ptr) (x : TimerLoop w × Deadlines Ptr) (i : TimerInput w) :
    Prop :=
  match i with
  | .tick n => ∀ e ∈ x.2.queue, x.2.now + n ≤ x.2.due e + 2 ^ w
  | .add ev timer => ev ∈ events ∧ timer.toNat < 2 ^ w ∧
      ∀ e ∈ x.2.queue, x.2.now + timer.toNat < x.2.due e + 2 ^ w
  | .del _ | .expire | .turn | .ret => True

instance {w : Nat} (events : List Ptr) (x : TimerLoop w × Deadlines Ptr) (i : TimerInput w) :
    Decidable (Timely events x i) := by
  unfold Timely
  split <;> infer_instance

/-- The inputs that the phase allows. -/
def TimerEnabled {w : Nat} (s : TimerLoop w) : TimerInput w → Prop
  | .tick _ | .expire => s.phase = .idle
  | .add _ _ | .del _ => s.phase ≠ .expiring
  | .turn => s.phase = .expiring
  | .ret => ∃ ev, s.phase = .handler ev

section Runs

variable {w fuel : Nat} {events : List Ptr} {σ : Ptr} {s s' : TimerLoop w} {q : Deadlines Ptr}
  {i : TimerInput w}

/-- The invariant of the runs. -/
structure TimersOk (events : List Ptr) (σ : Ptr) (x : TimerLoop w × Deadlines Ptr) : Prop where
  tracks : Tracks x.1.timers x.2
  ok : x.2.Ok lazyDelay
  known : ∀ e ∈ x.2.queue, e ∈ events
  sentinel_eq : x.1.timers.rbtree.sentinel = σ

/-- The bound on the turns of the tree's loops holds of every queue of known events. -/
theorem TimersOk.fuel_lt (h : TimersOk events σ (s, q))
    (hfuel : 2 * Nat.log 2 (events.length + 1) < fuel) :
    2 * Nat.log 2 (q.queue.length + 1) < fuel := by
  have hlen : q.queue.length ≤ events.length :=
    (List.subperm_of_subset h.ok.nodup h.known).length_le
  have hlog := Nat.log_mono_right (b := 2) (Nat.succ_le_succ hlen)
  exact lt_of_le_of_lt (Nat.mul_le_mul_left 2 hlog) hfuel

/-- **One step.** An enabled input that the clock can bear has a result, and the tree still
    holds the queue. -/
theorem TimersOk.step (h : TimersOk events σ (s, q)) (hσ : σ ∉ events)
    (hfuel : 2 * Nat.log 2 (events.length + 1) < fuel) (hen : TimerEnabled s i)
    (hG : Timely events (s, q) i) :
    ∃ s', timerStep fuel s i = some s' ∧ TimersOk events σ (s', timerNote s i q) := by
  have hf := h.fuel_lt hfuel
  cases i with
  | tick n =>
    exact ⟨_, if_pos hen, ⟨h.tracks.pass hG, h.ok.pass n, h.known, h.sentinel_eq⟩⟩
  | add ev timer =>
    obtain ⟨hev, htimer, hspread⟩ := hG
    have hne : ev ≠ s.timers.rbtree.sentinel := by
      rw [h.sentinel_eq]
      exact ne_of_mem_of_not_mem hev hσ
    obtain ⟨t', he, ht', hs'⟩ := h.tracks.addTimer h.ok hne htimer hspread hf
    refine ⟨{ s with timers := t' }, ?_, ⟨ht', h.ok.arm (by decide) ev timer.toNat, ?_,
      hs'.trans h.sentinel_eq⟩⟩
    · rw [timerStep, if_neg hen, he]
      rfl
    · intro e he
      rcases Deadlines.mem_of_mem_arm he with rfl | he
      · exact hev
      · exact h.known e he
  | del ev =>
    by_cases hset : ev ∈ q.queue
    · obtain ⟨t', he, ht', hs'⟩ := h.tracks.delTimer hset hf
      refine ⟨{ s with timers := t' }, ?_, ⟨ht', h.ok.disarm ev, ?_, hs'.trans h.sentinel_eq⟩⟩
      · rw [timerStep, if_neg hen, h.tracks.set ev, if_pos (decide_eq_true hset), he]
        rfl
      · exact fun e he => h.known e (List.mem_of_mem_erase he)
    · have hsame : timerNote s (.del ev) q = q := by
        rw [timerNote, Deadlines.disarm, List.erase_of_not_mem hset]
      refine ⟨s, ?_, hsame.symm ▸ h⟩
      rw [timerStep, if_neg hen, h.tracks.set ev, if_neg (by simpa using hset)]
  | expire => exact ⟨_, if_pos hen, ⟨h.tracks, h.ok, h.known, h.sentinel_eq⟩⟩
  | turn =>
    obtain ⟨r, he, hturn, hs⟩ := h.tracks.expireTurn h.ok hf
    refine ⟨⟨r.2, (r.1.map TimerPhase.handler).getD .idle⟩, ?_,
      ⟨?_, h.ok.pop, ?_, hs.trans h.sentinel_eq⟩⟩
    · rw [timerStep, if_pos (show s.phase = .expiring from hen), he]
      rfl
    · rw [timerNote]
      cases hturn with
      | fire _ _ ht' _ _ => exact ht'
      | stop _ hpop =>
        rw [hpop]
        exact h.tracks
    · exact fun e he => h.known e (Deadlines.mem_of_mem_pop he)
  | ret =>
    obtain ⟨ev, hp⟩ := hen
    exact ⟨{ s with phase := .expiring }, by rw [timerStep, hp],
      ⟨h.tracks, h.ok, h.known, h.sentinel_eq⟩⟩

/-- A step that is taken was enabled. -/
theorem timerEnabled_of_step (h : timerStep fuel s i = some s') : TimerEnabled s i := by
  cases i with
  | tick n => exact (Option.ite_none_right_eq_some.mp h).1
  | add ev timer =>
    intro hp
    rw [timerStep, if_pos hp] at h
    cases h
  | del ev =>
    intro hp
    rw [timerStep, if_pos hp] at h
    cases h
  | expire => exact (Option.ite_none_right_eq_some.mp h).1
  | turn => exact (Option.ite_none_right_eq_some.mp h).1
  | ret =>
    cases hp : s.phase with
    | idle =>
      rw [timerStep, hp] at h
      cases h
    | expiring =>
      rw [timerStep, hp] at h
      cases h
    | handler ev => exact ⟨ev, hp⟩

/-- The start: no timer is set and the clock shows `msec`. -/
def timersAt (w : Nat) (σ : Ptr) (links : Ptr → RB.Links Ptr) (key : Ptr → BitVec (w + 1))
    (msec : Nat) : TimerLoop w × Deadlines Ptr :=
  (⟨.init σ links key (BitVec.ofNat (w + 1) msec), .idle⟩,
    ⟨msec, fun _ => 0, fun _ => 0, fun _ => 0, 0, []⟩)

theorem timersOk_start (links : Ptr → RB.Links Ptr) (key : Ptr → BitVec (w + 1)) (msec : Nat) :
    TimersOk events σ (timersAt w σ links key msec) := by
  refine ⟨⟨Rbtree.init_inOrder σ links key, ?_, ?_, rfl, ?_, ?_, ?_⟩, ⟨?_, ?_, ?_, ?_⟩, ?_, rfl⟩
  all_goals simp [timersAt, Timers.init]

/-- **Whole runs.** -/
theorem timersOk_of_reaches {links : Ptr → RB.Links Ptr} {key : Ptr → BitVec (w + 1)} {msec : Nat}
    (hσ : σ ∉ events) (hfuel : 2 * Nat.log 2 (events.length + 1) < fuel)
    (h : ((timerMachine w fuel).withNotes timerNote).Reaches (Timely events)
      (timersAt w σ links key msec) (s, q)) : TimersOk events σ (s, q) := by
  refine h.invariant (timersOk_start links key msec) fun x i y hx hG hs => ?_
  obtain ⟨hs, hnote⟩ := Machine.step_withNotes hs
  obtain ⟨s', he, hok⟩ := TimersOk.step hx hσ hfuel (timerEnabled_of_step hs) hG
  have hy : y = (s', timerNote x.1 i x.2) :=
    Prod.ext (Option.some.inj (hs.symm.trans he)) hnote
  rw [hy]
  exact hok

/-! ### What the timers do -/

/-- **The tree and the queue.** In every run that the clock can bear, across its overflows, the
    tree is a red-black tree that holds the events of the queue in the order of their deadlines
    and, among equal deadlines, in the order in which they were put in. The deadline that an
    event waits for is less than 300 milliseconds away from the one last asked for, however
    often it was asked for. No operation fails. -/
theorem timers_track_deadlines {links : Ptr → RB.Links Ptr} {key : Ptr → BitVec (w + 1)}
    {msec : Nat} (hσ : σ ∉ events) (hfuel : 2 * Nat.log 2 (events.length + 1) < fuel)
    (h : ((timerMachine w fuel).withNotes timerNote).Reaches (Timely events)
      (timersAt w σ links key msec) (s, q)) :
    s.timers.rbtree.InOrder q.queue ∧ q.queue.Pairwise q.Before ∧
      (∀ e, s.timers.timerSet e = true ↔ e ∈ q.queue) ∧
      (∀ e ∈ q.queue, s.timers.rbtree.key e = BitVec.ofNat (w + 1) (q.due e) ∧
        q.due e < q.asked e + lazyDelay ∧ q.asked e < q.due e + lazyDelay) ∧
      ∀ i, TimerEnabled s i → Timely events (s, q) i → (timerStep fuel s i).isSome := by
  have hok := timersOk_of_reaches hσ hfuel h
  refine ⟨hok.tracks.tree, hok.ok.sorted, fun e => ?_, fun e he => ?_, fun i hen hG => ?_⟩
  · rw [hok.tracks.set e, decide_eq_true_iff]
  · exact ⟨hok.tracks.key e he, hok.ok.near e he⟩
  · obtain ⟨s', hs', -⟩ := hok.step hσ hfuel hen hG
    rw [hs']
    rfl

/-- The clock of 32 bits is about to overflow and no timer is set. -/
def beforeOverflow : TimerLoop 31 × Deadlines Ptr :=
  timersAt 31 0 (fun _ => ⟨0, 0, 0, .black⟩) (fun _ => 0) (2 ^ 32 - 100)

/-- Three timers on both sides of an overflow; the one set first comes last. -/
theorem timers_track_deadlines_overflow :
    ∃ s q, ((timerMachine 31 5).withNotes timerNote).Reaches (Timely [1, 2, 3])
        beforeOverflow (s, q) ∧ s.timers.rbtree.InOrder q.queue ∧
      (q.queue, s.timers.currentMsec, s.timers.rbtree.key 1, s.timers.rbtree.key 3) =
        ([3, 2, 1], 20, 400, 4294967246) := by
  obtain ⟨⟨s, q⟩, hr, hx⟩ := Machine.Reaches.of_run_map
    (M := (timerMachine 31 5).withNotes timerNote) (G := Timely [1, 2, 3]) (s := beforeOverflow)
    (fun x => (x.2.queue, x.1.timers.currentMsec, x.1.timers.rbtree.key 1,
      x.1.timers.rbtree.key 3))
    [.add 1 500, .add 2 100, .add 3 50, .tick 120, .add 1 400]
    (show _ = some ([3, 2, 1], 20, 400, 4294967246) by decide +kernel)
  exact ⟨s, q, hr, (timers_track_deadlines (by decide) (by decide) hr).1, hx⟩

/-- **Expiry.** A turn of the loop of `ngx_event_expire_timers` fires an event that is due, less
    than 300 milliseconds before the time last asked for, and that comes before all others that
    wait. When the loop ends, no event that waits is due, and none was asked for 300 or more
    milliseconds ago. -/
theorem expiry_in_order {links : Ptr → RB.Links Ptr} {key : Ptr → BitVec (w + 1)} {msec : Nat}
    (hσ : σ ∉ events) (hfuel : 2 * Nat.log 2 (events.length + 1) < fuel)
    (h : ((timerMachine w fuel).withNotes timerNote).Reaches (Timely events)
      (timersAt w σ links key msec) (s, q))
    (hs : timerStep fuel s .turn = some s') :
    (∃ e, s'.phase = .handler e ∧ s.timers.timerSet e = true ∧ s'.timers.timerSet e = false ∧
      s'.timers.timedout e = true ∧ q.due e ≤ q.now ∧ q.asked e < q.now + lazyDelay ∧
      ∀ f, s'.timers.timerSet f = true → q.Before e f) ∨
    (s' = { s with phase := .idle } ∧
      ∀ e, s.timers.timerSet e = true → q.now < q.due e ∧ q.now < q.asked e + lazyDelay) := by
  have hok := timersOk_of_reaches hσ hfuel h
  obtain ⟨r, hr, hturn, -⟩ := hok.tracks.expireTurn hok.ok (hok.fuel_lt hfuel)
  have hs' : s' = ⟨r.2, (r.1.map TimerPhase.handler).getD .idle⟩ := by
    have hp : s.phase = .expiring := timerEnabled_of_step hs
    rw [timerStep, if_pos hp, hr] at hs
    exact (Option.some.inj hs).symm
  have hset : ∀ e, s.timers.timerSet e = true → e ∈ q.queue := fun e he =>
    of_decide_eq_true ((hok.tracks.set e).symm.trans he)
  subst hs'
  cases hturn with
  | @fire e rest t' hq hdue ht' hpop hout =>
    have he : e ∈ q.queue := hq ▸ List.mem_cons_self
    have hnodup : (e :: rest).Nodup := hq ▸ hok.ok.nodup
    refine .inl ⟨e, rfl, ?_, ?_, hout, hdue, ?_, fun f hf => ?_⟩
    · exact (hok.tracks.set e).trans (decide_eq_true he)
    · rw [ht'.set e, hpop]
      exact decide_eq_false (List.nodup_cons.mp hnodup).1
    · exact (hok.ok.near e he).2.trans_le (Nat.add_le_add_right hdue _)
    · rw [ht'.set f, hpop, decide_eq_true_iff] at hf
      exact hok.ok.first hq f hf
  | stop hdue hpop =>
    refine .inr ⟨rfl, fun e he => ⟨hdue e (hset e he), ?_⟩⟩
    exact (hdue e (hset e he)).trans (hok.ok.near e (hset e he)).1

/-- A timer set before an overflow is fired after it. -/
theorem expiry_in_order_overflow :
    ∃ s s' : TimerLoop 31, ∃ q, ((timerMachine 31 5).withNotes timerNote).Reaches
        (Timely [1, 2, 3]) beforeOverflow (s, q) ∧ timerStep 5 s .turn = some s' ∧
      (∃ e, s'.phase = .handler e ∧ q.due e ≤ q.now) := by
  obtain ⟨⟨s, q⟩, hr, hx⟩ := Machine.Reaches.of_run_map
    (M := (timerMachine 31 5).withNotes timerNote) (G := Timely [1, 2, 3]) (s := beforeOverflow)
    (fun x => (timerStep 5 x.1 .turn).map TimerLoop.phase)
    [.add 1 500, .add 2 60, .tick 120, .expire]
    (show _ = some (some (.handler 2)) by decide +kernel)
  obtain ⟨s', hs', hp⟩ := Option.map_eq_some_iff.mp hx
  refine ⟨s, s', q, hr, hs', ?_⟩
  rcases expiry_in_order (by decide) (by decide) hr hs' with ⟨e, he, -, -, -, hdue, -⟩ | ⟨he, -⟩
  · exact ⟨e, he, hdue⟩
  · rw [he] at hp
    cases hp

/-- **The time to sleep.** `ngx_event_find_timer` answers `NGX_TIMER_INFINITE` if nothing waits.
    Otherwise a sleep for the time that it gives ends neither after a deadline that has not
    passed yet, nor before the first one. -/
theorem sleep_until_first_deadline {links : Ptr → RB.Links Ptr} {key : Ptr → BitVec (w + 1)}
    {msec : Nat} (hσ : σ ∉ events) (hfuel : 2 * Nat.log 2 (events.length + 1) < fuel)
    (h : ((timerMachine w fuel).withNotes timerNote).Reaches (Timely events)
      (timersAt w σ links key msec) (s, q)) :
    ∃ timer, s.timers.findTimer fuel = some timer ∧
      ((∀ e, s.timers.timerSet e = false) → timer = -1#(w + 1)) ∧
      ((∃ e, s.timers.timerSet e = true) →
        (∀ e, s.timers.timerSet e = true → q.now + timer.toNat ≤ max q.now (q.due e)) ∧
        ∃ e, s.timers.timerSet e = true ∧ q.due e ≤ q.now + timer.toNat) := by
  have hok := timersOk_of_reaches hσ hfuel h
  have hq : q.Ok lazyDelay := hok.ok
  have htracks : Tracks s.timers q := hok.tracks
  obtain ⟨timer, ht, hnil, hcons⟩ := htracks.findTimer (hok.fuel_lt hfuel)
  have hset : ∀ e, s.timers.timerSet e = true ↔ e ∈ q.queue := fun e => by
    rw [hok.tracks.set e, decide_eq_true_iff]
  refine ⟨timer, ht, fun hnone => hnil ?_, fun hsome => ?_⟩
  · refine List.eq_nil_iff_forall_not_mem.mpr fun e he => ?_
    exact Bool.false_ne_true ((hnone e).symm.trans ((hset e).mpr he))
  · cases hl : q.queue with
    | nil =>
      obtain ⟨e, he⟩ := hsome
      rw [hset e, hl] at he
      cases he
    | cons a rest =>
      have hlen := hcons a rest hl
      refine ⟨fun e he => ?_, a, (hset a).mpr (hl ▸ List.mem_cons_self), by omega⟩
      rw [hset e, hl] at he
      rcases List.mem_cons.mp he with rfl | he
      · omega
      · have hlt := hq.first hl e he
        rw [Deadlines.Before] at hlt
        omega

/-- A sleep across an overflow. -/
theorem sleep_until_first_deadline_overflow :
    ∃ s q, ((timerMachine 31 5).withNotes timerNote).Reaches (Timely [1, 2, 3])
        beforeOverflow (s, q) ∧ s.timers.findTimer 5 = some 130 ∧
      ∃ e, s.timers.timerSet e = true ∧ q.due e ≤ q.now + 130 := by
  obtain ⟨⟨s, q⟩, hr, hx⟩ := Machine.Reaches.of_run_map
    (M := (timerMachine 31 5).withNotes timerNote) (G := Timely [1, 2, 3]) (s := beforeOverflow)
    (fun x => (x.1.timers.findTimer 5, x.1.timers.timerSet 2)) [.add 1 500, .tick 70, .add 2 130]
    (show _ = some (some 130, true) by decide +kernel)
  obtain ⟨timer, ht, -, hsome⟩ := sleep_until_first_deadline (by decide) (by decide) hr
  obtain ⟨hx, hset⟩ := Prod.mk.inj hx
  obtain rfl : timer = 130 := Option.some.inj (ht.symm.trans hx)
  exact ⟨s, q, hr, ht, (hsome ⟨2, hset⟩).2⟩

end Runs

/-! ### One call of ngx_event_expire_timers -/

/-- What is noted of a call: the queue, the events that were fired, the turns of the loop. -/
structure ExpiryNotes where
  queue : Deadlines Ptr
  fired : List Ptr
  turns : Nat

def expiryNote {w : Nat} (fuel : Nat) (s : TimerLoop w) (i : TimerInput w) (n : ExpiryNotes) :
    ExpiryNotes :=
  match i with
  | .turn => ⟨timerNote s i n.queue,
      n.fired ++ ((s.timers.expireTurn fuel).bind fun r => r.1).toList, n.turns + 1⟩
  | _ => { n with queue := timerNote s i n.queue }

/-- The steps of a call: it has not returned, and a handler sets no timer for no time. -/
def DuringExpiry {w : Nat} (events : List Ptr) (x : TimerLoop w × ExpiryNotes)
    (i : TimerInput w) : Prop :=
  x.1.phase ≠ .idle ∧ Timely events (x.1, x.2.queue) i ∧
    match i with
    | .add _ timer => 0 < timer.toNat
    | _ => True

instance {w : Nat} (events : List Ptr) (x : TimerLoop w × ExpiryNotes) (i : TimerInput w) :
    Decidable (DuringExpiry events x i) := by
  unfold DuringExpiry
  split <;> infer_instance

section Expiry

variable {w fuel : Nat} {events : List Ptr} {σ : Ptr} {s₀ s s' : TimerLoop w}
  {q₀ : Deadlines Ptr} {n : ExpiryNotes}

/-- The invariant of a call: what was fired and what is still due was due at its start, in this
    order. -/
structure ExpiryOk (events : List Ptr) (σ : Ptr) (q₀ : Deadlines Ptr)
    (x : TimerLoop w × ExpiryNotes) : Prop where
  timers : TimersOk events σ (x.1, x.2.queue)
  fired : (x.2.fired ++ x.2.queue.dueNow).Sublist q₀.dueNow
  turns : x.2.turns = x.2.fired.length + if x.1.phase = .idle then 1 else 0
  done : x.1.phase = .idle → x.2.queue.dueNow = []

/-- An added timer leaves the phase. -/
theorem phase_of_add {ev : Ptr} {timer : BitVec (w + 1)}
    (h : timerStep fuel s (.add ev timer) = some s') : s'.phase = s.phase := by
  have hp : s.phase ≠ .expiring := timerEnabled_of_step h
  rw [timerStep, if_neg hp] at h
  obtain ⟨t, -, rfl⟩ := Option.map_eq_some_iff.mp h
  rfl

/-- A deleted timer leaves the phase. -/
theorem phase_of_del {ev : Ptr} (h : timerStep fuel s (.del ev) = some s') :
    s'.phase = s.phase := by
  have hp : s.phase ≠ .expiring := timerEnabled_of_step h
  rw [timerStep, if_neg hp] at h
  by_cases hset : s.timers.timerSet ev = true
  · rw [if_pos hset] at h
    obtain ⟨t, -, rfl⟩ := Option.map_eq_some_iff.mp h
    rfl
  · rw [if_neg hset] at h
    rw [Option.some.inj h]

/-- **One step** of a call. -/
theorem ExpiryOk.step {i : TimerInput w} (h : ExpiryOk events σ q₀ (s, n)) (hσ : σ ∉ events)
    (hfuel : 2 * Nat.log 2 (events.length + 1) < fuel) (hG : DuringExpiry events (s, n) i)
    (hs : timerStep fuel s i = some s') :
    ExpiryOk events σ q₀ (s', expiryNote fuel s i n) := by
  obtain ⟨hidle, htimely, hpos⟩ := hG
  have hen : TimerEnabled s i := timerEnabled_of_step hs
  obtain ⟨s'', hs'', hok⟩ := h.timers.step hσ hfuel hen htimely
  obtain rfl : s'' = s' := Option.some.inj (hs''.symm.trans hs)
  have hturns : n.turns = n.fired.length := by
    have hturns := h.turns
    rwa [if_neg hidle, Nat.add_zero] at hturns
  -- an operation of a handler stays in the call and adds nothing to the due events
  have hquiet : s''.phase ≠ .idle → (timerNote s i n.queue).dueNow.Sublist n.queue.dueNow →
      ExpiryOk events σ q₀ (s'', { n with queue := timerNote s i n.queue }) := fun hp hsub =>
    ⟨hok, (hsub.append_left _).trans h.fired, by rw [if_neg hp]; exact hturns,
      fun hc => absurd hc hp⟩
  cases i with
  | tick m => exact absurd hen hidle
  | expire => exact absurd hen hidle
  | add ev timer =>
    exact hquiet (phase_of_add hs ▸ hidle) (Deadlines.dueNow_arm h.timers.ok.nodup hpos)
  | del ev => exact hquiet (phase_of_del hs ▸ hidle) (Deadlines.dueNow_disarm _ _)
  | ret =>
    obtain ⟨ev, hp⟩ := hen
    rw [timerStep, hp] at hs
    obtain rfl := Option.some.inj hs
    exact hquiet (by simp) (List.Sublist.refl _)
  | turn =>
    obtain ⟨r, hr, hturn, -⟩ :=
      h.timers.tracks.expireTurn h.timers.ok (h.timers.fuel_lt hfuel)
    have hp : s.phase = .expiring := hen
    rw [timerStep, if_pos hp, hr] at hs
    obtain rfl := Option.some.inj hs
    have hnote : expiryNote fuel s .turn n =
        ⟨n.queue.pop, n.fired ++ r.1.toList, n.turns + 1⟩ := by
      rw [expiryNote, hr]
      rfl
    rw [hnote]
    cases hturn with
    | @fire e rest t' hq hdue ht' hpop hout =>
      refine ⟨hok, ?_, ?_, fun hc => absurd hc (by simp)⟩
      · have hfired := h.fired
        rw [Deadlines.dueNow_pop hq hdue] at hfired
        simpa using hfired
      · simpa using hturns
    | stop hdue hpop =>
      have hnone : n.queue.dueNow = [] := by
        refine List.filter_eq_nil_iff.mpr fun e he => ?_
        simpa using hdue e he
      refine ⟨hok, ?_, ?_, fun _ => ?_⟩
      · have hfired := h.fired
        simpa [hpop] using hfired
      · simpa using hturns
      · rw [hpop]
        exact hnone

/-- **A call of `ngx_event_expire_timers` ends.** The events that it fires are some of those that
    were due at its start, each once and in the order of their deadlines, whatever timers the
    handlers add and delete meanwhile, as long as they set none for no time; the loop takes one
    more turn than that. When it has ended, no event that waits is due. -/
theorem expiry_ends {links : Ptr → RB.Links Ptr} {key : Ptr → BitVec (w + 1)} {msec : Nat}
    (hσ : σ ∉ events) (hfuel : 2 * Nat.log 2 (events.length + 1) < fuel)
    (h₀ : ((timerMachine w fuel).withNotes timerNote).Reaches (Timely events)
      (timersAt w σ links key msec) (s₀, q₀)) (hp : s₀.phase = .expiring)
    (h : ((timerMachine w fuel).withNotes (expiryNote fuel)).Reaches (DuringExpiry events)
      (s₀, ⟨q₀, [], 0⟩) (s, n)) :
    n.fired.Sublist q₀.dueNow ∧ n.fired.Nodup ∧ n.fired.Pairwise q₀.Before ∧
      n.turns ≤ q₀.dueNow.length + 1 ∧
      (s.phase = .idle → ∀ e, s.timers.timerSet e = true → n.queue.now < n.queue.due e) := by
  have h₀ := timersOk_of_reaches hσ hfuel h₀
  have hstart : ExpiryOk events σ q₀ (s₀, ⟨q₀, [], 0⟩) := by
    refine ⟨h₀, List.Sublist.refl _, ?_, fun hc => ?_⟩
    · simp [hp]
    · rw [hp] at hc
      cases hc
  have hend : ExpiryOk events σ q₀ (s, n) := by
    refine h.invariant hstart fun x i y hx hG hs => ?_
    obtain ⟨hs, hn⟩ := Machine.step_withNotes hs
    have hy := hx.step hσ hfuel hG hs
    rwa [← hn] at hy
  have hsub : n.fired.Sublist q₀.dueNow := (List.sublist_append_left _ _).trans hend.fired
  have hqueue : n.fired.Sublist q₀.queue := hsub.trans List.filter_sublist
  refine ⟨hsub, h₀.ok.nodup.sublist hqueue, h₀.ok.sorted.sublist hqueue, ?_, fun hidle e he => ?_⟩
  · have hlen := hsub.length_le
    have hturns := hend.turns
    dsimp only at hturns
    split at hturns <;> omega
  · have hmem : e ∈ n.queue.queue := of_decide_eq_true ((hend.timers.tracks.set e).symm.trans he)
    have hnil := List.filter_eq_nil_iff.mp (hend.done hidle) e hmem
    simpa using hnil

/-- The handler of the first of two due events deletes the timer of the second and sets its own
    again. -/
theorem expiry_ends_rearmed :
    ∃ x y, ((timerMachine 31 5).withNotes (expiryNote 5)).Reaches (DuringExpiry [1, 2, 3]) x y ∧
      y.1.phase = .idle ∧ y.2.fired = [2] ∧ y.2.fired.Sublist x.2.queue.dueNow ∧
      x.2.queue.dueNow = [2, 1] := by
  obtain ⟨⟨s₀, q₀⟩, hr, hx⟩ := Machine.Reaches.of_run_map
    (M := (timerMachine 31 5).withNotes timerNote) (G := Timely [1, 2, 3]) (s := beforeOverflow)
    (fun x => (x.1.phase, x.2.dueNow,
      (((timerMachine 31 5).withNotes (expiryNote 5)).run (DuringExpiry [1, 2, 3])
        (x.1, ⟨x.2, [], 0⟩) [.turn, .del 1, .add 2 10, .ret, .turn]).map
          fun y => (y.1.phase, y.2.fired)))
    [.add 1 100, .add 2 60, .tick 120, .expire]
    (show _ = some (.expiring, [2, 1], some (.idle, [2])) by decide +kernel)
  obtain ⟨hp, hx⟩ := Prod.mk.inj hx
  obtain ⟨hdue, hx⟩ := Prod.mk.inj hx
  obtain ⟨⟨s, n⟩, hn, hx⟩ := Machine.Reaches.of_run_map _ _ hx
  obtain ⟨hidle, hfired⟩ := Prod.mk.inj hx
  exact ⟨_, _, hn, hidle, hfired, (expiry_ends (by decide) (by decide) hr hp hn).1, hdue⟩

end Expiry

end NginxEngine.Core
