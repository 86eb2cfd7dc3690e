import NginxEngine.Core.LoopCalls

/-!
# Runs of the event loop

The turns of the loops keep the invariant, so it holds in every run in which the callers of the
functions of the loop take care. What follows are the guarantees on which handlers rely: the
structures of the loop are intact whatever slots are reused, the kernel knows what the flags say,
and a handler is called for the connection that asked for it.

## Main results

- `loop_structures_hold` — the free list, the timers and the posted events
- `epoll_mirrors_active` — the interest list of the kernel
- `stale_test_exact` — which notices of `epoll_wait` are passed over
- `handlers_of_their_holders` — for whom handlers are called
-/

namespace NginxEngine.Core

variable {w n fuel slot fd : Nat} {σ : Ptr} {d : Dir} {s s' : EventLoop w} {g : LoopNotes}

/-- The notes after a turn of a loop. -/
def nextNote (s : EventLoop w) (g : LoopNotes) : LoopNotes :=
  match s.phase with
  | .scan p (m :: _) =>
    if s.Stale m then g
    else
      let g := { g with passGen := g.gen m.slot }
      let c := s.conn m.slot
      if m.revents.widen.input ∧ c.read.active ∧ p.post then
        g.post m.slot .read (EventLoop.queueFor .read c.read)
      else g
  | .half p m _ =>
    let c := s.conn m.slot
    if m.revents.output ∧ c.write.active ∧ p.post then
      g.post m.slot .write (EventLoop.queueFor .write c.write)
    else g
  | .drain _ q => { g with queue := Function.update g.queue q (g.queue q).tail }
  | .expire _ => { g with deadlines := g.deadlines.pop }
  | .scan _ [] | .program | .onRead _ _ _ | .onWrite _ _ _ | .onPosted _ _ _ | .onTimer _ _ => g

def loopNote (s : EventLoop w) (i : LoopInput w) (g : LoopNotes) : LoopNotes :=
  match i with
  | .call c => callNote s g c
  | .wait _ _ elapsed => { g with waitGen := g.gen, deadlines := g.deadlines.pass elapsed }
  | .next => nextNote s g
  | .ret => g

/-- The clock does not overtake a timer by more than half of its range. -/
def LoopCare (n : Nat) (x : EventLoop w × LoopNotes) : LoopInput w → Prop
  | .call c => CallCare n x.1 x.2 c
  | .wait _ _ elapsed => ∀ e ∈ x.2.deadlines.queue,
      x.2.deadlines.now + elapsed ≤ x.2.deadlines.due e + 2 ^ w
  | .next | .ret => True

instance (x : EventLoop w × LoopNotes) (i : LoopInput w) : Decidable (LoopCare n x i) := by
  unfold LoopCare
  split <;> infer_instance

/-! ### Turns of the loops -/

namespace LoopOk

theorem withPhase {phase : LoopPhase} (h : LoopOk n σ s g)
    (hbatch : ∀ m ∈ phase.batch, m ∈ s.phase.batch)
    (hhand : ∀ m ∈ phase.inHand, g.passGen = g.waitGen m.slot) :
    LoopOk n σ { s with phase := phase } g :=
  ⟨h.slots, h.epoll, h.timers, h.posted, h.batch.move hbatch hhand⟩

/-- A notice that passes the test is for a socket that is still open, and has not been closed
    and opened in the meantime. -/
theorem fresh {p : Pass} {m : Notice} {batch : List Notice} (h : LoopOk n σ s g)
    (hp : s.phase = .scan p (m :: batch)) (hm : ¬ s.Stale m) :
    g.owner m.slot = .socket ∧ g.gen m.slot = g.waitGen m.slot := by
  have hmem : m ∈ s.phase.batch := by
    rw [hp]
    exact List.mem_cons_self
  obtain ⟨hfd, hinst⟩ := not_or.mp hm
  have hgen : g.gen m.slot = g.waitGen m.slot := by
    have hpar : decide (g.gen m.slot % 2 = 0) = decide (g.waitGen m.slot % 2 = 0) := by
      rw [← h.batch.inst m hmem, ← (h.slots.slot m.slot).inst]
      exact not_ne_iff.mp hinst
    have hpar := decide_eq_decide.mp hpar
    have hle := h.batch.le m.slot
    have honce := h.batch.once m hmem
    omega
  exact ⟨(h.batch.still m hmem hgen).resolve_right hfd, hgen⟩

/-- The note about the notice in hand. -/
theorem withPass (h : LoopOk n σ s g) (k : Nat)
    (hhand : ∀ m ∈ s.phase.inHand, k = g.waitGen m.slot) :
    LoopOk n σ s { g with passGen := k } :=
  ⟨⟨h.slots.nodup, h.slots.free_iff, h.slots.held_lt, h.slots.slot⟩, h.epoll,
    ⟨h.timers.tracks, h.timers.ok, h.timers.sentinel_eq, h.timers.held⟩,
    ⟨h.posted.holds, h.posted.held⟩, ⟨h.batch.le, h.batch.once, h.batch.inst, h.batch.still, hhand⟩⟩

/-- An event of a slot that is held is posted, or its handler is called. -/
theorem raise {next handler : LoopPhase} (post : Bool) (ho : g.owner slot ≠ .free) (d : Dir)
    (hnext : LoopOk n σ { s with phase := next } g)
    (hhandler : LoopOk n σ { s with phase := handler } g) :
    LoopOk n σ (s.raise slot d post next handler)
      (if post then g.post slot d (EventLoop.queueFor d ((s.conn slot).event d)) else g) := by
  rw [EventLoop.raise]
  cases post with
  | false => exact hhandler.setReady slot d true
  | true =>
    have hset := hnext.setReady slot d true
    have hpost := hset.posted.post ho d (EventLoop.queueFor d ((s.conn slot).event d))
    rw [if_pos rfl, if_pos rfl]
    rw [LoopNotes.post] at hpost ⊢
    split_ifs at hpost ⊢
    · exact hset.withPosted (q := g.queue) (a := g.postGen) hpost
    · exact hset.withPosted hpost

theorem readTurn {p : Pass} {m : Notice} {batch : List Notice} (h : LoopOk n σ s g)
    (hp : s.phase = .scan p (m :: batch)) :
    LoopOk n σ (s.readTurn p m batch) (nextNote s g) := by
  have hsub : ∀ x ∈ batch, x ∈ s.phase.batch := by
    intro x hx
    rw [hp]
    exact List.mem_cons_of_mem m hx
  rw [EventLoop.readTurn, nextNote, hp]
  dsimp only
  by_cases hstale : s.Stale m
  · rw [if_pos hstale, if_pos hstale]
    refine h.withPhase hsub fun x hx => ?_
    cases hx
  · obtain ⟨ho, hgen⟩ := h.fresh hp hstale
    rw [if_neg hstale, if_neg hstale]
    -- the notice is in hand from here on
    have hhand : ∀ phase : LoopPhase, phase.batch = batch →
        phase.inHand = some { m with revents := m.revents.widen } →
        LoopOk n σ { s with phase := phase } { g with passGen := g.gen m.slot } := by
      intro phase hb hi
      refine (h.withPass (g.gen m.slot) fun x hx => ?_).withPhase (hb ▸ hsub) fun x hx => ?_
      · rw [hp] at hx
        cases hx
      · rw [hi] at hx
        cases hx
        exact hgen
    have hheld : g.owner m.slot ≠ .free := by
      rw [ho]
      decide
    by_cases hact : m.revents.widen.input = true ∧ (s.conn m.slot).read.active = true
    · rw [if_pos hact]
      have hraise := raise (s := s) (g := { g with passGen := g.gen m.slot }) p.post hheld .read
        (hhand (.half p _ batch) rfl rfl) (hhand (.onRead p _ batch) rfl rfl)
      simp only [hact.1, hact.2, true_and]
      exact hraise
    · rw [if_neg hact, if_neg fun hc => hact ⟨hc.1, hc.2.1⟩]
      exact hhand (.half p _ batch) rfl rfl

theorem writeTurn {p : Pass} {m : Notice} {batch : List Notice} (h : LoopOk n σ s g)
    (hp : s.phase = .half p m batch) :
    LoopOk n σ (s.writeTurn p m batch) (nextNote s g) := by
  have hgo : ∀ phase : LoopPhase, phase.batch = batch → phase.inHand = none →
      LoopOk n σ { s with phase := phase } g := by
    intro phase hb hi
    refine h.withPhase (fun x hx => ?_) fun x hx => ?_
    · rw [hp]
      exact hb ▸ hx
    · rw [hi] at hx
      cases hx
  rw [EventLoop.writeTurn, nextNote, hp]
  dsimp only
  by_cases hact : m.revents.output = true ∧ (s.conn m.slot).write.active = true
  · have hheld : g.owner m.slot ≠ .free := by
      rw [h.epoll.write m.slot hact.2]
      decide
    rw [if_pos hact]
    have hraise := raise (s := s) p.post hheld .write (hgo (.scan p batch) rfl rfl)
      (hgo (.onWrite p m.slot batch) rfl rfl)
    simp only [hact.1, hact.2, true_and]
    exact hraise
  · rw [if_neg hact, if_neg fun hc => hact ⟨hc.1, hc.2.1⟩]
    exact hgo (.scan p batch) rfl rfl

/-- **Turns.** The code between two handlers has a result and keeps the invariant. -/
theorem next (h : LoopOk n σ s g) (hfuel : 2 * Nat.log 2 (2 * n + 2) < fuel)
    (hp : s.phase.outside = false) :
    ∃ s', s.next fuel = some s' ∧ LoopOk n σ s' (nextNote s g) := by
  have hgo : ∀ phase : LoopPhase, phase.batch = [] → phase.inHand = none →
      LoopOk n σ { s with phase := phase } g := by
    intro phase hb hi
    refine h.withPhase (fun x hx => ?_) fun x hx => ?_
    · rw [hb] at hx
      cases hx
    · rw [hi] at hx
      cases hx
  cases hph : s.phase with
  | scan p batch =>
    cases batch with
    | nil =>
      refine ⟨{ s with phase := .drain p .accept }, by rw [EventLoop.next, hph], ?_⟩
      rw [nextNote, hph]
      exact hgo _ rfl rfl
    | cons m batch => exact ⟨s.readTurn p m batch, by rw [EventLoop.next, hph], h.readTurn hph⟩
  | half p m batch => exact ⟨s.writeTurn p m batch, by rw [EventLoop.next, hph], h.writeTurn hph⟩
  | drain p q =>
    obtain ⟨m, hm, hheld⟩ := h.posted.turn q
    let phase := ((g.queue q).head?.map (LoopPhase.onPosted p q)).getD (EventLoop.afterDrain p q)
    have hphase : phase.batch = [] ∧ phase.inHand = none := by
      dsimp only [phase]
      cases (g.queue q).head? with
      | none => exact EventLoop.afterDrain_empty p q
      | some ev => exact ⟨rfl, rfl⟩
    refine ⟨{ s with posted := m, phase := phase }, ?_, ?_⟩
    · rw [EventLoop.next, hph]
      dsimp only
      rw [hm]
      rfl
    · rw [nextNote, hph]
      exact (hgo phase hphase.1 hphase.2).withPosted hheld
  | expire p =>
    obtain ⟨r, hr, hheld, -⟩ := h.timers.expireTurn (h.fuel_lt hfuel)
    let phase := (r.1.map (LoopPhase.onTimer p)).getD (.drain p .events)
    have hphase : phase.batch = [] ∧ phase.inHand = none := by
      dsimp only [phase]
      cases r.1 with
      | none => exact ⟨rfl, rfl⟩
      | some ev => exact ⟨rfl, rfl⟩
    refine ⟨{ s with timers := r.2, phase := phase }, ?_, ?_⟩
    · rw [EventLoop.next, hph]
      dsimp only
      rw [hr]
      rfl
    · rw [nextNote, hph]
      exact (hgo phase hphase.1 hphase.2).withTimers hheld
  | program =>
    rw [hph] at hp
    cases hp
  | onRead p m batch =>
    rw [hph] at hp
    cases hp
  | onWrite p slot batch =>
    rw [hph] at hp
    cases hp
  | onPosted p q ev =>
    rw [hph] at hp
    cases hp
  | onTimer p ev =>
    rw [hph] at hp
    cases hp

/-- `epoll_wait` reports sockets, with their present instances. -/
theorem wait {ready : List (Nat × Revents)} {batch : List Notice} {p : Pass} {elapsed : Nat}
    (h : LoopOk n σ s g) (hready : epollWait s.epoll ready = some batch)
    (hlate : ∀ e ∈ g.deadlines.queue, g.deadlines.now + elapsed ≤ g.deadlines.due e + 2 ^ w) :
    LoopOk n σ { s with
      timers := { s.timers with
        currentMsec := s.timers.currentMsec + BitVec.ofNat (w + 1) elapsed }
      phase := .scan p batch }
      { g with waitGen := g.gen, deadlines := g.deadlines.pass elapsed } := by
  have hsock : ∀ m ∈ batch, g.owner m.slot = .socket ∧
      m.inst = decide (g.gen m.slot % 2 = 0) := by
    intro m hm
    obtain ⟨fd, i, hi, hslot, hinst⟩ := mem_epollWait hready m hm
    obtain ⟨ho, hfd⟩ := h.epoll.only fd i hi
    have hmirror := h.epoll.mirror i.slot fd ho hfd
    rw [hi] at hmirror
    rw [hslot, hinst, hmirror.2.1]
    exact ⟨ho, (h.slots.slot i.slot).inst⟩
  refine ⟨⟨h.slots.nodup, h.slots.free_iff, h.slots.held_lt, h.slots.slot⟩, h.epoll,
    ⟨h.timers.tracks.pass hlate, h.timers.ok.pass elapsed, h.timers.sentinel_eq, h.timers.held⟩,
    ⟨h.posted.holds, h.posted.held⟩, ?_⟩
  refine ⟨fun _ => Nat.le_refl _, fun _ _ => Nat.le_succ _, fun m hm => (hsock m hm).2,
    fun m hm _ => .inl (hsock m hm).1, fun m hm => ?_⟩
  cases hm

/-- A handler returns. -/
theorem ret (h : LoopOk n σ s g) (hp : s.phase.outside = true) (hne : s.phase ≠ .program) :
    ∃ s', s.ret = some s' ∧ LoopOk n σ s' g := by
  rw [EventLoop.ret]
  cases hph : s.phase with
  | onRead p m batch =>
    refine ⟨_, rfl, h.withPhase (fun x hx => ?_) fun x hx => h.batch.passed x ?_⟩
    · rw [hph]
      exact hx
    · rw [hph]
      exact hx
  | onWrite p slot batch =>
    refine ⟨_, rfl, h.withPhase (fun x hx => ?_) fun x hx => ?_⟩
    · rw [hph]
      exact hx
    · cases hx
  | onPosted p q ev =>
    refine ⟨_, rfl, h.withPhase (fun x hx => ?_) fun x hx => ?_⟩
    · cases hx
    · cases hx
  | onTimer p ev =>
    refine ⟨_, rfl, h.withPhase (fun x hx => ?_) fun x hx => ?_⟩
    · cases hx
    · cases hx
  | program => exact absurd hph hne
  | scan p batch =>
    rw [hph] at hp
    cases hp
  | half p m batch =>
    rw [hph] at hp
    cases hp
  | drain p q =>
    rw [hph] at hp
    cases hp
  | expire p =>
    rw [hph] at hp
    cases hp

end LoopOk

/-- The inputs that the phase allows, and the kernel. -/
def LoopEnabled (s : EventLoop w) : LoopInput w → Prop
  | .call _ => s.phase.outside = true
  | .wait ready _ _ => s.phase = .program ∧ (epollWait s.epoll ready).isSome
  | .next => s.phase.outside = false
  | .ret => s.phase.outside = true ∧ s.phase ≠ .program

/-- **One step.** -/
theorem LoopOk.step {i : LoopInput w} (h : LoopOk n σ s g) (hσ : 2 * n < σ)
    (hfuel : 2 * Nat.log 2 (2 * n + 2) < fuel) (hen : LoopEnabled s i)
    (hcare : LoopCare n (s, g) i) :
    ∃ s', loopStep fuel s i = some s' ∧ LoopOk n σ s' (loopNote s i g) := by
  cases i with
  | call c =>
    obtain ⟨s', hs', hok, -⟩ := h.call hσ hfuel hcare
    exact ⟨s', by rw [loopStep, if_pos (show s.phase.outside = true from hen), hs'], hok⟩
  | wait ready post elapsed =>
    obtain ⟨hp, hready⟩ := hen
    obtain ⟨batch, hbatch⟩ := Option.isSome_iff_exists.mp hready
    refine ⟨_, ?_, h.wait (p := ⟨post, BitVec.ofNat (w + 1) elapsed ≠ 0⟩) hbatch hcare⟩
    rw [loopStep, EventLoop.wait, if_pos hp, hbatch]
    rfl
  | next => exact h.next hfuel hen
  | ret => exact h.ret hen.1 hen.2

/-- A step that is taken was enabled. -/
theorem loopEnabled_of_step {i : LoopInput w} (h : loopStep fuel s i = some s') :
    LoopEnabled s i := by
  cases i with
  | call c => exact (Option.ite_none_right_eq_some.mp h).1
  | wait ready post elapsed =>
    obtain ⟨hp, hwait⟩ := Option.ite_none_right_eq_some.mp h
    obtain ⟨batch, hbatch, -⟩ := Option.map_eq_some_iff.mp hwait
    exact ⟨hp, by rw [hbatch]; rfl⟩
  | next =>
    have h : s.next fuel = some s' := h
    show s.phase.outside = false
    rw [EventLoop.next] at h
    cases hp : s.phase <;> rw [hp] at h <;> first | rfl | cases h
  | ret =>
    have h : s.ret = some s' := h
    show s.phase.outside = true ∧ s.phase ≠ .program
    rw [EventLoop.ret] at h
    cases hp : s.phase <;> rw [hp] at h <;> first | (cases h; done) | exact ⟨rfl, by simp⟩

/-- The state that `ngx_event_process_init` leaves, at the time `msec`. The memory of an event is
    not read before its slot is taken for the first time. -/
def loopStart (w n : Nat) (σ : Ptr) (links : Ptr → RB.Links Ptr) (key : Ptr → BitVec (w + 1))
    (msec : Nat) : EventLoop w × LoopNotes :=
  ({ conn := fun _ => ⟨none, ⟨false, false, false, true⟩, ⟨false, false, false, false⟩⟩
     free := List.range n
     epoll := fun _ => none
     timers := .init σ links key (BitVec.ofNat (w + 1) msec)
     posted := ⟨fun _ => none, fun _ => none, fun _ => none⟩
     phase := .program },
   { owner := fun _ => .free
     gen := fun _ => 0
     waitGen := fun _ => 0
     passGen := 0
     armGen := fun _ => 0
     postGen := fun _ => 0
     deadlines := ⟨msec, fun _ => 0, fun _ => 0, fun _ => 0, 0, []⟩
     queue := fun _ => [] })

section Runs

variable {links : Ptr → RB.Links Ptr} {key : Ptr → BitVec (w + 1)} {msec : Nat}

theorem loopOk_start :
    LoopOk n σ (loopStart w n σ links key msec).1 (loopStart w n σ links key msec).2 := by
  refine ⟨⟨List.nodup_range, ?_, ?_, ?_⟩, ⟨?_, ?_, ?_, ?_⟩, ⟨?_, ?_, rfl, ?_⟩, ⟨?_, ?_⟩, ?_⟩
  · simp [loopStart]
  · simp [loopStart]
  · intro slot
    exact ⟨fun hc => absurd rfl hc, rfl, fun hc => absurd rfl hc⟩
  · simp [loopStart]
  · simp [loopStart]
  · simp [loopStart]
  · simp [loopStart]
  · refine ⟨Rbtree.init_inOrder σ links key, ?_, ?_, rfl, ?_, ?_, ?_⟩
    all_goals simp [loopStart, Timers.init]
  · refine ⟨?_, ?_, ?_, ?_⟩
    all_goals simp [loopStart]
  · simp [loopStart]
  · refine ⟨fun q => rfl, fun q => List.nodup_nil, ?_, fun a _ => rfl⟩
    simp [loopStart]
  · simp [loopStart]
  · refine ⟨?_, ?_, ?_, ?_, ?_⟩
    all_goals simp [loopStart, LoopPhase.batch, LoopPhase.inHand]

/-- **Whole runs.** -/
theorem loopOk_of_reaches (hσ : 2 * n < σ) (hfuel : 2 * Nat.log 2 (2 * n + 2) < fuel)
    (h : ((loopMachine w fuel).withNotes loopNote).Reaches (LoopCare n)
      (loopStart w n σ links key msec) (s, g)) : LoopOk n σ s g := by
  refine h.invariant (I := fun x => LoopOk n σ x.1 x.2) loopOk_start fun x i y hx hG hs => ?_
  obtain ⟨hs, hnote⟩ := Machine.step_withNotes hs
  obtain ⟨s', he, hok⟩ := hx.step hσ hfuel (loopEnabled_of_step hs) hG
  obtain rfl : s' = y.1 := Option.some.inj (he.symm.trans hs)
  rw [hnote]
  exact hok

/-! ### What holds in every run -/

/-- **The structures of the loop.** In every run with care, across the reuse of slots and of the
    memory of their events, the free list has just the slots that nobody holds, the tree of the
    timers and the queues of posted events are intact, and who waits in them belongs to the
    present holder of its slot. No call fails. -/
theorem loop_structures_hold (hσ : 2 * n < σ) (hfuel : 2 * Nat.log 2 (2 * n + 2) < fuel)
    (h : ((loopMachine w fuel).withNotes loopNote).Reaches (LoopCare n)
      (loopStart w n σ links key msec) (s, g)) :
    s.free.Perm ((List.range n).filter fun slot => g.owner slot = .free) ∧
    s.timers.rbtree.InOrder g.deadlines.queue ∧
    (∀ e, s.timers.timerSet e = true → HeldBy g g.armGen e) ∧
    s.posted.Holds g.queue ∧
    (∀ e, s.posted.prev e ≠ none → HeldBy g g.postGen e) ∧
    ∀ i, LoopEnabled s i → LoopCare n (s, g) i → (loopStep fuel s i).isSome := by
  have hok := loopOk_of_reaches hσ hfuel h
  refine ⟨?_, hok.timers.tracks.tree, fun e he => ?_, hok.posted.holds, fun e he => ?_,
    fun i hen hcare => ?_⟩
  · rw [List.perm_ext_iff_of_nodup hok.slots.nodup (List.nodup_range.filter _)]
    intro slot
    rw [hok.slots.free_iff slot, List.mem_filter, List.mem_range, decide_eq_true_iff]
  · rw [hok.timers.tracks.set e, decide_eq_true_iff] at he
    exact hok.timers.held e he
  · obtain ⟨q, hq⟩ := not_forall_not.mp fun hc => he (hok.posted.holds.prev_eq_none.mpr hc)
    exact hok.posted.held q e hq
  · obtain ⟨s', hs', -⟩ := hok.step hσ hfuel hen hcare
    rw [hs']
    rfl

/-- Two slots, and a clock of 32 bits at zero. -/
def twoSlots : EventLoop 31 × LoopNotes :=
  loopStart 31 2 9 (fun _ => ⟨0, 0, 0, .black⟩) (fun _ => 0) 0

/-- A connection with a timer is reported and posted; the handler closes it, sets a timer that
    takes its slot, and opens another connection. -/
theorem loop_structures_hold_reuse :
    ∃ s g, ((loopMachine 31 5).withNotes loopNote).Reaches (LoopCare 2) twoSlots (s, g) ∧
      (s.free, g.deadlines.queue, g.gen 0, g.owner 0, g.owner 1) = ([], [1], 2, .timer, .socket) ∧
      s.timers.rbtree.InOrder g.deadlines.queue := by
  obtain ⟨⟨s, g⟩, hr, hx⟩ := Machine.Reaches.of_run_map
    (M := (loopMachine 31 5).withNotes loopNote) (G := LoopCare 2) (s := twoSlots)
    (fun x => (x.1.free, x.2.deadlines.queue, x.2.gen 0, x.2.owner 0, x.2.owner 1))
    [.call (.getConnection 5 false), .call (.addConnection 0), .call (.addTimer 0 .write 700),
      .wait [(5, ⟨true, false, false⟩)] true 10, .next, .next, .next, .next, .next, .next,
      .call (.closeConnection 0), .call (.setTimer 300), .call (.getConnection 5 false)]
    (show _ = some ([], [1], 2, .timer, .socket) by decide +kernel)
  exact ⟨s, g, hr, hx, (loop_structures_hold (by decide) (by decide) hr).2.1⟩

/-- **Registration.** In every run with care the kernel watches just the sockets with an active
    event, for the events that are active, and each under its own slot and instance. -/
theorem epoll_mirrors_active (hσ : 2 * n < σ) (hfuel : 2 * Nat.log 2 (2 * n + 2) < fuel)
    (h : ((loopMachine w fuel).withNotes loopNote).Reaches (LoopCare n)
      (loopStart w n σ links key msec) (s, g)) :
    (∀ slot, g.owner slot = .socket → ∃ fd, (s.conn slot).fd = some fd ∧
      ∀ i, s.epoll fd = some i → i.slot = slot ∧ i.inst = (s.conn slot).read.inst ∧
        i.input = (s.conn slot).read.active ∧ i.output = (s.conn slot).write.active) ∧
    (∀ slot d, g.owner slot = .socket → ((s.conn slot).event d).active = true →
      ∃ fd, (s.conn slot).fd = some fd ∧ (s.epoll fd).isSome) ∧
    ∀ fd i, s.epoll fd = some i → g.owner i.slot = .socket ∧ (s.conn i.slot).fd = some fd ∧
      ∃ d, ((s.conn i.slot).event d).active = true := by
  have hok := loopOk_of_reaches hσ hfuel h
  refine ⟨fun slot ho => ?_, fun slot d ho hact => ?_, fun fd i hi => ?_⟩
  · obtain ⟨fd, hfd, hm, -⟩ := hok.socket ho
    refine ⟨fd, hfd, fun i hi => ?_⟩
    rw [hi] at hm
    exact ⟨hm.1, hm.2.1, hm.2.2.1, hm.2.2.2.1⟩
  · obtain ⟨fd, hfd, hm, -⟩ := hok.socket ho
    obtain ⟨i, hi⟩ := hm.exists_iff.mpr ⟨d, hact⟩
    exact ⟨fd, hfd, by rw [hi]; rfl⟩
  · obtain ⟨ho, hfd⟩ := hok.epoll.only fd i hi
    exact ⟨ho, hfd, (hok.epoll.mirror i.slot fd ho hfd).exists_iff.mp ⟨i, hi⟩⟩

/-- Writing only is left of a connection that was added as a whole. -/
theorem epoll_mirrors_active_writing :
    ∃ s g, ((loopMachine 31 5).withNotes loopNote).Reaches (LoopCare 2) twoSlots (s, g) ∧
      s.epoll 5 = some ⟨false, true, true, 0, false⟩ ∧ g.owner 0 = .socket ∧
      (s.conn 0).fd = some 5 := by
  obtain ⟨⟨s, g⟩, hr, hx⟩ := Machine.Reaches.of_run_map
    (M := (loopMachine 31 5).withNotes loopNote) (G := LoopCare 2) (s := twoSlots)
    (fun x => x.1.epoll 5)
    [.call (.getConnection 5 false), .call (.addConnection 0), .call (.delEvent 0 .read true)]
    (show _ = some (some ⟨false, true, true, 0, false⟩) by decide +kernel)
  obtain ⟨ho, hfd, -⟩ := (epoll_mirrors_active (by decide) (by decide) hr).2.2 5 _ hx
  exact ⟨s, g, hr, hx, ho, hfd⟩

/-- **Stale notices.** In every run with care the test of `ngx_epoll_process_events` is exact: it
    lets a notice pass just if the slot still has the socket that was reported, neither closed
    nor taken by another one. -/
theorem stale_test_exact (hσ : 2 * n < σ) (hfuel : 2 * Nat.log 2 (2 * n + 2) < fuel)
    (h : ((loopMachine w fuel).withNotes loopNote).Reaches (LoopCare n)
      (loopStart w n σ links key msec) (s, g)) {p : Pass} {m : Notice} {batch : List Notice}
    (hp : s.phase = .scan p (m :: batch)) :
    s.Stale m ↔ ¬ (g.owner m.slot = .socket ∧ g.gen m.slot = g.waitGen m.slot) := by
  have hok := loopOk_of_reaches hσ hfuel h
  constructor
  · rintro hstale ⟨ho, hgen⟩
    have hmem : m ∈ s.phase.batch := by
      rw [hp]
      exact List.mem_cons_self
    obtain ⟨fd, hfd, -, -⟩ := hok.socket ho
    rcases hstale with hnone | hinst
    · rw [hfd] at hnone
      cases hnone
    · apply hinst
      rw [(hok.slots.slot m.slot).inst, hok.batch.inst m hmem, hgen]
  · intro hnot
    by_contra hfresh
    exact hnot (hok.fresh hp hfresh)

/-- The handler of the first notice closes the connection of the second one, and a new
    connection takes its slot. -/
theorem stale_test_exact_retaken :
    ∃ s g, ((loopMachine 31 5).withNotes loopNote).Reaches (LoopCare 2) twoSlots (s, g) ∧
      s.phase = .scan ⟨false, false⟩ [⟨1, false, ⟨true, false, false⟩⟩] ∧
      g.owner 1 = .socket ∧ s.Stale ⟨1, false, ⟨true, false, false⟩⟩ := by
  obtain ⟨⟨s, g⟩, hr, hx⟩ := Machine.Reaches.of_run_map
    (M := (loopMachine 31 5).withNotes loopNote) (G := LoopCare 2) (s := twoSlots)
    (fun x => (x.1.phase, x.2.owner 1, x.2.gen 1, x.2.waitGen 1))
    [.call (.getConnection 5 false), .call (.addConnection 0), .call (.getConnection 6 false),
      .call (.addConnection 1),
      .wait [(5, ⟨true, false, false⟩), (6, ⟨true, false, false⟩)] false 0, .next,
      .call (.closeConnection 1), .call (.getConnection 6 false), .call (.addConnection 1), .ret,
      .next]
    (show _ = some (.scan ⟨false, false⟩ [⟨1, false, ⟨true, false, false⟩⟩], .socket, 2, 1)
      by decide +kernel)
  obtain ⟨hp, ho, hgen, hwait⟩ : s.phase = _ ∧ g.owner 1 = _ ∧ g.gen 1 = _ ∧ g.waitGen 1 = _ := by
    simpa using hx
  refine ⟨s, g, hr, hp, ho, (stale_test_exact (by decide) (by decide) hr hp).mpr fun hc => ?_⟩
  have hc : g.gen 1 = g.waitGen 1 := hc.2
  omega

/-- What a turn that looks at a notice leads to. -/
theorem phase_readTurn (s : EventLoop w) (p : Pass) (m : Notice) (batch : List Notice) :
    (s.readTurn p m batch).phase.outside = false ∨ ¬ s.Stale m ∧
      (s.readTurn p m batch).phase = .onRead p { m with revents := m.revents.widen } batch := by
  rw [EventLoop.readTurn]
  by_cases hstale : s.Stale m
  · rw [if_pos hstale]
    exact .inl rfl
  · rw [if_neg hstale]
    dsimp only
    by_cases hact : m.revents.widen.input = true ∧ (s.conn m.slot).read.active = true
    · rw [if_pos hact, EventLoop.raise]
      cases p.post with
      | true => exact .inl rfl
      | false => exact .inr ⟨hstale, rfl⟩
    · rw [if_neg hact]
      exact .inl rfl

theorem phase_writeTurn (s : EventLoop w) (p : Pass) (m : Notice) (batch : List Notice) :
    (s.writeTurn p m batch).phase.outside = false ∨ (s.conn m.slot).write.active = true ∧
      (s.writeTurn p m batch).phase = .onWrite p m.slot batch := by
  rw [EventLoop.writeTurn]
  by_cases hact : m.revents.output = true ∧ (s.conn m.slot).write.active = true
  · rw [if_pos hact, EventLoop.raise]
    cases p.post with
    | true => exact .inl rfl
    | false => exact .inr ⟨hact.2, rfl⟩
  · rw [if_neg hact]
    exact .inl rfl

/-- A turn of one of the loops calls a handler, and why; or it calls none. -/
inductive Called (s : EventLoop w) (g : LoopNotes) : LoopPhase → Prop
  | none {phase : LoopPhase} (h : phase.outside = false ∨ phase = .program) : Called s g phase
  | read {p : Pass} {m : Notice} {batch : List Notice} {r : Revents}
      (hp : s.phase = .scan p (m :: batch)) (hm : ¬ s.Stale m) :
      Called s g (.onRead p { m with revents := r } batch)
  | write {p : Pass} {m : Notice} {batch : List Notice} (hp : s.phase = .half p m batch)
      (hact : (s.conn m.slot).write.active = true) : Called s g (.onWrite p m.slot batch)
  | posted {p : Pass} {q : PostedQueue} {ev : Ptr} (hev : ev ∈ g.queue q) :
      Called s g (.onPosted p q ev)
  | timer {p : Pass} {ev : Ptr} (hev : ev ∈ g.deadlines.queue) : Called s g (.onTimer p ev)

theorem LoopOk.called (h : LoopOk n σ s g) (hfuel : 2 * Nat.log 2 (2 * n + 2) < fuel)
    (hs : s.next fuel = some s') : Called s g s'.phase := by
  rw [EventLoop.next] at hs
  cases hp : s.phase with
  | scan p batch =>
    cases batch with
    | nil =>
      rw [hp] at hs
      cases hs
      exact .none (.inl rfl)
    | cons m batch =>
      rw [hp] at hs
      cases hs
      rcases phase_readTurn s p m batch with hin | ⟨hm, hr⟩
      · exact .none (.inl hin)
      · rw [hr]
        exact .read hp hm
  | half p m batch =>
    rw [hp] at hs
    cases hs
    rcases phase_writeTurn s p m batch with hin | ⟨hact, hw⟩
    · exact .none (.inl hin)
    · rw [hw]
      exact .write hp hact
  | drain p q =>
    obtain ⟨m, hm, -⟩ := h.posted.turn q
    rw [hp] at hs
    dsimp only at hs
    rw [hm] at hs
    cases hs
    dsimp only
    cases hq : (g.queue q).head? with
    | none =>
      refine .none ?_
      cases q with
      | accept =>
        rw [Option.map_none, Option.getD_none, EventLoop.afterDrain]
        split <;> exact .inl rfl
      | events => exact .inr rfl
    | some ev => exact .posted (List.mem_of_mem_head? hq)
  | expire p =>
    obtain ⟨r, hr, -, hfired⟩ := h.timers.expireTurn (h.fuel_lt hfuel)
    rw [hp] at hs
    dsimp only at hs
    rw [hr] at hs
    cases hs
    dsimp only
    cases hev : r.1 with
    | none => exact .none (.inl rfl)
    | some ev => exact .timer (hfired ev hev)
  | program =>
    rw [hp] at hs
    cases hs
  | onRead p m batch =>
    rw [hp] at hs
    cases hs
  | onWrite p slot batch =>
    rw [hp] at hs
    cases hs
  | onPosted p q ev =>
    rw [hp] at hs
    cases hs
  | onTimer p ev =>
    rw [hp] at hs
    cases hs

/-- **Handlers.** In every run with care, a read handler that `ngx_epoll_process_events` calls is
    that of the connection that the kernel has reported; a write handler is that of a connection
    that is open, and the reported one unless the slot was taken again since the notice was
    found fresh. A handler that is called for a posted event or for a timer is that of the
    connection for which the event was posted or the timer was set. -/
theorem handlers_of_their_holders (hσ : 2 * n < σ) (hfuel : 2 * Nat.log 2 (2 * n + 2) < fuel)
    (h : ((loopMachine w fuel).withNotes loopNote).Reaches (LoopCare n)
      (loopStart w n σ links key msec) (s, g)) (hs : loopStep fuel s .next = some s') :
    (∀ p m batch, s'.phase = .onRead p m batch →
      g.owner m.slot = .socket ∧ g.gen m.slot = g.waitGen m.slot) ∧
    (∀ p slot batch, s'.phase = .onWrite p slot batch →
      g.owner slot = .socket ∧ (g.gen slot = g.passGen → g.gen slot = g.waitGen slot)) ∧
    (∀ p q ev, s'.phase = .onPosted p q ev → HeldBy g g.postGen ev) ∧
    ∀ p ev, s'.phase = .onTimer p ev → HeldBy g g.armGen ev := by
  have hok := loopOk_of_reaches hσ hfuel h
  have hcalled := hok.called hfuel hs
  refine ⟨fun p m batch hp => ?_, fun p slot batch hp => ?_, fun p q ev hp => ?_, fun p ev hp => ?_⟩
  · rw [hp] at hcalled
    cases hcalled with
    | none hin => simp [LoopPhase.outside] at hin
    | @read _ m' _ _ hscan hm => exact hok.fresh (m := m') hscan hm
  · rw [hp] at hcalled
    cases hcalled with
    | none hin => simp [LoopPhase.outside] at hin
    | @write _ m _ hhalf hact =>
      refine ⟨hok.epoll.write m.slot hact, fun hgen => hgen.trans (hok.batch.passed m ?_)⟩
      rw [hhalf]
      rfl
  · rw [hp] at hcalled
    cases hcalled with
    | none hin => simp [LoopPhase.outside] at hin
    | posted hev => exact hok.posted.held q ev hev
  · rw [hp] at hcalled
    cases hcalled with
    | none hin => simp [LoopPhase.outside] at hin
    | timer hev => exact hok.timers.held ev hev

/-- A read handler closes its connection and opens another one, which takes the slot: the second
    half of the turn calls the write handler of the new connection, for the notice about the
    old one. -/
theorem handlers_of_their_holders_write :
    ∃ s s' g, ((loopMachine 31 5).withNotes loopNote).Reaches (LoopCare 2) twoSlots (s, g) ∧
      loopStep 5 s .next = some s' ∧ s'.phase = .onWrite ⟨false, false⟩ 0 [] ∧
      g.gen 0 = g.waitGen 0 + 1 ∧ g.owner 0 = .socket := by
  obtain ⟨⟨s, g⟩, hr, hx⟩ := Machine.Reaches.of_run_map
    (M := (loopMachine 31 5).withNotes loopNote) (G := LoopCare 2) (s := twoSlots)
    (fun x => ((loopStep 5 x.1 .next).map EventLoop.phase, x.2.gen 0, x.2.waitGen 0))
    [.call (.getConnection 5 false), .call (.addConnection 0),
      .wait [(5, ⟨true, true, false⟩)] false 0, .next, .call (.closeConnection 0),
      .call (.getConnection 6 false), .call (.addConnection 0), .ret]
    (show _ = some (some (.onWrite ⟨false, false⟩ 0 []), 2, 1) by decide +kernel)
  obtain ⟨hstep, hgen, hwait⟩ : _ ∧ g.gen 0 = 2 ∧ g.waitGen 0 = 1 := by
    simpa only [Prod.mk.injEq] using hx
  obtain ⟨s', hs', hp⟩ := Option.map_eq_some_iff.mp hstep
  refine ⟨s, s', g, hr, hs', hp, by omega, ?_⟩
  exact ((handlers_of_their_holders (by decide) (by decide) hr hs').2.1 _ _ _ hp).1

end Runs

end NginxEngine.Core
