import NginxEngine.Core.LoopInvariant

/-!
# Calls into the event loop

The functions that handlers and the program call: they take and give back slots, register
events, set and delete timers. Each of them keeps the invariant, as long as its caller sees to
what `CallCare` asks for.

## Main definitions

- `callNote` — the notes after a call
- `CallCare` — what callers see to

## Main results

- `LoopOk.call` — a call with care has a result and keeps the invariant
-/

namespace NginxEngine.Core

variable {w n fuel slot fd : Nat} {σ : Ptr} {d : Dir} {s s' : EventLoop w} {g : LoopNotes}

/-- The notes after a call. -/
def callNote (s : EventLoop w) (g : LoopNotes) : LoopCall w → LoopNotes
  | .getConnection _ _ => match s.free with
    | [] => g
    | slot :: _ => g.take slot .socket
  | .setTimer msec => match s.free with
    | [] => g
    | slot :: _ => (g.take slot .timer).arm slot .read msec.toNat
  | .closeConnection slot => if (s.conn slot).fd = none then g else g.release slot
  | .closeAccepted slot | .clearTimer slot | .freeTimer slot => g.release slot
  | .addTimer slot d timer => g.arm slot d timer.toNat
  | .delTimer slot d => g.disarm (d.event slot)
  | .addEvent _ _ _ | .delEvent _ _ _ | .addConnection _ | .delConnection _ | .handleEvent _ _
  | .setReady _ _ _ => g

/-- The next slot that is taken is not one that has been taken since `epoll_wait` returned, if a
    notice still waits for it: the single bit of `instance` could not tell the two apart. -/
def Spared (s : EventLoop w) (g : LoopNotes) : Prop :=
  ∀ m ∈ s.phase.batch, s.free.head? = some m.slot → g.gen m.slot = g.waitGen m.slot

/-- The event is in no structure of the loop. -/
def Unused (s : EventLoop w) (ev : Ptr) : Prop :=
  s.timers.timerSet ev = false ∧ s.posted.prev ev = none

/-- A timer is set for less than half the range of the clock, also as seen from the other ones. -/
def InRange (g : LoopNotes) (timer : BitVec (w + 1)) : Prop :=
  timer.toNat < 2 ^ w ∧ ∀ e ∈ g.deadlines.queue,
    g.deadlines.now + timer.toNat < g.deadlines.due e + 2 ^ w

instance (s : EventLoop w) (g : LoopNotes) : Decidable (Spared s g) :=
  inferInstanceAs (Decidable (∀ m ∈ s.phase.batch, _ → _))

instance (s : EventLoop w) (ev : Ptr) : Decidable (Unused s ev) :=
  inferInstanceAs (Decidable (_ ∧ _))

instance (g : LoopNotes) (timer : BitVec (w + 1)) : Decidable (InRange g timer) :=
  inferInstanceAs (Decidable (_ ∧ ∀ e ∈ _, _))

/-- What callers see to: a descriptor is new; calls are about slots that the caller holds; an
    event is added if it is not active, and deleted if it is. -/
def CallCare (n : Nat) (s : EventLoop w) (g : LoopNotes) : LoopCall w → Prop
  | .getConnection fd _ => Spared s g ∧
      ∀ slot < n, g.owner slot = .socket → (s.conn slot).fd ≠ some fd
  | .setTimer msec => Spared s g ∧ InRange g msec
  | .closeConnection slot => g.owner slot = .socket ∨ (s.conn slot).fd = none
  | .closeAccepted slot => g.owner slot = .socket ∧ (s.conn slot).write.active = false ∧
      Unused s (Dir.read.event slot) ∧ Unused s (Dir.write.event slot)
  | .addEvent slot d _ => g.owner slot = .socket ∧ ((s.conn slot).event d).active = false
  | .delEvent slot d _ => g.owner slot = .socket ∧ ((s.conn slot).event d).active = true
  | .addConnection slot => g.owner slot = .socket ∧ (s.conn slot).read.active = false ∧
      (s.conn slot).write.active = false
  | .delConnection slot => g.owner slot = .socket ∧
      ((s.conn slot).read.active = true ∨ (s.conn slot).write.active = true)
  | .handleEvent slot _ => g.owner slot = .socket
  | .setReady slot _ _ => g.owner slot ≠ .free
  | .addTimer slot _ timer => g.owner slot ≠ .free ∧ InRange g timer
  | .delTimer _ _ => True
  | .clearTimer slot => g.owner slot = .timer ∧ s.timers.timerSet (Dir.read.event slot) = true ∧
      s.posted.prev (Dir.read.event slot) = none ∧ Unused s (Dir.write.event slot)
  | .freeTimer slot => g.owner slot = .timer ∧ Unused s (Dir.read.event slot) ∧
      Unused s (Dir.write.event slot)

instance (s : EventLoop w) (g : LoopNotes) (c : LoopCall w) : Decidable (CallCare n s g c) := by
  unfold CallCare
  split <;> infer_instance

/-! ### Calls -/

namespace LoopOk

/-- Flags of a connection change that the other parts do not know. -/
theorem update {c : Connection} (h : LoopOk n σ s g) (hfd : c.fd = (s.conn slot).fd)
    (hri : c.read.inst = (s.conn slot).read.inst) (hwi : c.write.inst = (s.conn slot).write.inst)
    (hra : c.read.active = (s.conn slot).read.active)
    (hwa : c.write.active = (s.conn slot).write.active) : LoopOk n σ (s.setConn slot c) g := by
  refine ⟨h.slots.update hfd hri hwi, h.epoll.update hfd hri hra hwa, h.timers, h.posted,
    h.batch.congr rfl rfl rfl fun a ha => ha.imp_right fun hc => ?_⟩
  by_cases hs : a = slot
  · rw [hs] at hc ⊢
    exact (congrArg Connection.fd (Function.update_self ..)).trans (hfd.trans hc)
  · exact (congrArg Connection.fd (Function.update_of_ne hs _ _)).trans hc

theorem setReady (h : LoopOk n σ s g) (slot : Nat) (d : Dir) (b : Bool) :
    LoopOk n σ (s.setConn slot ((s.conn slot).setReady d b)) g := by
  cases d with
  | read => exact h.update rfl rfl rfl rfl rfl
  | write => exact h.update rfl rfl rfl rfl rfl

/-- The timers change, and the notes about them. -/
theorem withTimers {t : Timers w} {q : Deadlines Ptr} {a : Ptr → Nat} (h : LoopOk n σ s g)
    (ht : TimersHeld σ t { g with deadlines := q, armGen := a }) :
    LoopOk n σ { s with timers := t } { g with deadlines := q, armGen := a } :=
  ⟨⟨h.slots.nodup, h.slots.free_iff, h.slots.held_lt, h.slots.slot⟩, h.epoll, ht,
    ⟨h.posted.holds, h.posted.held⟩, h.batch.congr rfl rfl rfl fun _ ha => ha⟩

/-- The queues of posted events change, and the notes about them. -/
theorem withPosted {m : PostedEvents} {q : PostedQueue → List Ptr} {a : Ptr → Nat}
    (h : LoopOk n σ s g) (hm : PostedHeld m { g with queue := q, postGen := a }) :
    LoopOk n σ { s with posted := m } { g with queue := q, postGen := a } :=
  ⟨⟨h.slots.nodup, h.slots.free_iff, h.slots.held_lt, h.slots.slot⟩, h.epoll,
    ⟨h.timers.tracks, h.timers.ok, h.timers.sentinel_eq, h.timers.held⟩, hm,
    h.batch.congr rfl rfl rfl fun _ ha => ha⟩

/-- The registration of a socket changes together with its events. -/
theorem register {c : Connection} {v : Option Interest} (h : LoopOk n σ s g)
    (ho : g.owner slot = .socket) (hfd : (s.conn slot).fd = some fd) (hc : c.fd = some fd)
    (hri : c.read.inst = (s.conn slot).read.inst) (hwi : c.write.inst = (s.conn slot).write.inst)
    (hm : Mirrors slot c v) :
    LoopOk n σ ({ s with epoll := Function.update s.epoll fd v }.setConn slot c) g := by
  refine ⟨h.slots.update (hc.trans hfd.symm) hri hwi, h.epoll.register ho hfd hc hm, h.timers,
    h.posted, h.batch.congr rfl rfl rfl fun a ha => ha.imp_right fun hn => ?_⟩
  by_cases hs : a = slot
  · rw [hs, hfd] at hn
    cases hn
  · exact (congrArg Connection.fd (Function.update_of_ne hs _ _)).trans hn

/-- A socket has a descriptor, of which the kernel knows what the events say. -/
theorem socket (h : LoopOk n σ s g) (ho : g.owner slot = .socket) :
    ∃ fd, (s.conn slot).fd = some fd ∧ Mirrors slot (s.conn slot) (s.epoll fd) ∧
      (s.conn slot).write.inst = (s.conn slot).read.inst := by
  have hheld : g.owner slot ≠ .free := by
    rw [ho]
    decide
  obtain ⟨fd, hfd⟩ := Option.ne_none_iff_exists'.mp ((h.slots.slot slot).fd hheld)
  exact ⟨fd, hfd, h.epoll.mirror slot fd ho hfd, (h.slots.slot slot).same hheld⟩

/-- What the kernel is told when an event is added or deleted. -/
theorem mirrors_request {c : Connection}
    (hsame : (s.conn slot).write.inst = (s.conn slot).read.inst) (d : Dir) (on edge : Bool)
    (hc : c = (s.conn slot).setActive d on) (hact : ∃ d, (c.event d).active = true) :
    Mirrors slot c (some (s.request slot d on edge)) := by
  have hor : c.read.active = true ∨ c.write.active = true := by
    obtain ⟨d', hd'⟩ := hact
    cases d' with
    | read => exact .inl hd'
    | write => exact .inr hd'
  rw [hc] at hor ⊢
  cases d with
  | read => exact ⟨rfl, rfl, rfl, rfl, hor⟩
  | write => exact ⟨rfl, hsame, rfl, rfl, hor⟩

theorem addEvent (h : LoopOk n σ s g) (ho : g.owner slot = .socket)
    (ha : ((s.conn slot).event d).active = false) (edge : Bool) :
    ∃ s', s.epollAddEvent slot d edge = some s' ∧ LoopOk n σ s' g ∧ s'.phase = s.phase := by
  obtain ⟨fd, hfd, hm, hsame⟩ := h.socket ho
  have hctl : epollCtl s.epoll (if ((s.conn slot).event d.other).active then .mod else .add)
      (some fd) (s.request slot d true edge) =
        some (Function.update s.epoll fd (some (s.request slot d true edge))) := by
    by_cases hother : ((s.conn slot).event d.other).active = true
    · obtain ⟨i, hi⟩ := hm.exists_iff.mpr ⟨_, hother⟩
      rw [if_pos hother, epollCtl_mod hi]
    · rw [if_neg hother, epollCtl_add]
      cases hv : s.epoll fd with
      | none => rfl
      | some i =>
        have hact := (Dir.exists_iff d).mp (hm.exists_iff.mp ⟨i, hv⟩)
        rw [ha, or_iff_right Bool.false_ne_true] at hact
        exact absurd hact hother
  rw [EventLoop.epollAddEvent, hfd, hctl]
  refine ⟨_, rfl, h.register ho hfd ?_ ?_ ?_ (mirrors_request hsame d true edge rfl ?_), rfl⟩
  · rw [Connection.setActive_fd, hfd]
  · exact Connection.inst_setActive _ d true .read
  · exact Connection.inst_setActive _ d true .write
  · exact ⟨d, Connection.active_setActive ..⟩

theorem delEvent (h : LoopOk n σ s g) (ho : g.owner slot = .socket)
    (ha : ((s.conn slot).event d).active = true) (edge : Bool) :
    ∃ s', s.epollDelEvent slot d edge = some s' ∧ LoopOk n σ s' g ∧ s'.phase = s.phase := by
  obtain ⟨fd, hfd, hm, hsame⟩ := h.socket ho
  obtain ⟨i, hi⟩ := hm.exists_iff.mpr ⟨d, ha⟩
  rw [EventLoop.epollDelEvent, hfd]
  have hkeep : ((s.conn slot).setActive d false).fd = some fd := by
    rw [Connection.setActive_fd, hfd]
  by_cases hother : ((s.conn slot).event d.other).active = true
  · rw [if_pos hother, epollCtl_mod hi]
    refine ⟨_, rfl, h.register ho hfd hkeep (Connection.inst_setActive _ d false .read)
      (Connection.inst_setActive _ d false .write) (mirrors_request hsame d false edge rfl ?_), rfl⟩
    exact ⟨d.other, by rw [Connection.active_setActive_other, hother]⟩
  · rw [if_neg hother, epollCtl_del hi]
    refine ⟨_, rfl, h.register ho hfd hkeep (Connection.inst_setActive _ d false .read)
      (Connection.inst_setActive _ d false .write) ?_, rfl⟩
    rw [Bool.not_eq_true] at hother
    cases d with
    | read => exact ⟨rfl, hother⟩
    | write => exact ⟨hother, rfl⟩

theorem addConnection (h : LoopOk n σ s g) (ho : g.owner slot = .socket)
    (hr : (s.conn slot).read.active = false) (hw : (s.conn slot).write.active = false) :
    ∃ s', s.epollAddConnection slot = some s' ∧ LoopOk n σ s' g ∧ s'.phase = s.phase := by
  obtain ⟨fd, hfd, hm, hsame⟩ := h.socket ho
  have hnone : s.epoll fd = none := by
    cases hv : s.epoll fd with
    | none => rfl
    | some i =>
      have hact := (Dir.exists_iff .read).mp (hm.exists_iff.mp ⟨i, hv⟩)
      rcases hact with hact | hact
      · exact absurd (hact.symm.trans hr) Bool.true_eq_false.mp
      · exact absurd (hact.symm.trans hw) Bool.true_eq_false.mp
  rw [EventLoop.epollAddConnection, hfd, epollCtl_add hnone]
  exact ⟨_, rfl, h.register ho hfd hfd rfl rfl ⟨rfl, rfl, rfl, rfl, .inl rfl⟩, rfl⟩

theorem delConnection (h : LoopOk n σ s g) (ho : g.owner slot = .socket)
    (ha : (s.conn slot).read.active = true ∨ (s.conn slot).write.active = true) :
    ∃ s', s.epollDelConnection slot = some s' ∧ LoopOk n σ s' g ∧ s'.phase = s.phase := by
  obtain ⟨fd, hfd, hm, hsame⟩ := h.socket ho
  obtain ⟨i, hi⟩ := hm.exists_iff.mpr ((Dir.exists_iff .read).mpr ha)
  rw [EventLoop.epollDelConnection, hfd, epollCtl_del hi]
  exact ⟨_, rfl, h.register ho hfd hfd rfl rfl ⟨rfl, rfl⟩, rfl⟩

/-- The first free slot is taken. -/
theorem take {o : Owner} {c : Connection} {free : List Nat} (h : LoopOk n σ s g)
    (hf : s.free = slot :: free) (hσ : 2 * n < σ) (hspared : Spared s g) (ho : o ≠ .free)
    (hfd : c.fd ≠ none) (hri : c.read.inst = !(s.conn slot).read.inst)
    (hwi : c.write.inst = c.read.inst) (hwa : c.write.active = false)
    (hnew : o = .socket → c.read.active = false ∧ ∃ fd, c.fd = some fd ∧
      ∀ a, g.owner a = .socket → (s.conn a).fd ≠ some fd) :
    LoopOk n σ { s with
      free := free
      conn := Function.update s.conn slot c
      timers := (s.timers.zero (Dir.read.event slot)).zero (Dir.write.event slot)
      posted := (s.posted.forget (Dir.read.event slot)).forget (Dir.write.event slot) }
      (g.take slot o) := by
  have hslots := h.slots
  rw [hf] at hslots
  obtain ⟨hlt, hfree⟩ := (hslots.free_iff slot).mp List.mem_cons_self
  refine ⟨hslots.take ho hfd hri hwi, h.epoll.take ?_ hwa hnew, h.timers.take hfree fun d => ?_,
    h.posted.take hfree, h.batch.take ?_ fun a ha => Function.update_of_ne ha _ _⟩
  · rw [hfree]
    decide
  · exact (lt_of_le_of_lt (Dir.event_le hlt d) hσ).ne
  · intro m hm hs
    refine hspared m hm ?_
    rw [hf, hs]
    rfl

/-- A slot is given back, after its events have been taken out of the structures. -/
theorem release {c : Connection} {epoll : Nat → Option Interest} {t : Timers w}
    {m : PostedEvents} (h : LoopOk n σ s g) (ho : g.owner slot ≠ .free)
    (hri : c.read.inst = (s.conn slot).read.inst)
    (hepoll : EpollOk (Function.update s.conn slot c) epoll (Function.update g.owner slot .free))
    (hfd : g.owner slot = .timer ∨ c.fd = none) (ht : TimersHeld σ t (g.release slot))
    (hm : PostedHeld m (g.release slot)) :
    LoopOk n σ { s with
      free := slot :: s.free
      conn := Function.update s.conn slot c
      epoll := epoll
      timers := t
      posted := m } (g.release slot) := by
  refine ⟨h.slots.release ho hri, hepoll, ht, hm, h.batch.congr rfl rfl rfl fun a ha => ?_⟩
  rw [LoopNotes.release_owner]
  by_cases hs : a = slot
  · rw [hs] at ha ⊢
    refine .inr ?_
    dsimp only
    rw [Function.update_self]
    refine hfd.resolve_left fun htimer => ?_
    rw [htimer] at ha
    exact (h.slots.slot slot).fd ho (ha.resolve_left (by decide))
  · dsimp only
    rwa [Function.update_of_ne hs, Function.update_of_ne hs]

/-- A socket is closed. -/
theorem close {c : Connection} {t : Timers w} {m : PostedEvents} (h : LoopOk n σ s g)
    (ho : g.owner slot = .socket) (hfd : (s.conn slot).fd = some fd)
    (hri : c.read.inst = (s.conn slot).read.inst) (hwa : c.write.active = false)
    (hc : c.fd = none) (ht : TimersHeld σ t (g.release slot))
    (hm : PostedHeld m (g.release slot)) :
    LoopOk n σ { s with
      free := slot :: s.free
      conn := Function.update s.conn slot c
      epoll := Function.update s.epoll fd none
      timers := t
      posted := m } (g.release slot) := by
  refine h.release ?_ hri (h.epoll.close ho hfd hwa) (.inr hc) ht hm
  rw [ho]
  decide

theorem closeConnection (h : LoopOk n σ s g) (ho : g.owner slot = .socket)
    (hfd : (s.conn slot).fd = some fd) (hfuel : 2 * Nat.log 2 (2 * n + 2) < fuel) :
    ∃ s', s.closeConnection fuel slot = some s' ∧ LoopOk n σ s' (g.release slot) ∧
      s'.phase = s.phase := by
  have hf := h.fuel_lt hfuel
  obtain ⟨t₁, he₁, ht₁⟩ := h.timers.disarm (Dir.read.event slot) hf
  obtain ⟨t₂, he₂, ht₂⟩ := TimersHeld.disarm (s := { s with timers := t₁ }) ht₁
    (Dir.write.event slot) (fuel_of_le List.erase_sublist.length_le hf)
  let s₂ : EventLoop w := { s with timers := t₂ }.deactivate slot
  obtain ⟨m₁, he₃, hm₁⟩ := PostedHeld.cancel (s := s₂) h.posted (Dir.read.event slot)
  obtain ⟨m₂, he₄, hm₂⟩ := PostedHeld.cancel (s := { s₂ with posted := m₁ }) hm₁
    (Dir.write.event slot)
  refine ⟨{ s₂ with posted := m₂ }.closeSocket slot fd, ?_, ?_, rfl⟩
  · rw [EventLoop.closeConnection, hfd]
    refine Option.bind_eq_some_iff.mpr ⟨_, he₁, ?_⟩
    refine Option.bind_eq_some_iff.mpr ⟨_, he₂, ?_⟩
    refine Option.bind_eq_some_iff.mpr ⟨_, he₃, ?_⟩
    exact Option.bind_eq_some_iff.mpr ⟨_, he₄, rfl⟩
  · have hconn : s₂.conn slot = ((s.conn slot).setActive .read false).setActive .write false :=
      Function.update_self ..
    have hidem : Function.update s₂.conn slot { s₂.conn slot with fd := none } =
        Function.update s.conn slot { s₂.conn slot with fd := none } := Function.update_idem ..
    have hclosed := h.close (c := { s₂.conn slot with fd := none }) ho hfd (by rw [hconn]; rfl)
      (by rw [hconn]; rfl) rfl (ht₂.release h.timers.ok.nodup) (hm₂.release h.posted.holds.nodup)
    rw [← hidem] at hclosed
    exact hclosed

/-- Events that are in no structure do not have to be taken out. -/
theorem timers_release (h : LoopOk n σ s g) (hr : Unused s (Dir.read.event slot))
    (hw : Unused s (Dir.write.event slot)) : TimersHeld σ s.timers (g.release slot) := by
  have hnot : ∀ d : Dir, s.timers.timerSet (d.event slot) = false →
      d.event slot ∉ g.deadlines.queue := by
    intro d hset
    rw [h.timers.tracks.set] at hset
    exact of_decide_eq_false hset
  refine TimersHeld.release ?_ h.timers.ok.nodup
  rw [LoopNotes.disarm_of_notMem (hnot .read hr.1), LoopNotes.disarm_of_notMem (hnot .write hw.1)]
  exact h.timers

theorem posted_release (h : LoopOk n σ s g) (hr : s.posted.prev (Dir.read.event slot) = none)
    (hw : s.posted.prev (Dir.write.event slot) = none) :
    PostedHeld s.posted (g.release slot) := by
  refine PostedHeld.release ?_ h.posted.holds.nodup
  rw [LoopNotes.cancel_of_notMem (h.posted.holds.prev_eq_none.mp hr),
    LoopNotes.cancel_of_notMem (h.posted.holds.prev_eq_none.mp hw)]
  exact h.posted

theorem closeAccepted (h : LoopOk n σ s g) (ho : g.owner slot = .socket)
    (hwa : (s.conn slot).write.active = false) (hr : Unused s (Dir.read.event slot))
    (hw : Unused s (Dir.write.event slot)) :
    ∃ s', s.closeAccepted slot = some s' ∧ LoopOk n σ s' (g.release slot) ∧
      s'.phase = s.phase := by
  obtain ⟨fd, hfd, -, -⟩ := h.socket ho
  refine ⟨s.closeSocket slot fd, by rw [EventLoop.closeAccepted, hfd]; rfl, ?_, rfl⟩
  exact h.close (c := { s.conn slot with fd := none }) ho hfd rfl hwa rfl (h.timers_release hr hw)
    (h.posted_release hr.2 hw.2)

/-- A timer of the program gives its slot back. -/
theorem freeTimer {t : Timers w} (h : LoopOk n σ s g) (ho : g.owner slot = .timer)
    (ht : TimersHeld σ t (g.release slot)) (hr : s.posted.prev (Dir.read.event slot) = none)
    (hw : s.posted.prev (Dir.write.event slot) = none) :
    LoopOk n σ ({ s with timers := t }.freeConnection slot) (g.release slot) := by
  have hne : g.owner slot ≠ .socket := by
    rw [ho]
    decide
  have hheld : g.owner slot ≠ .free := by
    rw [ho]
    decide
  have hwa : (s.conn slot).write.active = false := by
    rw [← Bool.not_eq_true]
    exact fun hact => hne (h.epoll.write slot hact)
  have hepoll := h.epoll.take (o := .free) hne hwa fun hc => by cases hc
  have hfree := h.release (c := s.conn slot) hheld rfl hepoll (.inl ho) ht (h.posted_release hr hw)
  rw [Function.update_eq_self] at hfree
  exact hfree

theorem clearTimer (h : LoopOk n σ s g) (ho : g.owner slot = .timer)
    (hset : s.timers.timerSet (Dir.read.event slot) = true)
    (hr : s.posted.prev (Dir.read.event slot) = none) (hw : Unused s (Dir.write.event slot))
    (hfuel : 2 * Nat.log 2 (2 * n + 2) < fuel) :
    ∃ s', s.clearTimer fuel slot = some s' ∧ LoopOk n σ s' (g.release slot) ∧
      s'.phase = s.phase := by
  obtain ⟨t, he, ht⟩ := h.timers.disarm (Dir.read.event slot) (h.fuel_lt hfuel)
  rw [EventLoop.cancelTimer, if_pos hset] at he
  obtain ⟨t', hdel, hs⟩ := Option.map_eq_some_iff.mp he
  obtain rfl : t' = t := congrArg EventLoop.timers hs
  have hnot : Dir.write.event slot ∉ (g.disarm (Dir.read.event slot)).deadlines.queue := by
    intro hc
    have hmem : Dir.write.event slot ∈ g.deadlines.queue := List.mem_of_mem_erase hc
    have hunset := hw.1
    rw [h.timers.tracks.set] at hunset
    exact of_decide_eq_false hunset hmem
  rw [← LoopNotes.disarm_of_notMem hnot] at ht
  refine ⟨{ s with timers := t' }.freeConnection slot, ?_, ?_, rfl⟩
  · rw [EventLoop.clearTimer, hdel]
    rfl
  · exact h.freeTimer ho (ht.release h.timers.ok.nodup) hr hw.2

theorem addTimer (h : LoopOk n σ s g) (hσ : 2 * n < σ)
    (hfuel : 2 * Nat.log 2 (2 * n + 2) < fuel) (ho : g.owner slot ≠ .free) (d : Dir)
    {timer : BitVec (w + 1)} (hrange : InRange g timer) :
    ∃ t, s.timers.addTimer fuel (d.event slot) timer = some t ∧
      LoopOk n σ { s with timers := t } (g.arm slot d timer.toNat) := by
  have hne : d.event slot ≠ σ :=
    (lt_of_le_of_lt (Dir.event_le (h.slots.held_lt slot ho) d) hσ).ne
  obtain ⟨t, he, ht⟩ := h.timers.arm ho hne hrange.1 hrange.2 (h.fuel_lt hfuel)
  exact ⟨t, he, h.withTimers ht⟩

theorem getConnection (h : LoopOk n σ s g) (hσ : 2 * n < σ) {fd : Nat} {accept : Bool}
    (hspared : Spared s g)
    (hfresh : ∀ slot < n, g.owner slot = .socket → (s.conn slot).fd ≠ some fd) :
    ∃ s', loopCall fuel s (.getConnection fd accept) = some s' ∧
      LoopOk n σ s' (callNote s g (.getConnection fd accept)) ∧ s'.phase = s.phase := by
  rw [loopCall, callNote, EventLoop.getConnection]
  cases hf : s.free with
  | nil => exact ⟨s, rfl, h, rfl⟩
  | cons slot free =>
    refine ⟨_, rfl, ?_, rfl⟩
    have htake := h.take (o := .socket) (c := ⟨some fd,
      ⟨false, false, accept, !(s.conn slot).read.inst⟩,
      ⟨false, false, false, !(s.conn slot).read.inst⟩⟩) hf hσ hspared (by decide)
      (Option.some_ne_none fd) rfl rfl rfl ?_
    · rw [EventLoop.setConn]
      dsimp only
      rw [Function.update_idem, Function.update_self]
      exact htake
    · refine fun _ => ⟨rfl, fd, rfl, fun a ha => hfresh a (h.slots.held_lt a ?_) ha⟩
      rw [ha]
      decide

theorem setTimer (h : LoopOk n σ s g) (hσ : 2 * n < σ)
    (hfuel : 2 * Nat.log 2 (2 * n + 2) < fuel) {msec : BitVec (w + 1)}
    (hspared : Spared s g) (hrange : InRange g msec) :
    ∃ s', s.setTimer fuel msec = some s' ∧ LoopOk n σ s' (callNote s g (.setTimer msec)) ∧
      s'.phase = s.phase := by
  rw [EventLoop.setTimer, callNote, EventLoop.getConnection]
  cases hf : s.free with
  | nil => exact ⟨s, rfl, h, rfl⟩
  | cons slot free =>
    have htake := h.take (o := .timer) (c := ⟨some 0,
      ⟨true, false, false, !(s.conn slot).read.inst⟩,
      ⟨false, false, false, !(s.conn slot).read.inst⟩⟩) hf hσ hspared (by decide)
      (Option.some_ne_none 0) rfl rfl rfl fun hc => by cases hc
    have hheld : (g.take slot .timer).owner slot ≠ .free := by
      rw [LoopNotes.take_owner, Function.update_self]
      decide
    obtain ⟨t, he, hok⟩ := htake.addTimer hσ hfuel hheld .read hrange
    refine ⟨_, ?_, hok, rfl⟩
    dsimp only at he ⊢
    rw [EventLoop.setConn]
    dsimp only
    rw [Function.update_idem, Function.update_self, he]
    rfl

/-- **Calls.** A call with care has a result and keeps the invariant. -/
theorem call {c : LoopCall w} (h : LoopOk n σ s g) (hσ : 2 * n < σ)
    (hfuel : 2 * Nat.log 2 (2 * n + 2) < fuel) (hc : CallCare n s g c) :
    ∃ s', loopCall fuel s c = some s' ∧ LoopOk n σ s' (callNote s g c) ∧ s'.phase = s.phase := by
  cases c with
  | getConnection fd accept => exact h.getConnection hσ hc.1 hc.2
  | closeConnection slot =>
    rw [loopCall, callNote]
    cases hfd : (s.conn slot).fd with
    | none =>
      refine ⟨s, by rw [EventLoop.closeConnection, hfd], ?_, rfl⟩
      rw [if_pos rfl]
      exact h
    | some fd =>
      have ho : g.owner slot = .socket := hc.resolve_right (by simp [hfd])
      rw [if_neg (Option.some_ne_none fd)]
      exact h.closeConnection ho hfd hfuel
  | closeAccepted slot => exact h.closeAccepted hc.1 hc.2.1 hc.2.2.1 hc.2.2.2
  | addEvent slot d edge => exact h.addEvent hc.1 hc.2 edge
  | delEvent slot d edge => exact h.delEvent hc.1 hc.2 edge
  | addConnection slot => exact h.addConnection hc.1 hc.2.1 hc.2.2
  | delConnection slot => exact h.delConnection hc.1 hc.2
  | handleEvent slot d =>
    rw [loopCall, EventLoop.handleEvent, callNote]
    by_cases ha : ((s.conn slot).event d).active = false ∧ ((s.conn slot).event d).ready = false
    · rw [if_pos ha]
      exact h.addEvent hc ha.1 true
    · rw [if_neg ha]
      exact ⟨s, rfl, h, rfl⟩
  | setReady slot d b => exact ⟨_, rfl, h.setReady slot d b, rfl⟩
  | addTimer slot d timer =>
    obtain ⟨t, he, hok⟩ := h.addTimer hσ hfuel hc.1 d hc.2
    exact ⟨_, by rw [loopCall, he]; rfl, hok, rfl⟩
  | delTimer slot d =>
    obtain ⟨t, he, ht⟩ := h.timers.disarm (d.event slot) (h.fuel_lt hfuel)
    exact ⟨_, he, h.withTimers ht, rfl⟩
  | setTimer msec => exact h.setTimer hσ hfuel hc.1 hc.2
  | clearTimer slot => exact h.clearTimer hc.1 hc.2.1 hc.2.2.1 hc.2.2.2 hfuel
  | freeTimer slot =>
    exact ⟨_, rfl, h.freeTimer hc.1 (h.timers_release hc.2.1 hc.2.2) hc.2.1.2 hc.2.2.2, rfl⟩

end LoopOk

end NginxEngine.Core
