import NginxEngine.Core.EventLoop

/-!
# The invariant of the event loop

Notes go along with a run of the loop: who holds a slot and how often it has been taken, what
that was when `epoll_wait` returned, and by which holder of its slot a timer was set or an event
was posted. The invariant has a part for each structure of the loop, and the operations are
shown to keep each part.

## Main definitions

- `LoopNotes` — the notes, with the queue of deadlines and the posted events as lists
- `SlotsOk`, `EpollOk`, `TimersHeld`, `PostedHeld`, `BatchOk` — the parts of the invariant
- `LoopOk` — the invariant
-/

namespace NginxEngine.Core

/-- Who holds a slot: nobody, a connection with a socket, or a timer of the program. -/
inductive Owner
  | free
  | socket
  | timer
deriving DecidableEq, Repr

structure LoopNotes where
  owner : Nat → Owner
  /-- How often a slot has been taken. -/
  gen : Nat → Nat
  /-- The same, when `epoll_wait` returned. -/
  waitGen : Nat → Nat
  /-- The same for the slot of the notice in hand, when it was found not to be stale. -/
  passGen : Nat
  /-- The same for the slot of an event, when its timer was set. -/
  armGen : Ptr → Nat
  /-- The same for the slot of an event, when it was posted. -/
  postGen : Ptr → Nat
  deadlines : Deadlines Ptr
  queue : PostedQueue → List Ptr

namespace LoopNotes

def take (g : LoopNotes) (slot : Nat) (o : Owner) : LoopNotes :=
  { g with owner := Function.update g.owner slot o, gen := bump g.gen slot }

def arm (g : LoopNotes) (slot : Nat) (d : Dir) (delay : Nat) : LoopNotes :=
  { g with
    deadlines := g.deadlines.arm lazyDelay (d.event slot) delay
    armGen := Function.update g.armGen (d.event slot) (g.gen slot) }

def disarm (g : LoopNotes) (ev : Ptr) : LoopNotes :=
  { g with deadlines := g.deadlines.disarm ev }

def post (g : LoopNotes) (slot : Nat) (d : Dir) (q : PostedQueue) : LoopNotes :=
  if d.event slot ∈ g.queue .accept ∨ d.event slot ∈ g.queue .events then g
  else { g with
    queue := Function.update g.queue q (d.event slot :: g.queue q)
    postGen := Function.update g.postGen (d.event slot) (g.gen slot) }

def cancel (g : LoopNotes) (ev : Ptr) : LoopNotes :=
  { g with queue := fun q => (g.queue q).erase ev }

/-- The slot is given back, and its events do not wait any more. -/
def release (g : LoopNotes) (slot : Nat) : LoopNotes :=
  let g := (g.disarm (Dir.read.event slot)).disarm (Dir.write.event slot)
  let g := (g.cancel (Dir.read.event slot)).cancel (Dir.write.event slot)
  { g with owner := Function.update g.owner slot .free }

variable (g : LoopNotes) (slot : Nat) (o : Owner)

theorem disarm_of_notMem {g : LoopNotes} {ev : Ptr} (h : ev ∉ g.deadlines.queue) :
    g.disarm ev = g := by
  rw [disarm, Deadlines.disarm, List.erase_of_not_mem h]

theorem cancel_of_notMem {g : LoopNotes} {ev : Ptr} (h : ∀ q, ev ∉ g.queue q) :
    g.cancel ev = g := by
  rw [cancel, funext fun q => List.erase_of_not_mem (h q)]

theorem take_owner : (g.take slot o).owner = Function.update g.owner slot o := rfl

theorem take_gen : (g.take slot o).gen = bump g.gen slot := rfl

theorem release_owner : (g.release slot).owner = Function.update g.owner slot .free := rfl

end LoopNotes

variable {w n fuel slot fd : Nat} {σ ev : Ptr} {d : Dir} {o : Owner} {conn : Nat → Connection}
  {free : List Nat} {epoll : Nat → Option Interest} {timers : Timers w} {posted : PostedEvents}
  {phase : LoopPhase} {g : LoopNotes} {c : Connection}

theorem Dir.event_inj {d d' : Dir} {a b : Nat} : d.event a = d'.event b ↔ d = d' ∧ a = b := by
  cases d <;> cases d' <;> simp [Dir.event] <;> omega

theorem Dir.event_le (h : slot < n) (d : Dir) : d.event slot ≤ 2 * n := by
  cases d with
  | read =>
    rw [Dir.event]
    omega
  | write =>
    rw [Dir.event]
    omega

/-! ### Slots -/

/-- A slot that is held has a descriptor; the instance of its events is the parity of the number
    of takings. -/
structure SlotOk (c : Connection) (o : Owner) (gen : Nat) : Prop where
  fd : o ≠ .free → c.fd ≠ none
  inst : c.read.inst = decide (gen % 2 = 0)
  same : o ≠ .free → c.write.inst = c.read.inst

/-- The free list has the slots that nobody holds, each of them once. -/
structure SlotsOk (n : Nat) (conn : Nat → Connection) (free : List Nat) (g : LoopNotes) :
    Prop where
  nodup : free.Nodup
  free_iff : ∀ slot, slot ∈ free ↔ slot < n ∧ g.owner slot = .free
  held_lt : ∀ slot, g.owner slot ≠ .free → slot < n
  slot : ∀ slot, SlotOk (conn slot) (g.owner slot) (g.gen slot)

namespace SlotsOk

/-- Other flags change. -/
theorem update (h : SlotsOk n conn free g) (hfd : c.fd = (conn slot).fd)
    (hr : c.read.inst = (conn slot).read.inst) (hw : c.write.inst = (conn slot).write.inst) :
    SlotsOk n (Function.update conn slot c) free g := by
  refine ⟨h.nodup, h.free_iff, h.held_lt, fun a => ?_⟩
  by_cases he : a = slot
  · have hs := h.slot slot
    rw [he, Function.update_self]
    exact ⟨hfd ▸ hs.fd, hr.trans hs.inst, fun ho => hw.trans ((hs.same ho).trans hr.symm)⟩
  · rw [Function.update_of_ne he]
    exact h.slot a

/-- The first slot of the free list is taken. -/
theorem take (h : SlotsOk n conn (slot :: free) g) (ho : o ≠ .free) (hfd : c.fd ≠ none)
    (hr : c.read.inst = !(conn slot).read.inst) (hw : c.write.inst = c.read.inst) :
    SlotsOk n (Function.update conn slot c) free (g.take slot o) := by
  obtain ⟨hlt, -⟩ := (h.free_iff slot).mp List.mem_cons_self
  obtain ⟨hnot, hnodup⟩ := List.nodup_cons.mp h.nodup
  refine ⟨hnodup, fun a => ?_, fun a ha => ?_, fun a => ?_⟩
  · by_cases he : a = slot
    · rw [he, LoopNotes.take_owner, Function.update_self]
      exact ⟨fun hc => absurd hc hnot, fun hc => absurd hc.2 ho⟩
    · have hfree := h.free_iff a
      rw [List.mem_cons, or_iff_right he] at hfree
      rwa [LoopNotes.take_owner, Function.update_of_ne he]
  · by_cases he : a = slot
    · rw [he]
      exact hlt
    · rw [LoopNotes.take_owner, Function.update_of_ne he] at ha
      exact h.held_lt a ha
  · by_cases he : a = slot
    · rw [he, Function.update_self]
      refine ⟨fun _ => hfd, ?_, fun _ => hw⟩
      rw [hr, (h.slot slot).inst, LoopNotes.take_gen, bump, Function.update_self]
      by_cases hg : g.gen slot % 2 = 0
      · rw [decide_eq_true hg, decide_eq_false (by omega)]
        rfl
      · rw [decide_eq_false hg, decide_eq_true (by omega)]
        rfl
    · rw [LoopNotes.take_owner, LoopNotes.take_gen, bump, Function.update_of_ne he,
        Function.update_of_ne he, Function.update_of_ne he]
      exact h.slot a

/-- A slot that is held is given back. -/
theorem release (h : SlotsOk n conn free g) (ho : g.owner slot ≠ .free)
    (hr : c.read.inst = (conn slot).read.inst) :
    SlotsOk n (Function.update conn slot c) (slot :: free) (g.release slot) := by
  have hnot : slot ∉ free := fun hc => ho ((h.free_iff slot).mp hc).2
  refine ⟨List.nodup_cons.mpr ⟨hnot, h.nodup⟩, fun a => ?_, fun a ha => ?_, fun a => ?_⟩
  · by_cases he : a = slot
    · rw [he, LoopNotes.release_owner, Function.update_self]
      exact ⟨fun _ => ⟨h.held_lt slot ho, rfl⟩, fun _ => List.mem_cons_self⟩
    · rw [List.mem_cons, or_iff_right he, LoopNotes.release_owner, Function.update_of_ne he]
      exact h.free_iff a
  · by_cases he : a = slot
    · rw [he]
      exact h.held_lt slot ho
    · rw [LoopNotes.release_owner, Function.update_of_ne he] at ha
      exact h.held_lt a ha
  · by_cases he : a = slot
    · rw [he, Function.update_self, LoopNotes.release_owner, Function.update_self]
      exact ⟨fun hc => absurd rfl hc, hr.trans (h.slot slot).inst, fun hc => absurd rfl hc⟩
    · rw [LoopNotes.release_owner, Function.update_of_ne he, Function.update_of_ne he]
      exact h.slot a

end SlotsOk

/-! ### The interest list -/

/-- What the kernel knows of a descriptor is what the events of its connection say. -/
def Mirrors (slot : Nat) (c : Connection) : Option Interest → Prop
  | none => c.read.active = false ∧ c.write.active = false
  | some i => i.slot = slot ∧ i.inst = c.read.inst ∧ i.input = c.read.active ∧
      i.output = c.write.active ∧ (c.read.active = true ∨ c.write.active = true)

/-- A descriptor is registered if one of its events is active. -/
theorem Mirrors.exists_iff {v : Option Interest} (h : Mirrors slot c v) :
    (∃ i, v = some i) ↔ ∃ d, (c.event d).active = true := by
  cases v with
  | none =>
    refine ⟨fun hv => ?_, ?_⟩
    · obtain ⟨i, hi⟩ := hv
      cases hi
    · rintro ⟨d, hd⟩
      cases d with
      | read => exact absurd (hd.symm.trans h.1) Bool.true_eq_false.mp
      | write => exact absurd (hd.symm.trans h.2) Bool.true_eq_false.mp
  | some i =>
    refine ⟨fun _ => ?_, fun _ => ⟨i, rfl⟩⟩
    obtain ⟨-, -, -, -, ha | ha⟩ := h
    · exact ⟨.read, ha⟩
    · exact ⟨.write, ha⟩

/-- The interest list has the sockets with an active event, and nothing else. -/
structure EpollOk (conn : Nat → Connection) (epoll : Nat → Option Interest)
    (owner : Nat → Owner) : Prop where
  mirror : ∀ slot fd, owner slot = .socket → (conn slot).fd = some fd →
    Mirrors slot (conn slot) (epoll fd)
  only : ∀ fd i, epoll fd = some i → owner i.slot = .socket ∧ (conn i.slot).fd = some fd
  inj : ∀ a b fd, owner a = .socket → owner b = .socket → (conn a).fd = some fd →
    (conn b).fd = some fd → a = b
  write : ∀ slot, (conn slot).write.active = true → owner slot = .socket

namespace EpollOk

variable {owner : Nat → Owner}

/-- A slot and its registration change, and nothing of the other sockets. -/
theorem change {epoll' : Nat → Option Interest} (h : EpollOk conn epoll owner)
    (hmirror : ∀ fd, o = .socket → c.fd = some fd → Mirrors slot c (epoll' fd))
    (honly : ∀ fd i, epoll' fd = some i →
      i.slot = slot ∧ o = .socket ∧ c.fd = some fd ∨ i.slot ≠ slot ∧ epoll fd = some i)
    (hothers : ∀ a fd, a ≠ slot → owner a = .socket → (conn a).fd = some fd →
      epoll' fd = epoll fd ∧ ¬ (o = .socket ∧ c.fd = some fd))
    (hwrite : c.write.active = true → o = .socket) :
    EpollOk (Function.update conn slot c) epoll' (Function.update owner slot o) := by
  refine ⟨fun a f ho hf => ?_, fun f i hi => ?_, fun a b f hoa hob hfa hfb => ?_, fun a hact => ?_⟩
  · by_cases ha : a = slot
    · rw [ha, Function.update_self] at ho hf
      rw [ha, Function.update_self]
      exact hmirror f ho hf
    · rw [Function.update_of_ne ha] at ho hf
      rw [Function.update_of_ne ha, (hothers a f ha ho hf).1]
      exact h.mirror a f ho hf
  · rcases honly f i hi with ⟨hs, ho, hf⟩ | ⟨hs, hi⟩
    · rw [hs, Function.update_self, Function.update_self]
      exact ⟨ho, hf⟩
    · rw [Function.update_of_ne hs, Function.update_of_ne hs]
      exact h.only f i hi
  · by_cases ha : a = slot
    · by_cases hb : b = slot
      · rw [ha, hb]
      · rw [ha, Function.update_self] at hoa hfa
        rw [Function.update_of_ne hb] at hob hfb
        exact absurd ⟨hoa, hfa⟩ (hothers b f hb hob hfb).2
    · rw [Function.update_of_ne ha] at hoa hfa
      by_cases hb : b = slot
      · rw [hb, Function.update_self] at hob hfb
        exact absurd ⟨hob, hfb⟩ (hothers a f ha hoa hfa).2
      · rw [Function.update_of_ne hb] at hob hfb
        exact h.inj a b f hoa hob hfa hfb
  · by_cases ha : a = slot
    · rw [ha, Function.update_self] at hact ⊢
      exact hwrite hact
    · rw [Function.update_of_ne ha] at hact ⊢
      exact h.write a hact

/-- Only the descriptor of a socket is registered under its slot. -/
theorem fd_of_slot_eq (h : EpollOk conn epoll owner) (hfd : (conn slot).fd = some fd) {f : Nat}
    {i : Interest} (hi : epoll f = some i) (hs : i.slot = slot) : f = fd := by
  obtain ⟨-, hf⟩ := h.only f i hi
  rw [hs, hfd] at hf
  exact (Option.some.inj hf).symm

/-- The descriptors of other sockets are others. -/
theorem fd_ne (h : EpollOk conn epoll owner) (ho : owner slot = .socket)
    (hfd : (conn slot).fd = some fd) {a f : Nat} (ha : a ≠ slot) (hoa : owner a = .socket)
    (hfa : (conn a).fd = some f) : f ≠ fd := by
  rintro rfl
  exact ha (h.inj a slot f hoa ho hfa hfd)

/-- The registration of a socket changes together with its events. -/
theorem register {v : Option Interest} (h : EpollOk conn epoll owner)
    (ho : owner slot = .socket) (hfd : (conn slot).fd = some fd) (hc : c.fd = some fd)
    (hm : Mirrors slot c v) :
    EpollOk (Function.update conn slot c) (Function.update epoll fd v) owner := by
  have hown : owner = Function.update owner slot .socket := by
    rw [← ho, Function.update_eq_self]
  rw [hown]
  refine h.change (fun f _ hf => ?_) (fun f i hi => ?_) (fun a f ha hoa hfa => ?_) fun _ => rfl
  · obtain rfl : fd = f := Option.some.inj (hc.symm.trans hf)
    rw [Function.update_self]
    exact hm
  · by_cases hf : f = fd
    · rw [hf, Function.update_self] at hi
      rw [hi] at hm
      exact .inl ⟨hm.1, rfl, hf ▸ hc⟩
    · rw [Function.update_of_ne hf] at hi
      exact .inr ⟨fun hs => hf (h.fd_of_slot_eq hfd hi hs), hi⟩
  · have hf := h.fd_ne ho hfd ha hoa hfa
    refine ⟨Function.update_of_ne hf _ _, fun hboth => hf ?_⟩
    exact Option.some.inj (hboth.2.symm.trans hc)

/-- Other flags of a connection change. -/
theorem update (h : EpollOk conn epoll owner) (hfd : c.fd = (conn slot).fd)
    (hi : c.read.inst = (conn slot).read.inst) (hr : c.read.active = (conn slot).read.active)
    (hw : c.write.active = (conn slot).write.active) :
    EpollOk (Function.update conn slot c) epoll owner := by
  have hown : owner = Function.update owner slot (owner slot) := (Function.update_eq_self ..).symm
  rw [hown]
  refine h.change (fun f ho hf => ?_) (fun f i hv => ?_)
    (fun a f ha hoa hfa => ⟨rfl, fun hboth => ?_⟩) fun hact => h.write slot (hw ▸ hact)
  · have hm := h.mirror slot f ho (hfd ▸ hf)
    cases hv : epoll f with
    | none =>
      rw [hv] at hm
      rwa [Mirrors, hr, hw]
    | some i =>
      rw [hv] at hm
      rwa [Mirrors, hi, hr, hw]
  · obtain ⟨ho, hf⟩ := h.only f i hv
    by_cases hs : i.slot = slot
    · rw [hs] at ho hf
      exact .inl ⟨hs, ho, hfd ▸ hf⟩
    · exact .inr ⟨hs, hv⟩
  · exact ha (h.inj a slot f hoa hboth.1 hfa (hfd ▸ hboth.2))

/-- A slot without a socket changes hands. -/
theorem take (h : EpollOk conn epoll owner) (ho : owner slot ≠ .socket)
    (hw : c.write.active = false)
    (hnew : o = .socket → c.read.active = false ∧ ∃ fd, c.fd = some fd ∧
      ∀ a, owner a = .socket → (conn a).fd ≠ some fd) :
    EpollOk (Function.update conn slot c) epoll (Function.update owner slot o) := by
  -- the descriptor is not that of another socket
  have hfresh : ∀ f, o = .socket → c.fd = some f → ∀ a, owner a = .socket →
      (conn a).fd ≠ some f := by
    intro f hos hf
    obtain ⟨-, f', hf', hfresh⟩ := hnew hos
    obtain rfl : f' = f := Option.some.inj (hf'.symm.trans hf)
    exact hfresh
  refine h.change (fun f hos hf => ?_) (fun f i hi => .inr ⟨fun hs => ?_, hi⟩)
    (fun a f ha hoa hfa => ⟨rfl, fun hboth => hfresh f hboth.1 hboth.2 a hoa hfa⟩) fun hact => ?_
  · cases hv : epoll f with
    | none => exact ⟨(hnew hos).1, hw⟩
    | some i =>
      obtain ⟨hio, hif⟩ := h.only f i hv
      exact absurd hif (hfresh f hos hf i.slot hio)
  · rw [← hs] at ho
    exact ho (h.only f i hi).1
  · rw [hw] at hact
    exact absurd hact Bool.false_ne_true

/-- A socket is closed. -/
theorem close (h : EpollOk conn epoll owner) (ho : owner slot = .socket)
    (hfd : (conn slot).fd = some fd) (hw : c.write.active = false) :
    EpollOk (Function.update conn slot c) (Function.update epoll fd none)
      (Function.update owner slot .free) := by
  have hnot : Owner.free ≠ .socket := by decide
  refine h.change (fun f hos _ => absurd hos hnot) (fun f i hi => .inr ?_)
    (fun a f ha hoa hfa => ⟨?_, fun hboth => hnot hboth.1⟩) fun hact => ?_
  · have hf : f ≠ fd := by
      rintro rfl
      rw [Function.update_self] at hi
      cases hi
    rw [Function.update_of_ne hf] at hi
    exact ⟨fun hs => hf (h.fd_of_slot_eq hfd hi hs), hi⟩
  · exact Function.update_of_ne (h.fd_ne ho hfd ha hoa hfa) _ _
  · rw [hw] at hact
    exact absurd hact Bool.false_ne_true

end EpollOk

/-! ### Timers -/

/-- The event is one of a slot that is held, and `gen` tells by whom. -/
def HeldBy (g : LoopNotes) (gen : Ptr → Nat) (ev : Ptr) : Prop :=
  ∃ slot d, ev = Dir.event d slot ∧ g.owner slot ≠ .free ∧ gen ev = g.gen slot

/-- A slot that nobody holds is taken. -/
theorem HeldBy.take {gen : Ptr → Nat} (h : HeldBy g gen ev) (ho : g.owner slot = .free) :
    HeldBy (g.take slot o) gen ev := by
  obtain ⟨a, d, rfl, hoa, hgen⟩ := h
  have ha : a ≠ slot := by
    rintro rfl
    exact hoa ho
  refine ⟨a, d, rfl, ?_, ?_⟩
  · rwa [LoopNotes.take_owner, Function.update_of_ne ha]
  · rwa [LoopNotes.take_gen, bump, Function.update_of_ne ha]

/-- A slot is given back. -/
theorem HeldBy.release {gen : Ptr → Nat} (h : HeldBy g gen ev)
    (hne : ∀ d, ev ≠ Dir.event d slot) : HeldBy (g.release slot) gen ev := by
  obtain ⟨a, d, rfl, hoa, hgen⟩ := h
  have ha : a ≠ slot := by
    rintro rfl
    exact hne d rfl
  refine ⟨a, d, rfl, ?_, hgen⟩
  rwa [LoopNotes.release_owner, Function.update_of_ne ha]

/-- The tree holds the queue of deadlines, and every event that waits in it belongs to a slot
    that is held, by the one who set the timer. -/
structure TimersHeld (σ : Ptr) (t : Timers w) (g : LoopNotes) : Prop where
  tracks : Tracks t g.deadlines
  ok : g.deadlines.Ok lazyDelay
  sentinel_eq : t.rbtree.sentinel = σ
  held : ∀ e ∈ g.deadlines.queue, HeldBy g g.armGen e

namespace TimersHeld

/-- The events of a slot that nobody holds do not wait. -/
theorem notMem (h : TimersHeld σ timers g) (ho : g.owner slot = .free) (d : Dir) :
    d.event slot ∉ g.deadlines.queue := by
  intro he
  obtain ⟨a, d', hev, hoa, -⟩ := h.held _ he
  obtain ⟨-, rfl⟩ := Dir.event_inj.mp hev
  exact hoa ho

theorem take (h : TimersHeld σ timers g) (ho : g.owner slot = .free)
    (hσ : ∀ d, Dir.event d slot ≠ σ) :
    TimersHeld σ ((timers.zero (Dir.read.event slot)).zero (Dir.write.event slot))
      (g.take slot o) := by
  refine ⟨?_, h.ok, h.sentinel_eq, fun e he => (h.held e he).take ho⟩
  have hr := h.tracks.zero (h.notMem ho .read) (h.sentinel_eq.symm ▸ hσ .read)
  exact hr.zero (h.notMem ho .write) (h.sentinel_eq.symm ▸ hσ .write)

theorem arm {timer : BitVec (w + 1)} (h : TimersHeld σ timers g) (ho : g.owner slot ≠ .free)
    (hσ : d.event slot ≠ σ) (htimer : timer.toNat < 2 ^ w)
    (hspread : ∀ e ∈ g.deadlines.queue, g.deadlines.now + timer.toNat < g.deadlines.due e + 2 ^ w)
    (hfuel : 2 * Nat.log 2 (g.deadlines.queue.length + 1) < fuel) :
    ∃ t, timers.addTimer fuel (d.event slot) timer = some t ∧
      TimersHeld σ t (g.arm slot d timer.toNat) := by
  obtain ⟨t, ht, htracks, hs⟩ :=
    h.tracks.addTimer h.ok (h.sentinel_eq.symm ▸ hσ) htimer hspread hfuel
  refine ⟨t, ht, htracks, h.ok.arm (by decide) _ _, hs.trans h.sentinel_eq, fun e he => ?_⟩
  by_cases hev : e = d.event slot
  · exact ⟨slot, d, hev, ho, by rw [hev]; exact Function.update_self ..⟩
  · rcases Deadlines.mem_of_mem_arm he with hc | he
    · exact absurd hc hev
    · obtain ⟨a, d', hea, hoa, hgen⟩ := h.held e he
      exact ⟨a, d', hea, hoa, (Function.update_of_ne hev _ _).trans hgen⟩

/-- `if (ev->timer_set) ngx_del_timer(ev)`. -/
theorem disarm {s : EventLoop w} (h : TimersHeld σ s.timers g) (ev : Ptr)
    (hfuel : 2 * Nat.log 2 (g.deadlines.queue.length + 1) < fuel) :
    ∃ t, s.cancelTimer fuel ev = some { s with timers := t } ∧ TimersHeld σ t (g.disarm ev) := by
  rw [EventLoop.cancelTimer, h.tracks.set ev]
  by_cases he : ev ∈ g.deadlines.queue
  · obtain ⟨t, ht, htracks, hs⟩ := h.tracks.delTimer he hfuel
    refine ⟨t, ?_, htracks, h.ok.disarm ev, hs.trans h.sentinel_eq, fun e he => ?_⟩
    · rw [if_pos (decide_eq_true he), ht]
      rfl
    · exact h.held e (List.mem_of_mem_erase he)
  · refine ⟨s.timers, ?_, (LoopNotes.disarm_of_notMem he).symm ▸ h⟩
    rw [if_neg (by simpa using he)]

/-- A turn of the loop of `ngx_event_expire_timers`. -/
theorem expireTurn (h : TimersHeld σ timers g)
    (hfuel : 2 * Nat.log 2 (g.deadlines.queue.length + 1) < fuel) :
    ∃ r, timers.expireTurn fuel = some r ∧
      TimersHeld σ r.2 { g with deadlines := g.deadlines.pop } ∧
      ∀ ev ∈ r.1, ev ∈ g.deadlines.queue := by
  obtain ⟨r, hr, hturn, hs⟩ := h.tracks.expireTurn h.ok hfuel
  refine ⟨r, hr, ⟨?_, h.ok.pop, hs.trans h.sentinel_eq, fun e he => ?_⟩, ?_⟩
  · cases hturn with
    | fire _ _ ht _ _ => exact ht
    | stop _ hpop =>
      rw [hpop]
      exact h.tracks
  · exact h.held e (Deadlines.mem_of_mem_pop he)
  · cases hturn with
    | fire hq _ _ _ _ =>
      rintro ev ⟨⟩
      rw [hq]
      exact List.mem_cons_self
    | stop _ _ =>
      intro ev hev
      cases hev

/-- The slot is given back when its timers have been deleted. -/
theorem release (h : TimersHeld σ timers
      ((g.disarm (Dir.read.event slot)).disarm (Dir.write.event slot)))
    (hn : g.deadlines.queue.Nodup) : TimersHeld σ timers (g.release slot) := by
  refine ⟨h.tracks, h.ok, h.sentinel_eq, fun e he => ?_⟩
  have he : e ∈ (g.deadlines.queue.erase (Dir.read.event slot)).erase (Dir.write.event slot) := he
  have hg : HeldBy g g.armGen e := h.held e he
  refine hg.release fun d => ?_
  rintro rfl
  cases d with
  | read => exact hn.not_mem_erase (List.mem_of_mem_erase he)
  | write => exact (hn.erase _).not_mem_erase he

end TimersHeld

/-! ### Posted events -/

/-- The links hold the queues, and every event in them belongs to a slot that is held, by the
    one for whom it was posted. -/
structure PostedHeld (m : PostedEvents) (g : LoopNotes) : Prop where
  holds : m.Holds g.queue
  held : ∀ q, ∀ e ∈ g.queue q, HeldBy g g.postGen e

namespace PostedHeld

theorem notMem (h : PostedHeld posted g) (ho : g.owner slot = .free) (d : Dir)
    (q : PostedQueue) : d.event slot ∉ g.queue q := by
  intro he
  obtain ⟨a, d', hev, hoa, -⟩ := h.held q _ he
  obtain ⟨-, rfl⟩ := Dir.event_inj.mp hev
  exact hoa ho

theorem take (h : PostedHeld posted g) (ho : g.owner slot = .free) :
    PostedHeld ((posted.forget (Dir.read.event slot)).forget (Dir.write.event slot))
      (g.take slot o) := by
  refine ⟨?_, fun q e he => (h.held q e he).take ho⟩
  exact (h.holds.forget (h.notMem ho .read)).forget (h.notMem ho .write)

theorem post (h : PostedHeld posted g) (ho : g.owner slot ≠ .free) (d : Dir) (q : PostedQueue) :
    PostedHeld (postEvent posted (d.event slot) q) (g.post slot d q) := by
  have hwaits : (d.event slot ∈ g.queue .accept ∨ d.event slot ∈ g.queue .events) ↔
      ∃ q, d.event slot ∈ g.queue q := by
    refine ⟨fun hq => hq.elim (fun hq => ⟨_, hq⟩) fun hq => ⟨_, hq⟩, ?_⟩
    rintro ⟨q, hq⟩
    cases q with
    | accept => exact .inl hq
    | events => exact .inr hq
  rw [postEvent, LoopNotes.post]
  by_cases hw : ∃ q, d.event slot ∈ g.queue q
  · rw [if_pos (hwaits.mpr hw), if_neg fun hc => ?_]
    · exact h
    · obtain ⟨q, hq⟩ := hw
      exact h.holds.prev_eq_none.mp hc q hq
  · have hout : ∀ q, d.event slot ∉ g.queue q := fun q hq => hw ⟨q, hq⟩
    rw [if_neg fun hc => hw (hwaits.mp hc), if_pos (h.holds.prev_eq_none.mpr hout)]
    refine ⟨h.holds.push hout q, fun q' e he => ?_⟩
    by_cases hev : e = d.event slot
    · exact ⟨slot, d, hev, ho, by rw [hev]; exact Function.update_self ..⟩
    · have he : e ∈ g.queue q' := by
        by_cases hq : q' = q
        · rw [hq] at he ⊢
          dsimp only at he
          rw [Function.update_self] at he
          exact (List.mem_cons.mp he).resolve_left hev
        · dsimp only at he
          rwa [Function.update_of_ne hq] at he
      obtain ⟨a, d', hea, hoa, hgen⟩ := h.held q' e he
      exact ⟨a, d', hea, hoa, (Function.update_of_ne hev _ _).trans hgen⟩

/-- `if (ev->prev) ngx_delete_posted_event(ev)`. -/
theorem cancel {s : EventLoop w} (h : PostedHeld s.posted g) (ev : Ptr) :
    ∃ m, s.cancelPosted ev = some { s with posted := m } ∧ PostedHeld m (g.cancel ev) := by
  rw [EventLoop.cancelPosted]
  by_cases hw : ∃ q, ev ∈ g.queue q
  · obtain ⟨q, hq⟩ := hw
    obtain ⟨m, hm, hholds⟩ := h.holds.erase hq
    refine ⟨m, ?_, hholds, fun q' e he => h.held q' e (List.mem_of_mem_erase he)⟩
    rw [if_neg fun hc => h.holds.prev_eq_none.mp hc q hq, deletePostedEvent, hm]
    rfl
  · have hout : ∀ q, ev ∉ g.queue q := fun q hq => hw ⟨q, hq⟩
    refine ⟨s.posted, ?_, (LoopNotes.cancel_of_notMem hout).symm ▸ h⟩
    rw [if_pos (h.holds.prev_eq_none.mpr hout)]

/-- A turn of the loop of `ngx_event_process_posted`. -/
theorem turn (h : PostedHeld posted g) (q : PostedQueue) :
    ∃ m, processTurn posted q = some ((g.queue q).head?, m) ∧
      PostedHeld m { g with queue := Function.update g.queue q (g.queue q).tail } := by
  obtain ⟨m, hm, hholds⟩ := processTurn_spec h.holds q
  refine ⟨m, hm, hholds, fun q' e he => h.held q' e ?_⟩
  by_cases hq : q' = q
  · dsimp only at he
    rw [hq, Function.update_self] at he
    rw [hq]
    exact List.mem_of_mem_tail he
  · dsimp only at he
    rwa [Function.update_of_ne hq] at he

/-- The slot is given back when its events have been deleted. -/
theorem release (h : PostedHeld posted
      ((g.cancel (Dir.read.event slot)).cancel (Dir.write.event slot)))
    (hn : ∀ q, (g.queue q).Nodup) : PostedHeld posted (g.release slot) := by
  refine ⟨h.holds, fun q e he => ?_⟩
  have he : e ∈ ((g.queue q).erase (Dir.read.event slot)).erase (Dir.write.event slot) := he
  have hg : HeldBy g g.postGen e := h.held q e he
  refine hg.release fun d => ?_
  rintro rfl
  cases d with
  | read => exact (hn q).not_mem_erase (List.mem_of_mem_erase he)
  | write => exact ((hn q).erase _).not_mem_erase he

end PostedHeld

/-! ### Notices -/

/-- The notices that are still to be looked at. -/
def LoopPhase.batch : LoopPhase → List Notice
  | .scan _ batch | .onRead _ _ batch | .half _ _ batch | .onWrite _ _ batch => batch
  | .program | .drain _ _ | .onPosted _ _ _ | .expire _ | .onTimer _ _ => []

/-- The notice that is in hand between the two halves of a turn. -/
def LoopPhase.inHand : LoopPhase → Option Notice
  | .onRead _ n _ | .half _ n _ => some n
  | .scan _ _ | .onWrite _ _ _ | .program | .drain _ _ | .onPosted _ _ _ | .expire _
  | .onTimer _ _ => none

theorem EventLoop.afterDrain_empty (p : Pass) (q : PostedQueue) :
    (afterDrain p q).batch = [] ∧ (afterDrain p q).inHand = none := by
  cases q with
  | accept =>
    rw [afterDrain]
    split <;> exact ⟨rfl, rfl⟩
  | events => exact ⟨rfl, rfl⟩

/-- A notice has the instance that its slot had when `epoll_wait` returned, and since then the
    slot has been taken once at most. As long as it has not been taken, it has its socket, or
    has been closed. -/
structure BatchOk (phase : LoopPhase) (conn : Nat → Connection) (g : LoopNotes) : Prop where
  le : ∀ slot, g.waitGen slot ≤ g.gen slot
  once : ∀ n ∈ phase.batch, g.gen n.slot ≤ g.waitGen n.slot + 1
  inst : ∀ n ∈ phase.batch, n.inst = decide (g.waitGen n.slot % 2 = 0)
  still : ∀ n ∈ phase.batch, g.gen n.slot = g.waitGen n.slot →
    g.owner n.slot = .socket ∨ (conn n.slot).fd = none
  passed : ∀ n ∈ phase.inHand, g.passGen = g.waitGen n.slot

/-- The loop goes on. -/
theorem BatchOk.move {phase' : LoopPhase} (h : BatchOk phase conn g)
    (hbatch : ∀ m ∈ phase'.batch, m ∈ phase.batch)
    (hhand : ∀ m ∈ phase'.inHand, g.passGen = g.waitGen m.slot) : BatchOk phase' conn g :=
  ⟨h.le, fun m hm => h.once m (hbatch m hm), fun m hm => h.inst m (hbatch m hm),
    fun m hm => h.still m (hbatch m hm), hhand⟩

/-- No slot is taken. -/
theorem BatchOk.congr {conn' : Nat → Connection} {g' : LoopNotes} (h : BatchOk phase conn g)
    (hwait : g'.waitGen = g.waitGen) (hpass : g'.passGen = g.passGen) (hgen : g'.gen = g.gen)
    (hstill : ∀ a, g.owner a = .socket ∨ (conn a).fd = none →
      g'.owner a = .socket ∨ (conn' a).fd = none) : BatchOk phase conn' g' := by
  refine ⟨?_, ?_, ?_, fun n hn he => ?_, ?_⟩
  · rw [hwait, hgen]
    exact h.le
  · rw [hwait, hgen]
    exact h.once
  · rw [hwait]
    exact h.inst
  · rw [hwait, hgen] at he
    exact hstill n.slot (h.still n hn he)
  · rw [hwait, hpass]
    exact h.passed

/-- A slot is taken for the first time since `epoll_wait` returned, if a notice waits for it. -/
theorem BatchOk.take {conn' : Nat → Connection} (h : BatchOk phase conn g)
    (honce : ∀ n ∈ phase.batch, n.slot = slot → g.gen n.slot = g.waitGen n.slot)
    (hconn : ∀ a, a ≠ slot → conn' a = conn a) : BatchOk phase conn' (g.take slot o) := by
  have hgen : ∀ a, a ≠ slot → (g.take slot o).gen a = g.gen a := fun a ha =>
    Function.update_of_ne ha _ _
  have hslot : (g.take slot o).gen slot = g.gen slot + 1 := Function.update_self ..
  refine ⟨fun a => ?_, fun n hn => ?_, h.inst, fun n hn he => ?_, h.passed⟩
  · by_cases ha : a = slot
    · rw [ha, hslot]
      exact Nat.le_succ_of_le (h.le slot)
    · rw [hgen a ha]
      exact h.le a
  · by_cases ha : n.slot = slot
    · have hfirst := honce n hn ha
      rw [ha] at hfirst ⊢
      rw [hslot, hfirst]
      exact Nat.le_refl _
    · rw [hgen n.slot ha]
      exact h.once n hn
  · have ha : n.slot ≠ slot := by
      intro ha
      rw [ha, hslot] at he
      have hle : g.waitGen slot ≤ g.gen slot := h.le slot
      have he : g.gen slot + 1 = g.waitGen slot := he
      omega
    rw [hgen n.slot ha] at he
    rw [LoopNotes.take_owner, Function.update_of_ne ha, hconn n.slot ha]
    exact h.still n hn he

/-! ### The invariant -/

structure LoopOk (n : Nat) (σ : Ptr) (s : EventLoop w) (g : LoopNotes) : Prop where
  slots : SlotsOk n s.conn s.free g
  epoll : EpollOk s.conn s.epoll g.owner
  timers : TimersHeld σ s.timers g
  posted : PostedHeld s.posted g
  batch : BatchOk s.phase s.conn g

/-- A bound on the turns of the tree's loops is one for smaller trees. -/
theorem fuel_of_le {a b : Nat} (hle : a ≤ b) (hfuel : 2 * Nat.log 2 (b + 1) < fuel) :
    2 * Nat.log 2 (a + 1) < fuel :=
  lt_of_le_of_lt (Nat.mul_le_mul_left 2 (Nat.log_mono_right (Nat.succ_le_succ hle))) hfuel

/-- The bound on the turns of the tree's loops holds of the timers of all slots. -/
theorem LoopOk.fuel_lt {s : EventLoop w} (h : LoopOk n σ s g)
    (hfuel : 2 * Nat.log 2 (2 * n + 2) < fuel) :
    2 * Nat.log 2 (g.deadlines.queue.length + 1) < fuel := by
  have hsub : ∀ e ∈ g.deadlines.queue, e ∈ List.range (2 * n + 1) := by
    intro e he
    obtain ⟨slot, d, rfl, ho, -⟩ := h.timers.held e he
    exact List.mem_range.mpr (Nat.lt_succ_of_le (Dir.event_le (h.slots.held_lt slot ho) d))
  have hlen := (List.subperm_of_subset h.timers.ok.nodup hsub).length_le
  rw [List.length_range] at hlen
  exact fuel_of_le hlen hfuel

end NginxEngine.Core
