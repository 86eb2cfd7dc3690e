import NginxEngine.Core.EventLoop
import NginxEngine.XS.Create
import NginxEngine.XS.Process

/-!
# One array of connections, seen three times

`ngx_connection.c` keeps the connections of a process, and `ngx_event_timer.h` their timers. Three
models have them: the process with its handlers, the calls that create connections and timers, and
the event loop. Each keeps of a slot what it is about. What they have in common is the free list
and which slots have a descriptor, and each of them does to these what the functions do.

## Main definitions

- `SlotArray` — the free list and the descriptors, with the functions of `ngx_connection.c`
- `Shows` — an event of the handlers has the timer flags of an event in the timer tree

## Main results

- `XS.Creations.slots_ngxGetConnection`, `XS.Process.slots_setTimer`,
  `Core.EventLoop.slots_getConnection` and those after them — the models agree
- `Shows.delTimer`, `Shows.addTimer`, `Shows.expire` — so do the two models of a timer
-/

namespace NginxEngine

/-- `cycle->free_connections`, and the slots whose `c->fd` is not -1. -/
structure SlotArray where
  free : List Nat
  fd : Nat → Bool

namespace SlotArray

/-- `ngx_get_connection`; `fd` tells whether the caller gives a descriptor. -/
def get (a : SlotArray) (fd : Bool) : Option (Nat × SlotArray) :=
  match a.free with
  | [] => none
  | slot :: free => some (slot, ⟨free, Function.update a.fd slot fd⟩)

/-- `ngx_free_connection`. -/
def give (a : SlotArray) (slot : Nat) : SlotArray := { a with free := slot :: a.free }

/-- `ngx_close_connection`. -/
def close (a : SlotArray) (slot : Nat) : SlotArray :=
  if a.fd slot then { a.give slot with fd := Function.update a.fd slot false } else a

end SlotArray

/-! ### Slots in a pool of cells -/

namespace Pool

variable {α : Type} {p : Pool α} {d : α → Bool} {f : α → α} {v : α} {i : Nat}

def slots (d : α → Bool) (p : Pool α) : SlotArray := ⟨p.free, fun i => (p.lookup i).any (d ·.val)⟩

theorem slots_get (hrange : ∀ i ∈ p.free, i < p.cells.length) :
    (p.get v).map (Prod.map id (slots d)) = (p.slots d).get (d v) := by
  rw [get, SlotArray.get]
  cases hf : p.free with
  | nil => simp [slots, hf]
  | cons i rest =>
    have hlt : i < p.cells.length := hrange i (by simp [hf])
    simp only [slots, hf, Option.map_some, Prod.map, id, Option.some.injEq, Prod.mk.injEq,
      SlotArray.mk.injEq, true_and]
    funext j
    by_cases hj : j = i
    · simp [hj, lookup, hlt]
    · simp [hj, lookup, Ne.symm hj]

/-- A change of one cell. -/
theorem slots_modify {b : Bool} (hf : ∀ x, p.lookup i = some x → d (f x.val) = b)
    (hi : (p.lookup i).isSome = true) :
    (p.modify i f).slots d = { p.slots d with fd := Function.update (p.slots d).fd i b } := by
  obtain ⟨x, hx⟩ := Option.isSome_iff_exists.mp hi
  rw [slots, slots]
  congr 1
  funext j
  by_cases hj : j = i
  · rw [hj, lookup_modify_self, hx, Function.update_self]
    exact hf x hx
  · rw [lookup_modify_ne (Ne.symm hj), Function.update_of_ne hj]

/-- A change that leaves the descriptor. -/
theorem slots_modify_same (hf : ∀ x, p.lookup i = some x → d (f x.val) = d x.val) :
    (p.modify i f).slots d = p.slots d := by
  cases hx : p.lookup i with
  | none =>
    have hcells : p.modify i f = p := by
      rw [modify, List.modify_eq_self (List.getElem?_eq_none_iff.mp hx)]
    rw [hcells]
  | some x =>
    rw [slots_modify (b := d x.val) (fun y hy => ?_) (by rw [hx]; rfl)]
    · have hself : (p.slots d).fd i = d x.val := by simp [slots, hx]
      rw [← hself, Function.update_eq_self]
    · obtain rfl : x = y := Option.some.inj (hx.symm.trans hy)
      exact hf x hx

end Pool

namespace XS

/-! ### The calls that create -/

namespace Creations

variable {w : Creations} {call : Option Nat} {slot : Nat}

def slots (w : Creations) : SlotArray := w.pool.slots SlotUse.fd

theorem slots_ngxGetConnection {call : Nat} {fd : Bool}
    (hrange : ∀ i ∈ w.pool.free, i < w.pool.cells.length) :
    (w.ngxGetConnection call fd).map (Prod.map id slots) = w.slots.get fd := by
  rw [slots, ← Pool.slots_get (v := ⟨.call call, fd, false⟩) hrange, ngxGetConnection]
  cases w.pool.get _ <;> rfl

theorem slots_ngxFreeConnection : (w.ngxFreeConnection call slot).slots = w.slots.give slot := by
  have hkept := Pool.slots_modify_same (p := w.pool) (i := slot) (d := SlotUse.fd)
    (f := fun u => { u with user := .nobody }) fun _ _ => rfl
  exact congrArg (SlotArray.give · slot) hkept

theorem slots_ngxCloseConnection : (w.ngxCloseConnection call slot).slots = w.slots.close slot := by
  rw [ngxCloseConnection, SlotArray.close]
  cases hx : w.pool.lookup slot with
  | none => simp [slots, Pool.slots, hx]
  | some x =>
    have hfd : w.slots.fd slot = x.val.fd := by simp [slots, Pool.slots, hx]
    rw [hfd]
    dsimp only
    split
    · refine (Pool.slots_modify (b := false) (fun _ _ => rfl) ?_).trans ?_
      · simp [ngxFreeConnection, observe, Pool.lookup_modify_self, hx]
      · exact congrArg (fun a : SlotArray => { a with fd := Function.update a.fd slot false })
          (slots_ngxFreeConnection (w := w.observe _))
    · rfl

end Creations

/-! ### The process with its handlers -/

namespace Process

variable {w : Process} {slot gen : Nat}

def slots (w : Process) : SlotArray := w.pool.slots Occupant.fd

theorem slots_takeBare {b : Bare} (hrange : ∀ i ∈ w.pool.free, i < w.pool.cells.length) :
    (w.takeBare b).slots = ((w.slots.get b.fd).map Prod.snd).getD w.slots := by
  have hget := Pool.slots_get (d := Occupant.fd) (v := .bare b) hrange
  rw [slots, slots, show b.fd = (Occupant.bare b).fd from rfl, ← hget, takeBare]
  cases w.pool.get _ <;> rfl

theorem slots_setTimer {kind : TimerKind} (hrange : ∀ i ∈ w.pool.free, i < w.pool.cells.length) :
    (w.setTimer kind).slots = ((w.slots.get true).map Prod.snd).getD w.slots := by
  have hget := Pool.slots_get (d := Occupant.fd) (v := .timer ⟨kind, true, false⟩) hrange
  rw [slots, slots, show true = (Occupant.timer ⟨kind, true, false⟩).fd from rfl, ← hget, setTimer]
  cases w.pool.get _ <;> rfl

theorem slots_ngxCloseConnection : (w.ngxCloseConnection slot).slots = w.slots.close slot := by
  rw [ngxCloseConnection, SlotArray.close]
  by_cases hfd : (w.pool.lookup slot).any (·.val.fd) = true
  · have hi : (w.pool.lookup slot).isSome = true := by
      cases hx : w.pool.lookup slot with
      | none => rw [hx] at hfd; cases hfd
      | some x => rfl
    have hshut := Pool.slots_modify (d := Occupant.fd) (b := false)
      (f := fun _ => .bare ⟨false, false, false⟩) (fun _ _ => rfl) hi
    rw [if_pos hfd, if_pos (show w.slots.fd slot = true from hfd)]
    exact congrArg (SlotArray.give · slot) hshut
  · rw [if_neg hfd, if_neg (show ¬ w.slots.fd slot = true from hfd)]

/-- `ngxe_close` in the code of a connection. -/
theorem slots_finish {c : Conn} {o : Outcome} {rest : List PFrame}
    (hx : w.pool.lookup slot = some ⟨gen, .conn c⟩) (hc : c.destroyed = false)
    (ho : o.1.destroyed = true) : (w.finish slot gen c o rest).slots = w.slots.close slot := by
  have hfd : w.slots.fd slot = true := by simp [slots, Pool.slots, hx, Occupant.fd, hc]
  have hend := Pool.slots_modify (d := Occupant.fd) (b := false) (f := fun _ => .conn o.1)
    (fun _ _ => by simp [Occupant.fd, ho]) (by rw [hx]; rfl)
  rw [finish, SlotArray.close, if_pos hfd, hc, ho]
  exact congrArg (SlotArray.give · slot) hend

theorem slots_clearTimer {t : Timer} (hx : w.pool.lookup slot = some ⟨gen, .timer t⟩)
    (hset : t.timerSet = true) (hended : t.ended = false) :
    (w.clearTimer slot gen).slots = w.slots.give slot := by
  have hkept := Pool.slots_modify_same (p := w.pool) (i := slot) (d := Occupant.fd)
    (f := Occupant.clear) fun x _ => by cases x.val <;> rfl
  simp only [clearTimer, hx, hset, hended, and_self, if_true]
  exact congrArg (SlotArray.give · slot) hkept

theorem slots_timeoutReturn {rest : List PFrame} :
    (w.timeoutReturn slot gen rest).slots = w.slots.give slot := by
  have hkept := Pool.slots_modify_same (p := w.pool) (i := slot) (d := Occupant.fd)
    (f := fun v => if (w.pool.lookup slot).any (·.gen = gen) then v.finish else v) fun x _ => by
      split
      · cases x.val <;> rfl
      · rfl
  exact congrArg (SlotArray.give · slot) hkept

end Process

/-! ### Timers -/

section Timers

open NginxEngine.Core (Timers)

variable {H : Type} {w fuel : Nat} {t t' : Timers w} {e : Core.Ptr} {ev : Event H}

/-- The flags of an event in the timer tree. -/
structure Shows (t : Timers w) (e : Core.Ptr) (ev : Event H) : Prop where
  set : t.timerSet e = ev.timerSet
  timedout : t.timedout e = ev.timedout

namespace Shows

theorem delTimer (h : Shows t e ev)
    (ht : (if t.timerSet e then t.delTimer fuel e else some t) = some t') :
    Shows t' e ev.delTimer := by
  split at ht
  · obtain ⟨r, -, rfl⟩ := Option.map_eq_some_iff.mp ht
    exact ⟨Function.update_self .., h.timedout⟩
  · next hset =>
    cases ht
    exact ⟨Bool.eq_false_iff.mpr hset, h.timedout⟩

theorem addTimer {timeout : Int} {msec : BitVec (w + 1)} (h : Shows t e ev)
    (ht : (if t.timerSet e = false ∧ timeout ≠ 0 then t.addTimer fuel e msec else some t) =
      some t') : Shows t' e (ev.addTimer timeout) := by
  split at ht
  · next hadd =>
    rw [Timers.addTimer, hadd.1] at ht
    obtain ⟨r, -, rfl⟩ := Option.map_eq_some_iff.mp ht
    refine ⟨?_, h.timedout⟩
    simp [Event.addTimer, hadd.2]
  · next hadd =>
    cases ht
    refine ⟨h.set.trans ?_, h.timedout⟩
    rw [h.set] at hadd
    cases hs : ev.timerSet with
    | true => simp [Event.addTimer, hs]
    | false => simpa [Event.addTimer, hs] using hadd

theorem expire (ht : t.expireTurn fuel = some (some e, t')) :
    Shows t' e ev.expire := by
  rw [Timers.expireTurn] at ht
  split at ht
  · cases ht
  · obtain ⟨node, -, ht⟩ := Option.bind_eq_some_iff.mp ht
    split at ht
    · obtain ⟨t₁, ht₁, ht⟩ := Option.map_eq_some_iff.mp ht
      obtain ⟨r, -, rfl⟩ := Option.map_eq_some_iff.mp ht₁
      cases ht
      exact ⟨Function.update_self .., Function.update_self ..⟩
    · cases ht

end Shows

end Timers

end XS

/-! ### The event loop -/

namespace Core.EventLoop

variable {w fuel slot : Nat} {s s' : EventLoop w}

def slots (s : EventLoop w) : SlotArray := ⟨s.free, fun i => (s.conn i).fd.isSome⟩

theorem slots_getConnection {fd : Nat} :
    (s.getConnection fd).map (Prod.map id slots) = s.slots.get true := by
  rw [getConnection, SlotArray.get]
  cases hf : s.free with
  | nil => simp [slots, hf]
  | cons i rest =>
    simp only [slots, hf, Option.map_some, Prod.map, id, Option.some.injEq, Prod.mk.injEq,
      SlotArray.mk.injEq, true_and]
    funext j
    by_cases hj : j = i
    · simp [hj]
    · simp [hj]

theorem slots_freeConnection : (s.freeConnection slot).slots = s.slots.give slot := rfl

theorem slots_closeSocket {fd : Nat} : (s.closeSocket slot fd).slots =
    { s.slots.give slot with fd := Function.update s.slots.fd slot false } := by
  rw [slots, closeSocket]
  congr 1
  funext j
  by_cases hj : j = slot
  · simp [setConn, hj]
  · simp [setConn, hj, freeConnection, slots]

theorem slots_cancelTimer {ev : Ptr} (h : s.cancelTimer fuel ev = some s') :
    s'.slots = s.slots := by
  rw [cancelTimer] at h
  split at h
  · obtain ⟨t, -, rfl⟩ := Option.map_eq_some_iff.mp h
    rfl
  · cases h
    rfl

theorem slots_cancelPosted {ev : Ptr} (h : s.cancelPosted ev = some s') : s'.slots = s.slots := by
  rw [cancelPosted] at h
  split at h
  · cases h
    rfl
  · obtain ⟨m, -, rfl⟩ := Option.map_eq_some_iff.mp h
    rfl

theorem slots_deactivate : (s.deactivate slot).slots = s.slots := by
  rw [slots, slots, deactivate]
  congr 1
  funext j
  by_cases hj : j = slot
  · simp [setConn, hj, Connection.setActive_fd]
  · simp [setConn, hj]

theorem slots_closeConnection (h : s.closeConnection fuel slot = some s') :
    s'.slots = s.slots.close slot := by
  rw [closeConnection] at h
  rw [SlotArray.close]
  split at h
  · next hfd =>
    cases h
    exact (if_neg (by simp [slots, hfd])).symm
  · next fd hfd =>
    rw [if_pos (by simp [slots, hfd])]
    obtain ⟨s₁, h₁, h⟩ := Option.bind_eq_some_iff.mp h
    obtain ⟨s₂, h₂, h⟩ := Option.bind_eq_some_iff.mp h
    obtain ⟨s₃, h₃, h⟩ := Option.bind_eq_some_iff.mp h
    obtain ⟨s₄, h₄, h⟩ := Option.bind_eq_some_iff.mp h
    cases h
    have he : s₄.slots = s.slots := by
      rw [slots_cancelPosted h₄, slots_cancelPosted h₃, slots_deactivate, slots_cancelTimer h₂,
        slots_cancelTimer h₁]
    rw [slots_closeSocket, he]

theorem slots_clearTimer (h : s.clearTimer fuel slot = some s') : s'.slots = s.slots.give slot := by
  obtain ⟨t, -, rfl⟩ := Option.map_eq_some_iff.mp h
  rfl

end Core.EventLoop

end NginxEngine
