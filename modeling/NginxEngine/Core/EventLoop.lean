import NginxEngine.Core.EventPosted
import NginxEngine.Core.EventTimer

/-!
# The event loop

`ngx_process_events_and_timers` with `ngx_epoll_module.c`, over the array of connections of
`ngx_connection.c`. A connection is a slot of that array with its two events; a slot that is
given back is taken again by the next connection, or by a timer of the program, which is a
connection without a socket. The tree of timers and the queues of posted events run through the
memory of these events, and the kernel keeps pointers to the slots.

Handlers open and close connections while the loop is at work, so its turns are the steps of a
machine, and what the handlers do is an input.

## Main definitions

- `EventLoop` — the slots, the free list, the interest of the kernel, the timers, the queues
- `getConnection`, `closeConnection`, `closeAccepted` — the life of a slot
- `epollAddEvent`, `epollDelEvent`, `epollAddConnection`, `epollDelConnection`
- `readTurn`, `writeTurn` — the two halves of a turn of the loop of `ngx_epoll_process_events`
- `loopMachine` — all of it, with what handlers may do
-/

namespace NginxEngine.Core

/-- `c->read` and `c->write`. -/
inductive Dir
  | read
  | write
deriving DecidableEq, Repr

def Dir.other : Dir → Dir
  | .read => .write
  | .write => .read

theorem Dir.exists_iff {P : Dir → Prop} (d : Dir) : (∃ d, P d) ↔ P d ∨ P d.other := by
  constructor
  · rintro ⟨d', h⟩
    cases d <;> cases d' <;> simp [Dir.other, h]
  · rintro (h | h)
    · exact ⟨_, h⟩
    · exact ⟨_, h⟩

/-- The address of the event of a slot, in `cycle->read_events` or `cycle->write_events`. -/
def Dir.event : Dir → Nat → Nat
  | .read, slot => 2 * slot + 1
  | .write, slot => 2 * slot + 2

/-- The flags of an `ngx_event_t`; `inst` is `instance`. -/
structure EventFlags where
  active : Bool
  ready : Bool
  accept : Bool
  inst : Bool
deriving DecidableEq, Repr

/-- An `ngx_connection_t` with its events; `none` is the descriptor -1. -/
structure Connection where
  fd : Option Nat
  read : EventFlags
  write : EventFlags
deriving DecidableEq, Repr

namespace Connection

def event (c : Connection) : Dir → EventFlags
  | .read => c.read
  | .write => c.write

def setEvent (c : Connection) (d : Dir) (f : EventFlags) : Connection :=
  match d with
  | .read => { c with read := f }
  | .write => { c with write := f }

def setActive (c : Connection) (d : Dir) (b : Bool) : Connection :=
  c.setEvent d { c.event d with active := b }

def setReady (c : Connection) (d : Dir) (b : Bool) : Connection :=
  c.setEvent d { c.event d with ready := b }

variable (c : Connection) (d : Dir) (b : Bool)

theorem setActive_fd : (c.setActive d b).fd = c.fd := by
  cases d <;> rfl

theorem inst_setActive (d' : Dir) : ((c.setActive d b).event d').inst = (c.event d').inst := by
  cases d <;> cases d' <;> rfl

theorem active_setActive : ((c.setActive d b).event d).active = b := by
  cases d <;> rfl

theorem active_setActive_other :
    ((c.setActive d b).event d.other).active = (c.event d.other).active := by
  cases d <;> rfl

end Connection

/-! ### The kernel -/

/-- A `struct epoll_event` that is registered: `EPOLLIN`, `EPOLLOUT`, `EPOLLET`, and `data.ptr`,
    which is the address of a connection with the instance of its event in the lowest bit. -/
structure Interest where
  input : Bool
  output : Bool
  edge : Bool
  slot : Nat
  inst : Bool
deriving DecidableEq, Repr

inductive CtlOp
  | add
  | mod
  | del
deriving DecidableEq, Repr

/-- `epoll_ctl`: a descriptor is added if it is not there, and changed or deleted if it is. -/
def epollCtl (table : Nat → Option Interest) (op : CtlOp) (fd : Option Nat) (ee : Interest) :
    Option (Nat → Option Interest) :=
  fd.bind fun fd =>
    match op, table fd with
    | .add, none => some (Function.update table fd (some ee))
    | .mod, some _ => some (Function.update table fd (some ee))
    | .del, some _ => some (Function.update table fd none)
    | .add, some _ | .mod, none | .del, none => none

theorem epollCtl_add {table : Nat → Option Interest} {fd : Nat} (h : table fd = none)
    (ee : Interest) :
    epollCtl table .add (some fd) ee = some (Function.update table fd (some ee)) := by
  rw [epollCtl, Option.bind_some, h]

theorem epollCtl_mod {table : Nat → Option Interest} {fd : Nat} {i : Interest}
    (h : table fd = some i) (ee : Interest) :
    epollCtl table .mod (some fd) ee = some (Function.update table fd (some ee)) := by
  rw [epollCtl, Option.bind_some, h]

theorem epollCtl_del {table : Nat → Option Interest} {fd : Nat} {i : Interest}
    (h : table fd = some i) (ee : Interest) :
    epollCtl table .del (some fd) ee = some (Function.update table fd none) := by
  rw [epollCtl, Option.bind_some, h]

/-- `EPOLLIN`, `EPOLLOUT`, and whether there is `EPOLLERR` or `EPOLLHUP`. -/
structure Revents where
  input : Bool
  output : Bool
  error : Bool
deriving DecidableEq, Repr

/-- "If the error events were returned without EPOLLIN or EPOLLOUT, then add these flags to
    handle the events at least in one active handler." -/
def Revents.widen (r : Revents) : Revents :=
  if r.error ∧ r.input = false ∧ r.output = false then { r with input := true, output := true }
  else r

/-- An element of `event_list`. -/
structure Notice where
  slot : Nat
  inst : Bool
  revents : Revents
deriving DecidableEq, Repr

/-- `epoll_wait` reports descriptors that are registered, with the data of the registration. -/
def epollWait (table : Nat → Option Interest) (ready : List (Nat × Revents)) :
    Option (List Notice) :=
  ready.mapM fun x => (table x.1).map fun i => ⟨i.slot, i.inst, x.2⟩

theorem mem_epollWait {table : Nat → Option Interest} {ready : List (Nat × Revents)}
    {batch : List Notice} (h : epollWait table ready = some batch) :
    ∀ m ∈ batch, ∃ fd i, table fd = some i ∧ m.slot = i.slot ∧ m.inst = i.inst := by
  induction ready generalizing batch with
  | nil =>
    cases h
    intro m hm
    cases hm
  | cons x ready ih =>
    rw [epollWait, List.mapM_cons] at h
    obtain ⟨m₀, hm₀, h⟩ := Option.bind_eq_some_iff.mp h
    obtain ⟨rest, hrest, h⟩ := Option.bind_eq_some_iff.mp h
    cases h
    obtain ⟨i, hi, rfl⟩ := Option.map_eq_some_iff.mp hm₀
    intro m hm
    rcases List.mem_cons.mp hm with rfl | hm
    · exact ⟨x.1, i, hi, rfl, rfl⟩
    · exact ih hrest m hm

/-! ### The state -/

/-- One call of `ngx_process_events_and_timers`: whether `NGX_POST_EVENTS` is set, and whether
    `delta` is not zero. -/
structure Pass where
  post : Bool
  delta : Bool
deriving DecidableEq, Repr

/-- Where the loop is. In `program` and in the phases that begin with `on` other code runs. -/
inductive LoopPhase
  /-- Outside of `ngx_process_events_and_timers`. -/
  | program
  /-- Before a turn of the loop of `ngx_epoll_process_events`. -/
  | scan (p : Pass) (batch : List Notice)
  /-- In the read handler that a turn of it has called. -/
  | onRead (p : Pass) (n : Notice) (batch : List Notice)
  /-- Before the second half of the turn. -/
  | half (p : Pass) (n : Notice) (batch : List Notice)
  /-- In the write handler that it has called. -/
  | onWrite (p : Pass) (slot : Nat) (batch : List Notice)
  /-- Before a turn of the loop of `ngx_event_process_posted`. -/
  | drain (p : Pass) (q : PostedQueue)
  | onPosted (p : Pass) (q : PostedQueue) (ev : Ptr)
  /-- Before a turn of the loop of `ngx_event_expire_timers`. -/
  | expire (p : Pass)
  | onTimer (p : Pass) (ev : Ptr)
deriving DecidableEq, Repr

/-- Whether code runs that may call the functions of this module. -/
def LoopPhase.outside : LoopPhase → Bool
  | .program | .onRead _ _ _ | .onWrite _ _ _ | .onPosted _ _ _ | .onTimer _ _ => true
  | .scan _ _ | .half _ _ _ | .drain _ _ | .expire _ => false

/-- `cycle->connections` with `free_connections`, the interest list of the kernel, the timers
    and the queues of posted events. -/
structure EventLoop (w : Nat) where
  conn : Nat → Connection
  free : List Nat
  epoll : Nat → Option Interest
  timers : Timers w
  posted : PostedEvents
  phase : LoopPhase

variable {w : Nat}

namespace EventLoop

def setConn (s : EventLoop w) (slot : Nat) (c : Connection) : EventLoop w :=
  { s with conn := Function.update s.conn slot c }

/-! ### Slots -/

/-- `ngx_get_connection`, which returns `NULL` if there is no slot. -/
def getConnection (s : EventLoop w) (fd : Nat) : Option (Nat × EventLoop w) :=
  match s.free with
  | [] => none
  | slot :: free =>
    let inst := !(s.conn slot).read.inst
    some (slot, { s with
      free := free
      conn := Function.update s.conn slot
        ⟨some fd, ⟨false, false, false, inst⟩, ⟨false, false, false, inst⟩⟩
      timers := (s.timers.zero (Dir.read.event slot)).zero (Dir.write.event slot)
      posted := (s.posted.forget (Dir.read.event slot)).forget (Dir.write.event slot) })

/-- `ngx_free_connection`. -/
def freeConnection (s : EventLoop w) (slot : Nat) : EventLoop w :=
  { s with free := slot :: s.free }

/-- `ngx_free_connection(c)`, `c->fd = -1` and `ngx_close_socket(fd)`, with which the kernel
    forgets the descriptor. -/
def closeSocket (s : EventLoop w) (slot fd : Nat) : EventLoop w :=
  let s := s.freeConnection slot
  let s := s.setConn slot { s.conn slot with fd := none }
  { s with epoll := Function.update s.epoll fd none }

/-- `if (ev->timer_set) ngx_del_timer(ev)`. -/
def cancelTimer (fuel : Nat) (s : EventLoop w) (ev : Ptr) : Option (EventLoop w) :=
  if s.timers.timerSet ev then (s.timers.delTimer fuel ev).map fun t => { s with timers := t }
  else some s

/-- `if (ev->prev) ngx_delete_posted_event(ev)`. -/
def cancelPosted (s : EventLoop w) (ev : Ptr) : Option (EventLoop w) :=
  if s.posted.prev ev = none then some s
  else (deletePostedEvent s.posted ev).map fun m => { s with posted := m }

/-- `ngx_epoll_del_connection` with `NGX_CLOSE_EVENT`. -/
def deactivate (s : EventLoop w) (slot : Nat) : EventLoop w :=
  s.setConn slot (((s.conn slot).setActive .read false).setActive .write false)

/-- `ngx_close_connection`. -/
def closeConnection (fuel : Nat) (s : EventLoop w) (slot : Nat) : Option (EventLoop w) :=
  match (s.conn slot).fd with
  | none => some s
  | some fd => do
    let s ← s.cancelTimer fuel (Dir.read.event slot)
    let s ← s.cancelTimer fuel (Dir.write.event slot)
    let s := s.deactivate slot
    let s ← s.cancelPosted (Dir.read.event slot)
    let s ← s.cancelPosted (Dir.write.event slot)
    return s.closeSocket slot fd

/-- `ngx_close_accepted_connection`. -/
def closeAccepted (s : EventLoop w) (slot : Nat) : Option (EventLoop w) :=
  (s.conn slot).fd.map fun fd => s.closeSocket slot fd

/-- `ngxe_interval_set` and `ngxe_timeout_set`: a connection with the descriptor 0 whose read
    event counts as active, and a timer. -/
def setTimer (fuel : Nat) (s : EventLoop w) (msec : BitVec (w + 1)) : Option (EventLoop w) :=
  match s.getConnection 0 with
  | none => some s
  | some (slot, s) =>
    let s := s.setConn slot ((s.conn slot).setActive .read true)
    (s.timers.addTimer fuel (Dir.read.event slot) msec).map fun t => { s with timers := t }

/-- `ngxe_interval_clear` and `ngxe_timeout_clear`. -/
def clearTimer (fuel : Nat) (s : EventLoop w) (slot : Nat) : Option (EventLoop w) :=
  (s.timers.delTimer fuel (Dir.read.event slot)).map fun t =>
    { s with timers := t }.freeConnection slot

/-! ### Registration -/

/-- The events to register if the event `d` is to be watched or not, beside the other one. -/
def request (s : EventLoop w) (slot : Nat) (d : Dir) (on edge : Bool) : Interest :=
  let other := ((s.conn slot).event d.other).active
  match d with
  | .read => ⟨on, other, edge, slot, ((s.conn slot).event d).inst⟩
  | .write => ⟨other, on, edge, slot, ((s.conn slot).event d).inst⟩

/-- `ngx_epoll_add_event`; `edge` is `NGX_CLEAR_EVENT` among the flags. -/
def epollAddEvent (s : EventLoop w) (slot : Nat) (d : Dir) (edge : Bool) : Option (EventLoop w) :=
  let op := if ((s.conn slot).event d.other).active then CtlOp.mod else .add
  (epollCtl s.epoll op (s.conn slot).fd (s.request slot d true edge)).map fun table =>
    { s with epoll := table }.setConn slot ((s.conn slot).setActive d true)

/-- `ngx_epoll_del_event` without `NGX_CLOSE_EVENT`. -/
def epollDelEvent (s : EventLoop w) (slot : Nat) (d : Dir) (edge : Bool) : Option (EventLoop w) :=
  let op := if ((s.conn slot).event d.other).active then CtlOp.mod else .del
  (epollCtl s.epoll op (s.conn slot).fd (s.request slot d false edge)).map fun table =>
    { s with epoll := table }.setConn slot ((s.conn slot).setActive d false)

/-- `ngx_epoll_add_connection`. -/
def epollAddConnection (s : EventLoop w) (slot : Nat) : Option (EventLoop w) :=
  (epollCtl s.epoll .add (s.conn slot).fd
    ⟨true, true, true, slot, (s.conn slot).read.inst⟩).map fun table =>
      { s with epoll := table }.setConn slot
        (((s.conn slot).setActive .read true).setActive .write true)

/-- `ngx_epoll_del_connection` without `NGX_CLOSE_EVENT`. -/
def epollDelConnection (s : EventLoop w) (slot : Nat) : Option (EventLoop w) :=
  (epollCtl s.epoll .del (s.conn slot).fd ⟨false, false, false, slot, false⟩).map fun table =>
    { s with epoll := table }.deactivate slot

/-- `ngx_handle_read_event` and `ngx_handle_write_event`, for events that are told once. -/
def handleEvent (s : EventLoop w) (slot : Nat) (d : Dir) : Option (EventLoop w) :=
  if ((s.conn slot).event d).active = false ∧ ((s.conn slot).event d).ready = false then
    s.epollAddEvent slot d true
  else some s

/-! ### The loop -/

/-- The queue into which a reported event goes. -/
def queueFor (d : Dir) (f : EventFlags) : PostedQueue :=
  match d with
  | .read => if f.accept then .accept else .events
  | .write => .events

/-- An event is ready: it is posted, or its handler is called. -/
def raise (s : EventLoop w) (slot : Nat) (d : Dir) (post : Bool) (next handler : LoopPhase) :
    EventLoop w :=
  let c := s.conn slot
  let s := s.setConn slot (c.setReady d true)
  if post then { s with
    posted := postEvent s.posted (d.event slot) (queueFor d (c.event d))
    phase := next }
  else { s with phase := handler }

/-- "The stale event from a file descriptor that was just closed in this iteration." -/
def Stale (s : EventLoop w) (n : Notice) : Prop :=
  (s.conn n.slot).fd = none ∨ (s.conn n.slot).read.inst ≠ n.inst

instance (s : EventLoop w) (n : Notice) : Decidable (s.Stale n) :=
  inferInstanceAs (Decidable ((s.conn n.slot).fd = none ∨ (s.conn n.slot).read.inst ≠ n.inst))

/-- A turn of the loop of `ngx_epoll_process_events`, up to the end of the part for reading. -/
def readTurn (s : EventLoop w) (p : Pass) (n : Notice) (batch : List Notice) : EventLoop w :=
  if s.Stale n then { s with phase := .scan p batch }
  else
    let n := { n with revents := n.revents.widen }
    if n.revents.input ∧ (s.conn n.slot).read.active then
      s.raise n.slot .read p.post (.half p n batch) (.onRead p n batch)
    else { s with phase := .half p n batch }

/-- The rest of the turn. -/
def writeTurn (s : EventLoop w) (p : Pass) (n : Notice) (batch : List Notice) : EventLoop w :=
  if n.revents.output ∧ (s.conn n.slot).write.active then
    s.raise n.slot .write p.post (.scan p batch) (.onWrite p n.slot batch)
  else { s with phase := .scan p batch }

/-- What follows on the call of `ngx_event_process_posted`. -/
def afterDrain (p : Pass) : PostedQueue → LoopPhase
  | .accept => if p.delta then .expire p else .drain p .events
  | .events => .program

/-- The code that runs between handlers. -/
def next (fuel : Nat) (s : EventLoop w) : Option (EventLoop w) :=
  match s.phase with
  | .scan p [] => some { s with phase := .drain p .accept }
  | .scan p (n :: batch) => some (s.readTurn p n batch)
  | .half p n batch => some (s.writeTurn p n batch)
  | .drain p q => (processTurn s.posted q).map fun r => { s with
      posted := r.2
      phase := (r.1.map (LoopPhase.onPosted p q)).getD (afterDrain p q) }
  | .expire p => (s.timers.expireTurn fuel).map fun r => { s with
      timers := r.2
      phase := (r.1.map (LoopPhase.onTimer p)).getD (.drain p .events) }
  | .program | .onRead _ _ _ | .onWrite _ _ _ | .onPosted _ _ _ | .onTimer _ _ => none

/-- A handler returns. -/
def ret (s : EventLoop w) : Option (EventLoop w) :=
  match s.phase with
  | .onRead p n batch => some { s with phase := .half p n batch }
  | .onWrite p _ batch => some { s with phase := .scan p batch }
  | .onPosted p q _ => some { s with phase := .drain p q }
  | .onTimer p _ => some { s with phase := .expire p }
  | .program | .scan _ _ | .half _ _ _ | .drain _ _ | .expire _ => none

/-- `epoll_wait` returns after `elapsed` milliseconds, with events or without. -/
def wait (s : EventLoop w) (ready : List (Nat × Revents)) (post : Bool) (elapsed : Nat) :
    Option (EventLoop w) :=
  if s.phase = .program then
    (epollWait s.epoll ready).map fun batch => { s with
      timers := { s.timers with
        currentMsec := s.timers.currentMsec + BitVec.ofNat (w + 1) elapsed }
      phase := .scan ⟨post, BitVec.ofNat (w + 1) elapsed ≠ 0⟩ batch }
  else none

end EventLoop

/-- What the code outside of the loop and the handlers may do. -/
inductive LoopCall (w : Nat)
  /-- `ngx_get_connection`, after which `accept` may be set. -/
  | getConnection (fd : Nat) (accept : Bool)
  | closeConnection (slot : Nat)
  | closeAccepted (slot : Nat)
  | addEvent (slot : Nat) (d : Dir) (edge : Bool)
  | delEvent (slot : Nat) (d : Dir) (edge : Bool)
  | addConnection (slot : Nat)
  | delConnection (slot : Nat)
  | handleEvent (slot : Nat) (d : Dir)
  /-- `recv` and `send` set and clear `ready`. -/
  | setReady (slot : Nat) (d : Dir) (b : Bool)
  | addTimer (slot : Nat) (d : Dir) (timer : BitVec (w + 1))
  | delTimer (slot : Nat) (d : Dir)
  | setTimer (msec : BitVec (w + 1))
  | clearTimer (slot : Nat)
  /-- The end of `ngxe_timeout_callback`. -/
  | freeTimer (slot : Nat)

inductive LoopInput (w : Nat)
  | call (c : LoopCall w)
  | wait (ready : List (Nat × Revents)) (post : Bool) (elapsed : Nat)
  | next
  | ret

def loopCall (fuel : Nat) (s : EventLoop w) : LoopCall w → Option (EventLoop w)
  | .getConnection fd accept => match s.getConnection fd with
    | none => some s
    | some (slot, s) =>
      let c := s.conn slot
      some (s.setConn slot { c with read := { c.read with accept := accept } })
  | .closeConnection slot => s.closeConnection fuel slot
  | .closeAccepted slot => s.closeAccepted slot
  | .addEvent slot d edge => s.epollAddEvent slot d edge
  | .delEvent slot d edge => s.epollDelEvent slot d edge
  | .addConnection slot => s.epollAddConnection slot
  | .delConnection slot => s.epollDelConnection slot
  | .handleEvent slot d => s.handleEvent slot d
  | .setReady slot d b => some (s.setConn slot ((s.conn slot).setReady d b))
  | .addTimer slot d timer =>
    (s.timers.addTimer fuel (d.event slot) timer).map fun t => { s with timers := t }
  | .delTimer slot d => s.cancelTimer fuel (d.event slot)
  | .setTimer msec => s.setTimer fuel msec
  | .clearTimer slot => s.clearTimer fuel slot
  | .freeTimer slot => some (s.freeConnection slot)

def loopStep (fuel : Nat) (s : EventLoop w) : LoopInput w → Option (EventLoop w)
  | .call c => if s.phase.outside then loopCall fuel s c else none
  | .wait ready post elapsed => s.wait ready post elapsed
  | .next => s.next fuel
  | .ret => s.ret

def loopMachine (w fuel : Nat) : Machine (EventLoop w) (LoopInput w) := ⟨loopStep fuel⟩

end NginxEngine.Core
