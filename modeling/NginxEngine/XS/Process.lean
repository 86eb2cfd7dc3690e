import NginxEngine.Pool
import NginxEngine.XS.Segments

/-!
# The connections and timers of one process

Connections and timers take their `ngx_connection_t` from one array, by
`ngx_get_connection`, and give it back by `ngx_free_connection`. The machine here is
a process: the slots of that array, the free list, and one C stack that the handlers
of all connections and timers share. What a handler does to its own connection is
the code of `NginxEngine.XS.Connection`; a slot may meanwhile have become another's.

## Main definitions

- `Occupant` — what a slot holds
- `Process` — slots, free list and C stack
- `Process.step` — what can happen to a process
- `process` — the machine
-/

namespace NginxEngine.XS

inductive TimerKind
  | timeout
  | interval
deriving DecidableEq, Repr

/-- A slot used by `ngxe_timeout_set` or `ngxe_interval_set`. -/
structure Timer where
  kind : TimerKind
  /-- `c->read` is in the timer tree. -/
  timerSet : Bool
  /-- The timer was cleared, or is a timeout whose callback has returned. -/
  ended : Bool
deriving DecidableEq, Repr

/-- A slot without a session or a timer: of a listening connection, or of a call that fails. -/
structure Bare where
  /-- The program was given the pointer. -/
  known : Bool
  /-- `c->fd` is not -1. -/
  fd : Bool
  destroyed : Bool
deriving DecidableEq, Repr

inductive Occupant
  | unused
  | conn (c : Conn)
  | timer (t : Timer)
  | bare (b : Bare)
deriving DecidableEq, Repr

namespace Occupant

/-- `c->destroyed`, which `ngx_get_connection` zeroes and only `ngxe_close` sets. -/
def destroyed : Occupant → Bool
  | .conn c => c.destroyed
  | .bare b => b.destroyed
  | .unused | .timer _ => false

/-- An open connection, a timer that has not ended, or another slot whose `c->fd` is not -1. -/
def live : Occupant → Bool
  | .conn c => !c.destroyed
  | .timer t => !t.ended
  | .bare b => b.fd
  | .unused => false

/-- `c->fd` is not -1; the one of a timer is 0. -/
def fd : Occupant → Bool
  | .conn c => !c.destroyed
  | .timer _ => true
  | .bare b => b.fd
  | .unused => false

/-- The end of a timer. -/
def finish : Occupant → Occupant
  | .timer t => .timer { t with ended := true }
  | v => v

/-- `ngx_event_del_timer(c->read)` and the end of a timer. -/
def clear : Occupant → Occupant
  | .timer t => .timer { t with timerSet := false, ended := true }
  | v => v

/-- Expiry; `ngxe_interval_callback` puts the event back into the tree before it calls
    back. -/
def fire : Occupant → Occupant
  | .timer t => .timer { t with timerSet := decide (t.kind = .interval) }
  | v => v

end Occupant

/-- Where `ngxe_client` fails once it has taken a slot. -/
inductive PeerFailure
  /-- In the options of the socket, or in `bind`. -/
  | setup
  /-- In `ngx_add_conn` or `ngx_add_event`; `peer->connection` is set. -/
  | register
  /-- In `connect`, with `NGX_DECLINED`. -/
  | declined
  /-- There is no memory for the session. -/
  | session
deriving DecidableEq, Repr

/-- `ngx_event_connect_peer` gives the slot back itself, and leaves `c->fd`. -/
def PeerFailure.givesBack : PeerFailure → Bool
  | .setup | .register => true
  | .declined | .session => false

/-- A frame of the C stack: who it belongs to is a slot and the number of its taking. -/
inductive PFrame
  | conn (slot gen : Nat) (f : Frame)
  /-- The Perl callback runs inside `ngxe_timeout_callback` or `ngxe_interval_callback`. -/
  | timer (kind : TimerKind) (slot gen : Nat)
  /-- The error callback runs inside an `ngxe_client` that took `slot`. -/
  | failing (why : PeerFailure) (slot : Nat)
  /-- Perl code that none of these called: the program before `ngxe_loop`, or the
      callback of a listening connection. -/
  | outside
deriving DecidableEq, Repr

/-- Perl code is running. -/
def PFrame.isPerl : PFrame → Bool
  | .conn _ _ f => f.isPerl
  | .timer _ _ _ | .failing _ _ | .outside => true

/-- What happens to timers and their slots, by the number of the timer's taking. -/
inductive Act
  | set (kind : TimerKind) (slot gen : Nat)
  /-- The program calls `ngxe_timeout_clear` or `ngxe_interval_clear`. -/
  | cleared (gen : Nat)
  /-- `ngx_event_del_timer`, and whether the event was in the tree. -/
  | removed (gen : Nat) (inTree : Bool)
  /-- `ngx_free_connection` by code of the timer. -/
  | freed (gen : Nat)
deriving DecidableEq, Repr

structure Process where
  pool : Pool Occupant
  stack : List PFrame
  log : List Act
  /-- Code has gone on with memory that is no longer its own, or has crashed. What happens
      afterwards is not described. -/
  wild : Bool
deriving DecidableEq, Repr

/-- The process before `ngxe_loop`, with `n` connections. -/
def Process.init (n : Nat) : Process := ⟨.init n .unused, [.outside], [], false⟩

inductive PInput
  /-- Something arrives at a socket, or the loop delivers an event of a connection. -/
  | event (slot : Nat) (i : Input)
  /-- Perl code makes a call on a connection. -/
  | op (slot : Nat) (o : Op) (ok : Bool)
  /-- The innermost frame goes on. -/
  | resume (i : Input)
  | accept
  | client (connected : Bool) (timeout : Int)
  /-- `ngxe_client` fails. Failures before it takes a slot are no step of their own: the
      slots stay as they are, and the error callback is Perl code inside of Perl code. -/
  | clientFails (why : PeerFailure)
  /-- The error callback of `ngxe_client` returns. -/
  | failReturn
  /-- `ngxe_server`: whether the socket listens, and whether the call returns the pointer. -/
  | server (fd ok : Bool)
  | timerSet (kind : TimerKind)
  /-- `ngxe_timeout_set` or `ngxe_interval_set` has taken a slot and finds no memory. -/
  | timerFails (kind : TimerKind)
  | timerClear (kind : TimerKind) (slot gen : Nat)
  | fire (slot : Nat)
  /-- The callback of a timer returns. -/
  | timerReturn
  /-- Perl code that no handler called returns to the loop. -/
  | leave
deriving DecidableEq, Repr

/-- What arrives at a socket, whatever the process does meanwhile. -/
def Input.arrives : Input → Bool
  | .arrive _ | .arriveEof | .hangup => true
  | _ => false

/-- What the loop delivers. -/
def Input.delivered : Input → Bool
  | .readEvent | .writeEvent | .readTimer | .writeTimer => true
  | _ => false

/-- What a frame waits for. -/
def Input.resumes : Input → Bool
  | .recv _ _ | .send _ _ | .ret _ => true
  | _ => false

namespace Process

def inPerl (w : Process) : Bool := w.stack.head?.any PFrame.isPerl

/-- Code of the connection `c` leaves an outcome; `ngxe_close` gives the slot back. -/
def finish (w : Process) (slot gen : Nat) (c : Conn) (o : Outcome) (rest : List PFrame) : Process :=
  { w with
    pool :=
      if !c.destroyed && o.1.destroyed then (w.pool.modify slot fun _ => .conn o.1).put slot
      else w.pool.modify slot fun _ => .conn o.1
    stack := o.2.map (.conn slot gen) ++ rest }

/-- A handler returns from its callback into a slot that was given to another: it goes
    by `c->destroyed`, except that `ngxe_client_init_handler` just returns. -/
def returnElsewhere (w : Process) (v : Occupant) (site : Site) (rest : List PFrame) : Process :=
  if v.destroyed ∨ site = .connected then { w with stack := rest } else { w with wild := true }

/-- The body shared by `ngxe_timeout_set` and `ngxe_interval_set`, which differ in the
    handler they install. Without a free connection they return `undef`. -/
def setTimer (w : Process) (kind : TimerKind) : Process :=
  match w.pool.get (.timer ⟨kind, true, false⟩) with
  | some (slot, pool) => { w with pool := pool, log := w.log ++ [.set kind slot w.pool.next] }
  | none => w

def ngxeTimeoutSet (w : Process) : Process := w.setTimer .timeout

def ngxeIntervalSet (w : Process) : Process := w.setTimer .interval

/-- The body shared by `ngxe_timeout_clear` and `ngxe_interval_clear`. `interval` is the
    timer's own memory, which is gone once the timer has ended. `ngx_rbtree_delete` leaves
    null links in a node, and crashes in `ngx_rbtree_min` at a node that has them. -/
def clearTimer (w : Process) (slot gen : Nat) : Process :=
  match w.pool.lookup slot with
  | some ⟨gen', .timer t⟩ =>
    if gen' = gen ∧ t.ended = false then
      if t.timerSet then
        { w with
          pool := (w.pool.modify slot Occupant.clear).put slot
          log := w.log ++ [.cleared gen, .removed gen true, .freed gen] }
      else { w with log := w.log ++ [.cleared gen, .removed gen false], wild := true }
    else { w with log := w.log ++ [.cleared gen], wild := true }
  | _ => { w with log := w.log ++ [.cleared gen], wild := true }

def ngxeTimeoutClear (w : Process) (slot gen : Nat) : Process := w.clearTimer slot gen

def ngxeIntervalClear (w : Process) (slot gen : Nat) : Process := w.clearTimer slot gen

/-- The rest of `ngxe_timeout_callback`: the slot is given back whoever has it now. -/
def timeoutReturn (w : Process) (slot gen : Nat) (rest : List PFrame) : Process :=
  { w with
    pool := (w.pool.modify slot fun v =>
      if (w.pool.lookup slot).any (·.gen = gen) then v.finish else v).put slot
    stack := rest
    log := w.log ++ [.freed gen] }

/-- A slot is taken and kept, without a timer or a session. -/
def takeBare (w : Process) (b : Bare) : Process :=
  match w.pool.get (.bare b) with
  | some (_, pool) => { w with pool := pool }
  | none => w

/-- `ngxe_server` takes a slot for the listening connection, and keeps it also where it fails
    afterwards. -/
def ngxeServer (w : Process) (fd ok : Bool) : Process := w.takeBare ⟨fd && ok, fd, false⟩

/-- `XSRETURN_UNDEF` after `ngx_pcalloc` in `ngxe_timeout_set` and `ngxe_interval_set`. -/
def failTimer (w : Process) : Process := w.takeBare ⟨false, true, false⟩

/-- `ngxe_client` has taken `slot` out of what is now `pool`, fails and calls back. -/
def clientFailed (w : Process) (why : PeerFailure) (slot : Nat) (pool : Pool Occupant) : Process :=
  { w with
    pool := if why.givesBack then pool.put slot else pool
    stack := .failing why slot :: w.stack }

/-- `ngxe_client` up to its error callback. -/
def clientFails (w : Process) (why : PeerFailure) : Process :=
  match w.pool.get (.bare ⟨decide (why = .session), true, false⟩) with
  | some (slot, pool) => w.clientFailed why slot pool
  | none => w

/-- A slot is closed and given back, whoever has it. -/
def shut (w : Process) (slot : Nat) (destroyed : Bool) : Process :=
  { w with pool := (w.pool.modify slot fun _ => .bare ⟨false, false, destroyed⟩).put slot }

/-- `ngx_close_connection` of a slot that may be another's by now. -/
def ngxCloseConnection (w : Process) (slot : Nat) : Process :=
  if (w.pool.lookup slot).any (·.val.fd) then w.shut slot false else w

/-- `ngxe_close` of a slot without a session, or of one that may be another's by now. -/
def ngxeClose (w : Process) (slot : Nat) : Process :=
  if (w.pool.lookup slot).any (·.val.destroyed) then w
  else if (w.pool.lookup slot).any (·.val.fd) then w.shut slot true
  else { w with pool := w.pool.modify slot fun _ => .bare ⟨false, false, true⟩ }

/-- The rest of `ngxe_client` after its error callback. -/
def failReturn (w : Process) (why : PeerFailure) (slot : Nat) (rest : List PFrame) : Process :=
  match why with
  | .setup => { w with stack := rest }
  | .register | .declined => { w with stack := rest }.ngxCloseConnection slot
  | .session => { w with stack := rest }.ngxeClose slot

/-- What an input does to a process that has not gone wild. -/
def act (cfg : Config) (w : Process) : PInput → Option Process
  | .event slot i =>
    match w.pool.lookup slot with
    | some ⟨gen, .conn c⟩ =>
      if i.arrives ∨ (i.delivered ∧ w.stack = []) then
        (XS.step cfg ⟨c, []⟩ i).map fun s => w.finish slot gen c (s.c, s.stack) w.stack
      else none
    | _ => none
  | .op slot o ok =>
    match w.pool.lookup slot with
    | some ⟨gen, .conn c⟩ =>
      if w.inPerl ∧ (c.destroyed = false ∨ o = .close) then
        some (w.finish slot gen c (applyOp cfg ok c o) w.stack)
      else none
    | some ⟨_, .bare b⟩ =>
      if w.inPerl ∧ b.known ∧ o = .close then some (w.ngxeClose slot) else none
    | _ => none
  | .resume i =>
    match w.stack with
    | .conn slot gen f :: rest =>
      match w.pool.lookup slot with
      | some ⟨gen', v⟩ =>
        if gen' = gen then
          match v with
          | .conn c =>
            if i.resumes then
              (XS.step cfg ⟨c, [f]⟩ i).map fun s => w.finish slot gen c (s.c, s.stack) rest
            else none
          | _ => none
        else
          match f, i with
          | .inCallback _ site, .ret _ => some (w.returnElsewhere v site rest)
          | _, _ => none
      | none => none
    | _ => none
  | .accept =>
    if w.stack = [] then
      (w.pool.get (.conn .accepted)).map fun r => { w with pool := r.2, stack := [.outside] }
    else none
  | .client connected timeout =>
    if w.inPerl then
      let o := ngxeClient cfg.method connected timeout
      (w.pool.get (.conn o.1)).map fun r =>
        { w with pool := r.2, stack := o.2.map (.conn r.1 w.pool.next) ++ w.stack }
    else none
  | .clientFails why => if w.inPerl then some (w.clientFails why) else none
  | .failReturn =>
    match w.stack with
    | .failing why slot :: rest => some (w.failReturn why slot rest)
    | _ => none
  | .server fd ok => if w.inPerl then some (w.ngxeServer fd ok) else none
  | .timerSet kind =>
    if w.inPerl then
      match kind with
      | .timeout => some w.ngxeTimeoutSet
      | .interval => some w.ngxeIntervalSet
    else none
  | .timerFails _ => if w.inPerl then some w.failTimer else none
  | .timerClear kind slot gen =>
    -- the pointer is one that the matching call of set has returned
    if w.inPerl ∧ .set kind slot gen ∈ w.log then
      match kind with
      | .timeout => some (w.ngxeTimeoutClear slot gen)
      | .interval => some (w.ngxeIntervalClear slot gen)
    else none
  | .fire slot =>
    match w.pool.lookup slot with
    | some ⟨gen, .timer t⟩ =>
      if w.stack = [] ∧ t.timerSet then
        some { w with pool := w.pool.modify slot Occupant.fire, stack := [.timer t.kind slot gen] }
      else none
    | _ => none
  | .timerReturn =>
    match w.stack with
    | .timer .timeout slot gen :: rest => some (w.timeoutReturn slot gen rest)
    | .timer .interval _ _ :: rest => some { w with stack := rest }
    | _ => none
  | .leave =>
    match w.stack with
    | .outside :: rest => some { w with stack := rest }
    | _ => none

def step (cfg : Config) (w : Process) (i : PInput) : Option Process :=
  if w.wild then none else w.act cfg i

end Process

section Finish

variable {w : Process} {slot gen j : Nat} {c : Conn} {o : Outcome} {rest : List PFrame}

theorem Process.lookup_finish (hx : w.pool.lookup slot = some ⟨gen, .conn c⟩) :
    (w.finish slot gen c o rest).pool.lookup slot = some ⟨gen, .conn o.1⟩ := by
  have hm : (w.pool.modify slot fun _ => .conn o.1).lookup slot = some ⟨gen, .conn o.1⟩ := by
    rw [Pool.lookup_modify_self, hx]
    rfl
  rw [Process.finish]
  split
  · exact hm
  · exact hm

theorem Process.lookup_finish_ne (hne : slot ≠ j) :
    (w.finish slot gen c o rest).pool.lookup j = w.pool.lookup j := by
  have hm : (w.pool.modify slot fun _ => .conn o.1).lookup j = w.pool.lookup j :=
    Pool.lookup_modify_ne hne
  rw [Process.finish]
  split
  · exact hm
  · exact hm

theorem Process.length_finish (w : Process) (slot gen : Nat) (c : Conn) (o : Outcome)
    (rest : List PFrame) :
    (w.finish slot gen c o rest).pool.cells.length = w.pool.cells.length := by
  have hm : (w.pool.modify slot fun _ => .conn o.1).cells.length = w.pool.cells.length :=
    Pool.length_modify
  rw [Process.finish]
  split
  · exact hm
  · exact hm

/-- Whatever code of a connection leaves, every other slot has the occupant it had. -/
theorem Process.finish_gen {gen' : Nat} {c' : Conn}
    (hx : w.pool.lookup slot = some ⟨gen, .conn c⟩)
    (h : w.pool.lookup j = some ⟨gen', .conn c'⟩) :
    ∃ c'', (w.finish slot gen c o rest).pool.lookup j = some ⟨gen', .conn c''⟩ := by
  by_cases hne : slot = j
  · subst hne
    rw [hx] at h
    cases h
    exact ⟨_, Process.lookup_finish hx⟩
  · exact ⟨c', (Process.lookup_finish_ne hne).trans h⟩

end Finish

/-- The steps of a process, case by case, with their guards. -/
inductive PStep (cfg : Config) (w : Process) : PInput → Process → Prop
  | event {slot gen c s} (i : Input) (hx : w.pool.lookup slot = some ⟨gen, .conn c⟩)
      (hi : i.arrives = true ∨ i.delivered = true ∧ w.stack = [])
      (hs : Step cfg ⟨c, []⟩ i s) :
      PStep cfg w (.event slot i) (w.finish slot gen c (s.c, s.stack) w.stack)
  | op {slot gen c} (o : Op) (ok : Bool) (hx : w.pool.lookup slot = some ⟨gen, .conn c⟩)
      (hperl : w.inPerl = true) (hopen : c.destroyed = false ∨ o = .close) :
      PStep cfg w (.op slot o ok) (w.finish slot gen c (applyOp cfg ok c o) w.stack)
  | closeBare {slot gen b} (ok : Bool) (hx : w.pool.lookup slot = some ⟨gen, .bare b⟩)
      (hperl : w.inPerl = true) (hknown : b.known = true) :
      PStep cfg w (.op slot .close ok) (w.ngxeClose slot)
  | resume {slot gen f rest c s} (i : Input) (hstk : w.stack = .conn slot gen f :: rest)
      (hx : w.pool.lookup slot = some ⟨gen, .conn c⟩) (hi : i.resumes = true)
      (hs : Step cfg ⟨c, [f]⟩ i s) :
      PStep cfg w (.resume i) (w.finish slot gen c (s.c, s.stack) rest)
  | elsewhere {slot gen gen' cb site rest v} (ok : Bool)
      (hstk : w.stack = .conn slot gen (.inCallback cb site) :: rest)
      (hx : w.pool.lookup slot = some ⟨gen', v⟩) (hne : gen' ≠ gen) :
      PStep cfg w (.resume (.ret ok)) (w.returnElsewhere v site rest)
  | accept {slot pool} (hstk : w.stack = [])
      (hget : w.pool.get (.conn .accepted) = some (slot, pool)) :
      PStep cfg w .accept { w with pool := pool, stack := [.outside] }
  | client {slot pool} (connected : Bool) (timeout : Int) (hperl : w.inPerl = true)
      (hget : w.pool.get (.conn (ngxeClient cfg.method connected timeout).1) = some (slot, pool)) :
      PStep cfg w (.client connected timeout) { w with
        pool := pool
        stack :=
          (ngxeClient cfg.method connected timeout).2.map (.conn slot w.pool.next) ++ w.stack }
  | clientFails {slot pool} (why : PeerFailure) (hperl : w.inPerl = true)
      (hget : w.pool.get (.bare ⟨decide (why = .session), true, false⟩) =
        some (slot, pool)) :
      PStep cfg w (.clientFails why) (w.clientFailed why slot pool)
  | clientRefused (why : PeerFailure) : PStep cfg w (.clientFails why) w
  | failReturn {why slot rest} (hstk : w.stack = .failing why slot :: rest) :
      PStep cfg w .failReturn (w.failReturn why slot rest)
  | server (fd ok : Bool) (hperl : w.inPerl = true) :
      PStep cfg w (.server fd ok) (w.takeBare ⟨fd && ok, fd, false⟩)
  | timerSet {slot pool} (kind : TimerKind) (hperl : w.inPerl = true)
      (hget : w.pool.get (.timer ⟨kind, true, false⟩) = some (slot, pool)) :
      PStep cfg w (.timerSet kind)
        { w with pool := pool, log := w.log ++ [.set kind slot w.pool.next] }
  | timerRefused (kind : TimerKind) : PStep cfg w (.timerSet kind) w
  | timerFails (kind : TimerKind) (hperl : w.inPerl = true) :
      PStep cfg w (.timerFails kind) (w.takeBare ⟨false, true, false⟩)
  | timerClear {slot gen} (kind : TimerKind) (hperl : w.inPerl = true)
      (hset : .set kind slot gen ∈ w.log) :
      PStep cfg w (.timerClear kind slot gen) (w.clearTimer slot gen)
  | fire {slot gen t} (hx : w.pool.lookup slot = some ⟨gen, .timer t⟩) (hstk : w.stack = [])
      (ht : t.timerSet = true) :
      PStep cfg w (.fire slot)
        { w with pool := w.pool.modify slot Occupant.fire, stack := [.timer t.kind slot gen] }
  | timeoutReturn {slot gen rest} (hstk : w.stack = .timer .timeout slot gen :: rest) :
      PStep cfg w .timerReturn (w.timeoutReturn slot gen rest)
  | intervalReturn {slot gen rest} (hstk : w.stack = .timer .interval slot gen :: rest) :
      PStep cfg w .timerReturn { w with stack := rest }
  | leave {rest} (hstk : w.stack = .outside :: rest) : PStep cfg w .leave { w with stack := rest }

theorem Process.step_cases {cfg : Config} {w w' : Process} {i : PInput}
    (h : w.step cfg i = some w') : PStep cfg w i w' := by
  unfold Process.step at h
  rw [Option.ite_none_left_eq_some] at h
  obtain ⟨-, h⟩ := h
  cases i with
  | event slot i =>
    simp only [Process.act] at h
    split at h
    · next gen c hx =>
      rw [Option.ite_none_right_eq_some, Option.map_eq_some_iff] at h
      obtain ⟨hi, s, hs, rfl⟩ := h
      exact .event i hx hi (XS.step_cases hs)
    · cases h
  | op slot o ok =>
    simp only [Process.act] at h
    split at h
    · next gen c hx =>
      rw [Option.ite_none_right_eq_some, Option.some.injEq] at h
      obtain ⟨⟨hperl, hopen⟩, rfl⟩ := h
      exact .op o ok hx hperl hopen
    · next gen b hx =>
      rw [Option.ite_none_right_eq_some, Option.some.injEq] at h
      obtain ⟨⟨hperl, hknown, rfl⟩, rfl⟩ := h
      exact .closeBare ok hx hperl hknown
    · cases h
  | resume i =>
    simp only [Process.act] at h
    split at h
    · next slot gen f rest hstk =>
      split at h
      · next gen' v hx =>
        by_cases hgen : gen' = gen
        · rw [if_pos hgen] at h
          subst hgen
          split at h
          · next c =>
            rw [Option.ite_none_right_eq_some, Option.map_eq_some_iff] at h
            obtain ⟨hi, s, hs, rfl⟩ := h
            exact .resume i hstk hx hi (XS.step_cases hs)
          · cases h
        · rw [if_neg hgen] at h
          split at h
          · cases h
            exact .elsewhere _ hstk hx hgen
          · cases h
      · cases h
    · cases h
  | accept =>
    simp only [Process.act, Option.ite_none_right_eq_some, Option.map_eq_some_iff] at h
    obtain ⟨hstk, ⟨slot, pool⟩, hget, rfl⟩ := h
    exact .accept hstk hget
  | client connected timeout =>
    simp only [Process.act, Option.ite_none_right_eq_some, Option.map_eq_some_iff] at h
    obtain ⟨hperl, ⟨slot, pool⟩, hget, rfl⟩ := h
    exact .client connected timeout hperl hget
  | clientFails why =>
    simp only [Process.act, Option.ite_none_right_eq_some, Option.some.injEq] at h
    obtain ⟨hperl, rfl⟩ := h
    rw [Process.clientFails]
    split
    · next slot pool hget => exact .clientFails why hperl hget
    · exact .clientRefused why
  | failReturn =>
    simp only [Process.act] at h
    split at h
    · next why slot rest hstk =>
      cases h
      exact .failReturn hstk
    · cases h
  | server fd ok =>
    simp only [Process.act, Option.ite_none_right_eq_some, Option.some.injEq] at h
    obtain ⟨hperl, rfl⟩ := h
    exact .server fd ok hperl
  | timerSet kind =>
    simp only [Process.act, Option.ite_none_right_eq_some] at h
    obtain ⟨hperl, h⟩ := h
    have hset : w' = w.setTimer kind := by
      cases kind with
      | timeout => exact (Option.some.inj h).symm
      | interval => exact (Option.some.inj h).symm
    subst hset
    rw [Process.setTimer]
    split
    · next slot pool hget => exact .timerSet kind hperl hget
    · exact .timerRefused kind
  | timerFails kind =>
    simp only [Process.act, Option.ite_none_right_eq_some, Option.some.injEq] at h
    obtain ⟨hperl, rfl⟩ := h
    exact .timerFails kind hperl
  | timerClear kind slot gen =>
    simp only [Process.act, Option.ite_none_right_eq_some] at h
    obtain ⟨⟨hperl, hset⟩, h⟩ := h
    have hclear : w' = w.clearTimer slot gen := by
      cases kind with
      | timeout => exact (Option.some.inj h).symm
      | interval => exact (Option.some.inj h).symm
    subst hclear
    exact .timerClear kind hperl hset
  | fire slot =>
    simp only [Process.act] at h
    split at h
    · next gen t hx =>
      rw [Option.ite_none_right_eq_some, Option.some.injEq] at h
      obtain ⟨⟨hstk, ht⟩, rfl⟩ := h
      exact .fire hx hstk ht
    · cases h
  | timerReturn =>
    simp only [Process.act] at h
    split at h
    · next slot gen rest hstk =>
      cases h
      exact .timeoutReturn hstk
    · next slot gen rest hstk =>
      cases h
      exact .intervalReturn hstk
    · cases h
  | leave =>
    simp only [Process.act] at h
    split at h
    · next rest hstk =>
      cases h
      exact .leave hstk
    · cases h

def process (cfg : Config) : Machine Process PInput := ⟨Process.step cfg⟩

/-- The states of every run of a process of which each step meets `G`. -/
def Process.Reachable (cfg : Config) (G : Process → PInput → Prop) (w : Process) : Prop :=
  ∃ n, (process cfg).Reaches G (.init n) w

/-- The induction rule for what holds throughout the runs of a process. -/
theorem Process.Reachable.invariant {cfg : Config} {G : Process → PInput → Prop}
    {I : Process → Prop} {w : Process} (h : Process.Reachable cfg G w)
    (hinit : ∀ n, I (.init n)) (hstep : ∀ w i w', I w → G w i → PStep cfg w i w' → I w') : I w := by
  obtain ⟨n, h⟩ := h
  exact Machine.Reaches.invariant h (hinit n) fun w i w' hw hG h =>
    hstep w i w' hw hG (Process.step_cases h)

end NginxEngine.XS
