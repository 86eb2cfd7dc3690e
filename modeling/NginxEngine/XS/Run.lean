import NginxEngine.XS.Api

/-!
# Runs of one connection

The event loop, the kernel, the peer and the program as one machine: an input is
something that can happen next, and the step is what the code of the connection
does about it. The stack lists the frames of C code that wait, innermost first;
control is in the event loop when it is empty.

## Main definitions

- `Sys` — a connection and its stack
- `Input` — what can happen next
- `engine` — the machine
- `Initial` — the states in which a connection comes into being
-/

namespace NginxEngine.XS

@[ext]
structure Sys where
  c : Conn
  stack : List Frame
deriving DecidableEq, Repr

inductive Input
  /-- Bytes arrive at the socket. -/
  | arrive (b : Bytes)
  /-- The peer's EOF arrives. -/
  | arriveEof
  /-- An error or a hang-up is reported; nothing becomes readable. -/
  | hangup
  /-- The loop delivers a read notification. -/
  | readEvent
  /-- The loop delivers a write notification. -/
  | writeEvent
  | readTimer
  | writeTimer
  /-- Perl code starts that no handler of this connection called. -/
  | enter
  /-- That Perl code returns. -/
  | leave
  | op (o : Op) (ok : Bool)
  | recv (err ok : Bool)
  | send (r : SendResult) (ok : Bool)
  /-- The Perl callback returns to `ngxe_callback`. -/
  | ret (ok : Bool)
deriving DecidableEq, Repr

-- The decidability of a condition on a step is found by its cases.
attribute [induction_eliminator] Input.casesOn Op.casesOn Frame.casesOn Site.casesOn

/-- Perl code is running. -/
def Frame.isPerl : Frame → Bool
  | .inCallback _ _ | .outside => true
  | _ => false

/-- The rest of the handler closes the connection, or the process is gone. -/
def Frame.fatal : Frame → Bool
  | .inCallback _ .failed | .crash => true
  | _ => false

theorem any_cons_of_not {p : Frame → Bool} {f : Frame} {rest : List Frame} (hf : p f = false)
    (h : (f :: rest).any p = true) : rest.any p = true := by
  simpa [hf] using h

/-- A notification is posted if the read event is registered. -/
def Conn.post (c : Conn) : Conn :=
  { c with pending := if c.read.active then c.pending + 1 else c.pending }

/-- The loop may call the read handler: an edge-triggered method once for each
    notification, a level-triggered one as long as the event is registered. -/
def Conn.readable (c : Conn) : EventMethod → Bool
  | .clear => decide (0 < c.pending)
  | .level _ => c.read.active

/-- What `c->send` may answer to a request. -/
def SendResult.answers (r : SendResult) (q : Option Request) : Bool :=
  match r, q with
  | .accepted n, some q => decide (0 < n) && decide ((n : Int) ≤ q.size)
  | _, _ => true

/-- Put the frames an outcome leaves on a stack. -/
def resume (o : Outcome) (rest : List Frame) : Sys := ⟨o.1, o.2 ++ rest⟩

/-- A read notification is taken from the kernel. -/
def Conn.takeRead (c : Conn) : Conn :=
  { c with pending := c.pending - 1, read := { c.read with ready := true } }

/-- A write notification is taken from the kernel. -/
def Conn.takeWrite (c : Conn) : Conn := { c with write := { c.write with ready := true } }

def Conn.expireRead (c : Conn) : Conn := { c with read := c.read.expire }

def Conn.expireWrite (c : Conn) : Conn := { c with write := c.write.expire }

def step (cfg : Config) (s : Sys) : Input → Option Sys
  | .arrive b =>
    if b ≠ [] ∧ s.c.eof = false then
      some { s with c := { s.c with unread := s.c.unread ++ b }.post }
    else none
  | .arriveEof =>
    if s.c.eof = false then some { s with c := { s.c with eof := true }.post } else none
  | .hangup => some { s with c := s.c.post }
  | .readEvent =>
    if s.stack = [] ∧ s.c.destroyed = false ∧ s.c.readable cfg.method then
      some (resume (callReadHandler cfg s.c.takeRead) [])
    else none
  | .writeEvent =>
    if s.stack = [] ∧ s.c.destroyed = false ∧ s.c.write.active then
      some (resume (callWriteHandler s.c.takeWrite) [])
    else none
  | .readTimer =>
    if s.stack = [] ∧ s.c.destroyed = false ∧ s.c.read.timerSet then
      some (resume (callReadHandler cfg s.c.expireRead) [])
    else none
  | .writeTimer =>
    if s.stack = [] ∧ s.c.destroyed = false ∧ s.c.write.timerSet then
      some (resume (callWriteHandler s.c.expireWrite) [])
    else none
  | .enter => if s.stack = [] then some { s with stack := [.outside] } else none
  | .leave =>
    match s.stack with
    | .outside :: rest => some { s with stack := rest }
    | _ => none
  | .op o ok =>
    match s.stack with
    | f :: rest =>
      -- a call on a closed connection names a connection that is no more
      if f.isPerl ∧ (s.c.destroyed = false ∨ o = .close) then
        some (resume (applyOp cfg ok s.c o) (f :: rest))
      else none
    | [] => none
  | .recv err ok =>
    match s.stack with
    | .recv cb :: rest => some (resume (readerRecv cfg ok s.c cb err) rest)
    | _ => none
  | .send r ok =>
    match s.stack with
    | .send k cb :: rest =>
      if r.answers (s.c.request k) then some (resume (writerSend cfg ok k s.c cb r) rest)
      else none
    | _ => none
  | .ret ok =>
    match s.stack with
    | .inCallback cb site :: rest => some (resume (afterCallback cfg ok s.c cb site) rest)
    | _ => none

/-- The steps, case by case, with their guards. -/
inductive Step (cfg : Config) : Sys → Input → Sys → Prop
  | arrive {c stk} (b : Bytes) (hb : b ≠ []) (he : c.eof = false) :
      Step cfg ⟨c, stk⟩ (.arrive b) ⟨{ c with unread := c.unread ++ b }.post, stk⟩
  | arriveEof {c stk} (he : c.eof = false) :
      Step cfg ⟨c, stk⟩ .arriveEof ⟨{ c with eof := true }.post, stk⟩
  | hangup {c stk} : Step cfg ⟨c, stk⟩ .hangup ⟨c.post, stk⟩
  | readEvent {c} (hopen : c.destroyed = false) (hr : c.readable cfg.method = true) :
      Step cfg ⟨c, []⟩ .readEvent (resume (callReadHandler cfg c.takeRead) [])
  | writeEvent {c} (hopen : c.destroyed = false) (ha : c.write.active = true) :
      Step cfg ⟨c, []⟩ .writeEvent (resume (callWriteHandler c.takeWrite) [])
  | readTimer {c} (hopen : c.destroyed = false) (ht : c.read.timerSet = true) :
      Step cfg ⟨c, []⟩ .readTimer (resume (callReadHandler cfg c.expireRead) [])
  | writeTimer {c} (hopen : c.destroyed = false) (ht : c.write.timerSet = true) :
      Step cfg ⟨c, []⟩ .writeTimer (resume (callWriteHandler c.expireWrite) [])
  | enter {c} : Step cfg ⟨c, []⟩ .enter ⟨c, [.outside]⟩
  | leave {c rest} : Step cfg ⟨c, .outside :: rest⟩ .leave ⟨c, rest⟩
  | op {c f rest} (o : Op) (ok : Bool) (hf : f.isPerl = true)
      (hopen : c.destroyed = false ∨ o = .close) :
      Step cfg ⟨c, f :: rest⟩ (.op o ok) (resume (applyOp cfg ok c o) (f :: rest))
  | recv {c cb rest} (err ok : Bool) :
      Step cfg ⟨c, .recv cb :: rest⟩ (.recv err ok) (resume (readerRecv cfg ok c cb err) rest)
  | send {c k cb rest} (r : SendResult) (ok : Bool) (hr : r.answers (c.request k) = true) :
      Step cfg ⟨c, .send k cb :: rest⟩ (.send r ok) (resume (writerSend cfg ok k c cb r) rest)
  | ret {c cb site rest} (ok : Bool) :
      Step cfg ⟨c, .inCallback cb site :: rest⟩ (.ret ok)
        (resume (afterCallback cfg ok c cb site) rest)

theorem step_cases {cfg : Config} {s t : Sys} {i : Input} (h : step cfg s i = some t) :
    Step cfg s i t := by
  obtain ⟨c, stk⟩ := s
  cases i with
  | arrive b =>
    simp only [step, Option.ite_none_right_eq_some, Option.some.injEq] at h
    obtain ⟨⟨hb, he⟩, rfl⟩ := h
    exact .arrive b hb he
  | arriveEof =>
    simp only [step, Option.ite_none_right_eq_some, Option.some.injEq] at h
    obtain ⟨he, rfl⟩ := h
    exact .arriveEof he
  | hangup =>
    simp only [step, Option.some.injEq] at h
    exact h ▸ .hangup
  | readEvent =>
    simp only [step, Option.ite_none_right_eq_some, Option.some.injEq] at h
    obtain ⟨⟨rfl, hopen, hr⟩, rfl⟩ := h
    exact .readEvent hopen hr
  | writeEvent =>
    simp only [step, Option.ite_none_right_eq_some, Option.some.injEq] at h
    obtain ⟨⟨rfl, hopen, ha⟩, rfl⟩ := h
    exact .writeEvent hopen ha
  | readTimer =>
    simp only [step, Option.ite_none_right_eq_some, Option.some.injEq] at h
    obtain ⟨⟨rfl, hopen, ht⟩, rfl⟩ := h
    exact .readTimer hopen ht
  | writeTimer =>
    simp only [step, Option.ite_none_right_eq_some, Option.some.injEq] at h
    obtain ⟨⟨rfl, hopen, ht⟩, rfl⟩ := h
    exact .writeTimer hopen ht
  | enter =>
    simp only [step, Option.ite_none_right_eq_some, Option.some.injEq] at h
    obtain ⟨rfl, rfl⟩ := h
    exact .enter
  | leave =>
    simp only [step] at h
    split at h
    · cases h
      exact .leave
    · cases h
  | op o ok =>
    simp only [step] at h
    split at h
    · simp only [Option.ite_none_right_eq_some, Option.some.injEq] at h
      obtain ⟨⟨hf, hopen⟩, rfl⟩ := h
      exact .op o ok hf hopen
    · cases h
  | recv err ok =>
    simp only [step] at h
    split at h
    · cases h
      exact .recv err ok
    · cases h
  | send r ok =>
    simp only [step] at h
    split at h
    · simp only [Option.ite_none_right_eq_some, Option.some.injEq] at h
      obtain ⟨hr, rfl⟩ := h
      exact .send r ok hr
    · cases h
  | ret ok =>
    simp only [step] at h
    split at h
    · cases h
      exact .ret ok
    · cases h

def engine (cfg : Config) : Machine Sys Input := ⟨step cfg⟩

/-- A connection comes into being while Perl code runs: the callback of a listening
    connection, or the caller of `ngxe_client`. -/
inductive Initial (cfg : Config) : Sys → Prop
  | accepted : Initial cfg ⟨.accepted, [.outside]⟩
  | client (connected : Bool) (timeout : Int) :
      Initial cfg (resume (ngxeClient cfg.method connected timeout) [.outside])

/-- The states of every run of a connection, of which each step meets `G`. -/
def Reachable (cfg : Config) (G : Sys → Input → Prop) (s : Sys) : Prop :=
  ∃ s₀, Initial cfg s₀ ∧ (engine cfg).Reaches G s₀ s

/-- The induction rule for what holds throughout the runs of a connection. -/
theorem Reachable.invariant {cfg : Config} {G : Sys → Input → Prop} {I : Sys → Prop} {s : Sys}
    (h : Reachable cfg G s) (hinit : ∀ s₀, Initial cfg s₀ → I s₀)
    (hstep : ∀ s i t, I s → G s i → Step cfg s i t → I t) : I s := by
  obtain ⟨s₀, h₀, h⟩ := h
  exact h.invariant (hinit s₀ h₀) fun s i t hs hG h => hstep s i t hs hG (step_cases h)

end NginxEngine.XS
