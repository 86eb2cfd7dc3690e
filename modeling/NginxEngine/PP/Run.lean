import NginxEngine.Machine
import NginxEngine.PP.Connection

/-!
# Runs of one connection of the pure-Perl engine

The loop of `ngxe_loop`, the kernel, the clock and the program as one machine over one
connection. Control is in the loop when the stack is empty; `select` and the iteration
over `%FDSET` are inputs, and other connections are present only as Perl code that runs
outside the handlers of this one. A closed connection has no bits: that its descriptor
number may have become another's is a matter of `NginxEngine.PP.Process`.

## Main definitions

- `Sys` — a connection, the clock and the stack
- `Input` — what can happen next
- `engine` — the machine
-/

namespace NginxEngine.PP

open NginxEngine.XS (Bytes Sv)

structure Sys where
  v : View
  /-- `time`. -/
  now : Int
  /-- `$t` of the current pass. -/
  t : Int
  stack : List Frame
deriving DecidableEq, Repr

inductive Input
  /-- Time passes. -/
  | tick (n : Nat)
  /-- `select` returns, with this descriptor readable or writable. -/
  | select (r w : Bool)
  /-- `each %FDSET` gives this connection. -/
  | dispatch
  /-- `ngxe_loop` goes on to its second test. -/
  | next
  | sysread (r : ReadResult)
  | syswrite (r : WriteResult)
  | accept (ok : Bool)
  | connect (r : ConnectResult)
  /-- A callback returns to the handler that called it. -/
  | ret
  /-- Perl code starts that no handler of this connection called. -/
  | enter
  /-- That Perl code returns. -/
  | leave
  | op (o : Op)
deriving DecidableEq, Repr

-- The decidability of a condition on a step is found by its cases.
attribute [induction_eliminator] Input.casesOn Op.casesOn Frame.casesOn

/-- Put the frames an outcome leaves on a stack. -/
def Sys.resume (s : Sys) (o : Outcome) (rest : List Frame) : Sys :=
  { s with v := o.1, stack := o.2 ++ rest }

/-- What `sysread` may answer to a request. -/
def ReadResult.answers (r : ReadResult) (size : Int) (total : Nat) : Bool :=
  match r with
  | .data b => !b.isEmpty && decide ((b.length : Int) ≤ readSize size total)
  | _ => true

/-- The bytes of the write buffer's element `$i`. -/
def View.element (v : View) (i : Nat) : Option Bytes := ((buffers v.wbuf).bind (·[i]?)).bind id

/-- What `syswrite` may answer to a request. -/
def WriteResult.answers (r : WriteResult) (b : Option Bytes) (offset : Nat) : Bool :=
  match r, b with
  | .accepted n, some b => decide (0 < n) && decide (offset + n ≤ b.length)
  | _, _ => true

/-- `select` returns and `$t` is taken. -/
def Sys.select (s : Sys) (r w : Bool) : Sys :=
  { s with v := { s.v with rout := s.v.rin && r, wout := s.v.win && w }, t := s.now }

def step (s : Sys) : Input → Option Sys
  | .tick n => some { s with now := s.now + n }
  | .select r w => if s.stack = [] then some (s.select r w) else none
  | .dispatch =>
    if s.stack = [] ∧ s.v.closed = false then
      some (s.resume (dispatch s.now s.t (s.v.fileno.getD 0) s.v) [])
    else none
  | .next =>
    match s.stack with
    | .loop _ wev :: rest => some (s.resume (dispatchWrite s.now s.t s.v s.v.win s.v.wout wev) rest)
    | _ => none
  | .sysread r =>
    match s.stack with
    | .sysread size total :: rest =>
      if r.answers size total then some (s.resume (sysread s.now s.v size total r) rest) else none
    | _ => none
  | .syswrite r =>
    match s.stack with
    | .syswrite i offset :: rest =>
      if r.answers (s.v.element i) offset then
        some (s.resume (syswrite s.now s.v i offset r) rest)
      else none
    | _ => none
  | .accept ok =>
    match s.stack with
    | .accept :: rest => some (s.resume (accept s.v ok) rest)
    | _ => none
  | .connect r =>
    match s.stack with
    | .connect limit error :: rest => some (s.resume (connect s.v limit error r) rest)
    | _ => none
  | .ret =>
    match s.stack with
    | f :: rest => (afterCallback s.now s.v f).map fun o => s.resume o rest
    | [] => none
  | .enter => if s.stack = [] then some { s with stack := [.outside] } else none
  | .leave =>
    match s.stack with
    | .outside :: rest => some { s with stack := rest }
    | _ => none
  | .op o =>
    match s.stack with
    | f :: rest =>
      if f.isPerl ∧ (s.v.closed = false ∨ o = .close) then
        some (s.resume (applyOp s.now s.v o) (f :: rest))
      else none
    | [] => none

/-- The steps, case by case, with their guards. -/
inductive Step : Sys → Input → Sys → Prop
  | tick {s} (n : Nat) : Step s (.tick n) { s with now := s.now + n }
  | select {s} (r w : Bool) (hstk : s.stack = []) : Step s (.select r w) (s.select r w)
  | dispatch {s} (hstk : s.stack = []) (hopen : s.v.closed = false) :
      Step s .dispatch (s.resume (dispatch s.now s.t (s.v.fileno.getD 0) s.v) [])
  | next {s fno wev rest} (hstk : s.stack = .loop fno wev :: rest) :
      Step s .next (s.resume (dispatchWrite s.now s.t s.v s.v.win s.v.wout wev) rest)
  | sysread {s size total rest} (r : ReadResult) (hstk : s.stack = .sysread size total :: rest)
      (hr : r.answers size total = true) :
      Step s (.sysread r) (s.resume (sysread s.now s.v size total r) rest)
  | syswrite {s i offset rest} (r : WriteResult) (hstk : s.stack = .syswrite i offset :: rest)
      (hr : r.answers (s.v.element i) offset = true) :
      Step s (.syswrite r) (s.resume (syswrite s.now s.v i offset r) rest)
  | accept {s rest} (ok : Bool) (hstk : s.stack = .accept :: rest) :
      Step s (.accept ok) (s.resume (accept s.v ok) rest)
  | connect {s limit error rest} (r : ConnectResult)
      (hstk : s.stack = .connect limit error :: rest) :
      Step s (.connect r) (s.resume (connect s.v limit error r) rest)
  | ret {s f rest o} (hstk : s.stack = f :: rest) (ho : afterCallback s.now s.v f = some o) :
      Step s .ret (s.resume o rest)
  | enter {s} (hstk : s.stack = []) : Step s .enter { s with stack := [.outside] }
  | leave {s rest} (hstk : s.stack = .outside :: rest) : Step s .leave { s with stack := rest }
  | op {s f rest} (o : Op) (hstk : s.stack = f :: rest) (hf : f.isPerl = true)
      (hopen : s.v.closed = false ∨ o = .close) :
      Step s (.op o) (s.resume (applyOp s.now s.v o) s.stack)

theorem step_cases {s s' : Sys} {i : Input} (h : step s i = some s') : Step s i s' := by
  cases i with
  | tick n =>
    simp only [step, Option.some.injEq] at h
    exact h ▸ .tick n
  | select r w =>
    simp only [step, Option.ite_none_right_eq_some, Option.some.injEq] at h
    obtain ⟨hstk, rfl⟩ := h
    exact .select r w hstk
  | dispatch =>
    simp only [step, Option.ite_none_right_eq_some, Option.some.injEq] at h
    obtain ⟨⟨hstk, hopen⟩, rfl⟩ := h
    exact .dispatch hstk hopen
  | next =>
    simp only [step] at h
    split at h
    · next fno wev rest hstk =>
      cases h
      exact .next hstk
    · cases h
  | sysread r =>
    simp only [step] at h
    split at h
    · next size total rest hstk =>
      rw [Option.ite_none_right_eq_some, Option.some.injEq] at h
      obtain ⟨hr, rfl⟩ := h
      exact .sysread r hstk hr
    · cases h
  | syswrite r =>
    simp only [step] at h
    split at h
    · next i offset rest hstk =>
      rw [Option.ite_none_right_eq_some, Option.some.injEq] at h
      obtain ⟨hr, rfl⟩ := h
      exact .syswrite r hstk hr
    · cases h
  | accept ok =>
    simp only [step] at h
    split at h
    · next rest hstk =>
      cases h
      exact .accept ok hstk
    · cases h
  | connect r =>
    simp only [step] at h
    split at h
    · next limit error rest hstk =>
      cases h
      exact .connect r hstk
    · cases h
  | ret =>
    simp only [step] at h
    split at h
    · next f rest hstk =>
      rw [Option.map_eq_some_iff] at h
      obtain ⟨o, ho, rfl⟩ := h
      exact .ret hstk ho
    · cases h
  | enter =>
    simp only [step, Option.ite_none_right_eq_some, Option.some.injEq] at h
    obtain ⟨hstk, rfl⟩ := h
    exact .enter hstk
  | leave =>
    simp only [step] at h
    split at h
    · next rest hstk =>
      cases h
      exact .leave hstk
    · cases h
  | op o =>
    simp only [step] at h
    split at h
    · next f rest hstk =>
      rw [Option.ite_none_right_eq_some, Option.some.injEq] at h
      obtain ⟨⟨hf, hopen⟩, rfl⟩ := h
      rw [← hstk]
      exact .op o hstk hf hopen
    · cases h

def engine : Machine Sys Input := ⟨step⟩

/-- A connection comes into being while Perl code runs: in the callback of a listening
    connection, or in a call of `ngxe_server` or `ngxe_client`; the pass of the loop it may
    still be met in has taken `$t` before. -/
inductive Initial : Sys → Prop
  | accepted (now t : Int) (fileno : Nat) : Initial ⟨.accepted fileno, now, t, [.outside]⟩
  | server (now t : Int) (fileno : Nat) : Initial ⟨.server fileno, now, t, [.outside]⟩
  | client (now t : Int) (fileno : Nat) (timeout : Int) :
      Initial ⟨(ngxeClient now fileno timeout).1, now, t,
        (ngxeClient now fileno timeout).2 ++ [.outside]⟩

/-- The states of every run of a connection, of which each step meets `G`. -/
def Reachable (G : Sys → Input → Prop) (s : Sys) : Prop :=
  ∃ s₀, Initial s₀ ∧ engine.Reaches G s₀ s

theorem Reachable.tail {G : Sys → Input → Prop} {s s' : Sys} {i : Input} (h : Reachable G s)
    (hG : G s i) (hs : step s i = some s') : Reachable G s' := by
  obtain ⟨s₀, h₀, h⟩ := h
  exact ⟨s₀, h₀, .tail h hG hs⟩

/-- The induction rule for what holds throughout the runs of a connection. -/
theorem Reachable.invariant {G : Sys → Input → Prop} {I : Sys → Prop} {s : Sys}
    (h : Reachable G s) (hinit : ∀ s₀, Initial s₀ → I s₀)
    (hstep : ∀ s i t, I s → G s i → Step s i t → I t) : I s := by
  obtain ⟨s₀, h₀, h⟩ := h
  exact h.invariant (hinit s₀ h₀) fun s i t hs hG h => hstep s i t hs hG (step_cases h)

end NginxEngine.PP
