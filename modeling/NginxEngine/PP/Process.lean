import Mathlib.Logic.Function.Basic
import NginxEngine.PP.Segments

/-!
# The connections of one process

`PP.pm` keeps its connections in `%FDSET` and `%CONN` and their readiness in `$rin`, `$rout`,
`$win` and `$wout`, all of them indexed by descriptor number. The machine here is a process:
every connection array that was ever made, the two hashes, the four bit vectors, and one Perl
stack that the handlers of all connections share. A piece of code of a connection sees the bits
at `CN_FILENO`; the body of the loop over `%FDSET` tests the bits at the number it was given,
which may meanwhile have become another's.

## Main definitions

- `Process` — connections, hashes, bit vectors and stack
- `Process.view`, `Process.finish` — a connection with its bits, read and written back
- `Process.step` — what can happen to a process
- `process` — the machine
-/

namespace NginxEngine.PP

open NginxEngine.XS (Bytes Sv)

/-- A frame of the code of a connection, or Perl code that no handler has called. -/
inductive PFrame
  | conn (k : Nat) (f : Frame)
  | outside
deriving DecidableEq, Repr

/-- Connections are told apart by the order in which they were made. -/
structure Process where
  conns : Nat → Conn
  made : Nat
  /-- `%FDSET`. -/
  fdset : Nat → Option Nat
  /-- `%CONN`. -/
  conn : Nat → Option Nat
  rin : Nat → Bool
  rout : Nat → Bool
  win : Nat → Bool
  wout : Nat → Bool
  now : Int
  t : Int
  stack : List PFrame

/-- What can happen next; see `Input`. -/
inductive PInput
  | tick (n : Nat)
  | select (r w : Nat → Bool)
  /-- `each %FDSET` gives an entry. -/
  | dispatch (fno : Nat)
  | next
  | sysread (r : ReadResult)
  | syswrite (r : WriteResult)
  /-- `accept` gives a descriptor, or none. -/
  | accept (fno : Option Nat)
  | connect (r : ConnectResult)
  | ret
  | enter
  | leave
  | op (k : Nat) (o : Op)
  /-- `ngxe_server` gets a descriptor. -/
  | server (fno : Nat)
  /-- `ngxe_client` gets a descriptor. -/
  | client (fno : Nat) (timeout : Int)

attribute [induction_eliminator] PFrame.casesOn PInput.casesOn

/-- A connection array that nobody has made. -/
def Conn.unmade : Conn where
  fileno := none
  events := []
  read := none
  write := none
  rbuf := none
  wbuf := none
  rmax := none
  woff := 0
  wind := 0
  closed := true
  trace := []

namespace Process

/-- The program before its first call. -/
def init (now t : Int) : Process where
  conns := fun _ => .unmade
  made := 0
  fdset := fun _ => none
  conn := fun _ => none
  rin := fun _ => false
  rout := fun _ => false
  win := fun _ => false
  wout := fun _ => false
  now := now
  t := t
  stack := [.outside]

/-- `CN_FILENO` as an index; undef counts as 0. -/
def fileno (p : Process) (k : Nat) : Nat := (p.conns k).fileno.getD 0

/-- A connection with the bits at its `CN_FILENO`. -/
def view (p : Process) (k : Nat) : View :=
  { p.conns k with
    rin := p.rin (p.fileno k)
    rout := p.rout (p.fileno k)
    win := p.win (p.fileno k)
    wout := p.wout (p.fileno k) }

/-- The piece of code closes the connection `k`. -/
def closes (p : Process) (k : Nat) (v : View) : Bool := v.closed && !(p.conns k).closed

/-- The end of a piece of code of the connection `k`. `ngxe_close` deletes the entries of the
    two hashes. -/
def finish (p : Process) (k : Nat) (o : Outcome) (rest : List PFrame) : Process :=
  { p with
    conns := Function.update p.conns k o.1.toConn
    fdset := if p.closes k o.1 then Function.update p.fdset (p.fileno k) none else p.fdset
    conn := if p.closes k o.1 then Function.update p.conn (p.fileno k) none else p.conn
    rin := Function.update p.rin (p.fileno k) o.1.rin
    rout := Function.update p.rout (p.fileno k) o.1.rout
    win := Function.update p.win (p.fileno k) o.1.win
    wout := Function.update p.wout (p.fileno k) o.1.wout
    stack := o.2.map (.conn k) ++ rest }

/-- A new connection; its bits are not touched. -/
def add (p : Process) (c : Conn) (fno : Nat) : Process :=
  { p with
    conns := Function.update p.conns p.made c
    made := p.made + 1
    fdset := Function.update p.fdset fno (some p.made)
    conn := Function.update p.conn fno (some p.made) }

/-- The number is that of an open connection. -/
def taken (p : Process) (fno : Nat) : Bool :=
  (List.range p.made).any fun k => !(p.conns k).closed && decide ((p.conns k).fileno = some fno)

/-- Perl code of the program is running. -/
def inPerl (p : Process) : Bool :=
  match p.stack with
  | .outside :: _ => true
  | .conn _ f :: _ => f.isPerl
  | [] => false

def select (p : Process) (r w : Nat → Bool) : Process :=
  { p with
    rout := fun fno => p.rin fno && r fno
    wout := fun fno => p.win fno && w fno
    t := p.now }

def ngxeServer (p : Process) (fno : Nat) : Process :=
  { p.add (View.server fno).toConn fno with rin := Function.update p.rin fno true }

/-- `ngxe_client` up to its call of `_connect`. -/
def addClient (p : Process) (fno : Nat) (timeout : Int) : Process :=
  { p.add (View.client p.now fno timeout).toConn fno with
    win := Function.update p.win fno true
    wout := Function.update p.wout fno true }

def ngxeClient (p : Process) (fno : Nat) (timeout : Int) : Process :=
  let p' := p.addClient fno timeout
  p'.finish p.made (_connect (p'.view p.made)) p.stack

def step (p : Process) : PInput → Option Process
  | .tick n => some { p with now := p.now + n }
  | .select r w => if p.stack = [] then some (p.select r w) else none
  | .dispatch fno =>
    match p.stack, p.fdset fno with
    | [], some k => some (p.finish k (dispatch p.now p.t fno (p.view k)) [])
    | _, _ => none
  | .next =>
    match p.stack with
    | .conn k (.loop fno wev) :: rest =>
      some (p.finish k (dispatchWrite p.now p.t (p.view k) (p.win fno) (p.wout fno) wev) rest)
    | _ => none
  | .sysread r =>
    match p.stack with
    | .conn k (.sysread size total) :: rest =>
      if r.answers size total then some (p.finish k (sysread p.now (p.view k) size total r) rest)
      else none
    | _ => none
  | .syswrite r =>
    match p.stack with
    | .conn k (.syswrite i offset) :: rest =>
      if r.answers ((p.view k).element i) offset then
        some (p.finish k (syswrite p.now (p.view k) i offset r) rest)
      else none
    | _ => none
  | .accept fno =>
    match p.stack, fno with
    | .conn k .accept :: rest, none => some (p.finish k (accept (p.view k) false) rest)
    | .conn k .accept :: rest, some fno =>
      if p.taken fno then none
      else some ((p.add (View.accepted fno).toConn fno).finish k (accept (p.view k) true) rest)
    | _, _ => none
  | .connect r =>
    match p.stack with
    | .conn k (.connect limit error) :: rest =>
      -- without `CN_FH` the call dies
      if (p.conns k).closed then some (p.finish k (p.view k, [.crash]) rest)
      else some (p.finish k (connect (p.view k) limit error r) rest)
    | _ => none
  | .ret =>
    match p.stack with
    | .conn k f :: rest => (afterCallback p.now (p.view k) f).map fun o => p.finish k o rest
    | _ => none
  | .enter => if p.stack = [] then some { p with stack := [.outside] } else none
  | .leave =>
    match p.stack with
    | .outside :: rest => some { p with stack := rest }
    | _ => none
  | .op k o =>
    if p.inPerl ∧ k < p.made ∧ ((p.conns k).closed = false ∨ o = .close) then
      some (p.finish k (applyOp p.now (p.view k) o) p.stack)
    else none
  | .server fno => if p.inPerl ∧ p.taken fno = false then some (p.ngxeServer fno) else none
  | .client fno timeout =>
    if p.inPerl ∧ p.taken fno = false then some (p.ngxeClient fno timeout) else none

end Process

/-- The steps, case by case, with their guards. -/
inductive PStep : Process → PInput → Process → Prop
  | tick {p} (n : Nat) : PStep p (.tick n) { p with now := p.now + n }
  | select {p} (r w : Nat → Bool) (hstk : p.stack = []) : PStep p (.select r w) (p.select r w)
  | dispatch {p k} (fno : Nat) (hstk : p.stack = []) (hk : p.fdset fno = some k) :
      PStep p (.dispatch fno) (p.finish k (dispatch p.now p.t fno (p.view k)) [])
  | next {p k fno wev rest} (hstk : p.stack = .conn k (.loop fno wev) :: rest) :
      PStep p .next
        (p.finish k (dispatchWrite p.now p.t (p.view k) (p.win fno) (p.wout fno) wev) rest)
  | sysread {p k size total rest} (r : ReadResult)
      (hstk : p.stack = .conn k (.sysread size total) :: rest) (hr : r.answers size total = true) :
      PStep p (.sysread r) (p.finish k (sysread p.now (p.view k) size total r) rest)
  | syswrite {p k i offset rest} (r : WriteResult)
      (hstk : p.stack = .conn k (.syswrite i offset) :: rest)
      (hr : r.answers ((p.view k).element i) offset = true) :
      PStep p (.syswrite r) (p.finish k (syswrite p.now (p.view k) i offset r) rest)
  | refuse {p k rest} (hstk : p.stack = .conn k .accept :: rest) :
      PStep p (.accept none) (p.finish k (accept (p.view k) false) rest)
  | accept {p k rest} (fno : Nat) (hstk : p.stack = .conn k .accept :: rest)
      (hfree : p.taken fno = false) :
      PStep p (.accept (some fno))
        ((p.add (View.accepted fno).toConn fno).finish k (accept (p.view k) true) rest)
  | connectClosed {p k limit error rest} (r : ConnectResult)
      (hstk : p.stack = .conn k (.connect limit error) :: rest)
      (hclosed : (p.conns k).closed = true) :
      PStep p (.connect r) (p.finish k (p.view k, [.crash]) rest)
  | connect {p k limit error rest} (r : ConnectResult)
      (hstk : p.stack = .conn k (.connect limit error) :: rest)
      (hopen : (p.conns k).closed = false) :
      PStep p (.connect r) (p.finish k (connect (p.view k) limit error r) rest)
  | ret {p k f rest o} (hstk : p.stack = .conn k f :: rest)
      (ho : afterCallback p.now (p.view k) f = some o) : PStep p .ret (p.finish k o rest)
  | enter {p} (hstk : p.stack = []) : PStep p .enter { p with stack := [.outside] }
  | leave {p rest} (hstk : p.stack = .outside :: rest) : PStep p .leave { p with stack := rest }
  | op {p k} (o : Op) (hperl : p.inPerl = true) (hk : k < p.made)
      (hopen : (p.conns k).closed = false ∨ o = .close) :
      PStep p (.op k o) (p.finish k (applyOp p.now (p.view k) o) p.stack)
  | server {p} (fno : Nat) (hperl : p.inPerl = true) (hfree : p.taken fno = false) :
      PStep p (.server fno) (p.ngxeServer fno)
  | client {p} (fno : Nat) (timeout : Int) (hperl : p.inPerl = true)
      (hfree : p.taken fno = false) : PStep p (.client fno timeout) (p.ngxeClient fno timeout)

namespace Process

theorem step_cases {p p' : Process} {i : PInput} (h : p.step i = some p') : PStep p i p' := by
  cases i with
  | tick n =>
    simp only [step, Option.some.injEq] at h
    exact h ▸ .tick n
  | select r w =>
    simp only [step, Option.ite_none_right_eq_some, Option.some.injEq] at h
    obtain ⟨hstk, rfl⟩ := h
    exact .select r w hstk
  | dispatch fno =>
    simp only [step] at h
    split at h
    · next k hstk hk =>
      cases h
      exact .dispatch fno hstk hk
    · cases h
  | next =>
    simp only [step] at h
    split at h
    · next hstk =>
      cases h
      exact .next hstk
    · cases h
  | sysread r =>
    simp only [step] at h
    split at h
    · next hstk =>
      rw [Option.ite_none_right_eq_some, Option.some.injEq] at h
      obtain ⟨hr, rfl⟩ := h
      exact .sysread r hstk hr
    · cases h
  | syswrite r =>
    simp only [step] at h
    split at h
    · next hstk =>
      rw [Option.ite_none_right_eq_some, Option.some.injEq] at h
      obtain ⟨hr, rfl⟩ := h
      exact .syswrite r hstk hr
    · cases h
  | accept fno =>
    simp only [step] at h
    split at h
    · next hstk =>
      cases h
      exact .refuse hstk
    · next hstk =>
      split at h
      · cases h
      · next hfree =>
        cases h
        exact .accept _ hstk (by simpa using hfree)
    · cases h
  | connect r =>
    simp only [step] at h
    split at h
    · next hstk =>
      split at h
      · next hclosed =>
        cases h
        exact .connectClosed r hstk hclosed
      · next hopen =>
        cases h
        exact .connect r hstk (by simpa using hopen)
    · cases h
  | ret =>
    simp only [step] at h
    split at h
    · next hstk =>
      rw [Option.map_eq_some_iff] at h
      obtain ⟨o, ho, rfl⟩ := h
      exact .ret hstk ho
    · cases h
  | enter =>
    simp only [step, Option.ite_none_right_eq_some, Option.some.injEq] at h
    obtain ⟨hstk, rfl⟩ := h
    exact .enter hstk
  | leave =>
    simp only [step] at h
    split at h
    · next hstk =>
      cases h
      exact .leave hstk
    · cases h
  | op k o =>
    simp only [step, Option.ite_none_right_eq_some, Option.some.injEq] at h
    obtain ⟨⟨hperl, hk, hopen⟩, rfl⟩ := h
    exact .op o hperl hk hopen
  | server fno =>
    simp only [step, Option.ite_none_right_eq_some, Option.some.injEq] at h
    obtain ⟨⟨hperl, hfree⟩, rfl⟩ := h
    exact .server fno hperl hfree
  | client fno timeout =>
    simp only [step, Option.ite_none_right_eq_some, Option.some.injEq] at h
    obtain ⟨⟨hperl, hfree⟩, rfl⟩ := h
    exact .client fno timeout hperl hfree

end Process

def process : Machine Process PInput := ⟨Process.step⟩

/-- The states of every run of a process, of which each step meets `G`. -/
def Process.Reachable (G : Process → PInput → Prop) (p : Process) : Prop :=
  ∃ now t, process.Reaches G (.init now t) p

/-- The induction rule for what holds throughout the runs of a process. -/
theorem Process.Reachable.invariant {G : Process → PInput → Prop} {I : Process → Prop}
    {p : Process} (h : Reachable G p) (hinit : ∀ now t, I (.init now t))
    (hstep : ∀ p i p', I p → G p i → PStep p i p' → I p') : I p := by
  obtain ⟨now, t, h⟩ := h
  exact h.invariant (hinit now t) fun p i p' hp hG h => hstep p i p' hp hG (step_cases h)

end NginxEngine.PP
