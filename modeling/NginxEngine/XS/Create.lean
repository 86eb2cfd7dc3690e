import NginxEngine.Machine
import NginxEngine.Pool
import NginxEngine.Trace

/-!
# Calls that create a connection or a timer, and fail

`ngxe_server`, `ngxe_client`, `ngxe_timeout_set` and `ngxe_interval_set` take a slot of the
connection array and may fail afterwards, in allocations, in system calls or in the registration
of events. Some of them have called back the program before they clean up, and the program may
have created timers and connections in the callback, also by calls that fail in their turn.

## Main definitions

- `TimerEnv`, `ServerEnv`, `PeerEnv`, `ClientEnv` — which of its steps succeed in a call
- `Creations` — the slots, the calls that are in their error callback, and a log
- `creations` — the machine
- `Intact` — a call that fails gives back what it took, once, and nothing of anyone else's
- `CleanFailure` — a call fails where it has nothing to give back, or cleans up

## Main results

- `failed_calls_intact` — the condition under which failed calls leave the slots intact
- `failed_calls_not_intact` — calls that do not
-/

namespace NginxEngine.XS

/-! ### Slots -/

/-- Who uses a slot. -/
inductive SlotUser
  | nobody
  /-- A call that creates something is in progress. -/
  | call (id : Nat)
  | timer
  | conn
deriving DecidableEq, Repr

/-- A slot of the connection array: its user, whether `c->fd` is not -1, and `c->destroyed`. -/
structure SlotUse where
  user : SlotUser
  fd : Bool
  destroyed : Bool
deriving DecidableEq, Repr

def SlotUse.live (u : SlotUse) : Bool := decide (u.user ≠ .nobody)

/-- What happens to slots, by the number of the taking. -/
inductive CreateAct
  /-- `ngx_get_connection` by a call. -/
  | took (call gen : Nat)
  /-- `ngx_free_connection`, by a call or by others. -/
  | gave (call : Option Nat) (gen : Nat)
  /-- `ngx_close_connection`, by a call or by others. -/
  | closed (call : Option Nat) (gen : Nat)
  /-- A call returns undef. -/
  | undef (call : Nat)
deriving DecidableEq, Repr

/-- A call waits for its error callback. -/
inductive CreateFrame
  /-- In `ngxe_client`: no memory for `peer->name->data`. -/
  | name (call : Nat)
  /-- In `ngxe_client`: `ngx_event_connect_peer` has failed; with `peer->connection`. -/
  | failed (call : Nat) (connection : Option Nat)
  /-- In `ngxe_client`: no memory for the session; with `c`. -/
  | session (call : Nat) (slot : Nat)
deriving DecidableEq, Repr

structure Creations where
  pool : Pool SlotUse
  stack : List CreateFrame
  /-- How many calls were made. -/
  calls : Nat
  log : List CreateAct
  /-- The process has crashed. -/
  dead : Bool
deriving DecidableEq, Repr

namespace Creations

/-- A process with `n` connections. -/
def init (n : Nat) : Creations := ⟨.init n ⟨.nobody, false, false⟩, [], 0, [], false⟩

def observe (w : Creations) (x : CreateAct) : Creations := { w with log := w.log ++ [x] }

/-- `ngx_get_connection`. -/
def ngxGetConnection (w : Creations) (call : Nat) (fd : Bool) : Option (Nat × Creations) :=
  (w.pool.get ⟨.call call, fd, false⟩).map fun r =>
    (r.1, { w with pool := r.2 }.observe (.took call w.pool.next))

/-- The number of the last taking of a slot. -/
def gen (w : Creations) (slot : Nat) : Nat := ((w.pool.lookup slot).map Cell.gen).getD 0

def ngxFreeConnection (w : Creations) (call : Option Nat) (slot : Nat) : Creations :=
  { w with
    pool := (w.pool.modify slot fun u => { u with user := .nobody }).put slot }.observe
      (.gave call (w.gen slot))

def ngxCloseConnection (w : Creations) (call : Option Nat) (slot : Nat) : Creations :=
  match w.pool.lookup slot with
  | some ⟨gen, u⟩ =>
    if u.fd then
      let w := (w.observe (.closed call gen)).ngxFreeConnection call slot
      { w with pool := w.pool.modify slot fun u => { u with fd := false } }
    else w
  | none => w

def ngxeClose (w : Creations) (call : Option Nat) (slot : Nat) : Creations :=
  match w.pool.lookup slot with
  | some ⟨_, u⟩ =>
    if u.destroyed then w
    else
      { w with pool := w.pool.modify slot fun u => { u with destroyed := true }
        }.ngxCloseConnection call slot
  | none => w

/-- What the call has taken is now a timer or a connection of the program. -/
def establish (w : Creations) (slot : Nat) (user : SlotUser) : Creations :=
  { w with pool := w.pool.modify slot fun u => { u with user := user } }

/-- A new call. -/
def begin (w : Creations) : Creations := { w with calls := w.calls + 1 }

/-- `XSRETURN_UNDEF`. -/
def returnUndef (w : Creations) (call : Nat) : Creations := w.observe (.undef call)

def crash (w : Creations) : Creations := { w with dead := true }

/-- Call back with an error. -/
def callback (w : Creations) (f : CreateFrame) : Creations := { w with stack := f :: w.stack }

end Creations

/-! ### The calls -/

/-- Which allocations succeed in `ngxe_timeout_set` and `ngxe_interval_set`. Nobody tests
    `c->pool` and `cb->args`. -/
structure TimerEnv where
  pool : Bool
  interval : Bool
  callback : Bool
  args : Bool
deriving DecidableEq, Repr

/-- Which steps succeed in `ngxe_server`: the address; pool, address and listening structure;
    `socket` to `listen`; `ngx_add_event`; the callback and its cleanup; `cb->args`. -/
structure ServerEnv where
  address : Bool
  listening : Bool
  socket : Bool
  event : Bool
  callback : Bool
  args : Bool
deriving DecidableEq, Repr

/-- What `connect` answers. -/
inductive ConnectAnswer
  | connected
  | inProgress
  | refused
deriving DecidableEq, Repr

/-- Which steps succeed in `ngx_event_connect_peer`: `socket`; the options of the socket and
    `bind`; `ngx_add_conn`, or `ngx_add_event` where the event method has no `ngx_add_conn`. -/
structure PeerEnv where
  addConn : Bool
  socket : Bool
  setup : Bool
  register : Bool
  connect : ConnectAnswer
deriving DecidableEq, Repr

/-- Which steps succeed in `ngxe_client`: the addresses; pool, peer, callback and its cleanup;
    `cb->args`; `peer->name->data`; the connection; the session. -/
structure ClientEnv where
  address : Bool
  alloc : Bool
  args : Bool
  name : Bool
  peer : PeerEnv
  session : Bool
deriving DecidableEq, Repr

/-- What `ngx_event_connect_peer` returns. -/
inductive PeerRc
  | ok
  | again
  | declined
  | error
deriving DecidableEq, Repr

namespace Creations

/-- The body shared by `ngxe_timeout_set` and `ngxe_interval_set`, which differ in the handler
    they install. -/
def setTimer (w : Creations) (e : TimerEnv) : Creations :=
  let call := w.calls
  match w.begin.ngxGetConnection call true with
  | none => w.begin.returnUndef call
  | some (slot, w) =>
    if !e.pool then w.crash
    else if !e.interval then w.returnUndef call
    else if !e.callback then w.returnUndef call
    else if !e.args then w.crash
    else w.establish slot .timer

def ngxeTimeoutSet (w : Creations) (e : TimerEnv) : Creations := w.setTimer e

def ngxeIntervalSet (w : Creations) (e : TimerEnv) : Creations := w.setTimer e

/-- `ngxe_server` with `ngxe_server_create` and `ngx_ngxe_add_listening_connection`. Where
    `ngx_ngxe_open_listening_socket` fails, `ls->fd` stays -1, and `ngx_add_event` fails. -/
def ngxeServer (w : Creations) (e : ServerEnv) : Creations :=
  let call := w.calls
  if !e.address then w.begin.returnUndef call
  else if !e.listening then w.begin.returnUndef call
  else
    match w.begin.ngxGetConnection call e.socket with
    | none => w.begin.returnUndef call
    | some (slot, w) =>
      if !(e.socket && e.event) then w.returnUndef call
      else if !e.callback then w.returnUndef call
      else if !e.args then w.crash
      else w.establish slot .conn

/-- `ngx_event_connect_peer`: what it returns, and `pc->connection`. -/
def ngxEventConnectPeer (w : Creations) (call : Nat) (e : PeerEnv) :
    Creations × PeerRc × Option Nat :=
  if !e.socket then (w, .error, none)
  else
    match w.ngxGetConnection call true with
    | none => (w, .error, none)
    | some (slot, w) =>
      if !e.setup then (w.ngxFreeConnection (some call) slot, .error, none)
      else if e.addConn && !e.register then
        (w.ngxFreeConnection (some call) slot, .error, some slot)
      else if e.connect = .refused then (w, .declined, some slot)
      else if !e.addConn && !e.register then
        (w.ngxFreeConnection (some call) slot, .error, some slot)
      else (w, if e.connect = .inProgress then .again else .ok, some slot)

/-- `ngxe_client` up to its error callback, if there is one. -/
def ngxeClient (w : Creations) (e : ClientEnv) : Creations :=
  let call := w.calls
  if !e.address then w.begin.returnUndef call
  else if !e.alloc then w.begin.returnUndef call
  else if !e.args then w.begin.crash
  else if !e.name then w.begin.callback (.name call)
  else
    match w.begin.ngxEventConnectPeer call e.peer with
    | (w, .error, connection) | (w, .declined, connection) =>
      w.callback (.failed call connection)
    | (w, _, none) => w.callback (.failed call none)
    | (w, _, some slot) =>
      if !e.session then w.callback (.session call slot) else w.establish slot .conn

/-- The error callback of a call returns. -/
def callbackReturn (w : Creations) : CreateFrame → Creations
  | .name call => w.returnUndef call
  | .failed call (some slot) => (w.ngxCloseConnection (some call) slot).returnUndef call
  | .failed call none => w.returnUndef call
  | .session call slot => (w.ngxeClose (some call) slot).returnUndef call

end Creations

inductive CreateInput
  | timeoutSet (e : TimerEnv)
  | intervalSet (e : TimerEnv)
  | server (e : ServerEnv)
  | client (e : ClientEnv)
  /-- The innermost error callback returns. -/
  | ret
  /-- A connection is closed, by the program or by its handlers. -/
  | close (slot : Nat)
  /-- A timer is cleared, or a timeout has fired. -/
  | clear (slot : Nat)
deriving DecidableEq, Repr

namespace Creations

/-- The slot is of the connection that an error callback was given. -/
def shown (w : Creations) (slot : Nat) : Bool :=
  w.stack.any fun f => match f with
    | .session _ slot' => slot' = slot
    | _ => false

def step (w : Creations) (i : CreateInput) : Option Creations :=
  if w.dead then none
  else
    match i with
    | .timeoutSet e => some (w.ngxeTimeoutSet e)
    | .intervalSet e => some (w.ngxeIntervalSet e)
    | .server e => some (w.ngxeServer e)
    | .client e => some (w.ngxeClient e)
    | .ret =>
      match w.stack with
      | f :: rest => some ({ w with stack := rest }.callbackReturn f)
      | [] => none
    | .close slot =>
      match w.pool.lookup slot with
      | some ⟨_, u⟩ =>
        if u.user = .conn ∨ u.live ∧ w.shown slot then some (w.ngxeClose none slot) else none
      | none => none
    | .clear slot =>
      match w.pool.lookup slot with
      | some ⟨_, u⟩ => if u.user = .timer then some (w.ngxFreeConnection none slot) else none
      | none => none

end Creations

def creations : Machine Creations CreateInput := ⟨Creations.step⟩

/-! ### What failed calls leave -/

/-- How often a taking was given back. -/
def given (log : List CreateAct) (gen : Nat) : Nat :=
  log.countP fun x => match x with
    | .gave _ gen' => gen' = gen
    | _ => false

/-- A call frees and closes only what it took itself and still holds. -/
def OwnTaking (past : List CreateAct) : CreateAct → Prop
  | .gave (some call) gen | .closed (some call) gen =>
    .took call gen ∈ past ∧ given past gen = 0
  | _ => True

/-- Whatever a call that returned undef had taken was given back once, no call has freed or
    closed what is not its own, and the free list is sound. -/
structure Intact (w : Creations) : Prop where
  once : ∀ call gen, .undef call ∈ w.log → .took call gen ∈ w.log → given w.log gen = 1
  own : Everywhere OwnTaking w.log
  pool : w.pool.Ok SlotUse.live

/-- `ngx_event_connect_peer` fails after it has set `pc->connection`. -/
def PeerEnv.failsLate (e : PeerEnv) : Bool :=
  e.socket && e.setup && !e.register && (e.addConn || e.connect ≠ .refused)

/-- The calls fail where they hold no slot or give it back: timers find no free slot or get
    their memory; a server fails before it takes a slot, or not at all; a connection is
    registered. A callback leaves alone the connection of a call that is in progress. -/
def CleanFailure (w : Creations) : CreateInput → Prop
  | .timeoutSet e | .intervalSet e => w.pool.free = [] ∨ e.interval ∧ e.callback
  | .server e =>
    !e.address ∨ !e.listening ∨ w.pool.free = [] ∨ e.socket ∧ e.event ∧ e.callback
  | .client e =>
    !e.address ∨ !e.alloc ∨ !e.args ∨ !e.name ∨ w.pool.free = [] ∨ !e.peer.failsLate
  | .close slot => !w.shown slot
  | _ => True

instance (w : Creations) (i : CreateInput) : Decidable (CleanFailure w i) := by
  cases i <;> simp only [CleanFailure] <;> infer_instance

section Given

variable {log : List CreateAct} {x : CreateAct} {gen gen' : Nat}

theorem given_gave_self (call : Option Nat) :
    given (log ++ [.gave call gen]) gen = given log gen + 1 := by
  simp [given]

theorem given_gave_ne (call : Option Nat) (hne : gen' ≠ gen) :
    given (log ++ [.gave call gen']) gen = given log gen := by
  simp [given, hne]

theorem given_other (hx : ∀ call gen, x ≠ .gave call gen) :
    given (log ++ [x]) gen = given log gen := by
  cases x with
  | gave call gen => exact absurd rfl (hx call gen)
  | took => simp [given]
  | closed => simp [given]
  | undef => simp [given]

end Given

namespace CreateFrame

/-- The call that waits. -/
def call : CreateFrame → Nat
  | name call | failed call _ | session call _ => call

/-- The slot the call still holds. -/
def slot : CreateFrame → Option Nat
  | name _ => none
  | failed _ connection => connection
  | session _ slot => some slot

end CreateFrame

/-- A call holds a slot, by its only taking. -/
def Creations.Holds (w : Creations) (call slot : Nat) : Prop :=
  ∃ gen, w.pool.lookup slot = some ⟨gen, ⟨.call call, true, false⟩⟩ ∧ .took call gen ∈ w.log ∧
    ∀ gen', .took call gen' ∈ w.log → gen' = gen

/-- A call holds nothing. -/
def Creations.Clean (w : Creations) (call : Nat) : Prop :=
  ∀ gen, .took call gen ∈ w.log → given w.log gen = 1

def CreateFrame.Ok (w : Creations) (f : CreateFrame) : Prop :=
  match f.slot with
  | some slot => w.Holds f.call slot
  | none => w.Clean f.call

/-- The invariant: what is in use was not given back, and each call that waits holds what its
    frame says. -/
structure LedgerInv (w : Creations) : Prop where
  intact : Intact w
  held : ∀ slot x, w.pool.lookup slot = some x → x.val.live = true → given w.log x.gen = 0
  unused : ∀ gen, w.pool.next ≤ gen → given w.log gen = 0
  taken : ∀ call gen, .took call gen ∈ w.log → call < w.calls ∧ gen < w.pool.next
  ended : ∀ call, .undef call ∈ w.log → call < w.calls
  frames : ∀ f ∈ w.stack, f.Ok w
  waiting : ∀ f ∈ w.stack, f.call < w.calls
  nodup : (w.stack.map CreateFrame.call).Nodup

/-- A call that has done nothing yet. -/
structure Creations.Begun (w : Creations) (call : Nat) : Prop where
  lt : call < w.calls
  took : ∀ gen, .took call gen ∉ w.log
  undef : .undef call ∉ w.log
  waiting : ∀ f ∈ w.stack, f.call ≠ call

/-- No call that waits is the user. -/
def Creations.NoFrames (w : Creations) (user : SlotUser) : Prop :=
  ∀ f ∈ w.stack, user ≠ .call f.call

namespace LedgerInv

open Creations

variable {w w' : Creations} {call slot gen : Nat} {by' : Option Nat} {u : SlotUse}
  {x : CreateAct} {f : CreateFrame}

/-- A frame keeps what it says as long as its own slot and takings stay. -/
theorem frame_of (hf : f.Ok w)
    (hlookup : ∀ slot gen, w.pool.lookup slot = some ⟨gen, ⟨.call f.call, true, false⟩⟩ →
      w'.pool.lookup slot = w.pool.lookup slot)
    (htook : ∀ gen, .took f.call gen ∈ w'.log ↔ .took f.call gen ∈ w.log)
    (hgiven : ∀ gen, given w.log gen = 1 → given w'.log gen = 1) : f.Ok w' := by
  rw [CreateFrame.Ok] at hf ⊢
  cases hs : f.slot with
  | none =>
    rw [hs] at hf
    exact fun gen hgen => hgiven gen (hf gen ((htook gen).mp hgen))
  | some slot =>
    rw [hs] at hf
    obtain ⟨gen, hx, hg, honly⟩ := hf
    exact ⟨gen, (hlookup slot gen hx).trans hx, (htook gen).mpr hg,
      fun gen' hg' => honly gen' ((htook gen').mp hg')⟩

theorem begin (h : LedgerInv w) : LedgerInv w.begin where
  intact := ⟨h.intact.once, h.intact.own, h.intact.pool⟩
  held := h.held
  unused := h.unused
  taken call gen hx := ⟨Nat.lt_succ_of_lt (h.taken call gen hx).1, (h.taken call gen hx).2⟩
  ended call hx := Nat.lt_succ_of_lt (h.ended call hx)
  frames := h.frames
  waiting f hf := Nat.lt_succ_of_lt (h.waiting f hf)
  nodup := h.nodup

theorem begun (h : LedgerInv w) : w.begin.Begun w.calls where
  lt := Nat.lt_succ_self _
  took gen hx := Nat.lt_irrefl _ (h.taken _ gen hx).1
  undef hx := Nat.lt_irrefl _ (h.ended _ hx)
  waiting f hf he := Nat.lt_irrefl _ (he ▸ h.waiting f hf)

/-- An entry of the log that moves no slot. -/
theorem observe (h : LedgerInv w) (hgave : ∀ call gen, x ≠ .gave call gen)
    (htook : ∀ call gen, x ≠ .took call gen) (hown : OwnTaking w.log x)
    (hundef : ∀ call, x = .undef call → call < w.calls ∧ w.Clean call) :
    LedgerInv (w.observe x) := by
  have hgiven : ∀ gen, given (w.log ++ [x]) gen = given w.log gen := fun _ => given_other hgave
  have htook' : ∀ call gen, .took call gen ∈ w.log ++ [x] ↔ .took call gen ∈ w.log := by
    intro call gen
    simp [(htook call gen).symm]
  refine ⟨⟨?_, h.intact.own.append hown, h.intact.pool⟩, ?_, ?_, ?_, ?_, ?_, h.waiting, h.nodup⟩
  · intro call gen hu ht
    have ht := (htook' call gen).mp ht
    refine (hgiven gen).trans ?_
    rcases List.mem_append.mp hu with hu | hu
    · exact h.intact.once call gen hu ht
    · exact (hundef call (List.mem_singleton.mp hu).symm).2 gen ht
  · exact fun slot y hy hl => (hgiven y.gen).trans (h.held slot y hy hl)
  · exact fun gen hgen => (hgiven gen).trans (h.unused gen hgen)
  · exact fun call gen hx => h.taken call gen ((htook' call gen).mp hx)
  · intro call hu
    rcases List.mem_append.mp hu with hu | hu
    · exact h.ended call hu
    · exact (hundef call (List.mem_singleton.mp hu).symm).1
  · exact fun f hf => frame_of (h.frames f hf) (fun _ _ _ => rfl) (htook' f.call)
      fun gen hg => (hgiven gen).trans hg

theorem returnUndef (h : LedgerInv w) (hlt : call < w.calls) (hc : w.Clean call) :
    LedgerInv (w.returnUndef call) :=
  h.observe (fun _ _ => nofun) (fun _ _ => nofun) trivial fun call' he => by
    cases he
    exact ⟨hlt, hc⟩

theorem push (h : LedgerInv w) (hf : f.Ok w) (hlt : f.call < w.calls)
    (hne : ∀ f' ∈ w.stack, f'.call ≠ f.call) : LedgerInv (w.callback f) where
  intact := ⟨h.intact.once, h.intact.own, h.intact.pool⟩
  held := h.held
  unused := h.unused
  taken := h.taken
  ended := h.ended
  frames := List.forall_mem_cons.mpr ⟨hf, h.frames⟩
  waiting := List.forall_mem_cons.mpr ⟨hlt, h.waiting⟩
  nodup := by
    refine List.nodup_cons.mpr ⟨fun hm => ?_, h.nodup⟩
    obtain ⟨f', hf', he⟩ := List.mem_map.mp hm
    exact hne f' hf' he

theorem pop {rest : List CreateFrame} (h : LedgerInv w) (hstk : w.stack = f :: rest) :
    LedgerInv { w with stack := rest } ∧ f.Ok { w with stack := rest } ∧ f.call < w.calls ∧
      ∀ f' ∈ rest, f'.call ≠ f.call := by
  have hmem : ∀ f' ∈ rest, f' ∈ w.stack := fun f' hf' => hstk ▸ List.mem_cons_of_mem f hf'
  have hf : f ∈ w.stack := hstk ▸ List.mem_cons_self
  have hnd := h.nodup
  rw [hstk, List.map_cons, List.nodup_cons] at hnd
  refine ⟨⟨⟨h.intact.once, h.intact.own, h.intact.pool⟩, h.held, h.unused, h.taken, h.ended,
    fun f' hf' => h.frames f' (hmem f' hf'), fun f' hf' => h.waiting f' (hmem f' hf'), hnd.2⟩,
    h.frames f hf, h.waiting f hf, fun f' hf' he => hnd.1 ?_⟩
  exact he ▸ List.mem_map_of_mem hf'

/-- A cell that no waiting call uses may be changed, as long as it stays in use or unused. -/
theorem modify {g : SlotUse → SlotUse} (h : LedgerInv w)
    (hx : w.pool.lookup slot = some ⟨gen, u⟩) (hlive : (g u).live = u.live)
    (hno : w.NoFrames u.user) : LedgerInv { w with pool := w.pool.modify slot g } := by
  have hlive' : ∀ y, w.pool.lookup slot = some y → (g y.val).live = y.val.live := by
    intro y hy
    rw [hx, Option.some.injEq] at hy
    exact hy ▸ hlive
  refine ⟨⟨h.intact.once, h.intact.own, h.intact.pool.modify fun y hy hl => ?_⟩, ?_, h.unused,
    h.taken, h.ended, ?_, h.waiting, h.nodup⟩
  · exact hlive' y hy ▸ hl
  · intro slot' y hy hl
    obtain ⟨z, hz, hgen, hval⟩ := Pool.lookup_modify hy
    rw [hgen]
    refine h.held slot' z hz ?_
    by_cases hs : slot = slot'
    · subst hs
      rw [hval, if_pos rfl] at hl
      exact hlive' z hz ▸ hl
    · rw [hval, if_neg hs] at hl
      exact hl
  · refine fun f hf => frame_of (h.frames f hf) (fun slot' gen' hy => ?_) (fun _ => Iff.rfl)
      fun _ hg => hg
    refine Pool.lookup_modify_ne fun hs => ?_
    subst hs
    rw [hx, Option.some.injEq] at hy
    cases hy
    exact hno f hf rfl

theorem log_free (hx : w.pool.lookup slot = some ⟨gen, u⟩) :
    (w.ngxFreeConnection by' slot).log = w.log ++ [.gave by' gen] := by
  simp [ngxFreeConnection, Creations.observe, Creations.gen, hx]

/-- `ngx_free_connection` of a slot in use by no waiting call. -/
theorem free (h : LedgerInv w) (hx : w.pool.lookup slot = some ⟨gen, u⟩) (hl : u.live = true)
    (hown : ∀ call, by' = some call → .took call gen ∈ w.log) (hno : w.NoFrames u.user) :
    LedgerInv (w.ngxFreeConnection by' slot) := by
  have hzero : given w.log gen = 0 := h.held slot _ hx hl
  have hlog : (w.ngxFreeConnection by' slot).log = w.log ++ [.gave by' gen] := log_free hx
  have hgiven : ∀ gen', given w.log gen' = 1 →
      given (w.ngxFreeConnection by' slot).log gen' = 1 := by
    intro gen' hg
    have hne : gen ≠ gen' := fun he => by rw [← he, hzero] at hg; cases hg
    rw [hlog, given_gave_ne by' hne, hg]
  have htook : ∀ call gen', .took call gen' ∈ (w.ngxFreeConnection by' slot).log ↔
      .took call gen' ∈ w.log := by
    intro call gen'
    rw [hlog]
    simp
  have hundef : ∀ call, .undef call ∈ (w.ngxFreeConnection by' slot).log →
      .undef call ∈ w.log := by
    intro call hu
    rw [hlog] at hu
    simpa using hu
  refine ⟨⟨fun call gen' hu ht => ?_, ?_, ?_⟩, ?_, ?_, ?_, ?_, ?_, h.waiting, h.nodup⟩
  · exact hgiven gen' (h.intact.once call gen' (hundef call hu) ((htook call gen').mp ht))
  · rw [hlog]
    refine h.intact.own.append ?_
    cases by' with
    | none => trivial
    | some call => exact ⟨hown call rfl, hzero⟩
  · exact h.intact.pool.release hx hl rfl
  · intro slot' y hy hly
    obtain ⟨z, hz, hgz, hval⟩ := Pool.lookup_modify (Pool.lookup_put.symm.trans hy)
    by_cases hs : slot = slot'
    · rw [hval, if_pos hs] at hly
      cases hly
    · rw [hval, if_neg hs] at hly
      have hne : gen ≠ y.gen := fun he =>
        hs (h.intact.pool.unique slot slot' _ z hx hz (he.trans hgz))
      rw [hlog, given_gave_ne by' hne, hgz]
      exact h.held slot' z hz hly
  · intro gen' hgen'
    have hne : gen ≠ gen' := fun he =>
      absurd (h.intact.pool.fresh slot _ hx) (Nat.not_lt.mpr (he ▸ hgen'))
    rw [hlog, given_gave_ne by' hne]
    exact h.unused gen' hgen'
  · exact fun call gen' ht => h.taken call gen' ((htook call gen').mp ht)
  · exact fun call hu => h.ended call (hundef call hu)
  · refine fun f hf => frame_of (h.frames f hf) (fun slot' gen' hy => ?_) (htook f.call) hgiven
    refine Pool.lookup_put.trans (Pool.lookup_modify_ne fun hs => ?_)
    subst hs
    rw [hx, Option.some.injEq] at hy
    cases hy
    exact hno f hf rfl

/-- A call that has freed its only taking holds nothing. -/
theorem clean_free (h : LedgerInv w) (hx : w.pool.lookup slot = some ⟨gen, u⟩)
    (hl : u.live = true) (honly : ∀ gen', .took call gen' ∈ w.log → gen' = gen) :
    (w.ngxFreeConnection by' slot).Clean call := by
  intro gen' ht
  have hzero : given w.log gen = 0 := h.held slot _ hx hl
  rw [log_free hx] at ht ⊢
  obtain rfl : gen' = gen := honly gen' (by simpa using ht)
  rw [given_gave_self, hzero]

theorem close_eq (hx : w.pool.lookup slot = some ⟨gen, u⟩) (hfd : u.fd = true) :
    w.ngxCloseConnection by' slot =
      { (w.observe (.closed by' gen)).ngxFreeConnection by' slot with
        pool := ((w.observe (.closed by' gen)).ngxFreeConnection by' slot).pool.modify slot
          fun u => { u with fd := false } } := by
  simp only [ngxCloseConnection, hx, hfd, if_true]

theorem log_close (hx : w.pool.lookup slot = some ⟨gen, u⟩) (hfd : u.fd = true) :
    (w.ngxCloseConnection by' slot).log = w.log ++ [.closed by' gen] ++ [.gave by' gen] := by
  rw [close_eq hx hfd]
  exact log_free (w := w.observe (.closed by' gen)) hx

/-- `ngx_close_connection` of a slot in use by no waiting call. -/
theorem close (h : LedgerInv w) (hx : w.pool.lookup slot = some ⟨gen, u⟩) (hl : u.live = true)
    (hown : ∀ call, by' = some call → .took call gen ∈ w.log) (hno : w.NoFrames u.user) :
    LedgerInv (w.ngxCloseConnection by' slot) := by
  by_cases hfd : u.fd = true
  · have hzero : given w.log gen = 0 := h.held slot _ hx hl
    have hc : LedgerInv (w.observe (.closed by' gen)) := by
      refine h.observe (fun _ _ => nofun) (fun _ _ => nofun) ?_ fun _ => nofun
      cases by' with
      | none => trivial
      | some call => exact ⟨hown call rfl, hzero⟩
    have hf : LedgerInv ((w.observe (.closed by' gen)).ngxFreeConnection by' slot) :=
      hc.free hx hl (fun call he => List.mem_append_left _ (hown call he)) hno
    have hself : ((w.observe (.closed by' gen)).ngxFreeConnection by' slot).pool.lookup slot =
        some ⟨gen, { u with user := .nobody }⟩ := by
      refine Pool.lookup_put.trans (Pool.lookup_modify_self.trans ?_)
      exact congrArg (Option.map _) hx
    rw [close_eq hx hfd]
    exact hf.modify hself rfl fun _ _ => nofun
  · simp only [ngxCloseConnection, hx, if_neg hfd]
    exact h

/-- `ngxe_close` of a slot in use by no waiting call. -/
theorem ngxeClose (h : LedgerInv w) (hx : w.pool.lookup slot = some ⟨gen, u⟩)
    (hl : u.live = true) (hown : ∀ call, by' = some call → .took call gen ∈ w.log)
    (hno : w.NoFrames u.user) : LedgerInv (w.ngxeClose by' slot) := by
  simp only [Creations.ngxeClose, hx]
  split
  · exact h
  · have hx' : (w.pool.modify slot fun u => { u with destroyed := true }).lookup slot =
        some ⟨gen, { u with destroyed := true }⟩ :=
      Pool.lookup_modify_self.trans (congrArg (Option.map _) hx)
    exact (h.modify hx rfl hno).close hx' hl hown hno

/-- `ngx_get_connection` by a call that has taken nothing yet. -/
theorem get {fd : Bool} (h : LedgerInv w) (hb : w.Begun call)
    (hg : w.ngxGetConnection call fd = some (slot, w')) :
    LedgerInv w' ∧ w'.pool.lookup slot = some ⟨w.pool.next, ⟨.call call, fd, false⟩⟩ ∧
      (∀ gen, .took call gen ∈ w'.log ↔ gen = w.pool.next) ∧ w'.stack = w.stack ∧
        w'.calls = w.calls := by
  obtain ⟨⟨i, q⟩, hq, he⟩ := Option.map_eq_some_iff.mp hg
  cases he
  have hfree : i ∈ w.pool.free := Pool.mem_free_of_get hq
  have hself := Pool.lookup_get_self hq (h.intact.pool.range i hfree)
  have hnext : q.next = w.pool.next + 1 := Pool.next_get hq
  have hgiven : ∀ gen, given (w.log ++ [.took call w.pool.next]) gen = given w.log gen :=
    fun _ => given_other fun _ _ => nofun
  have htook : ∀ call' gen, .took call' gen ∈ w.log ++ [.took call w.pool.next] →
      .took call' gen ∈ w.log ∨ call' = call ∧ gen = w.pool.next := by
    intro call' gen ht
    rcases List.mem_append.mp ht with ht | ht
    · exact .inl ht
    · cases List.mem_singleton.mp ht
      exact .inr ⟨rfl, rfl⟩
  have hundef : ∀ call', .undef call' ∈ w.log ++ [.took call w.pool.next] →
      .undef call' ∈ w.log := by
    intro call' hu
    simpa using hu
  refine ⟨⟨⟨fun call' gen hu ht => ?_, h.intact.own.append trivial, h.intact.pool.get hq⟩, ?_,
    ?_, ?_, fun call' hu => h.ended call' (hundef call' hu), ?_, h.waiting, h.nodup⟩, hself,
    fun gen => ⟨fun ht => ?_, fun he => ?_⟩, rfl, rfl⟩
  · rcases htook call' gen ht with ht | ⟨rfl, rfl⟩
    · exact (hgiven gen).trans (h.intact.once call' gen (hundef call' hu) ht)
    · exact absurd (hundef _ hu) hb.undef
  · intro slot' y hy hl
    refine (hgiven y.gen).trans ?_
    by_cases hs : i = slot'
    · subst hs
      obtain rfl := Option.some.inj (hself.symm.trans hy)
      exact h.unused _ (Nat.le_refl _)
    · exact h.held slot' y ((Pool.lookup_get_ne hq hs).symm.trans hy) hl
  · intro gen hgen
    refine (hgiven gen).trans (h.unused gen ?_)
    have hgen : q.next ≤ gen := hgen
    omega
  · intro call' gen ht
    have hn : ∀ gen, gen < w.pool.next + 1 → gen < q.next := fun _ hlt => hnext ▸ hlt
    rcases htook call' gen ht with ht | ⟨rfl, rfl⟩
    · exact ⟨(h.taken call' gen ht).1, hn gen (Nat.lt_succ_of_lt (h.taken call' gen ht).2)⟩
    · exact ⟨hb.lt, hn _ (Nat.lt_succ_self _)⟩
  · refine fun f hf => frame_of (h.frames f hf) (fun slot' gen hy => ?_) (fun gen => ?_)
      fun gen hg => (hgiven gen).trans hg
    · refine Pool.lookup_get_ne hq fun hs => ?_
      exact h.intact.pool.held slot' _ hy rfl (hs ▸ hfree)
    · refine ⟨fun ht => ?_, fun ht => List.mem_append_left _ ht⟩
      rcases htook f.call gen ht with ht | ⟨hc, -⟩
      · exact ht
      · exact absurd hc (hb.waiting f hf)
  · rcases htook call gen ht with ht | ⟨-, he⟩
    · exact absurd ht (hb.took gen)
    · exact he
  · exact List.mem_append_right _ (he ▸ List.mem_singleton_self _)

theorem free_ne_nil {fd : Bool} (hg : w.ngxGetConnection call fd = some (slot, w')) :
    w.pool.free ≠ [] := by
  obtain ⟨r, hr, -⟩ := Option.map_eq_some_iff.mp hg
  exact List.ne_nil_of_mem (Pool.mem_free_of_get hr)

theorem crash (h : LedgerInv w) : LedgerInv w.crash :=
  ⟨⟨h.intact.once, h.intact.own, h.intact.pool⟩, h.held, h.unused, h.taken, h.ended, h.frames,
    h.waiting, h.nodup⟩

theorem establish {fd : Bool} {user : SlotUser} (h : LedgerInv w)
    (hx : w.pool.lookup slot = some ⟨gen, ⟨.call call, fd, false⟩⟩) (huser : user ≠ .nobody)
    (hne : ∀ f ∈ w.stack, f.call ≠ call) : LedgerInv (w.establish slot user) := by
  refine h.modify hx ?_ fun f hf he => ?_
  · simp [SlotUse.live, huser]
  · cases he
    exact hne f hf rfl

/-- A call that has taken nothing returns undef. -/
theorem nothing (h : LedgerInv w) : LedgerInv (w.begin.returnUndef w.calls) :=
  h.begin.returnUndef h.begun.lt fun gen ht => absurd ht (h.begun.took gen)

theorem setTimer (h : LedgerInv w) (e : TimerEnv)
    (hc : w.pool.free = [] ∨ e.interval ∧ e.callback) : LedgerInv (w.setTimer e) := by
  simp only [Creations.setTimer]
  cases hg : w.begin.ngxGetConnection w.calls true with
  | none => exact h.nothing
  | some r =>
    obtain ⟨slot, w'⟩ := r
    obtain ⟨hw, hx, -, hstk, -⟩ := h.begin.get h.begun hg
    have hmem : e.interval ∧ e.callback := hc.resolve_left (free_ne_nil (w := w.begin) hg)
    simp only [hmem.1, hmem.2, Bool.not_true, Bool.false_eq_true, if_false]
    split
    · exact hw.crash
    split
    · exact hw.crash
    · exact hw.establish hx nofun (hstk ▸ h.begun.waiting)

theorem ngxeServer (h : LedgerInv w) (e : ServerEnv)
    (hc : !e.address ∨ !e.listening ∨ w.pool.free = [] ∨ e.socket ∧ e.event ∧ e.callback) :
    LedgerInv (w.ngxeServer e) := by
  simp only [Creations.ngxeServer]
  split
  · exact h.nothing
  split
  · exact h.nothing
  next haddr hlisten =>
  cases hg : w.begin.ngxGetConnection w.calls e.socket with
  | none => exact h.nothing
  | some r =>
    obtain ⟨slot, w'⟩ := r
    obtain ⟨hw, hx, -, hstk, -⟩ := h.begin.get h.begun hg
    have hall : e.socket ∧ e.event ∧ e.callback :=
      ((hc.resolve_left haddr).resolve_left hlisten).resolve_left (free_ne_nil (w := w.begin) hg)
    simp only [hall.1, hall.2.1, hall.2.2, Bool.and_self, Bool.not_true, Bool.false_eq_true,
      if_false]
    split
    · exact hw.crash
    · exact hw.establish hx nofun (hstk ▸ h.begun.waiting)

/-- Once `ngx_event_connect_peer` has its slot ready and does not fail late, the slot is in
    `pc->connection`. -/
theorem connectPeer_eq {e : PeerEnv} (hsock : e.socket = true) (hsetup : e.setup = true)
    (hlate : e.failsLate = false) (hg : w.ngxGetConnection call true = some (slot, w')) :
    ∃ rc, w.ngxEventConnectPeer call e = (w', rc, some slot) := by
  simp only [PeerEnv.failsLate, hsock, hsetup, Bool.true_and, Bool.and_eq_false_iff,
    Bool.not_eq_false', Bool.or_eq_false_iff, decide_eq_false_iff_not, not_not] at hlate
  rcases hlate with hreg | ⟨hadd, href⟩
  · by_cases href : e.connect = .refused
    · exact ⟨.declined, by simp [ngxEventConnectPeer, hsock, hg, hsetup, hreg, href]⟩
    · exact ⟨_, by simp [ngxEventConnectPeer, hsock, hg, hsetup, hreg, href]; rfl⟩
  · exact ⟨.declined, by simp [ngxEventConnectPeer, hsock, hg, hsetup, hadd, href]⟩

theorem took_of_some (ht : .took call gen ∈ w.log) :
    ∀ call', some call = some call' → .took call' gen ∈ w.log :=
  fun _ he => Option.some.inj he ▸ ht

/-- What `ngx_event_connect_peer` leaves, unless it fails late: the slot, held, in
    `pc->connection`, or nothing. -/
theorem connectPeer (h : LedgerInv w) (hb : w.Begun call) (e : PeerEnv)
    (hc : w.pool.free = [] ∨ !e.failsLate) :
    let o := w.ngxEventConnectPeer call e
    LedgerInv o.1 ∧ (CreateFrame.failed call o.2.2).Ok o.1 ∧ o.1.stack = w.stack ∧
      o.1.calls = w.calls := by
  have hclean : (CreateFrame.failed call none).Ok w := fun gen ht => absurd ht (hb.took gen)
  intro o
  cases hsock : e.socket with
  | false =>
    have ho : o = (w, .error, none) := by simp [o, ngxEventConnectPeer, hsock]
    rw [ho]
    exact ⟨h, hclean, rfl, rfl⟩
  | true =>
    cases hg : w.ngxGetConnection call true with
    | none =>
      have ho : o = (w, .error, none) := by simp [o, ngxEventConnectPeer, hsock, hg]
      rw [ho]
      exact ⟨h, hclean, rfl, rfl⟩
    | some r =>
      obtain ⟨slot, w'⟩ := r
      obtain ⟨hw, hx, htook, hstk, hcalls⟩ := h.get hb hg
      have hlate : e.failsLate = false := by simpa using hc.resolve_left (free_ne_nil hg)
      have hholds : w'.Holds call slot :=
        ⟨w.pool.next, hx, (htook _).mpr rfl, fun gen' ht => (htook gen').mp ht⟩
      cases hsetup : e.setup with
      | false =>
        have ho : o = (w'.ngxFreeConnection (some call) slot, .error, none) := by
          simp [o, ngxEventConnectPeer, hsock, hg, hsetup]
        rw [ho]
        refine ⟨hw.free hx rfl (took_of_some ((htook _).mpr rfl)) fun f hf he => ?_,
          hw.clean_free hx rfl fun gen' ht => (htook gen').mp ht, hstk, hcalls⟩
        cases he
        exact hb.waiting f (hstk ▸ hf) rfl
      | true =>
        obtain ⟨rc, ho⟩ := connectPeer_eq hsock hsetup hlate hg
        have ho : o = (w', rc, some slot) := ho
        rw [ho]
        exact ⟨hw, hholds, hstk, hcalls⟩

theorem ngxeClient (h : LedgerInv w) (e : ClientEnv)
    (hc : !e.address ∨ !e.alloc ∨ !e.args ∨ !e.name ∨ w.pool.free = [] ∨ !e.peer.failsLate) :
    LedgerInv (w.ngxeClient e) := by
  have hb := h.begun
  simp only [Creations.ngxeClient]
  split
  · exact h.nothing
  split
  · exact h.nothing
  split
  · exact h.begin.crash
  split
  · have hf : (CreateFrame.name w.calls).Ok w.begin := fun gen ht => absurd ht (hb.took gen)
    exact h.begin.push hf hb.lt hb.waiting
  next haddr halloc hargs hname =>
  have hpeer := (((hc.resolve_left haddr).resolve_left halloc).resolve_left hargs).resolve_left
    hname
  obtain ⟨hw, hf, hstk, hcalls⟩ := h.begin.connectPeer hb e.peer hpeer
  generalize w.begin.ngxEventConnectPeer w.calls e.peer = o at hw hf hstk hcalls ⊢
  obtain ⟨w', rc, connection⟩ := o
  have hlt : w.calls < w'.calls := hcalls ▸ hb.lt
  have hne : ∀ f ∈ w'.stack, f.call ≠ w.calls := hstk ▸ hb.waiting
  cases rc with
  | error => exact hw.push hf hlt hne
  | declined => exact hw.push hf hlt hne
  | ok | again =>
    cases connection with
    | none => exact hw.push hf hlt hne
    | some slot =>
      show LedgerInv (if !e.session then _ else _)
      split
      · exact hw.push (f := .session w.calls slot) hf hlt hne
      · obtain ⟨gen, hx, -⟩ := hf
        exact hw.establish hx nofun hne

theorem calls_ngxCloseConnection : (w.ngxCloseConnection by' slot).calls = w.calls := by
  rw [ngxCloseConnection]
  split
  · split <;> rfl
  · rfl

/-- A call that has closed its only taking holds nothing. -/
theorem clean_close (h : LedgerInv w) (hx : w.pool.lookup slot = some ⟨gen, u⟩)
    (hl : u.live = true) (hfd : u.fd = true)
    (honly : ∀ gen', .took call gen' ∈ w.log → gen' = gen) :
    (w.ngxCloseConnection by' slot).Clean call := by
  intro gen' ht
  have hzero : given w.log gen = 0 := h.held slot _ hx hl
  rw [log_close hx hfd] at ht ⊢
  obtain rfl : gen' = gen := honly gen' (by simpa using ht)
  rw [given_gave_self, given_other (x := .closed by' gen') fun _ _ => nofun, hzero]

theorem calls_ngxeClose : (w.ngxeClose by' slot).calls = w.calls := by
  rw [Creations.ngxeClose]
  split
  · split
    · rfl
    · exact calls_ngxCloseConnection
  · rfl

theorem callbackReturn (h : LedgerInv w) (hf : f.Ok w) (hlt : f.call < w.calls)
    (hne : ∀ f' ∈ w.stack, f'.call ≠ f.call) : LedgerInv (w.callbackReturn f) := by
  have hno : w.NoFrames (.call f.call) := fun f' hf' he =>
    hne f' hf' (SlotUser.call.inj he).symm
  cases f with
  | name call => exact h.returnUndef hlt hf
  | failed call connection =>
    cases connection with
    | none => exact h.returnUndef hlt hf
    | some slot =>
      obtain ⟨gen, hx, hgen, honly⟩ := hf
      exact (h.close hx rfl (took_of_some hgen) hno).returnUndef
        (Nat.lt_of_lt_of_eq hlt calls_ngxCloseConnection.symm) (h.clean_close hx rfl rfl honly)
  | session call slot =>
    obtain ⟨gen, hx, hgen, honly⟩ := hf
    refine (h.ngxeClose hx rfl (took_of_some hgen) hno).returnUndef
      (Nat.lt_of_lt_of_eq hlt calls_ngxeClose.symm) ?_
    have hx' : (w.pool.modify slot fun u => { u with destroyed := true }).lookup slot =
        some ⟨gen, ⟨.call call, true, true⟩⟩ :=
      Pool.lookup_modify_self.trans (congrArg (Option.map _) hx)
    simp only [Creations.ngxeClose, hx, Bool.false_eq_true, if_false]
    exact (h.modify hx rfl hno).clean_close hx' rfl rfl honly

theorem init (n : Nat) : LedgerInv (Creations.init n) where
  intact := ⟨fun _ _ => nofun, everywhere_nil, Pool.ok_init n rfl⟩
  held _ _ _ _ := rfl
  unused _ _ := rfl
  taken _ _ := nofun
  ended _ := nofun
  frames _ := nofun
  waiting _ := nofun
  nodup := .nil

theorem step {i : CreateInput} (h : LedgerInv w) (hG : CleanFailure w i)
    (hs : w.step i = some w') : LedgerInv w' := by
  have hno : ∀ user, (∀ call, user ≠ .call call) → w.NoFrames user := fun _ hu f _ => hu f.call
  simp only [Creations.step, Option.ite_none_left_eq_some] at hs
  obtain ⟨-, hs⟩ := hs
  cases i with
  | timeoutSet e =>
    cases hs
    exact h.setTimer e hG
  | intervalSet e =>
    cases hs
    exact h.setTimer e hG
  | server e =>
    cases hs
    exact h.ngxeServer e hG
  | client e =>
    cases hs
    exact h.ngxeClient e hG
  | ret =>
    simp only at hs
    split at hs
    · next f rest hstk =>
      cases hs
      obtain ⟨hw, hf, hlt, hne⟩ := h.pop hstk
      exact hw.callbackReturn hf hlt hne
    · cases hs
  | close slot =>
    simp only at hs
    split at hs
    · next gen u hx =>
      simp only [Option.ite_none_right_eq_some] at hs
      obtain ⟨huse, hs⟩ := hs
      have huser : u.user = .conn := huse.resolve_right fun hshown => by
        have hG : (!w.shown slot) = true := hG
        rw [hshown.2] at hG
        cases hG
      cases hs
      exact h.ngxeClose hx (by simp [SlotUse.live, huser]) (fun _ => nofun)
        (hno u.user (by simp [huser]))
    · cases hs
  | clear slot =>
    simp only at hs
    split at hs
    · next gen u hx =>
      simp only [Option.ite_none_right_eq_some] at hs
      obtain ⟨huser, hs⟩ := hs
      cases hs
      exact h.free hx (by simp [SlotUse.live, huser]) (fun _ => nofun)
        (hno u.user (by simp [huser]))
    · cases hs

end LedgerInv

/-- In every run all of whose calls fail, if they fail, where they hold no slot or clean up,
    every call that returned undef has given back once what it took, and no call has freed or
    closed a slot of anyone else. -/
theorem failed_calls_intact (n : Nat) (w : Creations)
    (h : creations.Reaches CleanFailure (.init n) w) : Intact w :=
  (h.invariant (LedgerInv.init n) fun _ _ _ hI hG hs => hI.step hG hs).intact

/-- A client is refused; in its error callback the program sets a timer and tries again with
    another address, to be refused again, and clears the timer in the second callback. All
    slots are free in the end. -/
theorem failed_calls_intact_refused : ∃ w,
    creations.Reaches CleanFailure (.init 3) w ∧ Intact w ∧
      w.log.count (.undef 0) = 1 ∧ w.log.count (.undef 2) = 1 ∧ w.pool.free.length = 3 := by
  obtain ⟨w, hr, hw⟩ := Machine.Reaches.of_run_map (M := creations) (G := CleanFailure)
    (s := .init 3) (fun w => (w.log.count (.undef 0), w.log.count (.undef 2), w.pool.free.length))
    [.client ⟨true, true, true, true, ⟨true, true, true, true, .refused⟩, true⟩,
      .timeoutSet ⟨true, true, true, true⟩,
      .client ⟨true, true, true, true, ⟨true, true, true, true, .refused⟩, true⟩, .clear 1,
      .ret, .ret] (show _ = some (1, 1, 3) by decide)
  simp only [Prod.mk.injEq] at hw
  exact ⟨w, hr, failed_calls_intact 3 w hr, hw⟩

/-- `ngxe_server` on a port that is in use returns undef and keeps the slot it took. Where the
    registration of a client's events fails, the slot is given back before the error callback:
    the timer that the callback sets takes it, and is closed by the call. -/
theorem failed_calls_not_intact :
    (∃ w, creations.Reaches Machine.always (.init 2) w ∧
      .undef 0 ∈ w.log ∧ .took 0 2 ∈ w.log ∧ given w.log 2 = 0 ∧ ¬ Intact w) ∧
    ∃ w, creations.Reaches Machine.always (.init 2) w ∧
      .took 1 3 ∈ w.log ∧ .undef 0 ∈ w.log ∧ .closed (some 0) 3 ∈ w.log ∧ ¬ Intact w := by
  constructor
  · obtain ⟨w, hr, hlog⟩ := Machine.Reaches.of_run_map (M := creations) (G := Machine.always)
      (s := .init 2) (fun w => w.log) [.server ⟨true, true, false, false, true, true⟩]
      (show _ = some [.took 0 2, .undef 0] by decide)
    have hu : .undef 0 ∈ w.log := by simp [hlog]
    have ht : .took 0 2 ∈ w.log := by simp [hlog]
    have hg : given w.log 2 = 0 := by simp [hlog, given]
    refine ⟨w, hr, hu, ht, hg, fun h => ?_⟩
    have := h.once 0 2 hu ht
    omega
  · obtain ⟨w, hr, hlog⟩ := Machine.Reaches.of_run_map (M := creations) (G := Machine.always)
      (s := .init 2) (fun w => w.log)
      [.client ⟨true, true, true, true, ⟨true, true, true, false, .connected⟩, true⟩,
        .timeoutSet ⟨true, true, true, true⟩, .ret]
      (show _ = some [.took 0 2, .gave (some 0) 2, .took 1 3, .closed (some 0) 3,
        .gave (some 0) 3, .undef 0] by decide)
    refine ⟨w, hr, by simp [hlog], by simp [hlog], by simp [hlog], fun h => ?_⟩
    have hown : OwnTaking [.took 0 2, .gave (some 0) 2, .took 1 3] (.closed (some 0) 3) :=
      h.own _ _ [.gave (some 0) 3, .undef 0] hlog
    exact absurd hown.1 (by decide)

end NginxEngine.XS
