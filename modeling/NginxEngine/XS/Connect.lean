import NginxEngine.Trace
import NginxEngine.XS.Released

/-!
# The connect callback

A connection that `ngxe_client` made waits with `ngxe_client_init_handler` behind both of
its events and the connect timer on the write event. The outcome of the non-blocking
connect is a fact about the socket: the event method reports it as readiness, and a failed
connect is no different there from one that succeeded. `Attempt` keeps what the connection
cannot see.

## Main definitions

- `Attempt` — what has become of the connect
- `client` — the machine of a client connection and its connect
- `ConnectOk` — one call of the connect callback, with an error exactly after a failure
- `ConnectSafe` — no readiness of a failed connect, and nothing calls the record again

## Main results

- `Waiting.misreports` — a readiness of a failed connect always breaks `ConnectOk`
- `connect_reported` — the callback tells the truth in every run of safe steps
- `failure_taken_for_success` — the readiness of a failed connect is reported as success
-/

namespace NginxEngine.XS

variable {cfg : Config} {ok : Bool} {c : Conn} {cb : Nat} {s t : Sys} {i : Input}

/-! ### The machine -/

/-- What has become of the non-blocking connect. -/
structure Attempt where
  /-- Whether it succeeded; `none` while it is in progress. -/
  result : Option Bool
  /-- The connect timer has expired. -/
  expired : Bool
deriving DecidableEq, Repr

/-- The connect failed or timed out. -/
def Attempt.failed (a : Attempt) : Prop := a.expired = true ∨ a.result = some false

/-- The connection waits for the outcome of the connect. -/
def Conn.waitsConnect (c : Conn) : Bool :=
  !c.destroyed && decide (c.read.handler = .clientInit) && decide (c.write.handler = .clientInit)

/-- The socket is silent while the connect is in progress, and no data comes through one
    that failed. -/
def Attempt.allows (a : Attempt) : Input → Bool
  | .arrive _ | .arriveEof => decide (a.result = some true)
  | .hangup | .readEvent | .writeEvent => a.result.isSome
  | _ => true

def Input.isTimer : Input → Bool
  | .readTimer | .writeTimer => true
  | _ => false

inductive ClientInput
  /-- The connect succeeds or fails. A failure makes the socket readable and writable. -/
  | resolve (ok : Bool)
  | engine (i : Input)
deriving DecidableEq, Repr

def clientStep (cfg : Config) (p : Sys × Attempt) : ClientInput → Option (Sys × Attempt)
  | .resolve ok =>
    if p.2.result = none then
      some ({ p.1 with c := if ok then p.1.c else p.1.c.post }, { p.2 with result := some ok })
    else none
  | .engine i =>
    if p.2.allows i then
      (step cfg p.1 i).map fun t =>
        (t, { p.2 with expired := p.2.expired || (i.isTimer && p.1.c.waitsConnect) })
    else none

def client (cfg : Config) : Machine (Sys × Attempt) ClientInput := ⟨clientStep cfg⟩

/-- `ngxe_client` returns; `connected` is `rc == NGX_OK`, and the connect is in progress
    otherwise. -/
def clientStart (cfg : Config) (connected : Bool) (timeout : Int) : Sys × Attempt :=
  (resume (ngxeClient cfg.method connected timeout) [.outside],
    ⟨if connected then some true else none, false⟩)

inductive ClientStep (cfg : Config) : Sys × Attempt → ClientInput → Sys × Attempt → Prop
  | resolve {s a} (ok : Bool) (ha : a.result = none) :
      ClientStep cfg (s, a) (.resolve ok)
        ({ s with c := if ok then s.c else s.c.post }, { a with result := some ok })
  | engine {s a t i} (ha : a.allows i = true) (hs : Step cfg s i t) :
      ClientStep cfg (s, a) (.engine i)
        (t, { a with expired := a.expired || (i.isTimer && s.c.waitsConnect) })

theorem clientStep_cases {p q : Sys × Attempt} {j : ClientInput}
    (h : (client cfg).step p j = some q) : ClientStep cfg p j q := by
  obtain ⟨s, a⟩ := p
  cases j with
  | resolve ok =>
    simp only [client, clientStep, Option.ite_none_right_eq_some, Option.some.injEq] at h
    obtain ⟨ha, rfl⟩ := h
    exact .resolve ok ha
  | engine i =>
    simp only [client, clientStep, Option.ite_none_right_eq_some, Option.map_eq_some_iff] at h
    obtain ⟨ha, t, ht, rfl⟩ := h
    exact .engine ha (step_cases ht)

/-! ### The property and its condition -/

/-- Nothing of the connection runs: no timer, and no handler but the dummy. -/
structure Conn.Settled (c : Conn) : Prop where
  readTimer : c.read.timerSet = false
  writeTimer : c.write.timerSet = false
  read : c.read.handler = .dummy
  write : c.write.handler = .dummy

/-- The callback has just been called; before a success the connection was settled. -/
def Reported (s : Sys) : Prop :=
  (∃ cb, s.stack = [.inCallback cb .connected] ∧ s.c.Settled) ∨
    ∃ cb, s.stack = [.inCallback cb .failed]

structure ConnectOk (p : Sys × Attempt) : Prop where
  /-- The callback has run exactly once if the connection does not wait any more. -/
  once : p.1.c.trace.countP Obs.isConnectCall = if p.1.c.waitsConnect then 0 else 1
  /-- As long as it waits, the connect timer can still bring a report. -/
  timer : p.1.c.waitsConnect = true → p.1.c.write.timerSet = true
  /-- The callback got an error exactly if the connect failed or timed out. -/
  error : ∀ cb r site err, Obs.called cb (some r) site err ∈ p.1.c.trace → r.kind = .client →
    (err.isSome = true ↔ p.2.failed)
  /-- After an error the connection is closed as soon as the callback returns. -/
  closes : ∀ cb r site err, Obs.called cb (some r) site err ∈ p.1.c.trace → r.kind = .client →
    err.isSome = true → p.1.c.destroyed = true ∨ ∃ cb, .inCallback cb .failed ∈ p.1.stack

/-- What a single step does about the report. -/
structure ConnectStepOk (p : Sys × Attempt) (j : ClientInput) (q : Sys × Attempt) : Prop where
  /-- The step that ends the waiting calls back. -/
  reports : p.1.c.waitsConnect = true → q.1.c.waitsConnect = false → Reported q.1
  /-- What the success callback has installed stays when it returns. -/
  installed : ∀ ok cb rest, j = .engine (.ret ok) →
    p.1.stack = .inCallback cb .connected :: rest →
    q.1.c.read = p.1.c.read ∧ q.1.c.write = p.1.c.write ∧ q.1.stack = rest
  /-- The failure callback's return closes the connection. -/
  closed : ∀ ok cb rest, j = .engine (.ret ok) →
    p.1.stack = .inCallback cb .failed :: rest → q.1.c.destroyed = true

/-- The program leaves the connection alone as long as it waits. -/
def LeftAlone (p : Sys × Attempt) : ClientInput → Prop
  | .engine (.op _ _) => p.1.c.waitsConnect = false
  | _ => True

instance {p : Sys × Attempt} {j : ClientInput} : Decidable (LeftAlone p j) := by
  unfold LeftAlone
  repeat' split
  all_goals infer_instance

/-- A failed connect is not seen as readiness: the connect timer expires first. -/
def FailureUnseen (p : Sys × Attempt) : ClientInput → Prop
  | .engine .readEvent | .engine .writeEvent =>
    p.1.c.waitsConnect = true → p.2.result ≠ some false
  | _ => True

instance {p : Sys × Attempt} {j : ClientInput} : Decidable (FailureUnseen p j) := by
  unfold FailureUnseen
  repeat' split
  all_goals infer_instance

/-- The record is not called again after the connect: the writer is not started as long
    as `s->writer_callback` is the connect record. -/
def RecordSafe (p : Sys × Attempt) : ClientInput → Prop
  | .resolve _ => True
  | .engine i => ReleaseSafe p.1 i

instance {p : Sys × Attempt} {j : ClientInput} : Decidable (RecordSafe p j) := by
  unfold RecordSafe
  split <;> infer_instance

def ConnectSafe (p : Sys × Attempt) (j : ClientInput) : Prop :=
  LeftAlone p j ∧ FailureUnseen p j ∧ RecordSafe p j

instance {p : Sys × Attempt} {j : ClientInput} : Decidable (ConnectSafe p j) :=
  inferInstanceAs (Decidable (_ ∧ _ ∧ _))

/-! ### The two phases -/

/-- The connection waits. -/
structure Waiting (p : Sys × Attempt) : Prop where
  waits : p.1.c.waitsConnect = true
  readError : p.1.c.read.error = false
  writeError : p.1.c.write.error = false
  readTimedout : p.1.c.read.timedout = false
  writeTimedout : p.1.c.write.timedout = false
  readTimer : p.1.c.read.timerSet = false
  writeTimer : p.1.c.write.timerSet = true
  expired : p.2.expired = false
  stack : ∀ f ∈ p.1.stack, f = .outside

/-- The connect callback has run, and told the truth. -/
inductive Answered (p : Sys × Attempt) : Prop
  | success (cb : Nat) (r : Callback) (site : Site)
      (call : Obs.called cb (some r) site none ∈ p.1.c.trace) (kind : r.kind = .client)
      (result : p.2.result = some true) (expired : p.2.expired = false)
  | failure (cb : Nat) (r : Callback) (site : Site) (e : CbError)
      (call : Obs.called cb (some r) site (some e) ∈ p.1.c.trace) (kind : r.kind = .client)
      (failed : p.2.failed)
      (closes : p.1.c.destroyed = true ∨ ∃ cb, .inCallback cb .failed ∈ p.1.stack)

structure ConnectInv (p : Sys × Attempt) : Prop where
  records : RelInv p.1
  phase : Waiting p ∨ Answered p

theorem waitsConnect_iff : c.waitsConnect = true ↔
    c.destroyed = false ∧ c.read.handler = .clientInit ∧ c.write.handler = .clientInit := by
  simp [Conn.waitsConnect, and_assoc]

theorem isConnectCall_called {r : Callback} {site : Site} {err : Option CbError}
    (hr : r.kind = .client) : (Obs.called cb (some r) site err).isConnectCall = true :=
  decide_eq_true hr

/-- A connection whose connect callback has run does not wait. -/
theorem RelInv.not_waits {x : Obs} (h : RelInv s) (hx : x ∈ s.c.trace)
    (hcall : x.isConnectCall = true) : s.c.waitsConnect = false := by
  refine Bool.eq_false_iff.mpr fun hw => ?_
  obtain ⟨hd, hr, -⟩ := waitsConnect_iff.mp hw
  have hzero := ((h.records hd).connecting (.inl hr)).1
  rw [countP_calls, List.countP_eq_zero] at hzero
  exact hzero x hx hcall

theorem Answered.call {p : Sys × Attempt} (h : Answered p) :
    ∃ x ∈ p.1.c.trace, x.isConnectCall = true := by
  cases h with
  | success cb r site call kind result expired | failure cb r site e call kind failed closes =>
    exact ⟨_, call, isConnectCall_called kind⟩

/-- The truth of the one call is the truth of every call. -/
theorem ConnectInv.connectOk {p : Sys × Attempt} (h : ConnectInv p) : ConnectOk p := by
  have honce := h.records.noReleasedCall.once
  cases h.phase with
  | inl hw =>
    obtain ⟨hd, hr, -⟩ := waitsConnect_iff.mp hw.waits
    have hzero := ((h.records.records hd).connecting (.inl hr)).1
    rw [countP_calls] at hzero
    have hnone : ∀ cb r site err, Obs.called cb (some r) site err ∈ p.1.c.trace →
        r.kind ≠ .client := by
      intro cb r site err hmem hkind
      exact List.countP_eq_zero.mp hzero _ hmem (isConnectCall_called hkind)
    refine ⟨?_, fun _ => hw.writeTimer, fun cb r site err hmem hkind => ?_,
      fun cb r site err hmem hkind => ?_⟩
    · rw [hzero, if_pos hw.waits]
    · exact absurd hkind (hnone cb r site err hmem)
    · exact absurd hkind (hnone cb r site err hmem)
  | inr ha =>
    obtain ⟨x, hx, hcall⟩ := ha.call
    have hidle := h.records.not_waits hx hcall
    have hone : p.1.c.trace.countP Obs.isConnectCall = 1 :=
      Nat.le_antisymm honce (List.countP_pos_iff.mpr ⟨x, hx, hcall⟩)
    refine ⟨?_, fun hw => ?_, fun cb r site err hmem hkind => ?_,
      fun cb r site err hmem hkind herr => ?_⟩
    · rw [hone, hidle]
      rfl
    · rw [hidle] at hw
      cases hw
    · have hsame := fun y hy => eq_of_countP_le_one (y := y) honce hmem hy
        (isConnectCall_called hkind)
      cases ha with
      | success cb' r' site' call kind result expired =>
        cases hsame _ call (isConnectCall_called kind)
        simp [Attempt.failed, result, expired]
      | failure cb' r' site' e call kind failed closes =>
        cases hsame _ call (isConnectCall_called kind)
        simp [failed]
    · cases ha with
      | success cb' r' site' call kind result expired =>
        cases eq_of_countP_le_one honce hmem call (isConnectCall_called hkind)
          (isConnectCall_called kind)
        cases herr
      | failure cb' r' site' e call kind failed closes => exact closes

/-! ### Steps -/

/-- What an answered connect keeps: its result if it had one, the verdict of its timer
    unless the connection waits. -/
theorem Answered.step {p q : Sys × Attempt} {j : ClientInput} (h : Answered p)
    (hrec : RelInv p.1) (hs : ClientStep cfg p j q) : Answered q := by
  have hidle : p.1.c.waitsConnect = false := by
    obtain ⟨x, hx, hcall⟩ := h.call
    exact hrec.not_waits hx hcall
  cases hs with
  | @resolve s a ok ha =>
    have htrace : (if ok then s.c else s.c.post).trace = s.c.trace := by
      cases ok <;> rfl
    have hdest : (if ok then s.c else s.c.post).destroyed = s.c.destroyed := by
      cases ok <;> rfl
    cases h with
    | success cb r site call kind result expired =>
      rw [ha] at result
      cases result
    | failure cb r site e call kind failed closes =>
      refine .failure cb r site e (htrace ▸ call) kind ?_ (hdest ▸ closes)
      -- it cannot have failed yet, so it is the timer that has expired
      refine .inl (failed.resolve_right fun hf => ?_)
      rw [ha] at hf
      cases hf
  | @engine s a t i ha hs =>
    have hle := step_trace_le hs
    have hexp : (a.expired || (i.isTimer && s.c.waitsConnect)) = a.expired := by
      rw [hidle, Bool.and_false, Bool.or_false]
    rw [hexp]
    cases h with
    | success cb r site call kind result expired =>
      exact .success cb r site (hle.subset call) kind result expired
    | failure cb r site e call kind failed closes =>
      refine .failure cb r site e (hle.subset call) kind failed ?_
      rcases closes with hd | hf
      · exact .inl (destroyed_step hd hs)
      · exact failed_step hf hs

/-- `ngxe_client_init_handler` without an error and without a timeout. -/
theorem clientInit_success {H : Type} {ev : Event H} (hw : c.writerCallback = some cb)
    (he : ev.error = false) (ht : ev.timedout = false) : ngxeClientInitHandler c ev =
      ngxeCallback { c with
        read := { c.read with handler := .dummy }
        write := { c.write.delTimer with handler := .dummy } } cb none .connected := by
  simp [ngxeClientInitHandler, hw, he, ht, Event.delTimer]

/-- `ngxe_client_init_handler` after the timer. -/
theorem clientInit_timedOut {H : Type} {ev : Event H} (hw : c.writerCallback = some cb)
    (he : ev.error = false) (ht : ev.timedout = true) : ngxeClientInitHandler c ev =
      ngxeCallback { c with
        read := { c.read with handler := .dummy }
        write := { c.write with handler := .dummy } } cb (some .timedOut) .failed := by
  simp [ngxeClientInitHandler, hw, he, ht, fail]

/-- The connect callback has just been called without an error. -/
structure ReportedSuccess (s : Sys) : Prop where
  call : ∃ cb r site, Obs.called cb (some r) site none ∈ s.c.trace ∧ r.kind = .client
  running : ∃ cb, s.stack = [.inCallback cb .connected]
  settled : s.c.Settled

theorem ReportedSuccess.reported (h : ReportedSuccess s) : Reported s := by
  obtain ⟨cb, hcb⟩ := h.running
  exact .inl ⟨cb, hcb, h.settled⟩

theorem ReportedSuccess.of_clientInit {H : Type} {ev : Event H} (hrec : c.Records)
    (hconn : c.connecting) (he : ev.error = false) (ht : ev.timedout = false)
    (htimer : c.read.timerSet = false) :
    ReportedSuccess (resume (ngxeClientInitHandler c ev) []) := by
  obtain ⟨-, cb, r, hw, hr, hkind, -⟩ := hrec.connecting hconn
  rw [clientInit_success hw he ht]
  refine ⟨⟨cb, r, .connected, ?_, hkind⟩, ⟨cb, rfl⟩, htimer, rfl, rfl, rfl⟩
  simp [resume, ngxeCallback, hr]

/-- The call of the connect record after the timer. -/
theorem Answered.of_timedOut {H : Type} {ev : Event H} {a : Attempt} (hrec : c.Records)
    (hconn : c.connecting) (he : ev.error = false) (ht : ev.timedout = true)
    (hexp : a.expired = true) : Answered (resume (ngxeClientInitHandler c ev) [], a) ∧
      Reported (resume (ngxeClientInitHandler c ev) []) := by
  obtain ⟨-, cb, r, hw, hr, hkind, -⟩ := hrec.connecting hconn
  rw [clientInit_timedOut hw he ht]
  refine ⟨.failure cb r .failed .timedOut ?_ hkind (.inl hexp) (.inr ⟨cb, ?_⟩), .inr ⟨cb, rfl⟩⟩
  · simp [resume, ngxeCallback, hr]
  · simp [resume, ngxeCallback]

/-- What the socket does leaves a waiting connection as it is. -/
theorem Waiting.socket {a a' : Attempt} {unread : Bytes} {eof : Bool} {n : Nat}
    (h : Waiting (s, a)) (ha : a'.expired = false) :
    Waiting ({ s with c := { s.c with unread := unread, eof := eof, pending := n } }, a') :=
  ⟨h.waits, h.readError, h.writeError, h.readTimedout, h.writeTimedout, h.readTimer,
    h.writeTimer, ha, h.stack⟩

theorem Waiting.stacked {a : Attempt} {stk stk' : List Frame} (h : Waiting (⟨c, stk⟩, a))
    (hstk : ∀ f ∈ stk', f = .outside) : Waiting (⟨c, stk'⟩, a) :=
  ⟨h.waits, h.readError, h.writeError, h.readTimedout, h.writeTimedout, h.readTimer,
    h.writeTimer, h.expired, hstk⟩

def Input.isReadiness : Input → Bool
  | .readEvent | .writeEvent => true
  | _ => false

/-- A waiting connection takes every readiness for a success. -/
theorem Waiting.ready {a : Attempt} (h : Waiting (s, a)) (hrel : RelInv s)
    (hi : i.isReadiness = true) (hs : Step cfg s i t) : ReportedSuccess t := by
  obtain ⟨hd, hread, hwrite⟩ := waitsConnect_iff.mp h.waits
  have hrec := hrel.records hd
  cases hs with
  | @readEvent c hopen hr =>
    have hrec' : c.takeRead.Records := hrec.handlers rfl rfl rfl rfl (fun hh => .inl hh) id
    have hcall : callReadHandler cfg c.takeRead =
        ngxeClientInitHandler c.takeRead c.takeRead.read := by
      rw [callReadHandler, show c.takeRead.read.handler = .clientInit from hread]
    rw [hcall]
    exact .of_clientInit hrec' (.inl hread) h.readError h.readTimedout h.readTimer
  | @writeEvent c hopen hact =>
    have hrec' : c.takeWrite.Records := hrec.handlers rfl rfl rfl rfl (fun hh => .inl hh) id
    have hcall : callWriteHandler c.takeWrite =
        ngxeClientInitHandler c.takeWrite c.takeWrite.write := by
      rw [callWriteHandler, show c.takeWrite.write.handler = .clientInit from hwrite]
    rw [hcall]
    exact .of_clientInit hrec' (.inr hwrite) h.writeError h.writeTimedout h.readTimer
  | _ => cases hi

/-- So the readiness of a failed connect is always reported wrongly. -/
theorem Waiting.misreports {a : Attempt} (h : Waiting (s, a)) (hrel : RelInv s)
    (hi : i.isReadiness = true) (ha : a.result = some false) (hs : Step cfg s i t) :
    ¬ ConnectOk (t, { a with expired := a.expired || (i.isTimer && s.c.waitsConnect) }) := by
  intro hok
  obtain ⟨cb, r, site, hmem, hkind⟩ := (h.ready hrel hi hs).call
  have herr := (hok.error cb r site none hmem hkind).mpr (.inr ha)
  cases herr

/-- If the connect has not failed, the success is true. -/
theorem ReportedSuccess.answered {a : Attempt} (h : ReportedSuccess s)
    (hsome : a.result.isSome = true) (hne : a.result ≠ some false) (hexp : a.expired = false) :
    Answered (s, a) := by
  obtain ⟨cb, r, site, hmem, hkind⟩ := h.call
  obtain ⟨b, hb⟩ := Option.isSome_iff_exists.mp hsome
  cases b with
  | true => exact .success cb r site hmem hkind hb hexp
  | false => exact absurd hb hne

theorem Waiting.step {p q : Sys × Attempt} {j : ClientInput} (h : Waiting p) (hrel : RelInv p.1)
    (hG : ConnectSafe p j) (hs : ClientStep cfg p j q) :
    Waiting q ∨ Answered q ∧ Reported q.1 := by
  obtain ⟨hd, hread, hwrite⟩ := waitsConnect_iff.mp h.waits
  have hrec := hrel.records hd
  obtain ⟨halone, hunseen, -⟩ := hG
  cases hs with
  | @resolve s a ok ha =>
    cases ok with
    | true | false => exact .inl (h.socket h.expired)
  | @engine s a t i ha hs =>
    cases hs with
    | arrive b hb he | arriveEof he | hangup =>
      exact .inl (h.socket (by simpa [Input.isTimer] using h.expired))
    | readEvent hopen hr =>
      have hready := h.ready hrel rfl (Step.readEvent hopen hr)
      refine .inr ⟨hready.answered ha (hunseen h.waits) ?_, hready.reported⟩
      simpa [Input.isTimer] using h.expired
    | writeEvent hopen hact =>
      have hready := @Waiting.ready cfg _ _ _ _ h hrel rfl (.writeEvent hopen hact)
      refine .inr ⟨hready.answered ha (hunseen h.waits) ?_, hready.reported⟩
      simpa [Input.isTimer] using h.expired
    | readTimer hopen ht => exact absurd (h.readTimer.symm.trans ht) (by decide)
    | @writeTimer c hopen ht =>
      have hrec' : c.expireWrite.Records := hrec.handlers rfl rfl rfl rfl (fun hh => .inl hh) id
      have hcall : callWriteHandler c.expireWrite =
          ngxeClientInitHandler c.expireWrite c.expireWrite.write := by
        rw [callWriteHandler, show c.expireWrite.write.handler = .clientInit from hwrite]
      rw [hcall]
      refine .inr (Answered.of_timedOut hrec' (.inr hwrite) h.writeError rfl ?_)
      have hw : c.waitsConnect = true := h.waits
      simp [Input.isTimer, hw]
    | enter =>
      refine .inl ((h.stacked (by simp)).socket ?_)
      simpa [Input.isTimer] using h.expired
    | leave =>
      refine .inl ((h.stacked fun f hf => h.stack f (List.mem_cons_of_mem _ hf)).socket ?_)
      simpa [Input.isTimer] using h.expired
    | op o ok hf hopen => exact absurd (h.waits.symm.trans halone) (by decide)
    | recv err ok | send r ok hr | ret ok => cases h.stack _ List.mem_cons_self

theorem connectInv_step {p q : Sys × Attempt} {j : ClientInput} (h : ConnectInv p)
    (hG : ConnectSafe p j) (hs : ClientStep cfg p j q) : ConnectInv q := by
  refine ⟨?_, ?_⟩
  · cases hs with
    | @resolve s a ok ha =>
      cases ok with
      | true => exact h.records
      | false => exact @relInv_step cfg s _ .hangup h.records trivial .hangup
    | engine ha hs => exact relInv_step h.records hG.2.2 hs
  · rcases h.phase with hw | ha
    · exact (hw.step h.records hG hs).imp_right And.left
    · exact .inr (ha.step h.records hs)

theorem connectInv_start (cfg : Config) (connected : Bool) (timeout : Int) :
    ConnectInv (clientStart cfg connected timeout) := by
  refine ⟨relInv_initial (.client connected timeout), ?_⟩
  cases connected with
  | true =>
    refine .inr (.success 0 ⟨.client, false, 0⟩ .connected ?_ rfl rfl rfl)
    exact List.mem_singleton.mpr rfl
  | false =>
    refine .inl ⟨rfl, rfl, rfl, rfl, rfl, rfl, rfl, rfl, fun f hf => ?_⟩
    exact List.mem_singleton.mp hf

theorem connectStepOk {p q : Sys × Attempt} {j : ClientInput} (h : ConnectInv p)
    (hG : ConnectSafe p j) (hs : ClientStep cfg p j q) : ConnectStepOk p j q := by
  refine ⟨fun hw hidle => ?_, ?_, ?_⟩
  · rcases h.phase with hp | ha
    · rcases hp.step h.records hG hs with hq | ⟨-, hq⟩
      · exact absurd (hq.waits.symm.trans hidle) (by decide)
      · exact hq
    · obtain ⟨x, hx, hcall⟩ := ha.call
      exact absurd (hw.symm.trans (h.records.not_waits hx hcall)) (by decide)
  · rintro ok cb rest rfl hstk
    cases hs with
    | engine ha hs =>
      cases hs with
      | ret ok =>
        cases hstk
        exact ⟨rfl, rfl, rfl⟩
  · rintro ok cb rest rfl hstk
    cases hs with
    | engine ha hs =>
      cases hs with
      | ret ok =>
        cases hstk
        exact ngxeClose_destroyed _

/-! ### Results -/

/-- In every run of safe steps the connect callback runs exactly once, with an error
    exactly if the connect failed or timed out, and each step reports as it should. A
    connect that succeeded at once has been reported when `ngxe_client` returns. -/
theorem connect_reported (cfg : Config) (connected : Bool) (timeout : Int) (p : Sys × Attempt)
    (h : (client cfg).Reaches ConnectSafe (clientStart cfg connected timeout) p) :
    ConnectOk p ∧
      (∀ j q, ConnectSafe p j → (client cfg).step p j = some q → ConnectStepOk p j q) ∧
      (connected = true → (clientStart cfg connected timeout).1.c.Settled) := by
  have hinv : ConnectInv p := h.invariant (connectInv_start cfg connected timeout)
    fun _ _ _ h hG hs => connectInv_step h hG (clientStep_cases hs)
  refine ⟨hinv.connectOk, fun j q hG hs => connectStepOk hinv hG (clientStep_cases hs), ?_⟩
  rintro rfl
  exact ⟨rfl, rfl, rfl, rfl⟩

/-- The connect fails, nothing is reported of it, and the timer expires. -/
theorem connect_reported_timeout :
    ∃ p, (client ⟨.clear, 4096, 4080⟩).Reaches ConnectSafe
        (clientStart ⟨.clear, 4096, 4080⟩ false 1000) p ∧
      ConnectOk p ∧ p.1.c.destroyed = true ∧ p.1.c.waitsConnect = false := by
  have hr : (client ⟨.clear, 4096, 4080⟩).Reaches ConnectSafe
      (clientStart ⟨.clear, 4096, 4080⟩ false 1000) _ :=
    .of_run [.engine .leave, .resolve false, .engine .writeTimer, .engine (.ret true)] rfl
  exact ⟨_, hr, (connect_reported _ _ _ _ hr).1, rfl, rfl⟩

/-- The connect fails and the method reports the socket writable: the handler tests
    `ev->error`, which nothing sets for it, and calls back without an error. -/
theorem failure_taken_for_success :
    ¬ ∀ cfg connected timeout p,
      (client cfg).Reaches LeftAlone (clientStart cfg connected timeout) p → ConnectOk p := by
  intro h
  have hr : (client ⟨.clear, 4096, 4080⟩).Reaches LeftAlone
      (clientStart ⟨.clear, 4096, 4080⟩ false 1000) _ :=
    .of_run [.engine .leave, .resolve false, .engine .writeEvent] rfl
  have hcall := (h _ _ _ _ hr).error 0 ⟨.client, false, 0⟩ .connected none (by decide) rfl
  exact absurd (hcall.mpr (.inr rfl)) (by decide)

end NginxEngine.XS
