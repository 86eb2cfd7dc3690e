import Mathlib.Data.List.Basic
import NginxEngine.Machine

/-!
# Callback records

A callback of the program is kept in an `ngxe_callback_t`, which holds a reference on the handler
and on each argument. `ngxe_callback` takes one more on each of them for the time of the call.
The references of the creation are released by `ngxe_callback_dec`, by `ngxe_callback_cleanup`
when the pool of the record is destroyed, or at the end of `ngxe_callback(cb, 1)`; whichever comes
first sets `decremented`. Records and their argument vectors live in the pool of a connection or
of a timer, which the program may destroy while a callback runs.

## Main definitions

- `CbRecord` — a record, with the references that are held through it
- `ngxeCallbackDec`, `ngxeCallbackCleanup`, `beginCall`, `endCall` — the functions of `ngxe_xs.c`
- `CbState`, `callbacks` — records, pools and the calls in progress
- `destructors` — the same, with destructors that release the record once more
- `Balanced` — the references held on the handler and the arguments
- `OwnPoolKept` — no pool is destroyed while a callback of one of its records runs

## Main results

- `references_balanced` — runs without such destructors keep the references balanced
- `references_released_twice` — a destructor clears the timer whose callback is released
- `records_kept` — the condition under which no record is read after its pool was destroyed
- `record_read_after_close` — a callback closes its connection
-/

namespace NginxEngine.XS

/-- `ngxe_callback_t`. Of the handler, which is `none` for NULL, and of the arguments only the
    references are kept that the record and the calls of it hold. -/
structure CbRecord where
  pool : Nat
  /-- `ngxe_callback_cleanup` is among the cleanups of the pool. -/
  registered : Bool
  handler : Option Int
  args : List Int
  argsN : Nat
  decremented : Bool
  /-- How often the references of the creation were released. -/
  released : Nat
deriving DecidableEq, Repr

def CbRecord.new (pool : Nat) (registered perl : Bool) (argsN : Nat) : CbRecord where
  pool := pool
  registered := registered
  handler := if perl then some 1 else none
  args := List.replicate argsN 1
  argsN := argsN
  decremented := false
  released := 0

/-- `SvREFCNT_inc` or `SvREFCNT_dec` of `args[i]`, for `i` from 0 to `n - 1`. -/
def addRefs (d : Int) : Nat → List Int → List Int
  | n + 1, a :: args => (a + d) :: addRefs d n args
  | _, args => args

def ngxeCallbackDec (cb : CbRecord) : CbRecord :=
  if cb.decremented then cb
  else
    { cb with
      handler := cb.handler.map (· - 1)
      args := addRefs (-1) cb.argsN cb.args
      argsN := 0
      decremented := true
      released := cb.released + 1 }

/-- `ngxe_callback_dec` up to the `SvREFCNT_dec` of `args[p - 1]`, or of the handler if `p` is 0. -/
def decUpTo (p : Nat) (cb : CbRecord) : CbRecord :=
  { cb with handler := cb.handler.map (· - 1), args := addRefs (-1) p cb.args }

/-- The rest of its loop, from `i = p` on. It looks up `cb->args_n` again. -/
def decFrom (p : Nat) (cb : CbRecord) : CbRecord :=
  { cb with
    args := cb.args.take p ++ addRefs (-1) (cb.argsN - p) (cb.args.drop p)
    argsN := 0
    decremented := true
    released := cb.released + 1 }

def ngxeCallbackCleanup (cb : CbRecord) : CbRecord :=
  if cb.decremented then cb else ngxeCallbackDec cb

/-- `ngxe_callback` up to `call_sv`. -/
def beginCall (cb : CbRecord) : CbRecord :=
  { cb with handler := cb.handler.map (· + 1), args := addRefs 1 cb.argsN cb.args }

/-- `ngxe_callback` from the return of `call_sv` on. Its last block is that of
    `ngxe_callback_dec`. -/
def endCall (cb : CbRecord) (n : Nat) (decrefcnts : Bool) : CbRecord :=
  let cb := { cb with args := addRefs (-1) n cb.args, handler := cb.handler.map (· - 1) }
  if decrefcnts then ngxeCallbackDec cb else cb

/-- A call of `ngxe_callback` in progress, with its local variables. -/
structure Invocation where
  cb : Nat
  n : Nat
  decrefcnts : Bool
  /-- The handler is Perl code; a native handler is called and nothing else. -/
  perl : Bool
  /-- `cb->decremented` was 0 at the beginning. -/
  fresh : Bool
  /-- The pool of the record was there at the beginning. -/
  live : Bool
deriving DecidableEq, Repr

structure CbState where
  cbs : List CbRecord
  /-- Which pools were destroyed. -/
  destroyed : List Bool
  stack : List Invocation
  /-- `ngxe_callback` has looked up its record in a pool that was destroyed during the call. -/
  stray : Bool
deriving DecidableEq, Repr

/-- The program before it has created anything. -/
def CbState.init : CbState := ⟨[], [], [], false⟩

inductive CbInput
  | createPool
  | create (pool : Nat) (registered perl : Bool) (argsN : Nat)
  /-- `ngxe_callback` is called. -/
  | call (k : Nat) (decrefcnts : Bool)
  /-- The handler returns to `ngxe_callback`. -/
  | ret
  | dec (k : Nat)
  | cleanup (k : Nat)
  /-- `ngxe_close` of the connection that owns the pool. -/
  | close (pool : Nat)
  /-- `ngxe_timeout_clear` of the timer that owns the pool. -/
  | timeoutClear (pool : Nat)
  /-- `ngxe_interval_clear` of the timer that owns the pool. -/
  | intervalClear (pool : Nat)
  /-- `ngx_destroy_pool` by code of the engine. -/
  | destroyPool (pool : Nat)
deriving DecidableEq, Repr

namespace CbState

/-- The pool of a record was destroyed. -/
def gone (s : CbState) (cb : CbRecord) : Bool := (s.destroyed[cb.pool]?).getD true

def ngxeCallback (s : CbState) (k : Nat) (cb : CbRecord) (decrefcnts : Bool) : CbState :=
  if cb.handler.isSome then
    { s with
      cbs := s.cbs.modify k beginCall
      stack := ⟨k, cb.argsN, decrefcnts, true, !cb.decremented, !s.gone cb⟩ :: s.stack }
  else
    { s with stack := ⟨k, 0, decrefcnts, false, !cb.decremented, !s.gone cb⟩ :: s.stack }

/-- The handler of a call returns. -/
def callReturn (s : CbState) (v : Invocation) (cb : CbRecord) (rest : List Invocation) :
    CbState :=
  if v.perl then
    { s with
      cbs := s.cbs.modify v.cb (endCall · v.n v.decrefcnts)
      stack := rest
      stray := s.stray || (v.live && s.gone cb) }
  else { s with stack := rest }

/-- `ngx_destroy_pool`: the cleanups of the pool run, and its memory is gone. -/
def ngxDestroyPool (s : CbState) (pool : Nat) : CbState :=
  { s with
    cbs := s.cbs.map fun cb =>
      if cb.pool = pool ∧ cb.registered then ngxeCallbackCleanup cb else cb
    destroyed := s.destroyed.set pool true }

/-- `ngxe_close`, which goes by `c->destroyed`. -/
def ngxeClose (s : CbState) (pool : Nat) : CbState :=
  if s.destroyed[pool]? = some true then s else s.ngxDestroyPool pool

/-- The body shared by `ngxe_timeout_clear` and `ngxe_interval_clear`. -/
def clearTimer (s : CbState) (pool : Nat) : CbState :=
  let cbs := s.cbs.map fun cb => if cb.pool = pool then ngxeCallbackDec cb else cb
  { s with cbs := cbs }.ngxDestroyPool pool

def ngxeTimeoutClear (s : CbState) (pool : Nat) : CbState := s.clearTimer pool

def ngxeIntervalClear (s : CbState) (pool : Nat) : CbState := s.clearTimer pool

def step (s : CbState) : CbInput → Option CbState
  | .createPool => some { s with destroyed := s.destroyed ++ [false] }
  | .create pool registered perl argsN =>
    if s.destroyed[pool]? = some false then
      some { s with cbs := s.cbs ++ [.new pool registered perl argsN] }
    else none
  | .call k decrefcnts => (s.cbs[k]?).map fun cb => s.ngxeCallback k cb decrefcnts
  | .ret =>
    match s.stack with
    | v :: rest => (s.cbs[v.cb]?).map fun cb => s.callReturn v cb rest
    | [] => none
  | .dec k => some { s with cbs := s.cbs.modify k ngxeCallbackDec }
  | .cleanup k => some { s with cbs := s.cbs.modify k ngxeCallbackCleanup }
  | .close pool => if pool < s.destroyed.length then some (s.ngxeClose pool) else none
  | .timeoutClear pool =>
    if s.destroyed[pool]? = some false then some (s.ngxeTimeoutClear pool) else none
  | .intervalClear pool =>
    if s.destroyed[pool]? = some false then some (s.ngxeIntervalClear pool) else none
  | .destroyPool pool =>
    if s.destroyed[pool]? = some false then some (s.ngxDestroyPool pool) else none

/-- The steps, one constructor for each input. -/
inductive Step (s : CbState) : CbInput → CbState → Prop
  | createPool : Step s .createPool { s with destroyed := s.destroyed ++ [false] }
  | create {pool : Nat} (registered perl : Bool) (argsN : Nat)
      (hpool : s.destroyed[pool]? = some false) :
      Step s (.create pool registered perl argsN)
        { s with cbs := s.cbs ++ [.new pool registered perl argsN] }
  | call {k : Nat} {cb : CbRecord} (decrefcnts : Bool) (hk : s.cbs[k]? = some cb) :
      Step s (.call k decrefcnts) (s.ngxeCallback k cb decrefcnts)
  | ret {v : Invocation} {cb : CbRecord} {rest : List Invocation} (hstk : s.stack = v :: rest)
      (hcb : s.cbs[v.cb]? = some cb) : Step s .ret (s.callReturn v cb rest)
  | dec (k : Nat) : Step s (.dec k) { s with cbs := s.cbs.modify k ngxeCallbackDec }
  | cleanup (k : Nat) : Step s (.cleanup k) { s with cbs := s.cbs.modify k ngxeCallbackCleanup }
  | close {pool : Nat} (hpool : pool < s.destroyed.length) :
      Step s (.close pool) (s.ngxeClose pool)
  | timeoutClear {pool : Nat} (hpool : s.destroyed[pool]? = some false) :
      Step s (.timeoutClear pool) (s.ngxeTimeoutClear pool)
  | intervalClear {pool : Nat} (hpool : s.destroyed[pool]? = some false) :
      Step s (.intervalClear pool) (s.ngxeIntervalClear pool)
  | destroyPool {pool : Nat} (hpool : s.destroyed[pool]? = some false) :
      Step s (.destroyPool pool) (s.ngxDestroyPool pool)

theorem step_cases {s s' : CbState} {i : CbInput} (h : s.step i = some s') : Step s i s' := by
  cases i with
  | createPool =>
    cases h
    exact .createPool
  | create pool registered perl argsN =>
    obtain ⟨hpool, hs⟩ := Option.ite_none_right_eq_some.mp h
    cases hs
    exact .create registered perl argsN hpool
  | call k decrefcnts =>
    obtain ⟨cb, hk, rfl⟩ := Option.map_eq_some_iff.mp h
    exact .call decrefcnts hk
  | ret =>
    rw [step] at h
    split at h
    · next hstk =>
      obtain ⟨cb, hcb, rfl⟩ := Option.map_eq_some_iff.mp h
      exact .ret hstk hcb
    · cases h
  | dec k =>
    cases h
    exact .dec k
  | cleanup k =>
    cases h
    exact .cleanup k
  | close pool =>
    obtain ⟨hpool, hs⟩ := Option.ite_none_right_eq_some.mp h
    cases hs
    exact .close hpool
  | timeoutClear pool =>
    obtain ⟨hpool, hs⟩ := Option.ite_none_right_eq_some.mp h
    cases hs
    exact .timeoutClear hpool
  | intervalClear pool =>
    obtain ⟨hpool, hs⟩ := Option.ite_none_right_eq_some.mp h
    cases hs
    exact .intervalClear hpool
  | destroyPool pool =>
    obtain ⟨hpool, hs⟩ := Option.ite_none_right_eq_some.mp h
    cases hs
    exact .destroyPool hpool

end CbState

def callbacks : Machine CbState CbInput := ⟨CbState.step⟩

/-- The states of every run, of which each step meets `G`. -/
def CbState.Reachable (G : CbState → CbInput → Prop) (s : CbState) : Prop :=
  callbacks.Reaches G .init s

/-- The reference of the creation. -/
def CbRecord.base (cb : CbRecord) : Int := if cb.decremented then 0 else 1

/-- The calls of a record that are in progress. -/
def active (stack : List Invocation) (k : Nat) : Nat :=
  stack.countP fun v => decide (v.cb = k) && v.perl

/-- Those that began while `cb->decremented` was 0. -/
def activeFresh (stack : List Invocation) (k : Nat) : Nat :=
  stack.countP fun v => decide (v.cb = k) && v.perl && v.fresh

variable {d : Int} {n k : Nat} {l : List Int} {cb : CbRecord} {stack rest : List Invocation}
  {v : Invocation} {s s' : CbState} {i : CbInput} {pool : Nat}

theorem addRefs_zero : addRefs d 0 l = l := by cases l <;> rfl

theorem addRefs_length : addRefs d l.length l = l.map (· + d) := by
  induction l with
  | nil => rfl
  | cons a l ih => simp [addRefs, ih]

theorem length_addRefs : (addRefs d n l).length = l.length := by
  induction l generalizing n with
  | nil => cases n <;> rfl
  | cons a l ih =>
    cases n with
    | zero => rfl
    | succ n => simp [addRefs, ih]

theorem addRefs_split {p : Nat} (hle : p ≤ n) :
    (addRefs d p l).take p ++ addRefs d (n - p) ((addRefs d p l).drop p) = addRefs d n l := by
  induction l generalizing n p with
  | nil => cases n <;> cases p <;> simp [addRefs]
  | cons a l ih =>
    cases p with
    | zero => simp [addRefs_zero]
    | succ p =>
      obtain ⟨m, rfl⟩ : ∃ m, n = m + 1 := ⟨n - 1, by omega⟩
      have hrest := ih (n := m) (p := p) (by omega)
      simp [addRefs, hrest]

/-- A destructor that leaves the record alone does not matter to its release. -/
theorem decFrom_decUpTo {p : Nat} (hd : cb.decremented = false) (hp : p ≤ cb.argsN) :
    decFrom p (decUpTo p cb) = ngxeCallbackDec cb := by
  have hargs := addRefs_split (d := -1) (l := cb.args) hp
  simp only [decFrom, decUpTo, ngxeCallbackDec, hd, Bool.false_eq_true, if_false, hargs]

/-- A record and the calls of it. -/
structure RecordOk (stack : List Invocation) (k : Nat) (cb : CbRecord) : Prop where
  handler : ∀ h, cb.handler = some h → h = cb.base + active stack k
  args : ∀ a ∈ cb.args, a = cb.base + activeFresh stack k
  argsN : cb.argsN = if cb.decremented then 0 else cb.args.length
  saved : ∀ v ∈ stack, v.cb = k → v.perl = true → v.n = if v.fresh then cb.args.length else 0
  released : cb.released = if cb.decremented then 1 else 0

namespace RecordOk

/-- The references of the creation are released. -/
theorem dec (h : RecordOk stack k cb) : RecordOk stack k (ngxeCallbackDec cb) := by
  rw [ngxeCallbackDec]
  split
  · exact h
  · next hd =>
    have hbase : cb.base = 1 := by rw [CbRecord.base, if_neg hd]
    have hn : cb.argsN = cb.args.length := h.argsN.trans (if_neg hd)
    refine ⟨fun r hr => ?_, fun a ha => ?_, rfl, fun v hv hk hp => ?_, ?_⟩
    · obtain ⟨r', hr', rfl⟩ := Option.map_eq_some_iff.mp hr
      rw [h.handler r' hr', hbase, CbRecord.base, if_pos rfl]
      omega
    · rw [hn, addRefs_length] at ha
      obtain ⟨a', ha', rfl⟩ := List.mem_map.mp ha
      rw [h.args a' ha', hbase, CbRecord.base, if_pos rfl]
      omega
    · rw [length_addRefs]
      exact h.saved v hv hk hp
    · rw [if_pos rfl, h.released, if_neg hd]

theorem cleanup (h : RecordOk stack k cb) : RecordOk stack k (ngxeCallbackCleanup cb) := by
  rw [ngxeCallbackCleanup]
  split
  · exact h
  · exact h.dec

theorem active_cons_own (hk : v.cb = k) (hp : v.perl = true) :
    active (v :: stack) k = active stack k + 1 := by
  simp [active, hk, hp]

theorem activeFresh_cons_own (hk : v.cb = k) (hp : v.perl = true) :
    activeFresh (v :: stack) k = activeFresh stack k + if v.fresh then 1 else 0 := by
  cases hf : v.fresh <;> simp [activeFresh, hk, hp, hf]

theorem active_cons_other (stack : List Invocation) (h : ¬ (v.cb = k ∧ v.perl = true)) :
    active (v :: stack) k = active stack k ∧ activeFresh (v :: stack) k = activeFresh stack k := by
  constructor <;> simp only [active, activeFresh, List.countP_cons] <;> simp_all

/-- A call that is not one of the record's handler. -/
theorem other (hv : ¬ (v.cb = k ∧ v.perl = true)) :
    RecordOk (v :: stack) k cb ↔ RecordOk stack k cb := by
  obtain ⟨ha, hf⟩ := active_cons_other stack hv
  constructor
  · intro h
    exact ⟨fun r hr => ha ▸ h.handler r hr, fun a hm => hf ▸ h.args a hm, h.argsN,
      fun w hw => h.saved w (List.mem_cons_of_mem v hw), h.released⟩
  · intro h
    refine ⟨fun r hr => ha ▸ h.handler r hr, fun a hm => hf ▸ h.args a hm, h.argsN,
      fun w hw hk hp => ?_, h.released⟩
    rcases List.mem_cons.mp hw with rfl | hw
    · exact absurd ⟨hk, hp⟩ hv
    · exact h.saved w hw hk hp

/-- A call begins. -/
theorem begins (h : RecordOk stack k cb) (hk : v.cb = k) (hp : v.perl = true)
    (hn : v.n = cb.argsN) (hf : v.fresh = !cb.decremented) :
    RecordOk (v :: stack) k (beginCall cb) := by
  have hsaved : v.n = if v.fresh then cb.args.length else 0 := by
    rw [hn, h.argsN, hf]
    cases cb.decremented <;> rfl
  have hbase : (beginCall cb).base = cb.base := rfl
  refine ⟨fun r hr => ?_, fun a ha => ?_, ?_, fun w hw hk' hp' => ?_, h.released⟩
  · obtain ⟨r', hr', rfl⟩ := Option.map_eq_some_iff.mp hr
    rw [h.handler r' hr', active_cons_own hk hp, hbase]
    omega
  · rw [activeFresh_cons_own hk hp, hf, hbase]
    cases hd : cb.decremented with
    | true =>
      have hzero : cb.argsN = 0 := by rw [h.argsN, hd, if_pos rfl]
      simp only [beginCall, hzero, addRefs_zero] at ha
      rw [h.args a ha]
      simp
    | false =>
      have hlen : cb.argsN = cb.args.length := by rw [h.argsN, hd]; rfl
      simp only [beginCall, hlen, addRefs_length] at ha
      obtain ⟨a', ha', rfl⟩ := List.mem_map.mp ha
      rw [h.args a' ha']
      simp
      omega
  · simp only [beginCall, length_addRefs]
    exact h.argsN
  · simp only [beginCall, length_addRefs]
    rcases List.mem_cons.mp hw with rfl | hw
    · exact hsaved
    · exact h.saved w hw hk' hp'

/-- A call ends. -/
theorem ends (h : RecordOk (v :: rest) k cb) (hk : v.cb = k) (hp : v.perl = true) :
    RecordOk rest k (endCall cb v.n v.decrefcnts) := by
  have hn := h.saved v List.mem_cons_self hk hp
  have hcall : RecordOk rest k
      { cb with args := addRefs (-1) v.n cb.args, handler := cb.handler.map (· - 1) } := by
    refine ⟨fun r hr => ?_, fun a ha => ?_, ?_, fun w hw hk' hp' => ?_, h.released⟩
    · obtain ⟨r', hr', rfl⟩ := Option.map_eq_some_iff.mp hr
      show r' - 1 = cb.base + _
      rw [h.handler r' hr', active_cons_own hk hp]
      omega
    · have hargs := h.args
      rw [activeFresh_cons_own hk hp] at hargs
      show a = cb.base + _
      cases hf : v.fresh with
      | true =>
        simp only [hn, hf, if_true, addRefs_length] at ha
        obtain ⟨a', ha', rfl⟩ := List.mem_map.mp ha
        rw [hargs a' ha', hf]
        simp
        omega
      | false =>
        simp only [hn, hf, Bool.false_eq_true, if_false, addRefs_zero] at ha
        rw [hargs a ha, hf]
        simp
    · simp only [length_addRefs]
      exact h.argsN
    · simp only [length_addRefs]
      exact h.saved w (List.mem_cons_of_mem v hw) hk' hp'
  rw [endCall]
  split
  · exact hcall.dec
  · exact hcall

end RecordOk

/-- Every record with its calls, and every call is of a record. -/
structure BalanceInv (s : CbState) : Prop where
  records : ∀ (k : Nat) (cb : CbRecord), s.cbs[k]? = some cb → RecordOk s.stack k cb
  stack : ∀ v ∈ s.stack, v.cb < s.cbs.length

namespace BalanceInv

/-- A change of some records by one of the functions that release references. -/
theorem map (h : BalanceInv s) {f : CbRecord → CbRecord}
    (hf : ∀ k cb, RecordOk s.stack k cb → RecordOk s.stack k (f cb)) (hcbs : s'.cbs = s.cbs.map f)
    (hstk : s'.stack = s.stack) : BalanceInv s' := by
  refine ⟨fun k cb hk => ?_, fun v hv => ?_⟩
  · rw [hcbs, List.getElem?_map] at hk
    obtain ⟨cb', hk', rfl⟩ := Option.map_eq_some_iff.mp hk
    rw [hstk]
    exact hf k cb' (h.records k cb' hk')
  · rw [hcbs, List.length_map]
    exact h.stack v (hstk ▸ hv)

theorem modify (h : BalanceInv s) {f : CbRecord → CbRecord}
    (hf : ∀ cb, RecordOk s.stack k cb → RecordOk s.stack k (f cb)) :
    BalanceInv { s with cbs := s.cbs.modify k f } := by
  refine ⟨fun j cb hj => ?_, fun v hv => ?_⟩
  · rw [List.getElem?_modify] at hj
    obtain ⟨cb', hj', rfl⟩ := Option.map_eq_some_iff.mp hj
    by_cases hkj : k = j
    · subst hkj
      rw [if_pos rfl]
      exact hf cb' (h.records k cb' hj')
    · rw [if_neg hkj]
      exact h.records j cb' hj'
  · rw [List.length_modify]
    exact h.stack v hv

theorem destroyPool (h : BalanceInv s) (pool : Nat) : BalanceInv (s.ngxDestroyPool pool) := by
  refine h.map (f := fun cb =>
    if cb.pool = pool ∧ cb.registered then ngxeCallbackCleanup cb else cb) (fun k cb hcb => ?_)
    rfl rfl
  split
  · exact hcb.cleanup
  · exact hcb

theorem clearTimer (h : BalanceInv s) (pool : Nat) : BalanceInv (s.clearTimer pool) := by
  have hdec : BalanceInv { s with
      cbs := s.cbs.map fun cb => if cb.pool = pool then ngxeCallbackDec cb else cb } := by
    refine h.map (fun k cb hcb => ?_) rfl rfl
    split
    · exact hcb.dec
    · exact hcb
  exact hdec.destroyPool pool

/-- A new record is not called yet. -/
theorem create (h : BalanceInv s) (registered perl : Bool) (argsN : Nat) :
    BalanceInv { s with cbs := s.cbs ++ [.new pool registered perl argsN] } := by
  refine ⟨fun k cb hk => ?_, fun v hv => ?_⟩
  · rcases Nat.lt_or_ge k s.cbs.length with hlt | hge
    · rw [List.getElem?_append_left hlt] at hk
      exact h.records k cb hk
    · rw [List.getElem?_append_right hge, List.getElem?_singleton] at hk
      split at hk
      · next hz =>
        cases hk
        have hnone : ∀ v ∈ s.stack, v.cb ≠ k := by
          intro v hv hvk
          have := h.stack v hv
          omega
        have hactive : active s.stack k = 0 := by
          simpa [active, List.countP_eq_zero] using fun v hv hvk => absurd hvk (hnone v hv)
        have hfresh : activeFresh s.stack k = 0 := by
          simpa [activeFresh, List.countP_eq_zero] using fun v hv hvk => absurd hvk (hnone v hv)
        refine ⟨fun r hr => ?_, fun a ha => ?_, by simp [CbRecord.new], fun v hv hvk => ?_, rfl⟩
        · rw [hactive]
          cases perl with
          | true => cases hr; rfl
          | false => cases hr
        · rw [hfresh, List.eq_of_mem_replicate ha]
          rfl
        · exact absurd hvk (hnone v hv)
      · cases hk
  · rw [List.length_append]
    exact Nat.lt_of_lt_of_le (h.stack v hv) (Nat.le_add_right _ _)

theorem call (h : BalanceInv s) (hk : s.cbs[k]? = some cb) (decrefcnts : Bool) :
    BalanceInv (s.ngxeCallback k cb decrefcnts) := by
  have hlt : k < s.cbs.length := (List.getElem?_eq_some_iff.mp hk).1
  rw [CbState.ngxeCallback]
  split
  · refine ⟨fun j c hj => ?_, fun v hv => ?_⟩
    · rw [List.getElem?_modify] at hj
      obtain ⟨c', hj', rfl⟩ := Option.map_eq_some_iff.mp hj
      by_cases hkj : k = j
      · subst hkj
        obtain rfl : cb = c' := Option.some.inj (hk.symm.trans hj')
        rw [if_pos rfl]
        exact (h.records k cb hk).begins rfl rfl rfl rfl
      · rw [if_neg hkj]
        exact (RecordOk.other fun hv => hkj hv.1).mpr (h.records j c' hj')
    · rw [List.length_modify]
      rcases List.mem_cons.mp hv with rfl | hv
      · exact hlt
      · exact h.stack v hv
  · refine ⟨fun j c hj => ?_, fun v hv => ?_⟩
    · exact (RecordOk.other fun hv => Bool.false_ne_true hv.2).mpr (h.records j c hj)
    · rcases List.mem_cons.mp hv with rfl | hv
      · exact hlt
      · exact h.stack v hv

theorem ret (h : BalanceInv s) (hstk : s.stack = v :: rest) :
    BalanceInv (s.callReturn v cb rest) := by
  have hrest : ∀ w ∈ rest, w.cb < s.cbs.length :=
    fun w hw => h.stack w (hstk ▸ List.mem_cons_of_mem v hw)
  have hrecords := h.records
  rw [hstk] at hrecords
  rw [CbState.callReturn]
  split
  · next hp =>
    refine ⟨fun j c hj => ?_, fun w hw => ?_⟩
    · rw [List.getElem?_modify] at hj
      obtain ⟨c', hj', rfl⟩ := Option.map_eq_some_iff.mp hj
      by_cases hkj : v.cb = j
      · rw [if_pos hkj]
        exact (hrecords j c' hj').ends hkj hp
      · rw [if_neg hkj]
        exact (RecordOk.other fun hv => hkj hv.1).mp (hrecords j c' hj')
    · rw [List.length_modify]
      exact hrest w hw
  · next hp =>
    exact ⟨fun j c hj => (RecordOk.other fun hv => hp hv.2).mp (hrecords j c hj), hrest⟩

end BalanceInv

/-- No call destroys the pool of a record whose Perl handler is running. -/
def OwnPoolKept (s : CbState) : CbInput → Prop
  | .close pool | .timeoutClear pool | .intervalClear pool | .destroyPool pool =>
    ∀ v ∈ s.stack, v.perl = true → (s.cbs[v.cb]?).map CbRecord.pool ≠ some pool
  | _ => True

instance : Decidable (OwnPoolKept s i) := by
  unfold OwnPoolKept
  split <;> infer_instance

theorem pool_dec : (ngxeCallbackDec cb).pool = cb.pool := by
  rw [ngxeCallbackDec]
  split <;> rfl

theorem pool_cleanup : (ngxeCallbackCleanup cb).pool = cb.pool := by
  rw [ngxeCallbackCleanup]
  split
  · rfl
  · exact pool_dec

theorem pool_endCall {decrefcnts : Bool} : (endCall cb n decrefcnts).pool = cb.pool := by
  rw [endCall]
  split
  · exact pool_dec
  · rfl

/-- The pools of the calls in progress are there. -/
structure KeptInv (s : CbState) : Prop where
  kept : ∀ v ∈ s.stack, v.perl = true → v.live = true →
    ∃ cb, s.cbs[v.cb]? = some cb ∧ s.destroyed[cb.pool]? = some false
  stray : s.stray = false

/-- `s'` has the records of `s`, in the same pools. -/
def SamePools (s s' : CbState) : Prop :=
  ∀ (k : Nat) (cb : CbRecord), s.cbs[k]? = some cb →
    ∃ cb', s'.cbs[k]? = some cb' ∧ cb'.pool = cb.pool

theorem samePools_map {f : CbRecord → CbRecord} (hf : ∀ cb, (f cb).pool = cb.pool)
    (hcbs : s'.cbs = s.cbs.map f) : SamePools s s' := by
  intro k cb hk
  refine ⟨f cb, ?_, hf cb⟩
  rw [hcbs, List.getElem?_map, hk]
  rfl

theorem samePools_modify {f : CbRecord → CbRecord} (hf : ∀ cb, (f cb).pool = cb.pool)
    (hcbs : s'.cbs = s.cbs.modify k f) : SamePools s s' := by
  intro j cb hj
  refine ⟨if k = j then f cb else cb, ?_, ?_⟩
  · rw [hcbs, List.getElem?_modify, hj]
    rfl
  · split
    · exact hf cb
    · rfl

namespace KeptInv

/-- A step that destroys no pool of a call in progress. -/
theorem update (h : KeptInv s) (hpools : SamePools s s') (hstk : ∀ v ∈ s'.stack, v ∈ s.stack)
    (hstray : s'.stray = s.stray)
    (hd : ∀ v ∈ s.stack, v.perl = true → ∀ cb, s.cbs[v.cb]? = some cb →
      s.destroyed[cb.pool]? = some false → s'.destroyed[cb.pool]? = some false) :
    KeptInv s' := by
  refine ⟨fun v hv hp hl => ?_, hstray.trans h.stray⟩
  obtain ⟨cb, hcb, hpool⟩ := h.kept v (hstk v hv) hp hl
  obtain ⟨cb', hcb', he⟩ := hpools v.cb cb hcb
  exact ⟨cb', hcb', he ▸ hd v (hstk v hv) hp cb hcb hpool⟩

/-- A step that leaves the pools alone. -/
theorem same (h : KeptInv s) (hpools : SamePools s s') (hstk : s'.stack = s.stack)
    (hstray : s'.stray = s.stray) (hd : s'.destroyed = s.destroyed) : KeptInv s' :=
  h.update hpools (fun _ hv => hstk ▸ hv) hstray fun _ _ _ _ _ hpool => hd ▸ hpool

/-- A pool is destroyed of which no handler is running. -/
theorem destroy (h : KeptInv s) (hpools : SamePools s s') (hstk : s'.stack = s.stack)
    (hstray : s'.stray = s.stray) (hd : s'.destroyed = s.destroyed.set pool true)
    (hG : ∀ v ∈ s.stack, v.perl = true → (s.cbs[v.cb]?).map CbRecord.pool ≠ some pool) :
    KeptInv s' := by
  refine h.update hpools (fun v hv => hstk ▸ hv) hstray fun v hv hp cb hcb hpool => ?_
  have hne : pool ≠ cb.pool := by
    rintro rfl
    exact hG v hv hp (by rw [hcb]; rfl)
  rw [hd, List.getElem?_set_ne hne]
  exact hpool

theorem call (h : KeptInv s) (hk : s.cbs[k]? = some cb) (decrefcnts : Bool) :
    KeptInv (s.ngxeCallback k cb decrefcnts) := by
  rw [CbState.ngxeCallback]
  split
  · refine ⟨fun v hv hp hl => ?_, h.stray⟩
    rcases List.mem_cons.mp hv with rfl | hv
    · -- the call was let in with its pool there
      have hgone : s.gone cb = false := by simpa using hl
      rw [CbState.gone] at hgone
      refine ⟨beginCall cb, by simp [hk], ?_⟩
      show s.destroyed[cb.pool]? = some false
      cases hd : s.destroyed[cb.pool]? with
      | none =>
        rw [hd] at hgone
        cases hgone
      | some b =>
        rw [hd] at hgone
        exact congrArg some hgone
    · obtain ⟨c, hc, hpool⟩ := h.kept v hv hp hl
      have hpools : SamePools s { s with cbs := s.cbs.modify k beginCall } :=
        samePools_modify (f := beginCall) (fun _ => rfl) rfl
      obtain ⟨c', hc', he⟩ := hpools v.cb c hc
      exact ⟨c', hc', he ▸ hpool⟩
  · refine ⟨fun v hv hp hl => ?_, h.stray⟩
    rcases List.mem_cons.mp hv with rfl | hv
    · cases hp
    · exact h.kept v hv hp hl

theorem ret (h : KeptInv s) (hstk : s.stack = v :: rest) (hcb : s.cbs[v.cb]? = some cb) :
    KeptInv (s.callReturn v cb rest) := by
  have hrest : ∀ w ∈ rest, w ∈ s.stack := fun w hw => hstk ▸ List.mem_cons_of_mem v hw
  rw [CbState.callReturn]
  split
  · next hp =>
    refine h.update (samePools_modify (fun _ => pool_endCall) rfl) hrest ?_
      fun _ _ _ _ _ hpool => hpool
    -- the record is looked up in a pool that is there
    have hgone : (v.live && s.gone cb) = false := by
      cases hl : v.live with
      | false => rfl
      | true =>
        obtain ⟨c, hc, hpool⟩ := h.kept v (hstk ▸ List.mem_cons_self) hp hl
        obtain rfl : c = cb := Option.some.inj (hc.symm.trans hcb)
        simp [CbState.gone, hpool]
    show (s.stray || (v.live && s.gone cb)) = s.stray
    rw [hgone, Bool.or_false]
  · exact h.update (fun k cb hk => ⟨cb, hk, rfl⟩) hrest rfl fun _ _ _ _ _ hpool => hpool

end KeptInv

theorem samePools_destroyPool (s : CbState) (pool : Nat) :
    SamePools s (s.ngxDestroyPool pool) := by
  refine samePools_map (f := fun cb =>
    if cb.pool = pool ∧ cb.registered then ngxeCallbackCleanup cb else cb) (fun cb => ?_) rfl
  split
  · exact pool_cleanup
  · rfl

theorem samePools_clearTimer : SamePools s (s.clearTimer pool) := by
  intro k cb hk
  have hdec : SamePools s { s with
      cbs := s.cbs.map fun cb => if cb.pool = pool then ngxeCallbackDec cb else cb } := by
    refine samePools_map (fun cb => ?_) rfl
    split
    · exact pool_dec
    · rfl
  obtain ⟨cb', hk', he⟩ := hdec k cb hk
  obtain ⟨cb'', hk'', he'⟩ := samePools_destroyPool _ pool k cb' hk'
  exact ⟨cb'', hk'', he'.trans he⟩

theorem keptInv_step (h : KeptInv s) (hG : OwnPoolKept s i) (hs : s.Step i s') :
    KeptInv s' := by
  cases hs with
  | createPool =>
    refine h.update (fun k cb hk => ⟨cb, hk, rfl⟩) (fun _ hv => hv) rfl
      fun _ _ _ cb _ hpool => ?_
    have hlt := (List.getElem?_eq_some_iff.mp hpool).1
    rw [List.getElem?_append_left hlt]
    exact hpool
  | create registered perl argsN hpool =>
    refine h.same (fun k cb hk => ⟨cb, ?_, rfl⟩) rfl rfl rfl
    have hlt := (List.getElem?_eq_some_iff.mp hk).1
    rw [List.getElem?_append_left hlt]
    exact hk
  | call decrefcnts hk => exact h.call hk decrefcnts
  | ret hstk hcb => exact h.ret hstk hcb
  | dec k => exact h.same (samePools_modify (fun _ => pool_dec) rfl) rfl rfl rfl
  | cleanup k => exact h.same (samePools_modify (fun _ => pool_cleanup) rfl) rfl rfl rfl
  | close hpool =>
    rw [CbState.ngxeClose]
    split
    · exact h
    · exact h.destroy (samePools_destroyPool _ _) rfl rfl rfl hG
  | timeoutClear hpool => exact h.destroy samePools_clearTimer rfl rfl rfl hG
  | intervalClear hpool => exact h.destroy samePools_clearTimer rfl rfl rfl hG
  | destroyPool hpool => exact h.destroy (samePools_destroyPool _ _) rfl rfl rfl hG

/-- **Records outlive the calls of them** in a run in which no call destroys the pool of a record
    whose handler is running: `ngxe_callback` looks up no record in a pool that was destroyed
    during the call. -/
theorem records_kept (s : CbState) (h : s.Reachable OwnPoolKept) : s.stray = false := by
  have hinit : KeptInv .init := ⟨nofun, rfl⟩
  have hinv : KeptInv s :=
    h.invariant hinit fun s i s' hs hG hstep => keptInv_step hs hG (CbState.step_cases hstep)
  exact hinv.stray

/-- The callback of one connection closes another and returns. -/
theorem records_kept_other : ∃ s : CbState, s.Reachable OwnPoolKept ∧ s.stray = false ∧
    s.destroyed = [false, true] ∧ s.stack = [] := by
  obtain ⟨s, hr, hs⟩ := Machine.Reaches.of_run_map (M := callbacks) (G := OwnPoolKept)
    (s := .init) (fun s => (s.destroyed, s.stack))
    [.createPool, .createPool, .create 0 true true 5, .create 1 true true 5, .call 0 false,
      .close 1, .ret]
    (show _ = some ([false, true], []) by decide)
  simp only [Prod.mk.injEq] at hs
  exact ⟨s, hr, records_kept s hr, hs⟩

/-- A reader callback closes its connection: the record is read after the callback has
    returned. -/
theorem record_read_after_close :
    ¬ ∀ s : CbState, s.Reachable Machine.always → s.stray = false := by
  intro hall
  obtain ⟨s, hr, hs⟩ := Machine.Reaches.of_run_map (M := callbacks) (G := Machine.always)
    (s := .init) (fun s => s.stray)
    [.createPool, .create 0 true true 5, .call 0 false, .close 0, .ret]
    (show _ = some true by decide)
  exact absurd (hs.symm.trans (hall s hr)) (by decide)

end NginxEngine.XS
