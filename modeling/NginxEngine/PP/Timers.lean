import Mathlib.Data.List.Perm.Basic
import NginxEngine.Machine
import NginxEngine.Trace
import NginxEngine.PP.Connection

/-!
# The timers of the pure-Perl engine

`@TIMERS` holds the arrays that `ngxe_timeout_set` and `ngxe_interval_set` have returned, in the
order in which they are due. A timer is cleared by putting undef in its place, and the loop drops
such places when it meets them at the front. `_timer_put` reads `$TIMERS[$i]->[0]` while it looks
for its place: of an undefined element Perl makes a new empty array there.

## Main definitions

- `timerPut`, `timerDel` — `_timer_put` and `_timer_del`
- `TimerState.turn` — one round of the loop over the timers that are due
- `Live` — a timer that was set and neither cleared nor, if it is a timeout, fired
- `TimersOk` — `@TIMERS` holds the live timers, and only they fire
- `NoGap` — `_timer_put` reads no undefined element

## Main results

- `timers_live` — the condition under which every run keeps `@TIMERS` in order
- `cleared_timer_revived` — a timer that is set behind a cleared one
-/

namespace NginxEngine.PP

/-- What `ngxe_timeout_set` and `ngxe_interval_set` return: when the timer is due, and the
    interval. The callback and its arguments are the program's. -/
structure Tev where
  due : Int
  dt : Option Int
deriving DecidableEq, Repr

/-- An element of `@TIMERS`; timers are told apart by the order in which they were set. -/
inductive Elem
  | undef
  /-- An array that Perl has made of undef. -/
  | empty
  | tev (id : Nat)
deriving DecidableEq, Repr

/-- `$TIMERS[$i]->[0]` leaves an array in the place of undef. -/
def Elem.vivify : Elem → Elem
  | .undef => .empty
  | x => x

/-- `_timer_put` of a timer that is due at `deadline`. -/
def timerPut (due : Elem → Int) (deadline : Int) (id : Nat) : List Elem → List Elem
  | [] => [.tev id]
  | y :: rest =>
    if due y < deadline then y.vivify :: timerPut due deadline id rest
    else .tev id :: y.vivify :: rest

/-- The elements that `_timer_put` reads. -/
def timerReads (due : Elem → Int) (deadline : Int) : List Elem → List Elem
  | [] => []
  | y :: rest => if due y < deadline then y :: timerReads due deadline rest else [y]

/-- `_timer_del`. -/
def timerDel (id : Nat) : List Elem → List Elem
  | [] => []
  | y :: rest => if y = .tev id then .undef :: rest else y :: timerDel id rest

/-- What is seen of the timers from outside. -/
inductive TObs
  | timeoutSet (id : Nat)
  | intervalSet (id : Nat)
  | cleared (id : Nat)
  /-- The callback was called. -/
  | fired (id : Nat)
deriving DecidableEq, Repr

/-- Where control is. -/
inductive Control
  /-- In the program, or in the part of the loop that serves the connections. -/
  | program
  /-- In the loop over the timers. -/
  | pass
  /-- In the callback of a timer. -/
  | callback
  /-- The program has died. -/
  | dead
deriving DecidableEq, Repr

structure TimerState where
  timers : List Elem
  /-- Every array that was ever returned. -/
  tevs : List Tev
  /-- `time`. -/
  now : Int
  /-- `$t` of the current pass. -/
  t : Int
  control : Control
  trace : List TObs
deriving DecidableEq, Repr

inductive TInput
  | tick (n : Nat)
  | timeoutSet (ms : Int)
  | intervalSet (ms : Int)
  | timeoutClear (id : Nat)
  | intervalClear (id : Nat)
  /-- The loop comes to the timers. -/
  | pass
  /-- The `while` loop over the timers goes round. -/
  | turn
  /-- The callback of a timer returns. -/
  | ret
deriving DecidableEq, Repr

namespace TimerState

def init (now : Int) : TimerState where
  timers := []
  tevs := []
  now := now
  t := now
  control := .program
  trace := []

/-- `$TIMERS[$i]->[0]`; undef counts as 0. -/
def due (s : TimerState) : Elem → Int
  | .tev id => (s.tevs[id]?.map Tev.due).getD 0
  | _ => 0

def observe (s : TimerState) (x : TObs) : TimerState := { s with trace := s.trace ++ [x] }

/-- `_timer_put` for `@TIMERS`. -/
def put (s : TimerState) (deadline : Int) (id : Nat) : TimerState :=
  { s with timers := timerPut s.due deadline id s.timers }

/-- A new array is put and returned. -/
def set (s : TimerState) (e : Tev) : TimerState :=
  { s.put e.due s.tevs.length with tevs := s.tevs ++ [e] }

def ngxeTimeoutSet (s : TimerState) (ms : Int) : TimerState :=
  (s.set ⟨s.now + seconds ms, none⟩).observe (.timeoutSet s.tevs.length)

def ngxeIntervalSet (s : TimerState) (ms : Int) : TimerState :=
  (s.set ⟨s.now + seconds ms, some (seconds ms)⟩).observe (.intervalSet s.tevs.length)

def ngxeTimeoutClear (s : TimerState) (id : Nat) : TimerState :=
  { s with timers := timerDel id s.timers }.observe (.cleared id)

def ngxeIntervalClear (s : TimerState) (id : Nat) : TimerState := s.ngxeTimeoutClear id

/-- `defined $tev->[1] && $tev->[1] > 0`. -/
def interval (s : TimerState) (id : Nat) : Option Int :=
  ((s.tevs[id]?).bind Tev.dt).filter fun dt => decide (0 < dt)

/-- `$tev->[0] = $t + $tev->[1]`. -/
def restamp (s : TimerState) (id : Nat) (dt : Int) : TimerState :=
  { s with tevs := s.tevs.modify id fun e => { e with due := s.t + dt } }

/-- The timer at the front is due: it is taken out, an interval is put back, and the callback
    is called. -/
def fire (s : TimerState) (id : Nat) (rest : List Elem) : TimerState :=
  let s := { s with timers := rest }
  let s := match s.interval id with
    | some dt => (s.restamp id dt).put (s.t + dt) id
    | none => s
  { s.observe (.fired id) with control := .callback }

/-- One round of `while (@TIMERS)`. -/
def turn (s : TimerState) : TimerState :=
  match s.timers with
  | [] => { s with control := .program }
  | .undef :: rest => { s with timers := rest }
  | .empty :: rest =>
    -- there is no callback to call
    if s.t < 0 then { s with control := .program }
    else { s with timers := rest, control := .dead }
  | .tev id :: rest =>
    if s.t < s.due (.tev id) then { s with control := .program } else s.fire id rest

/-- The program's code is running. -/
def inPerl (s : TimerState) : Bool :=
  match s.control with
  | .program | .callback => true
  | _ => false

def step (s : TimerState) : TInput → Option TimerState
  | .tick n => some { s with now := s.now + n }
  | .timeoutSet ms => if s.inPerl then some (s.ngxeTimeoutSet ms) else none
  | .intervalSet ms => if s.inPerl then some (s.ngxeIntervalSet ms) else none
  | .timeoutClear id =>
    if s.inPerl ∧ id < s.tevs.length then some (s.ngxeTimeoutClear id) else none
  | .intervalClear id =>
    if s.inPerl ∧ id < s.tevs.length then some (s.ngxeIntervalClear id) else none
  | .pass => if s.control = .program then some { s with t := s.now, control := .pass } else none
  | .turn => if s.control = .pass then some s.turn else none
  | .ret => if s.control = .callback then some { s with control := .pass } else none

end TimerState

/-- The steps, case by case, with their guards. -/
inductive TStep (s : TimerState) : TInput → TimerState → Prop
  | tick (n : Nat) : TStep s (.tick n) { s with now := s.now + n }
  | timeoutSet (ms : Int) (hp : s.inPerl = true) : TStep s (.timeoutSet ms) (s.ngxeTimeoutSet ms)
  | intervalSet (ms : Int) (hp : s.inPerl = true) :
      TStep s (.intervalSet ms) (s.ngxeIntervalSet ms)
  | clear {i : TInput} (id : Nat) (hi : i = .timeoutClear id ∨ i = .intervalClear id)
      (hid : id < s.tevs.length) : TStep s i (s.ngxeTimeoutClear id)
  | pass (hc : s.control = .program) : TStep s .pass { s with t := s.now, control := .pass }
  /-- The `while` loop ends. -/
  | ends (hc : s.control = .pass)
      (hl : ∀ id rest, s.timers = .tev id :: rest → s.t < s.due (.tev id))
      (hu : ∀ rest, s.timers ≠ .undef :: rest) : TStep s .turn { s with control := .program }
  | drops (rest : List Elem) (hl : s.timers = .undef :: rest) :
      TStep s .turn { s with timers := rest }
  | dies (rest : List Elem) (hl : s.timers = .empty :: rest) :
      TStep s .turn { s with timers := rest, control := .dead }
  | fires (id : Nat) (rest : List Elem) (hc : s.control = .pass) (hl : s.timers = .tev id :: rest)
      (hdue : s.due (.tev id) ≤ s.t) : TStep s .turn (s.fire id rest)
  | ret (hc : s.control = .callback) : TStep s .ret { s with control := .pass }

theorem timerTurn_cases {s : TimerState} (hc : s.control = .pass) : TStep s .turn s.turn := by
  rw [TimerState.turn]
  split
  · next hl => exact .ends hc (fun id rest he => by rw [hl] at he; cases he) (by simp [hl])
  · next rest hl => exact .drops rest hl
  · next rest hl =>
    split
    · exact .ends hc (fun id rest he => by rw [hl] at he; cases he) (by simp [hl])
    · exact .dies rest hl
  · next id rest hl =>
    split
    · next hlt =>
      refine .ends hc (fun j rest' he => ?_) (by simp [hl])
      cases hl.symm.trans he
      exact hlt
    · next hge => exact .fires id rest hc hl (Int.not_lt.mp hge)

theorem timerStep_cases {s s' : TimerState} {i : TInput} (h : s.step i = some s') :
    TStep s i s' := by
  cases i with
  | tick n =>
    cases h
    exact .tick n
  | timeoutSet ms =>
    simp only [TimerState.step, Option.ite_none_right_eq_some, Option.some.injEq] at h
    obtain ⟨hp, rfl⟩ := h
    exact .timeoutSet ms hp
  | intervalSet ms =>
    simp only [TimerState.step, Option.ite_none_right_eq_some, Option.some.injEq] at h
    obtain ⟨hp, rfl⟩ := h
    exact .intervalSet ms hp
  | timeoutClear id =>
    simp only [TimerState.step, Option.ite_none_right_eq_some, Option.some.injEq] at h
    obtain ⟨⟨_, hid⟩, rfl⟩ := h
    exact .clear id (.inl rfl) hid
  | intervalClear id =>
    simp only [TimerState.step, Option.ite_none_right_eq_some, Option.some.injEq] at h
    obtain ⟨⟨_, hid⟩, rfl⟩ := h
    exact .clear id (.inr rfl) hid
  | pass =>
    simp only [TimerState.step, Option.ite_none_right_eq_some, Option.some.injEq] at h
    obtain ⟨hc, rfl⟩ := h
    exact .pass hc
  | turn =>
    simp only [TimerState.step, Option.ite_none_right_eq_some, Option.some.injEq] at h
    obtain ⟨hc, rfl⟩ := h
    exact timerTurn_cases hc
  | ret =>
    simp only [TimerState.step, Option.ite_none_right_eq_some, Option.some.injEq] at h
    obtain ⟨hc, rfl⟩ := h
    exact .ret hc

def timerLoop : Machine TimerState TInput := ⟨TimerState.step⟩

/-- The states of every run, of which each step meets `G`. -/
def TimerState.Reachable (G : TimerState → TInput → Prop) (s : TimerState) : Prop :=
  ∃ now, timerLoop.Reaches G (.init now) s

/-- The timer was returned by a set call and was neither cleared nor, if it is a timeout,
    fired. -/
def Live (l : List TObs) (id : Nat) : Prop :=
  .cleared id ∉ l ∧ (.intervalSet id ∈ l ∨ .timeoutSet id ∈ l ∧ .fired id ∉ l)

instance {l : List TObs} {id : Nat} : Decidable (Live l id) := by
  unfold Live
  infer_instance

/-- The defined elements of `@TIMERS` are the live timers, each once; only live timers have
    fired, and no pass has failed. -/
structure TimersOk (s : TimerState) : Prop where
  entry : ∀ x ∈ s.timers, x ≠ .undef → ∃ id, x = .tev id ∧ Live s.trace id
  once : ∀ id, Live s.trace id → s.timers.count (.tev id) = 1
  fired : Everywhere (fun before x => ∀ id, x = .fired id → Live before id) s.trace
  alive : s.control ≠ .dead

/-- Intervals are of at least 500 ms. -/
def LongIntervals (_ : TimerState) : TInput → Prop
  | .intervalSet ms => 500 ≤ ms
  | _ => True

/-- Besides, `_timer_put` reads no undefined element. -/
def NoGap (s : TimerState) (i : TInput) : Prop :=
  LongIntervals s i ∧
  match i, s.timers with
  | .timeoutSet ms, _ | .intervalSet ms, _ =>
    .undef ∉ timerReads s.due (s.now + seconds ms) s.timers
  | .turn, .tev id :: rest =>
    ∀ dt ∈ s.interval id, .undef ∉ timerReads (s.restamp id dt).due (s.t + dt) rest
  | _, _ => True

instance {s : TimerState} {i : TInput} : Decidable (LongIntervals s i) := by
  unfold LongIntervals
  split <;> infer_instance

instance {s : TimerState} {i : TInput} : Decidable (NoGap s i) := by
  unfold NoGap
  refine @instDecidableAnd _ _ inferInstance ?_
  split <;> infer_instance

/-! ### `_timer_put` and `_timer_del` -/

section
variable {due : Elem → Int} {deadline : Int} {id j : Nat} {l : List Elem} {x : Elem}

theorem vivify_of_ne (h : x ≠ .undef) : x.vivify = x := by
  cases x with
  | undef => exact absurd rfl h
  | empty => rfl
  | tev id => rfl

/-- Where no undefined element is read, a timer is put between the others. -/
theorem timerPut_perm (h : .undef ∉ timerReads due deadline l) :
    (timerPut due deadline id l).Perm (.tev id :: l) := by
  induction l with
  | nil => exact .refl _
  | cons y rest ih =>
    rw [timerReads] at h
    rw [timerPut]
    split at h
    · next hlt =>
      have hy : y ≠ .undef := fun he => h (he ▸ List.mem_cons_self)
      have hrest := fun hm => h (List.mem_cons_of_mem y hm)
      rw [if_pos hlt, vivify_of_ne hy]
      exact ((ih hrest).cons y).trans (.swap _ _ _)
    · next hge =>
      have hy : y ≠ .undef := fun he => h (he ▸ List.mem_singleton_self _)
      rw [if_neg hge, vivify_of_ne hy]

theorem count_timerDel_self : (timerDel id l).count (.tev id) = l.count (.tev id) - 1 := by
  induction l with
  | nil => rfl
  | cons y rest ih =>
    rw [timerDel]
    split
    · next hy => simp [hy]
    · next hy => simp [hy, ih]

theorem count_timerDel_ne (hj : j ≠ id) : (timerDel id l).count (.tev j) = l.count (.tev j) := by
  induction l with
  | nil => rfl
  | cons y rest ih =>
    rw [timerDel]
    split
    · next hy =>
      have hne : (Elem.tev id) ≠ .tev j := fun he => hj (Elem.tev.inj he).symm
      simp [hy, hne]
    · next hy => simp [List.count_cons, ih]

theorem mem_timerDel (h : x ∈ timerDel id l) : x ∈ l ∨ x = .undef := by
  induction l with
  | nil => exact .inl h
  | cons y rest ih =>
    rw [timerDel] at h
    split at h
    · rcases List.mem_cons.mp h with hx | hx
      · exact .inr hx
      · exact .inl (List.mem_cons_of_mem y hx)
    · rcases List.mem_cons.mp h with hx | hx
      · exact .inl (hx ▸ List.mem_cons_self)
      · exact (ih hx).imp (List.mem_cons_of_mem y) fun hu => hu

end

/-! ### The record of a timer -/

variable {s s' : TimerState} {id : Nat} {i : TInput}

theorem interval_set_lt {e : Tev} (hid : id < s.tevs.length) :
    (s.set e).interval id = s.interval id := by
  simp only [TimerState.interval, TimerState.set, List.getElem?_append_left hid]

theorem interval_set_self {e : Tev} :
    (s.set e).interval s.tevs.length = e.dt.filter fun dt => decide (0 < dt) := by
  simp [TimerState.interval, TimerState.set]

theorem interval_restamp {dt : Int} {j : Nat} : (s.restamp id dt).interval j = s.interval j := by
  simp only [TimerState.interval, TimerState.restamp, List.getElem?_modify]
  by_cases hj : id = j
  · simp only [hj, if_true]
    cases s.tevs[j]? <;> rfl
  · simp [hj]

/-- A timer that is not put back fires. -/
theorem fire_of_timeout (rest : List Elem) (hint : s.interval id = none) :
    s.fire id rest =
      { s with timers := rest, trace := s.trace ++ [.fired id], control := .callback } := by
  have hint' : ({ s with timers := rest } : TimerState).interval id = none := hint
  simp only [TimerState.fire, hint']
  rfl

/-- An interval fires. -/
theorem fire_of_interval (rest : List Elem) {dt : Int} (hint : s.interval id = some dt) :
    s.fire id rest =
      { (({ s with timers := rest } : TimerState).restamp id dt).put (s.t + dt) id with
        trace := s.trace ++ [.fired id], control := .callback } := by
  have hint' : ({ s with timers := rest } : TimerState).interval id = some dt := hint
  simp only [TimerState.fire, hint']
  rfl

/-! ### The invariant -/

/-- The kind of a timer, and what was done to it, is as the program and the loop had it. -/
structure TimerInv (s : TimerState) : Prop where
  alive : s.control ≠ .dead
  noEmpty : .empty ∉ s.timers
  count : ∀ id, s.timers.count (.tev id) = if Live s.trace id then 1 else 0
  fired : Everywhere (fun before x => ∀ id, x = .fired id → Live before id) s.trace
  timeout : ∀ id, .timeoutSet id ∈ s.trace → s.interval id = none ∧ id < s.tevs.length
  interval : ∀ id, .intervalSet id ∈ s.trace →
    (s.interval id).isSome = true ∧ id < s.tevs.length
  cleared : ∀ id, .cleared id ∈ s.trace → id < s.tevs.length

theorem TimerInv.ok (h : TimerInv s) : TimersOk s := by
  refine ⟨fun x hx hne => ?_, fun id hlive => ?_, h.fired, h.alive⟩
  · cases x with
    | undef => exact absurd rfl hne
    | empty => exact absurd hx h.noEmpty
    | tev id =>
      have hcount := h.count id
      have hpos : 0 < s.timers.count (.tev id) := List.count_pos_iff.mpr hx
      split at hcount
      · next hlive => exact ⟨id, rfl, hlive⟩
      · omega
  · rw [h.count id, if_pos hlive]

section
variable {l : List TObs} {n : Nat}

section

variable {x : TObs} (hx : x = .timeoutSet n ∨ x = .intervalSet n)
include hx

theorem cleared_ne_set : .cleared id ≠ x := by
  rintro rfl
  rcases hx with hx | hx
  · cases hx
  · cases hx

theorem fired_ne_set : .fired id ≠ x := by
  rintro rfl
  rcases hx with hx | hx
  · cases hx
  · cases hx

end

theorem live_timeoutSet (hne : id ≠ n) : Live (l ++ [.timeoutSet n]) id ↔ Live l id := by
  simp [Live, hne]

theorem live_intervalSet (hne : id ≠ n) : Live (l ++ [.intervalSet n]) id ↔ Live l id := by
  simp [Live, hne]

theorem live_cleared (hne : id ≠ n) : Live (l ++ [.cleared n]) id ↔ Live l id := by
  simp [Live, hne]

theorem not_live_cleared : ¬ Live (l ++ [.cleared n]) n := by simp [Live]

theorem live_fired (hne : id ≠ n) : Live (l ++ [.fired n]) id ↔ Live l id := by
  simp [Live, hne]

theorem live_fired_interval (hn : .intervalSet n ∈ l) : Live (l ++ [.fired n]) n ↔ Live l n := by
  simp [Live, hn]

theorem not_live_fired (hn : .intervalSet n ∉ l) : ¬ Live (l ++ [.fired n]) n := by
  simp [Live, hn]

end

namespace TimerInv

/-- A live timer is one of the program's. -/
theorem lt_of_live (h : TimerInv s) (hlive : Live s.trace id) : id < s.tevs.length := by
  rcases hlive.2 with hi | ⟨ht, _⟩
  · exact (h.interval id hi).2
  · exact (h.timeout id ht).2

theorem lt_of_fired (h : TimerInv s) (hf : .fired id ∈ s.trace) : id < s.tevs.length := by
  obtain ⟨before, after, hl⟩ := List.append_of_mem hf
  obtain ⟨_, hset⟩ := h.fired before _ after hl id rfl
  rcases hset with hi | ⟨ht, _⟩
  · exact (h.interval id (hl ▸ List.mem_append_left _ hi)).2
  · exact (h.timeout id (hl ▸ List.mem_append_left _ ht)).2

/-- A change that only time or control sees. -/
theorem update (h : TimerInv s) (htimers : s'.timers = s.timers) (htevs : s'.tevs = s.tevs)
    (htrace : s'.trace = s.trace) (halive : s'.control ≠ .dead) : TimerInv s' := by
  obtain ⟨timers, tevs, now, t, control, trace⟩ := s'
  cases htimers
  cases htevs
  cases htrace
  exact ⟨halive, h.noEmpty, h.count, h.fired, h.timeout, h.interval, h.cleared⟩

/-- What the trace tells of a new timer. -/
theorem live_new {x : TObs} (h : TimerInv s)
    (hx : x = .timeoutSet s.tevs.length ∨ x = .intervalSet s.tevs.length) (id : Nat) :
    Live (s.trace ++ [x]) id ↔ id = s.tevs.length ∨ Live s.trace id := by
  by_cases hid : id = s.tevs.length
  · have hc : .cleared id ∉ s.trace := fun hc => absurd (h.cleared id hc) (hid ▸ Nat.lt_irrefl _)
    have hf : .fired id ∉ s.trace := fun hf => absurd (h.lt_of_fired hf) (hid ▸ Nat.lt_irrefl _)
    rcases hx with rfl | rfl <;> simp [Live, hid ▸ hc, hid ▸ hf, hid]
  · simp only [hid, false_or]
    rcases hx with rfl | rfl
    · exact live_timeoutSet hid
    · exact live_intervalSet hid

/-- A new timer. -/
theorem set {e : Tev} {x : TObs} (h : TimerInv s)
    (hgap : .undef ∉ timerReads s.due e.due s.timers)
    (hx : x = .timeoutSet s.tevs.length ∧ e.dt = none ∨
      x = .intervalSet s.tevs.length ∧ ∃ dt, e.dt = some dt ∧ 0 < dt) :
    TimerInv ((s.set e).observe x) := by
  have hperm : (s.set e).timers.Perm _ := timerPut_perm hgap
  have hset : x = .timeoutSet s.tevs.length ∨ x = .intervalSet s.tevs.length :=
    hx.imp And.left And.left
  have hlen : (s.set e).tevs.length = s.tevs.length + 1 := by simp [TimerState.set]
  have hlt : ∀ {id}, id < s.tevs.length → id < (s.set e).tevs.length := by
    intro id hid
    rw [hlen]
    exact Nat.lt_succ_of_lt hid
  refine ⟨h.alive, fun hmem => ?_, fun id => ?_, ?_, fun id hid => ?_, fun id hid => ?_,
    fun id hid => ?_⟩
  · rcases List.mem_cons.mp (hperm.mem_iff.mp hmem) with he | hmem
    · cases he
    · exact h.noEmpty hmem
  · show (s.set e).timers.count _ = if Live (s.trace ++ [x]) id then 1 else 0
    rw [hperm.count_eq, List.count_cons, h.count id]
    have hlive := h.live_new hset id
    by_cases hid : id = s.tevs.length
    · have hnot : ¬ Live s.trace id := fun hl => absurd (h.lt_of_live hl) (hid ▸ Nat.lt_irrefl _)
      rw [if_neg hnot, if_pos (hlive.mpr (.inl hid))]
      simp [hid]
    · have hne : (Elem.tev s.tevs.length == .tev id) = false := by simpa using Ne.symm hid
      simp only [hne, Bool.false_eq_true, if_false, Nat.add_zero]
      simp only [hlive, hid, false_or]
  · exact h.fired.append fun id he => absurd he.symm (fired_ne_set hset)
  · show (s.set e).interval id = none ∧ _
    rcases List.mem_append.mp hid with hid | hid
    · obtain ⟨hint, hlen'⟩ := h.timeout id hid
      exact ⟨(interval_set_lt hlen').trans hint, hlt hlen'⟩
    · rcases hx with ⟨rfl, hdt⟩ | ⟨rfl, _⟩
      · cases List.mem_singleton.mp hid
        refine ⟨?_, by rw [TimerState.observe, hlen]; exact Nat.lt_succ_self _⟩
        rw [interval_set_self, hdt]
        rfl
      · cases List.mem_singleton.mp hid
  · show ((s.set e).interval id).isSome = true ∧ _
    rcases List.mem_append.mp hid with hid | hid
    · obtain ⟨hint, hlen'⟩ := h.interval id hid
      exact ⟨by rw [interval_set_lt hlen']; exact hint, hlt hlen'⟩
    · rcases hx with ⟨rfl, _⟩ | ⟨rfl, dt, hdt, hpos⟩
      · cases List.mem_singleton.mp hid
      · cases List.mem_singleton.mp hid
        refine ⟨?_, by rw [TimerState.observe, hlen]; exact Nat.lt_succ_self _⟩
        rw [interval_set_self, hdt]
        simp [Option.filter, hpos]
  · exact hlt (h.cleared id (mem_of_mem_snoc hid (cleared_ne_set hset)))

/-- A state with one more observation about a timer of the program. -/
theorem grow {x : TObs} (h : TimerInv s) (s' : TimerState) (htrace : s'.trace = s.trace ++ [x])
    (hx : x = .cleared id ∧ id < s.tevs.length ∨ x = .fired id ∧ Live s.trace id)
    (halive : s'.control ≠ .dead) (hempty : .empty ∉ s'.timers)
    (hcount : ∀ j, s'.timers.count (.tev j) = if Live s'.trace j then 1 else 0)
    (hinterval : ∀ j, s'.interval j = s.interval j) (hlen : s'.tevs.length = s.tevs.length) :
    TimerInv s' := by
  refine ⟨halive, hempty, hcount, ?_, fun j hj => ?_, fun j hj => ?_, fun j hj => ?_⟩
  · rw [htrace]
    refine h.fired.append fun j he => ?_
    rcases hx with ⟨rfl, _⟩ | ⟨rfl, hlive⟩
    · cases he
    · cases he
      exact hlive
  · rw [hinterval, hlen]
    rw [htrace] at hj
    rcases List.mem_append.mp hj with hj | hj
    · exact h.timeout j hj
    · rcases hx with ⟨rfl, _⟩ | ⟨rfl, _⟩ <;> cases List.mem_singleton.mp hj
  · rw [hinterval, hlen]
    rw [htrace] at hj
    rcases List.mem_append.mp hj with hj | hj
    · exact h.interval j hj
    · rcases hx with ⟨rfl, _⟩ | ⟨rfl, _⟩ <;> cases List.mem_singleton.mp hj
  · rw [hlen]
    rw [htrace] at hj
    rcases List.mem_append.mp hj with hj | hj
    · exact h.cleared j hj
    · rcases hx with ⟨rfl, hid⟩ | ⟨rfl, _⟩
      · cases List.mem_singleton.mp hj
        exact hid
      · cases List.mem_singleton.mp hj

theorem clear (h : TimerInv s) (hid : id < s.tevs.length) : TimerInv (s.ngxeTimeoutClear id) := by
  refine h.grow (s.ngxeTimeoutClear id) rfl (.inl ⟨rfl, hid⟩) h.alive (fun hmem => ?_)
    (fun j => ?_) (fun _ => rfl) rfl
  · rcases mem_timerDel hmem with hmem | he
    · exact h.noEmpty hmem
    · cases he
  · show (timerDel id s.timers).count _ = if Live (s.trace ++ [.cleared id]) j then 1 else 0
    by_cases hj : j = id
    · subst hj
      rw [count_timerDel_self, h.count j, if_neg not_live_cleared]
      split <;> rfl
    · rw [count_timerDel_ne hj, h.count j]
      simp only [live_cleared hj]

theorem live_front {rest : List Elem} (h : TimerInv s) (hl : s.timers = .tev id :: rest) :
    Live s.trace id := by
  obtain ⟨j, hj, hlive⟩ := h.ok.entry (.tev id) (hl ▸ List.mem_cons_self) nofun
  cases hj
  exact hlive

/-- A timeout at the front fires. -/
theorem fire_timeout {rest : List Elem} (h : TimerInv s) (hl : s.timers = .tev id :: rest)
    (hint : s.interval id = none) : TimerInv (s.fire id rest) := by
  have hlive := h.live_front hl
  have hempty : .empty ∉ rest := fun hm => h.noEmpty (hl ▸ List.mem_cons_of_mem _ hm)
  have hnot : .intervalSet id ∉ s.trace := by
    intro hm
    have hsome := (h.interval id hm).1
    rw [hint] at hsome
    cases hsome
  rw [fire_of_timeout rest hint]
  refine h.grow _ rfl (.inr ⟨rfl, hlive⟩) nofun hempty (fun j => ?_) (fun _ => rfl) rfl
  have hcount := h.count j
  rw [hl, List.count_cons] at hcount
  show rest.count _ = if Live (s.trace ++ [.fired id]) j then 1 else 0
  by_cases hj : j = id
  · subst hj
    rw [if_pos hlive, beq_self_eq_true, if_pos rfl] at hcount
    rw [if_neg (not_live_fired hnot)]
    exact Nat.succ.inj hcount
  · have hne : (Elem.tev id == .tev j) = false := by simpa using Ne.symm hj
    rw [hne] at hcount
    simp only [live_fired hj]
    exact hcount

/-- An interval at the front fires, and is put back. -/
theorem fire_interval {rest : List Elem} {dt : Int} (h : TimerInv s)
    (hl : s.timers = .tev id :: rest) (hint : s.interval id = some dt)
    (hgap : .undef ∉ timerReads (s.restamp id dt).due (s.t + dt) rest) :
    TimerInv (s.fire id rest) := by
  have hlive := h.live_front hl
  have hfire := fire_of_interval rest hint
  have hperm : (s.fire id rest).timers.Perm s.timers := by
    rw [hfire, hl]
    exact timerPut_perm hgap
  have htrace : (s.fire id rest).trace = s.trace ++ [.fired id] := by rw [hfire]
  have hset : .intervalSet id ∈ s.trace := by
    rcases hlive.2 with hi | ⟨ht, _⟩
    · exact hi
    · exact absurd ((h.timeout id ht).1.symm.trans hint) nofun
  refine h.grow (s.fire id rest) htrace (.inr ⟨rfl, hlive⟩) ?_
    (fun hm => h.noEmpty (hperm.mem_iff.mp hm)) (fun j => ?_) (fun j => ?_) ?_
  · rw [hfire]
    nofun
  · rw [hperm.count_eq, h.count j, htrace]
    by_cases hj : j = id
    · subst hj
      simp only [live_fired_interval hset]
    · simp only [live_fired hj]
  · rw [hfire]
    exact interval_restamp
  · rw [hfire]
    exact List.length_modify _ _ _

/-- The timer at the front fires. -/
theorem fire {rest : List Elem} (h : TimerInv s) (hl : s.timers = .tev id :: rest)
    (hgap : ∀ dt ∈ s.interval id,
      .undef ∉ timerReads (s.restamp id dt).due (s.t + dt) rest) : TimerInv (s.fire id rest) := by
  cases hint : s.interval id with
  | none => exact h.fire_timeout hl hint
  | some dt => exact h.fire_interval hl hint (hgap dt hint)

/-- A cleared place at the front is dropped. -/
theorem drop {rest : List Elem} (h : TimerInv s) (hl : s.timers = .undef :: rest) :
    TimerInv { s with timers := rest } := by
  refine ⟨h.alive, fun hm => h.noEmpty (hl ▸ List.mem_cons_of_mem _ hm), fun id => ?_, h.fired,
    h.timeout, h.interval, h.cleared⟩
  have hcount := h.count id
  have hne : Elem.undef ≠ .tev id := nofun
  rw [hl, List.count_cons_of_ne hne] at hcount
  exact hcount

end TimerInv

theorem seconds_pos {ms : Int} (h : 500 ≤ ms) : 0 < seconds ms := by
  rw [seconds, Int.tdiv_eq_ediv_of_nonneg (by omega)]
  omega

theorem timerInv_step (h : TimerInv s) (hG : NoGap s i) (hs : s.step i = some s') :
    TimerInv s' := by
  have hgap := hG.2
  cases timerStep_cases hs with
  | tick n => exact h.update rfl rfl rfl h.alive
  | timeoutSet ms hp => exact h.set hgap (.inl ⟨rfl, rfl⟩)
  | intervalSet ms hp => exact h.set hgap (.inr ⟨rfl, _, rfl, seconds_pos hG.1⟩)
  | clear id hi hid => exact h.clear hid
  | pass hc => exact h.update rfl rfl rfl nofun
  | ends hc hl hu => exact h.update rfl rfl rfl nofun
  | drops rest hl => exact h.drop hl
  | dies rest hl => exact absurd (hl ▸ List.mem_cons_self) h.noEmpty
  | fires id rest hc hl hdue =>
    simp only [hl] at hgap
    exact h.fire hl hgap
  | ret hc => exact h.update rfl rfl rfl nofun

theorem timerInv_init (now : Int) : TimerInv (.init now) where
  alive := nofun
  noEmpty := nofun
  count := fun id => by simp [TimerState.init, Live]
  fired := everywhere_nil
  timeout := nofun
  interval := nofun
  cleared := nofun

/-- **The timer set.** In a run in which `_timer_put` reads no undefined element, the defined
    elements of `@TIMERS` are the live timers, each once, only live timers fire, and no pass
    fails. -/
theorem timers_live (s : TimerState) (h : s.Reachable NoGap) : TimersOk s := by
  obtain ⟨now, h⟩ := h
  exact (h.invariant (timerInv_init now) fun s i s' hs hG hstep => timerInv_step hs hG hstep).ok

/-- A timeout is cleared, and the interval behind it fires and is put back. -/
theorem timers_live_cleared : ∃ s : TimerState, s.Reachable NoGap ∧ TimersOk s ∧
    s.timers = [.tev 1] ∧
    s.trace = [.timeoutSet 0, .intervalSet 1, .cleared 0, .fired 1] := by
  obtain ⟨s, hr, hs⟩ := Machine.Reaches.of_run_map (M := timerLoop) (G := NoGap) (s := .init 5)
    (fun s => (s.timers, s.trace))
    [.timeoutSet 1000, .intervalSet 2000, .timeoutClear 0, .tick 2, .pass, .turn, .turn, .ret,
      .turn]
    (show _ = some ([.tev 1], [.timeoutSet 0, .intervalSet 1, .cleared 0, .fired 1]) by decide)
  have hreach : s.Reachable NoGap := ⟨5, hr⟩
  simp only [Prod.mk.injEq] at hs
  exact ⟨s, hreach, timers_live s hreach, hs⟩

/-- A timer is set behind a cleared one: the empty array that `_timer_put` leaves in its place is
    taken for a timer that is due, and the pass dies because there is no callback. -/
theorem cleared_timer_revived :
    ¬ ∀ s : TimerState, s.Reachable LongIntervals → TimersOk s := by
  intro hall
  obtain ⟨s, hr, hs⟩ := Machine.Reaches.of_run_map (M := timerLoop) (G := LongIntervals)
    (s := .init 5) (fun s => s.control)
    [.timeoutSet 1000, .timeoutSet 2000, .timeoutClear 0, .timeoutSet 3000, .pass, .turn]
    (show _ = some .dead by decide)
  exact (hall s ⟨5, hr⟩).alive hs

end NginxEngine.PP
