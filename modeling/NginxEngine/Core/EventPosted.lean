import NginxEngine.BackList
import NginxEngine.Machine

/-!
# Posted events

`ngx_event_posted.h` and `ngx_event_posted.c`: events whose handlers are to be called later are
linked into one of two queues, and `ngx_event_process_posted` calls them. A handler may post
events and cancel others, so the turns of its loop are steps of a machine.

## Main definitions

- `postEvent`, `deletePostedEvent`, `processTurn` — the operations
- `postedMachine` — the operations in any order
- `PostedNotes` — the queues as lists, and how often an event was posted, handled and cancelled

## Main results

- `posted_handled_once` — no posted event is lost, and none is handled twice
-/

namespace NginxEngine.Core

/-- `ngx_posted_accept_events` and `ngx_posted_events`. -/
inductive PostedQueue
  | accept
  | events
deriving DecidableEq, Repr

/-- `next` and `prev` of the events, which go by their addresses. -/
abbrev PostedEvents := Chains PostedQueue Nat

/-- `ngx_locked_post_event`. -/
def postEvent (m : PostedEvents) (ev : Nat) (q : PostedQueue) : PostedEvents :=
  if m.prev ev = none then m.push q ev else m

/-- `ngx_delete_posted_event`; `*(ev->prev)` is defined if `prev` is not `NULL`. -/
def deletePostedEvent (m : PostedEvents) (ev : Nat) : Option PostedEvents := m.unlink ev

/-- A turn of the loop of `ngx_event_process_posted`: the event whose handler is called, or the
    end of the loop. -/
def processTurn (m : PostedEvents) (q : PostedQueue) : Option (Option Nat × PostedEvents) :=
  match m.head q with
  | none => some (none, m)
  | some ev => (deletePostedEvent m ev).map fun m => (some ev, m)

/-- Who runs: code of the loop outside of `ngx_event_process_posted`, that function between two
    turns, or a handler that it has called. -/
inductive PostedPhase
  | idle
  | processing (q : PostedQueue)
  | handler (q : PostedQueue) (ev : Nat)
deriving DecidableEq, Repr

structure PostedLoop where
  posted : PostedEvents
  phase : PostedPhase

inductive PostedInput
  | post (ev : Nat) (q : PostedQueue)
  /-- `if (ev->prev) ngx_delete_posted_event(ev)`, as `ngx_close_connection` does. -/
  | cancel (ev : Nat)
  /-- `ngx_event_process_posted` is called. -/
  | process (q : PostedQueue)
  /-- A turn of its loop. -/
  | turn
  /-- The handler that it has called returns. -/
  | ret

def PostedPhase.isProcessing : PostedPhase → Bool
  | .processing _ => true
  | .idle | .handler _ _ => false

/-- The inputs that the phase allows. -/
def PostedEnabled (s : PostedLoop) : PostedInput → Prop
  | .post _ _ | .cancel _ => s.phase.isProcessing = false
  | .process _ => s.phase = .idle
  | .turn => ∃ q, s.phase = .processing q
  | .ret => ∃ q ev, s.phase = .handler q ev

def postedStep (s : PostedLoop) : PostedInput → Option PostedLoop
  | .post ev q => if s.phase.isProcessing then none
    else some { s with posted := postEvent s.posted ev q }
  | .cancel ev => if s.phase.isProcessing then none
    else if s.posted.prev ev = none then some s
    else (deletePostedEvent s.posted ev).map fun m => { s with posted := m }
  | .process q => if s.phase = .idle then some { s with phase := .processing q } else none
  | .turn => match s.phase with
    | .processing q => (processTurn s.posted q).map fun r =>
        ⟨r.2, (r.1.map (PostedPhase.handler q)).getD .idle⟩
    | _ => none
  | .ret => match s.phase with
    | .handler q _ => some { s with phase := .processing q }
    | _ => none

def postedMachine : Machine PostedLoop PostedInput := ⟨postedStep⟩

/-- The queues, and how often each event was put into one of them, handled and cancelled. -/
structure PostedNotes where
  queue : PostedQueue → List Nat
  posted : Nat → Nat
  handled : Nat → Nat
  cancelled : Nat → Nat

def PostedNotes.Waits (n : PostedNotes) (ev : Nat) : Prop :=
  ev ∈ n.queue .accept ∨ ev ∈ n.queue .events

instance (n : PostedNotes) (ev : Nat) : Decidable (n.Waits ev) :=
  inferInstanceAs (Decidable (ev ∈ n.queue .accept ∨ ev ∈ n.queue .events))

/-- One more. -/
def bump (f : Nat → Nat) (ev : Nat) : Nat → Nat := Function.update f ev (f ev + 1)

def postedNote (s : PostedLoop) (i : PostedInput) (n : PostedNotes) : PostedNotes :=
  match i with
  | .post ev q =>
    if n.Waits ev then n
    else { n with
      queue := Function.update n.queue q (ev :: n.queue q)
      posted := bump n.posted ev }
  | .cancel ev =>
    if n.Waits ev then { n with
      queue := fun q => (n.queue q).erase ev
      cancelled := bump n.cancelled ev }
    else n
  | .turn => match s.phase with
    | .processing q => match n.queue q with
      | [] => n
      | ev :: rest => { n with
          queue := Function.update n.queue q rest
          handled := bump n.handled ev }
    | _ => n
  | .process _ | .ret => n

/-- A turn of the loop of `ngx_event_process_posted` takes the first event out of the queue. -/
theorem processTurn_spec {m : PostedEvents} {L : PostedQueue → List Nat} (h : m.Holds L)
    (q : PostedQueue) :
    ∃ m', processTurn m q = some ((L q).head?, m') ∧
      m'.Holds (Function.update L q (L q).tail) := by
  have hlinked := h.linked q
  rw [processTurn]
  cases hq : L q with
  | nil =>
    rw [hq] at hlinked
    rw [show m.head q = none from hlinked, show ([] : List Nat).tail = L q from hq.symm,
      Function.update_eq_self]
    exact ⟨m, rfl, h⟩
  | cons ev rest =>
    rw [hq] at hlinked
    obtain ⟨m', hm', hholds⟩ := h.unlink (q := q) (hq ▸ List.mem_cons_self)
    rw [hq, List.erase_cons_head] at hholds
    refine ⟨m', ?_, hholds⟩
    rw [show m.head q = some ev from hlinked.1]
    dsimp only
    rw [deletePostedEvent, hm']
    rfl

variable {s s' : PostedLoop} {n : PostedNotes} {i : PostedInput} {ev : Nat} {q : PostedQueue}

theorem waits_iff : n.Waits ev ↔ ∃ q, ev ∈ n.queue q := by
  constructor
  · rintro (h | h)
    · exact ⟨_, h⟩
    · exact ⟨_, h⟩
  · rintro ⟨q, h⟩
    cases q with
    | accept => exact .inl h
    | events => exact .inr h

/-- The invariant: the memory holds the queues, and every posting of an event that did not wait
    was followed by one handling or one cancellation, unless it still waits. -/
structure PostedOk (s : PostedLoop) (n : PostedNotes) : Prop where
  holds : s.posted.Holds n.queue
  count : ∀ ev, n.posted ev = n.handled ev + n.cancelled ev + if n.Waits ev then 1 else 0

theorem PostedOk.prev_eq_none (h : PostedOk s n) : s.posted.prev ev = none ↔ ¬ n.Waits ev := by
  rw [h.holds.prev_eq_none, waits_iff, not_exists]

/-- The balance, when an event begins to wait. -/
theorem PostedOk.enter {n' : PostedNotes} (h : PostedOk s n) (hev : ¬ n.Waits ev)
    (hev' : n'.Waits ev) (hother : ∀ x, x ≠ ev → (n'.Waits x ↔ n.Waits x))
    (hp : n'.posted = bump n.posted ev) (hh : n'.handled = n.handled)
    (hc : n'.cancelled = n.cancelled) (x : Nat) :
    n'.posted x = n'.handled x + n'.cancelled x + if n'.Waits x then 1 else 0 := by
  have hcount := h.count x
  rw [hp, hh, hc, bump]
  by_cases hx : x = ev
  · rw [hx] at hcount ⊢
    rw [if_neg hev] at hcount
    rw [Function.update_self, if_pos hev']
    omega
  · rw [Function.update_of_ne hx, hcount]
    simp only [hother x hx]

/-- The balance, when an event no longer waits. -/
theorem PostedOk.leave {n' : PostedNotes} (h : PostedOk s n) (hev : n.Waits ev)
    (hev' : ¬ n'.Waits ev) (hother : ∀ x, x ≠ ev → (n'.Waits x ↔ n.Waits x))
    (hp : n'.posted = n.posted)
    (hsum : ∀ x, n'.handled x + n'.cancelled x =
      n.handled x + n.cancelled x + if x = ev then 1 else 0) (x : Nat) :
    n'.posted x = n'.handled x + n'.cancelled x + if n'.Waits x then 1 else 0 := by
  have hcount := h.count x
  rw [hp, hsum x]
  by_cases hx : x = ev
  · rw [hx] at hcount ⊢
    rw [if_pos hev] at hcount
    rw [if_pos rfl, if_neg hev', hcount]
  · rw [if_neg hx, hcount]
    simp only [hother x hx, Nat.add_zero]

theorem bump_add (f : Nat → Nat) (ev x : Nat) : bump f ev x = f x + if x = ev then 1 else 0 := by
  rw [bump]
  by_cases hx : x = ev
  · rw [if_pos hx, hx, Function.update_self]
  · rw [if_neg hx, Function.update_of_ne hx, Nat.add_zero]

/-- Posting an event that does not wait. -/
theorem PostedOk.post (h : PostedOk s n) (ev : Nat) (q : PostedQueue) :
    PostedOk { s with posted := postEvent s.posted ev q } (postedNote s (.post ev q) n) := by
  rw [postEvent, postedNote]
  by_cases hw : n.Waits ev
  · rw [if_pos hw, if_neg fun hc => h.prev_eq_none.mp hc hw]
    exact h
  · rw [if_neg hw, if_pos (h.prev_eq_none.mpr hw)]
    have hout : ∀ q, ev ∉ n.queue q := fun q hq => hw (waits_iff.mpr ⟨q, hq⟩)
    refine ⟨h.holds.push hout q, h.enter hw ?_ ?_ rfl rfl rfl⟩
    · exact waits_iff.mpr ⟨q, by simp⟩
    · intro x hx
      rw [waits_iff, waits_iff]
      refine exists_congr fun q' => ?_
      by_cases hq : q' = q
      · rw [hq]
        simp [hx]
      · simp [hq]

/-- An event has been taken out of the queues. -/
theorem PostedOk.delete {m : PostedEvents} {n' : PostedNotes} (h : PostedOk s n)
    (hev : n.Waits ev) (hholds : m.Holds n'.queue)
    (hmem : ∀ q x, x ∈ n'.queue q ↔ x ≠ ev ∧ x ∈ n.queue q) (hp : n'.posted = n.posted)
    (hsum : ∀ x, n'.handled x + n'.cancelled x =
      n.handled x + n.cancelled x + if x = ev then 1 else 0) (phase : PostedPhase) :
    PostedOk ⟨m, phase⟩ n' := by
  refine ⟨hholds, h.leave hev ?_ ?_ hp hsum⟩
  · rw [waits_iff]
    rintro ⟨q, hq⟩
    exact ((hmem q ev).mp hq).1 rfl
  · intro x hx
    rw [waits_iff, waits_iff]
    refine exists_congr fun q => ?_
    rw [hmem, and_iff_right hx]

/-- Cancelling an event. -/
theorem PostedOk.cancel (h : PostedOk s n) (hw : n.Waits ev) :
    ∃ m, deletePostedEvent s.posted ev = some m ∧
      PostedOk { s with posted := m } (postedNote s (.cancel ev) n) := by
  obtain ⟨q, hq⟩ := waits_iff.mp hw
  obtain ⟨m, hm, hholds⟩ := h.holds.erase hq
  rw [postedNote, if_pos hw]
  refine ⟨m, hm, h.delete hw hholds (fun q' x => ?_) ?_ (fun x => ?_) _⟩
  · exact (h.holds.nodup q').mem_erase_iff
  · rfl
  · dsimp only
    rw [bump_add]
    exact (Nat.add_assoc _ _ _).symm

/-- A turn of the loop of `ngx_event_process_posted`. -/
theorem PostedOk.turn (h : PostedOk s n) (hp : s.phase = .processing q) :
    ∃ r, processTurn s.posted q = some r ∧ r.1 = (n.queue q).head? ∧
      ∀ phase, PostedOk ⟨r.2, phase⟩ (postedNote s .turn n) := by
  obtain ⟨m, hm, hholds⟩ := processTurn_spec h.holds q
  refine ⟨_, hm, rfl, ?_⟩
  rw [postedNote, hp]
  dsimp only
  cases hq : n.queue q with
  | nil =>
    rw [hq, show ([] : List Nat).tail = n.queue q from hq.symm, Function.update_eq_self] at hholds
    exact fun phase => ⟨hholds, h.count⟩
  | cons ev rest =>
    rw [hq] at hholds
    have hev : ev ∈ n.queue q := hq ▸ List.mem_cons_self
    have hnot : ev ∉ rest := (List.nodup_cons.mp (hq ▸ h.holds.nodup q)).1
    dsimp only
    refine h.delete (waits_iff.mpr ⟨q, hev⟩) hholds (fun q' x => ?_) rfl fun x => ?_
    · dsimp only
      by_cases hq' : q' = q
      · rw [hq', Function.update_self, hq, List.mem_cons, and_or_left]
        simp only [ne_eq, not_and_self, false_or]
        exact ⟨fun hx => ⟨ne_of_mem_of_not_mem hx hnot, hx⟩, And.right⟩
      · rw [Function.update_of_ne hq', iff_and_self]
        rintro hx rfl
        exact h.holds.apart q q' (Ne.symm hq') x hev hx
    · dsimp only
      rw [bump_add]
      exact Nat.add_right_comm _ _ _

/-- **One step.** An enabled input has a result and keeps the invariant. -/
theorem PostedOk.step (h : PostedOk s n) (hen : PostedEnabled s i) :
    ∃ s', postedStep s i = some s' ∧ PostedOk s' (postedNote s i n) := by
  cases i with
  | post ev q =>
    have hp : s.phase.isProcessing = false := hen
    exact ⟨_, by rw [postedStep, hp]; rfl, h.post ev q⟩
  | cancel ev =>
    have hp : s.phase.isProcessing = false := hen
    rw [postedStep, hp]
    by_cases hw : n.Waits ev
    · obtain ⟨m, hm, hok⟩ := h.cancel hw
      refine ⟨{ s with posted := m }, ?_, hok⟩
      rw [if_neg Bool.false_ne_true, if_neg fun hc => h.prev_eq_none.mp hc hw, hm]
      rfl
    · refine ⟨s, ?_, ?_⟩
      · rw [if_neg Bool.false_ne_true, if_pos (h.prev_eq_none.mpr hw)]
      · rw [postedNote, if_neg hw]
        exact h
  | process q =>
    exact ⟨{ s with phase := .processing q }, if_pos hen, ⟨h.holds, h.count⟩⟩
  | turn =>
    obtain ⟨q, hp⟩ := hen
    obtain ⟨r, hr, -, hok⟩ := h.turn hp
    refine ⟨⟨r.2, (r.1.map (PostedPhase.handler q)).getD .idle⟩, ?_, hok _⟩
    rw [postedStep, hp]
    dsimp only
    rw [hr]
    rfl
  | ret =>
    obtain ⟨q, ev, hp⟩ := hen
    refine ⟨{ s with phase := .processing q }, ?_, ⟨h.holds, h.count⟩⟩
    rw [postedStep, hp]

/-- A step that is taken was enabled. -/
theorem postedEnabled_of_step (h : postedStep s i = some s') : PostedEnabled s i := by
  cases i with
  | post ev q =>
    cases hp : s.phase.isProcessing with
    | false => exact hp
    | true =>
      rw [postedStep, hp] at h
      cases h
  | cancel ev =>
    cases hp : s.phase.isProcessing with
    | false => exact hp
    | true =>
      rw [postedStep, hp] at h
      cases h
  | process q => exact (Option.ite_none_right_eq_some.mp h).1
  | turn =>
    cases hp : s.phase with
    | processing q => exact ⟨q, hp⟩
    | idle =>
      rw [postedStep, hp] at h
      cases h
    | handler q ev =>
      rw [postedStep, hp] at h
      cases h
  | ret =>
    cases hp : s.phase with
    | handler q ev => exact ⟨q, ev, hp⟩
    | idle =>
      rw [postedStep, hp] at h
      cases h
    | processing q =>
      rw [postedStep, hp] at h
      cases h

/-- No event was ever posted. -/
def nothingPosted : PostedLoop × PostedNotes :=
  (⟨⟨fun _ => none, fun _ => none, fun _ => none⟩, .idle⟩,
    ⟨fun _ => [], fun _ => 0, fun _ => 0, fun _ => 0⟩)

theorem nothingPosted_ok : PostedOk nothingPosted.1 nothingPosted.2 := by
  refine ⟨⟨fun q => rfl, fun q => List.nodup_nil, ?_, fun a _ => rfl⟩, fun ev => rfl⟩
  intro q q' _ a ha
  cases ha

/-- **Whole runs.** -/
theorem postedOk_of_reaches
    (h : (postedMachine.withNotes postedNote).Reaches Machine.always nothingPosted (s, n)) :
    PostedOk s n := by
  refine h.invariant (I := fun x => PostedOk x.1 x.2) nothingPosted_ok ?_
  intro x i y hx _ hs
  obtain ⟨hs, hn⟩ := Machine.step_withNotes hs
  obtain ⟨s', hs', hok⟩ := hx.step (postedEnabled_of_step hs)
  obtain rfl : s' = y.1 := Option.some.inj (hs'.symm.trans hs)
  rw [hn]
  exact hok

/-- **Posted once, handled once.** In every run the links of the events hold the two queues,
    which have no event in common; an event has been handled and cancelled just as often as it
    was posted while it did not wait, but for the one time that it may still wait. A turn of
    `ngx_event_process_posted` handles the event that was put into the queue last, and ends when
    the queue is empty; no operation meets a `NULL` pointer. -/
theorem posted_handled_once
    (h : (postedMachine.withNotes postedNote).Reaches Machine.always nothingPosted (s, n)) :
    s.posted.Holds n.queue ∧
    (∀ ev, n.posted ev = n.handled ev + n.cancelled ev + if n.Waits ev then 1 else 0) ∧
    (∀ i, PostedEnabled s i → (postedStep s i).isSome) ∧
    ∀ q s', s.phase = .processing q → postedStep s .turn = some s' →
      s'.phase = ((n.queue q).head?.map (PostedPhase.handler q)).getD .idle := by
  have hok := postedOk_of_reaches h
  refine ⟨hok.holds, hok.count, ?_, ?_⟩
  · intro i hi
    obtain ⟨s', hs', -⟩ := hok.step hi
    rw [hs']
    rfl
  · intro q s' hp hs'
    obtain ⟨r, hr, hhead, -⟩ := hok.turn hp
    rw [postedStep, hp] at hs'
    dsimp only at hs'
    rw [hr] at hs'
    obtain rfl := Option.some.inj hs'
    rw [← hhead]

/-- Three events are posted, one of them twice; the handler of the last one cancels another and
    posts itself again. -/
theorem posted_handled_once_again :
    ∃ s n, (postedMachine.withNotes postedNote).Reaches Machine.always nothingPosted (s, n) ∧
      (n.queue .events, n.handled 3, n.cancelled 2, n.posted 3) = ([3, 1], 1, 1, 2) ∧
      s.posted.Holds n.queue := by
  obtain ⟨⟨s, n⟩, hr, hx⟩ := Machine.Reaches.of_run_map (M := postedMachine.withNotes postedNote)
    (G := Machine.always) (s := nothingPosted)
    (fun x => (x.2.queue .events, x.2.handled 3, x.2.cancelled 2, x.2.posted 3))
    [.post 1 .events, .post 2 .events, .post 1 .accept, .post 3 .events, .process .events, .turn,
      .cancel 2, .post 3 .events, .ret]
    (show _ = some ([3, 1], 1, 1, 2) by decide +kernel)
  exact ⟨s, n, hr, hx, (posted_handled_once hr).1⟩

end NginxEngine.Core
