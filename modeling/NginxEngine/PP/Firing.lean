import NginxEngine.PP.Roster

/-!
# The order in which timers fire

`_timer_put` looks for the first element that is not due before the new timer and puts the timer
in front of it. The list stays in the order of the expiries, and the loop fires timers in that
order, also those that callbacks set while it goes through the list.

## Main definitions

- `InDueOrder` — the timers of a list are in the order of their expiries
- `FireLog`, `noteFiring` — which timer fired with which expiry, and in which pass
- `FiresInOrder` — what the log of a run is like

## Main results

- `timerPut_inDueOrder` — `_timer_put` keeps the order
- `fires_in_order` — runs without clears fire in the order of the expiries
-/

namespace NginxEngine.PP

/-! ### Lists in the order of the expiries -/

/-- The timers of a list are in the order of their expiries, whatever lies between them. -/
def InDueOrder (due : Elem → Int) (l : List Elem) : Prop :=
  l.Pairwise fun x y => ∀ a b, x = .tev a → y = .tev b → due (.tev a) ≤ due (.tev b)

section
variable {due due' : Elem → Int} {deadline : Int} {id : Nat} {l : List Elem}

theorem mem_of_mem_timerReads {x : Elem} (h : x ∈ timerReads due deadline l) : x ∈ l := by
  induction l with
  | nil => exact h
  | cons y rest ih =>
    rw [timerReads] at h
    by_cases hlt : due y < deadline
    · rw [if_pos hlt] at h
      rcases List.mem_cons.mp h with rfl | hin
      · exact List.mem_cons_self
      · exact List.mem_cons_of_mem y (ih hin)
    · rw [if_neg hlt] at h
      exact List.mem_singleton.mp h ▸ List.mem_cons_self

theorem InDueOrder.congr (h : InDueOrder due l)
    (hsame : ∀ j, .tev j ∈ l → due' (.tev j) = due (.tev j)) : InDueOrder due' l := by
  refine List.Pairwise.imp_of_mem (fun {x y} hx hy hxy a b ha hb => ?_) h
  subst ha hb
  rw [hsame a hx, hsame b hy]
  exact hxy a b rfl rfl

/-- A timer is put in its place if the elements that are no timers count as due before it. -/
theorem timerPut_inDueOrder (h : InDueOrder due l)
    (hgap : ∀ y ∈ l, (∀ j, y ≠ .tev j) → due y < deadline)
    (hsame : ∀ j, .tev j ∈ l → due' (.tev j) = due (.tev j)) (hnew : due' (.tev id) = deadline) :
    InDueOrder due' (timerPut due deadline id l) := by
  induction l with
  | nil => exact List.pairwise_singleton _ _
  | cons y rest ih =>
    obtain ⟨hy, hrest⟩ := List.pairwise_cons.mp h
    have hgap' := fun z hz => hgap z (List.mem_cons_of_mem y hz)
    have hsame' := fun j hj => hsame j (List.mem_cons_of_mem y hj)
    -- `y` is before the timers of the rest, also after Perl has looked into it
    have hbefore : ∀ a b, y.vivify = .tev a → .tev b ∈ rest → due' (.tev a) ≤ due' (.tev b) := by
      intro a b ha hb
      obtain rfl := vivify_eq_tev.mp ha
      rw [hsame a List.mem_cons_self, hsame' b hb]
      exact hy _ hb a b rfl rfl
    rw [timerPut]
    by_cases hlt : due y < deadline
    · rw [if_pos hlt]
      refine List.pairwise_cons.mpr ⟨fun z hz a b ha hb => ?_, ih hrest hgap' hsame'⟩
      subst hb
      rcases mem_timerPut.mp hz with rfl | hin
      · obtain rfl := vivify_eq_tev.mp ha
        rw [hsame a List.mem_cons_self, hnew]
        exact Int.le_of_lt hlt
      · exact hbefore a b ha hin
    · rw [if_neg hlt]
      -- the element that stops the search is a timer
      have htev : ∃ c, y = .tev c := by
        by_contra hno
        exact hlt (hgap y List.mem_cons_self fun j hj => hno ⟨j, hj⟩)
      obtain ⟨c, rfl⟩ := htev
      have hc : due' (.tev id) ≤ due' (.tev c) := by
        rw [hnew, hsame c List.mem_cons_self]
        exact Int.not_lt.mp hlt
      refine List.pairwise_cons.mpr ⟨fun z hz a b ha hb => ?_,
        List.pairwise_cons.mpr ⟨fun z hz a b ha hb => ?_, InDueOrder.congr hrest hsame'⟩⟩
      · cases ha
        subst hb
        rcases List.mem_cons.mp hz with he | hin
        · cases he
          exact hc
        · exact Int.le_trans hc (hbefore c b rfl hin)
      · subst hb
        exact hbefore a b ha hz

/-- A list of timers only. -/
theorem named_timerPut (h : ∀ x ∈ l, ∃ j, x = .tev j) :
    ∀ x ∈ timerPut due deadline id l, ∃ j, x = .tev j := by
  have hreads : .undef ∉ timerReads due deadline l := by
    intro hin
    obtain ⟨j, hj⟩ := h .undef (mem_of_mem_timerReads hin)
    cases hj
  intro x hx
  rcases List.mem_cons.mp ((timerPut_perm hreads).mem_iff.mp hx) with rfl | hin
  · exact ⟨id, rfl⟩
  · exact h x hin

theorem timerDel_inDueOrder (h : InDueOrder due l) : InDueOrder due (timerDel id l) := by
  induction l with
  | nil => exact h
  | cons y rest ih =>
    obtain ⟨hy, hrest⟩ := List.pairwise_cons.mp h
    rw [timerDel]
    by_cases hid : y = .tev id
    · rw [if_pos hid]
      refine List.pairwise_cons.mpr ⟨fun z _ a b ha _ => ?_, hrest⟩
      cases ha
    · rw [if_neg hid]
      refine List.pairwise_cons.mpr ⟨fun z hz a b ha hb => ?_, ih hrest⟩
      rcases mem_timerDel hz with hin | rfl
      · exact hy z hin a b ha hb
      · cases hb

end

/-! ### The expiries -/

variable {s s' : TimerState} {id : Nat} {i : TInput}

theorem due_set_lt {e : Tev} (hid : id < s.tevs.length) :
    (s.set e).due (.tev id) = s.due (.tev id) := by
  simp only [TimerState.due, TimerState.set, List.getElem?_append_left hid]

theorem due_set_self {e : Tev} : (s.set e).due (.tev s.tevs.length) = e.due := by
  simp [TimerState.due, TimerState.set]

theorem due_restamp_ne {dt : Int} {j : Nat} (hj : j ≠ id) :
    (s.restamp id dt).due (.tev j) = s.due (.tev j) := by
  simp [TimerState.due, TimerState.restamp, Ne.symm hj]

theorem due_restamp_self {dt : Int} (hid : id < s.tevs.length) :
    (s.restamp id dt).due (.tev id) = s.t + dt := by
  simp [TimerState.due, TimerState.restamp, List.getElem?_eq_getElem hid]

theorem interval_pos {dt : Int} (h : s.interval id = some dt) : 0 < dt := by
  rw [TimerState.interval, Option.filter_eq_some_iff] at h
  exact of_decide_eq_true h.2

/-- What a firing does. -/
structure Fired (s : TimerState) (id : Nat) (rest : List Elem) (s' : TimerState) : Prop where
  trace : s'.trace = s.trace ++ [.fired id]
  now : s'.now = s.now
  t : s'.t = s.t
  length : s'.tevs.length = s.tevs.length
  interval : ∀ j, s'.interval j = s.interval j
  other : ∀ j, j ≠ id → s'.due (.tev j) = s.due (.tev j)
  mem : ∀ j, .tev j ∈ s'.timers ↔ .tev j ∈ rest ∨ j = id ∧ s.interval id ≠ none
  /-- An interval is due after the pass. -/
  again : s.interval id ≠ none → s.t < s'.due (.tev id)

theorem fire_fired {rest : List Elem} (hr : Roster s) (hl : s.timers = .tev id :: rest) :
    Fired s id rest (s.fire id rest) := by
  have hid : id < s.tevs.length := hr.range id (hl ▸ List.mem_cons_self)
  cases hint : s.interval id with
  | none =>
    rw [fire_of_timeout rest hint]
    exact ⟨rfl, rfl, rfl, rfl, fun _ => rfl, fun _ _ => rfl, fun j => by simp [hint],
      fun hne => absurd hint hne⟩
  | some dt =>
    rw [fire_of_interval rest hint]
    refine ⟨rfl, rfl, rfl, List.length_modify _ _ _, fun _ => interval_restamp,
      fun _ hj => due_restamp_ne hj, fun j => ?_, fun _ => ?_⟩
    · show .tev j ∈ timerPut _ _ id rest ↔ _
      rw [mem_timerPut, or_comm]
      simp [hint]
    · have hdue : (({ s with timers := rest } : TimerState).restamp id dt).due (.tev id) =
          s.t + dt := due_restamp_self hid
      have hpos := interval_pos hint
      show s.t < (({ s with timers := rest } : TimerState).restamp id dt).due (.tev id)
      omega

/-- The list after a firing. -/
theorem fire_inDueOrder {rest : List Elem} (hr : Roster s) (hl : s.timers = .tev id :: rest)
    (h : InDueOrder s.due s.timers)
    (hgap : ∀ dt, s.interval id = some dt → ∀ y ∈ rest, (∀ j, y ≠ .tev j) → 0 < s.t + dt) :
    InDueOrder (s.fire id rest).due (s.fire id rest).timers := by
  have hid : id < s.tevs.length := hr.range id (hl ▸ List.mem_cons_self)
  rw [hl] at h
  obtain ⟨_, hrest⟩ := List.pairwise_cons.mp h
  cases hint : s.interval id with
  | none =>
    rw [fire_of_timeout rest hint]
    exact hrest
  | some dt =>
    rw [fire_of_interval rest hint]
    have hsame : ∀ j, Elem.tev j ∈ rest →
        (s.restamp id dt).due (.tev j) = s.due (.tev j) := by
      intro j hj
      have hne : j ≠ id := fun he => hr.not_mem_rest hl (he ▸ hj)
      exact due_restamp_ne hne
    refine timerPut_inDueOrder (InDueOrder.congr hrest hsame) (fun y hy hno => ?_)
      (fun _ _ => rfl) (due_restamp_self hid)
    cases y with
    | undef => exact hgap dt hint _ hy hno
    | empty => exact hgap dt hint _ hy hno
    | tev j => exact absurd rfl (hno j)

theorem seconds_nonneg {ms : Int} (h : 0 ≤ ms) : 0 ≤ seconds ms := by
  rw [seconds, Int.tdiv_eq_ediv_of_nonneg (by omega)]
  omega

/-! ### Runs without clears -/

/-- A timer fired: the expiry that it had, `$t`, and the number of the pass. -/
structure Firing where
  id : Nat
  due : Int
  t : Int
  pass : Nat
deriving DecidableEq, Repr

structure FireLog where
  /-- The number of passes begun. -/
  pass : Nat
  fired : List Firing
deriving DecidableEq, Repr

def noteFiring (s : TimerState) (i : TInput) (log : FireLog) : FireLog :=
  match i, s.timers with
  | .pass, _ => { log with pass := log.pass + 1 }
  | .turn, .tev id :: _ =>
    if s.t < s.due (.tev id) then log
    else { log with fired := log.fired ++ [⟨id, s.due (.tev id), s.t, log.pass⟩] }
  | _, _ => log

/-- The loop with the log of its firings. -/
def timerLog : Machine (TimerState × FireLog) TInput := timerLoop.withNotes noteFiring

/-- Delays are not negative, and nothing is cleared. -/
def NoClears (_ : TimerState × FireLog) : TInput → Prop
  | .timeoutSet ms | .intervalSet ms => 0 ≤ ms
  | .timeoutClear _ | .intervalClear _ => False
  | _ => True

instance {p : TimerState × FireLog} {i : TInput} : Decidable (NoClears p i) := by
  unfold NoClears
  induction i using TInput.casesOn <;> infer_instance

/-- The states of every run without clears, with its log. -/
def LogReachable (p : TimerState × FireLog) : Prop :=
  ∃ now, timerLog.Reaches NoClears (.init now, ⟨0, []⟩) p

/-- The timer whose callback was called. -/
def TObs.callback : TObs → Option Nat
  | .fired id => some id
  | _ => none

/-- The firings of a run. -/
structure FiresInOrder (p : TimerState × FireLog) : Prop where
  /-- The log has every callback. -/
  logged : p.2.fired.map Firing.id = p.1.trace.filterMap TObs.callback
  sorted : (p.1.timers.map p.1.due).Pairwise (· ≤ ·)
  nondecreasing : (p.2.fired.map Firing.due).Pairwise (· ≤ ·)
  notEarly : ∀ f ∈ p.2.fired, f.due ≤ f.t
  /-- When a pass ends, the timers that are due have fired. -/
  complete : ∀ s', p.1.step .turn = some s' → s'.control = .program →
    ∀ id < s'.tevs.length, s'.due (.tev id) ≤ s'.t →
      .tev id ∉ s'.timers ∧ ∃ f ∈ p.2.fired, f.id = id
  timeoutOnce : ∀ id, .timeoutSet id ∈ p.1.trace → (p.2.fired.map Firing.id).count id ≤ 1
  oncePerPass : (p.2.fired.map fun f => (f.id, f.pass)).Nodup

/-- The invariant of runs without clears. -/
structure FiringInv (s : TimerState) (log : FireLog) : Prop where
  roster : Roster s
  named : ∀ x ∈ s.timers, ∃ id, x = .tev id
  noClear : ∀ id, .cleared id ∉ s.trace
  order : InDueOrder s.due s.timers
  clock : s.t ≤ s.now
  logged : log.fired.map Firing.id = s.trace.filterMap TObs.callback
  past : ∀ f ∈ log.fired, f.due ≤ f.t ∧ f.due ≤ s.t
  ahead : ∀ f ∈ log.fired, ∀ id, .tev id ∈ s.timers → f.due ≤ s.due (.tev id)
  nondecreasing : (log.fired.map Firing.due).Pairwise (· ≤ ·)
  once : ∀ f ∈ log.fired, s.interval f.id = none → .tev f.id ∉ s.timers
  timeoutOnce : ∀ id, s.interval id = none → (log.fired.map Firing.id).count id ≤ 1
  numbered : ∀ f ∈ log.fired, f.pass ≤ log.pass
  /-- What has fired in this pass is due after it. -/
  later : ∀ f ∈ log.fired, f.pass = log.pass → .tev f.id ∈ s.timers → s.t < s.due (.tev f.id)
  oncePerPass : (log.fired.map fun f => (f.id, f.pass)).Nodup

namespace FiringInv

variable {log : FireLog}

theorem init (now : Int) : FiringInv (.init now) ⟨0, []⟩ where
  roster := Roster.init now
  named := nofun
  noClear := nofun
  order := List.Pairwise.nil
  clock := Int.le_refl now
  logged := rfl
  past := nofun
  ahead := nofun
  nondecreasing := List.Pairwise.nil
  once := nofun
  timeoutOnce := fun _ _ => Nat.zero_le 1
  numbered := nofun
  later := nofun
  oncePerPass := List.nodup_nil

theorem fired_mem (h : FiringInv s log) {f : Firing} (hf : f ∈ log.fired) :
    .fired f.id ∈ s.trace := by
  have hid : f.id ∈ s.trace.filterMap TObs.callback := h.logged ▸ List.mem_map_of_mem hf
  obtain ⟨x, hx, he⟩ := List.mem_filterMap.mp hid
  cases x with
  | fired id =>
    cases he
    exact hx
  | timeoutSet id => cases he
  | intervalSet id => cases he
  | cleared id => cases he

theorem lt_of_fired (h : FiringInv s log) {f : Firing} (hf : f ∈ log.fired) :
    f.id < s.tevs.length := h.roster.fired f.id (h.fired_mem hf)

/-- Time passes, or control goes elsewhere. -/
theorem update (h : FiringInv s log) (hr : Roster s') (htimers : s'.timers = s.timers)
    (htevs : s'.tevs = s.tevs) (htrace : s'.trace = s.trace) (ht : s'.t = s.t)
    (hnow : s.now ≤ s'.now) : FiringInv s' log := by
  obtain ⟨timers, tevs, now, t, control, trace⟩ := s'
  cases htimers
  cases htevs
  cases htrace
  cases ht
  exact ⟨hr, h.named, h.noClear, h.order, Int.le_trans h.clock hnow, h.logged, h.past, h.ahead,
    h.nondecreasing, h.once, h.timeoutOnce, h.numbered, h.later, h.oncePerPass⟩

/-- A pass begins. -/
theorem begin_pass (h : FiringInv s log) (hr : Roster { s with t := s.now, control := .pass }) :
    FiringInv { s with t := s.now, control := .pass } { log with pass := log.pass + 1 } where
  roster := hr
  named := h.named
  noClear := h.noClear
  order := h.order
  clock := Int.le_refl s.now
  logged := h.logged
  past := fun f hf => ⟨(h.past f hf).1, Int.le_trans (h.past f hf).2 h.clock⟩
  ahead := h.ahead
  nondecreasing := h.nondecreasing
  once := h.once
  timeoutOnce := h.timeoutOnce
  numbered := fun f hf => Nat.le_succ_of_le (h.numbered f hf)
  later := fun f hf he => absurd (h.numbered f hf) (by rw [he]; exact Nat.not_succ_le_self _)
  oncePerPass := h.oncePerPass

/-- A timer is set. -/
theorem set {e : Tev} {x : TObs} (h : FiringInv s log) (hr : Roster ((s.set e).observe x))
    (hdue : s.now ≤ e.due) (hcall : x.callback = none) (hclear : ∀ id, x ≠ .cleared id) :
    FiringInv ((s.set e).observe x) log := by
  have hmem : ∀ id, .tev id ∈ ((s.set e).observe x).timers ↔
      id = s.tevs.length ∨ .tev id ∈ s.timers := fun id => mem_timerPut
  have hold : ∀ {id}, id < s.tevs.length → (s.set e).due (.tev id) = s.due (.tev id) :=
    fun hid => due_set_lt hid
  -- the new timer has not fired
  have hfresh : ∀ f ∈ log.fired, f.id ≠ s.tevs.length := by
    intro f hf he
    exact Nat.lt_irrefl _ (he ▸ h.lt_of_fired hf)
  refine ⟨hr, fun y hy => ?_, fun id hid => ?_, ?_, h.clock, ?_, h.past, fun f hf id hid => ?_,
    h.nondecreasing, fun f hf hint hin => ?_, fun id hint => ?_, h.numbered,
    fun f hf he hin => ?_, h.oncePerPass⟩
  · exact named_timerPut h.named y hy
  · exact h.noClear id (mem_of_mem_snoc hid (hclear id).symm)
  · refine timerPut_inDueOrder h.order (fun y hy hno => ?_) (fun j hj => ?_) due_set_self
    · obtain ⟨j, hj⟩ := h.named y hy
      exact absurd hj (hno j)
    · exact hold (h.roster.range j hj)
  · show log.fired.map Firing.id = (s.trace ++ [x]).filterMap TObs.callback
    rw [List.filterMap_append, ← h.logged]
    simp [hcall]
  · show f.due ≤ (s.set e).due (.tev id)
    rcases (hmem id).mp hid with rfl | hin
    · rw [due_set_self]
      exact Int.le_trans (h.past f hf).2 (Int.le_trans h.clock hdue)
    · rw [hold (h.roster.range id hin)]
      exact h.ahead f hf id hin
  · rcases (hmem f.id).mp hin with he | hin
    · exact hfresh f hf he
    · have hint' : (s.set e).interval f.id = none := hint
      rw [interval_set_lt (h.lt_of_fired hf)] at hint'
      exact h.once f hf hint' hin
  · by_cases hid : id < s.tevs.length
    · have hint' : (s.set e).interval id = none := hint
      rw [interval_set_lt hid] at hint'
      exact h.timeoutOnce id hint'
    · have hout : id ∉ log.fired.map Firing.id := by
        intro hin
        obtain ⟨f, hf, rfl⟩ := List.mem_map.mp hin
        exact hid (h.lt_of_fired hf)
      rw [List.count_eq_zero_of_not_mem hout]
      exact Nat.zero_le 1
  · show s.t < (s.set e).due (.tev f.id)
    rcases (hmem f.id).mp hin with hf' | hin
    · exact absurd hf' (hfresh f hf)
    · rw [hold (h.lt_of_fired hf)]
      exact h.later f hf he hin

theorem named_fire {rest : List Elem} (h : FiringInv s log) (hl : s.timers = .tev id :: rest) :
    ∀ x ∈ (s.fire id rest).timers, ∃ j, x = .tev j := by
  have hrest : ∀ x ∈ rest, ∃ j, x = .tev j := fun x hx =>
    h.named x (hl ▸ List.mem_cons_of_mem _ hx)
  cases hint : s.interval id with
  | none =>
    rw [fire_of_timeout rest hint]
    exact hrest
  | some dt =>
    rw [fire_of_interval rest hint]
    exact named_timerPut hrest

theorem nondecreasing_fire (h : FiringInv s log) (hid : .tev id ∈ s.timers) :
    ((log.fired ++ [Firing.mk id (s.due (.tev id)) s.t log.pass]).map Firing.due).Pairwise
      (· ≤ ·) := by
  rw [List.map_append, List.pairwise_append]
  refine ⟨h.nondecreasing, List.pairwise_singleton _ _, fun a ha b hb => ?_⟩
  obtain ⟨f, hf, rfl⟩ := List.mem_map.mp ha
  rw [List.map_singleton, List.mem_singleton] at hb
  exact hb ▸ h.ahead f hf id hid

/-- A timeout in the list has not fired. -/
theorem timeoutOnce_fire {j : Nat} (h : FiringInv s log) (hid : .tev id ∈ s.timers)
    (hint : s.interval j = none) :
    ((log.fired ++ [Firing.mk id (s.due (.tev id)) s.t log.pass]).map Firing.id).count j ≤ 1 := by
  rw [List.map_append, List.count_append, List.map_singleton, List.count_singleton]
  by_cases hj : j = id
  · subst hj
    have hzero : (log.fired.map Firing.id).count j = 0 := by
      refine List.count_eq_zero.mpr fun hm => ?_
      obtain ⟨f, hf, hfj⟩ := List.mem_map.mp hm
      exact h.once f hf (hfj ▸ hint) (hfj ▸ hid)
    rw [hzero]
    simp
  · have hcount := h.timeoutOnce j hint
    rw [if_neg (by simpa using Ne.symm hj)]
    exact hcount

/-- Had the timer fired in this pass, it would be due after it. -/
theorem oncePerPass_fire (h : FiringInv s log) (hid : .tev id ∈ s.timers)
    (hdue : s.due (.tev id) ≤ s.t) :
    ((log.fired ++ [Firing.mk id (s.due (.tev id)) s.t log.pass]).map
      fun f => (f.id, f.pass)).Nodup := by
  rw [List.map_append, List.nodup_append]
  refine ⟨h.oncePerPass, List.pairwise_singleton _ _, fun a ha b hb => ?_⟩
  obtain ⟨f, hf, rfl⟩ := List.mem_map.mp ha
  rw [List.map_singleton, List.mem_singleton] at hb
  subst hb
  intro he
  obtain ⟨hfid, hpass⟩ := Prod.mk.inj he
  have hlater := h.later f hf hpass (hfid ▸ hid)
  rw [hfid] at hlater
  exact absurd hlater (Int.not_lt.mpr hdue)

/-- The timer at the front fires. -/
theorem fire {rest : List Elem} (h : FiringInv s log) (hl : s.timers = .tev id :: rest)
    (hdue : s.due (.tev id) ≤ s.t) :
    FiringInv (s.fire id rest)
      { log with fired := log.fired ++ [⟨id, s.due (.tev id), s.t, log.pass⟩] } := by
  have hid : Elem.tev id ∈ s.timers := hl ▸ List.mem_cons_self
  have hf := fire_fired h.roster hl
  have hnext := fire_inDueOrder h.roster hl h.order fun dt hint y hy hno => by
    obtain ⟨j, hj⟩ := h.named y (hl ▸ List.mem_cons_of_mem _ hy)
    exact absurd hj (hno j)
  have hnot := h.roster.not_mem_rest hl
  have hnamed := h.named_fire hl
  have hroster := h.roster.fire hl
  generalize s.fire id rest = s' at *
  have hin : ∀ {j}, Elem.tev j ∈ rest → .tev j ∈ s.timers := fun hj =>
    hl ▸ List.mem_cons_of_mem _ hj
  have hfront : ∀ j, Elem.tev j ∈ rest → s.due (.tev id) ≤ s.due (.tev j) := by
    intro j hj
    have horder := h.order
    rw [hl] at horder
    exact (List.pairwise_cons.mp horder).1 _ hj id j rfl rfl
  have hother : ∀ {j}, Elem.tev j ∈ rest → s'.due (.tev j) = s.due (.tev j) := by
    intro j hj
    exact hf.other j fun he => hnot (he ▸ hj)
  -- nothing has fired that is due after this timer
  have hlast : ∀ f ∈ log.fired, f.due ≤ s.due (.tev id) := fun f hf => h.ahead f hf id hid
  have hmem : ∀ {f : Firing}, f ∈ log.fired ++ [⟨id, s.due (.tev id), s.t, log.pass⟩] →
      f ∈ log.fired ∨ f = ⟨id, s.due (.tev id), s.t, log.pass⟩ := by
    intro f hf
    exact (List.mem_append.mp hf).imp (fun h => h) List.mem_singleton.mp
  refine ⟨hroster, hnamed, fun j hj => ?_, hnext, ?_, ?_, fun f hfm => ?_, fun f hfm j hj => ?_,
    h.nondecreasing_fire hid, fun f hfm hint hj => ?_, fun j hint => ?_, fun f hfm => ?_,
    fun f hfm hp hj => ?_, h.oncePerPass_fire hid hdue⟩
  · rw [hf.trace] at hj
    exact h.noClear j (by simpa using hj)
  · rw [hf.t, hf.now]
    exact h.clock
  · rw [hf.trace, List.filterMap_append, ← h.logged, List.map_append]
    rfl
  · rw [hf.t]
    rcases hmem hfm with hold | rfl
    · exact h.past f hold
    · exact ⟨hdue, hdue⟩
  · have hle : f.due ≤ s.due (.tev id) := by
      rcases hmem hfm with hold | rfl
      · exact hlast f hold
      · exact Int.le_refl _
    rcases (hf.mem j).mp hj with hj | ⟨rfl, hint⟩
    · rw [hother hj]
      exact Int.le_trans hle (hfront j hj)
    · have hagain := hf.again hint
      omega
  · rw [hf.interval] at hint
    rcases (hf.mem f.id).mp hj with hj | ⟨he, hne⟩
    · rcases hmem hfm with hold | rfl
      · exact h.once f hold hint (hin hj)
      · exact hnot hj
    · exact hne (he ▸ hint)
  · rw [hf.interval] at hint
    exact h.timeoutOnce_fire hid hint
  · rcases hmem hfm with hold | rfl
    · exact h.numbered f hold
    · exact Nat.le_refl _
  · rw [hf.t]
    rcases (hf.mem f.id).mp hj with hj | ⟨he, hint⟩
    · rw [hother hj]
      rcases hmem hfm with hold | rfl
      · exact h.later f hold hp (hin hj)
      · exact absurd hj hnot
    · rw [he]
      exact hf.again hint

end FiringInv

theorem noteFiring_fires {rest : List Elem} {log : FireLog} (hl : s.timers = .tev id :: rest)
    (hdue : s.due (.tev id) ≤ s.t) : noteFiring s .turn log =
      { log with fired := log.fired ++ [⟨id, s.due (.tev id), s.t, log.pass⟩] } := by
  simp only [noteFiring, hl, if_neg (Int.not_lt.mpr hdue)]

theorem noteFiring_ends {log : FireLog}
    (hl : ∀ id rest, s.timers = .tev id :: rest → s.t < s.due (.tev id)) :
    noteFiring s .turn log = log := by
  cases hlist : s.timers with
  | nil => simp only [noteFiring, hlist]
  | cons x rest =>
    cases x with
    | undef => simp only [noteFiring, hlist]
    | empty => simp only [noteFiring, hlist]
    | tev id => simp only [noteFiring, hlist, if_pos (hl id rest hlist)]

theorem firingInv_step {log : FireLog} (h : FiringInv s log) (hG : NoClears (s, log) i)
    (hs : s.step i = some s') : FiringInv s' (noteFiring s i log) := by
  have hr := roster_step h.roster hs
  cases timerStep_cases hs with
  | tick n => exact h.update hr rfl rfl rfl rfl (Int.le_add_of_nonneg_right (Int.natCast_nonneg n))
  | timeoutSet ms hp =>
    have hdue : s.now ≤ s.now + seconds ms := Int.le_add_of_nonneg_right (seconds_nonneg hG)
    exact h.set hr hdue rfl nofun
  | intervalSet ms hp =>
    have hdue : s.now ≤ s.now + seconds ms := Int.le_add_of_nonneg_right (seconds_nonneg hG)
    exact h.set hr hdue rfl nofun
  | clear id hi hid =>
    rcases hi with rfl | rfl
    · exact hG.elim
    · exact hG.elim
  | pass hc => exact h.begin_pass hr
  | ends hc hl hu =>
    rw [noteFiring_ends hl]
    exact h.update hr rfl rfl rfl rfl (Int.le_refl _)
  | drops rest hl =>
    obtain ⟨j, hj⟩ := h.named .undef (hl ▸ List.mem_cons_self)
    cases hj
  | dies rest hl =>
    obtain ⟨j, hj⟩ := h.named .empty (hl ▸ List.mem_cons_self)
    cases hj
  | fires id rest hc hl hdue =>
    rw [noteFiring_fires hl hdue]
    exact h.fire hl hdue
  | ret hc => exact h.update hr rfl rfl rfl rfl (Int.le_refl _)

namespace FiringInv

variable {log : FireLog}

theorem sorted (h : FiringInv s log) : (s.timers.map s.due).Pairwise (· ≤ ·) := by
  rw [List.pairwise_map]
  refine List.Pairwise.imp_of_mem (fun {x y} hx hy hxy => ?_) h.order
  obtain ⟨a, rfl⟩ := h.named x hx
  obtain ⟨b, rfl⟩ := h.named y hy
  exact hxy a b rfl rfl

/-- At the end of a pass no timer of the list is due. -/
theorem not_mem_of_due (h : FiringInv s log)
    (hl : ∀ id rest, s.timers = .tev id :: rest → s.t < s.due (.tev id))
    (hdue : s.due (.tev id) ≤ s.t) : .tev id ∉ s.timers := by
  intro hin
  have horder := h.order
  cases hlist : s.timers with
  | nil =>
    rw [hlist] at hin
    cases hin
  | cons x rest =>
    obtain ⟨j, rfl⟩ := h.named x (hlist ▸ List.mem_cons_self)
    have hj := hl j rest hlist
    rw [hlist] at hin horder
    rcases List.mem_cons.mp hin with he | hin
    · cases he
      omega
    · have hle := (List.pairwise_cons.mp horder).1 _ hin j id rfl rfl
      omega

theorem complete (h : FiringInv s log) (hs : s.step .turn = some s')
    (hc : s'.control = .program) (hid : id < s'.tevs.length) (hdue : s'.due (.tev id) ≤ s'.t) :
    .tev id ∉ s'.timers ∧ ∃ f ∈ log.fired, f.id = id := by
  generalize hi : TInput.turn = i at hs
  cases timerStep_cases hs with
  | tick n => cases hi
  | timeoutSet ms hp => cases hi
  | intervalSet ms hp => cases hi
  | clear id hi' hid' =>
    subst hi
    rcases hi' with he | he <;> cases he
  | pass hc' => cases hi
  | ends hcp hl hu =>
    have hout : .tev id ∉ s.timers := h.not_mem_of_due hl hdue
    obtain ⟨_, hfired⟩ := h.roster.gone id hid hout (h.noClear id)
    have hlog : id ∈ s.trace.filterMap TObs.callback := List.mem_filterMap.mpr ⟨_, hfired, rfl⟩
    rw [← h.logged] at hlog
    obtain ⟨f, hf, hfid⟩ := List.mem_map.mp hlog
    exact ⟨hout, f, hf, hfid⟩
  | drops rest hl =>
    obtain ⟨j, hj⟩ := h.named .undef (hl ▸ List.mem_cons_self)
    cases hj
  | dies rest hl => cases hc
  | fires j rest hcp hl hd =>
    cases hint : s.interval j with
    | none =>
      rw [fire_of_timeout rest hint] at hc
      cases hc
    | some dt =>
      rw [fire_of_interval rest hint] at hc
      cases hc
  | ret hc' => cases hi

theorem firesInOrder (h : FiringInv s log) : FiresInOrder (s, log) where
  logged := h.logged
  sorted := h.sorted
  nondecreasing := h.nondecreasing
  notEarly := fun f hf => (h.past f hf).1
  complete := fun _ hs hc _ hid hdue => h.complete hs hc hid hdue
  timeoutOnce := fun id hid => h.timeoutOnce id (h.roster.timeout id hid).1
  oncePerPass := h.oncePerPass

end FiringInv

/-- **The order of firing.** In a run without clears and with delays that are not negative,
    `@TIMERS` is sorted by expiry, timers fire in the order of their expiries and not before
    them, a pass leaves nothing due behind, a timeout fires once and an interval once in a
    pass. -/
theorem fires_in_order (p : TimerState × FireLog) (h : LogReachable p) : FiresInOrder p := by
  obtain ⟨now, h⟩ := h
  have hinv : FiringInv p.1 p.2 := by
    refine h.invariant (I := fun p => FiringInv p.1 p.2) (FiringInv.init now) ?_
    intro p i p' hp hG hstep
    obtain ⟨hs, hn⟩ := Machine.step_withNotes hstep
    rw [hn]
    exact firingInv_step hp hG hs
  exact hinv.firesInOrder

/-- An interval and two timeouts, one of them set in a callback. -/
theorem fires_in_order_mixed : ∃ p : TimerState × FireLog, LogReachable p ∧ FiresInOrder p ∧
    p.2.fired = [⟨0, 6, 6, 1⟩, ⟨2, 6, 6, 1⟩, ⟨0, 7, 8, 2⟩, ⟨1, 8, 8, 2⟩] := by
  obtain ⟨p, hr, hp⟩ := Machine.Reaches.of_run_map (M := timerLog) (G := NoClears)
    (s := (.init 5, ⟨0, []⟩)) (fun p => p.2.fired)
    [.intervalSet 1000, .timeoutSet 3000, .tick 1, .pass, .turn, .timeoutSet 0, .ret, .turn, .ret,
      .turn, .tick 2, .pass, .turn, .ret, .turn, .ret, .turn]
    (show _ = some [⟨0, 6, 6, 1⟩, ⟨2, 6, 6, 1⟩, ⟨0, 7, 8, 2⟩, ⟨1, 8, 8, 2⟩] by decide)
  have hreach : LogReachable p := ⟨5, hr⟩
  exact ⟨p, hreach, fires_in_order p hreach, hp⟩

end NginxEngine.PP
