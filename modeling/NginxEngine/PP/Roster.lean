import NginxEngine.PP.Timers

/-!
# Which timers are in the list

Whatever the program sets and clears, `@TIMERS` holds each timer at most once, a cleared timer not
at all, and the loop takes out for good only a timeout that it fires. An interval is put back
before its callback runs, if its length did not round to nothing: `ngxe_interval_set` keeps whole
seconds, and the loop asks whether there are any.

## Main definitions

- `Roster` — what every run keeps of the list
- `IntervalsRepeat` — an interval stays in the list until it is cleared

## Main results

- `roster_of_reachable` — the invariant of every run
- `intervals_repeat` — intervals that repeat
- `short_interval_lost` — an interval that fires once
-/

namespace NginxEngine.PP

/-! ### `_timer_put` -/

section
variable {due : Elem → Int} {deadline : Int} {id j : Nat} {l : List Elem} {x : Elem}

/-- The array that Perl makes of undef is nobody's timer. -/
theorem vivify_eq_tev : x.vivify = .tev j ↔ x = .tev j := by
  cases x with
  | undef => exact ⟨nofun, nofun⟩
  | empty => exact ⟨nofun, nofun⟩
  | tev id => exact Iff.rfl

theorem count_vivify_cons :
    (x.vivify :: l).count (.tev j) = l.count (.tev j) + if x = .tev j then 1 else 0 := by
  rw [List.count_cons]
  simp only [beq_iff_eq, vivify_eq_tev]

/-- A timer is put once, and every other is where it was. -/
theorem count_timerPut : (timerPut due deadline id l).count (.tev j) =
    l.count (.tev j) + if id = j then 1 else 0 := by
  induction l with
  | nil =>
    rw [timerPut, List.count_cons]
    simp only [beq_iff_eq, Elem.tev.injEq]
  | cons y rest ih =>
    rw [timerPut]
    by_cases hlt : due y < deadline
    · rw [if_pos hlt, count_vivify_cons, ih, List.count_cons]
      simp only [beq_iff_eq]
      omega
    · rw [if_neg hlt, List.count_cons, count_vivify_cons, List.count_cons]
      simp only [beq_iff_eq, Elem.tev.injEq]

theorem mem_timerPut :
    .tev j ∈ timerPut due deadline id l ↔ j = id ∨ .tev j ∈ l := by
  rw [← List.count_pos_iff, ← List.count_pos_iff, count_timerPut]
  by_cases hj : j = id
  · simp [hj]
  · simp [hj, Ne.symm hj]

end

/-! ### The list in every run -/

/-- What every run keeps of `@TIMERS`. -/
structure Roster (s : TimerState) : Prop where
  once : ∀ id, s.timers.count (.tev id) ≤ 1
  range : ∀ id, .tev id ∈ s.timers → id < s.tevs.length
  timeout : ∀ id, .timeoutSet id ∈ s.trace → s.interval id = none ∧ id < s.tevs.length
  interval : ∀ id, .intervalSet id ∈ s.trace → id < s.tevs.length
  fired : ∀ id, .fired id ∈ s.trace → id < s.tevs.length
  cleared : ∀ id, .cleared id ∈ s.trace → id < s.tevs.length ∧ .tev id ∉ s.timers
  /-- A timer leaves the list when it is cleared, or when it fires and is no interval. -/
  gone : ∀ id < s.tevs.length, .tev id ∉ s.timers → .cleared id ∉ s.trace →
    s.interval id = none ∧ .fired id ∈ s.trace

variable {s s' : TimerState} {id : Nat} {i : TInput}

theorem tev_mem_of_count {l l' : List Elem} (h : l'.count (.tev id) = l.count (.tev id)) :
    Elem.tev id ∈ l' ↔ .tev id ∈ l := by
  rw [← List.count_pos_iff, ← List.count_pos_iff, h]

namespace Roster

theorem init (now : Int) : Roster (.init now) where
  once := fun _ => Nat.zero_le 1
  range := nofun
  timeout := nofun
  interval := nofun
  fired := nofun
  cleared := nofun
  gone := nofun

/-- A step that neither puts nor takes a timer. -/
theorem update (h : Roster s)
    (hcount : ∀ id, s'.timers.count (.tev id) = s.timers.count (.tev id))
    (htevs : s'.tevs = s.tevs) (htrace : s'.trace = s.trace) : Roster s' := by
  obtain ⟨timers, tevs, now, t, control, trace⟩ := s'
  cases htevs
  cases htrace
  have hmem : ∀ id, Elem.tev id ∈ timers ↔ .tev id ∈ s.timers := fun id =>
    tev_mem_of_count (hcount id)
  refine ⟨fun id => ?_, fun id hid => h.range id ((hmem id).mp hid), h.timeout, h.interval,
    h.fired, fun id hid => ?_, fun id hid hout => ?_⟩
  · rw [hcount id]
    exact h.once id
  · exact ⟨(h.cleared id hid).1, fun hin => (h.cleared id hid).2 ((hmem id).mp hin)⟩
  · exact h.gone id hid fun hin => hout ((hmem id).mpr hin)

/-- A new timer. -/
theorem set {e : Tev} {x : TObs} (h : Roster s)
    (hx : x = .timeoutSet s.tevs.length ∧ e.dt = none ∨ x = .intervalSet s.tevs.length) :
    Roster ((s.set e).observe x) := by
  have hlen : ((s.set e).observe x).tevs.length = s.tevs.length + 1 := by
    simp [TimerState.set, TimerState.observe]
  have hmem : ∀ id, .tev id ∈ ((s.set e).observe x).timers ↔
      id = s.tevs.length ∨ .tev id ∈ s.timers := fun id => mem_timerPut
  have hnew : Elem.tev s.tevs.length ∉ s.timers := fun hin =>
    absurd (h.range _ hin) (Nat.lt_irrefl _)
  have hset : x = .timeoutSet s.tevs.length ∨ x = .intervalSet s.tevs.length :=
    hx.imp And.left fun hi => hi
  refine ⟨fun id => ?_, fun id hid => ?_, fun id hid => ?_, fun id hid => ?_, fun id hid => ?_,
    fun id hid => ?_, fun id hid hout hncl => ?_⟩
  · show (timerPut s.due e.due s.tevs.length s.timers).count (.tev id) ≤ 1
    rw [count_timerPut]
    by_cases hid : id = s.tevs.length
    · rw [hid, List.count_eq_zero_of_not_mem hnew, if_pos rfl]
    · rw [if_neg (Ne.symm hid)]
      exact h.once id
  · rw [hlen]
    rcases (hmem id).mp hid with rfl | hin
    · exact Nat.lt_succ_self _
    · exact Nat.lt_succ_of_lt (h.range id hin)
  · rw [hlen]
    by_cases hid' : TObs.timeoutSet id = x
    · rcases hx with ⟨rfl, hdt⟩ | rfl
      · cases hid'
        refine ⟨?_, Nat.lt_succ_self _⟩
        show (s.set e).interval _ = none
        rw [interval_set_self, hdt]
        rfl
      · cases hid'
    · obtain ⟨hint, hlt⟩ := h.timeout id (mem_of_mem_snoc hid hid')
      exact ⟨(interval_set_lt hlt).trans hint, Nat.lt_succ_of_lt hlt⟩
  · rw [hlen]
    by_cases hid' : TObs.intervalSet id = x
    · rcases hset with rfl | rfl
      · cases hid'
      · cases hid'
        exact Nat.lt_succ_self _
    · exact Nat.lt_succ_of_lt (h.interval id (mem_of_mem_snoc hid hid'))
  · rw [hlen]
    exact Nat.lt_succ_of_lt (h.fired id (mem_of_mem_snoc hid (fired_ne_set hset)))
  · obtain ⟨hlt, hout⟩ := h.cleared id (mem_of_mem_snoc hid (cleared_ne_set hset))
    refine ⟨hlen ▸ Nat.lt_succ_of_lt hlt, fun hin => ?_⟩
    rcases (hmem id).mp hin with rfl | hin
    · exact Nat.lt_irrefl _ hlt
    · exact hout hin
  · rw [hlen] at hid
    have hne : id ≠ s.tevs.length := fun he => hout ((hmem id).mpr (.inl he))
    have hlt : id < s.tevs.length := by omega
    obtain ⟨hint, hfired⟩ := h.gone id hlt (fun hin => hout ((hmem id).mpr (.inr hin)))
      fun hc => hncl (List.mem_append_left _ hc)
    exact ⟨(interval_set_lt hlt).trans hint, List.mem_append_left _ hfired⟩

theorem clear (h : Roster s) (hid : id < s.tevs.length) : Roster (s.ngxeTimeoutClear id) := by
  have hcount : ∀ j, j ≠ id → (s.ngxeTimeoutClear id).timers.count (.tev j) =
      s.timers.count (.tev j) := fun j hj => count_timerDel_ne hj
  have hself : (s.ngxeTimeoutClear id).timers.count (.tev id) = 0 := by
    show (timerDel id s.timers).count (.tev id) = 0
    have honce := h.once id
    rw [count_timerDel_self]
    omega
  have hout : Elem.tev id ∉ (s.ngxeTimeoutClear id).timers := List.count_eq_zero.mp hself
  refine ⟨fun j => ?_, fun j hj => ?_, fun j hj => h.timeout j (mem_of_mem_snoc hj nofun),
    fun j hj => h.interval j (mem_of_mem_snoc hj nofun),
    fun j hj => h.fired j (mem_of_mem_snoc hj nofun), fun j hj => ?_,
    fun j hj hjout hncl => ?_⟩
  · by_cases hji : j = id
    · rw [hji, hself]
      exact Nat.zero_le 1
    · rw [hcount j hji]
      exact h.once j
  · by_cases hji : j = id
    · exact hji ▸ hid
    · exact h.range j ((tev_mem_of_count (hcount j hji)).mp hj)
  · by_cases hji : j = id
    · subst hji
      exact ⟨hid, hout⟩
    · have hne : TObs.cleared j ≠ .cleared id := fun he => hji (TObs.cleared.inj he)
      obtain ⟨hlt, hjout⟩ := h.cleared j (mem_of_mem_snoc hj hne)
      exact ⟨hlt, fun hin => hjout ((tev_mem_of_count (hcount j hji)).mp hin)⟩
  · have hji : j ≠ id := by
      intro he
      subst he
      exact hncl (List.mem_append_right _ (List.mem_singleton_self _))
    obtain ⟨hint, hfired⟩ := h.gone j hj
      (fun hin => hjout ((tev_mem_of_count (hcount j hji)).mpr hin))
      fun hc => hncl (List.mem_append_left _ hc)
    exact ⟨hint, List.mem_append_left _ hfired⟩

/-- A timer of the list fires: an interval is in the list as before, any other timer is not. -/
theorem fired_one (h : Roster s) (hid : .tev id ∈ s.timers)
    (htrace : s'.trace = s.trace ++ [.fired id]) (hlen : s'.tevs.length = s.tevs.length)
    (hint : ∀ j, s'.interval j = s.interval j)
    (hself : s'.timers.count (.tev id) ≤ 1 ∧ (.tev id ∉ s'.timers → s.interval id = none))
    (hother : ∀ j, j ≠ id → s'.timers.count (.tev j) = s.timers.count (.tev j)) :
    Roster s' := by
  have hmem : ∀ {j}, Elem.tev j ∈ s'.timers → .tev j ∈ s.timers := by
    intro j hj
    by_cases hji : j = id
    · exact hji ▸ hid
    · exact (tev_mem_of_count (hother j hji)).mp hj
  have hold : ∀ {y : TObs}, y ∈ s'.trace → y ≠ .fired id → y ∈ s.trace := by
    intro y hy hne
    rw [htrace] at hy
    exact mem_of_mem_snoc hy hne
  refine ⟨fun j => ?_, fun j hj => ?_, fun j hj => ?_, fun j hj => ?_, fun j hj => ?_,
    fun j hj => ?_, fun j hj hout hncl => ?_⟩
  · by_cases hji : j = id
    · exact hji ▸ hself.1
    · rw [hother j hji]
      exact h.once j
  · rw [hlen]
    exact h.range j (hmem hj)
  · rw [hint, hlen]
    exact h.timeout j (hold hj nofun)
  · rw [hlen]
    exact h.interval j (hold hj nofun)
  · rw [hlen]
    by_cases hji : TObs.fired j = .fired id
    · cases hji
      exact h.range id hid
    · exact h.fired j (hold hj hji)
  · rw [hlen]
    obtain ⟨hlt, hout⟩ := h.cleared j (hold hj nofun)
    exact ⟨hlt, fun hin => hout (hmem hin)⟩
  · rw [hint, htrace]
    by_cases hji : j = id
    · subst hji
      exact ⟨hself.2 hout, List.mem_append_right _ (List.mem_singleton_self _)⟩
    · rw [hlen] at hj
      obtain ⟨hnone, hfired⟩ := h.gone j hj
        (fun hin => hout ((tev_mem_of_count (hother j hji)).mpr hin))
        fun hc => hncl (htrace ▸ List.mem_append_left _ hc)
      exact ⟨hnone, List.mem_append_left _ hfired⟩

theorem not_mem_rest {rest : List Elem} (h : Roster s) (hl : s.timers = .tev id :: rest) :
    Elem.tev id ∉ rest := by
  have honce := h.once id
  rw [hl, List.count_cons_self] at honce
  exact List.count_eq_zero.mp (by omega)

theorem fire {rest : List Elem} (h : Roster s) (hl : s.timers = .tev id :: rest) :
    Roster (s.fire id rest) := by
  have hid : Elem.tev id ∈ s.timers := hl ▸ List.mem_cons_self
  have hrest : ∀ j, j ≠ id → rest.count (.tev j) = s.timers.count (.tev j) := by
    intro j hj
    have hne : Elem.tev id ≠ .tev j := fun he => hj (Elem.tev.inj he).symm
    rw [hl, List.count_cons_of_ne hne]
  have hzero : rest.count (.tev id) = 0 := List.count_eq_zero_of_not_mem (h.not_mem_rest hl)
  cases hint : s.interval id with
  | none =>
    rw [fire_of_timeout rest hint]
    exact h.fired_one hid rfl rfl (fun _ => rfl) ⟨hzero ▸ Nat.zero_le 1, fun _ => hint⟩
      hrest
  | some dt =>
    rw [fire_of_interval rest hint]
    refine h.fired_one hid rfl (List.length_modify _ _ _) (fun _ => interval_restamp)
      ⟨?_, fun hout => ?_⟩ fun j hj => ?_
    · show (timerPut _ _ id rest).count (.tev id) ≤ 1
      rw [count_timerPut, hzero, if_pos rfl]
    · exact absurd (mem_timerPut.mpr (.inl rfl)) hout
    · show (timerPut _ _ id rest).count (.tev j) = _
      rw [count_timerPut, if_neg (Ne.symm hj)]
      exact hrest j hj

end Roster

theorem roster_step (h : Roster s) (hs : s.step i = some s') : Roster s' := by
  cases timerStep_cases hs with
  | tick n => exact h.update (fun _ => rfl) rfl rfl
  | timeoutSet ms hp => exact h.set (.inl ⟨rfl, rfl⟩)
  | intervalSet ms hp => exact h.set (.inr rfl)
  | clear id hi hid => exact h.clear hid
  | pass hc => exact h.update (fun _ => rfl) rfl rfl
  | ends hc hl hu => exact h.update (fun _ => rfl) rfl rfl
  | drops rest hl =>
    refine h.update (fun id => ?_) rfl rfl
    have hne : Elem.undef ≠ .tev id := nofun
    rw [hl, List.count_cons_of_ne hne]
  | dies rest hl =>
    refine h.update (fun id => ?_) rfl rfl
    have hne : Elem.empty ≠ .tev id := nofun
    rw [hl, List.count_cons_of_ne hne]
  | fires id rest hc hl hdue => exact h.fire hl
  | ret hc => exact h.update (fun _ => rfl) rfl rfl

/-- The list in every run. -/
theorem roster_of_reachable {G : TimerState → TInput → Prop} (h : s.Reachable G) : Roster s := by
  obtain ⟨now, h⟩ := h
  exact h.invariant (Roster.init now) fun _ _ _ hs _ hstep => roster_step hs hstep

/-! ### Intervals -/

/-- Outside the pass, an interval is in `@TIMERS` until it is cleared, and no longer. -/
def IntervalsRepeat (s : TimerState) : Prop :=
  s.control = .program → ∀ id, .intervalSet id ∈ s.trace →
    (.tev id ∈ s.timers ↔ .cleared id ∉ s.trace)

/-- Intervals have a positive length. -/
def PositiveIntervals (_ : TimerState) : TInput → Prop
  | .intervalSet ms => 0 < ms
  | _ => True

instance {s : TimerState} {i : TInput} : Decidable (PositiveIntervals s i) := by
  unfold PositiveIntervals
  induction i using TInput.casesOn <;> infer_instance

/-- Every interval has kept a length. -/
def IntervalsKept (s : TimerState) : Prop :=
  ∀ id, .intervalSet id ∈ s.trace → (s.interval id).isSome = true

theorem intervalsKept_set {e : Tev} {x : TObs} (hr : Roster s) (h : IntervalsKept s)
    (hx : ∀ id, x = .intervalSet id →
      id = s.tevs.length ∧ ∃ dt, e.dt = some dt ∧ 0 < dt) :
    IntervalsKept ((s.set e).observe x) := by
  intro id hid
  show ((s.set e).interval id).isSome = true
  rcases List.mem_append.mp hid with hid | hid
  · rw [interval_set_lt (hr.interval id hid)]
    exact h id hid
  · obtain ⟨rfl, dt, hdt, hpos⟩ := hx id (List.mem_singleton.mp hid).symm
    rw [interval_set_self, hdt]
    simp [Option.filter, hpos]

/-- A step that sets no timer. -/
theorem intervalsKept_update (h : IntervalsKept s) (hint : ∀ j, s'.interval j = s.interval j)
    (htrace : ∀ j, .intervalSet j ∈ s'.trace → .intervalSet j ∈ s.trace) : IntervalsKept s' := by
  intro id hid
  rw [hint]
  exact h id (htrace id hid)

theorem intervalsKept_fire {rest : List Elem} (h : IntervalsKept s) :
    IntervalsKept (s.fire id rest) := by
  have hold : ∀ j, TObs.intervalSet j ∈ s.trace ++ [.fired id] → .intervalSet j ∈ s.trace := by
    intro j hj
    simpa using hj
  cases hint : s.interval id with
  | none =>
    rw [fire_of_timeout rest hint]
    exact intervalsKept_update h (fun _ => rfl) hold
  | some dt =>
    rw [fire_of_interval rest hint]
    exact intervalsKept_update h (fun _ => interval_restamp) hold

theorem intervalsKept_step (hr : Roster s) (h : IntervalsKept s) (hG : LongIntervals s i)
    (hs : s.step i = some s') : IntervalsKept s' := by
  cases timerStep_cases hs with
  | tick n => exact h
  | timeoutSet ms hp => exact intervalsKept_set hr h nofun
  | intervalSet ms hp =>
    refine intervalsKept_set hr h fun id he => ?_
    cases he
    exact ⟨rfl, _, rfl, seconds_pos hG⟩
  | clear id hi hid =>
    refine intervalsKept_update h (fun _ => rfl) fun j hj => ?_
    simpa [TimerState.ngxeTimeoutClear, TimerState.observe] using hj
  | pass hc => exact h
  | ends hc hl hu => exact h
  | drops rest hl => exact h
  | dies rest hl => exact h
  | fires id rest hc hl hdue => exact intervalsKept_fire h
  | ret hc => exact h

/-- **Intervals repeat.** An interval of at least 500 ms is in `@TIMERS` until it is cleared,
    however often it has fired, and a cleared one is not. -/
theorem intervals_repeat (s : TimerState) (h : s.Reachable LongIntervals) :
    IntervalsRepeat s := by
  have hroster := roster_of_reachable h
  obtain ⟨now, h⟩ := h
  have hkept : Roster s ∧ IntervalsKept s := by
    refine h.invariant (I := fun s => Roster s ∧ IntervalsKept s) ⟨Roster.init now, nofun⟩ ?_
    intro s i s' hs hG hstep
    exact ⟨roster_step hs.1 hstep, intervalsKept_step hs.1 hs.2 hG hstep⟩
  intro _ id hset
  refine ⟨fun hin hc => (hroster.cleared id hc).2 hin, fun hnc => ?_⟩
  by_contra hout
  obtain ⟨hnone, _⟩ := hroster.gone id (hroster.interval id hset) hout hnc
  have hsome := hkept.2 id hset
  rw [hnone] at hsome
  cases hsome

/-- An interval of a second has fired twice, and one was cleared in its callback. -/
theorem intervals_repeat_twice : ∃ s : TimerState, s.Reachable LongIntervals ∧
    IntervalsRepeat s ∧ s.control = .program ∧ s.timers = [.tev 0, .undef] ∧
    s.trace = [.intervalSet 0, .fired 0, .intervalSet 1, .fired 0, .fired 1, .cleared 1] := by
  obtain ⟨s, hr, hs⟩ := Machine.Reaches.of_run_map (M := timerLoop) (G := LongIntervals)
    (s := .init 5) (fun s => (s.control, s.timers, s.trace))
    [.intervalSet 1000, .tick 1, .pass, .turn, .intervalSet 1600, .ret, .turn, .tick 2, .pass,
      .turn, .ret, .turn, .intervalClear 1, .ret, .turn]
    (show _ = some (.program, [.tev 0, .undef],
      [.intervalSet 0, .fired 0, .intervalSet 1, .fired 0, .fired 1, .cleared 1]) by decide)
  have hreach : s.Reachable LongIntervals := ⟨5, hr⟩
  simp only [Prod.mk.injEq] at hs
  exact ⟨s, hreach, intervals_repeat s hreach, hs⟩

/-- An interval of 100 ms is put in the list with no length, fires once and is gone. -/
theorem short_interval_lost :
    ¬ ∀ s : TimerState, s.Reachable PositiveIntervals → IntervalsRepeat s := by
  intro h
  obtain ⟨s, hr, hs⟩ := Machine.Reaches.of_run_map (M := timerLoop) (G := PositiveIntervals)
    (s := .init 5) (fun s => (s.control, s.timers, s.trace))
    [.intervalSet 100, .pass, .turn, .ret, .turn]
    (show _ = some (.program, [], [.intervalSet 0, .fired 0]) by decide)
  simp only [Prod.mk.injEq] at hs
  obtain ⟨hc, hl, ht⟩ := hs
  have hin := (h s ⟨5, hr⟩ hc 0 (by simp [ht])).mpr (by simp [ht])
  rw [hl] at hin
  cases hin

end NginxEngine.PP
