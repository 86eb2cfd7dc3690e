import NginxEngine.PP.Firing

/-!
# Timeouts and their delays

`ngxe_timeout_set` keeps the second in which a timeout is due, and `_timer_put` puts a timer in
front of those that are due in the same second. Of two timeouts whose delays round to the same
second the later one fires first, even if its delay is the longer one.

## Main definitions

- `noteDelay` — the delays with which the timers were set
- `ShorterFirst` — a timeout that was set later and is not shorter fires later
- `Untied` — no timeout is set to be due together with a timeout that is no longer than it

## Main results

- `shorter_first` — without ties, timeouts fire in the order of their delays
- `tied_timeouts_swapped` — a tie turns two timeouts round
-/

namespace NginxEngine.PP

/-- The delays, in ms, by the order in which the timers were set. -/
def noteDelay (_ : TimerState) (i : TInput) (delays : List Int) : List Int :=
  match i with
  | .timeoutSet ms | .intervalSet ms => delays ++ [ms]
  | _ => delays

/-- The loop with the delays of its timers. -/
def timerDelays : Machine (TimerState × List Int) TInput := timerLoop.withNotes noteDelay

/-- The states of every run with its delays, of which each step meets `G`. -/
def DelayReachable (G : TimerState × List Int → TInput → Prop) (p : TimerState × List Int) :
    Prop :=
  ∃ now, timerDelays.Reaches G (.init now, []) p

/-- Two timeouts; the second was set after the first, and its delay is not shorter. -/
def SetInOrder (p : TimerState × List Int) (a b : Nat) : Prop :=
  a < b ∧ .timeoutSet a ∈ p.1.trace ∧ .timeoutSet b ∈ p.1.trace ∧ p.2.getD a 0 ≤ p.2.getD b 0

/-- The callback of the first timeout is called before that of the second, unless one of them
    is cleared. -/
def ShorterFirst (p : TimerState × List Int) : Prop :=
  ∀ a b, SetInOrder p a b → .cleared a ∉ p.1.trace → .cleared b ∉ p.1.trace →
    Everywhere (fun before x => x = .fired b → .fired a ∈ before) p.1.trace

/-- No timeout is set to be due in the second of a pending timeout whose delay is no longer, and
    expiries are after the epoch. -/
def Untied (p : TimerState × List Int) : TInput → Prop
  | .timeoutSet ms => 0 < p.1.now + seconds ms ∧
    ∀ a < p.1.tevs.length, .timeoutSet a ∈ p.1.trace → .tev a ∈ p.1.timers →
      p.2.getD a 0 ≤ ms → p.1.due (.tev a) ≠ p.1.now + seconds ms
  | .intervalSet ms => 0 < p.1.now + seconds ms
  | .turn => 0 ≤ p.1.t
  | _ => True

instance {p : TimerState × List Int} {i : TInput} : Decidable (Untied p i) := by
  unfold Untied
  induction i using TInput.casesOn <;> infer_instance

/-- The invariant behind `ShorterFirst`. -/
structure DelayInv (s : TimerState) (delays : List Int) : Prop where
  roster : Roster s
  order : InDueOrder s.due s.timers
  length : delays.length = s.tevs.length
  /-- The clock has not gone back since the timeout was set. -/
  bound : ∀ a, .timeoutSet a ∈ s.trace → s.due (.tev a) ≤ s.now + seconds (delays.getD a 0)
  apart : ∀ a b, SetInOrder (s, delays) a b → .tev a ∈ s.timers → .tev b ∈ s.timers →
    s.due (.tev a) < s.due (.tev b)
  first : ShorterFirst (s, delays)

variable {s s' : TimerState} {id : Nat} {i : TInput} {delays : List Int}

theorem seconds_mono {x y : Int} (h : x ≤ y) : seconds x ≤ seconds y := by
  rw [seconds, seconds]
  exact Int.tdiv_le_tdiv (by decide) (Int.add_le_add_right h 500)

theorem everywhere_of_not_mem {α : Type*} {l : List α} {P : List α → Prop} {y : α} (h : y ∉ l) :
    Everywhere (fun before x => x = y → P before) l := by
  intro p x q hl hx
  exact absurd (hl ▸ hx ▸ List.mem_append_right p List.mem_cons_self) h

namespace DelayInv

theorem init (now : Int) : DelayInv (.init now) [] where
  roster := Roster.init now
  order := List.Pairwise.nil
  length := rfl
  bound := nofun
  apart := fun _ _ _ ha => by cases ha
  first := fun _ _ _ _ _ => everywhere_nil

/-- A step that puts no new timer; `k` is what is observed. -/
theorem grow {k : List TObs} (h : DelayInv s delays) (hr : Roster s')
    (horder : InDueOrder s'.due s'.timers) (hsub : ∀ j, .tev j ∈ s'.timers → .tev j ∈ s.timers)
    (hlen : s'.tevs.length = s.tevs.length)
    (hdue : ∀ j, .timeoutSet j ∈ s.trace → s'.due (.tev j) = s.due (.tev j))
    (hnow : s.now ≤ s'.now) (htrace : s'.trace = s.trace ++ k)
    (hk : ∀ j, .timeoutSet j ∉ k)
    (hfirst : ∀ a b, SetInOrder (s, delays) a b → .cleared a ∉ s.trace → .cleared b ∉ s.trace →
      Everywhere (fun before x => x = .fired b → .fired a ∈ before) s.trace →
      Everywhere (fun before x => x = .fired b → .fired a ∈ before) (s.trace ++ k)) :
    DelayInv s' delays := by
  have hset : ∀ {j}, TObs.timeoutSet j ∈ s'.trace → .timeoutSet j ∈ s.trace := by
    intro j hj
    rw [htrace] at hj
    exact (List.mem_append.mp hj).resolve_right (hk j)
  have hpair : ∀ {a b}, SetInOrder (s', delays) a b → SetInOrder (s, delays) a b := by
    intro a b hab
    exact ⟨hab.1, hset hab.2.1, hset hab.2.2.1, hab.2.2.2⟩
  refine ⟨hr, horder, h.length.trans hlen.symm, fun a ha => ?_, fun a b hab hina hinb => ?_,
    fun a b hab hca hcb => ?_⟩
  · rw [hdue a (hset ha)]
    exact Int.le_trans (h.bound a (hset ha)) (Int.add_le_add_right hnow _)
  · rw [hdue a (hpair hab).2.1, hdue b (hpair hab).2.2.1]
    exact h.apart a b (hpair hab) (hsub a hina) (hsub b hinb)
  · have hold : ∀ {y : TObs}, y ∉ s'.trace → y ∉ s.trace := fun hy hin =>
      hy (htrace ▸ List.mem_append_left k hin)
    have hgrown := hfirst a b (hpair hab) (hold hca) (hold hcb)
      (h.first a b (hpair hab) (hold hca) (hold hcb))
    rw [← htrace] at hgrown
    exact hgrown

/-- A step that is not observed and sets nothing. -/
theorem update (h : DelayInv s delays) (hr : Roster s') (horder : InDueOrder s'.due s'.timers)
    (hsub : ∀ j, .tev j ∈ s'.timers → .tev j ∈ s.timers) (htevs : s'.tevs = s.tevs)
    (hnow : s.now ≤ s'.now) (htrace : s'.trace = s.trace) : DelayInv s' delays := by
  refine h.grow hr horder hsub (by rw [htevs]) (fun j _ => ?_) hnow
    (htrace.trans (List.append_nil _).symm) nofun fun a b _ _ _ hE => ?_
  · simp only [TimerState.due, htevs]
  · rw [List.append_nil]
    exact hE

/-- The list loses its front. -/
theorem drop {x : Elem} {rest : List Elem} (h : DelayInv s delays) (hl : s.timers = x :: rest)
    (c : Control) (hr : Roster { s with timers := rest, control := c }) :
    DelayInv { s with timers := rest, control := c } delays := by
  have horder := h.order
  rw [hl] at horder
  exact h.update hr (List.pairwise_cons.mp horder).2 (fun j hj => hl ▸ List.mem_cons_of_mem x hj)
    rfl (Int.le_refl _) rfl

theorem clear (h : DelayInv s delays) (hr : Roster (s.ngxeTimeoutClear id)) :
    DelayInv (s.ngxeTimeoutClear id) delays := by
  refine h.grow hr (timerDel_inDueOrder h.order) (fun j hj => ?_) rfl (fun _ _ => rfl)
    (Int.le_refl _) rfl (by simp) fun a b _ _ _ hE => hE.append nofun
  rcases mem_timerDel hj with hin | he
  · exact hin
  · cases he

/-- The timer at the front fires: a timeout that was set before it, and is no longer, is not in
    the list. -/
theorem fire {rest : List Elem} (h : DelayInv s delays) (hl : s.timers = .tev id :: rest)
    (ht : 0 ≤ s.t) : DelayInv (s.fire id rest) delays := by
  have hf := fire_fired h.roster hl
  have hgap : ∀ dt, s.interval id = some dt → ∀ y ∈ rest, (∀ j, y ≠ .tev j) → 0 < s.t + dt := by
    intro dt hint _ _ _
    have hpos := interval_pos hint
    omega
  refine h.grow (h.roster.fire hl) (fire_inDueOrder h.roster hl h.order hgap) (fun j hj => ?_)
    hf.length (fun j hj => ?_) (Int.le_of_eq hf.now.symm) hf.trace (by simp)
    fun a b hab hca _ hE => hE.append fun hb => ?_
  · rw [hl]
    rcases (hf.mem j).mp hj with hin | ⟨rfl, _⟩
    · exact List.mem_cons_of_mem _ hin
    · exact List.mem_cons_self
  · by_cases hji : j = id
    · subst hji
      rw [fire_of_timeout rest (h.roster.timeout j hj).1]
      rfl
    · exact hf.other j hji
  · cases hb
    obtain ⟨hlt, hseta, hsetb, hle⟩ := hab
    by_contra hnot
    -- the shorter timeout would be behind the front, and due before it
    have hina : Elem.tev a ∈ s.timers := by
      by_contra hout
      exact hnot (h.roster.gone a (h.roster.timeout a hseta).2 hout hca).2
    have hinb : Elem.tev id ∈ s.timers := hl ▸ List.mem_cons_self
    have hapart := h.apart a id ⟨hlt, hseta, hsetb, hle⟩ hina hinb
    have horder := h.order
    rw [hl] at hina horder
    rcases List.mem_cons.mp hina with he | hrest
    · cases he
      exact Nat.lt_irrefl _ hlt
    · have hfront := (List.pairwise_cons.mp horder).1 _ hrest id a rfl rfl
      omega

/-- The delay of a timer that was set before. -/
theorem getD_old (h : DelayInv s delays) {ms : Int} (hid : id < s.tevs.length) :
    (delays ++ [ms]).getD id 0 = delays.getD id 0 := by
  have hlt : id < delays.length := h.length ▸ hid
  rw [List.getD_eq_getElem?_getD, List.getD_eq_getElem?_getD, List.getElem?_append_left hlt]

theorem getD_new (h : DelayInv s delays) {ms : Int} :
    (delays ++ [ms]).getD s.tevs.length 0 = ms := by
  rw [← h.length, List.getD_eq_getElem?_getD, List.getElem?_concat_length, Option.getD_some]

/-- Of two timeouts in order, the second may be the one that is set now. -/
theorem setInOrder_set {e : Tev} {x : TObs} {ms : Int} {a b : Nat} (h : DelayInv s delays)
    (hx : x = .timeoutSet s.tevs.length ∨ x = .intervalSet s.tevs.length)
    (hab : SetInOrder ((s.set e).observe x, delays ++ [ms]) a b) :
    SetInOrder (s, delays) a b ∨
      b = s.tevs.length ∧ x = .timeoutSet b ∧ .timeoutSet a ∈ s.trace ∧ delays.getD a 0 ≤ ms := by
  obtain ⟨hlt, hseta, hsetb, hle⟩ := hab
  have hset : ∀ {j}, TObs.timeoutSet j ∈ s.trace ++ [x] →
      .timeoutSet j ∈ s.trace ∧ j < s.tevs.length ∨ j = s.tevs.length ∧ x = .timeoutSet j := by
    intro j hj
    rcases List.mem_append.mp hj with hj | hj
    · exact .inl ⟨hj, (h.roster.timeout j hj).2⟩
    · have he := List.mem_singleton.mp hj
      rcases hx with rfl | rfl
      · cases he
        exact .inr ⟨rfl, rfl⟩
      · cases he
  have hb : b ≤ s.tevs.length := by
    rcases hset hsetb with ⟨_, hb⟩ | ⟨hb, _⟩
    · exact Nat.le_of_lt hb
    · exact Nat.le_of_eq hb
  have ha : a < s.tevs.length := by omega
  obtain ⟨hseta, _⟩ := (hset hseta).resolve_right fun he => by omega
  have hle' : delays.getD a 0 ≤ (delays ++ [ms]).getD b 0 := by
    rwa [← h.getD_old ha]
  rcases hset hsetb with ⟨hsetb, hb⟩ | ⟨rfl, hxe⟩
  · rw [h.getD_old hb] at hle'
    exact .inl ⟨hlt, hseta, hsetb, hle'⟩
  · rw [h.getD_new] at hle'
    exact .inr ⟨rfl, hxe, hseta, hle'⟩

/-- A timer is set. For a timeout, no timeout that is no longer is due in the same second. -/
theorem set {dt : Option Int} {x : TObs} {ms : Int} (h : DelayInv s delays)
    (hr : Roster ((s.set ⟨s.now + seconds ms, dt⟩).observe x)) (hpos : 0 < s.now + seconds ms)
    (hx : x = .timeoutSet s.tevs.length ∨ x = .intervalSet s.tevs.length)
    (huntied : x = .timeoutSet s.tevs.length → ∀ a < s.tevs.length, .timeoutSet a ∈ s.trace →
      .tev a ∈ s.timers → delays.getD a 0 ≤ ms → s.due (.tev a) ≠ s.now + seconds ms) :
    DelayInv ((s.set ⟨s.now + seconds ms, dt⟩).observe x) (delays ++ [ms]) := by
  have hold : ∀ {j}, j < s.tevs.length →
      (s.set ⟨s.now + seconds ms, dt⟩).due (.tev j) = s.due (.tev j) := fun hj => due_set_lt hj
  have hnew : (s.set ⟨s.now + seconds ms, dt⟩).due (.tev s.tevs.length) = s.now + seconds ms :=
    due_set_self
  have hlt : ∀ {j}, TObs.timeoutSet j ∈ s.trace → j < s.tevs.length := fun hj =>
    (h.roster.timeout _ hj).2
  have hmem : ∀ {j}, j < s.tevs.length →
      .tev j ∈ ((s.set ⟨s.now + seconds ms, dt⟩).observe x).timers → .tev j ∈ s.timers := by
    intro j hj hin
    exact (mem_timerPut.mp hin).resolve_left (by omega)
  refine ⟨hr, ?_, ?_, fun a ha => ?_, fun a b hab hina hinb => ?_, fun a b hab hca hcb => ?_⟩
  · refine timerPut_inDueOrder h.order (fun y _ hno => ?_) (fun j hj => ?_) due_set_self
    · cases y with
      | undef => exact hpos
      | empty => exact hpos
      | tev j => exact absurd rfl (hno j)
    · exact hold (h.roster.range j hj)
  · rw [List.length_append, h.length]
    simp [TimerState.set, TimerState.observe]
  · show (s.set _).due (.tev a) ≤ s.now + _
    rcases List.mem_append.mp ha with ha | ha
    · rw [hold (hlt ha), h.getD_old (hlt ha)]
      exact h.bound a ha
    · have he := List.mem_singleton.mp ha
      rcases hx with rfl | rfl
      · cases he
        exact Int.le_of_eq (by rw [hnew, h.getD_new])
      · cases he
  · show (s.set _).due (.tev a) < (s.set _).due (.tev b)
    rcases h.setInOrder_set hx hab with hab | ⟨rfl, hxb, hseta, hle⟩
    · have ha := hlt hab.2.1
      have hb := hlt hab.2.2.1
      rw [hold ha, hold hb]
      exact h.apart a b hab (hmem ha hina) (hmem hb hinb)
    · have ha := hlt hseta
      have hbound := h.bound a hseta
      have hmono := seconds_mono hle
      have hne := huntied hxb a ha hseta (hmem ha hina) hle
      rw [hold ha, hnew]
      omega
  · show Everywhere _ (s.trace ++ [x])
    have hnot : ∀ {y : TObs}, y ∉ s.trace ++ [x] → y ∉ s.trace := fun hy hin =>
      hy (List.mem_append_left _ hin)
    rcases h.setInOrder_set hx hab with hab | ⟨rfl, _⟩
    · exact (h.first a b hab (hnot hca) (hnot hcb)).append fun hb =>
        absurd hb.symm (fired_ne_set hx)
    · -- the new timeout has not fired
      refine everywhere_of_not_mem fun hin => ?_
      exact Nat.lt_irrefl _ (h.roster.fired _ (mem_of_mem_snoc hin (fired_ne_set hx)))

end DelayInv

theorem delayInv_step (h : DelayInv s delays) (hG : Untied (s, delays) i)
    (hs : s.step i = some s') : DelayInv s' (noteDelay s i delays) := by
  have hr := roster_step h.roster hs
  cases timerStep_cases hs with
  | tick n =>
    exact h.update hr h.order (fun _ hj => hj) rfl
      (Int.le_add_of_nonneg_right (Int.natCast_nonneg n)) rfl
  | timeoutSet ms hp => exact h.set hr hG.1 (.inl rfl) fun _ => hG.2
  | intervalSet ms hp => exact h.set hr hG (.inr rfl) nofun
  | clear id hi hid =>
    rcases hi with rfl | rfl
    · exact h.clear hr
    · exact h.clear hr
  | pass hc => exact h.update hr h.order (fun _ hj => hj) rfl (Int.le_refl _) rfl
  | ends hc hl hu => exact h.update hr h.order (fun _ hj => hj) rfl (Int.le_refl _) rfl
  | drops rest hl => exact h.drop hl s.control hr
  | dies rest hl => exact h.drop hl .dead hr
  | fires id rest hc hl hdue => exact h.fire hl hG
  | ret hc => exact h.update hr h.order (fun _ hj => hj) rfl (Int.le_refl _) rfl

/-- **Monotone in the delay.** Where no timeout is set to be due in the second of a pending one
    that is no longer, a timeout fires before those that were set after it with a delay that is
    not shorter. -/
theorem shorter_first (p : TimerState × List Int) (h : DelayReachable Untied p) :
    ShorterFirst p := by
  obtain ⟨now, h⟩ := h
  have hinv : DelayInv p.1 p.2 := by
    refine h.invariant (I := fun p => DelayInv p.1 p.2) (DelayInv.init now) ?_
    intro p i p' hp hG hstep
    obtain ⟨hs, hn⟩ := Machine.step_withNotes hstep
    rw [hn]
    exact delayInv_step hp hG hs
  exact hinv.first

/-- Two timeouts that are due in different seconds, and one between them that is cleared. -/
theorem shorter_first_cleared : ∃ p : TimerState × List Int, DelayReachable Untied p ∧
    ShorterFirst p ∧ SetInOrder p 0 2 ∧
    p.1.trace = [.timeoutSet 0, .timeoutSet 1, .timeoutSet 2, .cleared 1, .fired 0, .fired 2] := by
  obtain ⟨p, hr, hp⟩ := Machine.Reaches.of_run_map (M := timerDelays) (G := Untied)
    (s := (.init 5, [])) (fun p => (p.1.trace, p.2))
    [.timeoutSet 1000, .timeoutSet 2000, .timeoutSet 3000, .timeoutClear 1, .tick 3, .pass, .turn,
      .ret, .turn, .turn, .ret, .turn]
    (show _ = some ([.timeoutSet 0, .timeoutSet 1, .timeoutSet 2, .cleared 1, .fired 0, .fired 2],
      [1000, 2000, 3000]) by decide)
  have hreach : DelayReachable Untied p := ⟨5, hr⟩
  obtain ⟨ht, hd⟩ := Prod.mk.inj hp
  exact ⟨p, hreach, shorter_first p hreach, by simp [SetInOrder, ht, hd], ht⟩

/-- Two timeouts of 1000 and 1200 ms, set in one second, are due in the same second, and the
    longer one fires first. -/
theorem tied_timeouts_swapped :
    ¬ ∀ p : TimerState × List Int, DelayReachable Machine.always p → ShorterFirst p := by
  intro h
  obtain ⟨p, hr, hp⟩ := Machine.Reaches.of_run_map (M := timerDelays) (G := Machine.always)
    (s := (.init 5, [])) (fun p => (p.1.trace, p.2))
    [.timeoutSet 1000, .timeoutSet 1200, .tick 1, .pass, .turn, .ret, .turn]
    (show _ = some ([.timeoutSet 0, .timeoutSet 1, .fired 1, .fired 0], [1000, 1200]) by decide)
  obtain ⟨ht, hd⟩ := Prod.mk.inj hp
  have hfirst := h p ⟨5, hr⟩ 0 1 (by simp [SetInOrder, ht, hd]) (by simp [ht]) (by simp [ht])
  rw [ht] at hfirst
  have hin := hfirst [.timeoutSet 0, .timeoutSet 1] (.fired 1) [.fired 0] rfl rfl
  exact absurd hin (by decide)

end NginxEngine.PP
