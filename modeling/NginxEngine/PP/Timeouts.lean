import NginxEngine.PP.Idle

/-!
# Timeouts are sound

`ngxe_loop` calls `_timedout` for an active side whose deadline has passed. A deadline is the time
of a stamp and the timeout at that time, and sides are stamped when they are started and whenever
they are served. So a side that is timed out was idle for one of the timeouts that it has had while
it was idle, unless its timeout was 0 when it was stamped and enabled later: the deadline is then
the time of the stamp, and the side is timed out in the next pass of the loop.

## Main definitions

- `noteIdle` — a note, for either side, of when it began to be idle and of its events since then
- `TimesOut` — the loop calls `_timedout`
- `SoundTimeouts` — sides that are timed out are active and were idle for a timeout of theirs

## Main results

- `timeouts_sound` — the condition under which it is so in every run
- `enabled_timed_out` — a timeout of 60 seconds that is enabled later fires at once
-/

namespace NginxEngine.PP

open NginxEngine.XS (Bytes Sv)

variable {now t T d : Int} {v v' : View} {o : Outcome} {s s' : Sys} {f : Frame}
  {rest : List Frame} {events events' : List Ev} {ty : EvType} {i j : Nat} {inp : Input}

/-! ### Notes on idle sides -/

/-- The time since which a side is idle, and the events of the connection since then. -/
structure IdleSince where
  since : Int
  had : List (List Ev)
deriving DecidableEq, Repr

/-- A step in which the side is active begins a new period. -/
def IdleSince.next (n : IdleSince) (acts : Bool) (now : Int) (events : List Ev) : IdleSince :=
  if acts then ⟨now, [events]⟩ else { n with had := n.had ++ [events] }

structure IdleNotes where
  read : IdleSince
  write : IdleSince
deriving DecidableEq, Repr

def noteIdle (s : Sys) (i : Input) (n : IdleNotes) : IdleNotes :=
  match step s i with
  | some s' =>
    ⟨n.read.next (readerActs s i s') s.now s'.v.events,
      n.write.next (writerActs s i s') s.now s'.v.events⟩
  | none => n

/-- The notes at the beginning of a run. -/
def IdleNotes.initial (s : Sys) : IdleNotes :=
  ⟨⟨s.now, [s.v.events]⟩, ⟨s.now, [s.v.events]⟩⟩

/-- The states of every run of which each step meets `G`, with the notes. -/
def IdleReachable (G : Sys → Input → Prop) (p : Sys × IdleNotes) : Prop :=
  ∃ s₀, Initial s₀ ∧
    (engine.withNotes noteIdle).Reaches (fun p i => G p.1 i) (s₀, .initial s₀) p

/-- The loop calls `_timedout` for the event `ev` of type `ty`. -/
def TimesOut (s : Sys) (i : Input) (s' : Sys) (ev : Nat) (ty : EvType) : Prop :=
  (i = .dispatch ∨ i = .next) ∧
    s'.v.trace = s.v.trace ++ [.ran .timedout, .called ev ty (-1)]

instance {ev : Nat} : Decidable (TimesOut s inp s' ev ty) :=
  inferInstanceAs (Decidable (_ ∧ _))

/-- At the time `d` the event has been idle for a timeout other than 0 that it has had since it
    is. -/
def Owed (n : IdleSince) (i : Nat) (d : Int) : Prop :=
  ∃ T, T ≠ 0 ∧ (∃ events ∈ n.had, timeoutIn events (some i) = some T) ∧ n.since + T ≤ d

/-- Sides that are timed out in the step are active, and have been idle as long as that. -/
structure SoundTimeouts (p : Sys × IdleNotes) (i : Input) (s' : Sys) : Prop where
  read : ∀ ev, TimesOut p.1 i s' ev .read → p.1.v.rin = true ∧ Owed p.2.read ev p.1.t
  write : ∀ ev, TimesOut p.1 i s' ev .write → p.1.v.win = true ∧ Owed p.2.write ev p.1.t

/-! ### Deadlines that are owed -/

/-- A deadline of the event, if there is one, is owed. -/
def OwedDue (n : IdleSince) (events : List Ev) (i : Nat) : Prop :=
  ∀ d, dueIn events i = some d → Owed n i d

variable {n : IdleSince} {acts : Bool}

theorem next_since (h : n.since ≤ now) : (n.next acts now events).since ≤ now := by
  rw [IdleSince.next]
  split
  · exact Int.le_refl now
  · exact h

theorem next_had : events ∈ (n.next acts now events).had := by
  rw [IdleSince.next]
  split
  · exact List.mem_singleton_self events
  · exact List.mem_append_right _ (List.mem_singleton_self events)

theorem Fresh.owed (h : Fresh now events i) (hn : n.since ≤ now) :
    OwedDue (n.next acts now events) events i := by
  intro d hd
  obtain ⟨T, hne, hT, rfl⟩ := h.due hd
  have hsince : (n.next acts now events).since ≤ now := next_since hn
  exact ⟨T, hne, ⟨events, next_had, hT⟩, by omega⟩

theorem OwedDue.older (h : OwedDue n events i) (ho : Older events events' i) :
    OwedDue (n.next false now events') events' i := by
  intro d hd
  obtain ⟨T, hne, ⟨evs, hmem, hT⟩, hle⟩ := h d (ho d hd)
  exact ⟨T, hne, ⟨evs, List.mem_append_left _ hmem, hT⟩, hle⟩

theorem Owed.mono (h : Owed n i d) (hle : d ≤ t) : Owed n i t := by
  obtain ⟨T, hne, hT, hd⟩ := h
  exact ⟨T, hne, hT, Int.le_trans hd hle⟩

/-! ### Pending handlers -/

/-- A frame that does not wait for other frames is on top. -/
theorem top_of_mem (h : StackOk s.stack) (hf : f ∈ s.stack) (hr : f.resumes = false) :
    ∃ rest, s.stack = f :: rest := by
  cases hstk : s.stack with
  | nil =>
    rw [hstk] at hf
    cases hf
  | cons g rest =>
    rw [hstk] at hf
    rcases List.mem_cons.mp hf with rfl | hf
    · exact ⟨rest, rfl⟩
    · exact absurd ((h.under hstk f hf).symm.trans hr) (by decide)

/-- The kernel answers the handler that waits on top of the stack. -/
inductive Answered (s : Sys) (rest : List Frame) : Frame → Input → Sys → Prop
  | sysread {size : Int} {total : Nat} (r : ReadResult) (hr : r.answers size total = true) :
      Answered s rest (.sysread size total) (.sysread r)
        (s.resume (sysread s.now s.v size total r) rest)
  | syswrite {i offset : Nat} (r : WriteResult) :
      Answered s rest (.syswrite i offset) (.syswrite r)
        (s.resume (syswrite s.now s.v i offset r) rest)
  | accept (ok : Bool) : Answered s rest .accept (.accept ok) (s.resume (accept s.v ok) rest)
  | connect {limit : Nat} {error : Bool} (r : ConnectResult) :
      Answered s rest (.connect limit error) (.connect r)
        (s.resume (connect s.v limit error r) rest)

theorem isPerl_of_afterCallback (ho : afterCallback now v f = some o) : f.isPerl = true := by
  cases f <;> first | rfl | cases ho

/-- While a handler waits, time passes or the kernel answers. -/
theorem waiting_step (hs : Step s inp s') (hstk : s.stack = f :: rest) (hf : f.resumes = false) :
    s'.stack = s.stack ∨ Answered s rest f inp s' := by
  have hperl : f.isPerl ≠ true := fun hp =>
    absurd (hf.symm.trans (resumes_of_isPerl hp)) (by decide)
  cases hs with
  | tick n => exact .inl rfl
  | select r w h => cases hstk.symm.trans h
  | dispatch h hopen => cases hstk.symm.trans h
  | next h =>
    cases hstk.symm.trans h
    cases hf
  | sysread r h hr =>
    cases hstk.symm.trans h
    exact .inr (.sysread r hr)
  | syswrite r h hr =>
    cases hstk.symm.trans h
    exact .inr (.syswrite r)
  | accept ok h =>
    cases hstk.symm.trans h
    exact .inr (.accept ok)
  | connect r h =>
    cases hstk.symm.trans h
    exact .inr (.connect r)
  | ret h ho =>
    cases hstk.symm.trans h
    exact absurd (isPerl_of_afterCallback ho) hperl
  | enter h => cases hstk.symm.trans h
  | leave h =>
    cases hstk.symm.trans h
    cases hf
  | op o h hp hopen =>
    cases hstk.symm.trans h
    exact absurd hp hperl

/-- `_read` reports what it has read, or a connection is closed after an error. -/
theorem pendsRead_step (h : WellFormed s) (hs : Step s inp s')
    (hp : s.stack.any Frame.pendsRead = true) :
    s'.stack.any Frame.pendsRead = true ∨ (∀ j, s'.v.read = some j → Fresh s.now s'.v.events j) ∨
      s'.v.rin = false := by
  obtain ⟨f, hf, hpends⟩ := List.any_eq_true.mp hp
  by_cases herr : f.isError = true
  · rcases error_step h.stack hs hf herr with hf' | hc
    · exact .inl (List.any_eq_true.mpr ⟨f, hf', hpends⟩)
    · exact .inr (.inr ((wellFormed_step h hs).shut hc).rin)
  · -- the only other frame is that of `sysread`
    obtain ⟨size, total, rfl⟩ : ∃ size total, f = .sysread size total := by
      cases f with
      | sysread size total => exact ⟨size, total, rfl⟩
      | readError error => exact absurd rfl herr
      | timedout => exact absurd rfl herr
      | _ => cases hpends
    obtain ⟨rest, hstk⟩ := top_of_mem h.stack hf rfl
    rcases waiting_step hs hstk rfl with heq | hans
    · exact .inl (heq ▸ hp)
    · cases hans with
      | sysread r hr =>
        have htotal : 0 < total := of_decide_eq_true hpends
        rcases sysread_stamps hr (.inl htotal) with hst | hst
        · refine .inl ?_
          show (_ ++ rest).any _ = true
          rw [List.any_append, hst]
          rfl
        · refine .inr (.inl fun j hj => ?_)
          show Fresh s.now (sysread s.now s.v size total r).1.events j
          rw [hst]
          exact stamp_fresh _ (sysread_piece.sides.read.symm.trans hj)

/-- While `_write` waits, only `syswrite` ends an idle period. -/
theorem pendsWrite_idle (h : WellFormed s) (hs : Step s inp s')
    (hacts : writerActs s inp s' = false) (hp : s.stack.any Frame.pendsWrite = true) :
    s'.stack.any Frame.pendsWrite = true ∨ s'.v.win = false := by
  obtain ⟨f, hf, hpends⟩ := List.any_eq_true.mp hp
  cases f with
  | timedout =>
    rcases error_step h.stack hs hf rfl with hf' | hc
    · exact .inl (List.any_eq_true.mpr ⟨_, hf', hpends⟩)
    · exact .inr ((wellFormed_step h hs).shut hc).win
  | crash =>
    obtain ⟨rest, hstk⟩ := top_of_mem h.stack hf rfl
    rcases waiting_step hs hstk rfl with heq | hans
    · exact .inl (heq ▸ hp)
    · cases hans
  | syswrite i offset =>
    obtain ⟨rest, hstk⟩ := top_of_mem h.stack hf rfl
    rcases waiting_step hs hstk rfl with heq | hans
    · exact .inl (heq ▸ hp)
    · cases hans with
      | syswrite r => simp [writerActs, Input.sends] at hacts
  | _ => cases hpends

theorem Tame.quiet (h : Tame v o) : o.2.any Frame.isSyswrite = false := by
  cases h with
  | code hs ha => exact ha.quiet
  | close hs hk => rfl

theorem startedOut_step (h : WellFormed s) (hsend : StartedOut s) (hs : Step s inp s') :
    StartedOut s' := by
  intro hsys fno wev hin hwin
  -- below the top nothing waits for `syswrite`
  have hold : ∀ {o : Outcome} {g : Frame} {rest : List Frame}, s.stack = g :: rest →
      o.2.any Frame.isSyswrite = false → (o.2 ++ rest).any Frame.isSyswrite ≠ true := by
    intro o g rest hstk hq
    rw [List.any_append, hq, any_isSyswrite_of_resumes (h.stack.under hstk)]
    decide
  have hs' := hs
  cases hs with
  | tick n => exact hsend hsys fno wev hin hwin
  | select r w hstk =>
    have hin' : .loop fno wev ∈ s.stack := hin
    rw [hstk] at hin'
    cases hin'
  | dispatch hstk hopen =>
    have hquiet := (dispatch_cases s.now s.t (s.v.fileno.getD 0) s.v).tame.quiet
    have hsys' : (_ ++ []).any Frame.isSyswrite = true := hsys
    rw [List.append_nil] at hsys'
    exact absurd (hquiet.symm.trans hsys') (by decide)
  | @next fno' wev' rest hstk =>
    obtain rfl : rest = [] := FloorOk.alone (hstk ▸ h.floor) rfl
    have hframes := (dispatchWrite_cases s.now s.t s.v s.v.win s.v.wout wev').frames
    have hin' : Frame.loop fno wev ∈ _ ++ [] := hin
    rw [List.append_nil] at hin'
    exact absurd hin' (not_loop_of_frames hframes)
  | sysread r hstk hr => exact absurd hsys (hold hstk sysread_aside.quiet)
  | syswrite r hstk hr =>
    have hin' : .loop fno wev ∈ s.stack := by
      rcases loop_mem_step hs' hin with hin | ⟨_, hd, _⟩
      · exact hin
      · cases hd
    have hout := hsend (by rw [hstk]; rfl) fno wev hin' (syswrite_piece.sides.win.symm.trans hwin)
    exact syswrite_piece.sides.wout.trans hout
  | accept ok hstk => exact absurd hsys (hold hstk (accept_aside ok).quiet)
  | connect r hstk => exact absurd hsys (hold hstk connect_aside.quiet)
  | ret hstk ho =>
    cases afterCallback_cases ho with
    | tame hframes ht => exact absurd hsys (hold hstk ht.quiet)
    | switch hf hopen hrout hw => exact write_piece.sides.wout
    | stop hf hopen =>
      have hnone : ([] : List Frame).any Frame.isSyswrite = false := rfl
      exact absurd hsys (hold (o := (ngxeWriterStopReaderStart s.now s.v, [])) hstk hnone)
  | enter hstk => cases List.mem_singleton.mp hin
  | leave hstk =>
    exact absurd ((any_isSyswrite_of_resumes (h.stack.under hstk)).symm.trans hsys) (by decide)
  | op op hstk hf hopen =>
    have happ := applied_cases s.now s.v op
    generalize applyOp s.now s.v op = o at happ hsys ⊢
    cases happ with
    | plain ht =>
      have hall : s.stack.any Frame.isSyswrite = false := by
        refine any_isSyswrite_of_resumes fun g hg => ?_
        rw [hstk] at hg
        rcases List.mem_cons.mp hg with rfl | hg
        · exact resumes_of_isPerl hf
        · exact h.stack.under hstk g hg
      exact absurd (hall.symm.trans hsys) (by decide)
    | writes ht hw hon => exact write_piece.sides.wout.trans hon.2

/-! ### The invariant -/

structure IdleInv (s : Sys) (n : IdleNotes) : Prop where
  shape : WellFormed s
  started : StartedOut s
  readSince : n.read.since ≤ s.now
  writeSince : n.write.since ≤ s.now
  read : s.v.rin = true → ∀ j, s.v.read = some j → s.stack.any Frame.pendsRead = false →
    OwedDue n.read s.v.events j
  write : s.v.win = true → ∀ j, s.v.write = some j → s.stack.any Frame.pendsWrite = false →
    OwedDue n.write s.v.events j
  /-- The event that the loop has taken. -/
  loop : ∀ fno j, .loop fno (some j) ∈ s.stack → s.v.win = true → s.v.wout = false →
    s.stack.any Frame.pendsWrite = false → OwedDue n.write s.v.events j

theorem now_step (hs : Step s inp s') : s.now ≤ s'.now := by
  cases hs with
  | tick n =>
    show s.now ≤ s.now + n
    omega
  | _ => exact Int.le_refl s.now

theorem IdleInv.read_step {n : IdleNotes} (h : IdleInv s n) (hG : EnabledAtRest s inp)
    (hs : Step s inp s') (hrin : s'.v.rin = true) (hj : s'.v.read = some j)
    (hp' : s'.stack.any Frame.pendsRead = false) :
    OwedDue (n.read.next (readerActs s inp s') s.now s'.v.events) s'.v.events j := by
  have hnot : s'.stack.any Frame.pendsRead ≠ true := ne_true_of_eq_false hp'
  by_cases hp : s.stack.any Frame.pendsRead = true
  · rcases pendsRead_step h.shape hs hp with hp | hfresh | hoff
    · exact absurd hp hnot
    · exact (hfresh j hj).owed h.readSince
    · exact absurd (hoff.symm.trans hrin) (by decide)
  · cases reader_turn h.shape hG hs with
    | idle hacts hrin' hread hdue =>
      rcases hread j hj with hj | hfresh
      · rw [hacts]
        have hon := hrin'.symm.trans hrin
        exact (h.read hon j hj (eq_false_of_ne_true hp)).older (hdue hon j hj)
      · exact hfresh.owed h.readSince
    | stamped hfresh => exact (hfresh j hj).owed h.readSince
    | pending hp => exact absurd hp hnot
    | off hoff => exact absurd (hoff.symm.trans hrin) (by decide)

theorem IdleInv.write_step {n : IdleNotes} (h : IdleInv s n) (hG : EnabledAtRest s inp)
    (hs : Step s inp s') (hwin : s'.v.win = true) (hj : s'.v.write = some j)
    (hp' : s'.stack.any Frame.pendsWrite = false) :
    OwedDue (n.write.next (writerActs s inp s') s.now s'.v.events) s'.v.events j := by
  have hnot : s'.stack.any Frame.pendsWrite ≠ true := ne_true_of_eq_false hp'
  cases writer_turn h.shape h.started hG hs with
  | idle hacts hwin' hwrite hdue =>
    rcases hwrite j hj with hj | hfresh
    · rw [hacts]
      have hon := hwin'.symm.trans hwin
      by_cases hp : s.stack.any Frame.pendsWrite = true
      · rcases pendsWrite_idle h.shape hs hacts hp with hp | hoff
        · exact absurd hp hnot
        · exact absurd (hoff.symm.trans hwin) (by decide)
      · exact (h.write hon j hj (eq_false_of_ne_true hp)).older
          (hdue hon j (h.shape.events.write j hj))
    · exact hfresh.owed h.writeSince
  | stamped hfresh hloop => exact (hfresh j hj).owed h.writeSince
  | pending hp => exact absurd hp hnot
  | off hoff => exact absurd (hoff.symm.trans hwin) (by decide)

/-- The loop keeps the event that it has taken; if the writer was started since then, it does not
    look at its deadline. -/
theorem IdleInv.loop_step {n : IdleNotes} {fno : Nat} (h : IdleInv s n)
    (hG : EnabledAtRest s inp) (hs : Step s inp s') (hin : .loop fno (some j) ∈ s'.stack)
    (hwin : s'.v.win = true) (hwout : s'.v.wout = false)
    (hp' : s'.stack.any Frame.pendsWrite = false) :
    OwedDue (n.write.next (writerActs s inp s') s.now s'.v.events) s'.v.events j := by
  cases writer_turn h.shape h.started hG hs with
  | idle hacts hwin' hwrite hdue =>
    rw [hacts]
    have hon := hwin'.symm.trans hwin
    have hp : s.stack.any Frame.pendsWrite = false := by
      by_contra hne
      rcases pendsWrite_idle h.shape hs hacts (eq_true_of_ne_false hne) with hp | hoff
      · exact absurd (hp'.symm.trans hp) (by decide)
      · exact absurd (hoff.symm.trans hwin) (by decide)
    rcases loop_mem_step hs hin with hin | ⟨hstk, _, hj⟩
    · have hdark : s.v.wout = false := by
        cases writerBits_step h.shape.stack hs with
        | same _ ho' => exact ho'.symm.trans hwout
        | off hw' _ => exact absurd (hw'.symm.trans hwin) (by decide)
        | dims hw' _ => exact absurd (hw'.symm.trans hwin) (by decide)
        | select hstk _ _ =>
          rw [hstk] at hin
          cases hin
        | on _ ho' _ => exact absurd (ho'.symm.trans hwout) (by decide)
      exact (h.loop fno j hin hon hdark hp).older (hdue hon j (h.shape.events.loop fno j hin))
    · exact (h.write hon j hj.symm hp).older (hdue hon j (h.shape.events.write j hj.symm))
  | stamped hfresh hloop =>
    exact absurd ((hloop fno (some j) hin hwin).symm.trans hwout) (by decide)
  | pending hp => exact absurd (hp'.symm.trans hp) (by decide)
  | off hoff => exact absurd (hoff.symm.trans hwin) (by decide)

theorem idleInv_step {n : IdleNotes} (h : IdleInv s n) (hG : EnabledAtRest s inp)
    (hstep : step s inp = some s') : IdleInv s' (noteIdle s inp n) := by
  have hs := step_cases hstep
  have hnow := now_step hs
  simp only [noteIdle, hstep]
  exact ⟨wellFormed_step h.shape hs, startedOut_step h.shape h.started hs,
    Int.le_trans (next_since h.readSince) hnow, Int.le_trans (next_since h.writeSince) hnow,
    fun hrin j hj hp => h.read_step hG hs hrin hj hp,
    fun hwin j hj hp => h.write_step hG hs hwin hj hp,
    fun fno j hin hwin hwout hp => h.loop_step hG hs hin hwin hwout hp⟩

theorem idleInv_initial (h : Initial s) : IdleInv s (.initial s) := by
  have hloop : ∀ fno wev, .loop fno wev ∉ s.stack := by
    intro fno wev hin
    cases h with
    | accepted now t fileno => cases List.mem_singleton.mp hin
    | server now t fileno => cases List.mem_singleton.mp hin
    | client now t fileno timeout =>
      simp [ngxeClient, _connect, connectLoop] at hin
  refine ⟨wellFormed_initial h, fun _ fno wev hin => absurd hin (hloop fno wev),
    Int.le_refl _, Int.le_refl _, fun _ j hj _ => ?_, fun _ j hj _ => ?_,
    fun fno j hin => absurd hin (hloop fno _)⟩
  · cases h with
    | accepted now t fileno => cases hj
    | server now t fileno =>
      cases hj
      intro d hd
      cases hd
    | client now t fileno timeout => cases hj
  · cases h with
    | accepted now t fileno => cases hj
    | server now t fileno => cases hj
    | client now t fileno timeout =>
      cases hj
      have hfresh : Fresh now (View.client now fileno timeout).events 0 := by
        intro e he
        cases he
        rfl
      have hsound : OwedDue (IdleSince.next ⟨now, []⟩ true now _) _ 0 :=
        hfresh.owed (Int.le_refl now)
      exact hsound

/-! ### Calls of `_timedout` -/

/-- A handler reports first that it was run. -/
theorem ran_of_extends {R : Obs → Prop} {x : Obs} {handler : Handler}
    (h : Extends R (v.observe (.ran handler)).trace v'.trace)
    (ht : v'.trace = v.trace ++ [.ran .timedout, x]) : handler = .timedout := by
  obtain ⟨k, hk, _⟩ := h
  have heq : v.trace ++ ([.ran handler] ++ k) = v.trace ++ [.ran .timedout, x] := by
    rw [← List.append_assoc]
    exact hk.symm.trans ht
  have hcons := List.append_cancel_left heq
  injection hcons with hran
  injection hran

theorem write_ran : Extends (Obs.CallsOnly v.write .write) (v.observe (.ran .write)).trace
    (_write now v).1.trace := by
  have h : Serves now v.write .write { v.observe (.ran .write) with wind := firstIndex v }
      (_write now v) := writeLoop_serves rfl
  exact h.calls

theorem read_ran :
    Extends (Obs.CallsOnly v.read .read) (v.observe (.ran .read)).trace (_read now v).1.trace := by
  rw [_read]
  split
  · have h : ∀ {size total}, Serves now v.read .read (v.observe (.ran .read))
        (readLoop now (v.observe (.ran .read)) size total) := readLoop_serves rfl
    exact h.calls
  · exact .refl _

theorem accept_ran :
    Extends (·.isCalled = false) (v.observe (.ran .accept)).trace (_accept v).1.trace := by
  rw [_accept]
  split
  · exact .refl _
  · exact .refl _

theorem trace_ne_self {x y : Obs} : v.trace ≠ v.trace ++ [x, y] := by
  intro h
  have hlen := congrArg List.length h
  rw [List.length_append] at hlen
  exact absurd hlen (by simp)

/-- The event for which `_timedout` is called. -/
theorem called_of_timedout {e : Ev} {ev : Nat} (he : v.events[i]? = some e)
    (ht : (_timedout v i).1.trace = v.trace ++ [.ran .timedout, .called ev ty (-1)]) :
    ev = i ∧ e.type = ty := by
  have he' : (v.observe (.ran .timedout)).events[i]? = some e := he
  by_cases hty : e.type = .accept
  · have heq : _timedout v i = (ngxeClose (v.observe (.ran .timedout)), []) := by
      simp only [_timedout, he', if_pos hty]
    rw [heq] at ht
    obtain ⟨k, hk, hx⟩ := close_calls (v.observe (.ran .timedout))
    have hsplit : v.trace ++ ([.ran .timedout] ++ k) =
        v.trace ++ [.ran .timedout, .called ev ty (-1)] := by
      rw [← List.append_assoc]
      exact hk.symm.trans ht
    injection List.append_cancel_left hsplit with _ hcalled
    have hnone := hx (.called ev ty (-1)) (by rw [show k = _ from hcalled]; simp)
    cases hnone
  · rw [timedout_eq he hty] at ht
    have hsplit : v.trace ++ [.ran .timedout, .called i e.type (-1)] =
        v.trace ++ [.ran .timedout, .called ev ty (-1)] := by
      rw [← ht]
      show _ = (v.trace ++ [.ran .timedout]) ++ [.called i e.type (-1)]
      rw [List.append_assoc]
      rfl
    injection List.append_cancel_left hsplit with _ hcalled
    injection hcalled with hcalled _
    injection hcalled with hev hty' _
    exact ⟨hev.symm, hty'⟩

/-- The loop calls `_timedout` for an active side whose deadline has passed: for the reader in its
    first half, for the event of a writer that it has taken in its second. -/
inductive TimedOutAt (s : Sys) (ev : Nat) (ty : EvType) : Prop
  | read (e : Ev) (hstk : s.stack = []) (hev : s.v.read = some ev) (he : s.v.events[ev]? = some e)
      (hty : e.type = ty) (hrin : s.v.rin = true) (hexp : e.expired s.t = true)
  | write (fno : Nat) (e : Ev) (hstk : s.stack = [.loop fno (some ev)])
      (he : s.v.events[ev]? = some e) (hty : e.type = ty) (hwin : s.v.win = true)
      (hwout : s.v.wout = false) (hexp : e.expired s.t = true)

theorem timesOut_cases {ev : Nat} (h : WellFormed s) (hs : Step s inp s')
    (ht : TimesOut s inp s' ev ty) : TimedOutAt s ev ty := by
  obtain ⟨hinp, ht⟩ := ht
  cases hs with
  | dispatch hstk hopen =>
    have ho := firstHalf_cases s.now s.t (s.v.fileno.getD 0) s.v
    generalize dispatch s.now s.t (s.v.fileno.getD 0) s.v = o at ho ht
    cases ho with
    | skip => exact absurd ht trace_ne_self
    | read => cases ran_of_extends read_ran ht
    | accept => cases ran_of_extends accept_ran ht
    | timedout i e hread he hrin hexp =>
      obtain ⟨rfl, hty⟩ := called_of_timedout he ht
      exact .read e hstk hread he hty hrin hexp
  | @next fno wev rest hstk =>
    obtain rfl : rest = [] := FloorOk.alone (hstk ▸ h.floor) rfl
    have ho := secondHalf_cases s.now s.t s.v s.v.win s.v.wout wev
    generalize dispatchWrite s.now s.t s.v s.v.win s.v.wout wev = o at ho ht
    cases ho with
    | skip => exact absurd ht trace_ne_self
    | write i e hwev he hty hout => cases ran_of_extends write_ran ht
    | connect i e hwev he hty hout =>
      have hran : Extends (·.isCalled = false) (s.v.observe (.ran .connect)).trace
        (_connect s.v).1.trace := .refl _
      cases ran_of_extends hran ht
    | timedout i e hwev he hwin hout hexp =>
      obtain ⟨rfl, hty⟩ := called_of_timedout he ht
      exact .write fno e (hwev ▸ hstk) he hty hwin hout hexp
  | _ => rcases hinp with hinp | hinp <;> cases hinp

/-! ### Every run -/

theorem idleInv_of_reachable {p : Sys × IdleNotes} (h : IdleReachable EnabledAtRest p) :
    IdleInv p.1 p.2 := by
  obtain ⟨s₀, h₀, hr⟩ := h
  refine hr.invariant (I := fun p => IdleInv p.1 p.2) (idleInv_initial h₀) ?_
  intro p i p' hinv hG hstep
  obtain ⟨hs, hn⟩ := Machine.step_withNotes hstep
  rw [hn]
  exact idleInv_step hinv hG hs

/-- **Timeouts are sound**, where no timeout is enabled while its side is active: a side that is
    timed out is active, and was idle for a timeout that it has had since it was idle. -/
theorem timeouts_sound (p : Sys × IdleNotes) (i : Input) (s' : Sys)
    (h : IdleReachable EnabledAtRest p) (hstep : step p.1 i = some s') :
    SoundTimeouts p i s' := by
  have hinv := idleInv_of_reachable h
  refine ⟨fun ev ht => ?_, fun ev ht => ?_⟩
  · cases timesOut_cases hinv.shape (step_cases hstep) ht with
    | read e hstk hev he hty hrin hexp =>
      obtain ⟨d, hd, hle⟩ := due_of_expired he hexp
      exact ⟨hrin, (hinv.read hrin ev hev (by rw [hstk]; rfl) d hd).mono hle⟩
    | write fno e hstk he hty hwin hwout hexp =>
      -- the loop has taken the event of a writer
      obtain ⟨e', he', hw⟩ := (hinv.shape.events.loop fno ev (hstk ▸ List.mem_cons_self)).exists
      cases he.symm.trans he'
      rw [hty] at hw
      cases hw
  · cases timesOut_cases hinv.shape (step_cases hstep) ht with
    | read e hstk hev he hty hrin hexp =>
      obtain ⟨e', he', hr⟩ := (hinv.shape.events.read ev hev).exists
      cases he.symm.trans he'
      rw [hty] at hr
      cases hr
    | write fno e hstk he hty hwin hwout hexp =>
      obtain ⟨d, hd, hle⟩ := due_of_expired he hexp
      have hsound := hinv.loop fno ev (hstk ▸ List.mem_cons_self) hwin hwout (by rw [hstk]; rfl)
      exact ⟨hwin, (hsound d hd).mono hle⟩

/-- A reader with a timeout of 60 seconds that is set to 90 later is timed out after 60. -/
theorem timeouts_sound_sixty : ∃ (p : Sys × IdleNotes) (s' : Sys),
    IdleReachable EnabledAtRest p ∧ step p.1 .dispatch = some s' ∧
      SoundTimeouts p .dispatch s' ∧ TimesOut p.1 .dispatch s' 0 .read ∧
      p.2.read.since = 100 ∧ p.1.t = 160 := by
  obtain ⟨p, hr, hp⟩ := Machine.Reaches.of_run_map (M := engine.withNotes noteIdle)
    (G := fun p i => EnabledAtRest p.1 i)
    (s := (⟨.accepted 3, 100, 100, [.outside]⟩, .initial ⟨.accepted 3, 100, 100, [.outside]⟩))
    (fun p => (step p.1 .dispatch).map fun s' =>
      (decide (TimesOut p.1 .dispatch s' 0 .read), p.2.read.since, p.1.t))
    [.op (.reader false 0), .op (.readerStart (some 60)), .op (.readerTimeout 90), .leave,
      .tick 60, .select false false]
    (show _ = some (some (true, (100 : Int), (160 : Int))) by decide +kernel)
  obtain ⟨s', hstep, hs'⟩ := Option.map_eq_some_iff.mp hp
  simp only [Prod.mk.injEq, decide_eq_true_eq] at hs'
  have hreach : IdleReachable EnabledAtRest p := ⟨_, .accepted 100 100 3, hr⟩
  exact ⟨p, s', hreach, hstep, timeouts_sound p .dispatch s' hreach hstep, hs'⟩

/-- A reader is started without a timeout and given one of 60 seconds: it is timed out at once. -/
theorem enabled_timed_out : ¬ ∀ (p : Sys × IdleNotes) (i : Input) (s' : Sys),
    IdleReachable Machine.always p → step p.1 i = some s' → SoundTimeouts p i s' := by
  intro h
  obtain ⟨p, hr, hp⟩ := Machine.Reaches.of_run_map (M := engine.withNotes noteIdle)
    (G := fun p i => Machine.always p.1 i)
    (s := (⟨.accepted 3, 100, 100, [.outside]⟩, .initial ⟨.accepted 3, 100, 100, [.outside]⟩))
    (fun p => (step p.1 .dispatch).map fun s' =>
      (decide (TimesOut p.1 .dispatch s' 0 .read), p.2.read.since, p.1.t,
        p.2.read.had.map (timeoutIn · (some 0))))
    [.op (.reader true 0), .op (.readerTimeout 60), .leave, .select false false]
    (show _ = some (some (true, (100 : Int), (100 : Int),
      ([some 0, some 60, some 60, some 60] : List (Option Int)))) by decide +kernel)
  obtain ⟨s', hstep, hs'⟩ := Option.map_eq_some_iff.mp hp
  simp only [Prod.mk.injEq, decide_eq_true_eq] at hs'
  obtain ⟨hout, hsince, ht, hhad⟩ := hs'
  have hsound := (h p .dispatch s' ⟨_, .accepted 100 100 3, hr⟩ hstep).read 0 hout
  obtain ⟨T, hne, ⟨events, hmem, hT⟩, hle⟩ := hsound.2
  have hin : timeoutIn events (some 0) ∈ p.2.read.had.map (timeoutIn · (some 0)) :=
    List.mem_map_of_mem hmem
  rw [hhad, hT] at hin
  simp only [List.mem_cons, Option.some.injEq, List.not_mem_nil, or_false] at hin
  rw [hsince, ht] at hle
  omega

end NginxEngine.PP
