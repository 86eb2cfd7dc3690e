import NginxEngine.PP.Alias

/-!
# Switching sides after a callback

After the callback that reports success `_write` stops the writer and starts the reader, unless
the connection was closed. It does not ask whether the callback has stopped the writer, has put
something into the write buffer, or has started a write that is not finished, nor whether there
is a reader; the switch in `_read` does not ask whether there is a writer. And the connection it
switches is the one that the program's variable holds by then.

## Main definitions

- `Documented` — what the documentation says of the switch
- `Armed` — a write that stopped half way is in `$win`
- `Handled` — a side that is watched has an event

## Main results

- `writer_callback_decision` — where exactly the switch is as documented
- `stopped_writer_starts_reader` — the callback stops the writer
- `unfinished_write_armed` — runs that keep an unfinished write armed
- `unfinished_write_disarmed` — the callback starts a write that stops half way
- `handled_of_reachable` — runs in which no side is watched in vain
-/

namespace NginxEngine.PP

open NginxEngine.XS (Bytes Sv)

variable {now t : Int} {v v' : View} {o : Outcome} {s s' : Sys} {l l' : List Obs} {x : Obs}
  {i offset : Nat}

/-! ### The documented decision -/

/-- There are bytes in the write buffer. -/
def View.left (v : View) : Bool := v.wbuf.any fun sv => !sv.bytes.isEmpty

/-- What is in the write buffer is sent next, from its beginning: at once, or when the loop
    finds the connection writable. -/
def Streams (v : View) (o : Outcome) : Prop :=
  o.1.win = true ∧ o.1.wbuf = v.wbuf ∧
    (o.2 = [.syswrite 0 0] ∨ o.2 = [] ∧ o.1.woff = 0 ∧ o.1.wind = 0)

def observeWrite (u : Bool) : Obs → Bool
  | .ran .write => false
  | .sent [] => true
  | _ => u

/-- The write that was started last has stopped on EAGAIN. -/
def unfinished (l : List Obs) : Bool := l.foldl observeWrite false

/-- The program has stopped the writer since `syswrite` answered EAGAIN. -/
def noteStop (_ : Sys) (i : Input) (stopped : Bool) : Bool :=
  match i with
  | .op .writerStop | .op .writerStopReaderStart => true
  | .syswrite .again => false
  | _ => stopped

/-- With control in the loop, a write that stopped half way is in `$win`, unless the program has
    stopped it or the connection is closed. -/
def Armed (s : Sys × Bool) : Prop :=
  s.1.stack = [] → s.1.v.closed = false → unfinished s.1.v.trace = true → s.2 = false →
    s.1.v.win = true

def noteStops (s : Sys) (i : Input) (n : Bool × Given) : Bool × Given :=
  (noteStop s i n.1, s.noteCall i n.2)

/-- The states of every run with the variables of the program, and with the note whether it has
    stopped the writer. -/
def NotedReachable (G : Sys × Bool × Given → Input ⊕ Stray → Prop) (s : Sys × Bool) : Prop :=
  ∃ s₀ given, Initial s₀ ∧
    (aliased noteStops Prod.snd).Reaches G (s₀, false, fun _ => false) (s.1, s.2, given)

/-- There is no write to go on with. -/
def View.NoWrite (v : View) (stopped : Bool) : Prop :=
  v.closed = true ∨ unfinished v.trace = false ∨ stopped = true

instance {n : Bool} : Decidable (v.NoWrite n) := by
  unfold View.NoWrite
  infer_instance

/-- There is no write to go on with when the callback that reports success returns, or when
    `connect` answers; the loop writes only to a connection that is in `$win`. -/
def WriteSettled (s : Sys × Bool) (i : Input) : Prop :=
  match i, s.1.stack with
  | .ret, .writeDone false :: _ => s.1.v.NoWrite s.2
  | .connect _, _ => s.1.v.NoWrite s.2
  | .next, _ => s.1.v.wout = true → s.1.v.win = true
  | _, _ => True

instance {s : Sys × Bool} {i : Input} : Decidable (WriteSettled s i) := by
  unfold WriteSettled
  generalize s.1.stack = stk
  induction i with
  | ret =>
    induction stk using List.casesOn with
    | nil => infer_instance
    | cons f rest =>
      induction f with
      | writeDone error => induction error using Bool.casesOn <;> infer_instance
      | _ => infer_instance
  | _ => infer_instance

theorem unfinished_append (l : List Obs) (x : Obs) :
    unfinished (l ++ [x]) = observeWrite (unfinished l) x := by
  simp [unfinished]

/-- What is neither `_write` nor `syswrite` leaves a write as it is. -/
theorem unfinished_of_extends (h : Extends (·.neutral = true) l l') (hl : unfinished l = false) :
    unfinished l' = false := by
  refine h.invariant (Q := fun l => unfinished l = false) hl fun l x hl hx => ?_
  rw [unfinished_append, hl]
  cases x with
  | sent b => cases hx
  | ran h =>
    cases h <;> rfl
  | _ => rfl

theorem View.NoWrite.keeps {n : Bool} (h : v.NoWrite n) (hk : Keeps v v') : v'.NoWrite n := by
  rcases h with hc | hu | hn
  · exact .inl (hk.closed.trans hc)
  · exact .inr (.inl (unfinished_of_extends hk.trace hu))
  · exact .inr (.inr hn)

/-- There is no write to go on with, or the connection is in `$win`. -/
def View.WriteOk (v : View) (stopped : Bool) : Prop := v.NoWrite stopped ∨ v.win = true

theorem View.WriteOk.keeps {n : Bool} (h : v.WriteOk n) (hk : Keeps v v')
    (hw : v'.win = v.win) : v'.WriteOk n := by
  rcases h with hd | hwin
  · exact .inl (hd.keeps hk)
  · exact .inr (hw.trans hwin)

/-- The outcome of a piece of code: only a connection in `$win` waits for `syswrite`. -/
structure ArmedAt (n : Bool) (o : Outcome) : Prop where
  ok : o.1.WriteOk n
  top : o.2.any Frame.isSyswrite = true → o.1.win = true

theorem ArmedAt.of_win {n : Bool} (h : o.1.win = true) : ArmedAt n o :=
  ⟨.inr h, fun _ => h⟩

theorem ArmedAt.of_quiet {n : Bool} (h : v.WriteOk n) (hq : Quiet v o)
    (hsides : SameSides v o.1) : ArmedAt n o := by
  refine ⟨h.keeps hq.keeps hsides.win, fun hs => ?_⟩
  rw [hq.quiet] at hs
  cases hs

theorem ArmedAt.of_ok {n : Bool} (h : v.WriteOk n) : ArmedAt n (v, []) := ⟨h, nofun⟩

/-- `_write` does not touch the bit of the writer. -/
theorem write_armed {n : Bool} (h : v.win = true) : ArmedAt n (_write now v) :=
  .of_win (write_piece.sides.win.trans h)

theorem close_armed {n : Bool} : ArmedAt n (ngxeClose v, []) := by
  refine .of_ok (.inl (.inl ?_))
  rw [ngxeClose]
  split
  · next hc => exact hc
  · rfl

theorem Tame.armed {n : Bool} (ht : Tame v o) (h : v.WriteOk n) : ArmedAt n o := by
  cases ht with
  | code hs ha => exact .of_quiet h ha.toQuiet hs
  | close _ _ => exact close_armed

theorem dispatchWrite_armed {n : Bool} {wev : Option Nat} (h : v.WriteOk n)
    (hw : v.wout = true → v.win = true) :
    ArmedAt n (dispatchWrite now t v v.win v.wout wev) := by
  rcases (dispatchWrite_cases now t v v.win v.wout wev).tame with ht | ⟨hout, he⟩
  · exact ht.armed h
  · rw [he]
    exact write_armed (hw hout)

theorem connect_armed {n : Bool} {limit : Nat} {error : Bool} {r : ConnectResult}
    (hd : v.NoWrite n) : ArmedAt n (connect v limit error r) := by
  have hq : Quiet v (connect v limit error r) := connect_aside.toQuiet
  refine ⟨.inl (hd.keeps hq.keeps), fun hs => ?_⟩
  rw [hq.quiet] at hs
  cases hs

theorem afterCallback_armed {n : Bool} {f : Frame} (h : v.WriteOk n)
    (ho : afterCallback now v f = some o)
    (hf : f = .writeDone false → v.NoWrite n) : ArmedAt n o := by
  cases afterCallback_cases ho with
  | tame hframes ht => exact ht.armed h
  | switch hsw hopen hrout hw => exact write_armed rfl
  | stop hdone hopen => exact .of_ok (.inl ((hf hdone).keeps (.of_eq rfl rfl rfl rfl rfl)))

theorem load_writeOk {n : Bool} (h : v.WriteOk n) (sv : Sv) : (v.load sv).WriteOk n := by
  rcases h with (hc | hu | hn) | hw
  · exact .inl (.inl hc)
  · exact .inl (.inr (.inl ((unfinished_append _ _).trans hu)))
  · exact .inl (.inr (.inr hn))
  · exact .inr hw

theorem applyOp_armed {n : Bool} {op : Op} (h : s.v.WriteOk n) :
    ArmedAt (noteStop s (.op op) n) (applyOp s.now s.v op) := by
  cases op with
  | reader start timeout =>
    cases start with
    | false | true => exact .of_ok h
  | readerStart timeout | readerStop => exact .of_ok h
  | readerStopWriterStart => exact write_armed rfl
  | readerTimeout timeout => exact .of_ok h
  | writer start timeout buf =>
    cases start with
    | false => exact .of_ok (load_writeOk (v := s.v.withBuffers) h buf)
    | true => exact write_armed rfl
  | writerStart timeout => exact write_armed rfl
  | writerStop | writerStopReaderStart => exact .of_ok (.inl (.inr (.inr rfl)))
  | writerTimeout timeout => exact .of_ok h
  | writerBufferSet data => exact write_armed rfl
  | close => exact close_armed
  | setReadBuffer b => exact .of_ok h
  | setWriteBuffer sv =>
    cases hb : s.v.wbuf.isSome with
    | true =>
      simp only [applyOp, hb, if_true]
      exact .of_ok (load_writeOk h sv)
    | false =>
      simp only [applyOp, hb]
      exact .of_ok h
  | setMinLen n => exact .of_ok h

/-- Over the whole stack; only its top waits for `syswrite`. -/
structure ArmedInv (s : Sys × Bool) : Prop where
  stack : StackOk s.1.stack
  armed : ArmedAt s.2 (s.1.v, s.1.stack)

theorem ArmedAt.resume {n : Bool} {rest : List Frame} (h : ArmedAt n o)
    (hrest : ∀ f ∈ rest, f.resumes = true) : ArmedAt n (o.1, o.2 ++ rest) := by
  refine ⟨h.ok, fun hs => h.top ?_⟩
  rwa [List.any_append, any_isSyswrite_of_resumes hrest, Bool.or_false] at hs

theorem armed_step {n : Bool} {i : Input} (h : ArmedInv (s, n)) (hG : WriteSettled (s, n) i)
    (hstep : Step s i s') : ArmedAt (noteStop s i n) (s'.v, s'.stack) := by
  have hok := h.armed.ok
  cases hstep with
  | tick k => exact h.armed
  | select r w hstk => exact ⟨hok, h.armed.top⟩
  | dispatch hstk hopen => exact ((dispatch_cases ..).tame.armed hok).resume nofun
  | next hstk => exact (dispatchWrite_armed hok hG).resume (h.stack.under hstk)
  | @sysread size total rest r hstk hr =>
    have ho : Tame s.v (sysread s.now s.v size total r) := .of_piece sysread_aside sysread_piece
    exact (ho.armed hok).resume (h.stack.under hstk)
  | syswrite r hstk hr =>
    have hwin : s.v.win = true := h.armed.top (by rw [hstk]; rfl)
    exact (ArmedAt.of_win (syswrite_piece.sides.win.trans hwin)).resume (h.stack.under hstk)
  | accept ok hstk =>
    have ho : Tame s.v (accept s.v ok) := .of_piece (accept_aside ok) accept_piece
    exact (ho.armed hok).resume (h.stack.under hstk)
  | connect r hstk => exact (connect_armed hG).resume (h.stack.under hstk)
  | ret hstk ho =>
    refine (afterCallback_armed hok ho fun hf => ?_).resume (h.stack.under hstk)
    rw [hf] at hstk
    have hd : s.v.NoWrite n := by simpa [WriteSettled, hstk] using hG
    exact hd
  | enter hstk => exact ⟨hok, nofun⟩
  | leave hstk => exact (ArmedAt.of_ok hok).resume (h.stack.under hstk)
  | op o hstk hf hopen =>
    have ho : ArmedAt (noteStop s (.op o) n) (applyOp s.now s.v o) := applyOp_armed hok
    exact ho.resume (h.stack.perl hstk hf)

theorem armedInv_initial (h : Initial s) : ArmedInv (s, false) := by
  have hstack := stackOk_initial h
  cases h with
  | accepted now t fileno | server now t fileno | client now t fileno timeout =>
    exact ⟨hstack, .inl (.inr (.inl rfl)), nofun⟩

/-- No variable that `_write` was given is assigned in its callback, and the step meets
    `WriteSettled`. -/
def WriteKept : Sys × Bool × Given → Input ⊕ Stray → Prop :=
  Machine.left fun s i => WriteSettled (s.1, s.2.1) i

instance (s : Sys × Bool × Given) (i : Input ⊕ Stray) : Decidable (WriteKept s i) := by
  unfold WriteKept
  infer_instance

/-- In every run of which each step meets `WriteKept`, a write that stopped half way is in `$win`
    whenever control is in the loop. -/
theorem unfinished_write_armed (s : Sys × Bool) (h : NotedReachable WriteKept s) : Armed s := by
  obtain ⟨s₀, given, h₀, hr⟩ := h
  have hinv : ArmedInv s := by
    refine hr.of_left.invariant (I := fun s => ArmedInv (s.1, s.2.1)) (armedInv_initial h₀)
      fun s i t hs hG hstep => ?_
    obtain ⟨hst, hn⟩ := Machine.step_withNotes hstep
    have harm := armed_step hs hG (step_cases hst)
    rw [hn]
    exact ⟨stackOk_step hs.stack (step_cases hst), harm⟩
  -- of the four ways in which a write is settled only the bit is left
  intro _ hopen hun hn
  rcases hinv.armed.ok with (hc | hu | hs) | hw
  · exact absurd (hopen.symm.trans hc) (by decide)
  · exact absurd (hu.symm.trans hun) (by decide)
  · exact absurd (hn.symm.trans hs) (by decide)
  · exact hw

/-- A string is sent in part, and control goes back to the loop. -/
theorem unfinished_write_armed_partial :
    ∃ s, NotedReachable WriteKept s ∧ Armed s ∧ s.1.stack = [] ∧ s.1.v.closed = false ∧
      unfinished s.1.v.trace = true ∧ s.2 = false := by
  obtain ⟨⟨s, n, given⟩, hr, hs⟩ := Machine.Reaches.of_run_map
    (M := aliased noteStops Prod.snd) (G := WriteKept)
    (s := (⟨.accepted 0, 5, 5, [.outside]⟩, false, fun _ => false))
    (fun s => (s.1.stack, s.1.v.closed, unfinished s.1.v.trace, s.2.1))
    ([.op (.writer true 0 (.str [97, 98])), .syswrite (.accepted 1), .syswrite .again,
      .leave].map .inl)
    (show _ = some ([], false, true, false) by decide +kernel)
  have hreach : NotedReachable WriteKept (s, n) := ⟨_, given, .accepted 5 5 0, hr⟩
  simp only [Prod.mk.injEq] at hs
  exact ⟨(s, n), hreach, unfinished_write_armed (s, n) hreach, hs⟩

/-- The callback puts two bytes into the buffer and starts the writer, which sends one of them;
    then the outer `_write` stops the writer. -/
theorem unfinished_write_disarmed : ¬ ∀ s, NotedReachable Machine.always s → Armed s := by
  intro hall
  obtain ⟨⟨s, n, given⟩, hr, hs⟩ := Machine.Reaches.of_run_map
    (M := aliased noteStops Prod.snd) (G := Machine.always)
    (s := (⟨.accepted 0, 5, 5, [.outside]⟩, false, fun _ => false))
    (fun s => (s.1.stack, s.1.v.closed, unfinished s.1.v.trace, s.2.1, s.1.v.win))
    ([.op (.writer true 0 (.str [97])), .syswrite (.accepted 1),
      .op (.writerBufferSet (.str [98, 99])), .syswrite (.accepted 1), .syswrite .again, .ret,
      .leave].map .inl)
    (show _ = some ([], false, true, false, false) by decide +kernel)
  simp only [Prod.mk.injEq] at hs
  obtain ⟨hstk, hopen, hun, hn, hwin⟩ := hs
  have harmed := hall (s, n) ⟨_, given, .accepted 5 5 0, hr⟩ hstk hopen hun hn
  exact absurd (hwin.symm.trans harmed) (by decide)

/-! ### Sides without an event -/

/-- A side that is watched has an event. -/
structure View.Handled (v : View) : Prop where
  read : v.rin = true → v.read.isSome = true
  write : v.win = true → v.write.isSome = true

/-- The program starts only a reader, or a writer, that is there. -/
def StartsHandled (s : Sys) : Input → Prop
  | .op (.readerStart _) => s.v.read.isSome = true
  | .op (.writerStart _) => s.v.write.isSome = true
  | _ => True

/-- The code after the callback in `_read` would start the writer. -/
def View.switches (v : View) : Bool := !v.closed && v.rin && v.rout && wantsWriter v.wbuf

/-- Besides, the program and the engine switch only to a side that is there. -/
def SwitchHandled (s : Sys) (i : Input) : Prop :=
  StartsHandled s i ∧
  match i, s.stack with
  | .op .readerStopWriterStart, _ | .op (.writerBufferSet _), _ => s.v.write.isSome = true
  | .op .writerStopReaderStart, _ => s.v.read.isSome = true
  | .ret, .writeDone false :: _ => s.v.closed = false → s.v.read.isSome = true
  | .ret, .readData _ :: _ => s.v.switches = true → s.v.write.isSome = true
  | _, _ => True

instance {i : Input} : Decidable (StartsHandled s i) := by
  unfold StartsHandled
  induction i with
  | op o => induction o <;> infer_instance
  | _ => infer_instance

instance {i : Input} : Decidable (SwitchHandled s i) := by
  unfold SwitchHandled
  refine @instDecidableAnd _ _ inferInstance ?_
  generalize s.stack = stk
  induction i with
  | op o => induction o <;> infer_instance
  | ret =>
    induction stk using List.casesOn with
    | nil => infer_instance
    | cons f rest =>
      induction f with
      | writeDone error => induction error using Bool.casesOn <;> infer_instance
      | _ => infer_instance
  | _ => infer_instance

theorem SameSides.handled (hs : SameSides v v') (h : v.Handled) : v'.Handled := by
  refine ⟨?_, ?_⟩
  · rw [hs.rin, hs.read]
    exact h.read
  · rw [hs.win, hs.write]
    exact h.write

theorem close_handled (h : v.Handled) : (ngxeClose v).Handled := by
  rw [ngxeClose]
  split
  · exact h
  · refine ⟨fun hr => ?_, fun hw => ?_⟩
    · cases hr
    · cases hw

theorem Tame.handled (ht : Tame v o) (h : v.Handled) : o.1.Handled := by
  cases ht with
  | code hs _ => exact hs.handled h
  | close hs _ => exact close_handled (hs.handled h)

/-- Starting the writer where there is one. -/
theorem start_handled (h : v.Handled) (hw : v.win = true → v.write.isSome = true) :
    (_write now v).1.Handled :=
  write_piece.sides.handled ⟨h.read, hw⟩

theorem dispatchWrite_handled {win wout : Bool} {wev : Option Nat} (h : v.Handled) :
    (dispatchWrite now t v win wout wev).1.Handled := by
  rcases (dispatchWrite_cases now t v win wout wev).tame with ht | ⟨-, he⟩
  · exact ht.handled h
  · rw [he]
    exact write_piece.sides.handled h

theorem connect_handled {limit : Nat} {error : Bool} {r : ConnectResult} (h : v.Handled) :
    (connect v limit error r).1.Handled := by
  rcases connect_piece with hp | hp
  · exact hp.sides.handled h
  · exact hp.sides.handled ⟨h.read, nofun⟩

theorem applyOp_handled {op : Op} (h : s.v.Handled) (hG : SwitchHandled s (.op op)) :
    (applyOp s.now s.v op).1.Handled := by
  cases op with
  | reader start timeout =>
    cases start with
    | false | true => exact ⟨fun _ => rfl, h.write⟩
  | readerStart timeout => exact ⟨fun _ => hG.1, h.write⟩
  | readerStop => exact ⟨nofun, h.write⟩
  | readerStopWriterStart => exact start_handled ⟨nofun, fun _ => hG.2⟩ fun _ => hG.2
  | readerTimeout timeout => exact ⟨h.read, h.write⟩
  | writer start timeout buf =>
    cases start with
    | false => exact ⟨h.read, fun _ => rfl⟩
    | true => exact start_handled ⟨h.read, fun _ => rfl⟩ fun _ => rfl
  | writerStart timeout => exact start_handled ⟨h.read, fun _ => hG.1⟩ fun _ => hG.1
  | writerStop => exact ⟨h.read, nofun⟩
  | writerStopReaderStart => exact ⟨fun _ => hG.2, nofun⟩
  | writerTimeout timeout => exact ⟨h.read, h.write⟩
  | writerBufferSet data => exact start_handled ⟨h.read, fun _ => hG.2⟩ fun _ => hG.2
  | close => exact close_handled h
  | setReadBuffer b => exact ⟨h.read, h.write⟩
  | setWriteBuffer sv =>
    cases hb : s.v.wbuf.isSome with
    | true =>
      simp only [applyOp, hb, if_true]
      exact ⟨h.read, h.write⟩
    | false =>
      simp only [applyOp, hb]
      exact h
  | setMinLen n => exact ⟨h.read, h.write⟩

theorem afterCallback_handled {f : Frame} {rest : List Frame} (h : s.v.Handled)
    (hstk : s.stack = f :: rest) (hsane : f.sane = true)
    (ho : afterCallback s.now s.v f = some o) (hG : SwitchHandled s .ret) : o.1.Handled := by
  have hG' := hG.2
  rw [hstk] at hG'
  cases afterCallback_cases ho with
  | tame hframes ht => exact ht.handled h
  | switch hf hopen hrout hw =>
    have hsome : s.v.write.isSome = true := by
      rcases hf with ⟨rfl, hrin⟩ | rfl
      · exact hG' (by simp [View.switches, hopen, hrin, hrout, hw])
      · cases hsane
    refine start_handled ⟨fun hr => ?_, fun _ => hsome⟩ fun _ => hsome
    cases hr
  | stop hf hopen =>
    subst hf
    refine ⟨fun _ => hG' hopen, fun hw => ?_⟩
    cases hw

theorem handled_step {i : Input} (hstack : StackOk s.stack) (h : s.v.Handled)
    (hG : SwitchHandled s i) (hstep : Step s i s') : s'.v.Handled := by
  cases hstep with
  | tick n => exact h
  | select r w hstk => exact ⟨h.read, h.write⟩
  | dispatch hstk hopen => exact (dispatch_cases ..).tame.handled h
  | next hstk => exact dispatchWrite_handled h
  | sysread r hstk hr => exact sysread_piece.sides.handled h
  | syswrite r hstk hr => exact syswrite_piece.sides.handled h
  | accept ok hstk => exact accept_piece.sides.handled h
  | connect r hstk => exact connect_handled h
  | ret hstk ho =>
    rw [hstk] at hstack
    exact afterCallback_handled h hstk (hstack.sane _ List.mem_cons_self) ho hG
  | enter hstk | leave hstk => exact h
  | op o hstk hf hopen => exact applyOp_handled h hG

theorem handled_initial (h : Initial s) : s.v.Handled := by
  cases h with
  | accepted now t fileno => exact ⟨nofun, nofun⟩
  | server now t fileno => exact ⟨fun _ => rfl, nofun⟩
  | client now t fileno timeout =>
    have hnew : (View.client now fileno timeout).Handled := ⟨nofun, fun _ => rfl⟩
    exact startConnect_piece.sides.handled hnew

/-- In every run of which each step meets `SwitchHandled`, a side that is watched has an
    event. -/
theorem handled_of_reachable (h : Reachable SwitchHandled s) : s.v.Handled :=
  (h.invariant (I := fun s => StackOk s.stack ∧ s.v.Handled)
    (fun _ h => ⟨stackOk_initial h, handled_initial h⟩)
    fun _ _ _ hs hG hstep => ⟨stackOk_step hs.1 hstep, handled_step hs.1 hs.2 hG hstep⟩).2

end NginxEngine.PP
