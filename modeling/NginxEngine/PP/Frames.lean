import NginxEngine.PP.Delivery
import NginxEngine.PP.Events
import NginxEngine.PP.Switch

/-!
# Which frames stay, and which bits change

A few facts about every step that hold in all runs. The frames of the loop and of `_timedout` lie
at the bottom of the stack. A closed connection has no events and no bits. The writer is in `$win`
only after a start, which puts it into `$wout` as well, and a callback that was called with an
error runs on until the connection is closed.

## Main definitions

- `FloorOk` — the frames of the loop and of `_timedout` are at the bottom of the stack
- `ShutOk` — a closed connection has no events, and the loop does not look at it
- `WellFormed` — these, with the shape of the stack and the types of the events
- `WriterBits` — what a step does to the bits of the writer

## Main results

- `wellFormed_step` — every step keeps them
- `writerBits_step` — the steps that change the bits of the writer
- `error_step` — callbacks that are followed by a close
-/

namespace NginxEngine.PP

open NginxEngine.XS (Bytes Sv)

variable {now t : Int} {v v' v₀ : View} {o : Outcome} {s s' : Sys} {f : Frame}
  {rest : List Frame}

/-! ### The bottom of the stack -/

/-- A frame below which there is nothing. -/
def Frame.isFloor : Frame → Bool
  | .loop _ _ | .timedout => true
  | _ => false

/-- The frames of the loop and of `_timedout` have nothing below them. -/
def FloorOk (stack : List Frame) : Prop := stack.Pairwise fun f _ => f.isFloor = false

/-- A frame of the loop on top is alone. -/
theorem FloorOk.alone (h : FloorOk (f :: rest)) (hf : f.isFloor = true) : rest = [] := by
  cases rest with
  | nil => rfl
  | cons g rest =>
    have hg := (List.pairwise_cons.mp h).1 g List.mem_cons_self
    exact absurd (hg.symm.trans hf) (by decide)

/-- Frames that may lie on others. -/
theorem FloorOk.append {fs : List Frame} (h : FloorOk rest)
    (hfs : fs.any Frame.isFloor = false) : FloorOk (fs ++ rest) := by
  induction fs with
  | nil => exact h
  | cons g fs ih =>
    rw [List.any_cons, Bool.or_eq_false_iff] at hfs
    exact List.pairwise_cons.mpr ⟨fun _ _ => hfs.1, ih hfs.2⟩

/-- A handler leaves no such frame. -/
theorem Serves.low {ev : Option Nat} {args : EvType} (h : Serves now ev args v o) :
    o.2.any Frame.isFloor = false := by
  rw [List.any_eq_false]
  intro f hf
  have hserves := List.all_eq_true.mp h.frames f hf
  cases f <;> simp [Frame.isFloor, Frame.serves] at hserves ⊢

theorem write_low (now : Int) (v : View) : (_write now v).2.any Frame.isFloor = false := by
  have h : Serves now v.write .write v (_write now v) := write_serves rfl
  exact h.low

theorem acceptLoop_low (v : View) : (_accept v).2.any Frame.isFloor = false := by
  have h : Serves 0 v.read .accept v (_accept v) := acceptLoop_serves
  exact h.low

theorem FloorOk.single (f : Frame) : FloorOk [f] := List.pairwise_singleton _ _

/-- `_timedout` leaves one frame, or none. -/
theorem TimedOut.floorOk (h : TimedOut v o) : FloorOk o.2 := by
  cases h with
  | close => exact .nil
  | call ev args | crash => exact .single _

theorem Dispatched.floorOk {fno : Nat} (h : Dispatched now fno v o) : FloorOk o.2 := by
  cases h with
  | skip => exact .single _
  | read hread => exact (FloorOk.single _).append (read_serves rfl).low
  | accept => exact (FloorOk.single _).append (acceptLoop_low v)
  | timedout h => exact h.floorOk

theorem DispatchedWrite.floorOk {wout : Bool} (h : DispatchedWrite now v wout o) :
    FloorOk o.2 := by
  cases h with
  | skip => exact .nil
  | write hout =>
    have hf := (write_low now v)
    exact List.append_nil (_write now v).2 ▸ FloorOk.append .nil hf
  | connect => exact .single _
  | timedout h => exact h.floorOk

theorem afterCallback_frames (ho : afterCallback now v f = some o) :
    o.2.any Frame.isFloor = false := by
  have hfinish : ∀ error, (finishRead now v error).2.any Frame.isFloor = false := by
    intro error
    rw [finishRead]
    split
    · rfl
    split
    · rfl
    split
    · exact write_low _ _
    · rfl
  cases f with
  | readData error =>
    cases ho
    rw [afterData]
    split
    · rfl
    split
    · cases v.read <;> rfl
    · exact hfinish 0
  | readError error =>
    cases ho
    exact hfinish error
  | writeDone error =>
    cases ho
    rfl
  | timedout =>
    cases ho
    rfl
  | accepted =>
    cases ho
    exact (acceptLoop_low v)
  | connected error =>
    cases ho
    rfl
  | _ => cases ho

theorem applyOp_low {op : Op} : (applyOp now v op).2.any Frame.isFloor = false := by
  cases op with
  | writer start timeout buf =>
    cases start with
    | true => exact write_low _ _
    | false => rfl
  | writerStart timeout | readerStopWriterStart | writerBufferSet data => exact write_low _ _
  | _ => rfl

theorem floorOk_step {i : Input} (h : FloorOk s.stack) (hs : Step s i s') : FloorOk s'.stack := by
  have hgo : ∀ {o : Outcome} {g : Frame} {rest : List Frame}, s.stack = g :: rest →
      o.2.any Frame.isFloor = false → FloorOk (o.2 ++ rest) := by
    intro o g rest hstk ho
    rw [hstk] at h
    exact FloorOk.append (List.pairwise_cons.mp h).2 ho
  cases hs with
  | tick n | select r w hstk => exact h
  | dispatch hstk hopen =>
    show FloorOk (_ ++ [])
    rw [List.append_nil]
    exact (dispatch_cases ..).floorOk
  | next hstk =>
    rw [hstk] at h
    obtain rfl := h.alone rfl
    show FloorOk (_ ++ [])
    rw [List.append_nil]
    exact (dispatchWrite_cases ..).floorOk
  | sysread r hstk hr => exact hgo hstk (sysread_serves rfl).low
  | syswrite r hstk hr => exact hgo hstk (syswrite_serves rfl).low
  | accept ok hstk =>
    have h : Serves s.now s.v.read .accept s.v (accept s.v ok) := accept_serves rfl
    exact hgo hstk h.low
  | @connect limit error rest r hstk =>
    have h : Serves s.now s.v.write .connect s.v (connect s.v limit error r) := connect_serves rfl
    exact hgo hstk h.low
  | ret hstk ho => exact hgo hstk (afterCallback_frames ho)
  | enter hstk => exact .single _
  | leave hstk =>
    rw [hstk] at h
    exact (List.pairwise_cons.mp h).2
  | op o hstk hf hopen => exact h.append applyOp_low

theorem floorOk_initial (h : Initial s) : FloorOk s.stack := by
  cases h with
  | accepted now t fileno | server now t fileno => exact .single _
  | client now t fileno timeout =>
    exact (FloorOk.single _).append rfl

/-! ### Closed connections -/

/-- Neither side has an event, and the loop looks at neither. -/
structure View.Shut (v : View) : Prop where
  read : v.read = none
  write : v.write = none
  rin : v.rin = false
  rout : v.rout = false
  win : v.win = false
  wout : v.wout = false

/-- A closed connection is shut. -/
def ShutOk (v : View) : Prop := v.closed = true → v.Shut

theorem shutOk_of_open (hopen : v.closed = false) : ShutOk v :=
  fun hc => absurd (hopen.symm.trans hc) (by decide)

theorem SameSides.shutOk (hs : SameSides v v') (h : ShutOk v) : ShutOk v' := by
  intro hc
  have hshut := h (hs.closed.symm.trans hc)
  exact ⟨hs.read.trans hshut.read, hs.write.trans hshut.write, hs.rin.trans hshut.rin,
    hs.rout.trans hshut.rout, hs.win.trans hshut.win, hs.wout.trans hshut.wout⟩

theorem close_shutOk (h : ShutOk v) : ShutOk (ngxeClose v) := by
  rw [ngxeClose]
  split
  · exact h
  · exact fun _ => ⟨rfl, rfl, rfl, rfl, rfl, rfl⟩

theorem Tame.shutOk (ht : Tame v o) (h : ShutOk v) : ShutOk o.1 := by
  cases ht with
  | code hs ha => exact hs.shutOk h
  | close hs hk => exact close_shutOk (hs.shutOk h)

theorem Tame.closed (ht : Tame v o) (hc : v.closed = true) : o.1.closed = true := by
  cases ht with
  | code hs ha => exact hs.closed.trans hc
  | close hs hk => exact ngxeClose_closed _

/-- Only `ngxe_close` closes a connection. -/
theorem applyOp_open {op : Op} (hopen : v.closed = false) (hop : op ≠ .close) :
    (applyOp now v op).1.closed = false := by
  have hwrite : ∀ v' : View, v'.closed = v.closed → (_write now v').1.closed = false :=
    fun v' hc => write_piece.sides.closed.trans (hc.trans hopen)
  cases op with
  | reader start timeout =>
    cases start with
    | true | false => exact hopen
  | readerStopWriterStart => exact hwrite _ rfl
  | writer start timeout buf =>
    cases start with
    | true => exact hwrite _ rfl
    | false => exact hopen
  | writerStart timeout | writerBufferSet data => exact hwrite _ rfl
  | close => exact absurd rfl hop
  | setWriteBuffer sv =>
    rw [applyOp]
    split
    · exact hopen
    · exact hopen
  | _ => exact hopen

theorem shutOk_step {i : Input} (h : ShutOk s.v) (hs : Step s i s') : ShutOk s'.v := by
  cases hs with
  | tick n => exact h
  | select r w hstk =>
    intro hc
    have hshut := h hc
    exact ⟨hshut.read, hshut.write, hshut.rin, by simp [Sys.select, hshut.rin], hshut.win,
      by simp [Sys.select, hshut.win]⟩
  | dispatch hstk hopen => exact (dispatch_cases ..).tame.shutOk h
  | @next fno wev rest hstk =>
    rcases (dispatchWrite_cases s.now s.t s.v s.v.win s.v.wout wev).tame with ht | ⟨_, he⟩
    · exact ht.shutOk h
    · show ShutOk (dispatchWrite s.now s.t s.v s.v.win s.v.wout wev).1
      rw [he]
      exact write_piece.sides.shutOk h
  | sysread r hstk hr => exact sysread_piece.sides.shutOk h
  | syswrite r hstk hr => exact syswrite_piece.sides.shutOk h
  | accept ok hstk => exact accept_piece.sides.shutOk h
  | @connect limit error rest r hstk =>
    rcases @connect_piece s.v limit error r with hp | hp
    · exact hp.sides.shutOk h
    · refine hp.sides.shutOk fun hc => ?_
      have hshut := h hc
      exact ⟨hshut.read, hshut.write, hshut.rin, hshut.rout, rfl, hshut.wout⟩
  | ret hstk ho =>
    cases afterCallback_cases ho with
    | tame hframes ht => exact ht.shutOk h
    | switch hf hopen hrout hw => exact shutOk_of_open (write_piece.sides.closed.trans hopen)
    | stop hf hopen => exact shutOk_of_open hopen
  | enter hstk | leave hstk => exact h
  | op o hstk hf hopen =>
    by_cases ho : o = .close
    · subst ho
      exact close_shutOk h
    · exact shutOk_of_open (applyOp_open (hopen.resolve_right ho) ho)

/-- A closed connection stays closed. -/
theorem closed_step {i : Input} (hc : s.v.closed = true) (hs : Step s i s') :
    s'.v.closed = true := by
  cases hs with
  | tick n | select r w hstk => exact hc
  | dispatch hstk hopen => exact (dispatch_cases ..).tame.closed hc
  | @next fno wev rest hstk =>
    rcases (dispatchWrite_cases s.now s.t s.v s.v.win s.v.wout wev).tame with ht | ⟨_, he⟩
    · exact ht.closed hc
    · show (dispatchWrite s.now s.t s.v s.v.win s.v.wout wev).1.closed = true
      rw [he]
      exact write_piece.sides.closed.trans hc
  | sysread r hstk hr => exact sysread_piece.sides.closed.trans hc
  | syswrite r hstk hr => exact syswrite_piece.sides.closed.trans hc
  | accept ok hstk => exact accept_piece.sides.closed.trans hc
  | @connect limit error rest r hstk =>
    rcases @connect_piece s.v limit error r with hp | hp
    · exact hp.sides.closed.trans hc
    · exact hp.sides.closed.trans hc
  | ret hstk ho =>
    cases afterCallback_cases ho with
    | tame hframes ht => exact ht.closed hc
    | switch hf hopen hrout hw | stop hf hopen => exact absurd (hopen.symm.trans hc) (by decide)
  | enter hstk | leave hstk => exact hc
  | op o hstk hf hopen =>
    by_cases ho : o = .close
    · subst ho
      exact ngxeClose_closed _
    · exact absurd ((hopen.resolve_right ho).symm.trans hc) (by decide)

theorem shutOk_initial (h : Initial s) : ShutOk s.v := by
  cases h with
  | accepted now t fileno | server now t fileno | client now t fileno timeout =>
    exact shutOk_of_open rfl

/-! ### The bits of the writer -/

/-- The step starts the writer that the connection has: the program does, or the switch in
    `_read`. -/
def startsWriter (s : Sys) (i : Input) : Bool :=
  match i, s.stack with
  | .op o, _ => o.startsWriter
  | .ret, .readData error :: _ => decide (error = 0) && s.v.switches
  | _, _ => false

/-- What a step does to the bits of the writer. -/
inductive WriterBits (s : Sys) (i : Input) (s' : Sys) : Prop
  | same (hwin : s'.v.win = s.v.win) (hwout : s'.v.wout = s.v.wout)
  | off (hwin : s'.v.win = false) (hwout : s'.v.wout = false)
  /-- `_connect` takes the connection out of `$win` only. -/
  | dims (hwin : s'.v.win = false) (hwout : s'.v.wout = s.v.wout)
  | select (hstk : s.stack = []) (hwin : s'.v.win = s.v.win)
      (hwout : s'.v.wout = true → s.v.win = true)
  /-- The writer is started, the one that is there or a new one. -/
  | on (hwin : s'.v.win = true) (hwout : s'.v.wout = true)
      (hstart : startsWriter s i = true ∨ s'.v.write = some s.v.events.length)

theorem Tame.bits (h : Tame v o) :
    o.1.win = v.win ∧ o.1.wout = v.wout ∨ o.1.win = false ∧ o.1.wout = false ∨
      v.closed = true ∧ o.1.win = v.win ∧ o.1.wout = v.wout := by
  cases h with
  | code hs ha => exact .inl ⟨hs.win, hs.wout⟩
  | @close v' hs hk =>
    show (ngxeClose v').win = _ ∧ _ ∨ _
    rw [ngxeClose]
    split
    · next hc => exact .inr (.inr ⟨hs.closed.symm.trans hc, hs.win, hs.wout⟩)
    · exact .inr (.inl ⟨rfl, rfl⟩)

/-- The switch in `_read` starts the writer. -/
theorem switch_starts (hstack : StackOk s.stack) (hstk : s.stack = f :: rest)
    (hf : f = .readData 0 ∧ s.v.rin = true ∨ f = .readError 0) (hopen : s.v.closed = false)
    (hrout : s.v.rout = true) (hw : wantsWriter s.v.wbuf = true) :
    startsWriter s .ret = true := by
  rcases hf with ⟨rfl, hrin⟩ | rfl
  · simp [startsWriter, hstk, View.switches, hopen, hrin, hrout, hw]
  · have hsane := hstack.sane _ (hstk ▸ List.mem_cons_self)
    cases hsane

theorem writerBits_tame {i : Input} (ht : Tame s.v o) : WriterBits s i (s.resume o rest) := by
  rcases ht.bits with ⟨hw, ho⟩ | ⟨hw, ho⟩ | ⟨_, hw, ho⟩
  · exact .same hw ho
  · exact .off hw ho
  · exact .same hw ho

theorem writerBits_op {op : Op} :
    WriterBits s (.op op) (s.resume (applyOp s.now s.v op) s.stack) := by
  have hon : ∀ {v' : View}, v'.win = true → v'.wout = true →
      (startsWriter s (.op op) = true ∨ v'.write = some s.v.events.length) →
      WriterBits s (.op op) (s.resume (_write s.now v') s.stack) := by
    intro v' hwin hwout hstart
    refine .on (write_piece.sides.win.trans hwin) (write_piece.sides.wout.trans hwout) ?_
    exact hstart.imp_right fun hw => write_piece.sides.write.trans hw
  cases op with
  | reader start timeout =>
    cases start with
    | true | false => exact .same rfl rfl
  | readerStopWriterStart => exact hon rfl rfl (.inl rfl)
  | writer start timeout buf =>
    cases start with
    | true => exact hon rfl rfl (.inr rfl)
    | false => exact .same rfl rfl
  | writerStart timeout => exact hon rfl rfl (.inl rfl)
  | writerStop | writerStopReaderStart => exact .off rfl rfl
  | writerBufferSet data => exact hon rfl rfl (.inl rfl)
  | close => exact writerBits_tame (.close (.refl _) (.refl _))
  | setWriteBuffer sv =>
    rw [applyOp]
    split
    · exact .same rfl rfl
    · exact .same rfl rfl
  | _ => exact .same rfl rfl

theorem writerBits_step {i : Input} (hstack : StackOk s.stack) (hs : Step s i s') :
    WriterBits s i s' := by
  have hsides : ∀ {o : Outcome} {rest : List Frame}, SameSides s.v o.1 →
      WriterBits s i (s.resume o rest) := fun hp => .same hp.win hp.wout
  cases hs with
  | tick n => exact .same rfl rfl
  | select r w hstk => exact .select hstk rfl fun hout => ((Bool.and_eq_true _ _).mp hout).1
  | dispatch hstk hopen => exact writerBits_tame (dispatch_cases ..).tame
  | @next fno wev rest hstk =>
    rcases (dispatchWrite_cases s.now s.t s.v s.v.win s.v.wout wev).tame with ht | ⟨_, he⟩
    · exact writerBits_tame ht
    · rw [he]
      exact hsides write_piece.sides
  | sysread r hstk hr => exact hsides sysread_piece.sides
  | syswrite r hstk hr => exact hsides syswrite_piece.sides
  | accept ok hstk => exact hsides accept_piece.sides
  | @connect limit error rest r hstk =>
    rcases @connect_piece s.v limit error r with hp | hp
    · exact hsides hp.sides
    · exact .dims hp.sides.win hp.sides.wout
  | @ret f rest o hstk ho =>
    cases afterCallback_cases ho with
    | tame hframes ht => exact writerBits_tame ht
    | switch hf hopen hrout hw =>
      exact .on write_piece.sides.win write_piece.sides.wout
        (.inl (switch_starts hstack hstk hf hopen hrout hw))
    | stop hf hopen => exact .off rfl rfl
  | enter hstk | leave hstk => exact .same rfl rfl
  | op o hstk hf hopen => exact writerBits_op

/-! ### Frames that stay -/

/-- What lies below the top stays where it is. -/
theorem tail_step {i : Input} (hs : Step s i s') (hstk : s.stack = f :: rest) {g : Frame}
    (hg : g ∈ rest) : g ∈ s'.stack := by
  have hgo : ∀ {o : Outcome} {h : Frame} {rest' : List Frame}, s.stack = h :: rest' →
      g ∈ o.2 ++ rest' := by
    intro o h rest' hstk'
    obtain ⟨_, rfl⟩ := List.cons.inj (hstk'.symm.trans hstk)
    exact List.mem_append_right _ hg
  have hempty : s.stack ≠ [] := by
    rw [hstk]
    exact List.cons_ne_nil _ _
  have hall : g ∈ s.stack := hstk ▸ List.mem_cons_of_mem f hg
  cases hs with
  | tick n => exact hall
  | select r w h | dispatch h hopen | enter h => exact absurd h hempty
  | next h | sysread r h hr | syswrite r h hr | accept ok h | connect r h | ret h ho => exact hgo h
  | leave h =>
    obtain ⟨_, rfl⟩ := List.cons.inj (h.symm.trans hstk)
    exact hg
  | op o h hf hopen => exact List.mem_append_right _ hall

/-- A callback that was called with an error runs on, or the connection was closed. -/
theorem error_step {i : Input} (hstack : StackOk s.stack) (hs : Step s i s')
    (hf : f ∈ s.stack) (herr : f.isError = true) : f ∈ s'.stack ∨ s'.v.closed = true := by
  obtain ⟨g, rest, hstk⟩ : ∃ g rest, s.stack = g :: rest := by
    cases hstk : s.stack with
    | nil =>
      rw [hstk] at hf
      cases hf
    | cons g rest => exact ⟨g, rest, rfl⟩
  rw [hstk] at hf
  rcases List.mem_cons.mp hf with rfl | hrest
  · have htop : ∀ {g rest'}, s.stack = g :: rest' → g = f := fun hg =>
      (List.cons.inj (hg.symm.trans hstk)).1
    have hempty : s.stack ≠ [] := by
      rw [hstk]
      exact List.cons_ne_nil _ _
    have hall : f ∈ s.stack := hstk ▸ List.mem_cons_self
    cases hs with
    | tick n => exact .inl hall
    | select r w h | dispatch h hopen => exact absurd h hempty
    | next h =>
      cases htop h
      cases herr
    | sysread r h hr =>
      cases htop h
      cases herr
    | syswrite r h hr =>
      cases htop h
      cases herr
    | accept ok h =>
      cases htop h
      cases herr
    | connect r h =>
      cases htop h
      cases herr
    | ret h ho =>
      cases htop h
      have hsane := hstack.sane _ hall
      cases f with
      | readError error =>
        cases ho
        refine .inr ?_
        show (finishRead s.now s.v error).1.closed = true
        rw [finishRead]
        split
        · next hc => exact hc
        · rw [if_pos (of_decide_eq_true hsane)]
          exact ngxeClose_closed _
      | timedout =>
        cases ho
        exact .inr (ngxeClose_closed _)
      | _ => cases herr
    | enter h => exact absurd h hempty
    | leave h =>
      cases htop h
      cases herr
    | op o h hp hopen => exact .inl (List.mem_append_right _ hall)
  · exact .inl (tail_step hs hstk hrest)

/-! ### What holds in every run -/

/-- The shape of a connection and its stack. -/
structure WellFormed (s : Sys) : Prop where
  events : EventsOk s
  stack : StackOk s.stack
  floor : FloorOk s.stack
  shut : ShutOk s.v

theorem wellFormed_step {i : Input} (h : WellFormed s) (hs : Step s i s') : WellFormed s' where
  events := eventsOk_step h.events hs
  stack := stackOk_step h.stack hs
  floor := floorOk_step h.floor hs
  shut := shutOk_step h.shut hs

theorem wellFormed_initial (h : Initial s) : WellFormed s where
  events := eventsOk_initial h
  stack := stackOk_initial h
  floor := floorOk_initial h
  shut := shutOk_initial h

end NginxEngine.PP
