import NginxEngine.PP.Segments

/-!
# The events of a connection

A connection has an event array for its reader and one for its writer. The handlers stamp the
event that they serve and call its callback; only the program's calls change its timeout, and only
they replace it. The loop takes the event of the writer before the reader is served and may come
back to it after it was replaced.

## Main definitions

- `Serves` — code that stamps at most the event that it serves, and calls only its callback
- `Ev.fixed` — the parts of an event that only the program changes
- `EventsOk` — the events of the two sides, and those the loop has taken, are of their types

## Main results

- `step_kept` — only the program's calls change an event's timeout, or replace it
- `eventsOk_step` — every step keeps the types
-/

namespace NginxEngine.PP

open NginxEngine.XS (Bytes Sv)

variable {now t : Int} {v v' v₀ : View} {o : Outcome} {s s' : Sys} {f : Frame}
  {rest : List Frame} {ev : Option Nat} {args : EvType} {i offset : Nat}

/-! ### Code that serves one event -/

/-- No callback but that of the event `ev` is called, with arguments of a callback of type
    `args`. -/
def Obs.CallsOnly (ev : Option Nat) (args : EvType) (x : Obs) : Prop :=
  ∀ i a err, x = .called i a err → ev = some i ∧ a = args

/-- A frame that the handler of events of type `args` may leave. -/
def Frame.serves (args : EvType) : Frame → Bool
  | .sysread _ _ | .readData _ | .readError _ => decide (args = .read)
  | .syswrite _ _ | .writeDone _ => decide (args = .write)
  | .accept | .accepted => decide (args = .accept)
  | .connect _ _ | .connected _ => decide (args = .connect)
  | .crash => true
  | .timedout | .loop _ _ | .outside => false

/-- Code that stamps at most the event `ev`, calls no other callback, and waits in frames of its
    handler. -/
structure Serves (now : Int) (ev : Option Nat) (args : EvType) (v : View) (o : Outcome) :
    Prop where
  calls : Extends (Obs.CallsOnly ev args) v.trace o.1.trace
  events : o.1.events = v.events ∨ o.1.events = stamp now ev v.events
  frames : o.2.all (Frame.serves args) = true

theorem stamp_stamp (events : List Ev) :
    stamp now ev (stamp now ev events) = stamp now ev events := by
  cases ev with
  | none => rfl
  | some i =>
    rw [stamp, stamp, List.modify_modify_eq]
    rfl

namespace Serves

theorem refl (v : View) {fs : List Frame} (hfs : fs.all (Frame.serves args) = true) :
    Serves now ev args v (v, fs) := ⟨.refl _, .inl rfl, hfs⟩

/-- Code that was preceded by what calls nothing and leaves the events alone, or stamps. -/
theorem after (h : Serves now ev args v o) (ht : Extends (Obs.CallsOnly ev args) v₀.trace v.trace)
    (he : v.events = v₀.events ∨ v.events = stamp now ev v₀.events) :
    Serves now ev args v₀ o := by
  refine ⟨ht.trans h.calls, ?_, h.frames⟩
  rcases h.events with he' | he'
  · rw [he']
    exact he
  · rw [he']
    rcases he with he | he
    · exact .inr (by rw [he])
    · exact .inr (by rw [he, stamp_stamp])

theorem call {err : Int} (hf : f.serves args = true) :
    Serves now ev args v (v.call ev args err f) := by
  cases ev with
  | none => exact .refl v rfl
  | some i =>
    refine ⟨.snoc fun j a err' he => ?_, .inl rfl, by simp [View.call, hf]⟩
    cases he
    exact ⟨rfl, rfl⟩

end Serves

theorem callsOnly_of_not_called {x : Obs} (h : x.isCalled = false) : x.CallsOnly ev args := by
  intro i a err he
  rw [he] at h
  cases h

/-- A first observation that is no call. -/
theorem Serves.observed {x : Obs} (hx : x.isCalled = false)
    (h : Serves now ev args (v.observe x) o) : Serves now ev args v o :=
  h.after (.snoc (callsOnly_of_not_called hx)) (.inl rfl)

theorem writeEnd_serves {error : Bool} (hev : v.write = ev) :
    Serves now ev .write v (writeEnd now v i offset error) := by
  subst hev
  exact (Serves.call rfl).after (.refl _) (.inr rfl)

theorem writeLoop_serves (hev : v.write = ev) :
    Serves now ev .write v (writeLoop now v i offset) := by
  rw [writeLoop]
  split
  · exact .refl v rfl
  · split
    · exact writeEnd_serves hev
    · exact .refl v rfl
    · exact .refl v rfl

theorem write_serves (hev : v.write = ev) : Serves now ev .write v (_write now v) := by
  have h : Serves now ev .write { v.observe (.ran .write) with wind := firstIndex v }
      (_write now v) := writeLoop_serves hev
  exact h.after (.snoc (callsOnly_of_not_called rfl)) (.inl rfl)

/-- A start of the writer stamps its event; `_write` stamps it again, if at all. -/
theorem writerStart_events {timeout : Option Int} : (ngxeWriterStart now v timeout).1.events =
    stamp now v.write (limit timeout v.write v.events) := by
  rw [ngxeWriterStart]
  generalize hv : View.touch _ now v.write = v'
  have hw : v'.write = v.write := by rw [← hv]; rfl
  have he : v'.events = stamp now v.write (limit timeout v.write v.events) := by rw [← hv]; rfl
  have hserves : Serves now v.write .write v' (_write now v') := write_serves hw
  rcases hserves.events with h | h
  · rw [h, he]
  · rw [h, he, stamp_stamp]

theorem syswrite_serves {r : WriteResult} (hev : v.write = ev) :
    Serves now ev .write v (syswrite now v i offset r) := by
  have hsent : ∀ b, Extends (Obs.CallsOnly ev .write) v.trace (v.trace ++ [.sent b]) :=
    fun b => .snoc (callsOnly_of_not_called rfl)
  rw [syswrite]
  split
  · next b _ =>
    cases r with
    | accepted n =>
      dsimp only
      split
      · have h : Serves now ev .write (v.observe (.sent ((b.drop offset).take n)))
            (writeLoop now (v.observe (.sent ((b.drop offset).take n))) (i + 1) 0) :=
          writeLoop_serves hev
        exact h.observed rfl
      · exact ⟨hsent _, .inl rfl, rfl⟩
    | again => exact ⟨hsent _, .inr (by rw [← hev]; rfl), rfl⟩
    | intr => exact .refl v rfl
    | error => exact writeEnd_serves hev
  · exact .refl v rfl

theorem readEnd_serves {total : Nat} {error : Int} (hev : v.read = ev) :
    Serves now ev .read v (readEnd now v total error) := by
  subst hev
  rw [readEnd]
  split
  · exact .refl v rfl
  · dsimp only
    split
    · exact (Serves.call rfl).after (.refl _) (.inr rfl)
    · exact (Serves.call rfl).after (.refl _) (.inr rfl)

theorem readLoop_serves {size : Int} {total : Nat} (hev : v.read = ev) :
    Serves now ev .read v (readLoop now v size total) := by
  rw [readLoop]
  split
  · exact .refl v rfl
  · exact readEnd_serves hev

theorem read_serves (hev : v.read = ev) : Serves now ev .read v (_read now v) := by
  rw [_read]
  split
  · next buf _ =>
    have h : Serves now ev .read (v.observe (.ran .read))
        (readLoop now (v.observe (.ran .read)) (v.rmax.getD 0) buf.length) := readLoop_serves hev
    exact h.observed rfl
  · exact (Serves.refl _ rfl).observed rfl

theorem sysread_serves {size : Int} {total : Nat} {r : ReadResult} (hev : v.read = ev) :
    Serves now ev .read v (sysread now v size total r) := by
  cases r with
  | data b =>
    have h : Serves now ev .read ({ v with rbuf := v.rbuf.map (· ++ b) }.observe (.received b))
        (sysread now v size total (.data b)) := readLoop_serves hev
    exact h.after (.snoc (callsOnly_of_not_called rfl)) (.inl rfl)
  | eof | again => exact readEnd_serves hev
  | intr => exact readLoop_serves hev
  | error => exact readEnd_serves hev

theorem acceptLoop_serves : Serves now ev .accept v (_accept v) := by
  rw [_accept]
  split
  · exact (Serves.refl _ rfl).observed rfl
  · exact (Serves.refl _ rfl).observed rfl

theorem accept_serves {ok : Bool} (hev : v.read = ev) :
    Serves now ev .accept v (accept v ok) := by
  subst hev
  cases ok with
  | false => exact .refl v rfl
  | true => exact .call rfl

theorem connectEnd_serves {error connected : Bool} (hev : v.write = ev) :
    Serves now ev .connect v (connectEnd v error connected) := by
  subst hev
  rw [connectEnd]
  split
  · exact .refl v rfl
  · have h : Serves now v.write .connect { v with win := false } (View.call { v with win := false }
        v.write .connect (if error then 1 else 0) (.connected error)) := .call rfl
    exact h.after (.refl _) (.inl rfl)

theorem connectLoop_serves {limit : Nat} {error : Bool} (hev : v.write = ev) :
    Serves now ev .connect v (connectLoop v limit error) := by
  cases limit with
  | zero => exact connectEnd_serves hev
  | succ limit => exact .refl v rfl

theorem connect_serves {limit : Nat} {error : Bool} {r : ConnectResult} (hev : v.write = ev) :
    Serves now ev .connect v (connect v limit error r) := by
  cases r with
  | ok | again => exact connectEnd_serves hev
  | intr => exact connectLoop_serves hev
  | isconn | refused => exact connectEnd_serves hev
  | other => exact connectLoop_serves hev

theorem startConnect_serves : Serves now ev .connect v (_connect v) :=
  (Serves.refl _ rfl).observed rfl

/-- What comes of a call of `connect`. -/
inductive Connecting (v : View) : Outcome → Prop
  | waits : Connecting v (v, [])
  | again (limit : Nat) (error : Bool) : Connecting v (v, [.connect limit error])
  | calls (error : Bool) : Connecting v
      ({ v with win := false }.call v.write .connect (if error then 1 else 0) (.connected error))

theorem connectEnd_cases (v : View) (error connected : Bool) :
    Connecting v (connectEnd v error connected) := by
  rw [connectEnd]
  split
  · exact .waits
  · exact .calls error

theorem connectLoop_cases (v : View) (limit : Nat) (error : Bool) :
    Connecting v (connectLoop v limit error) := by
  cases limit with
  | zero => exact connectEnd_cases v error false
  | succ limit => exact .again limit error

theorem connect_cases (v : View) (limit : Nat) (error : Bool) (r : ConnectResult) :
    Connecting v (connect v limit error r) := by
  cases r with
  | ok => exact connectEnd_cases v error false
  | again => exact connectEnd_cases v false false
  | intr => exact connectLoop_cases v limit error
  | isconn => exact connectEnd_cases v false true
  | refused => exact connectEnd_cases v true false
  | other => exact connectLoop_cases v limit true

/-! ### The body of the loop -/

theorem timedout_eq {e : Ev} (he : v.events[i]? = some e) (hty : e.type ≠ .accept) :
    _timedout v i =
      ((v.observe (.ran .timedout)).observe (.called i e.type (-1)), [.timedout]) := by
  have he' : (v.observe (.ran .timedout)).events[i]? = some e := he
  simp only [_timedout, he', if_neg hty]
  rfl

/-- The first half of the body, with the tests that lead to its cases. -/
inductive FirstHalf (now t : Int) (fno : Nat) (v : View) : Outcome → Prop
  | skip : FirstHalf now t fno v (v, [.loop fno v.write])
  | read : FirstHalf now t fno v ((_read now v).1, (_read now v).2 ++ [.loop fno v.write])
  | accept : FirstHalf now t fno v ((_accept v).1, (_accept v).2 ++ [.loop fno v.write])
  | timedout (i : Nat) (e : Ev) (hread : v.read = some i) (he : v.events[i]? = some e)
      (hrin : v.rin = true) (hexp : e.expired t = true) : FirstHalf now t fno v (_timedout v i)

theorem firstHalf_cases (now t : Int) (fno : Nat) (v : View) :
    FirstHalf now t fno v (dispatch now t fno v) := by
  rw [dispatch]
  split
  · exact .skip
  next i e hread =>
  obtain ⟨j, hj, hmap⟩ := Option.bind_eq_some_iff.mp hread
  obtain ⟨e', he, heq⟩ := Option.map_eq_some_iff.mp hmap
  cases heq
  split
  · split
    · exact .read
    · exact .accept
    · exact .skip
    · exact .skip
  split
  · next hcond =>
    obtain ⟨hrin, hexp⟩ := (Bool.and_eq_true _ _).mp hcond
    exact .timedout i e hj he hrin hexp
  · exact .skip

/-- The second half, for the event that the loop has taken. -/
inductive SecondHalf (now t : Int) (v : View) (win wout : Bool) (wev : Option Nat) :
    Outcome → Prop
  | skip : SecondHalf now t v win wout wev (v, [])
  | write (i : Nat) (e : Ev) (hwev : wev = some i) (he : v.events[i]? = some e)
      (hty : e.type = .write) (hout : wout = true) :
      SecondHalf now t v win wout wev (_write now v)
  | connect (i : Nat) (e : Ev) (hwev : wev = some i) (he : v.events[i]? = some e)
      (hty : e.type = .connect) (hout : wout = true) :
      SecondHalf now t v win wout wev (_connect v)
  | timedout (i : Nat) (e : Ev) (hwev : wev = some i) (he : v.events[i]? = some e)
      (hwin : win = true) (hout : wout = false) (hexp : e.expired t = true) :
      SecondHalf now t v win wout wev (_timedout v i)

theorem secondHalf_cases (now t : Int) (v : View) (win wout : Bool) (wev : Option Nat) :
    SecondHalf now t v win wout wev (dispatchWrite now t v win wout wev) := by
  rw [dispatchWrite]
  split
  · exact .skip
  next i e hwev =>
  obtain ⟨j, hj, hmap⟩ := Option.bind_eq_some_iff.mp hwev
  obtain ⟨e', he, heq⟩ := Option.map_eq_some_iff.mp hmap
  cases heq
  split
  · next hout =>
    split
    · next hty => exact .write i e hj he hty hout
    · next hty => exact .connect i e hj he hty hout
    · exact .skip
    · exact .skip
  next hout =>
  split
  · next hcond =>
    obtain ⟨hwin, hexp⟩ := (Bool.and_eq_true _ _).mp hcond
    exact .timedout i e hj he hwin (eq_false_of_ne_true hout) hexp
  · exact .skip

/-! ### The code after a callback, and the program's calls -/

/-- The code after a callback of the frame `f`, by the callback that it calls. -/
inductive Resumed (now : Int) (v : View) (f : Frame) : Outcome → Prop
  | plain {v' : View} (ht : Extends (·.isCalled = false) v.trace v'.trace) :
      Resumed now v f (v', [])
  | reader {o : Outcome} (h : Serves now v.read .read v o) : Resumed now v f o
  | accept {o : Outcome} (h : Serves now v.read .accept v o) : Resumed now v f o
  | switch (hf : f = .readData 0 ∧ v.rin = true ∨ f = .readError 0) (hopen : v.closed = false)
      (hrout : v.rout = true) (hw : wantsWriter v.wbuf = true) :
      Resumed now v f (ngxeReaderStopWriterStart now { v with wind := 0, woff := 0 })

theorem close_calls (v : View) : Extends (·.isCalled = false) v.trace (ngxeClose v).trace := by
  rw [ngxeClose]
  split
  · exact .refl _
  · exact .snoc rfl

theorem finishRead_resumed {error : Int}
    (hf : error = 0 → f = .readData 0 ∧ v.rin = true ∨ f = .readError 0) :
    Resumed now v f (finishRead now v error) := by
  rw [finishRead]
  split
  · exact .plain (.refl _)
  next hopen =>
  split
  · exact .plain (close_calls v)
  next herr =>
  split
  · next hcond =>
    obtain ⟨hrout, hw⟩ := (Bool.and_eq_true _ _).mp hcond
    exact .switch (hf (not_not.mp herr)) (eq_false_of_ne_true hopen) hrout hw
  · exact .plain (.refl _)

theorem resumed_cases (ho : afterCallback now v f = some o) : Resumed now v f o := by
  cases f with
  | readData error =>
    cases ho
    rw [afterData]
    split
    · exact .plain (.refl _)
    next hcond =>
    have hrin : v.rin = true := by simp_all
    split
    · exact .reader (.call rfl)
    · next herr =>
      obtain rfl : error = 0 := not_not.mp herr
      exact finishRead_resumed fun _ => .inl ⟨rfl, hrin⟩
  | readError error =>
    cases ho
    exact finishRead_resumed fun herr => .inr (herr ▸ rfl)
  | writeDone error =>
    cases ho
    rw [afterWrite]
    split
    · exact .plain (.refl _)
    split
    · exact .plain (close_calls v)
    · exact .plain (.refl _)
  | timedout =>
    cases ho
    exact .plain (close_calls v)
  | accepted =>
    cases ho
    exact .accept acceptLoop_serves
  | connected error =>
    cases ho
    rw [afterConnect]
    split
    · exact .plain (.refl _)
    split
    · exact .plain (close_calls v)
    · exact .plain (.refl _)
  | _ => cases ho

/-- The program starts the writer of the connection. -/
def Op.startsWriter : Op → Bool
  | .writerStart _ | .readerStopWriterStart | .writerBufferSet _ => true
  | _ => false

/-- A call of the program runs `_write`, for the event of the writer or for a new one, or calls
    nothing. -/
inductive Applied (now : Int) (v : View) (op : Op) : Outcome → Prop
  | plain {v' : View} (ht : Extends (·.isCalled = false) v.trace v'.trace) :
      Applied now v op (v', [])
  | writes {v' : View} (ht : Extends (·.isCalled = false) v.trace v'.trace)
      (hw : op.startsWriter = true ∧ v'.write = v.write ∨ v'.write = some v.events.length)
      (hon : v'.win = true ∧ v'.wout = true) :
      Applied now v op (_write now v')

theorem applied_cases (now : Int) (v : View) (op : Op) : Applied now v op (applyOp now v op) := by
  cases op with
  | reader start timeout =>
    cases start with
    | true | false => exact .plain (.refl _)
  | readerStart timeout | readerStop => exact .plain (.refl _)
  | readerStopWriterStart => exact .writes (.refl _) (.inl ⟨rfl, rfl⟩) ⟨rfl, rfl⟩
  | readerTimeout timeout => exact .plain (.refl _)
  | writer start timeout buf =>
    cases start with
    | true => exact .writes (.snoc rfl) (.inr rfl) ⟨rfl, rfl⟩
    | false => exact .plain (.snoc rfl)
  | writerStart timeout => exact .writes (.refl _) (.inl ⟨rfl, rfl⟩) ⟨rfl, rfl⟩
  | writerStop | writerStopReaderStart | writerTimeout timeout => exact .plain (.refl _)
  | writerBufferSet data => exact .writes (.snoc rfl) (.inl ⟨rfl, rfl⟩) ⟨rfl, rfl⟩
  | close => exact .plain (close_calls v)
  | setReadBuffer b => exact .plain (.refl _)
  | setWriteBuffer sv =>
    rw [applyOp]
    split
    · exact .plain (.snoc rfl)
    · exact .plain (.refl _)
  | setMinLen n => exact .plain (.refl _)

/-! ### What only the program changes -/

/-- `CEV_TYPE` and `CEV_TIMEOUT`. -/
def Ev.fixed (e : Ev) : EvType × Int := (e.type, e.timeout)

theorem stamp_fixed (events : List Ev) :
    (stamp now ev events).map Ev.fixed = events.map Ev.fixed := by
  cases ev with
  | none => rfl
  | some i =>
    apply List.ext_getElem?
    intro j
    rw [stamp, List.getElem?_map, List.getElem?_map, List.getElem?_modify]
    by_cases hj : i = j
    · simp only [hj, if_true]
      cases events[j]? <;> rfl
    · simp [hj]

/-- The types and timeouts of the events are as they were, and so are the events of the two
    sides, if the connection was not closed. -/
structure Kept (v v' : View) : Prop where
  fixed : v'.events.map Ev.fixed = v.events.map Ev.fixed
  sides : v'.read = v.read ∧ v'.write = v.write ∨
    v'.closed = true ∧ v'.read = none ∧ v'.write = none

theorem Kept.of_eq (he : v'.events = v.events) (hr : v'.read = v.read) (hw : v'.write = v.write) :
    Kept v v' := ⟨by rw [he], .inl ⟨hr, hw⟩⟩

theorem Kept.refl (v : View) : Kept v v := .of_eq rfl rfl rfl

theorem Serves.kept (h : Serves now ev args v o) (hr : o.1.read = v.read)
    (hw : o.1.write = v.write) : Kept v o.1 := by
  refine ⟨?_, .inl ⟨hr, hw⟩⟩
  rcases h.events with he | he
  · rw [he]
  · rw [he, stamp_fixed]

/-- Code that begins after a change of other fields. -/
theorem Kept.after (h : Kept v v') (he : v.events.map Ev.fixed = v₀.events.map Ev.fixed)
    (hr : v.read = v₀.read) (hw : v.write = v₀.write) : Kept v₀ v' := by
  refine ⟨h.fixed.trans he, ?_⟩
  rw [← hr, ← hw]
  exact h.sides

theorem close_kept (v : View) : Kept v (ngxeClose v) := by
  rw [ngxeClose]
  split
  · exact .refl v
  · exact ⟨rfl, .inr ⟨rfl, rfl, rfl⟩⟩

theorem write_kept : Kept v (_write now v).1 :=
  (write_serves rfl).kept write_piece.sides.read write_piece.sides.write

theorem acceptLoop_kept : Kept v (_accept v).1 := by
  rw [_accept]
  split
  · exact .of_eq rfl rfl rfl
  · exact .of_eq rfl rfl rfl

theorem TimedOut.kept (h : TimedOut v o) : Kept v o.1 := by
  cases h with
  | close => exact (close_kept _).after rfl rfl rfl
  | call ev args | crash => exact .of_eq rfl rfl rfl

theorem Dispatched.kept {fno : Nat} (h : Dispatched now fno v o) : Kept v o.1 := by
  cases h with
  | skip => exact .refl v
  | read hread => exact (read_serves rfl).kept read_piece.sides.read read_piece.sides.write
  | accept => exact acceptLoop_kept
  | timedout h => exact h.kept

theorem DispatchedWrite.kept {wout : Bool} (h : DispatchedWrite now v wout o) : Kept v o.1 := by
  cases h with
  | skip => exact .refl v
  | write hout => exact write_kept
  | connect => exact .of_eq rfl rfl rfl
  | timedout h => exact h.kept

theorem finishRead_kept {error : Int} : Kept v (finishRead now v error).1 := by
  rw [finishRead]
  split
  · exact .refl v
  split
  · exact close_kept v
  split
  · exact write_kept.after (stamp_fixed _) rfl rfl
  · exact .refl v

theorem afterCallback_kept (ho : afterCallback now v f = some o) : Kept v o.1 := by
  cases f with
  | readData error =>
    cases ho
    rw [afterData]
    split
    · exact .refl v
    split
    · cases hread : v.read with
      | none => exact .refl v
      | some ev => exact .of_eq rfl rfl rfl
    · exact finishRead_kept
  | readError error =>
    cases ho
    exact finishRead_kept
  | writeDone error =>
    cases ho
    rw [afterWrite]
    split
    · exact .refl v
    split
    · exact close_kept v
    · exact ⟨stamp_fixed _, .inl ⟨rfl, rfl⟩⟩
  | timedout =>
    cases ho
    exact close_kept v
  | accepted =>
    cases ho
    exact acceptLoop_kept
  | connected error =>
    cases ho
    rw [afterConnect]
    split
    · exact .refl v
    split
    · exact close_kept v
    · exact .refl v
  | _ => cases ho

theorem connect_kept {limit : Nat} {error : Bool} {r : ConnectResult} :
    Kept v (connect v limit error r).1 := by
  have hs : (connect v limit error r).1.read = v.read ∧
      (connect v limit error r).1.write = v.write := by
    rcases @connect_piece v limit error r with hp | hp
    · exact ⟨hp.sides.read, hp.sides.write⟩
    · exact ⟨hp.sides.read, hp.sides.write⟩
  have h : Serves 0 v.write .connect v (connect v limit error r) := connect_serves rfl
  exact h.kept hs.1 hs.2

/-- Nothing but the program's calls changes the events. -/
theorem step_kept {i : Input} (hs : Step s i s') (hi : ∀ o, i ≠ .op o) : Kept s.v s'.v := by
  cases hs with
  | tick n => exact .refl _
  | select r w hstk => exact .of_eq rfl rfl rfl
  | dispatch hstk hopen => exact (dispatch_cases ..).kept
  | next hstk => exact (dispatchWrite_cases ..).kept
  | sysread r hstk hr =>
    exact (sysread_serves rfl).kept sysread_piece.sides.read sysread_piece.sides.write
  | syswrite r hstk hr =>
    exact (syswrite_serves rfl).kept syswrite_piece.sides.read syswrite_piece.sides.write
  | accept ok hstk =>
    have h : Serves s.now s.v.read .accept s.v (accept s.v ok) := accept_serves rfl
    exact h.kept accept_piece.sides.read accept_piece.sides.write
  | connect r hstk => exact connect_kept
  | ret hstk ho => exact afterCallback_kept ho
  | enter hstk | leave hstk => exact .refl _
  | op o hstk hf hopen => exact absurd rfl (hi o)

/-! ### The types of the events -/

/-- An event of `CN_READ`. -/
def EvType.reads : EvType → Bool
  | .read | .accept => true
  | .write | .connect => false

/-- An event of `CN_WRITE`. -/
def EvType.writes : EvType → Bool
  | .write | .connect => true
  | .read | .accept => false

theorem EvType.writes_eq (ty : EvType) : ty.writes = !ty.reads := by cases ty <;> rfl

/-- The connection has an event `i` whose type meets `p`. -/
def View.Holds (v : View) (p : EvType → Bool) (i : Nat) : Prop :=
  ((v.events.map Ev.type)[i]?).any p = true

theorem View.Holds.exists {p : EvType → Bool} (h : v.Holds p i) :
    ∃ e, v.events[i]? = some e ∧ p e.type = true := by
  rw [View.Holds, List.getElem?_map, Option.any_map] at h
  exact (Option.any_eq_true _ _).mp h

theorem View.Holds.lt {p : EvType → Bool} (h : v.Holds p i) : i < v.events.length := by
  obtain ⟨e, he, _⟩ := h.exists
  exact (List.getElem?_eq_some_iff.mp he).1

theorem View.Holds.mono {p q : EvType → Bool} (h : v.Holds p i)
    (ht : Extends (q · = true) (v.events.map Ev.type) (v'.events.map Ev.type)) :
    v'.Holds p i := by
  obtain ⟨k, hk, _⟩ := ht
  have hlt : i < (v.events.map Ev.type).length := by
    rw [List.length_map]
    exact h.lt
  rw [View.Holds, hk, List.getElem?_append_left hlt]
  exact h

theorem View.Holds.last {p : EvType → Bool} {types : List EvType} {ty : EvType}
    (ht : v.events.map Ev.type = types ++ [ty]) (hp : p ty = true) : v.Holds p types.length := by
  rw [View.Holds, ht, List.getElem?_concat_length]
  exact hp

theorem types_of_fixed {events events' : List Ev} (h : events'.map Ev.fixed = events.map Ev.fixed) :
    events'.map Ev.type = events.map Ev.type := by
  have h' := congrArg (List.map Prod.fst) h
  rw [List.map_map, List.map_map] at h'
  exact h'

theorem stamp_types (events : List Ev) :
    (stamp now ev events).map Ev.type = events.map Ev.type := types_of_fixed (stamp_fixed events)

theorem limit_types (timeout : Option Int) (events : List Ev) :
    (limit timeout ev events).map Ev.type = events.map Ev.type := by
  rw [limit.eq_def]
  split
  · next i T =>
    apply List.ext_getElem?
    intro j
    rw [List.getElem?_map, List.getElem?_map, List.getElem?_modify]
    by_cases hj : i = j
    · simp only [hj, if_true]
      cases events[j]? <;> rfl
    · simp [hj]
  · rfl

theorem limit_none (events : List Ev) : limit none ev events = events := by
  cases ev with
  | none | some i => rfl

/-- An event that the program creates for a connection that it has. -/
def EvType.created : EvType → Bool
  | .read | .write => true
  | .accept | .connect => false

/-- What code does to the events of the two sides: it takes a side's event away, or puts a new
    one there. -/
structure Sided (v v' : View) : Prop where
  types : Extends (·.created = true) (v.events.map Ev.type) (v'.events.map Ev.type)
  read : ∀ i, v'.read = some i →
    v.read = some i ∨ v.events.length ≤ i ∧ v'.Holds EvType.reads i
  write : ∀ i, v'.write = some i →
    v.write = some i ∨ v.events.length ≤ i ∧ v'.Holds EvType.writes i

theorem Sided.length (h : Sided v v') : v.events.length ≤ v'.events.length := by
  obtain ⟨k, hk, _⟩ := h.types
  have hlen := congrArg List.length hk
  rw [List.length_append, List.length_map, List.length_map] at hlen
  omega

theorem Sided.of_types (ht : v'.events.map Ev.type = v.events.map Ev.type)
    (hr : v'.read = v.read) (hw : v'.write = v.write) : Sided v v' where
  types := ht ▸ .refl _
  read := fun _ hi => .inl (hr ▸ hi)
  write := fun _ hi => .inl (hw ▸ hi)

theorem Kept.sided (h : Kept v v') : Sided v v' := by
  have ht := types_of_fixed h.fixed
  rcases h.sides with ⟨hr, hw⟩ | ⟨-, hr, hw⟩
  · exact .of_types ht hr hw
  · refine ⟨ht ▸ .refl _, fun i hi => ?_, fun i hi => ?_⟩
    · cases hr.symm.trans hi
    · cases hw.symm.trans hi

theorem Sided.trans {v'' : View} (h : Sided v v') (h' : Sided v' v'') : Sided v v'' := by
  refine ⟨h.types.trans h'.types, fun i hi => ?_, fun i hi => ?_⟩
  · rcases h'.read i hi with hi | ⟨hle, hi⟩
    · exact (h.read i hi).imp_right fun hh => ⟨hh.1, hh.2.mono h'.types⟩
    · exact .inr ⟨Nat.le_trans h.length hle, hi⟩
  · rcases h'.write i hi with hi | ⟨hle, hi⟩
    · exact (h.write i hi).imp_right fun hh => ⟨hh.1, hh.2.mono h'.types⟩
    · exact .inr ⟨Nat.le_trans h.length hle, hi⟩

theorem createReader_sided {timeout : Int} : Sided v (createReader now v timeout) := by
  have ht : (createReader now v timeout).events.map Ev.type = v.events.map Ev.type ++ [.read] := by
    rw [createReader, List.map_append]
    rfl
  refine ⟨ht ▸ .snoc rfl, fun i hi => .inr ?_, fun i hi => .inl hi⟩
  cases hi
  refine ⟨Nat.le_refl _, ?_⟩
  have hlast : (createReader now v timeout).Holds EvType.reads _ := View.Holds.last ht rfl
  rwa [List.length_map] at hlast

theorem createWriter_sided {timeout : Int} {buf : Sv} :
    Sided v (createWriter now v timeout buf) := by
  have ht : (createWriter now v timeout buf).events.map Ev.type =
      v.events.map Ev.type ++ [.write] := by
    rw [createWriter, List.map_append]
    rfl
  refine ⟨ht ▸ .snoc rfl, fun i hi => .inl hi, fun i hi => .inr ?_⟩
  cases hi
  refine ⟨Nat.le_refl _, ?_⟩
  have hlast : (createWriter now v timeout buf).Holds EvType.writes _ := View.Holds.last ht rfl
  rwa [List.length_map] at hlast

theorem readerStart_sided {timeout : Option Int} : Sided v (ngxeReaderStart now v timeout) :=
  .of_types ((stamp_types _).trans (limit_types _ _)) rfl rfl

theorem writerStart_sided {timeout : Option Int} : Sided v (ngxeWriterStart now v timeout).1 := by
  have h : Sided v
      (({ v with win := true, wout := true }.setTimeout v.write timeout).touch now v.write) :=
    .of_types ((stamp_types _).trans (limit_types _ _)) rfl rfl
  exact h.trans write_kept.sided

theorem applyOp_sided {op : Op} : Sided v (applyOp now v op).1 := by
  cases op with
  | reader start timeout =>
    cases start with
    | true => exact createReader_sided.trans readerStart_sided
    | false => exact createReader_sided
  | readerStart timeout => exact readerStart_sided
  | readerStop => exact .of_types rfl rfl rfl
  | readerStopWriterStart =>
    have h : Sided v ({ v with rin := false, rout := false, win := true, wout := true }.touch now
        v.write) := .of_types (stamp_types _) rfl rfl
    exact h.trans write_kept.sided
  | readerTimeout timeout => exact .of_types (limit_types _ _) rfl rfl
  | writer start timeout buf =>
    cases start with
    | true => exact createWriter_sided.trans writerStart_sided
    | false => exact createWriter_sided
  | writerStart timeout => exact writerStart_sided
  | writerStop => exact .of_types rfl rfl rfl
  | writerStopReaderStart => exact .of_types (stamp_types _) rfl rfl
  | writerTimeout timeout => exact .of_types (limit_types _ _) rfl rfl
  | writerBufferSet data =>
    have h : Sided v (v.load data) := .of_types rfl rfl rfl
    exact h.trans writerStart_sided
  | close => exact (close_kept v).sided
  | setReadBuffer b => exact .of_types rfl rfl rfl
  | setWriteBuffer sv =>
    rw [applyOp]
    split
    · exact .of_types rfl rfl rfl
    · exact .of_types rfl rfl rfl
  | setMinLen n => exact .of_types rfl rfl rfl

theorem step_sided {i : Input} (hs : Step s i s') : Sided s.v s'.v := by
  by_cases hi : ∀ o, i ≠ .op o
  · exact (step_kept hs hi).sided
  · cases hs with
    | op o hstk hf hopen => exact applyOp_sided
    | _ => exact absurd (fun o he => by cases he) hi

/-! ### The frames of the loop -/

theorem not_loop_of_frames {fs : List Frame} {fno : Nat} {wev : Option Nat} (h : FramesOk fs) :
    .loop fno wev ∉ fs := by
  intro hin
  match fs, h with
  | [f], hf =>
    cases List.mem_singleton.mp hin
    cases hf

/-- The loop leaves its frame, with the event that it has taken, when it comes to the
    connection. -/
theorem loop_mem_step {i : Input} {fno : Nat} {wev : Option Nat} (hs : Step s i s')
    (hin : .loop fno wev ∈ s'.stack) :
    .loop fno wev ∈ s.stack ∨ s.stack = [] ∧ i = .dispatch ∧ wev = s.v.write := by
  have hgo : ∀ {o : Outcome} {g : Frame} {rest : List Frame}, FramesOk o.2 →
      s.stack = g :: rest → .loop fno wev ∈ o.2 ++ rest → .loop fno wev ∈ s.stack := by
    intro o g rest ho hstk hin
    rw [hstk]
    rcases List.mem_append.mp hin with hin | hin
    · exact absurd hin (not_loop_of_frames ho)
    · exact List.mem_cons_of_mem g hin
  cases hs with
  | tick n | select r w hstk => exact .inl hin
  | dispatch hstk hopen =>
    have hin' : .loop fno wev ∈ (dispatch s.now s.t (s.v.fileno.getD 0) s.v).2 ++ [] := hin
    rw [List.append_nil] at hin'
    rcases (dispatch_cases s.now s.t (s.v.fileno.getD 0) s.v).frames with hf | ⟨fs, hf, he⟩
    · exact absurd hin' (not_loop_of_frames hf)
    · rw [he] at hin'
      rcases List.mem_append.mp hin' with hin' | hin'
      · exact absurd hin' (not_loop_of_frames hf)
      · cases List.mem_singleton.mp hin'
        exact .inr ⟨hstk, rfl, rfl⟩
  | next hstk => exact .inl (hgo (dispatchWrite_cases ..).frames hstk hin)
  | sysread r hstk hr => exact .inl (hgo sysread_piece.frames hstk hin)
  | syswrite r hstk hr => exact .inl (hgo syswrite_piece.frames hstk hin)
  | accept ok hstk => exact .inl (hgo accept_piece.frames hstk hin)
  | connect r hstk => exact .inl (hgo connect_frames hstk hin)
  | ret hstk ho => exact .inl (hgo (afterCallback_cases ho).frames hstk hin)
  | enter hstk =>
    cases List.mem_singleton.mp hin
  | leave hstk =>
    rw [hstk]
    exact .inl (List.mem_cons_of_mem _ hin)
  | op o hstk hf hopen =>
    rcases List.mem_append.mp hin with hin | hin
    · exact absurd hin (not_loop_of_frames applyOp_frames)
    · exact .inl hin

/-- The events of the two sides, and those that the loop has taken, are of their types. -/
structure EventsOk (s : Sys) : Prop where
  read : ∀ i, s.v.read = some i → s.v.Holds EvType.reads i
  write : ∀ i, s.v.write = some i → s.v.Holds EvType.writes i
  loop : ∀ fno i, .loop fno (some i) ∈ s.stack → s.v.Holds EvType.writes i

/-- The two sides have events of their own. -/
theorem EventsOk.ne (h : EventsOk s) (hr : s.v.read = some i) : s.v.write ≠ some i := by
  intro hw
  obtain ⟨e, he, hreads⟩ := (h.read i hr).exists
  obtain ⟨e', he', hwrites⟩ := (h.write i hw).exists
  cases he.symm.trans he'
  rw [EvType.writes_eq, hreads] at hwrites
  cases hwrites

theorem eventsOk_step {i : Input} (h : EventsOk s) (hs : Step s i s') : EventsOk s' := by
  have hsided := step_sided hs
  refine ⟨fun j hj => ?_, fun j hj => ?_, fun fno j hj => ?_⟩
  · rcases hsided.read j hj with hj | ⟨_, hj⟩
    · exact (h.read j hj).mono hsided.types
    · exact hj
  · rcases hsided.write j hj with hj | ⟨_, hj⟩
    · exact (h.write j hj).mono hsided.types
    · exact hj
  · rcases loop_mem_step hs hj with hj | ⟨_, _, hj⟩
    · exact (h.loop fno j hj).mono hsided.types
    · exact (h.write j hj.symm).mono hsided.types

theorem eventsOk_initial (h : Initial s) : EventsOk s := by
  cases h with
  | accepted now t fileno => exact ⟨nofun, nofun, by simp⟩
  | server now t fileno =>
    refine ⟨fun i hi => ?_, nofun, by simp⟩
    cases hi
    rfl
  | client now t fileno timeout =>
    refine ⟨nofun, fun i hi => ?_, by simp [ngxeClient, _connect, connectLoop]⟩
    cases hi
    rfl

end NginxEngine.PP
