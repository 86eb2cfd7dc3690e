import NginxEngine.XS.Segments

/-!
# Half duplex

A connection with a reader and a writer whose callbacks only assign plain strings to
`$_[2]` and `$_[3]` is driven by the automatic switch alone. Whenever control is back
in the event loop it is closed, or reading with an empty write buffer, or writing a
buffer that is not empty, and the timer of the active side is the only one set.

## Main definitions

- `Conn.Reading`, `Conn.Writing` — the two states of an open connection in the loop
- `Started` — reader started, writer created with an empty string
- `PlainCallbacks` — what the callbacks may do
- `Duplex` — the invariant, by the frame on top

## Main results

- `half_duplex` — the connection is closed, reading or writing
- `started_of_reader_writer`, `started_of_writer_reader` — the calls that start it
-/

namespace NginxEngine.XS

variable {cfg : Config} {ok : Bool} {c c' : Conn} {cb : Nat} {o : Outcome} {s t : Sys}
  {rest stk : List Frame} {rt wt : Int} {b : Bytes}

/-- Only the reader is active. -/
structure Conn.Reading (rt : Int) (c : Conn) : Prop where
  read : c.read.handler = .reader
  write : c.write.handler = .dummy
  buffer : c.writerBuffer = some (.str [])
  readTimer : c.read.timerSet = true ↔ rt ≠ 0
  writeTimer : c.write.timerSet = false

/-- Only the writer is active. -/
structure Conn.Writing (wt : Int) (c : Conn) : Prop where
  read : c.read.handler = .dummy
  write : c.write.handler = .writer
  buffer : ∃ b, c.writerBuffer = some (.str b) ∧ b ≠ []
  writeTimer : c.write.timerSet = true ↔ wt ≠ 0
  readTimer : c.read.timerSet = false

/-- In the event loop the connection is closed or exactly one side is active. -/
def HalfDuplex (rt wt : Int) (s : Sys) : Prop :=
  s.stack = [] → s.c.destroyed = true ∨ s.c.Reading rt ∨ s.c.Writing wt

/-- Perl code other than a callback of the reader or the writer. -/
def Frame.isSetUp : Frame → Bool
  | .outside | .inCallback _ .connected => true
  | _ => false

/-- A reader and a writer, with their timeouts. -/
structure Conn.Both (rt wt : Int) (c : Conn) : Prop where
  opened : c.destroyed = false
  reader : c.hasReader = true
  writer : c.writerCallback.isSome = true
  readerTimeout : c.readerTimeout = rt
  writerTimeout : c.writerTimeout = wt
  readTimedout : c.read.timedout = false
  writeTimedout : c.write.timedout = false

/-- The reader has been started and the writer created with an empty string; the Perl
    code that did it may still be running. -/
structure Started (rt wt : Int) (s : Sys) : Prop where
  both : s.c.Both rt wt
  reading : s.c.Reading rt
  setUp : ∀ f ∈ s.stack, f.isSetUp = true

/-- The program makes no call on the connection, and the callbacks of the reader and
    the writer only assign plain strings to `$_[2]` and `$_[3]`. -/
def PlainCallbacks (s : Sys) : Input → Prop
  | .op (.setReadBuffer _) _ | .op (.setWriteBuffer (.str _)) _ =>
    match s.stack with
    | f :: _ => f.isSetUp = false
    | [] => False
  | .op _ _ => False
  | _ => True

instance {i : Input} : Decidable (PlainCallbacks s i) := by
  unfold PlainCallbacks
  split
  · split <;> infer_instance
  · split <;> infer_instance
  · infer_instance
  · infer_instance

/-! ### The invariant -/

/-- The reader's handler is running or may run. -/
structure Conn.ReadSide (rt : Int) (c : Conn) : Prop where
  read : c.read.handler = .reader
  write : c.write.handler = .dummy
  readTimer : c.read.timerSet = true → rt ≠ 0
  writeTimer : c.write.timerSet = false

/-- The writer's handler is running or may run. -/
structure Conn.WriteSide (wt : Int) (c : Conn) : Prop where
  read : c.read.handler = .dummy
  write : c.write.handler = .writer
  writeTimer : c.write.timerSet = true → wt ≠ 0
  readTimer : c.read.timerSet = false

/-- What holds of the connection, by the frame on top. -/
inductive Duplex (rt wt : Int) : Sys → Prop
  | closed {c : Conn} {stk : List Frame} (hd : c.destroyed = true)
      (hs : ∀ f ∈ stk, f.isSetUp = true) : Duplex rt wt ⟨c, stk⟩
  | failing {c : Conn} {cb : Nat} : Duplex rt wt ⟨c, [.inCallback cb .failed]⟩
  | loop {c : Conn} {stk : List Frame} (hb : c.Both rt wt) (h : c.Reading rt ∨ c.Writing wt)
      (hs : ∀ f ∈ stk, f.isSetUp = true) : Duplex rt wt ⟨c, stk⟩
  | recv {c : Conn} {cb : Nat} (hb : c.Both rt wt) (h : c.ReadSide rt)
      (he : c.writerBuffer = some (.str [])) : Duplex rt wt ⟨c, [.recv cb]⟩
  | readerData {c : Conn} {cb : Nat} {b : Bytes} (hb : c.Both rt wt) (h : c.ReadSide rt)
      (he : c.writerBuffer = some (.str b)) :
      Duplex rt wt ⟨c, [.inCallback cb .readerData]⟩
  | send {c : Conn} {cb : Nat} {b : Bytes} (hb : c.Both rt wt) (h : c.WriteSide wt)
      (he : c.writerBuffer = some (.str b)) (hne : b ≠ []) : Duplex rt wt ⟨c, [.send .plain cb]⟩
  | writerDone {c : Conn} {cb : Nat} {b : Bytes} (hb : c.Both rt wt) (h : c.WriteSide wt)
      (he : c.writerBuffer = some (.str b)) :
      Duplex rt wt ⟨c, [.inCallback cb (.writerDone .plain)]⟩

theorem Duplex.halfDuplex (h : Duplex rt wt s) : HalfDuplex rt wt s := by
  intro hs
  cases h with
  | closed hd _ => exact .inl hd
  | loop hb h _ => exact .inr h
  | failing | recv | readerData | send | writerDone => cases hs

theorem Conn.Writing.side (h : c.Writing wt) : c.WriteSide wt :=
  ⟨h.read, h.write, h.writeTimer.mp, h.readTimer⟩

theorem Conn.ReadSide.reading (h : c.ReadSide rt) (he : c.writerBuffer = some (.str []))
    (hset : rt ≠ 0 → c.read.timerSet = true) : c.Reading rt :=
  ⟨h.read, h.write, he, ⟨h.readTimer, hset⟩, h.writeTimer⟩

theorem Conn.WriteSide.writing (h : c.WriteSide wt) (he : c.writerBuffer = some (.str b))
    (hne : b ≠ []) (hset : wt ≠ 0 → c.write.timerSet = true) : c.Writing wt :=
  ⟨h.read, h.write, ⟨b, he, hne⟩, ⟨h.writeTimer, hset⟩, h.readTimer⟩

/-- Reader code sets the timer only if there is a timeout, and does not go back to the
    loop without having set it; it is never stuck while there is a read buffer. -/
structure ReaderExit (c : Conn) (o : Outcome) : Prop where
  only : o.1.read.timerSet = true → c.read.timerSet = true ∨ c.readerTimeout ≠ 0
  armed : o.2 = [] → c.readerTimeout ≠ 0 → o.1.read.timerSet = true
  alive : c.readerBuffer.isSome = true → o.2 ≠ [.crash]

theorem timerSet_addTimer {H : Type} {ev : Event H} {timeout : Int} :
    (ev.addTimer timeout).timerSet = true ↔ ev.timerSet = true ∨ timeout ≠ 0 := by
  simp [Event.addTimer]

/-- The exit of what runs after a change of the event or the buffer. -/
theorem ReaderExit.after {c₁ : Conn} (h : ReaderExit c₁ o)
    (hset : c₁.read.timerSet = true → c.read.timerSet = true ∨ c.readerTimeout ≠ 0)
    (ht : c₁.readerTimeout = c.readerTimeout)
    (hb : c.readerBuffer.isSome = true → c₁.readerBuffer.isSome = true) : ReaderExit c o :=
  ⟨fun hs => (h.only hs).elim hset fun hr => .inr (ht ▸ hr), fun ho hr => h.armed ho (ht ▸ hr),
    fun hr => h.alive (hb hr)⟩

theorem armRead_exit : ReaderExit c (c.armRead, []) :=
  ⟨timerSet_addTimer.mp, fun _ hr => timerSet_addTimer.mpr (.inr hr), nofun⟩

theorem readCallback_exit {err : Option CbError} {site : Site} :
    ReaderExit c (ngxeCallback c cb err site) :=
  ⟨.inl, nofun, nofun⟩

theorem recvAgain_exit {svbuf : ReadBuffer} : ReaderExit c (recvAgain cfg c cb svbuf) := by
  rw [recvAgain.eq_def]
  dsimp only
  split
  · exact ⟨.inl, by simp [ngxeCallback], by simp [ngxeCallback]⟩
  · exact ⟨.inl, by simp, by simp⟩

theorem ReaderExit.handleRead {m : EventMethod} (h : c.handleRead m ok = some c')
    (he : ReaderExit c' o) : ReaderExit c o := by
  rw [handleRead_eq h] at he
  exact he.after .inl rfl id

theorem ReaderExit.armRead (he : ReaderExit c.armRead o) : ReaderExit c o :=
  he.after timerSet_addTimer.mp rfl id

theorem ReaderExit.ngxUnixRecv {m : EventMethod} {size : Nat} {err : Bool}
    (he : ReaderExit (ngxUnixRecv m c size err).1 o) : ReaderExit c o := by
  unfold XS.ngxUnixRecv at he
  split at he
  · exact he.after .inl rfl id
  · split at he
    · exact he.after .inl rfl id
    · split at he
      · exact he.after .inl rfl id
      · exact he.after .inl rfl id

theorem readerRecv_exit {err : Bool} : ReaderExit c (readerRecv cfg ok c cb err) := by
  rw [readerRecv]
  split
  · next hbuf => exact ⟨.inl, by simp, fun hb => by simp [hbuf] at hb⟩
  · next svbuf hbuf =>
    have hrecv : ∀ {o}, ReaderExit
        (ngxUnixRecv cfg.method c (svbuf.len - svbuf.cur - 1) err).1 o → ReaderExit c o :=
      fun h => h.ngxUnixRecv
    generalize ngxUnixRecv cfg.method c (svbuf.len - svbuf.cur - 1) err = p at hrecv
    obtain ⟨c₁, r⟩ := p
    cases r with
    | error | eof => exact hrecv readCallback_exit
    | again => exact hrecv armRead_exit
    | data b =>
      dsimp only
      generalize ({ svbuf with data := svbuf.data ++ b } : ReadBuffer) = svbuf'
      have hstore : ∀ {o}, ReaderExit { c₁ with readerBuffer := some svbuf' } o → ReaderExit c o :=
        fun h => hrecv (h.after .inl rfl fun _ => rfl)
      split
      · exact hstore readCallback_exit
      · next c₂ h₂ =>
        split
        · split
          · exact hstore (.handleRead h₂ (.armRead readCallback_exit))
          · next c₃ h₃ =>
            split
            · exact hstore (.handleRead h₂ (.armRead (.handleRead h₃ recvAgain_exit)))
            · exact hstore (.handleRead h₂ (.armRead (.handleRead h₃ armRead_exit)))
        · exact hstore (.handleRead h₂ (.armRead readCallback_exit))

/-- Reader code with an empty write buffer. -/
theorem Duplex.of_reader (hb : c.Both rt wt) (h : c.ReadSide rt)
    (he : c.writerBuffer = some (.str [])) (ho : ReaderOutcome cb c o) (hx : ReaderExit c o) :
    Duplex rt wt (resume o []) := by
  have hm := ho.move
  have hb' : o.1.Both rt wt := by
    refine ⟨hm.destroyed.trans hb.opened, hm.hasReader.trans hb.reader, ?_, ?_, ?_,
      hm.timedout.trans hb.readTimedout, ?_⟩
    · rw [hm.writerCallback]
      exact hb.writer
    · rw [hm.frame]
      exact hb.readerTimeout
    · rw [hm.frame]
      exact hb.writerTimeout
    · rw [hm.write]
      exact hb.writeTimedout
  have h' : o.1.ReadSide rt := by
    refine ⟨hm.handler.trans h.read, ?_, fun hs => ?_, ?_⟩
    · rw [hm.write]
      exact h.write
    · exact (hx.only hs).elim h.readTimer fun hr => hb.readerTimeout ▸ hr
    · rw [hm.write]
      exact h.writeTimer
  have he' : o.1.writerBuffer = some (.str []) := hm.writerBuffer.trans he
  have hsome : c.readerBuffer.isSome = true := by
    have hr := hb.reader
    simp only [Conn.hasReader, Bool.and_eq_true] at hr
    exact hr.2
  have halive := hx.alive hsome
  have harmed := hx.armed
  obtain ⟨c', fs⟩ := o
  cases ho.frames with
  | ret =>
    exact .loop hb' (.inl (h'.reading he' fun hr => harmed rfl (hb.readerTimeout ▸ hr))) (by simp)
  | recv => exact .recv hb' h' he'
  | data => exact .readerData hb' h' he'
  | failed => exact .failing
  | crash => exact absurd rfl halive

/-- The write event may change as long as it stays the writer's. -/
theorem Conn.Both.setWrite {w : Event WriteHandler} (hb : c.Both rt wt)
    (hto : w.timedout = c.write.timedout) : Conn.Both rt wt { c with write := w } :=
  ⟨hb.opened, hb.reader, hb.writer, hb.readerTimeout, hb.writerTimeout, hb.readTimedout,
    hto.trans hb.writeTimedout⟩

theorem Conn.WriteSide.setWrite {w : Event WriteHandler} (h : c.WriteSide wt)
    (hh : w.handler = c.write.handler) (hset : w.timerSet = true → wt ≠ 0) :
    Conn.WriteSide wt { c with write := w } :=
  ⟨h.read, hh.trans h.write, hset, h.readTimer⟩

theorem Duplex.waitWritable (hb : c.Both rt wt) (h : c.WriteSide wt)
    (he : c.writerBuffer = some (.str b)) (hne : b ≠ []) :
    Duplex rt wt (resume (waitWritable cfg ok .plain c cb) []) := by
  rw [XS.waitWritable]
  split
  · exact .failing
  · next c₁ h₁ =>
    rw [handleWrite_eq h₁]
    have hset : ∀ active, ({ c.write with active := active }.addTimer c.writerTimeout).timerSet =
        true ↔ c.write.timerSet = true ∨ wt ≠ 0 := by
      intro active
      rw [timerSet_addTimer, hb.writerTimeout]
    have hside : Conn.WriteSide wt { c with
        write := { c.write with active := c₁.write.active }.addTimer c.writerTimeout } :=
      h.setWrite rfl fun hs => ((hset _).mp hs).elim h.writeTimer id
    exact .loop (hb.setWrite rfl)
      (.inr (hside.writing he hne fun hw => (hset _).mpr (.inr hw))) (by simp)

theorem Duplex.writerHandler {ev : Event WriteHandler} (hb : c.Both rt wt) (h : c.WriteSide wt)
    (he : c.writerBuffer = some (.str b)) (hne : b ≠ []) (hto : ev.timedout = false) :
    Duplex rt wt (resume (ngxeWriterHandler c ev) []) := by
  obtain ⟨cb, hw⟩ := Option.isSome_iff_exists.mp hb.writer
  have hcur : ¬ (Sv.str b).cur = 0 := by
    simpa [Sv.cur] using hne
  rw [ngxeWriterHandler_plain hw he rfl hto, if_neg hcur]
  exact .send (hb.setWrite rfl) (h.setWrite rfl nofun) he hne

/-- `ngxe_writer_start` with both handlers away. -/
theorem Duplex.writerStart (hb : c.Both rt wt) (hr : c.read.handler = .dummy)
    (hrt : c.read.timerSet = false) (he : c.writerBuffer = some (.str b)) (hne : b ≠ []) :
    Duplex rt wt (resume (ngxeWriterStart cfg ok c) []) := by
  rw [ngxeWriterStart]
  obtain ⟨cb, hw⟩ := Option.isSome_iff_exists.mp hb.writer
  split
  · rw [hw]
    exact .failing
  · next c₁ h₁ =>
    have harm : c₁.armWrite = { c with
        write := { c.installWriter.write with active := c₁.write.active }.addTimer
          c.writerTimeout } := by
      rw [Conn.armWrite, handleWrite_eq h₁]
      rfl
    have hset : c₁.armWrite.write.timerSet = true ↔ wt ≠ 0 := by
      rw [harm, ← hb.writerTimeout]
      simp [Conn.installWriter, Event.addTimer, Event.delTimer]
    have hb₁ : c₁.armWrite.Both rt wt := by
      rw [harm]
      exact hb.setWrite rfl
    have h₁ : c₁.armWrite.WriteSide wt := by
      refine ⟨?_, ?_, hset.mp, ?_⟩
      · rw [harm]
        exact hr
      · rw [harm]
        rfl
      · rw [harm]
        exact hrt
    have he₁ : c₁.armWrite.writerBuffer = some (.str b) := by
      rw [harm]
      exact he
    split
    · exact .writerHandler hb₁ h₁ he₁ hne hb₁.writeTimedout
    · exact .loop hb₁ (.inr (h₁.writing he₁ hne hset.mpr)) (by simp)

theorem Duplex.writerSend {r : SendResult} (hb : c.Both rt wt) (h : c.WriteSide wt)
    (he : c.writerBuffer = some (.str b)) (hne : b ≠ []) :
    Duplex rt wt (resume (writerSend cfg ok .plain c cb r) []) := by
  have hq : c.request .plain = some ⟨b, b.length⟩ := by
    simp [Conn.request, he]
  rw [XS.writerSend]
  rw [hq]
  dsimp only
  cases r with
  | error | zero => exact .failing
  | again =>
    dsimp only
    have hb₀ : Conn.Both rt wt { c with
        write := { c.write with ready := false }, trace := c.trace ++ [Obs.sent []] } :=
      ⟨hb.opened, hb.reader, hb.writer, hb.readerTimeout, hb.writerTimeout, hb.readTimedout,
        hb.writeTimedout⟩
    have h₀ : Conn.WriteSide wt { c with
        write := { c.write with ready := false }, trace := c.trace ++ [Obs.sent []] } :=
      ⟨h.read, h.write, h.writeTimer, h.readTimer⟩
    have hwait : Duplex rt wt (resume (XS.waitWritable cfg ok .plain { c with
        write := { c.write with ready := false }, trace := c.trace ++ [Obs.sent []] } cb) []) :=
      .waitWritable hb₀ h₀ he hne
    unfold XS.waitWritable at hwait
    split
    · exact .failing
    · next c₁ h₁ =>
      rw [h₁] at hwait
      have hready : c₁.write.ready = false := by
        rw [handleWrite_eq h₁]
      rw [if_neg (by simp [hready])]
      exact hwait
  | accepted n =>
    dsimp only [sendAccepted]
    split
    · next hlen =>
      refine .waitWritable ⟨hb.opened, hb.reader, hb.writer, hb.readerTimeout, hb.writerTimeout,
        hb.readTimedout, hb.writeTimedout⟩ ⟨h.read, h.write, h.writeTimer, h.readTimer⟩ rfl ?_
      exact List.ne_nil_of_length_pos hlen
    · refine .writerDone ⟨hb.opened, hb.reader, hb.writer, hb.readerTimeout, hb.writerTimeout,
        hb.readTimedout, hb.writeTimedout⟩ ⟨h.read, h.write, h.writeTimer, h.readTimer⟩ rfl

theorem wantsWriter_plain (hb : c.Both rt wt) (he : c.writerBuffer = some (.str b)) :
    c.wantsWriter = true ↔ b ≠ [] := by
  simp [Conn.wantsWriter, hb.writer, he, Sv.rok, Sv.pokNonempty]

theorem moreToWrite_plain : moreToWrite .plain (.str b) = true ↔ b ≠ [] := by
  simp [moreToWrite, Sv.cur, List.length_pos_iff]

theorem eq_nil_of_moreToWrite (h : moreToWrite .plain (.str b) = false) : b = [] := by
  by_contra hne
  cases h.symm.trans (moreToWrite_plain.mpr hne)

theorem Duplex.afterReader (hb : c.Both rt wt) (h : c.ReadSide rt)
    (he : c.writerBuffer = some (.str b)) (ho : ReaderReturns cfg ok c cb o) :
    Duplex rt wt (resume o []) := by
  cases ho with
  | ret hret => exact absurd hret (by simp [hb.opened, h.read, h.write])
  | switch hsw =>
    obtain ⟨-, -, -, hwants⟩ := Conn.switchesToWriter_iff.mp hsw
    have hne : b ≠ [] := (wantsWriter_plain hb he).mp hwants
    have hstop : Conn.Both rt wt (ngxeReaderStop { c with writerOffset := 0, writerIndex := 0 }) :=
      ⟨hb.opened, hb.reader, hb.writer, hb.readerTimeout, hb.writerTimeout, hb.readTimedout,
        hb.writeTimedout⟩
    exact .writerStart hstop rfl rfl he hne
  | reads hopen hh hwants hreads =>
    have hempty : b = [] := by
      by_contra hne
      cases hwants.symm.trans ((wantsWriter_plain hb he).mpr hne)
    subst hempty
    have hout := hreads.outcome
    cases hreads with
    | fail => exact .failing
    | recv h₁ hready hsv => exact .of_reader hb h he hout (.handleRead h₁ recvAgain_exit)
    | crash h₁ hready hsv =>
      have hbuf : c.readerBuffer.isSome = true := by
        have hr := hb.reader
        simp only [Conn.hasReader, Bool.and_eq_true] at hr
        exact hr.2
      have hm : ReaderMove cb c _ := handleRead_move h₁
      rw [← hm.buffer, hsv] at hbuf
      cases hbuf
    | wait h₁ hready => exact .of_reader hb h he hout (.handleRead h₁ armRead_exit)

theorem Duplex.readerStart (hb : c.Both rt wt) (hw : c.write.handler = .dummy)
    (hwt : c.write.timerSet = false) (he : c.writerBuffer = some (.str [])) :
    Duplex rt wt (resume (ngxeReaderStart cfg ok c) []) := by
  have hb' : c.installReader.Both rt wt :=
    ⟨hb.opened, hb.reader, hb.writer, hb.readerTimeout, hb.writerTimeout, hb.readTimedout,
      hb.writeTimedout⟩
  have h' : c.installReader.ReadSide rt := ⟨rfl, hw, nofun, hwt⟩
  obtain ⟨cb, hcb⟩ := exists_readerCallback c
  refine .of_reader hb' h' he (ngxeReaderStart_outcome hcb) ?_
  rw [ngxeReaderStart]
  split
  · have hr := hb.reader
    simp only [Conn.hasReader, Bool.and_eq_true, Option.isSome_iff_exists] at hr
    obtain ⟨⟨r, hr⟩, -⟩ := hr
    rw [hr]
    exact readCallback_exit
  · next h₁ => exact .handleRead h₁ armRead_exit

theorem Duplex.afterWriter (hb : c.Both rt wt) (h : c.WriteSide wt)
    (he : c.writerBuffer = some (.str b)) (ho : WriterReturns cfg ok .plain c cb o) :
    Duplex rt wt (resume o []) := by
  have hbuf : ∀ {sv}, c.writerBuffer = some sv → sv = .str b :=
    fun hsv => Option.some.inj (hsv.symm.trans he)
  cases ho with
  | ret hret => exact absurd hret (by simp [hb.opened, h.write])
  | crash hopen hh hbad => cases (hbad _ he).1
  | more hopen hh hsv hmore =>
    obtain rfl := hbuf hsv
    have hne : b ≠ [] := moreToWrite_plain.mp hmore
    rw [continueWriter.eq_def]
    dsimp only
    split
    · exact .send hb h he hne
    · exact .waitWritable hb h he hne
  | reader hopen hh hsv hrv hmore hr =>
    obtain rfl := hbuf hsv
    obtain rfl := eq_nil_of_moreToWrite hmore
    refine .readerStart ?_ rfl rfl he
    exact ⟨hb.opened, hb.reader, hb.writer, hb.readerTimeout, hb.writerTimeout, hb.readTimedout,
      hb.writeTimedout⟩
  | rest hopen hh hsv hmore hr => cases hb.reader.symm.trans hr

/-! ### Steps -/

theorem Duplex.readEvent (hb : c.Both rt wt) (h : c.Reading rt ∨ c.Writing wt) :
    Duplex rt wt (resume (callReadHandler cfg c.takeRead) []) := by
  have hb' : c.takeRead.Both rt wt :=
    ⟨hb.opened, hb.reader, hb.writer, hb.readerTimeout, hb.writerTimeout, hb.readTimedout,
      hb.writeTimedout⟩
  rw [callReadHandler]
  rcases h with h | h
  · have hh : c.takeRead.read.handler = .reader := h.read
    have h' : c.takeRead.ReadSide rt := ⟨h.read, h.write, h.readTimer.mp, h.writeTimer⟩
    rw [hh]
    obtain ⟨cb, hcb⟩ := exists_readerCallback c
    refine .of_reader hb' h' h.buffer (ngxeReaderHandler_outcome hcb) ?_
    have hr := hb'.reader
    simp only [Conn.hasReader, Bool.and_eq_true, Option.isSome_iff_exists] at hr
    obtain ⟨⟨r, hr⟩, svbuf, hsv⟩ := hr
    rw [ngxeReaderHandler, hr, hsv]
    dsimp only
    rw [if_neg (by simp [hb'.readTimedout])]
    exact recvAgain_exit.after (fun ht => by cases ht) rfl fun _ => rfl
  · have hh : c.takeRead.read.handler = .dummy := h.read
    rw [hh]
    exact .loop hb' (.inr ⟨h.read, h.write, h.buffer, h.writeTimer, h.readTimer⟩) (by simp)

theorem Duplex.writeEvent (hb : c.Both rt wt) (h : c.Reading rt ∨ c.Writing wt) :
    Duplex rt wt (resume (callWriteHandler c.takeWrite) []) := by
  have hb' : c.takeWrite.Both rt wt := hb.setWrite rfl
  rw [callWriteHandler]
  rcases h with h | h
  · have hh : c.takeWrite.write.handler = .dummy := h.write
    rw [hh]
    exact .loop hb' (.inl ⟨h.read, h.write, h.buffer, h.readTimer, h.writeTimer⟩) (by simp)
  · have hh : c.takeWrite.write.handler = .writer := h.write
    have h' : c.takeWrite.WriteSide wt := h.side.setWrite rfl h.writeTimer.mp
    rw [hh]
    obtain ⟨b, he, hne⟩ := h.buffer
    exact .writerHandler hb' h' he hne hb'.writeTimedout

/-- The timer of the active side is the only one that can expire; its handler closes. -/
theorem Duplex.readTimer (hb : c.Both rt wt) (h : c.Reading rt ∨ c.Writing wt)
    (ht : c.read.timerSet = true) :
    Duplex rt wt (resume (callReadHandler cfg c.expireRead) []) := by
  rcases h with h | h
  · have hr := hb.reader
    simp only [Conn.hasReader, Bool.and_eq_true, Option.isSome_iff_exists] at hr
    obtain ⟨⟨r, hr⟩, svbuf, hsv⟩ := hr
    have hcall : callReadHandler cfg c.expireRead = fail c.expireRead r .timedOut := by
      simp [callReadHandler, Conn.expireRead, Event.expire, h.read, ngxeReaderHandler, hr, hsv]
    rw [hcall]
    exact .failing
  · simp [h.readTimer] at ht

theorem Duplex.writeTimer (hb : c.Both rt wt) (h : c.Reading rt ∨ c.Writing wt)
    (ht : c.write.timerSet = true) :
    Duplex rt wt (resume (callWriteHandler c.expireWrite) []) := by
  rcases h with h | h
  · simp [h.writeTimer] at ht
  · obtain ⟨w, hw⟩ := Option.isSome_iff_exists.mp hb.writer
    obtain ⟨b, he, -⟩ := h.buffer
    have hcall : callWriteHandler c.expireWrite = fail c.expireWrite w .timedOut := by
      simp [callWriteHandler, Conn.expireWrite, Event.expire, h.write, ngxeWriterHandler, hw, he]
    rw [hcall]
    exact .failing

/-- The socket is not looked at. -/
theorem Duplex.socket {unread : Bytes} {eof : Bool} {n : Nat} (h : Duplex rt wt ⟨c, stk⟩) :
    Duplex rt wt ⟨{ c with unread := unread, eof := eof, pending := n }, stk⟩ := by
  have hboth : c.Both rt wt →
      Conn.Both rt wt { c with unread := unread, eof := eof, pending := n } := fun hb =>
    ⟨hb.opened, hb.reader, hb.writer, hb.readerTimeout, hb.writerTimeout, hb.readTimedout,
      hb.writeTimedout⟩
  cases h with
  | closed hd hs => exact .closed hd hs
  | failing => exact .failing
  | loop hb h hs =>
    refine .loop (hboth hb) ?_ hs
    rcases h with h | h
    · exact .inl ⟨h.read, h.write, h.buffer, h.readTimer, h.writeTimer⟩
    · exact .inr ⟨h.read, h.write, h.buffer, h.writeTimer, h.readTimer⟩
  | recv hb h he => exact .recv (hboth hb) ⟨h.read, h.write, h.readTimer, h.writeTimer⟩ he
  | readerData hb h he =>
    exact .readerData (hboth hb) ⟨h.read, h.write, h.readTimer, h.writeTimer⟩ he
  | send hb h he hne => exact .send (hboth hb) ⟨h.read, h.write, h.writeTimer, h.readTimer⟩ he hne
  | writerDone hb h he =>
    exact .writerDone (hboth hb) ⟨h.read, h.write, h.writeTimer, h.readTimer⟩ he

/-- The callbacks assign to the read buffer, or a plain string to the write buffer. -/
theorem PlainCallbacks.assigns {op : Op} (h : PlainCallbacks s (.op op ok)) :
    (∃ rb, op = .setReadBuffer rb) ∨ ∃ b, op = .setWriteBuffer (.str b) := by
  cases op with
  | setReadBuffer rb => exact .inl ⟨rb, rfl⟩
  | setWriteBuffer sv =>
    cases sv with
    | str b => exact .inr ⟨b, rfl⟩
    | _ => exact h.elim
  | _ => exact h.elim

/-- An assignment of a plain string in a callback of the reader or the writer. -/
theorem Duplex.assign {f : Frame} {op : Op} (h : Duplex rt wt ⟨c, f :: rest⟩)
    (hf : f.isPerl = true) (hG : PlainCallbacks ⟨c, f :: rest⟩ (.op op ok)) :
    Duplex rt wt (resume (applyOp cfg ok c op) (f :: rest)) := by
  have hassign := hG.assigns
  have hcallback : f.isSetUp = false := by
    rcases hassign with ⟨rb, rfl⟩ | ⟨b, rfl⟩
    · exact hG
    · exact hG
  have hboth : ∀ (rb : ReadBuffer), c.Both rt wt →
      Conn.Both rt wt { c with readerBuffer := c.readerBuffer.map fun _ => rb } := fun rb hb =>
    ⟨hb.opened, by simpa [Conn.hasReader] using hb.reader, hb.writer, hb.readerTimeout,
      hb.writerTimeout, hb.readTimedout, hb.writeTimedout⟩
  have hboth' : ∀ sv, c.Both rt wt → (c.load sv).Both rt wt := fun sv hb =>
    ⟨hb.opened, hb.reader, hb.writer, hb.readerTimeout, hb.writerTimeout, hb.readTimedout,
      hb.writeTimedout⟩
  cases h with
  | closed hd hs => simp [hs f (by simp)] at hcallback
  | failing =>
    rcases hassign with ⟨rb, rfl⟩ | ⟨b, rfl⟩
    · exact .failing
    · exact .failing
  | loop hb h hs => simp [hs f (by simp)] at hcallback
  | recv hb h he | send hb h he hne => cases hf
  | readerData hb h he =>
    rcases hassign with ⟨rb, rfl⟩ | ⟨b, rfl⟩
    · exact .readerData (hboth rb hb) ⟨h.read, h.write, h.readTimer, h.writeTimer⟩ he
    · simp only [applyOp, he, Option.isSome_some, if_true]
      exact .readerData (hboth' _ hb) ⟨h.read, h.write, h.readTimer, h.writeTimer⟩ rfl
  | writerDone hb h he =>
    rcases hassign with ⟨rb, rfl⟩ | ⟨b, rfl⟩
    · exact .writerDone (hboth rb hb) ⟨h.read, h.write, h.writeTimer, h.readTimer⟩ he
    · simp only [applyOp, he, Option.isSome_some, if_true]
      exact .writerDone (hboth' _ hb) ⟨h.read, h.write, h.writeTimer, h.readTimer⟩ rfl

theorem Duplex.ret {site : Site} (h : Duplex rt wt ⟨c, .inCallback cb site :: rest⟩) :
    Duplex rt wt (resume (afterCallback cfg ok c cb site) rest) := by
  cases h with
  | closed hd hs =>
    have hsite := hs _ (List.mem_cons_self ..)
    cases site with
    | connected => exact .closed hd fun f hf => hs f (List.mem_cons_of_mem _ hf)
    | readerData | writerDone k | failed => cases hsite
  | loop hb h hs =>
    have hsite := hs _ (List.mem_cons_self ..)
    cases site with
    | connected =>
      have hb' : (c.release cb).Both rt wt :=
        ⟨hb.opened, hb.reader, hb.writer, hb.readerTimeout, hb.writerTimeout, hb.readTimedout,
          hb.writeTimedout⟩
      refine .loop hb' ?_ fun f hf => hs f (List.mem_cons_of_mem _ hf)
      rcases h with h | h
      · exact .inl ⟨h.read, h.write, h.buffer, h.readTimer, h.writeTimer⟩
      · exact .inr ⟨h.read, h.write, h.buffer, h.writeTimer, h.readTimer⟩
    | readerData | writerDone k | failed => cases hsite
  | failing => exact .closed (ngxeClose_destroyed _) nofun
  | readerData hb h he => exact .afterReader hb h he (afterReader_cases cfg ok _ _)
  | writerDone hb h he => exact .afterWriter hb h he (afterWriter_cases cfg ok .plain _ _)

/-- In the loop: no frame, or frames of Perl code that set the connection up. -/
theorem Duplex.loop_of_nil (h : Duplex rt wt ⟨c, []⟩) (hd : c.destroyed = false) :
    c.Both rt wt ∧ (c.Reading rt ∨ c.Writing wt) := by
  cases h with
  | closed hd' _ => simp [hd'] at hd
  | loop hb h _ => exact ⟨hb, h⟩

theorem Duplex.step {i : Input} (h : Duplex rt wt s) (hG : PlainCallbacks s i)
    (hstep : Step cfg s i t) : Duplex rt wt t := by
  cases hstep with
  | arrive b hb he | arriveEof he | hangup => exact h.socket
  | readEvent hopen hr =>
    obtain ⟨hb, h⟩ := h.loop_of_nil hopen
    exact .readEvent hb h
  | writeEvent hopen ha =>
    obtain ⟨hb, h⟩ := h.loop_of_nil hopen
    exact .writeEvent hb h
  | readTimer hopen ht =>
    obtain ⟨hb, h⟩ := h.loop_of_nil hopen
    exact .readTimer hb h ht
  | writeTimer hopen ht =>
    obtain ⟨hb, h⟩ := h.loop_of_nil hopen
    exact .writeTimer hb h ht
  | enter =>
    cases h with
    | closed hd hs => exact .closed hd (by simp [Frame.isSetUp])
    | loop hb h hs => exact .loop hb h (by simp [Frame.isSetUp])
  | leave =>
    cases h with
    | closed hd hs => exact .closed hd fun f hf => hs f (List.mem_cons_of_mem _ hf)
    | loop hb h hs => exact .loop hb h fun f hf => hs f (List.mem_cons_of_mem _ hf)
  | op o ok hf hopen => exact h.assign hf hG
  | recv err ok =>
    cases h with
    | closed hd hs | loop hb h hs => simp [Frame.isSetUp] at hs
    | recv hb h he => exact .of_reader hb h he readerRecv_outcome readerRecv_exit
  | send r ok hr =>
    cases h with
    | closed hd hs | loop hb h hs => simp [Frame.isSetUp] at hs
    | send hb h he hne => exact .writerSend hb h he hne
  | ret ok => exact h.ret

theorem Started.duplex (h : Started rt wt s) : Duplex rt wt s :=
  .loop h.both (.inl h.reading) h.setUp

/-- Along every run of a started connection whose callbacks only assign plain strings. -/
theorem duplex_of_reaches {s₀ : Sys} (h₀ : Started rt wt s₀)
    (h : (engine cfg).Reaches PlainCallbacks s₀ s) : Duplex rt wt s :=
  h.invariant h₀.duplex fun _ _ _ hs hG hstep => hs.step hG (step_cases hstep)

/-- A connection on which nothing was created yet: accepted, or a client's in its
    connect callback. -/
structure Conn.Fresh (c : Conn) : Prop where
  opened : c.destroyed = false
  read : c.read.handler = .dummy
  write : c.write.handler = .dummy
  readTimer : c.read.timerSet = false
  writeTimer : c.write.timerSet = false
  buffer : c.writerBuffer = none
  readTimedout : c.read.timedout = false
  writeTimedout : c.write.timedout = false

theorem fresh_accepted : Conn.accepted.Fresh := ⟨rfl, rfl, rfl, rfl, rfl, rfl, rfl, rfl⟩

theorem handleRead_true (m : EventMethod) (c : Conn) : ∃ c', c.handleRead m true = some c' := by
  have hev : ∃ rev, ngxHandleReadEvent m true c.read = some rev := by
    unfold ngxHandleReadEvent ngxHandleEvent
    cases m with
    | clear =>
      dsimp only
      split <;> exact ⟨_, rfl⟩
    | level greedy =>
      dsimp only
      split
      · exact ⟨_, rfl⟩
      · split <;> exact ⟨_, rfl⟩
  obtain ⟨rev, hrev⟩ := hev
  exact ⟨_, by rw [Conn.handleRead, hrev]; rfl⟩

/-- `ngxe_reader_start` where the event can be registered. -/
theorem ngxeReaderStart_ok (cfg : Config) (c : Conn) : ∃ active pending,
    ngxeReaderStart cfg true c = ({ c with
      read := { c.installReader.read with active := active }.addTimer c.readerTimeout
      pending := pending }, []) := by
  obtain ⟨c₁, h₁⟩ := handleRead_true cfg.method c.installReader
  refine ⟨c₁.read.active, c₁.pending, ?_⟩
  rw [ngxeReaderStart, h₁]
  dsimp only
  rw [Conn.armRead, handleRead_eq h₁]
  rfl

/-- `ngxe_reader(c, NGXE_START, rt, ..)` and then `ngxe_writer(c, 0, wt, '', ..)`. -/
theorem started_of_reader_writer (hc : c.Fresh) (hs : ∀ f ∈ stk, f.isSetUp = true) :
    Started rt wt (resume (applyOp cfg ok (applyOp cfg true c (.reader true rt)).1
      (.writer false wt (.str []))) stk) := by
  obtain ⟨active, pending, hstart⟩ := ngxeReaderStart_ok cfg (createReader cfg c rt)
  have hset : ({ (createReader cfg c rt).installReader.read with
      active := active }.addTimer rt).timerSet = true ↔ rt ≠ 0 := by
    rw [timerSet_addTimer]
    simp [Conn.installReader, Event.delTimer]
  simp only [applyOp, ngxeReader, if_true, hstart, ngxeWriter, Bool.false_eq_true, if_false]
  refine ⟨⟨hc.opened, rfl, rfl, rfl, rfl, hc.readTimedout, hc.writeTimedout⟩,
    ⟨rfl, rfl, rfl, hset, hc.writeTimer⟩, hs⟩

/-- `ngxe_writer(c, 0, wt, '', ..)` and then `ngxe_reader(c, NGXE_START, rt, ..)`. -/
theorem started_of_writer_reader (hc : c.Fresh) (hs : ∀ f ∈ stk, f.isSetUp = true) :
    Started rt wt (resume (applyOp cfg true (applyOp cfg ok c (.writer false wt (.str []))).1
      (.reader true rt)) stk) := by
  have hw : (applyOp cfg ok c (.writer false wt (.str []))).1 =
      createWriter cfg c wt (.str []) := rfl
  obtain ⟨active, pending, hstart⟩ :=
    ngxeReaderStart_ok cfg (createReader cfg (createWriter cfg c wt (.str [])) rt)
  have hset : ({ (createReader cfg (createWriter cfg c wt (.str [])) rt).installReader.read with
      active := active }.addTimer rt).timerSet = true ↔ rt ≠ 0 := by
    rw [timerSet_addTimer]
    simp [Conn.installReader, Event.delTimer]
  rw [hw]
  simp only [applyOp, ngxeReader, if_true, hstart]
  refine ⟨⟨hc.opened, rfl, rfl, rfl, rfl, hc.readTimedout, hc.writeTimedout⟩,
    ⟨rfl, rfl, rfl, hset, hc.writeTimer⟩, hs⟩

/-- Half duplex: in every run of a connection with a started reader and a writer created
    with an empty string, whose callbacks only assign plain strings, the connection is
    closed or exactly one side is active whenever control is in the event loop. -/
theorem half_duplex (cfg : Config) (rt wt : Int) (s₀ s : Sys) (h₀ : Started rt wt s₀)
    (h : (engine cfg).Reaches PlainCallbacks s₀ s) : HalfDuplex rt wt s :=
  (duplex_of_reaches h₀ h).halfDuplex

/-- A byte is echoed and only partly accepted: the writer is active. -/
theorem half_duplex_partial_send :
    ∃ s₀ s, Started 5000 7000 s₀ ∧
      (engine ⟨.clear, 4096, 4080⟩).Reaches PlainCallbacks s₀ s ∧ HalfDuplex 5000 7000 s ∧
      s.stack = [] ∧ s.c.write.handler = .writer ∧ s.c.write.timerSet = true := by
  have h₀ : Started 5000 7000 (resume (applyOp ⟨.clear, 4096, 4080⟩ true
      (applyOp ⟨.clear, 4096, 4080⟩ true .accepted (.reader true 5000)).1
      (.writer false 7000 (.str []))) [.outside]) :=
    started_of_reader_writer fresh_accepted (by decide)
  have h : (engine ⟨.clear, 4096, 4080⟩).Reaches PlainCallbacks (resume
      (applyOp ⟨.clear, 4096, 4080⟩ true
        (applyOp ⟨.clear, 4096, 4080⟩ true .accepted (.reader true 5000)).1
        (.writer false 7000 (.str []))) [.outside]) _ :=
    .of_run [.leave, .arrive [97, 98], .readEvent, .recv false true,
      .op (.setWriteBuffer (.str [97, 98])) true, .ret true, .send (.accepted 1) true] rfl
  exact ⟨_, _, h₀, h, half_duplex _ _ _ _ _ h₀ h, by decide⟩

end NginxEngine.XS
