import NginxEngine.XS.Segments

/-!
# Timers of a connection

A timer may be set only while the handler is installed that deals with its expiry:
an expired event keeps `timedout`, and only the reader's, the writer's and the
client's handler close the connection for it. `ngxe_reader` and `ngxe_writer` take
the handler away without a look at the timer, and a handler that finds no callback
record returns without closing anything.

## Main definitions

- `TimerDiscipline` — timers are set only under their handlers, and nothing open is
  left with `timedout`
- `TimerSafe` — the condition on steps under which the discipline is kept

## Main results

- `timers_disciplined` — every run of safe steps keeps the discipline
- `timer_left_behind` — a reader that is created again leaves its timer behind
-/

namespace NginxEngine.XS

variable {cfg : Config} {ok : Bool} {c c' : Conn} {cb : Nat} {o : Outcome} {s t : Sys}
  {rest stk : List Frame}

/-- A read timer is set only under `ngxe_reader_handler`, a write timer only under
    `ngxe_writer_handler` or `ngxe_client_init_handler`, and in the event loop no open
    connection has an event with `timedout` set. -/
structure TimerDiscipline (s : Sys) : Prop where
  read : s.c.read.timerSet = true → s.c.read.handler = .reader
  write : s.c.write.timerSet = true →
    s.c.write.handler = .writer ∨ s.c.write.handler = .clientInit
  timedout : s.stack = [] → s.c.destroyed = false →
    s.c.read.timedout = false ∧ s.c.write.timedout = false

/-- A reader or writer is created without being started only while its timer is not
    set; one is started without having been created only while its timeout is 0; and
    no reader has been started on a client that is still connecting when its write
    event or its connect timer comes. -/
def TimerSafe (s : Sys) : Input → Prop
  | .op (.reader false _) _ => s.c.read.timerSet = false
  | .op (.writer false _ _) _ => s.c.write.timerSet = false
  | .op (.readerStart timeout) _ =>
    s.c.hasReader = true ∨ timeout.getD s.c.readerTimeout = 0
  | .op .writerStopReaderStart _ => s.c.hasReader = true ∨ s.c.readerTimeout = 0
  | .op (.writerStart timeout) _ =>
    s.c.hasWriter = true ∨ timeout.getD s.c.writerTimeout = 0
  | .op .readerStopWriterStart _ => s.c.hasWriter = true ∨ s.c.writerTimeout = 0
  | .op (.writerBufferSet _) _ => s.c.writerCallback.isSome = true ∨ s.c.writerTimeout = 0
  | .writeEvent | .writeTimer => s.c.write.handler = .clientInit → s.c.read.timerSet = false
  | _ => True

instance {i : Input} : Decidable (TimerSafe s i) := by
  unfold TimerSafe
  induction i with
  | op o ok =>
    induction o with
    | reader start | writer start => induction start using Bool.casesOn <;> infer_instance
    | _ => infer_instance
  | _ => infer_instance

/-! ### The invariant -/

/-- The timers of a connection: each is set only under a handler that will close the
    connection when it expires. -/
structure Conn.TimersOk (c : Conn) : Prop where
  read : c.read.timerSet = true → c.read.handler = .reader ∧ c.hasReader = true
  write : c.write.timerSet = true →
    (c.write.handler = .writer ∧ c.hasWriter = true) ∨ c.write.handler = .clientInit
  clientRead : c.read.handler = .clientInit →
    c.writerCallback.isSome = true ∧ c.read.error = false
  clientWrite : c.write.handler = .clientInit →
    c.writerCallback.isSome = true ∧ c.write.error = false

/-- What holds while a Perl callback runs. -/
def Frame.PerlOk (c : Conn) : Frame → Prop
  | .inCallback _ .readerData => c.hasReader = true ∧ c.read.handler ≠ .clientInit
  | .inCallback _ (.writerDone _) => c.hasWriter = true ∧ c.write.handler ≠ .clientInit
  | .inCallback _ _ | .outside => True
  | .recv _ | .send _ _ | .crash => False

/-- What holds while a frame is on top. -/
def Frame.TopOk (c : Conn) : Frame → Prop
  | .recv _ => c.read.handler = .reader ∧ c.hasReader = true
  | .send _ _ => c.write.handler = .writer ∧ c.hasWriter = true
  | .crash => True
  | f => f.PerlOk c

def StackOk (c : Conn) : List Frame → Prop
  | [] => True
  | f :: rest => f.TopOk c ∧ ∀ g ∈ rest, g.PerlOk c

/-- Nothing open is marked as timed out unless a frame is going to close it. -/
def Timed (c : Conn) (stk : List Frame) : Prop :=
  c.destroyed = false → stk.any Frame.fatal = false →
    c.read.timedout = false ∧ c.write.timedout = false

structure TimerInv (s : Sys) : Prop where
  timers : s.c.TimersOk
  stack : StackOk s.c s.stack
  timed : Timed s.c s.stack

theorem TimerInv.discipline (h : TimerInv s) : TimerDiscipline s := by
  refine ⟨fun ht => (h.timers.read ht).1, fun ht => ?_, fun hs hd => ?_⟩
  · exact (h.timers.write ht).imp_left And.left
  · exact h.timed hd (by rw [hs]; rfl)

/-- What a step must keep for the callbacks that wait below. -/
structure Grows (c c' : Conn) : Prop where
  reader : c.hasReader = true → c'.hasReader = true
  writer : c.hasWriter = true → c'.hasWriter = true
  read : c'.read.handler = .clientInit → c.read.handler = .clientInit
  write : c'.write.handler = .clientInit → c.write.handler = .clientInit

theorem Grows.perlOk {f : Frame} (h : Grows c c') (hf : f.PerlOk c) : f.PerlOk c' := by
  cases f with
  | inCallback cb site =>
    cases site with
    | readerData => exact ⟨h.reader hf.1, fun hr => hf.2 (h.read hr)⟩
    | writerDone k => exact ⟨h.writer hf.1, fun hw => hf.2 (h.write hw)⟩
    | failed | connected => trivial
  | outside => trivial
  | recv cb | send k cb | crash => exact hf

/-- A frame on top of handler code that keeps the handlers. -/
theorem Grows.topOk {f : Frame} (h : Grows c c') (hr : c.read.handler = c'.read.handler)
    (hw : c.write.handler = c'.write.handler) (hf : f.TopOk c) : f.TopOk c' := by
  cases f with
  | recv cb => exact ⟨hr ▸ hf.1, h.reader hf.2⟩
  | send k cb => exact ⟨hw ▸ hf.1, h.writer hf.2⟩
  | crash => trivial
  | inCallback cb site => exact h.perlOk hf
  | outside => trivial

theorem Frame.PerlOk.topOk {f : Frame} (h : f.PerlOk c) : f.TopOk c := by
  cases f with
  | recv cb | send k cb => exact h.elim
  | crash => trivial
  | inCallback cb site | outside => exact h

theorem stackOk_of_perlOk (h : ∀ g ∈ stk, g.PerlOk c) : StackOk c stk := by
  cases stk with
  | nil => trivial
  | cons f rest =>
    exact ⟨(h f (by simp)).topOk, fun g hg => h g (by simp [hg])⟩

/-- The frames an outcome leaves, on top of callbacks that wait. -/
theorem stackOk_resume (hrest : ∀ g ∈ rest, g.PerlOk o.1) (htop : StackOk o.1 o.2)
    (hlen : o.2.length ≤ 1) : StackOk o.1 (o.2 ++ rest) := by
  match o, hlen with
  | (c, []), _ => exact stackOk_of_perlOk hrest
  | (c, [f]), _ => exact ⟨htop.1, hrest⟩

theorem WriterMove.hasWriter (h : WriterMove cb c c') : c'.hasWriter = c.hasWriter := by
  rw [Conn.hasWriter, Conn.hasWriter, h.writerCallback, h.buffer]

theorem WriterMove.grows (h : WriterMove cb c c') : Grows c c' :=
  ⟨fun hr => h.hasReader.trans hr, fun hw => h.hasWriter.trans hw,
    fun hh => h.read ▸ hh, fun hh => h.handler ▸ hh⟩

theorem ReaderMove.hasWriter (h : ReaderMove cb c c') : c'.hasWriter = c.hasWriter := by
  rw [Conn.hasWriter, Conn.hasWriter, h.writerCallback, h.writerBuffer]

theorem ReaderMove.grows (h : ReaderMove cb c c') : Grows c c' :=
  ⟨fun hr => h.hasReader.trans hr, fun hw => h.hasWriter.trans hw,
    fun hh => h.handler ▸ hh, fun hh => h.write ▸ hh⟩

theorem timed_of_fatal (h : stk.any Frame.fatal = true) : Timed c stk := by
  intro _ hc
  simp [h] at hc

theorem Timed.mono (h : Timed c stk) (hd : c'.destroyed = c.destroyed)
    (hr : c'.read.timedout = c.read.timedout) (hw : c'.write.timedout = c.write.timedout)
    (hs : stk.any Frame.fatal = true → rest.any Frame.fatal = true) : Timed c' rest := by
  intro hopen hc
  rw [hr, hw]
  refine h (hd ▸ hopen) ?_
  by_contra hne
  simp only [Bool.not_eq_false] at hne
  simp [hs hne] at hc

theorem any_of_append {p : Frame → Bool} {fs : List Frame}
    (h : stk.any p = true → rest.any p = true) :
    stk.any p = true → (fs ++ rest).any p = true := by
  intro hx
  simp [List.any_append, h hx]

/-- Writer code under the writer's handler. -/
theorem TimerInv.of_writer (ho : WriterOutcome cb c o) (hc : c.TimersOk)
    (hh : c.write.handler = .writer) (hw : c.hasWriter = true)
    (hrest : ∀ g ∈ rest, g.PerlOk c) (ht : Timed o.1 (o.2 ++ rest)) :
    TimerInv (resume o rest) := by
  have hh' : o.1.write.handler = .writer := ho.move.handler.trans hh
  have hw' : o.1.hasWriter = true := ho.move.hasWriter.trans hw
  refine ⟨⟨?_, fun _ => .inl ⟨hh', hw'⟩, ?_, ?_⟩, ?_, ht⟩
  · show o.1.read.timerSet = true → o.1.read.handler = .reader ∧ o.1.hasReader = true
    rw [ho.move.read, ho.move.hasReader]
    exact hc.read
  · show o.1.read.handler = .clientInit → o.1.writerCallback.isSome = true ∧ o.1.read.error = false
    rw [ho.move.read, ho.move.writerCallback]
    exact hc.clientRead
  · intro hx
    have hx : o.1.write.handler = .clientInit := hx
    rw [hh'] at hx
    cases hx
  · refine stackOk_resume (fun g hg => ho.move.grows.perlOk (hrest g hg)) ?_ ?_
    · obtain ⟨c', fs⟩ := o
      cases ho.frames with
      | ret => trivial
      | send k => exact ⟨⟨hh', hw'⟩, by simp⟩
      | done k => exact ⟨⟨hw', hh'.trans_ne (by decide)⟩, by simp⟩
      | failed | crash => exact ⟨trivial, by simp⟩
    · exact ho.frames.length_le

/-- Reader code under the reader's handler. -/
theorem TimerInv.of_reader (ho : ReaderOutcome cb c o) (hc : c.TimersOk)
    (hh : c.read.handler = .reader) (hr : c.hasReader = true)
    (hrest : ∀ g ∈ rest, g.PerlOk c) (ht : Timed o.1 (o.2 ++ rest)) :
    TimerInv (resume o rest) := by
  have hh' : o.1.read.handler = .reader := ho.move.handler.trans hh
  have hr' : o.1.hasReader = true := ho.move.hasReader.trans hr
  refine ⟨⟨fun _ => ⟨hh', hr'⟩, ?_, ?_, ?_⟩, ?_, ht⟩
  · show o.1.write.timerSet = true → (o.1.write.handler = .writer ∧ o.1.hasWriter = true) ∨
      o.1.write.handler = .clientInit
    rw [ho.move.write, ho.move.hasWriter]
    exact hc.write
  · intro hx
    have hx : o.1.read.handler = .clientInit := hx
    rw [hh'] at hx
    cases hx
  · show o.1.write.handler = .clientInit →
      o.1.writerCallback.isSome = true ∧ o.1.write.error = false
    rw [ho.move.write, ho.move.writerCallback]
    exact hc.clientWrite
  · refine stackOk_resume (fun g hg => ho.move.grows.perlOk (hrest g hg)) ?_ ?_
    · obtain ⟨c', fs⟩ := o
      cases ho.frames with
      | ret => trivial
      | recv => exact ⟨⟨hh', hr'⟩, by simp⟩
      | data => exact ⟨⟨hr', hh'.trans_ne (by decide)⟩, by simp⟩
      | failed | crash => exact ⟨trivial, by simp⟩
    · exact ho.frames.length_le

/-- What holds between the pieces of handler code that run on top of `stk`. -/
structure PerlInv (c : Conn) (stk : List Frame) : Prop where
  timers : c.TimersOk
  stack : ∀ g ∈ stk, g.PerlOk c
  timed : Timed c stk

/-- `c'` comes from `c` by a change that sets no timer, takes no handler away from a
    timer that stays set, and installs no client's handler. -/
structure Tame (c c' : Conn) : Prop where
  readTimer : c'.read.timerSet = true →
    c.read.timerSet = true ∧ c'.read.handler = c.read.handler
  writeTimer : c'.write.timerSet = true →
    c.write.timerSet = true ∧ c'.write.handler = c.write.handler
  readClient : c'.read.handler = .clientInit →
    c.read.handler = .clientInit ∧ c'.read.error = c.read.error
  writeClient : c'.write.handler = .clientInit →
    c.write.handler = .clientInit ∧ c'.write.error = c.write.error
  reader : c.hasReader = true → c'.hasReader = true
  writer : c.hasWriter = true → c'.hasWriter = true
  callback : c.writerCallback.isSome = true → c'.writerCallback.isSome = true
  timedout : c'.destroyed = false → c.destroyed = false ∧
    c'.read.timedout = c.read.timedout ∧ c'.write.timedout = c.write.timedout

theorem Tame.refl (c : Conn) : Tame c c :=
  ⟨fun h => ⟨h, rfl⟩, fun h => ⟨h, rfl⟩, fun h => ⟨h, rfl⟩, fun h => ⟨h, rfl⟩, id, id, id,
    fun h => ⟨h, rfl, rfl⟩⟩

theorem Tame.grows (h : Tame c c') : Grows c c' :=
  ⟨h.reader, h.writer, fun hh => (h.readClient hh).1, fun hh => (h.writeClient hh).1⟩

theorem Tame.timersOk (hc : Tame c c') (h : c.TimersOk) : c'.TimersOk := by
  refine ⟨?_, ?_, ?_, ?_⟩
  · intro ht
    obtain ⟨ht, hh⟩ := hc.readTimer ht
    exact ⟨hh.trans (h.read ht).1, hc.reader (h.read ht).2⟩
  · intro ht
    obtain ⟨ht, hh⟩ := hc.writeTimer ht
    rw [hh]
    exact (h.write ht).imp_left (And.imp_right hc.writer)
  · intro hh
    obtain ⟨hh, he⟩ := hc.readClient hh
    exact ⟨hc.callback (h.clientRead hh).1, he.trans (h.clientRead hh).2⟩
  · intro hh
    obtain ⟨hh, he⟩ := hc.writeClient hh
    exact ⟨hc.callback (h.clientWrite hh).1, he.trans (h.clientWrite hh).2⟩

theorem Tame.timed (hc : Tame c c') (h : Timed c stk) : Timed c' stk := by
  intro hopen hfatal
  obtain ⟨hopen, hr, hw⟩ := hc.timedout hopen
  rw [hr, hw]
  exact h hopen hfatal

theorem PerlInv.tame (h : PerlInv c stk) (hc : Tame c c') : PerlInv c' stk :=
  ⟨hc.timersOk h.timers, fun g hg => hc.grows.perlOk (h.stack g hg), hc.timed h.timed⟩

theorem PerlInv.inv (h : PerlInv c stk) : TimerInv ⟨c, stk⟩ :=
  ⟨h.timers, stackOk_of_perlOk h.stack, h.timed⟩

/-- The process has dereferenced NULL. -/
theorem PerlInv.crash (h : PerlInv c stk) : TimerInv (resume (c, [.crash]) stk) :=
  ⟨h.timers, ⟨trivial, h.stack⟩, timed_of_fatal rfl⟩

theorem TimerInv.fail {e : CbError} (hc : c.TimersOk) (hstk : ∀ g ∈ stk, g.PerlOk c) :
    TimerInv (resume (fail c cb e) stk) :=
  ⟨⟨hc.read, hc.write, hc.clientRead, hc.clientWrite⟩,
    ⟨trivial, fun g hg => Grows.perlOk (c := c) ⟨id, id, id, id⟩ (hstk g hg)⟩, timed_of_fatal rfl⟩

theorem PerlInv.writer (h : PerlInv c stk) (ho : WriterOutcome cb c o)
    (hh : c.write.handler = .writer) (hw : c.hasWriter = true) : TimerInv (resume o stk) := by
  refine .of_writer ho h.timers hh hw h.stack ?_
  refine h.timed.mono ho.move.destroyed ?_ ho.move.timedout (any_of_append id)
  rw [ho.move.read]

theorem PerlInv.reader (h : PerlInv c stk) (ho : ReaderOutcome cb c o)
    (hh : c.read.handler = .reader) (hr : c.hasReader = true) : TimerInv (resume o stk) := by
  refine .of_reader ho h.timers hh hr h.stack ?_
  refine h.timed.mono ho.move.destroyed ho.move.timedout ?_ (any_of_append id)
  rw [ho.move.write]

/-- A write event whose timer is not set may have any handler but the client's. -/
theorem tame_write {w : Event WriteHandler} (ht : w.timerSet = false)
    (hh : w.handler ≠ .clientInit) (hto : w.timedout = c.write.timedout) :
    Tame c { c with write := w } :=
  { Tame.refl c with
    writeTimer := fun h => absurd (ht.symm.trans h) (by decide)
    writeClient := fun h => absurd h hh
    timedout := fun h => ⟨h, rfl, hto⟩ }

/-- A read event whose timer is not set may have any handler but the client's. -/
theorem tame_read {r : Event ReadHandler} {n : Nat} (ht : r.timerSet = false)
    (hh : r.handler ≠ .clientInit) (hto : r.timedout = c.read.timedout) :
    Tame c { c with read := r, pending := n } :=
  { Tame.refl c with
    readTimer := fun h => absurd (ht.symm.trans h) (by decide)
    readClient := fun h => absurd h hh
    timedout := fun h => ⟨h, hto, rfl⟩ }

/-- `ngxe_writer_start` where there is a writer, or no timeout to arm. -/
theorem PerlInv.writerStart (h : PerlInv c.installWriter stk)
    (hw : c.hasWriter = true ∨ c.writerTimeout = 0) :
    TimerInv (resume (ngxeWriterStart cfg ok c) stk) := by
  obtain ⟨cb, hcb⟩ := exists_writerCallback c
  have ho : WriterOutcome cb c.installWriter (ngxeWriterStart cfg ok c) :=
    ngxeWriterStart_outcome hcb
  by_cases hw' : c.hasWriter = true
  · exact h.writer ho rfl hw'
  · -- the writer's handler is installed but there is nothing it would work on
    have hzero : c.writerTimeout = 0 := hw.resolve_left hw'
    rw [ngxeWriterStart]
    split
    · cases c.writerCallback with
      | none => exact h.crash
      | some w => exact .fail h.timers h.stack
    · next c₁ h₁ =>
      have harm : c₁.armWrite = { c.installWriter with
          write := { c.installWriter.write with active := c₁.write.active } } := by
        rw [Conn.armWrite, handleWrite_eq h₁]
        simp [Conn.installWriter, Event.addTimer, Event.delTimer, hzero]
      have htame : Tame c.installWriter c₁.armWrite := by
        rw [harm]
        exact tame_write rfl (by simp [Conn.installWriter]) rfl
      have hnot : c₁.armWrite.hasWriter = false := by
        rw [harm]
        exact (Bool.not_eq_true _).mp hw'
      split
      · rw [ngxeWriterHandler_of_not_hasWriter hnot]
        exact (h.tame htame).inv
      · exact (h.tame htame).inv

/-- `ngxe_reader_start` where there is a reader, or no timeout to arm. -/
theorem PerlInv.readerStart (h : PerlInv c.installReader stk)
    (hr : c.hasReader = true ∨ c.readerTimeout = 0) :
    TimerInv (resume (ngxeReaderStart cfg ok c) stk) := by
  obtain ⟨cb, hcb⟩ := exists_readerCallback c
  have ho : ReaderOutcome cb c.installReader (ngxeReaderStart cfg ok c) :=
    ngxeReaderStart_outcome hcb
  by_cases hr' : c.hasReader = true
  · exact h.reader ho rfl hr'
  · -- the reader's handler is installed but there is nothing it would work on
    have hzero : c.readerTimeout = 0 := hr.resolve_left hr'
    rw [ngxeReaderStart]
    split
    · cases c.readerCallback with
      | none => exact h.crash
      | some r => exact .fail h.timers h.stack
    · next c₁ h₁ =>
      have harm : c₁.armRead = { c.installReader with
          read := { c.installReader.read with active := c₁.read.active }
          pending := c₁.pending } := by
        rw [Conn.armRead, handleRead_eq h₁]
        simp [Conn.installReader, Event.addTimer, Event.delTimer, hzero]
      have htame : Tame c.installReader c₁.armRead := by
        rw [harm]
        exact tame_read rfl (by simp [Conn.installReader]) rfl
      exact (h.tame htame).inv

/-- A side that is started in a state that meets the invariant. -/
theorem PerlInv.startWriter (h : PerlInv c stk) (hw : c.hasWriter = true ∨ c.writerTimeout = 0) :
    TimerInv (resume (ngxeWriterStart cfg ok c) stk) := by
  have htame : Tame c c.installWriter := tame_write rfl (by simp) rfl
  exact (h.tame htame).writerStart hw

theorem PerlInv.startReader (h : PerlInv c stk) (hr : c.hasReader = true ∨ c.readerTimeout = 0) :
    TimerInv (resume (ngxeReaderStart cfg ok c) stk) := by
  have htame : Tame c c.installReader := tame_read rfl (by simp) rfl
  exact (h.tame htame).readerStart hr

theorem PerlInv.stopWriter (h : PerlInv c stk) : PerlInv (ngxeWriterStop c) stk :=
  h.tame (tame_write rfl (by simp) rfl)

theorem PerlInv.stopReader (h : PerlInv c stk) : PerlInv (ngxeReaderStop c) stk :=
  h.tame (tame_read rfl (by simp) rfl)

theorem writer_of_ne {w : WriteHandler} (hd : w ≠ .dummy) (hc : w ≠ .clientInit) :
    w = .writer := by
  cases w with
  | dummy => exact absurd rfl hd
  | writer => rfl
  | clientInit => exact absurd rfl hc

theorem reader_of_ne {r : ReadHandler} (hd : r ≠ .dummy) (hc : r ≠ .clientInit) :
    r = .reader := by
  cases r with
  | dummy => exact absurd rfl hd
  | reader => rfl
  | clientInit => exact absurd rfl hc

theorem hasWriter_of_wantsWriter (h : c.wantsWriter = true) : c.hasWriter = true := by
  simp only [Conn.wantsWriter, Bool.and_eq_true] at h
  simp only [Conn.hasWriter, Bool.and_eq_true]
  refine ⟨h.1, ?_⟩
  cases hb : c.writerBuffer with
  | none => simp [hb] at h
  | some sv => rfl

theorem PerlInv.afterWriter {k : Kind} (h : PerlInv c stk) (hw : c.hasWriter = true)
    (hclient : c.write.handler ≠ .clientInit) (ho : WriterReturns cfg ok k c cb o) :
    TimerInv (resume o stk) := by
  cases ho with
  | ret hret => exact h.inv
  | crash hopen hh hbad => exact h.crash
  | more hopen hh hb hmore =>
    exact h.writer (continueWriter_outcome k) (writer_of_ne hh hclient) hw
  | reader hopen hh hb hrv hmore hr => exact h.stopWriter.startReader (.inl hr)
  | rest hopen hh hb hmore hr => exact h.inv

theorem PerlInv.afterReader (h : PerlInv c stk) (hr : c.hasReader = true)
    (hclient : c.read.handler ≠ .clientInit) (ho : ReaderReturns cfg ok c cb o) :
    TimerInv (resume o stk) := by
  cases ho with
  | ret hret => exact h.inv
  | switch hsw =>
    obtain ⟨-, -, -, hwants⟩ := Conn.switchesToWriter_iff.mp hsw
    have hreset : PerlInv { c with writerOffset := 0, writerIndex := 0 } stk :=
      h.tame { Tame.refl c with }
    exact hreset.stopReader.startWriter (.inl (hasWriter_of_wantsWriter hwants))
  | reads hopen hh hwants hreads => exact h.reader hreads.outcome (reader_of_ne hh hclient) hr

theorem tame_close (c : Conn) : Tame c (ngxeClose c) := by
  rw [ngxeClose]
  split
  · exact .refl c
  · refine { Tame.refl c with
      readTimer := fun h => ?_, writeTimer := fun h => ?_, timedout := fun h => ?_ }
    · cases h
    · cases h
    · cases h

/-- `ngxe_close(c)` after an error callback. -/
theorem TimerInv.closed (hc : c.TimersOk) (hstk : ∀ g ∈ stk, g.PerlOk c) :
    TimerInv ⟨ngxeClose c, stk⟩ := by
  have htame := tame_close c
  refine ⟨htame.timersOk hc, stackOk_of_perlOk fun g hg => htame.grows.perlOk (hstk g hg), ?_⟩
  intro hopen
  simp [ngxeClose_destroyed] at hopen

/-! ### Events -/

/-- The client's handler takes both handlers away; the write timer goes with them. -/
theorem PerlInv.clientInit {H : Type} {ev : Event H} (h : PerlInv c stk)
    (hcb : c.writerCallback.isSome = true) (herr : ev.error = false) (hto : ev.timedout = false)
    (hread : c.read.timerSet = false) :
    TimerInv (resume (ngxeClientInitHandler c ev) stk) := by
  rw [ngxeClientInitHandler]
  dsimp only
  split
  · next hnone => simp [hnone] at hcb
  · next cb _ =>
    rw [if_neg (by simp [herr]), if_neg (by simp [hto])]
    have h₁ : PerlInv { c with read := { c.read with handler := .dummy } } stk :=
      h.tame (tame_read hread (by simp) rfl)
    have h₂ := h₁.stopWriter
    obtain ⟨⟨hr, hw, hcr, hcw⟩, hstk, ht⟩ := h₂
    refine ⟨⟨hr, hw, hcr, hcw⟩, ⟨trivial, fun g hg => ?_⟩, ?_⟩
    · exact Grows.perlOk (c := ngxeWriterStop _) ⟨id, id, id, id⟩ (hstk g hg)
    · exact ht.mono rfl rfl rfl (any_of_append id)

/-- The client's handler after the expiry of the connect timer. -/
theorem TimerInv.clientExpired (hc : c.TimersOk) (hh : c.write.handler = .clientInit)
    (hread : c.read.timerSet = false) :
    TimerInv (resume (ngxeClientInitHandler c.expireWrite c.expireWrite.write) []) := by
  obtain ⟨hcb, herr⟩ := hc.clientWrite hh
  rw [ngxeClientInitHandler]
  dsimp only
  split
  · next hnone =>
    have hnone : c.writerCallback = none := hnone
    simp [hnone] at hcb
  · rw [if_neg (by simp [Conn.expireWrite, Event.expire, herr]),
      if_pos (by simp [Conn.expireWrite, Event.expire])]
    refine .fail ⟨fun h => ?_, fun h => ?_, fun h => ?_, fun h => ?_⟩ (by simp)
    · exact absurd (hread.symm.trans h) (by decide)
    · cases h
    · cases h
    · cases h

theorem PerlInv.callReadHandler (h : PerlInv c []) (hopen : c.destroyed = false) :
    TimerInv (resume (callReadHandler cfg c) []) := by
  rw [XS.callReadHandler]
  split
  · exact h.inv
  · next hh =>
    by_cases hr : c.hasReader = true
    · obtain ⟨cb, hcb⟩ := exists_readerCallback c
      exact h.reader (ngxeReaderHandler_outcome hcb) hh hr
    · rw [ngxeReaderHandler_of_not_hasReader (by simpa using hr)]
      exact h.inv
  · next hh =>
    obtain ⟨hcb, herr⟩ := h.timers.clientRead hh
    refine h.clientInit hcb herr (h.timed hopen rfl).1 ?_
    by_contra hset
    have hreader := (h.timers.read (by simpa using hset)).1
    rw [hh] at hreader
    cases hreader

theorem PerlInv.callWriteHandler (h : PerlInv c []) (hopen : c.destroyed = false)
    (hread : c.write.handler = .clientInit → c.read.timerSet = false) :
    TimerInv (resume (callWriteHandler c) []) := by
  rw [XS.callWriteHandler]
  split
  · exact h.inv
  · next hh =>
    by_cases hw : c.hasWriter = true
    · obtain ⟨cb, hcb⟩ := exists_writerCallback c
      exact h.writer (ngxeWriterHandler_outcome hcb) hh hw
    · rw [ngxeWriterHandler_of_not_hasWriter (by simpa using hw)]
      exact h.inv
  · next hh =>
    obtain ⟨hcb, herr⟩ := h.timers.clientWrite hh
    exact h.clientInit hcb herr (h.timed hopen rfl).2 (hread hh)

/-- A reader whose timer has expired calls back with an error and closes. -/
theorem TimerInv.readExpired (hc : c.TimersOk) (hset : c.read.timerSet = true) :
    TimerInv (resume (XS.callReadHandler cfg c.expireRead) []) := by
  obtain ⟨hh, hr⟩ := hc.read hset
  simp only [Conn.hasReader, Bool.and_eq_true, Option.isSome_iff_exists] at hr
  obtain ⟨⟨r, hrc⟩, ⟨b, hb⟩⟩ := hr
  have hcall : XS.callReadHandler cfg c.expireRead = XS.fail c.expireRead r .timedOut := by
    simp [XS.callReadHandler, Conn.expireRead, Event.expire, hh, ngxeReaderHandler, hrc, hb]
  rw [hcall]
  refine .fail ⟨by simp [Conn.expireRead, Event.expire], hc.write, fun h => ?_, hc.clientWrite⟩
    (by simp)
  exact absurd (hh.symm.trans h) (by decide)

theorem TimerInv.writeExpired (hc : c.TimersOk) (hset : c.write.timerSet = true)
    (hread : c.write.handler = .clientInit → c.read.timerSet = false) :
    TimerInv (resume (XS.callWriteHandler c.expireWrite) []) := by
  rcases hc.write hset with ⟨hh, hw⟩ | hh
  · have hcall : XS.callWriteHandler c.expireWrite =
        ngxeWriterHandler c.expireWrite c.expireWrite.write := by
      simp [XS.callWriteHandler, Conn.expireWrite, Event.expire, hh]
    have hw' : c.expireWrite.hasWriter = true := hw
    have hto : c.expireWrite.write.timedout = true := rfl
    obtain ⟨cb, e, he⟩ := ngxeWriterHandler_timedout hw' hto
    rw [hcall, he]
    refine .fail ⟨hc.read, fun h => ?_, hc.clientRead, fun h => ?_⟩ (by simp)
    · cases h
    · exact absurd (hh.symm.trans h) (by decide)
  · have hcall : XS.callWriteHandler c.expireWrite =
        ngxeClientInitHandler c.expireWrite c.expireWrite.write := by
      simp [XS.callWriteHandler, Conn.expireWrite, Event.expire, hh]
    rw [hcall]
    exact .clientExpired hc hh (hread hh)

theorem PerlInv.load {sv : Sv} (h : PerlInv c stk) (hb : c.writerBuffer.isSome = true) :
    PerlInv (c.load sv) stk := by
  refine h.tame { Tame.refl c with writer := fun hw => ?_ }
  simpa [Conn.hasWriter, Conn.load, hb] using hw

/-- `ngxe_reader` takes the handler away; the timer must not be set. -/
theorem tame_createReader {timeout : Int} (ht : c.read.timerSet = false) :
    Tame c (createReader cfg c timeout) :=
  { Tame.refl c with
    readTimer := fun h => absurd (ht.symm.trans h) (by decide)
    readClient := nofun
    reader := fun _ => rfl
    writer := fun h => by
      simp only [Conn.hasWriter, Bool.and_eq_true] at h
      simp [Conn.hasWriter, createReader, h.1] }

theorem tame_createReader_install {timeout : Int} :
    Tame c (createReader cfg c timeout).installReader :=
  { Tame.refl c with
    readTimer := nofun
    readClient := nofun
    reader := fun _ => rfl
    writer := fun h => by
      simp only [Conn.hasWriter, Bool.and_eq_true] at h
      simp [Conn.hasWriter, createReader, Conn.installReader, h.1] }

theorem tame_createWriter {timeout : Int} {buffer : Sv} (ht : c.write.timerSet = false) :
    Tame c (createWriter cfg c timeout buffer) :=
  { Tame.refl c with
    writeTimer := fun h => absurd (ht.symm.trans h) (by decide)
    writeClient := nofun
    reader := fun h => by
      simp only [Conn.hasReader, Bool.and_eq_true] at h
      simp [Conn.hasReader, createWriter, Conn.load, h.1]
    writer := fun _ => rfl
    callback := fun _ => rfl }

theorem tame_createWriter_install {timeout : Int} {buffer : Sv} :
    Tame c (createWriter cfg c timeout buffer).installWriter :=
  { Tame.refl c with
    writeTimer := nofun
    writeClient := nofun
    reader := fun h => by
      simp only [Conn.hasReader, Bool.and_eq_true] at h
      simp [Conn.hasReader, createWriter, Conn.load, Conn.installWriter, h.1]
    writer := fun _ => rfl
    callback := fun _ => rfl }

theorem PerlInv.writerBufferSet {data : Sv} (h : PerlInv c stk)
    (hw : c.writerCallback.isSome = true ∨ c.writerTimeout = 0) :
    TimerInv (resume (ngxeWriterBufferSet cfg ok c data) stk) := by
  have ho := bufferSet_cases cfg ok c data
  generalize ngxeWriterBufferSet cfg ok c data = o at ho ⊢
  cases ho with
  | nothing => exact h.inv
  | start sv offset index hb =>
    have hp : PerlInv { c.load sv with writerOffset := offset, writerIndex := index } stk :=
      (h.load hb).tame { Tame.refl (c.load sv) with }
    refine hp.startWriter ?_
    simpa [Conn.hasWriter, Conn.load] using hw

theorem PerlInv.op {op : Op} (h : PerlInv c stk) (hs : s.c = c) (hG : TimerSafe s (.op op ok)) :
    TimerInv (resume (applyOp cfg ok c op) stk) := by
  subst hs
  cases op with
  | reader start timeout =>
    cases start with
    | true => exact (h.tame tame_createReader_install).readerStart (.inl rfl)
    | false => exact (h.tame (tame_createReader hG)).inv
  | readerStart timeout =>
    have hp : PerlInv (s.c.withReaderTimeout timeout) stk := h.tame { Tame.refl s.c with }
    exact hp.startReader hG
  | readerStop => exact h.stopReader.inv
  | readerStopWriterStart => exact h.stopReader.startWriter hG
  | readerTimeout timeout =>
    have hp : PerlInv (s.c.withReaderTimeout (some timeout)) stk := h.tame { Tame.refl s.c with }
    exact hp.inv
  | writer start timeout buffer =>
    cases start with
    | true => exact (h.tame tame_createWriter_install).writerStart (.inl rfl)
    | false => exact (h.tame (tame_createWriter hG)).inv
  | writerStart timeout =>
    have hp : PerlInv (s.c.withWriterTimeout timeout) stk := h.tame { Tame.refl s.c with }
    exact hp.startWriter hG
  | writerStop => exact h.stopWriter.inv
  | writerStopReaderStart => exact h.stopWriter.startReader hG
  | writerTimeout timeout =>
    have hp : PerlInv (s.c.withWriterTimeout (some timeout)) stk := h.tame { Tame.refl s.c with }
    exact hp.inv
  | writerBufferSet data => exact h.writerBufferSet hG
  | close => exact (h.tame (tame_close s.c)).inv
  | setReadBuffer b =>
    have hp : PerlInv { s.c with readerBuffer := s.c.readerBuffer.map fun _ => b } stk :=
      h.tame { Tame.refl s.c with
        reader := fun hr => by simpa [Conn.hasReader] using hr }
    exact hp.inv
  | setWriteBuffer sv =>
    simp only [applyOp]
    split
    · next hb => exact (h.load hb).inv
    · exact h.inv
  | setMinLen cb n =>
    have hp : PerlInv { s.c with
        callbacks := s.c.callbacks.modify cb fun r => { r with minLen := n } } stk :=
      h.tame { Tame.refl s.c with }
    exact hp.inv

theorem TimerInv.perl {f : Frame} (h : TimerInv ⟨c, f :: rest⟩) (hf : f.isPerl = true) :
    PerlInv c (f :: rest) := by
  refine ⟨h.timers, fun g hg => ?_, h.timed⟩
  rcases List.mem_cons.mp hg with rfl | hg
  · have htop := h.stack.1
    cases g with
    | inCallback cb site | outside => exact htop
    | recv cb | send k cb | crash => cases hf
  · exact h.stack.2 g hg

theorem TimerInv.below {f : Frame} (h : TimerInv ⟨c, f :: rest⟩) (hf : f.fatal = false) :
    PerlInv c rest :=
  ⟨h.timers, h.stack.2, h.timed.mono rfl rfl rfl (any_cons_of_not hf)⟩

/-- The socket is not looked at. -/
theorem TimerInv.socket {unread : Bytes} {eof : Bool} {n : Nat} (h : TimerInv ⟨c, stk⟩) :
    TimerInv ⟨{ c with unread := unread, eof := eof, pending := n }, stk⟩ := by
  refine ⟨Tame.timersOk (c := c) { Tame.refl c with } h.timers, ?_,
    Tame.timed (c := c) { Tame.refl c with } h.timed⟩
  cases stk with
  | nil => trivial
  | cons f rest =>
    have hg : Grows c { c with unread := unread, eof := eof, pending := n } := ⟨id, id, id, id⟩
    exact ⟨hg.topOk rfl rfl h.stack.1, fun g hmem => hg.perlOk (h.stack.2 g hmem)⟩

theorem timerInv_ret {site : Site} (h : TimerInv ⟨c, .inCallback cb site :: rest⟩) :
    TimerInv (resume (afterCallback cfg ok c cb site) rest) := by
  cases site with
  | readerData =>
    exact (h.below rfl).afterReader h.stack.1.1 h.stack.1.2 (afterReader_cases cfg ok c cb)
  | writerDone k =>
    exact (h.below rfl).afterWriter h.stack.1.1 h.stack.1.2 (afterWriter_cases cfg ok k c cb)
  | failed =>
    have hrel : Tame c (c.release cb) := { Tame.refl c with }
    exact .closed (hrel.timersOk h.timers) fun g hg => hrel.grows.perlOk (h.stack.2 g hg)
  | connected =>
    have hrel : Tame c (c.release cb) := { Tame.refl c with }
    exact ((h.below rfl).tame hrel).inv

theorem timerInv_step {i : Input} (h : TimerInv s) (hG : TimerSafe s i) (hstep : Step cfg s i t) :
    TimerInv t := by
  cases hstep with
  | arrive b hb he | arriveEof he | hangup => exact h.socket
  | @readEvent c hopen hr =>
    have hp : PerlInv c.takeRead [] :=
      PerlInv.tame ⟨h.timers, by simp, h.timed⟩ { Tame.refl c with }
    exact hp.callReadHandler hopen
  | @writeEvent c hopen ha =>
    have hp : PerlInv c.takeWrite [] :=
      PerlInv.tame ⟨h.timers, by simp, h.timed⟩ { Tame.refl c with }
    exact hp.callWriteHandler hopen hG
  | readTimer hopen ht => exact .readExpired h.timers ht
  | writeTimer hopen ht => exact .writeExpired h.timers ht hG
  | enter => exact ⟨h.timers, ⟨trivial, by simp⟩, h.timed⟩
  | leave => exact (h.below rfl).inv
  | op o ok hf hopen => exact (h.perl hf).op rfl hG
  | recv err ok =>
    obtain ⟨hh, hr⟩ := h.stack.1
    exact (h.below rfl).reader readerRecv_outcome hh hr
  | send r ok hr =>
    obtain ⟨hh, hw⟩ := h.stack.1
    exact (h.below rfl).writer (writerSend_outcome _ r) hh hw
  | ret ok => exact timerInv_ret h

theorem timerInv_initial (h : Initial cfg s) : TimerInv s := by
  cases h with
  | accepted => exact ⟨⟨nofun, nofun, nofun, nofun⟩, ⟨trivial, by simp⟩, fun _ _ => ⟨rfl, rfl⟩⟩
  | client connected timeout =>
    have hp : PerlInv (Conn.client cfg.method connected timeout) [.outside] :=
      ⟨⟨nofun, nofun, fun _ => ⟨rfl, rfl⟩, fun _ => ⟨rfl, rfl⟩⟩, by simp [Frame.PerlOk],
        fun _ _ => ⟨rfl, rfl⟩⟩
    rw [ngxeClient]
    split
    · exact hp.clientInit rfl rfl rfl rfl
    · refine ⟨⟨fun h => ?_, fun _ => .inr rfl, fun _ => ⟨rfl, rfl⟩, fun _ => ⟨rfl, rfl⟩⟩,
        ⟨trivial, by simp⟩, fun _ _ => ⟨rfl, rfl⟩⟩
      cases h

/-- In every run of safe steps a timer is set only under the handler that deals with
    its expiry, and nothing open is left with `timedout`. -/
theorem timers_disciplined (cfg : Config) (s : Sys) (h : Reachable cfg TimerSafe s) :
    TimerDiscipline s :=
  (h.invariant (fun _ h₀ => timerInv_initial h₀) fun _ _ _ h hG hs =>
    timerInv_step h hG hs).discipline

theorem timers_disciplined_read_timeout :
    ∃ s, Reachable ⟨.clear, 4096, 4080⟩ TimerSafe s ∧ TimerDiscipline s ∧
      s.stack = [] ∧ s.c.read.timerSet = true ∧ s.c.read.handler = .reader := by
  have hr : Reachable ⟨.clear, 4096, 4080⟩ TimerSafe _ :=
    ⟨_, .accepted, .of_run [.op (.reader true 5000) true, .leave] rfl⟩
  exact ⟨_, hr, timers_disciplined _ _ hr, by decide⟩

/-- A reader is created with a timeout and started, and then created once more without
    `NGXE_START`: its timer stays set and expires on `ngxe_dummy_handler`, and the open
    connection keeps `timedout`. -/
theorem timer_left_behind :
    ¬ ∀ cfg s, Reachable cfg Machine.always s → TimerDiscipline s := by
  intro h
  have hr : Reachable ⟨.clear, 4096, 4080⟩ Machine.always _ :=
    ⟨_, .accepted, .of_run [.op (.reader true 5000) true, .op (.reader false 5000) true,
      .leave, .readTimer] rfl⟩
  have hopen := (h _ _ hr).timedout (by decide) (by decide)
  exact absurd hopen.1 (by decide)

end NginxEngine.XS
