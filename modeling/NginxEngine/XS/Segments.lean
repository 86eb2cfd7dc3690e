import NginxEngine.XS.Run

/-!
# What a segment of handler code can change

Every invariant of a connection needs the same two facts: code of the writer
handlers leaves the read side alone, and code of the reader handler leaves the
write side alone. They are stated once, together with what the code can append to
the trace and which frames it can leave, and proved segment by segment.

## Main definitions

- `WriterMove`, `ReaderMove` — what writer and reader code can change
- `WriterOutcome`, `ReaderOutcome` — the same, with the frames it can leave
- `WriterReturns`, `ReaderReturns` — the code after a success callback, case by case
- `ClientInit`, `BufferSet` — the same for two functions that many invariants meet

## Main results

- `ngxeWriterHandler_outcome`, `writerSend_outcome`, `continueWriter_outcome`,
  `ngxeWriterStart_outcome` — the writer's segments
- `ngxeReaderHandler_outcome`, `readerRecv_outcome`, `recvAgain_outcome` — the reader's
- `afterWriter_cases`, `afterReader_cases` — what the return of a callback can do
-/

namespace NginxEngine.XS

variable {cfg : Config} {ok : Bool} {c c' c'' : Conn} {cb : Nat} {o : Outcome}

theorem exists_writerCallback (c : Conn) : ∃ cb, ∀ w, c.writerCallback = some w → w = cb :=
  ⟨c.writerCallback.getD 0, fun w hw => by rw [hw]; rfl⟩

theorem exists_readerCallback (c : Conn) : ∃ cb, ∀ r, c.readerCallback = some r → r = cb :=
  ⟨c.readerCallback.getD 0, fun r hr => by rw [hr]; rfl⟩

/-! ### Writer code -/

/-- What writer code can append to the trace, calling back with `cb`. -/
def WriterObs (cb : Nat) (r : Option Callback) : Obs → Prop
  | .sent _ => True
  | .called cb' r' site _ =>
    cb' = cb ∧ r' = r ∧ (site = .failed ∨ ∃ k, site = .writerDone k)
  | .received _ | .loaded _ => False

/-- Writer code, calling back with `cb`, turns `c` into `c'`. -/
structure WriterMove (cb : Nat) (c c' : Conn) : Prop where
  frame : c' = { c with
    write := c'.write
    writerBuffer := c'.writerBuffer
    writerOffset := c'.writerOffset
    writerIndex := c'.writerIndex
    trace := c'.trace }
  handler : c'.write.handler = c.write.handler
  timedout : c'.write.timedout = c.write.timedout
  buffer : c'.writerBuffer.isSome = c.writerBuffer.isSome
  trace : ∃ l, c'.trace = c.trace ++ l ∧ ∀ x ∈ l, WriterObs cb c.callbacks[cb]? x

/-- The frames writer code can leave. -/
inductive WriterFrames (cb : Nat) : List Frame → Prop
  | ret : WriterFrames cb []
  | send (k : Kind) : WriterFrames cb [.send k cb]
  | done (k : Kind) : WriterFrames cb [.inCallback cb (.writerDone k)]
  | failed : WriterFrames cb [.inCallback cb .failed]
  | crash : WriterFrames cb [.crash]

theorem WriterFrames.length_le {fs : List Frame} (h : WriterFrames cb fs) : fs.length ≤ 1 := by
  cases h <;> simp

structure WriterOutcome (cb : Nat) (c : Conn) (o : Outcome) : Prop where
  move : WriterMove cb c o.1
  frames : WriterFrames cb o.2

namespace WriterMove

theorem callbacks (h : WriterMove cb c c') : c'.callbacks = c.callbacks := by
  rw [h.frame]

theorem read (h : WriterMove cb c c') : c'.read = c.read := by
  rw [h.frame]

theorem destroyed (h : WriterMove cb c c') : c'.destroyed = c.destroyed := by
  rw [h.frame]

theorem writerCallback (h : WriterMove cb c c') : c'.writerCallback = c.writerCallback := by
  rw [h.frame]

theorem hasReader (h : WriterMove cb c c') : c'.hasReader = c.hasReader := by
  rw [h.frame]
  rfl

theorem refl (c : Conn) : WriterMove cb c c :=
  ⟨rfl, rfl, rfl, rfl, [], by simp, by simp⟩

theorem trans (h : WriterMove cb c c') (h' : WriterMove cb c' c'') : WriterMove cb c c'' := by
  obtain ⟨l, hl, hobs⟩ := h.trace
  obtain ⟨l', hl', hobs'⟩ := h'.trace
  refine ⟨?_, h'.handler.trans h.handler, h'.timedout.trans h.timedout,
    h'.buffer.trans h.buffer, l ++ l', ?_, ?_⟩
  · have hf := h'.frame
    rw [h.frame] at hf
    exact hf
  · rw [hl', hl, List.append_assoc]
  · intro x hx
    rcases List.mem_append.mp hx with hx | hx
    · exact hobs x hx
    · exact h.callbacks ▸ hobs' x hx

/-- A change of the write event that keeps its handler and its `timedout` bit, of the
    progress of the write and of the buffer. -/
theorem update (c : Conn) (w : Event WriteHandler) (sv : Option Sv) (offset : Int) (index : Nat)
    (hh : w.handler = c.write.handler) (ht : w.timedout = c.write.timedout)
    (hb : sv.isSome = c.writerBuffer.isSome) :
    WriterMove cb c { c with
      write := w, writerBuffer := sv, writerOffset := offset, writerIndex := index } :=
  ⟨rfl, hh, ht, hb, [], by simp, by simp⟩

theorem observe (c : Conn) (x : Obs) (hx : WriterObs cb c.callbacks[cb]? x) :
    WriterMove cb c { c with trace := c.trace ++ [x] } :=
  ⟨rfl, rfl, rfl, rfl, [x], rfl, by simpa using hx⟩

end WriterMove

theorem WriterOutcome.after (h : WriterOutcome cb c' o) (h' : WriterMove cb c c') :
    WriterOutcome cb c o :=
  ⟨h'.trans h.move, h.frames⟩

theorem handleWrite_eq {m : EventMethod} (h : c.handleWrite m ok = some c') :
    c' = { c with write := { c.write with active := c'.write.active } } := by
  simp only [Conn.handleWrite, Option.map_eq_some_iff] at h
  obtain ⟨wev, hw, rfl⟩ := h
  have he := ngxHandleEvent_eq hw
  rw [he]

theorem handleWrite_move {m : EventMethod} (h : c.handleWrite m ok = some c') :
    WriterMove cb c c' := by
  rw [handleWrite_eq h]
  exact .update c _ _ _ _ rfl rfl rfl

theorem armWrite_move : WriterMove cb c c.armWrite :=
  .update c _ _ _ _ rfl rfl rfl

theorem fail_outcome (c : Conn) (e : CbError) : WriterOutcome cb c (fail c cb e) :=
  ⟨.observe c _ ⟨rfl, rfl, .inl rfl⟩, .failed⟩

theorem done_outcome (c : Conn) (k : Kind) :
    WriterOutcome cb c (ngxeCallback c cb none (.writerDone k)) :=
  ⟨.observe c _ ⟨rfl, rfl, .inr ⟨k, rfl⟩⟩, .done k⟩

theorem crash_outcome (c : Conn) : WriterOutcome cb c (c, [.crash]) := ⟨.refl c, .crash⟩

theorem resetOnEventError_move (k : Kind) : WriterMove cb c (resetOnEventError k c) := by
  cases k with
  | plain => exact .refl c
  | rvpv | rvpvav => exact .update c _ _ _ _ rfl rfl rfl

theorem resetOnWriteError_move (k : Kind) : WriterMove cb c (resetOnWriteError k c) := by
  cases k with
  | plain => exact .refl c
  | rvpv | rvpvav => exact .update c _ _ _ _ rfl rfl rfl

theorem waitWritable_outcome (k : Kind) : WriterOutcome cb c (waitWritable cfg ok k c cb) := by
  rw [waitWritable]
  split
  · exact (fail_outcome _ _).after (resetOnEventError_move k)
  · next h => exact ⟨(handleWrite_move h).trans armWrite_move, .ret⟩

theorem rvpvavNextBuf_outcome : WriterOutcome cb c (rvpvavNextBuf c cb) := by
  rw [rvpvavNextBuf]
  split
  · next hb =>
    split
    · exact (done_outcome _ _).after (.update c _ _ _ _ rfl rfl (by rw [hb]; rfl))
    · exact (fail_outcome _ _).after (.update c _ _ _ _ rfl rfl rfl)
    · exact ⟨.update c _ _ _ _ rfl rfl rfl, .send _⟩
  · exact crash_outcome c

/-- The writer handlers call back with `s->writer_callback`. -/
theorem ngxeWriterHandler_outcome {ev : Event WriteHandler}
    (hcb : ∀ w, c.writerCallback = some w → w = cb) :
    WriterOutcome cb c (ngxeWriterHandler c ev) := by
  have hdel : WriterMove cb c { c with write := c.write.delTimer } :=
    .update c _ _ _ _ rfl rfl rfl
  rw [ngxeWriterHandler]
  split
  · exact ⟨.refl c, .ret⟩
  · exact ⟨.refl c, .ret⟩
  · next w b hw _ =>
    obtain rfl := hcb w hw
    rw [ngxeRvpvWriterHandler]
    split
    · exact fail_outcome c _
    · dsimp only
      split
      · exact (done_outcome _ _).after (.update c _ _ _ _ rfl rfl rfl)
      · exact ⟨hdel, .send _⟩
  · next w xs hw _ =>
    obtain rfl := hcb w hw
    rw [ngxeRvpvavWriterHandler]
    split
    · exact fail_outcome c _
    · exact rvpvavNextBuf_outcome.after hdel
  · next w hw _ =>
    obtain rfl := hcb w hw
    exact fail_outcome c _
  · next w sv _ _ _ hw _ =>
    obtain rfl := hcb w hw
    split
    · exact fail_outcome c _
    · dsimp only
      split
      · exact (done_outcome _ _).after hdel
      · exact ⟨hdel, .send _⟩

theorem failUnchecked_outcome {w : Option Nat} (e : CbError) (hcb : ∀ x, w = some x → x = cb) :
    WriterOutcome cb c (failUnchecked c w e) := by
  cases w with
  | none => exact crash_outcome c
  | some x =>
    obtain rfl := hcb x rfl
    exact fail_outcome c e

theorem ngxeWriterStart_outcome (hcb : ∀ w, c.writerCallback = some w → w = cb) :
    WriterOutcome cb c.installWriter (ngxeWriterStart cfg ok c) := by
  rw [ngxeWriterStart]
  split
  · exact failUnchecked_outcome _ hcb
  · next c' h =>
    have hm : WriterMove cb c.installWriter c'.armWrite :=
      (handleWrite_move h).trans armWrite_move
    split
    · refine (ngxeWriterHandler_outcome ?_).after hm
      rw [hm.writerCallback]
      exact hcb
    · exact ⟨hm, .ret⟩

theorem sendAccepted_outcome (k : Kind) (q : Request) (n : Nat)
    (hb : c.writerBuffer.isSome) : WriterOutcome cb c (sendAccepted cfg ok k c cb q n) := by
  have hsent : ∀ b, WriterMove cb c { c with trace := c.trace ++ [.sent b] } := fun b =>
    .observe c _ trivial
  rw [sendAccepted.eq_def]
  cases k with
  | plain =>
    dsimp only
    split
    · exact (waitWritable_outcome _).after
        ((hsent _).trans (.update _ _ _ _ _ rfl rfl (by simp [hb])))
    · exact (done_outcome _ _).after ((hsent _).trans (.update _ _ _ _ _ rfl rfl (by simp [hb])))
  | rvpv =>
    dsimp only
    split
    · split
      · exact (waitWritable_outcome _).after ((hsent _).trans (.update _ _ _ _ _ rfl rfl rfl))
      · exact (done_outcome _ _).after ((hsent _).trans (.update _ _ _ _ _ rfl rfl (by simp [hb])))
    · exact (crash_outcome _).after ((hsent _).trans (.update _ _ _ _ _ rfl rfl rfl))
  | rvpvav =>
    dsimp only
    split
    · split
      · split
        · exact (waitWritable_outcome _).after ((hsent _).trans (.update _ _ _ _ _ rfl rfl rfl))
        · exact rvpvavNextBuf_outcome.after ((hsent _).trans (.update _ _ _ _ _ rfl rfl rfl))
      · exact (crash_outcome _).after ((hsent _).trans (.update _ _ _ _ _ rfl rfl rfl))
    · exact (crash_outcome _).after ((hsent _).trans (.update _ _ _ _ _ rfl rfl rfl))

theorem request_isSome {k : Kind} {q : Request} (h : c.request k = some q) :
    c.writerBuffer.isSome := by
  cases hb : c.writerBuffer with
  | some sv => rfl
  | none =>
    unfold Conn.request at h
    rw [hb] at h
    cases k <;> cases h

theorem writerSend_outcome (k : Kind) (r : SendResult) :
    WriterOutcome cb c (writerSend cfg ok k c cb r) := by
  rw [writerSend]
  split
  · exact crash_outcome c
  · next q hq =>
    cases r with
    | error =>
      exact ((fail_outcome _ _).after (resetOnWriteError_move k)).after
        (.update c _ _ _ _ rfl rfl rfl)
    | zero =>
      exact ((fail_outcome _ _).after (resetOnWriteError_move k)).after
        (.update c _ _ _ _ rfl rfl rfl)
    | again =>
      dsimp only
      have hm : WriterMove cb c { c with
          write := { c.write with ready := false }, trace := c.trace ++ [.sent []] } :=
        (WriterMove.observe c (.sent []) trivial).trans (.update _ _ _ _ _ rfl rfl rfl)
      split
      · exact (fail_outcome _ _).after (hm.trans (resetOnEventError_move k))
      · next h =>
        split
        · exact ⟨hm.trans (handleWrite_move h), .send k⟩
        · exact ⟨(hm.trans (handleWrite_move h)).trans armWrite_move, .ret⟩
    | accepted n => exact sendAccepted_outcome k q n (request_isSome hq)

theorem continueWriter_outcome (k : Kind) :
    WriterOutcome cb c (continueWriter cfg ok k c cb) := by
  rw [continueWriter.eq_def]
  cases k with
  | plain =>
    dsimp only
    split
    · exact ⟨.refl c, .send _⟩
    · exact waitWritable_outcome _
  | rvpv =>
    dsimp only
    split
    · exact ⟨.refl c, .send _⟩
    · exact waitWritable_outcome _
  | rvpvav =>
    dsimp only
    split
    · exact rvpvavNextBuf_outcome.after (.update c _ _ _ _ rfl rfl rfl)
    · exact (waitWritable_outcome _).after (.update c _ _ _ _ rfl rfl rfl)

/-! ### Reader code -/

/-- What reader code can append to the trace, calling back with `cb`. -/
def ReaderObs (cb : Nat) (r : Option Callback) : Obs → Prop
  | .received _ => True
  | .called cb' r' site _ => cb' = cb ∧ r' = r ∧ (site = .failed ∨ site = .readerData)
  | .sent _ | .loaded _ => False

/-- Reader code, calling back with `cb`, turns `c` into `c'`. -/
structure ReaderMove (cb : Nat) (c c' : Conn) : Prop where
  frame : c' = { c with
    read := c'.read
    readerBuffer := c'.readerBuffer
    unread := c'.unread
    eof := c'.eof
    pending := c'.pending
    trace := c'.trace }
  handler : c'.read.handler = c.read.handler
  timedout : c'.read.timedout = c.read.timedout
  buffer : c'.readerBuffer.isSome = c.readerBuffer.isSome
  trace : ∃ l, c'.trace = c.trace ++ l ∧ ∀ x ∈ l, ReaderObs cb c.callbacks[cb]? x

/-- The frames reader code can leave. -/
inductive ReaderFrames (cb : Nat) : List Frame → Prop
  | ret : ReaderFrames cb []
  | recv : ReaderFrames cb [.recv cb]
  | data : ReaderFrames cb [.inCallback cb .readerData]
  | failed : ReaderFrames cb [.inCallback cb .failed]
  | crash : ReaderFrames cb [.crash]

theorem ReaderFrames.length_le {fs : List Frame} (h : ReaderFrames cb fs) : fs.length ≤ 1 := by
  cases h <;> simp

structure ReaderOutcome (cb : Nat) (c : Conn) (o : Outcome) : Prop where
  move : ReaderMove cb c o.1
  frames : ReaderFrames cb o.2

namespace ReaderMove

theorem callbacks (h : ReaderMove cb c c') : c'.callbacks = c.callbacks := by
  rw [h.frame]

theorem write (h : ReaderMove cb c c') : c'.write = c.write := by
  rw [h.frame]

theorem destroyed (h : ReaderMove cb c c') : c'.destroyed = c.destroyed := by
  rw [h.frame]

theorem readerCallback (h : ReaderMove cb c c') : c'.readerCallback = c.readerCallback := by
  rw [h.frame]

theorem writerCallback (h : ReaderMove cb c c') : c'.writerCallback = c.writerCallback := by
  rw [h.frame]

theorem writerBuffer (h : ReaderMove cb c c') : c'.writerBuffer = c.writerBuffer := by
  rw [h.frame]

theorem hasReader (h : ReaderMove cb c c') : c'.hasReader = c.hasReader := by
  rw [Conn.hasReader, Conn.hasReader, h.readerCallback, h.buffer]

theorem refl (c : Conn) : ReaderMove cb c c :=
  ⟨rfl, rfl, rfl, rfl, [], by simp, by simp⟩

theorem trans (h : ReaderMove cb c c') (h' : ReaderMove cb c' c'') : ReaderMove cb c c'' := by
  obtain ⟨l, hl, hobs⟩ := h.trace
  obtain ⟨l', hl', hobs'⟩ := h'.trace
  refine ⟨?_, h'.handler.trans h.handler, h'.timedout.trans h.timedout,
    h'.buffer.trans h.buffer, l ++ l', ?_, ?_⟩
  · have hf := h'.frame
    rw [h.frame] at hf
    exact hf
  · rw [hl', hl, List.append_assoc]
  · intro x hx
    rcases List.mem_append.mp hx with hx | hx
    · exact hobs x hx
    · exact h.callbacks ▸ hobs' x hx

/-- A change of the read event that keeps its handler and its `timedout` bit, of the
    read buffer and of the socket. -/
theorem update (c : Conn) (r : Event ReadHandler) (b : Option ReadBuffer) (unread : Bytes)
    (eof : Bool) (pending : Nat) (hh : r.handler = c.read.handler)
    (ht : r.timedout = c.read.timedout) (hb : b.isSome = c.readerBuffer.isSome) :
    ReaderMove cb c { c with
      read := r, readerBuffer := b, unread := unread, eof := eof, pending := pending } :=
  ⟨rfl, hh, ht, hb, [], by simp, by simp⟩

theorem observe (c : Conn) (x : Obs) (hx : ReaderObs cb c.callbacks[cb]? x) :
    ReaderMove cb c { c with trace := c.trace ++ [x] } :=
  ⟨rfl, rfl, rfl, rfl, [x], rfl, by simpa using hx⟩

end ReaderMove

theorem ReaderOutcome.after (h : ReaderOutcome cb c' o) (h' : ReaderMove cb c c') :
    ReaderOutcome cb c o :=
  ⟨h'.trans h.move, h.frames⟩

theorem handleRead_eq {m : EventMethod} (h : c.handleRead m ok = some c') :
    c' = { c with
      read := { c.read with active := c'.read.active }
      pending := if c'.read.active && !c.read.active && c.hasInput then c.pending + 1
        else c.pending } := by
  simp only [Conn.handleRead, Option.map_eq_some_iff] at h
  obtain ⟨rev, hr, rfl⟩ := h
  have he := ngxHandleEvent_eq hr
  rw [he]

theorem handleRead_move {m : EventMethod} (h : c.handleRead m ok = some c') :
    ReaderMove cb c c' := by
  rw [handleRead_eq h]
  exact .update c _ _ _ _ _ rfl rfl rfl

theorem armRead_move : ReaderMove cb c c.armRead :=
  .update c _ _ _ _ _ rfl rfl rfl

theorem readFail_outcome (c : Conn) (e : CbError) : ReaderOutcome cb c (fail c cb e) :=
  ⟨.observe c _ ⟨rfl, rfl, .inl rfl⟩, .failed⟩

theorem data_outcome (c : Conn) : ReaderOutcome cb c (ngxeCallback c cb none .readerData) :=
  ⟨.observe c _ ⟨rfl, rfl, .inr rfl⟩, .data⟩

theorem recvAgain_outcome {svbuf : ReadBuffer} (hb : c.readerBuffer.isSome) :
    ReaderOutcome cb c (recvAgain cfg c cb svbuf) := by
  have hm : ∀ b, ReaderMove cb c { c with readerBuffer := some b } := fun b =>
    .update c _ _ _ _ _ rfl rfl (by simp [hb])
  rw [recvAgain.eq_def]
  dsimp only
  split
  · exact (data_outcome _).after (hm _)
  · exact ⟨hm _, .recv⟩

/-- What `c->recv` can answer, and what it does to the connection. -/
inductive RecvStep (m : EventMethod) (c : Conn) (size : Nat) (err : Bool) :
    Conn × RecvResult → Prop
  | error :
      RecvStep m c size err
        ({ c with read := { c.read with ready := false, error := true } }, .error)
  | data (h : c.unread ≠ []) :
      RecvStep m c size err
        ({ c with
            unread := c.unread.drop size
            read := { c.read with
              ready := c.read.ready &&
                (m.greedy || decide (size ≤ (c.unread.take size).length)) }
            trace := c.trace ++ [.received (c.unread.take size)] },
          .data (c.unread.take size))
  | eof :
      RecvStep m c size err ({ c with eof := false, read := { c.read with ready := false } }, .eof)
  | again (herr : err = false) (h : c.unread = []) (he : c.eof = false) :
      RecvStep m c size err ({ c with read := { c.read with ready := false } }, .again)

theorem ngxUnixRecv_step {m : EventMethod} {size : Nat} (err : Bool) :
    RecvStep m c size err (ngxUnixRecv m c size err) := by
  rw [ngxUnixRecv]
  split
  · exact .error
  next herr =>
  split
  · next hun => exact .data hun
  next hun =>
  split
  · exact .eof
  · next he =>
    exact .again (Bool.eq_false_iff.mpr herr) (not_not.mp hun) (Bool.eq_false_iff.mpr he)

theorem ngxUnixRecv_move {m : EventMethod} {size : Nat} {err : Bool} :
    ReaderMove cb c (ngxUnixRecv m c size err).1 := by
  have hstep := @ngxUnixRecv_step c m size err
  generalize ngxUnixRecv m c size err = p at hstep ⊢
  cases hstep with
  | error => exact .update c _ _ _ _ _ rfl rfl rfl
  | data hun =>
    exact (ReaderMove.observe c (.received _) trivial).trans (.update _ _ _ _ _ _ rfl rfl rfl)
  | eof | again herr hun he => exact .update c _ _ _ _ _ rfl rfl rfl

theorem readerRecv_outcome {err : Bool} : ReaderOutcome cb c (readerRecv cfg ok c cb err) := by
  rw [readerRecv]
  split
  · exact ⟨.refl c, .crash⟩
  · next svbuf hbuf =>
    have hm := @ngxUnixRecv_move c cb cfg.method (svbuf.len - svbuf.cur - 1) err
    generalize ngxUnixRecv cfg.method c (svbuf.len - svbuf.cur - 1) err = p at hm
    obtain ⟨c₁, r⟩ := p
    cases r with
    | error | eof => exact (readFail_outcome _ _).after hm
    | again => exact ⟨hm.trans armRead_move, .ret⟩
    | data b =>
      dsimp only
      have hb : c₁.readerBuffer.isSome := by rw [hm.buffer, hbuf]; rfl
      generalize hsv : ({ svbuf with data := svbuf.data ++ b } : ReadBuffer) = svbuf'
      have hm' : ReaderMove cb c { c₁ with readerBuffer := some svbuf' } :=
        hm.trans (.update c₁ _ _ _ _ _ rfl rfl (by simp [hb]))
      split
      · exact (readFail_outcome _ _).after hm'
      · next c₂ h₂ =>
        have hm₂ := hm'.trans (handleRead_move h₂)
        split
        · split
          · exact (readFail_outcome _ _).after (hm₂.trans armRead_move)
          · next c₃ h₃ =>
            have hm₃ := (hm₂.trans armRead_move).trans (handleRead_move h₃)
            split
            · refine (recvAgain_outcome ?_).after hm₃
              rw [hm₃.buffer, hbuf]
              rfl
            · exact ⟨hm₃.trans armRead_move, .ret⟩
        · exact (data_outcome _).after (hm₂.trans armRead_move)

/-- The reader handler calls back with `s->reader_callback`. -/
theorem ngxeReaderHandler_outcome {ev : Event ReadHandler}
    (hcb : ∀ r, c.readerCallback = some r → r = cb) :
    ReaderOutcome cb c (ngxeReaderHandler cfg c ev) := by
  rw [ngxeReaderHandler]
  split
  · exact ⟨.refl c, .ret⟩
  · exact ⟨.refl c, .ret⟩
  · next r svbuf hr hb =>
    obtain rfl := hcb r hr
    split
    · exact readFail_outcome c _
    · exact (recvAgain_outcome (by simp [hb])).after (.update c _ _ _ _ _ rfl rfl rfl)

theorem readFailUnchecked_outcome {r : Option Nat} (e : CbError)
    (hcb : ∀ x, r = some x → x = cb) : ReaderOutcome cb c (failUnchecked c r e) := by
  cases r with
  | none => exact ⟨.refl c, .crash⟩
  | some x =>
    obtain rfl := hcb x rfl
    exact readFail_outcome c e

theorem ngxeReaderStart_outcome (hcb : ∀ r, c.readerCallback = some r → r = cb) :
    ReaderOutcome cb c.installReader (ngxeReaderStart cfg ok c) := by
  rw [ngxeReaderStart]
  split
  · exact readFailUnchecked_outcome _ hcb
  · next c' h => exact ⟨(handleRead_move h).trans armRead_move, .ret⟩

/-- `afterReader` reaches `ngxe_reader_stop(c); ngxe_writer_start(c)`. -/
def Conn.switchesToWriter (c : Conn) : Bool :=
  !c.destroyed && decide (c.read.handler ≠ .dummy) && decide (c.write.handler = .dummy) &&
    c.wantsWriter

theorem Conn.switchesToWriter_iff : c.switchesToWriter = true ↔
    c.destroyed = false ∧ c.read.handler ≠ .dummy ∧ c.write.handler = .dummy ∧
      c.wantsWriter = true := by
  simp only [Conn.switchesToWriter, Bool.and_eq_true, Bool.not_eq_true', decide_eq_true_eq,
    and_assoc]

theorem afterReader_switches (h : c.switchesToWriter = true) :
    afterReader cfg ok c cb =
      ngxeWriterStart cfg ok (ngxeReaderStop { c with writerOffset := 0, writerIndex := 0 }) := by
  obtain ⟨hd, hr, hw, hwants⟩ := Conn.switchesToWriter_iff.mp h
  rw [afterReader, hd, if_neg Bool.false_ne_true, if_neg hr, if_neg (not_not.mpr hw), hwants,
    if_pos rfl]

/-- The code after the success callback of the reader goes on reading. -/
inductive ReadsOn (cfg : Config) (ok : Bool) (c : Conn) (cb : Nat) : Outcome → Prop
  | fail : ReadsOn cfg ok c cb (fail c cb .eventError)
  | recv {c₁ : Conn} {svbuf : ReadBuffer} (h₁ : c.handleRead cfg.method ok = some c₁)
      (hready : c₁.read.ready = true) (hb : c₁.readerBuffer = some svbuf) :
      ReadsOn cfg ok c cb (recvAgain cfg c₁ cb svbuf)
  | crash {c₁ : Conn} (h₁ : c.handleRead cfg.method ok = some c₁)
      (hready : c₁.read.ready = true) (hb : c₁.readerBuffer = none) :
      ReadsOn cfg ok c cb (c₁, [.crash])
  | wait {c₁ : Conn} (h₁ : c.handleRead cfg.method ok = some c₁)
      (hready : c₁.read.ready = false) : ReadsOn cfg ok c cb (c₁.armRead, [])

theorem ReadsOn.outcome (h : ReadsOn cfg ok c cb o) : ReaderOutcome cb c o := by
  cases h with
  | fail => exact readFail_outcome c _
  | recv h₁ hready hb => exact (recvAgain_outcome (by simp [hb])).after (handleRead_move h₁)
  | crash h₁ hready hb => exact ⟨handleRead_move h₁, .crash⟩
  | wait h₁ hready => exact ⟨(handleRead_move h₁).trans armRead_move, .ret⟩

/-- The code after the success callback of the reader, case by case. -/
inductive ReaderReturns (cfg : Config) (ok : Bool) (c : Conn) (cb : Nat) : Outcome → Prop
  | ret (h : c.destroyed = true ∨ c.read.handler = .dummy ∨ c.write.handler ≠ .dummy) :
      ReaderReturns cfg ok c cb (c, [])
  | switch (h : c.switchesToWriter = true) : ReaderReturns cfg ok c cb
      (ngxeWriterStart cfg ok (ngxeReaderStop { c with writerOffset := 0, writerIndex := 0 }))
  | reads {o : Outcome} (hopen : c.destroyed = false) (hh : c.read.handler ≠ .dummy)
      (hwants : c.wantsWriter = false) (h : ReadsOn cfg ok c cb o) : ReaderReturns cfg ok c cb o

theorem afterReader_cases (cfg : Config) (ok : Bool) (c : Conn) (cb : Nat) :
    ReaderReturns cfg ok c cb (afterReader cfg ok c cb) := by
  rw [afterReader]
  split
  · next hd => exact .ret (.inl hd)
  next hd =>
  split
  · next hr => exact .ret (.inr (.inl hr))
  next hr =>
  split
  · next hw => exact .ret (.inr (.inr hw))
  next hw =>
  have hopen : c.destroyed = false := eq_false_of_ne_true hd
  split
  · next hwants => exact .switch (Conn.switchesToWriter_iff.mpr ⟨hopen, hr, not_not.mp hw, hwants⟩)
  next hwants =>
  refine .reads hopen hr (eq_false_of_ne_true hwants) ?_
  split
  · exact .fail
  next h₁ =>
  split
  · next hready =>
    split
    · next hb => exact .recv h₁ hready hb
    · next hb => exact .crash h₁ hready hb
  · next hready => exact .wait h₁ (eq_false_of_ne_true hready)

/-- Without the switch to the writer it goes on reading, or returns. -/
theorem ReaderReturns.outcome (h : ReaderReturns cfg ok c cb o) (hsw : c.switchesToWriter = false) :
    ReaderOutcome cb c o := by
  cases h with
  | ret h => exact ⟨.refl c, .ret⟩
  | switch h => cases hsw.symm.trans h
  | reads hopen hh hwants h => exact h.outcome

theorem afterReader_outcome (h : c.switchesToWriter = false) :
    ReaderOutcome cb c (afterReader cfg ok c cb) :=
  (afterReader_cases cfg ok c cb).outcome h

/-- The code after the success callback of a writer, case by case. -/
inductive WriterReturns (cfg : Config) (ok : Bool) (k : Kind) (c : Conn) (cb : Nat) :
    Outcome → Prop
  | ret (h : c.destroyed = true ∨ c.write.handler = .dummy) : WriterReturns cfg ok k c cb (c, [])
  | crash (hopen : c.destroyed = false) (hh : c.write.handler ≠ .dummy)
      (hbad : ∀ sv, c.writerBuffer = some sv → k = .rvpv ∧ sv = .rvOther) :
      WriterReturns cfg ok k c cb (c, [.crash])
  | more {sv : Sv} (hopen : c.destroyed = false) (hh : c.write.handler ≠ .dummy)
      (hb : c.writerBuffer = some sv) (hmore : moreToWrite k sv = true) :
      WriterReturns cfg ok k c cb (continueWriter cfg ok k c cb)
  | reader {sv : Sv} (hopen : c.destroyed = false) (hh : c.write.handler ≠ .dummy)
      (hb : c.writerBuffer = some sv) (hrv : ¬ (k = .rvpv ∧ sv = .rvOther))
      (hmore : moreToWrite k sv = false) (hr : c.hasReader = true) :
      WriterReturns cfg ok k c cb (ngxeReaderStart cfg ok (ngxeWriterStop c))
  | rest {sv : Sv} (hopen : c.destroyed = false) (hh : c.write.handler ≠ .dummy)
      (hb : c.writerBuffer = some sv) (hmore : moreToWrite k sv = false)
      (hr : c.hasReader = false) : WriterReturns cfg ok k c cb (c, [])

theorem afterWriter_cases (cfg : Config) (ok : Bool) (k : Kind) (c : Conn) (cb : Nat) :
    WriterReturns cfg ok k c cb (afterWriter cfg ok k c cb) := by
  rw [afterWriter]
  split
  · next hd => exact .ret (.inl hd)
  next hd =>
  have hopen : c.destroyed = false := eq_false_of_ne_true hd
  split
  · next hw => exact .ret (.inr hw)
  next hh =>
  split
  · next hb => exact .crash hopen hh fun sv hsv => by cases hb.symm.trans hsv
  next sv hb =>
  split
  · next hrv =>
    refine .crash hopen hh fun sv' hsv => ?_
    cases Option.some.inj (hb.symm.trans hsv)
    exact hrv
  next hrv =>
  split
  · next hmore => exact .more hopen hh hb hmore
  next hmore =>
  have hmore : moreToWrite k sv = false := eq_false_of_ne_true hmore
  rw [switchToReader]
  split
  · next hr => exact .reader hopen hh hb hrv hmore hr
  · next hr => exact .rest hopen hh hb hmore (eq_false_of_ne_true hr)

theorem ngxeClose_destroyed (c : Conn) : (ngxeClose c).destroyed = true := by
  rw [ngxeClose]
  split <;> simp_all

theorem close_keeps (c : Conn) : (ngxeClose c).writerBuffer = c.writerBuffer ∧
    (ngxeClose c).writerOffset = c.writerOffset ∧ (ngxeClose c).writerIndex = c.writerIndex ∧
    (ngxeClose c).writerCallback = c.writerCallback ∧ (ngxeClose c).trace = c.trace ∧
    (ngxeClose c).write.handler = c.write.handler ∧
    (ngxeClose c).write.timedout = c.write.timedout ∧
    (ngxeClose c).read.handler = c.read.handler := by
  rw [ngxeClose]
  split
  · exact ⟨rfl, rfl, rfl, rfl, rfl, rfl, rfl, rfl⟩
  · exact ⟨rfl, rfl, rfl, rfl, rfl, rfl, rfl, rfl⟩

/-- Where the test of `c->destroyed` fails the rest of a handler does nothing to the
    connection: at most the record of the callback is released. -/
theorem afterCallback_destroyed {ok : Bool} {c : Conn} {cb : Nat} {site : Site}
    (hd : c.destroyed = true) :
    (afterCallback cfg ok c cb site).2 = [] ∧
      ((afterCallback cfg ok c cb site).1 = c ∨
        (afterCallback cfg ok c cb site).1 = c.release cb) := by
  cases site with
  | readerData => simp [afterCallback, afterReader, hd]
  | writerDone k => simp [afterCallback, afterWriter, hd]
  | failed => simp [afterCallback, ngxeClose, Conn.release, hd]
  | connected => simp [afterCallback]

theorem ngxeWriterHandler_of_not_hasWriter {ev : Event WriteHandler} (h : c.hasWriter = false) :
    ngxeWriterHandler c ev = (c, []) := by
  simp only [Conn.hasWriter, Bool.and_eq_false_iff, Option.isSome_eq_false_iff,
    Option.isNone_iff_eq_none] at h
  rw [ngxeWriterHandler]
  split
  · rfl
  · rfl
  all_goals simp_all

theorem ngxeReaderHandler_of_not_hasReader {ev : Event ReadHandler} (h : c.hasReader = false) :
    ngxeReaderHandler cfg c ev = (c, []) := by
  simp only [Conn.hasReader, Bool.and_eq_false_iff, Option.isSome_eq_false_iff,
    Option.isNone_iff_eq_none] at h
  rw [ngxeReaderHandler]
  split
  · rfl
  · rfl
  · simp_all

theorem ngxeWriterHandler_rv {ev : Event WriteHandler} {b : Bytes}
    (hcb : c.writerCallback = some cb) (hb : c.writerBuffer = some (.rv b)) :
    ngxeWriterHandler c ev = ngxeRvpvWriterHandler c ev cb b := by
  rw [ngxeWriterHandler]
  split <;> simp_all

theorem ngxeWriterHandler_av {ev : Event WriteHandler} {xs : List (Option Bytes)}
    (hcb : c.writerCallback = some cb) (hb : c.writerBuffer = some (.av xs)) :
    ngxeWriterHandler c ev = ngxeRvpvavWriterHandler c ev cb := by
  rw [ngxeWriterHandler]
  split <;> simp_all

/-- A value that is no reference is sent by `ngxe_writer_handler` itself. -/
theorem ngxeWriterHandler_plain {ev : Event WriteHandler} {sv : Sv}
    (hcb : c.writerCallback = some cb) (hb : c.writerBuffer = some sv) (hr : sv.rok = false)
    (hto : ev.timedout = false) :
    ngxeWriterHandler c ev =
      if sv.cur = 0 then
        ngxeCallback { c with write := c.write.delTimer } cb none (.writerDone .plain)
      else ({ c with write := c.write.delTimer }, [.send .plain cb]) := by
  rw [ngxeWriterHandler]
  cases sv with
  | undef | str b => split <;> simp_all
  | rv b | av xs | rvOther => cases hr

/-- A writer whose timer has expired calls back with an error, whatever is in the
    write buffer. -/
theorem ngxeWriterHandler_timedout {ev : Event WriteHandler} (hw : c.hasWriter = true)
    (hto : ev.timedout = true) : ∃ cb e, ngxeWriterHandler c ev = fail c cb e := by
  simp only [Conn.hasWriter, Bool.and_eq_true, Option.isSome_iff_exists] at hw
  obtain ⟨⟨w, hwc⟩, ⟨sv, hb⟩⟩ := hw
  cases sv with
  | undef | str b => exact ⟨w, .timedOut, by simp [ngxeWriterHandler, hwc, hb, hto]⟩
  | rv b =>
    exact ⟨w, .timedOut, by simp [ngxeWriterHandler, ngxeRvpvWriterHandler, hwc, hb, hto]⟩
  | av xs =>
    exact ⟨w, .timedOut, by simp [ngxeWriterHandler, ngxeRvpvavWriterHandler, hwc, hb, hto]⟩
  | rvOther => exact ⟨w, .unsupportedBuffer, by simp [ngxeWriterHandler, hwc, hb]⟩

/-- `ngxe_client_init_handler` takes both handlers away, and calls the callback if there is
    one. -/
inductive ClientInit (c : Conn) : Outcome → Prop
  | none (hcb : c.writerCallback = none) : ClientInit c ({ c with
      read := { c.read with handler := .dummy }
      write := { c.write with handler := .dummy } }, [])
  | call {cb : Nat} (w : Event WriteHandler) (err : Option CbError) (site : Site)
      (hcb : c.writerCallback = some cb) (hw : w.handler = .dummy)
      (hsite : site = .failed ∨ site = .connected) :
      ClientInit c (ngxeCallback { c with read := { c.read with handler := .dummy }, write := w }
        cb err site)

theorem clientInit_cases {H : Type} (c : Conn) (ev : Event H) :
    ClientInit c (ngxeClientInitHandler c ev) := by
  rw [ngxeClientInitHandler]
  dsimp only
  split
  · next hcb => exact .none hcb
  next cb hcb =>
  split
  · exact .call _ _ _ hcb rfl (.inl rfl)
  split
  · exact .call _ _ _ hcb rfl (.inl rfl)
  · exact .call { c.write.delTimer with handler := .dummy } _ _ hcb rfl (.inr rfl)

/-- `ngxe_writer_buffer_set` loads the data and starts the writer, or does nothing. -/
inductive BufferSet (cfg : Config) (ok : Bool) (c : Conn) : Outcome → Prop
  | nothing : BufferSet cfg ok c (c, [])
  | start (sv : Sv) (offset : Int) (index : Nat) (hb : c.writerBuffer.isSome = true) :
      BufferSet cfg ok c
        (ngxeWriterStart cfg ok { c.load sv with writerOffset := offset, writerIndex := index })

theorem bufferSet_cases (cfg : Config) (ok : Bool) (c : Conn) (data : Sv) :
    BufferSet cfg ok c (ngxeWriterBufferSet cfg ok c data) := by
  rw [ngxeWriterBufferSet.eq_def]
  split
  · exact .nothing
  · next hb => exact .start _ 0 c.writerIndex (by simp [hb])
  · next hb => exact .start _ 0 0 (by simp [hb])
  · exact .nothing
  · next hb => exact .start _ c.writerOffset c.writerIndex (by simp [hb])
  · next hb _ _ _ _ => exact .start _ c.writerOffset c.writerIndex (by simp [hb])

/-! ### The frames below the innermost one -/

theorem ngxeClientInitHandler_length {H : Type} {ev : Event H} :
    (ngxeClientInitHandler c ev).2.length ≤ 1 := by
  have ho := clientInit_cases c ev
  generalize ngxeClientInitHandler c ev = o at ho ⊢
  cases ho with
  | none hcb => exact Nat.zero_le 1
  | call w err site hcb hw hsite => exact Nat.le_refl 1

theorem ngxeWriterHandler_length {ev : Event WriteHandler} :
    (ngxeWriterHandler c ev).2.length ≤ 1 := by
  obtain ⟨cb, hcb⟩ := exists_writerCallback c
  exact (ngxeWriterHandler_outcome hcb).frames.length_le

theorem ngxeReaderHandler_length {ev : Event ReadHandler} :
    (ngxeReaderHandler cfg c ev).2.length ≤ 1 := by
  obtain ⟨cb, hcb⟩ := exists_readerCallback c
  exact (ngxeReaderHandler_outcome hcb).frames.length_le

theorem ngxeWriterStart_length : (ngxeWriterStart cfg ok c).2.length ≤ 1 := by
  obtain ⟨cb, hcb⟩ := exists_writerCallback c
  exact (ngxeWriterStart_outcome hcb).frames.length_le

theorem ngxeReaderStart_length : (ngxeReaderStart cfg ok c).2.length ≤ 1 := by
  obtain ⟨cb, hcb⟩ := exists_readerCallback c
  exact (ngxeReaderStart_outcome hcb).frames.length_le

theorem callReadHandler_length : (callReadHandler cfg c).2.length ≤ 1 := by
  rw [callReadHandler]
  split
  · exact Nat.zero_le 1
  · exact ngxeReaderHandler_length
  · exact ngxeClientInitHandler_length

theorem callWriteHandler_length : (callWriteHandler c).2.length ≤ 1 := by
  rw [callWriteHandler]
  split
  · exact Nat.zero_le 1
  · exact ngxeWriterHandler_length
  · exact ngxeClientInitHandler_length

theorem WriterReturns.length_le {k : Kind} (h : WriterReturns cfg ok k c cb o) :
    o.2.length ≤ 1 := by
  cases h with
  | ret h => exact Nat.zero_le 1
  | crash hopen hh hbad => exact Nat.le_refl 1
  | more hopen hh hb hmore => exact (continueWriter_outcome k).frames.length_le
  | reader hopen hh hb hrv hmore hr => exact ngxeReaderStart_length
  | rest hopen hh hb hmore hr => exact Nat.zero_le 1

theorem ReaderReturns.length_le (h : ReaderReturns cfg ok c cb o) : o.2.length ≤ 1 := by
  cases h with
  | ret h => exact Nat.zero_le 1
  | switch h => exact ngxeWriterStart_length
  | reads hopen hh hwants h => exact h.outcome.frames.length_le

theorem afterCallback_length {site : Site} : (afterCallback cfg ok c cb site).2.length ≤ 1 := by
  cases site with
  | readerData => exact (afterReader_cases cfg ok c cb).length_le
  | writerDone k => exact (afterWriter_cases cfg ok k c cb).length_le
  | failed | connected => exact Nat.zero_le 1

theorem ngxeWriterBufferSet_length {sv : Sv} : (ngxeWriterBufferSet cfg ok c sv).2.length ≤ 1 := by
  have ho := bufferSet_cases cfg ok c sv
  generalize ngxeWriterBufferSet cfg ok c sv = o at ho ⊢
  cases ho with
  | nothing => exact Nat.zero_le 1
  | start sv offset index hb => exact ngxeWriterStart_length

theorem applyOp_length {op : Op} : (applyOp cfg ok c op).2.length ≤ 1 := by
  cases op with
  | reader start timeout =>
    cases start with
    | true => exact ngxeReaderStart_length
    | false => exact Nat.zero_le 1
  | writer start timeout buffer =>
    cases start with
    | true => exact ngxeWriterStart_length
    | false => exact Nat.zero_le 1
  | readerStart timeout | writerStopReaderStart => exact ngxeReaderStart_length
  | writerStart timeout | readerStopWriterStart => exact ngxeWriterStart_length
  | writerBufferSet data => exact ngxeWriterBufferSet_length
  | _ => exact Nat.zero_le 1

/-- Only the innermost frame is C code that is not waiting for Perl code. -/
def PerlBelow (stk : List Frame) : Prop := ∀ g ∈ stk.tail, g.isPerl = true

theorem PerlBelow.resume {fs rest : List Frame} (hlen : fs.length ≤ 1)
    (hrest : ∀ g ∈ rest, g.isPerl = true) : PerlBelow (fs ++ rest) := by
  match fs with
  | [] => exact fun g hg => hrest g (List.mem_of_mem_tail hg)
  | [f] => exact hrest
  | _ :: _ :: _ => simp at hlen

theorem perlBelow_step {s t : Sys} {i : Input} (h : PerlBelow s.stack) (hs : Step cfg s i t) :
    PerlBelow t.stack := by
  cases hs with
  | arrive b hb he | arriveEof he | hangup => exact h
  | readEvent hopen hr => exact .resume callReadHandler_length (by simp)
  | writeEvent hopen ha => exact .resume callWriteHandler_length (by simp)
  | readTimer hopen ht => exact .resume callReadHandler_length (by simp)
  | writeTimer hopen ht => exact .resume callWriteHandler_length (by simp)
  | enter => exact fun g hg => by cases hg
  | leave => exact fun g hg => h g (List.mem_of_mem_tail hg)
  | op o ok hf hopen =>
    refine .resume applyOp_length fun g hg => ?_
    rcases List.mem_cons.mp hg with rfl | hg
    · exact hf
    · exact h g hg
  | recv err ok => exact .resume readerRecv_outcome.frames.length_le h
  | send r ok hr => exact .resume (writerSend_outcome _ r).frames.length_le h
  | ret ok => exact .resume afterCallback_length h

theorem perlBelow_initial {s : Sys} (h : Initial cfg s) : PerlBelow s.stack := by
  cases h with
  | accepted => exact fun g hg => by cases hg
  | client connected timeout =>
    refine .resume ?_ (by simp [Frame.isPerl])
    rw [ngxeClient]
    dsimp only
    split
    · exact ngxeClientInitHandler_length
    · exact Nat.zero_le 1

/-! ### The trace -/

theorem WriterOutcome.trace_le (h : WriterOutcome cb c o) : c.trace <+: o.1.trace := by
  obtain ⟨l, hl, -⟩ := h.move.trace
  exact ⟨l, hl.symm⟩

theorem ReaderOutcome.trace_le (h : ReaderOutcome cb c o) : c.trace <+: o.1.trace := by
  obtain ⟨l, hl, -⟩ := h.move.trace
  exact ⟨l, hl.symm⟩

theorem ngxeWriterStart_trace_le {l : List Obs} (h : l <+: c.trace) :
    l <+: (ngxeWriterStart cfg ok c).1.trace := by
  obtain ⟨cb, hcb⟩ := exists_writerCallback c
  exact h.trans (ngxeWriterStart_outcome hcb).trace_le

theorem ngxeReaderStart_trace_le {l : List Obs} (h : l <+: c.trace) :
    l <+: (ngxeReaderStart cfg ok c).1.trace := by
  obtain ⟨cb, hcb⟩ := exists_readerCallback c
  exact h.trans (ngxeReaderStart_outcome hcb).trace_le

theorem clientInit_trace_le {H : Type} {ev : Event H} :
    c.trace <+: (ngxeClientInitHandler c ev).1.trace := by
  have ho := clientInit_cases c ev
  generalize ngxeClientInitHandler c ev = o at ho ⊢
  cases ho with
  | none hcb => exact List.prefix_refl _
  | call w err site hcb hw hsite => exact List.prefix_append _ _

theorem callReadHandler_trace_le {l : List Obs} (h : l <+: c.trace) :
    l <+: (callReadHandler cfg c).1.trace := by
  refine h.trans ?_
  obtain ⟨cb, hcb⟩ := exists_readerCallback c
  rw [callReadHandler]
  split
  · exact List.prefix_refl _
  · exact (ngxeReaderHandler_outcome hcb).trace_le
  · exact clientInit_trace_le

theorem callWriteHandler_trace_le {l : List Obs} (h : l <+: c.trace) :
    l <+: (callWriteHandler c).1.trace := by
  refine h.trans ?_
  obtain ⟨cb, hcb⟩ := exists_writerCallback c
  rw [callWriteHandler]
  split
  · exact List.prefix_refl _
  · exact (ngxeWriterHandler_outcome hcb).trace_le
  · exact clientInit_trace_le

theorem WriterReturns.trace_le {k : Kind} (h : WriterReturns cfg ok k c cb o) :
    c.trace <+: o.1.trace := by
  cases h with
  | ret h | crash hopen hh hbad => exact List.prefix_refl _
  | more hopen hh hb hmore => exact (continueWriter_outcome k).trace_le
  | reader hopen hh hb hrv hmore hr => exact ngxeReaderStart_trace_le (List.prefix_refl _)
  | rest hopen hh hb hmore hr => exact List.prefix_refl _

theorem ReaderReturns.trace_le (h : ReaderReturns cfg ok c cb o) : c.trace <+: o.1.trace := by
  cases h with
  | ret h => exact List.prefix_refl _
  | switch h => exact ngxeWriterStart_trace_le (List.prefix_refl _)
  | reads hopen hh hwants h => exact h.outcome.trace_le

theorem afterCallback_trace_le {site : Site} :
    c.trace <+: (afterCallback cfg ok c cb site).1.trace := by
  cases site with
  | readerData => exact (afterReader_cases cfg ok c cb).trace_le
  | writerDone k => exact (afterWriter_cases cfg ok k c cb).trace_le
  | failed => exact ⟨[], (List.append_nil _).trans (close_keeps (c.release cb)).2.2.2.2.1.symm⟩
  | connected => exact List.prefix_refl _

theorem ngxeWriterBufferSet_trace_le {sv : Sv} :
    c.trace <+: (ngxeWriterBufferSet cfg ok c sv).1.trace := by
  have ho := bufferSet_cases cfg ok c sv
  generalize ngxeWriterBufferSet cfg ok c sv = o at ho ⊢
  cases ho with
  | nothing => exact List.prefix_refl _
  | start sv offset index hb => exact ngxeWriterStart_trace_le (List.prefix_append _ _)

theorem applyOp_trace_le {op : Op} : c.trace <+: (applyOp cfg ok c op).1.trace := by
  cases op with
  | reader start timeout =>
    cases start with
    | true => exact ngxeReaderStart_trace_le (List.prefix_refl _)
    | false => exact List.prefix_refl _
  | writer start timeout sv =>
    cases start with
    | true => exact ngxeWriterStart_trace_le (List.prefix_append _ _)
    | false => exact List.prefix_append _ _
  | readerStart timeout | writerStopReaderStart =>
    exact ngxeReaderStart_trace_le (List.prefix_refl _)
  | writerStart timeout | readerStopWriterStart =>
    exact ngxeWriterStart_trace_le (List.prefix_refl _)
  | writerBufferSet sv => exact ngxeWriterBufferSet_trace_le
  | close => exact ⟨[], (List.append_nil _).trans (close_keeps c).2.2.2.2.1.symm⟩
  | setWriteBuffer sv =>
    rw [applyOp]
    split
    · exact List.prefix_append _ _
    · exact List.prefix_refl _
  | _ => exact List.prefix_refl _

/-- A step appends to the trace. -/
theorem step_trace_le {s t : Sys} {i : Input} (hs : Step cfg s i t) :
    s.c.trace <+: t.c.trace := by
  cases hs with
  | readEvent hopen hr => exact callReadHandler_trace_le (List.prefix_refl _)
  | writeEvent hopen ha => exact callWriteHandler_trace_le (List.prefix_refl _)
  | readTimer hopen ht => exact callReadHandler_trace_le (List.prefix_refl _)
  | writeTimer hopen ht => exact callWriteHandler_trace_le (List.prefix_refl _)
  | op o ok hf hopen => exact applyOp_trace_le
  | recv err ok => exact readerRecv_outcome.trace_le
  | send r ok hr => exact (writerSend_outcome _ r).trace_le
  | ret ok => exact afterCallback_trace_le
  | _ => exact List.prefix_refl _

/-! ### Connections that are going to be closed -/

/-- The connection is closed, or the callback that runs is the last thing before it is; no other
    code of its handlers waits. -/
structure Sys.Dead (s : Sys) : Prop where
  dead : s.c.destroyed = true ∨ ∃ f rest, s.stack = f :: rest ∧ f.fatal = true
  frames : ∀ f ∈ s.stack, f.isPerl = true ∨ f = .crash

/-- Nothing more happens on a connection that is going to be closed, calls apart. -/
theorem dead_step {s t : Sys} {i : Input} (h : s.Dead) (hno : ∀ o ok, i ≠ .op o ok)
    (hs : Step cfg s i t) :
    t.Dead ∧ t.c.trace = s.c.trace := by
  have hopen : s.stack = [] → s.c.destroyed = true := by
    intro hnil
    rcases h.dead with hd | ⟨f, rest, hstk, -⟩
    · exact hd
    · cases hnil.symm.trans hstk
  cases hs with
  | arrive b hb he | arriveEof he | hangup => exact ⟨⟨h.dead, h.frames⟩, rfl⟩
  | readEvent ho _ | writeEvent ho _ | readTimer ho _ | writeTimer ho _ =>
    exact absurd ((hopen rfl).symm.trans ho) (by decide)
  | enter =>
    refine ⟨⟨.inl (hopen rfl), fun f hf => ?_⟩, rfl⟩
    obtain rfl := List.mem_singleton.mp hf
    exact .inl rfl
  | leave =>
    refine ⟨⟨.inl ?_, fun f hf => h.frames f (List.mem_cons_of_mem _ hf)⟩, rfl⟩
    rcases h.dead with hd | ⟨f, rest, hstk, hf⟩
    · exact hd
    · cases hstk
      cases hf
  | op o ok hf ho => exact absurd rfl (hno o ok)
  | recv err ok | send r ok hr => rcases h.frames _ List.mem_cons_self with hf | hf <;> cases hf
  | @ret c cb site rest ok =>
    have hdead : ∀ {o : Outcome}, o.1.trace = c.trace → o.1.destroyed = true → o.2 = [] →
        (resume o rest).Dead ∧ (resume o rest).c.trace = c.trace := by
      rintro ⟨c', fs⟩ ht hd hfs
      have hfs : fs = [] := hfs
      subst hfs
      exact ⟨⟨.inl hd, fun f hf => h.frames f (List.mem_cons_of_mem _ hf)⟩, ht⟩
    rcases h.dead with hd | ⟨f, rest', hstk, hf⟩
    · obtain ⟨hfs, hc | hc⟩ := @afterCallback_destroyed cfg ok c cb site hd
      · exact hdead (by rw [hc]) (by rw [hc]; exact hd) hfs
      · exact hdead (by rw [hc]; rfl) (by rw [hc]; exact hd) hfs
    · cases hstk
      cases site with
      | failed => exact hdead (close_keeps (c.release cb)).2.2.2.2.1 (ngxeClose_destroyed _) rfl
      | readerData | writerDone k | connected => cases hf

theorem destroyed_step {s t : Sys} {i : Input} (h : s.c.destroyed = true) (hs : Step cfg s i t) :
    t.c.destroyed = true := by
  cases hs with
  | readEvent hopen _ | writeEvent hopen _ | readTimer hopen _ | writeTimer hopen _ =>
    exact absurd (h.symm.trans hopen) (by decide)
  | op o ok hf hopen =>
    rcases hopen with hopen | rfl
    · exact absurd (h.symm.trans hopen) (by decide)
    · exact ngxeClose_destroyed _
  | @recv c cb rest err ok =>
    show (readerRecv cfg ok c cb err).1.destroyed = true
    rw [readerRecv_outcome.move.destroyed]
    exact h
  | @send c k cb rest r ok hr =>
    show (writerSend cfg ok k c cb r).1.destroyed = true
    rw [(writerSend_outcome k r).move.destroyed]
    exact h
  | @ret c cb site rest ok =>
    obtain ⟨-, hc | hc⟩ := @afterCallback_destroyed cfg ok c cb site h
    · show (afterCallback cfg ok c cb site).1.destroyed = true
      rw [hc]
      exact h
    · show (afterCallback cfg ok c cb site).1.destroyed = true
      rw [hc]
      exact h
  | _ => exact h

/-- An error callback that runs is the last thing before the connection is closed. -/
theorem failed_step {s t : Sys} {i : Input} (h : ∃ cb, .inCallback cb .failed ∈ s.stack)
    (hs : Step cfg s i t) : t.c.destroyed = true ∨ ∃ cb, .inCallback cb .failed ∈ t.stack := by
  obtain ⟨cb, hmem⟩ := h
  cases hs with
  | arrive b hb he | arriveEof he | hangup => exact .inr ⟨cb, hmem⟩
  | readEvent hopen _ | writeEvent hopen _ | readTimer hopen _ | writeTimer hopen _ | enter =>
    cases hmem
  | leave =>
    rcases List.mem_cons.mp hmem with he | hmem
    · cases he
    · exact .inr ⟨cb, hmem⟩
  | op o ok hf hopen => exact .inr ⟨cb, List.mem_append_right _ hmem⟩
  | recv err ok =>
    rcases List.mem_cons.mp hmem with he | hmem
    · cases he
    · exact .inr ⟨cb, List.mem_append_right _ hmem⟩
  | send r ok hr =>
    rcases List.mem_cons.mp hmem with he | hmem
    · cases he
    · exact .inr ⟨cb, List.mem_append_right _ hmem⟩
  | ret ok =>
    rcases List.mem_cons.mp hmem with he | hmem
    · cases he
      exact .inl (ngxeClose_destroyed _)
    · exact .inr ⟨cb, List.mem_append_right _ hmem⟩

end NginxEngine.XS
