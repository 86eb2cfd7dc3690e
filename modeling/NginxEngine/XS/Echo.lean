import NginxEngine.Pipe
import NginxEngine.Trace
import NginxEngine.XS.HalfDuplex
import NginxEngine.XS.Intake

/-!
# The echo program on the C engine

The reader callback of the echo server of the README copies the read buffer to the write buffer
and empties the read buffer; its other callbacks only return. Such a connection is a pipe: the
reader receives, the callback hands over, the writer sends.

## Main definitions

- `Conn.pipe` — a connection as a pipe
- `EchoProgram` — what the callbacks do
- `EchoAt` — what holds of the pipe, by the frame on top

## Main results

- `echo_of_reaches` — every run of a started connection is a run of a pipe
-/

namespace NginxEngine.XS

variable {cfg : Config} {ok : Bool} {c c' : Conn} {cb : Nat} {o : Outcome} {s t : Sys}
  {rest : List Frame} {rt wt : Int} {b : Bytes} {x : Obs}

/-- A connection as a pipe: what `c->recv` and `c->send` have moved, and the two buffers. -/
def Conn.pipe (c : Conn) : Pipe UInt8 where
  received := c.trace.flatMap Obs.input
  sent := c.trace.flatMap Obs.output
  unsent := (c.writerBuffer.map Sv.bytes).getD []
  kept := (c.readerBuffer.map ReadBuffer.data).getD []

def Obs.isCalled : Obs → Bool
  | .called _ _ _ _ => true
  | _ => false

/-- The callback was just called. -/
def Conn.justCalled (c : Conn) : Bool := c.trace.getLast?.any Obs.isCalled

/-- The callback has assigned to `$_[3]`. -/
def Conn.justLoaded (c : Conn) : Bool := c.trace.getLast?.any Obs.isLoaded

/-- The program: after `$_[3] = $_[2]` the reader callback does `$_[2] = ''`, which leaves the
    string some allocated size, and returns. No other callback does anything. -/
def EchoProgram (s : Sys) : Input → Prop
  | .op (.setWriteBuffer sv) _ =>
    match s.stack with
    | .inCallback _ .readerData :: _ => s.c.justCalled ∧ sv = .str s.c.pipe.kept
    | _ => False
  | .op (.setReadBuffer b) _ =>
    match s.stack with
    | .inCallback _ .readerData :: _ => s.c.justLoaded ∧ b.data = []
    | _ => False
  | .op _ _ => False
  | .ret _ =>
    match s.stack with
    | .inCallback _ .readerData :: _ => s.c.justLoaded ∧ s.c.pipe.kept = []
    | _ => True
  | _ => True

/-- The reader was started and the writer created with an empty string, and nothing has been
    received, sent or kept. -/
structure EchoStarted (rt wt : Int) (s : Sys) : Prop where
  started : Started rt wt s
  empty : s.c.pipe = ⟨[], [], [], []⟩

instance {i : Input} : Decidable (EchoProgram s i) := by
  unfold EchoProgram
  generalize s.stack = stk
  induction i with
  | op o ok =>
    induction stk using List.casesOn with
    | nil => induction o <;> infer_instance
    | cons f rest =>
      induction f with
      | inCallback cb site => induction site <;> induction o <;> infer_instance
      | _ => induction o <;> infer_instance
  | ret ok =>
    induction stk using List.casesOn with
    | nil => infer_instance
    | cons f rest =>
      induction f with
      | inCallback cb site => induction site <;> infer_instance
      | _ => infer_instance
  | _ => infer_instance

theorem not_justLoaded (h : c.justCalled = true) : c.justLoaded ≠ true := by
  refine last_excludes (fun x hx => ?_) h
  cases x <;> first | rfl | cases hx

theorem EchoProgram.plainCallbacks {i : Input} (h : EchoProgram s i) : PlainCallbacks s i := by
  cases i with
  | op o ok =>
    cases o with
    | setWriteBuffer sv =>
      simp only [EchoProgram] at h
      split at h
      · next hstk =>
        obtain ⟨-, rfl⟩ := h
        simp [PlainCallbacks, hstk, Frame.isSetUp]
      · exact h.elim
    | setReadBuffer b =>
      simp only [EchoProgram] at h
      split at h
      · next hstk => simp [PlainCallbacks, hstk, Frame.isSetUp]
      · exact h.elim
    | _ => exact h.elim
  | _ => trivial

/-! ### The pipe under the code of the handlers -/

/-- What neither receives nor sends. -/
theorem pipe_observe (hi : x.input = []) (ho : x.output = []) :
    { c with trace := c.trace ++ [x] }.pipe = c.pipe := by
  simp [Conn.pipe, hi, ho]

theorem pipe_callback {err : Option CbError} {site : Site} :
    (ngxeCallback c cb err site).1.pipe = c.pipe :=
  pipe_observe rfl rfl

theorem pipe_handleRead {m : EventMethod} (h : c.handleRead m ok = some c') :
    c'.pipe = c.pipe := by
  rw [handleRead_eq h]
  rfl

theorem pipe_handleWrite {m : EventMethod} (h : c.handleWrite m ok = some c') :
    c'.pipe = c.pipe := by
  rw [handleWrite_eq h]
  rfl

/-- Reader code receives, and tells of data only by calling back. -/
structure Receives (c : Conn) (o : Outcome) : Prop where
  pipe : ∃ b, o.1.pipe = c.pipe.receive b
  told : ∀ cb rest, o.2 = .inCallback cb .readerData :: rest → o.1.justCalled

namespace Receives

theorem after (h : Receives c' o) (hp : c'.pipe = c.pipe) : Receives c o :=
  ⟨hp ▸ h.pipe, h.told⟩

theorem more (h : Receives c' o) (hp : c'.pipe = c.pipe.receive b) : Receives c o := by
  obtain ⟨b', hb'⟩ := h.pipe
  exact ⟨⟨b ++ b', by rw [hb', hp, Pipe.receive_receive]⟩, h.told⟩

theorem same (hp : o.1.pipe = c.pipe) (hf : ∀ cb rest, o.2 ≠ .inCallback cb .readerData :: rest) :
    Receives c o :=
  ⟨⟨[], by rw [hp, Pipe.receive_nil]⟩, fun cb rest he => absurd he (hf cb rest)⟩

theorem callback (err : Option CbError) (site : Site) :
    Receives c (ngxeCallback c cb err site) :=
  ⟨⟨[], by rw [pipe_callback, Pipe.receive_nil]⟩,
    fun _ _ _ => by simp [ngxeCallback, Conn.justCalled, Obs.isCalled]⟩

end Receives

theorem receives_fail {e : CbError} : Receives c (fail c cb e) := .callback (some e) .failed

theorem receives_recvAgain {svbuf : ReadBuffer} (hb : c.pipe.kept = svbuf.data) :
    Receives c (recvAgain cfg c cb svbuf) := by
  have hp : { c with readerBuffer := some (growFull cfg.pagesize svbuf) }.pipe = c.pipe :=
    Pipe.ext rfl rfl rfl ((data_growFull _ _).trans hb.symm)
  rw [recvAgain]
  split
  · exact (Receives.callback none .readerData).after hp
  · exact .same hp (by simp)

theorem receives_readerHandler {ev : Event ReadHandler} :
    Receives c (ngxeReaderHandler cfg c ev) := by
  rw [ngxeReaderHandler.eq_def]
  split
  · exact .same rfl (by simp)
  · exact .same rfl (by simp)
  · next cb svbuf hcb hb =>
    split
    · exact receives_fail
    · have hp : { c with read := c.read.delTimer }.pipe = c.pipe := rfl
      exact (receives_recvAgain (by simp [Conn.pipe, hb])).after hp

theorem receives_readerStart : Receives c (ngxeReaderStart cfg ok c) := by
  have hp : c.installReader.pipe = c.pipe := rfl
  rw [ngxeReaderStart]
  split
  · cases c.readerCallback with
    | none => exact .same hp (by simp [failUnchecked])
    | some cb => exact receives_fail.after hp
  · next c₁ h₁ => exact .same ((pipe_handleRead h₁).trans hp) (by simp)

/-- The bytes `c->recv` has read. -/
def RecvResult.bytes : RecvResult → Bytes
  | .data b => b
  | _ => []

/-- `c->recv` moves bytes from the socket, and the code after it stores them. -/
theorem pipe_recv (m : EventMethod) (c : Conn) (size : Nat) (err : Bool) :
    let r := ngxUnixRecv m c size err
    r.1.pipe = { c.pipe with received := c.pipe.received ++ r.2.bytes } := by
  rw [ngxUnixRecv]
  split
  · simp [Conn.pipe, RecvResult.bytes]
  · split
    · simp [Conn.pipe, RecvResult.bytes, Obs.input, Obs.output]
    · split
      · simp [Conn.pipe, RecvResult.bytes]
      · simp [Conn.pipe, RecvResult.bytes]

theorem receives_readerRecv {err : Bool} : Receives c (readerRecv cfg ok c cb err) := by
  rw [readerRecv.eq_def]
  split
  · exact .same rfl (by simp)
  · next svbuf hb =>
    have hrecv := pipe_recv cfg.method c (svbuf.len - svbuf.cur - 1) err
    generalize ngxUnixRecv cfg.method c (svbuf.len - svbuf.cur - 1) err = r at hrecv
    obtain ⟨c₁, r⟩ := r
    have hrecv : c₁.pipe = { c.pipe with received := c.pipe.received ++ r.bytes } := hrecv
    have hnone : r.bytes = [] → c₁.pipe = c.pipe := fun hr => by simpa [hr] using hrecv
    cases r with
    | error | eof => exact receives_fail.after (hnone rfl)
    | again => exact .same (hnone rfl) (by simp)
    | data b =>
      have hkept : c.pipe.kept = svbuf.data := by simp [Conn.pipe, hb]
      have hp : { c₁ with readerBuffer := some { svbuf with data := svbuf.data ++ b } }.pipe =
          c.pipe.receive b := by
        have hr : c₁.pipe.received = c.pipe.received ++ b := by rw [hrecv]; rfl
        have hs : c₁.pipe.sent = c.pipe.sent := by rw [hrecv]
        have hu : c₁.pipe.unsent = c.pipe.unsent := by rw [hrecv]
        exact Pipe.ext hr hs hu (by simp [Conn.pipe, Pipe.receive, hb])
      dsimp only
      split
      · exact receives_fail.more hp
      · next c₂ h₂ =>
        have hp₂ : c₂.armRead.pipe = c.pipe.receive b := (pipe_handleRead h₂).trans hp
        split
        · split
          · exact receives_fail.more hp₂
          · next c₃ h₃ =>
            have hp₃ : c₃.armRead.pipe = c.pipe.receive b := (pipe_handleRead h₃).trans hp₂
            split
            · refine (receives_recvAgain ?_).more hp₃
              rw [show c₃.pipe = c.pipe.receive b from hp₃, Pipe.receive, hkept]
            · exact ⟨⟨b, hp₃⟩, by simp⟩
        · exact (Receives.callback none .readerData).more hp₂

theorem pipe_armWrite : c.armWrite.pipe = c.pipe := rfl

theorem pipe_waitWritable : (waitWritable cfg ok .plain c cb).1.pipe = c.pipe := by
  rw [waitWritable]
  split
  · exact pipe_callback
  · next c₁ h₁ => exact pipe_armWrite.trans (pipe_handleWrite h₁)

theorem pipe_writerHandler {ev : Event WriteHandler} (hb : c.writerBuffer = some (.str b)) :
    (ngxeWriterHandler c ev).1.pipe = c.pipe := by
  rw [ngxeWriterHandler.eq_def]
  split
  · rfl
  · rfl
  · next hrv => simp [hb] at hrv
  · next hav => simp [hb] at hav
  · next hother => simp [hb] at hother
  · split
    · exact pipe_callback
    · dsimp only
      split
      · exact pipe_callback
      · rfl

theorem pipe_writerStart (hb : c.writerBuffer = some (.str b)) :
    (ngxeWriterStart cfg ok c).1.pipe = c.pipe := by
  rw [ngxeWriterStart]
  split
  · cases c.writerCallback with
    | none => rfl
    | some w => exact pipe_callback
  · next c₁ h₁ =>
    have hp : c₁.armWrite.pipe = c.installWriter.pipe := pipe_armWrite.trans (pipe_handleWrite h₁)
    have hb₁ : c₁.armWrite.writerBuffer = some (.str b) := by
      rw [Conn.armWrite, handleWrite_eq h₁]
      exact hb
    split
    · exact (pipe_writerHandler hb₁).trans hp
    · exact hp

/-- `c->send` takes the bytes it accepts from the write buffer. -/
theorem pipe_writerSend {r : SendResult} (hb : c.writerBuffer = some (.str b)) :
    ∃ n, (writerSend cfg ok .plain c cb r).1.pipe = c.pipe.send n := by
  have hq : c.request .plain = some ⟨b, b.length⟩ := by
    simp [Conn.request, hb]
  simp only [writerSend, hq]
  cases r with
  | error | zero => exact ⟨0, pipe_callback.trans Pipe.send_zero.symm⟩
  | again =>
    refine ⟨0, ?_⟩
    have hp : { c with
        write := { c.write with ready := false }
        trace := c.trace ++ [Obs.sent []] }.pipe = c.pipe := pipe_observe rfl rfl
    rw [Pipe.send_zero, ← hp]
    dsimp only
    split
    · exact pipe_callback
    · next c₁ h₁ =>
      split
      · exact pipe_handleWrite h₁
      · exact pipe_armWrite.trans (pipe_handleWrite h₁)
  | accepted n =>
    refine ⟨n, ?_⟩
    have hp : { c with
        trace := c.trace ++ [Obs.sent (b.take n)]
        writerBuffer := some (.str (b.drop n)) }.pipe = c.pipe.send n := by
      simp [Conn.pipe, Pipe.send, Obs.input, Obs.output, hb, Sv.bytes]
    rw [← hp]
    dsimp only [sendAccepted]
    split
    · exact pipe_waitWritable
    · exact pipe_callback

/-- After a callback that has left the write buffer empty the reader goes on. -/
theorem ReaderReturns.receives (ho : ReaderReturns cfg ok c cb o) (hw : c.wantsWriter = false) :
    Receives c o := by
  have harm : ∀ {c₁}, c.handleRead cfg.method ok = some c₁ → c₁.armRead.pipe = c.pipe :=
    fun h₁ => (pipe_handleRead h₁).trans rfl
  cases ho with
  | ret h => exact .same rfl (by simp)
  | switch h =>
    obtain ⟨-, -, -, hwants⟩ := Conn.switchesToWriter_iff.mp h
    cases hw.symm.trans hwants
  | reads hopen hh hwants h =>
    cases h with
    | fail => exact receives_fail
    | recv h₁ hready hb => exact (receives_recvAgain (by simp [Conn.pipe, hb])).after (harm h₁)
    | crash h₁ hready hb | wait h₁ hready => exact .same (harm h₁) (by simp)

/-- What holds of the pipe, by the frame on top: while the reader callback runs it was just
    called with nothing left to send, or has copied all that was kept. -/
def EchoAt (s : Sys) : Prop :=
  match s.stack with
  | .inCallback _ .readerData :: _ =>
    s.c.justCalled ∧ s.c.pipe.Conserved ∧ s.c.pipe.unsent = [] ∨
      s.c.justLoaded ∧ s.c.pipe.received = s.c.pipe.sent ++ s.c.pipe.unsent
  | .inCallback _ .failed :: _ => s.c.pipe.sent <+: s.c.pipe.received
  | _ => s.c.destroyed = true ∧ s.c.pipe.sent <+: s.c.pipe.received ∨ s.c.pipe.Conserved

namespace EchoAt

theorem intro (hc : o.1.pipe.Conserved) (hdata : ∀ cb rest,
    o.2 = .inCallback cb .readerData :: rest → o.1.justCalled ∧ o.1.pipe.unsent = []) :
    EchoAt (resume o []) := by
  rw [resume, List.append_nil, EchoAt]
  dsimp only
  split
  · next cb rest hstk =>
    obtain ⟨hcalled, hu⟩ := hdata cb rest hstk
    exact .inl ⟨hcalled, hc, hu⟩
  · exact hc.sent_le
  · exact .inr hc

theorem of_reader (hc : c.pipe.Conserved) (hu : c.pipe.unsent = []) (h : Receives c o) :
    EchoAt (resume o []) := by
  obtain ⟨b, hb⟩ := h.pipe
  refine intro (hb ▸ hc.receive b) fun cb rest he => ⟨h.told cb rest he, ?_⟩
  rw [hb]
  exact hu

theorem of_writer (hc : o.1.pipe.Conserved) (hf : WriterFrames cb o.2) :
    EchoAt (resume o []) := by
  refine intro hc fun cb' rest he => ?_
  rw [he] at hf
  cases hf

/-- In the loop, and in Perl code that sets the connection up. -/
theorem of_setUp {stk : List Frame} (hs : ∀ f ∈ stk, f.isSetUp = true) :
    EchoAt ⟨c, stk⟩ ↔
      (c.destroyed = true ∧ c.pipe.sent <+: c.pipe.received ∨ c.pipe.Conserved) := by
  rw [EchoAt]
  split
  · next hstk =>
    have hstk : stk = _ := hstk
    simp [hstk, Frame.isSetUp] at hs
  · next hstk =>
    have hstk : stk = _ := hstk
    simp [hstk, Frame.isSetUp] at hs
  · exact Iff.rfl

/-- Nothing of what it says has changed. -/
theorem congr {stk : List Frame} (h : EchoAt ⟨c, stk⟩) (hp : c'.pipe = c.pipe)
    (ht : c'.trace = c.trace) (hd : c'.destroyed = c.destroyed) : EchoAt ⟨c', stk⟩ := by
  simp only [EchoAt, Conn.justCalled, Conn.justLoaded] at h ⊢
  rw [hp, ht, hd]
  exact h

theorem callRead (hc : c.pipe.Conserved)
    (h : c.read.handler = .reader ∧ c.pipe.unsent = [] ∨ c.read.handler = .dummy) :
    EchoAt (resume (callReadHandler cfg c) []) := by
  rcases h with ⟨hh, hu⟩ | hh
  · rw [callReadHandler, hh]
    exact of_reader hc hu receives_readerHandler
  · rw [callReadHandler, hh]
    exact .inr hc

theorem callWrite (hc : c.pipe.Conserved)
    (h : c.write.handler = .writer ∧ c.writerBuffer = some (.str b) ∨ c.write.handler = .dummy) :
    EchoAt (resume (callWriteHandler c) []) := by
  rcases h with ⟨hh, hb⟩ | hh
  · rw [callWriteHandler, hh]
    obtain ⟨cb, hcb⟩ := exists_writerCallback c
    exact of_writer ((pipe_writerHandler hb).symm ▸ hc) (ngxeWriterHandler_outcome hcb).frames
  · rw [callWriteHandler, hh]
    exact .inr hc

/-- The return of the reader callback. -/
theorem afterReader (hc : c.pipe.Conserved) (hboth : c.Both rt wt) (h : c.ReadSide rt)
    (hb : c.writerBuffer = some (.str b)) : EchoAt (resume (afterReader cfg ok c cb) []) := by
  cases hw : c.wantsWriter with
  | true =>
    have hsw : c.switchesToWriter = true :=
      Conn.switchesToWriter_iff.mpr ⟨hboth.opened, by simp [h.read], h.write, hw⟩
    rw [afterReader_switches hsw]
    generalize hstop : ngxeReaderStop { c with writerOffset := 0, writerIndex := 0 } = c'
    have hp : c'.pipe = c.pipe := hstop ▸ rfl
    have hb' : c'.writerBuffer = some (.str b) := hstop ▸ hb
    obtain ⟨w, hcb⟩ := exists_writerCallback c'
    refine of_writer ?_ (ngxeWriterStart_outcome hcb).frames
    rw [pipe_writerStart hb', hp]
    exact hc
  | false =>
    have hempty : b = [] := by
      by_contra hne
      exact absurd ((wantsWriter_plain hboth hb).mpr hne) (by simp [hw])
    refine of_reader hc ?_ ((afterReader_cases cfg ok c cb).receives hw)
    simp [Conn.pipe, hb, hempty, Sv.bytes]

/-- The return of the writer callback. -/
theorem afterWriter (hc : c.pipe.Conserved) (hboth : c.Both rt wt) (h : c.WriteSide wt)
    (hb : c.writerBuffer = some (.str b)) :
    EchoAt (resume (afterWriter cfg ok .plain c cb) []) := by
  have ho := afterWriter_cases cfg ok .plain c cb
  generalize XS.afterWriter cfg ok .plain c cb = o at ho ⊢
  cases ho with
  | ret hret => exact absurd hret (by simp [hboth.opened, h.write])
  | crash hopen hh hbad => cases (hbad _ hb).1
  | more hopen hh hb' hmore =>
    refine of_writer ?_ (continueWriter_outcome .plain).frames
    simp only [continueWriter]
    split
    · exact hc
    · rw [pipe_waitWritable]
      exact hc
  | reader hopen hh hb' hrv hmore hr =>
    obtain rfl := Option.some.inj (hb.symm.trans hb')
    have hempty : b = [] := eq_nil_of_moreToWrite hmore
    have hu : (ngxeWriterStop c).pipe.unsent = [] := by
      simp [Conn.pipe, ngxeWriterStop, hb, hempty, Sv.bytes]
    exact of_reader (c := ngxeWriterStop c) hc hu receives_readerStart
  | rest hopen hh hb' hmore hr => cases hboth.reader.symm.trans hr

/-- The two assignments of the reader callback. -/
theorem assign {op : Op} (h : EchoAt s) (hd : Duplex rt wt s)
    (hG : EchoProgram s (.op op ok)) : EchoAt (resume (applyOp cfg ok s.c op) s.stack) := by
  obtain ⟨c, stk⟩ := s
  cases op with
  | setWriteBuffer sv =>
    simp only [EchoProgram] at hG
    split at hG
    · next cb rest =>
      obtain ⟨hcalled, rfl⟩ := hG
      rcases h with ⟨-, hc, hu⟩ | ⟨hloaded, -⟩
      · have hsome : c.writerBuffer.isSome = true := by
          cases hd with
          | readerData hb h he => rw [he]; rfl
          | closed hd hs | loop hb h hs => simp [Frame.isSetUp] at hs
        have hc := hc.received_eq hu
        simp only [applyOp, hsome, if_true]
        refine .inr ⟨by simp [resume, Conn.load, Conn.justLoaded, Obs.isLoaded], ?_⟩
        simpa [resume, Conn.pipe, Conn.load, Obs.input, Obs.output, Sv.bytes] using hc
      · exact absurd hloaded (not_justLoaded hcalled)
    · exact hG.elim
  | setReadBuffer rb =>
    simp only [EchoProgram] at hG
    split at hG
    · next cb rest =>
      rcases h with ⟨hcalled, -⟩ | hright
      · exact absurd hG.1 (not_justLoaded hcalled)
      · exact .inr hright
    · exact hG.elim
  | _ => exact hG.elim

theorem ret {site : Site} (h : EchoAt ⟨c, .inCallback cb site :: rest⟩)
    (hd : Duplex rt wt ⟨c, .inCallback cb site :: rest⟩)
    (hG : EchoProgram ⟨c, .inCallback cb site :: rest⟩ (.ret ok)) :
    EchoAt (resume (afterCallback cfg ok c cb site) rest) := by
  have hsetUp : (∀ f ∈ .inCallback cb site :: rest, f.isSetUp = true) →
      EchoAt (resume (afterCallback cfg ok c cb site) rest) := by
    intro hs
    have hrest : ∀ f ∈ rest, f.isSetUp = true := fun f hf => hs f (List.mem_cons_of_mem _ hf)
    have hsite := hs _ List.mem_cons_self
    cases site with
    | connected => exact (of_setUp hrest).mpr ((of_setUp hs).mp h)
    | readerData | writerDone k | failed => cases hsite
  cases hd with
  | closed hd hs | loop hb h hs => exact hsetUp hs
  | failing =>
    have hle : c.pipe.sent <+: c.pipe.received := h
    have hp : ∀ c : Conn, (ngxeClose c).pipe = c.pipe := fun c => by
      rw [ngxeClose]
      split <;> rfl
    refine .inl ⟨ngxeClose_destroyed _, ?_⟩
    simp only [resume, afterCallback, hp]
    exact hle
  | readerData hb hside he =>
    obtain ⟨hloaded, hkept⟩ := hG
    rcases h with ⟨hcalled, -⟩ | ⟨-, hr⟩
    · exact absurd hloaded (not_justLoaded hcalled)
    · exact .afterReader (Pipe.conserved_of_received_eq hr hkept) hb hside he
  | writerDone hb hside he =>
    have hc : c.pipe.Conserved := by
      rcases h with ⟨hd, -⟩ | hc
      · simp [hb.opened] at hd
      · exact hc
    exact .afterWriter hc hb hside he

end EchoAt

/-- The connection in the loop is a pipe that conserves what comes in. -/
theorem EchoAt.conserved (h : EchoAt ⟨c, []⟩) (hopen : c.destroyed = false) :
    c.pipe.Conserved := by
  rcases h with ⟨hd, -⟩ | hc
  · simp [hopen] at hd
  · exact hc

theorem EchoAt.leave (h : EchoAt ⟨c, .outside :: rest⟩)
    (hd : Duplex rt wt ⟨c, .outside :: rest⟩) : EchoAt ⟨c, rest⟩ := by
  have hs : ∀ f ∈ .outside :: rest, f.isSetUp = true := by
    cases hd with
    | closed hd hs | loop hb h hs => exact hs
  exact (EchoAt.of_setUp fun f hf => hs f (List.mem_cons_of_mem _ hf)).mpr h

theorem EchoAt.recv {err : Bool} (h : EchoAt ⟨c, .recv cb :: rest⟩)
    (hd : Duplex rt wt ⟨c, .recv cb :: rest⟩) :
    EchoAt (resume (readerRecv cfg ok c cb err) rest) := by
  cases hd with
  | closed hd hs | loop hb h hs => simp [Frame.isSetUp] at hs
  | recv hb hside he =>
    rcases h with ⟨hd, -⟩ | hc
    · simp [hb.opened] at hd
    · exact .of_reader hc (by simp [Conn.pipe, he, Sv.bytes]) receives_readerRecv

theorem EchoAt.send {k : Kind} {r : SendResult} (h : EchoAt ⟨c, .send k cb :: rest⟩)
    (hd : Duplex rt wt ⟨c, .send k cb :: rest⟩) :
    EchoAt (resume (writerSend cfg ok k c cb r) rest) := by
  cases hd with
  | closed hd hs | loop hb h hs => simp [Frame.isSetUp] at hs
  | send hb hside he hne =>
    rcases h with ⟨hd, -⟩ | hc
    · simp [hb.opened] at hd
    · obtain ⟨n, hn⟩ : ∃ n, (writerSend cfg ok .plain c cb r).1.pipe = c.pipe.send n :=
        pipe_writerSend he
      exact .of_writer (hn ▸ hc.send n) (writerSend_outcome .plain r).frames

theorem EchoAt.step {i : Input} (h : EchoAt s) (hd : Duplex rt wt s) (hG : EchoProgram s i)
    (hstep : Step cfg s i t) : EchoAt t := by
  have hread : ∀ {c : Conn}, c.Reading rt ∨ c.Writing wt →
      c.read.handler = .reader ∧ c.pipe.unsent = [] ∨ c.read.handler = .dummy := by
    intro c h
    rcases h with h | h
    · exact .inl ⟨h.read, by simp [Conn.pipe, h.buffer, Sv.bytes]⟩
    · exact .inr h.read
  have hwrite : ∀ {c : Conn}, c.Reading rt ∨ c.Writing wt → ∃ b,
      c.write.handler = .writer ∧ c.writerBuffer = some (.str b) ∨ c.write.handler = .dummy := by
    intro c h
    rcases h with h | h
    · exact ⟨[], .inr h.write⟩
    · obtain ⟨b, hb, -⟩ := h.buffer
      exact ⟨b, .inl ⟨h.write, hb⟩⟩
  cases hstep with
  | arrive b hb he | arriveEof he | hangup => exact h.congr rfl rfl rfl
  | readEvent hopen hr =>
    have hr := hread (hd.loop_of_nil hopen).2
    exact .callRead (h.conserved hopen) hr
  | writeEvent hopen ha =>
    obtain ⟨b, hb⟩ := hwrite (hd.loop_of_nil hopen).2
    exact .callWrite (h.conserved hopen) hb
  | readTimer hopen ht =>
    have hr := hread (hd.loop_of_nil hopen).2
    exact .callRead (h.conserved hopen) hr
  | writeTimer hopen ht =>
    obtain ⟨b, hb⟩ := hwrite (hd.loop_of_nil hopen).2
    exact .callWrite (h.conserved hopen) hb
  | enter => exact h
  | leave => exact h.leave hd
  | op o ok hf hopen => exact h.assign hd hG
  | recv err ok => exact h.recv hd
  | send r ok hr => exact h.send hd
  | ret ok => exact h.ret hd hG

/-- At every moment what was sent is the beginning of what was received. -/
theorem EchoAt.sent_le (h : EchoAt s) : s.c.pipe.sent <+: s.c.pipe.received := by
  rw [EchoAt] at h
  split at h
  · rcases h with ⟨-, hc, -⟩ | ⟨-, hr⟩
    · exact hc.sent_le
    · exact ⟨_, hr.symm⟩
  · exact h
  · rcases h with ⟨-, hle⟩ | hc
    · exact hle
    · exact hc.sent_le

/-- The calls that the README makes on an accepted connection. -/
def serveEcho (cfg : Config) (rt wt : Int) : Sys :=
  let c := (applyOp cfg true .accepted (.reader false rt)).1
  let c := (applyOp cfg true c (.writer false wt (.str []))).1
  resume (applyOp cfg true c (.readerStart none)) [.outside]

theorem echoStarted_serveEcho (cfg : Config) (rt wt : Int) :
    EchoStarted rt wt (serveEcho cfg rt wt) := by
  obtain ⟨active, pending, hstart⟩ := ngxeReaderStart_ok cfg
    (createWriter cfg (createReader cfg .accepted rt) wt (.str []))
  have hs : serveEcho cfg rt wt = resume (ngxeReaderStart cfg true
      (createWriter cfg (createReader cfg .accepted rt) wt (.str []))) [.outside] := rfl
  rw [hs, hstart]
  refine ⟨⟨⟨rfl, rfl, rfl, rfl, rfl, rfl, rfl⟩, ⟨rfl, rfl, rfl, ?_, rfl⟩, ?_⟩, rfl⟩
  · exact timerSet_addTimer.trans ⟨fun h => h.elim nofun id, .inr⟩
  · simp [resume, Frame.isSetUp]

/-- Along every run of a started connection that the echo program serves. -/
theorem echo_of_reaches {s₀ : Sys} (h₀ : EchoStarted rt wt s₀)
    (h : (engine cfg).Reaches EchoProgram s₀ s) : Duplex rt wt s ∧ EchoAt s := by
  refine h.invariant (I := fun s => Duplex rt wt s ∧ EchoAt s) ⟨h₀.started.duplex, ?_⟩
    fun s i t hs hG hstep => ?_
  · refine (EchoAt.of_setUp h₀.started.setUp).mpr (.inr ?_)
    rw [h₀.empty]
    rfl
  · exact ⟨hs.1.step hG.plainCallbacks (step_cases hstep), hs.2.step hs.1 hG (step_cases hstep)⟩

end NginxEngine.XS
