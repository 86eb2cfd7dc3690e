import NginxEngine.XS.Buffer

/-!
# One connection: session, callback records and control

The state of one `ngx_connection_t` with its `ngxe_session_t`, and the places at
which the C code of a connection can be when it waits for the outside: about to
call `c->recv` or `c->send`, or inside `ngxe_callback` while the Perl callback
runs. A segment of C code between two such places is a function from a connection
to an `Outcome`: the connection after it, and the frames it leaves on the C stack
in place of the frame it started from.
-/

namespace NginxEngine.XS

structure Config where
  method : EventMethod
  /-- `ngxe_pagesize`. -/
  pagesize : Nat
  /-- `reader_buffer_size`. -/
  readerBufferSize : Nat
deriving DecidableEq, Repr

/-- The XS function that created a callback record. -/
inductive CbKind
  | reader
  | writer
  | client
deriving DecidableEq, Repr

/-- `ngxe_callback_t`; `minLen` is `SvIV(args[4])` of a reader's record. -/
structure Callback where
  kind : CbKind
  decremented : Bool
  minLen : Int
deriving DecidableEq, Repr

/-- What the handlers store into `$_[1]` before an error callback. -/
inductive CbError
  | timedOut
  | readError
  | writeError
  | eventError
  | notScalarRef
  | unsupportedBuffer
  | connectError
deriving DecidableEq, Repr

namespace CbError

/-- The number given to `sv_setiv`. -/
def code : CbError → Int
  | .timedOut | .connectError => -1
  | .eventError => -2
  | .readError | .writeError | .notScalarRef | .unsupportedBuffer => 1

/-- The text given to `sv_setpv`. -/
def text : CbError → String
  | .timedOut => "Operation timed out"
  | .readError => "Read error"
  | .writeError => "Write error"
  | .eventError => "Event error"
  | .notScalarRef => "Buffer is not a SCALAR REF"
  | .unsupportedBuffer => "Unsupported buffer type"
  | .connectError => "Connect error"

/-- Every error a callback is given is true in Perl, as a number and as a string. -/
theorem is_true (e : CbError) : e.code ≠ 0 ∧ e.text ≠ "" ∧ e.text ≠ "0" := by
  cases e <;> decide

end CbError

/-- The three writer handlers, by the kind of buffer they send. -/
inductive Kind
  | plain
  | rvpv
  | rvpvav
deriving DecidableEq, Repr

/-- The call sites of `ngxe_callback`, by the code that follows them. -/
inductive Site
  /-- `CALLBACK:` in `ngxe_reader_handler`. -/
  | readerData
  /-- The success callback of a writer handler. -/
  | writerDone (k : Kind)
  /-- `ngxe_callback(cb, 1); ngxe_close(c); return;`. -/
  | failed
  /-- `ngxe_callback(cb, 1); return;` in `ngxe_client_init_handler`. -/
  | connected
deriving DecidableEq, Repr

/-- A frame of the C stack, as far as it concerns the connection. -/
inductive Frame
  /-- `ngxe_reader_handler` about to call `c->recv`. -/
  | recv (cb : Nat)
  /-- A writer handler at `SENDAGAIN`. -/
  | send (k : Kind) (cb : Nat)
  /-- The Perl callback runs inside `ngxe_callback(cb, ..)`. -/
  | inCallback (cb : Nat) (site : Site)
  /-- Perl code runs that no handler of this connection called. -/
  | outside
  /-- The process has dereferenced NULL, or died. -/
  | crash
deriving DecidableEq, Repr

/-- What is seen of the connection from outside. -/
inductive Obs
  | received (b : Bytes)
  /-- `c->send` was called and accepted `b`, which is empty for `NGX_AGAIN`. -/
  | sent (b : Bytes)
  /-- The program has put a load into the write buffer. -/
  | loaded (sv : Sv)
  /-- `ngxe_callback` was entered with the record `cb`, as it was at that moment. -/
  | called (cb : Nat) (record : Option Callback) (site : Site) (err : Option CbError)
deriving DecidableEq, Repr

/-- The bytes that `c->recv` has returned. -/
def Obs.input : Obs → Bytes
  | .received b => b
  | _ => []

/-- The bytes that `c->send` has accepted. -/
def Obs.output : Obs → Bytes
  | .sent b => b
  | _ => []

def Obs.isLoaded : Obs → Bool
  | .loaded _ => true
  | _ => false

/-- `ngx_connection_t` with its `ngxe_session_t`, its callback records (in the order
    of their allocation in `c->pool`) and its socket. -/
structure Conn where
  read : Event ReadHandler
  write : Event WriteHandler
  destroyed : Bool
  readerCallback : Option Nat
  readerBuffer : Option ReadBuffer
  readerTimeout : Int
  writerCallback : Option Nat
  writerBuffer : Option Sv
  writerTimeout : Int
  writerOffset : Int
  writerIndex : Nat
  callbacks : List Callback
  /-- Bytes that have arrived and were not read yet. -/
  unread : Bytes
  /-- The peer's EOF has arrived and was not read yet. -/
  eof : Bool
  /-- Notifications the kernel has posted and the loop has not delivered. -/
  pending : Nat
  trace : List Obs
deriving DecidableEq, Repr

abbrev Outcome := Conn × List Frame

namespace Conn

/-- `SvIV(cb->args[4])`. -/
def minLen (c : Conn) (cb : Nat) : Int := ((c.callbacks[cb]?).map (·.minLen)).getD 0

/-- Put a load into the write buffer. -/
def load (c : Conn) (sv : Sv) : Conn :=
  { c with writerBuffer := some sv, trace := c.trace ++ [.loaded sv] }

/-- The release of a record's references at the end of `ngxe_callback(cb, 1)`. -/
def release (c : Conn) (cb : Nat) : Conn :=
  { c with callbacks := c.callbacks.modify cb fun r => { r with decremented := true } }

/-- The socket holds bytes or an EOF that were not read. -/
def hasInput (c : Conn) : Bool := !c.unread.isEmpty || c.eof

/-- `ngx_handle_read_event(c->read, 0)`. A read event that gets registered is
    reported at once if there is something to read. -/
def handleRead (c : Conn) (m : EventMethod) (ok : Bool) : Option Conn :=
  (ngxHandleReadEvent m ok c.read).map fun rev =>
    { c with
      read := rev
      pending := if rev.active && !c.read.active && c.hasInput then c.pending + 1 else c.pending }

/-- `ngx_handle_write_event(c->write, 0)`. -/
def handleWrite (c : Conn) (m : EventMethod) (ok : Bool) : Option Conn :=
  (ngxHandleWriteEvent m ok c.write).map fun wev => { c with write := wev }

/-- `if (!c->read->timer_set && s->reader_timeout) ngx_add_timer(..)`. -/
def armRead (c : Conn) : Conn := { c with read := c.read.addTimer c.readerTimeout }

/-- `if (!c->write->timer_set && s->writer_timeout) ngx_add_timer(..)`. -/
def armWrite (c : Conn) : Conn := { c with write := c.write.addTimer c.writerTimeout }

/-- `s->reader_callback != NULL && s->reader_buffer != NULL`. -/
def hasReader (c : Conn) : Bool := c.readerCallback.isSome && c.readerBuffer.isSome

/-- `s->writer_callback != NULL && s->writer_buffer != NULL`. -/
def hasWriter (c : Conn) : Bool := c.writerCallback.isSome && c.writerBuffer.isSome

end Conn

/-- `ngxe_callback`: the Perl callback starts to run. -/
def ngxeCallback (c : Conn) (cb : Nat) (err : Option CbError) (site : Site) : Outcome :=
  ({ c with trace := c.trace ++ [.called cb c.callbacks[cb]? site err] },
    [.inCallback cb site])

/-- The error exit of the handlers, up to the callback. -/
def fail (c : Conn) (cb : Nat) (err : CbError) : Outcome :=
  ngxeCallback c cb (some err) .failed

/-- The same exit where `cb` was never checked against NULL. -/
def failUnchecked (c : Conn) (cb : Option Nat) (err : CbError) : Outcome :=
  match cb with
  | some cb => fail c cb err
  | none => (c, [.crash])

/-- `ngxe_close`, with `ngx_close_connection` and the cleanups of `ngx_destroy_pool`. -/
def ngxeClose (c : Conn) : Conn :=
  if c.destroyed then c
  else
    { c with
      destroyed := true
      read := { c.read with timerSet := false, active := false }
      write := { c.write with timerSet := false, active := false }
      callbacks := c.callbacks.map fun r => { r with decremented := true } }

def ngxeReaderStop (c : Conn) : Conn :=
  { c with read := { c.read.delTimer with handler := .dummy } }

def ngxeWriterStop (c : Conn) : Conn :=
  { c with write := { c.write.delTimer with handler := .dummy } }

/-- `ngxe_reader_start` before it registers the event. -/
def Conn.installReader (c : Conn) : Conn :=
  { c with read := { c.read.delTimer with handler := .reader } }

/-- `ngxe_writer_start` before it registers the event. -/
def Conn.installWriter (c : Conn) : Conn :=
  { c with write := { c.write.delTimer with handler := .writer } }

def ngxeReaderStart (cfg : Config) (ok : Bool) (c : Conn) : Outcome :=
  match c.installReader.handleRead cfg.method ok with
  | none => failUnchecked c.installReader c.readerCallback .eventError
  | some c => (c.armRead, [])

/-! ### Writer handlers -/

/-- Where the `NEXTBUF` loop of `ngxe_rvpvav_writer_handler` ends. -/
inductive NextBuf
  | done (index : Nat) (offset : Int)
  | notRef
  | send (index : Nat) (offset : Int)
deriving DecidableEq, Repr

/-- The `NEXTBUF` loop over the elements from `s->writer_index` on. -/
def nextBuf : List (Option Bytes) → Nat → Int → NextBuf
  | [], index, offset => .done index offset
  | none :: _, _, _ => .notRef
  | some b :: rest, index, offset =>
    if remaining b offset ≤ 0 then nextBuf rest (index + 1) 0 else .send index offset

/-- `NEXTBUF:` and, when it runs off the array, `DONE:` up to the callback. -/
def rvpvavNextBuf (c : Conn) (cb : Nat) : Outcome :=
  match c.writerBuffer with
  | some (.av xs) =>
    match nextBuf (xs.drop c.writerIndex) c.writerIndex c.writerOffset with
    | .done index offset =>
      ngxeCallback
        { c with writerIndex := index, writerOffset := offset, writerBuffer := some .undef }
        cb none (.writerDone .rvpvav)
    | .notRef => fail { c with writerIndex := 0, writerOffset := 0 } cb .notScalarRef
    | .send index offset =>
      ({ c with writerIndex := index, writerOffset := offset }, [.send .rvpvav cb])
  | _ => (c, [.crash])

def ngxeRvpvavWriterHandler (c : Conn) (ev : Event WriteHandler) (cb : Nat) : Outcome :=
  if ev.timedout then fail c cb .timedOut
  else rvpvavNextBuf { c with write := c.write.delTimer } cb

def ngxeRvpvWriterHandler (c : Conn) (ev : Event WriteHandler) (cb : Nat) (b : Bytes) : Outcome :=
  if ev.timedout then fail c cb .timedOut
  else
    let c := { c with write := c.write.delTimer }
    if remaining b c.writerOffset ≤ 0 then
      ngxeCallback { c with writerOffset := 0 } cb none (.writerDone .rvpv)
    else (c, [.send .rvpv cb])

def ngxeWriterHandler (c : Conn) (ev : Event WriteHandler) : Outcome :=
  match c.writerCallback, c.writerBuffer with
  | none, _ => (c, [])
  | some _, none => (c, [])
  | some cb, some (.rv b) => ngxeRvpvWriterHandler c ev cb b
  | some cb, some (.av _) => ngxeRvpvavWriterHandler c ev cb
  | some cb, some .rvOther => fail c cb .unsupportedBuffer
  | some cb, some sv =>
    if ev.timedout then fail c cb .timedOut
    else
      let c := { c with write := c.write.delTimer }
      if sv.cur = 0 then ngxeCallback c cb none (.writerDone .plain)
      else (c, [.send .plain cb])

def ngxeWriterStart (cfg : Config) (ok : Bool) (c : Conn) : Outcome :=
  match c.installWriter.handleWrite cfg.method ok with
  | none => failUnchecked c.installWriter c.writerCallback .eventError
  | some c =>
    if c.write.ready then ngxeWriterHandler c.armWrite c.armWrite.write else (c.armWrite, [])

/-- What an error exit of a writer handler resets before its callback. -/
def resetOnEventError (k : Kind) (c : Conn) : Conn :=
  match k with
  | .plain => c
  | .rvpv | .rvpvav => { c with writerOffset := 0 }

def resetOnWriteError (k : Kind) (c : Conn) : Conn :=
  match k with
  | .plain => c
  | .rvpv => { c with writerOffset := 0 }
  | .rvpvav => { c with writerOffset := 0, writerIndex := 0 }

/-- Register the write event, arm the timer and return to the loop. -/
def waitWritable (cfg : Config) (ok : Bool) (k : Kind) (c : Conn) (cb : Nat) : Outcome :=
  match c.handleWrite cfg.method ok with
  | none => fail (resetOnEventError k c) cb .eventError
  | some c => (c.armWrite, [])

/-- What `c->send` answers. -/
inductive SendResult
  | accepted (n : Nat)
  | again
  | zero
  | error
deriving DecidableEq, Repr

/-- The arguments of `c->send`: what is in memory from `buf` on, and `cur`. -/
structure Request where
  buf : Bytes
  size : Int
deriving DecidableEq, Repr

/-- The request made at `SENDAGAIN`; `none` where no scalar is there to be sent. -/
def Conn.request (c : Conn) (k : Kind) : Option Request :=
  match k, c.writerBuffer with
  | .plain, some (.str b) => some ⟨b, b.length⟩
  | .rvpv, some (.rv b) => some ⟨b.drop c.writerOffset.toNat, remaining b c.writerOffset⟩
  | .rvpvav, some (.av xs) =>
    match xs[c.writerIndex]? with
    | some (some b) => some ⟨b.drop c.writerOffset.toNat, remaining b c.writerOffset⟩
    | _ => none
  | _, _ => none

/-- `n > 0` in the three handlers: chop or advance, then wait, go on to the next
    element or call back. `ready` is cleared on a short write as in `ngx_unix_send`. -/
def sendAccepted (cfg : Config) (ok : Bool) (k : Kind) (c : Conn) (cb : Nat) (q : Request)
    (n : Nat) : Outcome :=
  let c := { c with
    write := { c.write with ready := c.write.ready && decide (q.size ≤ n) }
    trace := c.trace ++ [Obs.sent (q.buf.take n)] }
  match k with
  | .plain =>
    let c := { c with writerBuffer := some (.str (q.buf.drop n)) }
    if (q.buf.drop n).length > 0 then
      waitWritable cfg ok .plain { c with write := { c.write with ready := false } } cb
    else ngxeCallback c cb none (.writerDone .plain)
  | .rvpv =>
    let c := { c with writerOffset := toInt32 (c.writerOffset + n) }
    match c.writerBuffer with
    | some (.rv b) =>
      if remaining b c.writerOffset > 0 then
        waitWritable cfg ok .rvpv { c with write := { c.write with ready := false } } cb
      else
        ngxeCallback { c with writerOffset := 0, writerBuffer := some .undef }
          cb none (.writerDone .rvpv)
    | _ => (c, [.crash])
  | .rvpvav =>
    let c := { c with
      writerOffset := toInt32 (c.writerOffset + n)
      write := c.write.delTimer }
    match c.writerBuffer with
    | some (.av xs) =>
      match xs[c.writerIndex]? with
      | some (some b) =>
        if remaining b c.writerOffset > 0 then
          waitWritable cfg ok .rvpvav { c with write := { c.write with ready := false } } cb
        else
          rvpvavNextBuf { c with writerOffset := 0, writerIndex := c.writerIndex + 1 } cb
      | _ => (c, [.crash])
    | _ => (c, [.crash])

/-- A writer handler from `SENDAGAIN` on, given what `c->send` answers. -/
def writerSend (cfg : Config) (ok : Bool) (k : Kind) (c : Conn) (cb : Nat)
    (r : SendResult) : Outcome :=
  match c.request k with
  | none => (c, [.crash])
  | some q =>
    match r with
    | .error =>
      fail (resetOnWriteError k { c with write := { c.write with error := true } })
        cb .writeError
    | .zero =>
      fail (resetOnWriteError k { c with write := { c.write with ready := false } })
        cb .writeError
    | .again =>
      let c := { c with
        write := { c.write with ready := false }
        trace := c.trace ++ [Obs.sent []] }
      match c.handleWrite cfg.method ok with
      | none => fail (resetOnEventError k c) cb .eventError
      | some c => if c.write.ready then (c, [.send k cb]) else (c.armWrite, [])
    | .accepted n => sendAccepted cfg ok k c cb q n

/-- `ngxe_writer_stop(c); ngxe_reader_start(c);` if there is a reader. -/
def switchToReader (cfg : Config) (ok : Bool) (c : Conn) : Outcome :=
  if c.hasReader then ngxeReaderStart cfg ok (ngxeWriterStop c) else (c, [])

/-- The test for more data after the success callback. -/
def moreToWrite : Kind → Sv → Bool
  | .plain, sv => decide (0 < sv.cur)
  | .rvpv, sv => sv.rok && decide (0 < sv.rvCur)
  | .rvpvav, sv => sv.rok

/-- A writer handler goes on with what the callback has put into the buffer. -/
def continueWriter (cfg : Config) (ok : Bool) (k : Kind) (c : Conn) (cb : Nat) : Outcome :=
  match k with
  | .plain => if c.write.ready then (c, [.send .plain cb]) else waitWritable cfg ok .plain c cb
  | .rvpv => if c.write.ready then (c, [.send .rvpv cb]) else waitWritable cfg ok .rvpv c cb
  | .rvpvav =>
    let c := { c with writerOffset := 0, writerIndex := 0 }
    if c.write.ready then rvpvavNextBuf c cb else waitWritable cfg ok .rvpvav c cb

/-- The code after the success callback of a writer handler. -/
def afterWriter (cfg : Config) (ok : Bool) (k : Kind) (c : Conn) (cb : Nat) : Outcome :=
  if c.destroyed then (c, [])
  else if c.write.handler = .dummy then (c, [])
  else
    match c.writerBuffer with
    | none => (c, [.crash])
    | some sv =>
      -- `SvCUR(SvRV(..))` of what has no string body
      if k = .rvpv ∧ sv = .rvOther then (c, [.crash])
      else if moreToWrite k sv then continueWriter cfg ok k c cb
      else switchToReader cfg ok c

/-! ### Reader handler -/

/-- What `c->recv` answers. -/
inductive RecvResult
  | data (b : Bytes)
  | eof
  | again
  | error
deriving DecidableEq, Repr

/-- `ngx_unix_recv` on the bytes that have arrived; `err` when the socket fails. -/
def ngxUnixRecv (m : EventMethod) (c : Conn) (size : Nat) (err : Bool) : Conn × RecvResult :=
  if err then ({ c with read := { c.read with ready := false, error := true } }, .error)
  else if c.unread ≠ [] then
    let b := c.unread.take size
    ({ c with
        unread := c.unread.drop size
        read := { c.read with ready := c.read.ready && (m.greedy || decide (size ≤ b.length)) }
        trace := c.trace ++ [.received b] },
      .data b)
  else if c.eof then ({ c with eof := false, read := { c.read with ready := false } }, .eof)
  else ({ c with read := { c.read with ready := false } }, .again)

/-- A buffer without free space is grown before the next `c->recv`. -/
def growFull (pagesize : Nat) (svbuf : ReadBuffer) : ReadBuffer :=
  if svbuf.len = svbuf.cur + 1 then ngxeBufSvgrow pagesize svbuf (svbuf.len + 16384) else svbuf

/-- `RECVAGAIN:` up to `c->recv`, or the jump to `CALLBACK` when the buffer is full. -/
def recvAgain (cfg : Config) (c : Conn) (cb : Nat) (svbuf : ReadBuffer) : Outcome :=
  let svbuf := growFull cfg.pagesize svbuf
  let c := { c with readerBuffer := some svbuf }
  if svbuf.cur + 1 ≥ svbuf.len then ngxeCallback c cb none .readerData
  else (c, [.recv cb])

def ngxeReaderHandler (cfg : Config) (c : Conn) (ev : Event ReadHandler) : Outcome :=
  match c.readerCallback, c.readerBuffer with
  | none, _ => (c, [])
  | some _, none => (c, [])
  | some cb, some svbuf =>
    if ev.timedout then fail c cb .timedOut
    else recvAgain cfg { c with read := c.read.delTimer } cb svbuf

/-- `SvCUR(svbuf) + 1 < SvIV(cb->args[4]) && SvCUR(svbuf) + 1 < SvLEN(svbuf)`; the
    comparison with the signed length is unsigned. -/
def wantsMore (svbuf : ReadBuffer) (minLen : Int) : Bool :=
  decide (((svbuf.cur + 1 : Nat) : Int) < minLen % 2 ^ 64) && decide (svbuf.cur + 1 < svbuf.len)

/-- `ngxe_reader_handler` from `c->recv` to its next stop. -/
def readerRecv (cfg : Config) (ok : Bool) (c : Conn) (cb : Nat) (err : Bool) : Outcome :=
  match c.readerBuffer with
  | none => (c, [.crash])
  | some svbuf =>
    match ngxUnixRecv cfg.method c (svbuf.len - svbuf.cur - 1) err with
    | (c, .error) => fail c cb .readError
    | (c, .eof) => fail c cb .readError
    | (c, .again) => (c.armRead, [])
    | (c, .data b) =>
      let svbuf := { svbuf with data := svbuf.data ++ b }
      let c := { c with readerBuffer := some svbuf }
      match c.handleRead cfg.method ok with
      | none => fail c cb .eventError
      | some c =>
        if wantsMore svbuf (c.minLen cb) then
          -- at most one of the two registrations reaches the kernel, so one `ok` serves both
          match c.armRead.handleRead cfg.method ok with
          | none => fail c.armRead cb .eventError
          | some c => if c.read.ready then recvAgain cfg c cb svbuf else (c.armRead, [])
        else ngxeCallback c.armRead cb none .readerData

/-- The test for the automatic switch to the writer. -/
def Conn.wantsWriter (c : Conn) : Bool :=
  c.writerCallback.isSome && c.writerBuffer.any fun sv => sv.rok || sv.pokNonempty

/-- The code after the success callback of `ngxe_reader_handler`. -/
def afterReader (cfg : Config) (ok : Bool) (c : Conn) (cb : Nat) : Outcome :=
  if c.destroyed then (c, [])
  else if c.read.handler = .dummy then (c, [])
  else if c.write.handler ≠ .dummy then (c, [])
  else if c.wantsWriter then
    ngxeWriterStart cfg ok (ngxeReaderStop { c with writerOffset := 0, writerIndex := 0 })
  else
    match c.handleRead cfg.method ok with
    | none => fail c cb .eventError
    | some c =>
      if c.read.ready then
        match c.readerBuffer with
        | some svbuf => recvAgain cfg c cb svbuf
        | none => (c, [.crash])
      else (c.armRead, [])

/-! ### Connecting clients and the return from a callback -/

def ngxeClientInitHandler {H : Type} (c : Conn) (ev : Event H) : Outcome :=
  let c := { c with
    read := { c.read with handler := .dummy }
    write := { c.write with handler := .dummy } }
  match c.writerCallback with
  | none => (c, [])
  | some cb =>
    if ev.error then fail c cb .connectError
    else if ev.timedout then fail c cb .timedOut
    else ngxeCallback { c with write := c.write.delTimer } cb none .connected

/-- `c->read->handler(c->read)`. -/
def callReadHandler (cfg : Config) (c : Conn) : Outcome :=
  match c.read.handler with
  | .dummy => (c, [])
  | .reader => ngxeReaderHandler cfg c c.read
  | .clientInit => ngxeClientInitHandler c c.read

/-- `c->write->handler(c->write)`. -/
def callWriteHandler (c : Conn) : Outcome :=
  match c.write.handler with
  | .dummy => (c, [])
  | .writer => ngxeWriterHandler c c.write
  | .clientInit => ngxeClientInitHandler c c.write

/-- What runs when the Perl callback returns to `ngxe_callback`. -/
def afterCallback (cfg : Config) (ok : Bool) (c : Conn) (cb : Nat) : Site → Outcome
  | .readerData => afterReader cfg ok c cb
  | .writerDone k => afterWriter cfg ok k c cb
  | .failed => (ngxeClose (c.release cb), [])
  | .connected => (c.release cb, [])

end NginxEngine.XS
