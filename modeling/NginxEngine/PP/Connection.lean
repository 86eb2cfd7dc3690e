import NginxEngine.XS.Buffer

/-!
# One connection of the pure-Perl engine

`PP.pm` keeps a connection in an array `$c` and its readiness in four bit vectors that
are indexed by descriptor number. The functions here are the subs of `PP.pm` that take a
connection, cut where they wait for the outside: at a system call, or while a callback of
the program runs. A segment between two such places maps a connection, with the bits of
its descriptor, to an `Outcome`.

## Main definitions

- `Conn`, `View` — a connection, and the bits of its descriptor
- `Frame` — where the code of a connection waits
- `_read`, `_write`, `_accept`, `_connect`, `_timedout` — the handlers
- `dispatch`, `dispatchWrite` — the body of the loop over `%FDSET`
-/

namespace NginxEngine.PP

open NginxEngine.XS (Bytes Sv)

/-- `CEV_TYPE`. -/
inductive EvType
  | read
  | accept
  | write
  | connect
deriving DecidableEq, Repr

/-- An event array: `CEV_TYPE`, `CEV_TIMEOUT` and `CEV_TIMEOUTAT`. An undefined timeout
    counts as 0. -/
structure Ev where
  type : EvType
  timeout : Int
  timeoutAt : Option Int
deriving DecidableEq, Repr

/-- The handlers of `PP.pm`. -/
inductive Handler
  | read
  | accept
  | write
  | connect
  | timedout
deriving DecidableEq, Repr

/-- What is seen of a connection from outside. -/
inductive Obs
  | received (b : Bytes)
  /-- `syswrite` was called and accepted `b`, which is empty for EAGAIN. -/
  | sent (b : Bytes)
  /-- The program has put a load into the write buffer. -/
  | loaded (sv : Sv)
  /-- The callback of the event `ev` was called with the arguments of a callback of type
      `args` and the error `err`. -/
  | called (ev : Nat) (args : EvType) (err : Int)
  /-- A handler was run, or the accept loop has gone round. -/
  | ran (h : Handler)
  | closed
deriving DecidableEq, Repr

/-- A connection: `CN_FILENO`, `CN_READ`, `CN_WRITE`, `CN_RBUF`, `CN_WBUF`, `CN_RMAX`,
    `CN_WOFF`, `CN_WIND` and `CN_CLOSED`. Its event arrays are listed in the order of their
    creation. An undefined `CN_WOFF` or `CN_WIND` counts as 0. -/
structure Conn where
  fileno : Option Nat
  events : List Ev
  read : Option Nat
  write : Option Nat
  rbuf : Option Bytes
  wbuf : Option Sv
  rmax : Option Int
  woff : Nat
  wind : Nat
  closed : Bool
  trace : List Obs
deriving DecidableEq, Repr

/-- A connection with the bits of its descriptor in `$rin`, `$rout`, `$win` and `$wout`. -/
structure View extends Conn where
  rin : Bool
  rout : Bool
  win : Bool
  wout : Bool
deriving DecidableEq, Repr

/-- Where the code of a connection waits, with the local variables that are still needed. -/
inductive Frame
  /-- `_read` at `sysread`. -/
  | sysread (size : Int) (total : Nat)
  /-- The callback for data, in `_read`. -/
  | readData (error : Int)
  /-- The callback for an error or EOF, in `_read`. -/
  | readError (error : Int)
  /-- `_write` at `syswrite`. -/
  | syswrite (i offset : Nat)
  /-- The callback in `_write`. -/
  | writeDone (error : Bool)
  /-- The callback in `_timedout`. -/
  | timedout
  /-- `_accept` at `accept`. -/
  | accept
  /-- The callback in `_accept`. -/
  | accepted
  /-- `_connect` at `connect`, with `$limit` and `$error`. -/
  | connect (limit : Nat) (error : Bool)
  /-- The callback in `_connect`. -/
  | connected (error : Bool)
  /-- `ngxe_loop` between the two tests for a connection, with `$fno` and `$wev`. -/
  | loop (fno : Nat) (wev : Option Nat)
  /-- Perl code runs that no handler of this connection called. -/
  | outside
  /-- The program has died. -/
  | crash
deriving DecidableEq, Repr

abbrev Outcome := View × List Frame

/-- `$ev->[CEV_TIMEOUTAT] = time + $ev->[CEV_TIMEOUT]`; an undefined `$ev` is a new array
    that nobody sees. -/
def stamp (now : Int) (ev : Option Nat) (events : List Ev) : List Ev :=
  match ev with
  | some i => events.modify i fun e => { e with timeoutAt := some (now + e.timeout) }
  | none => events

/-- `$ev->[CEV_TIMEOUT] = $timeout if defined $timeout`. -/
def limit (timeout : Option Int) (ev : Option Nat) (events : List Ev) : List Ev :=
  match ev, timeout with
  | some i, some t => events.modify i fun e => { e with timeout := t }
  | _, _ => events

namespace View

def touch (v : View) (now : Int) (ev : Option Nat) : View :=
  { v with events := stamp now ev v.events }

def setTimeout (v : View) (ev : Option Nat) (timeout : Option Int) : View :=
  { v with events := limit timeout ev v.events }

def observe (v : View) (x : Obs) : View := { v with trace := v.trace ++ [x] }

/-- Put a load into the write buffer. -/
def load (v : View) (sv : Sv) : View := { v with wbuf := some sv }.observe (.loaded sv)

/-- Call the callback of an event; without an event there is nothing to call. -/
def call (v : View) (ev : Option Nat) (args : EvType) (err : Int) (f : Frame) : Outcome :=
  match ev with
  | some i => (v.observe (.called i args err), [f])
  | none => (v, [.crash])

end View

/-- The program's timeouts are in milliseconds, those of an event in seconds. -/
def seconds (ms : Int) : Int := (ms + 500).tdiv 1000

def ngxeClose (v : View) : View :=
  if v.closed then v
  else
    { v with
      rbuf := none
      wbuf := none
      rin := false
      rout := false
      win := false
      wout := false
      fileno := none
      read := none
      write := none
      closed := true }.observe .closed

def ngxeReaderStop (v : View) : View := { v with rin := false, rout := false }

def ngxeReaderStart (now : Int) (v : View) (timeout : Option Int) : View :=
  ({ v with rin := true, rout := false }.setTimeout v.read timeout).touch now v.read

def ngxeWriterStop (v : View) : View := { v with win := false, wout := false }

def ngxeWriterStopReaderStart (now : Int) (v : View) : View :=
  { v with rin := true, rout := false, win := false, wout := false }.touch now v.read

/-! ### `_write` -/

/-- `@$buffers`, or `none` where `_write` dies. -/
def buffers : Option Sv → Option (List (Option Bytes))
  | some .undef => some [some []]
  | some (.str b) | some (.rv b) => some [some b]
  | some (.av xs) => some xs
  | some .rvOther | none => none

/-- The buffer itself is the string to be sent; `_write` empties it. -/
def autoempty : Option Sv → Bool
  | some .undef | some (.str _) => true
  | _ => false

/-- `CN_WIND` as `_write` begins: only an array is resumed behind its first element. -/
def firstIndex (v : View) : Nat :=
  match v.wbuf with
  | some (.av _) => v.wind
  | _ => 0

/-- Where the `for` loop of `_write` goes next. -/
inductive NextBuf
  | done (i : Nat)
  /-- `$$buf` of what is no reference. -/
  | die
  | syswrite (i : Nat)
deriving DecidableEq, Repr

/-- The `for` loop over the elements from `$i` on. An element that is not longer than
    `$offset` is passed over, and `$offset` stays as it is. -/
def nextBuf : List (Option Bytes) → Nat → Nat → NextBuf
  | [], i, _ => .done i
  | none :: _, _, _ => .die
  | some b :: rest, i, offset =>
    if offset < b.length then .syswrite i else nextBuf rest (i + 1) offset

/-- The end of `_write` once its loop is done or has failed. -/
def writeEnd (now : Int) (v : View) (i offset : Nat) (error : Bool) : Outcome :=
  let v := { v with
    wind := i
    woff := offset
    wbuf := if autoempty v.wbuf then some (.str []) else v.wbuf }.touch now v.write
  v.call v.write .write (if error then 1 else 0) (.writeDone error)

/-- The loop of `_write` from the element `$i` on. -/
def writeLoop (now : Int) (v : View) (i offset : Nat) : Outcome :=
  match buffers v.wbuf with
  | none => (v, [.crash])
  | some bufs =>
    match nextBuf (bufs.drop i) i offset with
    | .done i => writeEnd now v i offset false
    | .die => (v, [.crash])
    | .syswrite i => (v, [.syswrite i offset])

def _write (now : Int) (v : View) : Outcome :=
  let v := v.observe (.ran .write)
  writeLoop now { v with wind := firstIndex v } (firstIndex v) v.woff

/-- What `syswrite` answers. -/
inductive WriteResult
  | accepted (n : Nat)
  | again
  | intr
  | error
deriving DecidableEq, Repr

/-- `_write` from `syswrite` on. -/
def syswrite (now : Int) (v : View) (i offset : Nat) (r : WriteResult) : Outcome :=
  match (buffers v.wbuf).bind (·[i]?) with
  | some (some b) =>
    match r with
    | .accepted n =>
      let v := v.observe (.sent ((b.drop offset).take n))
      if offset + n = b.length then writeLoop now v (i + 1) 0 else (v, [.syswrite i (offset + n)])
    | .again =>
      ({ v.observe (.sent []) with wind := i, woff := offset }.touch now v.write, [])
    | .intr => (v, [.syswrite i offset])
    | .error => writeEnd now v i offset true
  | _ => (v, [.crash])

/-- `_write` after its callback. -/
def afterWrite (now : Int) (v : View) (error : Bool) : View :=
  if v.closed then v
  else if error then ngxeClose v
  else ngxeWriterStopReaderStart now v

def ngxeWriterStart (now : Int) (v : View) (timeout : Option Int) : Outcome :=
  _write now (({ v with win := true, wout := true }.setTimeout v.write timeout).touch now v.write)

def ngxeReaderStopWriterStart (now : Int) (v : View) : Outcome :=
  _write now ({ v with rin := false, rout := false, win := true, wout := true }.touch now v.write)

/-! ### `_read` -/

/-- `_read` after its loop: nothing to report, or the first of its two callbacks. -/
def readEnd (now : Int) (v : View) (total : Nat) (error : Int) : Outcome :=
  if error = 0 ∧ total = 0 then (v, [])
  else
    let v := v.touch now v.read
    if 0 < total then v.call v.read .read 0 (.readData error)
    else v.call v.read .read error (.readError error)

/-- The head of the `while` loop of `_read`. -/
def readLoop (now : Int) (v : View) (size : Int) (total : Nat) : Outcome :=
  if size = 0 ∨ (total : Int) < size then (v, [.sysread size total]) else readEnd now v total 0

def _read (now : Int) (v : View) : Outcome :=
  let v := v.observe (.ran .read)
  match v.rbuf with
  | some buf => readLoop now v (v.rmax.getD 0) buf.length
  | none => (v, [.crash])

/-- What `sysread` answers. -/
inductive ReadResult
  | data (b : Bytes)
  | eof
  | again
  | intr
  | error
deriving DecidableEq, Repr

/-- The length asked of `sysread`. -/
def readSize (size : Int) (total : Nat) : Int := if size = 0 then 32768 else size - total

/-- `_read` from `sysread` on. -/
def sysread (now : Int) (v : View) (size : Int) (total : Nat) (r : ReadResult) : Outcome :=
  match r with
  | .data b =>
    readLoop now ({ v with rbuf := v.rbuf.map (· ++ b) }.observe (.received b)) size
      (total + b.length)
  | .eof => readEnd now v total 2
  | .again => readEnd now v total 0
  | .intr => readLoop now v size total
  | .error => readEnd now v total 1

/-- The test for the automatic switch to the writer. -/
def wantsWriter : Option Sv → Bool
  | some (.str b) => !b.isEmpty
  | some (.rv _) | some (.av _) => true
  | some .undef | some .rvOther | none => false

/-- `_read` after its last callback. -/
def finishRead (now : Int) (v : View) (error : Int) : Outcome :=
  if v.closed then (v, [])
  else if error ≠ 0 then (ngxeClose v, [])
  else if v.rout && wantsWriter v.wbuf then
    ngxeReaderStopWriterStart now { v with wind := 0, woff := 0 }
  else (v, [])

/-- `_read` after the callback for data. -/
def afterData (now : Int) (v : View) (error : Int) : Outcome :=
  if v.closed || !v.rin then (v, [])
  else if error ≠ 0 then v.call v.read .read error (.readError error)
  else finishRead now v 0

/-! ### `_timedout`, `_accept`, `_connect` -/

def _timedout (v : View) (ev : Nat) : Outcome :=
  let v := v.observe (.ran .timedout)
  match v.events[ev]? with
  | some e =>
    if e.type = .accept then (ngxeClose v, []) else v.call (some ev) e.type (-1) .timedout
  | none => (v, [.crash])

/-- `accept` in the condition of the loop; without `CN_FH` it dies. -/
def _accept (v : View) : Outcome :=
  let v := v.observe (.ran .accept)
  if v.closed then (v, [.crash]) else (v, [.accept])

/-- `_accept` from `accept` on; `ok` if a connection was accepted. -/
def accept (v : View) (ok : Bool) : Outcome :=
  if ok then v.call v.read .accept 0 .accepted else (v, [])

/-- What `connect` answers. -/
inductive ConnectResult
  | ok
  /-- EAGAIN, EWOULDBLOCK, EINPROGRESS or EALREADY. -/
  | again
  | intr
  | isconn
  /-- ECONNRESET, ECONNREFUSED, EINVAL, ENETDOWN, ENETUNREACH, EHOSTDOWN or EHOSTUNREACH. -/
  | refused
  | other
deriving DecidableEq, Repr

/-- `_connect` after its loop. -/
def connectEnd (v : View) (error connected : Bool) : Outcome :=
  if !error && !connected then (v, [])
  else { v with win := false }.call v.write .connect (if error then 1 else 0) (.connected error)

/-- `while ($limit--)`. -/
def connectLoop (v : View) (limit : Nat) (error : Bool) : Outcome :=
  match limit with
  | 0 => connectEnd v error false
  | limit + 1 => (v, [.connect limit error])

def _connect (v : View) : Outcome := connectLoop (v.observe (.ran .connect)) 3 false

/-- `_connect` from `connect` on. -/
def connect (v : View) (limit : Nat) (error : Bool) (r : ConnectResult) : Outcome :=
  match r with
  | .ok => connectEnd v error false
  | .again => connectEnd v false false
  | .intr => connectLoop v limit error
  | .isconn => connectEnd v false true
  | .refused => connectEnd v true false
  | .other => connectLoop v limit true

/-- `_connect` after its callback. -/
def afterConnect (v : View) (error : Bool) : View :=
  if v.closed then v else if error then ngxeClose v else v

/-! ### The body of the loop over `%FDSET` -/

/-- `$ev->[CEV_TIMEOUT] && defined $ev->[CEV_TIMEOUTAT] && $ev->[CEV_TIMEOUTAT] <= $t`. -/
def Ev.expired (e : Ev) (t : Int) : Bool :=
  decide (e.timeout ≠ 0) && e.timeoutAt.any fun at' => decide (at' ≤ t)

/-- The second half of the body, for the `$wev` that was taken at its beginning; the two
    bits are those at the descriptor number taken at its beginning. -/
def dispatchWrite (now t : Int) (v : View) (win wout : Bool) (wev : Option Nat) : Outcome :=
  match wev.bind fun i => (v.events[i]?).map fun e => (i, e) with
  | none => (v, [])
  | some (i, e) =>
    if wout then
      match e.type with
      | .write => _write now v
      | .connect => _connect v
      | .read | .accept => (v, [])
    else if win && e.expired t then _timedout v i
    else (v, [])

/-- The body of the loop for the entry `$fno` of `%FDSET`. -/
def dispatch (now t : Int) (fno : Nat) (v : View) : Outcome :=
  match v.read.bind fun i => (v.events[i]?).map fun e => (i, e) with
  | none => (v, [.loop fno v.write])
  | some (i, e) =>
    if v.rout then
      match e.type with
      | .read => let o := _read now v; (o.1, o.2 ++ [.loop fno v.write])
      | .accept => let o := _accept v; (o.1, o.2 ++ [.loop fno v.write])
      | .write | .connect => (v, [.loop fno v.write])
    else if v.rin && e.expired t then _timedout v i
    else (v, [.loop fno v.write])

/-! ### The program's calls -/

/-- `ngxe_xbuf()` for the buffers that are not there yet, and the write position. -/
def View.withBuffers (v : View) : View :=
  { v with
    rbuf := some (v.rbuf.getD [])
    wbuf := some (v.wbuf.getD (.str []))
    rmax := none
    woff := 0
    wind := 0 }

/-- `ngxe_reader` without `NGXE_START`. -/
def createReader (now : Int) (v : View) (timeout : Int) : View :=
  { v.withBuffers with
    events := v.events ++ [⟨.read, seconds timeout, some (now + seconds timeout)⟩]
    read := some v.events.length }

def ngxeReader (now : Int) (v : View) (start : Bool) (timeout : Int) : View :=
  if start then ngxeReaderStart now (createReader now v timeout) none
  else createReader now v timeout

/-- `ngxe_writer` without `NGXE_START`. -/
def createWriter (now : Int) (v : View) (timeout : Int) (buf : Sv) : View :=
  { v.withBuffers.load buf with
    events := v.events ++ [⟨.write, seconds timeout, some (now + seconds timeout)⟩]
    write := some v.events.length }

def ngxeWriter (now : Int) (v : View) (start : Bool) (timeout : Int) (buf : Sv) : Outcome :=
  if start then ngxeWriterStart now (createWriter now v timeout buf) none
  else (createWriter now v timeout buf, [])

/-- `ngxe_writer_buffer_set`, also known as `ngxe_writer_put`. -/
def ngxeWriterBufferSet (now : Int) (v : View) (data : Sv) : Outcome :=
  ngxeWriterStart now (v.load data) none

def ngxeReaderTimeout (v : View) (timeout : Int) : View := v.setTimeout v.read (some timeout)

def ngxeWriterTimeout (v : View) (timeout : Int) : View := v.setTimeout v.write (some timeout)

/-- What Perl code does to a connection. -/
inductive Op
  | reader (start : Bool) (timeout : Int)
  | readerStart (timeout : Option Int)
  | readerStop
  | readerStopWriterStart
  | readerTimeout (timeout : Int)
  | writer (start : Bool) (timeout : Int) (buf : Sv)
  | writerStart (timeout : Option Int)
  | writerStop
  | writerStopReaderStart
  | writerTimeout (timeout : Int)
  | writerBufferSet (data : Sv)
  | close
  /-- `$_[2] = ...`. -/
  | setReadBuffer (b : Bytes)
  /-- `$_[3] = ...`. -/
  | setWriteBuffer (sv : Sv)
  /-- `$_[4] = ...`. -/
  | setMinLen (n : Int)
deriving DecidableEq, Repr

def applyOp (now : Int) (v : View) : Op → Outcome
  | .reader start timeout => (ngxeReader now v start timeout, [])
  | .readerStart timeout => (ngxeReaderStart now v timeout, [])
  | .readerStop => (ngxeReaderStop v, [])
  | .readerStopWriterStart => ngxeReaderStopWriterStart now v
  | .readerTimeout timeout => (ngxeReaderTimeout v timeout, [])
  | .writer start timeout buf => ngxeWriter now v start timeout buf
  | .writerStart timeout => ngxeWriterStart now v timeout
  | .writerStop => (ngxeWriterStop v, [])
  | .writerStopReaderStart => (ngxeWriterStopReaderStart now v, [])
  | .writerTimeout timeout => (ngxeWriterTimeout v timeout, [])
  | .writerBufferSet data => ngxeWriterBufferSet now v data
  | .close => (ngxeClose v, [])
  | .setReadBuffer b => ({ v with rbuf := v.rbuf.map fun _ => b }, [])
  | .setWriteBuffer sv => (if v.wbuf.isSome then v.load sv else v, [])
  | .setMinLen n => ({ v with rmax := some n }, [])

/-- The code after a callback that has returned. -/
def afterCallback (now : Int) (v : View) : Frame → Option Outcome
  | .readData error => some (afterData now v error)
  | .readError error => some (finishRead now v error)
  | .writeDone error => some (afterWrite now v error, [])
  | .timedout => some (ngxeClose v, [])
  | .accepted => some (_accept v)
  | .connected error => some (afterConnect v error, [])
  | _ => none

/-- Perl code of the program is running. -/
def Frame.isPerl : Frame → Bool
  | .readData _ | .readError _ | .writeDone _ | .timedout | .accepted | .connected _ | .outside =>
    true
  | _ => false

/-- A connection as `_accept` makes it. -/
def View.accepted (fileno : Nat) : View where
  fileno := some fileno
  events := []
  read := none
  write := none
  rbuf := none
  wbuf := none
  rmax := none
  woff := 0
  wind := 0
  closed := false
  trace := []
  rin := false
  rout := false
  win := false
  wout := false

/-- A connection as `ngxe_server` makes it. -/
def View.server (fileno : Nat) : View :=
  { View.accepted fileno with
    events := [⟨.accept, 0, none⟩]
    read := some 0
    rin := true }

/-- A connection as `ngxe_client` makes it before it calls `_connect`. -/
def View.client (now : Int) (fileno : Nat) (timeout : Int) : View :=
  { View.accepted fileno with
    events := [⟨.connect, seconds timeout, some (now + seconds timeout)⟩]
    write := some 0
    win := true
    wout := true }

def ngxeClient (now : Int) (fileno : Nat) (timeout : Int) : Outcome :=
  _connect (View.client now fileno timeout)

end NginxEngine.PP
