import NginxEngine.XS.Connection

/-!
# The calls a program makes on a connection

The XSUBs of `Engine.xs` that take a connection, after their checks of the
arguments, and the assignments to `$_[2]`, `$_[3]` and `$_[4]`. The two ways a
connection comes into being, `ngxe_server_init_connection` and `ngxe_client`, give
the states that runs start from.
-/

namespace NginxEngine.XS

/-- `ngxe_reader_start(c[, timeout])` and `ngxe_writer_start(c[, timeout])` update the
    timeout only if it is given. -/
def Conn.withReaderTimeout (c : Conn) (timeout : Option Int) : Conn :=
  { c with readerTimeout := timeout.getD c.readerTimeout }

def Conn.withWriterTimeout (c : Conn) (timeout : Option Int) : Conn :=
  { c with writerTimeout := timeout.getD c.writerTimeout }

/-- `ngxe_reader` without `NGXE_START`. -/
def createReader (cfg : Config) (c : Conn) (timeout : Int) : Conn :=
  { c with
    callbacks := c.callbacks ++ [⟨.reader, false, 0⟩]
    readerBuffer := some (c.readerBuffer.getD (ngxeBufNewsv cfg.pagesize cfg.readerBufferSize))
    writerBuffer := some (c.writerBuffer.getD (.str []))
    readerCallback := some c.callbacks.length
    readerTimeout := timeout
    read := { c.read with handler := .dummy } }

def ngxeReader (cfg : Config) (ok : Bool) (c : Conn) (start : Bool) (timeout : Int) : Outcome :=
  if start then ngxeReaderStart cfg ok (createReader cfg c timeout)
  else (createReader cfg c timeout, [])

/-- `ngxe_writer` without `NGXE_START`. The write buffer is assigned whatever was in
    it; `writer_offset` and `writer_index` are not touched. -/
def createWriter (cfg : Config) (c : Conn) (timeout : Int) (buffer : Sv) : Conn :=
  { c.load buffer.pokOn with
    callbacks := c.callbacks ++ [⟨.writer, false, 0⟩]
    readerBuffer := some (c.readerBuffer.getD (ngxeBufNewsv cfg.pagesize cfg.readerBufferSize))
    writerCallback := some c.callbacks.length
    writerTimeout := timeout
    write := { c.write with handler := .dummy } }

def ngxeWriter (cfg : Config) (ok : Bool) (c : Conn) (start : Bool) (timeout : Int)
    (buffer : Sv) : Outcome :=
  if start then ngxeWriterStart cfg ok (createWriter cfg c timeout buffer)
  else (createWriter cfg c timeout buffer, [])

/-- `ngxe_writer_buffer_set`, also known as `ngxe_writer_put`. -/
def ngxeWriterBufferSet (cfg : Config) (ok : Bool) (c : Conn) (data : Sv) : Outcome :=
  match c.writerBuffer, data with
  | none, _ => (c, [])
  | some _, .rv b =>
    ngxeWriterStart cfg ok { c.load (.rv b) with writerOffset := 0 }
  | some _, .av xs =>
    ngxeWriterStart cfg ok { c.load (.av xs) with writerOffset := 0, writerIndex := 0 }
  | some _, .str [] => (c, [])
  | some _, .str b => ngxeWriterStart cfg ok (c.load (.str b))
  | some _, data => ngxeWriterStart cfg ok (c.load data.pokOn)

/-- What Perl code does to a connection. -/
inductive Op
  | reader (start : Bool) (timeout : Int)
  | readerStart (timeout : Option Int)
  | readerStop
  | readerStopWriterStart
  | readerTimeout (timeout : Int)
  | writer (start : Bool) (timeout : Int) (buffer : Sv)
  | writerStart (timeout : Option Int)
  | writerStop
  | writerStopReaderStart
  | writerTimeout (timeout : Int)
  | writerBufferSet (data : Sv)
  | close
  /-- `$_[2] = ...`. -/
  | setReadBuffer (b : ReadBuffer)
  /-- `$_[3] = ...`. -/
  | setWriteBuffer (sv : Sv)
  /-- `$_[4] = ...` in the callback of the record `cb`. -/
  | setMinLen (cb : Nat) (n : Int)
deriving DecidableEq, Repr

def applyOp (cfg : Config) (ok : Bool) (c : Conn) : Op → Outcome
  | .reader start timeout => ngxeReader cfg ok c start timeout
  | .readerStart timeout => ngxeReaderStart cfg ok (c.withReaderTimeout timeout)
  | .readerStop => (ngxeReaderStop c, [])
  | .readerStopWriterStart => ngxeWriterStart cfg ok (ngxeReaderStop c)
  | .readerTimeout timeout => (c.withReaderTimeout (some timeout), [])
  | .writer start timeout buffer => ngxeWriter cfg ok c start timeout buffer
  | .writerStart timeout => ngxeWriterStart cfg ok (c.withWriterTimeout timeout)
  | .writerStop => (ngxeWriterStop c, [])
  | .writerStopReaderStart => ngxeReaderStart cfg ok (ngxeWriterStop c)
  | .writerTimeout timeout => (c.withWriterTimeout (some timeout), [])
  | .writerBufferSet data => ngxeWriterBufferSet cfg ok c data
  | .close => (ngxeClose c, [])
  | .setReadBuffer b => ({ c with readerBuffer := c.readerBuffer.map fun _ => b }, [])
  | .setWriteBuffer sv => (if c.writerBuffer.isSome then c.load sv else c, [])
  | .setMinLen cb n =>
    ({ c with callbacks := c.callbacks.modify cb fun r => { r with minLen := n } }, [])

/-- A connection just accepted, in `ngxe_server_init_connection`. -/
def Conn.accepted : Conn where
  read := .idle .dummy
  write := { Event.idle .dummy with ready := true }
  destroyed := false
  readerCallback := none
  readerBuffer := none
  readerTimeout := 0
  writerCallback := none
  writerBuffer := none
  writerTimeout := 0
  writerOffset := 0
  writerIndex := 0
  callbacks := []
  unread := []
  eof := false
  pending := 0
  trace := []

/-- A connection as `ngxe_client` has filled it before it tests `rc`; `connected` is
    `rc == NGX_OK`. An edge-triggered method has registered both events. -/
def Conn.client (m : EventMethod) (connected : Bool) (timeout : Int) : Conn :=
  { Conn.accepted with
    read := { Event.idle .clientInit with active := true }
    write := { Event.idle .clientInit with
      ready := connected
      active := decide (m = .clear) || !connected }
    writerCallback := some 0
    writerTimeout := timeout
    callbacks := [⟨.client, false, 0⟩] }

/-- The end of `ngxe_client`. The connect timer is added whatever `timeout` is. -/
def ngxeClient (m : EventMethod) (connected : Bool) (timeout : Int) : Outcome :=
  let c := Conn.client m connected timeout
  if connected then ngxeClientInitHandler c c.write
  else ({ c with write := { c.write with timerSet := true } }, [])

end NginxEngine.XS
