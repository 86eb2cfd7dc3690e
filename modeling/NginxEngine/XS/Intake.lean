import NginxEngine.Trace
import NginxEngine.XS.Segments

/-!
# What the reader handler puts into the read buffer

`ngxe_reader_handler` reads behind what is in the buffer, up to one byte before its end, and grows
a buffer that is full. As long as the program leaves strings with room for their terminator the
grown buffer has room again, whatever the page size is, so the jump over `c->recv` is never taken:
every success callback comes after new bytes, which stand behind what the last one has left.

The string is written into in place. Perl may share it with another scalar, copy-on-write, and a
read into that scalar then overwrites what was received here.

The amount of data required for the callback is compared with `SvCUR + 1`, so one byte less than
required is enough.

## Main definitions

- `ReadBuffer.Roomy`, `RoomKept` — a string has room for its terminator, the program leaves such
- `Conn.input` — what is in the read buffer
- `shared` — the machine with reads into a string that the read buffer shares
- `HeardFirst` — every success callback comes after new bytes
- `MinLenMet` — the required amount is there, or the buffer is full

## Main results

- `intake_sound` — requests inside the buffer, new bytes before every callback, nothing lost
- `input_overwritten` — a read of another connection changes what the last callback has left
- `min_len_met` — if no read leaves the buffer one byte short
- `min_len_missed` — a callback with one byte less than required
-/

namespace NginxEngine.XS

variable {cfg : Config} {ok : Bool} {c c' : Conn} {cb : Nat} {o : Outcome} {s t : Sys}
  {b svbuf : ReadBuffer} {rest : List Frame} {l m : List Obs} {i : Input}

/-- `SvLEN >= SvCUR + 1`. -/
def ReadBuffer.Roomy (b : ReadBuffer) : Prop := b.cur + 1 ≤ b.len

instance : Decidable b.Roomy := inferInstanceAs (Decidable (_ ≤ _))

/-- The program leaves strings with room for their terminator in `$_[2]`. -/
def RoomKept (_ : Sys) : Input → Prop
  | .op (.setReadBuffer b) _ => b.Roomy
  | _ => True

/-- The program does not assign to `$_[2]`. -/
def LeavesInput (_ : Sys) : Input → Prop
  | .op (.setReadBuffer _) _ => False
  | _ => True

instance : Decidable (RoomKept s i) := by
  unfold RoomKept
  induction i with
  | op o ok => induction o <;> infer_instance
  | _ => infer_instance

/-- `c->recv` of another connection writes `b` at `offset` into a string that its read buffer
    shares with the one of this connection. -/
structure SharedRecv where
  offset : Nat
  b : Bytes
deriving DecidableEq, Repr

def SharedRecv.over (r : SharedRecv) (data : Bytes) : Bytes :=
  (data.take r.offset ++ r.b ++ data.drop (r.offset + r.b.length)).take data.length

/-- `SvCUR` and `SvLEN` are those of the scalar, and stay. -/
def Sys.overwrite (s : Sys) (r : SharedRecv) : Option Sys :=
  s.c.readerBuffer.map fun svbuf =>
    { s with c := { s.c with readerBuffer := some { svbuf with data := r.over svbuf.data } } }

/-- A connection whose read buffer may share its string. -/
def shared (cfg : Config) : Machine Sys (Input ⊕ SharedRecv) := (engine cfg).extend Sys.overwrite

/-- What is in the read buffer. -/
def Conn.input (c : Conn) : Bytes := (c.readerBuffer.map (·.data)).getD []

/-- The reader callback is invoked with success. -/
def Obs.isData : Obs → Bool
  | .called _ _ .readerData none => true
  | _ => false

/-- Whether bytes were received since the last success callback. -/
def heard (l : List Obs) : Bool :=
  l.foldl (fun p x => !x.isData && (p || !x.input.isEmpty)) false

/-- Every success callback comes after new bytes. -/
def HeardFirst (l : List Obs) : Prop := Everywhere (fun p x => x.isData = true → heard p = true) l

/-- The read buffer has room for its terminator, and a read is asked for at least one byte and for
    no more than there is room for. -/
def HasRoom (cfg : Config) (s : Sys) : Prop :=
  (∀ b, s.c.readerBuffer = some b → b.Roomy) ∧
    ∀ cb rest, s.stack = .recv cb :: rest → ∃ b, s.c.readerBuffer = some b ∧
      1 ≤ b.len - b.cur - 1 ∧ ∀ err r, (ngxUnixRecv cfg.method s.c (b.len - b.cur - 1) err).2 =
        .data r → r ≠ [] ∧ b.cur + r.length + 1 ≤ b.len

/-- No handler of the connection is running, apart from callbacks. -/
structure IntakeStart (s : Sys) : Prop where
  room : ∀ b, s.c.readerBuffer = some b → b.Roomy
  stack : ∀ f ∈ s.stack, f.isPerl = true

theorem heard_append (l : List Obs) (x : Obs) :
    heard (l ++ [x]) = (!x.isData && (heard l || !x.input.isEmpty)) := by
  rw [heard, List.foldl_append]
  rfl

theorem HeardFirst.silent (h : HeardFirst l) (hm : ∀ x ∈ m, x.isData = false) :
    HeardFirst (l ++ m) := by
  refine Extends.invariant (R := fun x => x.isData = false) ⟨m, rfl, hm⟩ h ?_
  intro l x h hx
  exact h.append fun hd => absurd (hx.symm.trans hd) (by decide)

/-- New bytes and a success callback. -/
theorem HeardFirst.data {b : Bytes} {x : Obs} (h : HeardFirst l) (hb : b ≠ []) :
    HeardFirst (l ++ [.received b, x]) := by
  have hr : HeardFirst (l ++ [.received b]) := h.silent (by simp [Obs.isData])
  have hx : HeardFirst (l ++ [.received b] ++ [x]) := by
    refine hr.append fun _ => ?_
    simp [heard_append, Obs.isData, Obs.input, hb]
  simpa using hx

/-! ### Growing the buffer -/

theorem data_growFull (pagesize : Nat) (svbuf : ReadBuffer) :
    (growFull pagesize svbuf).data = svbuf.data := by
  rw [growFull]
  split
  · rfl
  · rfl

/-- The tier for 16384 bytes more is above the length, for every page size. -/
theorem lt_bufTier (pagesize n : Nat) : n < bufTier pagesize (n + 16384) := by
  rw [bufTier]
  split_ifs <;> omega

theorem growFull_room (pagesize : Nat) (h : svbuf.Roomy) :
    (growFull pagesize svbuf).cur + 1 < (growFull pagesize svbuf).len := by
  have hlen : svbuf.cur + 1 ≤ svbuf.len := h
  rw [ReadBuffer.cur, data_growFull, growFull]
  split
  · next hfull =>
    have htier := lt_bufTier pagesize svbuf.len
    show svbuf.cur + 1 < max svbuf.len (bufTier pagesize (svbuf.len + 16384))
    omega
  · next hfull =>
    show svbuf.cur + 1 < svbuf.len
    omega

/-- The buffer is never found filled up at `RECVAGAIN`. -/
theorem recvAgain_room (h : svbuf.Roomy) : recvAgain cfg c cb svbuf =
    ({ c with readerBuffer := some (growFull cfg.pagesize svbuf) }, [.recv cb]) := by
  have hroom := growFull_room cfg.pagesize h
  rw [recvAgain]
  exact if_neg (by omega)

theorem roomy_new (pagesize n : Nat) : (ngxeBufNewsv pagesize n).Roomy := Nat.le_add_left 1 _

/-! ### Code that delivers nothing -/

/-- Code that invokes no success callback of the reader. -/
structure Keeps (c : Conn) (o : Outcome) : Prop where
  room : ∀ b, o.1.readerBuffer = some b → b.Roomy
  recv : ∀ cb, .recv cb ∈ o.2 → ∃ b, o.1.readerBuffer = some b ∧ b.cur + 1 < b.len
  trace : ∃ l, o.1.trace = c.trace ++ l ∧ o.1.input = c.input ++ l.flatMap Obs.input ∧
    ∀ x ∈ l, x.isData = false

theorem input_congr (h : c'.readerBuffer = c.readerBuffer) : c'.input = c.input := by
  rw [Conn.input, Conn.input, h]

namespace Keeps

/-- Code that leaves the read buffer alone. -/
theorem frame (h : ∀ b, c.readerBuffer = some b → b.Roomy)
    (hb : o.1.readerBuffer = c.readerBuffer) (hf : ∀ cb, .recv cb ∉ o.2)
    (ht : o.1.trace = c.trace ++ l) (hl : ∀ x ∈ l, x.input = [] ∧ x.isData = false) :
    Keeps c o := by
  refine ⟨fun b hsome => h b (hb.symm.trans hsome), fun cb hmem => absurd hmem (hf cb), l, ht, ?_,
    fun x hx => (hl x hx).2⟩
  rw [input_congr hb, List.flatMap_eq_nil_iff.mpr fun x hx => (hl x hx).1, List.append_nil]

/-- The same, with nothing observed. -/
theorem same (h : ∀ b, c.readerBuffer = some b → b.Roomy) (hb : c'.readerBuffer = c.readerBuffer)
    (ht : c'.trace = c.trace) : Keeps c (c', []) :=
  .frame h hb (by simp) (l := []) (by rw [ht, List.append_nil]) (by simp)

/-- Code behind code that has observed `m`. -/
theorem after (h : Keeps c' o) (hi : c'.input = c.input) (ht : c'.trace = c.trace ++ m)
    (hm : ∀ x ∈ m, x.input = [] ∧ x.isData = false) : Keeps c o := by
  obtain ⟨l, hl, hin, hd⟩ := h.trace
  have hnil : m.flatMap Obs.input = [] := List.flatMap_eq_nil_iff.mpr fun x hx => (hm x hx).1
  refine ⟨h.room, h.recv, m ++ l, ?_, ?_, fun x hx => ?_⟩
  · rw [hl, ht, List.append_assoc]
  · rw [hin, hi, List.flatMap_append, hnil, List.nil_append]
  · rcases List.mem_append.mp hx with hx | hx
    · exact (hm x hx).2
    · exact hd x hx

/-- Code behind code that has observed nothing. -/
theorem behind (h : Keeps c' o) (hi : c'.input = c.input) (ht : c'.trace = c.trace) : Keeps c o :=
  h.after hi (m := []) (by rw [ht, List.append_nil]) (by simp)

theorem fail {e : CbError} (h : ∀ b, c.readerBuffer = some b → b.Roomy) :
    Keeps c (fail c cb e) :=
  .frame h rfl (by simp [XS.fail, ngxeCallback]) rfl (by simp [Obs.input, Obs.isData])

theorem crash (h : ∀ b, c.readerBuffer = some b → b.Roomy) : Keeps c (c, [.crash]) :=
  .frame h rfl (by simp) (l := []) (List.append_nil _).symm (by simp)

/-- Writer code. -/
theorem writer (h : ∀ b, c.readerBuffer = some b → b.Roomy) (ho : WriterOutcome cb c o) :
    Keeps c o := by
  obtain ⟨l, hl, hobs⟩ := ho.move.trace
  refine .frame h (by rw [ho.move.frame]) ?_ hl fun x hx => ?_
  · obtain ⟨c', fs⟩ := o
    cases ho.frames <;> simp
  · have hx := hobs x hx
    cases x with
    | sent b => exact ⟨rfl, rfl⟩
    | received b => exact hx.elim
    | loaded sv => exact hx.elim
    | called cb' r site err =>
      obtain ⟨-, -, rfl | ⟨k, rfl⟩⟩ := hx
      · exact ⟨rfl, rfl⟩
      · exact ⟨rfl, rfl⟩

end Keeps

theorem ngxeWriterStart_keeps (h : ∀ b, c.readerBuffer = some b → b.Roomy) :
    Keeps c (ngxeWriterStart cfg ok c) := by
  obtain ⟨cb, hcb⟩ := exists_writerCallback c
  have hi : ∀ b, c.installWriter.readerBuffer = some b → b.Roomy := h
  exact (Keeps.writer hi (ngxeWriterStart_outcome hcb)).behind rfl rfl

theorem ngxeReaderStart_keeps (h : ∀ b, c.readerBuffer = some b → b.Roomy) :
    Keeps c (ngxeReaderStart cfg ok c) := by
  have hi : ∀ b, c.installReader.readerBuffer = some b → b.Roomy := h
  rw [ngxeReaderStart]
  split
  · cases c.readerCallback with
    | none => exact (Keeps.crash hi).behind rfl rfl
    | some cb => exact (Keeps.fail hi).behind rfl rfl
  · next c₁ h₁ =>
    refine .same h ?_ ?_
    · rw [Conn.armRead, handleRead_eq h₁]
      rfl
    · rw [Conn.armRead, handleRead_eq h₁]
      rfl

theorem recvAgain_keeps (hb : c.readerBuffer = some svbuf) (h : svbuf.Roomy) :
    Keeps c (recvAgain cfg c cb svbuf) := by
  have hroom := growFull_room cfg.pagesize h
  rw [recvAgain_room h]
  refine ⟨fun b hsome => ?_, fun _ _ => ⟨_, rfl, hroom⟩, [], (List.append_nil _).symm, ?_, by simp⟩
  · obtain rfl := Option.some.inj hsome
    exact Nat.le_of_lt hroom
  · simp [Conn.input, hb, data_growFull]

theorem ngxeReaderHandler_keeps {ev : Event ReadHandler}
    (h : ∀ b, c.readerBuffer = some b → b.Roomy) : Keeps c (ngxeReaderHandler cfg c ev) := by
  rw [ngxeReaderHandler]
  split
  · exact .same h rfl rfl
  · exact .same h rfl rfl
  · next cb svbuf hcb hb =>
    split
    · exact .fail h
    · have hb' : Conn.readerBuffer { c with read := c.read.delTimer } = some svbuf := hb
      exact (recvAgain_keeps hb' (h svbuf hb)).behind rfl rfl

theorem clientInit_keeps {H : Type} {ev : Event H} (h : ∀ b, c.readerBuffer = some b → b.Roomy) :
    Keeps c (ngxeClientInitHandler c ev) := by
  have ho := clientInit_cases c ev
  generalize ngxeClientInitHandler c ev = o at ho ⊢
  cases ho with
  | none hcb => exact .same h rfl rfl
  | call w err site hcb hw hsite =>
    refine .frame h rfl (by simp [ngxeCallback]) rfl fun x hx => ?_
    obtain rfl := List.mem_singleton.mp hx
    rcases hsite with rfl | rfl
    · exact ⟨rfl, rfl⟩
    · exact ⟨rfl, rfl⟩

theorem callReadHandler_keeps (h : ∀ b, c.readerBuffer = some b → b.Roomy) :
    Keeps c (callReadHandler cfg c) := by
  rw [callReadHandler]
  split
  · exact .same h rfl rfl
  · exact ngxeReaderHandler_keeps h
  · exact clientInit_keeps h

theorem callWriteHandler_keeps (h : ∀ b, c.readerBuffer = some b → b.Roomy) :
    Keeps c (callWriteHandler c) := by
  obtain ⟨cb, hcb⟩ := exists_writerCallback c
  rw [callWriteHandler]
  split
  · exact .same h rfl rfl
  · exact .writer h (ngxeWriterHandler_outcome hcb)
  · exact clientInit_keeps h

theorem createReader_keeps {timeout : Int} (h : ∀ b, c.readerBuffer = some b → b.Roomy) :
    Keeps c (createReader cfg c timeout, []) := by
  cases hb : c.readerBuffer with
  | some b => exact .same h (by simp [createReader, hb]) rfl
  | none =>
    refine ⟨fun b hsome => ?_, by simp, [], (List.append_nil _).symm, ?_, by simp⟩
    · obtain rfl : ngxeBufNewsv cfg.pagesize cfg.readerBufferSize = b := by
        simpa [createReader, hb] using hsome
      exact roomy_new _ _
    · simp [createReader, Conn.input, hb, ngxeBufNewsv]

theorem createWriter_keeps {timeout : Int} {sv : Sv}
    (h : ∀ b, c.readerBuffer = some b → b.Roomy) :
    Keeps c (createWriter cfg c timeout sv, []) := by
  have hload : ∀ x ∈ [Obs.loaded sv.pokOn], x.input = [] ∧ x.isData = false := by
    intro x hx
    obtain rfl := List.mem_singleton.mp hx
    exact ⟨rfl, rfl⟩
  cases hb : c.readerBuffer with
  | some b => exact .frame h (by simp [createWriter, hb]) (by simp) rfl hload
  | none =>
    refine ⟨fun b hsome => ?_, by simp, [.loaded sv.pokOn], rfl, ?_, fun x hx => (hload x hx).2⟩
    · obtain rfl : ngxeBufNewsv cfg.pagesize cfg.readerBufferSize = b := by
        simpa [createWriter, hb] using hsome
      exact roomy_new _ _
    · simp [createWriter, Conn.input, hb, ngxeBufNewsv, Obs.input]

/-- Code behind code that delivers nothing. -/
theorem Keeps.trans (h : Keeps c (c', [])) (h' : Keeps c' o) : Keeps c o := by
  obtain ⟨l, hl, hi, hd⟩ := h.trace
  obtain ⟨l', hl', hi', hd'⟩ := h'.trace
  refine ⟨h'.room, h'.recv, l ++ l', ?_, ?_, fun x hx => ?_⟩
  · rw [hl', hl, List.append_assoc]
  · rw [hi', hi, List.flatMap_append, List.append_assoc]
  · rcases List.mem_append.mp hx with hx | hx
    · exact hd x hx
    · exact hd' x hx

theorem load_keeps {sv : Sv} (h : ∀ b, c.readerBuffer = some b → b.Roomy)
    (hb : c'.readerBuffer = c.readerBuffer) (ht : c'.trace = c.trace ++ [.loaded sv]) :
    Keeps c (c', []) :=
  .frame h hb (by simp) ht (by simp [Obs.input, Obs.isData])

theorem ngxeWriterBufferSet_keeps {sv : Sv} (h : ∀ b, c.readerBuffer = some b → b.Roomy) :
    Keeps c (ngxeWriterBufferSet cfg ok c sv) := by
  have ho := bufferSet_cases cfg ok c sv
  generalize ngxeWriterBufferSet cfg ok c sv = o at ho ⊢
  cases ho with
  | nothing => exact .same h rfl rfl
  | start sv offset index hb =>
    have hl : Keeps c ({ c.load sv with writerOffset := offset, writerIndex := index }, []) :=
      load_keeps h rfl rfl
    exact hl.trans (ngxeWriterStart_keeps hl.room)

/-- Every call but an assignment to `$_[2]`. -/
theorem applyOp_keeps {op : Op} (h : ∀ b, c.readerBuffer = some b → b.Roomy)
    (hop : ∀ b, op ≠ .setReadBuffer b) : Keeps c (applyOp cfg ok c op) := by
  have hread : ∀ {c' : Conn}, Keeps c (c', []) → Keeps c (ngxeReaderStart cfg ok c') :=
    fun {c'} hc => hc.trans (ngxeReaderStart_keeps hc.room)
  have hwrite : ∀ {c' : Conn}, Keeps c (c', []) → Keeps c (ngxeWriterStart cfg ok c') :=
    fun {c'} hc => hc.trans (ngxeWriterStart_keeps hc.room)
  cases op with
  | reader start timeout =>
    cases start with
    | true => exact hread (createReader_keeps h)
    | false => exact createReader_keeps h
  | writer start timeout sv =>
    cases start with
    | true => exact hwrite (createWriter_keeps h)
    | false => exact createWriter_keeps h
  | readerStart timeout => exact hread (.same h rfl rfl)
  | writerStopReaderStart => exact hread (.same h rfl rfl)
  | writerStart timeout => exact hwrite (.same h rfl rfl)
  | readerStopWriterStart => exact hwrite (.same h rfl rfl)
  | writerBufferSet sv => exact ngxeWriterBufferSet_keeps h
  | readerStop => exact .same h rfl rfl
  | readerTimeout timeout => exact .same h rfl rfl
  | writerStop => exact .same h rfl rfl
  | writerTimeout timeout => exact .same h rfl rfl
  | close =>
    rw [applyOp, ngxeClose]
    split
    · exact .same h rfl rfl
    · exact .same h rfl rfl
  | setReadBuffer b => exact absurd rfl (hop b)
  | setMinLen cb n => exact .same h rfl rfl
  | setWriteBuffer sv =>
    rw [applyOp]
    split
    · exact load_keeps h rfl rfl
    · exact .same h rfl rfl

theorem WriterReturns.keeps {k : Kind} (ho : WriterReturns cfg ok k c cb o)
    (h : ∀ b, c.readerBuffer = some b → b.Roomy) : Keeps c o := by
  cases ho with
  | ret hret => exact .same h rfl rfl
  | crash hopen hh hbad => exact .crash h
  | more hopen hh hb hmore => exact .writer h (continueWriter_outcome k)
  | reader hopen hh hb hrv hmore hr =>
    have hstop : Keeps c (ngxeWriterStop c, []) := .same h rfl rfl
    exact hstop.trans (ngxeReaderStart_keeps h)
  | rest hopen hh hb hmore hr => exact .same h rfl rfl

theorem ReadsOn.keeps (ho : ReadsOn cfg ok c cb o)
    (h : ∀ b, c.readerBuffer = some b → b.Roomy) : Keeps c o := by
  have hsame : ∀ {c₁}, c.handleRead cfg.method ok = some c₁ →
      c₁.readerBuffer = c.readerBuffer ∧ c₁.trace = c.trace := by
    intro c₁ h₁
    rw [handleRead_eq h₁]
    exact ⟨rfl, rfl⟩
  cases ho with
  | fail => exact .fail h
  | recv h₁ hready hsv =>
    obtain ⟨hb, ht⟩ := hsame h₁
    exact (recvAgain_keeps hsv (h _ (hb.symm.trans hsv))).behind (input_congr hb) ht
  | crash h₁ hready hsv =>
    have hone : Keeps c (_, []) := .same h (hsame h₁).1 (hsame h₁).2
    exact hone.trans (.crash hone.room)
  | wait h₁ hready => exact .same h (hsame h₁).1 (hsame h₁).2

theorem ReaderReturns.keeps (ho : ReaderReturns cfg ok c cb o)
    (h : ∀ b, c.readerBuffer = some b → b.Roomy) : Keeps c o := by
  cases ho with
  | ret hret => exact .same h rfl rfl
  | switch hsw =>
    have hstop : Keeps c
        (ngxeReaderStop { c with writerOffset := 0, writerIndex := 0 }, []) := .same h rfl rfl
    exact hstop.trans (ngxeWriterStart_keeps h)
  | reads hopen hh hwants hreads => exact hreads.keeps h

theorem afterCallback_keeps {site : Site} (h : ∀ b, c.readerBuffer = some b → b.Roomy) :
    Keeps c (afterCallback cfg ok c cb site) := by
  cases site with
  | readerData => exact (afterReader_cases cfg ok c cb).keeps h
  | writerDone k => exact (afterWriter_cases cfg ok k c cb).keeps h
  | failed =>
    rw [afterCallback, ngxeClose]
    split
    · exact .same h rfl rfl
    · exact .same h rfl rfl
  | connected => exact .same h rfl rfl

/-! ### `c->recv` -/

/-- `c->recv` has read `b`, it was stored, and the success callback runs. -/
structure Delivers (c : Conn) (cb : Nat) (o : Outcome) : Prop where
  delivered : ∃ svbuf b, c.readerBuffer = some svbuf ∧
    b = c.unread.take (svbuf.len - svbuf.cur - 1) ∧ c.unread ≠ [] ∧ b ≠ [] ∧
    o.1.readerBuffer = some { svbuf with data := svbuf.data ++ b } ∧
    (ReadBuffer.mk (svbuf.data ++ b) svbuf.len).Roomy ∧
    (∃ r, o.1.trace = c.trace ++ [.received b, .called cb r .readerData none]) ∧
    wantsMore { svbuf with data := svbuf.data ++ b } (o.1.minLen cb) = false
  callbacks : o.1.callbacks = c.callbacks
  frames : o.2 = [.inCallback cb .readerData]

/-- What `c->recv` reads into the room that is left fits. -/
theorem roomy_append {r : Bytes} (hroom : svbuf.cur + 1 < svbuf.len)
    (hlen : r.length ≤ svbuf.len - svbuf.cur - 1) :
    (ReadBuffer.mk (svbuf.data ++ r) svbuf.len).Roomy := by
  show (svbuf.data ++ r).length + 1 ≤ svbuf.len
  have hcur : svbuf.data.length = svbuf.cur := rfl
  rw [List.length_append]
  omega

/-- What was read is stored behind what was there. -/
theorem Keeps.stored {r : Bytes} {fs : List Frame} {l : List Obs}
    (hb : c.readerBuffer = some svbuf)
    (hroomy : (ReadBuffer.mk (svbuf.data ++ r) svbuf.len).Roomy)
    (hb' : c'.readerBuffer = some ⟨svbuf.data ++ r, svbuf.len⟩)
    (ht : c'.trace = c.trace ++ [.received r] ++ l)
    (hl : ∀ x ∈ l, x.input = [] ∧ x.isData = false) (hfs : ∀ cb, .recv cb ∉ fs) :
    Keeps c (c', fs) := by
  refine ⟨fun b hsome => ?_, fun cb hmem => absurd hmem (hfs cb), .received r :: l, ?_, ?_, ?_⟩
  · obtain rfl := Option.some.inj (hb'.symm.trans hsome)
    exact hroomy
  · rw [ht, List.append_assoc]
    rfl
  · have hnil : l.flatMap Obs.input = [] := List.flatMap_eq_nil_iff.mpr fun x hx => (hl x hx).1
    simp [Conn.input, hb', hb, Obs.input, hnil]
  · intro x hx
    rcases List.mem_cons.mp hx with rfl | hx
    · rfl
    · exact (hl x hx).2

/-- `ngxe_reader_handler` from `c->recv` on. -/
theorem readerRecv_intake {err : Bool} (hb : c.readerBuffer = some svbuf)
    (hroom : svbuf.cur + 1 < svbuf.len) :
    Keeps c (readerRecv cfg ok c cb err) ∨ Delivers c cb (readerRecv cfg ok c cb err) := by
  have h : ∀ b, c.readerBuffer = some b → b.Roomy := by
    intro b hsome
    obtain rfl := Option.some.inj (hb.symm.trans hsome)
    exact Nat.le_of_lt hroom
  rw [readerRecv.eq_def]
  split
  · next hnone => cases hnone.symm.trans hb
  next svbuf' hb' =>
  obtain rfl := Option.some.inj (hb.symm.trans hb')
  have hstep := @ngxUnixRecv_step c cfg.method (svbuf.len - svbuf.cur - 1) err
  generalize ngxUnixRecv cfg.method c (svbuf.len - svbuf.cur - 1) err = p at hstep ⊢
  cases hstep with
  | error => exact .inl (.frame h rfl (by simp [fail, ngxeCallback]) rfl
      (by simp [Obs.input, Obs.isData]))
  | eof => exact .inl (.frame h rfl (by simp [fail, ngxeCallback]) rfl
      (by simp [Obs.input, Obs.isData]))
  | again herr hun he => exact .inl (.same h rfl rfl)
  | data hun =>
    dsimp only
    generalize hr : c.unread.take (svbuf.len - svbuf.cur - 1) = r
    have hne : r ≠ [] := by
      rw [← hr, ne_eq, List.take_eq_nil_iff]
      simp only [hun, or_false]
      omega
    have hroomy : (ReadBuffer.mk (svbuf.data ++ r) svbuf.len).Roomy :=
      roomy_append hroom (by rw [← hr]; exact List.length_take_le _ _)
    split
    · exact .inl (.stored hb hroomy rfl rfl (by simp [Obs.input, Obs.isData]) (by simp))
    next c₂ h₂ =>
    have he₂ := handleRead_eq h₂
    have hb₂ : c₂.readerBuffer = some ⟨svbuf.data ++ r, svbuf.len⟩ := by rw [he₂]
    have ht₂ : c₂.trace = c.trace ++ [.received r] := by rw [he₂]
    have hc₂ : c₂.callbacks = c.callbacks := by rw [he₂]
    split
    · split
      · refine .inl (.stored hb hroomy hb₂ (by rw [← ht₂]; rfl) ?_ (by simp))
        simp [Obs.input, Obs.isData]
      next c₃ h₃ =>
      have he₃ := handleRead_eq h₃
      have hb₃ : c₃.readerBuffer = some ⟨svbuf.data ++ r, svbuf.len⟩ := by rw [he₃]; exact hb₂
      have ht₃ : c₃.trace = c.trace ++ [.received r] ++ [] := by
        rw [he₃, List.append_nil]
        exact ht₂
      have hk₃ : Keeps c (c₃, []) := .stored hb hroomy hb₃ ht₃ (by simp) (by simp)
      split
      · exact .inl (hk₃.trans (recvAgain_keeps hb₃ hroomy))
      · exact .inl (.stored hb hroomy hb₃ ht₃ (by simp) (by simp))
    · next hwants =>
      refine .inr ⟨⟨svbuf, r, hb, hr.symm, hun, hne, hb₂, hroomy, ⟨c₂.callbacks[cb]?, ?_⟩, ?_⟩, hc₂,
        rfl⟩
      · show c₂.trace ++ [_] = _
        rw [ht₂, List.append_assoc]
        rfl
      · exact Bool.eq_false_iff.mpr hwants

/-! ### Runs -/

structure RoomInv (s : Sys) : Prop where
  room : ∀ b, s.c.readerBuffer = some b → b.Roomy
  recv : ∀ cb rest, s.stack = .recv cb :: rest →
    ∃ b, s.c.readerBuffer = some b ∧ b.cur + 1 < b.len
  perl : PerlBelow s.stack

/-- A step that invokes no success callback of the reader. -/
def KeepsInput (s : Sys) (i : Input) (t : Sys) : Prop :=
  ∃ l, t.c.trace = s.c.trace ++ l ∧ (∀ x ∈ l, x.isData = false) ∧
    (LeavesInput s i → t.c.input = s.c.input ++ l.flatMap Obs.input)

/-- A read that ends in the success callback of the reader. -/
def ReadDelivers (s : Sys) (i : Input) (t : Sys) : Prop :=
  (∃ err ok, i = .recv err ok) ∧
    ∃ cb o rest, s.stack = .recv cb :: rest ∧ t = resume o rest ∧ Delivers s.c cb o

theorem recv_mem_of_stack (hrest : ∀ g ∈ rest, g.isPerl = true) {fs rest' : List Frame}
    (h : fs ++ rest = .recv cb :: rest') : .recv cb ∈ fs := by
  have hmem : .recv cb ∈ fs ++ rest := by
    rw [h]
    exact List.mem_cons_self
  rcases List.mem_append.mp hmem with hmem | hmem
  · exact hmem
  · have hp := hrest _ hmem
    cases hp

theorem Keeps.step (h : Keeps s.c o) (hrest : ∀ g ∈ rest, g.isPerl = true)
    (hperl : PerlBelow (resume o rest).stack) :
    RoomInv (resume o rest) ∧ KeepsInput s i (resume o rest) := by
  obtain ⟨l, hl, hi, hd⟩ := h.trace
  refine ⟨⟨h.room, fun cb rest' he => h.recv cb (recv_mem_of_stack hrest he), hperl⟩,
    l, hl, hd, fun _ => hi⟩

/-- Every step keeps the room; only a read delivers. -/
theorem intake_step (h : RoomInv s) (hG : RoomKept s i) (hs : Step cfg s i t) :
    RoomInv t ∧ (KeepsInput s i t ∨ ReadDelivers s i t) := by
  have hperl := perlBelow_step h.perl hs
  have hleft : ∀ {t}, RoomInv t ∧ KeepsInput s i t →
      RoomInv t ∧ (KeepsInput s i t ∨ ReadDelivers s i t) := fun hk => ⟨hk.1, .inl hk.2⟩
  cases hs with
  | arrive b hb he =>
    exact ⟨⟨h.room, h.recv, h.perl⟩, .inl ⟨[], (List.append_nil _).symm, by simp,
      fun _ => (List.append_nil _).symm⟩⟩
  | arriveEof he =>
    exact ⟨⟨h.room, h.recv, h.perl⟩, .inl ⟨[], (List.append_nil _).symm, by simp,
      fun _ => (List.append_nil _).symm⟩⟩
  | hangup =>
    exact ⟨⟨h.room, h.recv, h.perl⟩, .inl ⟨[], (List.append_nil _).symm, by simp,
      fun _ => (List.append_nil _).symm⟩⟩
  | @readEvent c hopen hr =>
    have hk : Keeps c (callReadHandler cfg c.takeRead) :=
      (callReadHandler_keeps (c := c.takeRead) h.room).behind rfl rfl
    exact hleft (hk.step (s := ⟨c, []⟩) (by simp) hperl)
  | @readTimer c hopen hr =>
    have hk : Keeps c (callReadHandler cfg c.expireRead) :=
      (callReadHandler_keeps (c := c.expireRead) h.room).behind rfl rfl
    exact hleft (hk.step (s := ⟨c, []⟩) (by simp) hperl)
  | @writeEvent c hopen ha =>
    have hk : Keeps c (callWriteHandler c.takeWrite) :=
      (callWriteHandler_keeps (c := c.takeWrite) h.room).behind rfl rfl
    exact hleft (hk.step (s := ⟨c, []⟩) (by simp) hperl)
  | @writeTimer c hopen ht =>
    have hk : Keeps c (callWriteHandler c.expireWrite) :=
      (callWriteHandler_keeps (c := c.expireWrite) h.room).behind rfl rfl
    exact hleft (hk.step (s := ⟨c, []⟩) (by simp) hperl)
  | enter =>
    exact ⟨⟨h.room, by simp, hperl⟩, .inl ⟨[], (List.append_nil _).symm, by simp,
      fun _ => (List.append_nil _).symm⟩⟩
  | @leave c rest =>
    exact hleft ((Keeps.same (c := c) h.room rfl rfl).step (s := ⟨c, _⟩) h.perl hperl)
  | @op c f rest op ok hf hopen =>
    have hstk : ∀ g ∈ f :: rest, g.isPerl = true := by
      intro g hg
      rcases List.mem_cons.mp hg with rfl | hg
      · exact hf
      · exact h.perl g hg
    cases op with
    | setReadBuffer b =>
      refine ⟨⟨fun b' hsome => ?_, fun cb rest' he => ?_, hperl⟩,
        .inl ⟨[], (List.append_nil _).symm, by simp, fun hno => hno.elim⟩⟩
      · have hsome : (c.readerBuffer.map fun _ => b) = some b' := hsome
        obtain ⟨-, -, rfl⟩ := Option.map_eq_some_iff.mp hsome
        exact hG
      · have hp := hstk (.recv cb) (by rw [show f :: rest = .recv cb :: rest' from he]; simp)
        cases hp
    | _ =>
      exact hleft ((applyOp_keeps h.room (by simp)).step (s := ⟨c, _⟩) hstk hperl)
  | @recv c cb rest err ok =>
    obtain ⟨svbuf, hb, hroom⟩ := h.recv cb rest rfl
    rcases readerRecv_intake hb hroom with hk | hd
    · exact hleft (hk.step (s := ⟨c, _⟩) h.perl hperl)
    · refine ⟨⟨fun b hsome => ?_, fun cb' rest' he => ?_, hperl⟩,
        .inr ⟨⟨err, ok, rfl⟩, cb, _, rest, rfl, rfl, hd⟩⟩
      · obtain ⟨svbuf', r, -, -, -, -, hb', hroomy, -⟩ := hd.delivered
        obtain rfl := Option.some.inj (hb'.symm.trans hsome)
        exact hroomy
      · have hmem := recv_mem_of_stack h.perl he
        rw [hd.frames] at hmem
        simp at hmem
  | @send c k cb rest r ok hr =>
    exact hleft ((Keeps.writer h.room (writerSend_outcome k r)).step (s := ⟨c, _⟩) h.perl hperl)
  | @ret c cb site rest ok =>
    exact hleft ((afterCallback_keeps h.room).step (s := ⟨c, _⟩) h.perl hperl)

/-- What a step adds to the trace. -/
theorem intake_trace (h : RoomInv s) (hG : RoomKept s i) (hs : Step cfg s i t) :
    ∃ l, t.c.trace = s.c.trace ++ l ∧ (∀ p, HeardFirst p → HeardFirst (p ++ l)) ∧
      (LeavesInput s i → t.c.input = s.c.input ++ l.flatMap Obs.input) := by
  rcases (intake_step h hG hs).2 with ⟨l, hl, hd, hi⟩ | ⟨-, cb, o, rest, -, rfl, hdel⟩
  · exact ⟨l, hl, fun p hp => hp.silent hd, hi⟩
  · obtain ⟨svbuf, r, hb, -, -, hne, hb', -, ⟨rec, ht⟩, -⟩ := hdel.delivered
    refine ⟨_, ht, fun p hp => hp.data hne, fun _ => ?_⟩
    show o.1.input = _
    simp [Conn.input, hb', hb, Obs.input]

theorem IntakeStart.inv (h : IntakeStart s) : RoomInv s := by
  refine ⟨h.room, ?_, fun g hg => h.stack g (List.mem_of_mem_tail hg)⟩
  intro cb rest he
  have hp := h.stack (.recv cb) (by rw [he]; exact List.mem_cons_self)
  cases hp

theorem roomInv_of_reaches (h : RoomInv s) (hr : (engine cfg).Reaches RoomKept s t) :
    RoomInv t :=
  hr.invariant h fun _ _ _ h hG hs => (intake_step h hG (step_cases hs)).1

theorem heardFirst_of_reaches (h : RoomInv s) (hr : (engine cfg).Reaches RoomKept s t) :
    ∃ l, t.c.trace = s.c.trace ++ l ∧ HeardFirst l := by
  induction hr with
  | refl => exact ⟨[], (List.append_nil _).symm, everywhere_nil⟩
  | tail hr hG hs ih =>
    obtain ⟨l, hl, hheard⟩ := ih
    obtain ⟨l', hl', hheard', -⟩ := intake_trace (roomInv_of_reaches h hr) hG (step_cases hs)
    exact ⟨l ++ l', by rw [hl', hl, List.append_assoc], hheard' l hheard⟩

theorem LeavesInput.roomKept (h : LeavesInput s i) : RoomKept s i := by
  cases i with
  | op o ok =>
    cases o with
    | setReadBuffer b => exact h.elim
    | _ => trivial
  | _ => trivial

/-- Without an assignment to `$_[2]` the read buffer grows by what is received. -/
theorem input_of_reaches (h : RoomInv s) (hr : (engine cfg).Reaches LeavesInput s t) :
    RoomInv t ∧ ∃ l, t.c.trace = s.c.trace ++ l ∧ t.c.input = s.c.input ++ l.flatMap Obs.input := by
  induction hr with
  | refl => exact ⟨h, [], (List.append_nil _).symm, (List.append_nil _).symm⟩
  | tail hr hG hs ih =>
    obtain ⟨ht, l, hl, hi⟩ := ih
    obtain ⟨l', hl', -, hi'⟩ := intake_trace ht hG.roomKept (step_cases hs)
    refine ⟨(intake_step ht hG.roomKept (step_cases hs)).1, l ++ l', ?_, ?_⟩
    · rw [hl', hl, List.append_assoc]
    · rw [hi' hG, hi, List.flatMap_append, List.append_assoc]

theorem RoomInv.hasRoom (h : RoomInv s) : HasRoom cfg s := by
  refine ⟨h.room, fun cb rest he => ?_⟩
  obtain ⟨b, hb, hroom⟩ := h.recv cb rest he
  refine ⟨b, hb, by omega, fun err r hr => ?_⟩
  have hstep := @ngxUnixRecv_step s.c cfg.method (b.len - b.cur - 1) err
  generalize ngxUnixRecv cfg.method s.c (b.len - b.cur - 1) err = p at hstep hr
  cases hstep with
  | error => cases hr
  | eof => cases hr
  | again herr hun he => cases hr
  | data hun =>
    cases hr
    refine ⟨?_, ?_⟩
    · rw [ne_eq, List.take_eq_nil_iff]
      simp only [hun, or_false]
      omega
    · have hlen := List.length_take_le (b.len - b.cur - 1) s.c.unread
      omega

/-- In every run of a program that leaves strings with room for their terminator, and shares none
    that is read into, every request lies inside the buffer and is not empty, every success
    callback comes after new bytes, and what it sees is what was left in the buffer followed by the
    bytes received since. -/
theorem intake_sound (cfg : Config) (s t : Sys) (h : IntakeStart s)
    (hr : (shared cfg).Reaches (Machine.left RoomKept) s t) :
    HasRoom cfg t ∧ (∃ l, t.c.trace = s.c.trace ++ l ∧ HeardFirst l) ∧
      ∀ u, (shared cfg).Reaches (Machine.left LeavesInput) t u →
        ∃ l, u.c.trace = t.c.trace ++ l ∧ u.c.input = t.c.input ++ l.flatMap Obs.input := by
  have ht := roomInv_of_reaches h.inv hr.of_left
  exact ⟨ht.hasRoom, heardFirst_of_reaches h.inv hr.of_left,
    fun u hu => (input_of_reaches ht hu.of_left).2⟩

theorem intakeStart_accepted : IntakeStart ⟨.accepted, [.outside]⟩ := by
  refine ⟨by simp [Conn.accepted], fun f hf => ?_⟩
  obtain rfl := List.mem_singleton.mp hf
  rfl

/-- A buffer that is full when the handler is called, on a machine with pages of one byte. -/
theorem intake_sound_full :
    ∃ t, (shared ⟨.clear, 1, 4080⟩).Reaches (Machine.left RoomKept) ⟨.accepted, [.outside]⟩ t ∧
      t.stack = [.recv 0] ∧ t.c.readerBuffer = some ⟨[97], 32753⟩ ∧
      HasRoom ⟨.clear, 1, 4080⟩ t ∧ (∃ l, t.c.trace = [] ++ l ∧ HeardFirst l) ∧
      ∀ u, (shared ⟨.clear, 1, 4080⟩).Reaches (Machine.left LeavesInput) t u →
        ∃ l, u.c.trace = t.c.trace ++ l ∧ u.c.input = t.c.input ++ l.flatMap Obs.input := by
  have hr : (shared ⟨.clear, 1, 4080⟩).Reaches (Machine.left RoomKept)
      ⟨.accepted, [.outside]⟩ _ :=
    .of_run ([.op (.reader true 0) true, .op (.setReadBuffer ⟨[97], 2⟩) true, .leave, .arrive [98],
      .readEvent].map .inl) rfl
  exact ⟨_, hr, rfl, rfl, intake_sound _ _ _ intakeStart_accepted hr⟩

/-- The callbacks of two connections set `$_[2] = ''`, which gives both buffers one string. One of
    them receives two bytes and leaves them there; those that the other receives take their
    place. -/
theorem input_overwritten :
    ¬ ∀ (cfg : Config) (s t u : Sys), IntakeStart s →
      (shared cfg).Reaches (Machine.besides RoomKept) s t →
      (shared cfg).Reaches (Machine.besides LeavesInput) t u →
        ∃ l, u.c.trace = t.c.trace ++ l ∧ u.c.input = t.c.input ++ l.flatMap Obs.input := by
  intro h
  have ht : (shared ⟨.clear, 4096, 4080⟩).Reaches (Machine.besides RoomKept)
      ⟨.accepted, [.outside]⟩ _ :=
    .of_run ([.op (.reader true 0) true, .op (.setReadBuffer ⟨[], 16⟩) true, .leave,
      .arrive [97, 98], .readEvent, .recv false true, .ret true].map .inl) rfl
  obtain ⟨l, hl, hlast⟩ := h _ _ _ _ intakeStart_accepted ht
    (.single (i := .inr ⟨0, [66, 66]⟩) trivial rfl)
  obtain rfl : l = [] := List.self_eq_append_right.mp hl
  exact absurd hlast (by decide)

/-! ### The amount required for the callback -/

/-- The step from `s` to `t` invokes the reader callback with success. -/
def Enters (s t : Sys) (cb : Nat) : Prop :=
  s.c.trace.length < t.c.trace.length ∧
    ∃ r, t.c.trace.getLast? = some (.called cb r .readerData none)

/-- The read buffer holds the required amount, or has no free space left. -/
def MinLenMet (c : Conn) (cb : Nat) : Prop :=
  ∃ svbuf, c.readerBuffer = some svbuf ∧ (c.minLen cb ≤ svbuf.cur ∨ svbuf.cur + 1 = svbuf.len)

/-- The program leaves strings with room for their terminator, and no read leaves one byte less
    than required in a buffer with free space. -/
def MinLenSafe (s : Sys) (i : Input) : Prop :=
  RoomKept s i ∧
  match i with
  | .recv _ _ =>
    match s.stack, s.c.readerBuffer with
    | .recv cb :: _, some svbuf =>
      s.c.unread = [] ∨
        ((svbuf.cur + (s.c.unread.take (svbuf.len - svbuf.cur - 1)).length + 1 : Nat) : Int) ≠
          s.c.minLen cb ∨
        svbuf.cur + (s.c.unread.take (svbuf.len - svbuf.cur - 1)).length + 1 = svbuf.len
    | _, _ => True
  | _ => True

instance : Decidable (MinLenSafe s i) := by
  unfold MinLenSafe
  refine @instDecidableAnd _ _ inferInstance ?_
  generalize s.stack = stk
  generalize s.c.readerBuffer = buffer
  induction i with
  | recv err ok =>
    induction stk using List.casesOn with
    | nil => infer_instance
    | cons f rest => induction buffer using Option.casesOn <;> induction f <;> infer_instance
  | _ => infer_instance

/-- The test before the callback, for a required amount that is not negative. -/
theorem le_of_not_wantsMore {n : Int} (h : wantsMore svbuf n = false) (h0 : 0 < n)
    (hn : n < 2 ^ 63) (hroomy : svbuf.Roomy) :
    n ≤ svbuf.cur + 1 ∨ svbuf.cur + 1 = svbuf.len := by
  have hroom : svbuf.cur + 1 ≤ svbuf.len := hroomy
  have hmod : n % 2 ^ 64 = n := Int.emod_eq_of_lt (by omega) (by omega)
  rw [wantsMore, hmod, Bool.and_eq_false_iff, decide_eq_false_iff_not, decide_eq_false_iff_not] at h
  rcases h with h | h
  · exact .inl (by omega)
  · exact .inr (by omega)

/-- In every run of safe steps the reader callback is invoked with success only when the amount
    that it requires is there, or the buffer is full. -/
theorem min_len_met (cfg : Config) (s₀ s t : Sys) (i : Input) (cb : Nat) (h₀ : IntakeStart s₀)
    (hr : (engine cfg).Reaches MinLenSafe s₀ s) (hG : MinLenSafe s i)
    (hs : (engine cfg).step s i = some t) (he : Enters s t cb) (h0 : 0 < t.c.minLen cb)
    (hiv : t.c.minLen cb < 2 ^ 63) : MinLenMet t.c cb := by
  have hinv : RoomInv s :=
    hr.invariant h₀.inv fun _ _ _ h hG hs => (intake_step h hG.1 (step_cases hs)).1
  have hst := step_cases hs
  obtain ⟨hlen, rec, hlast⟩ := he
  rcases (intake_step hinv hG.1 hst).2 with
    ⟨l, hl, hd, -⟩ | ⟨⟨err, ok, rfl⟩, cb', o, rest, hstk, rfl, hdel⟩
  · exfalso
    rcases List.eq_nil_or_concat l with rfl | ⟨l', x, rfl⟩
    · rw [hl, List.append_nil] at hlen
      exact absurd hlen (Nat.lt_irrefl _)
    · have hx : x = .called cb rec .readerData none := by simpa [hl] using hlast
      have hfalse := hd x (by simp)
      rw [hx] at hfalse
      cases hfalse
  · obtain ⟨svbuf, r, hb, hr, hun, -, hb', hroomy, ⟨rec', ht⟩, hwants⟩ := hdel.delivered
    have ht : (resume o rest).c.trace = _ := ht
    obtain ⟨rfl, -⟩ : cb' = cb ∧ rec' = rec := by
      rw [ht] at hlast
      simpa using hlast
    refine ⟨_, hb', ?_⟩
    have hmin : o.1.minLen cb' = s.c.minLen cb' := by
      rw [Conn.minLen, Conn.minLen, hdel.callbacks]
    have hcur : ReadBuffer.cur ⟨svbuf.data ++ r, svbuf.len⟩ = svbuf.cur + r.length :=
      List.length_append
    rcases le_of_not_wantsMore hwants h0 hiv hroomy with hle | hfull
    · obtain ⟨-, hsafe⟩ := hG
      simp only [hstk, hb, ← hr] at hsafe
      rw [hmin, hcur] at hle
      show o.1.minLen cb' ≤ _ ∨ _
      rw [hmin, hcur]
      rcases hsafe with hnil | hne | hfull
      · exact absurd hnil hun
      · exact .inl (by omega)
      · exact .inr hfull
    · exact .inr hfull

/-- Two bytes are required, and both have come when the handler reads. -/
theorem min_len_met_two :
    ∃ s t, (engine ⟨.clear, 4096, 4080⟩).Reaches MinLenSafe ⟨.accepted, [.outside]⟩ s ∧
      (engine ⟨.clear, 4096, 4080⟩).step s (.recv false true) = some t ∧ Enters s t 0 ∧
      t.c.minLen 0 = 2 ∧ t.c.input = [97, 98] ∧ MinLenMet t.c 0 := by
  have hr : (engine ⟨.clear, 4096, 4080⟩).Reaches MinLenSafe ⟨.accepted, [.outside]⟩ _ :=
    .of_run [.op (.reader true 0) true, .op (.setMinLen 0 2) true, .leave, .arrive [97],
      .arrive [98], .readEvent] rfl
  exact ⟨_, _, hr, rfl, ⟨by decide, _, rfl⟩, rfl, rfl,
    min_len_met _ _ _ _ (.recv false true) 0 intakeStart_accepted hr (by decide) rfl
      ⟨by decide, _, rfl⟩ (by decide) (by decide)⟩

/-- Two bytes are required and one has come: `SvCUR + 1` is not less than 2. -/
theorem min_len_missed :
    ¬ ∀ cfg s₀ s t i cb, Initial cfg s₀ → (engine cfg).Reaches Machine.always s₀ s →
      (engine cfg).step s i = some t → Enters s t cb → 0 < t.c.minLen cb →
      t.c.minLen cb < 2 ^ 63 → MinLenMet t.c cb := by
  intro h
  have hr : (engine ⟨.clear, 4096, 4080⟩).Reaches Machine.always ⟨.accepted, [.outside]⟩ _ :=
    .of_run [.op (.reader true 0) true, .op (.setMinLen 0 2) true, .leave, .arrive [97],
      .readEvent] rfl
  obtain ⟨svbuf, hb, hmet⟩ := h _ _ _ _ (.recv false true) 0 .accepted hr rfl ⟨by decide, _, rfl⟩
    (by decide) (by decide)
  cases hb
  exact absurd hmet (by decide)

end NginxEngine.XS
