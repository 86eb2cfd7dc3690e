import NginxEngine.Pipe
import NginxEngine.XS.Transmit

/-!
# Arrays that are loaded from the success callback

A program streams by loading the next array when it is told that the last one was sent.
`ngxe_writer_buffer_set` starts the writer, which sends at once if the socket takes bytes, so a
handler can run inside the callback of an earlier run of the same handler. When the callback
returns the outer one sets `s->writer_offset` and `s->writer_index` back to 0, whatever the inner
one has sent by then.

## Main definitions

- `ArrayStream` — the program loads arrays, each when all bytes loaded before were accepted
- `Streamed` — the bytes accepted are those of the loads, in order
- `StreamSafe` — besides, no callback returns after a part of its load was sent

## Main results

- `arrays_streamed` — every run of safe steps streams its loads
- `array_rewound` — an array is sent again from its beginning
-/

namespace NginxEngine.XS

variable {cfg : Config} {ok : Bool} {c c' : Conn} {cb : Nat} {o : Outcome} {sv : Sv} {s t : Sys}
  {b : Bytes} {k : Kind} {rest stk : List Frame} {m : List Obs}

/-- The bytes of a load. -/
def Obs.load : Obs → Bytes
  | .loaded sv => sv.bytes
  | _ => []

/-- What goes out: the bytes loaded, those accepted, and those left in the write buffer. -/
def Conn.outgoing (c : Conn) : Pipe UInt8 where
  received := c.trace.flatMap Obs.load
  sent := c.trace.flatMap Obs.output
  unsent := c.left
  kept := []

/-- The bytes accepted are those of the loads, in order, and all of them when success is
    reported. -/
def Streamed (l : List Obs) : Prop :=
  l.flatMap Obs.output <+: l.flatMap Obs.load ∧
    (l.getLast?.any Obs.isDone = true → l.flatMap Obs.output = l.flatMap Obs.load)

/-- An array of scalar references. -/
def Sv.isArray : Sv → Bool
  | .av xs => xs.all Option.isSome
  | _ => false

/-- The program creates a writer once, with an array or with nothing to send, and loads arrays by
    `ngxe_writer_buffer_set` when everything loaded before was accepted. -/
def ArrayStream (s : Sys) : Input → Prop
  | .op (.writer _ _ sv) _ =>
    (sv.isArray = true ∨ sv = .str []) ∧ s.c.trace.any Obs.isLoaded = false
  | .op (.writerBufferSet sv) _ =>
    sv.isArray = true ∧ s.c.outgoing.sent = s.c.outgoing.received
  | .op (.setWriteBuffer _) _ | .op (.writerStart _) _ | .op .readerStopWriterStart _
  | .op .writerStop _ | .op .writerStopReaderStart _ => False
  | _ => True

/-- A part of the reference in the write buffer was sent. -/
def Conn.partlySent (c : Conn) : Bool :=
  c.writerBuffer.any fun sv => sv.rok && decide (c.left ≠ sv.bytes)

/-- Besides, scalars are shorter than 2^31 bytes, and no success callback returns on an open
    connection after a part of its load was sent. -/
def StreamSafe (s : Sys) (i : Input) : Prop :=
  ArrayStream s i ∧
  match i with
  | .op (.writer _ _ sv) _ | .op (.writerBufferSet sv) _ => sv.small = true
  | .ret _ =>
    match s.stack with
    | .inCallback _ (.writerDone _) :: _ => s.c.destroyed = true ∨ s.c.partlySent = false
    | _ => True
  | _ => True

/-- An established connection on which nothing was loaded. -/
structure StreamStart (s : Sys) : Prop where
  read : s.c.read.handler ≠ .clientInit
  write : s.c.write.handler = .dummy
  buffer : ∀ sv, s.c.writerBuffer = some sv → sv = .str []
  offset : s.c.writerOffset = 0
  index : s.c.writerIndex = 0
  trace : s.c.trace.flatMap Obs.output = [] ∧ s.c.trace.any Obs.isLoaded = false
  stack : Beneath s.stack

instance {i : Input} : Decidable (ArrayStream s i) := by
  unfold ArrayStream
  induction i with
  | op o ok => induction o <;> infer_instance
  | _ => infer_instance

instance {i : Input} : Decidable (StreamSafe s i) := by
  unfold StreamSafe
  refine @instDecidableAnd _ _ inferInstance ?_
  generalize s.stack = stk
  induction i with
  | op o ok => induction o <;> infer_instance
  | ret ok =>
    induction stk using List.casesOn with
    | nil => infer_instance
    | cons f rest =>
      induction f with
      | inCallback cb site => induction site <;> infer_instance
      | _ => infer_instance
  | _ => infer_instance

/-! ### The invariant -/

/-- What such a program has in the write buffer. -/
def Sv.streamed : Sv → Bool
  | .undef => true
  | .str b => b.isEmpty
  | .av _ => true
  | .rv _ | .rvOther => false

/-- Nothing was sent of what is in the write buffer. -/
def Conn.Untouched (c : Conn) : Prop := ∀ sv, c.writerBuffer = some sv → c.left = sv.bytes

/-- Nothing was loaded yet, and the writer has not run. -/
structure Conn.Unused (c : Conn) : Prop where
  handler : c.write.handler = .dummy
  buffer : ∀ sv, c.writerBuffer = some sv → sv = .str []
  offset : c.writerOffset = 0
  index : c.writerIndex = 0

/-- What was accepted and what is left is what was loaded. -/
structure Conn.Streams (c : Conn) : Prop where
  conserved : c.outgoing.Conserved
  placed : ∀ sv, c.writerBuffer = some sv → sv.streamed = true ∧ c.Placed sv
  handlers : c.read.handler ≠ .clientInit ∧ c.write.handler ≠ .clientInit
  idle : c.write.handler = .dummy → c.Untouched
  unused : c.trace.any Obs.isLoaded = false → c.Unused
  told : c.trace.getLast?.any Obs.isDone = true → c.left = []

/-- A frame of Perl code that was not called by the handler of scalar references. -/
def Frame.isAbove (f : Frame) : Prop :=
  f.isPerl = true ∧ ∀ cb, f ≠ .inCallback cb (.writerDone .rvpv)

structure StreamStack (c : Conn) (stk : List Frame) : Prop where
  perl : PerlBelow stk
  request : ∀ k cb rest, stk = .send k cb :: rest → c.RequestOk k ∧ c.write.handler = .writer
  noScalar : ∀ cb, .inCallback cb (.writerDone .rvpv) ∉ stk

/-- A writer handler has given up with bytes left. -/
structure Sys.Doomed (s : Sys) : Prop extends s.Dead where
  sent : ∃ r, r ≠ [] ∧ s.c.trace.flatMap Obs.output ++ r = s.c.trace.flatMap Obs.load
  told : s.c.trace.getLast?.any Obs.isDone = false

inductive Streaming : Sys → Prop
  | live {c : Conn} {stk : List Frame} (h : c.Streams) (hs : StreamStack c stk) :
      Streaming ⟨c, stk⟩
  | doomed {s : Sys} (h : s.Doomed) : Streaming s

theorem Streaming.streamed (h : Streaming s) : Streamed s.c.trace := by
  cases h with
  | @live c stk h hs =>
    refine ⟨h.conserved.sent_le, fun hlast => ?_⟩
    have hall := h.conserved
    rw [Pipe.Conserved, show c.outgoing.unsent = [] from h.told hlast] at hall
    simpa [Conn.outgoing] using hall.symm
  | doomed h =>
    obtain ⟨r, -, hr⟩ := h.sent
    refine ⟨⟨r, hr⟩, fun hlast => ?_⟩
    exact absurd (h.told.symm.trans hlast) (by decide)

/-! ### Stacks -/

theorem StreamStack.above (h : StreamStack c (f :: rest)) : ∀ g ∈ rest, g.isAbove := by
  refine fun g hg => ⟨h.perl g hg, ?_⟩
  rintro cb rfl
  exact h.noScalar cb (List.mem_cons_of_mem f hg)

theorem StreamStack.of_above (h : ∀ g ∈ stk, g.isAbove) : StreamStack c stk := by
  refine ⟨fun g hg => (h g (List.mem_of_mem_tail hg)).1, ?_, fun cb hf => (h _ hf).2 cb rfl⟩
  rintro k cb rest rfl
  have hf := (h _ List.mem_cons_self).1
  cases hf

/-- One frame on top of Perl code. -/
theorem StreamStack.cons {f : Frame} (hrest : ∀ g ∈ rest, g.isAbove)
    (hf : ∀ cb, f ≠ .inCallback cb (.writerDone .rvpv))
    (hq : ∀ k cb, f = .send k cb → c.RequestOk k ∧ c.write.handler = .writer) :
    StreamStack c (f :: rest) := by
  refine ⟨fun g hg => (hrest g hg).1, fun k cb rest' he => hq k cb (List.cons.inj he).1, ?_⟩
  intro cb hmem
  rcases List.mem_cons.mp hmem with he | hmem
  · exact hf cb he.symm
  · exact (hrest _ hmem).2 cb rfl

theorem StreamStack.congr (h : StreamStack c stk) (hb : c'.writerBuffer = c.writerBuffer)
    (ho : c'.writerOffset = c.writerOffset) (hi : c'.writerIndex = c.writerIndex)
    (hw : c'.write.handler = c.write.handler) : StreamStack c' stk := by
  refine ⟨h.perl, fun k cb rest he => ?_, h.noScalar⟩
  obtain ⟨hq, hh⟩ := h.request k cb rest he
  exact ⟨hq.congr hb ho hi, hw.trans hh⟩

/-- Code that is not the handler of scalar references does not call back from there. -/
def NoScalar (fs : List Frame) : Prop := ∀ cb, .inCallback cb (.writerDone .rvpv) ∉ fs

theorem waitWritable_noScalar : NoScalar (waitWritable cfg ok k c cb).2 := by
  rw [waitWritable]
  split
  · simp [NoScalar, fail, ngxeCallback]
  · simp [NoScalar]

theorem rvpvavNextBuf_noScalar : NoScalar (rvpvavNextBuf c cb).2 := by
  rw [rvpvavNextBuf]
  split
  · split
    · simp [NoScalar, ngxeCallback]
    · simp [NoScalar, fail, ngxeCallback]
    · simp [NoScalar]
  · simp [NoScalar]

theorem ngxeWriterHandler_noScalar {ev : Event WriteHandler} (hb : c.writerBuffer = some sv)
    (hs : sv.streamed = true) : NoScalar (ngxeWriterHandler c ev).2 := by
  rw [ngxeWriterHandler]
  split
  · simp [NoScalar]
  · simp [NoScalar]
  · next hrv =>
    obtain rfl := Option.some.inj (hb.symm.trans hrv)
    cases hs
  · rw [ngxeRvpvavWriterHandler]
    split
    · simp [NoScalar, fail, ngxeCallback]
    · exact rvpvavNextBuf_noScalar
  · simp [NoScalar, fail, ngxeCallback]
  · split
    · simp [NoScalar, fail, ngxeCallback]
    · dsimp only
      split
      · simp [NoScalar, ngxeCallback]
      · simp [NoScalar]

theorem writerSend_noScalar {r : SendResult} (hk : k ≠ .rvpv) :
    NoScalar (writerSend cfg ok k c cb r).2 := by
  rw [writerSend]
  split
  · simp [NoScalar]
  cases r with
  | error | zero => simp [NoScalar, fail, ngxeCallback]
  | again =>
    dsimp only
    split
    · simp [NoScalar, fail, ngxeCallback]
    · split
      · simp [NoScalar]
      · simp [NoScalar]
  | accepted n =>
    cases k with
    | plain =>
      dsimp only [sendAccepted]
      split
      · exact waitWritable_noScalar
      · simp [NoScalar, ngxeCallback]
    | rvpv => exact absurd rfl hk
    | rvpvav =>
      dsimp only [sendAccepted]
      split
      · split
        · split
          · exact waitWritable_noScalar
          · exact rvpvavNextBuf_noScalar
        · simp [NoScalar]
      · simp [NoScalar]

/-! ### Writer code -/

/-- What neither loads nor sends. -/
def Obs.idle (x : Obs) : Prop := x.output = [] ∧ x.load = [] ∧ x.isLoaded = false

theorem isSent_idle {x : Obs} (h : x.isSent = true) :
    x.load = [] ∧ x.isLoaded = false ∧ x.isDone = false := by
  cases x with
  | sent b => exact ⟨rfl, rfl, rfl⟩
  | received b | loaded sv | called cb r site err => cases h

theorem flatMap_load_sent (hm : ∀ x ∈ m, x.isSent = true) : m.flatMap Obs.load = [] :=
  List.flatMap_eq_nil_iff.mpr fun x hx => (isSent_idle (hm x hx)).1

theorem Sv.streamed_of_spent (hs : sv.spent k = true) (hk : k ≠ .rvpv) : sv.streamed = true := by
  cases sv with
  | undef => rfl
  | str b => exact hs
  | rv b => simp [Sv.spent, hk] at hs
  | av xs => rfl
  | rvOther => cases hs

/-- What is left is left of an array. -/
theorem Conn.Streams.isRef (h : c.Streams) (hb : c.writerBuffer = some sv) (hl : c.left ≠ []) :
    sv.isRef = true := by
  obtain ⟨hs, -⟩ := h.placed sv hb
  cases sv with
  | undef => exact absurd (by rw [Conn.left, hb]; rfl) hl
  | str b =>
    refine absurd ?_ hl
    rw [Conn.left, hb]
    exact List.isEmpty_iff.mp hs
  | av xs => rfl
  | rv b | rvOther => cases hs

/-- A handler that has given `b` to the socket goes on. -/
theorem Conn.Streams.advance (h : c.Streams) (hh : c.write.handler = .writer)
    (hr : c'.read.handler = c.read.handler) (hw : c'.write.handler = c.write.handler)
    (ha : Advance c b c') (hs : ∀ sv, c'.writerBuffer = some sv → sv.streamed = true) :
    c'.Streams := by
  obtain ⟨l, hl, hb, hsent⟩ := ha.trace
  have hd : ∀ x ∈ l, x.isDone = false := fun x hx => (isSent_idle (hsent x hx)).2.2
  refine ⟨?_, fun sv hsv => ⟨hs sv hsv, ?_⟩, ?_, fun hd => ?_, fun hn => ?_, fun hlast => ?_⟩
  · have hc := h.conserved
    simp only [Pipe.Conserved, Conn.outgoing, List.append_nil, hl, List.flatMap_append, hb,
      flatMap_load_sent hsent, ha.left] at hc ⊢
    rw [hc, List.append_assoc]
  · obtain ⟨sv', hp⟩ := ha.placed
    obtain rfl := Option.some.inj (hp.buffer.symm.trans hsv)
    exact hp
  · rw [hr, hw]
    exact h.handlers
  · rw [hw, hh] at hd
    cases hd
  · rw [hl, List.any_append, Bool.or_eq_false_iff] at hn
    have hdummy := (h.unused hn.1).handler
    rw [hh] at hdummy
    cases hdummy
  · rw [hl] at hlast
    have hnil := h.told (getLast_append_notDone hd hlast).1
    rw [ha.left] at hnil
    exact (List.append_eq_nil_iff.mp hnil).2

/-- Code that keeps the write side of the session. -/
theorem Conn.Streams.keep (h : c.Streams) (hb : c'.writerBuffer = c.writerBuffer)
    (hleft : c'.left = c.left) (hp : ∀ sv, c.Placed sv → c'.Placed sv)
    (ho : c.writerOffset = 0 → c'.writerOffset = 0) (hi : c.writerIndex = 0 → c'.writerIndex = 0)
    (ht : c'.trace = c.trace ++ m) (hm : ∀ x ∈ m, x.idle)
    (hd : (∀ x ∈ m, x.isDone = false) ∨ c.left = []) (hr : c'.read.handler ≠ .clientInit)
    (hw : c'.write.handler = c.write.handler) : c'.Streams := by
  have hout : m.flatMap Obs.output = [] := List.flatMap_eq_nil_iff.mpr fun x hx => (hm x hx).1
  have hload : m.flatMap Obs.load = [] := List.flatMap_eq_nil_iff.mpr fun x hx => (hm x hx).2.1
  refine ⟨?_, fun sv hsv => ?_, ⟨hr, ?_⟩, fun hdummy sv hsv => ?_, fun hn => ?_, fun hlast => ?_⟩
  · have hc := h.conserved
    simp only [Pipe.Conserved, Conn.outgoing, List.append_nil, ht, List.flatMap_append, hout, hload,
      hleft] at hc ⊢
    exact hc
  · obtain ⟨hs, hpl⟩ := h.placed sv (hb.symm.trans hsv)
    exact ⟨hs, hp sv hpl⟩
  · rw [hw]
    exact h.handlers.2
  · rw [hleft]
    exact h.idle (hw.symm.trans hdummy) sv (hb.symm.trans hsv)
  · rw [ht, List.any_append, Bool.or_eq_false_iff] at hn
    have hu := h.unused hn.1
    exact ⟨hw.trans hu.handler, fun sv hsv => hu.buffer sv (hb.symm.trans hsv), ho hu.offset,
      hi hu.index⟩
  · rw [ht] at hlast
    rw [hleft]
    rcases hd with hd | hl
    · exact h.told (getLast_append_notDone hd hlast).1
    · exact hl

/-- The same, with the position kept. -/
theorem Conn.Streams.stay (h : c.Streams) (hb : c'.writerBuffer = c.writerBuffer)
    (ho : c'.writerOffset = c.writerOffset) (hi : c'.writerIndex = c.writerIndex)
    (ht : c'.trace = c.trace ++ m) (hm : ∀ x ∈ m, x.idle)
    (hd : (∀ x ∈ m, x.isDone = false) ∨ c.left = []) (hr : c'.read.handler ≠ .clientInit)
    (hw : c'.write.handler = c.write.handler) : c'.Streams :=
  h.keep hb (left_congr hb ho hi) (fun _ hp => hp.congr hb ho hi) ho.trans hi.trans ht hm hd hr hw

/-- The same, with nothing observed. -/
theorem Conn.Streams.same (h : c.Streams) (hb : c'.writerBuffer = c.writerBuffer)
    (ho : c'.writerOffset = c.writerOffset) (hi : c'.writerIndex = c.writerIndex)
    (ht : c'.trace = c.trace) (hr : c'.read.handler ≠ .clientInit)
    (hw : c'.write.handler = c.write.handler) : c'.Streams :=
  h.stay (m := []) hb ho hi (by rw [ht, List.append_nil]) (by simp) (.inl (by simp)) hr hw

/-- What a segment of writer code leaves. -/
theorem Streaming.of_transfer (h : c.Streams) (hh : c.write.handler = .writer)
    (hb : c.writerBuffer = some sv) (hw : WriterOutcome cb c o) (hn : NoScalar o.2)
    (ht : Transfer cb c b o) (hrest : ∀ g ∈ rest, g.isAbove) : Streaming (resume o rest) := by
  have hon : ∀ {c'}, WriterMove cb c c' → Advance c b c' → c'.left ≠ [] → c'.Streams := by
    intro c' hm ha hl
    have hl' : c.left ≠ [] := by
      rw [ha.left]
      exact fun hnil => hl (List.append_eq_nil_iff.mp hnil).2
    have href : c.writerBuffer.any Sv.isRef = true := by
      rw [hb]
      exact h.isRef hb hl'
    refine h.advance hh (by rw [hm.read]) hm.handler ha fun sv' hsv => (h.placed sv' ?_).1
    exact (ha.buffer href hl).symm.trans hsv
  cases ht with
  | wait ha hl => exact .live (hon hw.move ha hl) (.of_above hrest)
  | @send c' k ha hq =>
    refine .live (hon hw.move ha hq.left_ne_nil) (.cons hrest (by simp) fun k' cb' he => ?_)
    cases he
    exact ⟨hq, hw.move.handler.trans hh⟩
  | @done c' k ha sv' hb' hs =>
    have hk : k ≠ .rvpv := by
      rintro rfl
      exact hn cb (by simp [ngxeCallback])
    have hread : c'.read = c.read := hw.move.read
    have hplaced : c'.Placed sv' := by
      obtain ⟨sv'', hp⟩ := ha.placed
      obtain rfl := Option.some.inj (hp.buffer.symm.trans hb')
      exact hp
    have hstreams : c'.Streams := by
      refine h.advance hh (by rw [hread]) hw.move.handler ha fun sv'' hsv => ?_
      obtain rfl := Option.some.inj (hb'.symm.trans hsv)
      exact Sv.streamed_of_spent hs hk
    refine .live (hstreams.stay rfl rfl rfl rfl (by simp [Obs.idle, Obs.output, Obs.load,
      Obs.isLoaded]) (.inr (hplaced.left_of_spent hs)) hstreams.handlers.1 rfl)
      (.cons hrest ?_ (by simp))
    intro cb' he
    cases he
    exact hk rfl
  | @failed c' e hl ht =>
    obtain ⟨r, hr, hl⟩ := hl
    obtain ⟨l, hl', hb', hsent⟩ := ht
    have hc := h.conserved
    simp only [Pipe.Conserved, Conn.outgoing, List.append_nil, hl] at hc
    refine .doomed ⟨⟨.inr ⟨_, _, rfl, rfl⟩, fun f hf => .inl ?_⟩, ⟨r, hr, ?_⟩, ?_⟩
    · rcases List.mem_cons.mp hf with rfl | hf
      · rfl
      · exact (hrest f hf).1
    · simp [resume, fail, ngxeCallback, hl', hb', flatMap_load_sent hsent, Obs.output, Obs.load, hc]
    · simp [resume, fail, ngxeCallback, Obs.isDone]

theorem called_idle {r : Option Callback} {site : Site} {err : Option CbError} :
    Obs.idle (.called cb r site err) :=
  ⟨rfl, rfl, rfl⟩

/-- An error is reported, and nothing else has changed. -/
theorem Streaming.failed {e : CbError} (h : c.Streams) (hrest : ∀ g ∈ rest, g.isAbove) :
    Streaming (resume (fail c cb e) rest) := by
  refine .live (h.stay rfl rfl rfl rfl (m := [.called cb c.callbacks[cb]? .failed (some e)]) ?_
    (.inl (by simp [Obs.isDone])) h.handlers.1 rfl) (.cons hrest (by simp) (by simp))
  intro x hx
  obtain rfl := List.mem_singleton.mp hx
  exact called_idle

theorem Streaming.crash (h : c.Streams) (hrest : ∀ g ∈ rest, g.isAbove) :
    Streaming ⟨c, .crash :: rest⟩ :=
  .live h (.cons hrest (by simp) (by simp))

/-- The writer handler is called. -/
theorem Streaming.handler (h : c.Streams) (hh : c.write.handler = .writer)
    (hrest : ∀ g ∈ rest, g.isAbove) : Streaming (resume (ngxeWriterHandler c c.write) rest) := by
  cases hw : c.hasWriter with
  | false =>
    rw [ngxeWriterHandler_of_not_hasWriter hw]
    exact .live h (.of_above hrest)
  | true =>
    cases hto : c.write.timedout with
    | true =>
      obtain ⟨cb, e, he⟩ := ngxeWriterHandler_timedout hw hto
      rw [he]
      exact .failed h hrest
    | false =>
      simp only [Conn.hasWriter, Bool.and_eq_true, Option.isSome_iff_exists] at hw
      obtain ⟨⟨cb, hcb⟩, ⟨sv, hb⟩⟩ := hw
      obtain ⟨hs, hp⟩ := h.placed sv hb
      refine .of_transfer h hh hb (ngxeWriterHandler_outcome fun w hw => ?_)
        (ngxeWriterHandler_noScalar hb hs) (ngxeWriterHandler_transfer hp hcb hto) hrest
      exact Option.some.inj (hw.symm.trans hcb)

/-- `ngxe_writer_start` on a connection with a load. -/
theorem Streaming.start (h : c.Streams) (hl : c.trace.any Obs.isLoaded = true)
    (hrest : ∀ g ∈ rest, g.isAbove) : Streaming (resume (ngxeWriterStart cfg ok c) rest) := by
  have hinstall : c.installWriter.Streams := by
    refine ⟨h.conserved, fun sv hb => ?_, ⟨h.handlers.1, by simp [Conn.installWriter]⟩,
      fun hd => ?_, fun hn => ?_, h.told⟩
    · obtain ⟨hs, hp⟩ := h.placed sv hb
      exact ⟨hs, hp.congr rfl rfl rfl⟩
    · cases hd
    · exact absurd (hl.symm.trans hn) (by decide)
  rw [ngxeWriterStart]
  split
  · cases c.writerCallback with
    | none => exact .crash hinstall hrest
    | some cb => exact .failed hinstall hrest
  · next c₁ h₁ =>
    have heq := handleWrite_eq h₁
    have harm : c₁.armWrite.Streams := by
      rw [Conn.armWrite, heq]
      exact hinstall.same rfl rfl rfl rfl hinstall.handlers.1 rfl
    have hh : c₁.armWrite.write.handler = .writer := by
      rw [Conn.armWrite, heq]
      rfl
    split
    · exact .handler harm hh hrest
    · exact .live harm (.of_above hrest)

/-- `SENDAGAIN`. -/
theorem Streaming.sent {r : SendResult} (h : c.Streams)
    (hs : StreamStack c (.send k cb :: rest)) (hr : r.answers (c.request k) = true) :
    Streaming (resume (writerSend cfg ok k c cb r) rest) := by
  obtain ⟨hq, hh⟩ := hs.request k cb rest rfl
  obtain ⟨b, offset, hscalar, h0, hlt, -⟩ := id hq
  obtain ⟨sv, hb⟩ : ∃ sv, c.writerBuffer = some sv := by
    cases hb : c.writerBuffer with
    | some sv => exact ⟨sv, rfl⟩
    | none => simp [Conn.scalar, hb] at hscalar
  obtain ⟨hstr, hp⟩ := h.placed sv hb
  have hk : k ≠ .rvpv := by
    rintro rfl
    cases sv <;> simp [Conn.scalar, hb, Sv.streamed] at hscalar hstr
  obtain ⟨b', ht⟩ : ∃ b', Transfer cb c b' (writerSend cfg ok k c cb r) :=
    writerSend_transfer hp hq hr
  exact .of_transfer h hh hb (writerSend_outcome k r) (writerSend_noScalar hk) ht hs.above

/-! ### Reader code and the return of the callbacks -/

theorem Conn.Streams.reader (h : c.Streams) (hm : ReaderMove cb c c') : c'.Streams := by
  obtain ⟨l, hl, hobs⟩ := hm.trace
  have hidle : ∀ x ∈ l, x.idle ∧ x.isDone = false := by
    intro x hx
    have hx := hobs x hx
    cases x with
    | received b => exact ⟨⟨rfl, rfl, rfl⟩, rfl⟩
    | sent b | loaded sv => exact hx.elim
    | called cb' r site err =>
      obtain ⟨-, -, rfl | rfl⟩ := hx
      · exact ⟨⟨rfl, rfl, rfl⟩, rfl⟩
      · exact ⟨⟨rfl, rfl, rfl⟩, rfl⟩
  refine h.stay hm.writerBuffer (by rw [hm.frame]) (by rw [hm.frame]) hl
    (fun x hx => (hidle x hx).1) (.inl fun x hx => (hidle x hx).2) ?_ (by rw [hm.write])
  rw [hm.handler]
  exact h.handlers.1

/-- Reader code leaves the write side alone. -/
theorem Streaming.of_reader (h : c.Streams) (ho : ReaderOutcome cb c o)
    (hrest : ∀ g ∈ rest, g.isAbove) : Streaming (resume o rest) := by
  obtain ⟨c', fs⟩ := o
  have hc : c'.Streams := h.reader ho.move
  cases ho.frames with
  | ret => exact .live hc (.of_above hrest)
  | recv | data | failed | crash => exact .live hc (.cons hrest (by simp) (by simp))

theorem Streaming.readerStart (h : c.Streams) (hrest : ∀ g ∈ rest, g.isAbove) :
    Streaming (resume (ngxeReaderStart cfg ok c) rest) := by
  obtain ⟨cb, hcb⟩ := exists_readerCallback c
  have hi : c.installReader.Streams :=
    h.same rfl rfl rfl rfl (by simp [Conn.installReader]) rfl
  exact .of_reader hi (ngxeReaderStart_outcome hcb) hrest

theorem Conn.Streams.untouched (h : c.Streams) (hp : c.partlySent = false) : c.Untouched := by
  intro sv hb
  obtain ⟨hs, -⟩ := h.placed sv hb
  rw [Conn.partlySent, hb, Option.any_some] at hp
  cases sv with
  | undef | str b => rw [Conn.left, hb]; rfl
  | av xs => simpa [Sv.rok] using hp
  | rv b | rvOther => cases hs

/-- The position goes back to the beginning of a load of which nothing was sent. -/
theorem Conn.Streams.reset (h : c.Streams) (hu : c.Untouched) :
    Conn.Streams { c with writerOffset := 0, writerIndex := 0 } := by
  have hplaced : ∀ sv, c.Placed sv →
      Conn.Placed { c with writerOffset := 0, writerIndex := 0 } sv := fun sv hp =>
    ⟨hp.buffer, hp.sendable, hp.small, posOk_zero rfl _⟩
  refine h.keep rfl ?_ hplaced (fun _ => rfl) (fun _ => rfl) (List.append_nil _).symm (by simp)
    (.inl (by simp)) h.handlers.1 rfl
  cases hb : c.writerBuffer with
  | none => rw [Conn.left, Conn.left, hb]
  | some sv =>
    rw [hu sv hb]
    exact left_start rfl rfl rfl

theorem Streaming.wait (h : c.Streams) (ho : c.writerOffset = 0)
    (hrest : ∀ g ∈ rest, g.isAbove) : Streaming (resume (waitWritable cfg ok k c cb) rest) := by
  rw [waitWritable]
  split
  · refine .failed ?_ hrest
    cases k with
    | plain => exact h
    | rvpv | rvpvav => exact h.same rfl ho.symm rfl rfl h.handlers.1 rfl
  · next c₁ h₁ =>
    refine .live ?_ (.of_above hrest)
    rw [Conn.armWrite, handleWrite_eq h₁]
    exact h.same rfl rfl rfl rfl h.handlers.1 rfl

/-- The return of a success callback that has left its load alone. -/
theorem Streaming.afterWriter (h : c.Streams) (hk : k ≠ .rvpv) (hp : c.partlySent = false)
    (hrest : ∀ g ∈ rest, g.isAbove) (ho : WriterReturns cfg ok k c cb o) :
    Streaming (resume o rest) := by
  have hu := h.untouched hp
  cases ho with
  | ret hret => exact .live h (.of_above hrest)
  | crash hopen hh hbad => exact .crash h hrest
  | @more sv hopen hh hb hmore =>
    have hwriter : c.write.handler = .writer := by
      cases hw : c.write.handler with
      | dummy => exact absurd hw hh
      | writer => rfl
      | clientInit => exact absurd hw h.handlers.2
    obtain ⟨hs, hpl⟩ := h.placed sv hb
    have hr := h.reset hu
    cases k with
    | plain => cases sv <;> simp_all [moreToWrite, Sv.cur, Sv.streamed]
    | rvpv => exact absurd rfl hk
    | rvpvav =>
      cases sv with
      | av xs =>
        have hpl' := (hr.placed (.av xs) hb).2
        rw [continueWriter]
        dsimp only
        split
        · exact .of_transfer hr hwriter hb rvpvavNextBuf_outcome rvpvavNextBuf_noScalar
            (rvpvavNextBuf_transfer hpl') hrest
        · exact .wait hr rfl hrest
      | undef | str b => cases hmore
      | rv b | rvOther => cases hs
  | reader hopen hh hb hrv hmore hr =>
    refine .readerStart ?_ hrest
    refine ⟨h.conserved, fun sv hb => ?_, ⟨h.handlers.1, by simp [ngxeWriterStop]⟩, fun _ => hu,
      fun hn => ?_, h.told⟩
    · obtain ⟨hs, hp⟩ := h.placed sv hb
      exact ⟨hs, hp.congr rfl rfl rfl⟩
    · have hun := h.unused hn
      exact ⟨rfl, hun.buffer, hun.offset, hun.index⟩
  | rest hopen hh hb hmore hr => exact .live h (.of_above hrest)

theorem Streaming.afterReader (h : c.Streams) (hrest : ∀ g ∈ rest, g.isAbove) :
    Streaming (resume (afterReader cfg ok c cb) rest) := by
  cases hsw : c.switchesToWriter with
  | false => exact .of_reader h (afterReader_outcome hsw) hrest
  | true =>
    rw [afterReader_switches hsw]
    obtain ⟨-, -, hdummy, hw⟩ := Conn.switchesToWriter_iff.mp hsw
    have hr := h.reset (h.idle hdummy)
    have hstop : (ngxeReaderStop { c with writerOffset := 0, writerIndex := 0 }).Streams :=
      hr.same rfl rfl rfl rfl (by simp [ngxeReaderStop]) rfl
    refine .start hstop ?_ hrest
    by_contra hn
    have hbuf := (h.unused (Bool.eq_false_iff.mpr hn)).buffer
    simp only [Conn.wantsWriter, Bool.and_eq_true, Option.any_eq_true] at hw
    obtain ⟨-, sv, hb, hsv⟩ := hw
    obtain rfl := hbuf sv hb
    cases hsv

/-! ### Calls -/

theorem load_of_not_loaded {l : List Obs} (h : l.any Obs.isLoaded = false) :
    l.flatMap Obs.load = [] := by
  rw [List.flatMap_eq_nil_iff]
  intro x hx
  have hx := (List.any_eq_false.mp h) x hx
  cases x with
  | loaded sv => exact absurd rfl hx
  | received b | sent b | called cb r site err => rfl

theorem Sv.isArray_cases (h : sv.isArray = true ∨ sv = .str []) :
    sv.pokOn = sv ∧ sv.streamed = true ∧ sv.sendable = true := by
  rcases h with h | rfl
  · cases sv with
    | av xs => exact ⟨rfl, rfl, h⟩
    | undef | str b | rv b | rvOther => cases h
  · exact ⟨rfl, rfl, rfl⟩

/-- The next load, when everything loaded before was accepted. -/
theorem Conn.Streams.loaded (h : c.Streams) (hall : c.outgoing.sent = c.outgoing.received)
    (hsv : sv.isArray = true ∨ sv = .str []) (hsmall : sv.small = true)
    (hb : c'.writerBuffer = some sv) (ho : c'.writerOffset = 0) (hi : c'.writerIndex = 0)
    (ht : c'.trace = c.trace ++ [.loaded sv]) (hr : c'.read.handler = c.read.handler)
    (hw : c'.write.handler ≠ .clientInit) : c'.Streams := by
  obtain ⟨-, hstr, hsend⟩ := Sv.isArray_cases hsv
  have hleft : c'.left = sv.bytes := left_start hb ho hi
  refine ⟨?_, fun sv' hb' => ?_, ⟨by rw [hr]; exact h.handlers.1, hw⟩, fun _ sv' hb' => ?_,
    fun hn => ?_, fun hlast => ?_⟩
  · simp only [Conn.outgoing] at hall
    simp [Pipe.Conserved, Conn.outgoing, ht, hleft, hall, Obs.output, Obs.load]
  · obtain rfl := Option.some.inj (hb.symm.trans hb')
    exact ⟨hstr, hb, hsend, hsmall, posOk_zero ho _⟩
  · obtain rfl := Option.some.inj (hb.symm.trans hb')
    exact hleft
  · simp [ht, Obs.isLoaded] at hn
  · simp [ht, Obs.isDone] at hlast

theorem Streaming.bufferSet (h : c.Streams)
    (hG : ArrayStream ⟨c, stk⟩ (.op (.writerBufferSet sv) ok)) (hsmall : sv.small = true)
    (hstk : ∀ g ∈ stk, g.isAbove) :
    Streaming (resume (ngxeWriterBufferSet cfg ok c sv) stk) := by
  obtain ⟨hsv, hall⟩ := hG
  cases sv with
  | av xs =>
    rw [ngxeWriterBufferSet.eq_def]
    split
    · exact .live h (.of_above hstk)
    · next heq => cases heq
    · next heq =>
      cases heq
      refine .start (h.loaded hall (.inl hsv) hsmall rfl rfl rfl rfl rfl h.handlers.2) ?_ hstk
      simp [Conn.load, Obs.isLoaded]
    · next heq => cases heq
    · next heq => cases heq
    · next hne _ _ => exact absurd rfl (hne xs)
  | undef | str b | rv b | rvOther => cases hsv

theorem Streaming.writer {start : Bool} {timeout : Int} (h : c.Streams)
    (hG : ArrayStream ⟨c, stk⟩ (.op (.writer start timeout sv) ok)) (hsmall : sv.small = true)
    (hstk : ∀ g ∈ stk, g.isAbove) :
    Streaming (resume (ngxeWriter cfg ok c start timeout sv) stk) := by
  obtain ⟨hsv, hn⟩ := hG
  have hu := h.unused hn
  have hall : c.outgoing.sent = c.outgoing.received := by
    have hc : c.trace.flatMap Obs.load = c.trace.flatMap Obs.output ++ c.left ++ [] := h.conserved
    rw [load_of_not_loaded hn] at hc
    have hsent : c.trace.flatMap Obs.output = [] := by
      simpa using (List.append_eq_nil_iff.mp (List.append_eq_nil_iff.mp hc.symm).1).1
    simp only [Conn.outgoing]
    rw [hsent, load_of_not_loaded hn]
  have hcreate : (createWriter cfg c timeout sv).Streams := by
    refine h.loaded hall hsv hsmall ?_ hu.offset hu.index ?_ rfl (by simp [createWriter])
    · rw [createWriter, (Sv.isArray_cases hsv).1]
      rfl
    · rw [createWriter, (Sv.isArray_cases hsv).1]
      rfl
  rw [ngxeWriter]
  split
  · refine .start hcreate ?_ hstk
    simp [createWriter, Conn.load, Obs.isLoaded]
  · exact .live hcreate (.of_above hstk)

/-- The read side gets a callback, and both sides a buffer. -/
theorem Conn.Streams.createReader {timeout : Int} (h : c.Streams) :
    (createReader cfg c timeout).Streams := by
  cases hb : c.writerBuffer with
  | some sv =>
    exact h.same (by rw [XS.createReader, hb]; rfl) rfl rfl rfl (by simp [XS.createReader]) rfl
  | none =>
    have hb' : (XS.createReader cfg c timeout).writerBuffer = some (.str []) := by
      rw [XS.createReader, hb]
      rfl
    have hleft : (XS.createReader cfg c timeout).left = c.left := by
      rw [Conn.left, hb', Conn.left, hb]
    have hnew : ∀ sv, (XS.createReader cfg c timeout).writerBuffer = some sv → sv = .str [] :=
      fun sv hsv => (Option.some.inj (hb'.symm.trans hsv)).symm
    refine ⟨?_, fun sv hsv => ?_, ⟨by simp [XS.createReader], h.handlers.2⟩, fun _ sv hsv => ?_,
      fun hn => ?_, fun hlast => ?_⟩
    · have hc := h.conserved
      simp only [Pipe.Conserved, Conn.outgoing, hleft] at hc ⊢
      exact hc
    · obtain rfl := hnew sv hsv
      exact ⟨rfl, hsv, rfl, rfl, trivial⟩
    · obtain rfl := hnew sv hsv
      rw [hleft, Conn.left, hb]
      rfl
    · have hu := h.unused hn
      exact ⟨hu.handler, hnew, hu.offset, hu.index⟩
    · rw [hleft]
      exact h.told hlast

theorem Conn.Streams.close (h : c.Streams) : (ngxeClose c).Streams := by
  obtain ⟨hb, ho, hi, -, ht, hw, -, hr⟩ := close_keeps c
  exact h.same hb ho hi ht (by rw [hr]; exact h.handlers.1) hw

theorem Streaming.op {o : Op} (h : c.Streams) (hG : StreamSafe ⟨c, stk⟩ (.op o ok))
    (hstk : ∀ g ∈ stk, g.isAbove) : Streaming (resume (applyOp cfg ok c o) stk) := by
  obtain ⟨hG, hsafe⟩ := hG
  have hr := h.handlers.1
  cases o with
  | reader start timeout =>
    rw [applyOp, ngxeReader]
    split
    · exact .readerStart h.createReader hstk
    · exact .live h.createReader (.of_above hstk)
  | readerStart timeout => exact .readerStart (h.same rfl rfl rfl rfl hr rfl) hstk
  | readerStop =>
    have hstop : (ngxeReaderStop c).Streams :=
      h.same rfl rfl rfl rfl (by simp [ngxeReaderStop]) rfl
    exact .live hstop (.of_above hstk)
  | readerTimeout timeout => exact .live (h.same rfl rfl rfl rfl hr rfl) (.of_above hstk)
  | writer start timeout sv => exact .writer h hG hsafe hstk
  | writerTimeout timeout => exact .live (h.same rfl rfl rfl rfl hr rfl) (.of_above hstk)
  | writerBufferSet sv => exact .bufferSet h hG hsafe hstk
  | close => exact .live h.close (.of_above hstk)
  | setReadBuffer b | setMinLen cb n => exact .live (h.same rfl rfl rfl rfl hr rfl) (.of_above hstk)
  | _ => exact hG.elim

/-! ### Runs -/

theorem Streaming.readHandler (h : c.Streams) :
    Streaming (resume (callReadHandler cfg c) []) := by
  obtain ⟨cb, hcb⟩ := exists_readerCallback c
  rw [callReadHandler]
  split
  · exact .live h (.of_above (by simp))
  · exact .of_reader h (ngxeReaderHandler_outcome hcb) (by simp)
  · next hr => exact absurd hr h.handlers.1

theorem Streaming.writeHandler (h : c.Streams) : Streaming (resume (callWriteHandler c) []) := by
  rw [callWriteHandler]
  split
  · exact .live h (.of_above (by simp))
  · next hh => exact .handler h hh (by simp)
  · next hw => exact absurd hw h.handlers.2

theorem live_step {i : Input} (h : s.c.Streams) (hstk : StreamStack s.c s.stack)
    (hG : StreamSafe s i) (hs : Step cfg s i t) : Streaming t := by
  have hr := h.handlers.1
  cases hs with
  | arrive b hb he =>
    exact .live (h.same rfl rfl rfl rfl hr rfl) (hstk.congr rfl rfl rfl rfl)
  | arriveEof he | hangup =>
    exact .live (h.same rfl rfl rfl rfl hr rfl) (hstk.congr rfl rfl rfl rfl)
  | @readEvent c hopen _ =>
    have hc : c.takeRead.Streams := h.same rfl rfl rfl rfl hr rfl
    exact .readHandler hc
  | @readTimer c hopen _ =>
    have hc : c.expireRead.Streams := h.same rfl rfl rfl rfl hr rfl
    exact .readHandler hc
  | @writeEvent c hopen _ =>
    have hc : c.takeWrite.Streams := h.same rfl rfl rfl rfl hr rfl
    exact .writeHandler hc
  | @writeTimer c hopen _ =>
    have hc : c.expireWrite.Streams := h.same rfl rfl rfl rfl hr rfl
    exact .writeHandler hc
  | enter => exact .live h (.cons (by simp) (by simp) (by simp))
  | leave => exact .live h (.of_above hstk.above)
  | @op c f rest o ok hf hopen =>
    refine .op h hG fun g hg => ?_
    rcases List.mem_cons.mp hg with rfl | hg
    · refine ⟨hf, ?_⟩
      rintro cb rfl
      exact hstk.noScalar cb List.mem_cons_self
    · exact hstk.above g hg
  | recv err ok => exact .of_reader h readerRecv_outcome hstk.above
  | send r ok hans => exact .sent h hstk hans
  | @ret c cb site rest ok =>
    cases site with
    | readerData => exact .afterReader h hstk.above
    | writerDone k =>
      have hk : k ≠ .rvpv := by
        rintro rfl
        exact hstk.noScalar cb List.mem_cons_self
      rcases hG.2 with hd | hp
      · rw [afterCallback, afterWriter, if_pos hd]
        exact .live h (.of_above hstk.above)
      · exact .afterWriter h hk hp hstk.above (afterWriter_cases cfg ok k c cb)
    | failed =>
      have hrel : (c.release cb).Streams := h.same rfl rfl rfl rfl hr rfl
      exact .live hrel.close (.of_above hstk.above)
    | connected => exact .live (h.same rfl rfl rfl rfl hr rfl) (.of_above hstk.above)

theorem Sys.Doomed.keep (h : s.Doomed) (ht : t.c.trace = s.c.trace ++ m)
    (hm : ∀ x ∈ m, x.idle ∧ x.isDone = false) (hd : t.Dead) : t.Doomed := by
  obtain ⟨r, hr, hsent⟩ := h.sent
  have hout : m.flatMap Obs.output = [] := List.flatMap_eq_nil_iff.mpr fun x hx => (hm x hx).1.1
  have hload : m.flatMap Obs.load = [] := List.flatMap_eq_nil_iff.mpr fun x hx => (hm x hx).1.2.1
  refine ⟨hd, ⟨r, hr, ?_⟩, ?_⟩
  · rw [ht, List.flatMap_append, List.flatMap_append, hout, hload, List.append_nil, List.append_nil,
      hsent]
  · rw [ht]
    by_contra hlast
    have hs := (getLast_append_notDone (fun x hx => (hm x hx).2) (Bool.ne_false_iff.mp hlast)).1
    exact absurd (h.told.symm.trans hs) (by decide)

/-- The same, with nothing observed. -/
theorem Sys.Doomed.same (h : s.Doomed) (ht : t.c.trace = s.c.trace) (hd : t.Dead) : t.Doomed :=
  h.keep (m := []) (by rw [ht, List.append_nil]) (by simp) hd

theorem Sys.Doomed.not_allSent (h : s.Doomed) :
    s.c.outgoing.sent ≠ s.c.outgoing.received := by
  obtain ⟨r, hr, hsent⟩ := h.sent
  intro hall
  have hall : s.c.trace.flatMap Obs.output = s.c.trace.flatMap Obs.load := hall
  rw [← hsent] at hall
  exact hr (List.append_right_eq_self.mp hall.symm)

theorem Sys.Doomed.isLoaded (h : s.Doomed) : s.c.trace.any Obs.isLoaded = true := by
  by_contra hn
  obtain ⟨r, hr, hsent⟩ := h.sent
  rw [load_of_not_loaded (Bool.eq_false_iff.mpr hn)] at hsent
  exact hr (List.append_eq_nil_iff.mp hsent).2

/-- A reader that is started below a failing writer. -/
theorem Sys.Doomed.readerStart (h : Sys.Doomed ⟨c, stk⟩) (ht : c'.trace = c.trace)
    (hd : c'.destroyed = c.destroyed) : Sys.Doomed (resume (ngxeReaderStart cfg ok c') stk) := by
  rw [ngxeReaderStart]
  split
  · cases c'.readerCallback with
    | none =>
      refine h.same ht ⟨.inr ⟨_, _, rfl, rfl⟩, fun f hf => ?_⟩
      rcases List.mem_cons.mp hf with rfl | hf
      · exact .inr rfl
      · exact h.frames f hf
    | some cb =>
      refine h.keep (m := [.called cb c'.callbacks[cb]? .failed (some .eventError)])
        (by rw [← ht]; rfl) ?_ ⟨.inr ⟨_, _, rfl, rfl⟩, fun f hf => ?_⟩
      · intro x hx
        obtain rfl := List.mem_singleton.mp hx
        exact ⟨called_idle, rfl⟩
      · rcases List.mem_cons.mp hf with rfl | hf
        · exact .inl rfl
        · exact h.frames f hf
  · next c₁ h₁ =>
    have harm : c₁.armRead.trace = c.trace ∧ c₁.armRead.destroyed = c.destroyed := by
      rw [Conn.armRead, handleRead_eq h₁]
      exact ⟨ht, hd⟩
    refine h.same harm.1 ⟨?_, h.frames⟩
    show c₁.armRead.destroyed = true ∨ _
    rw [harm.2]
    exact h.dead

theorem Sys.Doomed.op {o : Op} (h : Sys.Doomed ⟨c, stk⟩) (hG : ArrayStream ⟨c, stk⟩ (.op o ok)) :
    Sys.Doomed (resume (applyOp cfg ok c o) stk) := by
  cases o with
  | reader start timeout =>
    rw [applyOp, ngxeReader]
    split
    · exact h.readerStart rfl rfl
    · exact h.same rfl ⟨h.dead, h.frames⟩
  | readerStart timeout => exact h.readerStart rfl rfl
  | readerStop | readerTimeout timeout => exact h.same rfl ⟨h.dead, h.frames⟩
  | writer start timeout sv => exact absurd (h.isLoaded.symm.trans hG.2) (by decide)
  | writerTimeout timeout => exact h.same rfl ⟨h.dead, h.frames⟩
  | writerBufferSet sv => exact absurd hG.2 h.not_allSent
  | close => exact h.same (close_keeps c).2.2.2.2.1 ⟨.inl (ngxeClose_destroyed c), h.frames⟩
  | setReadBuffer b | setMinLen cb n => exact h.same rfl ⟨h.dead, h.frames⟩
  | _ => exact hG.elim

/-- Nothing more is sent on a connection that is going to be closed. -/
theorem doomed_step {i : Input} (h : s.Doomed) (hG : ArrayStream s i) (hs : Step cfg s i t) :
    t.Doomed := by
  by_cases hop : ∃ o ok, i = .op o ok
  · obtain ⟨o, ok, rfl⟩ := hop
    cases hs with
    | op o ok hf ho => exact h.op hG
  · obtain ⟨hd, ht⟩ := dead_step h.toDead (fun o ok he => hop ⟨o, ok, he⟩) hs
    exact h.same ht hd

theorem StreamStart.streaming (h : StreamStart s) : Streaming s := by
  obtain ⟨c, stk⟩ := s
  obtain ⟨hout, hload⟩ := h.trace
  have hleft : c.left = [] := by
    cases hb : c.writerBuffer with
    | none => rw [Conn.left, hb]
    | some sv =>
      obtain rfl := h.buffer sv hb
      rw [Conn.left, hb]
  refine .live ⟨?_, fun sv hb => ?_, ⟨h.read, ?_⟩, fun _ sv hb => ?_, fun _ => ?_, fun _ => hleft⟩
    (.of_above fun g hg => ⟨(h.stack g hg).1, ?_⟩)
  · simp [Pipe.Conserved, Conn.outgoing, hleft, hout, load_of_not_loaded hload]
  · obtain rfl := h.buffer sv hb
    exact ⟨rfl, hb, rfl, rfl, trivial⟩
  · rw [show c.write.handler = .dummy from h.write]
    simp
  · obtain rfl := h.buffer sv hb
    exact hleft
  · exact ⟨h.write, h.buffer, h.offset, h.index⟩
  · rintro cb rfl
    have hd := (h.stack _ hg).2
    cases hd

/-- In every run of safe steps in which no write event finds undef without a body, the bytes
    accepted are those of the arrays loaded, in order. -/
theorem arrays_streamed (cfg : Config) (s t : Sys) (h : StreamStart s)
    (hr : (stale cfg).Reaches (Machine.left StreamSafe) s t) : Streamed t.c.trace := by
  refine (hr.of_left.invariant (I := Streaming) h.streaming ?_).streamed
  intro s i u hs hG hstep
  have hstep := step_cases hstep
  cases hs with
  | live hc hstk => exact live_step (s := ⟨_, _⟩) hc hstk hG hstep
  | doomed hd => exact .doomed (doomed_step hd hG.1 hstep)

theorem streamStart_accepted : StreamStart ⟨.accepted, [.outside]⟩ := by
  refine ⟨by decide, rfl, by simp [Conn.accepted], rfl, rfl, ⟨rfl, rfl⟩, fun f hf => ?_⟩
  obtain rfl := List.mem_singleton.mp hf
  exact ⟨rfl, rfl⟩

/-- The second array is loaded in the callback of the first, and sent whole inside it. -/
theorem arrays_streamed_nested :
    ∃ t, (stale ⟨.clear, 4096, 4080⟩).Reaches (Machine.left StreamSafe) ⟨.accepted, [.outside]⟩ t ∧
      Streamed t.c.trace ∧ t.c.trace = [.loaded (.av [some [97]]), .sent [97],
        .called 0 (some ⟨.writer, false, 0⟩) (.writerDone .rvpvav) none,
        .loaded (.av [some [98], some [99]]), .sent [98], .sent [99],
        .called 0 (some ⟨.writer, false, 0⟩) (.writerDone .rvpvav) none] := by
  have hr : (stale ⟨.clear, 4096, 4080⟩).Reaches (Machine.left StreamSafe)
      ⟨.accepted, [.outside]⟩ _ :=
    .of_run ([.op (.writer true 0 (.av [some [97]])) true, .send (.accepted 1) true,
      .op (.writerBufferSet (.av [some [98], some [99]])) true, .send (.accepted 1) true,
      .send (.accepted 1) true, .ret true, .ret true].map .inl) rfl
  exact ⟨_, hr, arrays_streamed _ _ _ streamStart_accepted hr, rfl⟩

/-- The second array is loaded in the callback of the first, and `c->send` takes one byte of it.
    When the callback returns the outer handler goes back to the beginning of the array, and the
    byte is sent once more. -/
theorem array_rewound :
    ¬ ∀ cfg s t, StreamStart s → (engine cfg).Reaches ArrayStream s t → Streamed t.c.trace := by
  intro h
  have hr : (engine ⟨.clear, 4096, 4080⟩).Reaches ArrayStream ⟨.accepted, [.outside]⟩ _ :=
    .of_run [.op (.writer true 0 (.av [some [97]])) true, .send (.accepted 1) true,
      .op (.writerBufferSet (.av [some [98, 99]])) true, .send (.accepted 1) true, .ret true,
      .leave, .writeEvent, .send (.accepted 2) true] rfl
  have hlen := (h _ _ _ streamStart_accepted hr).1.length_le
  exact absurd hlen (by decide)

end NginxEngine.XS
