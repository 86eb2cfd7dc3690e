import NginxEngine.XS.Transfer

/-!
# A load is transmitted exactly

A writer handler that is called with the position at the beginning of its load, and is left alone
by the program from then on, sends the load: at every moment what `c->send` has accepted is a
prefix of it, every request lies inside the scalar it is made from, and the success callback comes
with the last byte. The offset that the handlers resume at is an `int`, so this is for scalars
shorter than 2^31 bytes.

A load of references ends with undef in the write buffer. If `ngxe_writer` has created the buffer
from a reference it has no body then, and `SvCUR` reads an address where the length would be. A
write event that comes after the success callback sends what is in memory behind an empty string.

## Main definitions

- `NoCalls` — the program makes no call and leaves the write buffer alone
- `stale` — the machine with write events that find undef without a body
- `Conn.WriteStarts` — a writer handler is called at the beginning of a load
- `Sending` — a load is in flight, was sent, or its connection is failing

## Main results

- `exact_transmission` — what is accepted, what is asked for and when success is reported
- `sent_behind_load` — a write event sends bytes that were never loaded
- `offset_exact` — `s->writer_offset` counts the bytes accepted of the current scalar
- `offset_wraps` — it does not once 2^31 bytes of a scalar were accepted
-/

namespace NginxEngine.XS

variable {cfg : Config} {ok : Bool} {c c' : Conn} {cb : Nat} {o : Outcome} {sv : Sv} {s t : Sys}
  {b : Bytes} {load : Sv} {k : Kind} {d : Bool} {rest stk : List Frame} {T m : List Obs}

/-- A writer handler reports that everything was sent. -/
def Obs.isDone : Obs → Bool
  | .called _ _ (.writerDone _) none => true
  | _ => false

/-- The success callback of a writer handler is running. -/
def Frame.isDone : Frame → Bool
  | .inCallback _ (.writerDone _) => true
  | _ => false

/-- The program makes no call on the connection and leaves its write buffer alone. -/
def NoCalls (_ : Sys) : Input → Prop
  | .op (.setReadBuffer _) _ | .op (.setMinLen _ _) _ => True
  | .op _ _ => False
  | _ => True

instance {i : Input} : Decidable (NoCalls s i) := by
  unfold NoCalls
  induction i with
  | op o ok => induction o <;> infer_instance
  | _ => infer_instance

/-- What happens where the write buffer is undef and has no body. -/
inductive StaleInput
  /-- The loop delivers a write notification. -/
  | writeEvent
  /-- `c->send` accepts `b` of what is in memory behind the empty string. -/
  | send (b : Bytes)
deriving DecidableEq, Repr

/-- `ngxe_writer_handler` with an address for `cur`. `SvPV_nolen` gives the scalar a body, so that
    `cur` is 0 when `c->send` has returned. -/
def Sys.stale (s : Sys) : StaleInput → Option Sys
  | .writeEvent =>
    match s.c.writerCallback with
    | some cb =>
      if s.stack = [] ∧ s.c.destroyed = false ∧ s.c.write.active ∧ s.c.write.handler = .writer ∧
          s.c.write.timedout = false ∧ s.c.writerBuffer = some .undef then
        some ⟨{ s.c with write := s.c.takeWrite.write.delTimer }, [.send .plain cb]⟩
      else none
    | none => none
  | .send b =>
    match s.stack with
    | .send .plain cb :: rest =>
      if b ≠ [] ∧ s.c.writerBuffer = some .undef then
        let c := { s.c with
          write := { s.c.write with ready := false }
          trace := s.c.trace ++ [Obs.sent b] }
        some (resume (ngxeCallback c cb none (.writerDone .plain)) rest)
      else none
    | _ => none

/-- A connection whose write buffer may be undef without a body. -/
def stale (cfg : Config) : Machine Sys (Input ⊕ StaleInput) := (engine cfg).extend Sys.stale

/-- The writer handler is called for the value `sv`, with the position at its beginning. -/
structure Conn.WriteStarts (c : Conn) (sv : Sv) : Prop where
  opened : c.destroyed = false
  handler : c.write.handler = .writer
  timedout : c.write.timedout = false
  callback : c.writerCallback.isSome = true
  buffer : c.writerBuffer = some sv
  offset : c.writerOffset = 0
  index : c.writerIndex = 0
  sendable : sv.sendable = true

/-- Perl code below which no writer handler waits for its success callback. -/
def Beneath (stk : List Frame) : Prop := ∀ f ∈ stk, f.isPerl = true ∧ f.isDone = false

/-! ### What was observed since -/

/-- Since `T` was observed `c->send` has accepted `b`, and `d` tells of a success callback. -/
def SentSince (T : List Obs) (c : Conn) (b : Bytes) (d : Bool) : Prop :=
  ∃ l, c.trace = T ++ l ∧ l.flatMap Obs.output = b ∧ l.any Obs.isDone = d

theorem SentSince.append (h : SentSince T c b d) (ht : c'.trace = c.trace ++ m) :
    SentSince T c' (b ++ m.flatMap Obs.output) (d || m.any Obs.isDone) := by
  obtain ⟨l, hl, hb, hd⟩ := h
  refine ⟨l ++ m, ?_, ?_, ?_⟩
  · rw [ht, hl, List.append_assoc]
  · rw [List.flatMap_append, hb]
  · rw [List.any_append, hd]

/-- A trace whose end reports nothing ends with a report only if nothing was added. -/
theorem getLast_append_notDone {l : List Obs} (hm : ∀ x ∈ m, x.isDone = false)
    (h : (l ++ m).getLast?.any Obs.isDone = true) :
    l.getLast?.any Obs.isDone = true ∧ m = [] := by
  rcases List.eq_nil_or_concat m with rfl | ⟨m', x, rfl⟩
  · rw [List.append_nil] at h
    exact ⟨h, rfl⟩
  · have hx : x.isDone = true := by simpa using h
    exact absurd ((hm x (by simp)).symm.trans hx) (by decide)

/-- What neither sends nor reports success. -/
def Obs.quiet (x : Obs) : Prop := x.output = [] ∧ x.isDone = false

theorem SentSince.quiet (h : SentSince T c b d) (ht : c'.trace = c.trace ++ m)
    (hm : ∀ x ∈ m, x.quiet) : SentSince T c' b d := by
  have hb : m.flatMap Obs.output = [] := List.flatMap_eq_nil_iff.mpr fun x hx => (hm x hx).1
  have hd : m.any Obs.isDone = false := List.any_eq_false.mpr fun x hx => by simp [(hm x hx).2]
  have h' := h.append ht
  rw [hb, hd, List.append_nil, Bool.or_false] at h'
  exact h'

theorem SentSince.same (h : SentSince T c b d) (ht : c'.trace = c.trace) : SentSince T c' b d :=
  h.quiet (m := []) (by rw [ht, List.append_nil]) (by simp)

theorem SentSince.fail {e : CbError} (h : SentSince T c b d) :
    SentSince T (XS.fail c cb e).1 b d :=
  h.quiet rfl (by simp [Obs.quiet, Obs.output, Obs.isDone])

theorem SentSince.reader (h : SentSince T c b d) (hm : ReaderMove cb c c') :
    SentSince T c' b d := by
  obtain ⟨l, hl, hobs⟩ := hm.trace
  refine h.quiet hl fun x hx => ?_
  have hx := hobs x hx
  cases x with
  | received b => exact ⟨rfl, rfl⟩
  | sent b | loaded sv => exact hx.elim
  | called cb' r site err =>
    obtain ⟨-, -, rfl | rfl⟩ := hx
    · exact ⟨rfl, rfl⟩
    · exact ⟨rfl, rfl⟩

theorem SentSince.advance (h : SentSince T c b false) {b' : Bytes}
    (ht : ∃ l, c'.trace = c.trace ++ l ∧ l.flatMap Obs.output = b' ∧ ∀ x ∈ l, x.isSent = true) :
    SentSince T c' (b ++ b') false := by
  obtain ⟨l, hl, rfl, hs⟩ := ht
  have h' := h.append hl
  have hd : l.any Obs.isDone = false := by
    rw [List.any_eq_false]
    intro x hx hdone
    have hsent := hs x hx
    cases x with
    | sent b => cases hdone
    | received b | loaded sv | called cb r site err => cases hsent
  rw [hd, Bool.or_false] at h'
  exact h'

/-! ### A load in flight -/

/-- What was accepted and what is left is the load. `ngxe_client_init_handler`, on a connection
    that was not established, takes both handlers away. -/
structure Conn.Armed (T : List Obs) (load : Sv) (c : Conn) : Prop where
  sent : ∃ b, SentSince T c b false ∧ b ++ c.left = load.bytes
  placed : ∃ sv, c.Placed sv ∧ (load.isRef = true → sv = load)
  callback : c.writerCallback.isSome = true
  held : c.write.handler = .writer ∧ c.write.timedout = false ∨
    c.write.handler = .dummy ∧ c.read.handler = .dummy

/-- A part of the load was accepted. -/
structure Conn.Flight (T : List Obs) (load : Sv) (c : Conn) : Prop extends
    c.Armed T load where
  left : c.left ≠ []

structure FlightStack (c : Conn) (stk : List Frame) : Prop where
  perl : PerlBelow stk
  noDone : ∀ f ∈ stk, f.isDone = false
  request : ∀ k cb rest, stk = .send k cb :: rest → c.RequestOk k

/-- What may wait while nothing is left to be sent of the value `sv`. -/
def Frame.SpentOk (sv : Sv) : Frame → Prop
  | .send _ _ => False
  | .inCallback _ (.writerDone k) => sv.spent k = true
  | _ => True

/-- The load was accepted and this was reported; `sv` is what the handler has left in the write
    buffer. -/
structure Conn.Finished (T : List Obs) (load : Sv) (sv : Sv) (c : Conn) (stk : List Frame) :
    Prop where
  sent : SentSince T c load.bytes true
  placed : c.Placed sv
  spent : ∃ k, sv.spent k = true
  frames : ∀ f ∈ stk, f.SpentOk sv

/-- A writer handler has given up. -/
structure Conn.Broken (T : List Obs) (load : Sv) (c : Conn) (stk : List Frame) : Prop where
  sent : ∃ b r, SentSince T c b false ∧ r ≠ [] ∧ b ++ r = load.bytes
  dead : c.destroyed = true ∨ ∃ f rest, stk = f :: rest ∧ f.fatal = true
  frames : ∀ f ∈ stk, f.isPerl = true ∨ f = .crash

inductive Sending (T : List Obs) (load : Sv) : Sys → Prop
  | flight {c : Conn} {stk : List Frame} (h : c.Flight T load) (hs : FlightStack c stk) :
      Sending T load ⟨c, stk⟩
  | finished {c : Conn} {stk : List Frame} (sv : Sv) (h : c.Finished T load sv stk) :
      Sending T load ⟨c, stk⟩
  | broken {c : Conn} {stk : List Frame} (h : c.Broken T load stk) : Sending T load ⟨c, stk⟩

theorem Beneath.perl (h : Beneath stk) : ∀ f ∈ stk, f.isPerl = true := fun f hf => (h f hf).1

theorem FlightStack.beneath (h : FlightStack c (f :: rest)) : Beneath rest := fun g hg =>
  ⟨h.perl g hg, h.noDone g (List.mem_cons_of_mem f hg)⟩

theorem FlightStack.of_beneath (h : Beneath stk) : FlightStack c stk := by
  refine ⟨fun g hg => (h g (List.mem_of_mem_tail hg)).1, fun f hf => (h f hf).2, ?_⟩
  rintro k cb rest rfl
  have hf := (h _ List.mem_cons_self).1
  cases hf

/-- One frame on top of Perl code. -/
theorem FlightStack.cons {f : Frame} (hrest : Beneath rest) (hf : f.isDone = false)
    (hq : ∀ k cb, f = .send k cb → c.RequestOk k) : FlightStack c (f :: rest) := by
  refine ⟨hrest.perl, fun g hg => ?_, fun k cb rest' he => hq k cb (List.cons.inj he).1⟩
  rcases List.mem_cons.mp hg with rfl | hg
  · exact hf
  · exact (hrest g hg).2

theorem spentOk_of_not_done {f : Frame} (hp : f.isPerl = true) (hd : f.isDone = false) :
    f.SpentOk sv := by
  cases f with
  | send k cb => cases hp
  | inCallback cb site =>
    cases site with
    | writerDone k => cases hd
    | readerData | failed | connected => trivial
  | recv cb | outside | crash => trivial

/-- What a segment of writer code leaves of a load in flight. -/
theorem Sending.of_transfer (ha : c.Armed T load) (hw : WriterOutcome cb c o)
    (ht : Transfer cb c b o) (hrest : Beneath rest) : Sending T load (resume o rest) := by
  obtain ⟨b₀, hsent, hload⟩ := ha.sent
  have hflight : ∀ {c'}, WriterMove cb c c' → Advance c b c' → c'.left ≠ [] →
      c'.Flight T load := by
    intro c' hm hadv hl
    refine ⟨⟨⟨b₀ ++ b, hsent.advance hadv.trace, ?_⟩, ?_, ?_, ?_⟩, hl⟩
    · rw [List.append_assoc, ← hadv.left, hload]
    · obtain ⟨sv, hp, hsv⟩ := ha.placed
      obtain ⟨sv', hp'⟩ := hadv.placed
      refine ⟨sv', hp', fun hr => ?_⟩
      have hbuf : c.writerBuffer = some load := hsv hr ▸ hp.buffer
      have hkept := hadv.buffer (by rw [hbuf]; exact hr) hl
      exact Option.some.inj (hp'.buffer.symm.trans (hkept.trans hbuf))
    · rw [hm.writerCallback]
      exact ha.callback
    · rw [hm.handler, hm.timedout, hm.read]
      exact ha.held
  cases ht with
  | wait h hl => exact .flight (hflight hw.move h hl) (.of_beneath hrest)
  | send k h hq =>
    refine .flight (hflight hw.move h hq.left_ne_nil) (.cons hrest rfl fun k' cb' he => ?_)
    cases he
    exact hq
  | @done c' k h sv hb hs =>
    have hplaced : c'.Placed sv := by
      obtain ⟨sv', hp⟩ := h.placed
      obtain rfl : sv' = sv := Option.some.inj (hp.buffer.symm.trans hb)
      exact hp
    have hall : b₀ ++ b = load.bytes := by
      rw [← hload, h.left, hplaced.left_of_spent hs, List.append_nil]
    refine .finished sv ⟨?_, hplaced.congr rfl rfl rfl, ⟨k, hs⟩, fun f hf => ?_⟩
    · have hcalled := (hsent.advance h.trace).append
        (rfl : (ngxeCallback c' cb none (.writerDone k)).1.trace = c'.trace ++ [_])
      simpa [Obs.output, Obs.isDone, hall] using hcalled
    · rcases List.mem_cons.mp hf with rfl | hf
      · exact hs
      · exact spentOk_of_not_done (hrest f hf).1 (hrest f hf).2
  | @failed c' e hl ht =>
    obtain ⟨r, hr, hl⟩ := hl
    refine .broken ⟨⟨b₀ ++ b, r, ?_, hr, ?_⟩, .inr ⟨_, _, rfl, rfl⟩, fun f hf => ?_⟩
    · exact (hsent.advance ht).fail
    · rw [List.append_assoc, ← hl, hload]
    · rcases List.mem_cons.mp hf with rfl | hf
      · exact .inl rfl
      · exact .inl (hrest f hf).1

/-! ### After the load was sent -/

/-- Code that finds nothing to send keeps it so. -/
structure SpentMove (sv : Sv) (c : Conn) (o : Outcome) : Prop where
  placed : o.1.Placed sv
  trace : ∃ m, o.1.trace = c.trace ++ m ∧ ∀ x ∈ m, x.output = []
  frames : ∀ f ∈ o.2, f.SpentOk sv

theorem Conn.Finished.resume (h : c.Finished T load sv stk) (hm : SpentMove sv c o)
    (hrest : ∀ f ∈ rest, f.SpentOk sv) : Sending T load (resume o rest) := by
  obtain ⟨m, ht, hout⟩ := hm.trace
  refine .finished sv ⟨?_, hm.placed, h.spent, fun f hf => ?_⟩
  · have hsent := h.sent.append ht
    rw [List.flatMap_eq_nil_iff.mpr hout, List.append_nil, Bool.true_or] at hsent
    exact hsent
  · rcases List.mem_append.mp hf with hf | hf
    · exact hm.frames f hf
    · exact hrest f hf

theorem moreToWrite_of_spent (hs : sv.spent k = true) : moreToWrite k sv = false := by
  cases sv <;> cases k <;> simp_all [Sv.spent, moreToWrite, Sv.cur, Sv.rok, Sv.rvCur]

namespace SpentMove

theorem after (h : SpentMove sv c' o) (ht : c'.trace = c.trace) : SpentMove sv c o :=
  ⟨h.placed, ht ▸ h.trace, h.frames⟩

theorem same (hp : c.Placed sv) (hb : c'.writerBuffer = c.writerBuffer)
    (ho : c'.writerOffset = c.writerOffset) (hi : c'.writerIndex = c.writerIndex)
    (ht : c'.trace = c.trace) : SpentMove sv c (c', []) :=
  ⟨hp.congr hb ho hi, ⟨[], by rw [ht, List.append_nil], by simp⟩, by simp⟩

theorem crash (hp : c.Placed sv) : SpentMove sv c (c, [.crash]) :=
  ⟨hp, ⟨[], (List.append_nil _).symm, by simp⟩, by simp [Frame.SpentOk]⟩

theorem callback {err : Option CbError} {site : Site} (hp : c'.Placed sv)
    (ht : c'.trace = c.trace) (hf : Frame.SpentOk sv (.inCallback cb site)) :
    SpentMove sv c (ngxeCallback c' cb err site) := by
  refine ⟨hp.congr rfl rfl rfl, ⟨[.called cb c'.callbacks[cb]? site err], ?_, ?_⟩, ?_⟩
  · rw [ngxeCallback, ht]
  · simp [Obs.output]
  · intro f hmem
    obtain rfl := List.mem_singleton.mp hmem
    exact hf

theorem fail {e : CbError} (hp : c'.Placed sv) (ht : c'.trace = c.trace) :
    SpentMove sv c (fail c' cb e) :=
  callback hp ht trivial

theorem reader (hp : c.Placed sv) (h : ReaderOutcome cb c o) : SpentMove sv c o := by
  obtain ⟨l, hl, hobs⟩ := h.move.trace
  refine ⟨hp.congr h.move.writerBuffer ?_ ?_, ⟨l, hl, fun x hx => ?_⟩, ?_⟩
  · rw [h.move.frame]
  · rw [h.move.frame]
  · have hx := hobs x hx
    cases x with
    | received b => rfl
    | sent b | loaded sv => exact hx.elim
    | called cb' r site err => rfl
  · obtain ⟨c', fs⟩ := o
    cases h.frames <;> simp [Frame.SpentOk]

end SpentMove

/-- A handler that is called with nothing to send reports success again, or a timeout. -/
theorem ngxeWriterHandler_spent {ev : Event WriteHandler} (hp : c.Placed sv)
    (hs : sv.spent k = true) : SpentMove sv c (ngxeWriterHandler c ev) := by
  cases hw : c.writerCallback with
  | none =>
    rw [ngxeWriterHandler_of_not_hasWriter (by simp [Conn.hasWriter, hw])]
    exact .same hp rfl rfl rfl rfl
  | some cb =>
  cases hto : ev.timedout with
  | true =>
    have hwriter : c.hasWriter = true := by simp [Conn.hasWriter, hw, hp.buffer]
    obtain ⟨cb, e, he⟩ := ngxeWriterHandler_timedout hwriter hto
    rw [he]
    exact .fail hp rfl
  | false =>
  cases sv with
  | undef =>
    have hcur : Sv.undef.cur = 0 := rfl
    rw [ngxeWriterHandler_plain hw hp.buffer rfl hto, if_pos hcur]
    exact .callback (hp.congr rfl rfl rfl) rfl rfl
  | str b =>
    have hcur : (Sv.str b).cur = 0 := by
      rw [List.isEmpty_iff.mp hs]
      rfl
    rw [ngxeWriterHandler_plain hw hp.buffer rfl hto, if_pos hcur]
    exact .callback (hp.congr rfl rfl rfl) rfl hs
  | rv b =>
    obtain rfl : b = [] := List.isEmpty_iff.mp (Bool.and_eq_true_iff.mp hs).1
    have hoff : c.writerOffset = 0 := by
      rcases hp.pos with hz | ⟨h0, hlt⟩
      · exact hz
      · simp at hlt
        omega
    have hrem : remaining [] c.writerOffset ≤ 0 := by rw [hoff]; decide
    rw [ngxeWriterHandler_rv hw hp.buffer, ngxeRvpvWriterHandler, hto, if_neg Bool.false_ne_true,
      if_pos hrem]
    exact .callback (hp.congr rfl hoff.symm rfl) rfl rfl
  | av xs | rvOther => cases hs

theorem ngxeWriterStart_spent (hp : c.Placed sv) (hs : sv.spent k = true) :
    SpentMove sv c (ngxeWriterStart cfg ok c) := by
  rw [ngxeWriterStart]
  split
  · cases c.writerCallback with
    | none => exact ⟨hp.congr rfl rfl rfl, ⟨[], (List.append_nil _).symm, by simp⟩,
        by simp [failUnchecked, Frame.SpentOk]⟩
    | some cb => exact .fail (hp.congr rfl rfl rfl) rfl
  · next c₁ h₁ =>
    have hp₁ : c₁.armWrite.Placed sv := by
      rw [Conn.armWrite, handleWrite_eq h₁]
      exact hp.congr rfl rfl rfl
    have ht₁ : c₁.armWrite.trace = c.trace := by
      rw [Conn.armWrite, handleWrite_eq h₁]
      rfl
    split
    · exact (ngxeWriterHandler_spent hp₁ hs).after ht₁
    · exact ⟨hp₁, ⟨[], by rw [ht₁, List.append_nil], by simp⟩, by simp⟩

theorem SpentMove.readerStart (hp : c.Placed sv) : SpentMove sv c (ngxeReaderStart cfg ok c) := by
  obtain ⟨cb, hcb⟩ := exists_readerCallback c
  have hi : c.installReader.Placed sv := hp.congr rfl rfl rfl
  exact (SpentMove.reader hi (ngxeReaderStart_outcome hcb)).after rfl

theorem WriterReturns.spent (h : WriterReturns cfg ok k c cb o) (hp : c.Placed sv)
    (hs : sv.spent k = true) : SpentMove sv c o := by
  cases h with
  | ret h => exact .same hp rfl rfl rfl rfl
  | crash hopen hh hbad => exact .crash hp
  | more hopen hh hb hmore =>
    obtain rfl := Option.some.inj (hp.buffer.symm.trans hb)
    cases (moreToWrite_of_spent hs).symm.trans hmore
  | reader hopen hh hb hrv hmore hr =>
    have hstop : (ngxeWriterStop c).Placed sv := hp.congr rfl rfl rfl
    exact (SpentMove.readerStart hstop).after rfl
  | rest hopen hh hb hmore hr => exact .same hp rfl rfl rfl rfl

theorem afterReader_spent (hp : c.Placed sv) (hs : sv.spent k = true) :
    SpentMove sv c (afterReader cfg ok c cb) := by
  cases hsw : c.switchesToWriter with
  | false => exact .reader hp (afterReader_outcome hsw)
  | true =>
    rw [afterReader_switches hsw]
    have hreset : (ngxeReaderStop { c with writerOffset := 0, writerIndex := 0 }).Placed sv :=
      ⟨hp.buffer, hp.sendable, hp.small, posOk_zero rfl _⟩
    exact (ngxeWriterStart_spent hreset hs).after rfl

theorem clientInit_spent {H : Type} {ev : Event H} (hp : c.Placed sv) :
    SpentMove sv c (ngxeClientInitHandler c ev) := by
  have ho := clientInit_cases c ev
  generalize ngxeClientInitHandler c ev = o at ho ⊢
  cases ho with
  | none hcb => exact .same hp rfl rfl rfl rfl
  | call w err site hcb hw hsite =>
    refine .callback (hp.congr rfl rfl rfl) rfl ?_
    rcases hsite with rfl | rfl
    · trivial
    · trivial

theorem callReadHandler_spent (hp : c.Placed sv) : SpentMove sv c (callReadHandler cfg c) := by
  obtain ⟨cb, hcb⟩ := exists_readerCallback c
  rw [callReadHandler]
  split
  · exact .same hp rfl rfl rfl rfl
  · exact .reader hp (ngxeReaderHandler_outcome hcb)
  · exact clientInit_spent hp

theorem callWriteHandler_spent (hp : c.Placed sv) (hs : sv.spent k = true) :
    SpentMove sv c (callWriteHandler c) := by
  rw [callWriteHandler]
  split
  · exact .same hp rfl rfl rfl rfl
  · exact ngxeWriterHandler_spent hp hs
  · exact clientInit_spent hp

theorem afterCallback_spent {site : Site} (hp : c.Placed sv) (hs : sv.spent k = true)
    (hf : Frame.SpentOk sv (.inCallback cb site)) :
    SpentMove sv c (afterCallback cfg ok c cb site) := by
  cases site with
  | readerData => exact afterReader_spent hp hs
  | writerDone k' => exact (afterWriter_cases cfg ok k' c cb).spent hp hf
  | failed =>
    have hclose : ∀ c' : Conn, (ngxeClose c').writerBuffer = c'.writerBuffer ∧
        (ngxeClose c').writerOffset = c'.writerOffset ∧
        (ngxeClose c').writerIndex = c'.writerIndex ∧ (ngxeClose c').trace = c'.trace := by
      intro c'
      rw [ngxeClose]
      split
      · exact ⟨rfl, rfl, rfl, rfl⟩
      · exact ⟨rfl, rfl, rfl, rfl⟩
    obtain ⟨hb, ho, hi, ht⟩ := hclose (c.release cb)
    exact .same hp hb ho hi ht
  | connected => exact .same hp rfl rfl rfl rfl

/-! ### Runs -/

/-- Code that keeps the write side of the session. -/
theorem Conn.Flight.keep (h : c.Flight T load) (hb : c'.writerBuffer = c.writerBuffer)
    (ho : c'.writerOffset = c.writerOffset) (hi : c'.writerIndex = c.writerIndex)
    (hcb : c'.writerCallback = c.writerCallback) (ht : c'.trace = c.trace ++ m)
    (hm : ∀ x ∈ m, x.quiet)
    (hheld : c'.write.handler = .writer ∧ c'.write.timedout = false ∨
      c'.write.handler = .dummy ∧ c'.read.handler = .dummy) : c'.Flight T load := by
  obtain ⟨b, hsent, hload⟩ := h.sent
  obtain ⟨sv, hp, hsv⟩ := h.placed
  have hleft : c'.left = c.left := left_congr hb ho hi
  refine ⟨⟨⟨b, hsent.quiet ht hm, ?_⟩, ⟨sv, hp.congr hb ho hi, hsv⟩, ?_, hheld⟩, ?_⟩
  · rw [hleft]
    exact hload
  · rw [hcb]
    exact h.callback
  · rw [hleft]
    exact h.left

/-- The same, with nothing observed and the handlers kept. -/
theorem Conn.Flight.same (h : c.Flight T load) (hb : c'.writerBuffer = c.writerBuffer)
    (ho : c'.writerOffset = c.writerOffset) (hi : c'.writerIndex = c.writerIndex)
    (hcb : c'.writerCallback = c.writerCallback) (ht : c'.trace = c.trace)
    (hw : c'.write = c.write) (hr : c'.read.handler = c.read.handler) : c'.Flight T load := by
  refine h.keep (m := []) hb ho hi hcb (by rw [ht, List.append_nil]) (by simp) ?_
  rw [hw, hr]
  exact h.held

theorem Conn.RequestOk.congr (h : c.RequestOk k) (hb : c'.writerBuffer = c.writerBuffer)
    (ho : c'.writerOffset = c.writerOffset) (hi : c'.writerIndex = c.writerIndex) :
    c'.RequestOk k := by
  obtain ⟨b, offset, hs, h0, hlt, hq⟩ := h
  refine ⟨b, offset, ?_, h0, hlt, ?_⟩
  · rw [← hs, Conn.scalar.eq_def, Conn.scalar.eq_def, hb, ho, hi]
  · rw [← hq, Conn.request.eq_def, Conn.request.eq_def, hb, ho, hi]

theorem FlightStack.congr (h : FlightStack c stk) (hb : c'.writerBuffer = c.writerBuffer)
    (ho : c'.writerOffset = c.writerOffset) (hi : c'.writerIndex = c.writerIndex) :
    FlightStack c' stk :=
  ⟨h.perl, h.noDone, fun k cb rest he => (h.request k cb rest he).congr hb ho hi⟩

/-- Reader code leaves a load in flight alone. -/
theorem Sending.of_reader (h : c.Flight T load) (ho : ReaderOutcome cb c o)
    (hrest : Beneath rest) : Sending T load (resume o rest) := by
  obtain ⟨c', fs⟩ := o
  have hm : ReaderMove cb c c' := ho.move
  have hflight : c'.Flight T load := by
    obtain ⟨b, hsent, hload⟩ := h.sent
    obtain ⟨sv, hp, hsv⟩ := h.placed
    have hleft : c'.left = c.left :=
      left_congr hm.writerBuffer (by rw [hm.frame]) (by rw [hm.frame])
    refine ⟨⟨⟨b, hsent.reader hm, by rw [hleft, hload]⟩,
      ⟨sv, hp.congr hm.writerBuffer (by rw [hm.frame]) (by rw [hm.frame]), hsv⟩, ?_, ?_⟩, ?_⟩
    · rw [hm.writerCallback]
      exact h.callback
    · rw [hm.write, hm.handler]
      exact h.held
    · rw [hleft]
      exact h.left
  cases ho.frames with
  | ret => exact .flight hflight (.of_beneath hrest)
  | recv | data | failed | crash => exact .flight hflight (.cons hrest rfl (by simp))

theorem Sending.of_clientInit {H : Type} {ev : Event H} (h : c.Flight T load)
    (hrest : Beneath rest) : Sending T load (XS.resume (ngxeClientInitHandler c ev) rest) := by
  have ho := clientInit_cases c ev
  generalize ngxeClientInitHandler c ev = o at ho ⊢
  cases ho with
  | none hcb =>
    have hsome := h.callback
    rw [hcb] at hsome
    cases hsome
  | call w err site hcb hw hsite =>
    rcases hsite with rfl | rfl
    · refine .flight (h.keep rfl rfl rfl rfl rfl ?_ (.inr ⟨hw, rfl⟩)) (.cons hrest rfl (by simp))
      simp [Obs.quiet, Obs.output, Obs.isDone]
    · refine .flight (h.keep rfl rfl rfl rfl rfl ?_ (.inr ⟨hw, rfl⟩)) (.cons hrest rfl (by simp))
      simp [Obs.quiet, Obs.output, Obs.isDone]

theorem beneath_nil : Beneath [] := fun f hf => by cases hf

theorem Sending.readHandler (h : c.Flight T load) :
    Sending T load (XS.resume (callReadHandler cfg c) []) := by
  obtain ⟨cb, hcb⟩ := exists_readerCallback c
  rw [callReadHandler]
  split
  · exact .flight h (.of_beneath beneath_nil)
  · exact .of_reader h (ngxeReaderHandler_outcome hcb) beneath_nil
  · exact .of_clientInit h beneath_nil

/-- A writer handler is called. -/
theorem Sending.writeHandler (ha : c.Armed T load) (hw : c.write.handler = .writer)
    (hto : c.write.timedout = false) (hrest : Beneath rest) :
    Sending T load (XS.resume (callWriteHandler c) rest) := by
  obtain ⟨sv, hp, -⟩ := ha.placed
  obtain ⟨cb, hcb⟩ := Option.isSome_iff_exists.mp ha.callback
  rw [callWriteHandler, hw]
  refine .of_transfer ha (ngxeWriterHandler_outcome fun w hw => ?_)
    (ngxeWriterHandler_transfer hp hcb hto) hrest
  exact Option.some.inj (hw.symm.trans hcb)

theorem Conn.Flight.close (h : c.Flight T load) : (ngxeClose c).Flight T load := by
  obtain ⟨hb, ho, hi, hcb, ht, hw, hto, hr⟩ := close_keeps c
  refine h.keep (m := []) hb ho hi hcb (by rw [ht, List.append_nil]) (by simp) ?_
  rw [hw, hto, hr]
  exact h.held

/-- While a load is in flight the code after a reader callback does nothing. -/
theorem afterReader_flight (h : c.Flight T load) : afterReader cfg ok c cb = (c, []) := by
  rw [afterReader]
  rcases h.held with ⟨hw, -⟩ | ⟨-, hr⟩
  · simp [hw]
  · simp [hr]

theorem flight_step {i : Input} (h : s.c.Flight T load) (hstk : FlightStack s.c s.stack)
    (hG : NoCalls s i) (hs : Step cfg s i t) : Sending T load t := by
  cases hs with
  | arrive b hb he =>
    exact .flight (h.same rfl rfl rfl rfl rfl rfl rfl) (hstk.congr rfl rfl rfl)
  | arriveEof he =>
    exact .flight (h.same rfl rfl rfl rfl rfl rfl rfl) (hstk.congr rfl rfl rfl)
  | hangup => exact .flight (h.same rfl rfl rfl rfl rfl rfl rfl) (hstk.congr rfl rfl rfl)
  | @readEvent c hopen hr =>
    have hc : c.takeRead.Flight T load := h.same rfl rfl rfl rfl rfl rfl rfl
    exact .readHandler hc
  | @readTimer c hopen ht =>
    have hc : c.expireRead.Flight T load := h.same rfl rfl rfl rfl rfl rfl rfl
    exact .readHandler hc
  | @writeEvent c hopen ha =>
    rcases h.held with ⟨hw, hto⟩ | ⟨hw, hr⟩
    · have hc : c.takeWrite.Flight T load := h.keep (m := []) rfl rfl rfl rfl
        (List.append_nil _).symm (by simp) (.inl ⟨hw, hto⟩)
      exact .writeHandler hc.toArmed hw hto beneath_nil
    · rw [callWriteHandler, show c.takeWrite.write.handler = .dummy from hw]
      exact .flight (h.keep (m := []) rfl rfl rfl rfl (List.append_nil _).symm (by simp)
        (.inr ⟨hw, hr⟩)) (.of_beneath beneath_nil)
  | @writeTimer c hopen ht =>
    obtain ⟨cb, hcb⟩ := Option.isSome_iff_exists.mp h.callback
    obtain ⟨sv, hp, -⟩ := h.placed
    rcases h.held with ⟨hw, hto⟩ | ⟨hw, hr⟩
    · have hwriter : c.expireWrite.hasWriter = true := by
        show (c.writerCallback.isSome && c.writerBuffer.isSome) = true
        rw [show c.writerCallback = _ from hcb, show c.writerBuffer = _ from hp.buffer]
        rfl
      obtain ⟨cb', e, he⟩ :=
        ngxeWriterHandler_timedout hwriter (rfl : c.expireWrite.write.timedout = true)
      rw [callWriteHandler, show c.expireWrite.write.handler = .writer from hw, he]
      obtain ⟨b, hsent, hload⟩ := h.sent
      refine .broken ⟨⟨b, c.left, ?_, h.left, hload⟩, .inr ⟨_, _, rfl, rfl⟩, ?_⟩
      · have hsame : SentSince T c.expireWrite b false := hsent.same rfl
        exact hsame.fail
      · intro f hf
        obtain rfl := List.mem_singleton.mp hf
        exact .inl rfl
    · rw [callWriteHandler, show c.expireWrite.write.handler = .dummy from hw]
      exact .flight (h.keep (m := []) rfl rfl rfl rfl (List.append_nil _).symm (by simp)
        (.inr ⟨hw, hr⟩)) (.of_beneath beneath_nil)
  | enter => exact .flight h (.cons beneath_nil rfl (by simp))
  | leave => exact .flight h (.of_beneath hstk.beneath)
  | @op c f rest o ok hf hopen =>
    have hb : Beneath (f :: rest) := by
      intro g hg
      refine ⟨?_, hstk.noDone g hg⟩
      rcases List.mem_cons.mp hg with rfl | hg
      · exact hf
      · exact hstk.perl g hg
    cases o with
    | setReadBuffer b =>
      exact .flight (h.same rfl rfl rfl rfl rfl rfl rfl) (.of_beneath hb)
    | setMinLen cb n =>
      exact .flight (h.same rfl rfl rfl rfl rfl rfl rfl) (.of_beneath hb)
    | _ => exact hG.elim
  | recv err ok => exact .of_reader h readerRecv_outcome hstk.beneath
  | @send c k cb rest r ok hr =>
    obtain ⟨sv, hp, -⟩ := h.placed
    obtain ⟨b, ht⟩ : ∃ b, Transfer cb c b (writerSend cfg ok k c cb r) :=
      writerSend_transfer hp (hstk.request k cb rest rfl) hr
    exact .of_transfer h.toArmed (writerSend_outcome k r) ht hstk.beneath
  | @ret c cb site rest ok =>
    cases site with
    | readerData =>
      rw [afterCallback, afterReader_flight h]
      exact .flight h (.of_beneath hstk.beneath)
    | writerDone k => cases hstk.noDone _ List.mem_cons_self
    | failed =>
      have hrel : (c.release cb).Flight T load := h.same rfl rfl rfl rfl rfl rfl rfl
      exact .flight hrel.close (.of_beneath hstk.beneath)
    | connected =>
      exact .flight (h.same rfl rfl rfl rfl rfl rfl rfl) (.of_beneath hstk.beneath)

theorem finished_step {i : Input} (h : s.c.Finished T load sv s.stack) (hG : NoCalls s i)
    (hs : Step cfg s i t) : Sending T load t := by
  obtain ⟨k, hk⟩ := h.spent
  have hp := h.placed
  have hnil : ∀ f ∈ ([] : List Frame), f.SpentOk sv := fun f hf => by cases hf
  have hsame : ∀ {c' : Conn}, c'.writerBuffer = s.c.writerBuffer →
      c'.writerOffset = s.c.writerOffset → c'.writerIndex = s.c.writerIndex →
      c'.trace = s.c.trace → Sending T load ⟨c', s.stack⟩ := fun {c'} hb ho hi ht =>
    h.resume (o := (c', [])) (.same hp hb ho hi ht) h.frames
  cases hs with
  | arrive b hb he | arriveEof he | hangup => exact hsame rfl rfl rfl rfl
  | @readEvent c hopen hr =>
    have hp' : c.takeRead.Placed sv := hp.congr rfl rfl rfl
    exact h.resume ((callReadHandler_spent hp').after rfl) hnil
  | @readTimer c hopen ht =>
    have hp' : c.expireRead.Placed sv := hp.congr rfl rfl rfl
    exact h.resume ((callReadHandler_spent hp').after rfl) hnil
  | @writeEvent c hopen ha =>
    have hp' : c.takeWrite.Placed sv := hp.congr rfl rfl rfl
    exact h.resume ((callWriteHandler_spent hp' hk).after rfl) hnil
  | @writeTimer c hopen ht =>
    have hp' : c.expireWrite.Placed sv := hp.congr rfl rfl rfl
    exact h.resume ((callWriteHandler_spent hp' hk).after rfl) hnil
  | @enter c =>
    refine .finished sv ⟨h.sent, hp, h.spent, fun f hf => ?_⟩
    obtain rfl := List.mem_singleton.mp hf
    trivial
  | leave =>
    exact h.resume (.same hp rfl rfl rfl rfl) fun f hf => h.frames f (List.mem_cons_of_mem _ hf)
  | op o ok hf hopen =>
    cases o with
    | setReadBuffer b | setMinLen cb n => exact hsame rfl rfl rfl rfl
    | _ => exact hG.elim
  | recv err ok =>
    exact h.resume (.reader hp readerRecv_outcome) fun f hf =>
      h.frames f (List.mem_cons_of_mem _ hf)
  | send r ok hr => exact (h.frames _ List.mem_cons_self).elim
  | ret ok =>
    exact h.resume (afterCallback_spent hp hk (h.frames _ List.mem_cons_self)) fun f hf =>
      h.frames f (List.mem_cons_of_mem _ hf)

theorem broken_step {i : Input} (h : s.c.Broken T load s.stack) (hG : NoCalls s i)
    (hs : Step cfg s i t) : Sending T load t := by
  obtain ⟨b, r, hsent, hr, hload⟩ := h.sent
  have hkeep : ∀ {t : Sys}, t.Dead → t.c.trace = s.c.trace → Sending T load t := by
    intro t hd ht
    exact .broken ⟨⟨b, r, hsent.same ht, hr, hload⟩, hd.dead, hd.frames⟩
  by_cases hop : ∃ o ok, i = .op o ok
  · obtain ⟨o, ok, rfl⟩ := hop
    cases hs with
    | op o ok hf ho =>
      cases o with
      | setReadBuffer b | setMinLen cb n => exact hkeep ⟨h.dead, h.frames⟩ rfl
      | _ => exact hG.elim
  · obtain ⟨hd, ht⟩ := dead_step ⟨h.dead, h.frames⟩ (fun o ok he => hop ⟨o, ok, he⟩) hs
    exact hkeep hd ht

theorem Conn.WriteStarts.armed (h : c.WriteStarts sv) (hsmall : sv.small = true) :
    c.Armed c.trace sv := by
  have hp : c.Placed sv := ⟨h.buffer, h.sendable, hsmall, posOk_zero h.offset _⟩
  have hleft : c.left = sv.bytes := left_start h.buffer h.offset h.index
  exact ⟨⟨[], ⟨[], (List.append_nil _).symm, rfl, rfl⟩, hleft⟩, ⟨sv, hp, fun _ => rfl⟩, h.callback,
    .inl ⟨h.handler, h.timedout⟩⟩

theorem sending_of_reaches (h : c.WriteStarts sv) (hsmall : sv.small = true) (hstk : Beneath stk)
    (hr : (engine cfg).Reaches NoCalls (resume (callWriteHandler c) stk) t) :
    Sending c.trace sv t := by
  refine hr.invariant (.writeHandler (h.armed hsmall) h.handler h.timedout hstk) ?_
  intro s i u hs hG hstep
  have hstep := step_cases hstep
  cases hs with
  | flight hf hstk => exact flight_step (s := ⟨_, _⟩) hf hstk hG hstep
  | finished sv hf => exact finished_step (s := ⟨_, _⟩) hf hG hstep
  | broken hb => exact broken_step (s := ⟨_, _⟩) hb hG hstep

/-- In every run from the first call of the handler on in which no write event finds undef without
    a body, what `c->send` has accepted is a prefix of the load, what it is asked for lies inside
    the current scalar, and success was reported exactly if the whole load was accepted. -/
theorem exact_transmission (cfg : Config) (c : Conn) (sv : Sv) (stk : List Frame) (t : Sys)
    (h : c.WriteStarts sv) (hsmall : sv.small = true) (hstk : Beneath stk)
    (hr : (stale cfg).Reaches (Machine.left NoCalls) (resume (callWriteHandler c) stk) t) :
    (∃ l, t.c.trace = c.trace ++ l ∧ l.flatMap Obs.output <+: sv.bytes ∧
        (l.any Obs.isDone = true ↔ l.flatMap Obs.output = sv.bytes)) ∧
      ∀ k cb rest, t.stack = .send k cb :: rest → t.c.RequestOk k := by
  have hpart : ∀ {c' : Conn} {b r : Bytes}, SentSince c.trace c' b false → r ≠ [] →
      b ++ r = sv.bytes → ∃ l, c'.trace = c.trace ++ l ∧ l.flatMap Obs.output <+: sv.bytes ∧
        (l.any Obs.isDone = true ↔ l.flatMap Obs.output = sv.bytes) := by
    -- while bytes are left, neither side of the equivalence holds
    rintro c' b r ⟨l, ht, rfl, hd⟩ hne hload
    refine ⟨l, ht, ⟨r, hload⟩, fun hdone => ?_, fun hall => ?_⟩
    · rw [hd] at hdone
      cases hdone
    · rw [hall] at hload
      exact absurd (List.append_right_eq_self.mp hload) hne
  cases sending_of_reaches h hsmall hstk hr.of_left with
  | flight hf hstk =>
    obtain ⟨b, hsent, hload⟩ := hf.sent
    exact ⟨hpart hsent hf.left hload, hstk.request⟩
  | @finished c' stk' sv' hf =>
    obtain ⟨l, ht, hb, hd⟩ := hf.sent
    refine ⟨⟨l, ht, ⟨[], (List.append_nil _).trans hb⟩, ?_⟩, ?_⟩
    · rw [hb, hd]
      exact iff_of_true rfl rfl
    · intro k cb rest hstk
      have hstk : stk' = .send k cb :: rest := hstk
      exact (hf.frames (.send k cb) (by rw [hstk]; exact List.mem_cons_self)).elim
  | @broken c' stk' hb =>
    obtain ⟨b, r, hsent, hne, hload⟩ := hb.sent
    refine ⟨hpart hsent hne hload, ?_⟩
    intro k cb rest hstk
    have hstk : stk' = .send k cb :: rest := hstk
    rcases hb.frames (.send k cb) (by rw [hstk]; exact List.mem_cons_self) with hf | hf
    · cases hf
    · cases hf

/-- A connection whose writer was given `sv` and is about to run. -/
def Conn.withLoad (sv : Sv) : Conn :=
  { Conn.accepted with
    write := { Event.idle .writer with ready := true, active := true }
    writerCallback := some 0
    writerBuffer := some sv
    callbacks := [⟨.writer, false, 0⟩] }

theorem withLoad_writeStarts (h : sv.sendable = true) : (Conn.withLoad sv).WriteStarts sv :=
  ⟨rfl, rfl, rfl, rfl, rfl, rfl, rfl, h⟩

theorem exact_transmission_resumed :
    ∃ t, (stale ⟨.clear, 4096, 4080⟩).Reaches (Machine.left NoCalls)
        (resume (callWriteHandler (.withLoad (.av [some [97, 98], some [], some [99]]))) []) t ∧
      (∃ l, t.c.trace = [] ++ l ∧ l.flatMap Obs.output <+: [97, 98, 99] ∧
        (l.any Obs.isDone = true ↔ l.flatMap Obs.output = [97, 98, 99])) ∧
      t.c.trace = [.sent [97], .sent [], .sent [98], .sent [99],
        .called 0 (some ⟨.writer, false, 0⟩) (.writerDone .rvpvav) none] := by
  have hr : (stale ⟨.clear, 4096, 4080⟩).Reaches (Machine.left NoCalls)
      (resume (callWriteHandler (.withLoad (.av [some [97, 98], some [], some [99]]))) []) _ :=
    .of_run ([.send (.accepted 1) true, .writeEvent, .send .again true, .writeEvent,
      .send (.accepted 1) true, .send (.accepted 1) true].map .inl) rfl
  exact ⟨_, hr, (exact_transmission _ _ _ _ _ (withLoad_writeStarts rfl) rfl beneath_nil hr).1, rfl⟩

/-- A reference to one byte is sent; the write event that comes next sends a byte of the memory. -/
theorem sent_behind_load :
    ¬ ∀ (cfg : Config) (c : Conn) (sv : Sv) (t : Sys), c.WriteStarts sv → sv.small = true →
      (stale cfg).Reaches (Machine.besides NoCalls) (resume (callWriteHandler c) []) t →
        ∃ l, t.c.trace = c.trace ++ l ∧ l.flatMap Obs.output <+: sv.bytes := by
  intro h
  obtain ⟨t, hr, ht⟩ := Machine.Reaches.of_run_map (M := stale ⟨.clear, 4096, 4080⟩)
    (G := Machine.besides NoCalls) (s := resume (callWriteHandler (.withLoad (.rv [97]))) [])
    (fun t => t.c.trace.flatMap Obs.output)
    [.inl (.send (.accepted 1) true), .inl (.ret true), .inr .writeEvent, .inr (.send [0])]
    (show _ = some [97, 0] by decide)
  obtain ⟨l, hl, hprefix⟩ := h _ _ _ t (withLoad_writeStarts rfl) rfl hr
  obtain rfl : l = t.c.trace := hl.symm
  rw [ht] at hprefix
  exact absurd hprefix (by decide)

/-! ### The offset -/

/-- The bytes of the elements before the one that is being sent. -/
def Sv.before (sv : Sv) (index : Nat) : Bytes :=
  match sv with
  | .av xs => ((xs.take index).map (·.getD [])).flatten
  | _ => []

/-- A write that has started at `c` goes on: success was not reported, and nothing fails. -/
structure Writing (c : Conn) (t : Sys) (l : List Obs) : Prop where
  trace : t.c.trace = c.trace ++ l
  noDone : l.any Obs.isDone = false
  opened : t.c.destroyed = false
  sound : ∀ f rest, t.stack = f :: rest → f.fatal = false

/-- While a write goes on `s->writer_offset` is the number of bytes accepted of the current
    scalar, and what `c->send` is asked for is the rest of it. -/
def OffsetExact (c : Conn) (sv : Sv) (t : Sys) : Prop :=
  ∀ l, Writing c t l → t.c.writerBuffer = some sv ∧
    ((l.flatMap Obs.output).length : Int) =
      (sv.before t.c.writerIndex).length + t.c.writerOffset ∧
    ∀ k cb rest, t.stack = .send k cb :: rest → t.c.RequestOk k

/-- What is left behind an offset into the first element, in numbers. -/
theorem length_tailBytes {xs : List (Option Bytes)} {offset : Int} (h : OffsetOk xs offset) :
    ((tailBytes xs offset).length : Int) = ((xs.map (·.getD [])).flatten).length - offset := by
  cases xs with
  | nil =>
    have hz : offset = 0 := h
    simp [tailBytes, hz]
  | cons e rest =>
    obtain ⟨h0, hle⟩ := h
    simp only [tailBytes, List.map_cons, List.flatten_cons, List.length_append, List.length_drop]
    omega

/-- What is before the position, and what is left behind it, is the load. -/
theorem Conn.Placed.before_left (h : c.Placed sv) (hr : sv.isRef = true) :
    (sv.bytes.length : Int) =
      (sv.before c.writerIndex).length + c.writerOffset + c.left.length := by
  cases sv with
  | rv b =>
    obtain ⟨-, h0, hle⟩ := h.bounds
    rw [left_rv h.buffer, List.length_drop]
    show (b.length : Int) = (0 : Nat) + c.writerOffset + _
    omega
  | av xs =>
    have hsplit : (Sv.av xs).bytes.length = ((Sv.av xs).before c.writerIndex).length +
        (((xs.drop c.writerIndex).map (·.getD [])).flatten).length := by
      rw [← List.length_append, Sv.before, Sv.bytes, List.map_take, List.map_drop,
        Chunks.flatten_take_append_drop]
    have hleft := length_tailBytes (show OffsetOk (xs.drop c.writerIndex) c.writerOffset from h.pos)
    rw [left_av h.buffer, hleft, hsplit]
    omega
  | undef | str b | rvOther => cases hr

/-- In every run of a write of references that are shorter than 2^31 bytes the offset is exact. -/
theorem offset_exact (cfg : Config) (c : Conn) (sv : Sv) (stk : List Frame) (t : Sys)
    (h : c.WriteStarts sv) (href : sv.isRef = true) (hsmall : sv.small = true)
    (hstk : Beneath stk)
    (hr : (engine cfg).Reaches NoCalls (resume (callWriteHandler c) stk) t) :
    OffsetExact c sv t := by
  intro l hw
  cases sending_of_reaches h hsmall hstk hr with
  | @flight c' stk' hf hstk =>
    obtain ⟨b, ⟨l', ht, hb, -⟩, hload⟩ := hf.sent
    obtain ⟨sv', hp, hsv⟩ := hf.placed
    obtain rfl := hsv href
    obtain rfl : l' = l := List.append_cancel_left (ht.symm.trans hw.trace)
    refine ⟨hp.buffer, ?_, hstk.request⟩
    have hlen := hp.before_left href
    rw [← hload, List.length_append, Nat.cast_add, ← hb] at hlen
    show _ = ((sv'.before c'.writerIndex).length : Int) + c'.writerOffset
    omega
  | finished sv' hf =>
    obtain ⟨l', ht, -, hd⟩ := hf.sent
    obtain rfl : l' = l := List.append_cancel_left (ht.symm.trans hw.trace)
    exact absurd (hd.symm.trans hw.noDone) (by decide)
  | broken hb =>
    rcases hb.dead with hd | ⟨f, rest, hstk, hf⟩
    · exact absurd (hd.symm.trans hw.opened) (by decide)
    · exact absurd ((hw.sound f rest hstk).symm.trans hf) (by decide)

theorem offset_exact_second_element :
    ∃ t, (engine ⟨.clear, 4096, 4080⟩).Reaches NoCalls
        (resume (callWriteHandler (.withLoad (.av [some [97], some [98, 99]]))) []) t ∧
      OffsetExact (.withLoad (.av [some [97], some [98, 99]])) (.av [some [97], some [98, 99]]) t ∧
      t.stack = [.send .rvpvav 0] ∧ t.c.writerIndex = 1 ∧ t.c.writerOffset = 1 := by
  have hr : (engine ⟨.clear, 4096, 4080⟩).Reaches NoCalls
      (resume (callWriteHandler (.withLoad (.av [some [97], some [98, 99]]))) []) _ :=
    .of_run [.send (.accepted 1) true, .send (.accepted 1) true, .writeEvent] rfl
  exact ⟨_, hr, offset_exact _ _ _ _ _ (withLoad_writeStarts rfl) rfl rfl beneath_nil hr, rfl, rfl,
    rfl⟩

/-- An event that is not ready gets registered. -/
theorem ngxHandleEvent_not_ready {H : Type} {m : EventMethod} {ev : Event H}
    (hr : ev.ready = false) : ngxHandleEvent m true ev = some { ev with active := true } := by
  obtain ⟨handler, ready, active, timerSet, timedout, error⟩ := ev
  obtain rfl : ready = false := hr
  cases m <;> cases active <;> rfl

theorem waitWritable_not_ready (hr : c.write.ready = false) :
    waitWritable cfg true k c cb =
      (Conn.armWrite { c with write := { c.write with active := true } }, []) := by
  rw [waitWritable, Conn.handleWrite, ngxHandleWriteEvent, ngxHandleEvent_not_ready hr]
  rfl

/-- `c->send` takes a part of a scalar reference, and the next write event brings the handler back
    to `SENDAGAIN`. -/
theorem round_rvpv (cfg : Config) (n : Nat) (hb : c.writerBuffer = some (.rv b))
    (hcb : c.writerCallback = some cb)
    (hw : c.write.handler = .writer) (hto : c.write.timedout = false) (hd : c.destroyed = false)
    (hn : 0 < n) (hle : (n : Int) ≤ remaining b c.writerOffset)
    (hmore : 0 < remaining b (toInt32 (c.writerOffset + n))) :
    ∃ c', (engine cfg).Reaches NoCalls ⟨c, [.send .rvpv cb]⟩ ⟨c', [.send .rvpv cb]⟩ ∧
      c'.writerBuffer = some (.rv b) ∧ c'.writerCallback = some cb ∧
      c'.write.handler = .writer ∧ c'.write.timedout = false ∧ c'.destroyed = false ∧
      c'.writerOffset = toInt32 (c.writerOffset + n) ∧
      c'.trace = c.trace ++ [.sent ((b.drop c.writerOffset.toNat).take n)] := by
  have hq : c.request .rvpv =
      some ⟨b.drop c.writerOffset.toNat, remaining b c.writerOffset⟩ := by
    simp [Conn.request, hb]
  generalize hc₁ : Conn.armWrite { c with
    write := { c.write with ready := false, active := true }
    trace := c.trace ++ [.sent ((b.drop c.writerOffset.toNat).take n)]
    writerOffset := toInt32 (c.writerOffset + n) } = c₁
  have hsend : (engine cfg).step ⟨c, [.send .rvpv cb]⟩ (.send (.accepted n) true) =
      some ⟨c₁, []⟩ := by
    have hanswers : (SendResult.accepted n).answers (c.request .rvpv) = true := by
      rw [hq]
      simp [SendResult.answers, hn, hle]
    show (if (SendResult.accepted n).answers (c.request .rvpv) = true then
      some (resume (writerSend cfg true .rvpv c cb (.accepted n)) []) else none) = _
    rw [if_pos hanswers, writerSend, hq]
    dsimp only [sendAccepted]
    split
    · next b' hb' =>
      obtain rfl : b = b' := by simpa [hb] using hb'
      rw [if_pos hmore, waitWritable_not_ready rfl, ← hc₁]
      rfl
    · next hb' => exact absurd hb (hb' b)
  have hevent : (engine cfg).step ⟨c₁, []⟩ .writeEvent =
      some ⟨{ c₁.takeWrite with write := c₁.takeWrite.write.delTimer }, [.send .rvpv cb]⟩ := by
    have hopen : c₁.destroyed = false := by rw [← hc₁]; exact hd
    have hactive : c₁.write.active = true := by rw [← hc₁]; rfl
    have hw₁ : c₁.takeWrite.write.handler = .writer := by rw [← hc₁]; exact hw
    have hto₁ : c₁.takeWrite.write.timedout = false := by rw [← hc₁]; exact hto
    have hb₁ : c₁.takeWrite.writerBuffer = some (.rv b) := by rw [← hc₁]; exact hb
    have hcb₁ : c₁.takeWrite.writerCallback = some cb := by rw [← hc₁]; exact hcb
    have ho₁ : c₁.takeWrite.writerOffset = toInt32 (c.writerOffset + n) := by rw [← hc₁]; rfl
    show (if ([] : List Frame) = [] ∧ c₁.destroyed = false ∧ c₁.write.active = true then
      some (resume (callWriteHandler c₁.takeWrite) []) else none) = _
    rw [if_pos ⟨rfl, hopen, hactive⟩, callWriteHandler, hw₁]
    dsimp only
    rw [ngxeWriterHandler_rv hcb₁ hb₁, ngxeRvpvWriterHandler, hto₁, if_neg Bool.false_ne_true]
    dsimp only
    rw [ho₁, if_neg (by omega)]
    rfl
  have hr : (engine cfg).Reaches NoCalls ⟨c, [.send .rvpv cb]⟩ ⟨c₁, []⟩ :=
    .single (i := .send (.accepted n) true) trivial hsend
  refine ⟨_, .tail (i := .writeEvent) hr trivial hevent, ?_⟩
  rw [← hc₁]
  exact ⟨hb, hcb, hw, hto, hd, rfl, rfl⟩

/-- Every scalar of the load is shorter than 2^63 bytes, as all of Perl's are. -/
def Sv.admitted : Sv → Bool
  | .rv b => decide (b.length < 2 ^ 63)
  | .av xs => xs.all fun e => decide ((e.getD []).length < 2 ^ 63)
  | _ => true

/-- A scalar of 2^31 + 1 bytes, of which `c->send` takes 2^30 twice. The offset wraps to -2^31, and
    the next request starts 2^31 bytes before the scalar. -/
theorem offset_wraps :
    ¬ ∀ (cfg : Config) (c : Conn) (sv : Sv) (stk : List Frame) (t : Sys), c.WriteStarts sv →
      sv.isRef = true → sv.admitted = true → Beneath stk →
      (engine cfg).Reaches NoCalls (resume (callWriteHandler c) stk) t → OffsetExact c sv t := by
  intro h
  obtain ⟨b, hlen⟩ : ∃ b : Bytes, b.length = 2 ^ 31 + 1 :=
    ⟨List.replicate _ 0, List.length_replicate⟩
  have h₀ : remaining b 0 = 2 ^ 31 + 1 := by rw [remaining, hlen]; decide
  have h₁ : remaining b (2 ^ 30) = 2 ^ 30 + 1 := by rw [remaining, hlen]; decide
  have h₂ : remaining b (-2 ^ 31) = 2 ^ 32 + 1 := by rw [remaining, hlen]; decide
  have ht₁ : toInt32 (0 + (2 ^ 30 : Nat)) = 2 ^ 30 := by decide
  have ht₂ : toInt32 (2 ^ 30 + (2 ^ 30 : Nat)) = -2 ^ 31 := by decide
  have hstart : resume (callWriteHandler (.withLoad (.rv b))) [] = ⟨{ Conn.withLoad (.rv b) with
      write := (Conn.withLoad (.rv b)).write.delTimer }, [.send .rvpv 0]⟩ := by
    have ho : (Conn.withLoad (.rv b)).writerOffset = 0 := rfl
    show resume (ngxeWriterHandler (.withLoad (.rv b)) (Conn.withLoad (.rv b)).write) [] = _
    rw [ngxeWriterHandler_rv rfl rfl, ngxeRvpvWriterHandler,
      show (Conn.withLoad (.rv b)).write.timedout = false from rfl, if_neg Bool.false_ne_true]
    dsimp only
    rw [ho, h₀, if_neg (by decide)]
    rfl
  generalize hc₀ : ({ Conn.withLoad (.rv b) with
    write := (Conn.withLoad (.rv b)).write.delTimer } : Conn) = c₀ at hstart
  have ho₀ : c₀.writerOffset = 0 := by rw [← hc₀]; rfl
  obtain ⟨c₁, hr₁, hb₁, hcb₁, hw₁, hto₁, hd₁, ho₁, htr₁⟩ :=
    @round_rvpv c₀ 0 b ⟨.clear, 4096, 4080⟩ (2 ^ 30) (by rw [← hc₀]; rfl) (by rw [← hc₀]; rfl)
      (by rw [← hc₀]; rfl) (by rw [← hc₀]; rfl) (by rw [← hc₀]; rfl) (by decide)
      (by rw [ho₀, h₀]; decide) (by rw [ho₀, ht₁, h₁]; decide)
  have htrace : c₀.trace = [] := by rw [← hc₀]; rfl
  rw [ho₀, ht₁] at ho₁
  obtain ⟨c₂, hr₂, -, -, -, -, hd₂, ho₂, htr₂⟩ :=
    @round_rvpv c₁ 0 b ⟨.clear, 4096, 4080⟩ (2 ^ 30) hb₁ hcb₁ hw₁ hto₁ hd₁
      (by decide) (by rw [ho₁, h₁]; decide) (by rw [ho₁, ht₂, h₂]; decide)
  rw [ho₁, ht₂] at ho₂
  have hstarts : (Conn.withLoad (.rv b)).WriteStarts (.rv b) := withLoad_writeStarts rfl
  have hadmitted : (Sv.rv b).admitted = true := decide_eq_true (by rw [hlen]; decide)
  have hexact := h _ _ _ [] _ hstarts rfl hadmitted beneath_nil (hstart ▸ hr₁.trans hr₂)
  obtain ⟨-, hcount, -⟩ := hexact _ ⟨htr₂.trans (by rw [htr₁, htrace]; rfl), rfl, hd₂,
    by simp [Frame.fatal]⟩
  rw [show (Sys.mk c₂ [.send .rvpv 0]).c.writerOffset = _ from ho₂] at hcount
  have hneg : (0 : Int) ≤ 0 + -2 ^ 31 := hcount ▸ Int.natCast_nonneg _
  exact absurd hneg (by decide)

end NginxEngine.XS
