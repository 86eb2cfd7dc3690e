import NginxEngine.Trace
import NginxEngine.XS.Transmit

/-!
# One success callback for each load

`ngxe_writer_handler` takes an empty write buffer for one that was sent, so whether a write event
without a reason leads to a success callback depends on whether the handler is still installed.
It takes itself away after the callback only if there is a reader to go on with.

## Main definitions

- `Mark`, `marked` — the machine with a note of the loads, the starts and the success callbacks
- `OncePerLoad` — between two success callbacks there was a load or a start
- `CompletionSafe` — after a success callback the handler comes to rest

## Main results

- `once_per_load` — in every run of safe steps
- `completed_twice` — a write event without a reason leads to a second success callback
-/

namespace NginxEngine.XS

variable {cfg : Config} {ok : Bool} {c c' c'' : Conn} {cb : Nat} {o : Outcome} {sv : Sv}
  {s t : Sys} {k : Kind} {rest fs stk : List Frame} {i : Input}

/-- What matters for when success may be reported. -/
inductive Mark
  /-- Data was put into the write buffer, or the writer was started. -/
  | fresh
  /-- The writer callback was invoked with success. -/
  | done
deriving DecidableEq, Repr

/-- Data is put into the write buffer, or the writer is started. -/
def freshens (s : Sys) : Input → Bool
  | .op (.writer start _ sv) _ => start || !sv.bytes.isEmpty
  | .op (.writerStart _) _ | .op .readerStopWriterStart _ => true
  | .op (.writerBufferSet sv) _ => s.c.writerBuffer.isSome && decide (sv ≠ .str [])
  | .op (.setWriteBuffer sv) _ => s.c.writerBuffer.isSome && !sv.bytes.isEmpty
  | .ret _ =>
    match s.stack with
    | .inCallback _ .readerData :: _ => s.c.switchesToWriter
    | _ => false
  | _ => false

/-- The step ends with a success callback of a writer handler. -/
def completes (cfg : Config) (s : Sys) (i : Input) : Bool :=
  (step cfg s i).any fun t =>
    decide (s.c.trace.length < t.c.trace.length) && t.c.trace.getLast?.any Obs.isDone

/-- What a step adds to the note, in the order in which it happens. -/
def marks (cfg : Config) (s : Sys) (i : Input) : List Mark :=
  (if freshens s i then [.fresh] else []) ++ if completes cfg s i then [.done] else []

/-- The machine with a note of the loads, the starts and the success callbacks. -/
def marked (cfg : Config) : Machine (Sys × List Mark) Input :=
  (engine cfg).withNotes fun s i l => l ++ marks cfg s i

/-- Between two success callbacks there was a load or a start. -/
def OncePerLoad (l : List Mark) : Prop :=
  Everywhere (fun p x => x = .done → p.getLast? ≠ some .done) l

/-- After the success callback the handler finds nothing to go on with, and either makes room for
    the reader or is not called by the event method. -/
def Conn.comesToRest (c : Conn) (k : Kind) : Bool :=
  c.writerBuffer.all (fun sv => !moreToWrite k sv) && (c.hasReader || !c.write.active)

/-- A success callback that returns on an open connection, without a load or a start since, leaves
    the handler removed or at rest. -/
def CompletionSafe (p : Sys × List Mark) : Input → Prop
  | .ret _ =>
    match p.1.stack with
    | .inCallback _ (.writerDone k) :: _ =>
      p.1.c.destroyed = true ∨ p.1.c.write.handler = .dummy ∨ p.2.getLast? ≠ some .done ∨
        p.1.c.comesToRest k = true
    | _ => True
  | _ => True

instance {p : Sys × List Mark} {i : Input} : Decidable (CompletionSafe p i) := by
  unfold CompletionSafe
  generalize p.1.stack = stk
  induction i with
  | ret ok =>
    induction stk using List.casesOn with
    | nil => infer_instance
    | cons f rest =>
      induction f with
      | inCallback cb site => induction site <;> infer_instance
      | _ => infer_instance
  | _ => infer_instance

/-! ### What reports success -/

/-- Code that turns `c` into `c'` reports no success. -/
def Silent (c c' : Conn) : Prop := Extends (fun x => x.isDone = false) c.trace c'.trace

/-- Code that reports success is left in the callback. -/
def Reports (c : Conn) (o : Outcome) : Prop :=
  Silent c o.1 ∨ ∃ cb k, o.2 = [.inCallback cb (.writerDone k)]

theorem Silent.of_eq (h : c'.trace = c.trace) : Silent c c' := by
  rw [Silent, h]
  exact .refl _

theorem Silent.sent {b : Bytes} (h : c'.trace = c.trace ++ [.sent b]) : Silent c c' := by
  rw [Silent, h]
  exact .snoc rfl

theorem Silent.reader (h : ReaderMove cb c c') : Silent c c' := by
  obtain ⟨l, hl, hobs⟩ := h.trace
  refine ⟨l, hl, fun x hx => ?_⟩
  have hx := hobs x hx
  cases x with
  | received b => rfl
  | sent b | loaded sv => exact hx.elim
  | called cb' r site err =>
    obtain ⟨-, -, rfl | rfl⟩ := hx
    · rfl
    · rfl

theorem Reports.of_eq (h : o.1.trace = c.trace) : Reports c o := .inl (.of_eq h)

theorem Reports.fail {e : CbError} (h : c'.trace = c.trace) : Reports c (fail c' cb e) := by
  refine .inl ?_
  rw [Silent, ← h]
  exact .snoc rfl

theorem Reports.done : Reports c (ngxeCallback c' cb none (.writerDone k)) := .inr ⟨cb, k, rfl⟩

theorem Reports.after (h : Reports c' o) (h' : Silent c c') : Reports c o := by
  rcases h with h | h
  · exact .inl (h'.trans h)
  · exact .inr h

theorem waitWritable_reports : Reports c (waitWritable cfg ok k c cb) := by
  rw [waitWritable]
  split
  · exact .fail trace_resetOnEventError
  · next c₁ h₁ =>
    refine .of_eq ?_
    show c₁.armWrite.trace = c.trace
    rw [Conn.armWrite, handleWrite_eq h₁]

theorem rvpvavNextBuf_reports : Reports c (rvpvavNextBuf c cb) := by
  rw [rvpvavNextBuf]
  split
  · split
    · exact .done
    · exact .fail rfl
    · exact .of_eq rfl
  · exact .of_eq rfl

theorem ngxeWriterHandler_reports {ev : Event WriteHandler} :
    Reports c (ngxeWriterHandler c ev) := by
  rw [ngxeWriterHandler]
  split
  · exact .of_eq rfl
  · exact .of_eq rfl
  · rw [ngxeRvpvWriterHandler]
    split
    · exact .fail rfl
    · dsimp only
      split
      · exact .done
      · exact .of_eq rfl
  · rw [ngxeRvpvavWriterHandler]
    split
    · exact .fail rfl
    · exact rvpvavNextBuf_reports.after (.of_eq rfl)
  · exact .fail rfl
  · split
    · exact .fail rfl
    · dsimp only
      split
      · exact .done
      · exact .of_eq rfl

theorem failUnchecked_reports {w : Option Nat} {e : CbError} (h : c'.trace = c.trace) :
    Reports c (failUnchecked c' w e) := by
  cases w with
  | none => exact .of_eq h
  | some cb => exact .fail h

theorem ngxeWriterStart_reports : Reports c (ngxeWriterStart cfg ok c) := by
  rw [ngxeWriterStart]
  split
  · exact failUnchecked_reports rfl
  · next c₁ h₁ =>
    have ht : c₁.armWrite.trace = c.trace := by
      rw [Conn.armWrite, handleWrite_eq h₁]
      rfl
    split
    · exact ngxeWriterHandler_reports.after (.of_eq ht)
    · exact .of_eq ht

theorem sendAccepted_reports {q : Request} {n : Nat} :
    Reports c (sendAccepted cfg ok k c cb q n) := by
  cases k with
  | plain =>
    dsimp only [sendAccepted]
    split
    · exact waitWritable_reports.after (.sent rfl)
    · exact .done
  | rvpv =>
    dsimp only [sendAccepted]
    split
    · split
      · exact waitWritable_reports.after (.sent rfl)
      · exact .done
    · exact .inl (.sent rfl)
  | rvpvav =>
    dsimp only [sendAccepted]
    split
    · split
      · split
        · exact waitWritable_reports.after (.sent rfl)
        · exact rvpvavNextBuf_reports.after (.sent rfl)
      · exact .inl (.sent rfl)
    · exact .inl (.sent rfl)

theorem writerSend_reports {r : SendResult} : Reports c (writerSend cfg ok k c cb r) := by
  rw [writerSend]
  split
  · exact .of_eq rfl
  cases r with
  | error | zero => exact .fail trace_resetOnWriteError
  | again =>
    dsimp only
    split
    · exact (Reports.fail trace_resetOnEventError).after (.sent rfl)
    · next c₁ h₁ =>
      have ht : c₁.trace = c.trace ++ [.sent []] := by rw [handleWrite_eq h₁]
      split
      · exact .inl (.sent ht)
      · exact .inl (.sent ht)
  | accepted n => exact sendAccepted_reports

theorem continueWriter_reports : Reports c (continueWriter cfg ok k c cb) := by
  rw [continueWriter.eq_def]
  cases k with
  | plain =>
    dsimp only
    split
    · exact .of_eq rfl
    · exact waitWritable_reports
  | rvpv =>
    dsimp only
    split
    · exact .of_eq rfl
    · exact waitWritable_reports
  | rvpvav =>
    dsimp only
    split
    · exact rvpvavNextBuf_reports.after (.of_eq rfl)
    · exact waitWritable_reports.after (.of_eq rfl)

theorem ngxeReaderStart_silent : Silent c (ngxeReaderStart cfg ok c).1 := by
  obtain ⟨cb, hcb⟩ := exists_readerCallback c
  have hi : Silent c c.installReader := .of_eq rfl
  exact hi.trans (Silent.reader (ngxeReaderStart_outcome hcb).move)

theorem WriterReturns.reports (h : WriterReturns cfg ok k c cb o) : Reports c o := by
  cases h with
  | ret h | crash hopen hh hbad => exact .of_eq rfl
  | more hopen hh hb hmore => exact continueWriter_reports
  | reader hopen hh hb hrv hmore hr =>
    have hstop : Silent c (ngxeWriterStop c) := .of_eq rfl
    exact .inl (hstop.trans ngxeReaderStart_silent)
  | rest hopen hh hb hmore hr => exact .of_eq rfl

theorem afterReader_reports : Reports c (afterReader cfg ok c cb) := by
  cases hsw : c.switchesToWriter with
  | false => exact .inl (.reader (afterReader_outcome hsw).move)
  | true =>
    rw [afterReader_switches hsw]
    exact ngxeWriterStart_reports.after (.of_eq rfl)

theorem clientInit_silent {H : Type} {ev : Event H} : Silent c (ngxeClientInitHandler c ev).1 := by
  have ho := clientInit_cases c ev
  generalize ngxeClientInitHandler c ev = o at ho ⊢
  cases ho with
  | none hcb => exact .of_eq rfl
  | call w err site hcb hw hsite =>
    refine .snoc ?_
    rcases hsite with rfl | rfl
    · rfl
    · rfl

theorem callReadHandler_silent : Silent c (callReadHandler cfg c).1 := by
  obtain ⟨cb, hcb⟩ := exists_readerCallback c
  rw [callReadHandler]
  split
  · exact .of_eq rfl
  · exact .reader (ngxeReaderHandler_outcome hcb).move
  · exact clientInit_silent

theorem callWriteHandler_reports : Reports c (callWriteHandler c) := by
  rw [callWriteHandler]
  split
  · exact .of_eq rfl
  · exact ngxeWriterHandler_reports
  · exact .inl clientInit_silent

theorem afterCallback_reports {site : Site} : Reports c (afterCallback cfg ok c cb site) := by
  cases site with
  | readerData => exact afterReader_reports
  | writerDone k => exact (afterWriter_cases cfg ok k c cb).reports
  | failed => exact .of_eq (close_keeps (c.release cb)).2.2.2.2.1
  | connected => exact .of_eq rfl

theorem Silent.loaded {sv : Sv} (h : c'.trace = c.trace ++ [.loaded sv]) : Silent c c' := by
  rw [Silent, h]
  exact .snoc rfl

theorem ngxeWriterBufferSet_reports : Reports c (ngxeWriterBufferSet cfg ok c sv) := by
  have ho := bufferSet_cases cfg ok c sv
  generalize ngxeWriterBufferSet cfg ok c sv = o at ho ⊢
  cases ho with
  | nothing => exact .of_eq rfl
  | start sv offset index hb => exact ngxeWriterStart_reports.after (.loaded rfl)

theorem applyOp_reports {op : Op} : Reports c (applyOp cfg ok c op) := by
  have hread : ∀ {c' : Conn}, c'.trace = c.trace → Reports c (ngxeReaderStart cfg ok c') :=
    fun {c'} h => .inl ((Silent.of_eq h).trans ngxeReaderStart_silent)
  cases op with
  | reader start timeout =>
    cases start with
    | true => exact hread rfl
    | false => exact .of_eq rfl
  | writer start timeout sv =>
    cases start with
    | true => exact ngxeWriterStart_reports.after (.loaded rfl)
    | false => exact .inl (.loaded rfl)
  | readerStart timeout | writerStopReaderStart => exact hread rfl
  | writerStart timeout | readerStopWriterStart => exact ngxeWriterStart_reports.after (.of_eq rfl)
  | writerBufferSet sv => exact ngxeWriterBufferSet_reports
  | close => exact .of_eq (close_keeps c).2.2.2.2.1
  | setWriteBuffer sv =>
    rw [applyOp]
    split
    · exact .inl (.loaded rfl)
    · exact .of_eq rfl
  | _ => exact .of_eq rfl

/-- A step that reports success ends in the callback. -/
theorem step_reports (hs : Step cfg s i t) :
    Silent s.c t.c ∨ ∃ cb k rest, t.stack = .inCallback cb (.writerDone k) :: rest := by
  have hresume : ∀ {c o rest}, Reports c o →
      Silent c (resume o rest).c ∨
        ∃ cb k rest', (resume o rest).stack = .inCallback cb (.writerDone k) :: rest' := by
    intro c o rest h
    rcases h with h | ⟨cb, k, h⟩
    · exact .inl h
    · refine .inr ⟨cb, k, rest, ?_⟩
      rw [resume, h]
      rfl
  cases hs with
  | arrive b hb he | arriveEof he | hangup => exact .inl (.of_eq rfl)
  | @readEvent c hopen hr =>
    have h : Silent c c.takeRead := .of_eq rfl
    exact .inl (h.trans callReadHandler_silent)
  | @readTimer c hopen ht =>
    have h : Silent c c.expireRead := .of_eq rfl
    exact .inl (h.trans callReadHandler_silent)
  | @writeEvent c hopen ha =>
    have h : Silent c c.takeWrite := .of_eq rfl
    exact hresume (callWriteHandler_reports.after h)
  | @writeTimer c hopen ht =>
    have h : Silent c c.expireWrite := .of_eq rfl
    exact hresume (callWriteHandler_reports.after h)
  | enter | leave => exact .inl (.of_eq rfl)
  | op o ok hf hopen => exact hresume applyOp_reports
  | recv err ok => exact .inl (.reader readerRecv_outcome.move)
  | send r ok hr => exact hresume writerSend_reports
  | ret ok => exact hresume afterCallback_reports

theorem completes_of_silent (h : step cfg s i = some t) (hs : Silent s.c t.c) :
    completes cfg s i = false := by
  obtain ⟨m, hm, hd⟩ := hs
  rw [completes, h, Option.any_some]
  by_contra hc
  obtain ⟨hlt, hlast⟩ := Bool.and_eq_true_iff.mp (Bool.ne_false_iff.mp hc)
  rw [hm] at hlast
  obtain ⟨-, rfl⟩ := getLast_append_notDone hd hlast
  rw [List.append_nil] at hm
  rw [hm] at hlt
  exact absurd (of_decide_eq_true hlt) (Nat.lt_irrefl _)

/-! ### Between a success callback and what comes next -/

/-- A frame after which the write handler is not called again by itself. -/
def Frame.holds (f : Frame) : Bool := f.isDone || f.fatal

/-- No event that comes leads to a success callback. -/
structure Sys.Quiet (s : Sys) : Prop where
  noSend : ∀ k cb rest, s.stack ≠ .send k cb :: rest
  held : s.c.write.handler = .writer →
    s.c.destroyed = true ∨ s.c.write.active = false ∨ ∃ f ∈ s.stack, f.holds = true

theorem Sys.Quiet.of_done (h : s.stack = .inCallback cb (.writerDone k) :: rest) : s.Quiet := by
  refine ⟨fun k cb rest' he => ?_, fun _ => .inr (.inr ⟨.inCallback cb (.writerDone k), ?_, rfl⟩)⟩
  · cases h.symm.trans he
  · rw [h]
    exact List.mem_cons_self

/-- Code that does not install the writer, register its event or take a holding frame away. -/
theorem Sys.Quiet.keep (h : s.Quiet)
    (hw : t.c.write.handler = .writer →
      s.c.write.handler = .writer ∧ (s.c.write.active = false → t.c.write.active = false))
    (hd : s.c.destroyed = true → t.c.destroyed = true)
    (hstk : ∀ f ∈ s.stack, f.holds = true → f ∈ t.stack)
    (hsend : ∀ k cb rest, t.stack ≠ .send k cb :: rest) : t.Quiet := by
  refine ⟨hsend, fun hh => ?_⟩
  obtain ⟨hh, ha⟩ := hw hh
  rcases h.held hh with hdest | hact | ⟨f, hf, hf'⟩
  · exact .inl (hd hdest)
  · exact .inr (.inl (ha hact))
  · exact .inr (.inr ⟨f, hstk f hf hf', hf'⟩)

/-- The same, with the write side and the stack kept. -/
theorem Sys.Quiet.same (h : s.Quiet) (hw : c'.write = s.c.write)
    (hd : c'.destroyed = s.c.destroyed) : Sys.Quiet ⟨c', s.stack⟩ := by
  refine h.keep ?_ ?_ (fun f hf _ => hf) h.noSend
  · rw [hw]
    exact fun hh => ⟨hh, id⟩
  · rw [hd]
    exact id

theorem not_send_of_perl (hrest : ∀ g ∈ rest, g.isPerl = true) :
    ∀ k cb rest', rest ≠ .send k cb :: rest' := by
  rintro k cb rest' rfl
  have hp := hrest _ List.mem_cons_self
  cases hp

theorem not_send_append (hf : ∀ k cb, .send k cb ∉ fs) (hrest : ∀ g ∈ rest, g.isPerl = true) :
    ∀ k cb rest', fs ++ rest ≠ .send k cb :: rest' := by
  intro k cb rest' he
  have hmem : .send k cb ∈ fs ++ rest := by
    rw [he]
    exact List.mem_cons_self
  rcases List.mem_append.mp hmem with hmem | hmem
  · exact hf k cb hmem
  · have hp := hrest _ hmem
    cases hp

/-- A frame that does not hold the handler makes place for reader code. -/
theorem Sys.Quiet.reader (h : Sys.Quiet ⟨c, stk⟩) (ho : ReaderOutcome cb c o)
    (hstk : ∀ f ∈ stk, f.holds = true → f ∈ rest) (hrest : ∀ g ∈ rest, g.isPerl = true) :
    (resume o rest).Quiet := by
  have hw : o.1.write = c.write := ho.move.write
  refine h.keep ?_ ?_ (fun f hf hf' => List.mem_append_right _ (hstk f hf hf'))
    (not_send_append ?_ hrest)
  · show o.1.write.handler = .writer → _
    rw [hw]
    exact fun hh => ⟨hh, fun ha => by rw [show (resume o rest).c.write = c.write from hw]; exact ha⟩
  · show c.destroyed = true → o.1.destroyed = true
    rw [ho.move.destroyed]
    exact id
  · obtain ⟨c', fs⟩ := o
    cases ho.frames <;> simp

theorem Sys.Quiet.of_handler (hw : s.c.write.handler ≠ .writer)
    (hsend : ∀ k cb rest, s.stack ≠ .send k cb :: rest) : s.Quiet :=
  ⟨hsend, fun hh => absurd hh hw⟩

theorem Sys.Quiet.clientInit {H : Type} {ev : Event H} :
    (resume (ngxeClientInitHandler c ev) []).Quiet := by
  have ho := clientInit_cases c ev
  generalize ngxeClientInitHandler c ev = o at ho ⊢
  cases ho with
  | none hcb => exact .of_handler (by simp [resume]) (by simp [resume])
  | call w err site hcb hw hsite =>
    exact .of_handler (by simp [resume, ngxeCallback, hw]) (by simp [resume, ngxeCallback])

theorem Sys.Quiet.readHandler (h : Sys.Quiet ⟨c, []⟩) :
    (resume (callReadHandler cfg c) []).Quiet := by
  obtain ⟨cb, hcb⟩ := exists_readerCallback c
  rw [callReadHandler]
  split
  · exact h
  · exact h.reader (ngxeReaderHandler_outcome hcb) (by simp) (by simp)
  · exact .clientInit

theorem Sys.Quiet.readerStart (h : Sys.Quiet ⟨c, stk⟩) (hw : c'.write = c.write)
    (hd : c'.destroyed = c.destroyed) (hstk : ∀ g ∈ stk, g.isPerl = true) :
    (resume (ngxeReaderStart cfg ok c') stk).Quiet := by
  obtain ⟨cb, hcb⟩ := exists_readerCallback c'
  have hi : Sys.Quiet ⟨c'.installReader, stk⟩ := h.same hw hd
  exact hi.reader (ngxeReaderStart_outcome hcb) (fun f hf _ => hf) hstk

/-- A write event that comes without a reason is not for the writer. -/
theorem Sys.Quiet.writeEvent (h : Sys.Quiet ⟨c, []⟩) (hopen : c.destroyed = false)
    (ha : c.write.active = true) :
    Silent c (callWriteHandler c.takeWrite).1 ∧
      (resume (callWriteHandler c.takeWrite) []).Quiet := by
  have hnot : c.write.handler ≠ .writer := by
    intro hw
    rcases h.held hw with hd | hi | ⟨f, hf, -⟩
    · exact absurd (hd.symm.trans hopen) (by decide)
    · exact absurd (hi.symm.trans ha) (by decide)
    · cases hf
  have ht : Silent c c.takeWrite := .of_eq rfl
  rw [callWriteHandler]
  split
  · next hw => exact ⟨ht, .of_handler hnot (by simp [resume])⟩
  · next hw => exact absurd hw hnot
  · exact ⟨ht.trans clientInit_silent, .clientInit⟩

theorem Sys.Quiet.writeTimer (h : Sys.Quiet ⟨c, []⟩) :
    Silent c (callWriteHandler c.expireWrite).1 ∧
      (resume (callWriteHandler c.expireWrite) []).Quiet := by
  have ht : Silent c c.expireWrite := .of_eq rfl
  have hq : Sys.Quiet ⟨c.expireWrite, []⟩ :=
    h.keep (fun hh => ⟨hh, id⟩) id (by simp) (by simp)
  rw [callWriteHandler]
  split
  · exact ⟨ht, hq⟩
  · cases hw : c.expireWrite.hasWriter with
    | false =>
      rw [ngxeWriterHandler_of_not_hasWriter hw]
      exact ⟨ht, hq⟩
    | true =>
      obtain ⟨cb, e, he⟩ :=
        ngxeWriterHandler_timedout hw (rfl : c.expireWrite.write.timedout = true)
      rw [he]
      refine ⟨ht.trans (.snoc rfl), by simp [resume, fail, ngxeCallback], fun _ => ?_⟩
      exact .inr (.inr ⟨_, List.mem_cons_self, rfl⟩)
  · exact ⟨ht.trans clientInit_silent, .clientInit⟩

/-- The return of a success callback after which the handler is removed or comes to rest. -/
theorem Sys.Quiet.afterWriter (hrest : ∀ g ∈ rest, g.isPerl = true)
    (hc : c.destroyed = true ∨ c.write.handler = .dummy ∨ c.comesToRest k = true)
    (ho : WriterReturns cfg ok k c cb o) : Silent c o.1 ∧ (resume o rest).Quiet := by
  have hnone : ∀ k cb rest', rest ≠ .send k cb :: rest' := not_send_of_perl hrest
  have hcomes : c.destroyed = false → c.write.handler ≠ .dummy → c.comesToRest k = true := by
    intro hopen hh
    rcases hc with hd | hw | hc
    · cases hopen.symm.trans hd
    · exact absurd hw hh
    · exact hc
  cases ho with
  | ret hret =>
    refine ⟨.of_eq rfl, ?_⟩
    rcases hret with hd | hw
    · exact ⟨hnone, fun _ => .inl hd⟩
    · exact .of_handler (by simp [resume, hw]) hnone
  | crash hopen hh hbad =>
    exact ⟨.of_eq rfl, by simp [resume],
      fun _ => .inr (.inr ⟨.crash, List.mem_cons_self, rfl⟩)⟩
  | more hopen hh hb hmore =>
    have hc := hcomes hopen hh
    simp [Conn.comesToRest, hb, hmore] at hc
  | reader hopen hh hb hrv hmore hr =>
    have hstop : Silent c (ngxeWriterStop c) := .of_eq rfl
    have hquiet : Sys.Quiet ⟨ngxeWriterStop c, rest⟩ :=
      .of_handler (by simp [ngxeWriterStop]) hnone
    exact ⟨hstop.trans ngxeReaderStart_silent, hquiet.readerStart rfl rfl hrest⟩
  | rest hopen hh hb hmore hr =>
    have hc := hcomes hopen hh
    rw [Conn.comesToRest, Bool.and_eq_true, hr, Bool.false_or, Bool.not_eq_true'] at hc
    exact ⟨.of_eq rfl, hnone, fun _ => .inr (.inl hc.2)⟩

/-- A call that neither loads data nor starts the writer. -/
theorem Sys.Quiet.op {op : Op} (h : Sys.Quiet ⟨c, stk⟩) (hstk : ∀ g ∈ stk, g.isPerl = true)
    (hf : freshens ⟨c, stk⟩ (.op op ok) = false) :
    Silent c (applyOp cfg ok c op).1 ∧ (resume (applyOp cfg ok c op) stk).Quiet := by
  have hread : ∀ {c' : Conn}, c'.trace = c.trace → Silent c (ngxeReaderStart cfg ok c').1 :=
    fun {c'} ht => (Silent.of_eq ht).trans ngxeReaderStart_silent
  cases op with
  | reader start timeout =>
    cases start with
    | true => exact ⟨hread rfl, h.readerStart rfl rfl hstk⟩
    | false => exact ⟨.of_eq rfl, h.same rfl rfl⟩
  | readerStart timeout => exact ⟨hread rfl, h.readerStart rfl rfl hstk⟩
  | writerStop =>
    have hstop : Sys.Quiet ⟨ngxeWriterStop c, stk⟩ :=
      .of_handler (by simp [ngxeWriterStop]) h.noSend
    exact ⟨.of_eq rfl, hstop⟩
  | writerStopReaderStart =>
    have hstop : Sys.Quiet ⟨ngxeWriterStop c, stk⟩ :=
      .of_handler (by simp [ngxeWriterStop]) h.noSend
    exact ⟨hread rfl, hstop.readerStart rfl rfl hstk⟩
  | close =>
    exact ⟨.of_eq (close_keeps c).2.2.2.2.1, h.noSend, fun _ => .inl (ngxeClose_destroyed c)⟩
  | setWriteBuffer sv =>
    rw [applyOp]
    split
    · exact ⟨.loaded rfl, h.same rfl rfl⟩
    · exact ⟨.of_eq rfl, h⟩
  | writer start timeout sv =>
    cases start with
    | true => cases hf
    | false =>
      have hnew : Sys.Quiet ⟨createWriter cfg c timeout sv, stk⟩ :=
        .of_handler (by simp [createWriter]) h.noSend
      exact ⟨.loaded rfl, hnew⟩
  | writerBufferSet sv =>
    have hnone : applyOp cfg ok c (.writerBufferSet sv) = (c, []) := by
      rw [applyOp, ngxeWriterBufferSet.eq_def]
      cases hb : c.writerBuffer with
      | none => rfl
      | some old =>
        simp only [freshens, hb, Option.isSome_some, Bool.true_and, ne_eq, decide_not,
          Bool.not_eq_false', decide_eq_true_eq] at hf
        rw [hf]
    rw [hnone]
    exact ⟨.of_eq rfl, h⟩
  | writerStart timeout | readerStopWriterStart => cases hf
  | _ => exact ⟨.of_eq rfl, h.same rfl rfl⟩

/-- A step without a load or a start reports no success after one was reported. -/
theorem quiet_step {l : List Mark} (h : s.Quiet) (hp : PerlBelow s.stack)
    (hl : l.getLast? = some .done) (hf : freshens s i = false) (hG : CompletionSafe (s, l) i)
    (hs : Step cfg s i t) : Silent s.c t.c ∧ t.Quiet := by
  cases hs with
  | arrive b hb he | arriveEof he | hangup => exact ⟨.of_eq rfl, h.same rfl rfl⟩
  | @readEvent c hopen hr =>
    have ht : Silent c c.takeRead := .of_eq rfl
    have hq : Sys.Quiet ⟨c.takeRead, []⟩ := h.same rfl rfl
    exact ⟨ht.trans callReadHandler_silent, hq.readHandler⟩
  | @readTimer c hopen hr =>
    have ht : Silent c c.expireRead := .of_eq rfl
    have hq : Sys.Quiet ⟨c.expireRead, []⟩ := h.same rfl rfl
    exact ⟨ht.trans callReadHandler_silent, hq.readHandler⟩
  | writeEvent hopen ha => exact h.writeEvent hopen ha
  | writeTimer hopen ht => exact h.writeTimer
  | enter => exact ⟨.of_eq rfl, h.keep (fun hh => ⟨hh, id⟩) id (by simp) (by simp)⟩
  | leave =>
    refine ⟨.of_eq rfl, h.keep (fun hh => ⟨hh, id⟩) id (fun f hf hf' => ?_)
      (not_send_of_perl hp)⟩
    rcases List.mem_cons.mp hf with rfl | hf
    · cases hf'
    · exact hf
  | @op c f rest o ok hperl hopen =>
    refine h.op (fun g hg => ?_) hf
    rcases List.mem_cons.mp hg with rfl | hg
    · exact hperl
    · exact hp g hg
  | recv err ok =>
    refine ⟨.reader readerRecv_outcome.move, h.reader readerRecv_outcome (fun f hf hf' => ?_) hp⟩
    rcases List.mem_cons.mp hf with rfl | hf
    · cases hf'
    · exact hf
  | send r ok hr => exact absurd rfl (h.noSend _ _ _)
  | @ret c cb site rest ok =>
    cases site with
    | readerData =>
      have ho : ReaderOutcome cb c (afterReader cfg ok c cb) := afterReader_outcome hf
      refine ⟨.reader ho.move, h.reader ho (fun f hf hf' => ?_) hp⟩
      rcases List.mem_cons.mp hf with rfl | hf
      · cases hf'
      · exact hf
    | writerDone k =>
      refine Sys.Quiet.afterWriter hp ?_ (afterWriter_cases cfg ok k c cb)
      rcases hG with hd | hw | hn | hrest
      · exact .inl hd
      · exact .inr (.inl hw)
      · exact absurd hl hn
      · exact .inr (.inr hrest)
    | failed =>
      refine ⟨.of_eq (close_keeps (c.release cb)).2.2.2.2.1,
        not_send_of_perl hp, fun _ => .inl (ngxeClose_destroyed _)⟩
    | connected =>
      refine ⟨.of_eq rfl, h.keep (fun hh => ⟨hh, id⟩) id (fun f hf hf' => ?_)
        (not_send_of_perl hp)⟩
      rcases List.mem_cons.mp hf with rfl | hf
      · cases hf'
      · exact hf

/-! ### Runs -/

/-- What holds of a run and its note. -/
structure MarkInv (p : Sys × List Mark) : Prop where
  once : OncePerLoad p.2
  quiet : p.2.getLast? = some .done → p.1.Quiet
  perl : PerlBelow p.1.stack

theorem mark_step {p q : Sys × List Mark} (h : MarkInv p) (hG : CompletionSafe p i)
    (hs : (marked cfg).step p i = some q) : MarkInv q := by
  obtain ⟨s, l⟩ := p
  obtain ⟨t, l'⟩ := q
  obtain ⟨hstep, hl⟩ := Machine.step_withNotes hs
  have hl : l' = l ++ marks cfg s i := hl
  have hst : Step cfg s i t := step_cases hstep
  have hperl : PerlBelow t.stack := perlBelow_step h.perl hst
  have hdone : completes cfg s i = true → t.Quiet := by
    intro hc
    rcases step_reports hst with hsil | ⟨cb, k, rest, hstk⟩
    · exact absurd ((completes_of_silent hstep hsil).symm.trans hc) (by decide)
    · exact .of_done hstk
  cases hf : freshens s i with
  | true =>
    have hfresh : OncePerLoad (l ++ [.fresh]) := h.once.append (by simp)
    cases hc : completes cfg s i with
    | true =>
      obtain rfl : l' = l ++ [.fresh] ++ [.done] := by simp [hl, marks, hf, hc]
      exact ⟨hfresh.append (by simp), fun _ => hdone hc, hperl⟩
    | false =>
      obtain rfl : l' = l ++ [.fresh] := by simp [hl, marks, hf, hc]
      exact ⟨hfresh, by simp, hperl⟩
  | false =>
    cases hc : completes cfg s i with
    | true =>
      obtain rfl : l' = l ++ [.done] := by simp [hl, marks, hf, hc]
      refine ⟨h.once.append fun _ hlast => ?_, fun _ => hdone hc, hperl⟩
      obtain ⟨hsil, -⟩ := quiet_step (h.quiet hlast) h.perl hlast hf hG hst
      exact absurd ((completes_of_silent hstep hsil).symm.trans hc) (by decide)
    | false =>
      obtain rfl : l' = l := by simp [hl, marks, hf, hc]
      exact ⟨h.once, fun hlast => (quiet_step (h.quiet hlast) h.perl hlast hf hG hst).2, hperl⟩

/-- In every run of safe steps there is a load or a start between two success callbacks. -/
theorem once_per_load (cfg : Config) (s₀ : Sys) (p : Sys × List Mark) (h₀ : Initial cfg s₀)
    (h : (marked cfg).Reaches CompletionSafe (s₀, []) p) : OncePerLoad p.2 := by
  refine (h.invariant (I := MarkInv) ⟨everywhere_nil, by simp, perlBelow_initial h₀⟩ ?_).once
  exact fun _ _ _ h hG hs => mark_step h hG hs

/-- With a reader the writer stops itself; the next load is sent after the automatic switch. -/
theorem once_per_load_switching :
    ∃ p, (marked ⟨.clear, 4096, 4080⟩).Reaches CompletionSafe (⟨.accepted, [.outside]⟩, []) p ∧
      OncePerLoad p.2 ∧ p.2 = [.fresh, .done, .fresh, .fresh, .done] := by
  have hr : (marked ⟨.clear, 4096, 4080⟩).Reaches CompletionSafe
      (⟨.accepted, [.outside]⟩, []) _ :=
    .of_run [.op (.reader false 0) true, .op (.writer true 0 (.str [97, 98])) true,
      .send (.accepted 1) true, .leave, .writeEvent, .send (.accepted 1) true, .ret true,
      .writeEvent, .arrive [99], .readEvent, .recv false true,
      .op (.setWriteBuffer (.str [99])) true, .ret true, .send (.accepted 1) true] rfl
  exact ⟨_, hr, once_per_load _ _ _ .accepted hr, rfl⟩

/-- There is no reader. `c->send` takes a part of the load, so the write event is registered; the
    rest is sent at the next event, and the event after that finds the handler still installed. -/
theorem completed_twice :
    ¬ ∀ cfg s₀ p, Initial cfg s₀ → (marked cfg).Reaches Machine.always (s₀, []) p →
      OncePerLoad p.2 := by
  intro h
  have hr : (marked ⟨.clear, 4096, 4080⟩).Reaches Machine.always (⟨.accepted, [.outside]⟩, []) _ :=
    .of_run [.op (.writer true 0 (.str [97, 98])) true, .send (.accepted 1) true, .leave,
      .writeEvent, .send (.accepted 1) true, .ret true, .writeEvent] rfl
  exact h _ _ _ .accepted hr [.fresh, .done] .done [] rfl rfl rfl

end NginxEngine.XS
