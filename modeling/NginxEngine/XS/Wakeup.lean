import NginxEngine.XS.Segments

/-!
# Wake-ups of the reader under an edge-triggered method

With an edge-triggered method a notification is delivered once: whoever consumes it
has to drain the socket or remember that it is not drained (`read->ready`). The
reader handler drains. `ngxe_reader_start` does not look at `ready`, and the handler
returns early when the callback has started the writer, so input whose notification
was consumed before can be left behind.

## Main definitions

- `NoLostWakeup` — unread input of an installed reader has a notification pending
- `WakeupSafe` — the condition on steps under which no wake-up is lost

## Main results

- `wakeup_not_lost` — no run of safe steps loses a wake-up
- `wakeup_lost` — a run that does
-/

namespace NginxEngine.XS

variable {cfg : Config} {ok : Bool} {c c' : Conn} {cb : Nat} {o : Outcome} {s t : Sys}
  {rest stk : List Frame}

/-- Unread input has a notification pending. -/
def Conn.Covered (c : Conn) : Prop := c.hasInput = true → 0 < c.pending

/-- No wake-up is lost: in the event loop, input of an open connection whose read
    handler is the reader's has a notification pending. -/
def NoLostWakeup (s : Sys) : Prop :=
  s.stack = [] → s.c.destroyed = false → s.c.read.handler = .reader → s.c.Covered

/-- The rest of the handler looks at the socket again, or is fatal. -/
def Frame.settles : Frame → Bool
  | .recv _ | .inCallback _ .readerData => true
  | f => f.fatal

/-- Input whose notification was consumed is still there. -/
def Conn.missed (c : Conn) : Bool := c.read.ready && c.hasInput && (c.pending == 0)

/-- `afterWriter` reaches `ngxe_writer_stop(c); ngxe_reader_start(c)`. -/
def Conn.backToReader (c : Conn) (k : Kind) : Bool :=
  !c.destroyed && decide (c.write.handler ≠ .dummy) && c.hasReader &&
    c.writerBuffer.any fun sv => !decide (k = .rvpv ∧ sv = .rvOther) && !moreToWrite k sv

/-- The step calls `ngxe_reader_start`. -/
def startsReader (s : Sys) : Input → Bool
  | .op (.reader true _) _ | .op (.readerStart _) _ | .op .writerStopReaderStart _ => true
  | .ret _ =>
    match s.stack with
    | .inCallback _ (.writerDone k) :: _ => s.c.backToReader k
    | _ => false
  | _ => false

/-- The reader handler returns without a look at the socket, its handler installed,
    because the callback has started the writer. -/
def leavesReader (s : Sys) : Input → Bool
  | .ret _ =>
    match s.stack with
    | .inCallback _ .readerData :: _ =>
      !s.c.destroyed && decide (s.c.read.handler ≠ .dummy) && decide (s.c.write.handler ≠ .dummy)
    | _ => false
  | _ => false

/-- The frames that are still there after the step. -/
def framesBelow (s : Sys) : Input → List Frame
  | .ret _ => s.stack.tail
  | _ => s.stack

/-- The step creates a reader. -/
def Input.createsReader : Input → Bool
  | .op (.reader _ _) _ => true
  | _ => false

/-- A reader is started only where there is one; and unless the reader handler is
    going to look at the socket anyway, none is started, and the handler does not
    return early, while input is there whose notification was consumed. -/
def WakeupSafe (s : Sys) (i : Input) : Prop :=
  (startsReader s i = true → s.c.hasReader = true ∨ i.createsReader = true) ∧
  (startsReader s i = true ∨ leavesReader s i = true →
    (framesBelow s i).any Frame.settles = false → s.c.missed = false)

instance : Decidable (NoLostWakeup s) :=
  inferInstanceAs (Decidable (_ → _ → _ → _ → _))

instance {i : Input} : Decidable (WakeupSafe s i) :=
  inferInstanceAs (Decidable ((_ → _) ∧ (_ → _ → _)))

/-! ### The invariant -/

/-- What `ready` means: the event is registered, and unless `ready` is set no
    notification was consumed that the input needs. -/
structure Conn.ReadyOk (c : Conn) : Prop where
  active : c.read.ready = true → c.read.active = true
  notified : 0 < c.pending → c.read.active = true
  posted : c.read.active = true → c.read.ready = false → c.Covered

/-- The reader is installed on a registered event and, unless `settled`, covered. -/
structure Conn.Installed (c : Conn) (settled : Bool) : Prop where
  active : c.read.active = true
  hasReader : c.hasReader = true
  covered : settled = false → c.Covered

/-- The connection is open and no frame is fatal. -/
def Sys.Live (s : Sys) : Prop := s.c.destroyed = false ∧ s.stack.any Frame.fatal = false

def WakeInv (s : Sys) : Prop :=
  s.Live → s.c.ReadyOk ∧
    (s.c.read.handler = .reader → s.c.Installed (s.stack.any Frame.settles))

theorem WakeInv.noLostWakeup (h : WakeInv s) : NoLostWakeup s := by
  intro hstk hopen hh
  have hl : s.Live := ⟨hopen, by rw [hstk]; rfl⟩
  exact ((h hl).2 hh).covered (by rw [hstk]; rfl)

/-- The read side of two connections is the same, as far as wake-ups go. -/
structure SameRead (c c' : Conn) : Prop where
  read : c'.read = c.read
  input : c'.hasInput = c.hasInput
  pending : c'.pending = c.pending
  hasReader : c'.hasReader = c.hasReader
  destroyed : c'.destroyed = c.destroyed

theorem WriterMove.sameRead (h : WriterMove cb c c') : SameRead c c' := by
  refine ⟨h.read, ?_, ?_, h.hasReader, h.destroyed⟩
  · rw [h.frame]
    rfl
  · rw [h.frame]

theorem SameRead.readyOk (h : SameRead c c') (hc : c.ReadyOk) : c'.ReadyOk := by
  constructor
  · rw [h.read]
    exact hc.active
  · rw [h.read, h.pending]
    exact hc.notified
  · rw [h.read, Conn.Covered, h.input, h.pending]
    exact hc.posted

theorem SameRead.installed {b : Bool} (h : SameRead c c') (hc : c.Installed b) :
    c'.Installed b := by
  refine ⟨?_, ?_, ?_⟩
  · rw [h.read]
    exact hc.active
  · rw [h.hasReader]
    exact hc.hasReader
  · rw [Conn.Covered, h.input, h.pending]
    exact hc.covered

theorem Conn.Installed.mono {b b' : Bool} (h : c.Installed b) (hb : b = true → b' = true) :
    c.Installed b' := by
  refine ⟨h.active, h.hasReader, fun hb' => h.covered ?_⟩
  cases b with
  | false => rfl
  | true => simp [hb rfl] at hb'

/-- A step that keeps the read side and no fewer frames keeps the invariant. -/
theorem WakeInv.of_sameRead (h : WakeInv ⟨c, stk⟩) (hc : SameRead c c')
    (hf : stk.any Frame.fatal = true → rest.any Frame.fatal = true)
    (hs : stk.any Frame.settles = true → rest.any Frame.settles = true) :
    WakeInv ⟨c', rest⟩ := by
  rintro ⟨hopen, hfatal⟩
  have hl : Sys.Live ⟨c, stk⟩ := by
    refine ⟨hc.destroyed ▸ hopen, ?_⟩
    by_contra hne
    simp only [Bool.not_eq_false] at hne
    simp [hf hne] at hfatal
  obtain ⟨hr, hi⟩ := h hl
  refine ⟨hc.readyOk hr, fun hh => ?_⟩
  exact (hc.installed (hi (by rw [← hh]; exact congrArg Event.handler hc.read.symm))).mono hs

/-- Writer code, run in place of a frame that does not settle anything. -/
theorem WakeInv.of_writer (h : WakeInv ⟨c, stk⟩) (ho : WriterOutcome cb c o)
    (hf : stk.any Frame.fatal = true → rest.any Frame.fatal = true)
    (hs : stk.any Frame.settles = true → rest.any Frame.settles = true) :
    WakeInv (resume o rest) := by
  refine h.of_sameRead ho.move.sameRead ?_ ?_
  · intro hx
    simp [List.any_append, hf hx]
  · intro hx
    simp [List.any_append, hs hx]

/-- Without the reader's handler only the meaning of `ready` is left to show. -/
theorem WakeInv.of_stopped (h : s.Live → s.c.ReadyOk) (hh : s.c.read.handler ≠ .reader) :
    WakeInv s :=
  fun hl => ⟨h hl, fun hr => absurd hr hh⟩

theorem WakeInv.of_destroyed (h : s.c.destroyed = true) : WakeInv s := by
  rintro ⟨hopen, -⟩
  simp [h] at hopen

theorem WakeInv.of_fatal (h : s.stack.any Frame.fatal = true) : WakeInv s := by
  rintro ⟨-, hfatal⟩
  simp [h] at hfatal

theorem covered_of_not_missed (hc : c.ReadyOk) (hm : c.missed = false)
    (ha : c.read.active = true) : c.Covered := by
  intro hin
  cases hr : c.read.ready with
  | false => exact hc.posted ha hr hin
  | true =>
    simp only [Conn.missed, hr, hin, Bool.and_self, Bool.true_and, beq_eq_false_iff_ne] at hm
    omega

/-- Registering the read event: it is registered afterwards, and what was covered or
    gets reported now is covered. -/
theorem handleRead_wake (h : c.handleRead .clear ok = some c') (hc : c.ReadyOk) :
    c'.ReadyOk ∧ c'.read.active = true ∧ (c.missed = false → c'.Covered) := by
  have he := handleRead_eq h
  have ha : c'.read.active = true := by
    simp only [Conn.handleRead, Option.map_eq_some_iff] at h
    obtain ⟨rev, hr, rfl⟩ := h
    have hact := ngxHandleEvent_clear_active hr
    have := hc.active
    cases hready : c.read.ready <;> simp_all
  have hcov : (c.read.active = true → c.Covered) → c'.Covered := by
    intro hcov hin
    rw [he] at hin ⊢
    have hin' : c.hasInput = true := hin
    cases hact : c.read.active with
    | true => simpa using hcov hact hin'
    | false => simp [ha, hin']
  have hready : c'.read.ready = c.read.ready := by rw [he]
  refine ⟨⟨fun _ => ha, fun _ => ha, fun _ hr => hcov fun hact => ?_⟩, ha,
    fun hm => hcov fun hact => ?_⟩
  · exact hc.posted hact (hready ▸ hr)
  · exact covered_of_not_missed hc hm hact

theorem armRead_readyOk (hc : c.ReadyOk) : c.armRead.ReadyOk := ⟨hc.active, hc.notified, hc.posted⟩

/-- The outcome of reader code: `ready` keeps its meaning, a registered event stays
    registered, and where the handler returns the input is covered. -/
structure Drained (c : Conn) (o : Outcome) : Prop where
  readyOk : o.2.any Frame.fatal = false → o.1.ReadyOk
  active : c.read.active = true → o.1.read.active = true
  covered : c.read.active = true → o.2 = [] → o.1.Covered

theorem drained_of_fail (e : CbError) (ha : c.read.active = true → c'.read.active = true) :
    Drained c (fail c' cb e) :=
  ⟨fun h => by simp [fail, ngxeCallback, Frame.fatal] at h, ha,
    fun _ h => by simp [fail, ngxeCallback] at h⟩

theorem drained_of_data (hc : c'.ReadyOk) (ha : c.read.active = true → c'.read.active = true) :
    Drained c (ngxeCallback c' cb none .readerData) :=
  ⟨fun _ => ⟨hc.active, hc.notified, hc.posted⟩, ha, fun _ h => by simp [ngxeCallback] at h⟩

theorem recvAgain_drained {svbuf : ReadBuffer} (hc : c'.ReadyOk)
    (ha : c.read.active = true → c'.read.active = true) :
    Drained c (recvAgain cfg c' cb svbuf) := by
  rw [recvAgain.eq_def]
  dsimp only
  split
  · exact drained_of_data ⟨hc.active, hc.notified, hc.posted⟩ ha
  · exact ⟨fun _ => ⟨hc.active, hc.notified, hc.posted⟩, ha, fun _ h => by simp at h⟩

theorem hasInput_drop (n : Nat) (h : { c with unread := c.unread.drop n }.hasInput = true) :
    c.hasInput = true := by
  simp only [Conn.hasInput, Bool.or_eq_true, Bool.not_eq_eq_eq_not, Bool.not_true,
    List.isEmpty_eq_false_iff] at h ⊢
  refine h.imp_left fun h h' => h ?_
  rw [h', List.drop_nil]

/-- `recv` on an edge-triggered method clears `ready` only where nothing is left. -/
theorem ngxUnixRecv_wake {size : Nat} {err : Bool} (hc : c.ReadyOk) :
    ((ngxUnixRecv .clear c size err).2 ≠ .error → (ngxUnixRecv .clear c size err).1.ReadyOk) ∧
      (ngxUnixRecv .clear c size err).1.read.active = c.read.active ∧
      ((ngxUnixRecv .clear c size err).2 = .again →
        (ngxUnixRecv .clear c size err).1.hasInput = false) := by
  rw [ngxUnixRecv]
  split
  · simp
  · split
    · next hu =>
      refine ⟨fun _ => ⟨?_, hc.notified, ?_⟩, rfl, by simp⟩
      · simpa [EventMethod.greedy] using hc.active
      · intro ha hr hin
        simp only [EventMethod.greedy, Bool.true_or, Bool.and_true] at hr
        exact hc.posted ha hr (hasInput_drop _ hin)
    · next hu =>
      have hu : c.unread = [] := not_not.mp hu
      split
      · refine ⟨fun _ => ⟨by simp, hc.notified, fun _ _ hin => ?_⟩, rfl, by simp⟩
        simp [Conn.hasInput, hu] at hin
      · next he =>
        refine ⟨fun _ => ⟨by simp, hc.notified, fun _ _ hin => ?_⟩, rfl, fun _ => ?_⟩
        · simp [Conn.hasInput, hu, he] at hin
        · simp [Conn.hasInput, hu, he]

theorem readerRecv_drained {err : Bool} (hm : cfg.method = .clear) (hc : c.ReadyOk) :
    Drained c (readerRecv cfg ok c cb err) := by
  rw [readerRecv]
  split
  · exact ⟨fun h => by simp [Frame.fatal] at h, id, fun _ h => by simp at h⟩
  · next svbuf hbuf =>
    rw [hm]
    have hw := @ngxUnixRecv_wake c (svbuf.len - svbuf.cur - 1) err hc
    generalize ngxUnixRecv .clear c (svbuf.len - svbuf.cur - 1) err = p at hw
    obtain ⟨c₁, r⟩ := p
    obtain ⟨hok, hact, hagain⟩ := hw
    dsimp only at hok hact hagain
    have ha₁ : c.read.active = true → c₁.read.active = true := hact.trans
    cases r with
    | error => exact drained_of_fail _ ha₁
    | eof => exact drained_of_fail _ ha₁
    | again =>
      refine ⟨fun _ => armRead_readyOk (hok (by simp)), ha₁, fun _ _ hin => ?_⟩
      have hin' : c₁.hasInput = true := hin
      simp [hagain rfl] at hin'
    | data b =>
      dsimp only
      generalize ({ svbuf with data := svbuf.data ++ b } : ReadBuffer) = svbuf'
      have hok' : Conn.ReadyOk { c₁ with readerBuffer := some svbuf' } :=
        ⟨(hok (by simp)).active, (hok (by simp)).notified, (hok (by simp)).posted⟩
      split
      · exact drained_of_fail _ ha₁
      · next c₂ h₂ =>
        obtain ⟨hok₂, ha₂, -⟩ := handleRead_wake h₂ hok'
        split
        · split
          · exact drained_of_fail _ fun _ => ha₂
          · next c₃ h₃ =>
            obtain ⟨hok₃, ha₃, -⟩ := handleRead_wake h₃ (armRead_readyOk hok₂)
            split
            · exact recvAgain_drained hok₃ fun _ => ha₃
            · next hr =>
              refine ⟨fun _ => armRead_readyOk hok₃, fun _ => ha₃, fun _ _ => ?_⟩
              exact hok₃.posted ha₃ (by simpa using hr)
        · exact drained_of_data (armRead_readyOk hok₂) fun _ => ha₂

theorem ReaderFrames.settles {fs : List Frame} (h : ReaderFrames cb fs) (hne : fs ≠ []) :
    fs.any Frame.settles = true := by
  cases h with
  | ret => exact absurd rfl hne
  | recv => rfl
  | data => rfl
  | failed => rfl
  | crash => rfl

/-- Reader code, run in place of the reader handler's frame. -/
theorem WakeInv.of_drained (hd : Drained c o) (ho : ReaderOutcome cb c o)
    (hr : Sys.Live ⟨c, rest⟩ → c.read.handler = .reader →
      c.read.active = true ∧ c.hasReader = true) : WakeInv (resume o rest) := by
  rintro ⟨hopen, hfatal⟩
  have hopen : c.destroyed = false := ho.move.destroyed ▸ hopen
  simp only [resume, List.any_append, Bool.or_eq_false_iff] at hfatal
  refine ⟨hd.readyOk hfatal.1, fun hh => ?_⟩
  obtain ⟨ha, hr⟩ := hr ⟨hopen, hfatal.2⟩ (ho.move.handler ▸ hh)
  refine ⟨hd.active ha, ho.move.hasReader.trans hr, fun hs => hd.covered ha ?_⟩
  by_contra hne
  simp [resume, List.any_append, ho.frames.settles hne] at hs

/-! ### Steps -/

theorem WakeInv.writerStart (h : WakeInv ⟨c, stk⟩) :
    WakeInv (resume (ngxeWriterStart cfg ok c) stk) := by
  obtain ⟨cb, hcb⟩ := exists_writerCallback c
  have h' : WakeInv ⟨c.installWriter, stk⟩ :=
    h.of_sameRead ⟨rfl, rfl, rfl, rfl, rfl⟩ id id
  exact h'.of_writer (ngxeWriterStart_outcome hcb) id id

/-- `ngxe_reader_start` keeps the invariant where a reader is there and, unless the
    frames settle it, nothing was missed. -/
theorem WakeInv.readerStart (hm : cfg.method = .clear) (h : Sys.Live ⟨c, stk⟩ → c.ReadyOk)
    (hr : c.hasReader = true) (hmiss : stk.any Frame.settles = false → c.missed = false) :
    WakeInv (resume (ngxeReaderStart cfg ok c) stk) := by
  rw [ngxeReaderStart]
  rw [hm]
  split
  · apply of_fatal
    cases c.readerCallback <;>
      simp [failUnchecked, fail, ngxeCallback, resume, Frame.fatal]
  · next c' hc' =>
    rintro ⟨hopen, hfatal⟩
    have hopen : c'.destroyed = false := hopen
    rw [handleRead_eq hc'] at hopen
    have hok := h ⟨hopen, hfatal⟩
    have hok' : c.installReader.ReadyOk := ⟨hok.active, hok.notified, hok.posted⟩
    obtain ⟨hready, hact, hcov⟩ := handleRead_wake hc' hok'
    refine ⟨armRead_readyOk hready, fun _ => ⟨hact, ?_, fun hs => ?_⟩⟩
    · show c'.hasReader = true
      rw [handleRead_eq hc']
      exact hr
    · exact hcov (hmiss hs)

/-- The return from a success callback of a writer. -/
theorem WakeInv.afterWriter {k : Kind} (hm : cfg.method = .clear)
    (h : WakeInv ⟨c, .inCallback cb (.writerDone k) :: rest⟩)
    (hmiss : c.backToReader k = true → rest.any Frame.settles = false → c.missed = false)
    (ho : WriterReturns cfg ok k c cb o) : WakeInv (resume o rest) := by
  have hrest : WakeInv ⟨c, rest⟩ :=
    h.of_sameRead ⟨rfl, rfl, rfl, rfl, rfl⟩ (any_cons_of_not rfl) (any_cons_of_not rfl)
  cases ho with
  | ret hret => exact hrest
  | crash hopen hh hbad => exact of_fatal rfl
  | more hopen hh hb hmore => exact hrest.of_writer (continueWriter_outcome k) id id
  | reader hopen hh hb hrv hmore hr =>
    have hback : c.backToReader k = true := by
      rw [Conn.backToReader, hb, Option.any_some, hopen, hr, hmore, decide_eq_true hh,
        decide_eq_false hrv]
      rfl
    refine WakeInv.readerStart hm (fun hl => ?_) hr (hmiss hback)
    obtain ⟨hact, hnot, hpost⟩ := (hrest hl).1
    exact ⟨hact, hnot, hpost⟩
  | rest hopen hh hb hmore hr => exact hrest

theorem WakeInv.readsOn (hm : cfg.method = .clear)
    (h : Sys.Live ⟨c, rest⟩ → c.ReadyOk ∧
      (c.read.handler = .reader → c.read.active = true ∧ c.hasReader = true))
    (hopen : c.destroyed = false) (ho : ReadsOn cfg ok c cb o) : WakeInv (resume o rest) := by
  by_cases hfatal : rest.any Frame.fatal = true
  · exact of_fatal (by simp [resume, List.any_append, hfatal])
  obtain ⟨hok, hi⟩ := h ⟨hopen, by simpa using hfatal⟩
  have hgo : ∀ {c'}, c.handleRead cfg.method ok = some c' → c'.ReadyOk ∧ c'.read.active = true ∧
      (c'.read.handler = .reader → c'.read.active = true ∧ c'.hasReader = true) := by
    intro c' hc'
    have hmove : ReaderMove cb c c' := handleRead_move hc'
    rw [hm] at hc'
    obtain ⟨hok', ha', -⟩ := handleRead_wake hc' hok
    exact ⟨hok', ha', fun hh => ⟨ha', hmove.hasReader.trans (hi (hmove.handler ▸ hh)).2⟩⟩
  cases ho with
  | fail => exact of_fatal rfl
  | recv h₁ hready hsv =>
    obtain ⟨hok', -, hr'⟩ := hgo h₁
    exact of_drained (recvAgain_drained hok' id) (recvAgain_outcome (by simp [hsv])) fun _ => hr'
  | crash h₁ hready hsv => exact of_fatal rfl
  | wait h₁ hready =>
    obtain ⟨hok', ha', hr'⟩ := hgo h₁
    refine fun _ => ⟨armRead_readyOk hok', fun hh => ⟨ha', (hr' hh).2, fun _ => ?_⟩⟩
    exact hok'.posted ha' hready

/-- The return from a success callback of the reader. -/
theorem WakeInv.afterReader (hm : cfg.method = .clear)
    (h : WakeInv ⟨c, .inCallback cb .readerData :: rest⟩)
    (hmiss : c.destroyed = false → c.read.handler ≠ .dummy → c.write.handler ≠ .dummy →
      rest.any Frame.settles = false → c.missed = false)
    (ho : ReaderReturns cfg ok c cb o) : WakeInv (resume o rest) := by
  have hlive : Sys.Live ⟨c, rest⟩ → Sys.Live ⟨c, .inCallback cb .readerData :: rest⟩ :=
    fun hl => ⟨hl.1, by simpa [Frame.fatal] using hl.2⟩
  cases ho with
  | ret hret =>
    rcases hret with hd | hh | hw
    · exact of_destroyed hd
    · exact of_stopped (fun hl => (h (hlive hl)).1) (by simp [resume, hh])
    · -- the callback has started the writer: nobody looks at the socket again
      intro hl
      obtain ⟨hok, hi⟩ := h (hlive hl)
      refine ⟨hok, fun hr => ⟨(hi hr).active, (hi hr).hasReader, fun hs => ?_⟩⟩
      have hread : c.read.handler ≠ .dummy := by
        rw [show c.read.handler = .reader from hr]
        simp
      exact covered_of_not_missed hok (hmiss hl.1 hread hw hs) (hi hr).active
  | switch hsw =>
    refine WakeInv.writerStart (of_stopped (fun hl => ?_) (by simp [ngxeReaderStop]))
    obtain ⟨hact, hnot, hpost⟩ := (h (hlive hl)).1
    exact ⟨hact, hnot, hpost⟩
  | reads hopen hh hwants hreads =>
    refine WakeInv.readsOn hm (fun hl => ?_) hopen hreads
    obtain ⟨hok, hi⟩ := h (hlive hl)
    exact ⟨hok, fun hr => ⟨(hi hr).active, (hi hr).hasReader⟩⟩

/-- A notification posted to the connection, with whatever has arrived. -/
theorem WakeInv.post (h : WakeInv ⟨c, stk⟩) (hread : c'.read = c.read)
    (hp : c'.pending = c.pending) (hr : c'.hasReader = c.hasReader)
    (hd : c'.destroyed = c.destroyed) : WakeInv ⟨c'.post, stk⟩ := by
  rintro ⟨hopen, hfatal⟩
  have hopen : c'.destroyed = false := hopen
  obtain ⟨hok, hi⟩ := h ⟨hd ▸ hopen, hfatal⟩
  have hcov : c.read.active = true → c'.post.Covered := by
    intro ha _
    simp [Conn.post, hread, ha]
  refine ⟨⟨?_, ?_, ?_⟩, fun hh => ⟨?_, ?_, fun _ => ?_⟩⟩
  · show c'.read.ready = true → c'.read.active = true
    rw [hread]
    exact hok.active
  · intro hpos
    show c'.read.active = true
    rw [hread]
    cases ha : c.read.active with
    | true => rfl
    | false =>
      rw [Conn.post, hread, ha, hp] at hpos
      exact ha ▸ hok.notified hpos
  · intro ha _
    exact hcov (hread ▸ ha)
  · show c'.read.active = true
    rw [hread]
    exact (hi (hread ▸ hh)).active
  · show c'.hasReader = true
    rw [hr]
    exact (hi (hread ▸ hh)).hasReader
  · exact hcov (hi (hread ▸ hh)).active

/-- The client's handler takes both handlers away. -/
theorem WakeInv.clientInit {H : Type} {ev : Event H} (hc : c.destroyed = false → c.ReadyOk) :
    WakeInv (resume (ngxeClientInitHandler c ev) rest) := by
  have hok : ∀ c' : Conn, c'.read = { c.read with handler := .dummy } →
      c'.hasInput = c.hasInput → c'.pending = c.pending → c'.destroyed = c.destroyed →
      ∀ fs, WakeInv ⟨c', fs⟩ := by
    intro c' hread hin hp hd fs
    refine of_stopped (fun hl => ?_) (by simp [hread])
    have hr := hc (hd ▸ hl.1)
    refine ⟨?_, ?_, ?_⟩
    · simpa [hread] using hr.active
    · simpa [hread, hp] using hr.notified
    · simpa [hread, Conn.Covered, hin, hp] using hr.posted
  have ho := clientInit_cases c ev
  generalize ngxeClientInitHandler c ev = o at ho ⊢
  cases ho with
  | none hcb => refine hok _ ?_ ?_ ?_ ?_ _ <;> rfl
  | call w err site hcb hw hsite => refine hok _ ?_ ?_ ?_ ?_ _ <;> rfl

/-- The loop calls the read handler after it has set `ready` or `timedout`. -/
theorem WakeInv.callReadHandler (hc : c.ReadyOk)
    (hr : c.read.handler = .reader → c.read.active = true ∧ c.hasReader = true) :
    WakeInv (resume (callReadHandler cfg c) []) := by
  rw [XS.callReadHandler]
  split
  · next hh => exact of_stopped (fun _ => hc) (by simp [resume, hh])
  · next hh =>
    obtain ⟨cb, hcb⟩ := exists_readerCallback c
    refine WakeInv.of_drained ?_ (ngxeReaderHandler_outcome hcb) fun _ => hr
    have hr' := (hr hh).2
    simp only [Conn.hasReader, Bool.and_eq_true, Option.isSome_iff_exists] at hr'
    obtain ⟨⟨r, hrc⟩, ⟨b, hb⟩⟩ := hr'
    simp only [ngxeReaderHandler, hrc, hb]
    split
    · exact drained_of_fail _ id
    · exact recvAgain_drained ⟨hc.active, hc.notified, hc.posted⟩ id
  · exact WakeInv.clientInit fun _ => hc

theorem WakeInv.callWriteHandler (h : WakeInv ⟨c, []⟩) :
    WakeInv (resume (callWriteHandler c) []) := by
  rw [XS.callWriteHandler]
  split
  · exact h
  · obtain ⟨cb, hcb⟩ := exists_writerCallback c
    exact h.of_writer (ngxeWriterHandler_outcome hcb) id id
  · exact WakeInv.clientInit fun hopen => (h ⟨hopen, rfl⟩).1

/-- The reader is stopped or taken away. -/
theorem WakeInv.stop (h : WakeInv ⟨c, stk⟩) (hh : c'.read.handler ≠ .reader)
    (hready : c'.read.ready = c.read.ready) (hactive : c'.read.active = c.read.active)
    (hin : c'.hasInput = c.hasInput) (hp : c'.pending = c.pending)
    (hd : c'.destroyed = c.destroyed) : WakeInv ⟨c', stk⟩ := by
  refine of_stopped (fun hl => ?_) hh
  have hok := (h ⟨hd ▸ hl.1, hl.2⟩).1
  refine ⟨?_, ?_, ?_⟩
  · simpa [hready, hactive] using hok.active
  · simpa [hactive, hp] using hok.notified
  · simpa [hready, hactive, Conn.Covered, hin, hp] using hok.posted

theorem WakeInv.createWriter {timeout : Int} {buffer : Sv} (h : WakeInv ⟨c, stk⟩) :
    WakeInv ⟨createWriter cfg c timeout buffer, stk⟩ := by
  have hreader : c.hasReader = true →
      (XS.createWriter cfg c timeout buffer).hasReader = true := by
    simp only [Conn.hasReader, XS.createWriter, Conn.load, Option.isSome_some, Bool.and_true,
      Bool.and_eq_true]
    exact fun hc => hc.1
  rintro ⟨hopen, hfatal⟩
  obtain ⟨⟨hact, hnot, hpost⟩, hi⟩ := h ⟨hopen, hfatal⟩
  refine ⟨⟨hact, hnot, hpost⟩, fun hh => ?_⟩
  exact ⟨(hi hh).active, hreader (hi hh).hasReader, (hi hh).covered⟩

theorem WakeInv.bufferSet {data : Sv} (h : WakeInv ⟨c, stk⟩) :
    WakeInv (resume (ngxeWriterBufferSet cfg ok c data) stk) := by
  have ho := bufferSet_cases cfg ok c data
  generalize ngxeWriterBufferSet cfg ok c data = o at ho ⊢
  cases ho with
  | nothing => exact h
  | start sv offset index hb =>
    have hsame : WakeInv ⟨{ c.load sv with writerOffset := offset, writerIndex := index }, stk⟩ :=
      h.of_sameRead ⟨rfl, rfl, rfl, rfl, rfl⟩ id id
    exact hsame.writerStart

/-- What the program does: only a start of the reader needs a condition. -/
theorem WakeInv.applyOp {p : Op} (hm : cfg.method = .clear) (h : WakeInv ⟨c, stk⟩)
    (hr : startsReader ⟨c, stk⟩ (.op p ok) = true →
      (c.hasReader = true ∨ (Input.op p ok).createsReader = true) ∧
        (stk.any Frame.settles = false → c.missed = false)) :
    WakeInv (resume (applyOp cfg ok c p) stk) := by
  have hkeep : ∀ c' : Conn, SameRead c c' → WakeInv ⟨c', stk⟩ :=
    fun c' hc' => h.of_sameRead hc' id id
  have hstop : WakeInv ⟨ngxeReaderStop c, stk⟩ :=
    h.stop (by simp [ngxeReaderStop]) rfl rfl rfl rfl rfl
  cases p with
  | reader start timeout =>
    simp only [XS.applyOp, ngxeReader]
    split
    · next hs =>
      refine WakeInv.readerStart hm (fun hl => ?_) ?_ ?_
      · obtain ⟨hact, hnot, hpost⟩ := (h hl).1
        exact ⟨hact, hnot, hpost⟩
      · simp [createReader, Conn.hasReader]
      · exact (hr (by simp [startsReader, hs])).2
    · exact h.stop (by simp [createReader]) rfl rfl rfl rfl rfl
  | readerStop => exact hstop
  | readerStopWriterStart => exact hstop.writerStart
  | readerTimeout timeout => exact hkeep _ ⟨rfl, rfl, rfl, rfl, rfl⟩
  | writer start timeout buffer =>
    simp only [XS.applyOp, ngxeWriter]
    split
    · exact h.createWriter.writerStart
    · exact h.createWriter
  | writerStart timeout => exact WakeInv.writerStart (hkeep _ ⟨rfl, rfl, rfl, rfl, rfl⟩)
  | writerStop => exact hkeep _ ⟨rfl, rfl, rfl, rfl, rfl⟩
  | readerStart timeout | writerStopReaderStart =>
    refine WakeInv.readerStart hm (fun hl => ?_) ?_ (hr rfl).2
    · obtain ⟨hact, hnot, hpost⟩ := (h hl).1
      exact ⟨hact, hnot, hpost⟩
    · rcases (hr rfl).1 with hr | hr
      · exact hr
      · cases hr
  | writerTimeout timeout => exact hkeep _ ⟨rfl, rfl, rfl, rfl, rfl⟩
  | writerBufferSet data => exact h.bufferSet
  | close => exact of_destroyed (ngxeClose_destroyed c)
  | setReadBuffer b =>
    refine hkeep _ ⟨rfl, rfl, rfl, ?_, rfl⟩
    simp [XS.applyOp, Conn.hasReader]
  | setWriteBuffer sv =>
    simp only [XS.applyOp]
    split
    · exact hkeep _ ⟨rfl, rfl, rfl, rfl, rfl⟩
    · exact h
  | setMinLen cb n => exact hkeep _ ⟨rfl, rfl, rfl, rfl, rfl⟩

theorem WakeInv.of_initial (h : Initial cfg s) : WakeInv s := by
  have hok : ∀ m b t, (Conn.client m b t).ReadyOk := fun m b t =>
    ⟨by simp [Conn.client, Event.idle], by simp [Conn.client, Conn.accepted],
      fun _ _ hin => by simp [Conn.client, Conn.accepted, Conn.hasInput] at hin⟩
  cases h with
  | accepted =>
    refine of_stopped (fun _ => ⟨by simp [Conn.accepted, Event.idle], by simp [Conn.accepted],
      fun _ _ hin => ?_⟩) (by simp [Conn.accepted, Event.idle])
    simp [Conn.accepted, Conn.hasInput] at hin
  | client connected timeout =>
    rw [ngxeClient]
    dsimp only
    split
    · exact WakeInv.clientInit fun _ => hok _ _ _
    · refine of_stopped (fun _ => ?_) (by simp [resume, Conn.client, Event.idle])
      obtain ⟨hact, hnot, hpost⟩ := hok cfg.method connected timeout
      exact ⟨hact, hnot, hpost⟩

theorem WakeInv.step {i : Input} (hm : cfg.method = .clear) (h : WakeInv s)
    (hG : WakeupSafe s i) (hst : Step cfg s i t) : WakeInv t := by
  cases hst with
  | arrive b hb he => exact h.post rfl rfl rfl rfl
  | arriveEof he => exact h.post rfl rfl rfl rfl
  | hangup => exact h.post rfl rfl rfl rfl
  | @readEvent c hopen hr =>
    obtain ⟨hok, hi⟩ := h ⟨hopen, rfl⟩
    have ha : c.read.active = true := by
      rw [hm] at hr
      exact hok.notified (by simpa [Conn.readable] using hr)
    refine WakeInv.callReadHandler ?_ fun hh => ⟨ha, (hi hh).hasReader⟩
    exact ⟨fun _ => ha, fun _ => ha, fun _ hr => by simp [Conn.takeRead] at hr⟩
  | writeEvent hopen ha =>
    exact WakeInv.callWriteHandler (h.of_sameRead ⟨rfl, rfl, rfl, rfl, rfl⟩ id id)
  | @readTimer c hopen ht =>
    obtain ⟨⟨hact, hnot, hpost⟩, hi⟩ := h ⟨hopen, rfl⟩
    exact WakeInv.callReadHandler ⟨hact, hnot, hpost⟩ fun hh =>
      ⟨(hi hh).active, (hi hh).hasReader⟩
  | writeTimer hopen ht =>
    exact WakeInv.callWriteHandler (h.of_sameRead ⟨rfl, rfl, rfl, rfl, rfl⟩ id id)
  | enter => exact h.of_sameRead ⟨rfl, rfl, rfl, rfl, rfl⟩ (by simp) (by simp)
  | leave =>
    exact h.of_sameRead ⟨rfl, rfl, rfl, rfl, rfl⟩ (any_cons_of_not rfl) (any_cons_of_not rfl)
  | op p ok hf hopen => exact h.applyOp hm fun hs => ⟨hG.1 hs, hG.2 (.inl hs)⟩
  | @recv c cb rest err ok =>
    by_cases hl : Sys.Live ⟨c, .recv cb :: rest⟩
    · obtain ⟨hok, hi⟩ := h hl
      exact of_drained (readerRecv_drained hm hok) readerRecv_outcome fun _ hh =>
        ⟨(hi hh).active, (hi hh).hasReader⟩
    · have hmove : ReaderMove cb c (readerRecv cfg ok c cb err).1 := readerRecv_outcome.move
      rintro ⟨hopen, hfatal⟩
      simp only [resume, List.any_append, Bool.or_eq_false_iff] at hfatal
      refine absurd ⟨hmove.destroyed ▸ hopen, ?_⟩ hl
      simpa [Frame.fatal] using hfatal.2
  | @send c k cb rest r ok hr =>
    have h' : WakeInv ⟨c, rest⟩ :=
      h.of_sameRead ⟨rfl, rfl, rfl, rfl, rfl⟩ (any_cons_of_not rfl) (any_cons_of_not rfl)
    exact h'.of_writer (writerSend_outcome k r) id id
  | @ret c cb site rest ok =>
    cases site with
    | readerData =>
      refine h.afterReader hm (fun hopen hh hw => hG.2 (.inr ?_)) (afterReader_cases cfg ok c cb)
      simp [leavesReader, hopen, hh, hw]
    | writerDone k =>
      exact h.afterWriter hm (fun hb => hG.2 (.inl hb)) (afterWriter_cases cfg ok k c cb)
    | failed =>
      apply of_destroyed
      simp only [afterCallback, resume, ngxeClose]
      split <;> simp_all
    | connected =>
      exact h.of_sameRead ⟨rfl, rfl, rfl, rfl, rfl⟩ (any_cons_of_not rfl) (any_cons_of_not rfl)

/-- **No lost wake-up.** Whatever arrives and whatever the program does, as long as no
    reader is started over input that was already notified. -/
theorem wakeup_not_lost (cfg : Config) (hm : cfg.method = .clear) (s : Sys)
    (h : Reachable cfg WakeupSafe s) : NoLostWakeup s :=
  (h.invariant (fun _ => WakeInv.of_initial) fun _ _ _ hs hG => hs.step hm hG).noLostWakeup

/-- A reader started on a new connection, then a byte. -/
theorem wakeup_not_lost_first_byte :
    ∃ s, Reachable ⟨.clear, 4096, 4080⟩ WakeupSafe s ∧ NoLostWakeup s ∧
      s.stack = [] ∧ s.c.read.handler = .reader ∧ s.c.hasInput = true ∧ 0 < s.c.pending := by
  have hr : Reachable ⟨.clear, 4096, 4080⟩ WakeupSafe _ :=
    ⟨_, .accepted, .of_run [.op (.reader true 0) true, .leave, .arrive [97]] rfl⟩
  exact ⟨_, hr, wakeup_not_lost _ rfl _ hr, by decide⟩

/-- A byte that arrives while the program has stopped the reader is notified to
    `ngxe_dummy_handler`; started again, the reader is not told of it. -/
theorem wakeup_lost :
    ¬ ∀ cfg s, cfg.method = .clear → Reachable cfg Machine.always s → NoLostWakeup s := by
  intro h
  have hr : Reachable ⟨.clear, 4096, 4080⟩ Machine.always _ :=
    ⟨_, .accepted, .of_run [.op (.reader true 0) true, .leave, .arrive [97], .readEvent,
      .recv false true, .op .readerStop true, .ret true, .arrive [98], .readEvent,
      .enter, .op (.readerStart none) true, .leave] rfl⟩
  exact absurd (h _ _ rfl hr) (by decide)

end NginxEngine.XS
