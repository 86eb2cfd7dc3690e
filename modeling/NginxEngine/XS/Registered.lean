import NginxEngine.XS.Segments

/-!
# The read event of a reader stays registered

With a level-triggered event method `ngx_handle_read_event` takes an event that is ready away from
the method and brings one that is not ready back. `ngxe_reader_handler` calls it after every read
that returns bytes, but not when `c->recv` answers `NGX_AGAIN`: a read that fills the buffer
exactly leaves the event ready, so it is taken away, and if nothing more has come by the next read
the handler returns without bringing it back.

## Main definitions

- `OnlyReads` — callbacks make no call and leave nothing to be sent
- `Reading` — a reader waits for its event
- `LastRead` — what was read last in the present run of the handler
- `RegisteredSafe` — besides, `NGX_AGAIN` does not come after a read that filled the buffer

## Main results

- `read_registered` — in every run of safe steps the event is registered when the handler returns
- `read_unregistered` — after a read that fills the buffer it is not
-/

namespace NginxEngine.XS

variable {cfg : Config} {ok : Bool} {c c' : Conn} {cb : Nat} {s t : Sys} {i : Input}
  {svbuf : ReadBuffer} {greedy : Bool}

/-- Callbacks make no call on the connection, and the reader's leaves nothing to be sent. -/
def OnlyReads (s : Sys) : Input → Prop
  | .op (.setReadBuffer _) _ | .op (.setWriteBuffer _) _ | .op (.setMinLen _ _) _ => True
  | .op _ _ => False
  | .ret _ =>
    match s.stack with
    | .inCallback _ .readerData :: _ => s.c.wantsWriter = false
    | _ => True
  | _ => True

/-- What the last `c->recv` in the present run of the handler has returned. -/
inductive LastRead
  /-- There was none. -/
  | none
  /-- Fewer bytes than it was asked for. -/
  | short
  /-- All the bytes it was asked for; or the callback was called without a read, since the buffer
      had no free space. -/
  | full
deriving DecidableEq, Repr

/-- The length that `c->recv` is asked for. -/
def Conn.freeSpace (c : Conn) : Nat := (c.readerBuffer.map fun b => b.len - b.cur - 1).getD 0

/-- An event method that is greedy takes every read for a full one. -/
def noteRead (m : EventMethod) (s : Sys) (i : Input) (n : LastRead) : LastRead :=
  match i, s.stack with
  | .readEvent, _ | .readTimer, _ => .none
  | .recv err _, _ =>
    if err = true ∨ s.c.unread = [] then n
    else if m.greedy = true ∨ s.c.freeSpace ≤ s.c.unread.length then .full else .short
  | .ret _, .inCallback _ .readerData :: _ => if n = .none then .full else n
  | _, _ => n

/-- Besides, `c->recv` does not answer `NGX_AGAIN` when the last read in the same run of the
    handler was a full one. -/
def RegisteredSafe (s : Sys × LastRead) (i : Input) : Prop :=
  OnlyReads s.1 i ∧
  match i with
  | .recv err _ => err = true ∨ s.1.c.unread ≠ [] ∨ s.1.c.eof = true ∨ s.2 ≠ .full
  | _ => True

instance : Decidable (OnlyReads s i) := by
  unfold OnlyReads
  generalize s.stack = stk
  induction i with
  | op o ok => induction o <;> infer_instance
  | ret ok =>
    induction stk using List.casesOn with
    | nil => infer_instance
    | cons f rest =>
      induction f with
      | inCallback cb site => induction site <;> infer_instance
      | _ => infer_instance
  | _ => infer_instance

instance {s : Sys × LastRead} : Decidable (RegisteredSafe s i) := by
  unfold RegisteredSafe
  refine @instDecidableAnd _ _ inferInstance ?_
  induction i <;> infer_instance

/-- The reader is installed and the writer is not. -/
structure Conn.Reads (c : Conn) : Prop where
  reader : c.read.handler = .reader
  writer : c.write.handler = .dummy

/-- Control is in the event loop, and the reader waits for its event. -/
structure Reading (s : Sys) : Prop where
  stack : s.stack = []
  reads : s.c.Reads
  active : s.c.read.active = true

/-- `ngxe_reader_handler` is at `c->recv` or in its success callback. -/
def Frame.isReader : Frame → Bool
  | .recv _ | .inCallback _ .readerData => true
  | _ => false

/-- What the last read has to do with the event: it is not ready after a short read, and it is
    registered unless the last read was a full one. -/
structure Conn.ReadAs (c : Conn) (n : LastRead) : Prop where
  active : n ≠ .full → c.read.active = true
  ready : n = .short → c.read.ready = false

/-- Where the handler and the callbacks can be. -/
inductive ReadingAt (n : LastRead) : Sys → Prop
  | idle {c : Conn} (h : c.Reads) (ha : c.read.active = true) : ReadingAt n ⟨c, []⟩
  | outside {c : Conn} (h : c.Reads) (ha : c.read.active = true) : ReadingAt n ⟨c, [.outside]⟩
  | busy {c : Conn} {f : Frame} (h : c.Reads) (hf : f.isReader = true) (ha : c.ReadAs n) :
      ReadingAt n ⟨c, [f]⟩
  | dead {s : Sys} (h : s.Dead) : ReadingAt n s

/-- A level-triggered method has what is not ready registered, and nothing else. -/
theorem ngxHandleEvent_level_active {H : Type} {ev ev' : Event H}
    (h : ngxHandleEvent (.level greedy) ok ev = some ev') : ev'.active = !ev.ready := by
  simp only [ngxHandleEvent] at h
  split_ifs at h <;> cases h <;> grind

theorem handleRead_level (h : c.handleRead (.level greedy) ok = some c') :
    c'.read.ready = c.read.ready ∧ c'.read.active = !c.read.ready := by
  simp only [Conn.handleRead, Option.map_eq_some_iff] at h
  obtain ⟨rev, hr, rfl⟩ := h
  refine ⟨?_, ngxHandleEvent_level_active hr⟩
  show rev.ready = c.read.ready
  rw [ngxHandleEvent_eq hr]

theorem Conn.Reads.congr (h : c.Reads) (hr : c'.read.handler = c.read.handler)
    (hw : c'.write.handler = c.write.handler) : c'.Reads :=
  ⟨hr.trans h.reader, hw.trans h.writer⟩

theorem Conn.Reads.handleRead {m : EventMethod} (h : c.Reads)
    (hc : c.handleRead m ok = some c') : c'.Reads := by
  rw [handleRead_eq hc]
  exact h.congr rfl rfl

theorem Conn.readAs_full (c : Conn) : c.ReadAs .full :=
  ⟨fun h => absurd rfl h, fun hn => by cases hn⟩

namespace ReadingAt

variable {n : LastRead}

theorem failed {e : CbError} : ReadingAt n (resume (fail c cb e) []) := by
  refine .dead ⟨.inr ⟨_, _, rfl, rfl⟩, fun f hf => .inl ?_⟩
  obtain rfl := List.mem_singleton.mp hf
  rfl

theorem crash : ReadingAt n ⟨c, [.crash]⟩ := by
  refine .dead ⟨.inr ⟨_, _, rfl, rfl⟩, fun f hf => .inr ?_⟩
  exact List.mem_singleton.mp hf

theorem recvAgain (h : c.Reads) (ha : c.ReadAs n) :
    ReadingAt n (resume (recvAgain cfg c cb svbuf) []) := by
  rw [XS.recvAgain]
  split
  · exact .busy (h.congr rfl rfl) rfl ⟨ha.active, ha.ready⟩
  · exact .busy (h.congr rfl rfl) rfl ⟨ha.active, ha.ready⟩

/-- Registration: after it the event is registered or ready, and a short read leaves the
    former. -/
theorem registered {c₁ : Conn} (hm : cfg.method = .level greedy)
    (h₁ : c.handleRead cfg.method ok = some c₁) (h : c.Reads)
    (hn : n = .full ∨ n = .short ∧ c.read.ready = false) :
    c₁.Reads ∧ c₁.ReadAs n ∧ (c₁.read.ready = false → c₁.read.active = true) := by
  rw [hm] at h₁
  obtain ⟨hready, hactive⟩ := handleRead_level h₁
  have hidle : c₁.read.ready = false → c₁.read.active = true := by
    intro hr
    rw [hactive, ← hready, hr]
    rfl
  refine ⟨h.handleRead h₁, ?_, hidle⟩
  rcases hn with rfl | ⟨rfl, hr⟩
  · exact c₁.readAs_full
  · exact ⟨fun _ => hidle (hready.trans hr), fun _ => hready.trans hr⟩

theorem readerHandler {ev : Event ReadHandler} (h : c.Reads) (ha : c.read.active = true) :
    ReadingAt .none (resume (ngxeReaderHandler cfg c ev) []) := by
  rw [ngxeReaderHandler]
  split
  · exact .idle h ha
  · exact .idle h ha
  · split
    · exact .failed
    · exact .recvAgain (h.congr rfl rfl) ⟨fun _ => ha, fun hn => by cases hn⟩

theorem readHandler (h : c.Reads) (ha : c.read.active = true) :
    ReadingAt .none (resume (callReadHandler cfg c) []) := by
  rw [callReadHandler, h.reader]
  exact .readerHandler h ha

theorem writeHandler (h : c.Reads) (ha : c.read.active = true) :
    ReadingAt n (resume (callWriteHandler c) []) := by
  rw [callWriteHandler, h.writer]
  exact .idle h ha

/-- A read that returns bytes was a full one, or it was short and the event is not ready. -/
theorem noteRead_data (m : EventMethod) (stk : List Frame) (ok : Bool) (n : LastRead)
    (hun : c.unread ≠ []) (hspace : c.freeSpace = svbuf.len - svbuf.cur - 1) :
    noteRead m ⟨c, stk⟩ (.recv false ok) n = .full ∨
      noteRead m ⟨c, stk⟩ (.recv false ok) n = .short ∧
        (c.read.ready && (m.greedy || decide (svbuf.len - svbuf.cur - 1 ≤
          (c.unread.take (svbuf.len - svbuf.cur - 1)).length))) = false := by
  have hnote : noteRead m ⟨c, stk⟩ (.recv false ok) n =
      if m.greedy = true ∨ c.freeSpace ≤ c.unread.length then .full else .short := by
    simp [noteRead, hun]
  rw [hnote]
  by_cases hfull : m.greedy = true ∨ c.freeSpace ≤ c.unread.length
  · exact .inl (if_pos hfull)
  · refine .inr ⟨if_neg hfull, ?_⟩
    rw [← hspace, List.length_take]
    obtain ⟨hgreedy, hshort⟩ := not_or.mp hfull
    have hlt : ¬ c.freeSpace ≤ min c.freeSpace c.unread.length := by omega
    simp [hgreedy, hlt]

/-- `ngxe_reader_handler` from `c->recv` on, after what was read before. -/
theorem recv {err : Bool} {rest : List Frame} (hm : cfg.method = .level greedy) (h : c.Reads)
    (ha : c.ReadAs n)
    (hsafe : err = true ∨ c.unread ≠ [] ∨ c.eof = true ∨ n ≠ .full) :
    ReadingAt (noteRead cfg.method ⟨c, .recv cb :: rest⟩ (.recv err ok) n)
      (resume (readerRecv cfg ok c cb err) []) := by
  rw [readerRecv]
  split
  · exact .crash
  next svbuf hb =>
  cases err with
  | true =>
    rw [ngxUnixRecv, if_pos rfl]
    exact .failed
  | false =>
  have hspace : c.freeSpace = svbuf.len - svbuf.cur - 1 := by simp [Conn.freeSpace, hb]
  have hstep := @ngxUnixRecv_step c cfg.method (svbuf.len - svbuf.cur - 1) false
  generalize ngxUnixRecv cfg.method c (svbuf.len - svbuf.cur - 1) false = p at hstep ⊢
  cases hstep with
  | error => exact .failed
  | eof => exact .failed
  | again herr hun heof =>
    -- the only exit of the handler that does not look at the registration
    have hactive : c.read.active = true := by
      rcases hsafe with he | hne | he | hn
      · cases he
      · exact absurd hun hne
      · exact absurd (heof.symm.trans he) (by decide)
      · exact ha.active hn
    exact .idle (h.congr rfl rfl) hactive
  | data hun =>
    have hnote := noteRead_data cfg.method (.recv cb :: rest) ok n hun hspace
    generalize noteRead cfg.method ⟨c, .recv cb :: rest⟩ (.recv false ok) n = n' at hnote ⊢
    dsimp only
    split
    · exact .failed
    next c₁ h₁ =>
    obtain ⟨hr₁, ha₁, -⟩ := registered hm h₁ (h.congr rfl rfl) hnote
    split
    · split
      · exact .failed
      next c₂ h₂ =>
      have hnote₁ : n' = .full ∨ n' = .short ∧ c₁.armRead.read.ready = false := by
        rcases hnote with hfull | ⟨hshort, -⟩
        · exact .inl hfull
        · exact .inr ⟨hshort, ha₁.ready hshort⟩
      obtain ⟨hr₂, ha₂, hidle⟩ := registered hm h₂ (hr₁.congr rfl rfl) hnote₁
      split
      · exact .recvAgain hr₂ ha₂
      · next hready => exact .idle (hr₂.congr rfl rfl) (hidle (Bool.eq_false_iff.mpr hready))
    · exact .busy (hr₁.congr rfl rfl) rfl ⟨ha₁.active, ha₁.ready⟩

/-- The return of the reader callback. -/
theorem afterReader (hm : cfg.method = .level greedy) (h : c.Reads) (ha : c.ReadAs n)
    (hw : c.wantsWriter = false) :
    ReadingAt (if n = .none then .full else n) (resume (afterReader cfg ok c cb) []) := by
  have hnote : (if n = .none then .full else n) = .full ∨
      (if n = .none then .full else n) = .short ∧ c.read.ready = false := by
    cases n with
    | none => exact .inl rfl
    | short => exact .inr ⟨rfl, ha.ready rfl⟩
    | full => exact .inl rfl
  generalize (if n = .none then LastRead.full else n) = n' at hnote ⊢
  rw [XS.afterReader]
  split
  · next hd => exact .dead ⟨.inl hd, by simp [resume]⟩
  split
  · next hdummy => exact absurd (hdummy.symm.trans h.reader) (by decide)
  split
  · next hnot => exact absurd h.writer hnot
  rw [hw, if_neg Bool.false_ne_true]
  split
  · exact .failed
  next c₁ h₁ =>
  obtain ⟨hr, ha₁, hidle⟩ := registered hm h₁ h hnote
  split
  · split
    · exact .recvAgain hr ha₁
    · exact .crash
  · next hready => exact .idle (hr.congr rfl rfl) (hidle (Bool.eq_false_iff.mpr hready))

/-- The program assigns to the buffers or to the required amount. -/
theorem assign {f : Frame} {rest : List Frame} (h : ReadingAt n ⟨c, f :: rest⟩)
    (hr : c'.read = c.read) (hw : c'.write = c.write) (hd : c'.destroyed = c.destroyed) :
    ReadingAt n ⟨c', f :: rest⟩ := by
  have hreads : c.Reads → c'.Reads := fun h => h.congr (by rw [hr]) (by rw [hw])
  cases h with
  | outside h ha => exact .outside (hreads h) (by rw [hr]; exact ha)
  | busy h hf ha =>
    refine .busy (hreads h) hf ⟨?_, ?_⟩
    · rw [hr]
      exact ha.active
    · rw [hr]
      exact ha.ready
  | dead h =>
    refine .dead ⟨?_, h.frames⟩
    rw [show (Sys.mk c' (f :: rest)).c.destroyed = c.destroyed from hd]
    exact h.dead

/-- Something arrives at the socket. -/
theorem arrive {stk : List Frame} (h : ReadingAt n ⟨c, stk⟩) (hr : c'.read = c.read)
    (hw : c'.write = c.write) (hd : c'.destroyed = c.destroyed) : ReadingAt n ⟨c', stk⟩ := by
  cases stk with
  | cons f rest => exact h.assign hr hw hd
  | nil =>
    cases h with
    | idle h ha => exact .idle (h.congr (by rw [hr]) (by rw [hw])) (by rw [hr]; exact ha)
    | dead h =>
      refine .dead ⟨?_, h.frames⟩
      rw [show (Sys.mk c' []).c.destroyed = c.destroyed from hd]
      exact h.dead

theorem step (hm : cfg.method = .level greedy) (h : ReadingAt n s) (hG : RegisteredSafe (s, n) i)
    (hs : Step cfg s i t) : ReadingAt (noteRead cfg.method s i n) t := by
  by_cases hdead : s.Dead ∧ ∀ o ok, i ≠ .op o ok
  · exact .dead (dead_step hdead.1 hdead.2 hs).1
  obtain ⟨hG, hsafe⟩ := hG
  -- events are for open connections only
  have hidle : ∀ {c : Conn}, s = ⟨c, []⟩ → (∀ o ok, i ≠ .op o ok) →
      c.Reads ∧ c.read.active = true := by
    rintro c rfl hno
    cases h with
    | idle h ha => exact ⟨h, ha⟩
    | dead h => exact absurd ⟨h, hno⟩ hdead
  cases hs with
  | arrive b hb he => exact h.arrive rfl rfl rfl
  | arriveEof he => exact h.arrive rfl rfl rfl
  | hangup => exact h.arrive rfl rfl rfl
  | @readEvent c hopen hr =>
    obtain ⟨hc, ha⟩ := hidle rfl (by simp)
    have hreads : c.takeRead.Reads := hc.congr rfl rfl
    exact .readHandler hreads ha
  | @readTimer c hopen hr =>
    obtain ⟨hc, ha⟩ := hidle rfl (by simp)
    have hreads : c.expireRead.Reads := hc.congr rfl rfl
    exact .readHandler hreads ha
  | @writeEvent c hopen ha =>
    obtain ⟨hc, ha⟩ := hidle rfl (by simp)
    have hreads : c.takeWrite.Reads := hc.congr rfl rfl
    exact .writeHandler hreads ha
  | @writeTimer c hopen ht =>
    obtain ⟨hc, ha⟩ := hidle rfl (by simp)
    have hreads : c.expireWrite.Reads := hc.congr rfl rfl
    exact .writeHandler hreads ha
  | enter =>
    obtain ⟨hc, ha⟩ := hidle rfl (by simp)
    exact .outside hc ha
  | leave =>
    cases h with
    | outside h ha => exact .idle h ha
    | busy h hf ha => cases hf
    | dead h => exact absurd ⟨h, by simp⟩ hdead
  | op o ok hf hopen =>
    cases o with
    | setReadBuffer b => exact h.assign rfl rfl rfl
    | setMinLen cb n => exact h.assign rfl rfl rfl
    | setWriteBuffer sv =>
      rw [applyOp]
      split
      · exact h.assign rfl rfl rfl
      · exact h
    | _ => exact hG.elim
  | recv err ok =>
    cases h with
    | busy h hf ha => exact .recv hm h ha hsafe
    | dead h => exact absurd ⟨h, by simp⟩ hdead
  | send r ok hr =>
    cases h with
    | busy h hf ha => cases hf
    | dead h => exact absurd ⟨h, by simp⟩ hdead
  | @ret c cb site rest ok =>
    cases h with
    | busy h hf ha =>
      cases site with
      | readerData => exact .afterReader hm h ha hG
      | writerDone k => cases hf
      | failed => cases hf
      | connected => cases hf
    | dead h => exact absurd ⟨h, by simp⟩ hdead

end ReadingAt

/-- In every run of safe steps the read event is registered when the handler has returned and the
    connection is open. -/
theorem read_registered (cfg : Config) (greedy : Bool) (s t : Sys) (n : LastRead)
    (hm : cfg.method = .level greedy) (h : Reading s)
    (hr : ((engine cfg).withNotes (noteRead cfg.method)).Reaches RegisteredSafe (s, .none) (t, n))
    (hstk : t.stack = []) (hopen : t.c.destroyed = false) : t.c.read.active = true := by
  obtain ⟨c, stk⟩ := s
  obtain rfl : stk = [] := h.stack
  have hat : ReadingAt n t := by
    refine hr.invariant (I := fun s => ReadingAt s.2 s.1) (.idle h.reads h.active)
      fun s i t h hG hs => ?_
    obtain ⟨hst, hn⟩ := Machine.step_withNotes hs
    rw [hn]
    exact h.step hm hG (step_cases hst)
  cases hat with
  | idle h ha => exact ha
  | outside h ha => cases hstk
  | busy h hf ha => cases hstk
  | dead h =>
    rcases h.dead with hd | ⟨f, rest, he, -⟩
    · exact absurd (hd.symm.trans hopen) (by decide)
    · cases hstk.symm.trans he

/-- A reader with an empty buffer of `len` bytes that waits for its event. -/
def Conn.reading (len : Nat) : Conn :=
  { Conn.accepted with
    read := { Event.idle .reader with active := true }
    readerCallback := some 0
    readerBuffer := some ⟨[], len⟩
    writerBuffer := some (.str [])
    callbacks := [⟨.reader, false, 0⟩] }

theorem reading_reading (len : Nat) : Reading ⟨.reading len, []⟩ := ⟨rfl, ⟨rfl, rfl⟩, rfl⟩

/-- A read that fills the buffer and a second one that does not, and a third one in the next run
    of the handler that finds nothing. -/
theorem read_registered_short :
    ∃ t n, ((engine ⟨.level false, 4096, 4080⟩).withNotes (noteRead (.level false))).Reaches
        RegisteredSafe (⟨.reading 4, []⟩, .none) (t, n) ∧
      t.stack = [] ∧ t.c.readerBuffer = some ⟨[100], 4⟩ ∧ t.c.read.active = true := by
  have hr : ((engine ⟨.level false, 4096, 4080⟩).withNotes (noteRead (.level false))).Reaches
      RegisteredSafe (⟨.reading 4, []⟩, .none) (_, _) :=
    .of_run [.arrive [97, 98, 99, 100], .readEvent, .recv false true,
      .op (.setReadBuffer ⟨[], 4⟩) true, .ret true, .recv false true, .ret true, .readEvent,
      .recv false true] rfl
  exact ⟨_, _, hr, rfl, rfl, read_registered _ false _ _ _ rfl (reading_reading 4) hr rfl rfl⟩

/-- A read fills the buffer exactly, so the event stays ready and is taken away; the callback
    empties the buffer, and the next read finds nothing. -/
theorem read_unregistered :
    ¬ ∀ cfg s t, cfg.method = .level false → Reading s →
      (engine cfg).Reaches OnlyReads s t → t.stack = [] → t.c.destroyed = false →
      t.c.read.active = true := by
  intro h
  have hr : (engine ⟨.level false, 4096, 4080⟩).Reaches OnlyReads ⟨.reading 4, []⟩ _ :=
    .of_run [.arrive [97, 98, 99], .readEvent, .recv false true,
      .op (.setReadBuffer ⟨[], 4⟩) true, .ret true, .recv false true] rfl
  exact absurd (h _ _ _ rfl (reading_reading 4) hr rfl rfl) (by decide)

end NginxEngine.XS
