import NginxEngine.PP.Frames

/-!
# The unit of a timeout

`ngxe_reader` and `ngxe_writer` take a timeout in milliseconds and keep it in seconds. The calls
that start a side with a timeout, or set it, keep the number as it is, and `ngxe_reader_timeout`
and `ngxe_writer_timeout` return what was kept. The three ways agree about 0, which stands for no
timeout, and about nothing else.

## Main definitions

- `readerTimeout`, `writerTimeout` — what `ngxe_reader_timeout` and `ngxe_writer_timeout` return
- `readerDeadline`, `writerDeadline` — `CEV_TIMEOUTAT` of the two sides
- `noteSet` — a note of the timeout that was set last
- `OneUnit` — the three ways to set a timeout agree

## Main results

- `seconds_eq_self` — only 0 is the same in both units
- `one_unit` — the ways agree exactly where sides are created without a timeout
- `created_in_seconds` — a reader whose timeout is a thousandth of what was asked for
-/

namespace NginxEngine.PP

open NginxEngine.XS (Bytes Sv)

variable {now : Int} {v v' : View} {s s' : Sys} {ev : Option Nat} {events : List Ev} {i : Nat}
  {T : Int}

/-! ### Timeouts and deadlines of an event -/

/-- `$ev->[CEV_TIMEOUT]`. -/
def timeoutIn (events : List Ev) (ev : Option Nat) : Option Int :=
  (ev.bind (events[·]?)).map Ev.timeout

/-- `$ev->[CEV_TIMEOUTAT]`. -/
def deadlineIn (events : List Ev) (ev : Option Nat) : Option Int :=
  (ev.bind (events[·]?)).bind Ev.timeoutAt

/-- What `ngxe_reader_timeout` returns. -/
def readerTimeout (v : View) : Option Int := timeoutIn v.events v.read

/-- What `ngxe_writer_timeout` returns. -/
def writerTimeout (v : View) : Option Int := timeoutIn v.events v.write

def readerDeadline (v : View) : Option Int := deadlineIn v.events v.read

def writerDeadline (v : View) : Option Int := deadlineIn v.events v.write

theorem timeoutIn_of_fixed {events' : List Ev} (h : events'.map Ev.fixed = events.map Ev.fixed) :
    timeoutIn events' ev = timeoutIn events ev := by
  cases ev with
  | none => rfl
  | some i =>
    have hi := congrArg (fun l => (l[i]?).map Prod.snd) h
    simp only [List.getElem?_map, Option.map_map] at hi
    exact hi

theorem timeoutIn_limit_self (hlt : i < events.length) :
    timeoutIn (limit (some T) (some i) events) (some i) = some T := by
  simp [timeoutIn, limit, List.getElem?_eq_getElem hlt]

/-- A timeout that is set stays through a start without one. -/
theorem timeoutIn_limit_limit (hlt : i < events.length) :
    timeoutIn (limit none (some i) (limit (some T) (some i) events)) (some i) = some T := by
  rw [limit_none]
  exact timeoutIn_limit_self hlt

theorem timeoutIn_limit_ne {ev' : Option Nat} {timeout : Option Int}
    (h : ∀ i, ev' = some i → ev ≠ some i) :
    timeoutIn (limit timeout ev' events) ev = timeoutIn events ev := by
  rw [limit.eq_def]
  split
  · next i T =>
    cases ev with
    | none => rfl
    | some j =>
      have hne : i ≠ j := fun he => h i rfl (he ▸ rfl)
      simp [timeoutIn, hne]
  · rfl

theorem timeoutIn_append_lt {e : Ev} (h : ∀ i, ev = some i → i < events.length) :
    timeoutIn (events ++ [e]) ev = timeoutIn events ev := by
  cases ev with
  | none => rfl
  | some i =>
    show ((events ++ [e])[i]?).map Ev.timeout = _
    rw [List.getElem?_append_left (h i rfl)]
    rfl

theorem timeoutIn_append_self {e : Ev} :
    timeoutIn (events ++ [e]) (some events.length) = some e.timeout := by
  simp [timeoutIn]

/-- A stamped event is due when its timeout has passed. -/
theorem deadlineIn_stamp :
    deadlineIn (stamp now ev events) ev = (timeoutIn events ev).map (now + ·) := by
  cases ev with
  | none => rfl
  | some i =>
    show ((stamp now (some i) events)[i]?).bind Ev.timeoutAt = _
    rw [stamp, List.getElem?_modify_eq]
    show _ = (events[i]?.map Ev.timeout).map (now + ·)
    cases events[i]? <;> rfl

/-! ### The ways to set a timeout -/

theorem readerDeadline_start (timeout : Option Int) :
    readerDeadline (ngxeReaderStart now v timeout) =
      (timeoutIn (limit timeout v.read v.events) v.read).map (now + ·) := deadlineIn_stamp

theorem writerDeadline_start (timeout : Option Int) :
    writerDeadline (ngxeWriterStart now v timeout).1 =
      (timeoutIn (limit timeout v.write v.events) v.write).map (now + ·) := by
  have hw : (ngxeWriterStart now v timeout).1.write = v.write := write_piece.sides.write
  rw [writerDeadline, hw, writerStart_events, deadlineIn_stamp]

/-- The three ways lead to one deadline of the reader: it is created and started, now or later, it
    is started with the timeout, or the timeout is set before it is started. -/
structure ReaderDeadlines (now now₀ T : Int) (v : View) : Prop where
  created : readerDeadline (ngxeReader now v true T) =
    readerDeadline (ngxeReaderStart now v (some T))
  createdBefore : readerDeadline (ngxeReaderStart now (ngxeReader now₀ v false T) none) =
    readerDeadline (ngxeReaderStart now v (some T))
  set : readerDeadline (ngxeReaderStart now (ngxeReaderTimeout v T) none) =
    readerDeadline (ngxeReaderStart now v (some T))

/-- The same for the writer. -/
structure WriterDeadlines (now now₀ T : Int) (v : View) : Prop where
  created : ∀ buf, writerDeadline (ngxeWriter now v true T buf).1 =
    writerDeadline (ngxeWriterStart now v (some T)).1
  createdBefore : ∀ buf,
    writerDeadline (ngxeWriterStart now (ngxeWriter now₀ v false T buf).1 none).1 =
      writerDeadline (ngxeWriterStart now v (some T)).1
  set : writerDeadline (ngxeWriterStart now (ngxeWriterTimeout v T) none).1 =
    writerDeadline (ngxeWriterStart now v (some T)).1

theorem seconds_eq_self (T : Int) : seconds T = T ↔ T = 0 := by
  rw [seconds]
  refine ⟨fun h => ?_, fun h => by rw [h]; rfl⟩
  by_cases hneg : T + 500 < 0
  · rw [← neg_neg (T + 500), Int.neg_tdiv, Int.tdiv_eq_ediv_of_nonneg (by omega)] at h
    omega
  · rw [Int.tdiv_eq_ediv_of_nonneg (by omega)] at h
    omega

theorem readerDeadlines {now₀ : Int} (hread : ∃ i, v.read = some i ∧ i < v.events.length)
    (hT : seconds T = T) : ReaderDeadlines now now₀ T v := by
  obtain ⟨i, hi, hlt⟩ := hread
  have hstart : readerDeadline (ngxeReaderStart now v (some T)) = some (now + T) := by
    rw [readerDeadline_start, hi, timeoutIn_limit_self hlt]
    rfl
  have hcreated : ∀ now₀,
      readerDeadline (ngxeReaderStart now (createReader now₀ v T) none) = some (now + T) := by
    intro now₀
    rw [readerDeadline_start]
    show (timeoutIn (v.events ++ [_]) (some v.events.length)).map (now + ·) = _
    rw [timeoutIn_append_self]
    show some (now + seconds T) = _
    rw [hT]
  have hset : readerDeadline (ngxeReaderStart now (ngxeReaderTimeout v T) none) =
      some (now + T) := by
    rw [readerDeadline_start]
    show (timeoutIn (limit none v.read (limit (some T) v.read v.events)) v.read).map _ = _
    rw [hi, timeoutIn_limit_limit hlt]
    rfl
  exact ⟨(hcreated now).trans hstart.symm, (hcreated now₀).trans hstart.symm,
    hset.trans hstart.symm⟩

theorem writerDeadlines {now₀ : Int} (hwrite : ∃ i, v.write = some i ∧ i < v.events.length)
    (hT : seconds T = T) : WriterDeadlines now now₀ T v := by
  obtain ⟨i, hi, hlt⟩ := hwrite
  have hstart : writerDeadline (ngxeWriterStart now v (some T)).1 = some (now + T) := by
    rw [writerDeadline_start, hi, timeoutIn_limit_self hlt]
    rfl
  have hcreated : ∀ now₀ buf,
      writerDeadline (ngxeWriterStart now (createWriter now₀ v T buf) none).1 =
        some (now + T) := by
    intro now₀ buf
    rw [writerDeadline_start]
    show (timeoutIn (v.events ++ [_]) (some v.events.length)).map (now + ·) = _
    rw [timeoutIn_append_self]
    show some (now + seconds T) = _
    rw [hT]
  have hset : writerDeadline (ngxeWriterStart now (ngxeWriterTimeout v T) none).1 =
      some (now + T) := by
    rw [writerDeadline_start]
    show (timeoutIn (limit none v.write (limit (some T) v.write v.events)) v.write).map _ = _
    rw [hi, timeoutIn_limit_limit hlt]
    rfl
  exact ⟨fun buf => (hcreated now buf).trans hstart.symm,
    fun buf => (hcreated now₀ buf).trans hstart.symm, hset.trans hstart.symm⟩

/-! ### What was set last -/

/-- The timeouts that the program has set last, for its reader and its writer. -/
structure LastSet where
  read : Option Int
  write : Option Int
deriving DecidableEq, Repr

/-- Note what is set, through any of the three calls; a side that does not exist has no
    timeout. -/
def noteSet (s : Sys) (i : Input) (n : LastSet) : LastSet :=
  match i with
  | .op (.reader _ T) => { n with read := some T }
  | .op (.readerStart (some T)) | .op (.readerTimeout T) =>
    if s.v.read.isSome then { n with read := some T } else n
  | .op (.writer _ T _) => { n with write := some T }
  | .op (.writerStart (some T)) | .op (.writerTimeout T) =>
    if s.v.write.isSome then { n with write := some T } else n
  | _ => n

/-- Sides are created with timeouts that meet `C`. -/
def CreatedWith (C : Int → Prop) (_ : Sys × LastSet) : Input → Prop
  | .op (.reader _ T) | .op (.writer _ T _) => C T
  | _ => True

/-- The states of every run in which sides are created with such timeouts, with the timeouts that
    were set last. -/
def UnitReachable (C : Int → Prop) (p : Sys × LastSet) : Prop :=
  ∃ s₀, Initial s₀ ∧ (engine.withNotes noteSet).Reaches (CreatedWith C) (s₀, ⟨none, none⟩) p

/-- The ways to set a timeout that meets `C` agree about the deadline, and what was set last is
    returned. -/
structure OneUnit (C : Int → Prop) (p : Sys × LastSet) : Prop where
  reader : p.1.v.read.isSome = true → ∀ now now₀ T, C T → ReaderDeadlines now now₀ T p.1.v
  writer : p.1.v.write.isSome = true → ∀ now now₀ T, C T → WriterDeadlines now now₀ T p.1.v
  readerSet : p.1.v.closed = false → ∀ T, p.2.read = some T → readerTimeout p.1.v = some T
  writerSet : p.1.v.closed = false → ∀ T, p.2.write = some T → writerTimeout p.1.v = some T

/-- No timeout. -/
def NoTimeout (T : Int) : Prop := T = 0

instance {T : Int} : Decidable (NoTimeout T) := inferInstanceAs (Decidable (T = 0))

instance {C : Int → Prop} [∀ T, Decidable (C T)] {p : Sys × LastSet} {i : Input} :
    Decidable (CreatedWith C p i) := by
  unfold CreatedWith
  induction i with
  | op o => induction o <;> infer_instance
  | _ => infer_instance

/-- An open connection has kept what was set last. -/
structure SetKept (v : View) (n : LastSet) : Prop where
  read : v.closed = false → ∀ T, n.read = some T → timeoutIn v.events v.read = some T
  write : v.closed = false → ∀ T, n.write = some T → timeoutIn v.events v.write = some T

variable {n n' : LastSet}

theorem SetKept.kept (h : SetKept v n) (hk : Kept v v')
    (hc : v.closed = true → v'.closed = true) : SetKept v' n := by
  have hopen : v'.closed = false → v.closed = false := by
    intro ho
    by_contra hne
    exact absurd ((hc (eq_true_of_ne_false hne)).symm.trans ho) (by decide)
  have hsides : v'.closed = false → v'.read = v.read ∧ v'.write = v.write := by
    intro ho
    rcases hk.sides with hs | ⟨hshut, _⟩
    · exact hs
    · exact absurd (hshut.symm.trans ho) (by decide)
  refine ⟨fun ho T hT => ?_, fun ho T hT => ?_⟩
  · rw [timeoutIn_of_fixed hk.fixed, (hsides ho).1]
    exact h.read (hopen ho) T hT
  · rw [timeoutIn_of_fixed hk.fixed, (hsides ho).2]
    exact h.write (hopen ho) T hT

/-- A start that sets no timeout. -/
theorem restart_fixed (events : List Ev) :
    (stamp now ev (limit none ev events)).map Ev.fixed = events.map Ev.fixed := by
  rw [limit_none, stamp_fixed]

/-- Code that sets no timeout. -/
theorem SetKept.of_eq (h : SetKept v n) (hf : v'.events.map Ev.fixed = v.events.map Ev.fixed)
    (hr : v'.read = v.read) (hw : v'.write = v.write) (hc : v'.closed = v.closed) :
    SetKept v' n :=
  h.kept ⟨hf, .inl ⟨hr, hw⟩⟩ fun ho => hc.trans ho

theorem SetKept.run (h : SetKept v n) : SetKept (_write now v).1 n :=
  h.kept write_kept fun ho => write_piece.sides.closed.trans ho

theorem EventsOk.read_lt (h : EventsOk s) (hr : s.v.read = some i) : i < s.v.events.length :=
  (h.read i hr).lt

theorem EventsOk.write_lt (h : EventsOk s) (hw : s.v.write = some i) : i < s.v.events.length :=
  (h.write i hw).lt

theorem SetKept.startReader (h : SetKept v n) : SetKept (ngxeReaderStart now v none) n :=
  h.of_eq (restart_fixed _) rfl rfl rfl

theorem SetKept.startWriter (h : SetKept v n) : SetKept (ngxeWriterStart now v none).1 n := by
  have hstart : SetKept
      (({ v with win := true, wout := true }.setTimeout v.write none).touch now v.write) n :=
    h.of_eq (restart_fixed _) rfl rfl rfl
  exact hstart.run

/-- The timeout of the reader is set. -/
theorem SetKept.limitRead (h : SetKept s.v n) (he : EventsOk s)
    (hv : v'.events.map Ev.fixed = (limit (some T) s.v.read s.v.events).map Ev.fixed)
    (hr : v'.read = s.v.read) (hw : v'.write = s.v.write) (hc : v'.closed = s.v.closed) :
    SetKept v' (if s.v.read.isSome then { n with read := some T } else n) := by
  refine ⟨fun ho U hU => ?_, fun ho U hU => ?_⟩
  · rw [timeoutIn_of_fixed hv, hr]
    cases hread : s.v.read with
    | none =>
      rw [hread] at hU
      have hlast := h.read (hc ▸ ho) U hU
      rw [hread] at hlast
      cases hlast
    | some i =>
      rw [hread] at hU
      cases hU
      exact timeoutIn_limit_self (he.read_lt hread)
  · rw [timeoutIn_of_fixed hv, hw, timeoutIn_limit_ne fun i hi => he.ne hi]
    refine h.write (hc ▸ ho) U ?_
    cases hread : s.v.read with
    | none =>
      rw [hread] at hU
      exact hU
    | some i =>
      rw [hread] at hU
      exact hU

/-- The timeout of the writer is set. -/
theorem SetKept.limitWrite (h : SetKept s.v n) (he : EventsOk s)
    (hv : v'.events.map Ev.fixed = (limit (some T) s.v.write s.v.events).map Ev.fixed)
    (hr : v'.read = s.v.read) (hw : v'.write = s.v.write) (hc : v'.closed = s.v.closed) :
    SetKept v' (if s.v.write.isSome then { n with write := some T } else n) := by
  refine ⟨fun ho U hU => ?_, fun ho U hU => ?_⟩
  · have hne : ∀ i, s.v.write = some i → s.v.read ≠ some i := fun i hi hread => he.ne hread hi
    rw [timeoutIn_of_fixed hv, hr, timeoutIn_limit_ne hne]
    refine h.read (hc ▸ ho) U ?_
    cases hwrite : s.v.write with
    | none =>
      rw [hwrite] at hU
      exact hU
    | some i =>
      rw [hwrite] at hU
      exact hU
  · rw [timeoutIn_of_fixed hv, hw]
    cases hwrite : s.v.write with
    | none =>
      rw [hwrite] at hU
      have hlast := h.write (hc ▸ ho) U hU
      rw [hwrite] at hlast
      cases hlast
    | some i =>
      rw [hwrite] at hU
      cases hU
      exact timeoutIn_limit_self (he.write_lt hwrite)

theorem SetKept.createReader (h : SetKept s.v n) (he : EventsOk s) (hT : seconds T = T) :
    SetKept (createReader now s.v T) { n with read := some T } := by
  refine ⟨fun ho U hU => ?_, fun ho U hU => ?_⟩
  · cases hU
    show timeoutIn (s.v.events ++ [_]) (some s.v.events.length) = some T
    rw [timeoutIn_append_self]
    show some (seconds T) = some T
    rw [hT]
  · show timeoutIn (s.v.events ++ [_]) s.v.write = some U
    rw [timeoutIn_append_lt fun i hi => he.write_lt hi]
    exact h.write ho U hU

theorem SetKept.createWriter {buf : Sv} (h : SetKept s.v n) (he : EventsOk s)
    (hT : seconds T = T) : SetKept (createWriter now s.v T buf) { n with write := some T } := by
  refine ⟨fun ho U hU => ?_, fun ho U hU => ?_⟩
  · show timeoutIn (s.v.events ++ [_]) s.v.read = some U
    rw [timeoutIn_append_lt fun i hi => he.read_lt hi]
    exact h.read ho U hU
  · cases hU
    show timeoutIn (s.v.events ++ [_]) (some s.v.events.length) = some T
    rw [timeoutIn_append_self]
    show some (seconds T) = some T
    rw [hT]

theorem applyOp_setKept {op : Op} (h : SetKept s.v n) (he : EventsOk s)
    (hG : CreatedWith NoTimeout (s, n) (.op op)) :
    SetKept (applyOp s.now s.v op).1 (noteSet s (.op op) n) := by
  have hzero : ∀ {T}, NoTimeout T → seconds T = T := fun hT => (seconds_eq_self _).mpr hT
  cases op with
  | reader start timeout =>
    have hnew : SetKept (createReader s.now s.v timeout) { n with read := some timeout } :=
      h.createReader he (hzero hG)
    cases start with
    | true => exact hnew.startReader
    | false => exact hnew
  | readerStart timeout =>
    cases timeout with
    | none => exact h.startReader
    | some T => exact h.limitRead he (stamp_fixed _) rfl rfl rfl
  | readerStop => exact h.of_eq rfl rfl rfl rfl
  | readerStopWriterStart =>
    have hstart : SetKept ({ s.v with rin := false, rout := false, win := true, wout := true }.touch
        s.now s.v.write) n := h.of_eq (stamp_fixed _) rfl rfl rfl
    exact hstart.run
  | readerTimeout timeout => exact h.limitRead he rfl rfl rfl rfl
  | writer start timeout buf =>
    have hnew : SetKept (createWriter s.now s.v timeout buf) { n with write := some timeout } :=
      h.createWriter he (hzero hG)
    cases start with
    | true => exact hnew.startWriter
    | false => exact hnew
  | writerStart timeout =>
    cases timeout with
    | none => exact h.startWriter
    | some T =>
      have hstart : SetKept (({ s.v with win := true, wout := true }.setTimeout s.v.write
          (some T)).touch s.now s.v.write) (noteSet s (.op (.writerStart (some T))) n) :=
        h.limitWrite he (stamp_fixed _) rfl rfl rfl
      exact hstart.run
  | writerStop => exact h.of_eq rfl rfl rfl rfl
  | writerStopReaderStart => exact h.of_eq (stamp_fixed _) rfl rfl rfl
  | writerTimeout timeout => exact h.limitWrite he rfl rfl rfl rfl
  | writerBufferSet data =>
    have hload : SetKept (s.v.load data) n := h.of_eq rfl rfl rfl rfl
    exact hload.startWriter
  | close => exact h.kept (close_kept _) fun _ => ngxeClose_closed _
  | setReadBuffer b => exact h.of_eq rfl rfl rfl rfl
  | setWriteBuffer sv =>
    rw [applyOp]
    split
    · exact h.of_eq rfl rfl rfl rfl
    · exact h
  | setMinLen k => exact h.of_eq rfl rfl rfl rfl

theorem noteSet_of_ne {i : Input} (hi : ∀ o, i ≠ .op o) : noteSet s i n = n := by
  cases i with
  | op o => exact absurd rfl (hi o)
  | _ => rfl

theorem setKept_step {i : Input} (h : SetKept s.v n) (he : EventsOk s)
    (hG : CreatedWith NoTimeout (s, n) i) (hs : Step s i s') :
    SetKept s'.v (noteSet s i n) := by
  by_cases hi : ∀ o, i ≠ .op o
  · rw [noteSet_of_ne hi]
    exact h.kept (step_kept hs hi) fun hc => closed_step hc hs
  · cases hs with
    | op o hstk hf hopen => exact applyOp_setKept h he hG
    | _ => exact absurd (fun o he => by cases he) hi

theorem CreatedWith.mono {C D : Int → Prop} {p : Sys × LastSet} {i : Input}
    (hCD : ∀ T, C T → D T) (h : CreatedWith C p i) : CreatedWith D p i := by
  cases i with
  | op o =>
    cases o with
    | reader start timeout => exact hCD _ h
    | writer start timeout buf => exact hCD _ h
    | _ => trivial
  | _ => trivial

/-- Sides that are created without a timeout may be given one by the other calls. -/
theorem oneUnit_of_noTimeout {C : Int → Prop} {p : Sys × LastSet}
    (hC : ∀ T, C T → NoTimeout T) (h : UnitReachable C p) : OneUnit C p := by
  obtain ⟨s₀, h₀, h⟩ := h
  have hinv : EventsOk p.1 ∧ SetKept p.1.v p.2 := by
    refine h.invariant (I := fun p => EventsOk p.1 ∧ SetKept p.1.v p.2)
      ⟨eventsOk_initial h₀, nofun, nofun⟩ ?_
    intro p i p' hp hG hstep
    obtain ⟨hs, hn⟩ := Machine.step_withNotes hstep
    rw [hn]
    exact ⟨eventsOk_step hp.1 (step_cases hs),
      setKept_step hp.2 hp.1 (hG.mono hC) (step_cases hs)⟩
  obtain ⟨he, hset⟩ := hinv
  refine ⟨fun hr now now₀ T hT => ?_, fun hw now now₀ T hT => ?_, hset.read, hset.write⟩
  · obtain ⟨i, hi⟩ := Option.isSome_iff_exists.mp hr
    exact readerDeadlines ⟨i, hi, he.read_lt hi⟩ ((seconds_eq_self T).mpr (hC T hT))
  · obtain ⟨i, hi⟩ := Option.isSome_iff_exists.mp hw
    exact writerDeadlines ⟨i, hi, he.write_lt hi⟩ ((seconds_eq_self T).mpr (hC T hT))

/-- A reader that was created with `T` tells the units apart. -/
theorem seconds_of_oneUnit {C : Int → Prop} (hT : C T)
    (h : ∀ p, UnitReachable C p → OneUnit C p) : seconds T = T := by
  let s₀ : Sys := ⟨.accepted 3, 100, 100, [.outside]⟩
  let s : Sys := s₀.resume (applyOp 100 s₀.v (.reader true T)) s₀.stack
  have hreach : UnitReachable C (s, ⟨some T, none⟩) :=
    ⟨s₀, .accepted 100 100 3, .single (i := .op (.reader true T)) hT rfl⟩
  have hdeadline : some (100 + seconds T) = some (100 + T) :=
    ((h _ hreach).reader rfl 100 100 T hT).created
  have heq := Option.some.inj hdeadline
  omega

/-- **One unit.** The ways to set a timeout agree about the deadline, and what was set last is
    returned, in all runs that create readers and writers with timeouts of some kind, exactly if
    that kind is no timeout. -/
theorem one_unit (C : Int → Prop) :
    (∀ p : Sys × LastSet, UnitReachable C p → OneUnit C p) ↔ ∀ T, C T → NoTimeout T := by
  refine ⟨fun h T hT => ?_, fun hC p h => oneUnit_of_noTimeout hC h⟩
  exact (seconds_eq_self T).mp (seconds_of_oneUnit hT h)

/-- A reader and a writer are created without a timeout and are given one. -/
theorem one_unit_given : ∃ p : Sys × LastSet, UnitReachable NoTimeout p ∧ OneUnit NoTimeout p ∧
    p.1.v.closed = false ∧ p.2 = ⟨some 30, some 5⟩ := by
  obtain ⟨p, hr, hp⟩ := Machine.Reaches.of_run_map (M := engine.withNotes noteSet)
    (G := CreatedWith NoTimeout) (s := (⟨.accepted 3, 100, 100, [.outside]⟩, ⟨none, none⟩))
    (fun p => (p.1.v.closed, p.2))
    [.op (.reader true 0), .op (.writer false 0 .undef), .op (.readerTimeout 30),
      .op (.writerStart (some 5))]
    (show _ = some (false, ⟨some 30, some 5⟩) by decide +kernel)
  have hreach : UnitReachable NoTimeout p := ⟨_, .accepted 100 100 3, hr⟩
  exact ⟨p, hreach, (one_unit NoTimeout).mpr (fun _ hT => hT) p hreach, Prod.mk.inj hp⟩

/-- A reader is created with 1000 ms: its timeout is 1, and a start with 1000 would have set its
    deadline to 1000 seconds from now. -/
theorem created_in_seconds :
    ¬ ∀ p : Sys × LastSet, UnitReachable (fun _ => True) p → OneUnit (fun _ => True) p := by
  intro h
  obtain ⟨p, hr, hp⟩ := Machine.Reaches.of_run_map (M := engine.withNotes noteSet)
    (G := CreatedWith fun _ => True) (s := (⟨.accepted 3, 100, 100, [.outside]⟩, ⟨none, none⟩))
    (fun p => ((p.1.v.read.isSome, readerTimeout p.1.v, p.2),
      readerDeadline (ngxeReader 100 p.1.v true 1000),
      readerDeadline (ngxeReaderStart 100 p.1.v (some 1000))))
    [.op (.reader true 1000)]
    (show _ = some ((true, some 1, ⟨some 1000, none⟩), some 101, some 1100) by decide +kernel)
  simp only [Prod.mk.injEq] at hp
  obtain ⟨⟨hread, _, _⟩, hcreated, hstart⟩ := hp
  have hdeadline := ((h p ⟨_, .accepted 100 100 3, hr⟩).reader hread 100 100 1000 trivial).created
  rw [hcreated, hstart] at hdeadline
  exact absurd hdeadline (by decide)

end NginxEngine.PP
