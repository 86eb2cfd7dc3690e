import NginxEngine.PP.Units

/-!
# Idle sides

A side is idle from its last start, its last data or attempt to send, or the last time that its
callback was called. `CEV_TIMEOUTAT` is set at these times, or shortly after, and when the side is
created anew; it stays while the side is stopped. What a step does to the deadlines of a side is
told for each side: it is idle in the step, its event is stamped, a handler of it is pending, or it
is not active afterwards.

## Main definitions

- `dueIn` — the deadline of an event, if its timeout is enabled
- `readerActs`, `writerActs` — the steps that end an idle period
- `ReaderTurn`, `WriterTurn` — what a step is to a side

## Main results

- `reader_turn`, `writer_turn` — every step is one of these
-/

namespace NginxEngine.PP

open NginxEngine.XS (Bytes Sv)

variable {now t T d : Int} {v v' : View} {o : Outcome} {s s' : Sys} {f : Frame}
  {rest : List Frame} {ev : Option Nat} {events events' : List Ev} {args ty : EvType} {i j : Nat}

/-! ### Deadlines -/

/-- The deadline of an event; without a timeout it has none. -/
def Ev.due (e : Ev) : Option Int := if e.timeout = 0 then none else e.timeoutAt

def dueIn (events : List Ev) (i : Nat) : Option Int := (events[i]?).bind Ev.due

theorem due_of_expired {e : Ev} (he : events[i]? = some e) (hexp : e.expired t = true) :
    ∃ d, dueIn events i = some d ∧ d ≤ t := by
  rw [Ev.expired, Bool.and_eq_true] at hexp
  obtain ⟨d, hd, hle⟩ := (Option.any_eq_true _ _).mp hexp.2
  refine ⟨d, ?_, of_decide_eq_true hle⟩
  rw [dueIn, he, Option.bind_some, Ev.due, if_neg (of_decide_eq_true hexp.1)]
  exact hd

/-- The event was stamped at `now`. -/
def Fresh (now : Int) (events : List Ev) (i : Nat) : Prop :=
  ∀ e, events[i]? = some e → e.timeoutAt = some (now + e.timeout)

theorem Fresh.due (h : Fresh now events i) (hd : dueIn events i = some d) :
    ∃ T, T ≠ 0 ∧ timeoutIn events (some i) = some T ∧ d = now + T := by
  obtain ⟨e, he, hdue⟩ := Option.bind_eq_some_iff.mp hd
  rw [Ev.due] at hdue
  split at hdue
  · cases hdue
  · next hne =>
    refine ⟨e.timeout, hne, ?_, Option.some.inj (hdue.symm.trans (h e he))⟩
    rw [timeoutIn, Option.bind_some, he]
    rfl

theorem stamp_fresh (events : List Ev) (hev : ev = some i) : Fresh now (stamp now ev events) i := by
  subst hev
  intro e he
  rw [stamp, List.getElem?_modify_eq] at he
  obtain ⟨e', _, rfl⟩ := Option.map_eq_some_iff.mp he
  rfl

theorem stamp_ne (h : ev ≠ some i) : (stamp now ev events)[i]? = events[i]? := by
  cases ev with
  | none => rfl
  | some j =>
    have hne : j ≠ i := fun he => h (he ▸ rfl)
    rw [stamp, List.getElem?_modify_ne _ _ hne]

theorem limit_ne {timeout : Option Int} (h : ev ≠ some i) :
    (limit timeout ev events)[i]? = events[i]? := by
  rw [limit.eq_def]
  split
  · next j T =>
    have hne : j ≠ i := fun he => h (he ▸ rfl)
    rw [List.getElem?_modify_ne _ _ hne]
  · rfl

/-- A stamp of whatever event keeps it so. -/
theorem Fresh.stamp (h : Fresh now events i) : Fresh now (stamp now ev events) i := by
  by_cases hev : ev = some i
  · exact stamp_fresh events hev
  · rw [Fresh, stamp_ne hev]
    exact h

theorem append_fresh : Fresh now (events ++ [⟨ty, T, some (now + T)⟩]) events.length := by
  intro e he
  rw [List.getElem?_concat_length] at he
  cases he
  rfl

/-- A deadline of the event, if there is one, is the one that it had. -/
def Older (events events' : List Ev) (i : Nat) : Prop :=
  ∀ d, dueIn events' i = some d → dueIn events i = some d

theorem Older.of_eq (h : events'[i]? = events[i]?) : Older events events' i := by
  intro d hd
  rw [dueIn, h] at hd
  exact hd

theorem append_older {e : Ev} (h : i < events.length) : Older events (events ++ [e]) i :=
  .of_eq (List.getElem?_append_left h)

/-- A timeout is set that was not 0, or stays 0. -/
theorem limit_older (h : T ≠ 0 → timeoutIn events ev ≠ some 0) :
    Older events (limit (some T) ev events) i := by
  by_cases hev : ev = some i
  · subst hev
    intro d hd
    rw [dueIn, limit, List.getElem?_modify_eq] at hd
    obtain ⟨e', he', hdue⟩ := Option.bind_eq_some_iff.mp hd
    obtain ⟨e, he, rfl⟩ := Option.map_eq_some_iff.mp he'
    rw [Ev.due] at hdue
    split at hdue
    · cases hdue
    · next hne =>
      have hold : e.timeout ≠ 0 := by
        intro h0
        apply h hne
        rw [timeoutIn, Option.bind_some, he, Option.map_some, h0]
      rw [dueIn, he, Option.bind_some, Ev.due, if_neg hold]
      exact hdue
  · exact .of_eq (limit_ne hev)

/-! ### Activity -/

/-- The callback of an event of type `ty` is called, or one with its arguments. -/
def Obs.begins (ty : EvType) (events : List Ev) : Obs → Bool
  | .called ev args _ => decide (args = ty) || (events[ev]?).any fun e => decide (e.type = ty)
  | _ => false

/-- A callback of that kind is called in the step from `s` to `s'`. -/
def begun (ty : EvType) (s s' : Sys) : Bool :=
  (s'.v.trace.drop s.v.trace.length).any (Obs.begins ty s'.v.events)

/-- The reader is started: by the program, or by `_write` after its callback. -/
def startsReader (s : Sys) (i : Input) : Bool :=
  match i, s.stack with
  | .op (.reader start _), _ => start
  | .op (.readerStart _), _ | .op .writerStopReaderStart, _ => true
  | .ret, .writeDone false :: _ => !s.v.closed
  | _, _ => false

def Input.isData : Input → Bool
  | .sysread (.data _) => true
  | _ => false

def Input.sends : Input → Bool
  | .syswrite _ => true
  | _ => false

/-- The reader is started, data are received, or its callback is called. -/
def readerActs (s : Sys) (i : Input) (s' : Sys) : Bool :=
  startsReader s i || i.isData || begun .read s s'

/-- The writer is created and started. -/
def Input.createsWriter : Input → Bool
  | .op (.writer start _ _) => start
  | _ => false

/-- The writer is started, `syswrite` is called, or its callback is called. -/
def writerActs (s : Sys) (i : Input) (s' : Sys) : Bool :=
  startsWriter s i || i.createsWriter || i.sends || begun .write s s'

/-- No timeout is enabled while its side is active, and the accept loop calls no reader. -/
def EnabledAtRest (s : Sys) : Input → Prop
  | .op (.readerTimeout T) => s.v.rin = true → T ≠ 0 → readerTimeout s.v ≠ some 0
  | .op (.writerTimeout T) => s.v.win = true → T ≠ 0 → writerTimeout s.v ≠ some 0
  | .accept true => s.v.read.all (fun i => (s.v.events[i]?).any (·.type = .accept)) = true
  | _ => True

instance {i : Input} : Decidable (EnabledAtRest s i) := by
  unfold EnabledAtRest
  induction i with
  | op o => induction o <;> infer_instance
  | accept ok => induction ok using Bool.casesOn <;> infer_instance
  | _ => infer_instance

theorem begun_of_extends (h : Extends (Obs.begins ty s'.v.events · = false) s.v.trace s'.v.trace) :
    begun ty s s' = false := by
  obtain ⟨k, hk, hx⟩ := h
  rw [begun, hk, List.drop_left, List.any_eq_false]
  intro x hmem
  rw [hx x hmem]
  decide

theorem begun_of_not_called (h : Extends (·.isCalled = false) s.v.trace s'.v.trace) :
    begun ty s s' = false := by
  obtain ⟨k, hk, hx⟩ := h
  refine begun_of_extends ⟨k, hk, fun x hmem => ?_⟩
  have hcall := hx x hmem
  cases x with
  | called ev args err => cases hcall
  | _ => rfl

/-- Only callbacks of another kind are called. -/
theorem begun_of_callsOnly {p : EvType → Bool}
    (h : Extends (Obs.CallsOnly ev args) s.v.trace s'.v.trace) (hargs : args ≠ ty)
    (hev : ∀ i, ev = some i → s'.v.Holds p i) (hp : p ty = false) : begun ty s s' = false := by
  obtain ⟨k, hk, hx⟩ := h
  refine begun_of_extends ⟨k, hk, fun x hmem => ?_⟩
  cases x with
  | called i a err =>
    obtain ⟨hi, rfl⟩ := hx _ hmem i a err rfl
    obtain ⟨e, he, hty⟩ := (hev i hi).exists
    have hne : e.type ≠ ty := fun heq => absurd ((heq ▸ hty).symm.trans hp) (by decide)
    simp [Obs.begins, he, hargs, hne]
  | _ => rfl

/-- Code that serves an event of the other kind. -/
theorem Serves.begun {p : EvType → Bool} (h : Serves s.now ev args s.v o) (hargs : args ≠ ty)
    (hev : ∀ i, ev = some i → s.v.Holds p i) (hp : p ty = false) :
    begun ty s (s.resume o rest) = false := by
  have htypes : o.1.events.map Ev.type = s.v.events.map Ev.type := by
    rcases h.events with he | he
    · rw [he]
    · rw [he, stamp_types]
  refine begun_of_callsOnly h.calls hargs (fun i hi => ?_) hp
  show ((o.1.events.map Ev.type)[i]?).any p = true
  rw [htypes]
  exact hev i hi

/-! ### Handlers that are pending -/

/-- `_read` has something to report, or a callback runs that is followed by a close. -/
def Frame.pendsRead : Frame → Bool
  | .sysread _ total => decide (0 < total)
  | .readError _ | .timedout => true
  | _ => false

/-- `_write` waits or has died, or a callback runs that is followed by a close. -/
def Frame.pendsWrite : Frame → Bool
  | .syswrite _ _ | .crash | .timedout => true
  | _ => false

/-- `_read` has stamped the event, or will. -/
def ReadStamps (now : Int) (v : View) (o : Outcome) : Prop :=
  o.2.any Frame.pendsRead = true ∨ o.1.events = stamp now v.read v.events

/-- `_write` has stamped the event, or will. -/
def WriteStamps (now : Int) (v : View) (o : Outcome) : Prop :=
  o.2.any Frame.pendsWrite = true ∨ o.1.events = stamp now v.write v.events

theorem call_events {err : Int} : (v.call ev args err f).1.events = v.events := by
  cases ev <;> rfl

theorem readEnd_stamps {total : Nat} {error : Int} (h : 0 < total ∨ error ≠ 0) :
    ReadStamps now v (readEnd now v total error) := by
  refine .inr ?_
  rw [readEnd, if_neg (by omega)]
  dsimp only
  split
  · exact call_events
  · exact call_events

theorem readLoop_stamps {size : Int} {total : Nat} (h : 0 < total) :
    ReadStamps now v (readLoop now v size total) := by
  rw [readLoop]
  split
  · exact .inl (by simp [Frame.pendsRead, h])
  · exact readEnd_stamps (.inl h)

/-- Nothing was read yet. -/
theorem readLoop_zero {size : Int} : (readLoop now v size 0).1 = v := by
  rw [readLoop]
  split
  · rfl
  · rw [readEnd, if_pos ⟨rfl, rfl⟩]

theorem sysread_stamps {size : Int} {total : Nat} {r : ReadResult}
    (hr : r.answers size total = true) (h : 0 < total ∨ (r ≠ .again ∧ r ≠ .intr)) :
    ReadStamps now v (sysread now v size total r) := by
  cases r with
  | data b =>
    have hb : 0 < total + b.length := by
      rw [ReadResult.answers, Bool.and_eq_true, Bool.not_eq_true', List.isEmpty_eq_false_iff] at hr
      have := List.length_pos_iff.mpr hr.1
      omega
    exact readLoop_stamps hb
  | eof => exact readEnd_stamps (.inr (by decide))
  | again => exact readEnd_stamps (.inl (h.resolve_right fun hne => hne.1 rfl))
  | intr => exact readLoop_stamps (h.resolve_right fun hne => hne.2 rfl)
  | error => exact readEnd_stamps (.inr (by decide))

/-- `_read` stamps the event, or has nothing to report. -/
theorem read_stamps :
    ReadStamps now v (_read now v) ∨ (_read now v).1 = v.observe (.ran .read) := by
  rw [_read]
  split
  · next buf hbuf =>
    by_cases hlen : 0 < buf.length
    · exact .inl (readLoop_stamps hlen)
    · rw [Nat.eq_zero_of_not_pos hlen]
      exact .inr readLoop_zero
  · exact .inr rfl

/-- `_accept` at the head of its loop. -/
theorem acceptLoop_quiet (v : View) :
    Extends (·.isCalled = false) v.trace (_accept v).1.trace ∧ (_accept v).1.events = v.events := by
  rw [_accept]
  split
  · exact ⟨.snoc rfl, rfl⟩
  · exact ⟨.snoc rfl, rfl⟩

theorem writeEnd_stamps {offset : Nat} {error : Bool} :
    WriteStamps now v (writeEnd now v i offset error) := .inr call_events

theorem writeLoop_stamps {offset : Nat} : WriteStamps now v (writeLoop now v i offset) := by
  rw [writeLoop]
  split
  · exact .inl rfl
  · split
    · exact writeEnd_stamps
    · exact .inl rfl
    · exact .inl rfl

theorem write_stamps : WriteStamps now v (_write now v) := by
  have h : WriteStamps now { v.observe (.ran .write) with wind := firstIndex v } (_write now v) :=
    writeLoop_stamps
  exact h

theorem syswrite_stamps {offset : Nat} {r : WriteResult} :
    WriteStamps now v (syswrite now v i offset r) := by
  rw [syswrite]
  split
  · next b _ =>
    cases r with
    | accepted n =>
      dsimp only
      split
      · have h : WriteStamps now (v.observe (.sent ((b.drop offset).take n)))
          (writeLoop now (v.observe (.sent ((b.drop offset).take n))) (i + 1) 0) := writeLoop_stamps
        exact h
      · exact .inl rfl
    | again => exact .inr rfl
    | intr => exact .inl rfl
    | error => exact writeEnd_stamps
  · exact .inl rfl

/-! ### The reader -/

/-- What a step is to the reader. -/
inductive ReaderTurn (s : Sys) (i : Input) (s' : Sys) : Prop
  | idle (hacts : readerActs s i s' = false) (hrin : s'.v.rin = s.v.rin)
      (hread : ∀ j, s'.v.read = some j → s.v.read = some j ∨ Fresh s.now s'.v.events j)
      (hdue : s.v.rin = true → ∀ j, s.v.read = some j → Older s.v.events s'.v.events j)
  | stamped (h : ∀ j, s'.v.read = some j → Fresh s.now s'.v.events j)
  | pending (h : s'.stack.any Frame.pendsRead = true)
  | off (h : s'.v.rin = false)

namespace ReaderTurn

variable {inp : Input}

/-- The event of the reader is as it was. -/
theorem same (hstart : startsReader s inp = false) (hdata : inp.isData = false)
    (hcalls : begun .read s s' = false) (hrin : s'.v.rin = s.v.rin) (hread : s'.v.read = s.v.read)
    (hev : ∀ j, s.v.read = some j → s'.v.events[j]? = s.v.events[j]?) : ReaderTurn s inp s' := by
  refine .idle ?_ hrin (fun j hj => .inl (hread ▸ hj)) fun _ j hj => .of_eq (hev j hj)
  rw [readerActs, hstart, hdata, hcalls]
  rfl

/-- Nothing is done to the connection that has to do with the reader. -/
theorem rests (hstart : startsReader s inp = false) (hdata : inp.isData = false)
    (ht : Extends (·.isCalled = false) s.v.trace s'.v.trace) (hrin : s'.v.rin = s.v.rin)
    (hread : s'.v.read = s.v.read) (hev : s'.v.events = s.v.events) : ReaderTurn s inp s' :=
  .same hstart hdata (begun_of_not_called ht) hrin hread fun _ _ => by rw [hev]

/-- A handler of the writer runs. -/
theorem serves (h : WellFormed s) (hstart : startsReader s inp = false)
    (hdata : inp.isData = false) (ho : Serves s.now s.v.write args s.v o) (hargs : args ≠ .read)
    (hrin : o.1.rin = s.v.rin) (hread : o.1.read = s.v.read) :
    ReaderTurn s inp (s.resume o rest) := by
  refine .same hstart hdata (ho.begun hargs h.events.write rfl) hrin hread fun j hj => ?_
  show o.1.events[j]? = _
  rcases ho.events with he | he
  · rw [he]
  · rw [he, stamp_ne (h.events.ne hj)]

/-- `_read` has something to report. -/
theorem stamps (ho : ReadStamps s.now s.v o) (hread : o.1.read = s.v.read) :
    ReaderTurn s inp (s.resume o rest) := by
  rcases ho with ho | ho
  · refine .pending ?_
    show (o.2 ++ rest).any _ = true
    rw [List.any_append, ho]
    rfl
  · refine .stamped fun j hj => ?_
    show Fresh s.now o.1.events j
    rw [ho]
    exact stamp_fresh _ (hread.symm.trans hj)

theorem closes (h : WellFormed s) (hs : Step s inp s') (hc : s'.v.closed = true) :
    ReaderTurn s inp s' := .off ((wellFormed_step h hs).shut hc).rin

end ReaderTurn

/-- `_timedout` leaves its frame, or closes the connection. -/
theorem timedout_pends (he : v.events[i]?.isSome = true) :
    (_timedout v i).2 = [.timedout] ∨ (_timedout v i).1.closed = true := by
  obtain ⟨e, he⟩ := Option.isSome_iff_exists.mp he
  by_cases hty : e.type = .accept
  · have he' : (v.observe (.ran .timedout)).events[i]? = some e := he
    simp only [_timedout, he', if_pos hty]
    exact .inr (ngxeClose_closed _)
  · rw [timedout_eq he hty]
    exact .inl rfl

theorem ReaderTurn.timesOut {inp : Input} (h : WellFormed s) (he : s.v.events[i]?.isSome = true)
    (hs : Step s inp (s.resume (_timedout s.v i) rest)) :
    ReaderTurn s inp (s.resume (_timedout s.v i) rest) := by
  rcases timedout_pends he with hf | hc
  · refine .pending ?_
    show ((_timedout s.v i).2 ++ rest).any _ = true
    rw [hf]
    rfl
  · exact .closes h hs hc

/-- The first half of the loop's body. -/
theorem reader_firstHalf {fno : Nat} (h : WellFormed s) (ho : FirstHalf s.now s.t fno s.v o)
    (hs : Step s .dispatch (s.resume o [])) : ReaderTurn s .dispatch (s.resume o []) := by
  cases ho with
  | skip => exact .rests rfl rfl (.refl _) rfl rfl rfl
  | read =>
    rcases read_stamps with hst | heq
    · have hstamps : ReadStamps s.now s.v
          ((_read s.now s.v).1, (_read s.now s.v).2 ++ [.loop fno s.v.write]) := by
        refine hst.imp_left fun hp => ?_
        rw [List.any_append, hp]
        rfl
      exact .stamps hstamps read_piece.sides.read
    · refine .rests rfl rfl ?_ read_piece.sides.rin read_piece.sides.read ?_
      · show Extends _ s.v.trace (_read s.now s.v).1.trace
        rw [heq]
        exact .snoc rfl
      · show (_read s.now s.v).1.events = _
        rw [heq]
        rfl
  | accept =>
    refine .rests rfl rfl ?_ acceptLoop_piece.sides.rin acceptLoop_piece.sides.read ?_
    · exact (acceptLoop_quiet s.v).1
    · exact (acceptLoop_quiet s.v).2
  | timedout i e hread he hrin hexp => exact .timesOut h (by rw [he]; rfl) hs

theorem reader_secondHalf {wev : Option Nat} (h : WellFormed s)
    (ho : SecondHalf s.now s.t s.v s.v.win s.v.wout wev o)
    (hs : Step s .next (s.resume o rest)) : ReaderTurn s .next (s.resume o rest) := by
  have hstart : startsReader s .next = false := by simp [startsReader]
  cases ho with
  | skip => exact .rests hstart rfl (.refl _) rfl rfl rfl
  | write i e hwev he hty hout =>
    exact .serves h hstart rfl (write_serves rfl) (by decide) write_piece.sides.rin
      write_piece.sides.read
  | connect i e hwev he hty hout =>
    exact .serves h hstart rfl startConnect_serves (by decide) rfl rfl
  | timedout i e hwev he hwin hout hexp => exact .timesOut h (by rw [he]; rfl) hs

/-- A callback returns. -/
theorem reader_return (h : WellFormed s) (hstk : s.stack = f :: rest)
    (ho : afterCallback s.now s.v f = some o) (hs : Step s .ret (s.resume o rest)) :
    ReaderTurn s .ret (s.resume o rest) := by
  have hfinish : ∀ {error : Int}, startsReader s .ret = false →
      Step s .ret (s.resume (finishRead s.now s.v error) rest) →
      ReaderTurn s .ret (s.resume (finishRead s.now s.v error) rest) := by
    intro error hstart
    rw [finishRead]
    split
    · exact fun _ => .rests hstart rfl (.refl _) rfl rfl rfl
    split
    · exact fun hs => .closes h hs (ngxeClose_closed _)
    split
    · exact fun _ => .off write_piece.sides.rin
    · exact fun _ => .rests hstart rfl (.refl _) rfl rfl rfl
  revert hs
  cases f with
  | readData error =>
    have hstart : startsReader s .ret = false := by simp [startsReader, hstk]
    cases ho
    rw [afterData]
    split
    · exact fun _ => .rests hstart rfl (.refl _) rfl rfl rfl
    split
    · cases hread : s.v.read with
      | none => exact fun _ => .rests hstart rfl (.refl _) rfl rfl rfl
      | some j => exact fun _ => .pending rfl
    · exact hfinish hstart
  | readError error =>
    cases ho
    exact hfinish (by simp [startsReader, hstk])
  | writeDone error =>
    cases ho
    rw [afterWrite]
    split
    · next hc => exact fun hs => .closes h hs hc
    split
    · exact fun hs => .closes h hs (ngxeClose_closed _)
    · exact fun _ => .stamped fun j hj => stamp_fresh _ hj
  | timedout =>
    cases ho
    exact fun hs => .closes h hs (ngxeClose_closed _)
  | accepted =>
    cases ho
    exact fun _ => .rests (by simp [startsReader, hstk]) rfl (acceptLoop_quiet s.v).1
      acceptLoop_piece.sides.rin acceptLoop_piece.sides.read (acceptLoop_quiet s.v).2
  | connected error =>
    have hstart : startsReader s .ret = false := by simp [startsReader, hstk]
    cases ho
    rw [afterConnect]
    split
    · exact fun _ => .rests hstart rfl (.refl _) rfl rfl rfl
    split
    · exact fun hs => .closes h hs (ngxeClose_closed _)
    · exact fun _ => .rests hstart rfl (.refl _) rfl rfl rfl
  | _ => cases ho

/-- The program's calls call no callback of the reader. -/
theorem op_not_begun {op : Op} (h : WellFormed s)
    (hs : Step s (.op op) (s.resume (applyOp s.now s.v op) s.stack)) :
    begun .read s (s.resume (applyOp s.now s.v op) s.stack) = false := by
  have hok := (wellFormed_step h hs).events.write
  have happ := applied_cases s.now s.v op
  generalize applyOp s.now s.v op = o at hok happ ⊢
  cases happ with
  | plain ht => exact begun_of_not_called ht
  | @writes v' ht hw hon =>
    have ho : Serves s.now v'.write .write v' (_write s.now v') := write_serves rfl
    have hcalls : Extends (Obs.CallsOnly v'.write .write) s.v.trace v'.trace := by
      obtain ⟨k, hk, hx⟩ := ht
      exact ⟨k, hk, fun x hmem => callsOnly_of_not_called (hx x hmem)⟩
    refine begun_of_callsOnly (hcalls.trans ho.calls) (by decide) (fun j hj => ?_)
      (show EvType.writes .read = false from rfl)
    exact hok j (write_piece.sides.write.trans hj)

/-- A start of the writer leaves the other events alone. -/
theorem writerStart_other {timeout : Option Int} (hne : v.write ≠ some j) :
    (ngxeWriterStart now v timeout).1.events[j]? = v.events[j]? := by
  rw [writerStart_events, stamp_ne hne, limit_ne hne]

theorem reader_op {op : Op} (h : WellFormed s) (hG : EnabledAtRest s (.op op))
    (hs : Step s (.op op) (s.resume (applyOp s.now s.v op) s.stack)) :
    ReaderTurn s (.op op) (s.resume (applyOp s.now s.v op) s.stack) := by
  have hcalls := op_not_begun h hs
  have hne : ∀ j, s.v.read = some j → s.v.write ≠ some j := fun j hj => h.events.ne hj
  cases op with
  | reader start timeout =>
    refine .stamped fun j hj => ?_
    cases start with
    | true => exact stamp_fresh _ hj
    | false =>
      cases hj
      exact append_fresh
  | readerStart timeout => exact .stamped fun j hj => stamp_fresh _ hj
  | readerStop => exact .off rfl
  | readerStopWriterStart => exact .off write_piece.sides.rin
  | readerTimeout T =>
    refine .idle ?_ rfl (fun j hj => .inl hj) fun hrin j hj => limit_older (hG hrin)
    rw [readerActs, hcalls]
    rfl
  | writer start timeout buf =>
    have hlt : ∀ j, s.v.read = some j →
        (s.v.events ++ [⟨.write, seconds timeout, some (s.now + seconds timeout)⟩])[j]? =
          s.v.events[j]? := fun j hj => List.getElem?_append_left (h.events.read_lt hj)
    cases start with
    | true =>
      refine .same rfl rfl hcalls write_piece.sides.rin write_piece.sides.read fun j hj => ?_
      refine (writerStart_other fun hw => ?_).trans (hlt j hj)
      exact absurd (h.events.read_lt hj) (by rw [← Option.some.inj hw]; exact Nat.lt_irrefl _)
    | false => exact .same rfl rfl hcalls rfl rfl hlt
  | writerStart timeout =>
    exact .same rfl rfl hcalls write_piece.sides.rin write_piece.sides.read fun j hj =>
      writerStart_other (hne j hj)
  | writerStop => exact .same rfl rfl hcalls rfl rfl fun _ _ => rfl
  | writerStopReaderStart => exact .stamped fun j hj => stamp_fresh _ hj
  | writerTimeout T => exact .same rfl rfl hcalls rfl rfl fun j hj => limit_ne (hne j hj)
  | writerBufferSet data =>
    refine .same rfl rfl hcalls write_piece.sides.rin write_piece.sides.read fun j hj => ?_
    have hload : (s.v.load data).write ≠ some j := hne j hj
    exact writerStart_other hload
  | close => exact .closes h hs (ngxeClose_closed _)
  | setReadBuffer b => exact .same rfl rfl hcalls rfl rfl fun _ _ => rfl
  | setWriteBuffer sv =>
    revert hcalls
    rw [applyOp]
    split
    · exact fun hcalls => .same rfl rfl hcalls rfl rfl fun _ _ => rfl
    · exact fun hcalls => .same rfl rfl hcalls rfl rfl fun _ _ => rfl
  | setMinLen n => exact .same rfl rfl hcalls rfl rfl fun _ _ => rfl

/-- Nothing was read, and there is nothing to report. -/
theorem sysread_zero {size : Int} {r : ReadResult} (hr : r = .again ∨ r = .intr) :
    (sysread now v size 0 r).1 = v := by
  rcases hr with rfl | rfl
  · rw [sysread, readEnd, if_pos ⟨rfl, rfl⟩]
  · exact readLoop_zero

theorem reader_turn {inp : Input} (h : WellFormed s) (hG : EnabledAtRest s inp)
    (hs : Step s inp s') : ReaderTurn s inp s' := by
  have hs' := hs
  cases hs with
  | tick n | select r w hstk => exact .rests rfl rfl (.refl _) rfl rfl rfl
  | dispatch hstk hopen => exact reader_firstHalf h (firstHalf_cases ..) hs'
  | next hstk => exact reader_secondHalf h (secondHalf_cases ..) hs'
  | @sysread size total rest r hstk hr =>
    by_cases hdone : 0 < total ∨ (r ≠ .again ∧ r ≠ .intr)
    · exact .stamps (sysread_stamps hr hdone) sysread_piece.sides.read
    · obtain ⟨rfl, hr'⟩ : total = 0 ∧ (r = .again ∨ r = .intr) := by
        rw [not_or, not_and_or, not_not, not_not] at hdone
        exact ⟨Nat.eq_zero_of_not_pos hdone.1, hdone.2⟩
      have heq : (sysread s.now s.v size 0 r).1 = s.v := sysread_zero hr'
      have hdata : Input.isData (.sysread r) = false := by
        rcases hr' with rfl | rfl <;> rfl
      refine .rests rfl hdata ?_ sysread_piece.sides.rin sysread_piece.sides.read ?_
      · show Extends _ s.v.trace (sysread s.now s.v size 0 r).1.trace
        rw [heq]
        exact .refl _
      · show (sysread s.now s.v size 0 r).1.events = _
        rw [heq]
  | syswrite r hstk hr =>
    exact .serves h rfl rfl (syswrite_serves rfl) (by decide) syswrite_piece.sides.rin
      syswrite_piece.sides.read
  | accept ok hstk =>
    cases ok with
    | false => exact .rests rfl rfl (.refl _) rfl rfl rfl
    | true =>
      have ho : Serves s.now s.v.read .accept s.v (accept s.v true) := accept_serves rfl
      have hev : ∀ j, s.v.read = some j → s.v.Holds (fun ty => decide (ty = .accept)) j := by
        intro j hj
        rw [EnabledAtRest, hj] at hG
        rw [View.Holds, List.getElem?_map, Option.any_map]
        exact hG
      refine .same rfl rfl (ho.begun (by decide) hev rfl) accept_piece.sides.rin
        accept_piece.sides.read fun _ _ => ?_
      show (s.v.call s.v.read .accept 0 .accepted).1.events[_]? = _
      rw [call_events]
  | @connect limit error rest r hstk =>
    have hsides : (connect s.v limit error r).1.rin = s.v.rin ∧
        (connect s.v limit error r).1.read = s.v.read := by
      rcases @connect_piece s.v limit error r with hp | hp
      · exact ⟨hp.sides.rin, hp.sides.read⟩
      · exact ⟨hp.sides.rin, hp.sides.read⟩
    exact .serves h rfl rfl (connect_serves rfl) (by decide) hsides.1 hsides.2
  | ret hstk ho => exact reader_return h hstk ho hs'
  | enter hstk | leave hstk => exact .rests rfl rfl (.refl _) rfl rfl rfl
  | op o hstk hf hopen => exact reader_op h hG hs'

/-! ### The writer -/

/-- What a step is to the writer. The loop may have taken an event that is no longer in
    `CN_WRITE`, so the events of all writers are spoken of; it does not look at their deadlines
    while the connection is in `$wout`. -/
inductive WriterTurn (s : Sys) (i : Input) (s' : Sys) : Prop
  | idle (hacts : writerActs s i s' = false) (hwin : s'.v.win = s.v.win)
      (hwrite : ∀ j, s'.v.write = some j → s.v.write = some j ∨ Fresh s.now s'.v.events j)
      (hdue : s.v.win = true → ∀ j, s.v.Holds EvType.writes j → Older s.v.events s'.v.events j)
  | stamped (h : ∀ j, s'.v.write = some j → Fresh s.now s'.v.events j)
      (hloop : ∀ fno wev, .loop fno wev ∈ s'.stack → s'.v.win = true → s'.v.wout = true)
  | pending (h : s'.stack.any Frame.pendsWrite = true)
  | off (h : s'.v.win = false)

namespace WriterTurn

variable {inp : Input}

/-- The events of the writers are as they were. -/
theorem same (hstart : startsWriter s inp = false) (hnew : inp.createsWriter = false)
    (hsend : inp.sends = false) (hcalls : begun .write s s' = false) (hwin : s'.v.win = s.v.win)
    (hwrite : s'.v.write = s.v.write)
    (hev : ∀ j, s.v.Holds EvType.writes j → s'.v.events[j]? = s.v.events[j]?) :
    WriterTurn s inp s' := by
  refine .idle ?_ hwin (fun j hj => .inl (hwrite ▸ hj)) fun _ j hj => .of_eq (hev j hj)
  rw [writerActs, hstart, hnew, hsend, hcalls]
  rfl

/-- Nothing is done to the connection that has to do with the writer. -/
theorem rests (hstart : startsWriter s inp = false) (hnew : inp.createsWriter = false)
    (hsend : inp.sends = false) (ht : Extends (·.isCalled = false) s.v.trace s'.v.trace)
    (hwin : s'.v.win = s.v.win) (hwrite : s'.v.write = s.v.write)
    (hev : s'.v.events = s.v.events) : WriterTurn s inp s' :=
  .same hstart hnew hsend (begun_of_not_called ht) hwin hwrite fun _ _ => by rw [hev]

/-- The events of readers and writers are not the same. -/
theorem read_ne (h : WellFormed s) (hj : s.v.Holds EvType.writes j) : s.v.read ≠ some j := by
  intro hr
  obtain ⟨e, he, hreads⟩ := (h.events.read j hr).exists
  obtain ⟨e', he', hwrites⟩ := hj.exists
  cases he.symm.trans he'
  rw [EvType.writes_eq, hreads] at hwrites
  cases hwrites

/-- A handler of the reader runs. -/
theorem serves (h : WellFormed s) (hstart : startsWriter s inp = false)
    (hnew : inp.createsWriter = false) (hsend : inp.sends = false)
    (ho : Serves s.now s.v.read args s.v o) (hargs : args ≠ .write) (hsides : SameSides s.v o.1) :
    WriterTurn s inp (s.resume o rest) := by
  refine .same hstart hnew hsend (ho.begun hargs h.events.read rfl) hsides.win hsides.write
    fun j hj => ?_
  show o.1.events[j]? = _
  rcases ho.events with he | he
  · rw [he]
  · rw [he, stamp_ne (read_ne h hj)]

/-- `_write` runs on. -/
theorem stamps (ho : WriteStamps s.now s.v o) (hsides : SameSides s.v o.1)
    (hloop : ∀ fno wev, .loop fno wev ∈ o.2 ++ rest → s.v.win = true → s.v.wout = true) :
    WriterTurn s inp (s.resume o rest) := by
  rcases ho with ho | ho
  · refine .pending ?_
    show (o.2 ++ rest).any _ = true
    rw [List.any_append, ho]
    rfl
  · refine .stamped (fun j hj => ?_) fun fno wev hin hwin => ?_
    · show Fresh s.now o.1.events j
      rw [ho]
      exact stamp_fresh _ (hsides.write.symm.trans hj)
    · exact hsides.wout.trans (hloop fno wev hin (hsides.win.symm.trans hwin))

/-- The writer is started; its event was stamped before `_write` is called. -/
theorem starts {v₀ : View} (hout : v₀.wout = true)
    (hev : ∀ j, v₀.write = some j → Fresh s.now v₀.events j) :
    WriterTurn s inp (s.resume (_write s.now v₀) rest) := by
  have ho : Serves s.now v₀.write .write v₀ (_write s.now v₀) := write_serves rfl
  refine .stamped (fun j hj => ?_) fun _ _ _ _ => write_piece.sides.wout.trans hout
  have hfresh := hev j (write_piece.sides.write.symm.trans hj)
  show Fresh s.now (_write s.now v₀).1.events j
  rcases ho.events with he | he
  · rw [he]
    exact hfresh
  · rw [he]
    exact hfresh.stamp

theorem closes (h : WellFormed s) (hs : Step s inp s') (hc : s'.v.closed = true) :
    WriterTurn s inp s' := .off ((wellFormed_step h hs).shut hc).win

theorem timesOut (h : WellFormed s) (he : s.v.events[i]?.isSome = true)
    (hs : Step s inp (s.resume (_timedout s.v i) rest)) :
    WriterTurn s inp (s.resume (_timedout s.v i) rest) := by
  rcases timedout_pends he with hf | hc
  · refine .pending ?_
    show ((_timedout s.v i).2 ++ rest).any _ = true
    rw [hf]
    rfl
  · exact .closes h hs hc

end WriterTurn

theorem writer_firstHalf {fno : Nat} (h : WellFormed s) (ho : FirstHalf s.now s.t fno s.v o)
    (hs : Step s .dispatch (s.resume o [])) : WriterTurn s .dispatch (s.resume o []) := by
  cases ho with
  | skip => exact .rests rfl rfl rfl (.refl _) rfl rfl rfl
  | read =>
    have hserves : Serves s.now s.v.read .read s.v (_read s.now s.v) := read_serves rfl
    have hcalls : begun .write s (s.resume (_read s.now s.v) []) = false :=
      hserves.begun (by decide) h.events.read rfl
    refine .same rfl rfl rfl hcalls read_piece.sides.win read_piece.sides.write fun j hj => ?_
    show (_read s.now s.v).1.events[j]? = _
    rcases hserves.events with he | he
    · rw [he]
    · rw [he, stamp_ne (WriterTurn.read_ne h hj)]
  | accept =>
    exact .rests rfl rfl rfl (acceptLoop_quiet s.v).1 acceptLoop_piece.sides.win
      acceptLoop_piece.sides.write (acceptLoop_quiet s.v).2
  | timedout i e hread he hrin hexp => exact .timesOut h (by rw [he]; rfl) hs

theorem writer_secondHalf {wev : Option Nat} (h : WellFormed s)
    (ho : SecondHalf s.now s.t s.v s.v.win s.v.wout wev o)
    (hs : Step s .next (s.resume o [])) : WriterTurn s .next (s.resume o []) := by
  have hstart : startsWriter s .next = false := by simp [startsWriter]
  cases ho with
  | skip => exact .rests hstart rfl rfl (.refl _) rfl rfl rfl
  | write i e hwev he hty hout =>
    refine .stamps write_stamps write_piece.sides fun fno wev hin => ?_
    rw [List.append_nil] at hin
    exact absurd hin (not_loop_of_frames write_piece.frames)
  | connect i e hwev he hty hout => exact .rests hstart rfl rfl (.snoc rfl) rfl rfl rfl
  | timedout i e hwev he hwin hout hexp => exact .timesOut h (by rw [he]; rfl) hs

/-- The callback for data returns: `_read` reports an error, switches, or ends. -/
theorem writer_afterData {error : Int} (h : WellFormed s)
    (hstk : s.stack = .readData error :: rest)
    (hs : Step s .ret (s.resume (afterData s.now s.v error) rest)) :
    WriterTurn s .ret (s.resume (afterData s.now s.v error) rest) := by
  revert hs
  rw [afterData]
  split
  · next hcond =>
    refine fun _ => .rests ?_ rfl rfl (.refl _) rfl rfl rfl
    rcases (Bool.or_eq_true _ _).mp hcond with hc | hc
    · simp [startsWriter, hstk, View.switches, hc]
    · simp [startsWriter, hstk, View.switches, (Bool.not_eq_true' _).mp hc]
  split
  · next herr =>
    refine fun _ => .serves h ?_ rfl rfl (.call rfl) (by decide) (call_piece ?_).sides
    · simp [startsWriter, hstk, herr]
    · exact decide_eq_true herr
  next herr =>
  rw [finishRead]
  split
  · next hc =>
    refine fun _ => .rests ?_ rfl rfl (.refl _) rfl rfl rfl
    simp [startsWriter, hstk, View.switches, hc]
  split
  · exact fun hs => .closes h hs (ngxeClose_closed _)
  split
  · exact fun _ => .starts rfl fun j hj => stamp_fresh _ hj
  · next hcond =>
    refine fun _ => .rests ?_ rfl rfl (.refl _) rfl rfl rfl
    have hoff : (s.v.rout && wantsWriter s.v.wbuf) = false := eq_false_of_ne_true hcond
    simp [startsWriter, hstk, View.switches, Bool.and_assoc, hoff]

/-- A callback returns. -/
theorem writer_return (h : WellFormed s) (hstk : s.stack = f :: rest)
    (ho : afterCallback s.now s.v f = some o) (hs : Step s .ret (s.resume o rest)) :
    WriterTurn s .ret (s.resume o rest) := by
  revert hs
  cases f with
  | readData error =>
    cases ho
    exact fun hs => writer_afterData h hstk hs
  | readError error =>
    have hstart : startsWriter s .ret = false := by simp [startsWriter, hstk]
    have hsane : Frame.sane (.readError error) = true :=
      h.stack.sane _ (hstk ▸ List.mem_cons_self)
    have herr : error ≠ 0 := of_decide_eq_true hsane
    cases ho
    rw [finishRead]
    split
    · exact fun _ => .rests hstart rfl rfl (.refl _) rfl rfl rfl
    exact fun hs => .closes h hs (ngxeClose_closed _)
  | writeDone error =>
    cases ho
    rw [afterWrite]
    split
    · next hc => exact fun hs => .closes h hs hc
    split
    · exact fun hs => .closes h hs (ngxeClose_closed _)
    · exact fun _ => .off rfl
  | timedout =>
    cases ho
    exact fun hs => .closes h hs (ngxeClose_closed _)
  | accepted =>
    cases ho
    exact fun _ => .rests (by simp [startsWriter, hstk]) rfl rfl (acceptLoop_quiet s.v).1
      acceptLoop_piece.sides.win acceptLoop_piece.sides.write (acceptLoop_quiet s.v).2
  | connected error =>
    have hstart : startsWriter s .ret = false := by simp [startsWriter, hstk]
    cases ho
    rw [afterConnect]
    split
    · exact fun _ => .rests hstart rfl rfl (.refl _) rfl rfl rfl
    split
    · exact fun hs => .closes h hs (ngxeClose_closed _)
    · exact fun _ => .rests hstart rfl rfl (.refl _) rfl rfl rfl
  | _ => cases ho

theorem writer_op {op : Op} (h : WellFormed s) (hG : EnabledAtRest s (.op op))
    (hs : Step s (.op op) (s.resume (applyOp s.now s.v op) s.stack)) :
    WriterTurn s (.op op) (s.resume (applyOp s.now s.v op) s.stack) := by
  have hne : ∀ j, s.v.Holds EvType.writes j → s.v.read ≠ some j := fun j hj =>
    WriterTurn.read_ne h hj
  have hnone : ∀ {v' : View}, Extends (·.isCalled = false) s.v.trace v'.trace →
      begun .write s (s.resume (v', []) s.stack) = false := fun ht => begun_of_not_called ht
  cases op with
  | reader start timeout =>
    have hlt : ∀ j, s.v.Holds EvType.writes j →
        (s.v.events ++ [⟨.read, seconds timeout, some (s.now + seconds timeout)⟩])[j]? =
          s.v.events[j]? := fun j hj => List.getElem?_append_left hj.lt
    cases start with
    | true =>
      refine .same rfl rfl rfl (hnone (.refl _)) rfl rfl fun j hj => ?_
      show (stamp s.now (some s.v.events.length) (s.v.events ++ [_]))[j]? = _
      rw [stamp_ne fun he => absurd hj.lt (by rw [← Option.some.inj he]; exact Nat.lt_irrefl _)]
      exact hlt j hj
    | false => exact .same rfl rfl rfl (hnone (.refl _)) rfl rfl hlt
  | readerStart timeout =>
    refine .same rfl rfl rfl (hnone (.refl _)) rfl rfl fun j hj => ?_
    show (stamp s.now s.v.read (limit timeout s.v.read s.v.events))[j]? = _
    rw [stamp_ne (hne j hj), limit_ne (hne j hj)]
  | readerStop => exact .rests rfl rfl rfl (.refl _) rfl rfl rfl
  | readerStopWriterStart => exact .starts rfl fun j hj => stamp_fresh _ hj
  | readerTimeout T =>
    exact .same rfl rfl rfl (hnone (.refl _)) rfl rfl fun j hj => limit_ne (hne j hj)
  | writer start timeout buf =>
    cases start with
    | true => exact .starts rfl fun j hj => stamp_fresh _ hj
    | false =>
      refine .idle ?_ rfl (fun j hj => .inr ?_) fun _ j hj => append_older hj.lt
      · have hcalls : begun .write s (s.resume (applyOp s.now s.v (.writer false timeout buf))
            s.stack) = false := hnone (.snoc rfl)
        rw [writerActs, hcalls]
        rfl
      · cases hj
        exact append_fresh
  | writerStart timeout => exact .starts rfl fun j hj => stamp_fresh _ hj
  | writerStop | writerStopReaderStart => exact .off rfl
  | writerTimeout T =>
    refine .idle ?_ rfl (fun j hj => .inl hj) fun hwin j _ => limit_older (hG hwin)
    have hcalls : begun .write s (s.resume (applyOp s.now s.v (.writerTimeout T)) s.stack) =
        false := hnone (.refl _)
    rw [writerActs, hcalls]
    rfl
  | writerBufferSet data => exact .starts rfl fun j hj => stamp_fresh _ hj
  | close => exact .closes h hs (ngxeClose_closed _)
  | setReadBuffer b => exact .rests rfl rfl rfl (.refl _) rfl rfl rfl
  | setWriteBuffer sv =>
    rw [applyOp]
    split
    · exact .rests rfl rfl rfl (.snoc rfl) rfl rfl rfl
    · exact .rests rfl rfl rfl (.refl _) rfl rfl rfl
  | setMinLen n => exact .rests rfl rfl rfl (.refl _) rfl rfl rfl

/-- If the loop is under way and `_write` waits, the writer was started since the loop came to the
    connection, and is in `$wout`. -/
def StartedOut (s : Sys) : Prop :=
  s.stack.any Frame.isSyswrite = true → ∀ fno wev, .loop fno wev ∈ s.stack →
    s.v.win = true → s.v.wout = true

theorem writer_turn {inp : Input} (h : WellFormed s) (hsend : StartedOut s)
    (hG : EnabledAtRest s inp) (hs : Step s inp s') : WriterTurn s inp s' := by
  have hs' := hs
  cases hs with
  | tick n | select r w hstk => exact .rests rfl rfl rfl (.refl _) rfl rfl rfl
  | dispatch hstk hopen => exact writer_firstHalf h (firstHalf_cases ..) hs'
  | @next fno wev rest hstk =>
    obtain rfl : rest = [] := FloorOk.alone (hstk ▸ h.floor) rfl
    exact writer_secondHalf h (secondHalf_cases ..) hs'
  | sysread r hstk hr =>
    exact .serves h rfl rfl rfl (sysread_serves rfl) (by decide) sysread_piece.sides
  | syswrite r hstk hr =>
    refine .stamps syswrite_stamps syswrite_piece.sides fun fno wev hin => ?_
    refine hsend (by rw [hstk]; rfl) fno wev ?_
    rcases loop_mem_step hs' hin with hin | ⟨_, hd, _⟩
    · exact hin
    · cases hd
  | accept ok hstk =>
    exact .serves h rfl rfl rfl (accept_serves rfl) (by decide) accept_piece.sides
  | @connect limit error rest r hstk =>
    have ho := connect_cases s.v limit error r
    generalize connect s.v limit error r = o at ho ⊢
    cases ho with
    | waits | again limit error => exact .rests rfl rfl rfl (.refl _) rfl rfl rfl
    | calls error => exact .off (by cases s.v.write <;> rfl)
  | ret hstk ho => exact writer_return h hstk ho hs'
  | enter hstk | leave hstk => exact .rests rfl rfl rfl (.refl _) rfl rfl rfl
  | op o hstk hf hopen => exact writer_op h hG hs'

end NginxEngine.PP
