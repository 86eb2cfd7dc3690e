import NginxEngine.PP.Segments

/-!
# What is read is delivered in order

`_read` appends what `sysread` returns to the read buffer and calls back with all of it. After
the last byte it may have an error or EOF to report as well, in a second call. The callback
takes the data and leaves the buffer empty, so no byte is delivered twice and the error comes
after all of them.

## Main definitions

- `noteSeen` — a note of what the callbacks for data have seen
- `TakesAll` — the callback takes the data and clears the buffer, and calls only functions of the
  reader after an error
- `Delivered` — the order of the data, and what follows an error

## Main results

- `read_delivered` — it is so in every run of such a program
-/

namespace NginxEngine.PP

open NginxEngine.XS (Bytes Sv)

variable {now t : Int} {v v' v₀ : View} {o : Outcome} {s s' : Sys} {l l' : List Obs} {x : Obs}
  {seen buf : Bytes} {f : Frame} {rest stk : List Frame}

/-! ### What the callback sees -/

/-- The callback of the reader is called with data. -/
def Obs.isData : Obs → Bool
  | .called _ .read 0 => true
  | _ => false

/-- The callback of the reader is called with an error. -/
def Obs.isReadError : Obs → Bool
  | .called _ .read err => decide (err ≠ 0)
  | _ => false

/-- All that `sysread` has returned. -/
def View.received (v : View) : Bytes := v.trace.flatMap Obs.input

/-- What was seen after the code that leads from `v` to `v'`: a callback for data sees the read
    buffer. -/
def seenAfter (v v' : View) (seen : Bytes) : Bytes :=
  if (v'.trace.drop v.trace.length).any Obs.isData then seen ++ v'.rbuf.getD [] else seen

/-- Note what the callbacks for data see. -/
def noteSeen (s : Sys) (i : Input) (seen : Bytes) : Bytes :=
  match step s i with
  | some s' => seenAfter s.v s'.v seen
  | none => seen

/-- A callback is running that was called with an error. -/
def Frame.isError : Frame → Bool
  | .readError _ | .timedout => true
  | _ => false

def Sys.inError (s : Sys) : Bool := s.stack.head?.any Frame.isError

/-- A call that concerns the reader only. -/
def Op.readerOnly : Op → Bool
  | .readerStart _ | .readerStop | .readerTimeout _ | .setReadBuffer _ | .setMinLen _ => true
  | _ => false

/-- The callback for data takes it and clears `$_[2]`; nothing else is assigned to `$_[2]`. After
    an error the callback calls at most functions of the reader. -/
def TakesAll (s : Sys) : Input → Prop
  | .op (.setReadBuffer b) => b = []
  | .op o => s.inError = true → o.readerOnly = true
  | .ret =>
    match s.stack with
    | .readData _ :: _ => s.v.closed = true ∨ s.v.rbuf = some []
    | _ => True
  | _ => True

instance {i : Input} : Decidable (TakesAll s i) := by
  unfold TakesAll
  generalize s.stack = stk
  induction i with
  | op o => induction o <;> infer_instance
  | ret =>
    induction stk using List.casesOn with
    | nil => infer_instance
    | cons f rest => induction f <;> infer_instance
  | _ => infer_instance

/-- The runs of a connection with such a program, and what its callbacks have seen. -/
def DeliveryReachable (p : Sys × Bytes) : Prop :=
  ∃ s₀, Initial s₀ ∧ (engine.withNotes noteSeen).Reaches (fun p i => TakesAll p.1 i) (s₀, []) p

/-- What `_read` has got from `sysread` and not handed over yet. -/
def Sys.unseen (s : Sys) : Bytes :=
  match s.stack with
  | .sysread _ _ :: _ => s.v.rbuf.getD []
  | _ => []

/-- No error was reported to the callback of the reader. -/
def Clean (l : List Obs) : Prop := l.any Obs.isReadError = false

/-- No callback follows an error. -/
def ErrorLast (l : List Obs) : Prop := Everywhere (fun l x => x.isCalled = true → Clean l) l

structure Delivered (p : Sys × Bytes) : Prop where
  /-- What the callback has seen, and what a `_read` that runs will show it, is what was read. -/
  order : p.2 ++ p.1.unseen = p.1.v.received
  /-- When an error is reported, everything that was read was seen. -/
  error : p.1.v.trace.getLast?.any Obs.isReadError = true → p.2 = p.1.v.received
  /-- After an error the connection is closed, or the callback is still running. -/
  closes : ¬ Clean p.1.v.trace → p.1.v.closed = true ∨ p.1.inError = true
  /-- When it returns the connection is closed. -/
  returns : ∀ s', p.1.inError = true → step p.1 .ret = some s' → s'.v.closed = true
  last : ErrorLast p.1.v.trace

/-! ### The trace -/

theorem Clean.extend (h : Clean l) (ht : Extends (·.isReadError = false) l l') : Clean l' := by
  refine ht.invariant (Q := Clean) h fun l x hl hx => ?_
  rw [Clean, List.any_append, show l.any Obs.isReadError = false from hl, List.any_cons, hx]
  rfl

theorem Clean.errorLast (h : Clean l) : ErrorLast l := by
  rintro p x q rfl -
  rw [Clean, List.any_append, Bool.or_eq_false_iff] at h
  exact h.1

theorem Clean.call (h : Clean l) (x : Obs) : ErrorLast (l ++ [x]) :=
  Everywhere.append h.errorLast fun _ => h

theorem ErrorLast.extend (h : ErrorLast l) (ht : Extends (·.isCalled = false) l l') :
    ErrorLast l' := by
  refine ht.invariant (Q := ErrorLast) h fun l x hl hx => ?_
  refine Everywhere.append hl fun hcall => ?_
  exact absurd (hx.symm.trans hcall) (by decide)

theorem seenAfter_same (ht : Extends (·.isData = false) v.trace v'.trace) :
    seenAfter v v' seen = seen := by
  obtain ⟨k, hk, hdata⟩ := ht
  have hnone : k.any Obs.isData = false :=
    List.any_eq_false.mpr fun x hx => by simp [hdata x hx]
  rw [seenAfter, hk, List.drop_left, hnone]
  rfl

theorem seenAfter_data {ev : Nat} (ht : Extends (·.isData = false) v.trace l)
    (hl : v'.trace = l ++ [.called ev .read 0]) :
    seenAfter v v' seen = seen ++ v'.rbuf.getD [] := by
  obtain ⟨k, rfl, -⟩ := ht
  rw [seenAfter, hl, List.append_assoc, List.drop_left, List.any_append]
  simp [Obs.isData]

theorem received_same (ht : Extends (·.input = []) v.trace v'.trace) :
    v'.received = v.received := by
  obtain ⟨k, hk, hin⟩ := ht
  rw [View.received, hk, List.flatMap_append, List.flatMap_eq_nil_iff.mpr hin, List.append_nil]
  rfl

/-- What has nothing to do with the reader is neither read, nor seen, nor an error. -/
theorem apart_quiet (h : x.apart = true) :
    x.input = [] ∧ x.isData = false ∧ x.isReadError = false := by
  cases x with
  | received b => cases h
  | called ev args err =>
    cases args with
    | read => cases h
    | _ => exact ⟨rfl, rfl, rfl⟩
  | _ => exact ⟨rfl, rfl, rfl⟩

section Apart

variable (h : Extends (·.apart = true) l l')

include h

theorem extends_input : Extends (·.input = []) l l' := by
  obtain ⟨k, hk, hx⟩ := h
  exact ⟨k, hk, fun x hmem => (apart_quiet (hx x hmem)).1⟩

theorem extends_isData : Extends (·.isData = false) l l' := by
  obtain ⟨k, hk, hx⟩ := h
  exact ⟨k, hk, fun x hmem => (apart_quiet (hx x hmem)).2.1⟩

theorem extends_isReadError : Extends (·.isReadError = false) l l' := by
  obtain ⟨k, hk, hx⟩ := h
  exact ⟨k, hk, fun x hmem => (apart_quiet (hx x hmem)).2.2⟩

end Apart

/-! ### The invariant -/

/-- The callback for data is running. -/
def Frame.isReadData : Frame → Bool
  | .readData _ => true
  | _ => false

/-- No `_read` is running and no error was reported. What was read was seen, and the callback
    that saw it is running or has cleared the buffer. -/
structure Rested (v : View) (seen : Bytes) (stk : List Frame) : Prop where
  opened : v.closed = false
  seen : seen = v.received
  buffer : stk.any Frame.isReadData = true ∨ v.rbuf.getD [] = []
  clean : Clean v.trace
  aloof : stk.all Frame.aloof = true

/-- `_read` is running, with `buf` in the read buffer. -/
structure Reading (v : View) (seen buf : Bytes) (rest : List Frame) : Prop where
  opened : v.closed = false
  reader : v.read.isSome = true
  buffer : v.rbuf = some buf
  seen : seen ++ buf = v.received
  clean : Clean v.trace
  aloof : rest.all Frame.aloof = true

inductive Delivering (v : View) (seen : Bytes) : List Frame → Prop
  /-- `_read` waits for `sysread`. -/
  | reading {size : Int} {total : Nat} {rest : List Frame} (buf : Bytes)
      (h : Reading v seen buf rest) (hlen : buf.length = total) :
      Delivering v seen (.sysread size total :: rest)
  | rested {stk : List Frame} (h : Rested v seen stk) : Delivering v seen stk
  /-- A callback is running that was called with an error. -/
  | failing {f : Frame} {rest : List Frame} (hf : f.isError = true) (hopen : v.closed = false)
      (hseen : seen = v.received) (hlast : ErrorLast v.trace) : Delivering v seen (f :: rest)
  | shut {stk : List Frame} (hclosed : v.closed = true) (hoff : v.Off)
      (hseen : seen = v.received) (hlast : ErrorLast v.trace)
      (hstk : ∀ f ∈ stk, f.resumes = true ∨ f = .crash) : Delivering v seen stk

/-- A callback that has returned leaves a cleared buffer. -/
theorem Rested.pop (h : Rested v seen (f :: rest))
    (hf : f.isReadData = false ∨ v.rbuf.getD [] = []) : Rested v seen rest := by
  have haloof := h.aloof
  rw [List.all_cons, Bool.and_eq_true] at haloof
  refine ⟨h.opened, h.seen, ?_, h.clean, haloof.2⟩
  rcases hf with hf | hf
  · have hbuf := h.buffer
    rwa [List.any_cons, hf, Bool.false_or] at hbuf
  · exact .inr hf

/-- Code that has nothing to do with the reader, after a change that has not either. -/
theorem Rested.code (h : Rested v seen stk) (ho : Apart v' o)
    (hb : v'.rbuf.getD [] = v.rbuf.getD [] ∨ v'.rbuf.getD [] = [])
    (ht : Extends (·.apart = true) v.trace v'.trace) (hc : o.1.closed = v.closed) :
    Rested o.1 (seenAfter v o.1 seen) (o.2 ++ stk) := by
  have ht' : Extends (·.apart = true) v.trace o.1.trace := ht.trans ho.trace
  refine ⟨hc.trans h.opened, ?_, ?_, h.clean.extend (extends_isReadError ht'), ?_⟩
  · rw [seenAfter_same (extends_isData ht'), received_same (extends_input ht')]
    exact h.seen
  · rw [List.any_append, ho.rbuf]
    rcases h.buffer with hd | hnil
    · exact .inl (by rw [hd, Bool.or_true])
    · refine .inr ?_
      rcases hb with hb | hb
      · exact hb.trans hnil
      · exact hb
  · rw [List.all_append, ho.frames, h.aloof]
    rfl

theorem Rested.apart (h : Rested v seen stk) (ho : Apart v o) (hc : o.1.closed = v.closed) :
    Rested o.1 (seenAfter v o.1 seen) (o.2 ++ stk) :=
  h.code ho (.inl rfl) (.refl _) hc

/-- A change that has nothing to do with the reader. -/
theorem Rested.change (h : Rested v seen stk)
    (hb : v'.rbuf.getD [] = v.rbuf.getD [] ∨ v'.rbuf.getD [] = [])
    (ht : Extends (·.apart = true) v.trace v'.trace) (hc : v'.closed = v.closed) :
    Rested v' (seenAfter v v' seen) stk :=
  h.code (Apart.refl v') hb ht hc

theorem seenAfter_refl : seenAfter v v seen = seen := seenAfter_same (.refl _)

/-- The connection is closed. -/
theorem Delivering.close (hopen : v.closed = false) (hseen : seen = v.received)
    (hlast : ErrorLast v.trace) (ht : Extends (·.isData = false) v₀.trace v.trace)
    (hstk : ∀ f ∈ stk, f.resumes = true) :
    Delivering (ngxeClose v) (seenAfter v₀ (ngxeClose v) seen) stk := by
  have hclose : (ngxeClose v).trace = v.trace ++ [.closed] := by
    rw [ngxeClose, if_neg (by rw [hopen]; exact Bool.false_ne_true)]
    rfl
  have hdata : Extends (·.isData = false) v₀.trace (ngxeClose v).trace := by
    rw [hclose]
    exact ht.trans (.snoc rfl)
  have hinput : Extends (·.input = []) v.trace (ngxeClose v).trace := by
    rw [hclose]
    exact .snoc rfl
  refine .shut (ngxeClose_closed v) (ngxeClose_off fun hc => ?_) ?_ ?_ fun f hf => .inl (hstk f hf)
  · exact absurd (hopen.symm.trans hc) (by decide)
  · rw [seenAfter_same hdata, received_same hinput]
    exact hseen
  · rw [hclose]
    exact hlast.extend (.snoc rfl)

theorem Rested.close (h : Rested v seen stk) (hrest : ∀ f ∈ rest, f.resumes = true) :
    Delivering (ngxeClose v) (seenAfter v (ngxeClose v) seen) rest :=
  .close h.opened h.seen h.clean.errorLast (.refl _) hrest

/-- A call with an error is not one for data. -/
theorem isData_of_error {ev : Nat} {args : EvType} {err : Int} (herr : err ≠ 0) :
    Obs.isData (.called ev args err) = false := by
  rw [Obs.isData.eq_def]
  split
  · next heq =>
    cases heq
    exact absurd rfl herr
  · rfl

/-- A callback is called with an error. -/
theorem Delivering.fails {ev : Nat} {args : EvType} {err : Int} (hopen : v.closed = false)
    (hseen : seen = v.received) (hclean : Clean v.trace)
    (ht : Extends (·.isData = false) v₀.trace v.trace) (herr : err ≠ 0) (hf : f.isError = true) :
    Delivering (v.observe (.called ev args err))
      (seenAfter v₀ (v.observe (.called ev args err)) seen) (f :: rest) := by
  have hdata : Extends (·.isData = false) v.trace (v.observe (.called ev args err)).trace :=
    .snoc (isData_of_error herr)
  have hinput : Extends (·.input = []) v.trace (v.observe (.called ev args err)).trace := .snoc rfl
  refine .failing hf hopen ?_ (hclean.call _)
  rw [seenAfter_same (ht.trans hdata), received_same hinput]
  exact hseen

/-! ### `_read` and `_timedout` -/

theorem readEnd_delivering {total : Nat} {error : Int} (h : Reading v seen buf rest)
    (hlen : buf.length = total) (ht : Extends (·.isData = false) v₀.trace v.trace) :
    Delivering (readEnd now v total error).1 (seenAfter v₀ (readEnd now v total error).1 seen)
      ((readEnd now v total error).2 ++ rest) := by
  obtain ⟨ev, hev⟩ := Option.isSome_iff_exists.mp h.reader
  rw [readEnd]
  split
  · next hnone =>
    obtain rfl : buf = [] := List.length_eq_zero_iff.mp (hlen.trans hnone.2)
    rw [seenAfter_same ht]
    refine .rested ⟨h.opened, ?_, .inr ?_, h.clean, h.aloof⟩
    · rw [← h.seen, List.append_nil]
    · rw [h.buffer]
      rfl
  next hsome =>
  have hcall : ∀ err f, (v.touch now v.read).call (v.touch now v.read).read .read err f =
      ((v.touch now v.read).observe (.called ev .read err), [f]) := by
    intro err f
    rw [show (v.touch now v.read).read = some ev from hev]
    rfl
  dsimp only
  rw [hcall, hcall]
  split
  · -- the callback for data sees the buffer
    have hseen : seenAfter v₀ ((v.touch now v.read).observe (.called ev .read 0)) seen =
        v.received := by
      rw [seenAfter_data ht rfl, ← h.seen]
      show seen ++ v.rbuf.getD [] = seen ++ buf
      rw [h.buffer]
      rfl
    have hinput : Extends (·.input = []) v.trace
        ((v.touch now v.read).observe (.called ev .read 0)).trace := .snoc rfl
    have hclean : Extends (·.isReadError = false) v.trace
        ((v.touch now v.read).observe (.called ev .read 0)).trace := .snoc rfl
    refine .rested ⟨h.opened, ?_, .inl rfl, h.clean.extend hclean, h.aloof⟩
    rw [received_same hinput]
    exact hseen
  · next hzero =>
    have htotal : total = 0 := Nat.eq_zero_of_not_pos hzero
    obtain rfl : buf = [] := List.length_eq_zero_iff.mp (hlen.trans htotal)
    have herr : error ≠ 0 := fun he => hsome ⟨he, htotal⟩
    have hseen : seen = v.received := by rw [← h.seen, List.append_nil]
    exact .fails (f := .readError error) h.opened hseen h.clean ht herr rfl

theorem readLoop_delivering {size : Int} {total : Nat} (h : Reading v seen buf rest)
    (hlen : buf.length = total) (ht : Extends (·.isData = false) v₀.trace v.trace) :
    Delivering (readLoop now v size total).1 (seenAfter v₀ (readLoop now v size total).1 seen)
      ((readLoop now v size total).2 ++ rest) := by
  rw [readLoop]
  split
  · rw [seenAfter_same ht]
    exact .reading buf h hlen
  · exact readEnd_delivering h hlen ht

theorem sysread_delivering {size : Int} {total : Nat} {r : ReadResult}
    (h : Reading v seen buf rest) (hlen : buf.length = total) :
    Delivering (sysread now v size total r).1 (seenAfter v (sysread now v size total r).1 seen)
      ((sysread now v size total r).2 ++ rest) := by
  cases r with
  | data b =>
    have h' : Reading ({ v with rbuf := v.rbuf.map (· ++ b) }.observe (.received b)) seen (buf ++ b)
        rest := by
      refine ⟨h.opened, h.reader, ?_, ?_, h.clean.extend (.snoc rfl), h.aloof⟩
      · show v.rbuf.map (· ++ b) = some (buf ++ b)
        rw [h.buffer]
        rfl
      · have hrecv : View.received ({ v with rbuf := v.rbuf.map (· ++ b) }.observe (.received b)) =
            v.received ++ b := by
          simp [View.received, View.observe, Obs.input]
        rw [hrecv, ← h.seen, List.append_assoc]
    refine readLoop_delivering h' ?_ (.snoc rfl)
    rw [List.length_append, hlen]
  | eof | again => exact readEnd_delivering h hlen (.refl _)
  | intr => exact readLoop_delivering h hlen (.refl _)
  | error => exact readEnd_delivering h hlen (.refl _)

/-- `_read` is called with an empty buffer. -/
theorem read_delivering (h : Rested v seen stk) (hbuf : v.rbuf.getD [] = [])
    (hread : v.read.isSome = true) : Delivering (_read now v).1 (seenAfter v (_read now v).1 seen)
      ((_read now v).2 ++ stk) := by
  rw [_read]
  split
  · next buf hb =>
    obtain rfl : buf = [] := by
      have hb : v.rbuf = some buf := hb
      rwa [hb] at hbuf
    have hinput : Extends (·.input = []) v.trace (v.observe (.ran .read)).trace := .snoc rfl
    have h' : Reading (v.observe (.ran .read)) seen [] stk := by
      refine ⟨h.opened, hread, hb, ?_, h.clean.extend (.snoc rfl), h.aloof⟩
      rw [received_same hinput, List.append_nil]
      exact h.seen
    exact readLoop_delivering h' rfl (.snoc rfl)
  · exact .rested (h.apart ⟨rfl, .snoc rfl, rfl⟩ rfl)

theorem timedout_delivering (h : Rested v seen stk) (hstk : ∀ f ∈ stk, f.resumes = true)
    (ho : TimedOut v o) : Delivering o.1 (seenAfter v o.1 seen) (o.2 ++ stk) := by
  have hinput : Extends (·.input = []) v.trace (v.observe (.ran .timedout)).trace := .snoc rfl
  have hclean : Clean (v.observe (.ran .timedout)).trace := h.clean.extend (.snoc rfl)
  have hseen : seen = (v.observe (.ran .timedout)).received := by
    rw [received_same hinput]
    exact h.seen
  cases ho with
  | close => exact .close h.opened hseen hclean.errorLast (.snoc rfl) hstk
  | call ev args => exact .fails h.opened hseen hclean (.snoc rfl) (by decide) rfl
  | crash => exact .rested (h.apart ⟨rfl, .snoc rfl, rfl⟩ rfl)

/-! ### Steps -/

/-- The first half of the loop's body. -/
theorem dispatch_delivering {fno : Nat} (h : Rested v seen []) (ho : Dispatched now fno v o) :
    Delivering o.1 (seenAfter v o.1 seen) o.2 := by
  have hbuf : v.rbuf.getD [] = [] := h.buffer.resolve_left (by simp)
  have hloop : Rested v seen [.loop fno v.write] := ⟨h.opened, h.seen, .inr hbuf, h.clean, rfl⟩
  cases ho with
  | skip =>
    rw [seenAfter_refl]
    exact .rested hloop
  | read hread => exact read_delivering hloop hbuf hread
  | accept => exact .rested (hloop.apart acceptLoop_apart acceptLoop_piece.sides.closed)
  | timedout ho =>
    have htimed := timedout_delivering h (by simp) ho
    rwa [List.append_nil] at htimed

/-- The second half. -/
theorem dispatchWrite_delivering {wout : Bool} (h : Rested v seen stk)
    (hstk : ∀ f ∈ stk, f.resumes = true) (ho : DispatchedWrite now v wout o) :
    Delivering o.1 (seenAfter v o.1 seen) (o.2 ++ stk) := by
  cases ho with
  | skip => exact .rested (h.apart (.refl v) rfl)
  | write hout => exact .rested (h.apart write_apart write_piece.sides.closed)
  | connect => exact .rested (h.apart startConnect_apart startConnect_piece.sides.closed)
  | timedout ho => exact timedout_delivering h hstk ho

theorem connect_closed {limit : Nat} {error : Bool} {r : ConnectResult} :
    (connect v limit error r).1.closed = v.closed := by
  rcases @connect_piece v limit error r with hp | hp
  · exact hp.sides.closed
  · exact hp.sides.closed

/-- The code after a callback that was not called with an error. -/
theorem afterCallback_delivering (h : Rested v seen (f :: rest))
    (ho : afterCallback now v f = some o)
    (hG : ∀ error, f = .readData error → v.closed = true ∨ v.rbuf = some [])
    (hrest : ∀ f ∈ rest, f.resumes = true) :
    Delivering o.1 (seenAfter v o.1 seen) (o.2 ++ rest) := by
  have hopen : v.closed ≠ true := by
    rw [h.opened]
    exact Bool.false_ne_true
  cases f with
  | readData error =>
    cases ho
    have hbuf : v.rbuf = some [] := (hG error rfl).resolve_left hopen
    have h' : Rested v seen rest := h.pop (.inr (by rw [hbuf]; rfl))
    have hskip : Delivering v (seenAfter v v seen) ([] ++ rest) := .rested (h'.apart (.refl v) rfl)
    rw [afterData]
    split
    · exact hskip
    split
    · next herr =>
      cases hread : v.read with
      | none => exact .rested (h'.apart ⟨rfl, .refl _, rfl⟩ rfl)
      | some ev =>
        exact .fails (f := .readError error) h.opened h.seen h.clean (.refl _) herr rfl
    rw [finishRead, if_neg hopen, if_neg (not_not.mpr rfl)]
    split
    · -- the automatic switch to the writer
      exact .rested (h'.code write_apart (.inl rfl) (.refl _) write_piece.sides.closed)
    · exact hskip
  | readError error | timedout => exact absurd h.aloof (by simp [Frame.aloof])
  | writeDone error =>
    cases ho
    have h' : Rested v seen rest := h.pop (.inl rfl)
    rw [afterWrite, if_neg hopen]
    split
    · exact h'.close hrest
    · exact .rested (h'.change (.inl rfl) (.refl _) rfl)
  | accepted =>
    cases ho
    exact .rested ((h.pop (.inl rfl)).apart acceptLoop_apart acceptLoop_piece.sides.closed)
  | connected error =>
    cases ho
    have h' : Rested v seen rest := h.pop (.inl rfl)
    rw [afterConnect, if_neg hopen]
    split
    · exact h'.close hrest
    · exact .rested (h'.change (.inl rfl) (.refl _) rfl)
  | _ => cases ho

/-- The program's calls while no callback runs that was called with an error. -/
theorem applyOp_delivering {op : Op} (h : Rested s.v seen stk) (hG : TakesAll s (.op op))
    (hstk : ∀ f ∈ stk, f.resumes = true) :
    Delivering (applyOp s.now s.v op).1 (seenAfter s.v (applyOp s.now s.v op).1 seen)
      ((applyOp s.now s.v op).2 ++ stk) := by
  have hkeep : ∀ {v'}, v'.rbuf.getD [] = s.v.rbuf.getD [] → v'.trace = s.v.trace →
      v'.closed = s.v.closed → Delivering v' (seenAfter s.v v' seen) ([] ++ stk) := by
    intro v' hb ht hc
    exact .rested (h.change (.inl hb) (by rw [ht]; exact .refl _) hc)
  -- the writer is started after a change of the view
  have hstart : ∀ {v' : View}, v'.rbuf.getD [] = s.v.rbuf.getD [] →
      Extends (·.apart = true) s.v.trace v'.trace → v'.closed = s.v.closed →
      Delivering (_write s.now v').1 (seenAfter s.v (_write s.now v').1 seen)
        ((_write s.now v').2 ++ stk) := by
    intro v' hb ht hc
    exact .rested (h.code write_apart (.inl hb) ht (write_piece.sides.closed.trans hc))
  cases op with
  | reader start timeout =>
    cases start with
    | true | false => exact hkeep rfl rfl rfl
  | readerStopWriterStart => exact hstart rfl (.refl _) rfl
  | writer start timeout buf =>
    cases start with
    | true => exact hstart rfl (.snoc rfl) rfl
    | false => exact .rested (h.change (.inl rfl) (.snoc rfl) rfl)
  | writerStart timeout => exact hstart rfl (.refl _) rfl
  | writerBufferSet data => exact hstart rfl (.snoc rfl) rfl
  | close => exact h.close hstk
  | setReadBuffer b =>
    refine .rested (h.change (.inr ?_) (.refl _) rfl)
    obtain rfl : b = [] := hG
    show (s.v.rbuf.map fun _ => []).getD [] = []
    cases s.v.rbuf with
    | none | some buf => rfl
  | setWriteBuffer sv =>
    rw [applyOp]
    split
    · exact .rested (h.change (.inl rfl) (.snoc rfl) rfl)
    · exact hkeep rfl rfl rfl
  | _ => exact hkeep rfl rfl rfl

/-- The program's calls in a callback that was called with an error. -/
theorem Delivering.failingOp {op : Op} (hf : f.isError = true) (hopen : s.v.closed = false)
    (hseen : seen = s.v.received) (hlast : ErrorLast s.v.trace) (hop : op.readerOnly = true) :
    Delivering (applyOp s.now s.v op).1 (seenAfter s.v (applyOp s.now s.v op).1 seen)
      ((applyOp s.now s.v op).2 ++ f :: rest) := by
  have hkeep : ∀ {v' : View}, v'.trace = s.v.trace → v'.closed = s.v.closed →
      Delivering v' (seenAfter s.v v' seen) ([] ++ f :: rest) := by
    intro v' ht hc
    refine .failing hf (hc.trans hopen) ?_ ?_
    · rw [seenAfter_same (by rw [ht]; exact .refl _), hseen, View.received, View.received, ht]
    · rw [ht]
      exact hlast
  cases op with
  | readerStart timeout | readerStop | readerTimeout timeout | setReadBuffer b | setMinLen n =>
    exact hkeep rfl rfl
  | _ => cases hop

/-- A callback that was called with an error returns. -/
theorem afterCallback_error (hopen : v.closed = false) (hf : f.isError = true)
    (hsane : f.sane = true) (ho : afterCallback now v f = some o) : o = (ngxeClose v, []) := by
  cases f with
  | readError error =>
    cases ho
    rw [finishRead, if_neg (by rw [hopen]; exact Bool.false_ne_true),
      if_pos (of_decide_eq_true hsane)]
  | timedout =>
    cases ho
    rfl
  | _ => cases hf

theorem rested_step {i : Input} (h : Rested s.v seen s.stack) (hstack : StackOk s.stack)
    (hG : TakesAll s i) (hs : Step s i s') :
    Delivering s'.v (seenAfter s.v s'.v seen) s'.stack := by
  cases hs with
  | tick n =>
    show Delivering s.v (seenAfter s.v s.v seen) s.stack
    rw [seenAfter_refl]
    exact .rested h
  | select r w hstk => exact .rested (h.change (.inl rfl) (.refl _) rfl)
  | dispatch hstk hopen =>
    rw [hstk] at h
    have hd := dispatch_delivering h (dispatch_cases s.now s.t (s.v.fileno.getD 0) s.v)
    show Delivering _ _ (_ ++ [])
    rwa [List.append_nil]
  | next hstk =>
    rw [hstk] at h
    exact dispatchWrite_delivering (h.pop (.inl rfl)) (hstack.under hstk) (dispatchWrite_cases ..)
  | sysread r hstk hr =>
    rw [hstk] at h
    exact absurd h.aloof (by simp [Frame.aloof])
  | syswrite r hstk hr =>
    rw [hstk] at h
    exact .rested ((h.pop (.inl rfl)).apart syswrite_apart syswrite_piece.sides.closed)
  | accept ok hstk =>
    rw [hstk] at h
    exact .rested ((h.pop (.inl rfl)).apart (accept_apart ok) accept_piece.sides.closed)
  | connect r hstk =>
    rw [hstk] at h
    exact .rested ((h.pop (.inl rfl)).apart connect_apart connect_closed)
  | @ret f rest o hstk ho =>
    have hcleared : ∀ error, f = .readData error → s.v.closed = true ∨ s.v.rbuf = some [] := by
      rintro error rfl
      rw [TakesAll, hstk] at hG
      exact hG
    rw [hstk] at h
    exact afterCallback_delivering h ho hcleared (hstack.under hstk)
  | enter hstk =>
    rw [hstk] at h
    show Delivering s.v (seenAfter s.v s.v seen) [.outside]
    rw [seenAfter_refl]
    exact .rested ⟨h.opened, h.seen, .inr (h.buffer.resolve_left (by simp)), h.clean, rfl⟩
  | leave hstk =>
    rw [hstk] at h
    show Delivering s.v (seenAfter s.v s.v seen) _
    rw [seenAfter_refl]
    exact .rested (h.pop (.inl rfl))
  | op o hstk hf hopen => exact applyOp_delivering h hG (hstack.perl hstk hf)

theorem reading_step {i : Input} {size : Int} {total : Nat}
    (h : Reading s.v seen buf rest) (hlen : buf.length = total)
    (hstk : s.stack = .sysread size total :: rest) (hs : Step s i s') :
    Delivering s'.v (seenAfter s.v s'.v seen) s'.stack := by
  have htop : ∀ {g rest'}, s.stack = g :: rest' → g = .sysread size total ∧ rest' = rest :=
    fun hg => List.cons.inj (hg.symm.trans hstk)
  have hne : s.stack ≠ [] := by
    rw [hstk]
    exact List.cons_ne_nil _ _
  cases hs with
  | tick n =>
    show Delivering s.v (seenAfter s.v s.v seen) s.stack
    rw [seenAfter_refl, hstk]
    exact .reading buf h hlen
  | sysread r hstk' hr =>
    obtain ⟨hf, rfl⟩ := htop hstk'
    cases hf
    exact sysread_delivering h hlen
  | select r w hstk' | dispatch hstk' hopen | enter hstk' => exact absurd hstk' hne
  | next hstk' | syswrite r hstk' hr | accept ok hstk' | connect r hstk' | leave hstk' =>
    cases (htop hstk').1
  | ret hstk' ho =>
    obtain ⟨rfl, -⟩ := htop hstk'
    cases ho
  | op o hstk' hf hopen =>
    obtain ⟨rfl, -⟩ := htop hstk'
    cases hf

theorem failing_step {i : Input} (hf : f.isError = true) (hopen : s.v.closed = false)
    (hseen : seen = s.v.received) (hlast : ErrorLast s.v.trace) (hstk : s.stack = f :: rest)
    (hstack : StackOk s.stack) (hG : TakesAll s i) (hs : Step s i s') :
    Delivering s'.v (seenAfter s.v s'.v seen) s'.stack := by
  have htop : ∀ {g rest'}, s.stack = g :: rest' → g = f ∧ rest' = rest :=
    fun hg => List.cons.inj (hg.symm.trans hstk)
  have hne : s.stack ≠ [] := by
    rw [hstk]
    exact List.cons_ne_nil _ _
  have hsane : f.sane = true := hstack.sane f (by rw [hstk]; exact List.mem_cons_self)
  cases hs with
  | tick n =>
    show Delivering s.v (seenAfter s.v s.v seen) s.stack
    rw [seenAfter_refl, hstk]
    exact .failing hf hopen hseen hlast
  | ret hstk' ho =>
    obtain ⟨rfl, rfl⟩ := htop hstk'
    obtain rfl := afterCallback_error hopen hf hsane ho
    exact .close hopen hseen hlast (.refl _) (hstack.under hstk)
  | @op f' rest' o hstk' hperl hopen' =>
    have hop : o.readerOnly = true := by
      have herr : s.inError = true := by
        rw [Sys.inError, hstk]
        exact hf
      cases o with
      | setReadBuffer b => rfl
      | _ => exact hG herr
    show Delivering _ _ (_ ++ s.stack)
    rw [hstk]
    exact .failingOp hf hopen hseen hlast hop
  | select r w hstk' | dispatch hstk' hopen' | enter hstk' => exact absurd hstk' hne
  | next hstk' =>
    obtain ⟨rfl, -⟩ := htop hstk'
    cases hf
  | sysread r hstk' hr =>
    obtain ⟨rfl, -⟩ := htop hstk'
    cases hf
  | syswrite r hstk' hr =>
    obtain ⟨rfl, -⟩ := htop hstk'
    cases hf
  | accept ok hstk' =>
    obtain ⟨rfl, -⟩ := htop hstk'
    cases hf
  | connect r hstk' =>
    obtain ⟨rfl, -⟩ := htop hstk'
    cases hf
  | leave hstk' =>
    obtain ⟨rfl, -⟩ := htop hstk'
    cases hf

/-- Nothing is called any more on a closed connection. -/
theorem shut_step {i : Input} (hclosed : s.v.closed = true) (hoff : s.v.Off)
    (hseen : seen = s.v.received) (hlast : ErrorLast s.v.trace)
    (hstk : ∀ f ∈ s.stack, f.resumes = true ∨ f = .crash) (hs : Step s i s') :
    Delivering s'.v (seenAfter s.v s'.v seen) s'.stack := by
  have htop : ∀ {g rest'}, s.stack = g :: rest' → g.resumes = true ∨ g = .crash := by
    intro g rest' hg
    exact hstk g (by rw [hg]; exact List.mem_cons_self)
  have hkeep : ∀ {stk'}, (∀ f ∈ stk', f.resumes = true ∨ f = .crash) →
      Delivering s.v (seenAfter s.v s.v seen) stk' := by
    intro stk' hstk'
    rw [seenAfter_refl]
    exact .shut hclosed hoff hseen hlast hstk'
  have hunder : ∀ {g rest'}, s.stack = g :: rest' → ∀ f ∈ rest', f.resumes = true ∨ f = .crash := by
    intro g rest' hg f hf
    exact hstk f (by rw [hg]; exact List.mem_cons_of_mem g hf)
  cases hs with
  | tick n => exact hkeep hstk
  | select r w hnil =>
    have hsel : (s.select r w).v.Off := ⟨hoff.1, by show (s.v.win && w) = false; rw [hoff.1]; rfl⟩
    have hsame : seenAfter s.v (s.select r w).v seen = seen := seenAfter_same (.refl _)
    rw [hsame]
    exact .shut hclosed hsel hseen hlast hstk
  | dispatch hnil hopen => exact absurd (hclosed.symm.trans hopen) (by decide)
  | next hg =>
    rw [hoff.1, hoff.2, dispatchWrite_idle]
    exact hkeep (hunder hg)
  | sysread r hg hr | syswrite r hg hr | accept ok hg | connect r hg =>
    rcases htop hg with hf | hf <;> cases hf
  | @ret f rest o hg ho =>
    by_cases hf : f = .accepted
    · subst hf
      cases ho
      have haccept : _accept s.v = (s.v.observe (.ran .accept), [.crash]) := by
        rw [_accept, if_pos (by exact hclosed)]
      have hinput : Extends (·.input = []) s.v.trace (s.v.observe (.ran .accept)).trace :=
        .snoc rfl
      have hdata : Extends (·.isData = false) s.v.trace (s.v.observe (.ran .accept)).trace :=
        .snoc rfl
      rw [haccept]
      refine .shut hclosed hoff ?_ (hlast.extend (.snoc rfl)) fun g hg' => ?_
      · show seenAfter s.v (s.v.observe (.ran .accept)) seen = (s.v.observe (.ran .accept)).received
        rw [seenAfter_same hdata, received_same hinput]
        exact hseen
      · rcases List.mem_cons.mp hg' with rfl | hg'
        · exact .inr rfl
        · exact hunder hg g hg'
    · obtain rfl := afterCallback_idle ho hf hclosed
      exact hkeep (hunder hg)
  | enter hnil => exact hkeep (by simp [Frame.resumes, Frame.isPerl])
  | leave hg => exact hkeep (hunder hg)
  | op o hg hf hopen =>
    rw [applyOp_idle hopen hclosed]
    exact hkeep hstk

theorem delivering_step {i : Input} (h : Delivering s.v seen s.stack) (hstack : StackOk s.stack)
    (hG : TakesAll s i) (hs : Step s i s') :
    Delivering s'.v (seenAfter s.v s'.v seen) s'.stack := by
  generalize hstk : s.stack = stk at h
  cases h with
  | reading buf h hlen => exact reading_step h hlen hstk hs
  | rested h => exact rested_step (hstk ▸ h) hstack hG hs
  | failing hf hopen hseen hlast => exact failing_step hf hopen hseen hlast hstk hstack hG hs
  | shut hclosed hoff hseen hlast hframes =>
    exact shut_step hclosed hoff hseen hlast (hstk ▸ hframes) hs

theorem delivering_initial (h : Initial s) : Delivering s.v [] s.stack := by
  cases h with
  | accepted now t fileno | server now t fileno | client now t fileno timeout =>
    exact .rested ⟨rfl, rfl, .inr rfl, rfl, rfl⟩

/-! ### Results -/

theorem delivering_of_reachable {p : Sys × Bytes} (h : DeliveryReachable p) :
    StackOk p.1.stack ∧ Delivering p.1.v p.2 p.1.stack := by
  obtain ⟨s₀, h₀, h⟩ := h
  refine h.invariant (I := fun p => StackOk p.1.stack ∧ Delivering p.1.v p.2 p.1.stack)
    ⟨stackOk_initial h₀, delivering_initial h₀⟩ ?_
  intro p i q hp hG hs
  obtain ⟨hstep, hnote⟩ := Machine.step_withNotes hs
  have hstep : step p.1 i = some q.1 := hstep
  rw [hnote, noteSeen, hstep]
  exact ⟨stackOk_step hp.1 (step_cases hstep), delivering_step hp.2 hp.1 hG (step_cases hstep)⟩

theorem Clean.getLast (h : Clean l) : l.getLast?.any Obs.isReadError = false := by
  cases hl : l.getLast? with
  | none => rfl
  | some x =>
    have hx := List.any_eq_false.mp h x (List.mem_of_getLast? hl)
    simpa using hx

/-- Away from `sysread` there is nothing that was not handed over. -/
theorem unseen_eq_nil (h : ∀ f rest, s.stack = f :: rest → f.aloof = true ∨ f.isError = true ∨
    f.resumes = true ∨ f = .crash) : s.unseen = [] := by
  rw [Sys.unseen]
  split
  · next size total rest hstk =>
    rcases h _ _ hstk with hf | hf | hf | hf <;> cases hf
  · rfl

theorem inError_aloof (h : s.stack.all Frame.aloof = true) : s.inError = false := by
  rw [Sys.inError]
  cases hstk : s.stack with
  | nil => rfl
  | cons f rest =>
    rw [hstk, List.all_cons, Bool.and_eq_true] at h
    show f.isError = false
    cases f with
    | readError error | timedout => cases h.1
    | _ => rfl

theorem order_of_unseen (hseen : seen = s.v.received) (hunseen : s.unseen = []) :
    seen ++ s.unseen = s.v.received := by
  rw [hunseen, List.append_nil]
  exact hseen

/-- The return from a callback that was called with an error closes the connection. -/
theorem error_ret_closes (hstk : s.stack = f :: rest) (hsane : f.sane = true)
    (hopen : s.v.closed = false) (hf : f.isError = true) (hs : Step s .ret s') :
    s'.v.closed = true := by
  cases hs with
  | ret hstk' ho =>
    obtain ⟨rfl, -⟩ := List.cons.inj (hstk'.symm.trans hstk)
    obtain rfl := afterCallback_error hopen hf hsane ho
    exact ngxeClose_closed _

/-- A return leaves a closed connection closed. -/
theorem ret_stays_closed (hclosed : s.v.closed = true) (hs : Step s .ret s') :
    s'.v.closed = true := by
  cases hs with
  | @ret f rest o hstk ho =>
    by_cases hf : f = .accepted
    · subst hf
      cases ho
      exact acceptLoop_piece.sides.closed.trans hclosed
    · obtain rfl := afterCallback_idle ho hf hclosed
      exact hclosed

theorem Delivering.delivered {p : Sys × Bytes} (hstack : StackOk p.1.stack)
    (h : Delivering p.1.v p.2 p.1.stack) : Delivered p := by
  obtain ⟨s, seen⟩ := p
  dsimp only at hstack h
  generalize hstk : s.stack = stk at h
  cases h with
  | @reading size total rest buf h hlen =>
    have herr : s.inError = false := by
      rw [Sys.inError, hstk]
      rfl
    have hunseen : s.unseen = buf := by
      rw [Sys.unseen, hstk]
      show s.v.rbuf.getD [] = buf
      rw [h.buffer]
      rfl
    refine ⟨?_, fun hl => ?_, fun hc => absurd h.clean hc, fun s' he => ?_, h.clean.errorLast⟩
    · show seen ++ s.unseen = _
      rw [hunseen]
      exact h.seen
    · exact absurd (h.clean.getLast.symm.trans hl) (by decide)
    · exact absurd (herr.symm.trans he) (by decide)
  | rested h =>
    rw [← hstk] at h
    have hunseen : s.unseen = [] := unseen_eq_nil fun f rest hg =>
      .inl (List.all_eq_true.mp h.aloof f (by rw [hg]; exact List.mem_cons_self))
    refine ⟨order_of_unseen h.seen hunseen, fun _ => h.seen, fun hc => absurd h.clean hc,
      fun s' he => ?_, h.clean.errorLast⟩
    exact absurd ((inError_aloof h.aloof).symm.trans he) (by decide)
  | @failing f rest hf hopen hseen hlast =>
    have hunseen : s.unseen = [] := by
      refine unseen_eq_nil fun g rest' hg => .inr (.inl ?_)
      obtain ⟨rfl, -⟩ := List.cons.inj (hg.symm.trans hstk)
      exact hf
    have hsane : f.sane = true := hstack.sane f (by rw [hstk]; exact List.mem_cons_self)
    refine ⟨order_of_unseen hseen hunseen, fun _ => hseen, fun _ => .inr ?_,
      fun s' _ hs => error_ret_closes hstk hsane hopen hf (step_cases hs), hlast⟩
    show s.inError = true
    rw [Sys.inError, hstk]
    exact hf
  | shut hclosed hoff hseen hlast hframes =>
    have hunseen : s.unseen = [] := by
      refine unseen_eq_nil fun g rest hg => .inr (.inr (hframes g ?_))
      rw [← hstk, hg]
      exact List.mem_cons_self
    exact ⟨order_of_unseen hseen hunseen, fun _ => hseen, fun _ => .inl hclosed,
      fun s' _ hs => ret_stays_closed hclosed (step_cases hs), hlast⟩

/-- In every run of a program that takes what it is given, the callbacks for data see what
    `sysread` has returned, in order and once; an error is reported after all of it, and closes
    the connection, on which nothing is called any more. -/
theorem read_delivered (p : Sys × Bytes) (h : DeliveryReachable p) : Delivered p := by
  obtain ⟨hstack, hd⟩ := delivering_of_reachable h
  exact hd.delivered hstack

/-- A byte and EOF come out of one `_read`, after the callback has taken two bytes and asked for
    four. -/
theorem read_delivered_eof :
    ∃ p, DeliveryReachable p ∧ Delivered p ∧ p.2 = [97, 98, 99] ∧ p.1.v.closed = true := by
  obtain ⟨p, hr, hp⟩ := Machine.Reaches.of_run_map (M := engine.withNotes noteSeen)
    (G := fun p i => TakesAll p.1 i) (s := (⟨.accepted 0, 5, 5, [.outside]⟩, []))
    (fun p => (p.2, p.1.v.closed))
    [.op (.reader true 0), .leave, .select true false, .dispatch, .sysread (.data [97]),
      .sysread .intr, .sysread (.data [98]), .sysread .again, .op (.setReadBuffer []),
      .op (.setMinLen 4), .ret, .next, .select true false, .dispatch, .sysread (.data [99]),
      .sysread .eof, .op (.setReadBuffer []), .ret, .ret]
    (show _ = some ([97, 98, 99], true) by decide +kernel)
  have hreach : DeliveryReachable p := ⟨_, .accepted 5 5 0, hr⟩
  have hpair := Prod.mk.inj hp
  exact ⟨p, hreach, read_delivered p hreach, hpair.1, hpair.2⟩

end NginxEngine.PP
