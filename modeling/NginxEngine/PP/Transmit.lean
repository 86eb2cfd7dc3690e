import NginxEngine.PP.InOrder
import NginxEngine.PP.Switch

/-!
# A load is transmitted exactly

`_write` is called with the position at the beginning of a load, and from then on nothing but
`_write` touches the load and its position. However `syswrite` cuts the load up, and however
often `_write` is left and called again, what was accepted is a prefix of the load, the position
that is stored is where the next call has to go on, and success is reported with the last byte.
Only where the program's variable for the connection holds something else when the callback
returns, the writer is not stopped, and sends the load once more.

## Main definitions

- `Undisturbed` — nothing but `_write` touches the load and its position
- `View.WriteStarts` — `_write` is called at the beginning of a load
- `ExactAt` — a position is where the accepted bytes end
- `Transmits` — what is accepted, where the next call goes on, and what is reported

## Main results

- `load_transmitted` — it is so in every run in which no such variable is assigned
- `load_sent_again` — a callback assigns the variable of its caller
-/

namespace NginxEngine.PP

open NginxEngine.XS (Bytes Sv)

variable {now t : Int} {v v' : View} {o : Outcome} {s s' : Sys} {l l' : List Obs} {x : Obs}
  {sv : Sv} {b e : Bytes} {n i offset done failed : Nat} {f : Frame} {rest stk : List Frame}

/-! ### What is observed of a load -/

/-- `_write` reports that everything was sent. -/
def Obs.isDone : Obs → Bool
  | .called _ .write 0 => true
  | _ => false

/-- `_write` reports an error. -/
def Obs.isFailed : Obs → Bool
  | .called _ .write 1 => true
  | _ => false

/-- The bytes that `syswrite` has accepted since the first `n` observations. -/
def sentSince (n : Nat) (l : List Obs) : Bytes := (l.drop n).flatMap Obs.output

def doneSince (n : Nat) (l : List Obs) : Nat := (l.drop n).countP Obs.isDone

def failedSince (n : Nat) (l : List Obs) : Nat := (l.drop n).countP Obs.isFailed

/-- The account of what was observed since the first `n` observations. -/
structure Account (n : Nat) (l : List Obs) (b : Bytes) (done failed : Nat) : Prop where
  long : n ≤ l.length
  sent : sentSince n l = b
  done : doneSince n l = done
  failed : failedSince n l = failed

theorem account_start (l : List Obs) : Account l.length l [] 0 0 := by
  refine ⟨Nat.le_refl _, ?_, ?_, ?_⟩
  · rw [sentSince, List.drop_length]
    rfl
  · rw [doneSince, List.drop_length]
    rfl
  · rw [failedSince, List.drop_length]
    rfl

theorem Account.snoc (h : Account n l b done failed) (x : Obs) :
    Account n (l ++ [x]) (b ++ x.output) (done + x.isDone.toNat) (failed + x.isFailed.toNat) := by
  have hdrop : (l ++ [x]).drop n = l.drop n ++ [x] := List.drop_append_of_le_length h.long
  have hcount : ∀ p : Obs → Bool, List.countP p [x] = (p x).toNat := by
    intro p
    rw [List.countP_singleton]
    cases p x <;> rfl
  refine ⟨?_, ?_, ?_, ?_⟩
  · rw [List.length_append]
    exact Nat.le_add_right_of_le h.long
  · rw [sentSince, hdrop, List.flatMap_append, ← h.sent]
    simp [sentSince]
  · rw [doneSince, hdrop, List.countP_append, hcount, ← h.done]
    rfl
  · rw [failedSince, hdrop, List.countP_append, hcount, ← h.failed]
    rfl

theorem aside_account (h : x.aside = true) :
    x.output = [] ∧ x.isDone = false ∧ x.isFailed = false := by
  cases x with
  | sent b => cases h
  | called ev args err =>
    refine ⟨rfl, ?_, ?_⟩
    · rw [Obs.isDone.eq_def]
      split
      · next heq =>
        cases heq
        cases h
      · rfl
    · rw [Obs.isFailed.eq_def]
      split
      · next heq =>
        cases heq
        cases h
      · rfl
  | _ => exact ⟨rfl, rfl, rfl⟩

/-- What does not come from the writer does not count. -/
theorem Account.aside (h : Account n l b done failed) (ht : Extends (·.aside = true) l l') :
    Account n l' b done failed := by
  refine ht.invariant (Q := fun l => Account n l b done failed) h fun l x hl hx => ?_
  obtain ⟨hout, hdone, hfailed⟩ := aside_account hx
  have hsnoc := hl.snoc x
  rw [hout, hdone, hfailed, List.append_nil] at hsnoc
  exact hsnoc

theorem Account.beside (h : Account n v.trace b done failed) (hk : Beside v v') :
    Account n v'.trace b done failed :=
  h.aside hk.trace

/-! ### Positions -/

/-- A load: a string, a reference to a scalar, or an array of references to scalars. -/
def Sv.isLoad (sv : Sv) : Bool := (buffers (some sv)).any fun xs => xs.all Option.isSome

/-- The bytes of the elements before `i`. -/
def Sv.before (sv : Sv) (i : Nat) : Bytes :=
  ((chunks ((buffers (some sv)).getD [])).take i).flatten

/-- The bytes of the elements from `i` on. -/
def Sv.behind (sv : Sv) (i : Nat) : Bytes :=
  ((chunks ((buffers (some sv)).getD [])).drop i).flatten

/-- The position of the first byte that is missing after `b`: it lies inside the element `i`, and
    `b` is what is before it. -/
def ExactAt (sv : Sv) (b : Bytes) (i offset : Nat) : Prop :=
  ∃ e, Sv.element sv i = some (some e) ∧ offset < e.length ∧ b = Sv.before sv i ++ e.take offset

theorem before_append_behind (sv : Sv) (i : Nat) : Sv.before sv i ++ Sv.behind sv i = sv.bytes := by
  rw [Sv.before, Sv.behind, Chunks.flatten_take_append_drop, ← unsentAt_zero, unsentAt,
    List.drop_zero, Chunks.rest_zero]

theorem behind_element (h : Sv.element sv i = some (some e)) :
    Sv.behind sv i = e ++ Sv.behind sv (i + 1) := by
  obtain ⟨xs, hxs, hi⟩ := Option.bind_eq_some_iff.mp h
  rw [Sv.behind, Sv.behind, hxs, Option.getD_some, chunks_drop hi, List.flatten_cons]

theorem before_succ (h : Sv.element sv i = some (some e)) :
    Sv.before sv (i + 1) = Sv.before sv i ++ e := by
  have hsplit := before_append_behind sv i
  rw [behind_element h, ← List.append_assoc, ← before_append_behind sv (i + 1)] at hsplit
  exact (List.append_cancel_right hsplit).symm

/-- At a position inside the load something is left. -/
theorem ExactAt.left (h : ExactAt sv b i offset) : ∃ r, r ≠ [] ∧ b ++ r = sv.bytes := by
  obtain ⟨e, he, hlt, rfl⟩ := h
  refine ⟨e.drop offset ++ Sv.behind sv (i + 1), fun hnil => ?_, ?_⟩
  · have hlen := congrArg List.length hnil
    rw [List.length_append, List.length_drop, List.length_nil] at hlen
    omega
  · rw [← before_append_behind sv i, behind_element he, List.append_assoc,
      ← List.append_assoc (e.take offset), List.take_append_drop]

/-- The loop goes on at a position that lies inside an element. -/
theorem ExactAt.nextBuf {xs : List (Option Bytes)} (h : ExactAt sv b i offset)
    (hxs : buffers (some sv) = some xs) : nextBuf (xs.drop i) i offset = .syswrite i := by
  obtain ⟨e, he, hlt, -⟩ := h
  obtain ⟨ys, hys, hi⟩ := Option.bind_eq_some_iff.mp he
  obtain rfl : ys = xs := Option.some.inj (hys.symm.trans hxs)
  obtain ⟨hlen, hi⟩ := List.getElem?_eq_some_iff.mp hi
  rw [List.drop_eq_getElem_cons hlen, hi, PP.nextBuf, if_pos hlt]

theorem nextBuf_ne_die {xs : List (Option Bytes)} (h : xs.all Option.isSome = true)
    (i offset : Nat) : nextBuf xs i offset ≠ .die := by
  induction xs generalizing i with
  | nil =>
    intro hdie
    cases hdie
  | cons e xs ih =>
    rw [List.all_cons, Bool.and_eq_true] at h
    obtain ⟨b, rfl⟩ := Option.isSome_iff_exists.mp h.1
    rw [nextBuf]
    split
    · intro hdie
      cases hdie
    · exact ih h.2 (i + 1)

/-- From the beginning of an element the loop passes over empty elements only. -/
theorem nextBuf_begin {xs : List (Option Bytes)} (hxs : buffers (some sv) = some xs)
    (hall : xs.all Option.isSome = true) (i : Nat) :
    (∃ j, nextBuf (xs.drop i) i 0 = .done j ∧ Sv.before sv i = sv.bytes) ∨
      ∃ j, nextBuf (xs.drop i) i 0 = .syswrite j ∧ ExactAt sv (Sv.before sv i) j 0 := by
  have hbehind : ∀ k, ((chunks (xs.drop i)).drop k).flatten = Sv.behind sv (i + k) := by
    intro k
    rw [Sv.behind, hxs, Option.getD_some, chunks, chunks, ← List.map_drop, ← List.map_drop,
      List.drop_drop]
  have hspec := nextBuf_spec (xs.drop i) i 0 (offsetOk_zero _)
  cases hn : nextBuf (xs.drop i) i 0 with
  | die =>
    refine absurd hn (nextBuf_ne_die (List.all_eq_true.mpr fun e he => ?_) i 0)
    exact List.all_eq_true.mp hall e (List.mem_of_mem_drop he)
  | done j =>
    rw [hn] at hspec
    have hnil : Sv.behind sv i = [] := by
      rw [← hspec, Chunks.rest_zero]
      exact (hbehind 0).symm
    refine .inl ⟨j, rfl, ?_⟩
    rw [← before_append_behind sv i, hnil, List.append_nil]
  | syswrite j =>
    rw [hn] at hspec
    obtain ⟨k, e, rfl, hx, hlen, hrest⟩ := hspec
    have hsame : Sv.behind sv (i + k) = Sv.behind sv i := by
      rw [Chunks.rest_zero, Chunks.rest_zero] at hrest
      rw [← hbehind k, hrest]
      exact hbehind 0
    refine .inr ⟨i + k, rfl, e, ?_, hlen, ?_⟩
    · rw [Sv.element, hxs, Option.bind_some, ← List.getElem?_drop]
      exact hx
    · rw [List.take_zero, List.append_nil]
      have hsplit : Sv.before sv i ++ Sv.behind sv i = Sv.before sv (i + k) ++ Sv.behind sv i := by
        rw [before_append_behind, ← hsame, before_append_behind]
      exact List.append_cancel_right hsplit


/-! ### The run -/

/-- `_write` is called for the load `sv`, with the position at its beginning. -/
structure View.WriteStarts (v : View) (sv : Sv) : Prop where
  opened : v.closed = false
  writer : v.write.isSome = true
  buffer : v.wbuf = some sv
  offset : v.woff = 0
  index : v.wind = 0
  load : Sv.isLoad sv = true

/-- `_write` is called on top of the frames `stk`. -/
def startWrite (now t : Int) (v : View) (stk : List Frame) : Sys :=
  Sys.resume ⟨v, now, t, []⟩ (_write now v) stk

/-- Nothing but `_write` touches the load and its position: the program neither changes the write
    buffer nor makes a reader or a writer, `_read` does not start the load anew, and the program
    does not start the writer again once `_write` has called back. -/
def Undisturbed (n : Nat) (s : Sys) : Input → Prop
  | .op (.reader _ _) | .op (.writer _ _ _) | .op (.writerBufferSet _) | .op (.setWriteBuffer _) =>
    False
  | .op (.writerStart _) | .op .readerStopWriterStart =>
    doneSince n s.v.trace = 0 ∧ failedSince n s.v.trace = 0
  | .ret =>
    match s.stack with
    | .readData _ :: _ => s.v.switches = false
    | _ => True
  | _ => True

instance {i : Input} : Decidable (Undisturbed n s i) := by
  unfold Undisturbed
  generalize s.stack = stk
  induction i with
  | op o => induction o <;> infer_instance
  | ret =>
    induction stk using List.casesOn with
    | nil => infer_instance
    | cons f rest => induction f <;> infer_instance
  | _ => infer_instance

/-- Where the next byte of a load is taken from: by the `_write` that runs, or else by the next. -/
def Resumes (sv : Sv) (b : Bytes) (v : View) : List Frame → Prop
  | .syswrite i offset :: _ => ExactAt sv b i offset
  | _ => ExactAt sv b v.wind v.woff

structure Transmits (n : Nat) (sv : Sv) (s : Sys) : Prop where
  /-- What was accepted is a prefix of the load. -/
  sent : sentSince n s.v.trace <+: sv.bytes
  /-- Success was reported once if the whole load was accepted, and not before. -/
  done : doneSince n s.v.trace = if sentSince n s.v.trace = sv.bytes then 1 else 0
  /-- An error is reported at most once, and the connection is closed after it. -/
  failed : failedSince n s.v.trace ≤ 1
  closes : failedSince n s.v.trace = 1 →
    s.v.closed = true ∨ ∃ rest, s.stack = .writeDone true :: rest
  /-- While the load is not finished, the position is exact. -/
  position : s.v.closed = false → doneSince n s.v.trace = 0 → failedSince n s.v.trace = 0 →
    Resumes sv (sentSince n s.v.trace) s.v s.stack

/-- An `errno` other than EAGAIN and EINTR is reported, and the connection is closed when the
    callback returns. -/
structure ReportsErrno (s : Sys) : Prop where
  reported : ∀ s', step s (.syswrite .error) = some s' →
    (∃ ev, s'.v.trace = s.v.trace ++ [.called ev .write 1]) ∧
      ∃ rest, s'.stack = .writeDone true :: rest
  closed : ∀ s' rest, s.stack = .writeDone true :: rest → step s .ret = some s' →
    s'.v.closed = true

/-! ### The invariant -/

/-- The load is in the write buffer of an open connection that has a writer. -/
structure Held (sv : Sv) (v : View) : Prop where
  opened : v.closed = false
  buffer : v.wbuf = some sv
  writer : v.write.isSome = true

/-- What was accepted when `_write` has called back for the last time. -/
inductive Verdict (sv : Sv) : Bytes → Nat → Nat → Prop
  | whole : Verdict sv sv.bytes 1 0
  | part {b r : Bytes} {failed : Nat} (hr : r ≠ []) (hb : b ++ r = sv.bytes) (hf : failed ≤ 1) :
      Verdict sv b 0 failed

/-- No `_write` is running. -/
inductive Calm (n : Nat) (sv : Sv) (v : View) : Prop
  | stopped (b : Bytes) (hv : Held sv v) (ha : Account n v.trace b 0 0)
      (hp : ExactAt sv b v.wind v.woff)
  | ended (b : Bytes) (done failed : Nat) (ha : Account n v.trace b done failed)
      (hverdict : Verdict sv b done failed) (hoff : v.Off)
      (hclosed : done = 0 → v.closed = true)

inductive Sending (n : Nat) (sv : Sv) (v : View) : List Frame → Prop
  /-- `_write` waits for `syswrite`. -/
  | waits {i offset : Nat} {rest : List Frame} (b : Bytes) (hv : Held sv v)
      (ha : Account n v.trace b 0 0) (hp : ExactAt sv b i offset) :
      Sending n sv v (.syswrite i offset :: rest)
  /-- The callback of `_write` is running. -/
  | reporting {error : Bool} {rest : List Frame} (b : Bytes)
      (ha : Account n v.trace b (!error).toNat error.toNat)
      (hverdict : Verdict sv b (!error).toNat error.toNat)
      (hshut : v.closed = true → v.Off) : Sending n sv v (.writeDone error :: rest)
  | calm {stk : List Frame} (h : Calm n sv v) (hstk : stk.any Frame.isSyswrite = false) :
      Sending n sv v stk

theorem Held.beside (h : Held sv v) (hk : Beside v v') (hw : v'.write = v.write) : Held sv v' := by
  refine ⟨hk.closed.trans h.opened, hk.wbuf.trans h.buffer, ?_⟩
  rw [hw]
  exact h.writer

/-! ### Code that leaves the load alone -/

/-- A piece of code that leaves the load alone, and a writer that is off. -/
structure Harmless (v : View) (o : Outcome) : Prop extends Aside v o where
  write : o.1.write = v.write
  off : v.Off → o.1.Off

/-- Besides, it may close the connection. -/
inductive Settles (v : View) : Outcome → Prop
  | harmless {o : Outcome} (h : Harmless v o) : Settles v o
  | close {v' : View} (h : Harmless v (v', [])) : Settles v (ngxeClose v', [])

theorem Harmless.of_piece (ha : Aside v o) (hp : Piece v o) : Harmless v o := by
  refine ⟨ha, hp.sides.write, fun hoff => ?_⟩
  rw [View.Off, hp.sides.win, hp.sides.wout]
  exact hoff

theorem Harmless.of_beside (hk : Beside v v') (hw : v'.write = v.write) (hoff : v.Off → v'.Off) :
    Harmless v (v', []) :=
  ⟨⟨hk, rfl⟩, hw, hoff⟩

theorem Harmless.refl (v : View) : Harmless v (v, []) := .of_beside (.refl v) rfl id

theorem Account.close (h : Account n v.trace b done failed) :
    Account n (ngxeClose v).trace b done failed := by
  rw [ngxeClose]
  split
  · exact h
  · exact h.aside (.snoc rfl)

theorem ExactAt.part (h : ExactAt sv b i offset) {failed : Nat} (hf : failed ≤ 1) :
    Verdict sv b 0 failed := by
  obtain ⟨r, hr, hb⟩ := h.left
  exact .part hr hb hf

theorem Calm.close (h : Calm n sv v) : Calm n sv (ngxeClose v) := by
  cases h with
  | stopped b hv ha hp =>
    refine .ended b 0 0 ha.close (hp.part (Nat.zero_le 1)) (ngxeClose_off fun hc => ?_)
      fun _ => ngxeClose_closed v
    exact absurd (hv.opened.symm.trans hc) (by decide)
  | ended b done failed ha hverdict hoff hclosed =>
    exact .ended b done failed ha.close hverdict (ngxeClose_off fun _ => hoff)
      fun _ => ngxeClose_closed v

theorem Calm.harmless (h : Calm n sv v) (ho : Harmless v o) : Calm n sv o.1 := by
  cases h with
  | stopped b hv ha hp =>
    refine .stopped b (hv.beside ho.beside ho.write) (ha.beside ho.beside) ?_
    rw [ho.beside.wind, ho.beside.woff]
    exact hp
  | ended b done failed ha hverdict hoff hclosed =>
    refine .ended b done failed (ha.beside ho.beside) hverdict (ho.off hoff) fun hd => ?_
    rw [ho.beside.closed]
    exact hclosed hd

/-- What the code of the other handlers leaves, on top of frames that resume. -/
theorem Sending.of_settles (h : Calm n sv v) (ho : Settles v o)
    (hrest : ∀ f ∈ rest, f.resumes = true) : Sending n sv o.1 (o.2 ++ rest) := by
  have hquiet := any_isSyswrite_of_resumes hrest
  cases ho with
  | harmless ho =>
    refine .calm (h.harmless ho) ?_
    rw [List.any_append, ho.quiet, hquiet]
    rfl
  | close ho => exact .calm (h.harmless ho).close hquiet

theorem Tame.settles (ht : Tame v o) : Settles v o := by
  have hoff : ∀ {v'}, SameSides v v' → v.Off → v'.Off := by
    intro v' hs hoff
    rw [View.Off, hs.win, hs.wout]
    exact hoff
  cases ht with
  | code hs ha => exact .harmless ⟨ha, hs.write, hoff hs⟩
  | close hs hk => exact .close (.of_beside hk hs.write (hoff hs))

theorem connect_harmless {limit : Nat} {error : Bool} {r : ConnectResult} :
    Harmless v (connect v limit error r) := by
  have ha : Aside v (connect v limit error r) := connect_aside
  rcases @connect_piece v limit error r with hp | hp
  · exact .of_piece ha hp
  · refine ⟨ha, hp.sides.write, fun hoff => ⟨hp.sides.win, ?_⟩⟩
    rw [hp.sides.wout]
    exact hoff.2

theorem stopWriter_harmless : Harmless v (ngxeWriterStopReaderStart now v, []) :=
  .of_beside (.of_eq rfl rfl rfl rfl rfl) rfl fun _ => ⟨rfl, rfl⟩

/-- The code after a callback, unless it starts the load anew. -/
theorem afterCallback_settles (ho : afterCallback now v f = some o) (hsane : f.sane = true)
    (hG : ∀ error, f = .readData error → v.switches = false) : Settles v o := by
  cases afterCallback_cases ho with
  | tame hframes ht => exact ht.settles
  | switch hf hopen hrout hw =>
    rcases hf with ⟨rfl, hrin⟩ | rfl
    · have hsw := hG 0 rfl
      rw [View.switches, hopen, hrin, hrout, hw] at hsw
      cases hsw
    · cases hsane
  | stop hf hopen => exact .harmless stopWriter_harmless

/-- A call of the program that may run `_write`. -/
def Op.starts : Op → Bool
  | .writerStart _ | .readerStopWriterStart => true
  | _ => false

/-- The calls of the program that leave the load alone. -/
theorem applyOp_settles {op : Op} (hG : Undisturbed n s (.op op)) (hop : op.starts = false) :
    Settles s.v (applyOp s.now s.v op) := by
  have hkeep : ∀ {v'}, Beside s.v v' → v'.write = s.v.write → (s.v.Off → v'.Off) →
      Settles s.v (v', []) := fun hk hw hoff => .harmless (.of_beside hk hw hoff)
  cases op with
  | reader start timeout => exact hG.elim
  | readerStopWriterStart => cases hop
  | writer start timeout buf => exact hG.elim
  | writerStart timeout => cases hop
  | writerStop => exact hkeep (.of_eq rfl rfl rfl rfl rfl) rfl fun _ => ⟨rfl, rfl⟩
  | writerStopReaderStart => exact .harmless stopWriter_harmless
  | writerBufferSet data => exact hG.elim
  | close => exact .close (.refl _)
  | setWriteBuffer sv => exact hG.elim
  | _ => exact hkeep (.of_eq rfl rfl rfl rfl rfl) rfl id

/-! ### `_write` -/

/-- The end of `_write`, after the last byte or after an error. -/
theorem writeEnd_sending {error : Bool} (hv : Held sv v) (ha : Account n v.trace b 0 0)
    (hverdict : Verdict sv b (!error).toNat error.toNat) :
    Sending n sv (writeEnd now v i offset error).1 ((writeEnd now v i offset error).2 ++ rest) := by
  obtain ⟨w, hw⟩ := Option.isSome_iff_exists.mp hv.writer
  have hcall : (writeEnd now v i offset error).1.trace =
      v.trace ++ [.called w .write (if error then 1 else 0)] := by
    simp [writeEnd, View.touch, hw, View.call, View.observe]
  have hframe : (writeEnd now v i offset error).2 = [.writeDone error] := by
    simp [writeEnd, View.touch, hw, View.call]
  have hopen : (writeEnd now v i offset error).1.closed = false :=
    writeEnd_piece.sides.closed.trans hv.opened
  rw [hframe]
  refine .reporting b ?_ hverdict fun hc => ?_
  · rw [hcall]
    have hsnoc := ha.snoc (.called w .write (if error then 1 else 0))
    cases error with
    | true => simpa [Obs.output, Obs.isDone, Obs.isFailed] using hsnoc
    | false => simpa [Obs.output, Obs.isDone, Obs.isFailed] using hsnoc
  · exact absurd (hopen.symm.trans hc) (by decide)

/-- The loop of `_write`, from the beginning of an element or from where it was left. -/
theorem writeLoop_sending (hv : Held sv v) (hload : Sv.isLoad sv = true)
    (ha : Account n v.trace b 0 0)
    (hp : ExactAt sv b i offset ∨ offset = 0 ∧ b = Sv.before sv i) :
    Sending n sv (writeLoop now v i offset).1 ((writeLoop now v i offset).2 ++ rest) := by
  obtain ⟨xs, hxs, hall⟩ := (Option.any_eq_true _ _).mp hload
  have hbuf : buffers v.wbuf = some xs := by rw [hv.buffer, hxs]
  rw [writeLoop, hbuf]
  dsimp only
  rcases hp with hp | ⟨rfl, rfl⟩
  · rw [hp.nextBuf hxs]
    exact .waits b hv ha hp
  · rcases nextBuf_begin hxs hall i with ⟨j, hn, hwhole⟩ | ⟨j, hn, hp⟩
    · rw [hn]
      refine writeEnd_sending hv ha ?_
      rw [hwhole]
      exact .whole
    · rw [hn]
      exact .waits _ hv ha hp

/-- Only an array has an element behind its first. -/
theorem firstIndex_of_exact (hb : v.wbuf = some sv) (hp : ExactAt sv b v.wind offset) :
    firstIndex v = v.wind := by
  obtain ⟨e, he, -⟩ := hp
  have hsingle : ∀ c : Bytes, ([some c] : List (Option Bytes))[v.wind]? = some (some e) →
      0 = v.wind := by
    intro c hc
    obtain ⟨hlt, -⟩ := List.getElem?_eq_some_iff.mp hc
    rw [List.length_singleton] at hlt
    omega
  rw [firstIndex, hb]
  cases sv with
  | undef => exact hsingle _ he
  | str c => exact hsingle _ he
  | rv c => exact hsingle _ he
  | av xs => rfl
  | rvOther => cases he

/-- `_write` is called. -/
theorem write_sending (hv : Held sv v) (hload : Sv.isLoad sv = true)
    (ha : Account n v.trace b 0 0)
    (hp : ExactAt sv b v.wind v.woff ∨ v.woff = 0 ∧ v.wind = 0 ∧ b = []) :
    Sending n sv (_write now v).1 ((_write now v).2 ++ rest) := by
  have hv' : Held sv { v.observe (.ran .write) with wind := firstIndex v } :=
    ⟨hv.opened, hv.buffer, hv.writer⟩
  have ha' : Account n (v.observe (.ran .write)).trace b 0 0 := ha.aside (.snoc rfl)
  refine writeLoop_sending hv' hload ha' ?_
  rcases hp with hp | ⟨ho, hi, rfl⟩
  · refine .inl ?_
    show ExactAt sv b (firstIndex v) v.woff
    rw [firstIndex_of_exact hv.buffer hp]
    exact hp
  · have hfirst : firstIndex v = 0 := by
      rw [firstIndex]
      split
      · exact hi
      · rfl
    refine .inr ⟨ho, ?_⟩
    show [] = Sv.before sv (firstIndex v)
    rw [hfirst]
    rfl

theorem syswrite_sending {r : WriteResult} (hv : Held sv v) (hload : Sv.isLoad sv = true)
    (ha : Account n v.trace b 0 0) (hp : ExactAt sv b i offset)
    (hr : r.answers (v.element i) offset = true) (hrest : ∀ f ∈ rest, f.resumes = true) :
    Sending n sv (syswrite now v i offset r).1 ((syswrite now v i offset r).2 ++ rest) := by
  obtain ⟨e, he, hlt, hb⟩ := id hp
  have hx : (buffers v.wbuf).bind (·[i]?) = some (some e) := by rw [hv.buffer]; exact he
  rw [syswrite, hx]
  dsimp only
  cases r with
  | accepted k =>
    simp only [WriteResult.answers, View.element, hx, Option.bind_some, id_eq, Bool.and_eq_true,
      decide_eq_true_eq] at hr
    have hv' : Held sv (v.observe (.sent ((e.drop offset).take k))) :=
      ⟨hv.opened, hv.buffer, hv.writer⟩
    have ha' : Account n (v.observe (.sent ((e.drop offset).take k))).trace
        (Sv.before sv i ++ e.take (offset + k)) 0 0 := by
      have hsnoc := ha.snoc (.sent ((e.drop offset).take k))
      rw [show (Obs.sent ((e.drop offset).take k)).output = (e.drop offset).take k from rfl,
        hb, List.append_assoc, ← List.take_add] at hsnoc
      exact hsnoc
    dsimp only
    split
    · next hend =>
      refine writeLoop_sending hv' hload ha' (.inr ⟨rfl, ?_⟩)
      rw [hend, List.take_length, before_succ he]
    · next hend => exact .waits _ hv' ha' ⟨e, he, by omega, rfl⟩
  | again =>
    have ha' : Account n (v.observe (.sent [])).trace b 0 0 := by
      have hsnoc := ha.snoc (.sent [])
      rwa [show (Obs.sent []).output = [] from rfl, List.append_nil] at hsnoc
    exact .calm (.stopped b ⟨hv.opened, hv.buffer, hv.writer⟩ ha' hp)
      (any_isSyswrite_of_resumes hrest)
  | intr => exact .waits b hv ha hp
  | error => exact writeEnd_sending hv ha (hp.part (Nat.le_refl 1))

/-! ### Steps -/

/-- Other code than that of `_write` finds a load that is left alone. -/
theorem Sending.toCalm (h : Sending n sv v (f :: rest)) (hf : f.isSyswrite = false)
    (hd : ∀ error, f ≠ .writeDone error) : Calm n sv v := by
  cases h with
  | waits b hv ha hp => cases hf
  | @reporting error rest b ha hverdict hshut => exact absurd rfl (hd error)
  | calm h hstk => exact h

theorem Sending.calm_nil (h : Sending n sv v []) : Calm n sv v := by
  cases h with
  | calm h hstk => exact h

/-- The second half of the loop's body. -/
theorem dispatchWrite_sending {wev : Option Nat} (h : Calm n sv v) (hload : Sv.isLoad sv = true)
    (hrest : ∀ f ∈ rest, f.resumes = true) :
    Sending n sv (dispatchWrite now t v v.win v.wout wev).1
      ((dispatchWrite now t v v.win v.wout wev).2 ++ rest) := by
  have hskip : Sending n sv (v, ([] : List Frame)).1 ((v, ([] : List Frame)).2 ++ rest) :=
    .of_settles h (.harmless (.refl v)) hrest
  cases h with
  | stopped b hv ha hp =>
    rcases (dispatchWrite_cases now t v v.win v.wout wev).tame with ht | ⟨-, he⟩
    · exact .of_settles (.stopped b hv ha hp) ht.settles hrest
    · rw [he]
      exact write_sending hv hload ha (.inl hp)
  | ended b done failed ha hverdict hoff hclosed =>
    rw [hoff.1, hoff.2, dispatchWrite_idle]
    exact hskip

/-- The callback of `_write` returns. -/
theorem Sending.returns {error : Bool} (ha : Account n v.trace b (!error).toNat error.toNat)
    (hverdict : Verdict sv b (!error).toNat error.toNat) (hshut : v.closed = true → v.Off)
    (hrest : ∀ f ∈ rest, f.resumes = true) : Sending n sv (afterWrite now v error) rest := by
  refine .calm ?_ (any_isSyswrite_of_resumes hrest)
  rw [afterWrite]
  split
  · next hc => exact .ended b _ _ ha hverdict (hshut hc) fun _ => hc
  · cases error with
    | true =>
      rw [if_pos rfl]
      exact .ended b _ _ ha.close hverdict (ngxeClose_off hshut) fun _ => ngxeClose_closed v
    | false =>
      rw [if_neg Bool.false_ne_true]
      refine .ended b _ _ ha hverdict ⟨rfl, rfl⟩ fun hzero => ?_
      cases hzero

theorem applyOp_noFrames {op : Op} (hG : Undisturbed n s (.op op)) (hop : op.starts = false) :
    (applyOp s.now s.v op).2 = [] := by
  cases op with
  | writer start timeout buf => exact hG.elim
  | writerBufferSet data => exact hG.elim
  | writerStart timeout => cases hop
  | readerStopWriterStart => cases hop
  | _ => rfl

/-- The program calls while the callback of `_write` is running. -/
theorem Sending.reportingOp {error : Bool} {op : Op}
    (ha : Account n s.v.trace b (!error).toNat error.toNat)
    (hverdict : Verdict sv b (!error).toNat error.toNat) (hshut : s.v.closed = true → s.v.Off)
    (hG : Undisturbed n s (.op op)) :
    Sending n sv (applyOp s.now s.v op).1
      ((applyOp s.now s.v op).2 ++ .writeDone error :: rest) := by
  have hover : ¬ (doneSince n s.v.trace = 0 ∧ failedSince n s.v.trace = 0) := by
    rw [ha.done, ha.failed]
    cases error with
    | true => exact fun hz => absurd hz.2 (by decide)
    | false => exact fun hz => absurd hz.1 (by decide)
  have hop : op.starts = false := by
    cases op with
    | writerStart timeout => exact absurd hG hover
    | readerStopWriterStart => exact absurd hG hover
    | _ => rfl
  rw [applyOp_noFrames hG hop]
  have ho := applyOp_settles hG hop
  generalize applyOp s.now s.v op = o at ho
  cases ho with
  | harmless ho =>
    refine .reporting b (ha.beside ho.beside) hverdict fun hc => ?_
    rw [ho.beside.closed] at hc
    exact ho.off (hshut hc)
  | @close v' ho =>
    have ha' : Account n v'.trace b (!error).toNat error.toNat := ha.beside ho.beside
    refine .reporting b ha'.close hverdict fun _ => ngxeClose_off fun hc => ?_
    exact ho.off (hshut (ho.beside.closed.symm.trans hc))

/-- The program calls while no `_write` is running. -/
theorem Sending.calmOp {op : Op} (h : Calm n sv s.v) (hload : Sv.isLoad sv = true)
    (hopen : s.v.closed = false ∨ op = .close) (hG : Undisturbed n s (.op op))
    (hrest : ∀ f ∈ rest, f.resumes = true) :
    Sending n sv (applyOp s.now s.v op).1 ((applyOp s.now s.v op).2 ++ rest) := by
  cases hop : op.starts with
  | false => exact .of_settles h (applyOp_settles hG hop) hrest
  | true =>
    have hstart : ∀ {v' : View}, v'.closed = s.v.closed → v'.wbuf = s.v.wbuf →
        v'.write = s.v.write → v'.trace = s.v.trace → v'.wind = s.v.wind → v'.woff = s.v.woff →
        s.v.closed = false → doneSince n s.v.trace = 0 ∧ failedSince n s.v.trace = 0 →
        Sending n sv (_write s.now v').1 ((_write s.now v').2 ++ rest) := by
      intro v' hc hb hw ht hi ho hopen hzero
      cases h with
      | stopped b hv ha hp =>
        refine write_sending (b := b) ⟨hc.trans hv.opened, hb.trans hv.buffer, ?_⟩ hload ?_
          (.inl ?_)
        · rw [hw]
          exact hv.writer
        · rw [ht]
          exact ha
        · rw [hi, ho]
          exact hp
      | ended b done failed ha hverdict hoff hclosed =>
        -- a write that is over without a report was closed
        have hc := hclosed (ha.done.symm.trans hzero.1)
        exact absurd (hopen.symm.trans hc) (by decide)
    cases op with
    | writerStart timeout =>
      exact hstart rfl rfl rfl rfl rfl rfl (hopen.resolve_right (by simp)) hG
    | readerStopWriterStart =>
      exact hstart rfl rfl rfl rfl rfl rfl (hopen.resolve_right (by simp)) hG
    | _ => cases hop

theorem sending_step {j : Input} (hload : Sv.isLoad sv = true) (hstack : StackOk s.stack)
    (h : Sending n sv s.v s.stack) (hG : Undisturbed n s j) (hs : Step s j s') :
    Sending n sv s'.v s'.stack := by
  have hnil : ∀ f ∈ ([] : List Frame), f.resumes = true := by simp
  cases hs with
  | tick k => exact h
  | select r w hstk =>
    rw [hstk] at h
    have hbits : Harmless s.v ((s.select r w).v, []) :=
      .of_beside (.of_eq rfl rfl rfl rfl rfl) rfl fun hoff =>
        ⟨hoff.1, by show (s.v.win && w) = false; rw [hoff.1]; rfl⟩
    show Sending n sv (s.select r w).v s.stack
    rw [hstk]
    exact .of_settles h.calm_nil (.harmless hbits) hnil
  | dispatch hstk hopen =>
    rw [hstk] at h
    exact .of_settles h.calm_nil (dispatch_cases ..).tame.settles hnil
  | next hstk =>
    rw [hstk] at h
    exact dispatchWrite_sending (h.toCalm rfl (by simp)) hload (hstack.under hstk)
  | sysread r hstk hr =>
    rw [hstk] at h
    exact .of_settles (h.toCalm rfl (by simp)) (.harmless (.of_piece sysread_aside sysread_piece))
      (hstack.under hstk)
  | syswrite r hstk hr =>
    rw [hstk] at h
    cases h with
    | waits b hv ha hp => exact syswrite_sending hv hload ha hp hr (hstack.under hstk)
    | calm h hquiet => cases hquiet
  | accept ok hstk =>
    rw [hstk] at h
    exact .of_settles (h.toCalm rfl (by simp))
      (.harmless (.of_piece (accept_aside ok) accept_piece)) (hstack.under hstk)
  | connect r hstk =>
    rw [hstk] at h
    exact .of_settles (h.toCalm rfl (by simp)) (.harmless connect_harmless) (hstack.under hstk)
  | @ret f rest o hstk ho =>
    have hrest := hstack.under hstk
    have hsane : f.sane = true := hstack.sane f (by rw [hstk]; exact List.mem_cons_self)
    have hswitch : ∀ error, f = .readData error → s.v.switches = false := by
      rintro error rfl
      rw [Undisturbed, hstk] at hG
      exact hG
    rw [hstk] at h
    cases h with
    | waits b hv ha hp => cases ho
    | reporting b ha hverdict hshut =>
      cases ho
      exact .returns ha hverdict hshut hrest
    | calm h hquiet => exact .of_settles h (afterCallback_settles ho hsane hswitch) hrest
  | enter hstk =>
    rw [hstk] at h
    exact .calm h.calm_nil rfl
  | leave hstk =>
    rw [hstk] at h
    exact .calm (h.toCalm rfl (by simp)) (any_isSyswrite_of_resumes (hstack.under hstk))
  | @op f rest o hstk hf hopen =>
    have hperl := hstack.perl hstk hf
    show Sending n sv (applyOp s.now s.v o).1 ((applyOp s.now s.v o).2 ++ s.stack)
    rw [hstk] at h hperl ⊢
    cases h with
    | waits b hv ha hp => cases hf
    | reporting b ha hverdict hshut => exact .reportingOp ha hverdict hshut hG
    | calm h hquiet => exact .calmOp h hload hopen hG hperl

/-! ### Results -/

theorem Verdict.le_bytes (h : Verdict sv b done failed) : b <+: sv.bytes := by
  cases h with
  | whole => exact List.prefix_refl _
  | part hr hb hf => exact ⟨_, hb⟩

theorem Verdict.done_eq (h : Verdict sv b done failed) :
    done = if b = sv.bytes then 1 else 0 := by
  cases h with
  | whole => rw [if_pos rfl]
  | @part b r failed hr hb hf =>
    rw [if_neg]
    intro heq
    rw [heq] at hb
    exact hr (List.append_right_eq_self.mp hb)

theorem Verdict.failed_le (h : Verdict sv b done failed) : failed ≤ 1 := by
  cases h with
  | whole => exact Nat.zero_le 1
  | part hr hb hf => exact hf

/-- What is known of a load in flight. -/
theorem Transmits.of_exact (ha : Account n s.v.trace b 0 0) (hp : ExactAt sv b i offset)
    (hres : Resumes sv b s.v s.stack) : Transmits n sv s := by
  have hverdict : Verdict sv b 0 0 := hp.part (Nat.zero_le 1)
  refine ⟨?_, ?_, ?_, fun hf => ?_, fun _ _ _ => ?_⟩
  · rw [ha.sent]
    exact hverdict.le_bytes
  · rw [ha.sent, ha.done]
    exact hverdict.done_eq
  · rw [ha.failed]
    exact Nat.zero_le 1
  · rw [ha.failed] at hf
    cases hf
  · rw [ha.sent]
    exact hres

/-- What is known of a load that is over. -/
theorem Transmits.of_verdict (ha : Account n s.v.trace b done failed)
    (hverdict : Verdict sv b done failed)
    (hcloses : failed = 1 → s.v.closed = true ∨ ∃ rest, s.stack = .writeDone true :: rest)
    (hover : s.v.closed = false → done = 0 → failed = 0 → False) : Transmits n sv s := by
  refine ⟨?_, ?_, ?_, fun hf => ?_, fun hopen hd hf => ?_⟩
  · rw [ha.sent]
    exact hverdict.le_bytes
  · rw [ha.sent, ha.done]
    exact hverdict.done_eq
  · rw [ha.failed]
    exact hverdict.failed_le
  · exact hcloses (ha.failed.symm.trans hf)
  · exact (hover hopen (ha.done.symm.trans hd) (ha.failed.symm.trans hf)).elim

theorem Sending.transmits (h : Sending n sv s.v s.stack) : Transmits n sv s := by
  generalize hstk : s.stack = stk at h
  cases h with
  | waits b hv ha hp => exact .of_exact ha hp (by rw [hstk]; exact hp)
  | @reporting error rest b ha hverdict hshut =>
    refine .of_verdict ha hverdict (fun hf => .inr ⟨rest, ?_⟩) fun _ hd hf => ?_
    · cases error with
      | true => exact hstk
      | false => cases hf
    · cases error with
      | true => cases hf
      | false => cases hd
  | calm h hquiet =>
    cases h with
    | stopped b hv ha hp =>
      refine .of_exact ha hp ?_
      rw [hstk, Resumes.eq_def]
      split
      · cases hquiet
      · exact hp
    | ended b done failed ha hverdict hoff hclosed =>
      refine .of_verdict ha hverdict (fun hf => .inl (hclosed ?_)) fun hopen hd _ => ?_
      · cases hverdict with
        | whole => cases hf
        | part hr hb hf => rfl
      · exact absurd (hopen.symm.trans (hclosed hd)) (by decide)

theorem Sending.reportsErrno (h : Sending n sv s.v s.stack) : ReportsErrno s := by
  refine ⟨fun s' hs => ?_, fun s' rest hstk hs => ?_⟩
  · cases step_cases hs with
    | @syswrite i offset rest _ hstk hr =>
      rw [hstk] at h
      cases h with
      | calm h hquiet => cases hquiet
      | waits b hv ha hp =>
        obtain ⟨e, he, -⟩ := hp
        obtain ⟨w, hw⟩ := Option.isSome_iff_exists.mp hv.writer
        have hx : (buffers s.v.wbuf).bind (·[i]?) = some (some e) := by rw [hv.buffer]; exact he
        refine ⟨⟨w, ?_⟩, rest, ?_⟩
        · simp [Sys.resume, syswrite, hx, writeEnd, View.touch, hw, View.call, View.observe]
        · simp [Sys.resume, syswrite, hx, writeEnd, View.touch, hw, View.call]
  · cases step_cases hs with
    | ret hstk' ho =>
      obtain ⟨rfl, -⟩ := List.cons.inj (hstk'.symm.trans hstk)
      cases ho
      show (afterWrite s.now s.v true).closed = true
      rw [afterWrite]
      split
      · next hc => exact hc
      · exact ngxeClose_closed _

/-- As `Undisturbed`, whatever happens to the program's variables. -/
def AnyVariable (n : Nat) (s : Sys × Given) : Input ⊕ Stray → Prop
  | .inl i => Undisturbed n s.1 i
  | .inr _ => True

instance (s : Sys × Given) (i : Input ⊕ Stray) : Decidable (AnyVariable n s i) :=
  match i with
  | .inl i => inferInstanceAs (Decidable (Undisturbed n s.1 i))
  | .inr _ => inferInstanceAs (Decidable True)

/-- In every run from the first call of `_write` on, in which no variable that `_write` was given
    is assigned in its callback, what `syswrite` has accepted is a prefix of the load, the
    position is exact while the load is not finished, success is reported exactly once and
    exactly if everything was accepted, and an error closes the connection. -/
theorem load_transmitted (v : View) (sv : Sv) (now t : Int) (stk : List Frame) (s : Sys)
    (given given' : Given) (h : v.WriteStarts sv)
    (hstk : ∀ f ∈ stk, f.resumes = true ∧ f.sane = true)
    (hr : (aliased Sys.noteCall id).Reaches (Unassigned (Undisturbed v.trace.length))
      (startWrite now t v stk, given) (s, given')) :
    Transmits v.trace.length sv s ∧ ReportsErrno s := by
  have hv : Held sv v := ⟨h.opened, h.buffer, h.writer⟩
  have hstart : Sending v.trace.length sv (_write now v).1 ((_write now v).2 ++ stk) :=
    write_sending hv h.load (account_start v.trace) (.inr ⟨h.offset, h.index, rfl⟩)
  have hstack : StackOk ((_write now v).2 ++ stk) :=
    write_piece.frames.stackOk (fun f hf => (hstk f hf).1) fun f hf => (hstk f hf).2
  -- no variable is assigned, so the run is one of the connection alone
  have hrun : engine.Reaches (Undisturbed v.trace.length) (startWrite now t v stk) s :=
    hr.of_left.of_withNotes
  have hinv : StackOk s.stack ∧ Sending v.trace.length sv s.v s.stack :=
    hrun.invariant (I := fun s => StackOk s.stack ∧ Sending v.trace.length sv s.v s.stack)
      ⟨hstack, hstart⟩ fun _ _ _ hi hG hs =>
        ⟨stackOk_step hi.1 (step_cases hs), sending_step h.load hi.1 hi.2 hG (step_cases hs)⟩
  exact ⟨hinv.2.transmits, hinv.2.reportsErrno⟩

/-- A connection whose writer was given `sv`. -/
def View.withLoad (sv : Sv) : View :=
  { View.accepted 0 with
    events := [⟨.write, 0, none⟩]
    write := some 0
    wbuf := some sv
    win := true
    wout := true }

/-- An array with an empty element goes out in three parts, over two calls of `_write`. -/
theorem load_transmitted_array :
    ∃ s given, (aliased Sys.noteCall id).Reaches (Unassigned (Undisturbed 0))
        (startWrite 5 5 (.withLoad (.av [some [97, 98], some [], some [99]])) [], fun _ => false)
        (s, given) ∧
      Transmits 0 (.av [some [97, 98], some [], some [99]]) s ∧
      s.v.trace = [.ran .write, .sent [97], .sent [], .ran .write, .sent [98], .sent [99],
        .called 0 .write 0] := by
  obtain ⟨⟨s, given⟩, hr, ht⟩ := Machine.Reaches.of_run_map (M := aliased Sys.noteCall id)
    (G := Unassigned (Undisturbed 0))
    (s := (startWrite 5 5 (.withLoad (.av [some [97, 98], some [], some [99]])) [],
      fun _ => false))
    (fun s => s.1.v.trace)
    ([.syswrite (.accepted 1), .syswrite .intr, .syswrite .again, .select false true, .dispatch,
      .next, .syswrite (.accepted 1), .syswrite (.accepted 1)].map .inl)
    (show _ = some [.ran .write, .sent [97], .sent [], .ran .write, .sent [98], .sent [99],
      .called 0 .write 0] by decide +kernel)
  have htransmits := load_transmitted (.withLoad (.av [some [97, 98], some [], some [99]])) _ 5 5 []
    s _ given ⟨rfl, rfl, rfl, rfl, rfl, rfl⟩ (by simp) hr
  exact ⟨s, given, hr, htransmits.1, ht⟩

/-- A reference is sent by a call through the variable `$conn`, and the callback assigns `$conn`:
    the connection stays in `$win`, and the next pass of the loop sends the byte again. -/
theorem load_sent_again :
    ¬ ∀ (v : View) (sv : Sv) (now t : Int) (stk : List Frame) (s : Sys) (given given' : Given),
      v.WriteStarts sv → (∀ f ∈ stk, f.resumes = true ∧ f.sane = true) →
      (aliased Sys.noteCall id).Reaches (AnyVariable v.trace.length)
        (startWrite now t v stk, given) (s, given') → Transmits v.trace.length sv s := by
  intro hall
  obtain ⟨⟨s, given⟩, hr, ht⟩ := Machine.Reaches.of_run_map (M := aliased Sys.noteCall id)
    (G := AnyVariable 0)
    (s := (startWrite 5 5 (.withLoad (.rv [120])) [.outside], fun depth => depth == 1))
    (fun s => sentSince 0 s.1.v.trace)
    ([.inl (.syswrite (.accepted 1)), .inr .away] ++
      [.leave, .select false true, .dispatch, .next, .syswrite (.accepted 1)].map .inl)
    (show _ = some [120, 120] by decide +kernel)
  have hsent := (hall (.withLoad (.rv [120])) (.rv [120]) 5 5 [.outside] s _ given
    ⟨rfl, rfl, rfl, rfl, rfl, rfl⟩ (by decide) hr).sent
  have hlong := hsent.length_le
  have htwice : (sentSince 0 s.v.trace).length = 2 := congrArg List.length ht
  exact absurd (htwice ▸ hlong) (by decide)

end NginxEngine.PP
