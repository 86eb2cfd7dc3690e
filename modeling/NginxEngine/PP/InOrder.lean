import NginxEngine.Chunks
import NginxEngine.PP.Segments

/-!
# Loads go out in order

`_write` sends a load from the position `CN_WIND`, `CN_WOFF` and stores the position when
the socket is full. The code after the callback in `_read` takes the position back to the
beginning and starts the writer whenever there is something in the write buffer, also when
the callback itself has started a write that is not finished.

## Main definitions

- `progress` — the load a connection is at and what was sent of it
- `InOrder` — what is sent of a load up to its success callback is a prefix of it
- `FreshStart` — writers are started at the beginning of a load, or where they have stopped
- `NoRewind` — besides, no reader callback returns into a write that is in progress
- `SentWhole` — a load is sent whole before its callback reports success

## Main results

- `orderInv_of_reachable` — every run of such steps sends its loads in order
- `buffer_set_sends_whole` — every run of such steps sends its loads whole
- `buffer_set_sends_nothing` — an array is set after another one
-/

namespace NginxEngine.PP

open NginxEngine.XS (Bytes Sv)

variable {now t : Int} {v v' : View} {o : Outcome} {s s' : Sys} {l : List Obs} {x : Obs} {sv : Sv}
  {q : Progress} {i offset : Nat}

/-! ### What is observed of a load -/

/-- A load that has not been reported as sent, and the bytes accepted of it. -/
structure Progress where
  load : Sv
  sent : Bytes
deriving DecidableEq, Repr

def observe (p : Option Progress) : Obs → Option Progress
  | .loaded sv => some ⟨sv, []⟩
  | .sent b => p.map fun q => { q with sent := q.sent ++ b }
  | .called _ .write 0 => none
  | _ => p

/-- The load a connection is at. -/
def progress (l : List Obs) : Option Progress := l.foldl observe none

/-- What may be observed after `l`: the bytes put on the wire for a load up to its success
    callback are a prefix of it. -/
def Continues (l : List Obs) : Obs → Prop
  | .sent b => ∀ q, progress l = some q → q.sent ++ b <+: q.load.bytes
  | _ => True

def InOrder (l : List Obs) : Prop := Everywhere Continues l

def observePending (p : Option Progress) : Obs → Option Progress
  | .loaded sv => some ⟨sv, []⟩
  | .sent b => p.map fun q => { q with sent := q.sent ++ b }
  | .called _ .write _ => none
  | _ => p

/-- The load that no callback of the writer has followed. -/
def pending (l : List Obs) : Option Progress := l.foldl observePending none

/-- What may be observed after `l`: the bytes put on the wire up to the next callback of the
    writer are a prefix of the load, and all of it if the callback reports success. -/
def Sends (l : List Obs) : Obs → Prop
  | .sent b => ∀ q, pending l = some q → q.sent ++ b <+: q.load.bytes
  | .called _ .write 0 => ∀ q, pending l = some q → q.sent = q.load.bytes
  | _ => True

def SentWhole (l : List Obs) : Prop := Everywhere Sends l

/-- Some bytes of the load were sent, and others may be missing. -/
def View.partly (v : View) : Bool :=
  match progress v.trace with
  | some q => !q.sent.isEmpty
  | none => false

/-- The position is at the beginning of a load. -/
def View.atStart (v : View) (sv : Sv) : Bool :=
  decide (v.woff = 0) &&
  match sv with
  | .av xs => (xs.take v.wind).all fun e => (e.getD []).isEmpty
  | _ => true

/-- Nothing was sent of the load, and the position is not at its beginning. -/
def View.stale (v : View) : Bool :=
  match progress v.trace with
  | some q => q.sent.isEmpty && !v.atStart q.load
  | none => false

/-- Readers are created while no load is sent in part; the writer is started at the
    beginning of a load, or where it has stopped. -/
def FreshStart (s : Sys) : Input → Prop
  | .op (.reader _ _) => s.v.partly = false
  | .op (.writerBufferSet sv) => s.v.atStart sv = true
  | .op (.writerStart _) | .op .readerStopWriterStart | .next => s.v.stale = false
  | _ => True

/-- Besides, a callback for data returns while no load is sent in part, or with the reader
    stopped. -/
def NoRewind (s : Sys) (i : Input) : Prop :=
  FreshStart s i ∧
  match i, s.stack with
  | .ret, .readData _ :: _ => s.v.partly = false ∨ s.v.rin = false ∨ s.v.rout = false
  | _, _ => True

/-- As `NoRewind`, but `ngxe_writer_buffer_set` may find the position anywhere. -/
def AnyPosition (s : Sys) : Input → Prop
  | .op (.writerBufferSet _) => True
  | i => NoRewind s i

instance {i : Input} : Decidable (FreshStart s i) := by
  unfold FreshStart
  split <;> infer_instance

instance {i : Input} : Decidable (NoRewind s i) := by
  unfold NoRewind
  refine @instDecidableAnd _ _ inferInstance ?_
  split <;> infer_instance

instance {i : Input} : Decidable (AnyPosition s i) := by
  unfold AnyPosition
  split <;> infer_instance

theorem progress_append (l : List Obs) (x : Obs) :
    progress (l ++ [x]) = observe (progress l) x := by
  simp [progress]

theorem observe_neutral {p : Option Progress} (h : x.neutral = true) : observe p x = p := by
  rw [observe.eq_def]
  split
  · cases h
  · cases h
  · cases h
  · rfl

theorem pending_append (l : List Obs) (x : Obs) :
    pending (l ++ [x]) = observePending (pending l) x := by
  simp [pending]

theorem observePending_neutral (h : x.neutral = true) : observePending none x = none := by
  rw [observePending.eq_def]
  split
  · cases h
  · rfl
  · rfl
  · rfl

/-- A load that is pending is the one the connection is at. -/
theorem progress_of_pending (h : pending l = some q) : progress l = some q := by
  induction l using List.reverseRecOn generalizing q with
  | nil => cases h
  | append_singleton l x ih =>
    rw [pending_append] at h
    rw [progress_append]
    cases x with
    | loaded sv => exact h
    | sent b =>
      obtain ⟨q', hq', rfl⟩ := Option.map_eq_some_iff.mp h
      exact Option.map_eq_some_iff.mpr ⟨q', ih hq', rfl⟩
    | called ev args err =>
      cases args with
      | write => cases h
      | _ => exact ih h
    | _ => exact ih h

/-- What was observed so far is as it should be. -/
structure Sound (l : List Obs) : Prop where
  order : InOrder l
  whole : SentWhole l

theorem Sound.neutral (h : Sound l) (hx : x.neutral = true) : Sound (l ++ [x]) := by
  refine ⟨Everywhere.append h.order ?_, Everywhere.append h.whole ?_⟩
  · rw [Continues.eq_def]
    split
    · cases hx
    · trivial
  · rw [Sends.eq_def]
    split
    · cases hx
    · cases hx
    · trivial

theorem progress_neutral (hx : x.neutral = true) : progress (l ++ [x]) = progress l := by
  rw [progress_append, observe_neutral hx]

theorem pending_neutral (hx : x.neutral = true) (h : pending l = none) :
    pending (l ++ [x]) = none := by
  rw [pending_append, h, observePending_neutral hx]

theorem Sound.sent {b : Bytes} (h : Sound l)
    (hq : ∀ q, progress l = some q → q.sent ++ b <+: q.load.bytes) : Sound (l ++ [.sent b]) :=
  ⟨Everywhere.append h.order hq,
    Everywhere.append h.whole fun q hp => hq q (progress_of_pending hp)⟩

/-- The chunks of a list of elements. -/
def chunks (xs : List (Option Bytes)) : List Bytes := xs.map (·.getD [])

/-- What is left of a load behind the first `offset` bytes of the element `i`. -/
def unsentAt (sv : Sv) (i offset : Nat) : Bytes :=
  Chunks.rest ((chunks ((buffers (some sv)).getD [])).drop i) offset

theorem unsentAt_zero (sv : Sv) : unsentAt sv 0 0 = sv.bytes := by
  cases sv <;> simp [unsentAt, chunks, buffers, Sv.bytes]

theorem chunks_drop {xs : List (Option Bytes)} {b : Bytes} (h : xs[i]? = some (some b)) :
    (chunks xs).drop i = b :: (chunks xs).drop (i + 1) := by
  obtain ⟨hlt, hi⟩ := List.getElem?_eq_some_iff.mp h
  rw [chunks, ← List.map_drop, ← List.map_drop, List.drop_eq_getElem_cons hlt, hi]
  rfl

/-- The element `i` of a load. -/
def Sv.element (sv : Sv) (i : Nat) : Option (Option Bytes) := (buffers (some sv)).bind (·[i]?)

theorem unsentAt_element {b : Bytes} (h : Sv.element sv i = some (some b)) (offset : Nat) :
    unsentAt sv i offset
      = Chunks.rest (b :: (chunks ((buffers (some sv)).getD [])).drop (i + 1)) offset := by
  obtain ⟨xs, hxs, hi⟩ := Option.bind_eq_some_iff.mp h
  rw [unsentAt, hxs, Option.getD_some, chunks_drop hi]

theorem unsentAt_advance {b : Bytes} (h : Sv.element sv i = some (some b)) (offset n : Nat) :
    unsentAt sv i offset = (b.drop offset).take n ++ unsentAt sv i (offset + n) := by
  rw [unsentAt_element h, unsentAt_element h, Chunks.rest_advance]

theorem unsentAt_next {b : Bytes} (h : Sv.element sv i = some (some b)) :
    unsentAt sv i b.length = unsentAt sv (i + 1) 0 := by
  rw [unsentAt_element h, Chunks.rest_next (Nat.le_refl _)]
  rfl

/-- The offset is 0 or lies inside the first element. -/
def OffsetOk : List (Option Bytes) → Nat → Prop
  | some b :: _, offset => offset = 0 ∨ offset < b.length
  | _, offset => offset = 0

theorem offsetOk_zero (xs : List (Option Bytes)) : OffsetOk xs 0 := by
  rw [OffsetOk.eq_def]
  split
  · exact .inl rfl
  · rfl

/-- Where the loop of `_write` stops, what is left is what was left before. -/
theorem nextBuf_spec (xs : List (Option Bytes)) (i offset : Nat) (ho : OffsetOk xs offset) :
    match nextBuf xs i offset with
    | .done _ => Chunks.rest (chunks xs) offset = []
    | .die => True
    | .syswrite j => ∃ k b, j = i + k ∧ xs[k]? = some (some b) ∧ offset < b.length ∧
        Chunks.rest ((chunks xs).drop k) offset = Chunks.rest (chunks xs) offset := by
  induction xs generalizing i with
  | nil => rfl
  | cons e xs ih =>
    cases e with
    | none => trivial
    | some b =>
      rw [nextBuf]
      by_cases hlt : offset < b.length
      · rw [if_pos hlt]
        exact ⟨0, b, rfl, rfl, hlt, rfl⟩
      · rw [if_neg hlt]
        obtain rfl : offset = 0 := by
          rcases ho with ho | ho
          · exact ho
          · exact absurd ho hlt
        have hnil : b = [] := List.length_eq_zero_iff.mp (by omega)
        have hrest := ih (i + 1) (offsetOk_zero xs)
        revert hrest
        cases nextBuf xs (i + 1) 0 with
        | done j =>
          intro heq
          rw [Chunks.rest_zero] at heq ⊢
          simpa [chunks, hnil] using heq
        | die => exact id
        | syswrite j =>
          rintro ⟨k, b', hk, hx, hlen, heq⟩
          refine ⟨k + 1, b', by omega, hx, hlen, ?_⟩
          rw [Chunks.rest_zero] at heq ⊢
          rw [Chunks.rest_zero] at heq ⊢
          simpa [chunks, hnil] using heq

/-! ### The invariant -/

/-- A load is in the write buffer, and what was sent of it is what lies before a position. -/
structure View.Carries (v : View) (q : Progress) (i offset : Nat) : Prop where
  buffer : v.wbuf = some q.load
  inside : OffsetOk (((buffers (some q.load)).getD []).drop i) offset
  whole : q.sent ++ unsentAt q.load i offset = q.load.bytes

/-- There is nothing in the write buffer that `_write` would send: the connection is closed,
    or the buffer was emptied for a callback. -/
def View.Idle (v : View) : Prop :=
  (v.wbuf = none ∧ v.closed = true) ∨ (v.wbuf = some (.str []) ∧ pending v.trace = none)

/-- `_write` may go on from a position. -/
def View.ReadyAt (v : View) (i offset : Nat) : Prop :=
  ∀ q, progress v.trace = some q → v.Idle ∨ v.Carries q i offset

/-- `_write` waits for `syswrite` at a position. -/
def View.Sending (v : View) (i offset : Nat) : Prop :=
  ∀ q, progress v.trace = some q → v.Carries q i offset

/-- Where no `_write` is running: the load was not started, or can be resumed at the stored
    position. -/
def View.Settled (v : View) : Prop :=
  ∀ q, progress v.trace = some q →
    v.Idle ∨ (v.wbuf = some q.load ∧ q.sent = []) ∨ v.Carries q (firstIndex v) v.woff

/-- What holds with a list of frames above the rest of the stack. -/
def TopOk (v : View) : List Frame → Prop
  | .syswrite i offset :: _ => v.Sending i offset
  | .crash :: _ => True
  | _ => v.Settled

/-- What the code between two waits leaves. -/
structure OutcomeOk (o : Outcome) : Prop where
  sound : Sound o.1.trace
  top : TopOk o.1 o.2

structure OrderInv (s : Sys) : Prop where
  stack : StackOk s.stack
  sound : Sound s.v.trace
  top : TopOk s.v s.stack

namespace Keeps

theorem progress (h : Keeps v v') : progress v'.trace = PP.progress v.trace :=
  h.trace.invariant (Q := fun l => PP.progress l = PP.progress v.trace) rfl
    fun _ _ hl hx => (progress_neutral hx).trans hl

theorem pending (h : Keeps v v') (hp : pending v.trace = none) : PP.pending v'.trace = none :=
  h.trace.invariant (Q := fun l => PP.pending l = none) hp fun _ _ hl hx => pending_neutral hx hl

theorem sound (h : Keeps v v') (hs : Sound v.trace) : Sound v'.trace :=
  h.trace.invariant hs fun _ _ hl hx => hl.neutral hx

theorem idle (h : Keeps v v') (hi : v.Idle) : v'.Idle := by
  rcases hi with ⟨hb, hc⟩ | ⟨hb, hp⟩
  · exact .inl ⟨h.wbuf.trans hb, h.closed.trans hc⟩
  · exact .inr ⟨h.wbuf.trans hb, h.pending hp⟩

theorem carries (h : Keeps v v') (hc : v.Carries q i offset) : v'.Carries q i offset :=
  ⟨h.wbuf.trans hc.buffer, hc.inside, hc.whole⟩

theorem settled (h : Keeps v v') (hs : v.Settled) : v'.Settled := by
  intro q hq
  rcases hs q (h.progress.symm.trans hq) with hi | ⟨hb, he⟩ | hc
  · exact .inl (h.idle hi)
  · exact .inr (.inl ⟨h.wbuf.trans hb, he⟩)
  · refine .inr (.inr ?_)
    rw [h.firstIndex, h.woff]
    exact h.carries hc

end Keeps

theorem View.ReadyAt.keeps (h : v.ReadyAt i offset) (hk : Keeps v v') : v'.ReadyAt i offset := by
  intro q hq
  rcases h q (hk.progress.symm.trans hq) with hi | hc
  · exact .inl (hk.idle hi)
  · exact .inr (hk.carries hc)

theorem firstIndex_of_carries (h : v.Carries q i offset)
    (hx : (buffers v.wbuf).bind (·[i]?) ≠ none) : firstIndex { v with wind := i } = i := by
  rw [firstIndex]
  split
  · rfl
  · next hav =>
    -- a single buffer has only the element 0
    have hzero : ∀ b : Bytes, ([some b] : List (Option Bytes))[i]? ≠ none → 0 = i := by
      intro b hb
      by_contra hne
      exact hb (by rw [List.getElem?_eq_none_iff]; simp; omega)
    have hb : v.wbuf = some q.load := h.buffer
    cases hl : q.load with
    | undef =>
      rw [hb, hl] at hx
      exact hzero [] hx
    | str b =>
      rw [hb, hl] at hx
      exact hzero b hx
    | rv b =>
      rw [hb, hl] at hx
      exact hzero b hx
    | av xs => exact absurd (hb.trans (by rw [hl])) (hav xs)
    | rvOther =>
      rw [hb, hl] at hx
      exact absurd rfl hx

/-! ### `_write` -/

/-- Success ends a load that was sent. -/
theorem writeEnd_ok (h : Sound v.trace)
    (hall : ∀ q, pending v.trace = some q → q.sent = q.load.bytes) :
    OutcomeOk (writeEnd now v i offset false) := by
  cases hw : v.write with
  | none =>
    simp only [writeEnd, View.call, View.touch, hw]
    exact ⟨h, trivial⟩
  | some w =>
    simp only [writeEnd, View.call, View.touch, hw]
    refine ⟨⟨Everywhere.append h.order trivial, Everywhere.append h.whole hall⟩, fun q hq => ?_⟩
    rw [View.observe, progress_append] at hq
    cases hq

/-- An error leaves a string emptied, and a reference at its position. -/
theorem writeEnd_error (h : Sound v.trace) (hr : v.Sending i offset)
    (hx : (buffers v.wbuf).bind (·[i]?) ≠ none) : OutcomeOk (writeEnd now v i offset true) := by
  cases hw : v.write with
  | none =>
    simp only [writeEnd, View.call, View.touch, hw]
    exact ⟨h, trivial⟩
  | some w =>
    simp only [writeEnd, View.call, View.touch, hw, if_true]
    have hprog : progress (v.trace ++ [.called w .write 1]) = progress v.trace :=
      progress_neutral rfl
    refine ⟨h.neutral rfl, fun q hq => ?_⟩
    have hc := hr q (hprog.symm.trans hq)
    cases hauto : autoempty v.wbuf with
    | true =>
      refine .inl (.inr ⟨?_, pending_append _ _⟩)
      simp [View.observe]
    | false =>
      have hfirst := firstIndex_of_carries hc hx
      refine .inr (.inr ⟨hc.buffer, ?_, ?_⟩)
      · exact hfirst.symm ▸ hc.inside
      · exact hfirst.symm ▸ hc.whole

theorem nextBuf_idle {bufs : List (Option Bytes)} (hi : v.Idle) (hb : buffers v.wbuf = some bufs)
    (j : Nat) : nextBuf (bufs.drop i) i offset ≠ .syswrite j := by
  rcases hi with ⟨hi, _⟩ | ⟨hi, _⟩
  · rw [hi] at hb
    cases hb
  · rw [hi] at hb
    cases hb
    exact nextBuf_empty i offset j

/-- The loop is done only when the pending load has been sent. -/
theorem sent_of_done {bufs : List (Option Bytes)} {j : Nat} (hr : v.ReadyAt i offset)
    (hb : buffers v.wbuf = some bufs) (hn : nextBuf (bufs.drop i) i offset = .done j)
    (hq : pending v.trace = some q) : q.sent = q.load.bytes := by
  rcases hr q (progress_of_pending hq) with (⟨hi, _⟩ | ⟨_, hp⟩) | hc
  · rw [hi] at hb
    cases hb
  · rw [hp] at hq
    cases hq
  · have hload : buffers (some q.load) = some bufs := by rw [← hc.buffer, hb]
    have hinside := hc.inside
    rw [hload, Option.getD_some] at hinside
    have hspec := nextBuf_spec (bufs.drop i) i offset hinside
    rw [hn] at hspec
    have hnone : unsentAt q.load i offset = [] := by
      rw [unsentAt, hload, Option.getD_some, chunks, ← List.map_drop]
      exact hspec
    have hwhole := hc.whole
    rwa [hnone, List.append_nil] at hwhole

theorem writeLoop_ok (h : Sound v.trace) (hr : v.ReadyAt i offset) :
    OutcomeOk (writeLoop now v i offset) := by
  rw [writeLoop]
  split
  · exact ⟨h, trivial⟩
  · next bufs hb =>
    split
    · next j hn =>
      exact writeEnd_ok h fun q hq => sent_of_done hr hb hn hq
    · exact ⟨h, trivial⟩
    · next j hn =>
      refine ⟨h, fun q hq => ?_⟩
      rcases hr q hq with hi | hc
      · exact absurd hn (nextBuf_idle hi hb j)
      · have hload : buffers (some q.load) = some bufs := by rw [← hc.buffer, hb]
        have hinside := hc.inside
        have hwhole := hc.whole
        rw [hload, Option.getD_some] at hinside
        have hspec := nextBuf_spec (bufs.drop i) i offset hinside
        rw [hn] at hspec
        obtain ⟨k, b, rfl, hx, hlen, hrest⟩ := hspec
        refine ⟨hc.buffer, ?_, ?_⟩
        · rw [hload, Option.getD_some, ← List.drop_drop]
          have hlt : k < (bufs.drop i).length := (List.getElem?_eq_some_iff.mp hx).1
          rw [List.drop_eq_getElem_cons hlt, (List.getElem?_eq_some_iff.mp hx).2]
          exact .inr hlen
        · rw [unsentAt, hload, Option.getD_some] at hwhole ⊢
          rw [← List.drop_drop]
          rw [chunks, ← List.map_drop] at hwhole ⊢
          rw [chunks] at hrest
          rw [hrest]
          exact hwhole

theorem write_ok (h : Sound v.trace) (hr : v.ReadyAt (firstIndex v) v.woff) :
    OutcomeOk (_write now v) := by
  have hkeep : Keeps v (v.observe (.ran .write)) := Keeps.observe v rfl
  have hready : View.ReadyAt { v.observe (.ran .write) with wind := firstIndex v }
      (firstIndex v) v.woff := by
    intro q hq
    rcases hr.keeps hkeep q hq with hi | hc
    · exact .inl hi
    · exact .inr ⟨hc.buffer, hc.inside, hc.whole⟩
  exact writeLoop_ok (hkeep.sound h) hready

/-- The element that `syswrite` is given is one of the load. -/
theorem View.Carries.element {b : Bytes} (h : v.Carries q i offset)
    (hx : (buffers v.wbuf).bind (·[i]?) = some (some b)) : Sv.element q.load i = some (some b) := by
  rwa [h.buffer] at hx

/-- Bytes of the element at the position are a continuation of what was sent. -/
theorem Sound.sentElement {b : Bytes} (h : Sound v.trace) (hr : v.Sending i offset)
    (hx : (buffers v.wbuf).bind (·[i]?) = some (some b)) (n : Nat) :
    Sound (v.observe (.sent ((b.drop offset).take n))).trace := by
  refine h.sent fun q hq => ?_
  have hc := hr q hq
  refine ⟨unsentAt q.load i (offset + n), ?_⟩
  rw [List.append_assoc, ← unsentAt_advance (hc.element hx)]
  exact hc.whole

theorem progress_sent {b : Bytes} (hq : progress (v.observe (.sent b)).trace = some q) :
    ∃ q', progress v.trace = some q' ∧ q = { q' with sent := q'.sent ++ b } := by
  rw [View.observe, progress_append] at hq
  obtain ⟨q', hq', rfl⟩ := Option.map_eq_some_iff.mp hq
  exact ⟨q', hq', rfl⟩

theorem syswrite_ok {r : WriteResult} (h : Sound v.trace) (hr : v.Sending i offset)
    (ha : r.answers (v.element i) offset = true) : OutcomeOk (syswrite now v i offset r) := by
  rw [syswrite]
  split
  · next b hx =>
    cases r with
    | accepted n =>
      have hlen : offset + n ≤ b.length := by
        simp only [WriteResult.answers, View.element, hx, Option.bind_some, id_eq,
          Bool.and_eq_true, decide_eq_true_eq] at ha
        exact ha.2
      have hsound := h.sentElement hr hx n
      have hwhole : ∀ q, progress v.trace = some q →
          (q.sent ++ (b.drop offset).take n) ++ unsentAt q.load i (offset + n) = q.load.bytes := by
        intro q hq
        have hc := hr q hq
        rw [List.append_assoc, ← unsentAt_advance (hc.element hx)]
        exact hc.whole
      dsimp only
      split
      · next heq =>
        refine writeLoop_ok hsound fun q hq => .inr ?_
        obtain ⟨q', hq', rfl⟩ := progress_sent hq
        have hc := hr q' hq'
        refine ⟨hc.buffer, offsetOk_zero _, ?_⟩
        rw [← unsentAt_next (hc.element hx), ← heq]
        exact hwhole q' hq'
      · next hne =>
        refine ⟨hsound, fun q hq => ?_⟩
        obtain ⟨q', hq', rfl⟩ := progress_sent hq
        have hc := hr q' hq'
        refine ⟨hc.buffer, ?_, hwhole q' hq'⟩
        obtain ⟨xs, hxs, hi⟩ := Option.bind_eq_some_iff.mp (hc.element hx)
        obtain ⟨hlt, hi⟩ := List.getElem?_eq_some_iff.mp hi
        rw [hxs, Option.getD_some, List.drop_eq_getElem_cons hlt, hi]
        exact .inr (by omega)
    | again =>
      have hsound : Sound (v.observe (.sent [])).trace := by simpa using h.sentElement hr hx 0
      refine ⟨hsound, fun q hq => .inr (.inr ?_)⟩
      obtain ⟨q', hq', rfl⟩ := progress_sent hq
      have hc := hr q' hq'
      have hfirst := firstIndex_of_carries hc (by simp [hx])
      refine ⟨hc.buffer, ?_, ?_⟩
      · exact hfirst.symm ▸ hc.inside
      · rw [List.append_nil]
        exact hfirst.symm ▸ hc.whole
    | intr => exact ⟨h, hr⟩
    | error => exact writeEnd_error h hr (by simp [hx])
  · exact ⟨h, trivial⟩

theorem TopOk.of_settled {fs : List Frame} (h : v.Settled)
    (hf : fs.any Frame.isSyswrite = false) : TopOk v fs := by
  rw [TopOk.eq_def]
  split
  · cases hf
  · trivial
  · exact h

theorem Quiet.ok (hq : Quiet v o) (h : Sound v.trace) (hs : v.Settled) : OutcomeOk o :=
  ⟨hq.keeps.sound h, .of_settled (hq.keeps.settled hs) hq.quiet⟩

/-- Nothing was sent of the load in the buffer, wherever the position is. -/
def View.Unstarted (v : View) : Prop :=
  ∀ q, progress v.trace = some q → v.Idle ∨ (v.wbuf = some q.load ∧ q.sent = [])

theorem View.Unstarted.settled (h : v.Unstarted) : v.Settled := by
  intro q hq
  rcases h q hq with hi | hf
  · exact .inl hi
  · exact .inr (.inl hf)

theorem View.Settled.unstarted (h : v.Settled) (hp : v.partly = false) : v.Unstarted := by
  intro q hq
  have hsent : q.sent = [] := by simpa [View.partly, hq] using hp
  rcases h q hq with hi | hf | hc
  · exact .inl hi
  · exact .inr hf
  · exact .inr ⟨hc.buffer, hsent⟩

theorem unsentAt_atStart (hb : v.wbuf = some sv) (ha : v.atStart sv = true) :
    unsentAt sv (firstIndex v) v.woff = sv.bytes := by
  obtain ⟨hoff, hind⟩ := (Bool.and_eq_true _ _).mp ha
  rw [of_decide_eq_true hoff]
  rw [firstIndex]
  split
  · next xs hav =>
    obtain rfl : sv = .av xs := Option.some.inj (hb.symm.trans hav)
    refine Chunks.rest_drop_eq_flatten fun c hc => ?_
    rw [buffers, Option.getD_some, chunks, ← List.map_take] at hc
    obtain ⟨e, he, rfl⟩ := List.mem_map.mp hc
    exact List.isEmpty_iff.mp (List.all_eq_true.mp hind e he)
  · exact unsentAt_zero sv

/-- The writer may be started where the position is not stale. -/
theorem View.Settled.ready (h : v.Settled) (hstale : v.stale = false) :
    v.ReadyAt (firstIndex v) v.woff := by
  intro q hq
  rcases h q hq with hi | ⟨hb, hsent⟩ | hc
  · exact .inl hi
  · have hstart : v.atStart q.load = true := by simpa [View.stale, hq, hsent] using hstale
    refine .inr ⟨hb, ?_, ?_⟩
    · rw [of_decide_eq_true ((Bool.and_eq_true _ _).mp hstart).1]
      exact offsetOk_zero _
    · rw [hsent, List.nil_append]
      exact unsentAt_atStart hb hstart
  · exact .inr hc

theorem View.stale_of_atStart (h : ∀ q, progress v.trace = some q → v.atStart q.load = true) :
    v.stale = false := by
  rw [View.stale]
  split
  · next q hq => simp [h q hq]
  · rfl

theorem atStart_zero (ho : v.woff = 0) (hi : v.wind = 0) : v.atStart sv = true := by
  rw [View.atStart.eq_def]
  split
  · simp [ho, hi]
  · simp [ho]

/-- Starting the writer changes bits and deadlines before it calls `_write`. -/
theorem start_ok (hk : Keeps v v') (h : Sound v.trace) (hs : v.Settled)
    (hstale : v.stale = false) : OutcomeOk (_write now v') := by
  refine write_ok (hk.sound h) ?_
  rw [hk.firstIndex, hk.woff]
  exact (hs.ready hstale).keeps hk

theorem writerStart_ok (h : Sound v.trace) (hs : v.Settled) (hstale : v.stale = false)
    (timeout : Option Int) : OutcomeOk (ngxeWriterStart now v timeout) :=
  start_ok (v := v) (.of_eq rfl rfl rfl rfl rfl) h hs hstale

theorem readerStopWriterStart_ok (h : Sound v.trace) (hs : v.Settled) (hstale : v.stale = false) :
    OutcomeOk (ngxeReaderStopWriterStart now v) :=
  start_ok (v := v) (.of_eq rfl rfl rfl rfl rfl) h hs hstale

theorem load_ok (h : Sound v.trace) (sv : Sv) :
    Sound (v.load sv).trace ∧ (v.load sv).Unstarted ∧
      ∀ q, progress (v.load sv).trace = some q → q = ⟨sv, []⟩ := by
  have hprog : progress (v.load sv).trace = some ⟨sv, []⟩ := progress_append _ _
  refine ⟨⟨Everywhere.append h.order trivial, Everywhere.append h.whole trivial⟩,
    fun q hq => .inr ?_, fun q hq => ?_⟩
  · obtain rfl := Option.some.inj (hprog.symm.trans hq)
    exact ⟨rfl, rfl⟩
  · exact (Option.some.inj (hprog.symm.trans hq)).symm

theorem close_ok (h : Sound v.trace) (hs : v.Settled) : OutcomeOk (ngxeClose v, []) := by
  rw [ngxeClose]
  split
  · exact ⟨h, hs⟩
  · exact ⟨h.neutral rfl, fun q _ => .inl (.inl ⟨rfl, rfl⟩)⟩

theorem Tame.ok (ht : Tame v o) (h : Sound v.trace) (hs : v.Settled) : OutcomeOk o := by
  cases ht with
  | code _ ha => exact ha.toQuiet.ok h hs
  | close _ hk => exact close_ok (hk.keeps.sound h) (hk.keeps.settled hs)

theorem dispatchWrite_ok {win wout : Bool} {wev : Option Nat} (h : Sound v.trace)
    (hs : v.Settled) (hstale : v.stale = false) :
    OutcomeOk (dispatchWrite now t v win wout wev) := by
  rcases (dispatchWrite_cases now t v win wout wev).tame with ht | ⟨-, he⟩
  · exact ht.ok h hs
  · rw [he]
    exact start_ok (.refl v) h hs hstale

theorem createReader_ok (now : Int) (h : Sound v.trace) (hs : v.Settled) (hp : v.partly = false)
    (hopen : v.closed = false) (timeout : Int) : OutcomeOk (createReader now v timeout, []) := by
  refine ⟨h, View.Unstarted.settled fun q hq => ?_⟩
  rcases hs.unstarted hp q hq with (⟨_, hc⟩ | ⟨hi, hpend⟩) | ⟨hb, hsent⟩
  · rw [hopen] at hc
    cases hc
  · exact .inl (.inr ⟨by simp [createReader, View.withBuffers, hi], hpend⟩)
  · exact .inr ⟨by simp [createReader, View.withBuffers, hb], hsent⟩

theorem createWriter_ok (now : Int) (h : Sound v.trace) (timeout : Int) (buf : Sv) :
    Sound (createWriter now v timeout buf).trace ∧
      (createWriter now v timeout buf).Settled ∧
      (createWriter now v timeout buf).stale = false := by
  obtain ⟨hsound, hun, _⟩ := load_ok (v := v.withBuffers) h buf
  have hun' : (createWriter now v timeout buf).Unstarted := hun
  exact ⟨hsound, hun'.settled, View.stale_of_atStart fun q _ => atStart_zero rfl rfl⟩

theorem applyOp_ok {op : Op} (h : Sound s.v.trace) (hs : s.v.Settled)
    (hopen : s.v.closed = false ∨ op = .close) (hG : FreshStart s (.op op)) :
    OutcomeOk (applyOp s.now s.v op) := by
  have hkeep : ∀ v', Keeps s.v v' → OutcomeOk (v', []) :=
    fun v' hk => ⟨hk.sound h, hk.settled hs⟩
  cases op with
  | reader start timeout =>
    have hc := createReader_ok s.now h hs hG (hopen.resolve_right nofun) timeout
    cases start with
    | false => exact hc
    | true =>
      have hk : Keeps (createReader s.now s.v timeout)
          (ngxeReaderStart s.now (createReader s.now s.v timeout) none) :=
        .of_eq rfl rfl rfl rfl rfl
      exact ⟨hk.sound hc.sound, hk.settled hc.top⟩
  | readerStart timeout => exact hkeep _ (.of_eq rfl rfl rfl rfl rfl)
  | readerStop => exact hkeep _ (.of_eq rfl rfl rfl rfl rfl)
  | readerStopWriterStart => exact readerStopWriterStart_ok h hs hG
  | readerTimeout timeout => exact hkeep _ (.of_eq rfl rfl rfl rfl rfl)
  | writer start timeout buf =>
    obtain ⟨hsound, hsettled, hstale⟩ := createWriter_ok s.now h timeout buf
    cases start with
    | false => exact ⟨hsound, hsettled⟩
    | true => exact writerStart_ok hsound hsettled hstale none
  | writerStart timeout => exact writerStart_ok h hs hG timeout
  | writerStop => exact hkeep _ (.of_eq rfl rfl rfl rfl rfl)
  | writerStopReaderStart => exact hkeep _ (.of_eq rfl rfl rfl rfl rfl)
  | writerTimeout timeout => exact hkeep _ (.of_eq rfl rfl rfl rfl rfl)
  | writerBufferSet data =>
    obtain ⟨hsound, hun, hload⟩ := load_ok h data
    refine writerStart_ok hsound hun.settled (View.stale_of_atStart fun q hq => ?_) none
    rw [hload q hq]
    exact hG
  | close => exact close_ok h hs
  | setReadBuffer b => exact hkeep _ (.of_eq rfl rfl rfl rfl rfl)
  | setWriteBuffer sv =>
    obtain ⟨hsound, hun, _⟩ := load_ok h sv
    cases hb : s.v.wbuf.isSome with
    | true =>
      simp only [applyOp, hb, if_true]
      exact ⟨hsound, hun.settled⟩
    | false =>
      simp only [applyOp, hb]
      exact ⟨h, hs⟩
  | setMinLen n => exact hkeep _ (.of_eq rfl rfl rfl rfl rfl)

/-! ### Steps and runs -/

/-- The frames that were below become the top where nothing is left above them. -/
theorem OutcomeOk.resumeTop {rest : List Frame} (h : OutcomeOk o)
    (hrest : ∀ f ∈ rest, f.resumes = true) : TopOk o.1 (o.2 ++ rest) := by
  obtain ⟨v', fs⟩ := o
  have htop := h.top
  cases fs with
  | nil =>
    exact .of_settled htop (any_isSyswrite_of_resumes hrest)
  | cons f fs =>
    revert htop
    cases f <;> exact id

theorem TopOk.settled {f : Frame} {rest : List Frame} (h : TopOk v (f :: rest))
    (hf : f.isSyswrite = false) (hcrash : f ≠ .crash) : v.Settled := by
  revert h
  cases f with
  | syswrite i offset => cases hf
  | crash => exact absurd rfl hcrash
  | _ => exact id

theorem afterCallback_ok {f : Frame} {rest : List Frame} (h : OrderInv s)
    (hstk : s.stack = f :: rest) (ho : afterCallback s.now s.v f = some o)
    (hG : NoRewind s .ret) : OutcomeOk o := by
  have hsane : f.sane = true := h.stack.sane f (by rw [hstk]; exact List.mem_cons_self)
  have htop := h.top
  rw [hstk] at htop
  have hsettled : s.v.Settled := by
    refine htop.settled ?_ ?_
    · cases f <;> first | rfl | cases ho
    · rintro rfl
      cases ho
  cases afterCallback_cases ho with
  | tame hframes ht => exact ht.ok h.sound hsettled
  | switch hf hopen hrout hw =>
    -- the automatic switch to the writer begins the load again
    have hpartly : s.v.partly = false := by
      rcases hf with ⟨rfl, hrin⟩ | rfl
      · have hG' := hG.2
        rw [hstk] at hG'
        simpa [hrin, hrout] using hG'
      · cases hsane
    have hun : View.Unstarted { s.v with wind := 0, woff := 0 } := hsettled.unstarted hpartly
    exact readerStopWriterStart_ok h.sound hun.settled
      (View.stale_of_atStart fun q _ => atStart_zero rfl rfl)
  | stop hf hopen =>
    have hk : Keeps s.v (ngxeWriterStopReaderStart s.now s.v) := .of_eq rfl rfl rfl rfl rfl
    exact ⟨hk.sound h.sound, hk.settled hsettled⟩

theorem orderInv_step {i : Input} (h : OrderInv s) (hG : NoRewind s i) (hstep : Step s i s') :
    OrderInv s' := by
  have htop := h.top
  -- the code of the top frame goes on
  have hgo : ∀ {rest : List Frame} (o : Outcome), OutcomeOk o → (∀ f ∈ rest, f.resumes = true) →
      Sound (s.resume o rest).v.trace ∧ TopOk (s.resume o rest).v (s.resume o rest).stack :=
    fun _ ho hrest => ⟨ho.sound, ho.resumeTop hrest⟩
  suffices hgood : Sound s'.v.trace ∧ TopOk s'.v s'.stack from
    ⟨stackOk_step h.stack hstep, hgood.1, hgood.2⟩
  cases hstep with
  | tick n => exact ⟨h.sound, h.top⟩
  | select r w hstk =>
    rw [hstk] at htop
    have hk : Keeps s.v (s.select r w).v := .of_eq rfl rfl rfl rfl rfl
    refine ⟨h.sound, ?_⟩
    show TopOk (s.select r w).v s.stack
    rw [hstk]
    exact hk.settled htop
  | dispatch hstk hopen =>
    rw [hstk] at htop
    exact hgo _ ((dispatch_cases ..).tame.ok h.sound htop) nofun
  | next hstk =>
    rw [hstk] at htop
    exact hgo _ (dispatchWrite_ok h.sound htop hG.1) (h.stack.under hstk)
  | sysread r hstk hr =>
    rw [hstk] at htop
    exact hgo _ (sysread_aside.toQuiet.ok h.sound htop) (h.stack.under hstk)
  | syswrite r hstk hr =>
    rw [hstk] at htop
    exact hgo _ (syswrite_ok h.sound htop hr) (h.stack.under hstk)
  | accept ok hstk =>
    rw [hstk] at htop
    exact hgo _ ((accept_aside ok).toQuiet.ok h.sound htop) (h.stack.under hstk)
  | connect r hstk =>
    rw [hstk] at htop
    exact hgo _ (connect_aside.toQuiet.ok h.sound htop) (h.stack.under hstk)
  | ret hstk ho => exact hgo _ (afterCallback_ok h hstk ho hG) (h.stack.under hstk)
  | enter hstk =>
    rw [hstk] at htop
    exact ⟨h.sound, htop⟩
  | leave hstk =>
    rw [hstk] at htop
    exact hgo (s.v, []) ⟨h.sound, htop⟩ (h.stack.under hstk)
  | op o hstk hf hopen =>
    rw [hstk] at htop
    obtain ⟨hquiet, hcrash⟩ := isSyswrite_of_resumes (resumes_of_isPerl hf)
    have ho := applyOp_ok h.sound (htop.settled hquiet hcrash) hopen hG.1
    exact hgo _ ho (h.stack.perl hstk hf)

theorem orderInv_initial (h : Initial s) : OrderInv s := by
  have hempty : ∀ {v : View}, v.trace = [] → Sound v.trace ∧ v.Settled := by
    intro v hv
    refine ⟨?_, ?_⟩
    · rw [hv]
      exact ⟨everywhere_nil, everywhere_nil⟩
    · intro q hq
      rw [hv] at hq
      cases hq
  have hstack := stackOk_initial h
  cases h with
  | accepted now t fileno =>
    obtain ⟨h, hs⟩ := hempty (v := .accepted fileno) rfl
    exact ⟨hstack, h, hs⟩
  | server now t fileno =>
    obtain ⟨h, hs⟩ := hempty (v := .server fileno) rfl
    exact ⟨hstack, h, hs⟩
  | client now t fileno timeout =>
    obtain ⟨h, hs⟩ := hempty (v := .client now fileno timeout) rfl
    have ho : OutcomeOk (ngxeClient now fileno timeout) := startConnect_aside.toQuiet.ok h hs
    exact ⟨hstack, ho.sound, ho.resumeTop (by simp [Frame.resumes, Frame.isPerl])⟩

theorem orderInv_of_reachable (h : Reachable NoRewind s) : OrderInv s :=
  h.invariant (fun _ h => orderInv_initial h) fun _ _ _ hs hG hstep => orderInv_step hs hG hstep

/-- In every run of which each step meets `NoRewind`, a load goes out whole before its callback
    reports success, and a prefix of it if the callback reports something else. -/
theorem buffer_set_sends_whole (s : Sys) (h : Reachable NoRewind s) : SentWhole s.v.trace :=
  (orderInv_of_reachable h).sound.whole

/-- An array of two scalars is sent in three parts. -/
theorem buffer_set_sends_whole_array :
    ∃ s, Reachable NoRewind s ∧ SentWhole s.v.trace ∧
      s.v.trace = [.loaded (.str []), .loaded (.av [some [97, 98], some [99]]), .ran .write,
        .sent [97], .sent [], .ran .write, .sent [98], .sent [99], .called 0 .write 0] := by
  obtain ⟨s, hr, ht⟩ := Machine.Reaches.of_run_map (M := engine) (G := NoRewind)
    (s := ⟨.accepted 0, 5, 5, [.outside]⟩) (fun s => s.v.trace)
    [.op (.writer false 0 (.str [])), .op (.writerBufferSet (.av [some [97, 98], some [99]])),
      .syswrite (.accepted 1), .syswrite .again, .leave, .select false true, .dispatch, .next,
      .syswrite (.accepted 1), .syswrite (.accepted 1)]
    (show _ = some [.loaded (.str []), .loaded (.av [some [97, 98], some [99]]), .ran .write,
        .sent [97], .sent [], .ran .write, .sent [98], .sent [99], .called 0 .write 0] by
      decide +kernel)
  have hreach : Reachable NoRewind s := ⟨_, .accepted 5 5 0, hr⟩
  exact ⟨s, hreach, buffer_set_sends_whole s hreach, ht⟩

/-- A first array leaves the index behind its last element, and the second one is started
    there: success is reported for it and nothing was sent. -/
theorem buffer_set_sends_nothing : ¬ ∀ s, Reachable AnyPosition s → SentWhole s.v.trace := by
  intro hall
  obtain ⟨s, hr, htrace⟩ : ∃ s, engine.Reaches AnyPosition ⟨.accepted 0, 5, 5, [.outside]⟩ s ∧
      s.v.trace = [.loaded (.av [some [97]]), .ran .write, .sent [97], .called 0 .write 0,
        .loaded (.av [some [98]]), .ran .write] ++ .called 0 .write 0 :: [] :=
    Machine.Reaches.of_run_map (M := engine) (·.v.trace)
      [.op (.writer true 0 (.av [some [97]])), .syswrite (.accepted 1), .ret,
        .op (.writerBufferSet (.av [some [98]]))] (by decide +kernel)
  have hsent := hall s ⟨_, .accepted 5 5 0, hr⟩ _ _ _ htrace
  exact absurd (hsent ⟨.av [some [98]], []⟩ rfl) (by decide)

end NginxEngine.PP
