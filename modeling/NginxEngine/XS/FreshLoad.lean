import NginxEngine.Trace
import NginxEngine.XS.Position

/-!
# Loads of references are sent whole

A scalar reference or an array of scalar references is sent from the position
`s->writer_index`, `s->writer_offset` of the session, which outlives the load it
belongs to. The offset is back at 0 whenever no write is in progress; the index is
left at the end of the last array, and only the automatic switch, a streamed array
and `ngxe_writer_buffer_set` take it back.

## Main definitions

- `progress` — the last load of a connection and what was sent of it
- `SentWhole` — sending starts at the first byte, and success is reported only after
  the last one
- `FreshLoads` — loads are made while no write is in progress
- `LoadSafe` — besides, a fresh array is not started behind its first bytes

## Main results

- `loads_sent_whole` — every run of safe steps sends its loads whole
- `load_skipped` — a second array is reported as sent and was not
-/

namespace NginxEngine.XS

variable {cfg : Config} {ok : Bool} {c c' : Conn} {cb : Nat} {o : Outcome} {s t : Sys}
  {rest stk : List Frame} {l : List Obs} {x : Obs} {busy : Bool} {sv : Sv}

/-! ### What is observed of a load -/

/-- A load that has not been reported as sent, the bytes accepted of it, and whether
    `c->send` was called for it. -/
structure Progress where
  load : Sv
  sent : Bytes
  tried : Bool
deriving DecidableEq, Repr

def observe (p : Option Progress) : Obs → Option Progress
  | .loaded sv => some ⟨sv, [], false⟩
  | .sent b => p.map fun q => { q with sent := q.sent ++ b, tried := true }
  | .called _ _ (.writerDone _) none => none
  | _ => p

/-- The load a connection is at. -/
def progress (l : List Obs) : Option Progress := l.foldl observe none

/-- An error callback was entered; the connection is going to be closed. -/
def erred (l : List Obs) : Bool := l.any fun
  | .called _ _ .failed _ => true
  | _ => false

/-- What may be observed after `l`: the first bytes sent of a reference are its first
    bytes, and success comes after all its bytes were accepted. Where a write was
    started over, they were accepted once more, all of them unless an error callback
    is running. -/
def Allowed (l : List Obs) : Obs → Prop
  | .sent b => ∀ q, progress l = some q → q.load.isRef = true → q.sent = [] → b <+: q.load.bytes
  | .called _ _ (.writerDone _) none => ∀ q, progress l = some q → q.load.isRef = true →
      q.load.bytes.Sublist q.sent ∧ (erred l = false → q.load.bytes <:+ q.sent)
  | _ => True

def SentWhole (l : List Obs) : Prop := Everywhere Allowed l

/-- No write is in progress: nothing was loaded, the last load was reported as sent, or
    nothing of it was given to `c->send`. -/
def noWrite (l : List Obs) : Bool :=
  match progress l with
  | some q => !q.tried
  | none => true

/-- Loads are made while no write is in progress, and are shorter than 2^31 bytes. -/
def FreshLoads (s : Sys) : Input → Prop
  | .op (.setWriteBuffer sv) _ | .op (.writer _ _ sv) _ | .op (.writerBufferSet sv) _ =>
    noWrite s.c.trace = true ∧ sv.small = true
  | _ => True

/-- Elements before `index` hold bytes. -/
def Sv.skips : Sv → Nat → Bool
  | .av xs, index => (xs.take index).any fun e => !(e.getD []).isEmpty
  | _, _ => false

/-- The connection is at an array of which nothing was sent, and `s->writer_index` is
    behind its first bytes. -/
def Conn.stale (c : Conn) : Bool :=
  match progress c.trace with
  | some q => !q.tried && q.load.skips c.writerIndex
  | none => false

/-- Besides, the writer is not started, and no write event comes, while the session is
    at a stale position. -/
def LoadSafe (s : Sys) (i : Input) : Prop :=
  FreshLoads s i ∧
  match i with
  | .op (.writer true _ sv) _ => sv.skips s.c.writerIndex = false
  | .op (.writerStart _) _ | .op .readerStopWriterStart _ | .writeEvent => s.c.stale = false
  | _ => True

instance {i : Input} : Decidable (FreshLoads s i) := by
  unfold FreshLoads
  split <;> infer_instance

instance {i : Input} : Decidable (LoadSafe s i) := by
  unfold LoadSafe
  refine @instDecidableAnd _ _ inferInstance ?_
  split <;> infer_instance

theorem progress_append (l : List Obs) (x : Obs) :
    progress (l ++ [x]) = observe (progress l) x := by
  simp [progress]

theorem erred_append (l l' : List Obs) : erred (l ++ l') = (erred l || erred l') := by
  simp [erred]

/-- What neither loads, nor sends, nor reports success. -/
def Obs.neutral : Obs → Bool
  | .sent _ | .loaded _ | .called _ _ (.writerDone _) none => false
  | _ => true

theorem observe_neutral {p : Option Progress} (h : x.neutral = true) : observe p x = p := by
  unfold Obs.neutral at h
  split at h
  · cases h
  · cases h
  · cases h
  · rw [observe.eq_def]
    split
    · simp_all
    · simp_all
    · simp_all
    · rfl

theorem allowed_neutral (h : x.neutral = true) : Allowed l x := by
  unfold Obs.neutral at h
  rw [Allowed.eq_def]
  split
  · simp at h
  · simp at h
  · trivial

theorem SentWhole.neutral {l' : List Obs} (h : SentWhole l) (hl : ∀ x ∈ l', x.neutral = true) :
    SentWhole (l ++ l') ∧ progress (l ++ l') = progress l := by
  induction l' generalizing l with
  | nil => simpa using h
  | cons y l' ih =>
    have hy : y.neutral = true := hl y (by simp)
    have hstep := ih (Everywhere.append h (allowed_neutral hy)) fun x hx => hl x (by simp [hx])
    rw [List.append_assoc, List.singleton_append, progress_append, observe_neutral hy] at hstep
    exact hstep

/-- At the beginning everything is left. -/
theorem unsent_of_not_skips (hr : sv.isRef = true) (ho : c.writerOffset = 0)
    (hs : sv.skips c.writerIndex = false) : c.unsent sv = sv.bytes := by
  cases sv with
  | rv b => simp [Conn.unsent, Sv.bytes, ho]
  | av xs =>
    rw [Conn.unsent, ho, tailBytes_eq_rest, List.map_drop]
    refine Chunks.rest_drop_eq_flatten fun b hb => ?_
    rw [← List.map_take] at hb
    obtain ⟨e, he, rfl⟩ := List.mem_map.mp hb
    have hempty := List.any_eq_false.mp hs e he
    simpa using hempty
  | undef | str b | rvOther => cases hr

/-! ### The invariant -/

/-- The session is at a reference that was not reported as sent. `busy` when a handler
    is about to send from its position. -/
structure Conn.Carries (c : Conn) (busy : Bool) (q : Progress) : Prop where
  buffer : c.writerBuffer = some q.load
  small : q.load.small = true
  pos : c.PosOk q.load
  fresh : q.tried = false → c.writerOffset = 0 ∧ q.sent = []
  whole : q.tried = true ∨ busy = true → q.load.bytes.Sublist (q.sent ++ c.unsent q.load)
  exact : q.tried = true ∨ busy = true → erred c.trace = false →
    q.load.bytes <:+ q.sent ++ c.unsent q.load

/-- Nothing that a reference's handler would send is in the write buffer. -/
structure Conn.NoRef (c : Conn) : Prop where
  offset : c.writerOffset = 0
  buffer : ∀ sv, c.writerBuffer = some sv → sv.isRef = true → sv = .rv []

inductive Conn.LoadOk (busy : Bool) (c : Conn) : Prop
  | carries (q : Progress) (hq : progress c.trace = some q) (hr : q.load.isRef = true)
      (h : c.Carries busy q)
  | noRef (hq : ∀ q, progress c.trace = some q → q.load.isRef = false) (h : c.NoRef)

structure Conn.Loads (busy : Bool) (c : Conn) : Prop where
  sent : SentWhole c.trace
  load : c.LoadOk busy

/-- A frame is about to give bytes of the write buffer to `c->send`. -/
def Frame.sends (c : Conn) : Frame → Bool
  | .send k _ => (c.request k).isSome
  | _ => false

def busyTop (c : Conn) : List Frame → Bool
  | f :: _ => f.sends c
  | [] => false

structure LoadInv (s : Sys) : Prop where
  loads : s.c.Loads (busyTop s.c s.stack)
  perl : PerlBelow s.stack

theorem Conn.Loads.relax (h : c.Loads busy) : c.Loads false := by
  refine ⟨h.sent, ?_⟩
  cases h.load with
  | carries q hq hr h =>
    refine .carries q hq hr ⟨h.buffer, h.small, h.pos, h.fresh, fun ht => ?_, fun ht => ?_⟩
    · exact h.whole (ht.imp_right nofun)
    · exact h.exact (ht.imp_right nofun)
  | noRef hq h => exact .noRef hq h

/-- Code that keeps the buffer and the position. -/
theorem Conn.Loads.keep {l : List Obs} (h : c.Loads busy) (hb : c'.writerBuffer = c.writerBuffer)
    (ho : c'.writerOffset = c.writerOffset) (hi : c'.writerIndex = c.writerIndex)
    (ht : c'.trace = c.trace ++ l) (hl : ∀ x ∈ l, x.neutral = true) : c'.Loads busy := by
  obtain ⟨hsent, hprog⟩ := h.sent.neutral hl
  have herr : erred c'.trace = false → erred c.trace = false := by
    rw [ht, erred_append, Bool.or_eq_false_iff]
    exact And.left
  have hunsent : ∀ sv, c'.unsent sv = c.unsent sv := by
    intro sv
    cases sv <;> simp [Conn.unsent, ho, hi]
  have hpos : ∀ sv, c.PosOk sv → c'.PosOk sv := by
    intro sv
    cases sv <;> simp [Conn.PosOk, ho, hi]
  refine ⟨ht ▸ hsent, ?_⟩
  cases h.load with
  | carries q hq hr h =>
    refine .carries q (by rw [ht, hprog, hq]) hr
      ⟨hb.trans h.buffer, h.small, hpos _ h.pos, ?_, ?_, ?_⟩
    · rw [ho]
      exact h.fresh
    · rw [hunsent]
      exact h.whole
    · rw [hunsent]
      exact fun hx he => h.exact hx (herr he)
  | noRef hq h =>
    refine .noRef (by rw [ht, hprog]; exact hq) ⟨ho.trans h.offset, ?_⟩
    rw [hb]
    exact h.buffer

/-- The same, with nothing observed. -/
theorem Conn.Loads.same (h : c.Loads busy) (hb : c'.writerBuffer = c.writerBuffer)
    (ho : c'.writerOffset = c.writerOffset) (hi : c'.writerIndex = c.writerIndex)
    (ht : c'.trace = c.trace) : c'.Loads busy :=
  h.keep hb ho hi (by rw [ht, List.append_nil]) (by simp)

/-- A reference whose handler did not run yet, or that is started over from its
    beginning. -/
theorem Conn.Loads.start (h : c.Loads busy) (hs : c.stale = false) : c.Loads true := by
  refine ⟨h.sent, ?_⟩
  cases h.load with
  | carries q hq hr h =>
    have hall : q.tried = false → q.sent ++ c.unsent q.load = q.load.bytes := by
      intro htried
      obtain ⟨ho, hsent⟩ := h.fresh htried
      have hskip : q.load.skips c.writerIndex = false := by
        simpa [Conn.stale, hq, htried] using hs
      rw [hsent, unsent_of_not_skips hr ho hskip, List.nil_append]
    refine .carries q hq hr ⟨h.buffer, h.small, h.pos, h.fresh, fun _ => ?_, fun _ => ?_⟩
    · cases htried : q.tried with
      | true => exact h.whole (.inl htried)
      | false =>
        rw [hall htried]
    · cases htried : q.tried with
      | true => exact h.exact (.inl htried)
      | false =>
        rw [hall htried]
        exact fun _ => List.suffix_refl _
  | noRef hq h => exact .noRef hq h

theorem Conn.Loads.closed (h : c.Loads busy) : (ngxeClose c).Loads busy := by
  rw [ngxeClose]
  split
  · exact h
  · exact h.same rfl rfl rfl rfl

/-- `s->writer_offset = 0; s->writer_index = 0;`. -/
theorem Conn.Loads.reset (h : c.Loads busy) :
    Conn.Loads true { c with writerOffset := 0, writerIndex := 0 } := by
  refine ⟨h.sent, ?_⟩
  cases h.load with
  | carries q hq hr h =>
    have hskip : q.load.skips 0 = false := by
      cases q.load <;> simp [Sv.skips]
    have hall : Conn.unsent { c with writerOffset := 0, writerIndex := 0 } q.load = q.load.bytes :=
      unsent_of_not_skips hr rfl hskip
    refine .carries q hq hr ⟨h.buffer, h.small, posOk_zero rfl _, fun ht => ?_, fun _ => ?_,
      fun _ _ => ?_⟩
    · exact ⟨rfl, (h.fresh ht).2⟩
    · rw [hall]
      exact List.sublist_append_right _ _
    · rw [hall]
      exact List.suffix_append _ _
  | noRef hq h => exact .noRef hq ⟨rfl, h.buffer⟩

/-! ### Writer code -/

/-- What an outcome leaves. -/
def LoadsAt (o : Outcome) : Prop := o.1.Loads (busyTop o.1 o.2)

theorem loadsAt_fail {e : CbError} (h : c.Loads busy) : LoadsAt (fail c cb e) :=
  h.relax.keep rfl rfl rfl rfl (by simp [Obs.neutral])

theorem unsent_rewind {index : Nat} (hi : index = c.writerIndex ∨ index = 0) (sv : Sv) :
    c.unsent sv <:+ Conn.unsent { c with writerOffset := 0, writerIndex := index } sv := by
  cases sv with
  | rv b => exact List.drop_suffix _ _
  | av xs =>
    show tailBytes (xs.drop c.writerIndex) c.writerOffset <:+ tailBytes (xs.drop index) 0
    rw [tailBytes_zero]
    rcases hi with rfl | rfl
    · exact tailBytes_suffix _ _
    · exact tailBytes_drop_suffix _ _ _
  | undef | str b | rvOther => exact List.suffix_refl _

/-- An error exit that takes the position back. -/
theorem loadsAt_fail_rewind {e : CbError} {index : Nat} (h : c.Loads busy)
    (hi : index = c.writerIndex ∨ index = 0) :
    LoadsAt (fail { c with writerOffset := 0, writerIndex := index } cb e) := by
  have hcall : ∀ r, erred (c.trace ++ [.called cb r .failed (some e)]) = true := by
    intro r
    rw [erred_append]
    simp [erred]
  obtain ⟨hsent, hprog⟩ :
      SentWhole (c.trace ++ [.called cb c.callbacks[cb]? .failed (some e)]) ∧
        progress (c.trace ++ [.called cb c.callbacks[cb]? .failed (some e)]) = progress c.trace :=
    h.sent.neutral (by simp [Obs.neutral])
  refine ⟨hsent, ?_⟩
  cases h.load with
  | carries q hq hr h =>
    refine .carries q (hprog.trans hq) hr ⟨h.buffer, h.small, posOk_zero rfl _, fun ht => ?_,
      fun ht => ?_, fun _ he => ?_⟩
    · exact ⟨rfl, (h.fresh ht).2⟩
    · refine (h.whole (ht.imp_right nofun)).trans ?_
      exact List.Sublist.append_left (unsent_rewind hi q.load).sublist _
    · exact absurd (he.symm.trans (hcall _)) (by decide)
  | noRef hq h => exact .noRef (fun q hq' => hq q (hprog.symm.trans hq')) ⟨rfl, h.buffer⟩

theorem loadsAt_waitWritable {k : Kind} (h : c.Loads busy) :
    LoadsAt (waitWritable cfg ok k c cb) := by
  rw [waitWritable]
  split
  · cases k with
    | plain => exact loadsAt_fail h
    | rvpv | rvpvav => exact loadsAt_fail_rewind h (.inl rfl)
  · next c₁ h₁ =>
    rw [handleWrite_eq h₁]
    exact h.relax.same rfl rfl rfl rfl

/-- A success callback with nothing of a reference left. -/
theorem loadsAt_done {k : Kind} (hsent : SentWhole c.trace)
    (hq : ∀ q, progress c.trace = some q → q.load.isRef = true →
      q.load.bytes.Sublist q.sent ∧ (erred c.trace = false → q.load.bytes <:+ q.sent))
    (hno : c.NoRef) : LoadsAt (ngxeCallback c cb none (.writerDone k)) := by
  refine ⟨Everywhere.append hsent hq, .noRef (fun q hq' => ?_) ⟨hno.offset, hno.buffer⟩⟩
  have hnone : progress (c.trace ++ [.called cb c.callbacks[cb]? (.writerDone k) none]) = none := by
    rw [progress_append]
    rfl
  cases hnone.symm.trans hq'

theorem Conn.Carries.finished {q : Progress} (h : c.Carries true q)
    (hu : c.unsent q.load = []) :
    q.load.bytes.Sublist q.sent ∧ (erred c.trace = false → q.load.bytes <:+ q.sent) := by
  have hwhole := h.whole (.inr rfl)
  have hexact := h.exact (.inr rfl)
  rw [hu, List.append_nil] at hwhole hexact
  exact ⟨hwhole, hexact⟩

/-- With a plain buffer the session is at no reference. -/
theorem Conn.Loads.noRef (h : c.Loads busy) (hb : c.writerBuffer = some sv)
    (hr : sv.isRef = false) :
    (∀ q, progress c.trace = some q → q.load.isRef = false) ∧ c.NoRef := by
  cases h.load with
  | carries q hq hr' h =>
    rw [h.buffer, Option.some.injEq] at hb
    rw [hb, hr] at hr'
    cases hr'
  | noRef hq h => exact ⟨hq, h⟩

/-- With an array in the buffer the session is at it. -/
theorem Conn.Loads.carries {xs : List (Option Bytes)} (h : c.Loads busy)
    (hb : c.writerBuffer = some (.av xs)) :
    ∃ q, progress c.trace = some q ∧ q.load = .av xs ∧ c.Carries busy q := by
  cases h.load with
  | carries q hq hr h =>
    have hbuf := h.buffer
    rw [hb, Option.some.injEq] at hbuf
    exact ⟨q, hq, hbuf.symm, h⟩
  | noRef hq h => cases h.buffer _ hb rfl

theorem loadsAt_rvpvavNextBuf (h : c.Loads true) : LoadsAt (rvpvavNextBuf c cb) := by
  rw [rvpvavNextBuf]
  split
  · next xs hb =>
    obtain ⟨q, hq, hload, hc⟩ := h.carries hb
    have hsmall : ∀ e ∈ xs.drop c.writerIndex, (e.getD []).length < 2 ^ 31 := by
      intro e he
      have hall := hc.small
      rw [hload, Sv.small, List.all_eq_true] at hall
      exact of_decide_eq_true (hall e (List.mem_of_mem_drop he))
    have hpos : OffsetOk (xs.drop c.writerIndex) c.writerOffset := by
      have hp := hc.pos
      rw [hload] at hp
      exact hp
    have hspec := nextBuf_spec (xs.drop c.writerIndex) c.writerIndex c.writerOffset hsmall hpos
    split
    · next index offset hn =>
      rw [hn] at hspec
      obtain ⟨hempty, rfl⟩ := hspec
      have hfin := hc.finished (by rw [hload]; exact hempty)
      refine loadsAt_done h.sent (fun q' hq' _ => ?_) ⟨rfl, fun sv hsv hr => ?_⟩
      · have hqq : some q = some q' := hq.symm.trans hq'
        cases hqq
        exact hfin
      · cases hsv
        cases hr
    · exact loadsAt_fail_rewind h (.inr rfl)
    · next index offset hn =>
      rw [hn] at hspec
      obtain ⟨k, -, rfl, -, -, hok, heq, hz⟩ := hspec
      rw [List.drop_drop] at hok heq
      have hunsent : Conn.unsent { c with writerIndex := c.writerIndex + k, writerOffset := offset }
          q.load = c.unsent q.load := by
        rw [hload]
        exact heq
      refine ⟨h.sent, .carries q hq (by rw [hload]; rfl) ⟨hc.buffer, hc.small, ?_, fun ht => ?_,
        fun _ => ?_, fun _ he => ?_⟩⟩
      · rw [hload]
        exact hok
      · exact ⟨hz (hc.fresh ht).1, (hc.fresh ht).2⟩
      · rw [hunsent]
        exact hc.whole (.inr rfl)
      · rw [hunsent]
        exact hc.exact (.inr rfl) he
  · exact h.relax

/-- Bytes of a reference are accepted, and the position moves over them. -/
theorem Conn.Carries.sent {q : Progress} {b : Bytes} (h : c.Carries true q)
    (hb : c'.writerBuffer = c.writerBuffer) (ht : c'.trace = c.trace ++ [.sent b])
    (hu : c.unsent q.load = b ++ c'.unsent q.load) (hpos : c'.PosOk q.load) :
    c'.Carries true { q with sent := q.sent ++ b, tried := true } := by
  have happ : q.sent ++ c.unsent q.load = (q.sent ++ b) ++ c'.unsent q.load := by
    rw [hu, List.append_assoc]
  refine ⟨hb.trans h.buffer, h.small, hpos, nofun, fun _ => ?_, fun _ he => ?_⟩
  · have hwhole := h.whole (.inr rfl)
    rw [happ] at hwhole
    exact hwhole
  · rw [ht, erred_append, Bool.or_eq_false_iff] at he
    have hexact := h.exact (.inr rfl) he.1
    rw [happ] at hexact
    exact hexact

/-- The last bytes of a reference are accepted. -/
theorem Conn.Carries.sentAll {q : Progress} {b : Bytes} (h : c.Carries true q)
    (hu : c.unsent q.load = b) :
    q.load.bytes.Sublist (q.sent ++ b) ∧
      (erred (c.trace ++ [.sent b]) = false → q.load.bytes <:+ q.sent ++ b) := by
  have hwhole := h.whole (.inr rfl)
  have hexact := h.exact (.inr rfl)
  rw [hu] at hwhole hexact
  refine ⟨hwhole, fun he => hexact ?_⟩
  rw [erred_append, Bool.or_eq_false_iff] at he
  exact he.1

/-- What is accepted first are the first bytes of the load. -/
theorem Conn.Carries.allowed {q : Progress} {b : Bytes} (h : c.Carries true q)
    (hq : progress c.trace = some q) (hp : b <+: c.unsent q.load) :
    Allowed c.trace (.sent b) := by
  intro q' hq' _ hsent
  obtain rfl : q = q' := Option.some.inj (hq.symm.trans hq')
  have hwhole := h.whole (.inr rfl)
  rw [hsent, List.nil_append] at hwhole
  have hall : c.unsent q.load = q.load.bytes :=
    (unsent_suffix c q.load).eq_of_length_le hwhole.length_le
  rwa [hall] at hp

theorem progress_sent {b : Bytes} {q : Progress} (hq : progress l = some q) :
    progress (l ++ [.sent b]) = some { q with sent := q.sent ++ b, tried := true } := by
  rw [progress_append, hq]
  rfl

/-- A write of a plain string goes on. -/
theorem Conn.Loads.plain {b : Bytes} (hsent : SentWhole c.trace)
    (hq : ∀ q, progress c.trace = some q → q.load.isRef = false) (hno : c'.NoRef)
    (ht : c'.trace = c.trace ++ [.sent b]) : c'.Loads busy ∧
      ∀ q, progress c'.trace = some q → q.load.isRef = false := by
  have hload : ∀ q, progress c'.trace = some q → q.load.isRef = false := by
    intro q hq'
    rw [ht, progress_append] at hq'
    cases hp : progress c.trace with
    | none =>
      rw [hp] at hq'
      cases hq'
    | some q₀ =>
      rw [hp] at hq'
      cases hq'
      exact hq q₀ hp
  refine ⟨⟨?_, .noRef hload hno⟩, hload⟩
  rw [ht]
  refine Everywhere.append hsent fun q hq' hr _ => ?_
  rw [hq q hq'] at hr
  cases hr

theorem loadsAt_sendPlain {b : Bytes} {n : Nat} (h : c.Loads true)
    (hb : c.writerBuffer = some (.str b)) :
    LoadsAt (sendAccepted cfg ok .plain c cb ⟨b, b.length⟩ n) := by
  obtain ⟨hq, hno⟩ := h.noRef hb rfl
  have hno' : ∀ w : Event WriteHandler, Conn.NoRef { c with
      write := w
      trace := c.trace ++ [Obs.sent (b.take n)]
      writerBuffer := some (.str (b.drop n)) } := by
    intro w
    refine ⟨hno.offset, fun sv hsv hr => ?_⟩
    cases hsv
    cases hr
  have hmove : ∀ w : Event WriteHandler, Conn.Loads false { c with
      write := w
      trace := c.trace ++ [Obs.sent (b.take n)]
      writerBuffer := some (.str (b.drop n)) } ∧
        ∀ q, progress (c.trace ++ [Obs.sent (b.take n)]) = some q → q.load.isRef = false :=
    fun w => Conn.Loads.plain h.sent hq (hno' w) rfl
  dsimp only [sendAccepted]
  split
  · exact loadsAt_waitWritable (hmove _).1
  · refine loadsAt_done (hmove c.write).1.sent (fun q hq' hr => ?_) (hno' _)
    rw [(hmove c.write).2 q hq'] at hr
    cases hr

/-- A scalar reference in the write buffer is the load. -/
theorem Conn.Carries.rv {q : Progress} {b : Bytes} (h : c.Carries busy q)
    (hb : c.writerBuffer = some (.rv b)) :
    q.load = .rv b ∧ c.PosOk (.rv b) ∧ b.length < 2 ^ 31 := by
  have hload : Sv.rv b = q.load := Option.some.inj (hb.symm.trans h.buffer)
  have hsmall : (Sv.rv b).small = true := hload ▸ h.small
  exact ⟨hload.symm, hload ▸ h.pos, of_decide_eq_true hsmall⟩

/-- `SENDAGAIN` of a scalar reference that `c->send` takes `n` bytes of. -/
theorem loadsAt_sendRvpv {b : Bytes} {n : Nat} (h : c.Loads true)
    (hb : c.writerBuffer = some (.rv b)) (hn : 0 < n)
    (hle : (n : Int) ≤ remaining b c.writerOffset) :
    LoadsAt (sendAccepted cfg ok .rvpv c cb
      ⟨b.drop c.writerOffset.toNat, remaining b c.writerOffset⟩ n) := by
  cases h.load with
  | noRef hq hno =>
    have hempty := hno.buffer _ hb rfl
    cases hempty
    rw [hno.offset] at hle
    simp [remaining, toSsize] at hle
    omega
  | carries q hq hr hc =>
    obtain ⟨hload, hpos, hsmall⟩ := hc.rv hb
    have hbound : 0 ≤ c.writerOffset ∧ c.writerOffset ≤ b.length := by
      rcases hpos with h | h
      · omega
      · omega
    obtain ⟨h0, hlen⟩ := hbound
    rw [remaining_eq hsmall h0 hlen] at hle ⊢
    have hoff : toInt32 (c.writerOffset + n) = c.writerOffset + n :=
      toInt32_eq (by omega) (by omega)
    have hsplit := drop_toNat_add (b := b) (n := n) h0
    have hsent : SentWhole (c.trace ++ [Obs.sent ((b.drop c.writerOffset.toNat).take n)]) := by
      refine Everywhere.append h.sent (hc.allowed hq ?_)
      rw [hload]
      exact List.take_prefix _ _
    dsimp only [sendAccepted]
    rw [hoff]
    split
    · next b' hb' =>
      obtain rfl : b = b' := by simpa [hb] using hb'
      split
      · next hmore =>
        refine loadsAt_waitWritable
          ⟨hsent, .carries _ (progress_sent hq) hr (hc.sent rfl rfl ?_ ?_)⟩
        · rw [hload]
          exact hsplit
        · rw [hload]
          refine .inr ⟨?_, ?_⟩
          · show 0 ≤ c.writerOffset + n
            omega
          · show c.writerOffset + n < b.length
            rw [remaining_eq hsmall (by omega) (by omega)] at hmore
            omega
      · next hdone =>
        have hempty : b.drop (c.writerOffset + n).toNat = [] :=
          (remaining_le_zero hsmall (by omega) (by omega)).mp (by omega)
        have hall : c.unsent q.load = (b.drop c.writerOffset.toNat).take n := by
          rw [hempty, List.append_nil] at hsplit
          rw [hload]
          exact hsplit
        refine loadsAt_done hsent (fun q' hq' _ => ?_) ⟨rfl, fun sv hsv hr => ?_⟩
        · have hqq := (progress_sent hq).symm.trans hq'
          cases hqq
          exact hc.sentAll hall
        · cases hsv
          cases hr
    · next hb' => exact absurd hb (hb' b)

/-- `SENDAGAIN` of an element of an array that `c->send` takes `n` bytes of. -/
theorem loadsAt_sendRvpvav {xs : List (Option Bytes)} {b : Bytes} {n : Nat} (h : c.Loads true)
    (hb : c.writerBuffer = some (.av xs)) (hx : xs[c.writerIndex]? = some (some b))
    (hle : (n : Int) ≤ remaining b c.writerOffset) :
    LoadsAt (sendAccepted cfg ok .rvpvav c cb
      ⟨b.drop c.writerOffset.toNat, remaining b c.writerOffset⟩ n) := by
  obtain ⟨q, hq, hload, hc⟩ := h.carries hb
  have hr : q.load.isRef = true := by
    rw [hload]
    rfl
  obtain ⟨hlt, hget⟩ := List.getElem?_eq_some_iff.mp hx
  have hdrop : xs.drop c.writerIndex = some b :: xs.drop (c.writerIndex + 1) := by
    rw [List.drop_eq_getElem_cons hlt, hget]
  have hpos := hc.pos
  have hsmall := hc.small
  rw [hload] at hpos hsmall
  rw [Conn.PosOk, hdrop] at hpos
  obtain ⟨h0, hlen⟩ := hpos
  have hlen : c.writerOffset ≤ b.length := hlen
  have hsmall : b.length < 2 ^ 31 :=
    of_decide_eq_true (List.all_eq_true.mp hsmall (some b) (List.mem_of_getElem? hx))
  rw [remaining_eq hsmall h0 hlen] at hle ⊢
  have hoff : toInt32 (c.writerOffset + n) = c.writerOffset + n :=
    toInt32_eq (by omega) (by omega)
  have hunsent : c.unsent q.load = (b.drop c.writerOffset.toNat).take n ++
      tailBytes (some b :: xs.drop (c.writerIndex + 1)) (c.writerOffset + n) := by
    have hnat : (c.writerOffset + n).toNat = c.writerOffset.toNat + n := by omega
    rw [hload, Conn.unsent, hdrop, tailBytes_eq_rest, tailBytes_eq_rest, hnat]
    exact Chunks.rest_advance b _ _ n
  have hsent : SentWhole (c.trace ++ [Obs.sent ((b.drop c.writerOffset.toNat).take n)]) := by
    refine Everywhere.append h.sent (hc.allowed hq ?_)
    rw [hunsent]
    exact List.prefix_append _ _
  dsimp only [sendAccepted]
  rw [hoff]
  split
  · next xs' hb' =>
    obtain rfl : xs = xs' := by simpa [hb] using hb'
    split
    · next b' hx' =>
      obtain rfl : b = b' := by simpa [hx] using hx'
      split
      · refine loadsAt_waitWritable
          ⟨hsent, .carries _ (progress_sent hq) hr (hc.sent rfl rfl ?_ ?_)⟩
        · rw [hunsent, hload, Conn.unsent, hdrop]
        · rw [hload, Conn.PosOk, hdrop]
          show 0 ≤ c.writerOffset + n ∧ c.writerOffset + n ≤ b.length
          omega
      · next hdone =>
        have hempty : b.drop (c.writerOffset + n).toNat = [] :=
          (remaining_le_zero hsmall (by omega) (by omega)).mp (by omega)
        refine loadsAt_rvpvavNextBuf
          ⟨hsent, .carries _ (progress_sent hq) hr (hc.sent rfl rfl ?_ ?_)⟩
        · rw [hunsent, hload, Conn.unsent, tailBytes_zero]
          show _ ++ (b.drop (c.writerOffset + n).toNat ++ _) = _
          rw [hempty]
          rfl
        · exact posOk_zero rfl _
    · next hx' => exact absurd hx (hx' b)
  · next hb' => exact absurd hb (hb' xs)

/-- `NGX_AGAIN`: nothing was accepted. -/
theorem Conn.Loads.again {w : Event WriteHandler} (h : c.Loads true) :
    Conn.Loads true { c with write := w, trace := c.trace ++ [Obs.sent []] } := by
  cases h.load with
  | carries q hq hr hc =>
    refine ⟨h.sent.append (hc.allowed hq (List.nil_prefix)),
      .carries _ (progress_sent hq) hr (hc.sent rfl rfl rfl ?_)⟩
    have hpos := hc.pos
    cases hl : q.load <;> rw [hl] at hpos <;> exact hpos
  | noRef hq hno =>
    have hno' : Conn.NoRef { c with write := w, trace := c.trace ++ [Obs.sent []] } :=
      ⟨hno.offset, hno.buffer⟩
    exact (Conn.Loads.plain h.sent hq hno' rfl).1

theorem Conn.Loads.any (h : c.Loads true) : c.Loads busy := by
  cases busy with
  | true => exact h
  | false => exact h.relax

theorem loadsAt_resetOnEventError {k : Kind} (h : c.Loads busy) :
    LoadsAt (fail (resetOnEventError k c) cb .eventError) := by
  cases k with
  | plain => exact loadsAt_fail h
  | rvpv | rvpvav => exact loadsAt_fail_rewind h (.inl rfl)

theorem loadsAt_resetOnWriteError {k : Kind} (h : c.Loads busy) :
    LoadsAt (fail (resetOnWriteError k c) cb .writeError) := by
  cases k with
  | plain => exact loadsAt_fail h
  | rvpv => exact loadsAt_fail_rewind h (.inl rfl)
  | rvpvav => exact loadsAt_fail_rewind h (.inr rfl)

theorem loadsAt_writerSend {k : Kind} {r : SendResult} (h : c.Loads (c.request k).isSome)
    (hr : r.answers (c.request k) = true) : LoadsAt (writerSend cfg ok k c cb r) := by
  rw [writerSend]
  cases hq : c.request k with
  | none => exact h.relax
  | some q =>
    rw [hq] at h hr
    have h : c.Loads true := h
    dsimp only
    cases r with
    | error =>
      have h' : Conn.Loads true { c with write := { c.write with error := true } } :=
        h.same rfl rfl rfl rfl
      exact loadsAt_resetOnWriteError h'
    | zero =>
      have h' : Conn.Loads true { c with write := { c.write with ready := false } } :=
        h.same rfl rfl rfl rfl
      exact loadsAt_resetOnWriteError h'
    | again =>
      dsimp only
      have h' : Conn.Loads true { c with
          write := { c.write with ready := false }, trace := c.trace ++ [Obs.sent []] } := h.again
      split
      · exact loadsAt_resetOnEventError h'
      · next c₁ h₁ =>
        rw [handleWrite_eq h₁]
        have h₁ : Conn.Loads true { c with
            write := { c.write with ready := false, active := c₁.write.active }
            trace := c.trace ++ [Obs.sent []] } := h'.same rfl rfl rfl rfl
        split
        · exact h₁.any
        · exact h₁.relax.same rfl rfl rfl rfl
    | accepted n =>
      dsimp only
      simp only [SendResult.answers, Bool.and_eq_true, decide_eq_true_eq] at hr
      obtain ⟨hn, hle⟩ := hr
      unfold Conn.request at hq
      split at hq
      · next b hb =>
        cases hq
        exact loadsAt_sendPlain h hb
      · next b hb =>
        cases hq
        exact loadsAt_sendRvpv h hb hn hle
      · next xs hb =>
        split at hq
        · next b hx =>
          cases hq
          exact loadsAt_sendRvpvav h hb hx hle
        · cases hq
      · cases hq

/-- A scalar reference of which nothing is left is empty. -/
theorem Conn.Loads.rvEmpty {b : Bytes} (h : c.Loads true) (hb : c.writerBuffer = some (.rv b))
    (hrem : remaining b c.writerOffset ≤ 0) :
    b = [] ∧ ∀ q, progress c.trace = some q → q.load.isRef = true →
      q.load.bytes.Sublist q.sent ∧ (erred c.trace = false → q.load.bytes <:+ q.sent) := by
  cases h.load with
  | noRef hq hno =>
    refine ⟨?_, fun q hq' hr => ?_⟩
    · cases hno.buffer _ hb rfl
      rfl
    · rw [hq q hq'] at hr
      cases hr
  | carries q hq hr hc =>
    obtain ⟨hload, hpos, hsmall⟩ := hc.rv hb
    have hzero : c.writerOffset = 0 := by
      rcases hpos with hz | ⟨h0, hlt⟩
      · exact hz
      · rw [remaining_eq hsmall h0 (by omega)] at hrem
        omega
    have hnil : b = [] := by
      rw [remaining_eq hsmall (by omega) (by omega), hzero] at hrem
      exact List.length_eq_zero_iff.mp (by omega)
    refine ⟨hnil, fun q' hq' _ => ?_⟩
    obtain rfl : q = q' := Option.some.inj (hq.symm.trans hq')
    refine hc.finished ?_
    rw [hload, Conn.unsent, hnil, List.drop_nil]

theorem loadsAt_ngxeWriterHandler {ev : Event WriteHandler} (h : c.Loads true) :
    LoadsAt (ngxeWriterHandler c ev) := by
  have hdel : Conn.Loads true { c with write := c.write.delTimer } := h.same rfl rfl rfl rfl
  rw [ngxeWriterHandler]
  split
  · exact h.relax
  · exact h.relax
  · next w b _ hb =>
    rw [ngxeRvpvWriterHandler]
    split
    · exact loadsAt_fail h
    · dsimp only
      split
      · next hrem =>
        obtain ⟨rfl, hq⟩ := h.rvEmpty hb hrem
        refine loadsAt_done h.sent hq ⟨rfl, fun sv hsv _ => ?_⟩
        exact (Option.some.inj (hb.symm.trans hsv)).symm
      · exact hdel.any
  · rw [ngxeRvpvavWriterHandler]
    split
    · exact loadsAt_fail h
    · exact loadsAt_rvpvavNextBuf hdel
  · exact loadsAt_fail h
  · next w sv hrv hav _ _ hb =>
    have hplain : sv.isRef = false := by
      cases sv with
      | rv b => exact absurd rfl (hrv b)
      | av xs => exact absurd rfl (hav xs)
      | undef | str b | rvOther => rfl
    split
    · exact loadsAt_fail h
    · dsimp only
      split
      · obtain ⟨hq, hno⟩ := h.noRef hb hplain
        refine loadsAt_done h.sent (fun q hq' hr => ?_) ⟨hno.offset, hno.buffer⟩
        rw [hq q hq'] at hr
        cases hr
      · exact hdel.any

theorem loadsAt_failUnchecked {w : Option Nat} {e : CbError} (h : c.Loads busy) :
    LoadsAt (failUnchecked c w e) := by
  cases w with
  | none => exact h.relax
  | some w => exact loadsAt_fail h

theorem loadsAt_ngxeWriterStart (h : c.Loads true) : LoadsAt (ngxeWriterStart cfg ok c) := by
  have hi : c.installWriter.Loads true := h.same rfl rfl rfl rfl
  rw [ngxeWriterStart]
  split
  · exact loadsAt_failUnchecked hi
  · next c₁ h₁ =>
    have harm : c₁.armWrite.Loads true := by
      rw [Conn.armWrite, handleWrite_eq h₁]
      exact hi.same rfl rfl rfl rfl
    split
    · exact loadsAt_ngxeWriterHandler harm
    · exact harm.relax

/-- A scalar reference is never at a stale position. -/
theorem Conn.Loads.rvpv (h : c.Loads false) : c.Loads (c.request .rvpv).isSome := by
  cases hb : c.writerBuffer with
  | none => simpa [Conn.request, hb] using h
  | some sv =>
    cases sv with
    | rv b =>
      have hreq : (c.request .rvpv).isSome = true := by simp [Conn.request, hb]
      rw [hreq]
      refine h.start ?_
      cases h.load with
      | noRef hq hno =>
        rw [Conn.stale]
        split
        · next q hq' =>
          have hplain := hq q hq'
          cases hl : q.load <;> simp [hl, Sv.isRef, Sv.skips] at hplain ⊢
        · rfl
      | carries q hq hr hc =>
        have hbuf := hc.buffer
        rw [hb, Option.some.injEq] at hbuf
        simp [Conn.stale, hq, ← hbuf, Sv.skips]
    | undef | str b | av xs | rvOther => simpa [Conn.request, hb] using h

theorem loadsAt_continueWriter {k : Kind} (h : c.Loads false) (hb : c.writerBuffer = some sv)
    (hmore : moreToWrite k sv = true) : LoadsAt (continueWriter cfg ok k c cb) := by
  rw [continueWriter.eq_def]
  cases k with
  | plain =>
    dsimp only
    have hplain : sv.isRef = false := by
      cases sv <;> simp [moreToWrite, Sv.cur, Sv.isRef] at hmore ⊢
    obtain ⟨hq, hno⟩ := h.noRef hb hplain
    split
    · exact ⟨h.sent, .noRef hq hno⟩
    · exact loadsAt_waitWritable h
  | rvpv =>
    dsimp only
    split
    · exact h.rvpv
    · exact loadsAt_waitWritable h
  | rvpvav =>
    dsimp only
    split
    · exact loadsAt_rvpvavNextBuf h.reset
    · exact loadsAt_waitWritable h.reset

theorem Conn.Loads.reader (h : c.Loads busy) (hm : ReaderMove cb c c') : c'.Loads busy := by
  obtain ⟨l, ht, hl⟩ := hm.trace
  refine h.keep hm.writerBuffer ?_ ?_ ht fun x hx => ?_
  · rw [hm.frame]
  · rw [hm.frame]
  · have hobs := hl x hx
    cases x with
    | received b => rfl
    | sent b | loaded sv => exact hobs.elim
    | called cb' r site err =>
      rcases hobs.2.2 with rfl | rfl
      · rfl
      · rfl

theorem loadsAt_reader (h : c.Loads false) (ho : ReaderOutcome cb c o) : LoadsAt o := by
  have hc := h.reader ho.move
  obtain ⟨c', fs⟩ := o
  cases ho.frames <;> exact hc

theorem loadsAt_ngxeReaderStart (h : c.Loads busy) : LoadsAt (ngxeReaderStart cfg ok c) := by
  obtain ⟨cb, hcb⟩ := exists_readerCallback c
  have hi : c.installReader.Loads false := h.relax.same rfl rfl rfl rfl
  exact loadsAt_reader hi (ngxeReaderStart_outcome hcb)

theorem WriterReturns.loadsAt {k : Kind} (ho : WriterReturns cfg ok k c cb o) (h : c.Loads false) :
    LoadsAt o := by
  cases ho with
  | ret hret | crash hopen hh hbad => exact h
  | more hopen hh hb hmore => exact loadsAt_continueWriter h hb hmore
  | reader hopen hh hb hrv hmore hr =>
    have hstop : (ngxeWriterStop c).Loads false := h.same rfl rfl rfl rfl
    exact loadsAt_ngxeReaderStart hstop
  | rest hopen hh hb hmore hr => exact h

theorem ReaderReturns.loadsAt (ho : ReaderReturns cfg ok c cb o) (h : c.Loads false) :
    LoadsAt o := by
  cases ho with
  | ret hret => exact h
  | switch hsw =>
    have hstop : (ngxeReaderStop { c with writerOffset := 0, writerIndex := 0 }).Loads true :=
      h.reset.same rfl rfl rfl rfl
    exact loadsAt_ngxeWriterStart hstop
  | reads hopen hh hwants hreads => exact loadsAt_reader h hreads.outcome

/-- While no write is in progress the offset is 0. -/
theorem Conn.Loads.offset (h : c.Loads busy) (hn : noWrite c.trace = true) :
    c.writerOffset = 0 := by
  cases h.load with
  | carries q hq hr hc =>
    have htried : q.tried = false := by simpa [noWrite, hq] using hn
    exact (hc.fresh htried).1
  | noRef hq hno => exact hno.offset

theorem progress_loaded (l : List Obs) (sv : Sv) :
    progress (l ++ [.loaded sv]) = some ⟨sv, [], false⟩ := by
  rw [progress_append]
  rfl

/-- A load made while no write is in progress. -/
theorem Conn.Loads.loaded (h : c.Loads busy) (hn : noWrite c.trace = true)
    (hsmall : sv.small = true) : (c.load sv).Loads false := by
  have ho : (c.load sv).writerOffset = 0 := h.offset hn
  have hq : progress (c.load sv).trace = some ⟨sv, [], false⟩ := progress_loaded _ _
  refine ⟨Everywhere.append h.sent trivial, ?_⟩
  cases hr : sv.isRef with
  | true =>
    refine .carries _ hq hr ⟨rfl, hsmall, posOk_zero ho _, fun _ => ⟨ho, rfl⟩, ?_, ?_⟩
    · exact fun ht => ht.elim nofun nofun
    · exact fun ht => ht.elim nofun nofun
  | false =>
    refine .noRef (fun q hq' => ?_) ⟨ho, fun sv' hb hr' => ?_⟩
    · cases hq.symm.trans hq'
      exact hr
    · cases hb
      exact absurd (hr.symm.trans hr') (by decide)

theorem stale_load (c : Conn) (sv : Sv) : (c.load sv).stale = sv.skips c.writerIndex := by
  simp only [Conn.stale, Conn.load, progress_loaded]
  rfl

theorem small_pokOn (hs : sv.small = true) : sv.pokOn.small = true := by
  cases sv <;> first | rfl | exact hs

theorem skips_pokOn (sv : Sv) (index : Nat) : sv.pokOn.skips index = sv.skips index := by
  cases sv <;> rfl

/-- `ngxe_writer_buffer_set` starts every load at its beginning. -/
theorem loadsAt_writerBufferSet (h : c.Loads false) (hn : noWrite c.trace = true)
    (hsmall : sv.small = true) : LoadsAt (ngxeWriterBufferSet cfg ok c sv) := by
  have hplain : ∀ sv : Sv, sv.small = true → (∀ index, sv.skips index = false) →
      (c.load sv).Loads true := by
    intro sv hsmall hskip
    exact (h.loaded hn hsmall).start (by rw [stale_load, hskip])
  rw [ngxeWriterBufferSet.eq_def]
  split
  · exact h
  · next b _ =>
    have ho : c.writerOffset = 0 := h.offset hn
    have hc : Conn.Loads true { c.load (.rv b) with writerOffset := 0 } :=
      (hplain (.rv b) hsmall fun _ => rfl).same rfl ho.symm rfl rfl
    exact loadsAt_ngxeWriterStart hc
  · exact loadsAt_ngxeWriterStart (h.loaded hn hsmall).reset
  · exact h
  · exact loadsAt_ngxeWriterStart (hplain _ hsmall fun _ => rfl)
  · next data _ _ _ _ _ hav _ _ =>
    refine loadsAt_ngxeWriterStart (hplain _ (small_pokOn hsmall) fun index => ?_)
    rw [skips_pokOn]
    cases data with
    | av xs => exact absurd rfl (hav xs)
    | undef | str b | rv b | rvOther => rfl

theorem loadsAt_op {op : Op} (h : s.c.Loads false) (hG : LoadSafe s (.op op ok)) :
    LoadsAt (applyOp cfg ok s.c op) := by
  obtain ⟨hfresh, hsafe⟩ := hG
  cases op with
  | reader start timeout =>
    have hc : (createReader cfg s.c timeout).Loads false := by
      refine (⟨h.sent, ?_⟩ : (createReader cfg s.c timeout).Loads false)
      cases h.load with
      | carries q hq hr hc =>
        have hb : (createReader cfg s.c timeout).writerBuffer = some q.load := by
          simp [createReader, hc.buffer]
        exact .carries q hq hr ⟨hb, hc.small, hc.pos, hc.fresh, hc.whole, hc.exact⟩
      | noRef hq hno =>
        refine .noRef hq ⟨hno.offset, fun sv hb hr => ?_⟩
        cases hbuf : s.c.writerBuffer with
        | none =>
          simp only [createReader, hbuf, Option.getD_none, Option.some.injEq] at hb
          rw [← hb] at hr
          cases hr
        | some sv' =>
          simp only [createReader, hbuf, Option.getD_some, Option.some.injEq] at hb
          exact hno.buffer sv (by rw [hbuf, hb]) hr
    cases start with
    | true => exact loadsAt_ngxeReaderStart hc
    | false => exact hc
  | readerStart timeout =>
    have hc : (s.c.withReaderTimeout timeout).Loads false := h.same rfl rfl rfl rfl
    exact loadsAt_ngxeReaderStart hc
  | readerStop => exact h.same rfl rfl rfl rfl
  | readerStopWriterStart =>
    have hc : (ngxeReaderStop s.c).Loads true := (h.start hsafe).same rfl rfl rfl rfl
    exact loadsAt_ngxeWriterStart hc
  | readerTimeout timeout => exact h.same rfl rfl rfl rfl
  | writer start timeout buffer =>
    have hload := h.loaded hfresh.1 (small_pokOn hfresh.2)
    cases start with
    | true =>
      have hc : (createWriter cfg s.c timeout buffer).Loads true :=
        (hload.start (by rw [stale_load, skips_pokOn]; exact hsafe)).same rfl rfl rfl rfl
      exact loadsAt_ngxeWriterStart hc
    | false => exact hload.same rfl rfl rfl rfl
  | writerStart timeout =>
    have hc : (s.c.withWriterTimeout timeout).Loads true := (h.start hsafe).same rfl rfl rfl rfl
    exact loadsAt_ngxeWriterStart hc
  | writerStop => exact h.same rfl rfl rfl rfl
  | writerStopReaderStart =>
    have hc : (ngxeWriterStop s.c).Loads false := h.same rfl rfl rfl rfl
    exact loadsAt_ngxeReaderStart hc
  | writerTimeout timeout => exact h.same rfl rfl rfl rfl
  | writerBufferSet data => exact loadsAt_writerBufferSet h hfresh.1 hfresh.2
  | close => exact h.closed
  | setReadBuffer b => exact h.same rfl rfl rfl rfl
  | setWriteBuffer sv =>
    simp only [applyOp]
    split
    · exact h.loaded hfresh.1 hfresh.2
    · exact h
  | setMinLen cb n => exact h.same rfl rfl rfl rfl

/-! ### Runs -/

theorem loadsAt_clientInit {H : Type} {ev : Event H} (h : c.Loads false) :
    LoadsAt (ngxeClientInitHandler c ev) := by
  have ho := clientInit_cases c ev
  generalize ngxeClientInitHandler c ev = o at ho ⊢
  cases ho with
  | none hcb => exact h.same rfl rfl rfl rfl
  | call w err site hcb hw hsite =>
    refine h.keep rfl rfl rfl rfl ?_
    rcases hsite with rfl | rfl
    · simp [Obs.neutral]
    · simp [Obs.neutral]

theorem loadsAt_callReadHandler (h : c.Loads false) : LoadsAt (callReadHandler cfg c) := by
  obtain ⟨cb, hcb⟩ := exists_readerCallback c
  rw [callReadHandler]
  split
  · exact h
  · exact loadsAt_reader h (ngxeReaderHandler_outcome hcb)
  · exact loadsAt_clientInit h

theorem loadsAt_callWriteHandler (h : c.Loads true) : LoadsAt (callWriteHandler c) := by
  rw [callWriteHandler]
  split
  · exact h.relax
  · exact loadsAt_ngxeWriterHandler h
  · exact loadsAt_clientInit h.relax

/-- An expired timer sends nothing, so it may find a stale position. -/
theorem loadsAt_writeExpired (h : c.Loads false) : LoadsAt (callWriteHandler c.expireWrite) := by
  have hc : c.expireWrite.Loads false := h.same rfl rfl rfl rfl
  rw [callWriteHandler]
  split
  · exact hc
  · cases hw : c.expireWrite.hasWriter with
    | true =>
      obtain ⟨cb, e, he⟩ :=
        ngxeWriterHandler_timedout hw (rfl : c.expireWrite.write.timedout = true)
      rw [he]
      exact loadsAt_fail hc
    | false =>
      rw [ngxeWriterHandler_of_not_hasWriter hw]
      exact hc
  · exact loadsAt_clientInit hc

theorem busyTop_of_perl {stk : List Frame} (h : ∀ g ∈ stk, g.isPerl = true) :
    busyTop c stk = false := by
  cases stk with
  | nil => rfl
  | cons f rest =>
    have hf : f.isPerl = true := h f (by simp)
    cases f with
    | send k cb => cases hf
    | recv cb | inCallback cb site | outside | crash => rfl

theorem busyTop_append {fs : List Frame} (h : ∀ g ∈ rest, g.isPerl = true) :
    busyTop c (fs ++ rest) = busyTop c fs := by
  cases fs with
  | nil => exact busyTop_of_perl h
  | cons f fs => rfl

theorem LoadsAt.resume (h : LoadsAt o) (hrest : ∀ g ∈ rest, g.isPerl = true) :
    (resume o rest).c.Loads (busyTop o.1 (o.2 ++ rest)) := by
  rw [busyTop_append hrest]
  exact h

theorem loads_step {i : Input} (h : LoadInv s) (hG : LoadSafe s i) (hs : Step cfg s i t) :
    t.c.Loads (busyTop t.c t.stack) := by
  have hloads := h.loads
  cases hs with
  | arrive b hb he | arriveEof he | hangup => exact hloads.same rfl rfl rfl rfl
  | @readEvent c hopen hr =>
    have hc : c.takeRead.Loads false := hloads.same rfl rfl rfl rfl
    exact (loadsAt_callReadHandler hc).resume (by simp)
  | @writeEvent c hopen ha =>
    have hc : c.takeWrite.Loads true := (hloads.start hG.2).same rfl rfl rfl rfl
    exact (loadsAt_callWriteHandler hc).resume (by simp)
  | @readTimer c hopen ht =>
    have hc : c.expireRead.Loads false := hloads.same rfl rfl rfl rfl
    exact (loadsAt_callReadHandler hc).resume (by simp)
  | writeTimer hopen ht => exact (loadsAt_writeExpired hloads).resume (by simp)
  | enter => exact hloads
  | @leave c rest =>
    have hbusy : busyTop c rest = false := busyTop_of_perl h.perl
    rw [hbusy]
    exact hloads
  | op o ok hf hopen =>
    exact (loadsAt_op hloads.relax hG).resume (List.forall_mem_cons.mpr ⟨hf, h.perl⟩)
  | @recv c cb rest err ok =>
    exact (loadsAt_reader hloads readerRecv_outcome).resume h.perl
  | send r ok hr => exact (loadsAt_writerSend hloads hr).resume h.perl
  | @ret c cb site rest ok =>
    have hafter : LoadsAt (afterCallback cfg ok c cb site) := by
      cases site with
      | readerData => exact (afterReader_cases cfg ok c cb).loadsAt hloads
      | writerDone k => exact (afterWriter_cases cfg ok k c cb).loadsAt hloads
      | failed =>
        have hc : (c.release cb).Loads false := hloads.same rfl rfl rfl rfl
        exact hc.closed
      | connected => exact hloads.same rfl rfl rfl rfl
    exact hafter.resume h.perl

theorem loads_initial (h : Initial cfg s) : s.c.Loads (busyTop s.c s.stack) := by
  have hnone : ∀ q, progress [] = some q → q.load.isRef = false := nofun
  cases h with
  | accepted => exact ⟨everywhere_nil, .noRef hnone ⟨rfl, nofun⟩⟩
  | client connected timeout =>
    have hc : (Conn.client cfg.method connected timeout).Loads false :=
      ⟨everywhere_nil, .noRef hnone ⟨rfl, nofun⟩⟩
    refine LoadsAt.resume ?_ (by simp [Frame.isPerl])
    rw [ngxeClient]
    dsimp only
    split
    · exact loadsAt_clientInit hc
    · exact hc.same rfl rfl rfl rfl

/-- In every run of safe steps every load of references is sent from its first byte, and
    success is reported only after its last one. -/
theorem loads_sent_whole (cfg : Config) (s : Sys) (h : Reachable cfg LoadSafe s) :
    SentWhole s.c.trace := by
  have hinv : LoadInv s := by
    refine h.invariant (fun _ h₀ => ⟨loads_initial h₀, perlBelow_initial h₀⟩) ?_
    exact fun _ _ _ h hG hs => ⟨loads_step h hG hs, perlBelow_step h.perl hs⟩
  exact hinv.loads.sent

theorem loads_sent_whole_array :
    ∃ s, Reachable ⟨.clear, 4096, 4080⟩ LoadSafe s ∧ SentWhole s.c.trace ∧
      s.c.trace = [.loaded (.av [some [97, 98], some [99]]), .sent [97], .sent [98], .sent [99],
        .called 0 (some ⟨.writer, false, 0⟩) (.writerDone .rvpvav) none] := by
  have hr : Reachable ⟨.clear, 4096, 4080⟩ LoadSafe _ :=
    ⟨_, .accepted, .of_run [.op (.writer true 0 (.av [some [97, 98], some [99]])) true,
      .send (.accepted 1) true, .leave, .writeEvent, .send (.accepted 1) true,
      .send (.accepted 1) true] rfl⟩
  exact ⟨_, hr, loads_sent_whole _ _ hr, rfl⟩

/-- A second array is given to `ngxe_writer` after the first one was sent. The writer
    starts at `s->writer_index`, which is 1 from the first array, and reports success
    without having sent anything. -/
theorem load_skipped :
    ¬ ∀ cfg s, Reachable cfg FreshLoads s → SentWhole s.c.trace := by
  intro h
  have hr : Reachable ⟨.clear, 4096, 4080⟩ FreshLoads _ :=
    ⟨_, .accepted, .of_run [.op (.writer true 0 (.av [some [97]])) true, .send (.accepted 1) true,
      .ret true, .op (.writer true 0 (.av [some [98]])) true] rfl⟩
  have hsent := h _ _ hr [.loaded (.av [some [97]]), .sent [97],
    .called 0 (some ⟨.writer, false, 0⟩) (.writerDone .rvpvav) none, .loaded (.av [some [98]])]
    (.called 1 (some ⟨.writer, false, 0⟩) (.writerDone .rvpvav) none) [] rfl
  have hlen := (hsent _ rfl rfl).1.length_le
  exact absurd hlen (by decide)

end NginxEngine.XS
