import NginxEngine.PP.Segments
import NginxEngine.XS.Echo

/-!
# The echo program on the pure-Perl engine

The echo server of the README as a pipe, as `NginxEngine.XS.Echo` has it for the C engine. While
`_write` is running the position in the write buffer is its own `$offset`; it is stored in
`CN_WOFF` when control goes back to the loop.

## Main definitions

- `View.pipe` — a connection as a pipe
- `EchoProgram` — what the callbacks do
- `EchoAt` — what holds of a connection, by its frames

## Main results

- `echo_of_reaches` — every run of a started connection is a run of a pipe
- `echo_conserved` — both engines conserve what comes in
-/

namespace NginxEngine.PP

open NginxEngine.XS (Bytes Sv)

variable {now t : Int} {v v' : View} {o : Outcome} {s s' : Sys} {x : Obs} {i offset fno : Nat}
  {f : Frame} {rest stk : List Frame} {b : Bytes}

def Obs.isLoaded : Obs → Bool
  | .loaded _ => true
  | _ => false

/-- A connection as a pipe: what `sysread` and `syswrite` have moved, and the two buffers. -/
def View.pipe (v : View) : Pipe UInt8 where
  received := v.trace.flatMap Obs.input
  sent := v.trace.flatMap Obs.output
  unsent := ((v.wbuf.map Sv.bytes).getD []).drop v.woff
  kept := v.rbuf.getD []

/-- The callback was just called. -/
def View.justCalled (v : View) : Bool := v.trace.getLast?.any Obs.isCalled

/-- The callback has assigned to `$_[3]`. -/
def View.justLoaded (v : View) : Bool := v.trace.getLast?.any Obs.isLoaded

/-- The program: after `$_[3] = $_[2]` the reader callback does `$_[2] = ''` and returns. No
    other callback does anything. -/
def EchoProgram (s : Sys) : Input → Prop
  | .op (.setWriteBuffer sv) =>
    match s.stack with
    | .readData _ :: _ => s.v.justCalled ∧ sv = .str s.v.pipe.kept
    | _ => False
  | .op (.setReadBuffer b) =>
    match s.stack with
    | .readData _ :: _ => s.v.justLoaded ∧ b = []
    | _ => False
  | .op _ => False
  | .ret =>
    match s.stack with
    | .readData _ :: _ => s.v.justLoaded ∧ s.v.pipe.kept = []
    | _ => True
  | _ => True

instance {i : Input} : Decidable (EchoProgram s i) := by
  unfold EchoProgram
  generalize s.stack = stk
  induction i with
  | op o =>
    induction stk using List.casesOn with
    | nil => induction o <;> infer_instance
    | cons f rest => induction o <;> induction f <;> infer_instance
  | ret =>
    induction stk using List.casesOn with
    | nil => infer_instance
    | cons f rest => induction f <;> infer_instance
  | _ => infer_instance

theorem not_justLoaded (h : v.justCalled = true) : v.justLoaded ≠ true := by
  refine last_excludes (fun x hx => ?_) h
  cases x <;> first | rfl | cases hx

/-- The type of an event. -/
def View.typeOf (v : View) (ev : Option Nat) : Option EvType :=
  (ev.bind (v.events[·]?)).map Ev.type

/-- A reader and a writer, and no length to wait for. -/
structure View.Both (v : View) : Prop where
  opened : v.closed = false
  read : v.typeOf v.read = some .read
  write : v.typeOf v.write = some .write
  rbuf : v.rbuf.isSome = true
  rmax : v.rmax = none

/-- Only the reader is active. -/
structure View.Reading (v : View) : Prop where
  rin : v.rin = true
  win : v.win = false
  wout : v.wout = false
  wbuf : v.wbuf = some (.str [])

/-- Only the writer is active. -/
structure View.Writing (v : View) : Prop where
  rin : v.rin = false
  rout : v.rout = false
  wbuf : ∃ b, v.wbuf = some (.str b)

/-- Perl code other than a callback of the reader or the writer. -/
def Frame.isSetUp : Frame → Bool
  | .outside | .connected _ => true
  | _ => false

/-- The reader was started and the writer created with an empty string, and nothing has been
    received, sent or kept. The Perl code that did it may still be running. -/
structure EchoStarted (s : Sys) : Prop where
  both : s.v.Both
  reading : s.v.Reading
  empty : s.v.pipe = ⟨[], [], [], []⟩
  setUp : ∀ f ∈ s.stack, f.isSetUp = true

/-- The body of the loop, or nothing, is below the frame of a handler. -/
def Below (v : View) (rest : List Frame) : Prop := rest = [] ∨ ∃ fno, rest = [.loop fno v.write]

/-- A callback after which the connection is closed. -/
def Frame.closes : Frame → Bool
  | .readError error => decide (error ≠ 0)
  | .writeDone error => error
  | .timedout => true
  | _ => false

/-- What holds of a connection, by its frames. -/
inductive EchoAt : View → List Frame → Prop
  | closed {v : View} {stk : List Frame} (hc : v.closed = true) (hin : v.win = false)
      (hout : v.wout = false) (hle : v.pipe.sent <+: v.pipe.received)
      (hs : (∀ f ∈ stk, f.isSetUp = true) ∨ ∃ fno wev, stk = [.loop fno wev]) : EchoAt v stk
  | failing {v : View} {f : Frame} {rest : List Frame} (hc : v.closed = false)
      (hf : f.closes = true) (hle : v.pipe.sent <+: v.pipe.received) (hr : Below v rest) :
      EchoAt v (f :: rest)
  | loop {v : View} {stk : List Frame} (hb : v.Both) (h : v.Reading ∨ v.Writing)
      (hc : v.pipe.Conserved) (hs : ∀ f ∈ stk, f.isSetUp = true) : EchoAt v stk
  | body {v : View} {fno : Nat} (hb : v.Both) (h : v.Reading ∨ v.Writing) (hc : v.pipe.Conserved) :
      EchoAt v [.loop fno v.write]
  | sysread {v : View} {total : Nat} {rest : List Frame} (hb : v.Both) (h : v.Reading)
      (hout : v.rout = true) (hc : v.pipe.Conserved) (hr : Below v rest) :
      EchoAt v (.sysread 0 total :: rest)
  | called {v : View} {error : Int} {rest : List Frame} (hb : v.Both) (h : v.Reading)
      (hout : v.rout = true) (hc : v.pipe.Conserved) (hcalled : v.justCalled = true)
      (hr : Below v rest) : EchoAt v (.readData error :: rest)
  | copied {v : View} {error : Int} {rest : List Frame} {b : Bytes} (hb : v.Both)
      (hin : v.rin = true) (hout : v.rout = true) (hw : v.wbuf = some (.str b))
      (hc : v.pipe.received = v.pipe.sent ++ b) (hloaded : v.justLoaded = true)
      (hwin : v.win = false) (hwout : v.wout = false) (hr : Below v rest) :
      EchoAt v (.readData error :: rest)
  | syswrite {v : View} {offset : Nat} {rest : List Frame} (hb : v.Both) (h : v.Writing)
      (hc : { v with woff := offset }.pipe.Conserved) (hr : Below v rest) :
      EchoAt v (.syswrite 0 offset :: rest)
  | sent {v : View} {rest : List Frame} (hb : v.Both) (h : v.Writing) (hw : v.wbuf = some (.str []))
      (hc : v.pipe.Conserved) (hr : Below v rest) : EchoAt v (.writeDone false :: rest)

theorem typeOf_touch (ev ev' : Option Nat) : (v.touch now ev).typeOf ev' = v.typeOf ev' := by
  cases ev with
  | none => rfl
  | some i =>
    cases ev' with
    | none => rfl
    | some j =>
      simp only [View.typeOf, View.touch, stamp, Option.bind_some, List.getElem?_modify]
      cases v.events[j]? with
      | none => rfl
      | some e =>
        by_cases hij : i = j
        · simp [hij]
        · simp [hij]

theorem exists_of_typeOf {ev : Option Nat} {type : EvType} (h : v.typeOf ev = some type) :
    ∃ i, ev = some i := by
  cases ev with
  | none => cases h
  | some i => exact ⟨i, rfl⟩

theorem View.Both.touch (h : v.Both) (now : Int) (ev : Option Nat) : (v.touch now ev).Both :=
  ⟨h.opened, (typeOf_touch ev _).trans h.read, (typeOf_touch ev _).trans h.write, h.rbuf, h.rmax⟩

/-- What neither receives nor sends. -/
theorem pipe_observe (hi : x.input = []) (ho : x.output = []) : (v.observe x).pipe = v.pipe := by
  simp [View.pipe, View.observe, hi, ho]

theorem close_eq (hopen : v.closed = false) :
    (ngxeClose v).closed = true ∧ (ngxeClose v).win = false ∧ (ngxeClose v).wout = false ∧
      (ngxeClose v).pipe.sent = v.pipe.sent ∧ (ngxeClose v).pipe.received = v.pipe.received := by
  rw [ngxeClose, if_neg (by simp [hopen])]
  exact ⟨rfl, rfl, rfl, by simp [View.pipe, View.observe, Obs.output],
    by simp [View.pipe, View.observe, Obs.input]⟩

namespace EchoAt

theorem close (hopen : v.closed = false) (hle : v.pipe.sent <+: v.pipe.received)
    (hs : (∀ f ∈ stk, f.isSetUp = true) ∨ ∃ fno wev, stk = [.loop fno wev]) :
    EchoAt (ngxeClose v) stk := by
  obtain ⟨hc, hin, hout, hsent, hreceived⟩ := close_eq hopen
  refine .closed hc hin hout ?_ hs
  rw [hsent, hreceived]
  exact hle

theorem below (hb : v.Both) (h : v.Reading ∨ v.Writing) (hc : v.pipe.Conserved)
    (hr : Below v rest) : EchoAt v rest := by
  rcases hr with rfl | ⟨fno, rfl⟩
  · exact .loop hb h hc (by simp)
  · exact .body hb h hc

/-- A callback that is given an error. -/
theorem fails {ev : Nat} {args : EvType} {err : Int} (hb : v.Both) (hf : f.closes = true)
    (hle : v.pipe.sent <+: v.pipe.received) (hr : Below v rest) :
    EchoAt (v.call (some ev) args err f).1 ((v.call (some ev) args err f).2 ++ rest) := by
  have hp : (v.observe (.called ev args err)).pipe = v.pipe := pipe_observe rfl rfl
  exact .failing (v := v.observe (.called ev args err)) hb.opened hf (hp ▸ hle) hr

/-! ### `_read` -/

theorem readEnd {total : Nat} {error : Int} (hb : v.Both) (h : v.Reading) (hout : v.rout = true)
    (hc : v.pipe.Conserved) (hr : Below v rest) :
    EchoAt (readEnd now v total error).1 ((readEnd now v total error).2 ++ rest) := by
  obtain ⟨r, hread⟩ := exists_of_typeOf hb.read
  have hread' : (v.touch now v.read).read = some r := hread
  rw [PP.readEnd]
  split
  · exact below hb (.inl h) hc hr
  · next hne =>
    dsimp only
    rw [hread', hread]
    split
    · have hp : ((v.touch now (some r)).observe (.called r .read 0)).pipe = v.pipe :=
        pipe_observe rfl rfl
      have hb' := hb.touch now (some r)
      exact .called (v := (v.touch now (some r)).observe (.called r .read 0))
        ⟨hb'.opened, hb'.read, hb'.write, hb'.rbuf, hb'.rmax⟩ ⟨h.rin, h.win, h.wout, h.wbuf⟩ hout
        (hp ▸ hc) (by simp [View.observe, View.justCalled, Obs.isCalled]) hr
    · next htotal =>
      have herr : error ≠ 0 := fun he => hne ⟨he, by omega⟩
      exact fails (hb.touch now _) (decide_eq_true herr) hc.sent_le hr

theorem readLoop {total : Nat} (hb : v.Both) (h : v.Reading) (hout : v.rout = true)
    (hc : v.pipe.Conserved) (hr : Below v rest) :
    EchoAt (readLoop now v 0 total).1 ((readLoop now v 0 total).2 ++ rest) := by
  rw [PP.readLoop, if_pos (.inl rfl)]
  exact .sysread hb h hout hc hr

theorem read (hb : v.Both) (h : v.Reading) (hout : v.rout = true) (hc : v.pipe.Conserved)
    (hr : Below v rest) : EchoAt (_read now v).1 ((_read now v).2 ++ rest) := by
  obtain ⟨buf, hbuf⟩ := Option.isSome_iff_exists.mp hb.rbuf
  have hbuf' : (v.observe (.ran .read)).rbuf = some buf := hbuf
  have hmax : (v.observe (.ran .read)).rmax.getD 0 = 0 := by
    rw [show (v.observe (.ran .read)).rmax = none from hb.rmax]
    rfl
  have hp : (v.observe (.ran .read)).pipe = v.pipe := pipe_observe rfl rfl
  rw [_read, hbuf']
  dsimp only
  rw [hmax]
  exact readLoop (v := v.observe (.ran .read)) ⟨hb.opened, hb.read, hb.write, hb.rbuf, hb.rmax⟩
    ⟨h.rin, h.win, h.wout, h.wbuf⟩ hout (hp ▸ hc) hr

theorem pipe_received (hb : v.rbuf.isSome = true) :
    ({ v with rbuf := v.rbuf.map (· ++ b) }.observe (.received b)).pipe = v.pipe.receive b := by
  obtain ⟨buf, hbuf⟩ := Option.isSome_iff_exists.mp hb
  simp [View.pipe, View.observe, Pipe.receive, Obs.input, Obs.output, hbuf]

theorem afterSysread {total : Nat} {r : ReadResult} (hb : v.Both) (h : v.Reading)
    (hout : v.rout = true) (hc : v.pipe.Conserved) (hr : Below v rest) :
    EchoAt (PP.sysread now v 0 total r).1 ((PP.sysread now v 0 total r).2 ++ rest) := by
  cases r with
  | data b =>
    have hp := pipe_received (b := b) hb.rbuf
    exact readLoop (v := { v with rbuf := v.rbuf.map (· ++ b) }.observe (.received b))
      ⟨hb.opened, hb.read, hb.write, by simpa [View.observe] using hb.rbuf, hb.rmax⟩
      ⟨h.rin, h.win, h.wout, h.wbuf⟩ hout (hp ▸ hc.receive b) hr
  | eof => exact readEnd hb h hout hc hr
  | again => exact readEnd hb h hout hc hr
  | intr => exact readLoop hb h hout hc hr
  | error => exact readEnd hb h hout hc hr

/-! ### `_write` -/

/-- All that was handed over is sent, or an error is reported. -/
theorem writeEnd {error : Bool} (hb : v.Both) (h : v.Writing)
    (hc : error = false → v.pipe.received = v.pipe.sent ++ v.pipe.kept)
    (hle : v.pipe.sent <+: v.pipe.received) (hr : Below v rest) :
    EchoAt (writeEnd now v i offset error).1 ((writeEnd now v i offset error).2 ++ rest) := by
  obtain ⟨w, hwrite⟩ := exists_of_typeOf hb.write
  obtain ⟨b, hw⟩ := h.wbuf
  have hauto : autoempty v.wbuf = true := by rw [hw]; rfl
  generalize hv :
    { v with wind := i, woff := offset, wbuf := some (.str []) }.touch now v.write = v₁
  have hb₁ : v₁.Both := hv ▸ View.Both.touch (v := { v with
    wind := i, woff := offset, wbuf := some (.str []) })
    ⟨hb.opened, hb.read, hb.write, hb.rbuf, hb.rmax⟩ now v.write
  have hend : PP.writeEnd now v i offset error =
      (v₁.observe (.called w .write (if error then 1 else 0)), [.writeDone error]) := by
    simp only [PP.writeEnd, hauto, if_true, hv]
    rw [show v₁.write = some w from hv ▸ hwrite]
    rfl
  have hr₁ : Below v₁ rest := hv ▸ hr
  rw [hend]
  cases error with
  | true =>
    have hle₁ : v₁.pipe.sent <+: v₁.pipe.received := hv ▸ hle
    refine .failing hb₁.opened rfl ?_ hr₁
    rw [pipe_observe rfl rfl]
    exact hle₁
  | false =>
    have hc₁ : v₁.pipe.Conserved := by
      rw [Pipe.Conserved, ← hv]
      simpa [View.pipe, View.touch, Sv.bytes] using hc rfl
    refine .sent ⟨hb₁.opened, hb₁.read, hb₁.write, hb₁.rbuf, hb₁.rmax⟩
      ⟨hv ▸ h.rin, hv ▸ h.rout, [], hv ▸ rfl⟩ (hv ▸ rfl) ?_ hr₁
    rw [pipe_observe rfl rfl]
    exact hc₁

/-- `_write` from the beginning of its loop. -/
theorem writeLoop (hb : v.Both) (h : v.Writing)
    (hc : { v with woff := offset }.pipe.Conserved) (hr : Below v rest) :
    EchoAt (writeLoop now v 0 offset).1 ((writeLoop now v 0 offset).2 ++ rest) := by
  obtain ⟨b, hw⟩ := h.wbuf
  by_cases hlt : offset < b.length
  · have hloop : PP.writeLoop now v 0 offset = (v, [.syswrite 0 offset]) := by
      simp [PP.writeLoop, hw, buffers, nextBuf, hlt]
    rw [hloop]
    exact .syswrite hb h hc hr
  · have hloop : PP.writeLoop now v 0 offset = PP.writeEnd now v 1 offset false := by
      simp [PP.writeLoop, hw, buffers, nextBuf, hlt]
    have hdrop : b.drop offset = [] := List.drop_eq_nil_of_le (Nat.le_of_not_lt hlt)
    rw [hloop]
    refine writeEnd hb h (fun _ => ?_) hc.sent_le hr
    simpa [Pipe.Conserved, View.pipe, hw, Sv.bytes, hdrop] using hc

theorem write (hb : v.Both) (h : v.Writing) (hc : v.pipe.Conserved) (hr : Below v rest) :
    EchoAt (_write now v).1 ((_write now v).2 ++ rest) := by
  obtain ⟨b, hw⟩ := h.wbuf
  have hfirst : firstIndex (v.observe (.ran .write)) = 0 := by
    simp [firstIndex, View.observe, hw]
  have hp : (v.observe (.ran .write)).pipe = v.pipe := pipe_observe rfl rfl
  rw [_write, hfirst]
  exact writeLoop (v := { v.observe (.ran .write) with wind := 0 })
    ⟨hb.opened, hb.read, hb.write, hb.rbuf, hb.rmax⟩ ⟨h.rin, h.rout, b, hw⟩ (hp ▸ hc) hr

/-- `syswrite` takes the bytes it accepts from the write buffer. -/
theorem afterSyswrite {r : WriteResult} (hb : v.Both) (h : v.Writing)
    (hc : { v with woff := offset }.pipe.Conserved) (hr : Below v rest)
    (ha : r.answers (v.element 0) offset = true) :
    EchoAt (PP.syswrite now v 0 offset r).1 ((PP.syswrite now v 0 offset r).2 ++ rest) := by
  obtain ⟨b, hw⟩ := h.wbuf
  have helem : (buffers v.wbuf).bind (·[0]?) = some (some b) := by simp [hw, buffers]
  cases r with
  | accepted n =>
    have hlen : offset + n ≤ b.length := by
      simp only [WriteResult.answers, View.element, helem, Option.bind_some, id_eq,
        Bool.and_eq_true, decide_eq_true_eq] at ha
      exact ha.2
    generalize hv : v.observe (.sent ((b.drop offset).take n)) = v₁
    have hb₁ : v₁.Both := hv ▸ ⟨hb.opened, hb.read, hb.write, hb.rbuf, hb.rmax⟩
    have h₁ : v₁.Writing := hv ▸ ⟨h.rin, h.rout, b, hw⟩
    have hp : { v₁ with woff := offset + n }.pipe = { v with woff := offset }.pipe.send n := by
      rw [← hv]
      simp [View.pipe, View.observe, Pipe.send, Obs.input, Obs.output, hw, Sv.bytes]
    have hc₁ : { v₁ with woff := offset + n }.pipe.Conserved := hp ▸ hc.send n
    have hr₁ : Below v₁ rest := hv ▸ hr
    by_cases hall : offset + n = b.length
    · have hnext : PP.syswrite now v 0 offset (.accepted n) = PP.writeEnd now v₁ 1 0 false := by
        simp [PP.syswrite, hall, PP.writeLoop, ← hv, View.observe, hw, buffers, nextBuf]
      rw [hnext]
      refine writeEnd hb₁ h₁ (fun _ => ?_) hc₁.sent_le hr₁
      have hw₁ : v₁.wbuf = some (.str b) := hv ▸ hw
      simpa [Pipe.Conserved, View.pipe, hw₁, Sv.bytes, hall] using hc₁
    · have hnext : PP.syswrite now v 0 offset (.accepted n) = (v₁, [.syswrite 0 (offset + n)]) := by
        simp [PP.syswrite, helem, hall, hv]
      rw [hnext]
      exact .syswrite hb₁ h₁ hc₁ hr₁
  | again =>
    have hnext : PP.syswrite now v 0 offset .again =
        ({ v.observe (.sent []) with wind := 0, woff := offset }.touch now v.write, []) := by
      simp [PP.syswrite, helem]
    rw [hnext]
    have hb₁ := View.Both.touch (v := { v.observe (.sent []) with wind := 0, woff := offset })
      ⟨hb.opened, hb.read, hb.write, hb.rbuf, hb.rmax⟩ now v.write
    refine below hb₁ (.inr ⟨h.rin, h.rout, b, hw⟩) ?_ hr
    simpa [Pipe.Conserved, View.pipe, View.touch, View.observe, Obs.input, Obs.output] using hc
  | intr =>
    have hnext : PP.syswrite now v 0 offset .intr = (v, [.syswrite 0 offset]) := by
      simp [PP.syswrite, helem]
    rw [hnext]
    exact .syswrite hb h hc hr
  | error =>
    have hnext : PP.syswrite now v 0 offset .error = PP.writeEnd now v 0 offset true := by
      simp [PP.syswrite, helem]
    rw [hnext]
    exact writeEnd hb h (by simp) hc.sent_le hr

/-- An event that has timed out. -/
theorem timedout {ev : Nat} {e : Ev} (hb : v.Both) (he : v.events[ev]? = some e)
    (htype : e.type ≠ .accept) (hle : v.pipe.sent <+: v.pipe.received) (hr : Below v rest) :
    EchoAt (_timedout v ev).1 ((_timedout v ev).2 ++ rest) := by
  have he' : (v.observe (.ran .timedout)).events[ev]? = some e := he
  have hp : (v.observe (.ran .timedout)).pipe = v.pipe := pipe_observe rfl rfl
  rw [_timedout, he']
  dsimp only
  rw [if_neg htype]
  exact fails (v := v.observe (.ran .timedout))
    ⟨hb.opened, hb.read, hb.write, hb.rbuf, hb.rmax⟩ rfl (hp ▸ hle) hr

theorem event_of_typeOf {ev : Option Nat} {type : EvType} (h : v.typeOf ev = some type) :
    ∃ i e, ev = some i ∧ v.events[i]? = some e ∧ e.type = type := by
  obtain ⟨i, rfl⟩ := exists_of_typeOf h
  obtain ⟨e, he, htype⟩ := Option.map_eq_some_iff.mp h
  exact ⟨i, e, rfl, he, htype⟩

theorem dispatch (hb : v.Both) (h : v.Reading ∨ v.Writing) (hc : v.pipe.Conserved) :
    EchoAt (dispatch now t fno v).1 (dispatch now t fno v).2 := by
  obtain ⟨r, e, hread, he, htype⟩ := event_of_typeOf hb.read
  have hev : (v.read.bind fun i => (v.events[i]?).map fun e => (i, e)) = some (r, e) := by
    simp [hread, he]
  rw [PP.dispatch, hev]
  dsimp only
  split
  · next hout =>
    rw [htype]
    have hreading : v.Reading := by
      rcases h with h | h
      · exact h
      · simp [h.rout] at hout
    exact read hb hreading hout hc (.inr ⟨fno, rfl⟩)
  · split
    · have ho : EchoAt (_timedout v r).1 ((_timedout v r).2 ++ []) :=
        timedout hb he (by simp [htype]) hc.sent_le (.inl rfl)
      rwa [List.append_nil] at ho
    · exact .body hb h hc

theorem dispatchWrite (hb : v.Both) (h : v.Reading ∨ v.Writing) (hc : v.pipe.Conserved) :
    EchoAt (dispatchWrite now t v v.win v.wout v.write).1
      ((dispatchWrite now t v v.win v.wout v.write).2 ++ []) := by
  obtain ⟨w, e, hwrite, he, htype⟩ := event_of_typeOf hb.write
  have hev : (v.write.bind fun i => (v.events[i]?).map fun e => (i, e)) = some (w, e) := by
    simp [hwrite, he]
  rw [PP.dispatchWrite, hev]
  dsimp only
  split
  · next hout =>
    rw [htype]
    have hwriting : v.Writing := by
      rcases h with h | h
      · simp [h.wout] at hout
      · exact h
    exact write hb hwriting hc (.inl rfl)
  · split
    · exact timedout hb he (by simp [htype]) hc.sent_le (.inl rfl)
    · exact .loop hb h hc (by simp)

/-- The return of the reader callback: all that was copied is handed to the writer. -/
theorem afterData {error : Int} (hb : v.Both) (hin : v.rin = true) (hout : v.rout = true)
    (hw : v.wbuf = some (.str b)) (hc : v.pipe.received = v.pipe.sent ++ b)
    (hkept : v.pipe.kept = []) (hwin : v.win = false) (hwout : v.wout = false)
    (hr : Below v rest) :
    EchoAt (afterData now v error).1 ((afterData now v error).2 ++ rest) := by
  have hle : v.pipe.sent <+: v.pipe.received := ⟨b, hc.symm⟩
  rw [PP.afterData, if_neg (by simp [hb.opened, hin])]
  split
  · next herr =>
    obtain ⟨r, hread⟩ := exists_of_typeOf hb.read
    rw [hread]
    exact fails hb (decide_eq_true herr) hle hr
  · rw [finishRead, if_neg (by simp [hb.opened]), if_neg (by simp)]
    split
    · generalize hv : { v with
        wind := 0, woff := 0, rin := false, rout := false, win := true, wout := true }.touch now
          v.write = v₁
      have hstart : ngxeReaderStopWriterStart now { v with wind := 0, woff := 0 } =
          _write now v₁ := by
        rw [ngxeReaderStopWriterStart, ← hv]
      rw [hstart]
      have hb₁ : v₁.Both := hv ▸ View.Both.touch (v := { v with
        wind := 0, woff := 0, rin := false, rout := false, win := true, wout := true })
        ⟨hb.opened, hb.read, hb.write, hb.rbuf, hb.rmax⟩ now v.write
      have hp : v₁.pipe = { v.pipe with unsent := b } := by
        rw [← hv]
        simp [View.pipe, View.touch, hw, Sv.bytes]
      have hc₁ : v₁.pipe.Conserved := hp ▸ Pipe.conserved_of_received_eq hc hkept
      exact write hb₁ (hv ▸ ⟨rfl, rfl, b, hw⟩) hc₁ (hv ▸ hr)
    · next hwants =>
      obtain rfl : b = [] := by simpa [hout, hw, wantsWriter] using hwants
      have hu : v.pipe.unsent = [] := by simp [View.pipe, hw, Sv.bytes]
      exact below hb (.inl ⟨hin, hwin, hwout, hw⟩)
        (Pipe.conserved_of_received_eq (by rw [hu, hc]) hkept) hr

/-- The return of the writer callback. -/
theorem afterWrite (hb : v.Both) (hw : v.wbuf = some (.str [])) (hc : v.pipe.Conserved)
    (hr : Below v rest) : EchoAt (afterWrite now v false) rest := by
  rw [PP.afterWrite, if_neg (by simp [hb.opened]), if_neg (by simp), ngxeWriterStopReaderStart]
  have hb₁ := View.Both.touch (v := { v with
    rin := true, rout := false, win := false, wout := false })
    ⟨hb.opened, hb.read, hb.write, hb.rbuf, hb.rmax⟩ now v.read
  exact below hb₁ (.inl ⟨rfl, rfl, rfl, hw⟩) hc hr

/-- The return of a callback that was given an error. -/
theorem afterError (hopen : v.closed = false) (hf : f.closes = true)
    (hle : v.pipe.sent <+: v.pipe.received) (hr : Below v rest)
    (ho : afterCallback now v f = some o) : EchoAt o.1 (o.2 ++ rest) := by
  have hs : (∀ f ∈ rest, f.isSetUp = true) ∨ ∃ fno wev, rest = [.loop fno wev] := by
    rcases hr with rfl | ⟨fno, rfl⟩
    · exact .inl (by simp)
    · exact .inr ⟨fno, v.write, rfl⟩
  have hclose := close hopen hle hs
  cases f with
  | readError error =>
    cases ho
    rw [finishRead, if_neg (by simp [hopen]), if_pos (of_decide_eq_true hf)]
    exact hclose
  | writeDone error =>
    cases ho
    obtain rfl : error = true := hf
    rw [PP.afterWrite, if_neg (by simp [hopen]), if_pos rfl]
    exact hclose
  | timedout =>
    cases ho
    exact hclose
  | _ => cases hf

/-- The two assignments of the reader callback. -/
theorem assign {op : Op} (h : EchoAt s.v s.stack) (hG : EchoProgram s (.op op)) :
    EchoAt (applyOp s.now s.v op).1 ((applyOp s.now s.v op).2 ++ s.stack) := by
  obtain ⟨v, now, t, stk⟩ := s
  cases op with
  | setWriteBuffer sv =>
    simp only [EchoProgram] at hG
    split at hG
    · next error rest =>
      obtain ⟨hcalled, rfl⟩ := hG
      cases h with
      | closed hc hin hout hle hs => simp [Frame.isSetUp] at hs
      | failing hc hf hle hr => cases hf
      | loop hb h hc hs => simp [Frame.isSetUp] at hs
      | called hb h hout hc hcalled hr =>
        have hsome : v.wbuf.isSome = true := by rw [h.wbuf]; rfl
        have hload : (applyOp now v (.setWriteBuffer (.str v.pipe.kept))) =
            (v.load (.str v.pipe.kept), []) := by
          simp [applyOp, hsome]
        have hu : v.pipe.unsent = [] := by
          rw [View.pipe, show v.wbuf = some (.str []) from h.wbuf]
          exact List.drop_nil
        have hc' := hc.received_eq hu
        show EchoAt (applyOp now v (.setWriteBuffer (.str v.pipe.kept))).1 _
        rw [hload]
        refine .copied ⟨hb.opened, hb.read, hb.write, hb.rbuf, hb.rmax⟩ h.rin hout rfl ?_ ?_ h.win
          h.wout hr
        · simpa [View.load, View.observe, View.pipe, Obs.input, Obs.output] using hc'
        · simp [View.load, View.observe, View.justLoaded, Obs.isLoaded]
      | copied hb hin hout hw hc hloaded hwin hwout hr =>
        exact absurd hloaded (not_justLoaded hcalled)
    · exact hG.elim
  | setReadBuffer b =>
    simp only [EchoProgram] at hG
    split at hG
    · next error rest =>
      obtain ⟨hloaded, rfl⟩ := hG
      cases h with
      | closed hc hin hout hle hs => simp [Frame.isSetUp] at hs
      | failing hc hf hle hr => cases hf
      | loop hb h hc hs => simp [Frame.isSetUp] at hs
      | called hb h hout hc hcalled hr => exact absurd hloaded (not_justLoaded hcalled)
      | copied hb hin hout hw hc _ hwin hwout hr =>
        exact .copied ⟨hb.opened, hb.read, hb.write, by simpa [applyOp] using hb.rbuf, hb.rmax⟩
          hin hout hw hc hloaded hwin hwout hr
    · exact hG.elim
  | _ => exact hG.elim

theorem ret (h : EchoAt s.v s.stack) (hstk : s.stack = f :: rest) (hG : EchoProgram s .ret)
    (ho : afterCallback s.now s.v f = some o) : EchoAt o.1 (o.2 ++ rest) := by
  have hprogram : ∀ error, f = .readData error → s.v.justLoaded = true ∧ s.v.pipe.kept = [] := by
    rintro error rfl
    simpa [EchoProgram, hstk] using hG
  rw [hstk] at h
  cases h with
  | closed hc hin hout hle hs =>
    rcases hs with hs | ⟨fno, wev, hs⟩
    · have hset := hs f List.mem_cons_self
      cases f with
      | connected error =>
        cases ho
        rw [afterConnect, if_pos hc]
        exact .closed hc hin hout hle (.inl fun g hg => hs g (List.mem_cons_of_mem _ hg))
      | outside => cases ho
      | _ => cases hset
    · cases hs
      cases ho
  | failing hc hf hle hr => exact afterError hc hf hle hr ho
  | loop hb h hc hs =>
    have hset := hs f List.mem_cons_self
    have hrest : ∀ g ∈ rest, g.isSetUp = true := fun g hg => hs g (List.mem_cons_of_mem _ hg)
    cases f with
    | connected error =>
      cases ho
      rw [afterConnect, if_neg (by simp [hb.opened])]
      split
      · exact close hb.opened hc.sent_le (.inl hrest)
      · exact .loop hb h hc hrest
    | outside => cases ho
    | _ => cases hset
  | body hb h hc => cases ho
  | sysread hb h hout hc hr => cases ho
  | called hb h hout hc hcalled hr =>
    exact absurd (hprogram _ rfl).1 (not_justLoaded hcalled)
  | copied hb hin hout hw hc hloaded hwin hwout hr =>
    cases ho
    exact afterData hb hin hout hw hc (hprogram _ rfl).2 hwin hwout hr
  | syswrite hb h hc hr => cases ho
  | sent hb h hw hc hr =>
    cases ho
    exact afterWrite hb hw hc hr

/-- `select` looks only at what is watched. -/
theorem select {r w : Bool} (h : EchoAt v []) :
    EchoAt { v with rout := v.rin && r, wout := v.win && w } [] := by
  cases h with
  | closed hc hin hout hle hs => exact .closed hc hin (by simp [hin]) hle hs
  | loop hb h hc hs =>
    refine .loop ⟨hb.opened, hb.read, hb.write, hb.rbuf, hb.rmax⟩ ?_ hc hs
    rcases h with h | h
    · exact .inl ⟨h.rin, h.win, by simp [h.win], h.wbuf⟩
    · exact .inr ⟨h.rin, by simp [h.rin], h.wbuf⟩

theorem next {wev : Option Nat} (h : EchoAt v (.loop fno wev :: rest)) :
    EchoAt (PP.dispatchWrite now t v v.win v.wout wev).1
      ((PP.dispatchWrite now t v v.win v.wout wev).2 ++ rest) := by
  cases h with
  | closed hc hin hout hle hs =>
    rcases hs with hs | ⟨fno, wev, hs⟩
    · have hset := hs _ List.mem_cons_self
      cases hset
    · cases hs
      have hnone : PP.dispatchWrite now t v v.win v.wout wev = (v, []) := by
        rw [PP.dispatchWrite, hin, hout]
        split
        · rfl
        · simp
      rw [hnone]
      exact .closed hc hin hout hle (.inl (by simp))
  | failing hc hf hle hr => cases hf
  | loop hb h hc hs =>
    have hset := hs _ List.mem_cons_self
    cases hset
  | body hb h hc => exact dispatchWrite hb h hc

theorem step {i : Input} (h : EchoAt s.v s.stack) (hG : EchoProgram s i) (hstep : Step s i s') :
    EchoAt s'.v s'.stack := by
  cases hstep with
  | tick n => exact h
  | select r w hstk =>
    show EchoAt _ s.stack
    rw [hstk] at h ⊢
    exact h.select
  | dispatch hstk hopen =>
    rw [hstk] at h
    show EchoAt _ (_ ++ [])
    rw [List.append_nil]
    cases h with
    | closed hc hin hout hle hs => simp [hopen] at hc
    | loop hb h hc hs => exact dispatch hb h hc
  | next hstk =>
    rw [hstk] at h
    exact h.next
  | sysread r hstk hr =>
    rw [hstk] at h
    cases h with
    | closed hc hin hout hle hs => simp [Frame.isSetUp] at hs
    | failing hc hf hle hr => cases hf
    | loop hb h hc hs => simp [Frame.isSetUp] at hs
    | sysread hb h hout hc hr => exact afterSysread hb h hout hc hr
  | syswrite r hstk hr =>
    rw [hstk] at h
    cases h with
    | closed hc hin hout hle hs => simp [Frame.isSetUp] at hs
    | failing hc hf hle hr => cases hf
    | loop hb h hc hs => simp [Frame.isSetUp] at hs
    | syswrite hb h hc hbelow => exact afterSyswrite hb h hc hbelow hr
  | accept ok hstk | connect r hstk =>
    rw [hstk] at h
    cases h with
    | closed hc hin hout hle hs => simp [Frame.isSetUp] at hs
    | failing hc hf hle hr => cases hf
    | loop hb h hc hs => simp [Frame.isSetUp] at hs
  | ret hstk ho => exact h.ret hstk hG ho
  | enter hstk =>
    rw [hstk] at h
    cases h with
    | closed hc hin hout hle hs => exact .closed hc hin hout hle (.inl (by simp [Frame.isSetUp]))
    | loop hb h hc hs => exact .loop hb h hc (by simp [Frame.isSetUp])
  | leave hstk =>
    rw [hstk] at h
    cases h with
    | closed hc hin hout hle hs =>
      refine .closed hc hin hout hle (.inl fun f hf => ?_)
      rcases hs with hs | ⟨fno, wev, hs⟩
      · exact hs f (List.mem_cons_of_mem _ hf)
      · cases hs
    | failing hc hf hle hr => cases hf
    | loop hb h hc hs => exact .loop hb h hc fun f hf => hs f (List.mem_cons_of_mem _ hf)
  | op o hstk hf hopen => exact h.assign hG

/-- In the loop an open connection conserves what comes in. -/
theorem conserved (h : EchoAt v []) (hopen : v.closed = false) : v.pipe.Conserved := by
  cases h with
  | closed hc hin hout hle hs => simp [hopen] at hc
  | loop hb h hc hs => exact hc

/-- At every moment what was sent is the beginning of what was received. -/
theorem sent_le (h : EchoAt v stk) : v.pipe.sent <+: v.pipe.received := by
  cases h with
  | closed hc hin hout hle hs => exact hle
  | failing hc hf hle hr => exact hle
  | loop hb h hc hs => exact hc.sent_le
  | body hb h hc => exact hc.sent_le
  | sysread hb h hout hc hr => exact hc.sent_le
  | called hb h hout hc hcalled hr => exact hc.sent_le
  | copied hb hin hout hw hc hloaded hwin hwout hr => exact ⟨_, hc.symm⟩
  | syswrite hb h hc hr => exact hc.sent_le
  | sent hb h hw hc hr => exact hc.sent_le

end EchoAt

/-- The calls that the README makes on an accepted connection. -/
def serveEcho (now t : Int) (fileno : Nat) (rt wt : Int) : Sys :=
  let v := (applyOp now (.accepted fileno) (.reader false rt)).1
  let v := (applyOp now v (.writer false wt (.str []))).1
  ⟨(applyOp now v (.readerStart none)).1, now, t, [.outside]⟩

theorem echoStarted_serveEcho (now t : Int) (fileno : Nat) (rt wt : Int) :
    EchoStarted (serveEcho now t fileno rt wt) :=
  ⟨⟨rfl, rfl, rfl, rfl, rfl⟩, ⟨rfl, rfl, rfl, rfl⟩, rfl, by simp [serveEcho, Frame.isSetUp]⟩

/-- Along every run of a started connection that the echo program serves. -/
theorem echo_of_reaches {s₀ : Sys} (h₀ : EchoStarted s₀) (h : engine.Reaches EchoProgram s₀ s) :
    EchoAt s.v s.stack := by
  have hinit : EchoAt s₀.v s₀.stack := by
    refine .loop h₀.both (.inl h₀.reading) ?_ h₀.setUp
    rw [h₀.empty]
    rfl
  exact h.invariant (I := fun s => EchoAt s.v s.stack) hinit
    fun s i t hs hG hstep => hs.step hG (step_cases hstep)

end NginxEngine.PP

namespace NginxEngine

/-- Echo conservation, in both engines: in every run of a connection that the echo program
    serves, whenever control is in the event loop and the connection is open, what was received is
    what was sent, what is left of the write buffer and what is in the read buffer; and at every
    moment what was sent is the beginning of what was received. -/
theorem echo_conserved :
    (∀ (cfg : XS.Config) (rt wt : Int) (s₀ s : XS.Sys), XS.EchoStarted rt wt s₀ →
      (XS.engine cfg).Reaches XS.EchoProgram s₀ s →
        (s.stack = [] → s.c.destroyed = false → s.c.pipe.Conserved) ∧
          s.c.pipe.sent <+: s.c.pipe.received) ∧
    ∀ s₀ s : PP.Sys, PP.EchoStarted s₀ → PP.engine.Reaches PP.EchoProgram s₀ s →
      (s.stack = [] → s.v.closed = false → s.v.pipe.Conserved) ∧
        s.v.pipe.sent <+: s.v.pipe.received := by
  refine ⟨fun cfg rt wt s₀ s h₀ h => ?_, fun s₀ s h₀ h => ?_⟩
  · have hecho := (XS.echo_of_reaches h₀ h).2
    refine ⟨fun hstk hopen => ?_, hecho.sent_le⟩
    obtain ⟨c, stk⟩ := s
    obtain rfl : stk = [] := hstk
    exact hecho.conserved hopen
  · have hecho := PP.echo_of_reaches h₀ h
    refine ⟨fun hstk hopen => ?_, hecho.sent_le⟩
    rw [hstk] at hecho
    exact hecho.conserved hopen

/-- Two bytes come in and one of them is accepted. -/
theorem echo_conserved_partial :
    (∃ s, (XS.engine ⟨.clear, 4096, 4080⟩).Reaches XS.EchoProgram
        (XS.serveEcho ⟨.clear, 4096, 4080⟩ 5000 1000) s ∧ s.c.pipe.Conserved ∧
        s.c.pipe = ⟨[97, 98], [97], [98], []⟩) ∧
    ∃ s, PP.engine.Reaches PP.EchoProgram (PP.serveEcho 5 5 0 5000 1000) s ∧
      s.v.pipe.Conserved ∧ s.v.pipe = ⟨[97, 98], [97], [98], []⟩ := by
  constructor
  · obtain ⟨s, hr, hs⟩ := Machine.Reaches.of_run_map (M := XS.engine ⟨.clear, 4096, 4080⟩)
      (G := XS.EchoProgram) (s := XS.serveEcho ⟨.clear, 4096, 4080⟩ 5000 1000)
      (fun s => (s.stack, s.c.destroyed, s.c.pipe))
      [.leave, .arrive [97, 98], .readEvent, .recv false true,
        .op (.setWriteBuffer (.str [97, 98])) true, .op (.setReadBuffer ⟨[], 16⟩) true, .ret true,
        .send (.accepted 1) true]
      (show _ = some ([], false, ⟨[97, 98], [97], [98], []⟩) by decide +kernel)
    simp only [Prod.mk.injEq] at hs
    obtain ⟨hstk, hopen, hp⟩ := hs
    exact ⟨s, hr, (echo_conserved.1 _ _ _ _ s (XS.echoStarted_serveEcho _ _ _) hr).1 hstk hopen, hp⟩
  · obtain ⟨s, hr, hs⟩ := Machine.Reaches.of_run_map (M := PP.engine) (G := PP.EchoProgram)
      (s := PP.serveEcho 5 5 0 5000 1000) (fun s => (s.stack, s.v.closed, s.v.pipe))
      [.leave, .select true false, .dispatch, .sysread (.data [97, 98]), .sysread .again,
        .op (.setWriteBuffer (.str [97, 98])), .op (.setReadBuffer []), .ret,
        .syswrite (.accepted 1), .syswrite .again, .next, .syswrite .again]
      (show _ = some ([], false, ⟨[97, 98], [97], [98], []⟩) by decide +kernel)
    simp only [Prod.mk.injEq] at hs
    obtain ⟨hstk, hopen, hp⟩ := hs
    exact ⟨s, hr, (echo_conserved.2 _ s (PP.echoStarted_serveEcho _ _ _ _ _) hr).1 hstk hopen, hp⟩

end NginxEngine
