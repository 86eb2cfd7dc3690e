import NginxEngine.PP.Run
import NginxEngine.Trace

/-!
# The pieces of code between two waits

What the subs of `PP.pm` do to a connection from one wait to the next. Most of them leave the
two sides of the connection alone: the events, the bits, and whether it is closed. The code of
the reader leaves the write buffer and its position alone too. Each piece leaves one frame at
most, so only the top of a stack waits for a system call.

## Main definitions

- `SameSides` — the two sides of a connection are as they were
- `Keeps` — the write buffer and its position are as they were
- `Piece`, `Quiet` — the same for an outcome
- `Dispatched`, `DispatchedWrite`, `Returned` — the loop's body and the code after a callback,
  case by case
- `Tame` — code that leaves the sides and the writer alone, or closes the connection
- `StackOk` — Perl code, or the body of the loop, lies below the top of a stack

## Main results

- `stackOk_of_reachable` — every run keeps the shape of the stack
-/

namespace NginxEngine.PP

open NginxEngine.XS (Bytes Sv)

variable {now t : Int} {v v' v'' : View} {o : Outcome} {s s' : Sys} {x : Obs} {i offset : Nat}
  {f : Frame} {rest : List Frame}

/-- Events, bits and the descriptor are as they were, and the connection was not closed. -/
structure SameSides (v v' : View) : Prop where
  fileno : v'.fileno = v.fileno
  read : v'.read = v.read
  write : v'.write = v.write
  rin : v'.rin = v.rin
  rout : v'.rout = v.rout
  win : v'.win = v.win
  wout : v'.wout = v.wout
  closed : v'.closed = v.closed
  trace : Extends (· ≠ .closed) v.trace v'.trace

namespace SameSides

theorem refl (v : View) : SameSides v v :=
  ⟨rfl, rfl, rfl, rfl, rfl, rfl, rfl, rfl, .refl _⟩

theorem trans (h : SameSides v v') (h' : SameSides v' v'') : SameSides v v'' :=
  ⟨h'.fileno.trans h.fileno, h'.read.trans h.read, h'.write.trans h.write, h'.rin.trans h.rin,
    h'.rout.trans h.rout, h'.win.trans h.win, h'.wout.trans h.wout, h'.closed.trans h.closed,
    h.trace.trans h'.trace⟩

theorem observe (v : View) (hx : x ≠ .closed) : SameSides v (v.observe x) :=
  ⟨rfl, rfl, rfl, rfl, rfl, rfl, rfl, rfl, .snoc hx⟩

end SameSides

/-- What `sysread` has returned. -/
def Obs.input : Obs → Bytes
  | .received b => b
  | _ => []

/-- What `syswrite` has accepted. -/
def Obs.output : Obs → Bytes
  | .sent b => b
  | _ => []

def Obs.isCalled : Obs → Bool
  | .called _ _ _ => true
  | _ => false

/-- What neither loads, nor sends, nor reports success. -/
def Obs.neutral : Obs → Bool
  | .sent _ | .loaded _ | .called _ .write 0 => false
  | _ => true

/-- The write buffer and its position are as they were, and nothing of a load was observed. -/
structure Keeps (v v' : View) : Prop where
  wbuf : v'.wbuf = v.wbuf
  woff : v'.woff = v.woff
  wind : v'.wind = v.wind
  closed : v'.closed = v.closed
  trace : Extends (·.neutral = true) v.trace v'.trace

namespace Keeps

theorem refl (v : View) : Keeps v v := ⟨rfl, rfl, rfl, rfl, .refl _⟩

/-- A change of other fields. -/
theorem of_eq (hb : v'.wbuf = v.wbuf) (ho : v'.woff = v.woff) (hi : v'.wind = v.wind)
    (hc : v'.closed = v.closed) (ht : v'.trace = v.trace) : Keeps v v' :=
  ⟨hb, ho, hi, hc, ht ▸ .refl _⟩

theorem observe (v : View) (hx : x.neutral = true) : Keeps v (v.observe x) :=
  ⟨rfl, rfl, rfl, rfl, .snoc hx⟩

theorem firstIndex (h : Keeps v v') : PP.firstIndex v' = PP.firstIndex v := by
  rw [PP.firstIndex, PP.firstIndex, h.wbuf, h.wind]

end Keeps

/-- What does not come from the writer: neither loads nor bytes, and no report of `_write`. -/
def Obs.aside : Obs → Bool
  | .sent _ | .loaded _ | .called _ .write 0 | .called _ .write 1 => false
  | _ => true

theorem Obs.neutral_of_aside (h : x.aside = true) : x.neutral = true := by
  rw [Obs.neutral.eq_def]
  split
  · cases h
  · cases h
  · cases h
  · rfl

/-- The write buffer and its position are as they were, and nothing of the writer was
    observed. -/
structure Beside (v v' : View) : Prop where
  wbuf : v'.wbuf = v.wbuf
  woff : v'.woff = v.woff
  wind : v'.wind = v.wind
  closed : v'.closed = v.closed
  trace : Extends (·.aside = true) v.trace v'.trace

namespace Beside

theorem refl (v : View) : Beside v v := ⟨rfl, rfl, rfl, rfl, .refl _⟩

theorem trans (h : Beside v v') (h' : Beside v' v'') : Beside v v'' :=
  ⟨h'.wbuf.trans h.wbuf, h'.woff.trans h.woff, h'.wind.trans h.wind, h'.closed.trans h.closed,
    h.trace.trans h'.trace⟩

/-- A change of other fields. -/
theorem of_eq (hb : v'.wbuf = v.wbuf) (ho : v'.woff = v.woff) (hi : v'.wind = v.wind)
    (hc : v'.closed = v.closed) (ht : v'.trace = v.trace) : Beside v v' :=
  ⟨hb, ho, hi, hc, ht ▸ .refl _⟩

theorem observe (v : View) (hx : x.aside = true) : Beside v (v.observe x) :=
  ⟨rfl, rfl, rfl, rfl, .snoc hx⟩

theorem keeps (h : Beside v v') : Keeps v v' := by
  obtain ⟨k, hk, haside⟩ := h.trace
  exact ⟨h.wbuf, h.woff, h.wind, h.closed, k, hk, fun x hx => Obs.neutral_of_aside (haside x hx)⟩

end Beside

/-- Perl code, or the body of the loop. -/
def Frame.resumes : Frame → Bool
  | .loop _ _ => true
  | f => f.isPerl

/-- An error callback has an error. -/
def Frame.sane : Frame → Bool
  | .readError error => decide (error ≠ 0)
  | _ => true

/-- A frame that a handler may leave. -/
def Frame.fresh : Frame → Bool
  | .readError error => decide (error ≠ 0)
  | .loop _ _ => false
  | _ => true

/-- A frame that waits for `syswrite`. -/
def Frame.isSyswrite : Frame → Bool
  | .syswrite _ _ => true
  | _ => false

/-- One frame at most. -/
def FramesOk : List Frame → Prop
  | [] => True
  | [f] => f.fresh = true
  | _ => False

/-- A piece of code that leaves the sides alone. -/
structure Piece (v : View) (o : Outcome) : Prop where
  frames : FramesOk o.2
  sides : SameSides v o.1

theorem Piece.after (h : SameSides v v') (hp : Piece v' o) : Piece v o :=
  ⟨hp.frames, h.trans hp.sides⟩

/-- A piece of code that leaves the write buffer alone, and does not wait for `syswrite`. -/
structure Quiet (v : View) (o : Outcome) : Prop where
  keeps : Keeps v o.1
  quiet : o.2.any Frame.isSyswrite = false

/-- A piece of code that has nothing to do with the writer. -/
structure Aside (v : View) (o : Outcome) : Prop where
  beside : Beside v o.1
  quiet : o.2.any Frame.isSyswrite = false

theorem Aside.after (hk : Beside v v') (hq : Aside v' o) : Aside v o :=
  ⟨hk.trans hq.beside, hq.quiet⟩

theorem Aside.toQuiet (h : Aside v o) : Quiet v o := ⟨h.beside.keeps, h.quiet⟩

/-- There is nothing to send in an empty string. -/
theorem nextBuf_empty (i offset j : Nat) : nextBuf ([some []].drop i) i offset ≠ .syswrite j := by
  cases i with
  | zero | succ i => simp [nextBuf]

/-! ### The sides -/

theorem call_piece {ev : Option Nat} {args : EvType} {err : Int} (hf : f.fresh = true) :
    Piece v (v.call ev args err f) := by
  cases ev with
  | none => exact ⟨rfl, .refl v⟩
  | some i => exact ⟨hf, .observe v nofun⟩

theorem writeEnd_piece {error : Bool} : Piece v (writeEnd now v i offset error) := by
  have hs : SameSides v ({ v with
      wind := i
      woff := offset
      wbuf := if autoempty v.wbuf then some (.str []) else v.wbuf }.touch now v.write) :=
    ⟨rfl, rfl, rfl, rfl, rfl, rfl, rfl, rfl, .refl _⟩
  exact .after hs (call_piece rfl)

theorem writeLoop_piece : Piece v (writeLoop now v i offset) := by
  rw [writeLoop]
  split
  · exact ⟨rfl, .refl v⟩
  · split
    · exact writeEnd_piece
    · exact ⟨rfl, .refl v⟩
    · exact ⟨rfl, .refl v⟩

theorem write_piece : Piece v (_write now v) := by
  have hs : SameSides v { v.observe (.ran .write) with wind := firstIndex v } :=
    ⟨rfl, rfl, rfl, rfl, rfl, rfl, rfl, rfl, .snoc nofun⟩
  exact .after hs writeLoop_piece

theorem syswrite_piece {r : WriteResult} : Piece v (syswrite now v i offset r) := by
  rw [syswrite]
  split
  · cases r with
    | accepted n =>
      dsimp only
      split
      · next b _ _ =>
        have hs : SameSides v (v.observe (.sent ((b.drop offset).take n))) := .observe v nofun
        exact .after hs writeLoop_piece
      · exact ⟨rfl, .observe v nofun⟩
    | again => exact ⟨trivial, rfl, rfl, rfl, rfl, rfl, rfl, rfl, rfl, .snoc nofun⟩
    | intr => exact ⟨rfl, .refl v⟩
    | error => exact writeEnd_piece
  · exact ⟨rfl, .refl v⟩

theorem readEnd_piece {total : Nat} {error : Int} : Piece v (readEnd now v total error) := by
  rw [readEnd]
  split
  · exact ⟨trivial, .refl v⟩
  · next hne =>
    have hs : SameSides v (v.touch now v.read) :=
      ⟨rfl, rfl, rfl, rfl, rfl, rfl, rfl, rfl, .refl _⟩
    dsimp only
    split
    · exact .after hs (call_piece rfl)
    · next htotal =>
      have herr : error ≠ 0 := fun he => hne ⟨he, by omega⟩
      exact .after hs (call_piece (decide_eq_true herr))

theorem readLoop_piece {size : Int} {total : Nat} : Piece v (readLoop now v size total) := by
  rw [readLoop]
  split
  · exact ⟨rfl, .refl v⟩
  · exact readEnd_piece

theorem read_piece : Piece v (_read now v) := by
  have hs : SameSides v (v.observe (.ran .read)) := .observe v nofun
  rw [_read]
  split
  · exact .after hs readLoop_piece
  · exact ⟨rfl, hs⟩

theorem sysread_piece {size : Int} {total : Nat} {r : ReadResult} :
    Piece v (sysread now v size total r) := by
  cases r with
  | data b =>
    have hs : SameSides v ({ v with rbuf := v.rbuf.map (· ++ b) }.observe (.received b)) :=
      ⟨rfl, rfl, rfl, rfl, rfl, rfl, rfl, rfl, .snoc nofun⟩
    exact .after hs readLoop_piece
  | eof | again => exact readEnd_piece
  | intr => exact readLoop_piece
  | error => exact readEnd_piece

theorem acceptLoop_piece : Piece v (_accept v) := by
  have hs : SameSides v (v.observe (.ran .accept)) := .observe v nofun
  rw [_accept]
  split
  · exact ⟨rfl, hs⟩
  · exact ⟨rfl, hs⟩

theorem accept_piece {ok : Bool} : Piece v (accept v ok) := by
  cases ok with
  | false => exact ⟨trivial, .refl v⟩
  | true => exact call_piece rfl

/-- `_connect` takes the connection out of `$win` before its callback. -/
theorem connectEnd_piece {error connected : Bool} :
    Piece v (connectEnd v error connected) ∨
      Piece { v with win := false } (connectEnd v error connected) := by
  rw [connectEnd]
  split
  · exact .inl ⟨trivial, .refl v⟩
  · exact .inr (call_piece rfl)

theorem connectLoop_piece {limit : Nat} {error : Bool} :
    Piece v (connectLoop v limit error) ∨
      Piece { v with win := false } (connectLoop v limit error) := by
  cases limit with
  | zero => exact connectEnd_piece
  | succ limit => exact .inl ⟨rfl, .refl v⟩

theorem startConnect_piece : Piece v (_connect v) := ⟨rfl, .observe v nofun⟩

theorem connect_piece {limit : Nat} {error : Bool} {r : ConnectResult} :
    Piece v (connect v limit error r) ∨
      Piece { v with win := false } (connect v limit error r) := by
  cases r with
  | ok | again => exact connectEnd_piece
  | intr => exact connectLoop_piece
  | isconn | refused => exact connectEnd_piece
  | other => exact connectLoop_piece

/-! ### The write buffer -/

theorem call_aside {args : EvType} {err : Int} {f : Frame} (ev : Option Nat)
    (hx : ∀ i, (Obs.called i args err).aside = true) (hf : f.isSyswrite = false) :
    Aside v (v.call ev args err f) := by
  cases ev with
  | none => exact ⟨.refl v, rfl⟩
  | some i => exact ⟨.observe v (hx i), by simp [View.call, hf]⟩

theorem readEnd_aside {total : Nat} {error : Int} : Aside v (readEnd now v total error) := by
  rw [readEnd]
  split
  · exact ⟨.refl v, rfl⟩
  · have hk : Beside v (v.touch now v.read) := .of_eq rfl rfl rfl rfl rfl
    dsimp only
    split
    · exact .after hk (call_aside _ (fun _ => rfl) rfl)
    · exact .after hk (call_aside _ (fun _ => rfl) rfl)

theorem readLoop_aside {size : Int} {total : Nat} : Aside v (readLoop now v size total) := by
  rw [readLoop]
  split
  · exact ⟨.refl v, rfl⟩
  · exact readEnd_aside

theorem read_aside : Aside v (_read now v) := by
  have hk : Beside v (v.observe (.ran .read)) := .observe v rfl
  rw [_read]
  split
  · exact .after hk readLoop_aside
  · exact ⟨hk, rfl⟩

theorem sysread_aside {size : Int} {total : Nat} {r : ReadResult} :
    Aside v (sysread now v size total r) := by
  cases r with
  | data b =>
    have hbuf : Beside v { v with rbuf := v.rbuf.map (· ++ b) } := .of_eq rfl rfl rfl rfl rfl
    exact .after (hbuf.trans (.observe _ rfl)) readLoop_aside
  | eof | again => exact readEnd_aside
  | intr => exact readLoop_aside
  | error => exact readEnd_aside

theorem accept_aside (ok : Bool) : Aside v (accept v ok) := by
  cases ok with
  | false => exact ⟨.refl v, rfl⟩
  | true => exact call_aside _ (fun _ => rfl) rfl

theorem acceptLoop_aside : Aside v (_accept v) := by
  have hk : Beside v (v.observe (.ran .accept)) := .observe v rfl
  rw [_accept]
  split
  · exact ⟨hk, rfl⟩
  · exact ⟨hk, rfl⟩

theorem connectEnd_aside {error connected : Bool} : Aside v (connectEnd v error connected) := by
  rw [connectEnd]
  split
  · exact ⟨.refl v, rfl⟩
  · have hk : Beside v { v with win := false } := .of_eq rfl rfl rfl rfl rfl
    exact .after hk (call_aside _ (fun _ => rfl) rfl)

theorem connectLoop_aside {limit : Nat} {error : Bool} : Aside v (connectLoop v limit error) := by
  cases limit with
  | zero => exact connectEnd_aside
  | succ limit => exact ⟨.refl v, rfl⟩

theorem connect_aside {limit : Nat} {error : Bool} {r : ConnectResult} :
    Aside v (connect v limit error r) := by
  cases r with
  | ok | again => exact connectEnd_aside
  | intr => exact connectLoop_aside
  | isconn | refused => exact connectEnd_aside
  | other => exact connectLoop_aside

theorem startConnect_aside : Aside v (_connect v) :=
  .after (.observe v rfl) connectLoop_aside

/-- The loop does nothing for a write side that it does not look at. -/
theorem dispatchWrite_idle {wev : Option Nat} :
    dispatchWrite now t v false false wev = (v, []) := by
  rw [dispatchWrite]
  split
  · rfl
  · simp

/-! ### The read buffer -/

/-- What does not come from the reader: no bytes, and no call of its callback. -/
def Obs.apart : Obs → Bool
  | .received _ | .called _ .read _ => false
  | _ => true

/-- A frame in which `_read` does not wait, and no callback that is followed by a close. -/
def Frame.aloof : Frame → Bool
  | .sysread _ _ | .readError _ | .timedout => false
  | _ => true

/-- A piece of code that has nothing to do with the reader. -/
structure Apart (v : View) (o : Outcome) : Prop where
  rbuf : o.1.rbuf = v.rbuf
  trace : Extends (·.apart = true) v.trace o.1.trace
  frames : o.2.all Frame.aloof = true

theorem Apart.after (h : Apart v' o) (hb : v'.rbuf = v.rbuf)
    (ht : Extends (·.apart = true) v.trace v'.trace) : Apart v o :=
  ⟨h.rbuf.trans hb, ht.trans h.trace, h.frames⟩

theorem Apart.refl (v : View) : Apart v (v, []) := ⟨rfl, .refl _, rfl⟩

theorem call_apart {args : EvType} {err : Int} (ev : Option Nat)
    (hx : ∀ i, (Obs.called i args err).apart = true) (hf : f.aloof = true) :
    Apart v (v.call ev args err f) := by
  cases ev with
  | none => exact ⟨rfl, .refl _, rfl⟩
  | some i => exact ⟨rfl, .snoc (hx i), by simp [View.call, hf]⟩

theorem writeEnd_apart {error : Bool} : Apart v (writeEnd now v i offset error) := by
  have h : Apart ({ v with
      wind := i
      woff := offset
      wbuf := if autoempty v.wbuf then some (.str []) else v.wbuf }.touch now v.write)
      (writeEnd now v i offset error) := call_apart _ (fun _ => rfl) rfl
  exact h.after rfl (.refl _)

theorem writeLoop_apart : Apart v (writeLoop now v i offset) := by
  rw [writeLoop]
  split
  · exact ⟨rfl, .refl _, rfl⟩
  · split
    · exact writeEnd_apart
    · exact ⟨rfl, .refl _, rfl⟩
    · exact ⟨rfl, .refl _, rfl⟩

theorem write_apart : Apart v (_write now v) := by
  have h : Apart { v.observe (.ran .write) with wind := firstIndex v } (_write now v) :=
    writeLoop_apart
  exact h.after rfl (.snoc rfl)

theorem syswrite_apart {r : WriteResult} : Apart v (syswrite now v i offset r) := by
  rw [syswrite]
  split
  · next b _ =>
    cases r with
    | accepted n =>
      dsimp only
      split
      · have h : Apart (v.observe (.sent ((b.drop offset).take n)))
            (writeLoop now (v.observe (.sent ((b.drop offset).take n))) (i + 1) 0) :=
          writeLoop_apart
        exact h.after rfl (.snoc rfl)
      · exact ⟨rfl, .snoc rfl, rfl⟩
    | again => exact ⟨rfl, .snoc rfl, rfl⟩
    | intr => exact ⟨rfl, .refl _, rfl⟩
    | error => exact writeEnd_apart
  · exact ⟨rfl, .refl _, rfl⟩

theorem accept_apart (ok : Bool) : Apart v (accept v ok) := by
  cases ok with
  | false => exact .refl v
  | true => exact call_apart _ (fun _ => rfl) rfl

theorem acceptLoop_apart : Apart v (_accept v) := by
  rw [_accept]
  split
  · exact ⟨rfl, .snoc rfl, rfl⟩
  · exact ⟨rfl, .snoc rfl, rfl⟩

theorem connectEnd_apart {error connected : Bool} : Apart v (connectEnd v error connected) := by
  rw [connectEnd]
  split
  · exact .refl v
  · have h : Apart { v with win := false } (View.call { v with win := false } v.write .connect
        (if error then 1 else 0) (.connected error)) := call_apart _ (fun _ => rfl) rfl
    exact h.after rfl (.refl _)

theorem connectLoop_apart {limit : Nat} {error : Bool} : Apart v (connectLoop v limit error) := by
  cases limit with
  | zero => exact connectEnd_apart
  | succ limit => exact ⟨rfl, .refl _, rfl⟩

theorem connect_apart {limit : Nat} {error : Bool} {r : ConnectResult} :
    Apart v (connect v limit error r) := by
  cases r with
  | ok | again => exact connectEnd_apart
  | intr => exact connectLoop_apart
  | isconn | refused => exact connectEnd_apart
  | other => exact connectLoop_apart

theorem startConnect_apart : Apart v (_connect v) := by
  have h : Apart (v.observe (.ran .connect)) (_connect v) := connectLoop_apart
  exact h.after rfl (.snoc rfl)

/-! ### Closed connections -/

/-- The loop does not look at the write side. -/
def View.Off (v : View) : Prop := v.win = false ∧ v.wout = false

theorem ngxeClose_off (h : v.closed = true → v.Off) : (ngxeClose v).Off := by
  rw [ngxeClose]
  split
  · next hc => exact h hc
  · exact ⟨rfl, rfl⟩

theorem ngxeClose_closed (v : View) : (ngxeClose v).closed = true := by
  rw [ngxeClose]
  split
  · next hc => exact hc
  · rfl

/-- A piece of code does nothing for a closed connection. -/
def Idle (v : View) (o : Outcome) : Prop := v.closed = true → o = (v, [])

theorem idle_of_open (hopen : v.closed = false) : Idle v o :=
  fun hclosed => absurd (hopen.symm.trans hclosed) (by decide)

theorem afterCallback_idle (ho : afterCallback now v f = some o)
    (hf : f ≠ .accepted) : Idle v o := by
  intro hclosed
  cases f with
  | readData error =>
    cases ho
    simp [afterData, hclosed]
  | readError error =>
    cases ho
    simp [finishRead, hclosed]
  | writeDone error =>
    cases ho
    simp [afterWrite, hclosed]
  | timedout =>
    cases ho
    simp [ngxeClose, hclosed]
  | accepted => exact absurd rfl hf
  | connected error =>
    cases ho
    simp [afterConnect, hclosed]
  | _ => cases ho

theorem applyOp_idle {op : Op} (hopen : v.closed = false ∨ op = .close) :
    Idle v (applyOp now v op) := by
  rcases hopen with hopen | rfl
  · exact idle_of_open hopen
  · intro hclosed
    simp [applyOp, ngxeClose, hclosed]

/-! ### The cases of the loop's body, and of the code after a callback -/

/-- What `_timedout` does; a listening connection is closed without a callback. -/
inductive TimedOut (v : View) : Outcome → Prop
  | close : TimedOut v (ngxeClose (v.observe (.ran .timedout)), [])
  | call (ev : Nat) (args : EvType) :
      TimedOut v ((v.observe (.ran .timedout)).call (some ev) args (-1) .timedout)
  | crash : TimedOut v (v.observe (.ran .timedout), [.crash])

theorem timedout_cases (v : View) (ev : Nat) : TimedOut v (_timedout v ev) := by
  rw [_timedout.eq_def]
  dsimp only
  split
  · split
    · exact .close
    · exact .call ev _
  · exact .crash

/-- The first half of the loop's body; a handler runs on top of the second half. -/
inductive Dispatched (now : Int) (fno : Nat) (v : View) : Outcome → Prop
  | skip : Dispatched now fno v (v, [.loop fno v.write])
  | read (hread : v.read.isSome = true) :
      Dispatched now fno v ((_read now v).1, (_read now v).2 ++ [.loop fno v.write])
  | accept : Dispatched now fno v ((_accept v).1, (_accept v).2 ++ [.loop fno v.write])
  | timedout {o : Outcome} (h : TimedOut v o) : Dispatched now fno v o

theorem dispatch_cases (now t : Int) (fno : Nat) (v : View) :
    Dispatched now fno v (dispatch now t fno v) := by
  rw [dispatch]
  split
  · exact .skip
  next i e hread =>
  split
  · split
    · obtain ⟨j, hj, -⟩ := Option.bind_eq_some_iff.mp hread
      exact .read (by rw [hj]; rfl)
    · exact .accept
    · exact .skip
    · exact .skip
  split
  · exact .timedout (timedout_cases v i)
  · exact .skip

/-- The second half of the loop's body. -/
inductive DispatchedWrite (now : Int) (v : View) (wout : Bool) : Outcome → Prop
  | skip : DispatchedWrite now v wout (v, [])
  | write (hout : wout = true) : DispatchedWrite now v wout (_write now v)
  | connect : DispatchedWrite now v wout (_connect v)
  | timedout {o : Outcome} (h : TimedOut v o) : DispatchedWrite now v wout o

theorem dispatchWrite_cases (now t : Int) (v : View) (win wout : Bool) (wev : Option Nat) :
    DispatchedWrite now v wout (dispatchWrite now t v win wout wev) := by
  rw [dispatchWrite]
  split
  · exact .skip
  next i e _ =>
  split
  · next hout =>
    split
    · exact .write hout
    · exact .connect
    · exact .skip
    · exact .skip
  split
  · exact .timedout (timedout_cases v i)
  · exact .skip

/-- Code that leaves the sides alone and has nothing to do with the writer, or that closes
    the connection. -/
inductive Tame (v : View) : Outcome → Prop
  | code {o : Outcome} (hs : SameSides v o.1) (ha : Aside v o) : Tame v o
  | close {v' : View} (hs : SameSides v v') (hk : Beside v v') : Tame v (ngxeClose v', [])

theorem Tame.of_piece (ha : Aside v o) (hp : Piece v o) : Tame v o := .code hp.sides ha

theorem Tame.refl (v : View) : Tame v (v, []) := .code (.refl v) ⟨.refl v, rfl⟩

theorem TimedOut.tame (h : TimedOut v o) : Tame v o := by
  have hs : SameSides v (v.observe (.ran .timedout)) := .observe v (by simp)
  have hk : Beside v (v.observe (.ran .timedout)) := .observe v rfl
  cases h with
  | close => exact .close hs hk
  | call ev args =>
    have haside : ∀ i, (Obs.called i args (-1)).aside = true := by
      intro i
      cases args <;> rfl
    exact .of_piece (.after hk (call_aside _ haside rfl)) (.after hs (call_piece rfl))
  | crash => exact .code hs ⟨hk, rfl⟩

/-- The first half of the loop's body never writes. -/
theorem Dispatched.tame {fno : Nat} (h : Dispatched now fno v o) : Tame v o := by
  have hloop : ∀ {o : Outcome}, Aside v o → Aside v (o.1, o.2 ++ [.loop fno v.write]) := by
    intro o ha
    refine ⟨ha.beside, ?_⟩
    rw [List.any_append, ha.quiet]
    rfl
  cases h with
  | skip => exact .code (.refl v) ⟨.refl v, rfl⟩
  | read hread => exact .code read_piece.sides (hloop read_aside)
  | accept => exact .code acceptLoop_piece.sides (hloop acceptLoop_aside)
  | timedout h => exact h.tame

/-- The second half runs `_write`, or does not touch the writer. -/
theorem DispatchedWrite.tame {wout : Bool} (h : DispatchedWrite now v wout o) :
    Tame v o ∨ wout = true ∧ o = _write now v := by
  cases h with
  | skip => exact .inl (.refl v)
  | write hout => exact .inr ⟨hout, rfl⟩
  | connect => exact .inl (.of_piece startConnect_aside startConnect_piece)
  | timedout h => exact .inl h.tame

/-- The code after a callback of the frame `f`: it switches to the writer or away from it, or
    does not touch it. -/
inductive Returned (now : Int) (v : View) (f : Frame) : Outcome → Prop
  | tame {o : Outcome} (hframes : FramesOk o.2) (h : Tame v o) : Returned now v f o
  | switch (hf : f = .readData 0 ∧ v.rin = true ∨ f = .readError 0) (hopen : v.closed = false)
      (hrout : v.rout = true) (hw : wantsWriter v.wbuf = true) :
      Returned now v f (ngxeReaderStopWriterStart now { v with wind := 0, woff := 0 })
  | stop (hf : f = .writeDone false) (hopen : v.closed = false) :
      Returned now v f (ngxeWriterStopReaderStart now v, [])

theorem Returned.nothing : Returned now v f (v, []) := .tame trivial (.refl v)

theorem Returned.close : Returned now v f (ngxeClose v, []) :=
  .tame trivial (.close (.refl v) (.refl v))

theorem finishRead_cases {error : Int}
    (hf : error = 0 → f = .readData 0 ∧ v.rin = true ∨ f = .readError 0) :
    Returned now v f (finishRead now v error) := by
  rw [finishRead]
  split
  · exact .nothing
  next hopen =>
  split
  · exact .close
  next herr =>
  split
  · next hcond =>
    obtain ⟨hrout, hw⟩ := (Bool.and_eq_true _ _).mp hcond
    exact .switch (hf (not_not.mp herr)) (eq_false_of_ne_true hopen) hrout hw
  · exact .nothing

theorem afterCallback_cases (ho : afterCallback now v f = some o) : Returned now v f o := by
  cases f with
  | readData error =>
    cases ho
    rw [afterData]
    split
    · exact .nothing
    next hcond =>
    have hrin : v.rin = true := by simp_all
    split
    · next herr =>
      have hp : Piece v (v.call v.read .read error (.readError error)) :=
        call_piece (decide_eq_true herr)
      exact .tame hp.frames (.of_piece (call_aside _ (fun _ => rfl) rfl) hp)
    · next herr =>
      obtain rfl : error = 0 := not_not.mp herr
      exact finishRead_cases fun _ => .inl ⟨rfl, hrin⟩
  | readError error =>
    cases ho
    exact finishRead_cases fun herr => .inr (herr ▸ rfl)
  | writeDone error =>
    cases ho
    rw [afterWrite]
    split
    · exact .nothing
    next hopen =>
    cases error with
    | true => exact .close
    | false => exact .stop rfl (eq_false_of_ne_true hopen)
  | timedout =>
    cases ho
    exact .close
  | accepted =>
    cases ho
    exact .tame acceptLoop_piece.frames (.of_piece acceptLoop_aside acceptLoop_piece)
  | connected error =>
    cases ho
    rw [afterConnect]
    split
    · exact .nothing
    split
    · exact .close
    · exact .nothing
  | _ => cases ho

/-! ### The frames -/

structure StackOk (stack : List Frame) : Prop where
  below : ∀ f ∈ stack.tail, f.resumes = true
  sane : ∀ f ∈ stack, f.sane = true

theorem connect_frames {limit : Nat} {error : Bool} {r : ConnectResult} :
    FramesOk (connect v limit error r).2 := by
  rcases connect_piece with h | h
  · exact h.frames
  · exact h.frames

theorem TimedOut.frames (h : TimedOut v o) : FramesOk o.2 := by
  cases h with
  | close => trivial
  | call ev args | crash => rfl

theorem DispatchedWrite.frames {wout : Bool} (h : DispatchedWrite now v wout o) :
    FramesOk o.2 := by
  cases h with
  | skip => trivial
  | write hout => exact write_piece.frames
  | connect => exact startConnect_piece.frames
  | timedout h => exact h.frames

/-- A handler of the reader, or none, runs before the second half; or there is a report that
    the reader has timed out. -/
theorem Dispatched.frames {fno : Nat} (h : Dispatched now fno v o) :
    FramesOk o.2 ∨ ∃ fs, FramesOk fs ∧ o.2 = fs ++ [.loop fno v.write] := by
  cases h with
  | skip => exact .inr ⟨[], trivial, rfl⟩
  | read hread => exact .inr ⟨_, read_piece.frames, rfl⟩
  | accept => exact .inr ⟨_, acceptLoop_piece.frames, rfl⟩
  | timedout h => exact .inl h.frames

theorem applyOp_frames {op : Op} : FramesOk (applyOp now v op).2 := by
  cases op with
  | writer start timeout buf =>
    cases start with
    | false => trivial
    | true => exact write_piece.frames
  | writerStart timeout | readerStopWriterStart | writerBufferSet data => exact write_piece.frames
  | _ => trivial

theorem Returned.frames (h : Returned now v f o) : FramesOk o.2 := by
  cases h with
  | tame hframes h => exact hframes
  | switch hf hopen hrout hw => exact write_piece.frames
  | stop hf hopen => trivial

theorem sane_of_fresh (h : f.fresh = true) : f.sane = true := by
  cases f with
  | readError error => exact h
  | _ => rfl

theorem FramesOk.stackOk {fs : List Frame} (h : FramesOk fs)
    (hrest : ∀ f ∈ rest, f.resumes = true) (hsane : ∀ f ∈ rest, f.sane = true) :
    StackOk (fs ++ rest) := by
  match fs, h with
  | [], _ => exact ⟨fun f hf => hrest f (List.mem_of_mem_tail hf), hsane⟩
  | [f], hf =>
    refine ⟨hrest, fun g hg => ?_⟩
    rcases List.mem_cons.mp hg with rfl | hg
    · exact sane_of_fresh hf
    · exact hsane g hg

/-- The code that a frame waited for leaves its frames in the place of that frame. -/
theorem FramesOk.resume {fs : List Frame} (h : FramesOk fs) (hs : StackOk (f :: rest)) :
    StackOk (fs ++ rest) :=
  h.stackOk hs.below fun g hg => hs.sane g (List.mem_cons_of_mem f hg)

theorem resumes_of_isPerl (h : f.isPerl = true) : f.resumes = true := by
  rw [Frame.resumes.eq_def]
  split
  · rfl
  · exact h

theorem isSyswrite_of_resumes (h : f.resumes = true) :
    f.isSyswrite = false ∧ f ≠ .crash := by
  cases f <;> simp [Frame.resumes, Frame.isPerl, Frame.isSyswrite] at h ⊢

theorem any_isSyswrite_of_resumes (h : ∀ f ∈ rest, f.resumes = true) :
    rest.any Frame.isSyswrite = false := by
  rw [List.any_eq_false]
  intro f hf
  simp [(isSyswrite_of_resumes (h f hf)).1]

theorem StackOk.under {stack : List Frame} (h : StackOk stack) (hstk : stack = f :: rest) :
    ∀ g ∈ rest, g.resumes = true := by
  subst hstk
  exact h.below

/-- Under Perl code every frame is one that may lie below the top. -/
theorem StackOk.perl {stack : List Frame} (h : StackOk stack) (hstk : stack = f :: rest)
    (hf : f.isPerl = true) : ∀ g ∈ stack, g.resumes = true := by
  subst hstk
  intro g hg
  rcases List.mem_cons.mp hg with rfl | hg
  · exact resumes_of_isPerl hf
  · exact h.below g hg

theorem stackOk_step {i : Input} (h : StackOk s.stack) (hstep : Step s i s') :
    StackOk s'.stack := by
  cases hstep with
  | tick n | select r w hstk => exact h
  | dispatch hstk hopen =>
    show StackOk (_ ++ [])
    rcases (dispatch_cases s.now s.t _ s.v).frames with hf | ⟨fs, hf, he⟩
    · exact hf.stackOk nofun nofun
    · rw [he, List.append_nil]
      exact hf.stackOk (by simp [Frame.resumes]) (by simp [Frame.sane])
  | next hstk =>
    rw [hstk] at h
    exact (dispatchWrite_cases ..).frames.resume h
  | sysread r hstk hr =>
    rw [hstk] at h
    exact sysread_piece.frames.resume h
  | syswrite r hstk hr =>
    rw [hstk] at h
    exact syswrite_piece.frames.resume h
  | accept ok hstk =>
    rw [hstk] at h
    exact accept_piece.frames.resume h
  | connect r hstk =>
    rw [hstk] at h
    exact connect_frames.resume h
  | ret hstk ho =>
    rw [hstk] at h
    exact (afterCallback_cases ho).frames.resume h
  | enter hstk => exact ⟨nofun, by simp [Frame.sane]⟩
  | leave hstk =>
    rw [hstk] at h
    have hnone : FramesOk [] := trivial
    exact hnone.resume h
  | op o hstk hf hopen => exact applyOp_frames.stackOk (h.perl hstk hf) h.sane

theorem stackOk_initial (h : Initial s) : StackOk s.stack := by
  have hsane : ∀ f ∈ [Frame.outside], f.sane = true := by simp [Frame.sane]
  cases h with
  | accepted now t fileno | server now t fileno => exact ⟨nofun, hsane⟩
  | client now t fileno timeout =>
    exact FramesOk.stackOk startConnect_piece.frames (by simp [Frame.resumes, Frame.isPerl]) hsane

theorem stackOk_of_reachable {G : Sys → Input → Prop} (h : Reachable G s) : StackOk s.stack :=
  h.invariant (fun _ h => stackOk_initial h) fun _ _ _ hs _ hstep => stackOk_step hs hstep

end NginxEngine.PP
