import NginxEngine.PP.InOrder
import NginxEngine.PP.Switch

/-!
# No byte of a load is sent twice

A load stays in the write buffer until the program assigns another one, unless it is a string,
which `_write` empties. So a reference that was sent whole, and reported as sent, is sent once
more by whatever starts the writer again: the code after a callback in `_read` does it when data
arrive, since it takes every reference in the write buffer for something to send.

## Main definitions

- `assigned` — the load that was assigned last, and what was sent since
- `Unrepeated` — what is sent of a load until the next one is assigned is a prefix of it
- `View.spent` — a load that was reported as sent is still in the write buffer
- `NoResend` — besides `NoRewind`, no writer is started with such a load

## Main results

- `sent_in_order` — every run of such steps sends no byte of a load twice
- `sent_twice` — a reader callback starts a write that stops half way
-/

namespace NginxEngine.PP

open NginxEngine.XS (Bytes Sv)

variable {now t : Int} {v v' : View} {o : Outcome} {s s' : Sys} {l l' : List Obs} {x : Obs}
  {q : Progress} {i offset : Nat}

def observeAssigned (p : Option Progress) : Obs → Option Progress
  | .loaded sv => some ⟨sv, []⟩
  | .sent b => p.map fun q => { q with sent := q.sent ++ b }
  | _ => p

/-- The load that was assigned last, and the bytes accepted since. -/
def assigned (l : List Obs) : Option Progress := l.foldl observeAssigned none

/-- What may be observed after `l`: the bytes put on the wire since a load was assigned are a
    prefix of it. -/
def Adds (l : List Obs) : Obs → Prop
  | .sent b => ∀ q, assigned l = some q → q.sent ++ b <+: q.load.bytes
  | _ => True

def Unrepeated (l : List Obs) : Prop := Everywhere Adds l

/-- The load was reported as sent, and the write buffer still holds bytes. -/
def View.spent (v : View) : Bool := (progress v.trace).isNone && v.left

/-- Besides, the writer is not started with a load that was sent: not by the program, not by a
    write event, and not by the code after a callback for data. -/
def NoResend (s : Sys) (i : Input) : Prop :=
  NoRewind s i ∧
  match i, s.stack with
  | .op (.writerStart _), _ | .op .readerStopWriterStart, _ => s.v.spent = false
  | .next, _ => s.v.spent = false ∨ s.v.wout = false
  | .ret, .readData _ :: _ => s.v.spent = false ∨ s.v.rin = false ∨ s.v.rout = false
  | _, _ => True

instance {i : Input} : Decidable (NoResend s i) := by
  unfold NoResend
  refine @instDecidableAnd _ _ inferInstance ?_
  generalize s.stack = stk
  induction i with
  | op o => induction o <;> infer_instance
  | ret =>
    induction stk using List.casesOn with
    | nil => infer_instance
    | cons f rest => induction f <;> infer_instance
  | _ => infer_instance

theorem assigned_append (l : List Obs) (x : Obs) :
    assigned (l ++ [x]) = observeAssigned (assigned l) x := by
  simp [assigned]

/-- A load that was not reported as sent is the one that was assigned last. -/
theorem assigned_of_progress (h : progress l = some q) : assigned l = some q := by
  induction l using List.reverseRecOn generalizing q with
  | nil => cases h
  | append_singleton l x ih =>
    rw [progress_append] at h
    rw [assigned_append]
    cases x with
    | loaded sv => exact h
    | sent b =>
      obtain ⟨q', hq', rfl⟩ := Option.map_eq_some_iff.mp h
      exact Option.map_eq_some_iff.mpr ⟨q', ih hq', rfl⟩
    | called ev args err =>
      refine ih ?_
      rw [observe.eq_def] at h
      split at h
      · next heq => cases heq
      · next heq => cases heq
      · cases h
      · exact h
    | _ => exact ih h

/-! ### Bytes go out for a load that was not reported -/

/-- What may be observed after `l`: bytes are accepted for a load that was not reported as sent. -/
def Covers (l : List Obs) : Obs → Prop
  | .sent _ => (progress l).isSome = true
  | _ => True

/-- Such bytes are in order also where loads are remembered beyond their success callback. -/
theorem unrepeated_of_covers (horder : InOrder l) (hcovers : Everywhere Covers l) :
    Unrepeated l := by
  intro p x r he
  cases x with
  | sent b =>
    intro q hq
    obtain ⟨q', hq'⟩ := Option.isSome_iff_exists.mp (hcovers p _ r he)
    obtain rfl := Option.some.inj ((assigned_of_progress hq').symm.trans hq)
    exact horder p _ r he q' hq'
  | _ => trivial

/-- What a piece of code leaves: `syswrite` is awaited only for a load that was not reported. -/
structure Covered (o : Outcome) : Prop where
  trace : Everywhere Covers o.1.trace
  top : o.2.any Frame.isSyswrite = true → (progress o.1.trace).isSome = true

theorem Keeps.covers (hk : Keeps v v') (h : Everywhere Covers v.trace) :
    Everywhere Covers v'.trace := by
  refine hk.trace.invariant h fun l x hl hx => hl.append ?_
  cases x with
  | sent b => cases hx
  | _ => trivial

theorem Covered.silent {fs : List Frame} (h : Everywhere Covers v.trace)
    (hf : fs.any Frame.isSyswrite = false) : Covered (v, fs) := by
  refine ⟨h, fun hs => ?_⟩
  rw [hf] at hs
  cases hs

theorem Quiet.covered (hq : Quiet v o) (h : Everywhere Covers v.trace) : Covered o :=
  .silent (hq.keeps.covers h) hq.quiet

theorem close_covered (h : Everywhere Covers v.trace) : Covered (ngxeClose v, []) := by
  rw [ngxeClose]
  split
  · exact .silent h rfl
  · exact .silent (h.append trivial) rfl

theorem Tame.covered (ht : Tame v o) (h : Everywhere Covers v.trace) : Covered o := by
  cases ht with
  | code _ ha => exact ha.toQuiet.covered h
  | close _ hk => exact close_covered (hk.keeps.covers h)

theorem writeEnd_covered {error : Bool} (h : Everywhere Covers v.trace) :
    Covered (writeEnd now v i offset error) := by
  cases hw : v.write with
  | none =>
    simp only [writeEnd, View.call, View.touch, hw]
    exact .silent h rfl
  | some w =>
    simp only [writeEnd, View.call, View.touch, hw]
    exact .silent (h.append trivial) rfl

/-- Where nothing is left in the elements, the loop of `_write` comes to its end. -/
theorem nextBuf_of_empty {xs : List (Option Bytes)} (h : ∀ e ∈ xs, e.getD [] = [])
    (i offset j : Nat) : nextBuf xs i offset ≠ .syswrite j := by
  induction xs generalizing i with
  | nil => simp [nextBuf]
  | cons e xs ih =>
    cases e with
    | none => simp [nextBuf]
    | some b =>
      obtain rfl : b = [] := h (some b) List.mem_cons_self
      rw [nextBuf, List.length_nil, if_neg (Nat.not_lt_zero offset)]
      exact ih (fun e he => h e (List.mem_cons_of_mem _ he)) (i + 1)

theorem elements_of_not_left {bufs : List (Option Bytes)} (h : v.left = false)
    (hb : buffers v.wbuf = some bufs) : ∀ e ∈ bufs, e.getD [] = [] := by
  cases hw : v.wbuf with
  | none =>
    rw [hw] at hb
    cases hb
  | some sv =>
    have hbytes : sv.bytes = [] := by simpa [View.left, hw] using h
    have hchunks : (chunks bufs).flatten = [] := by
      rw [← hbytes, ← unsentAt_zero, unsentAt, ← hw, hb, Option.getD_some, List.drop_zero,
        Chunks.rest_zero]
    intro e he
    exact List.flatten_eq_nil_iff.mp hchunks _ (List.mem_map.mpr ⟨e, he, rfl⟩)

theorem writeLoop_covered (h : Everywhere Covers v.trace)
    (hload : (progress v.trace).isSome = true ∨ v.left = false) :
    Covered (writeLoop now v i offset) := by
  rw [writeLoop]
  split
  · exact .silent h rfl
  · next bufs hb =>
    split
    · exact writeEnd_covered h
    · exact .silent h rfl
    · next j hn =>
      refine ⟨h, fun _ => ?_⟩
      rcases hload with hsome | hleft
      · exact hsome
      · refine absurd hn (nextBuf_of_empty (fun e he => ?_) i offset j)
        exact elements_of_not_left hleft hb e (List.mem_of_mem_drop he)

theorem write_covered (h : Everywhere Covers v.trace) (hspent : v.spent = false) :
    Covered (_write now v) := by
  refine writeLoop_covered (h.append trivial) ?_
  have hprog : progress (v.observe (.ran .write)).trace = progress v.trace := progress_neutral rfl
  show (progress (v.observe (.ran .write)).trace).isSome = true ∨ v.left = false
  rw [hprog]
  cases hp : progress v.trace with
  | some q => exact .inl rfl
  | none =>
    -- what is left of a load that was reported would be sent again
    refine .inr ?_
    simpa [View.spent, hp] using hspent

/-- Starting the writer changes bits and deadlines, or the position, before it calls `_write`. -/
theorem start_covered (hw : v'.wbuf = v.wbuf) (ht : v'.trace = v.trace)
    (h : Everywhere Covers v.trace) (hspent : v.spent = false) : Covered (_write now v') := by
  refine write_covered (ht ▸ h) ?_
  rw [← hspent, View.spent, View.spent, View.left, View.left, ht, hw]

theorem spent_load (sv : Sv) (ht : v'.trace = (v.load sv).trace) : v'.spent = false := by
  have hprog : progress (v.load sv).trace = some ⟨sv, []⟩ := progress_append _ _
  rw [View.spent, ht, hprog]
  rfl

theorem syswrite_covered {r : WriteResult} (h : Everywhere Covers v.trace)
    (hload : (progress v.trace).isSome = true) : Covered (syswrite now v i offset r) := by
  have hsent : ∀ b : Bytes, (progress (v.trace ++ [.sent b])).isSome = true := by
    intro b
    rw [progress_append]
    simpa [observe] using hload
  rw [syswrite]
  split
  · next b hx =>
    cases r with
    | accepted n =>
      dsimp only
      split
      · exact writeLoop_covered (h.append hload) (.inl (hsent _))
      · exact ⟨h.append hload, fun _ => hsent _⟩
    | again => exact .silent (h.append hload) rfl
    | intr => exact ⟨h, fun _ => hload⟩
    | error => exact writeEnd_covered h
  · exact .silent h rfl

/-! ### Steps and runs -/

theorem applyOp_covered {op : Op} (h : Everywhere Covers s.v.trace)
    (hG : NoResend s (.op op)) : Covered (applyOp s.now s.v op) := by
  have hkeep : ∀ v', v'.trace = s.v.trace → Covered (v', []) := fun v' ht => .silent (ht ▸ h) rfl
  cases op with
  | reader start timeout =>
    cases start with
    | false => exact hkeep _ rfl
    | true => exact hkeep _ rfl
  | readerStopWriterStart => exact start_covered (v := s.v) rfl rfl h hG.2
  | writer start timeout buf =>
    have hload : Everywhere Covers (s.v.withBuffers.load buf).trace := h.append trivial
    cases start with
    | false => exact .silent hload rfl
    | true => exact write_covered hload (spent_load (v := s.v.withBuffers) buf rfl)
  | writerStart timeout => exact start_covered (v := s.v) rfl rfl h hG.2
  | writerBufferSet data =>
    have hload : Everywhere Covers (s.v.load data).trace := h.append trivial
    exact write_covered hload (spent_load (v := s.v) data rfl)
  | close => exact close_covered h
  | setWriteBuffer sv =>
    cases hb : s.v.wbuf.isSome with
    | true =>
      simp only [applyOp, hb, if_true]
      exact .silent (h.append trivial) rfl
    | false =>
      simp only [applyOp, hb]
      exact .silent h rfl
  | _ => exact hkeep _ rfl

theorem afterCallback_covered {f : Frame} {rest : List Frame} (h : Everywhere Covers s.v.trace)
    (hsane : f.sane = true) (hstk : s.stack = f :: rest)
    (ho : afterCallback s.now s.v f = some o) (hG : NoResend s .ret) : Covered o := by
  cases afterCallback_cases ho with
  | tame hframes ht => exact ht.covered h
  | switch hf hopen hrout hw =>
    refine start_covered (v := s.v) rfl rfl h ?_
    rcases hf with ⟨rfl, hrin⟩ | rfl
    · have hG' := hG.2
      rw [hstk] at hG'
      simpa [hrin, hrout] using hG'
    · cases hsane
  | stop hf hopen => exact .silent h rfl

theorem dispatchWrite_covered {wev : Option Nat} (h : Everywhere Covers v.trace)
    (hspent : v.spent = false ∨ v.wout = false) :
    Covered (dispatchWrite now t v v.win v.wout wev) := by
  rcases (dispatchWrite_cases now t v v.win v.wout wev).tame with ht | ⟨hout, he⟩
  · exact ht.covered h
  · rw [he]
    refine write_covered h (hspent.resolve_right fun hoff => ?_)
    exact absurd (hout.symm.trans hoff) (by decide)

theorem Covered.resume {rest : List Frame} (h : Covered o)
    (hrest : ∀ f ∈ rest, f.resumes = true) : Covered (o.1, o.2 ++ rest) := by
  refine ⟨h.trace, fun hs => h.top ?_⟩
  rwa [List.any_append, any_isSyswrite_of_resumes hrest, Bool.or_false] at hs

theorem covered_step {j : Input} (hstack : StackOk s.stack) (h : Covered (s.v, s.stack))
    (hG : NoResend s j) (hstep : Step s j s') : Covered (s'.v, s'.stack) := by
  have htrace : Everywhere Covers s.v.trace := h.trace
  cases hstep with
  | tick n => exact h
  | select r w hstk => exact ⟨htrace, h.top⟩
  | dispatch hstk hopen =>
    exact ((dispatch_cases ..).tame.covered htrace).resume (List.forall_mem_nil _)
  | next hstk => exact (dispatchWrite_covered htrace hG.2).resume (hstack.under hstk)
  | sysread r hstk hr =>
    exact (sysread_aside.toQuiet.covered htrace).resume (hstack.under hstk)
  | syswrite r hstk hr =>
    refine (syswrite_covered htrace (h.top ?_)).resume (hstack.under hstk)
    rw [hstk]
    rfl
  | accept ok hstk => exact ((accept_aside ok).toQuiet.covered htrace).resume (hstack.under hstk)
  | connect r hstk => exact (connect_aside.toQuiet.covered htrace).resume (hstack.under hstk)
  | ret hstk ho =>
    have hsane := hstack.sane _ (by rw [hstk]; exact List.mem_cons_self)
    exact (afterCallback_covered htrace hsane hstk ho hG).resume (hstack.under hstk)
  | enter hstk => exact .silent htrace rfl
  | leave hstk =>
    have hnil : Covered (s.v, []) := .silent htrace rfl
    exact hnil.resume (hstack.under hstk)
  | op o hstk hf hopen =>
    exact (applyOp_covered htrace hG).resume (hstack.perl hstk hf)

theorem covered_initial (h : Initial s) : Covered (s.v, s.stack) := by
  cases h with
  | accepted now t fileno => exact .silent everywhere_nil rfl
  | server now t fileno => exact .silent everywhere_nil rfl
  | client now t fileno timeout =>
    have hnil : Everywhere Covers (View.client now fileno timeout).trace := everywhere_nil
    exact (startConnect_aside.toQuiet.covered hnil).resume (by simp [Frame.resumes, Frame.isPerl])

theorem unrepeated_of_reachable (h : Reachable NoResend s) : Unrepeated s.v.trace := by
  have hinv : OrderInv s ∧ Covered (s.v, s.stack) :=
    h.invariant (I := fun s => OrderInv s ∧ Covered (s.v, s.stack))
      (fun _ h => ⟨orderInv_initial h, covered_initial h⟩) fun _ _ _ hs hG hstep =>
        ⟨orderInv_step hs.1 hG.1 hstep, covered_step hs.1.stack hs.2 hG hstep⟩
  exact unrepeated_of_covers hinv.1.sound.order hinv.2.trace

/-- In every run of which each step meets `NoResend`, and in which no variable that `_write` was
    given is assigned in its callback, what is sent of a load until the next one is assigned is a
    prefix of it: no byte is sent twice. -/
theorem sent_in_order (s : Sys) (h : AliasReachable (Unassigned NoResend) s) :
    Unrepeated s.v.trace :=
  unrepeated_of_reachable h.reachable

/-- A reference is sent whole from a reader callback. The next callback assigns a string, which
    the code after it sends in two parts. -/
theorem sent_in_order_parts :
    ∃ s, AliasReachable (Unassigned NoResend) s ∧ Unrepeated s.v.trace ∧
      assigned s.v.trace = some ⟨.str [98, 99], [98]⟩ := by
  obtain ⟨⟨s, given⟩, hr, hp⟩ := Machine.Reaches.of_run_map (M := aliased Sys.noteCall id)
    (G := Unassigned NoResend) (s := (⟨.accepted 0, 5, 5, [.outside]⟩, fun _ => false))
    (fun s => assigned s.1.v.trace)
    ([.op (.writer false 0 (.str [])), .op (.reader true 0), .leave, .select true false, .dispatch,
      .sysread (.data [97]), .sysread .again, .op (.setReadBuffer []),
      .op (.writerBufferSet (.rv [120])), .syswrite (.accepted 1), .ret, .ret, .next,
      .select true false, .dispatch, .sysread (.data [97]), .sysread .again,
      .op (.setReadBuffer []), .op (.setWriteBuffer (.str [98, 99])), .ret,
      .syswrite (.accepted 1), .syswrite .again].map .inl)
    (show _ = some (some ⟨.str [98, 99], [98]⟩) by decide +kernel)
  have hreach : AliasReachable (Unassigned NoResend) s := ⟨_, given, .accepted 5 5 0, hr⟩
  exact ⟨s, hreach, sent_in_order s hreach, hp⟩

/-- The reader callback puts two bytes into the write buffer and starts the writer. One byte
    is accepted; after the callback both are sent. -/
theorem sent_twice : ¬ ∀ s, Reachable FreshStart s → Unrepeated s.v.trace := by
  intro hall
  obtain ⟨s, hr, htrace⟩ : ∃ s, engine.Reaches FreshStart ⟨.accepted 0, 5, 5, [.outside]⟩ s ∧
      s.v.trace = [.loaded (.str []), .ran .read, .received [97], .called 1 .read 0,
        .loaded (.str [98, 99]), .ran .write, .sent [98], .sent [], .ran .write] ++
        .sent [98, 99] :: [.called 0 .write 0] :=
    Machine.Reaches.of_run_map (M := engine) (·.v.trace)
      [.op (.writer false 0 (.str [])), .op (.reader true 0), .leave, .select true false, .dispatch,
        .sysread (.data [97]), .sysread .again, .op (.writerBufferSet (.str [98, 99])),
        .syswrite (.accepted 1), .syswrite .again, .ret, .syswrite (.accepted 2)]
      (by decide +kernel)
  have hsent := hall s ⟨_, .accepted 5 5 0, hr⟩ _ _ _ htrace
  exact absurd (hsent ⟨.str [98, 99], [98]⟩ rfl).length_le (by decide)

end NginxEngine.PP
