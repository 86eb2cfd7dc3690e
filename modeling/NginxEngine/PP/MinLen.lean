import NginxEngine.PP.Delivery

/-!
# The minimum length of a read

The program leaves in `$_[4]` how many bytes its reader waits for. `_read` asks `sysread` for what
is missing and goes round until the buffer holds as much. But when `sysread` has no more to give,
`_read` calls back with what there is, if there is anything.

## Main definitions

- `MinLenHonoured` — a callback without an error finds as many bytes as it has asked for
- `NotCutShort` — `sysread` does not stop in the middle of what `_read` waits for

## Main results

- `min_len_honoured` — the condition under which every callback finds them
- `short_read_reported` — a callback that finds fewer
-/

namespace NginxEngine.PP

open NginxEngine.XS (Bytes Sv)

variable {now : Int} {v v₀ : View} {o : Outcome} {s s' : Sys} {size : Int} {total : Nat}
  {f : Frame} {rest : List Frame}

/-- The read buffer holds as many bytes as `$_[4]` says. -/
def View.HasMinLen (v : View) : Prop :=
  ∀ m, v.rmax = some m → 0 < m → ∃ b, v.rbuf = some b ∧ m ≤ b.length

/-- If the step from `s` to `s'` calls the callback of the reader without an error, the buffer
    holds the minimum. -/
def MinLenHonoured (s s' : Sys) : Prop :=
  (s'.v.trace.drop s.v.trace.length).any Obs.isData = true → s'.v.HasMinLen

/-- `_read` goes round again after this answer. -/
def ReadResult.goesOn : ReadResult → Bool
  | .data _ | .intr => true
  | _ => false

/-- While a part of the minimum is in the buffer, `sysread` reports neither EAGAIN nor EOF nor an
    error. -/
def NotCutShort (s : Sys) (i : Input) : Prop :=
  match i, s.stack with
  | .sysread r, .sysread size total :: _ => 0 < size → 0 < total → r.goesOn = true
  | _, _ => True

instance {i : Input} : Decidable (NotCutShort s i) := by
  unfold NotCutShort
  generalize s.stack = stk
  induction i with
  | sysread r =>
    induction stk using List.casesOn with
    | nil => infer_instance
    | cons f rest => induction f <;> infer_instance
  | _ => infer_instance

theorem notCutShort_of_goesOn {r : ReadResult} (hr : r.goesOn = true) :
    NotCutShort s (.sysread r) := by
  rw [NotCutShort.eq_def]
  split
  · next heq _ =>
    cases heq
    exact fun _ _ => hr
  · trivial

/-- `_read` waits at `sysread` with `$total` bytes in the buffer and `$_[4]` in `$size`. -/
structure View.WaitsFor (v : View) (size : Int) (total : Nat) : Prop where
  size : v.rmax.getD 0 = size
  total : ∃ b, v.rbuf = some b ∧ b.length = total

/-- A piece of code calls back for data only if the minimum is there, and keeps count. -/
structure Filled (v : View) (o : Outcome) : Prop where
  call : (o.1.trace.drop v.trace.length).any Obs.isData = true → o.1.HasMinLen
  wait : ∀ size total, .sysread size total ∈ o.2 → o.1.WaitsFor size total

/-! ### Code that does not read -/

theorem any_isData_drop (ht : Extends (·.isData = false) v₀.trace v.trace) :
    (v.trace.drop v₀.trace.length).any Obs.isData = false := by
  obtain ⟨k, hk, hdata⟩ := ht
  rw [hk, List.drop_left, List.any_eq_false]
  intro x hx
  simp [hdata x hx]

/-- Nothing is delivered, and nothing is read. -/
theorem Filled.of_trace (ht : Extends (·.isData = false) v.trace o.1.trace)
    (hf : ∀ size total, .sysread size total ∉ o.2) : Filled v o where
  call := fun hdata => absurd (any_isData_drop ht) (by rw [hdata]; decide)
  wait := fun size total hin => absurd hin (hf size total)

theorem Apart.filled (h : Apart v o) (ht : Extends (·.isData = false) v₀.trace v.trace) :
    Filled v₀ o := by
  refine .of_trace (ht.trans (extends_isData h.trace)) fun size total hin => ?_
  have hframe := List.all_eq_true.mp h.frames _ hin
  cases hframe

theorem TimedOut.filled (h : TimedOut v o) : Filled v o := by
  have hran : Extends (·.isData = false) v.trace (v.observe (.ran .timedout)).trace := .snoc rfl
  cases h with
  | close =>
    refine .of_trace (hran.trans ?_) (by simp)
    rw [ngxeClose]
    split
    · exact .refl _
    · exact .snoc rfl
  | call ev args =>
    refine .of_trace (hran.trans (.snoc ?_)) (by simp [View.call])
    cases args <;> rfl
  | crash => exact .of_trace hran (by simp)

theorem close_filled (v : View) : Filled v (ngxeClose v, []) := by
  refine .of_trace ?_ (by simp)
  rw [ngxeClose]
  split
  · exact .refl _
  · exact .snoc rfl

theorem same_filled (v : View) : Filled v (v, []) := .of_trace (.refl _) (by simp)

/-! ### `_read` -/

/-- `_read` ends with the minimum, or with nothing. -/
theorem readEnd_filled {error : Int} (h : 0 < total → v.HasMinLen)
    (ht : Extends (·.isData = false) v₀.trace v.trace) :
    Filled v₀ (readEnd now v total error) := by
  rw [readEnd]
  by_cases hnone : error = 0 ∧ total = 0
  · rw [if_pos hnone]
    exact .of_trace ht (by simp)
  rw [if_neg hnone]
  dsimp only
  by_cases htotal : 0 < total
  · rw [if_pos htotal]
    cases hread : (v.touch now v.read).read with
    | none => exact .of_trace ht (by simp [View.call])
    | some ev => exact ⟨fun _ => h htotal, by simp [View.call]⟩
  · rw [if_neg htotal]
    have herr : error ≠ 0 := fun he => hnone ⟨he, Nat.eq_zero_of_not_pos htotal⟩
    cases hread : (v.touch now v.read).read with
    | none => exact .of_trace ht (by simp [View.call])
    | some ev => exact .of_trace (ht.trans (.snoc (isData_of_error herr))) (by simp [View.call])

theorem readLoop_filled (h : v.WaitsFor size total)
    (ht : Extends (·.isData = false) v₀.trace v.trace) :
    Filled v₀ (readLoop now v size total) := by
  rw [readLoop]
  by_cases hmore : size = 0 ∨ (total : Int) < size
  · rw [if_pos hmore]
    refine ⟨fun hdata => absurd (any_isData_drop ht) (by rw [hdata]; decide), ?_⟩
    intro size' total' hin
    cases List.mem_singleton.mp hin
    exact h
  · rw [if_neg hmore]
    refine readEnd_filled (fun _ m hm hpos => ?_) ht
    obtain ⟨b, hb, hlen⟩ := h.total
    have hsize := h.size
    rw [hm, Option.getD_some] at hsize
    exact ⟨b, hb, by omega⟩

theorem read_filled : Filled v (_read now v) := by
  have ht : Extends (·.isData = false) v.trace (v.observe (.ran .read)).trace := .snoc rfl
  rw [_read]
  split
  · next buf hbuf => exact readLoop_filled ⟨rfl, buf, hbuf, rfl⟩ ht
  · exact .of_trace ht (by simp)

/-- `_read` goes on where `sysread` has given data, and has not begun where it has not. -/
theorem sysread_filled {r : ReadResult} (h : v.WaitsFor size total)
    (hcut : 0 < size → 0 < total → r.goesOn = true) : Filled v (sysread now v size total r) := by
  have hstop : r.goesOn = false → 0 < total → v.HasMinLen := by
    intro hr htotal m hm hpos
    have hsize := h.size
    rw [hm, Option.getD_some] at hsize
    exact absurd ((hcut (hsize ▸ hpos) htotal).symm.trans hr) (by decide)
  cases r with
  | data b =>
    refine readLoop_filled ⟨h.size, ?_⟩ (.snoc rfl)
    obtain ⟨buf, hbuf, hlen⟩ := h.total
    refine ⟨buf ++ b, ?_, by rw [List.length_append, hlen]⟩
    show v.rbuf.map (· ++ b) = some (buf ++ b)
    rw [hbuf]
    rfl
  | eof => exact readEnd_filled (hstop rfl) (.refl _)
  | again => exact readEnd_filled (hstop rfl) (.refl _)
  | intr => exact readLoop_filled h (.refl _)
  | error => exact readEnd_filled (hstop rfl) (.refl _)

/-! ### The loop and the program -/

theorem Dispatched.filled {fno : Nat} (h : Dispatched now fno v o) : Filled v o := by
  have hloop : ∀ {o : Outcome}, Filled v o → Filled v (o.1, o.2 ++ [.loop fno v.write]) := by
    intro o ho
    refine ⟨ho.call, fun size total hin => ho.wait size total ?_⟩
    simpa using hin
  cases h with
  | skip => exact .of_trace (.refl _) (by simp)
  | read hread => exact hloop read_filled
  | accept => exact hloop (acceptLoop_apart.filled (.refl _))
  | timedout h => exact h.filled

theorem DispatchedWrite.filled {wout : Bool} (h : DispatchedWrite now v wout o) : Filled v o := by
  cases h with
  | skip => exact same_filled v
  | write hout => exact write_apart.filled (.refl _)
  | connect => exact startConnect_apart.filled (.refl _)
  | timedout h => exact h.filled

theorem finishRead_filled {error : Int} : Filled v (finishRead now v error) := by
  rw [finishRead]
  split
  · exact same_filled v
  split
  · exact close_filled v
  split
  · exact write_apart.filled (.refl _)
  · exact same_filled v

theorem afterCallback_filled (ho : afterCallback now v f = some o) : Filled v o := by
  cases f with
  | readData error =>
    cases ho
    rw [afterData]
    split
    · exact same_filled v
    split
    · next herr =>
      cases hread : v.read with
      | none => exact .of_trace (.refl _) (by simp [View.call])
      | some ev => exact .of_trace (.snoc (isData_of_error herr)) (by simp [View.call])
    · exact finishRead_filled
  | readError error =>
    cases ho
    exact finishRead_filled
  | writeDone error =>
    cases ho
    rw [afterWrite]
    split
    · exact same_filled v
    split
    · exact close_filled v
    · exact .of_trace (.refl _) (by simp)
  | timedout =>
    cases ho
    exact close_filled v
  | accepted =>
    cases ho
    exact acceptLoop_apart.filled (.refl _)
  | connected error =>
    cases ho
    rw [afterConnect]
    split
    · exact same_filled v
    split
    · exact close_filled v
    · exact same_filled v
  | _ => cases ho

theorem applyOp_filled {op : Op} : Filled v (applyOp now v op) := by
  cases op with
  | reader start timeout =>
    refine .of_trace ?_ (by simp [applyOp])
    cases start with
    | true => exact .refl _
    | false => exact .refl _
  | readerStopWriterStart => exact write_apart.filled (.refl _)
  | writer start timeout buf =>
    cases start with
    | true => exact write_apart.filled (.snoc rfl)
    | false => exact .of_trace (.snoc rfl) (by simp [applyOp, ngxeWriter])
  | writerStart timeout => exact write_apart.filled (.refl _)
  | writerBufferSet data => exact write_apart.filled (.snoc rfl)
  | close => exact close_filled v
  | setWriteBuffer sv =>
    refine .of_trace ?_ (by simp [applyOp])
    rw [applyOp]
    split
    · exact .snoc rfl
    · exact .refl _
  | _ => exact .of_trace (.refl _) (by simp [applyOp])

/-! ### Runs -/

/-- The count that `_read` keeps is right wherever it waits. -/
def CountKept (s : Sys) : Prop :=
  ∀ size total, .sysread size total ∈ s.stack → s.v.WaitsFor size total

theorem not_sysread_of_resumes (h : ∀ f ∈ rest, f.resumes = true) :
    .sysread size total ∉ rest := by
  intro hin
  cases h _ hin

theorem filled_step {i : Input} (h : CountKept s) (hstack : StackOk s.stack)
    (hG : NotCutShort s i) (hs : Step s i s') : MinLenHonoured s s' ∧ CountKept s' := by
  -- a piece of code runs on top of frames in which nothing is read
  have hgo : ∀ {o : Outcome} {rest : List Frame}, Filled s.v o → (∀ f ∈ rest, f.resumes = true) →
      MinLenHonoured s (s.resume o rest) ∧ CountKept (s.resume o rest) := by
    intro o rest ho hrest
    refine ⟨ho.call, fun size total hin => ?_⟩
    rcases List.mem_append.mp hin with hin | hin
    · exact ho.wait size total hin
    · exact absurd hin (not_sysread_of_resumes hrest)
  have hstay : ∀ {s' : Sys}, s'.v.trace = s.v.trace → MinLenHonoured s s' := by
    intro s' ht hdata
    rw [ht, List.drop_length] at hdata
    cases hdata
  cases hs with
  | tick n => exact ⟨hstay rfl, h⟩
  | select r w hstk =>
    refine ⟨hstay rfl, fun size total hin => ?_⟩
    have hin' : .sysread size total ∈ s.stack := hin
    rw [hstk] at hin'
    cases hin'
  | dispatch hstk hopen => exact hgo (dispatch_cases ..).filled nofun
  | next hstk => exact hgo (dispatchWrite_cases ..).filled (hstack.under hstk)
  | @sysread size total rest r hstk hr =>
    simp only [NotCutShort, hstk] at hG
    have hwait : s.v.WaitsFor size total := h size total (by rw [hstk]; exact List.mem_cons_self)
    exact hgo (sysread_filled hwait hG) (hstack.under hstk)
  | syswrite r hstk hr => exact hgo (syswrite_apart.filled (.refl _)) (hstack.under hstk)
  | accept ok hstk => exact hgo ((accept_apart ok).filled (.refl _)) (hstack.under hstk)
  | connect r hstk => exact hgo (connect_apart.filled (.refl _)) (hstack.under hstk)
  | ret hstk ho => exact hgo (afterCallback_filled ho) (hstack.under hstk)
  | enter hstk => exact ⟨hstay rfl, by simp [CountKept]⟩
  | leave hstk =>
    refine ⟨hstay rfl, fun size total hin => ?_⟩
    exact absurd hin (not_sysread_of_resumes (hstack.under hstk))
  | op o hstk hf hopen => exact hgo applyOp_filled (hstack.perl hstk hf)

theorem countKept_initial (h : Initial s) : CountKept s := by
  cases h with
  | accepted now t fileno => simp [CountKept]
  | server now t fileno => simp [CountKept]
  | client now t fileno timeout => simp [CountKept, ngxeClient, _connect, connectLoop]

theorem countKept_of_reachable (h : Reachable NotCutShort s) : CountKept s := by
  have hboth : StackOk s.stack ∧ CountKept s := by
    refine h.invariant (I := fun s => StackOk s.stack ∧ CountKept s)
      (fun s h => ⟨stackOk_initial h, countKept_initial h⟩) ?_
    intro s i s' hs hG hstep
    exact ⟨stackOk_step hs.1 hstep, (filled_step hs.2 hs.1 hG hstep).2⟩
  exact hboth.2

/-- **The minimum length.** Where `sysread` does not stop in the middle of what `_read` waits
    for, the callback of the reader is called without an error only when the buffer holds as many
    bytes as the program has left in `$_[4]`. -/
theorem min_len_honoured (s s' : Sys) (i : Input) (h : Reachable NotCutShort s)
    (hG : NotCutShort s i) (hs : step s i = some s') : MinLenHonoured s s' :=
  (filled_step (countKept_of_reachable h) (stackOk_of_reachable h) hG (step_cases hs)).1

/-- Four bytes are asked for and come in two pieces, with a signal between them. -/
theorem min_len_honoured_pieces : ∃ s s' : Sys, ∃ i, Reachable NotCutShort s ∧
    NotCutShort s i ∧ step s i = some s' ∧ MinLenHonoured s s' ∧ s'.v.rmax = some 4 ∧
    s'.v.rbuf = some [97, 98, 99, 100] ∧ s'.v.trace.getLast? = some (.called 0 .read 0) := by
  obtain ⟨s, hr, hs⟩ := Machine.Reaches.of_run_map (M := engine) (G := NotCutShort)
    (s := ⟨.accepted 3, 100, 100, [.outside]⟩)
    (fun s => (step s (.sysread (.data [99, 100]))).map fun s' =>
      (s'.v.rmax, s'.v.rbuf, s'.v.trace.getLast?))
    [.op (.reader true 0), .op (.setMinLen 4), .leave, .select true false, .dispatch,
      .sysread (.data [97, 98]), .sysread .intr]
    (show _ = some (some (some (4 : Int), some ([97, 98, 99, 100] : Bytes),
      some (.called 0 .read 0))) by decide +kernel)
  obtain ⟨s', hstep, hs'⟩ := Option.map_eq_some_iff.mp hs
  simp only [Prod.mk.injEq] at hs'
  have hreach : Reachable NotCutShort s := ⟨_, .accepted 100 100 3, hr⟩
  have hG : NotCutShort s (.sysread (.data [99, 100])) := notCutShort_of_goesOn rfl
  exact ⟨s, s', _, hreach, hG, hstep, min_len_honoured s s' _ hreach hG hstep, hs'⟩

/-- Four bytes are asked for, two come, and `_read` calls back with them. -/
theorem short_read_reported : ¬ ∀ (s s' : Sys) (i : Input), Reachable Machine.always s →
    step s i = some s' → MinLenHonoured s s' := by
  intro h
  obtain ⟨s, hr, hs⟩ := Machine.Reaches.of_run_map (M := engine) (G := Machine.always)
    (s := ⟨.accepted 3, 100, 100, [.outside]⟩)
    (fun s => (step s (.sysread .again)).map fun s' =>
      ((s'.v.trace.drop s.v.trace.length).any Obs.isData, s'.v.rmax, s'.v.rbuf))
    [.op (.reader true 0), .op (.setMinLen 4), .leave, .select true false, .dispatch,
      .sysread (.data [97, 98])]
    (show _ = some (some (true, some (4 : Int), some ([97, 98] : Bytes))) by decide +kernel)
  obtain ⟨s', hstep, hs'⟩ := Option.map_eq_some_iff.mp hs
  simp only [Prod.mk.injEq] at hs'
  obtain ⟨hdata, hmax, hbuf⟩ := hs'
  have hreach : Reachable Machine.always s := ⟨_, .accepted 100 100 3, hr⟩
  obtain ⟨b, hb, hlen⟩ := h s s' _ hreach hstep hdata 4 hmax (by decide)
  cases hbuf.symm.trans hb
  exact absurd hlen (by decide)

end NginxEngine.PP
