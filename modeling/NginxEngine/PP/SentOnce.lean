import NginxEngine.PP.Segments

/-!
# What was sent is not sent again

`_write` empties the write buffer before it reports success only if the buffer itself is the
string to be sent. A reference stays in the buffer, and the code after the callback in `_read`
takes every reference in the buffer for something to be sent.

## Main definitions

- `SentOnce` — between a success callback and the next load nothing is sent
- `PlainLoads` — loads are strings

## Main results

- `sent_once` — every run with such loads sends nothing twice
- `reference_sent_again` — a reference is sent again when a byte arrives
-/

namespace NginxEngine.PP

open NginxEngine.XS (Bytes Sv)

variable {now t : Int} {v v' : View} {o : Outcome} {s s' : Sys} {l : List Obs} {x : Obs} {sv : Sv}
  {i offset : Nat}

def observeFinished (d : Bool) : Obs → Bool
  | .loaded _ => false
  | .called _ .write 0 => true
  | _ => d

/-- The load in the write buffer was reported as sent. -/
def finished (l : List Obs) : Bool := l.foldl observeFinished false

/-- What may be observed after `l`: nothing is sent of a load that was reported as sent. -/
def NotAgain (l : List Obs) : Obs → Prop
  | .sent b => finished l = true → b = []
  | _ => True

def SentOnce (l : List Obs) : Prop := Everywhere NotAgain l

/-- Loads are strings, not references. -/
def PlainLoads (_ : Sys) : Input → Prop
  | .op (.writer _ _ sv) | .op (.writerBufferSet sv) | .op (.setWriteBuffer sv) =>
    autoempty (some sv) = true
  | _ => True

instance {i : Input} : Decidable (PlainLoads s i) := by
  unfold PlainLoads
  induction i with
  | op o => induction o <;> infer_instance
  | _ => infer_instance

theorem finished_append (l : List Obs) (x : Obs) :
    finished (l ++ [x]) = observeFinished (finished l) x := by
  simp [finished]

theorem observeFinished_neutral {d : Bool} (h : x.neutral = true) : observeFinished d x = d := by
  rw [observeFinished.eq_def]
  split
  · cases h
  · cases h
  · rfl

theorem SentOnce.neutral (h : SentOnce l) (hx : x.neutral = true) : SentOnce (l ++ [x]) := by
  refine Everywhere.append h ?_
  rw [NotAgain.eq_def]
  split
  · cases hx
  · trivial

/-- The buffer holds a string, which is empty once it was reported as sent. -/
structure View.Clear (v : View) : Prop where
  once : SentOnce v.trace
  plain : ∀ sv, v.wbuf = some sv → autoempty (some sv) = true
  empty : finished v.trace = true → ∀ sv, v.wbuf = some sv → sv.bytes = []

/-- While `_write` waits for `syswrite`, the load was not reported as sent. -/
def Unfinished (v : View) : List Frame → Prop
  | .syswrite _ _ :: _ => finished v.trace = false
  | _ => True

structure ClearAt (o : Outcome) : Prop where
  clear : o.1.Clear
  top : Unfinished o.1 o.2

theorem View.Clear.keeps (h : v.Clear) (hk : Keeps v v') : v'.Clear := by
  have hfin : finished v'.trace = finished v.trace :=
    hk.trace.invariant (Q := fun l => finished l = finished v.trace) rfl fun l x hl hx => by
      rw [finished_append, observeFinished_neutral hx, hl]
  refine ⟨hk.trace.invariant h.once fun l x hl hx => hl.neutral hx, ?_, ?_⟩
  · rw [hk.wbuf]
    exact h.plain
  · rw [hk.wbuf, hfin]
    exact h.empty

theorem unfinished_of_quiet {fs : List Frame} (h : fs.any Frame.isSyswrite = false) :
    Unfinished v fs := by
  rw [Unfinished.eq_def]
  split
  · cases h
  · trivial

theorem Quiet.clearAt (hq : Quiet v o) (h : v.Clear) : ClearAt o :=
  ⟨h.keeps hq.keeps, unfinished_of_quiet hq.quiet⟩

/-! ### `_write` -/

/-- The end of `_write` empties a string, whatever it reports. -/
theorem writeEnd_clear {error : Bool} (h : v.Clear) : ClearAt (writeEnd now v i offset error) := by
  have hempty : ∀ sv, (if autoempty v.wbuf then some (.str []) else v.wbuf) = some sv →
      sv = .str [] := by
    intro sv hsv
    split at hsv
    · exact (Option.some.inj hsv).symm
    · next hauto =>
      rw [hsv] at hauto
      exact absurd (h.plain sv hsv) hauto
  have hplain : ∀ sv, (if autoempty v.wbuf then some (.str []) else v.wbuf) = some sv →
      autoempty (some sv) = true := fun sv hsv => by rw [hempty sv hsv]; rfl
  have hbytes : ∀ sv, (if autoempty v.wbuf then some (.str []) else v.wbuf) = some sv →
      sv.bytes = [] := fun sv hsv => by rw [hempty sv hsv]; rfl
  cases hw : v.write with
  | none =>
    simp only [writeEnd, View.call, View.touch, hw]
    exact ⟨⟨h.once, hplain, fun _ => hbytes⟩, trivial⟩
  | some w =>
    simp only [writeEnd, View.call, View.touch, hw]
    exact ⟨⟨Everywhere.append h.once trivial, hplain, fun _ => hbytes⟩, trivial⟩

/-- What is left in a buffer that was reported as sent is the empty string. -/
theorem View.Clear.buffers (h : v.Clear) (hf : finished v.trace = true)
    {bufs : List (Option Bytes)} (hb : buffers v.wbuf = some bufs) : bufs = [some []] := by
  cases hw : v.wbuf with
  | none =>
    rw [hw] at hb
    cases hb
  | some sv =>
    have hplain := h.plain sv hw
    have hbytes := h.empty hf sv hw
    rw [hw] at hb
    cases sv with
    | undef =>
      cases hb
      rfl
    | str b =>
      cases hb
      obtain rfl : b = [] := hbytes
      rfl
    | _ => cases hplain

theorem writeLoop_clear (h : v.Clear) : ClearAt (writeLoop now v i offset) := by
  rw [writeLoop]
  split
  · exact ⟨h, trivial⟩
  · next bufs hb =>
    split
    · exact writeEnd_clear h
    · exact ⟨h, trivial⟩
    · next j hn =>
      refine ⟨h, ?_⟩
      show finished v.trace = false
      by_contra hf
      rw [h.buffers (eq_true_of_ne_false hf) hb] at hn
      exact nextBuf_empty i offset j hn

theorem write_clear (h : v.Clear) : ClearAt (_write now v) := by
  have hran : (v.observe (.ran .write)).Clear := h.keeps (.observe v rfl)
  exact writeLoop_clear ⟨hran.once, hran.plain, hran.empty⟩

theorem syswrite_clear {r : WriteResult} (h : v.Clear) (hf : finished v.trace = false) :
    ClearAt (syswrite now v i offset r) := by
  have hsent : ∀ b, SentOnce (v.observe (.sent b)).trace ∧
      finished (v.observe (.sent b)).trace = false := by
    intro b
    refine ⟨Everywhere.append h.once fun hd => ?_, (finished_append _ _).trans hf⟩
    rw [hf] at hd
    cases hd
  have hclear : ∀ b, (v.observe (.sent b)).Clear := by
    intro b
    refine ⟨(hsent b).1, h.plain, fun hd => ?_⟩
    rw [(hsent b).2] at hd
    cases hd
  rw [syswrite]
  split
  · cases r with
    | accepted n =>
      dsimp only
      split
      · exact writeLoop_clear (hclear _)
      · exact ⟨hclear _, (hsent _).2⟩
    | again => exact ⟨⟨(hclear []).once, h.plain, (hclear []).empty⟩, trivial⟩
    | intr => exact ⟨h, hf⟩
    | error => exact writeEnd_clear h
  · exact ⟨h, trivial⟩

theorem close_clear (h : v.Clear) : (ngxeClose v).Clear := by
  rw [ngxeClose]
  split
  · exact h
  · refine ⟨h.once.neutral rfl, fun sv hsv => ?_, fun _ sv hsv => ?_⟩
    · cases hsv
    · cases hsv

theorem load_clear (h : v.Clear) (hp : autoempty (some sv) = true) : (v.load sv).Clear := by
  refine ⟨Everywhere.append h.once trivial, fun sv' hsv => ?_, fun hd => ?_⟩
  · obtain rfl : sv = sv' := Option.some.inj hsv
    exact hp
  · have hnot : finished (v.load sv).trace = false := finished_append _ _
    rw [hnot] at hd
    cases hd

theorem start_clear (hk : Keeps v v') (h : v.Clear) : ClearAt (_write now v') :=
  write_clear (h.keeps hk)

theorem Tame.clearAt (ht : Tame v o) (h : v.Clear) : ClearAt o := by
  cases ht with
  | code _ ha => exact ha.toQuiet.clearAt h
  | close _ hk => exact ⟨close_clear (h.keeps hk.keeps), trivial⟩

theorem dispatchWrite_clear {win wout : Bool} {wev : Option Nat} (h : v.Clear) :
    ClearAt (dispatchWrite now t v win wout wev) := by
  rcases (dispatchWrite_cases now t v win wout wev).tame with ht | ⟨-, he⟩
  · exact ht.clearAt h
  · rw [he]
    exact write_clear h

theorem afterCallback_clear {f : Frame} (h : v.Clear) (ho : afterCallback now v f = some o) :
    ClearAt o := by
  cases afterCallback_cases ho with
  | tame hframes ht => exact ht.clearAt h
  | switch hf hopen hrout hw => exact write_clear ⟨h.once, h.plain, h.empty⟩
  | stop hf hopen => exact ⟨h.keeps (.of_eq rfl rfl rfl rfl rfl), trivial⟩

theorem withBuffers_clear (h : v.Clear) : v.withBuffers.Clear := by
  have hcases : ∀ {sv}, v.withBuffers.wbuf = some sv → sv = .str [] ∨ v.wbuf = some sv := by
    intro sv hsv
    cases hw : v.wbuf with
    | none => exact .inl (by simpa [View.withBuffers, hw] using hsv.symm)
    | some sv' => exact .inr (by simpa [View.withBuffers, hw] using hsv)
  refine ⟨h.once, fun sv hsv => ?_, fun hd sv hsv => ?_⟩
  · rcases hcases hsv with rfl | hw
    · rfl
    · exact h.plain sv hw
  · rcases hcases hsv with rfl | hw
    · rfl
    · exact h.empty hd sv hw

theorem applyOp_clear {op : Op} (h : s.v.Clear) (hG : PlainLoads s (.op op)) :
    ClearAt (applyOp s.now s.v op) := by
  have hkeep : ∀ v', Keeps s.v v' → ClearAt (v', []) := fun v' hk => ⟨h.keeps hk, trivial⟩
  have hbuf := withBuffers_clear h
  cases op with
  | reader start timeout =>
    cases start with
    | false | true => exact ⟨⟨hbuf.once, hbuf.plain, hbuf.empty⟩, trivial⟩
  | readerStart timeout | readerStop => exact hkeep _ (.of_eq rfl rfl rfl rfl rfl)
  | readerStopWriterStart => exact start_clear (v := s.v) (.of_eq rfl rfl rfl rfl rfl) h
  | readerTimeout timeout => exact hkeep _ (.of_eq rfl rfl rfl rfl rfl)
  | writer start timeout buf =>
    have hload := load_clear hbuf hG
    cases start with
    | false => exact ⟨⟨hload.once, hload.plain, hload.empty⟩, trivial⟩
    | true => exact write_clear ⟨hload.once, hload.plain, hload.empty⟩
  | writerStart timeout => exact start_clear (v := s.v) (.of_eq rfl rfl rfl rfl rfl) h
  | writerStop | writerStopReaderStart | writerTimeout timeout =>
    exact hkeep _ (.of_eq rfl rfl rfl rfl rfl)
  | writerBufferSet data =>
    exact start_clear (v := s.v.load data) (.of_eq rfl rfl rfl rfl rfl) (load_clear h hG)
  | close => exact ⟨close_clear h, trivial⟩
  | setReadBuffer b => exact hkeep _ (.of_eq rfl rfl rfl rfl rfl)
  | setWriteBuffer sv =>
    cases hb : s.v.wbuf.isSome with
    | true =>
      simp only [applyOp, hb, if_true]
      exact ⟨load_clear h hG, trivial⟩
    | false =>
      simp only [applyOp, hb]
      exact ⟨h, trivial⟩
  | setMinLen n => exact hkeep _ (.of_eq rfl rfl rfl rfl rfl)

/-! ### Steps and runs -/

structure ClearInv (s : Sys) : Prop where
  stack : StackOk s.stack
  clear : s.v.Clear
  top : Unfinished s.v s.stack

theorem ClearAt.resume {rest : List Frame} (h : ClearAt o)
    (hrest : ∀ f ∈ rest, f.resumes = true) : Unfinished o.1 (o.2 ++ rest) := by
  obtain ⟨v', fs⟩ := o
  cases fs with
  | nil =>
    exact unfinished_of_quiet (any_isSyswrite_of_resumes hrest)
  | cons f fs =>
    have htop := h.top
    revert htop
    cases f <;> exact id

theorem clearInv_step {i : Input} (h : ClearInv s) (hG : PlainLoads s i) (hstep : Step s i s') :
    ClearInv s' := by
  have hgo : ∀ {rest : List Frame} (o : Outcome), ClearAt o → (∀ f ∈ rest, f.resumes = true) →
      (s.resume o rest).v.Clear ∧ Unfinished (s.resume o rest).v (s.resume o rest).stack :=
    fun _ ho hrest => ⟨ho.clear, ho.resume hrest⟩
  suffices hgood : s'.v.Clear ∧ Unfinished s'.v s'.stack from
    ⟨stackOk_step h.stack hstep, hgood.1, hgood.2⟩
  cases hstep with
  | tick n => exact ⟨h.clear, h.top⟩
  | select r w hstk => exact ⟨⟨h.clear.once, h.clear.plain, h.clear.empty⟩, h.top⟩
  | dispatch hstk hopen => exact hgo _ ((dispatch_cases ..).tame.clearAt h.clear) nofun
  | next hstk => exact hgo _ (dispatchWrite_clear h.clear) (h.stack.under hstk)
  | sysread r hstk hr => exact hgo _ (sysread_aside.toQuiet.clearAt h.clear) (h.stack.under hstk)
  | syswrite r hstk hr =>
    have htop := h.top
    rw [hstk] at htop
    exact hgo _ (syswrite_clear h.clear htop) (h.stack.under hstk)
  | accept ok hstk => exact hgo _ ((accept_aside ok).toQuiet.clearAt h.clear) (h.stack.under hstk)
  | connect r hstk => exact hgo _ (connect_aside.toQuiet.clearAt h.clear) (h.stack.under hstk)
  | ret hstk ho => exact hgo _ (afterCallback_clear h.clear ho) (h.stack.under hstk)
  | enter hstk => exact ⟨h.clear, trivial⟩
  | leave hstk => exact hgo (s.v, []) ⟨h.clear, trivial⟩ (h.stack.under hstk)
  | op o hstk hf hopen => exact hgo _ (applyOp_clear h.clear hG) (h.stack.perl hstk hf)

theorem clearInv_initial (h : Initial s) : ClearInv s := by
  have hstack := stackOk_initial h
  cases h with
  | accepted now t fileno | server now t fileno =>
    exact ⟨hstack, ⟨everywhere_nil, nofun, nofun⟩, trivial⟩
  | client now t fileno timeout =>
    have hnew : (View.client now fileno timeout).Clear := ⟨everywhere_nil, nofun, nofun⟩
    have ho : ClearAt (ngxeClient now fileno timeout) := startConnect_aside.toQuiet.clearAt hnew
    exact ⟨hstack, ho.clear, ho.resume (by simp [Frame.resumes, Frame.isPerl])⟩

/-- In every run of which each load is a string, nothing is sent between the callback that
    reports success and the next load. -/
theorem sent_once (s : Sys) (h : Reachable PlainLoads s) : SentOnce s.v.trace :=
  (h.invariant (fun _ h => clearInv_initial h)
    fun _ _ _ hs hG hstep => clearInv_step hs hG hstep).clear.once

/-- A string is sent, and then a byte arrives. -/
theorem sent_once_string :
    ∃ s, Reachable PlainLoads s ∧ SentOnce s.v.trace ∧ finished s.v.trace = true ∧
      s.v.trace.getLast? = some (.called 1 .read 0) := by
  obtain ⟨s, hr, hs⟩ := Machine.Reaches.of_run_map (M := engine) (G := PlainLoads)
    (s := ⟨.accepted 0, 5, 5, [.outside]⟩) (fun s => (finished s.v.trace, s.v.trace.getLast?))
    [.op (.writer false 0 (.str [97])), .op (.reader false 0), .op (.writerStart none),
      .syswrite (.accepted 1), .ret, .leave, .select true false, .dispatch, .sysread (.data [98]),
      .sysread .again]
    (show _ = some (true, some (.called 1 .read 0)) by decide +kernel)
  have hreach : Reachable PlainLoads s := ⟨_, .accepted 5 5 0, hr⟩
  exact ⟨s, hreach, sent_once s hreach, congrArg Prod.fst hs, congrArg Prod.snd hs⟩

/-- A reference to a scalar is sent; a byte arrives, the reader callback does nothing, and the
    scalar is sent again. -/
theorem reference_sent_again : ¬ ∀ s, Reachable Machine.always s → SentOnce s.v.trace := by
  intro hall
  obtain ⟨s, hr, htrace⟩ : ∃ s, engine.Reaches Machine.always ⟨.accepted 0, 5, 5, [.outside]⟩ s ∧
      s.v.trace = [.loaded (.rv [97]), .ran .write, .sent [97], .called 0 .write 0, .ran .read,
        .received [98], .called 1 .read 0, .ran .write] ++ .sent [97] :: [.called 0 .write 0] :=
    Machine.Reaches.of_run_map (M := engine) (·.v.trace)
      [.op (.writer false 0 (.rv [97])), .op (.reader false 0), .op (.writerStart none),
        .syswrite (.accepted 1), .ret, .leave, .select true false, .dispatch,
        .sysread (.data [98]), .sysread .again, .ret, .syswrite (.accepted 1)] (by decide +kernel)
  have hsent := hall s ⟨_, .accepted 5 5 0, hr⟩ _ _ _ htrace
  exact absurd (hsent rfl) (by decide)

end NginxEngine.PP
