import NginxEngine.PP.Projection
import NginxEngine.PP.Switch

/-!
# No descriptor is watched in vain

`select` reports the descriptors whose bits are set in `$rin` and `$win`, and `ngxe_loop` does
something for those whose connection has a `CN_READ` or a `CN_WRITE`. A bit without a handler
would be reported again and again. The program sets bits with its calls, and the engine sets
them when it switches sides after a callback, without a look at the side it switches to, and on
the connection that the program's variable holds by then.

## Main definitions

- `Process.Watched` — a bit belongs to a connection with a handler
- `Process.StartsHandled` — the program starts what is there
- `Process.SwitchHandled` — so does the engine when it switches

## Main results

- `watched_handled` — the condition under which every run keeps the bits handled
- `watched_in_vain` — a writer without a reader, whose callback returns
-/

namespace NginxEngine.PP

open NginxEngine.XS (Sv)

variable {p p' : Process} {k : Nat} {i : PInput} {o : Op}

/-- A bit that `select` is given belongs to a connection with a handler for it. -/
structure Process.Watched (p : Process) : Prop where
  read : ∀ fno, p.rin fno = true → ∃ k, p.fdset fno = some k ∧ (p.conns k).read.isSome = true
  write : ∀ fno, p.win fno = true → ∃ k, p.fdset fno = some k ∧ (p.conns k).write.isSome = true

/-- `ngxe_reader_start` and `ngxe_writer_start` are called only where there is a reader, or a
    writer; `ngxe_writer_buffer_set` calls the latter. -/
def Process.StartsHandled (p : Process) : PInput → Prop
  | .op k (.readerStart _) => (p.conns k).read.isSome = true
  | .op k (.writerStart _) | .op k (.writerBufferSet _) => (p.conns k).write.isSome = true
  | _ => True

/-- Besides, the calls that switch sides and the engine itself switch only to a side that is
    there. -/
def Process.SwitchHandled (p : Process) (i : PInput) : Prop :=
  p.StartsHandled i ∧
  match i, p.stack with
  | .op k .readerStopWriterStart, _ => (p.conns k).write.isSome = true
  | .op k .writerStopReaderStart, _ => (p.conns k).read.isSome = true
  | .ret, .conn k (.writeDone false) :: _ =>
    (p.conns k).closed = false → (p.conns k).read.isSome = true
  | .ret, .conn k (.readData _) :: _ =>
    (p.view k).switches = true → (p.conns k).write.isSome = true
  | _, _ => True

instance : Decidable (p.StartsHandled i) := by
  unfold Process.StartsHandled
  induction i with
  | op k o => induction o <;> infer_instance
  | _ => infer_instance

instance : Decidable (p.SwitchHandled i) := by
  unfold Process.SwitchHandled
  refine @instDecidableAnd _ _ inferInstance ?_
  generalize p.stack = stk
  induction i with
  | op k o => induction o <;> infer_instance
  | ret =>
    induction stk using List.casesOn with
    | nil => infer_instance
    | cons f rest =>
      induction f with
      | conn k f =>
        induction f with
        | writeDone error => induction error using Bool.casesOn <;> infer_instance
        | _ => infer_instance
      | _ => infer_instance
  | _ => infer_instance

theorem turn_cases (p p' : Process) :
    p.turn p' = none ∨ p.turn p' = some .enter ∨ p.turn p' = some .leave := by
  rw [Process.turn]
  split <;> split <;> simp

theorem localInput_op (h : p.localInput k i p' = some (.op o)) : i = .op k o := by
  have hturn : p.turn p' ≠ some (.op o) := by
    rcases turn_cases p p' with he | he | he <;> simp [he]
  have hown : ∀ i : PInput, i.own ≠ some (.op o) := by
    intro i
    cases i <;> simp [PInput.own]
  rw [Process.localInput.eq_def] at h
  split at h
  · cases h
  · cases h
  · split at h
    · cases h
    · exact absurd h hturn
  · split at h
    · next hj =>
      cases h
      rw [hj]
    · cases h
  · split at h
    · exact absurd h (hown _)
    · exact absurd h hturn
  · exact absurd h hturn

theorem localInput_ret (h : p.localInput k i p' = some .ret) :
    i = .ret ∧ ∃ f rest, p.stack = .conn k f :: rest := by
  have hturn : p.turn p' ≠ some .ret := by
    rcases turn_cases p p' with he | he | he <;> simp [he]
  have hown : ∀ i : PInput, i.own = some .ret → i = .ret := by
    intro i
    cases i <;> simp [PInput.own]
  rw [Process.localInput.eq_def] at h
  split at h
  · cases h
  · cases h
  · split at h
    · cases h
    · exact absurd h hturn
  · split at h <;> cases h
  · next hstk =>
    split at h
    · next hj => exact ⟨hown _ h, _, _, hj ▸ hstk⟩
    · exact absurd h hturn
  · exact absurd h hturn

theorem lifts_switchHandled : Lifts Process.SwitchHandled SwitchHandled := by
  intro p i p' k j hG hs hopen hloc
  cases j with
  | op o =>
    obtain rfl := localInput_op hloc
    cases o with
    | readerStart timeout => exact ⟨hG.1, trivial⟩
    | writerStart timeout => exact ⟨hG.1, trivial⟩
    | writerBufferSet data => exact ⟨trivial, hG.1⟩
    | readerStopWriterStart => exact ⟨trivial, hG.2⟩
    | writerStopReaderStart => exact ⟨trivial, hG.2⟩
    | _ => exact ⟨trivial, trivial⟩
  | ret =>
    obtain ⟨rfl, f, rest, hstk⟩ := localInput_ret hloc
    have hG' := hG.2
    rw [hstk] at hG'
    refine ⟨trivial, ?_⟩
    rw [project_stack_own hstk]
    cases f with
    | writeDone error =>
      cases error with
      | false => exact hG'
      | true => trivial
    | readData error => exact hG'
    | _ => trivial
  | _ => exact ⟨trivial, trivial⟩

theorem watched_of_reachable (h : p.Reachable Process.SwitchHandled) : p.Watched := by
  have hsets := sets_of_reachable h
  have hhandled : ∀ fno k, p.fdset fno = some k → (p.view k).Handled ∧ p.fileno k = fno := by
    intro fno k hk
    obtain ⟨_, hopen, hfile⟩ := hsets.entry fno k hk
    have hreach := reachable_project lifts_switchHandled h hopen
    exact ⟨handled_of_reachable hreach, by rw [Process.fileno, hfile]; rfl⟩
  refine ⟨fun fno hbit => ?_, fun fno hbit => ?_⟩
  · obtain ⟨k, hk⟩ := hsets.agree.rin fno hbit
    obtain ⟨hh, hf⟩ := hhandled fno k hk
    exact ⟨k, hk, hh.read ((congrArg p.rin hf).trans hbit)⟩
  · obtain ⟨k, hk⟩ := hsets.agree.win fno hbit
    obtain ⟨hh, hf⟩ := hhandled fno k hk
    exact ⟨k, hk, hh.write ((congrArg p.win hf).trans hbit)⟩

/-- **No descriptor is watched in vain** in a run of which each step meets the condition, and in
    which no variable that `_write` was given is assigned in its callback. -/
theorem watched_handled (p : Process)
    (h : p.AliasReachable (Process.Unassigned Process.SwitchHandled)) : p.Watched :=
  watched_of_reachable h.reachable

/-- An accepted connection with a reader and a writer echoes a byte and waits for the next. -/
theorem watched_handled_echo : ∃ p : Process,
    p.AliasReachable (Process.Unassigned Process.SwitchHandled) ∧ p.Watched ∧
      p.stack = [] ∧ p.fdset 4 = some 1 ∧ p.rin 3 = true ∧ p.rin 4 = true := by
  obtain ⟨⟨p, given⟩, hr, hp⟩ := Machine.Reaches.of_run_map (M := Process.aliased)
    (G := Process.Unassigned Process.SwitchHandled) (s := (.init 5 5, fun _ => false))
    (fun s => (s.1.stack, s.1.fdset 4, s.1.rin 3, s.1.rin 4))
    ([.server 3, .leave, .select (fun _ => true) fun _ => true, .dispatch 3, .accept (some 4),
      .op 1 (.writer false 0 (.str [])), .op 1 (.reader true 0), .ret, .accept none, .next,
      .select (fun _ => true) fun _ => true, .dispatch 4, .sysread (.data [97]), .sysread .again,
      .op 1 (.setWriteBuffer (.str [97])), .op 1 (.setReadBuffer []), .ret,
      .syswrite (.accepted 1), .ret, .next].map .inl)
    (show _ = some ([], some 1, true, true) by decide +kernel)
  have hreach : p.AliasReachable (Process.Unassigned Process.SwitchHandled) := ⟨5, 5, given, hr⟩
  simp only [Prod.mk.injEq] at hp
  exact ⟨p, hreach, watched_handled p hreach, hp⟩

/-- An accepted connection with a writer only sends a byte, and its callback returns. -/
theorem watched_in_vain : ¬ ∀ p : Process,
    p.AliasReachable (Process.Unassigned Process.StartsHandled) → p.Watched := by
  intro hall
  obtain ⟨⟨p, given⟩, hr, hp⟩ := Machine.Reaches.of_run_map (M := Process.aliased)
    (G := Process.Unassigned Process.StartsHandled) (s := (.init 5 5, fun _ => false))
    (fun s => (s.1.rin 4, s.1.fdset 4, (s.1.conns 1).read.isSome))
    ([.server 3, .leave, .select (fun _ => true) fun _ => true, .dispatch 3, .accept (some 4),
      .op 1 (.writer true 0 (.str [97])), .syswrite (.accepted 1), .ret].map .inl)
    (show _ = some (true, some 1, false) by decide +kernel)
  simp only [Prod.mk.injEq] at hp
  obtain ⟨hrin, hfd, hread⟩ := hp
  obtain ⟨k, hk, hsome⟩ := (hall p ⟨5, 5, given, hr⟩).read 4 hrin
  obtain rfl : 1 = k := Option.some.inj (hfd.symm.trans hk)
  exact absurd (hread.symm.trans hsome) (by decide)

end NginxEngine.PP
