import NginxEngine.XS.Process

/-!
# The slots of timers

A timeout or an interval lives in a slot of the connection array. Two pieces of code
give the slot of a timeout back: `ngxe_timeout_callback` after the callback, and
`ngxe_timeout_clear`, which first removes the event from the timer tree. Nothing tells the
latter that a timeout has fired and is no longer in the tree. An interval is given back by
`ngxe_interval_clear` only.

## Main definitions

- `TimerSlots` — every slot of a timer is given back once, and the timer tree is intact
- `ClearsOnce` — the program clears each timer at most once
- `ClearsPending` — besides, a timeout is cleared only while it is in the timer tree

## Main results

- `timer_slots_freed_once` — every run of such steps keeps the slots of timers in order
- `timeout_removed_twice` — a timeout clears itself in its callback
-/

namespace NginxEngine.XS

variable {cfg : Config} {w w' : Process} {slot gen : Nat} {t : Timer} {rest : List PFrame}

/-- The timer with the number `gen` is in its slot. -/
def Process.TimerAt (w : Process) (slot gen : Nat) (t : Timer) : Prop :=
  w.pool.lookup slot = some ⟨gen, .timer t⟩

/-- How often code of a timer has pushed its slot on the free list. -/
def Process.pushes (w : Process) (gen : Nat) : Nat := w.log.count (.freed gen)

/-- A timer is live until it is cleared or, for a timeout, until its callback has
    returned. -/
def Process.LiveTimer (w : Process) (gen : Nat) : Prop :=
  ∃ slot t, w.TimerAt slot gen t ∧ t.ended = false

structure TimerSlots (w : Process) : Prop where
  /-- The free list holds no slot twice. -/
  nodup : w.pool.free.Nodup
  /-- The free list holds no slot of a live timer. -/
  unused : ∀ slot gen t, w.TimerAt slot gen t → t.ended = false → slot ∉ w.pool.free
  /-- The slot of a timer is given back once, when the timer ends. -/
  once : ∀ kind slot gen, .set kind slot gen ∈ w.log →
    (w.LiveTimer gen → w.pushes gen = 0) ∧ (¬ w.LiveTimer gen → w.pushes gen = 1)
  /-- Events are removed from the timer tree while they are in it. -/
  removed : ∀ gen b, .removed gen b ∈ w.log → b = true

/-- The program clears each timer at most once. -/
def ClearsOnce (w : Process) : PInput → Prop
  | .timerClear _ _ gen => .cleared gen ∉ w.log
  | _ => True

/-- A timer is in the timer tree. -/
def Process.pending (w : Process) (slot gen : Nat) : Bool :=
  match w.pool.lookup slot with
  | some ⟨gen', .timer t⟩ => decide (gen' = gen) && t.timerSet
  | _ => false

/-- Besides, a timeout is cleared only while it is in the timer tree: not from its own
    callback, and not after it has fired. No `ngxe_client` fails with a slot, which it may give
    back twice. -/
def ClearsPending (w : Process) (i : PInput) : Prop :=
  ClearsOnce w i ∧
  match i with
  | .timerClear .timeout slot gen => w.pending slot gen = true
  | .clientFails _ => False
  | _ => True

instance {i : PInput} : Decidable (ClearsOnce w i) := by
  unfold ClearsOnce
  split <;> infer_instance

instance {i : PInput} : Decidable (ClearsPending w i) := by
  unfold ClearsPending
  refine @instDecidableAnd _ _ inferInstance ?_
  induction i using PInput.casesOn with
  | timerClear kind slot gen => induction kind using TimerKind.casesOn <;> infer_instance
  | _ => infer_instance

/-! ### The invariant -/

/-- The account of a timer that was set: it is live in its slot, or it has ended and its
    slot was given back. -/
inductive Process.Account (w : Process) (kind : TimerKind) (slot gen : Nat) : Prop
  | live (t : Timer) (hat : w.TimerAt slot gen t) (hkind : t.kind = kind) (hlive : t.ended = false)
      (hpush : w.pushes gen = 0)
  | ended (hover : ∀ slot' t, w.TimerAt slot' gen t → t.ended = true)
      (hclear : kind = .interval → .cleared gen ∈ w.log) (hpush : w.pushes gen = 1)

/-- The callback of a timer is called from the loop, so its frame is the outermost one. -/
def TimerLast : List PFrame → Prop
  | [] => True
  | .timer _ _ _ :: rest => rest = []
  | .conn _ _ _ :: rest | .outside :: rest => TimerLast rest
  | .failing _ _ :: _ => False

/-- What the timer tree has to do with the state of a timer. -/
structure Timer.Ok (t : Timer) : Prop where
  ended : t.ended = true → t.timerSet = false
  interval : t.ended = false → t.kind = .interval → t.timerSet = true

structure Timers (w : Process) : Prop where
  pool : w.pool.Ok Occupant.live
  known : ∀ slot gen t, w.TimerAt slot gen t → .set t.kind slot gen ∈ w.log
  tree : ∀ slot gen t, w.TimerAt slot gen t → t.Ok
  account : ∀ kind slot gen, .set kind slot gen ∈ w.log →
    gen < w.pool.next ∧ w.Account kind slot gen
  freed : ∀ gen, .freed gen ∈ w.log → gen < w.pool.next
  removed : ∀ gen b, .removed gen b ∈ w.log → b = true
  frames : ∀ slot gen, .timer .timeout slot gen ∈ w.stack →
    ∃ t, w.TimerAt slot gen t ∧ t.kind = .timeout ∧ t.ended = false ∧ t.timerSet = false
  last : TimerLast w.stack

theorem Timers.timerSlots (h : Timers w) : TimerSlots w := by
  refine ⟨h.pool.nodup, fun slot gen t hat hlive => ?_, fun kind slot gen hset => ?_, h.removed⟩
  · exact h.pool.held slot ⟨gen, .timer t⟩ hat (by simp [Occupant.live, hlive])
  · cases (h.account kind slot gen hset).2 with
    | live t hat hkind hlive hpush =>
      exact ⟨fun _ => hpush, fun hnot => absurd ⟨slot, t, hat, hlive⟩ hnot⟩
    | ended hover hclear hpush =>
      refine ⟨fun ⟨slot', t, hat, hlive⟩ => ?_, fun _ => hpush⟩
      exact absurd (hlive.symm.trans (hover slot' t hat)) (by decide)

/-- A number names one timer. -/
theorem Timers.timer_eq {slot' : Nat} {t' : Timer} (h : Timers w) (hat : w.TimerAt slot gen t)
    (hat' : w.TimerAt slot' gen t') : slot = slot' ∧ t = t' := by
  obtain ⟨rfl, hcell⟩ := h.pool.eq_of_gen hat hat' rfl
  cases hcell
  exact ⟨rfl, rfl⟩

/-- A timer in the timer tree has not ended. -/
theorem Timers.live_of_timerSet (h : Timers w) (hat : w.TimerAt slot gen t)
    (ht : t.timerSet = true) : t.ended = false := by
  by_contra hover
  have hoff := (h.tree slot gen t hat).ended (by simpa using hover)
  exact absurd (ht.symm.trans hoff) (by decide)

theorem timerLast_push {fs : List Frame} (h : TimerLast rest) :
    TimerLast (fs.map (.conn slot gen) ++ rest) := by
  induction fs with
  | nil => exact h
  | cons f fs ih => exact ih

theorem timerLast_tail {f : PFrame} (h : TimerLast (f :: rest)) : TimerLast rest := by
  cases f with
  | conn slot gen f => exact h
  | outside => exact h
  | failing why slot => exact h.elim
  | timer kind slot gen =>
    obtain rfl : rest = [] := h
    trivial

/-- Code that leaves live timers and the log alone. -/
theorem Timers.keep (h : Timers w) (hpool : w'.pool.Ok Occupant.live) (hlog : w'.log = w.log)
    (hnext : w.pool.next ≤ w'.pool.next)
    (hold : ∀ slot gen t, w'.TimerAt slot gen t → w.TimerAt slot gen t)
    (hlive : ∀ slot gen t, w.TimerAt slot gen t → t.ended = false → w'.TimerAt slot gen t)
    (hframes : ∀ slot gen, .timer .timeout slot gen ∈ w'.stack → .timer .timeout slot gen ∈ w.stack)
    (hlast : TimerLast w'.stack) : Timers w' := by
  have hpush : ∀ gen, w'.pushes gen = w.pushes gen := by
    intro gen
    rw [Process.pushes, hlog, Process.pushes]
  refine ⟨hpool, fun slot gen t hat => ?_, fun slot gen t hat => ?_, fun kind slot gen hset => ?_,
    fun gen hf => ?_, fun gen b hr => ?_, fun slot gen hf => ?_, hlast⟩
  · rw [hlog]
    exact h.known slot gen t (hold slot gen t hat)
  · exact h.tree slot gen t (hold slot gen t hat)
  · rw [hlog] at hset
    obtain ⟨hlt, hacc⟩ := h.account kind slot gen hset
    refine ⟨Nat.lt_of_lt_of_le hlt hnext, ?_⟩
    cases hacc with
    | live t hat hkind hl hp => exact .live t (hlive slot gen t hat hl) hkind hl (by rw [hpush, hp])
    | ended hover hclear hp =>
      refine .ended (fun slot' t hat => hover slot' t (hold slot' gen t hat)) ?_ (by rw [hpush, hp])
      rw [hlog]
      exact hclear
  · rw [hlog] at hf
    exact Nat.lt_of_lt_of_le (h.freed gen hf) hnext
  · rw [hlog] at hr
    exact h.removed gen b hr
  · obtain ⟨t, hat, hk, hl, hs⟩ := h.frames slot gen (hframes slot gen hf)
    exact ⟨t, hlive slot gen t hat hl, hk, hl, hs⟩

theorem applyOp_destroyed {ok : Bool} {c : Conn} {o : Op} (hd : c.destroyed = true)
    (hopen : c.destroyed = false ∨ o = .close) : (applyOp cfg ok c o).1.destroyed = true := by
  rcases hopen with hopen | rfl
  · exact absurd (hopen.symm.trans hd) (by decide)
  · exact ngxeClose_destroyed c

/-- No step of a connection opens it again. -/
theorem step_destroyed {c : Conn} {stk : List Frame} {i : Input} {s : Sys}
    (hs : Step cfg ⟨c, stk⟩ i s) (hd : c.destroyed = true) : s.c.destroyed = true := by
  have hclosed : ∀ {p : Prop}, c.destroyed = false → p := fun h =>
    absurd (h.symm.trans hd) (by decide)
  cases hs with
  | arrive b hb he => exact hd
  | arriveEof he => exact hd
  | hangup => exact hd
  | readEvent hopen hr => exact hclosed hopen
  | writeEvent hopen ha => exact hclosed hopen
  | readTimer hopen ht => exact hclosed hopen
  | writeTimer hopen ht => exact hclosed hopen
  | enter => exact hd
  | leave => exact hd
  | op o ok hf hopen => exact applyOp_destroyed hd hopen
  | recv err ok => exact readerRecv_outcome.move.destroyed.trans hd
  | send r ok hr => exact (writerSend_outcome _ r).move.destroyed.trans hd
  | @ret c cb site rest ok =>
    rcases (afterCallback_destroyed hd).2 with he | he
    · exact (congrArg Conn.destroyed he).trans hd
    · exact (congrArg Conn.destroyed he).trans hd

theorem timerAt_finish {c : Conn} {o : Outcome} {slot' gen' : Nat}
    (hx : w.pool.lookup slot = some ⟨gen, .conn c⟩) :
    (w.finish slot gen c o rest).TimerAt slot' gen' t ↔ w.TimerAt slot' gen' t := by
  unfold Process.TimerAt
  by_cases hne : slot = slot'
  · subst hne
    rw [Process.lookup_finish hx, hx]
    simp
  · rw [Process.lookup_finish_ne hne]

theorem Timers.finish {c : Conn} {o : Outcome} (h : Timers w)
    (hx : w.pool.lookup slot = some ⟨gen, .conn c⟩)
    (hd : c.destroyed = true → o.1.destroyed = true)
    (hframes : ∀ slot gen, .timer .timeout slot gen ∈ rest → .timer .timeout slot gen ∈ w.stack)
    (hlast : TimerLast rest) : Timers (w.finish slot gen c o rest) := by
  have hpool : (w.finish slot gen c o rest).pool.Ok Occupant.live ∧
      (w.finish slot gen c o rest).pool.next = w.pool.next := by
    rw [Process.finish]
    split
    · next hclosed =>
      rw [Bool.and_eq_true, Bool.not_eq_true'] at hclosed
      have hok := h.pool.release (f := fun _ => .conn o.1) hx (by simp [Occupant.live, hclosed.1])
        (by simp [Occupant.live, hclosed.2])
      exact ⟨hok, rfl⟩
    · have hok : (w.pool.modify slot fun _ => .conn o.1).Ok Occupant.live := by
        refine h.pool.modify fun x hx' hlive => ?_
        obtain rfl : x = ⟨gen, .conn c⟩ := Option.some.inj (hx'.symm.trans hx)
        simp only [Occupant.live, Bool.not_eq_true'] at hlive ⊢
        by_contra hopen
        have hdestroyed := hd (by simpa using hopen)
        exact absurd (hlive.symm.trans hdestroyed) (by decide)
      exact ⟨hok, rfl⟩
  refine h.keep hpool.1 rfl (Nat.le_of_eq hpool.2.symm) (fun _ _ _ => (timerAt_finish hx).mp)
    (fun _ _ _ hat _ => (timerAt_finish hx).mpr hat) (fun slot' gen' hf => ?_)
    (timerLast_push hlast)
  rcases List.mem_append.mp hf with hf | hf
  · obtain ⟨f, -, hf⟩ := List.mem_map.mp hf
    cases hf
  · exact hframes slot' gen' hf

theorem Timers.drop (h : Timers w) {f : PFrame} (hstk : w.stack = f :: rest) :
    Timers { w with stack := rest } := by
  have hlast := h.last
  rw [hstk] at hlast
  refine h.keep h.pool rfl (Nat.le_refl _) (fun _ _ _ => id) (fun _ _ _ hat _ => hat)
    (fun slot gen hf => ?_) (timerLast_tail hlast)
  rw [hstk]
  exact List.mem_cons_of_mem _ hf

/-- A slot is taken that no live timer has. -/
theorem Timers.timerAt_get {pool : Pool Occupant} {v : Occupant} (h : Timers w)
    (hget : w.pool.get v = some (slot, pool)) {slot' gen' : Nat} (hat : w.TimerAt slot' gen' t)
    (hlive : t.ended = false) : pool.lookup slot' = some ⟨gen', .timer t⟩ := by
  refine (Pool.lookup_get_ne hget ?_).trans hat
  rintro rfl
  exact h.pool.held slot ⟨gen', .timer t⟩ hat (by simp [Occupant.live, hlive])
    (Pool.mem_free_of_get hget)

/-- A slot is taken for something else than a timer. -/
theorem Timers.connect {pool : Pool Occupant} {v : Occupant} {stk : List PFrame} (h : Timers w)
    (fs : List Frame) (hget : w.pool.get v = some (slot, pool)) (hv : ∀ t, v ≠ .timer t)
    (hframes : ∀ slot gen, .timer .timeout slot gen ∈ stk → .timer .timeout slot gen ∈ w.stack)
    (hlast : TimerLast stk) :
    Timers { w with pool := pool, stack := fs.map (.conn slot w.pool.next) ++ stk } := by
  have hself := Pool.lookup_get_self hget (h.pool.range slot (Pool.mem_free_of_get hget))
  refine h.keep (h.pool.get hget) rfl ?_ (fun slot' gen' t hat => ?_)
    (fun _ _ _ hat hlive => h.timerAt_get hget hat hlive) (fun slot' gen' hf => ?_)
    (timerLast_push hlast)
  · show w.pool.next ≤ pool.next
    rw [Pool.next_get hget]
    exact Nat.le_succ _
  · have hat : pool.lookup slot' = some ⟨gen', .timer t⟩ := hat
    by_cases hne : slot = slot'
    · subst hne
      rw [hself] at hat
      cases hat
      exact absurd rfl (hv t)
    · rw [Pool.lookup_get_ne hget hne] at hat
      exact hat
  · rcases List.mem_append.mp hf with hf | hf
    · obtain ⟨f, -, hf⟩ := List.mem_map.mp hf
      cases hf
    · exact hframes slot' gen' hf

theorem Timers.takeBare {b : Bare} (h : Timers w) : Timers (w.takeBare b) := by
  rw [Process.takeBare]
  split
  · next hget => exact h.connect [] hget (fun _ => by simp) (fun _ _ => id) h.last
  · exact h

/-- `ngxe_close` of a slot without a timer. -/
theorem Timers.closeBare {b : Bare} (h : Timers w)
    (hx : w.pool.lookup slot = some ⟨gen, .bare b⟩) : Timers (w.ngxeClose slot) := by
  -- no timer comes or goes by a change of this slot
  have hother : ∀ (p : Pool Occupant) v,
      (∀ j, p.lookup j = (w.pool.modify slot fun _ => v).lookup j) → (∀ t, v ≠ .timer t) →
      ∀ slot' gen' t,
        p.lookup slot' = some ⟨gen', .timer t⟩ ↔ w.TimerAt slot' gen' t := by
    intro p v hp hv slot' gen' t
    rw [hp, Process.TimerAt]
    by_cases hs : slot = slot'
    · subst hs
      rw [Pool.lookup_modify_self, hx]
      constructor
      · intro he
        cases he
        exact absurd rfl (hv t)
      · intro he
        cases he
    · rw [Pool.lookup_modify_ne hs]
  rw [Process.ngxeClose, hx]
  split
  · exact h
  · split
    · next hfd =>
      have hat := hother ((w.pool.modify slot fun _ => .bare ⟨false, false, true⟩).put slot) _
        (fun _ => rfl) (by simp)
      exact h.keep (h.pool.release hx (by simpa [Occupant.live, Occupant.fd] using hfd) rfl) rfl
        (Nat.le_refl _) (fun _ _ _ => (hat _ _ _).mp) (fun _ _ _ hx _ => (hat _ _ _).mpr hx)
        (fun _ _ => id) h.last
    · have hat := hother (w.pool.modify slot fun _ => .bare ⟨false, false, true⟩) _
        (fun _ => rfl) (by simp)
      have hpool : (w.pool.modify slot fun _ => .bare ⟨false, false, true⟩).Ok Occupant.live :=
        h.pool.modify fun _ _ hl => absurd hl (by decide)
      exact h.keep hpool rfl (Nat.le_refl _) (fun _ _ _ => (hat _ _ _).mp)
        (fun _ _ _ hx _ => (hat _ _ _).mpr hx) (fun _ _ => id) h.last

/-! ### Code of timers -/

/-- `ngxe_timeout_set` and `ngxe_interval_set`. -/
theorem Timers.setTimer {pool : Pool Occupant} (h : Timers w) (kind : TimerKind)
    (hget : w.pool.get (.timer ⟨kind, true, false⟩) = some (slot, pool)) :
    Timers { w with pool := pool, log := w.log ++ [.set kind slot w.pool.next] } := by
  have hself := Pool.lookup_get_self hget (h.pool.range slot (Pool.mem_free_of_get hget))
  have hnext := Pool.next_get hget
  have hat : ∀ slot' gen' t, pool.lookup slot' = some ⟨gen', .timer t⟩ →
      (slot' = slot ∧ gen' = w.pool.next ∧ t = ⟨kind, true, false⟩) ∨ w.TimerAt slot' gen' t := by
    intro slot' gen' t hat
    by_cases hne : slot = slot'
    · subst hne
      rw [hself] at hat
      cases hat
      exact .inl ⟨rfl, rfl, rfl⟩
    · exact .inr ((Pool.lookup_get_ne hget hne).symm.trans hat)
  have hcount : ∀ gen', (w.log ++ [Act.set kind slot w.pool.next]).count (.freed gen') =
      w.pushes gen' := by
    intro gen'
    simp [Process.pushes]
  refine ⟨h.pool.get hget, fun slot' gen' t hx => ?_, fun slot' gen' t hx => ?_,
    fun kind' slot' gen' hset => ?_, fun gen' hf => ?_, fun gen' b hr => ?_,
    fun slot' gen' hf => ?_, h.last⟩
  · rcases hat slot' gen' t hx with ⟨rfl, rfl, rfl⟩ | hx
    · simp
    · exact List.mem_append_left _ (h.known slot' gen' t hx)
  · rcases hat slot' gen' t hx with ⟨-, -, rfl⟩ | hx
    · exact ⟨nofun, fun _ _ => rfl⟩
    · exact h.tree slot' gen' t hx
  · show gen' < pool.next ∧ _
    rw [hnext]
    rcases List.mem_append.mp hset with hset | hset
    · obtain ⟨hlt, hacc⟩ := h.account kind' slot' gen' hset
      refine ⟨Nat.lt_succ_of_lt hlt, ?_⟩
      cases hacc with
      | live t hx hkind hl hp =>
        exact .live t (h.timerAt_get hget hx hl) hkind hl ((hcount gen').trans hp)
      | ended hover hclear hp =>
        refine .ended (fun slot'' t hx => ?_) (fun hk => ?_) ((hcount gen').trans hp)
        · rcases hat slot'' gen' t hx with ⟨-, rfl, -⟩ | hx
          · exact absurd hlt (Nat.lt_irrefl _)
          · exact hover slot'' t hx
        · exact List.mem_append_left _ (hclear hk)
    · obtain ⟨rfl, rfl, rfl⟩ : kind' = kind ∧ slot' = slot ∧ gen' = w.pool.next := by
        simpa using hset
      refine ⟨Nat.lt_succ_self _, .live _ hself rfl rfl ?_⟩
      refine (hcount _).trans (List.count_eq_zero.mpr fun hf => ?_)
      exact absurd (h.freed _ hf) (Nat.lt_irrefl _)
  · show gen' < pool.next
    rw [hnext]
    have hf : .freed gen' ∈ w.log := by simpa using hf
    exact Nat.lt_succ_of_lt (h.freed gen' hf)
  · exact h.removed gen' b (by simpa using hr)
  · obtain ⟨t, hx, hk, hl, hs⟩ := h.frames slot' gen' hf
    exact ⟨t, h.timerAt_get hget hx hl, hk, hl, hs⟩

/-- What the end of a timer writes to the log. -/
structure EndLog (gen : Nat) (log : List Act) : Prop where
  own : ∀ x ∈ log, x = .cleared gen ∨ x = .removed gen true ∨ x = .freed gen
  once : log.count (.freed gen) = 1

namespace EndLog

variable {log : List Act} {gen' : Nat}

theorem not_set {kind : TimerKind} (h : EndLog gen log) : .set kind slot gen' ∉ log := by
  intro hx
  rcases h.own _ hx with hx | hx | hx <;> cases hx

theorem eq_of_freed (h : EndLog gen log) (hx : .freed gen' ∈ log) : gen' = gen := by
  rcases h.own _ hx with hx | hx | hx
  · cases hx
  · cases hx
  · cases hx
    rfl

theorem eq_of_removed {b : Bool} (h : EndLog gen log) (hx : .removed gen' b ∈ log) :
    b = true := by
  rcases h.own _ hx with hx | hx | hx
  · cases hx
  · cases hx
    rfl
  · cases hx

theorem count_of_ne (h : EndLog gen log) (hne : gen' ≠ gen) : log.count (.freed gen') = 0 :=
  List.count_eq_zero.mpr fun hx => hne (h.eq_of_freed hx)

end EndLog

/-- The accounts when the timer `gen` ends. -/
theorem Timers.account_release {log : List Act} {kind : TimerKind} {slot' gen' : Nat}
    (h : Timers w) (hat : w.TimerAt slot gen t) (hlive : t.ended = false)
    (hlog : EndLog gen log) (hclear : t.kind = .interval → .cleared gen ∈ log)
    (hended : ∀ slot' t', w'.TimerAt slot' gen t' → t'.ended = true)
    (hsame : ∀ slot' gen' t', gen' ≠ gen → (w'.TimerAt slot' gen' t' ↔ w.TimerAt slot' gen' t'))
    (hlog' : w'.log = w.log ++ log) (hacc : w.Account kind slot' gen') :
    w'.Account kind slot' gen' := by
  by_cases hgen : gen' = gen
  · subst hgen
    cases hacc with
    | live t₁ hat₁ hkind hlive₁ hpush =>
      obtain ⟨-, rfl⟩ := h.timer_eq hat hat₁
      refine .ended hended (fun hk => ?_) ?_
      · rw [hlog']
        exact List.mem_append_right _ (hclear (hkind.trans hk))
      · rw [Process.pushes, hlog', List.count_append, hlog.once,
          show w.log.count (.freed gen') = 0 from hpush]
    | ended hover _ _ => exact absurd (hlive.symm.trans (hover slot t hat)) (by decide)
  · have hpushes : w'.pushes gen' = w.pushes gen' := by
      rw [Process.pushes, hlog', List.count_append, hlog.count_of_ne hgen]
      rfl
    cases hacc with
    | live t₁ hat₁ hkind hlive₁ hpush =>
      exact .live t₁ ((hsame slot' gen' t₁ hgen).mpr hat₁) hkind hlive₁ (hpushes.trans hpush)
    | ended hover hcleared hpush =>
      refine .ended (fun slot'' t₂ hat₂ => ?_) (fun hk => ?_) (hpushes.trans hpush)
      · exact hover slot'' t₂ ((hsame slot'' gen' t₂ hgen).mp hat₂)
      · rw [hlog']
        exact List.mem_append_left _ (hcleared hk)

/-- A live timer ends, and its slot is given back. -/
theorem Timers.release {f : Occupant → Occupant} {log : List Act} {stk : List PFrame}
    (h : Timers w) (t' : Timer) (hat : w.TimerAt slot gen t) (hlive : t.ended = false)
    (hf : f (.timer t) = .timer t') (hkind : t'.kind = t.kind) (hover : t'.ended = true)
    (hset : t'.timerSet = false) (hclear : t.kind = .interval → .cleared gen ∈ log)
    (hlog : EndLog gen log)
    (hframes : ∀ slot' gen', .timer .timeout slot' gen' ∈ stk →
      .timer .timeout slot' gen' ∈ w.stack ∧ gen' ≠ gen)
    (hlast : TimerLast stk) :
    Timers { w with
      pool := (w.pool.modify slot f).put slot, stack := stk, log := w.log ++ log } := by
  have hl : Occupant.live (.timer t) = true := by simp [Occupant.live, hlive]
  have hpool := h.pool.release (f := f) hat hl (by simp [hf, Occupant.live, hover])
  have hself : (w.pool.modify slot f).lookup slot = some ⟨gen, .timer t'⟩ := by
    rw [Pool.lookup_modify_self, show w.pool.lookup slot = _ from hat]
    simp [hf]
  have hsame : ∀ slot' gen' t₁, gen' ≠ gen →
      ((w.pool.modify slot f).lookup slot' = some ⟨gen', .timer t₁⟩ ↔ w.TimerAt slot' gen' t₁) :=
    fun _ _ _ hgen => Pool.lookup_modify_iff hat hgen
  have hthis : ∀ slot' t₁, (w.pool.modify slot f).lookup slot' = some ⟨gen, .timer t₁⟩ →
      slot = slot' ∧ t₁ = t' := by
    intro slot' t₁ hx
    obtain ⟨rfl, hcell⟩ := hpool.eq_of_gen hself hx rfl
    cases hcell
    exact ⟨rfl, rfl⟩
  have hknown := h.known slot gen t hat
  refine ⟨hpool, fun slot' gen' t₁ hx => ?_, fun slot' gen' t₁ hx => ?_,
    fun kind' slot' gen' hset' => ?_, fun gen' hx => ?_, fun gen' b hr => ?_,
    fun slot' gen' hx => ?_, hlast⟩
  · by_cases hgen : gen' = gen
    · subst hgen
      obtain ⟨rfl, rfl⟩ := hthis slot' t₁ hx
      rw [hkind]
      exact List.mem_append_left _ hknown
    · exact List.mem_append_left _ (h.known slot' gen' t₁ ((hsame slot' gen' t₁ hgen).mp hx))
  · by_cases hgen : gen' = gen
    · subst hgen
      obtain ⟨-, rfl⟩ := hthis slot' t₁ hx
      exact ⟨fun _ => hset, fun hno => absurd (hover.symm.trans hno) (by decide)⟩
    · exact h.tree slot' gen' t₁ ((hsame slot' gen' t₁ hgen).mp hx)
  · have hset' : .set kind' slot' gen' ∈ w.log := by
      rcases List.mem_append.mp hset' with hx | hx
      · exact hx
      · exact absurd hx hlog.not_set
    obtain ⟨hlt, hacc⟩ := h.account kind' slot' gen' hset'
    refine ⟨hlt, h.account_release hat hlive hlog hclear (fun slot'' t₂ hx => ?_) hsame rfl hacc⟩
    rw [(hthis slot'' t₂ hx).2]
    exact hover
  · rcases List.mem_append.mp hx with hx | hx
    · exact h.freed gen' hx
    · rw [hlog.eq_of_freed hx]
      exact (h.account _ _ _ hknown).1
  · rcases List.mem_append.mp hr with hr | hr
    · exact h.removed gen' b hr
    · exact hlog.eq_of_removed hr
  · obtain ⟨hx, hgen⟩ := hframes slot' gen' hx
    obtain ⟨t₁, hat₁, hk₁, hl₁, hs₁⟩ := h.frames slot' gen' hx
    exact ⟨t₁, (hsame slot' gen' t₁ hgen).mpr hat₁, hk₁, hl₁, hs₁⟩

/-- What a clear that meets the condition finds. -/
theorem Timers.clearable {kind : TimerKind} (h : Timers w) (hset : .set kind slot gen ∈ w.log)
    (hG : ClearsPending w (.timerClear kind slot gen)) :
    ∃ t, w.TimerAt slot gen t ∧ t.ended = false ∧ t.timerSet = true := by
  obtain ⟨hnot, hpending⟩ := hG
  cases kind with
  | timeout =>
    simp only [Process.pending] at hpending
    split at hpending
    · next gen' t hx =>
      obtain ⟨rfl, ht⟩ : gen' = gen ∧ t.timerSet = true := by simpa using hpending
      exact ⟨t, hx, h.live_of_timerSet hx ht, ht⟩
    · cases hpending
  | interval =>
    cases (h.account .interval slot gen hset).2 with
    | live t hat hkind hlive hp =>
      exact ⟨t, hat, hlive, (h.tree slot gen t hat).interval hlive hkind⟩
    | ended hover hclear hp => exact absurd (hclear rfl) hnot

theorem Timers.clear {kind : TimerKind} (h : Timers w) (hset : .set kind slot gen ∈ w.log)
    (hG : ClearsPending w (.timerClear kind slot gen)) : Timers (w.clearTimer slot gen) := by
  obtain ⟨t, hat, hlive, ht⟩ := h.clearable hset hG
  have hclear : w.clearTimer slot gen = { w with
      pool := (w.pool.modify slot Occupant.clear).put slot
      log := w.log ++ [.cleared gen, .removed gen true, .freed gen] } := by
    simp [Process.clearTimer, show w.pool.lookup slot = _ from hat, hlive, ht]
  rw [hclear]
  refine h.release { t with timerSet := false, ended := true } hat hlive rfl rfl rfl rfl
    (by simp) ⟨by simp, by simp⟩ (fun slot' gen' hf => ⟨hf, ?_⟩) h.last
  -- the callback of a timeout that is in the tree is not running
  rintro rfl
  obtain ⟨t₁, hat₁, -, -, hs₁⟩ := h.frames slot' gen' hf
  obtain ⟨-, rfl⟩ := h.timer_eq hat hat₁
  exact absurd (ht.symm.trans hs₁) (by decide)

/-- The end of `ngxe_timeout_callback`. -/
theorem Timers.timeoutReturn (h : Timers w) (hstk : w.stack = .timer .timeout slot gen :: rest) :
    Timers (w.timeoutReturn slot gen rest) := by
  obtain ⟨t, hat, hkind, hlive, hs⟩ := h.frames slot gen (by simp [hstk])
  have hlast := h.last
  rw [hstk] at hlast
  obtain rfl : rest = [] := hlast
  have hmine : (w.pool.lookup slot).any (·.gen = gen) = true := by
    simp [show w.pool.lookup slot = _ from hat]
  refine h.release { t with ended := true } hat hlive ?_ rfl rfl hs
    (fun hk => absurd (hkind.symm.trans hk) (by decide)) ⟨by simp, by simp⟩ (by simp) trivial
  simp [hmine, Occupant.finish]

/-- A timer fires; an interval is back in the tree before its callback runs. -/
theorem Timers.fire (h : Timers w) (hat : w.TimerAt slot gen t) (ht : t.timerSet = true) :
    Timers { w with
      pool := w.pool.modify slot Occupant.fire, stack := [.timer t.kind slot gen] } := by
  have hlive : t.ended = false := h.live_of_timerSet hat ht
  have hself : (w.pool.modify slot Occupant.fire).lookup slot =
      some ⟨gen, .timer { t with timerSet := decide (t.kind = .interval) }⟩ := by
    rw [Pool.lookup_modify_self, show w.pool.lookup slot = _ from hat]
    rfl
  have hpool : (w.pool.modify slot Occupant.fire).Ok Occupant.live := by
    refine h.pool.modify fun x hx _ => ?_
    obtain rfl : x = ⟨gen, .timer t⟩ := Option.some.inj (hx.symm.trans hat)
    simp [Occupant.live, hlive]
  -- a timer of the new state is one of the old state, up to its place in the tree
  have hback : ∀ slot' gen' t', (w.pool.modify slot Occupant.fire).lookup slot' =
      some ⟨gen', .timer t'⟩ → ∃ t₁, w.TimerAt slot' gen' t₁ ∧ t'.kind = t₁.kind ∧
        t'.ended = t₁.ended ∧ (t₁.Ok → t'.Ok) := by
    intro slot' gen' t' hx
    by_cases hs : slot = slot'
    · subst hs
      rw [hself] at hx
      cases hx
      refine ⟨t, hat, rfl, rfl, fun _ => ⟨fun hover => ?_, fun _ hk => decide_eq_true hk⟩⟩
      exact absurd (hlive.symm.trans hover) (by decide)
    · rw [Pool.lookup_modify_ne hs] at hx
      exact ⟨t', hx, rfl, rfl, id⟩
  refine ⟨hpool, fun slot' gen' t' hx => ?_, fun slot' gen' t' hx => ?_,
    fun kind slot' gen' hset => ?_, h.freed, h.removed, fun slot' gen' hf => ?_, rfl⟩
  · obtain ⟨t₁, hat₁, hk, -, -⟩ := hback slot' gen' t' hx
    rw [hk]
    exact h.known slot' gen' t₁ hat₁
  · obtain ⟨t₁, hat₁, -, -, hok⟩ := hback slot' gen' t' hx
    exact hok (h.tree slot' gen' t₁ hat₁)
  · obtain ⟨hlt, hacc⟩ := h.account kind slot' gen' hset
    refine ⟨hlt, ?_⟩
    cases hacc with
    | live t₁ hat₁ hk hl hp =>
      by_cases hs : slot = slot'
      · subst hs
        obtain ⟨rfl, rfl⟩ : gen = gen' ∧ t = t₁ := by
          cases Option.some.inj (hat.symm.trans hat₁)
          exact ⟨rfl, rfl⟩
        exact .live _ hself hk hl hp
      · exact .live t₁ ((Pool.lookup_modify_ne hs).trans hat₁) hk hl hp
    | ended hover hclear hp =>
      refine .ended (fun slot'' t' hx => ?_) hclear hp
      obtain ⟨t₁, hat₁, -, ho, -⟩ := hback slot'' gen' t' hx
      rw [ho]
      exact hover slot'' t₁ hat₁
  · obtain ⟨hk, rfl, rfl⟩ : .timeout = t.kind ∧ slot' = slot ∧ gen' = gen := by simpa using hf
    exact ⟨_, hself, hk.symm, hlive, by rw [← hk]; rfl⟩

theorem timers_step {i : PInput} (h : Timers w) (hG : ClearsPending w i) (hs : PStep cfg w i w') :
    Timers w' := by
  cases hs with
  | event i hx hi hs => exact h.finish hx (step_destroyed hs) (fun _ _ => id) h.last
  | op o ok hx hperl hopen =>
    exact h.finish hx (fun hd => applyOp_destroyed hd hopen) (fun _ _ => id) h.last
  | closeBare ok hx hperl hknown => exact h.closeBare hx
  | resume i hstk hx hi hs =>
    have hlast := h.last
    rw [hstk] at hlast
    refine h.finish hx (step_destroyed hs) (fun slot gen hf => ?_) hlast
    rw [hstk]
    exact List.mem_cons_of_mem _ hf
  | elsewhere ok hstk hx hne =>
    rw [Process.returnElsewhere]
    split
    · exact h.drop hstk
    · exact h.keep h.pool rfl (Nat.le_refl _) (fun _ _ _ => id) (fun _ _ _ hat _ => hat)
        (fun _ _ => id) h.last
  | @accept slot pool hstk hget =>
    have hstack : ∀ slot gen, .timer .timeout slot gen ∈ [PFrame.outside] →
        .timer .timeout slot gen ∈ w.stack := by simp
    exact h.connect [] hget (fun _ => by simp) hstack trivial
  | client connected timeout hperl hget =>
    exact h.connect _ hget (fun _ => by simp) (fun _ _ => id) h.last
  -- the error exits of `ngxe_client` may give a slot back twice
  | clientFails why hperl hget => exact hG.2.elim
  | clientRefused why => exact h
  | failReturn hstk =>
    have hlast := h.last
    rw [hstk] at hlast
    exact hlast.elim
  | server fd ok hperl => exact h.takeBare
  | timerSet kind hperl hget => exact h.setTimer kind hget
  | timerRefused kind => exact h
  | timerFails kind hperl => exact h.takeBare
  | timerClear kind hperl hset => exact h.clear hset hG
  | fire hx hstk ht => exact h.fire hx ht
  | timeoutReturn hstk => exact h.timeoutReturn hstk
  | intervalReturn hstk => exact h.drop hstk
  | leave hstk => exact h.drop hstk

theorem timers_init (n : Nat) : Timers (.init n) := by
  have hnone : ∀ slot gen t, ¬ (Process.init n).TimerAt slot gen t := by
    intro slot gen t hat
    simp only [Process.TimerAt, Process.init, Pool.lookup, Pool.init, List.getElem?_map,
      Option.map_eq_some_iff] at hat
    obtain ⟨k, -, hk⟩ := hat
    cases hk
  exact ⟨Pool.ok_init n rfl, fun _ _ _ hat => absurd hat (hnone _ _ _),
    fun _ _ _ hat => absurd hat (hnone _ _ _), by simp [Process.init], by simp [Process.init],
    by simp [Process.init], by simp [Process.init], trivial⟩

/-- In every run in which each timer is cleared at most once, and a timeout only while it
    is in the timer tree, every slot of a timer is given back once. -/
theorem timer_slots_freed_once (cfg : Config) (w : Process)
    (h : Process.Reachable cfg ClearsPending w) : TimerSlots w :=
  (h.invariant timers_init fun _ _ _ h hG hs => timers_step h hG hs).timerSlots

theorem timer_slots_freed_once_both :
    ∃ w, Process.Reachable ⟨.clear, 4096, 4080⟩ ClearsPending w ∧ TimerSlots w ∧
      w.pool.free = [0, 1] ∧ w.pushes 2 = 1 ∧ w.pushes 3 = 1 := by
  have hr : Process.Reachable ⟨.clear, 4096, 4080⟩ ClearsPending _ :=
    ⟨2, .of_run [.timerSet .timeout, .timerSet .interval, .leave, .fire 1,
      .timerClear .interval 1 3, .timerReturn, .fire 0, .timerReturn] rfl⟩
  exact ⟨_, hr, timer_slots_freed_once _ _ hr, by decide⟩

/-- A timeout clears itself in its own callback: `ngxe_timeout_clear` removes its event from
    the timer tree once more, which ends the process. -/
theorem timeout_removed_twice :
    ¬ ∀ cfg w, Process.Reachable cfg ClearsOnce w → TimerSlots w := by
  intro h
  have hr : Process.Reachable ⟨.clear, 4096, 4080⟩ ClearsOnce _ :=
    ⟨1, .of_run [.timerSet .timeout, .leave, .fire 0, .timerClear .timeout 0 1] rfl⟩
  exact absurd ((h _ _ hr).removed 1 false (by decide)) (by decide)

end NginxEngine.XS
