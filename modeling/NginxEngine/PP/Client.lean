import NginxEngine.PP.Frames

/-!
# The callback of a client

`ngxe_client` puts an event of type connect into `CN_WRITE`, where it stays until the program
creates a writer. `_connect` calls its callback, and so does `_write`, whichever is in `CN_WRITE`.
A connection that has been connected is out of `$win`, but its event is where it was: whatever
starts the writer before one was created runs `_write` for it.

## Main definitions

- `CalledOnce` — the callback given to `ngxe_client` is called once, as such
- `ConnectServed` — the event of `ngxe_client` is not served as a writer's, or once more

## Main results

- `client_called_once` — the condition under which it is so in every run
- `client_called_as_writer` — the switch in `_read` runs `_write` for it
-/

namespace NginxEngine.PP

open NginxEngine.XS (Bytes Sv)

variable {now t : Int} {v v' : View} {o : Outcome} {s s' : Sys} {f : Frame} {rest : List Frame}
  {l l' : List Obs} {x : Obs} {ev : Option Nat} {args : EvType}

/-- The callback given to `ngxe_client` is called; its event is the first of the connection. -/
def Obs.isClientCall : Obs → Bool
  | .called 0 _ _ => true
  | _ => false

/-- It is called once at most, and never with the arguments of a writer's callback. -/
structure CalledOnce (l : List Obs) : Prop where
  once : l.countP Obs.isClientCall ≤ 1
  args : ∀ args err, .called 0 args err ∈ l → args ≠ .write

/-- The states of every run of a connection that `ngxe_client` has made, of which each step
    meets `G`. -/
def ClientReachable (G : Sys → Input → Prop) (s : Sys) : Prop :=
  ∃ now t fileno timeout, engine.Reaches G ⟨(ngxeClient now fileno timeout).1, now, t,
    (ngxeClient now fileno timeout).2 ++ [.outside]⟩ s

/-- While `CN_WRITE` holds the event of `ngxe_client`, nothing starts the writer, and the loop does
    not come to a connection that is in `$wout` but no longer in `$win`. -/
def ConnectServed (s : Sys) (i : Input) : Prop :=
  s.v.write = some 0 → startsWriter s i = false ∧
    (i = .dispatch → s.v.wout = true → s.v.win = true)

instance {i : Input} : Decidable (ConnectServed s i) := by
  rw [ConnectServed]
  infer_instance

/-! ### The trace -/

/-- The callback was called. -/
def Called (l : List Obs) : Prop := l.any Obs.isClientCall = true

/-- Observations that are no call of it. -/
abbrev Silent (l l' : List Obs) : Prop := Extends (·.isClientCall = false) l l'

theorem silent_of_not_called (h : Extends (·.isCalled = false) l l') : Silent l l' := by
  obtain ⟨k, hk, hx⟩ := h
  refine ⟨k, hk, fun x hmem => ?_⟩
  have hcall := hx x hmem
  cases x with
  | called ev args err => cases hcall
  | _ => rfl

theorem silent_of_callsOnly (h : Extends (Obs.CallsOnly ev args) l l') (hev : ev ≠ some 0) :
    Silent l l' := by
  obtain ⟨k, hk, hx⟩ := h
  refine ⟨k, hk, fun x hmem => ?_⟩
  show x.isClientCall = false
  rw [Obs.isClientCall.eq_def]
  split
  · next a err => exact absurd (hx _ hmem 0 a err rfl).1 hev
  · rfl

theorem call_silent {i : Nat} {err : Int} (hi : i ≠ 0) :
    Obs.isClientCall (.called i args err) = false := by
  rw [Obs.isClientCall.eq_def]
  split
  · next heq =>
    cases heq
    exact absurd rfl hi
  · rfl

theorem Silent.called (h : Silent l l') (hc : Called l') : Called l := by
  obtain ⟨k, rfl, hx⟩ := h
  rw [Called, List.any_append, Bool.or_eq_true] at hc
  rcases hc with hc | hc
  · exact hc
  · obtain ⟨x, hmem, hcall⟩ := List.any_eq_true.mp hc
    exact absurd ((hx x hmem).symm.trans hcall) (by decide)

/-- At most one call, and that of `_connect` or of `_timedout`. -/
structure Once (l : List Obs) : Prop where
  once : l.countP Obs.isClientCall ≤ 1
  args : ∀ args err, .called 0 args err ∈ l → args = .connect

theorem Once.silent (h : Once l) (hs : Silent l l') : Once l' := by
  obtain ⟨k, rfl, hx⟩ := hs
  refine ⟨?_, fun args err hmem => ?_⟩
  · have hk : k.countP Obs.isClientCall = 0 :=
      List.countP_eq_zero.mpr fun x hmem => by simp [hx x hmem]
    rw [List.countP_append, hk]
    exact h.once
  · rcases List.mem_append.mp hmem with hmem | hmem
    · exact h.args args err hmem
    · cases hx _ hmem

/-- The first call. -/
theorem Once.call {err : Int} (h : Once l) (hnew : ¬ Called l) :
    Once (l ++ [.called 0 .connect err]) := by
  have hzero : l.countP Obs.isClientCall = 0 := by
    refine List.countP_eq_zero.mpr fun x hmem hcall => ?_
    exact hnew (List.any_eq_true.mpr ⟨x, hmem, hcall⟩)
  refine ⟨?_, fun args err' hmem => ?_⟩
  · rw [List.countP_append, hzero]
    exact Nat.le_refl 1
  · rcases List.mem_append.mp hmem with hmem | hmem
    · exact h.args args err' hmem
    · cases List.mem_singleton.mp hmem
      rfl

/-! ### The invariant -/

/-- A frame that waits for `connect`. -/
def Frame.isConnect : Frame → Bool
  | .connect _ _ => true
  | _ => false

/-- A frame in which neither the loop, nor `_connect`, nor `_write` waits. -/
def Frame.plain : Frame → Bool
  | .loop _ _ | .connect _ _ | .syswrite _ _ => false
  | _ => true

theorem plain_of_isConnect (h : f.isConnect = true) : f.plain = false ∧ f.isSyswrite = false := by
  cases f with
  | connect limit error => exact ⟨rfl, rfl⟩
  | _ => cases h

theorem plain_of_isSyswrite (h : f.isSyswrite = true) : f.plain = false := by
  cases f with
  | syswrite i offset => rfl
  | _ => cases h

structure ClientInv (s : Sys) : Prop where
  shape : WellFormed s
  first : s.v.Holds (fun ty => decide (ty = .connect)) 0
  only : ∀ i, s.v.Holds (fun ty => decide (ty = .connect)) i → i = 0
  once : Once s.v.trace
  /-- A connection that was connected is out of `$win`. -/
  quiet : Called s.v.trace → s.v.write = some 0 → s.v.win = false ∨ .timedout ∈ s.stack
  /-- The loop has taken the event after it was served: it will not serve it again. -/
  loop : Called s.v.trace → ∀ fno, .loop fno (some 0) ∈ s.stack →
    (s.v.win = true → s.v.wout = true) ∧ (s.v.write = some 0 → s.v.wout = false)
  other : ∀ fno i, .loop fno (some i) ∈ s.stack → i ≠ 0 → s.v.write ≠ some 0
  connect : ∀ f ∈ s.stack, f.isConnect = true →
    (Called s.v.trace → s.v.write ≠ some 0) ∧ ∀ fno wev, .loop fno wev ∉ s.stack
  writing : ∀ f ∈ s.stack, f.isSyswrite = true → s.v.write ≠ some 0

namespace ClientInv

/-- The event of `ngxe_client` does not come back to `CN_WRITE`. -/
theorem write_back {i : Input} (h : ClientInv s) (hs : Step s i s')
    (hw : s'.v.write = some 0) : s.v.write = some 0 := by
  rcases (step_sided hs).write 0 hw with hw | ⟨hle, _⟩
  · exact hw
  · have hlt := h.first.lt
    omega

/-- A new writer has an event of its own. -/
theorem fresh_ne (h : ClientInv s) : some s.v.events.length ≠ some 0 := by
  have hlt := h.first.lt
  intro he
  rw [Option.some.inj he] at hlt
  exact Nat.lt_irrefl 0 hlt

theorem first_step {i : Input} (h : ClientInv s) (hs : Step s i s') :
    s'.v.Holds (fun ty => decide (ty = .connect)) 0 := h.first.mono (step_sided hs).types

/-- No other event becomes one of type connect. -/
theorem only_step {i : Input} (h : ClientInv s) (hs : Step s i s') (j : Nat)
    (hj : s'.v.Holds (fun ty => decide (ty = .connect)) j) : j = 0 := by
  obtain ⟨k, hk, hcreated⟩ := (step_sided hs).types
  apply h.only
  rw [View.Holds, hk] at hj
  obtain ⟨ty, hty, hdec⟩ := (Option.any_eq_true _ _).mp hj
  by_cases hlt : j < (s.v.events.map Ev.type).length
  · rw [List.getElem?_append_left hlt] at hty
    rw [View.Holds, hty]
    exact hdec
  · rw [List.getElem?_append_right (Nat.not_lt.mp hlt)] at hty
    have hc := hcreated ty (List.mem_of_getElem? hty)
    rw [of_decide_eq_true hdec] at hc
    cases hc

theorem read_ne (h : ClientInv s) : s.v.read ≠ some 0 := by
  intro hr
  obtain ⟨e, he, hreads⟩ := (h.shape.events.read 0 hr).exists
  obtain ⟨e', he', hty⟩ := h.first.exists
  cases he.symm.trans he'
  rw [of_decide_eq_true hty] at hreads
  cases hreads

/-- While the event of `ngxe_client` is in `CN_WRITE` nothing puts the connection into `$win`. -/
theorem win_back {i : Input} (h : ClientInv s) (hG : ConnectServed s i) (hs : Step s i s')
    (hw : s'.v.write = some 0) (hwin : s.v.win = false) : s'.v.win = false := by
  cases writerBits_step h.shape.stack hs with
  | same hw' ho' => exact hw'.trans hwin
  | off hw' ho' => exact hw'
  | dims hw' ho' => exact hw'
  | select hstk hw' ho' => exact hw'.trans hwin
  | on hw' ho' hstart =>
    have hold := h.write_back hs hw
    rcases hstart with hstart | hnew
    · exact absurd ((hG hold).1.symm.trans hstart) (by decide)
    · exact absurd (hnew.symm.trans hw) h.fresh_ne

/-- A frame of the stack after a step in which the callback is not called. -/
inductive Known (s s' : Sys) (f : Frame) : Prop
  | old (h : f ∈ s.stack)
  | plain (h : f.plain = true)
  | writing (hf : f.isSyswrite = true) (hw : s'.v.write ≠ some 0)
  | connecting (hf : f.isConnect = true) (h : ∃ g ∈ s.stack, g.isConnect = true)

theorem Known.loop_old {fno : Nat} {wev : Option Nat} (h : Known s s' (.loop fno wev)) :
    .loop fno wev ∈ s.stack := by
  cases h with
  | old h => exact h
  | plain h => cases h
  | writing hf hw => cases hf
  | connecting hf h => cases hf

theorem quiet_step {i : Input} (h : ClientInv s) (hG : ConnectServed s i) (hs : Step s i s')
    (hc : Called s.v.trace) (hw : s'.v.write = some 0) :
    s'.v.win = false ∨ .timedout ∈ s'.stack := by
  rcases h.quiet hc (h.write_back hs hw) with hwin | hin
  · exact .inl (h.win_back hG hs hw hwin)
  · rcases error_step h.shape.stack hs hin rfl with hin | hclosed
    · exact .inr hin
    · have hshut := (wellFormed_step h.shape hs).shut hclosed
      cases hshut.write.symm.trans hw

/-- A step in which the callback is not called, and the loop does not come to the connection. -/
theorem silent_step {i : Input} (h : ClientInv s) (hG : ConnectServed s i) (hs : Step s i s')
    (ht : Silent s.v.trace s'.v.trace) (hknown : ∀ f ∈ s'.stack, Known s s' f) :
    ClientInv s' := by
  have hback := h.write_back hs
  refine ⟨wellFormed_step h.shape hs, h.first_step hs, h.only_step hs, h.once.silent ht,
    fun hc hw => h.quiet_step hG hs (ht.called hc) hw, fun hc fno hin => ?_,
    fun fno j hin hj hw => ?_, fun f hf hcon => ?_, fun f hf hsys hw => ?_⟩
  · have hin' := (hknown _ hin).loop_old
    obtain ⟨hbits, hout⟩ := h.loop (ht.called hc) fno hin'
    cases writerBits_step h.shape.stack hs with
    | same hw' ho' =>
      exact ⟨fun hw => ho'.trans (hbits (hw'.symm.trans hw)),
        fun hw => ho'.trans (hout (hback hw))⟩
    | off hw' ho' => exact ⟨fun hw => absurd (hw'.symm.trans hw) (by decide), fun _ => ho'⟩
    | dims hw' ho' =>
      exact ⟨fun hw => absurd (hw'.symm.trans hw) (by decide),
        fun hw => ho'.trans (hout (hback hw))⟩
    | select hstk hw' ho' =>
      rw [hstk] at hin'
      cases hin'
    | on hw' ho' hstart =>
      refine ⟨fun _ => ho', fun hw => ?_⟩
      rcases hstart with hstart | hnew
      · exact absurd ((hG (hback hw)).1.symm.trans hstart) (by decide)
      · exact absurd (hnew.symm.trans hw) h.fresh_ne
  · exact h.other fno j (hknown _ hin).loop_old hj (hback hw)
  · have hold : ∃ g ∈ s.stack, g.isConnect = true := by
      cases hknown f hf with
      | old h => exact ⟨f, h, hcon⟩
      | plain h => exact absurd (h.symm.trans (plain_of_isConnect hcon).1) (by decide)
      | writing hf' hw => exact absurd (hf'.symm.trans (plain_of_isConnect hcon).2) (by decide)
      | connecting hf' h => exact h
    obtain ⟨g, hg, hgc⟩ := hold
    obtain ⟨hcall, hloop⟩ := h.connect g hg hgc
    exact ⟨fun hc hw => hcall (ht.called hc) (hback hw),
      fun fno wev hin => hloop fno wev (hknown _ hin).loop_old⟩
  · cases hknown f hf with
    | old hold => exact h.writing f hold hsys (hback hw)
    | plain h => exact absurd (h.symm.trans (plain_of_isSyswrite hsys)) (by decide)
    | writing hf' hw' => exact hw' hw
    | connecting hf' h => exact absurd (hsys.symm.trans (plain_of_isConnect hf').2) (by decide)

/-- The step that calls the callback. -/
theorem call_step {i : Input} {err : Int} (h : ClientInv s) (hs : Step s i s')
    (hnew : ¬ Called s.v.trace) (ht : Silent s.v.trace l)
    (hl : s'.v.trace = l ++ [.called 0 .connect err])
    (hafter : s'.v.win = false ∨ .timedout ∈ s'.stack)
    (hstack : ∀ f ∈ s'.stack, f.plain = true) : ClientInv s' := by
  refine ⟨wellFormed_step h.shape hs, h.first_step hs, h.only_step hs, ?_, fun _ _ => hafter,
    fun _ fno hin => ?_, fun fno j hin => ?_, fun f hf hcon => ?_, fun f hf hsys => ?_⟩
  · rw [hl]
    exact (h.once.silent ht).call fun hc => hnew (ht.called hc)
  · cases hstack _ hin
  · cases hstack _ hin
  · exact absurd ((hstack f hf).symm.trans (plain_of_isConnect hcon).1) (by decide)
  · exact absurd ((hstack f hf).symm.trans (plain_of_isSyswrite hsys)) (by decide)

/-- Code of the reader. -/
theorem serves_known (h : Serves now ev args v o) (hargs : args = .read ∨ args = .accept)
    (hrest : ∀ g ∈ rest, g ∈ s.stack) : ∀ f ∈ o.2 ++ rest, Known s s' f := by
  intro f hf
  rcases List.mem_append.mp hf with hf | hf
  · have hserves := List.all_eq_true.mp h.frames f hf
    refine .plain ?_
    rcases hargs with rfl | rfl <;> cases f <;> first | rfl | cases hserves
  · exact .old (hrest f hf)

/-- `_write`, for a writer's event. -/
theorem write_known (h : Serves now ev .write v o) (hw : s'.v.write ≠ some 0)
    (hrest : ∀ g ∈ rest, g ∈ s.stack) : ∀ f ∈ o.2 ++ rest, Known s s' f := by
  intro f hf
  rcases List.mem_append.mp hf with hf | hf
  · have hserves := List.all_eq_true.mp h.frames f hf
    cases f with
    | syswrite i offset => exact .writing rfl hw
    | writeDone error => exact .plain rfl
    | crash => exact .plain rfl
    | _ => cases hserves
  · exact .old (hrest f hf)

/-- `_write` runs, for a writer's event. -/
theorem writes {i : Input} (h : ClientInv s) (hG : ConnectServed s i)
    (hs : Step s i (s.resume (_write s.now v) rest)) (ht : Silent s.v.trace v.trace)
    (hw : v.write ≠ some 0) (hrest : ∀ g ∈ rest, g ∈ s.stack) :
    ClientInv (s.resume (_write s.now v) rest) := by
  have ho : Serves s.now v.write .write v (_write s.now v) := write_serves rfl
  have hw' : (s.resume (_write s.now v) rest).v.write ≠ some 0 := by
    intro he
    exact hw (write_piece.sides.write.symm.trans he)
  exact h.silent_step hG hs (ht.trans (silent_of_callsOnly ho.calls hw)) (write_known ho hw' hrest)

theorem old_known {fs : List Frame} (hrest : ∀ g ∈ fs, g ∈ s.stack) :
    ∀ f ∈ fs, Known s s' f := fun f hf => .old (hrest f hf)

/-- `_timedout` for another event. -/
theorem timedout_silent {i : Nat} (hi : i ≠ 0) : Silent v.trace (_timedout v i).1.trace := by
  have hran : Silent v.trace (v.observe (.ran .timedout)).trace := .snoc rfl
  rw [_timedout]
  split
  · split
    · exact hran.trans (silent_of_not_called (close_calls _))
    · refine hran.trans (.snoc ?_)
      exact call_silent hi
  · exact hran

theorem timedout_plain {i : Nat} : ∀ f ∈ (_timedout v i).2, f.plain = true := by
  intro f hf
  rw [_timedout] at hf
  split at hf
  · split at hf
    · cases hf
    · cases List.mem_singleton.mp hf
      rfl
  · cases List.mem_singleton.mp hf
    rfl

/-- The loop takes the event of the writer. If it was served, the connection is in neither
    vector. -/
theorem taken_step {fno : Nat} (h : ClientInv s) (hG : ConnectServed s .dispatch)
    (hs : Step s .dispatch s') (hstk : s.stack = []) (ht : Silent s.v.trace s'.v.trace)
    (hframes : ∀ f ∈ s'.stack, f.plain = true ∨ f = .loop fno s.v.write)
    (hsides : SameSides s.v s'.v) : ClientInv s' := by
  refine ⟨wellFormed_step h.shape hs, h.first_step hs, h.only_step hs, h.once.silent ht,
    fun hc hw => h.quiet_step hG hs (ht.called hc) hw, fun hc fno' hin => ?_,
    fun fno' j hin hj hw => ?_, fun f hf hcon => ?_, fun f hf hsys => ?_⟩
  · rcases hframes _ hin with hp | hp
    · cases hp
    · injection hp with _ hw
      have hoff : s.v.win = false := by
        rcases h.quiet (ht.called hc) hw.symm with hoff | hin'
        · exact hoff
        · rw [hstk] at hin'
          cases hin'
      have hdark : s.v.wout = false := by
        by_contra hne
        have hon := (hG hw.symm).2 rfl (eq_true_of_ne_false hne)
        exact absurd (hoff.symm.trans hon) (by decide)
      exact ⟨fun hon => absurd ((hsides.win.trans hoff).symm.trans hon) (by decide),
        fun _ => hsides.wout.trans hdark⟩
  · rcases hframes _ hin with hp | hp
    · cases hp
    · injection hp with _ hj'
      exact hj (Option.some.inj (hj'.trans (h.write_back hs hw)))
  · rcases hframes f hf with hp | rfl
    · exact absurd (hp.symm.trans (plain_of_isConnect hcon).1) (by decide)
    · cases hcon
  · rcases hframes f hf with hp | rfl
    · exact absurd (hp.symm.trans (plain_of_isSyswrite hsys)) (by decide)
    · cases hsys

theorem serves_plain (h : Serves now ev args v o) (hargs : args = .read ∨ args = .accept)
    (hf : f ∈ o.2) : f.plain = true := by
  have hserves := List.all_eq_true.mp h.frames f hf
  rcases hargs with rfl | rfl <;> cases f <;> first | rfl | cases hserves

/-- The first half of the loop's body. -/
theorem first_half {fno : Nat} (h : ClientInv s) (hG : ConnectServed s .dispatch)
    (ho : FirstHalf s.now s.t fno s.v o) (hstk : s.stack = [])
    (hs : Step s .dispatch (s.resume o [])) : ClientInv (s.resume o []) := by
  have htaken : ∀ {args : EvType} {o' : Outcome}, Serves s.now s.v.read args s.v o' →
      (args = .read ∨ args = .accept) → SameSides s.v o'.1 →
      Step s .dispatch (s.resume (o'.1, o'.2 ++ [.loop fno s.v.write]) []) →
      ClientInv (s.resume (o'.1, o'.2 ++ [.loop fno s.v.write]) []) := by
    intro args o' hserves hargs hsides hs
    have hframes : ∀ f ∈ (s.resume (o'.1, o'.2 ++ [.loop fno s.v.write]) []).stack,
        f.plain = true ∨ f = .loop fno s.v.write := by
      intro f hf
      have hf' : f ∈ o'.2 ++ [.loop fno s.v.write] := by simpa [Sys.resume] using hf
      rcases List.mem_append.mp hf' with hf' | hf'
      · exact .inl (serves_plain hserves hargs hf')
      · exact .inr (List.mem_singleton.mp hf')
    exact h.taken_step hG hs hstk (silent_of_callsOnly hserves.calls h.read_ne) hframes hsides
  cases ho with
  | skip =>
    have hnone : Serves s.now s.v.read .read s.v (s.v, []) := .refl _ rfl
    exact htaken hnone (.inl rfl) (.refl _) hs
  | read => exact htaken (read_serves rfl) (.inl rfl) read_piece.sides hs
  | accept => exact htaken acceptLoop_serves (.inr rfl) acceptLoop_piece.sides hs
  | timedout i e hread he hrin hexp =>
    have hi : i ≠ 0 := fun hi => h.read_ne (hi ▸ hread)
    refine h.silent_step hG hs (timedout_silent hi) fun f hf => ?_
    have hf' : f ∈ (_timedout s.v i).2 := by simpa [Sys.resume] using hf
    exact .plain (timedout_plain f hf')

/-- The second half. -/
theorem second_half {fno : Nat} {wev : Option Nat} (h : ClientInv s) (hG : ConnectServed s .next)
    (ho : SecondHalf s.now s.t s.v s.v.win s.v.wout wev o) (hstk : s.stack = .loop fno wev :: [])
    (hs : Step s .next (s.resume o [])) : ClientInv (s.resume o []) := by
  have hin : .loop fno wev ∈ s.stack := hstk ▸ List.mem_cons_self
  have hnil : (s.resume o []).stack = o.2 := List.append_nil _
  cases ho with
  | skip => exact h.silent_step hG hs (.refl _) nofun
  | write i e hwev he hty hout =>
    subst hwev
    have hi : i ≠ 0 := by
      intro hi
      obtain ⟨e', he', hty'⟩ := h.first.exists
      cases (hi ▸ he).symm.trans he'
      exact absurd (hty.symm.trans (of_decide_eq_true hty')) (by decide)
    exact h.writes hG hs (.refl _) (h.other fno i hin hi) nofun
  | connect i e hwev he hty hout =>
    subst hwev
    have hi : i = 0 := h.only i (by
      rw [View.Holds, List.getElem?_map, he]
      simp [hty])
    subst hi
    have ht : Silent s.v.trace (s.resume (_connect s.v) []).v.trace := .snoc rfl
    have hcall : Called s.v.trace → s.v.write ≠ some 0 := by
      intro hc hw
      exact absurd (((h.loop hc fno hin).2 hw).symm.trans hout) (by decide)
    refine ⟨wellFormed_step h.shape hs, h.first_step hs, h.only_step hs, h.once.silent ht,
      fun hc hw => h.quiet_step hG hs (ht.called hc) hw, fun hc fno' hin' => ?_,
      fun fno' j hin' hj hw => ?_, fun f hf hcon => ?_, fun f hf hsys => ?_⟩
    · cases List.mem_singleton.mp hin'
    · cases List.mem_singleton.mp hin'
    · refine ⟨fun hc hw => hcall (ht.called hc) (h.write_back hs hw), fun fno' wev' hin' => ?_⟩
      cases List.mem_singleton.mp hin'
    · cases List.mem_singleton.mp hf
      cases hsys
  | timedout i e hwev he hwin hout hexp =>
    subst hwev
    by_cases hi : i = 0
    · subst hi
      obtain ⟨e', he', hty⟩ := h.first.exists
      cases he.symm.trans he'
      have hty := of_decide_eq_true hty
      have heq := timedout_eq he (by rw [hty]; decide)
      rw [hty] at heq
      have hnew : ¬ Called s.v.trace := by
        intro hc
        exact absurd (((h.loop hc fno hin).1 hwin).symm.trans hout) (by decide)
      have hran : Silent s.v.trace (s.v.observe (.ran .timedout)).trace := .snoc rfl
      have hcall : (_timedout s.v 0).1.trace =
          (s.v.observe (.ran .timedout)).trace ++ [.called 0 .connect (-1)] := by
        rw [heq]
        rfl
      refine h.call_step hs hnew hran hcall ?_ ?_
      · rw [hnil, heq]
        exact .inr List.mem_cons_self
      · rw [hnil]
        exact timedout_plain
    · refine h.silent_step hG hs (timedout_silent hi) fun f hf => ?_
      rw [hnil] at hf
      exact .plain (timedout_plain f hf)

theorem connecting {r : ConnectResult} (h : ClientInv s) (hG : ConnectServed s (.connect r))
    (ho : Connecting s.v o) (hstk : s.stack = f :: rest) (hf : f.isConnect = true)
    (hs : Step s (.connect r) (s.resume o rest)) : ClientInv (s.resume o rest) := by
  have hin : f ∈ s.stack := hstk ▸ List.mem_cons_self
  have hrest : ∀ g ∈ rest, g ∈ s.stack := fun g hg => hstk ▸ List.mem_cons_of_mem f hg
  cases ho with
  | waits => exact h.silent_step hG hs (.refl _) (old_known hrest)
  | again limit error =>
    refine h.silent_step hG hs (.refl _) fun g hg => ?_
    rcases List.mem_cons.mp hg with rfl | hg
    · exact .connecting rfl ⟨f, hin, hf⟩
    · exact .old (hrest g hg)
  | calls error =>
    obtain ⟨hcall, hloop⟩ := h.connect f hin hf
    have hplain : ∀ g ∈ rest, g.plain = true := by
      intro g hg
      have hbelow := h.shape.stack.below g (by rw [hstk]; exact hg)
      cases g with
      | loop fno wev => exact absurd (hrest _ hg) (hloop fno wev)
      | connect limit error => cases hbelow
      | syswrite i offset => cases hbelow
      | _ => rfl
    have hall : ∀ {top : Frame}, top.plain = true → ∀ g ∈ top :: rest, g.plain = true := by
      intro top htop g hg
      rcases List.mem_cons.mp hg with rfl | hg
      · exact htop
      · exact hplain g hg
    cases hw : s.v.write with
    | none =>
      rw [hw] at hs
      exact h.silent_step hG hs (.refl _) fun g hg => .plain (hall rfl g hg)
    | some j =>
      rw [hw] at hs
      by_cases hj : j = 0
      · subst hj
        exact h.call_step hs (fun hc => hcall hc hw) (.refl _) rfl (.inl rfl) (hall rfl)
      · refine h.silent_step hG hs (.snoc ?_) fun g hg => .plain (hall rfl g hg)
        exact call_silent hj

/-- A callback returns. -/
theorem resumes (h : ClientInv s) (hG : ConnectServed s .ret) (ho : Resumed s.now s.v f o)
    (hstk : s.stack = f :: rest) (hs : Step s .ret (s.resume o rest)) :
    ClientInv (s.resume o rest) := by
  have hrest : ∀ g ∈ rest, g ∈ s.stack := fun g hg => hstk ▸ List.mem_cons_of_mem f hg
  cases ho with
  | plain ht => exact h.silent_step hG hs (silent_of_not_called ht) (old_known hrest)
  | reader ho =>
    exact h.silent_step hG hs (silent_of_callsOnly ho.calls h.read_ne)
      (serves_known ho (.inl rfl) hrest)
  | accept ho =>
    exact h.silent_step hG hs (silent_of_callsOnly ho.calls h.read_ne)
      (serves_known ho (.inr rfl) hrest)
  | switch hf hopen hrout hw =>
    have hstart := switch_starts h.shape.stack hstk hf hopen hrout hw
    have hne : s.v.write ≠ some 0 := fun he => absurd ((hG he).1.symm.trans hstart) (by decide)
    exact h.writes hG hs (.refl _) hne hrest

/-- The program calls the engine. -/
theorem applies {op : Op} (h : ClientInv s) (hG : ConnectServed s (.op op))
    (ho : Applied s.now s.v op o) (hs : Step s (.op op) (s.resume o s.stack)) :
    ClientInv (s.resume o s.stack) := by
  cases ho with
  | plain ht =>
    exact h.silent_step hG hs (silent_of_not_called ht) (old_known fun _ hg => hg)
  | @writes v' ht hw hon =>
    have hne : v'.write ≠ some 0 := by
      rcases hw with ⟨hstart, hw⟩ | hw
      · intro he
        exact absurd ((hG (hw.symm.trans he)).1.symm.trans hstart) (by decide)
      · rw [hw]
        exact h.fresh_ne
    exact h.writes hG hs (silent_of_not_called ht) hne fun _ hg => hg

end ClientInv

theorem clientInv_step {i : Input} (h : ClientInv s) (hG : ConnectServed s i)
    (hs : Step s i s') : ClientInv s' := by
  cases hs with
  | tick n =>
    exact h.silent_step hG (.tick n) (.refl _) (ClientInv.old_known fun _ hg => hg)
  | select r w hstk =>
    exact h.silent_step hG (.select r w hstk) (.refl _) (ClientInv.old_known fun _ hg => hg)
  | dispatch hstk hopen => exact h.first_half hG (firstHalf_cases ..) hstk (.dispatch hstk hopen)
  | @next fno wev rest hstk =>
    obtain rfl : rest = [] := FloorOk.alone (hstk ▸ h.shape.floor) rfl
    exact h.second_half hG (secondHalf_cases ..) hstk (.next hstk)
  | @sysread size total rest r hstk hr =>
    have ho : Serves s.now s.v.read .read s.v (sysread s.now s.v size total r) :=
      sysread_serves rfl
    exact h.silent_step hG (.sysread r hstk hr) (silent_of_callsOnly ho.calls h.read_ne)
      (ClientInv.serves_known ho (.inl rfl) fun g hg => hstk ▸ List.mem_cons_of_mem _ hg)
  | @syswrite i offset rest r hstk hr =>
    have ho : Serves s.now s.v.write .write s.v (syswrite s.now s.v i offset r) :=
      syswrite_serves rfl
    have hs := Step.syswrite r hstk hr
    have hne := h.writing _ (hstk ▸ List.mem_cons_self) rfl
    exact h.silent_step hG hs (silent_of_callsOnly ho.calls hne)
      (ClientInv.write_known ho (fun he => hne (h.write_back hs he))
        fun g hg => hstk ▸ List.mem_cons_of_mem _ hg)
  | @accept rest ok hstk =>
    have ho : Serves s.now s.v.read .accept s.v (accept s.v ok) := accept_serves rfl
    exact h.silent_step hG (.accept ok hstk) (silent_of_callsOnly ho.calls h.read_ne)
      (ClientInv.serves_known ho (.inr rfl) fun g hg => hstk ▸ List.mem_cons_of_mem _ hg)
  | connect r hstk =>
    exact h.connecting hG (connect_cases ..) hstk rfl (.connect r hstk)
  | ret hstk ho => exact h.resumes hG (resumed_cases ho) hstk (.ret hstk ho)
  | enter hstk =>
    refine h.silent_step hG (.enter hstk) (.refl _) fun g hg => ?_
    cases List.mem_singleton.mp hg
    exact .plain rfl
  | leave hstk =>
    exact h.silent_step hG (.leave hstk) (.refl _)
      (ClientInv.old_known fun g hg => hstk ▸ List.mem_cons_of_mem _ hg)
  | op o hstk hf hopen => exact h.applies hG (applied_cases ..) (.op o hstk hf hopen)

theorem clientInv_initial (now t : Int) (fileno : Nat) (timeout : Int) :
    ClientInv ⟨(ngxeClient now fileno timeout).1, now, t,
      (ngxeClient now fileno timeout).2 ++ [.outside]⟩ := by
  have hnone : ¬ Called (ngxeClient now fileno timeout).1.trace := nofun
  refine ⟨wellFormed_initial (.client now t fileno timeout), rfl, fun i hi => ?_,
    ⟨Nat.zero_le 1, fun args err hmem => ?_⟩, fun hc => absurd hc hnone, fun hc => absurd hc hnone,
    fun fno i hin => ?_, fun f hf hcon => ⟨fun hc => absurd hc hnone, fun fno wev hin => ?_⟩,
    fun f hf hsys => ?_⟩
  · exact Nat.lt_one_iff.mp hi.lt
  · cases List.mem_singleton.mp hmem
  · simp [ngxeClient, _connect, connectLoop] at hin
  · simp [ngxeClient, _connect, connectLoop] at hin
  · simp [ngxeClient, _connect, connectLoop] at hf
    rcases hf with rfl | rfl <;> cases hsys

/-! ### Every run -/

/-- As long as the event of `ngxe_client` is not served as a writer's, its callback is called
    once at most, and with the arguments of `_connect` or `_timedout`. -/
theorem client_called_once (h : ClientReachable ConnectServed s) : CalledOnce s.v.trace := by
  obtain ⟨now, t, fileno, timeout, hr⟩ := h
  have hinv : ClientInv s := hr.invariant (clientInv_initial now t fileno timeout)
    fun s i s' hi hG hs => clientInv_step hi hG (step_cases hs)
  refine ⟨hinv.once.once, fun args err hmem => ?_⟩
  rw [hinv.once.args args err hmem]
  decide

/-- A client that creates a writer before its reader answers. -/
theorem client_called_once_answered : ∃ s, ClientReachable ConnectServed s ∧
    CalledOnce s.v.trace ∧ s.v.trace.filter Obs.isCalled =
      [.called 0 .connect 0, .called 1 .read 0, .called 2 .write 0] := by
  obtain ⟨s, hr, hs⟩ := Machine.Reaches.of_run_map (M := engine) (G := ConnectServed)
    (s := ⟨(ngxeClient 100 3 0).1, 100, 100, (ngxeClient 100 3 0).2 ++ [.outside]⟩)
    (fun s => s.v.trace.filter Obs.isCalled)
    [.connect .again, .leave, .select false true, .dispatch, .next, .connect .isconn,
      .op (.reader true 0), .op (.writer false 0 (.str [])), .ret, .select true false, .dispatch,
      .sysread (.data [97]), .sysread .again, .op (.setWriteBuffer (.str [98])), .ret,
      .syswrite (.accepted 1)]
    (show _ = some [.called 0 .connect 0, .called 1 .read 0, .called 2 .write 0] by decide +kernel)
  have hreach : ClientReachable ConnectServed s := ⟨100, 100, 3, 0, hr⟩
  exact ⟨s, hreach, client_called_once hreach, hs⟩

/-- A client that has a reader only: what its reader answers with is written, and the callback
    given to `ngxe_client` is told so. -/
theorem client_called_as_writer :
    ¬ ∀ s, ClientReachable Machine.always s → CalledOnce s.v.trace := by
  intro h
  obtain ⟨s, hr, hs⟩ := Machine.Reaches.of_run_map (M := engine) (G := Machine.always)
    (s := ⟨(ngxeClient 100 3 0).1, 100, 100, (ngxeClient 100 3 0).2 ++ [.outside]⟩)
    (fun s => s.v.trace.filter Obs.isCalled)
    [.connect .again, .leave, .select false true, .dispatch, .next, .connect .isconn,
      .op (.reader true 0), .ret, .select true false, .dispatch,
      .sysread (.data [97]), .sysread .again, .op (.setWriteBuffer (.str [98])), .ret,
      .syswrite (.accepted 1)]
    (show _ = some [.called 0 .connect 0, .called 1 .read 0, .called 0 .write 0] by decide +kernel)
  have hmem : Obs.called 0 .write 0 ∈ s.v.trace.filter Obs.isCalled := by
    rw [hs]
    decide
  exact (h s ⟨100, 100, 3, 0, hr⟩).args .write 0 (List.mem_filter.mp hmem).1 rfl

end NginxEngine.PP
