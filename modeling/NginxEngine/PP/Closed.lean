import NginxEngine.PP.Projection

/-!
# Nothing is done for a closed connection

`ngxe_loop` takes `$c` and `$wev` before it runs a handler and tests the bits at `$fno` again
after it. The handler's callback may have closed the connection, and what is open under the
number then is another's. `_accept` goes on to its next `accept` after a callback that may have
closed the listening connection.

## Main definitions

- `Process.Rests` — no handler was run and no callback called for a closed connection
- `Process.NotReused` — the number of a closed connection is nobody's when the loop comes to its
  second test, and the listening connection outlives the accept callback

## Main results

- `closed_rests` — the condition under which every run leaves closed connections alone
- `closed_written` — a reader callback closes its connection and opens another
-/

namespace NginxEngine.PP

open NginxEngine.XS (Sv)

variable {v : View} {o : Outcome} {p p' : Process} {k j : Nat} {fno : Nat} {f : Frame}
  {rest : List PFrame} {i : PInput} {l l' : List Obs}

/-- A handler was run, or a callback called. -/
def Obs.acts : Obs → Bool
  | .called _ _ _ | .ran _ => true
  | _ => false

/-- Nothing is done for the connection once it is closed. -/
def NoneAfterClose : List Obs → Prop :=
  Everywhere fun before x => x.acts = true → .closed ∉ before

/-- `CN_CLOSED` tells whether the connection was closed, and nothing was done after that. -/
structure Conn.Rests (c : Conn) : Prop where
  closed : c.closed = true ↔ .closed ∈ c.trace
  quiet : NoneAfterClose c.trace

def Process.Rests (p : Process) : Prop := ∀ k, k < p.made → (p.conns k).Rests

/-- No open connection has the number of a closed one when `ngxe_loop` comes to its second test
    for that one; and an accept callback returns while the listening connection is open. -/
def Process.NotReused (p : Process) (i : PInput) : Prop :=
  match i, p.stack with
  | .next, .conn k (.loop fno _) :: _ => (p.conns k).closed = true → p.fdset fno = none
  | .ret, .conn k .accepted :: _ => (p.conns k).closed = false
  | _, _ => True

instance : Decidable (p.NotReused i) := by
  unfold Process.NotReused
  split <;> infer_instance

theorem not_mem_closed_of_extends (h : Extends (· ≠ .closed) l l') (hl : Obs.closed ∉ l) :
    Obs.closed ∉ l' :=
  h.invariant (Q := fun l => Obs.closed ∉ l) hl fun l x hl hx => by simp [hl, Ne.symm hx]

theorem noneAfterClose_of_not_mem (h : Obs.closed ∉ l) : NoneAfterClose l := by
  rintro before x after rfl _ hmem
  exact h (List.mem_append_left _ hmem)

/-- A piece of code of an open connection. -/
theorem Conn.Rests.effect (h : v.toConn.Rests) (hopen : v.closed = false) (he : Effect v o) :
    o.1.toConn.Rests := by
  have hl : Obs.closed ∉ v.trace := fun hmem => by
    have hclosed := h.closed.mpr hmem
    exact absurd (hopen.symm.trans hclosed) (by decide)
  cases he with
  | stays _ hc _ ht =>
    have hl' := not_mem_closed_of_extends ht hl
    exact ⟨by simp [hc, hl'], noneAfterClose_of_not_mem hl'⟩
  | closes _ hc _ _ _ _ _ l hext ht =>
    have hl' := not_mem_closed_of_extends hext hl
    refine ⟨by simp [hc, ht], ?_⟩
    rw [ht]
    exact (noneAfterClose_of_not_mem hl').append nofun
  | same hclosed => exact absurd (hopen.symm.trans hclosed) (by decide)

/-- A frame that waits for a system call is on top, and its connection is open. -/
structure ClosedInv (p : Process) : Prop where
  sets : Sets p
  shape : Shape p
  rests : p.Rests
  top : ∀ k f rest, p.stack = .conn k f :: rest → f.resumes = false → (p.conns k).closed = false

/-- The frame below another is Perl code or the body of the loop. -/
theorem resumes_of_under {x : PFrame} (h : Under x (.conn k f)) : f.resumes = true := by
  rcases h with hperl | ⟨_, _, _, _, _, he⟩
  · exact resumes_of_isPerl hperl
  · cases he
    rfl

namespace ClosedInv

theorem finish (h : ClosedInv p) (hsets : Sets (p.finish k o rest))
    (hshape : Shape (p.finish k o rest)) (he : Effect (p.view k) o) (hidle : Idle (p.view k) o)
    (hbelow : ∀ j f rest', rest = .conn j f :: rest' → f.resumes = true) :
    ClosedInv (p.finish k o rest) := by
  refine ⟨hsets, hshape, fun j hj => ?_, fun j f rest' hstk hf => ?_⟩
  · by_cases hjk : j = k
    · subst hjk
      rw [Process.conns_finish_self]
      cases hc : (p.conns j).closed with
      | true =>
        rw [hidle hc]
        exact h.rests j hj
      | false => exact (h.rests j hj).effect hc he
    · rw [Process.conns_finish_ne hjk]
      exact h.rests j hj
  · -- what is left on top is a new frame of the connection, or what lay below
    have happ : o.2.map (PFrame.conn k) ++ rest = .conn j f :: rest' := hstk
    cases hfs : o.2 with
    | nil =>
      rw [hfs] at happ
      exact absurd (hf.symm.trans (hbelow j f rest' happ)) (by decide)
    | cons g gs =>
      rw [hfs] at happ
      cases happ
      rw [Process.conns_finish_self]
      cases he with
      | stays _ hc => exact hc
      | closes _ _ _ _ _ _ hnil => cases hfs.symm.trans hnil
      | same hclosed =>
        rw [hidle hclosed] at hfs
        cases hfs

/-- A change of bits or of the clock. -/
theorem update (h : ClosedInv p) (hsets : Sets p') (hshape : Shape p')
    (hconns : p'.conns = p.conns) (hmade : p'.made = p.made) (hstk : p'.stack = p.stack) :
    ClosedInv p' := by
  refine ⟨hsets, hshape, fun k hk => ?_, fun k f rest hs hf => ?_⟩
  · rw [hconns]
    exact h.rests k (hmade ▸ hk)
  · rw [hconns]
    exact h.top k f rest (hstk ▸ hs) hf

theorem add {c : Conn} (h : ClosedInv p) (hfree : p.taken fno = false) (hopen : c.closed = false)
    (hf : c.fileno = some fno) (ht : c.trace = []) : ClosedInv (p.add c fno) := by
  refine ⟨h.sets.add hfree hopen hf, h.shape.add h.sets c fno, fun k hk => ?_,
    fun k f rest hs hfr => ?_⟩
  · by_cases hkm : k = p.made
    · subst hkm
      have hself : (p.add c fno).conns p.made = c := Function.update_self _ _ _
      rw [hself]
      exact ⟨by simp [hopen, ht], by rw [ht]; exact everywhere_nil⟩
    · have hlt : k < p.made := Nat.lt_of_le_of_ne (Nat.le_of_lt_succ hk) hkm
      rw [conns_add_ne hlt]
      exact h.rests k hlt
  · have hlt : k < p.made := h.sets.lt_of_stack hs
    rw [conns_add_ne hlt]
    exact h.top k f rest hs hfr

/-- What lies below a frame waits for no system call. -/
theorem below (h : ClosedInv p) {x : PFrame} (hstk : p.stack = x :: rest) :
    ∀ j f rest', rest = .conn j f :: rest' → f.resumes = true := by
  rintro j f rest' rfl
  have hchain := h.shape.chain
  rw [hstk] at hchain
  exact resumes_of_under (List.isChain_cons_cons.mp hchain).1

end ClosedInv

/-- Perl code on top waits for no system call. -/
theorem resumes_of_inPerl (hperl : p.inPerl = true) :
    ∀ j f rest, p.stack = .conn j f :: rest → f.resumes = true := by
  intro j f rest hstk
  rw [Process.inPerl, hstk] at hperl
  exact resumes_of_isPerl hperl

theorem closedInv_step (h : ClosedInv p) (hG : p.NotReused i) (hstep : PStep p i p') :
    ClosedInv p' := by
  have hsets := sets_step h.sets hstep
  have hshape := shape_step h.sets h.shape hstep
  cases hstep with
  | tick n => exact h.update hsets hshape rfl rfl rfl
  | select r w hstk => exact h.update hsets hshape rfl rfl rfl
  | dispatch fno hstk hk =>
    exact h.finish hsets hshape dispatch_effect (idle_of_open (h.sets.entry fno _ hk).2.1) nofun
  | @next k fno wev rest hstk =>
    refine h.finish hsets hshape dispatchWrite_effect (fun hclosed => ?_) (h.below hstk)
    simp only [Process.NotReused, hstk] at hG
    have hd := h.sets.bits fno (hG hclosed)
    rw [hd.win, hd.wout]
    exact dispatchWrite_idle
  | sysread r hstk hr =>
    exact h.finish hsets hshape (.of_sides sysread_piece.sides)
      (idle_of_open (h.top _ _ _ hstk rfl)) (h.below hstk)
  | syswrite r hstk hr =>
    exact h.finish hsets hshape (.of_sides syswrite_piece.sides)
      (idle_of_open (h.top _ _ _ hstk rfl)) (h.below hstk)
  | refuse hstk =>
    exact h.finish hsets hshape (.of_sides accept_piece.sides)
      (idle_of_open (h.top _ _ _ hstk rfl)) (h.below hstk)
  | @accept k rest fno hstk hfree =>
    have hk := h.sets.lt_of_stack hstk
    have hview := Process.view_add (c := (View.accepted fno).toConn) (f := fno) (Nat.ne_of_lt hk)
    have hopen : (p.view k).closed = false := h.top _ _ _ hstk rfl
    refine (h.add (c := (View.accepted fno).toConn) hfree rfl rfl rfl).finish hsets hshape ?_ ?_
      (h.below hstk)
    · rw [hview]
      exact .of_sides accept_piece.sides
    · rw [hview]
      exact idle_of_open hopen
  | connectClosed r hstk hclosed =>
    have hopen := h.top _ _ _ hstk rfl
    exact absurd (hopen.symm.trans hclosed) (by decide)
  | connect r hstk hopen =>
    exact h.finish hsets hshape (connect_effect hopen) (idle_of_open hopen) (h.below hstk)
  | @ret k f rest o hstk ho =>
    refine h.finish hsets hshape (afterCallback_effect ho) ?_ (h.below hstk)
    by_cases hf : f = .accepted
    · subst hf
      simp only [Process.NotReused, hstk] at hG
      exact idle_of_open hG
    · exact afterCallback_idle ho hf
  | enter hstk => exact ⟨hsets, hshape, h.rests, nofun⟩
  | leave hstk =>
    refine ⟨hsets, hshape, h.rests, fun k f rest hs hf => ?_⟩
    exact absurd (hf.symm.trans (h.below hstk k f rest hs)) (by decide)
  | op o hperl hk hopen =>
    exact h.finish hsets hshape (applyOp_effect hopen) (applyOp_idle hopen)
      (resumes_of_inPerl hperl)
  | server fno hperl hfree =>
    exact (h.add (c := (View.server fno).toConn) hfree rfl rfl rfl).update hsets hshape rfl rfl rfl
  | client fno timeout hperl hfree =>
    have hadd := h.add (c := (View.client p.now fno timeout).toConn) hfree rfl rfl rfl
    have hadd' : ClosedInv (p.addClient fno timeout) :=
      hadd.update (h.sets.addClient hfree timeout)
        (hadd.shape.update rfl h.shape.chain fun _ _ => id) rfl rfl rfl
    have hopen : ((p.addClient fno timeout).view p.made).closed = false := by
      rw [h.sets.view_made_client hfree timeout]
      rfl
    exact hadd'.finish hsets hshape (.of_sides startConnect_piece.sides) (idle_of_open hopen)
      (resumes_of_inPerl hperl)

theorem closedInv_init (now t : Int) : ClosedInv (.init now t) :=
  ⟨sets_init now t, shape_init now t, nofun, nofun⟩

/-- **Closed connections are left alone** in a run of which each step meets the condition: no
    handler is run and no callback called for one. -/
theorem closed_rests (p : Process) (h : p.Reachable Process.NotReused) : p.Rests :=
  (h.invariant closedInv_init fun _ _ _ hp hG hstep => closedInv_step hp hG hstep).rests

/-- A reader callback closes its connection, and the loop has its second test behind it. -/
theorem closed_rests_reader : ∃ p : Process, p.Reachable Process.NotReused ∧ p.Rests ∧
    p.stack = [] ∧ (p.conns 1).closed = true := by
  obtain ⟨p, hr, hp⟩ := Machine.Reaches.of_run_map (M := process) (G := Process.NotReused)
    (s := .init 5 5) (fun p => (p.stack, (p.conns 1).closed))
    [.server 3, .leave, .select (fun _ => true) fun _ => true, .dispatch 3, .accept (some 4),
      .op 1 (.writer false 0 (.str [])), .op 1 (.reader true 0), .ret, .accept none, .next,
      .select (fun _ => true) fun _ => true, .dispatch 4, .sysread (.data [97]), .sysread .again,
      .op 1 .close, .ret, .next]
    (show _ = some ([], true) by decide +kernel)
  have hreach : p.Reachable Process.NotReused := ⟨5, 5, hr⟩
  simp only [Prod.mk.injEq] at hp
  exact ⟨p, hreach, closed_rests p hreach, hp⟩

/-- A reader callback closes its connection and opens another, which gets the same number. The
    second test of the loop finds the bit in `$wout` that `ngxe_client` has set and runs `_write`
    for the closed connection. -/
theorem closed_written : ¬ ∀ p : Process, p.Reachable Machine.always → p.Rests := by
  intro hall
  obtain ⟨p, hr, hp⟩ := Machine.Reaches.of_run_map (M := process) (G := Machine.always)
    (s := .init 5 5) (fun p => (decide (1 < p.made), (p.conns 1).trace))
    [.server 3, .leave, .select (fun _ => true) fun _ => true, .dispatch 3, .accept (some 4),
      .op 1 (.writer false 0 (.str [])), .op 1 (.reader true 0), .ret, .accept none, .next,
      .select (fun _ => true) fun _ => true, .dispatch 4, .sysread (.data [97]), .sysread .again,
      .op 1 .close, .client 4 0, .connect .again, .ret, .next]
    (show _ = some (true, [.loaded (.str []), .ran .read, .received [97], .called 1 .read 0,
      .closed, .ran .write]) by decide +kernel)
  simp only [Prod.mk.injEq, decide_eq_true_eq] at hp
  obtain ⟨hmade, htrace⟩ := hp
  have hquiet := (hall p ⟨5, 5, hr⟩ 1 hmade).quiet
  rw [htrace] at hquiet
  exact hquiet [.loaded (.str []), .ran .read, .received [97], .called 1 .read 0, .closed]
    (.ran .write) [] rfl rfl (by decide)

end NginxEngine.PP
