import Mathlib.Data.List.Chain
import NginxEngine.PP.SelectSets

/-!
# A connection of a process runs like a connection

What a process does is, to one of its open connections, a run of the machine of one
connection: the pieces of code of that connection are its steps, and the code of all others is
Perl code that no handler of its own has called. So what is known of the runs of one connection
holds of every open connection of a process.

## Main definitions

- `frames`, `Process.project` — a process as one of its connections sees it
- `Process.localInput` — a step of the process as that connection sees it
- `Lifts` — a condition on the steps of a process that meets one on the steps of a connection
- `Shape` — the frames of the connections on the shared stack

## Main results

- `simulates` — a step of a process is a step of each connection, or nothing to it
- `reachable_project` — a run of a process is a run of each connection that is open
-/

namespace NginxEngine.PP

variable {v : View} {o : Outcome} {p p' : Process} {k j : Nat} {fno : Nat} {f : Frame}
  {fs : List Frame} {x : PFrame} {rest : List PFrame} {i : PInput}

/-- The frames of the connection `k`. What lies at the bottom of the stack and is not its own
    is Perl code that no handler of its own has called. -/
def frames (k : Nat) : List PFrame → List Frame
  | [] => []
  | .conn j f :: rest =>
    if j = k then f :: frames k rest else if rest = [] then [.outside] else frames k rest
  | .outside :: rest => if rest = [] then [.outside] else frames k rest

/-- A process as its connection `k` sees it. -/
def Process.project (p : Process) (k : Nat) : Sys := ⟨p.view k, p.now, p.t, frames k p.stack⟩

/-- The input for the connection whose frame is on top. -/
def PInput.own : PInput → Option Input
  | .next => some .next
  | .sysread r => some (.sysread r)
  | .syswrite r => some (.syswrite r)
  | .accept fno => some (.accept fno.isSome)
  | .connect r => some (.connect r)
  | .ret => some .ret
  | _ => none

/-- A step, as a connection sees it that has no part in it. -/
def Process.turn (p p' : Process) : Option Input :=
  if p.stack = [] then if p'.stack = [] then none else some .enter
  else if p'.stack = [] then some .leave else none

/-- The step to `p'`, as the connection `k` sees it. -/
def Process.localInput (p : Process) (k : Nat) (i : PInput) (p' : Process) : Option Input :=
  match i, p.stack with
  | .tick n, _ => some (.tick n)
  | .select r w, _ => some (.select (r (p.fileno k)) (w (p.fileno k)))
  | .dispatch fno, _ => if p.fdset fno = some k then some .dispatch else p.turn p'
  | .op j o, _ => if j = k then some (.op o) else none
  | i, .conn j _ :: _ => if j = k then i.own else p.turn p'
  | _, _ => p.turn p'

/-- The connection `k` makes the step, or does nothing. -/
def Simulates (p p' : Process) (k : Nat) : Option Input → Prop
  | some i => step (p.project k) i = some (p'.project k)
  | none => p'.project k = p.project k

/-- Steps that meet `G'` are steps that meet `G` to every open connection. -/
def Lifts (G' : Process → PInput → Prop) (G : Sys → Input → Prop) : Prop :=
  ∀ p i p' k j, G' p i → p.step i = some p' → (p.conns k).closed = false →
    p.localInput k i p' = some j → G (p.project k) j

theorem frames_own : frames k (fs.map (.conn k) ++ rest) = fs ++ frames k rest := by
  induction fs with
  | nil => rfl
  | cons f fs ih => simpa [frames] using ih

/-- A frame that is not the connection's own. -/
def PFrame.foreign (k : Nat) : PFrame → Bool
  | .conn j _ => decide (j ≠ k)
  | .outside => true

theorem exists_own (h : ¬ x.foreign k = true) : ∃ f, x = .conn k f := by
  cases x with
  | conn j f =>
    obtain rfl : j = k := by simpa [PFrame.foreign] using h
    exact ⟨f, rfl⟩
  | outside => exact absurd rfl h

theorem foreign_conn (hj : j ≠ k) : (PFrame.conn j f).foreign k = true := decide_eq_true hj

theorem frames_foreign (hx : x.foreign k = true) :
    frames k (x :: rest) = if rest = [] then [.outside] else frames k rest := by
  cases x with
  | conn j f =>
    have hj : j ≠ k := of_decide_eq_true hx
    simp [frames, hj]
  | outside => rfl

theorem frames_other (hj : j ≠ k) (hrest : rest ≠ []) :
    frames k (fs.map (.conn j) ++ rest) = frames k rest := by
  induction fs with
  | nil => rfl
  | cons f fs ih =>
    have hne : fs.map (PFrame.conn j) ++ rest ≠ [] := by simp [hrest]
    rw [List.map_cons, List.cons_append, frames_foreign (foreign_conn hj), if_neg hne]
    exact ih

/-- No frame of the connection is on the stack. -/
theorem frames_eq_outside (hown : ∀ x ∈ rest, x.foreign k = true) (hne : rest ≠ []) :
    frames k rest = [.outside] := by
  induction rest with
  | nil => exact absurd rfl hne
  | cons x rest ih =>
    rw [frames_foreign (hown x List.mem_cons_self)]
    split
    · rfl
    · next hrest => exact ih (fun y hy => hown y (List.mem_cons_of_mem x hy)) hrest

theorem foreign_map (hj : j ≠ k) : ∀ x ∈ fs.map (PFrame.conn j), x.foreign k = true := by
  intro x hx
  obtain ⟨f, _, rfl⟩ := List.mem_map.mp hx
  exact foreign_conn hj

/-- What the code of another connection does to the stack. -/
theorem frames_turn (hx : x.foreign k = true) (hj : j ≠ k)
    (hne : fs.map (PFrame.conn j) ++ rest ≠ []) :
    frames k (fs.map (.conn j) ++ rest) = frames k (x :: rest) := by
  rw [frames_foreign hx]
  split
  · next hrest =>
    subst hrest
    rw [List.append_nil] at hne ⊢
    exact frames_eq_outside (foreign_map hj) hne
  · next hrest => exact frames_other hj hrest

/-! ### The shared stack -/

/-- Perl code of the program. -/
def PFrame.isPerl : PFrame → Bool
  | .conn _ f => f.isPerl
  | .outside => true

/-- `y` may lie directly below `x`: it is Perl code, or the body of the loop that has called a
    handler of the same connection. -/
def Under (x y : PFrame) : Prop :=
  y.isPerl = true ∨ ∃ k f fno wev, x = .conn k f ∧ y = .conn k (.loop fno wev)

/-- The stack, and the numbers the body of the loop was given. -/
structure Shape (p : Process) : Prop where
  chain : p.stack.IsChain Under
  numbers : ∀ k fno wev, .conn k (.loop fno wev) ∈ p.stack → (p.conns k).closed = false →
    (p.conns k).fileno = some fno

theorem isPerl_of_inPerl (h : p.inPerl = true) : ∃ x rest, p.stack = x :: rest ∧
    x.isPerl = true := by
  rw [Process.inPerl] at h
  split at h
  · next hstk => exact ⟨_, _, hstk, rfl⟩
  · next hstk => exact ⟨_, _, hstk, h⟩
  · cases h

/-- Where Perl code runs, or code of another connection, a connection sees Perl code. -/
theorem frames_isPerl (hchain : (x :: rest).IsChain Under)
    (hx : x.isPerl = true ∨ x.foreign k = true) :
    ∃ f fs, frames k (x :: rest) = f :: fs ∧ f.isPerl = true := by
  induction rest generalizing x with
  | nil =>
    by_cases hfor : x.foreign k = true
    · exact ⟨.outside, [], frames_foreign hfor, rfl⟩
    · obtain ⟨f, rfl⟩ := exists_own hfor
      exact ⟨f, [], by simp [frames], hx.resolve_right hfor⟩
  | cons y rest ih =>
    obtain ⟨hxy, hrest⟩ := List.isChain_cons_cons.mp hchain
    by_cases hfor : x.foreign k = true
    · rw [frames_foreign hfor, if_neg (List.cons_ne_nil y rest)]
      rcases hxy with hy | ⟨j, f, fno, wev, rfl, rfl⟩
      · exact ih hrest (.inl hy)
      · exact ih hrest (.inr hfor)
    · obtain ⟨f, rfl⟩ := exists_own hfor
      exact ⟨f, frames k (y :: rest), by simp [frames], hx.resolve_right hfor⟩

/-- The frames of the code that a frame waited for, in its place. -/
theorem chain_resume (h : (PFrame.conn k f :: rest).IsChain Under) (hfs : FramesOk fs) :
    (fs.map (PFrame.conn k) ++ rest).IsChain Under := by
  match fs, hfs with
  | [], _ => exact h.tail
  | [g], _ =>
    cases rest with
    | nil => exact .singleton _
    | cons y rest =>
      obtain ⟨hxy, hrest⟩ := List.isChain_cons_cons.mp h
      refine List.isChain_cons_cons.mpr ⟨?_, hrest⟩
      rcases hxy with hy | ⟨j, g', fno, wev, he, rfl⟩
      · exact .inl hy
      · cases he
        exact .inr ⟨_, _, _, _, rfl, rfl⟩

/-- The frames of code that Perl code has called. -/
theorem chain_push (h : (x :: rest).IsChain Under) (hx : x.isPerl = true) (hfs : FramesOk fs) :
    (fs.map (PFrame.conn k) ++ x :: rest).IsChain Under := by
  match fs, hfs with
  | [], _ => exact h
  | [g], _ => exact List.isChain_cons_cons.mpr ⟨.inl hx, h⟩

theorem not_loop_of_framesOk (hfs : FramesOk fs) {wev : Option Nat} : .loop fno wev ∉ fs := by
  match fs, hfs with
  | [], _ => exact List.not_mem_nil
  | [g], hg =>
    rw [List.mem_singleton]
    rintro rfl
    cases hg

theorem dispatch_chain {now t : Int} :
    ((dispatch now t fno v).2.map (PFrame.conn k)).IsChain Under := by
  rcases (dispatch_cases now t fno v).frames with hf | ⟨fs, hf, he⟩
  · match (dispatch now t fno v).2, hf with
    | [], _ => exact .nil
    | [g], _ => exact .singleton _
  · rw [he]
    match fs, hf with
    | [], _ => exact .singleton _
    | [g], _ =>
      exact List.isChain_cons_cons.mpr ⟨.inr ⟨_, _, _, _, rfl, rfl⟩, .singleton _⟩

theorem dispatch_loop {now t : Int} {fno' : Nat} {wev : Option Nat}
    (h : .loop fno' wev ∈ (dispatch now t fno v).2) : fno' = fno := by
  rcases (dispatch_cases now t fno v).frames with hf | ⟨fs, hf, he⟩
  · exact absurd h (not_loop_of_framesOk hf)
  · rw [he] at h
    rcases List.mem_append.mp h with h | h
    · exact absurd h (not_loop_of_framesOk hf)
    · cases List.mem_singleton.mp h
      rfl

/-- A connection that is open after a piece of code was open before, under the same number. -/
theorem Effect.open_before (he : Effect (p.view k) o)
    (hopen : ((p.finish k o rest).conns j).closed = false) :
    (p.conns j).closed = false ∧ ((p.finish k o rest).conns j).fileno = (p.conns j).fileno := by
  by_cases hj : j = k
  · subst hj
    rw [Process.conns_finish_self] at hopen ⊢
    cases he with
    | stays hbefore hc hf => exact ⟨hbefore, hf⟩
    | closes hbefore hc => exact absurd (hc.symm.trans hopen) (by decide)
    | same hclosed hs =>
      exact absurd ((hs.closed.trans hclosed).symm.trans hopen) (by decide)
  · rw [Process.conns_finish_ne hj] at hopen ⊢
    exact ⟨hopen, rfl⟩

namespace Shape

theorem finish (h : Shape p) (he : Effect (p.view k) o)
    (hchain : (p.finish k o rest).stack.IsChain Under) (hrest : ∀ x ∈ rest, x ∈ p.stack)
    (hloop : ∀ fno wev, .loop fno wev ∈ o.2 → (p.conns k).fileno = some fno) :
    Shape (p.finish k o rest) := by
  refine ⟨hchain, fun j fno wev hmem hopen => ?_⟩
  obtain ⟨hbefore, hfile⟩ := he.open_before hopen
  rw [hfile]
  rcases List.mem_append.mp hmem with hmem | hmem
  · obtain ⟨g, hg, he⟩ := List.mem_map.mp hmem
    cases he
    exact hloop fno wev hg
  · exact h.numbers j fno wev (hrest _ hmem) hbefore

/-- The code that a frame waited for. -/
theorem resume (h : Shape p) (hstk : p.stack = .conn k f :: rest) (he : Effect (p.view k) o)
    (hfs : FramesOk o.2) : Shape (p.finish k o rest) := by
  refine h.finish he ?_ (Process.mem_rest hstk) fun fno wev hmem =>
    absurd hmem (not_loop_of_framesOk hfs)
  exact chain_resume (hstk ▸ h.chain) hfs

/-- The code that Perl code has called. -/
theorem push (h : Shape p) (hperl : p.inPerl = true) (he : Effect (p.view k) o)
    (hfs : FramesOk o.2) : Shape (p.finish k o p.stack) := by
  obtain ⟨x, rest, hstk, hx⟩ := isPerl_of_inPerl hperl
  have hchain := h.chain
  refine h.finish he ?_ (fun _ hx => hx) fun fno wev hmem =>
    absurd hmem (not_loop_of_framesOk hfs)
  show (o.2.map (PFrame.conn k) ++ p.stack).IsChain Under
  rw [hstk] at hchain ⊢
  exact chain_push hchain hx hfs

/-- A change of something else. -/
theorem update (h : Shape p) (hconns : p'.conns = p.conns) (hchain : p'.stack.IsChain Under)
    (hstk : ∀ k f, .conn k f ∈ p'.stack → .conn k f ∈ p.stack) : Shape p' := by
  refine ⟨hchain, fun k fno wev hmem hopen => ?_⟩
  rw [hconns] at hopen ⊢
  exact h.numbers k fno wev (hstk _ _ hmem) hopen

theorem add (h : Shape p) (hsets : Sets p) (c : Conn) (fno : Nat) : Shape (p.add c fno) := by
  refine ⟨h.chain, fun k fno' wev hmem hopen => ?_⟩
  have hk : k ≠ p.made := Nat.ne_of_lt (hsets.frames k _ hmem)
  simp only [Process.add, Function.update_of_ne hk] at hopen ⊢
  exact h.numbers k fno' wev hmem hopen

end Shape

theorem shape_step (hsets : Sets p) (h : Shape p) (hstep : PStep p i p') : Shape p' := by
  cases hstep with
  | tick n => exact h.update rfl h.chain fun _ _ => id
  | select r w hstk => exact h.update rfl h.chain fun _ _ => id
  | @dispatch k fno hstk hk =>
    refine h.finish dispatch_effect ?_ nofun fun fno' wev hmem => ?_
    · show (_ ++ []).IsChain Under
      rw [List.append_nil]
      exact dispatch_chain
    · rw [dispatch_loop hmem]
      exact (hsets.entry fno k hk).2.2
  | next hstk => exact h.resume hstk dispatchWrite_effect (dispatchWrite_cases ..).frames
  | sysread r hstk hr => exact h.resume hstk (.of_sides sysread_piece.sides) sysread_piece.frames
  | syswrite r hstk hr =>
    exact h.resume hstk (.of_sides syswrite_piece.sides) syswrite_piece.frames
  | refuse hstk => exact h.resume hstk (.of_sides accept_piece.sides) accept_piece.frames
  | accept fno hstk hfree =>
    have hview := Process.view_add (c := (View.accepted fno).toConn) (f := fno)
      (Nat.ne_of_lt (hsets.lt_of_stack hstk))
    refine (h.add hsets _ fno).resume hstk ?_ accept_piece.frames
    rw [hview]
    exact .of_sides accept_piece.sides
  | connectClosed r hstk hclosed => exact h.resume hstk (.of_sides (.refl _)) rfl
  | connect r hstk hopen => exact h.resume hstk (connect_effect hopen) connect_frames
  | ret hstk ho => exact h.resume hstk (afterCallback_effect ho) (afterCallback_cases ho).frames
  | enter hstk => exact h.update rfl (.singleton _) (by simp)
  | leave hstk => exact h.update rfl (hstk ▸ h.chain).tail fun k f hf => Process.mem_rest hstk _ hf
  | op o hperl hk hopen => exact h.push hperl (applyOp_effect hopen) applyOp_frames
  | server fno hperl hfree =>
    exact (h.add hsets (View.server fno).toConn fno).update rfl h.chain fun _ _ => id
  | client fno timeout hperl hfree =>
    have hadd := (h.add hsets (View.client p.now fno timeout).toConn fno)
    have hadd' : Shape (p.addClient fno timeout) := hadd.update rfl h.chain fun _ _ => id
    exact hadd'.push hperl (.of_sides startConnect_piece.sides) startConnect_piece.frames

/-! ### The simulation -/

/-- A piece of code leaves a connection that stays open its bits. -/
theorem view_finish_self (hf : o.1.fileno = (p.conns k).fileno) :
    (p.finish k o rest).view k = o.1 := by
  have hfile : (p.finish k o rest).fileno k = p.fileno k := by
    rw [Process.fileno, Process.conns_finish_self, hf, Process.fileno]
  rw [Process.view, hfile, Process.conns_finish_self]
  simp [Process.finish]

/-- A piece of code of one connection leaves the others alone. -/
theorem Sets.view_finish_ne (h : Sets p) (he : Effect (p.view k) o) (hj : j ≠ k)
    (hopen : (p.conns j).closed = false) : (p.finish k o rest).view j = p.view j := by
  have hconn : (p.finish k o rest).conns j = p.conns j := Process.conns_finish_ne hj
  have hfile : (p.finish k o rest).fileno j = p.fileno j := by
    rw [Process.fileno, hconn, Process.fileno]
  by_cases hk : (p.conns k).closed = true
  · have hs : SameSides (p.view k) o.1 := by
      cases he with
      | same hclosed hs => exact hs
      | stays hbefore => exact absurd (hk.symm.trans hbefore) (by decide)
      | closes hbefore => exact absurd (hk.symm.trans hbefore) (by decide)
    obtain ⟨hrin, hrout, hwin, hwout⟩ := Process.bits_finish_same rest hs
    rw [Process.view, hfile, hconn, hrin, hrout, hwin, hwout, Process.view]
  · have hne : p.fileno j ≠ p.fileno k := by
      intro heq
      have hown := h.fdset_fileno (by simpa using hk : (p.conns k).closed = false)
      rw [← heq, h.fdset_fileno hopen] at hown
      exact hj (Option.some.inj hown)
    rw [Process.view, hfile, hconn, Process.view]
    simp only [Process.finish, Function.update_of_ne hne]

/-- The connection's own code. -/
theorem project_finish_self (hf : o.1.fileno = (p.conns k).fileno) :
    (p.finish k o rest).project k = (p.project k).resume o (frames k rest) := by
  have hview : (p.finish k o rest).view k = o.1 := view_finish_self hf
  rw [Process.project, hview]
  show Sys.mk _ _ _ (frames k (o.2.map (.conn k) ++ rest)) = _
  rw [frames_own]
  rfl

/-- The code of another connection that a frame waited for. -/
theorem simulates_turn (hstk : p.stack = x :: rest) (hx : x.foreign k = true) (hj : j ≠ k)
    (hview : p'.view k = p.view k) (hnow : p'.now = p.now) (ht : p'.t = p.t)
    (hstk' : p'.stack = fs.map (.conn j) ++ rest) : Simulates p p' k (p.turn p') := by
  have hne : p.stack ≠ [] := by simp [hstk]
  rw [Process.turn, if_neg hne]
  split
  · next hnil =>
    have hrest : rest = [] := (List.append_eq_nil_iff.mp (hstk' ▸ hnil)).2
    subst hrest
    have hown : (p.project k).stack = [.outside] := by
      show frames k p.stack = _
      rw [hstk, frames_foreign hx, if_pos rfl]
    simp only [Simulates, step, hown]
    rw [Process.project, Process.project, hview, hnow, ht, hnil]
    rfl
  · next hcons =>
    rw [Simulates, Process.project, Process.project, hview, hnow, ht, hstk', hstk]
    rw [frames_turn hx hj (hstk' ▸ hcons)]

/-- Other code begins. -/
theorem simulates_begin (hstk : p.stack = []) (hview : p'.view k = p.view k)
    (hnow : p'.now = p.now) (ht : p'.t = p.t) (hstk' : ∀ x ∈ p'.stack, x.foreign k = true) :
    Simulates p p' k (p.turn p') := by
  rw [Process.turn, if_pos hstk]
  split
  · next hnil => rw [Simulates, Process.project, Process.project, hview, hnow, ht, hstk, hnil]
  · next hcons =>
    have hloop : (p.project k).stack = [] := by
      show frames k p.stack = []
      rw [hstk]
      rfl
    have hout : frames k p'.stack = [.outside] := frames_eq_outside hstk' hcons
    simp only [Simulates, step, hloop, if_true]
    rw [Process.project, Process.project, hview, hnow, ht, hout]

theorem localInput_own {i' : Input} (hstk : p.stack = .conn j f :: rest) (hi : i.own = some i') :
    p.localInput k i p' = if j = k then some i' else p.turn p' := by
  cases i <;> simp [PInput.own] at hi <;> simp [Process.localInput, hstk, PInput.own, hi]

theorem project_stack_own (hstk : p.stack = .conn k f :: rest) :
    (p.project k).stack = f :: frames k rest := by
  show frames k p.stack = _
  rw [hstk]
  simp [frames]

theorem simulates_resume {i' : Input} (hsets : Sets p) (hstk : p.stack = .conn j f :: rest)
    (hi : i.own = some i') (he : Effect (p.view j) o)
    (hopen : ((p.finish j o rest).conns k).closed = false)
    (hown : j = k → (p.project k).stack = f :: frames k rest →
      step (p.project k) i' = some ((p.project k).resume o (frames k rest))) :
    Simulates p (p.finish j o rest) k (p.localInput k i (p.finish j o rest)) := by
  obtain ⟨hbefore, hfile⟩ := he.open_before hopen
  rw [localInput_own hstk hi]
  split
  · next hj =>
    subst hj
    rw [Process.conns_finish_self] at hfile
    rw [Simulates, project_finish_self hfile]
    exact hown rfl (project_stack_own hstk)
  · next hj =>
    exact simulates_turn hstk (foreign_conn hj) hj (hsets.view_finish_ne he (Ne.symm hj) hbefore)
      rfl rfl rfl

theorem Simulates.of_project {q : Process} {i' : Option Input} (hq : q.project k = p.project k)
    (h : Simulates q p' k i') : Simulates p p' k i' := by
  cases i' with
  | none => exact h.trans hq
  | some i' =>
    rw [Simulates, ← hq]
    exact h

theorem project_add {c : Conn} (hk : k ≠ p.made) : (p.add c fno).project k = p.project k := by
  rw [Process.project, Process.view_add hk]
  rfl

/-- The number of a new connection is not that of an open one. -/
theorem Sets.fileno_ne (h : Sets p) (hfree : p.taken fno = false)
    (hopen : (p.conns k).closed = false) : p.fileno k ≠ fno := by
  intro he
  have hown := h.fdset_fileno hopen
  rw [he, h.fdset_of_free hfree] at hown
  cases hown

theorem stack_ne_nil_of_inPerl (h : p.inPerl = true) : p.stack ≠ [] := by
  obtain ⟨x, rest, hstk, _⟩ := isPerl_of_inPerl h
  simp [hstk]

theorem turn_eq_none (hstk : p.stack ≠ []) (hstk' : p'.stack ≠ []) : p.turn p' = none := by
  rw [Process.turn, if_neg hstk, if_neg hstk']

theorem localInput_server (hstk : p.stack ≠ []) :
    p.localInput k (.server fno) (p.ngxeServer fno) = none := by
  have hturn : p.turn (p.ngxeServer fno) = none := turn_eq_none hstk hstk
  obtain ⟨x, rest, hs⟩ := List.exists_cons_of_ne_nil hstk
  cases x with
  | conn j f => simp [Process.localInput, hs, hturn, PInput.own]
  | outside => simp [Process.localInput, hs, hturn]

theorem localInput_client {timeout : Int} (hstk : p.stack ≠ []) :
    p.localInput k (.client fno timeout) (p.ngxeClient fno timeout) = none := by
  have hstk' : (p.ngxeClient fno timeout).stack ≠ [] := by
    show _ ++ p.stack ≠ []
    simp [hstk]
  have hturn := turn_eq_none hstk hstk'
  obtain ⟨x, rest, hs⟩ := List.exists_cons_of_ne_nil hstk
  cases x with
  | conn j f => simp [Process.localInput, hs, hturn, PInput.own]
  | outside => simp [Process.localInput, hs, hturn]

theorem view_ngxeServer (hk : k ≠ p.made) (hne : p.fileno k ≠ fno) :
    (p.ngxeServer fno).view k = p.view k := by
  simp [Process.ngxeServer, Process.view, Process.add, Process.fileno,
    Function.update_of_ne hk] at hne ⊢
  exact Function.update_of_ne hne _ _

theorem view_addClient {timeout : Int} (hk : k ≠ p.made) (hne : p.fileno k ≠ fno) :
    (p.addClient fno timeout).view k = p.view k := by
  simp [Process.addClient, Process.view, Process.add, Process.fileno,
    Function.update_of_ne hk] at hne ⊢
  exact ⟨Function.update_of_ne hne _ _, Function.update_of_ne hne _ _⟩

theorem project_stack_nil (hstk : p.stack = []) : (p.project k).stack = [] := by
  show frames k p.stack = []
  rw [hstk]
  rfl

theorem simulates_dispatch (hsets : Sets p) (hstk : p.stack = []) (hj : p.fdset fno = some j)
    (hopen : (p.conns k).closed = false)
    (hopen' : ((p.finish j (dispatch p.now p.t fno (p.view j)) []).conns k).closed = false) :
    Simulates p (p.finish j (dispatch p.now p.t fno (p.view j)) []) k
      (p.localInput k (.dispatch fno) (p.finish j (dispatch p.now p.t fno (p.view j)) [])) := by
  obtain ⟨_, hfile⟩ := dispatch_effect.open_before hopen'
  by_cases hjk : j = k
  · subst hjk
    rw [Process.conns_finish_self] at hfile
    have hfno : (p.view j).fileno.getD 0 = fno := by
      show (p.conns j).fileno.getD 0 = fno
      rw [(hsets.entry fno j hj).2.2]
      rfl
    have hloop : (p.project j).stack = [] := project_stack_nil hstk
    have hvopen : (p.project j).v.closed = false := hopen
    simp only [Process.localInput, hj, if_true, Simulates, step, hloop, hvopen, and_self]
    rw [project_finish_self hfile]
    show some ((p.project j).resume (dispatch p.now p.t ((p.view j).fileno.getD 0) _) []) = _
    rw [hfno]
    rfl
  · have hne : p.fdset fno ≠ some k := by
      rw [hj]
      exact fun h => hjk (Option.some.inj h)
    simp only [Process.localInput, hne, if_false]
    refine simulates_begin hstk (hsets.view_finish_ne dispatch_effect (Ne.symm hjk) hopen)
      rfl rfl ?_
    show ∀ x ∈ _ ++ [], _
    rw [List.append_nil]
    exact foreign_map hjk

theorem simulates_op {o : Op} (hsets : Sets p) (hshape : Shape p) (hperl : p.inPerl = true)
    (hjopen : (p.conns j).closed = false ∨ o = .close) (hopen : (p.conns k).closed = false)
    (hopen' : ((p.finish j (applyOp p.now (p.view j) o) p.stack).conns k).closed = false) :
    Simulates p (p.finish j (applyOp p.now (p.view j) o) p.stack) k
      (p.localInput k (.op j o) (p.finish j (applyOp p.now (p.view j) o) p.stack)) := by
  obtain ⟨x, rest, hstk, hx⟩ := isPerl_of_inPerl hperl
  have he : Effect (p.view j) (applyOp p.now (p.view j) o) := applyOp_effect hjopen
  obtain ⟨_, hfile⟩ := he.open_before hopen'
  by_cases hjk : j = k
  · subst hjk
    rw [Process.conns_finish_self] at hfile
    obtain ⟨f, fs, hfs, hf⟩ := frames_isPerl (hstk ▸ hshape.chain) (.inl hx)
    have hown : (p.project j).stack = f :: fs := (congrArg (frames j) hstk).trans hfs
    have hvopen : (p.project j).v.closed = false ∨ o = .close := .inl hopen
    simp only [Process.localInput, if_true, Simulates, step, hown, hf, hvopen, and_self]
    rw [project_finish_self hfile, ← hown]
    rfl
  · simp only [Process.localInput, hjk, if_false, Simulates]
    rw [Process.project, Process.project, hsets.view_finish_ne he (Ne.symm hjk) hopen]
    show Sys.mk _ _ _ (frames k (_ ++ p.stack)) = _
    rw [frames_other hjk (stack_ne_nil_of_inPerl hperl)]
    rfl

theorem simulates_client {timeout : Int} (hsets : Sets p) (hperl : p.inPerl = true)
    (hfree : p.taken fno = false) (hk : k < p.made) (hopen : (p.conns k).closed = false) :
    Simulates p (p.ngxeClient fno timeout) k
      (p.localInput k (.client fno timeout) (p.ngxeClient fno timeout)) := by
  have hstk := stack_ne_nil_of_inPerl hperl
  have hne := Nat.ne_of_lt hk
  have hadd := hsets.addClient hfree timeout
  have hopen₁ : ((p.addClient fno timeout).conns k).closed = false := by
    simpa [Process.addClient, Process.add, Function.update_of_ne hne] using hopen
  have hview : (p.addClient fno timeout).view k = p.view k :=
    view_addClient hne (hsets.fileno_ne hfree hopen)
  have hview' : (p.ngxeClient fno timeout).view k = (p.addClient fno timeout).view k :=
    hadd.view_finish_ne (.of_sides startConnect_piece.sides) hne hopen₁
  rw [localInput_client hstk, Simulates, Process.project, Process.project, hview', hview]
  show Sys.mk _ _ _ (frames k (_ ++ p.stack)) = _
  rw [frames_other (Ne.symm hne) hstk]
  rfl

/-- **A step of a process is a step of each of its open connections**, or nothing to it. -/
theorem simulates (hsets : Sets p) (hshape : Shape p) (hstep : PStep p i p') (hk : k < p.made)
    (hopen : (p.conns k).closed = false) (hopen' : (p'.conns k).closed = false) :
    Simulates p p' k (p.localInput k i p') := by
  cases hstep with
  | tick n => rfl
  | select r w hstk =>
    have hloop : (p.project k).stack = [] := project_stack_nil hstk
    simp only [Process.localInput, Simulates, step, hloop, if_true]
    rfl
  | dispatch fno hstk hj => exact simulates_dispatch hsets hstk hj hopen hopen'
  | @next j fno wev rest hstk =>
    refine simulates_resume hsets hstk rfl dispatchWrite_effect hopen' fun hj hown => ?_
    subst hj
    have hfno : p.fileno j = fno := by
      have hmem : .conn j (.loop fno wev) ∈ p.stack := by
        rw [hstk]
        exact List.mem_cons_self
      rw [Process.fileno, hshape.numbers j fno wev hmem hopen]
      rfl
    simp only [step, hown]
    rw [← hfno]
    rfl
  | sysread r hstk hr =>
    refine simulates_resume hsets hstk rfl (.of_sides sysread_piece.sides) hopen' fun hj hown => ?_
    subst hj
    simp only [step, hown, hr, if_true]
    rfl
  | syswrite r hstk hr =>
    refine simulates_resume hsets hstk rfl (.of_sides syswrite_piece.sides) hopen'
      fun hj hown => ?_
    subst hj
    simp only [step, hown]
    exact if_pos hr
  | refuse hstk =>
    refine simulates_resume hsets hstk rfl (.of_sides accept_piece.sides) hopen' fun hj hown => ?_
    subst hj
    simp only [step, hown]
    rfl
  | accept fno hstk hfree =>
    have hne := Nat.ne_of_lt hk
    have hview := Process.view_add (c := (View.accepted fno).toConn) (f := fno)
      (Nat.ne_of_lt (hsets.lt_of_stack hstk))
    have hadd := hsets.add (c := (View.accepted fno).toConn) hfree rfl rfl
    have hstk' : (p.add (View.accepted fno).toConn fno).stack = _ := hstk
    have hloc : ∀ q, p.localInput k (.accept (some fno)) q =
        (p.add (View.accepted fno).toConn fno).localInput k (.accept (some fno)) q := by
      intro q
      rw [localInput_own hstk rfl, localInput_own hstk' rfl]
      rfl
    rw [hloc]
    refine .of_project (project_add hne) (simulates_resume hadd hstk rfl ?_ hopen'
      fun hj hown => ?_)
    · rw [hview]
      exact .of_sides accept_piece.sides
    · subst hj
      rw [project_add hne] at hown ⊢
      simp only [step, hown]
      rfl
  | connectClosed r hstk hclosed =>
    refine simulates_resume hsets hstk rfl (.of_sides (.refl _)) hopen' fun hj _ => ?_
    subst hj
    exact absurd (hopen.symm.trans hclosed) (by decide)
  | connect r hstk hc =>
    refine simulates_resume hsets hstk rfl (connect_effect hc) hopen' fun hj hown => ?_
    subst hj
    simp only [step, hown]
    rfl
  | @ret j f rest o hstk ho =>
    refine simulates_resume hsets hstk rfl (afterCallback_effect ho) hopen' fun hj hown => ?_
    subst hj
    have ho' : afterCallback (p.project j).now (p.project j).v f = some o := ho
    simp only [step, hown, ho', Option.map_some]
  | enter hstk =>
    have hloc : ∀ q, p.localInput k .enter q = p.turn q := by
      intro q
      simp only [Process.localInput, hstk]
    rw [hloc]
    exact simulates_begin hstk rfl rfl rfl (by simp [PFrame.foreign])
  | leave hstk =>
    have hloc : ∀ q, p.localInput k .leave q = p.turn q := by
      intro q
      simp only [Process.localInput, hstk]
    rw [hloc]
    have hnone : ∀ rest : List PFrame, rest = ([] : List Frame).map (.conn (k + 1)) ++ rest :=
      fun _ => rfl
    exact simulates_turn hstk rfl (Nat.succ_ne_self k) rfl rfl rfl (hnone _)
  | op o hperl hj hjopen => exact simulates_op hsets hshape hperl hjopen hopen hopen'
  | server fno hperl hfree =>
    have hstk := stack_ne_nil_of_inPerl hperl
    have hview := view_ngxeServer (Nat.ne_of_lt hk) (hsets.fileno_ne hfree hopen)
    rw [localInput_server hstk, Simulates, Process.project, hview]
    rfl
  | client fno timeout hperl hfree => exact simulates_client hsets hperl hfree hk hopen

/-- No frame of a new connection is on the stack. -/
theorem Sets.foreign_made (h : Sets p) (hrest : ∀ x ∈ rest, x ∈ p.stack) :
    ∀ x ∈ rest, x.foreign p.made = true := by
  intro x hx
  cases x with
  | conn j f => exact foreign_conn (Nat.ne_of_lt (h.frames j f (hrest _ hx)))
  | outside => rfl

theorem Sets.view_add_accepted (h : Sets p) (hfree : p.taken fno = false) :
    (p.add (View.accepted fno).toConn fno).view p.made = .accepted fno := by
  have hd := h.bits fno (h.fdset_of_free hfree)
  simp [Process.view, Process.add, Process.fileno, View.accepted, hd.rin, hd.rout, hd.win, hd.wout]

theorem Sets.view_made_server (h : Sets p) (hfree : p.taken fno = false) :
    (p.ngxeServer fno).view p.made = .server fno := by
  have hd := h.bits fno (h.fdset_of_free hfree)
  simp [Process.ngxeServer, Process.view, Process.add, Process.fileno, View.server, View.accepted,
    hd.rout, hd.win, hd.wout]

theorem Sets.view_made_client (h : Sets p) (hfree : p.taken fno = false) (timeout : Int) :
    (p.addClient fno timeout).view p.made = .client p.now fno timeout := by
  have hd := h.bits fno (h.fdset_of_free hfree)
  simp [Process.addClient, Process.view, Process.add, Process.fileno, View.client, View.accepted,
    hd.rin, hd.rout]

theorem accept_frames_ne_nil : (accept v true).2 ≠ [] := by
  rw [accept, if_pos rfl]
  cases hr : v.read with
  | none => simp [View.call]
  | some i => simp [View.call]

/-- A new connection is in an initial state of the machine of one connection. -/
theorem initial_made (hsets : Sets p) (hstep : PStep p i p') (hk : p.made ≤ k)
    (hopen : (p'.conns k).closed = false) : Initial (p'.project k) := by
  have hlt := (sets_step hsets hstep).lt_made hopen
  cases hstep with
  | @accept j rest fno hstk hfree =>
    obtain rfl : k = p.made := Nat.le_antisymm (Nat.le_of_lt_succ hlt) hk
    have hj := Nat.ne_of_lt (hsets.lt_of_stack hstk)
    have hview := Process.view_add (c := (View.accepted fno).toConn) (f := fno) hj
    have hadd := hsets.add (c := (View.accepted fno).toConn) hfree rfl rfl
    have he : Effect ((p.add (View.accepted fno).toConn fno).view j) (accept (p.view j) true) := by
      rw [hview]
      exact .of_sides accept_piece.sides
    have hbefore := (he.open_before hopen).1
    rw [Process.project, hadd.view_finish_ne he (Ne.symm hj) hbefore,
      hsets.view_add_accepted hfree]
    show Initial ⟨_, p.now, p.t, frames p.made (_ ++ rest)⟩
    have hfor : ∀ x ∈ (accept (p.view j) true).2.map (PFrame.conn j) ++ rest,
        x.foreign p.made = true := by
      intro x hx
      rcases List.mem_append.mp hx with hx | hx
      · exact foreign_map hj x hx
      · exact hsets.foreign_made (Process.mem_rest hstk) x hx
    rw [frames_eq_outside hfor (by simp [accept_frames_ne_nil])]
    exact .accepted p.now p.t fno
  | server fno hperl hfree =>
    obtain rfl : k = p.made := Nat.le_antisymm (Nat.le_of_lt_succ hlt) hk
    rw [Process.project, hsets.view_made_server hfree]
    show Initial ⟨_, p.now, p.t, frames p.made p.stack⟩
    rw [frames_eq_outside (hsets.foreign_made fun _ => id) (stack_ne_nil_of_inPerl hperl)]
    exact .server p.now p.t fno
  | client fno timeout hperl hfree =>
    obtain rfl : k = p.made := Nat.le_antisymm (Nat.le_of_lt_succ hlt) hk
    have hview := hsets.view_made_client hfree timeout
    have hpiece : Piece ((p.addClient fno timeout).view p.made) _ := startConnect_piece
    rw [Process.ngxeClient, project_finish_self hpiece.sides.fileno, hview,
      frames_eq_outside (hsets.foreign_made fun _ => id) (stack_ne_nil_of_inPerl hperl)]
    exact .client p.now p.t fno timeout
  | _ => exact absurd hlt (Nat.not_lt.mpr hk)

theorem conns_add_ne {c : Conn} (hk : k < p.made) : (p.add c fno).conns k = p.conns k :=
  Function.update_of_ne (Nat.ne_of_lt hk) _ _

/-- A closed connection stays closed. -/
theorem open_before (hsets : Sets p) (hstep : PStep p i p') (hk : k < p.made)
    (hopen : (p'.conns k).closed = false) : (p.conns k).closed = false := by
  cases hstep with
  | dispatch fno hstk hj => exact (dispatch_effect.open_before hopen).1
  | next hstk => exact (dispatchWrite_effect.open_before hopen).1
  | sysread r hstk hr => exact (Effect.open_before (.of_sides sysread_piece.sides) hopen).1
  | syswrite r hstk hr => exact (Effect.open_before (.of_sides syswrite_piece.sides) hopen).1
  | refuse hstk => exact (Effect.open_before (.of_sides accept_piece.sides) hopen).1
  | @accept j rest fno hstk hfree =>
    have hview := Process.view_add (c := (View.accepted fno).toConn) (f := fno)
      (Nat.ne_of_lt (hsets.lt_of_stack hstk))
    have he : Effect ((p.add (View.accepted fno).toConn fno).view j) (accept (p.view j) true) := by
      rw [hview]
      exact .of_sides accept_piece.sides
    have hbefore := (he.open_before hopen).1
    rwa [conns_add_ne hk] at hbefore
  | connectClosed r hstk hclosed => exact (Effect.open_before (.of_sides (.refl _)) hopen).1
  | connect r hstk hc => exact ((connect_effect hc).open_before hopen).1
  | ret hstk ho => exact ((afterCallback_effect ho).open_before hopen).1
  | op o hperl hj hjopen => exact ((applyOp_effect hjopen).open_before hopen).1
  | server fno hperl hfree =>
    have hbefore : ((p.add (View.server fno).toConn fno).conns k).closed = false := hopen
    rwa [conns_add_ne hk] at hbefore
  | client fno timeout hperl hfree =>
    have he : Effect ((p.addClient fno timeout).view p.made) _ :=
      .of_sides startConnect_piece.sides
    have hbefore : ((p.add (View.client p.now fno timeout).toConn fno).conns k).closed = false :=
      (he.open_before hopen).1
    rwa [conns_add_ne hk] at hbefore
  | _ => exact hopen

theorem shape_init (now t : Int) : Shape (.init now t) :=
  ⟨.singleton _, fun k fno wev hmem => by simp [Process.init] at hmem⟩

/-- **A run of a process is a run of each connection that is open**, as long as the condition on
    the steps of the process is one on the steps of the connection. -/
theorem reachable_project {G' : Process → PInput → Prop} {G : Sys → Input → Prop}
    (hG : Lifts G' G) (h : p.Reachable G') (hopen : (p.conns k).closed = false) :
    Reachable G (p.project k) := by
  obtain ⟨now, t, h⟩ := h
  have hinv := h.invariant (I := fun p => Sets p ∧ Shape p ∧
    ∀ k, (p.conns k).closed = false → Reachable G (p.project k)) ?_ ?_
  · exact hinv.2.2 k hopen
  · exact ⟨sets_init now t, shape_init now t, fun k hopen => absurd hopen (by simp [Process.init,
      Conn.unmade])⟩
  · intro p i p' hp hG' hs
    obtain ⟨hsets, hshape, hreach⟩ := hp
    have hstep := Process.step_cases hs
    refine ⟨sets_step hsets hstep, shape_step hsets hshape hstep, fun k hopen => ?_⟩
    by_cases hk : k < p.made
    · have hbefore := open_before hsets hstep hk hopen
      have hsim := simulates hsets hshape hstep hk hbefore hopen
      cases hloc : p.localInput k i p' with
      | none =>
        rw [hloc, Simulates] at hsim
        rw [hsim]
        exact hreach k hbefore
      | some j =>
        rw [hloc, Simulates] at hsim
        exact (hreach k hbefore).tail (hG p i p' k j hG' hs hbefore hloc) hsim
    · exact ⟨_, initial_made hsets hstep (Nat.le_of_not_lt hk) hopen, .refl⟩

end NginxEngine.PP
