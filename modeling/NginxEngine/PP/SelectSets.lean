import NginxEngine.PP.Alias

/-!
# The hashes and the bit vectors agree

Some fifteen subs update `%FDSET`, `%CONN` and the four bit vectors, each where it needs to. A
piece of code of an open connection touches only the bits at its own number, and clears them
when it closes the connection; a piece of code of a closed connection touches none. But where the
program's variable for a connection is undef when its callback returns, `_write` goes on with the
bits at the number 0.

## Main definitions

- `Effect` — what a piece of code may do to the bits and the descriptor
- `Sets` — the invariant
- `Process.Agree` — the hashes and the vectors agree with the connections
- `CloseSpec` — what `ngxe_close` removes

## Main results

- `sets_of_reachable` — the invariant holds throughout every run
- `select_sets` — runs that keep the sets in order, and `ngxe_close` removes what it should
- `bit_without_entry` — a writer callback closes its connection and forgets it
-/

namespace NginxEngine.PP

variable {now t : Int} {v v' : View} {o : Outcome} {p p' : Process} {k j : Nat} {fno : Nat}
  {rest : List PFrame} {f : Frame}

/-- A piece of code leaves an open connection its descriptor, or closes it last of all and
    clears its bits; it leaves the sides of a closed connection alone. -/
inductive Effect (v : View) (o : Outcome) : Prop
  | stays (hopen : v.closed = false) (hc : o.1.closed = false) (hf : o.1.fileno = v.fileno)
      (ht : Extends (· ≠ .closed) v.trace o.1.trace)
  | closes (hopen : v.closed = false) (hc : o.1.closed = true) (hrin : o.1.rin = false)
      (hrout : o.1.rout = false) (hwin : o.1.win = false) (hwout : o.1.wout = false)
      (hfs : o.2 = []) (l : List Obs) (hl : Extends (· ≠ .closed) v.trace l)
      (ht : o.1.trace = l ++ [.closed])
  | same (hclosed : v.closed = true) (hs : SameSides v o.1)

namespace Effect

theorem of_sides (hs : SameSides v o.1) : Effect v o := by
  by_cases hc : v.closed = true
  · exact .same hc hs
  · have hopen : v.closed = false := by simpa using hc
    exact .stays hopen (hs.closed.trans hopen) hs.fileno hs.trace

/-- A change that keeps the descriptor, before a piece of code that leaves the sides alone. -/
theorem after (hs : SameSides v' o.1) (hopen : v.closed = false) (hc : v'.closed = v.closed)
    (hf : v'.fileno = v.fileno) (ht : Extends (· ≠ .closed) v.trace v'.trace) : Effect v o :=
  .stays hopen (hs.closed.trans (hc.trans hopen)) (hs.fileno.trans hf) (ht.trans hs.trace)

theorem close (hs : SameSides v v') : Effect v (ngxeClose v', []) := by
  by_cases hc : v.closed = true
  · have hclose : ngxeClose v' = v' := by rw [ngxeClose, if_pos (hs.closed.trans hc)]
    rw [hclose]
    exact .same hc hs
  · have hopen : v.closed = false := by simpa using hc
    have hopen' : v'.closed = false := hs.closed.trans hopen
    refine .closes hopen ?_ ?_ ?_ ?_ ?_ rfl v'.trace hs.trace ?_ <;>
      simp [ngxeClose, hopen', View.observe]

end Effect

theorem Tame.effect (h : Tame v o) : Effect v o := by
  cases h with
  | code hs ha => exact .of_sides hs
  | close hs hk => exact .close hs

theorem dispatch_effect : Effect v (dispatch now t fno v) :=
  (dispatch_cases now t fno v).tame.effect

theorem dispatchWrite_effect {win wout : Bool} {wev : Option Nat} :
    Effect v (dispatchWrite now t v win wout wev) := by
  rcases (dispatchWrite_cases now t v win wout wev).tame with ht | ⟨-, he⟩
  · exact ht.effect
  · rw [he]
    exact .of_sides write_piece.sides

theorem connect_effect {limit : Nat} {error : Bool} {r : ConnectResult} (hopen : v.closed = false) :
    Effect v (connect v limit error r) := by
  rcases connect_piece with hp | hp
  · exact .of_sides hp.sides
  · exact .after hp.sides hopen rfl rfl (.refl _)

theorem afterCallback_effect (ho : afterCallback now v f = some o) : Effect v o := by
  cases afterCallback_cases ho with
  | tame hframes ht => exact ht.effect
  | switch hf hopen hrout hw => exact .after write_piece.sides hopen rfl rfl (.refl _)
  | stop hf hopen => exact .stays hopen hopen rfl (.refl _)

theorem applyOp_effect {op : Op} (hopen : v.closed = false ∨ op = .close) :
    Effect v (applyOp now v op) := by
  rcases hopen with hopen | rfl
  · cases op with
    | reader start timeout =>
      cases start with
      | false => exact .stays hopen hopen rfl (.refl _)
      | true => exact .stays hopen hopen rfl (.refl _)
    | readerStopWriterStart => exact .after write_piece.sides hopen rfl rfl (.refl _)
    | writer start timeout buf =>
      cases start with
      | false => exact .stays hopen hopen rfl (.snoc nofun)
      | true => exact .after write_piece.sides hopen rfl rfl (.snoc nofun)
    | writerStart timeout => exact .after write_piece.sides hopen rfl rfl (.refl _)
    | writerBufferSet data => exact .after write_piece.sides hopen rfl rfl (.snoc nofun)
    | close => exact .close (.refl v)
    | setWriteBuffer sv =>
      cases hb : v.wbuf.isSome with
      | true =>
        simp only [applyOp, hb, if_true]
        exact .stays hopen hopen rfl (.snoc nofun)
      | false =>
        simp only [applyOp, hb]
        exact .of_sides (.refl v)
    | _ => exact .stays hopen hopen rfl (.refl _)
  · exact .close (.refl v)

/-! ### The invariant -/

/-- All four bits at a number are 0. -/
structure Process.Dark (p : Process) (fno : Nat) : Prop where
  rin : p.rin fno = false
  rout : p.rout fno = false
  win : p.win fno = false
  wout : p.wout fno = false

structure Sets (p : Process) : Prop where
  entry : ∀ fno k, p.fdset fno = some k →
    k < p.made ∧ (p.conns k).closed = false ∧ (p.conns k).fileno = some fno
  hashes : p.conn = p.fdset
  owner : ∀ k, (p.conns k).closed = false →
    ∃ fno, (p.conns k).fileno = some fno ∧ p.fdset fno = some k
  bits : ∀ fno, p.fdset fno = none → p.Dark fno
  frames : ∀ k f, .conn k f ∈ p.stack → k < p.made

namespace Process

theorem conns_finish_self : (p.finish k o rest).conns k = o.1.toConn := by simp [finish]

theorem conns_finish_ne (h : j ≠ k) : (p.finish k o rest).conns j = p.conns j := by
  simp [finish, Function.update_of_ne h]

theorem Dark.finish (hd : p.Dark fno) (hne : fno ≠ p.fileno k) : (p.finish k o rest).Dark fno := by
  constructor <;> simp only [Process.finish, Function.update_of_ne hne]
  · exact hd.rin
  · exact hd.rout
  · exact hd.win
  · exact hd.wout

/-- Code that leaves the sides alone leaves the vectors alone. -/
theorem bits_finish_same (rest : List PFrame) (hs : SameSides (p.view k) o.1) :
    (p.finish k o rest).rin = p.rin ∧ (p.finish k o rest).rout = p.rout ∧
      (p.finish k o rest).win = p.win ∧ (p.finish k o rest).wout = p.wout := by
  simp only [Process.finish, hs.rin, hs.rout, hs.win, hs.wout]
  exact ⟨Function.update_eq_self _ _, Function.update_eq_self _ _, Function.update_eq_self _ _,
    Function.update_eq_self _ _⟩

theorem view_add {c : Conn} {f : Nat} (h : k ≠ p.made) : (p.add c f).view k = p.view k := by
  simp [view, add, fileno, Function.update_of_ne h]

end Process

namespace Sets

theorem fdset_fileno (h : Sets p) (hopen : (p.conns k).closed = false) :
    p.fdset (p.fileno k) = some k := by
  obtain ⟨fno, hf, hs⟩ := h.owner k hopen
  rwa [Process.fileno, hf]

theorem lt_made (h : Sets p) (hopen : (p.conns k).closed = false) : k < p.made :=
  (h.entry _ k (h.fdset_fileno hopen)).1

/-- The number of a new connection is in neither hash. -/
theorem fdset_of_free (h : Sets p) (hfree : p.taken fno = false) : p.fdset fno = none := by
  by_contra hne
  obtain ⟨k, hk⟩ := Option.ne_none_iff_exists'.mp hne
  obtain ⟨hlt, hopen, hfile⟩ := h.entry fno k hk
  have htaken : p.taken fno = true := by
    rw [Process.taken, List.any_eq_true]
    exact ⟨k, List.mem_range.mpr hlt, by simp [hopen, hfile]⟩
  rw [hfree] at htaken
  cases htaken

theorem frames_finish (h : Sets p) (hk : k < p.made) (hrest : ∀ x ∈ rest, x ∈ p.stack) :
    ∀ j f, .conn j f ∈ (p.finish k o rest).stack → j < p.made := by
  intro j f hj
  rcases List.mem_append.mp hj with hj | hj
  · obtain ⟨g, _, hg⟩ := List.mem_map.mp hj
    cases hg
    exact hk
  · exact h.frames j f (hrest _ hj)

theorem finish_stays (h : Sets p) (hrest : ∀ x ∈ rest, x ∈ p.stack)
    (hopen : (p.conns k).closed = false) (hc : o.1.closed = false)
    (hf : o.1.fileno = (p.conns k).fileno) : Sets (p.finish k o rest) := by
  have hcl : p.closes k o.1 = false := by simp [Process.closes, hc]
  have hfd : (p.finish k o rest).fdset = p.fdset := by simp [Process.finish, hcl]
  refine ⟨fun fno j hj => ?_, ?_, fun j hj => ?_, fun fno hn => ?_,
    h.frames_finish (h.lt_made hopen) hrest⟩
  · rw [hfd] at hj
    obtain ⟨hlt, hjopen, hjfile⟩ := h.entry fno j hj
    by_cases hjk : j = k
    · subst hjk
      rw [Process.conns_finish_self]
      exact ⟨hlt, hc, hf.trans hjfile⟩
    · rw [Process.conns_finish_ne hjk]
      exact ⟨hlt, hjopen, hjfile⟩
  · simp [Process.finish, hcl, h.hashes]
  · rw [hfd]
    by_cases hjk : j = k
    · subst hjk
      obtain ⟨fno, hfno, hset⟩ := h.owner j hopen
      rw [Process.conns_finish_self]
      exact ⟨fno, hf.trans hfno, hset⟩
    · rw [Process.conns_finish_ne hjk] at hj ⊢
      exact h.owner j hj
  · rw [hfd] at hn
    have hne : fno ≠ p.fileno k := by
      rintro rfl
      rw [h.fdset_fileno hopen] at hn
      cases hn
    exact (h.bits fno hn).finish hne

theorem finish_closes (h : Sets p) (hrest : ∀ x ∈ rest, x ∈ p.stack)
    (hopen : (p.conns k).closed = false) (hc : o.1.closed = true)
    (hdark : (p.finish k o rest).Dark (p.fileno k)) : Sets (p.finish k o rest) := by
  have hcl : p.closes k o.1 = true := by simp [Process.closes, hc, hopen]
  have hfd : (p.finish k o rest).fdset = Function.update p.fdset (p.fileno k) none := by
    simp [Process.finish, hcl]
  refine ⟨fun fno j hj => ?_, ?_, fun j hj => ?_, fun fno hn => ?_,
    h.frames_finish (h.lt_made hopen) hrest⟩
  · rw [hfd] at hj
    have hne : fno ≠ p.fileno k := by
      rintro rfl
      rw [Function.update_self] at hj
      cases hj
    rw [Function.update_of_ne hne] at hj
    obtain ⟨hlt, hjopen, hjfile⟩ := h.entry fno j hj
    have hjk : j ≠ k := by
      rintro rfl
      rw [Process.fileno, hjfile] at hne
      exact hne rfl
    rw [Process.conns_finish_ne hjk]
    exact ⟨hlt, hjopen, hjfile⟩
  · simp [Process.finish, hcl, h.hashes]
  · have hjk : j ≠ k := by
      rintro rfl
      rw [Process.conns_finish_self] at hj
      exact absurd (hc.symm.trans hj) (by decide)
    rw [Process.conns_finish_ne hjk] at hj ⊢
    obtain ⟨fno, hfno, hset⟩ := h.owner j hj
    have hne : fno ≠ p.fileno k := by
      rintro rfl
      rw [h.fdset_fileno hopen] at hset
      exact hjk (Option.some.inj hset).symm
    rw [hfd]
    exact ⟨fno, hfno, by rwa [Function.update_of_ne hne]⟩
  · rw [hfd] at hn
    by_cases hne : fno = p.fileno k
    · rw [hne]
      exact hdark
    · rw [Function.update_of_ne hne] at hn
      exact (h.bits fno hn).finish hne

theorem finish_same (h : Sets p) (hk : k < p.made) (hrest : ∀ x ∈ rest, x ∈ p.stack)
    (hclosed : (p.conns k).closed = true) (hs : SameSides (p.view k) o.1) :
    Sets (p.finish k o rest) := by
  have hoc : o.1.closed = true := hs.closed.trans hclosed
  have hcl : p.closes k o.1 = false := by simp [Process.closes, hclosed]
  have hfd : (p.finish k o rest).fdset = p.fdset := by simp [Process.finish, hcl]
  refine ⟨fun fno j hj => ?_, ?_, fun j hj => ?_, fun fno hn => ?_, h.frames_finish hk hrest⟩
  · rw [hfd] at hj
    obtain ⟨hlt, hjopen, hjfile⟩ := h.entry fno j hj
    have hjk : j ≠ k := by
      rintro rfl
      exact absurd (hclosed.symm.trans hjopen) (by decide)
    rw [Process.conns_finish_ne hjk]
    exact ⟨hlt, hjopen, hjfile⟩
  · simp [Process.finish, hcl, h.hashes]
  · have hjk : j ≠ k := by
      rintro rfl
      rw [Process.conns_finish_self] at hj
      exact absurd (hoc.symm.trans hj) (by decide)
    rw [Process.conns_finish_ne hjk] at hj ⊢
    rw [hfd]
    exact h.owner j hj
  · rw [hfd] at hn
    have hd := h.bits fno hn
    obtain ⟨hrin, hrout, hwin, hwout⟩ := Process.bits_finish_same rest hs
    exact ⟨by rw [hrin]; exact hd.rin, by rw [hrout]; exact hd.rout, by rw [hwin]; exact hd.win,
      by rw [hwout]; exact hd.wout⟩

/-- The end of a piece of code keeps the sets in order. -/
theorem finish (h : Sets p) (hk : k < p.made) (he : Effect (p.view k) o)
    (hrest : ∀ x ∈ rest, x ∈ p.stack) : Sets (p.finish k o rest) := by
  cases he with
  | stays hopen hc hf => exact h.finish_stays hrest hopen hc hf
  | closes hopen hc hrin hrout hwin hwout =>
    refine h.finish_closes hrest hopen hc ?_
    constructor <;> simpa [Process.finish]
  | same hclosed hs => exact h.finish_same hk hrest hclosed hs

/-- A new connection gets a number that is nobody's. -/
theorem add (h : Sets p) {c : Conn} (hfree : p.taken fno = false) (hopen : c.closed = false)
    (hf : c.fileno = some fno) : Sets (p.add c fno) := by
  have hnone := h.fdset_of_free hfree
  refine ⟨fun fno' k hk => ?_, by simp [Process.add, h.hashes], fun k hk => ?_, fun fno' hn => ?_,
    fun k f hf => Nat.lt_succ_of_lt (h.frames k f hf)⟩
  · by_cases hne : fno' = fno
    · subst hne
      obtain rfl : p.made = k := by simpa [Process.add] using hk
      simp [Process.add, hopen, hf]
    · have hk' : p.fdset fno' = some k := by simpa [Process.add, Function.update_of_ne hne] using hk
      obtain ⟨hlt, hkopen, hkfile⟩ := h.entry fno' k hk'
      have hkm : k ≠ p.made := Nat.ne_of_lt hlt
      simp only [Process.add, Function.update_of_ne hkm]
      exact ⟨Nat.lt_succ_of_lt hlt, hkopen, hkfile⟩
  · by_cases hkm : k = p.made
    · subst hkm
      exact ⟨fno, by simp [Process.add, hf], by simp [Process.add]⟩
    · simp only [Process.add, Function.update_of_ne hkm] at hk ⊢
      obtain ⟨fno', hfile, hset⟩ := h.owner k hk
      have hne : fno' ≠ fno := by
        rintro rfl
        rw [hnone] at hset
        cases hset
      exact ⟨fno', hfile, by rwa [Function.update_of_ne hne]⟩
  · have hne : fno' ≠ fno := by
      rintro rfl
      simp [Process.add] at hn
    have hn' : p.fdset fno' = none := by simpa [Process.add, Function.update_of_ne hne] using hn
    have hd := h.bits fno' hn'
    exact ⟨hd.rin, hd.rout, hd.win, hd.wout⟩

/-- A change of bits at numbers that are in `%FDSET`, of the clock, or of Perl code that no
    handler has called. -/
theorem update (h : Sets p) (hconns : p'.conns = p.conns) (hmade : p'.made = p.made)
    (hfd : p'.fdset = p.fdset) (hconn : p'.conn = p.conn)
    (hbits : ∀ fno, p.fdset fno = none → p.Dark fno → p'.Dark fno)
    (hstk : ∀ k f, .conn k f ∈ p'.stack → .conn k f ∈ p.stack) : Sets p' := by
  refine ⟨?_, by rw [hconn, hfd, h.hashes], ?_, fun fno hn => ?_, fun k f hf => ?_⟩
  · rw [hfd, hconns, hmade]
    exact h.entry
  · rw [hfd, hconns]
    exact h.owner
  · rw [hfd] at hn
    exact hbits fno hn (h.bits fno hn)
  · rw [hmade]
    exact h.frames k f (hstk k f hf)

theorem ne_of_add {c : Conn} {fno' : Nat} (hn : (p.add c fno).fdset fno' = none) : fno' ≠ fno := by
  rintro rfl
  simp [Process.add] at hn

theorem ngxeServer (h : Sets p) (hfree : p.taken fno = false) : Sets (p.ngxeServer fno) := by
  have hadd := h.add (c := (View.server fno).toConn) hfree rfl rfl
  refine hadd.update rfl rfl rfl rfl (fun fno' hn hd => ?_) fun _ _ => id
  refine ⟨?_, hd.rout, hd.win, hd.wout⟩
  exact (Function.update_of_ne (ne_of_add hn) _ _).trans hd.rin

theorem addClient (h : Sets p) (hfree : p.taken fno = false) (timeout : Int) :
    Sets (p.addClient fno timeout) := by
  have hadd := h.add (c := (View.client p.now fno timeout).toConn) hfree rfl rfl
  refine hadd.update rfl rfl rfl rfl (fun fno' hn hd => ?_) fun _ _ => id
  refine ⟨hd.rin, hd.rout, ?_, ?_⟩
  · exact (Function.update_of_ne (ne_of_add hn) _ _).trans hd.win
  · exact (Function.update_of_ne (ne_of_add hn) _ _).trans hd.wout

end Sets

theorem Process.mem_rest {x : PFrame} (hstk : p.stack = x :: rest) : ∀ y ∈ rest, y ∈ p.stack := by
  intro y hy
  rw [hstk]
  exact List.mem_cons_of_mem x hy

theorem Sets.lt_of_stack (h : Sets p) (hstk : p.stack = .conn k f :: rest) : k < p.made :=
  h.frames k f (by rw [hstk]; exact List.mem_cons_self)

theorem sets_step {i : PInput} (h : Sets p) (hstep : PStep p i p') : Sets p' := by
  cases hstep with
  | tick n =>
    exact h.update rfl rfl rfl rfl (fun _ _ hd => ⟨hd.rin, hd.rout, hd.win, hd.wout⟩) fun _ _ => id
  | select r w hstk =>
    refine h.update rfl rfl rfl rfl (fun fno _ hd => ?_) fun _ _ => id
    exact ⟨hd.rin, by simp [Process.select, hd.rin], hd.win, by simp [Process.select, hd.win]⟩
  | dispatch fno hstk hk => exact h.finish (h.entry fno _ hk).1 dispatch_effect nofun
  | next hstk => exact h.finish (h.lt_of_stack hstk) dispatchWrite_effect (Process.mem_rest hstk)
  | sysread r hstk hr =>
    exact h.finish (h.lt_of_stack hstk) (.of_sides sysread_piece.sides) (Process.mem_rest hstk)
  | syswrite r hstk hr =>
    exact h.finish (h.lt_of_stack hstk) (.of_sides syswrite_piece.sides) (Process.mem_rest hstk)
  | refuse hstk =>
    exact h.finish (h.lt_of_stack hstk) (.of_sides accept_piece.sides) (Process.mem_rest hstk)
  | accept fno hstk hfree =>
    have hk := h.lt_of_stack hstk
    have hadd := h.add (c := (View.accepted fno).toConn) hfree rfl rfl
    have hview := Process.view_add (c := (View.accepted fno).toConn) (f := fno) (Nat.ne_of_lt hk)
    refine hadd.finish (Nat.lt_succ_of_lt hk) ?_ (Process.mem_rest hstk)
    rw [hview]
    exact .of_sides accept_piece.sides
  | connectClosed r hstk hclosed =>
    exact h.finish (h.lt_of_stack hstk) (.of_sides (.refl _)) (Process.mem_rest hstk)
  | connect r hstk hopen =>
    exact h.finish (h.lt_of_stack hstk) (connect_effect hopen) (Process.mem_rest hstk)
  | ret hstk ho =>
    exact h.finish (h.lt_of_stack hstk) (afterCallback_effect ho) (Process.mem_rest hstk)
  | enter hstk =>
    exact h.update rfl rfl rfl rfl (fun _ _ hd => ⟨hd.rin, hd.rout, hd.win, hd.wout⟩) (by simp)
  | leave hstk =>
    exact h.update rfl rfl rfl rfl (fun _ _ hd => ⟨hd.rin, hd.rout, hd.win, hd.wout⟩)
      fun k f hf => Process.mem_rest hstk _ hf
  | op o hperl hk hopen => exact h.finish hk (applyOp_effect hopen) fun _ hx => hx
  | server fno hperl hfree => exact h.ngxeServer hfree
  | client fno timeout hperl hfree =>
    exact (h.addClient hfree timeout).finish (Nat.lt_succ_self _)
      (.of_sides startConnect_piece.sides) fun _ hx => hx

theorem sets_init (now t : Int) : Sets (.init now t) :=
  ⟨nofun, rfl, nofun, fun _ _ => ⟨rfl, rfl, rfl, rfl⟩, by simp [Process.init]⟩

theorem sets_of_reachable {G : Process → PInput → Prop} (h : p.Reachable G) : Sets p :=
  h.invariant sets_init fun _ _ _ hp _ hstep => sets_step hp hstep

/-- The bits that `select` is given are those of entries of `%FDSET`, and these are open
    connections under their own number. -/
structure Process.Agree (p : Process) : Prop where
  rin : ∀ fno, p.rin fno = true → ∃ k, p.fdset fno = some k
  win : ∀ fno, p.win fno = true → ∃ k, p.fdset fno = some k
  entry : ∀ fno k, p.fdset fno = some k →
    p.conn fno = some k ∧ (p.conns k).closed = false ∧ (p.conns k).fileno = some fno

/-- `p'` is `p` after `ngxe_close` of the connection `k`. -/
structure CloseSpec (p p' : Process) (k : Nat) : Prop where
  closed : (p'.conns k).closed = true
  again : (p.conns k).closed = true → p' = p
  own : (p.conns k).closed = false → ∃ fno, p.fdset fno = some k ∧ p.conn fno = some k ∧
    p'.fdset fno = none ∧ p'.conn fno = none ∧ p'.Dark fno
  numbers : ∀ fno, p.fdset fno ≠ some k → p'.fdset fno = p.fdset fno ∧ p'.conn fno = p.conn fno ∧
    p'.rin fno = p.rin fno ∧ p'.rout fno = p.rout fno ∧ p'.win fno = p.win fno ∧
    p'.wout fno = p.wout fno
  others : ∀ j, j ≠ k → p'.conns j = p.conns j

theorem Sets.agree (h : Sets p) : p.Agree := by
  have hentry : ∀ fno, (p.rin fno = true ∨ p.win fno = true) → ∃ k, p.fdset fno = some k := by
    intro fno hbit
    refine Option.ne_none_iff_exists'.mp fun hn => ?_
    have hd := h.bits fno hn
    rcases hbit with hbit | hbit
    · exact absurd (hd.rin.symm.trans hbit) (by decide)
    · exact absurd (hd.win.symm.trans hbit) (by decide)
  refine ⟨fun fno hr => hentry fno (.inl hr), fun fno hw => hentry fno (.inr hw),
    fun fno k hk => ?_⟩
  rw [h.hashes]
  exact ⟨hk, (h.entry fno k hk).2⟩

/-- A piece of code of a closed connection that does nothing. -/
theorem Process.finish_view (hclosed : (p.conns k).closed = true) :
    p.finish k (p.view k, []) p.stack = p := by
  simp only [Process.finish, Process.closes, Process.view, hclosed, Bool.not_true, Bool.and_false,
    Bool.false_eq_true, if_false, List.map_nil, List.nil_append, Function.update_eq_self]

theorem Sets.closeSpec (h : Sets p) (k : Nat) :
    CloseSpec p (p.finish k (ngxeClose (p.view k), []) p.stack) k := by
  cases hc : (p.conns k).closed with
  | true =>
    have hview : ngxeClose (p.view k) = p.view k := if_pos hc
    rw [hview, Process.finish_view hc]
    exact ⟨hc, fun _ => rfl, fun hopen => absurd (hc.symm.trans hopen) (by decide),
      fun _ _ => ⟨rfl, rfl, rfl, rfl, rfl, rfl⟩, fun _ _ => rfl⟩
  | false =>
    have hvc : (p.view k).closed = false := hc
    have hown := h.fdset_fileno hc
    refine ⟨?_, fun hclosed => absurd (hc.symm.trans hclosed) (by decide),
      fun _ => ⟨p.fileno k, hown, h.hashes ▸ hown, ?_⟩, fun fno hne => ?_,
      fun j hj => Process.conns_finish_ne hj⟩
    · simp [Process.finish, ngxeClose, hvc, View.observe]
    · refine ⟨?_, ?_, ?_, ?_, ?_, ?_⟩ <;>
        simp [Process.finish, Process.closes, ngxeClose, hvc, hc, View.observe]
    · have hfno : fno ≠ p.fileno k := by
        rintro rfl
        exact hne hown
      simp [Process.finish, Process.closes, ngxeClose, hvc, hc, View.observe, hfno]

/-- **The select sets.** In every run in which no variable that `_write` was given is assigned
    in its callback, and in every state, the bits of `$rin` and `$win` are those of entries of
    `%FDSET`, which are those of `%CONN` and open connections under their own number. Perl code
    may close any connection there: `ngxe_close` removes its entries and bits and no other's, and
    does nothing to a connection that is closed already. -/
theorem select_sets (p : Process) (h : p.AliasReachable (Process.Unassigned Machine.always)) :
    p.Agree ∧ ∀ k, p.inPerl = true → k < p.made →
      ∃ p', p.step (.op k .close) = some p' ∧ CloseSpec p p' k := by
  have hsets := sets_of_reachable h.reachable
  refine ⟨hsets.agree, fun k hperl hk => ⟨_, ?_, hsets.closeSpec k⟩⟩
  simp [Process.step, hperl, hk, applyOp]

/-- An accept callback closes the connection it was given, and the listener's bit stays. -/
theorem select_sets_accepted : ∃ p, p.AliasReachable (Process.Unassigned Machine.always) ∧
    p.Agree ∧ p.fdset 3 = some 0 ∧ p.fdset 4 = some 1 ∧ p.rin 3 = true ∧
    ∃ p', p.step (.op 1 .close) = some p' ∧ CloseSpec p p' 1 := by
  obtain ⟨⟨p, given⟩, hr, hp⟩ := Machine.Reaches.of_run_map (M := Process.aliased)
    (G := Process.Unassigned Machine.always) (s := (.init 5 5, fun _ => false))
    (fun s => (s.1.fdset 3, s.1.fdset 4, s.1.rin 3, s.1.inPerl, decide (1 < s.1.made)))
    ([.server 3, .leave, .select (fun _ => true) fun _ => true, .dispatch 3,
      .accept (some 4)].map .inl)
    (show _ = some (some 0, some 1, true, true, true) by decide +kernel)
  have hreach : p.AliasReachable (Process.Unassigned Machine.always) := ⟨5, 5, given, hr⟩
  simp only [Prod.mk.injEq, decide_eq_true_eq] at hp
  obtain ⟨h3, h4, hrin, hperl, hmade⟩ := hp
  obtain ⟨hagree, hclose⟩ := select_sets p hreach
  exact ⟨p, hreach, hagree, h3, h4, hrin, hclose 1 hperl hmade⟩

/-- The program calls `ngxe_writer_put($conn, 'x')`, and the callback closes the connection and
    undefines `$conn`: `_write` sets the bit 0 in `$rin`. -/
theorem bit_without_entry : ¬ ∀ p : Process, p.AliasReachable Machine.always → p.Agree := by
  intro hall
  obtain ⟨⟨p, given⟩, hr, hp⟩ := Machine.Reaches.of_run_map (M := Process.aliased)
    (G := Machine.always) (s := (.init 5 5, fun _ => false)) (fun s => (s.1.rin 0, s.1.fdset 0))
    ([.server 3, .leave, .select (fun _ => true) fun _ => true, .dispatch 3, .accept (some 4),
      .op 1 (.writer false 0 (.str [])), .op 1 (.writerBufferSet (.str [120])),
      .syswrite (.accepted 1), .op 1 .close].map .inl ++ [.inr .undef])
    (show _ = some (true, none) by decide +kernel)
  simp only [Prod.mk.injEq] at hp
  obtain ⟨hrin, hnone⟩ := hp
  obtain ⟨k, hk⟩ := (hall p ⟨5, 5, given, hr⟩).rin 0 hrin
  rw [hnone] at hk
  cases hk

end NginxEngine.PP
