import NginxEngine.XS.Process

/-!
# Handlers act on their own slot

A handler that returns from its callback knows by `c->destroyed` alone whether its
session is still open. `ngxe_close` sets that bit, but it also gives the slot back, and
the next call that takes a slot, for a connection, a server or a timer, whether it succeeds or
not, takes this one and zeroes the bit.

## Main definitions

- `OwnSlots` — a handler goes on after its callback only if its session is open
- `FreshSlot` — no slot is taken whose handler is still running

## Main results

- `handlers_own_slot` — every run of such steps keeps the handlers to their own slots
- `handler_meets_timer` — a callback closes its connection and sets a timeout
-/

namespace NginxEngine.XS

variable {cfg : Config} {w w' : Process} {slot gen : Nat}

/-- `!c->destroyed`: the code after a callback goes on with `c`. -/
def Process.goesOn (w : Process) (slot : Nat) : Bool :=
  (w.pool.lookup slot).any fun x => !x.val.destroyed

/-- The session that was given the number `gen` is still in its slot, and open. -/
def Process.IsOpen (w : Process) (slot gen : Nat) : Prop :=
  ∃ c, w.pool.lookup slot = some ⟨gen, .conn c⟩ ∧ c.destroyed = false

/-- When the callback of a handler returns, the rest of the handler goes on with `c` only
    if the session it was called for is open. -/
def OwnSlots (w : Process) : Prop :=
  ∀ slot gen cb site rest, w.stack = .conn slot gen (.inCallback cb site) :: rest →
    site ≠ .connected → w.goesOn slot = true → w.IsOpen slot gen

/-- The slot of a connection's handler. -/
def PFrame.connSlot : PFrame → Option Nat
  | .conn slot _ _ => some slot
  | .timer _ _ _ | .failing _ _ | .outside => none

/-- The slot of a failing `ngxe_client`. -/
def PFrame.peerSlot : PFrame → Option Nat
  | .failing _ slot => some slot
  | .conn _ _ _ | .timer _ _ _ | .outside => none

/-- The slot that the next call takes, whether it succeeds or not, is not one of a connection
    whose handler is still on the stack. -/
def FreshSlot (w : Process) : PInput → Prop
  | .client _ _ | .clientFails _ | .server _ _ | .timerSet _ | .timerFails _ =>
    ∀ f ∈ w.stack, f.connSlot = none ∨ f.connSlot ≠ w.pool.free.head?
  | _ => True

instance {i : PInput} : Decidable (FreshSlot w i) := by
  unfold FreshSlot
  split <;> infer_instance

/-- Every handler on the stack finds its own connection in its slot. -/
structure Owned (w : Process) : Prop where
  frames : ∀ slot gen f, .conn slot gen f ∈ w.stack →
    ∃ c, w.pool.lookup slot = some ⟨gen, .conn c⟩
  timers : ∀ kind slot gen, .timer kind slot gen ∈ w.stack → slot < w.pool.cells.length
  range : ∀ slot ∈ w.pool.free, slot < w.pool.cells.length
  /-- A failing `ngxe_client` has its slot from none of the handlers that called it. -/
  peers : w.stack.Pairwise fun f g => ∀ slot, f.peerSlot = some slot → g.connSlot ≠ some slot
  peerRange : ∀ why slot, .failing why slot ∈ w.stack → slot < w.pool.cells.length

theorem Owned.ownSlots (h : Owned w) : OwnSlots w := by
  intro slot gen cb site rest hstk _ hgo
  obtain ⟨c, hc⟩ := h.frames slot gen (.inCallback cb site) (by simp [hstk])
  refine ⟨c, hc, ?_⟩
  simpa [Process.goesOn, hc, Occupant.destroyed] using hgo

/-- Frames are left, slots are given back, and whatever connection a handler on the stack
    finds in its slot, it finds one of the same number afterwards. -/
theorem Owned.keep (h : Owned w) (hstk : w'.stack.Sublist w.stack)
    (hlen : w'.pool.cells.length = w.pool.cells.length)
    (hfree : ∀ slot ∈ w'.pool.free, slot ∈ w.pool.free ∨ slot < w.pool.cells.length)
    (hconn : ∀ slot gen f c, .conn slot gen f ∈ w'.stack →
      w.pool.lookup slot = some ⟨gen, .conn c⟩ →
        ∃ c', w'.pool.lookup slot = some ⟨gen, .conn c'⟩) : Owned w' := by
  refine ⟨fun slot gen f hf => ?_, fun kind slot gen hf => ?_, fun slot hs => ?_,
    h.peers.sublist hstk, fun why slot hf => ?_⟩
  · obtain ⟨c, hc⟩ := h.frames slot gen f (hstk.subset hf)
    exact hconn slot gen f c hf hc
  · rw [hlen]
    exact h.timers kind slot gen (hstk.subset hf)
  · rw [hlen]
    exact (hfree slot hs).elim (h.range slot) id
  · rw [hlen]
    exact h.peerRange why slot (hstk.subset hf)

/-- Handlers of a connection are called. -/
theorem Owned.push (h : Owned w) (fs : List Frame) {c : Conn}
    (hc : w.pool.lookup slot = some ⟨gen, .conn c⟩) :
    Owned { w with stack := fs.map (.conn slot gen) ++ w.stack } := by
  have hnew : ∀ f ∈ fs.map (PFrame.conn slot gen), ∃ g, f = .conn slot gen g := by
    intro f hf
    obtain ⟨g, -, rfl⟩ := List.mem_map.mp hf
    exact ⟨g, rfl⟩
  refine ⟨fun slot' gen' f hf => ?_, fun kind slot' gen' hf => ?_, h.range, ?_,
    fun why slot' hf => ?_⟩
  · rcases List.mem_append.mp hf with hf | hf
    · obtain ⟨g, hg⟩ := hnew _ hf
      cases hg
      exact ⟨c, hc⟩
    · exact h.frames slot' gen' f hf
  · rcases List.mem_append.mp hf with hf | hf
    · obtain ⟨g, hg⟩ := hnew _ hf
      cases hg
    · exact h.timers kind slot' gen' hf
  · refine List.pairwise_append.mpr ⟨?_, h.peers, fun f hf g _ slot' hs => ?_⟩
    · refine List.pairwise_of_forall_mem_list fun f hf g _ slot' hs => ?_
      obtain ⟨g, rfl⟩ := hnew _ hf
      cases hs
    · obtain ⟨g, rfl⟩ := hnew _ hf
      cases hs
  · rcases List.mem_append.mp hf with hf | hf
    · obtain ⟨g, hg⟩ := hnew _ hf
      cases hg
    · exact h.peerRange why slot' hf

theorem Owned.finish {c : Conn} {o : Outcome} {rest : List PFrame} (h : Owned w)
    (hx : w.pool.lookup slot = some ⟨gen, .conn c⟩) (hrest : rest.Sublist w.stack) :
    Owned (w.finish slot gen c o rest) := by
  have hgen : ∀ slot' gen' c', w.pool.lookup slot' = some ⟨gen', .conn c'⟩ →
      ∃ c'', (w.finish slot gen c o rest).pool.lookup slot' = some ⟨gen', .conn c''⟩ :=
    fun _ _ _ hc => Process.finish_gen hx hc
  have hfree : ∀ slot' ∈ (w.finish slot gen c o rest).pool.free,
      slot' ∈ w.pool.free ∨ slot' < w.pool.cells.length := by
    intro slot' hs
    rw [Process.finish] at hs
    split at hs
    · rcases List.mem_cons.mp hs with rfl | hs
      · exact .inr (Pool.lt_of_lookup hx)
      · exact .inl hs
    · exact .inl hs
  have hkeep : Owned ⟨(w.finish slot gen c o rest).pool, rest, w.log, w.wild⟩ :=
    h.keep hrest (w.length_finish slot gen c o rest) hfree fun _ _ _ _ _ hc => hgen _ _ _ hc
  have hself : (w.finish slot gen c o rest).pool.lookup slot = some ⟨gen, .conn o.1⟩ :=
    Process.lookup_finish hx
  exact hkeep.push o.2 hself

/-- A slot is taken for which no handler is running. -/
theorem Owned.get {pool : Pool Occupant} {v : Occupant} (h : Owned w)
    (hget : w.pool.get v = some (slot, pool))
    (hfresh : ∀ f ∈ w.stack, f.connSlot = none ∨ f.connSlot ≠ w.pool.free.head?) (log : List Act) :
    Owned { w with pool := pool, log := log } ∧ ∀ f ∈ w.stack, f.connSlot ≠ some slot := by
  obtain ⟨rest, hf, hpool⟩ := Pool.get_eq hget
  have hapart : ∀ f ∈ w.stack, f.connSlot ≠ some slot := by
    intro f hmem hslot
    rcases hfresh f hmem with hnone | hne
    · rw [hnone] at hslot
      cases hslot
    · exact hne (by rw [hslot, hf]; rfl)
  refine ⟨h.keep (List.Sublist.refl _) (Pool.length_get hget) (fun slot' hs => ?_)
    fun slot' gen' f c hmem hc => ?_, hapart⟩
  · refine .inl ?_
    rw [hf]
    rw [show pool.free = rest by rw [hpool]] at hs
    exact List.mem_cons_of_mem _ hs
  · have hne : slot ≠ slot' := fun he => hapart _ hmem (congrArg some he.symm)
    exact ⟨c, (Pool.lookup_get_ne hget hne).trans hc⟩

theorem Owned.takeBare {b : Bare} (h : Owned w)
    (hfresh : ∀ f ∈ w.stack, f.connSlot = none ∨ f.connSlot ≠ w.pool.free.head?) :
    Owned (w.takeBare b) := by
  rw [Process.takeBare]
  split
  · next hget => exact (h.get hget hfresh w.log).1
  · exact h

/-- A slot is changed, and perhaps given back. -/
theorem Owned.modify {f : Occupant → Occupant} {pool : Pool Occupant} (h : Owned w)
    (hf : ∀ g ∈ w.stack, g.connSlot = some slot → ∀ c, ∃ c', f (.conn c) = .conn c')
    (hlt : slot < w.pool.cells.length)
    (hpool : pool = w.pool.modify slot f ∨ pool = (w.pool.modify slot f).put slot)
    (log : List Act) (wild : Bool) :
    Owned { w with pool := pool, log := log, wild := wild } := by
  have hlookup : ∀ slot', pool.lookup slot' = (w.pool.modify slot f).lookup slot' := by
    rcases hpool with rfl | rfl
    · exact fun _ => rfl
    · exact fun _ => rfl
  refine h.keep (List.Sublist.refl _) ?_ (fun slot' hs => ?_) fun slot' gen' g c hg hc => ?_
  · rcases hpool with rfl | rfl
    · exact Pool.length_modify
    · exact Pool.length_modify
  · rcases hpool with rfl | rfl
    · exact .inl hs
    · rcases List.mem_cons.mp hs with rfl | hs
      · exact .inr hlt
      · exact .inl hs
  · show ∃ c', pool.lookup slot' = _
    rw [hlookup]
    by_cases hs : slot = slot'
    · subst hs
      obtain ⟨c', hc'⟩ := hf _ hg rfl c
      rw [Pool.lookup_modify_self, hc]
      exact ⟨c', by simp [hc']⟩
    · exact ⟨c, (Pool.lookup_modify_ne hs).trans hc⟩

theorem Owned.drop {rest : List PFrame} (h : Owned w) (hrest : rest.Sublist w.stack) :
    Owned { w with stack := rest } :=
  h.keep hrest rfl (fun _ => .inl) fun _ _ _ c _ hc => ⟨c, hc⟩

theorem Owned.clearTimer (h : Owned w) : Owned (w.clearTimer slot gen) := by
  have hwild : ∀ log, Owned { w with log := log, wild := true } := fun _ =>
    ⟨h.frames, h.timers, h.range, h.peers, h.peerRange⟩
  rw [Process.clearTimer]
  split
  · next gen' t hx =>
    split
    · split
      · exact h.modify (fun _ _ _ c => ⟨c, rfl⟩) (Pool.lt_of_lookup hx) (.inr rfl) _ w.wild
      · exact hwild _
    · exact hwild _
  · exact hwild _

theorem Owned.timeoutReturn {rest : List PFrame} (h : Owned w)
    (hstk : w.stack = .timer .timeout slot gen :: rest) :
    Owned (w.timeoutReturn slot gen rest) := by
  have hlt := h.timers .timeout slot gen (by simp [hstk])
  have hrest : Owned { w with stack := rest } := h.drop (hstk ▸ List.sublist_cons_self _ _)
  refine hrest.modify (fun _ _ _ c => ⟨c, ?_⟩) hlt (.inr rfl) _ w.wild
  simp only [Occupant.finish, ite_self]

/-- A slot is closed that no running handler has. -/
theorem Owned.ngxeClose (h : Owned w) (hlt : slot < w.pool.cells.length)
    (hapart : ∀ f ∈ w.stack, f.connSlot ≠ some slot) : Owned (w.ngxeClose slot) := by
  rw [Process.ngxeClose]
  split
  · exact h
  · split
    · exact h.modify (fun g hg hs => absurd hs (hapart g hg)) hlt (.inr rfl) w.log w.wild
    · exact h.modify (fun g hg hs => absurd hs (hapart g hg)) hlt (.inl rfl) w.log w.wild

/-- A failing `ngxe_client` closes its slot, which may be another's by now, but of none of
    the handlers below it. -/
theorem Owned.failReturn {why : PeerFailure} {rest : List PFrame} (h : Owned w)
    (hstk : w.stack = .failing why slot :: rest) : Owned (w.failReturn why slot rest) := by
  have hlt := h.peerRange why slot (by simp [hstk])
  have hrest : Owned { w with stack := rest } := h.drop (hstk ▸ List.sublist_cons_self _ _)
  have hapart : ∀ f ∈ rest, f.connSlot ≠ some slot := by
    have hpeers := h.peers
    rw [hstk] at hpeers
    exact fun f hf => (List.pairwise_cons.mp hpeers).1 f hf slot rfl
  have hclose : Owned ({ w with stack := rest }.ngxCloseConnection slot) := by
    rw [Process.ngxCloseConnection]
    split
    · exact hrest.modify (fun g hg hs => absurd hs (hapart g hg)) hlt (.inr rfl) w.log w.wild
    · exact hrest
  cases why with
  | setup => exact hrest
  | register => exact hclose
  | declined => exact hclose
  | session => exact hrest.ngxeClose hlt hapart

/-- `ngxe_client` fails with a slot for which no handler is running. -/
theorem Owned.clientFailed {pool : Pool Occupant} {v : Occupant} {why : PeerFailure} (h : Owned w)
    (hget : w.pool.get v = some (slot, pool))
    (hfresh : ∀ f ∈ w.stack, f.connSlot = none ∨ f.connSlot ≠ w.pool.free.head?) :
    Owned (w.clientFailed why slot pool) := by
  obtain ⟨hp, hapart⟩ := h.get hget hfresh w.log
  have hlt : slot < pool.cells.length := by
    rw [Pool.length_get hget]
    exact h.range slot (Pool.mem_free_of_get hget)
  have hback : Owned { w with pool := if why.givesBack then pool.put slot else pool } := by
    split
    · refine hp.keep (List.Sublist.refl _) rfl (fun slot' hs => ?_) fun _ _ _ c _ hc => ⟨c, hc⟩
      rcases List.mem_cons.mp hs with rfl | hs
      · exact .inr hlt
      · exact .inl hs
    · exact hp
  refine ⟨fun slot' gen' f hf => ?_, fun kind slot' gen' hf => ?_, hback.range, ?_,
    fun why' slot' hf => ?_⟩
  · exact hback.frames slot' gen' f (by simpa [Process.clientFailed] using hf)
  · exact hback.timers kind slot' gen' (by simpa [Process.clientFailed] using hf)
  · refine List.pairwise_cons.mpr ⟨fun f hf slot' hs => ?_, hback.peers⟩
    cases hs
    exact hapart f hf
  · rcases List.mem_cons.mp hf with hf | hf
    · cases hf
      show slot < (ite _ _ _ : Pool Occupant).cells.length
      split
      · exact hlt
      · exact hlt
    · exact hback.peerRange why' slot' hf

theorem owned_step {i : PInput} (h : Owned w) (hG : FreshSlot w i) (hs : PStep cfg w i w') :
    Owned w' := by
  cases hs with
  | event i hx hi hs => exact h.finish hx (List.Sublist.refl _)
  | op o ok hx hperl hopen => exact h.finish hx (List.Sublist.refl _)
  | @closeBare slot gen b ok hx hperl hknown =>
    refine h.ngxeClose (Pool.lt_of_lookup hx) fun f hf hslot => ?_
    -- a running handler would find its connection in the slot
    cases f with
    | conn slot' gen' f =>
      cases hslot
      obtain ⟨c, hc⟩ := h.frames slot gen' f hf
      cases Option.some.inj (hc.symm.trans hx)
    | timer kind slot' gen' => cases hslot
    | failing why slot' => cases hslot
    | outside => cases hslot
  | resume i hstk hx hi hs => exact h.finish hx (hstk ▸ List.sublist_cons_self _ _)
  | elsewhere ok hstk hx hne =>
    rw [Process.returnElsewhere]
    split
    · exact h.drop (hstk ▸ List.sublist_cons_self _ _)
    · exact ⟨h.frames, h.timers, h.range, h.peers, h.peerRange⟩
  | accept hstk hget =>
    obtain ⟨hp, -⟩ := h.get hget (by simp [hstk]) w.log
    exact ⟨by simp, by simp, hp.range, by simp, by simp⟩
  | @client slot pool connected timeout hperl hget =>
    obtain ⟨hp, -⟩ := h.get hget hG w.log
    exact hp.push _ (Pool.lookup_get_self hget (h.range slot (Pool.mem_free_of_get hget)))
  | clientFails why hperl hget => exact h.clientFailed hget hG
  | clientRefused why => exact h
  | failReturn hstk => exact h.failReturn hstk
  | server fd ok hperl => exact h.takeBare hG
  | timerSet kind hperl hget => exact (h.get hget hG _).1
  | timerRefused kind => exact h
  | timerFails kind hperl => exact h.takeBare hG
  | timerClear kind hperl hset => exact h.clearTimer
  | @fire slot gen t hx hstk ht =>
    have hm := h.modify (f := Occupant.fire) (fun _ _ _ c => ⟨c, rfl⟩) (Pool.lt_of_lookup hx)
      (.inl rfl) w.log w.wild
    refine ⟨by simp, fun kind slot' gen' hf => ?_, hm.range, by simp, by simp⟩
    obtain ⟨-, rfl, -⟩ : kind = t.kind ∧ slot' = slot ∧ gen' = gen := by simpa using hf
    show slot' < (w.pool.modify slot' Occupant.fire).cells.length
    rw [Pool.length_modify]
    exact Pool.lt_of_lookup hx
  | timeoutReturn hstk => exact h.timeoutReturn hstk
  | intervalReturn hstk => exact h.drop (hstk ▸ List.sublist_cons_self _ _)
  | leave hstk => exact h.drop (hstk ▸ List.sublist_cons_self _ _)

theorem owned_init (n : Nat) : Owned (.init n) :=
  ⟨by simp [Process.init], by simp [Process.init], by simp [Process.init, Pool.init],
    by simp [Process.init], by simp [Process.init]⟩

/-- In every run in which no slot is taken while a handler of the connection that had it
    is on the stack, handlers act on their own open session only. -/
theorem handlers_own_slot (cfg : Config) (w : Process)
    (h : Process.Reachable cfg FreshSlot w) : OwnSlots w :=
  (h.invariant owned_init fun _ _ _ h hG hs => owned_step h hG hs).ownSlots

theorem handlers_own_slot_echo :
    ∃ w, Process.Reachable ⟨.clear, 4096, 4080⟩ FreshSlot w ∧ OwnSlots w ∧
      w.stack = [.conn 1 4 (.inCallback 0 .readerData)] ∧ w.goesOn 1 = true := by
  have hr : Process.Reachable ⟨.clear, 4096, 4080⟩ FreshSlot _ :=
    ⟨3, .of_run [.server true true, .leave, .accept, .op 1 (.reader true 0) true,
      .clientFails .declined, .failReturn, .timerSet .timeout, .leave, .event 1 (.arrive [97]),
      .event 1 .readEvent, .resume (.recv false true)] rfl⟩
  exact ⟨_, hr, handlers_own_slot _ _ hr, by decide⟩

/-- A reader callback closes its connection and sets a timeout, which gets the slot: the
    rest of `ngxe_reader_handler` finds `c->destroyed` zeroed and goes on with it. -/
theorem handler_meets_timer :
    ¬ ∀ cfg w, Process.Reachable cfg Machine.always w → OwnSlots w := by
  intro h
  have hr : Process.Reachable ⟨.clear, 4096, 4080⟩ Machine.always _ :=
    ⟨1, .of_run [.leave, .accept, .op 0 (.reader true 0) true, .leave, .event 0 (.arrive [97]),
      .event 0 .readEvent, .resume (.recv false true), .op 0 .close true,
      .timerSet .timeout] rfl⟩
  obtain ⟨c, hc, -⟩ := h _ _ hr 0 1 0 .readerData [] rfl nofun (by decide)
  cases hc

end NginxEngine.XS
