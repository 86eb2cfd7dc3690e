import Mathlib.Data.BitVec
import NginxEngine.Core.RbtreeDelete
import NginxEngine.Core.RbtreeInsert
import NginxEngine.Deadlines

/-!
# Event timers

`ngx_event_timer.c` and `ngx_event_timer.h`: the events that wait for a time are in a
red-black tree, under the time in milliseconds at which they expire. That number has a fixed
width and starts again at zero, every 49 days if it has 32 bits.

What the tree is for is said by a queue of deadlines over unbounded times. `Tracks` relates the
two, and each operation on the tree is shown to be the operation on the queue.

## Main definitions

- `Timers` — the tree, the clock, and `timer_set` and `timedout` of every event
- `Timers.addTimer`, `delTimer`, `findTimer`, `expireTurn` — the operations
- `Tracks` — the tree holds the events of a queue of deadlines with unbounded times

## Main results

- `Tracks.addTimer`, `delTimer`, `expireTurn`, `findTimer` — the operations are those of the queue
- `Tracks.zero` — the memory of an event that does not wait may be overwritten
-/

namespace NginxEngine.Core

/-- `NGX_TIMER_LAZY_DELAY`. -/
def lazyDelay : Nat := 300

/-- The comparison of `ngx_rbtree_insert_timer_value`. -/
def timerBefore {n : Nat} (a b : BitVec n) : Bool := (a - b).toInt < 0

/-- `ngx_abs` of an `ngx_msec_int_t`. -/
def ngxAbs {n : Nat} (v : BitVec n) : BitVec n := if 0 ≤ v.toInt then v else -v

/-- `ngx_event_timer_rbtree` with `ngx_current_msec`, and `timer_set` and `timedout` of the
    events. An event goes by the address of its `timer` node; `ngx_msec_t` has `w + 1` bits. -/
structure Timers (w : Nat) where
  rbtree : Rbtree (BitVec (w + 1))
  timerSet : Ptr → Bool
  timedout : Ptr → Bool
  currentMsec : BitVec (w + 1)

namespace Timers

variable {w : Nat}

/-- `ngx_event_timer_init`, at the time `msec`. -/
def init (sentinel : Ptr) (links : Ptr → RB.Links Ptr) (key : Ptr → BitVec (w + 1))
    (msec : BitVec (w + 1)) : Timers w :=
  ⟨.init sentinel links key, fun _ => false, fun _ => false, msec⟩

/-- `ngx_event_find_timer`; minus one is `NGX_TIMER_INFINITE`. -/
def findTimer (t : Timers w) (fuel : Nat) : Option (BitVec (w + 1)) :=
  if t.rbtree.root = t.rbtree.sentinel then some (-1#(w + 1))
  else (t.rbtree.min fuel t.rbtree.root).map fun node =>
    let timer := t.rbtree.key node - t.currentMsec
    if 0 < timer.toInt then timer else 0#(w + 1)

/-- `ngx_event_del_timer`. -/
def delTimer (t : Timers w) (fuel : Nat) (ev : Ptr) : Option (Timers w) :=
  (t.rbtree.delete fuel ev).map fun r =>
    { t with rbtree := r, timerSet := Function.update t.timerSet ev false }

/-- The end of `ngx_event_add_timer`, where the event goes into the tree. -/
def insertTimer (t : Timers w) (fuel : Nat) (ev : Ptr) (key : BitVec (w + 1)) :
    Option (Timers w) :=
  let r := { t.rbtree with key := Function.update t.rbtree.key ev key }
  (r.insert timerBefore fuel ev).map fun r =>
    { t with rbtree := r, timerSet := Function.update t.timerSet ev true }

/-- `ngx_event_add_timer`. -/
def addTimer (t : Timers w) (fuel : Nat) (ev : Ptr) (timer : BitVec (w + 1)) :
    Option (Timers w) :=
  let key := t.currentMsec + timer
  if t.timerSet ev then
    let diff := key - t.rbtree.key ev
    if (ngxAbs diff).toInt < lazyDelay then some t
    else (t.delTimer fuel ev).bind fun t => t.insertTimer fuel ev key
  else t.insertTimer fuel ev key

/-- One turn of the loop of `ngx_event_expire_timers`: the event whose handler is called, or
    the end of the loop. -/
def expireTurn (t : Timers w) (fuel : Nat) : Option (Option Ptr × Timers w) :=
  if t.rbtree.root = t.rbtree.sentinel then some (none, t)
  else (t.rbtree.min fuel t.rbtree.root).bind fun node =>
    if (t.rbtree.key node - t.currentMsec).toInt ≤ 0 then
      (t.delTimer fuel node).map fun t =>
        (some node, { t with timedout := Function.update t.timedout node true })
    else some (none, t)

/-- The part of `ngx_memzero(ev, sizeof(ngx_event_t))` that is about the timer. -/
def zero (t : Timers w) (ev : Ptr) : Timers w :=
  { t with
    rbtree := { t.rbtree with
      links := Function.update t.rbtree.links ev ⟨NULL, NULL, NULL, .black⟩
      key := Function.update t.rbtree.key ev 0 }
    timerSet := Function.update t.timerSet ev false
    timedout := Function.update t.timedout ev false }

end Timers

/-! ### The queue of deadlines behind the tree -/

/-- The tree holds the events of a queue of deadlines, in its order and under its deadlines;
    the times that may be compared lie within half the range of the clock. -/
structure Tracks {w : Nat} (t : Timers w) (q : Deadlines Ptr) : Prop where
  tree : t.rbtree.InOrder q.queue
  key : ∀ e ∈ q.queue, t.rbtree.key e = BitVec.ofNat (w + 1) (q.due e)
  set : ∀ e, t.timerSet e = decide (e ∈ q.queue)
  clock : t.currentMsec = BitVec.ofNat (w + 1) q.now
  late : ∀ e ∈ q.queue, q.now ≤ q.due e + 2 ^ w
  early : ∀ e ∈ q.queue, q.due e < q.now + 2 ^ w
  spread : ∀ e ∈ q.queue, ∀ f ∈ q.queue, q.due e < q.due f + 2 ^ w

namespace Tracks

variable {w fuel : Nat} {t : Timers w} {q : Deadlines Ptr} {e : Ptr} {d : Nat}

/-- A deleted timer is a disarmed event. -/
theorem delTimer (h : Tracks t q) (he : e ∈ q.queue)
    (hfuel : 2 * Nat.log 2 (q.queue.length + 1) < fuel) :
    ∃ t', t.delTimer fuel e = some t' ∧ Tracks t' (q.disarm e) ∧
      t'.rbtree.sentinel = t.rbtree.sentinel := by
  obtain ⟨r, hr, hin, hs, hk, -⟩ := Rbtree.delete_spec h.tree he hfuel
  have hmem : ∀ x, x ∈ (q.disarm e).queue ↔ x ≠ e ∧ x ∈ q.queue := fun x =>
    h.tree.nodup.mem_erase_iff
  refine ⟨{ t with rbtree := r, timerSet := Function.update t.timerSet e false },
    by rw [Timers.delTimer, hr]; rfl, ⟨hin, ?_, ?_, h.clock, ?_, ?_, ?_⟩, hs⟩
  · intro x hx
    obtain ⟨hxe, hx⟩ := (hmem x).mp hx
    rw [hk, Function.update_of_ne hxe]
    exact h.key x hx
  · intro x
    by_cases hxe : x = e
    · simp [hxe, hmem]
    · simp [hxe, hmem, h.set x]
  · exact fun x hx => h.late x ((hmem x).mp hx).2
  · exact fun x hx => h.early x ((hmem x).mp hx).2
  · exact fun x hx y hy => h.spread x ((hmem x).mp hx).2 y ((hmem y).mp hy).2

/-- An inserted timer is an item put into the queue. -/
theorem insertTimer (h : Tracks t q) (hq : q.queue.Pairwise fun x y => q.due x ≤ q.due y)
    (he : e ∉ q.queue) (hs : e ≠ t.rbtree.sentinel) (hlate : q.now ≤ d + 2 ^ w)
    (hearly : d < q.now + 2 ^ w)
    (hspread : ∀ x ∈ q.queue, d < q.due x + 2 ^ w ∧ q.due x < d + 2 ^ w)
    (hfuel : 2 * Nat.log 2 (q.queue.length + 1) < fuel) :
    ∃ t', t.insertTimer fuel e (BitVec.ofNat (w + 1) d) = some t' ∧ Tracks t' (q.insert e d) ∧
      t'.rbtree.sentinel = t.rbtree.sentinel := by
  let r : Rbtree (BitVec (w + 1)) :=
    { t.rbtree with key := Function.update t.rbtree.key e (BitVec.ofNat (w + 1) d) }
  have hother : ∀ x ∈ q.queue, x ≠ e := fun x hx => ne_of_mem_of_not_mem hx he
  have hkey : ∀ x ∈ q.queue, r.key x = BitVec.ofNat (w + 1) (q.due x) := fun x hx =>
    (Function.update_of_ne (hother x hx) _ _).trans (h.key x hx)
  have hprec : ∀ x ∈ q.queue, r.Precedes timerBefore e x ↔ d < q.due x := by
    intro x hx
    obtain ⟨hd, hx'⟩ := hspread x hx
    rw [Rbtree.Precedes, hkey x hx, show r.key e = BitVec.ofNat (w + 1) d from
      Function.update_self .., timerBefore, decide_eq_true_iff,
      toInt_ofNat_sub hx'.le hd]
    omega
  have hmono : q.queue.Pairwise fun x y =>
      r.Precedes timerBefore e x → r.Precedes timerBefore e y := by
    refine hq.imp_of_mem fun {x y} hx hy hxy => ?_
    rw [hprec x hx, hprec y hy]
    omega
  obtain ⟨r', hr', hin, hs', hk, -⟩ := Rbtree.insert_spec (h.tree.setKey r.key) he hs hmono hfuel
  have hqueue : q.queue.orderedInsert (r.Precedes timerBefore) e = (q.insert e d).queue := by
    apply Deadlines.orderedInsert_congr
    intro x hx
    rw [hprec x hx, Function.update_self, Function.update_of_ne (hother x hx)]
  have hmem : ∀ x, x ∈ (q.insert e d).queue ↔ x = e ∨ x ∈ q.queue := fun x =>
    List.mem_orderedInsert _
  have hdue : ∀ x ∈ q.queue, (q.insert e d).due x = q.due x := fun x hx =>
    Function.update_of_ne (hother x hx) _ _
  have hduee : (q.insert e d).due e = d := Function.update_self ..
  refine ⟨{ t with rbtree := r', timerSet := Function.update t.timerSet e true },
    by rw [Timers.insertTimer, hr']; rfl, ⟨hqueue ▸ hin, ?_, ?_, h.clock, ?_, ?_, ?_⟩, hs'⟩
  · intro x hx
    show r'.key x = _
    rw [hk]
    rcases (hmem x).mp hx with rfl | hx
    · rw [hduee]
      exact Function.update_self ..
    · rw [hdue x hx]
      exact hkey x hx
  · intro x
    by_cases hxe : x = e
    · simp [hxe, hmem]
    · simp [hxe, hmem, h.set x]
  · intro x hx
    rcases (hmem x).mp hx with rfl | hx
    · rwa [hduee]
    · rw [hdue x hx]
      exact h.late x hx
  · intro x hx
    rcases (hmem x).mp hx with rfl | hx
    · rwa [hduee]
    · rw [hdue x hx]
      exact h.early x hx
  · intro x hx y hy
    rcases (hmem x).mp hx with hx | hx <;> rcases (hmem y).mp hy with hy | hy
    · rw [hx, hy]
      exact Nat.lt_add_of_pos_right (Nat.two_pow_pos w)
    · rw [hx, hduee, hdue y hy]
      exact (hspread y hy).1
    · rw [hy, hduee, hdue x hx]
      exact (hspread x hx).2
    · rw [hdue x hx, hdue y hy]
      exact h.spread x hx y hy

/-- Other deadlines that are asked for change nothing in the tree. -/
theorem asked (h : Tracks t q) (f : Ptr → Nat) : Tracks t { q with asked := f } :=
  ⟨h.tree, h.key, h.set, h.clock, h.late, h.early, h.spread⟩

/-- Time passes, but no event is left overdue for more than half the range of the clock. -/
theorem pass {n : Nat} (h : Tracks t q) (hlate : ∀ e ∈ q.queue, q.now + n ≤ q.due e + 2 ^ w) :
    Tracks { t with currentMsec := t.currentMsec + BitVec.ofNat (w + 1) n } (q.pass n) := by
  refine ⟨h.tree, h.key, h.set, ?_, hlate, fun e he => ?_, h.spread⟩
  · rw [Deadlines.pass, BitVec.ofNat_add, ← h.clock]
  · have he' : q.due e < q.now + 2 ^ w := h.early e he
    rw [Deadlines.pass]
    dsimp only
    omega

/-- The memory of an event that is not in the tree may be overwritten. -/
theorem zero (h : Tracks t q) (he : e ∉ q.queue) (hs : e ≠ t.rbtree.sentinel) :
    Tracks (t.zero e) q := by
  have hne : ∀ x ∈ q.queue, x ≠ e := fun x hx => ne_of_mem_of_not_mem hx he
  refine ⟨h.tree.congr rfl rfl fun x hx => ?_, fun x hx => ?_, fun x => ?_, h.clock, h.late,
    h.early, h.spread⟩
  · refine Function.update_of_ne ?_ _ _
    rcases hx with rfl | hx
    · exact hs.symm
    · exact hne x hx
  · exact (Function.update_of_ne (hne x hx) _ _).trans (h.key x hx)
  · by_cases hxe : x = e
    · rw [hxe, decide_eq_false he]
      exact Function.update_self ..
    · exact (Function.update_of_ne hxe _ _).trans (h.set x)

/-- The lazy test is a test of the deadlines. -/
theorem lazy_iff {a b : Nat} (hlo : b < a + 2 ^ w) (hhi : a < b + 2 ^ w) :
    (ngxAbs (BitVec.ofNat (w + 1) a - BitVec.ofNat (w + 1) b)).toInt < lazyDelay ↔
      a < b + lazyDelay ∧ b < a + lazyDelay := by
  have hd := toInt_ofNat_sub hlo.le hhi
  rw [ngxAbs]
  by_cases hs : 0 ≤ (BitVec.ofNat (w + 1) a - BitVec.ofNat (w + 1) b).toInt
  · rw [if_pos hs, hd]
    omega
  · rw [if_neg hs, BitVec.neg_sub, BitVec.add_comm, ← BitVec.sub_eq_add_neg,
      toInt_ofNat_sub hhi.le hlo]
    omega

/-- **Adding a timer** is arming the event. -/
theorem addTimer {timer : BitVec (w + 1)} (h : Tracks t q) (hok : q.Ok lazyDelay)
    (hs : e ≠ t.rbtree.sentinel) (htimer : timer.toNat < 2 ^ w)
    (hspread : ∀ x ∈ q.queue, q.now + timer.toNat < q.due x + 2 ^ w)
    (hfuel : 2 * Nat.log 2 (q.queue.length + 1) < fuel) :
    ∃ t', t.addTimer fuel e timer = some t' ∧ Tracks t' (q.arm lazyDelay e timer.toNat) ∧
      t'.rbtree.sentinel = t.rbtree.sentinel := by
  have hkey : t.currentMsec + timer = BitVec.ofNat (w + 1) (q.now + timer.toNat) := by
    rw [h.clock, BitVec.ofNat_add, BitVec.ofNat_toNat, BitVec.setWidth_eq]
  have hsorted : q.queue.Pairwise fun x y => q.due x ≤ q.due y := by
    refine hok.sorted.imp fun {x y} hxy => ?_
    rw [Deadlines.Before] at hxy
    omega
  have hnear : ∀ x ∈ q.queue, q.due x < q.now + timer.toNat + 2 ^ w := fun x hx =>
    (h.early x hx).trans_le (by omega)
  -- the event is out of the tree, and goes in with the new deadline
  have hins : ∀ t₁ : Timers w, t₁.rbtree.sentinel = t.rbtree.sentinel →
      Tracks t₁ (Deadlines.disarm
        { q with asked := Function.update q.asked e (q.now + timer.toNat) } e) →
      ∃ t', t₁.insertTimer fuel e (BitVec.ofNat (w + 1) (q.now + timer.toNat)) = some t' ∧
        Tracks t' ((Deadlines.disarm
          { q with asked := Function.update q.asked e (q.now + timer.toNat) } e).insert e
            (q.now + timer.toNat)) ∧ t'.rbtree.sentinel = t.rbtree.sentinel := by
    intro t₁ hs₁ h₁
    have hlen : (q.queue.erase e).length ≤ q.queue.length := List.erase_sublist.length_le
    have hlog := Nat.log_mono_right (b := 2) (Nat.succ_le_succ hlen)
    rw [← hs₁] at hs ⊢
    refine h₁.insertTimer (hsorted.sublist List.erase_sublist) h.tree.nodup.not_mem_erase hs
      ?_ ?_ (fun x hx => ?_) ?_
    · exact Nat.le_add_right_of_le (Nat.le_add_right _ _)
    · exact Nat.add_lt_add_left htimer _
    · have hx' := List.mem_of_mem_erase hx
      exact ⟨hspread x hx', hnear x hx'⟩
    · exact lt_of_le_of_lt (Nat.mul_le_mul_left 2 hlog) hfuel
  rw [Timers.addTimer, Deadlines.arm]
  simp only [h.set e, hkey, decide_eq_true_eq]
  by_cases he : e ∈ q.queue
  · rw [if_pos he, h.key e he]
    by_cases hlazy : q.now + timer.toNat < q.due e + lazyDelay ∧
        q.due e < q.now + timer.toNat + lazyDelay
    · rw [if_pos ((lazy_iff (hnear e he) (hspread e he)).mpr hlazy), if_pos ⟨he, hlazy⟩]
      exact ⟨t, rfl, h.asked _, rfl⟩
    · rw [if_neg fun hc => hlazy ((lazy_iff (hnear e he) (hspread e he)).mp hc),
        if_neg fun hc => hlazy hc.2]
      obtain ⟨t₁, he₁, h₁, hs₁⟩ :=
        (h.asked (Function.update q.asked e (q.now + timer.toNat))).delTimer he hfuel
      rw [he₁, Option.bind_some]
      exact hins t₁ hs₁ h₁
  · rw [if_neg he, if_neg fun hc => he hc.1]
    refine hins t rfl ?_
    rw [Deadlines.disarm]
    dsimp only
    rw [List.erase_of_not_mem he]
    exact h.asked _

/-- The first event of the tree is that of the queue. -/
theorem min (h : Tracks t q) {rest : List Ptr} (hq : q.queue = e :: rest)
    (hfuel : 2 * Nat.log 2 (q.queue.length + 1) < fuel) :
    t.rbtree.root ≠ t.rbtree.sentinel ∧ t.rbtree.min fuel t.rbtree.root = some e ∧
      (t.rbtree.key e - t.currentMsec).toInt = (q.due e : Int) - q.now := by
  have he : e ∈ q.queue := hq ▸ List.mem_cons_self
  have htree := h.tree
  refine ⟨fun hr => ?_, ?_, ?_⟩
  · rw [h.tree.root_eq_iff.mp hr] at he
    cases he
  · rw [hq] at htree hfuel
    exact htree.min_eq hfuel.le
  · rw [h.key e he, h.clock]
    exact toInt_ofNat_sub (h.late e he) (h.early e he)

/-- What a turn of the loop of `ngx_event_expire_timers` does. -/
inductive Turn (t : Timers w) (q : Deadlines Ptr) : Option Ptr × Timers w → Prop
  | fire {e : Ptr} {rest : List Ptr} {t' : Timers w} (hq : q.queue = e :: rest)
      (hdue : q.due e ≤ q.now) (h : Tracks t' q.pop) (hpop : q.pop.queue = rest)
      (hout : t'.timedout e = true) : Turn t q (some e, t')
  | stop (hdue : ∀ x ∈ q.queue, q.now < q.due x) (hpop : q.pop = q) : Turn t q (none, t)

/-- **A turn of the loop** takes the first event out of the queue, if it is due. -/
theorem expireTurn (h : Tracks t q) (hok : q.Ok lazyDelay)
    (hfuel : 2 * Nat.log 2 (q.queue.length + 1) < fuel) :
    ∃ r, t.expireTurn fuel = some r ∧ Turn t q r ∧
      r.2.rbtree.sentinel = t.rbtree.sentinel := by
  rw [Timers.expireTurn]
  cases hq : q.queue with
  | nil =>
    rw [if_pos (h.tree.root_eq_iff.mpr hq)]
    refine ⟨_, rfl, .stop (fun x hx => ?_) ?_, rfl⟩
    · rw [hq] at hx
      cases hx
    · rw [Deadlines.pop, hq]
  | cons e rest =>
    obtain ⟨hroot, hmin, hdiff⟩ := h.min hq hfuel
    rw [if_neg hroot, hmin, Option.bind_some, hdiff]
    by_cases hdue : q.due e ≤ q.now
    · obtain ⟨t', ht', h', hs⟩ := h.delTimer (hq ▸ List.mem_cons_self) hfuel
      have hpop : q.pop = q.disarm e := by
        rw [Deadlines.pop, Deadlines.disarm, hq, List.erase_cons_head]
        exact if_pos hdue
      rw [if_pos (by omega), ht', Option.map_some]
      refine ⟨_, rfl, .fire hq hdue ?_ ?_ (Function.update_self ..), hs⟩
      · rw [hpop]
        exact ⟨h'.tree, h'.key, h'.set, h'.clock, h'.late, h'.early, h'.spread⟩
      · rw [hpop, Deadlines.disarm, hq, List.erase_cons_head]
    · rw [if_neg (by omega)]
      refine ⟨_, rfl, .stop (hok.none_due hq (by omega)) ?_, rfl⟩
      rw [Deadlines.pop, hq]
      exact if_neg hdue

/-- **The time to sleep**: none if nothing waits, else up to the first deadline. -/
theorem findTimer (h : Tracks t q) (hfuel : 2 * Nat.log 2 (q.queue.length + 1) < fuel) :
    ∃ r, t.findTimer fuel = some r ∧ (q.queue = [] → r = -1#(w + 1)) ∧
      ∀ e rest, q.queue = e :: rest → r.toNat = q.due e - q.now := by
  rw [Timers.findTimer]
  cases hq : q.queue with
  | nil =>
    rw [if_pos (h.tree.root_eq_iff.mpr hq)]
    exact ⟨_, rfl, fun _ => rfl, fun e rest hc => by cases hc⟩
  | cons e rest =>
    obtain ⟨hroot, hmin, hdiff⟩ := h.min hq hfuel
    rw [if_neg hroot, hmin, Option.map_some]
    dsimp only
    rw [hdiff]
    refine ⟨_, rfl, fun hc => absurd hc (List.cons_ne_nil e rest), fun e' rest' hc => ?_⟩
    obtain ⟨rfl, -⟩ := List.cons.inj hc
    by_cases hpos : 0 < (q.due e : Int) - q.now
    · rw [if_pos hpos]
      have hnat := BitVec.toInt_eq_toNat_cond (t.rbtree.key e - t.currentMsec)
      have hlt := (t.rbtree.key e - t.currentMsec).isLt
      rw [hdiff] at hnat
      split at hnat <;> omega
    · rw [if_neg hpos, BitVec.toNat_zero]
      omega

end Tracks

end NginxEngine.Core
