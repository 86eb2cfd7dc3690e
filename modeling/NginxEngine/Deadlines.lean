import Mathlib.Data.List.Sort
import Mathlib.Logic.Function.Basic
import Mathlib.Tactic.Common
import Mathlib.Tactic.Ring

/-!
# A queue of deadlines

Items wait for a moment each; time is a natural number that only grows. An item may be armed
again while it waits: if the new deadline is close to the old one, the old one is kept. The
queue remembers the deadline last asked for beside the one that is kept, and in which order
the items were put in.

The second part is about clocks of a fixed width, which start again at zero: as long as all
times that are compared lie within half the range of each other, the sign of the difference
tells which one is earlier.

## Main definitions

- `Deadlines` — the items that wait, with their deadlines
- `Deadlines.arm`, `disarm`, `pass`, `pop` — the operations
- `Deadlines.Ok` — the order of the queue, and that kept deadlines are close to those asked for

## Main results

- `Deadlines.Ok.arm`, `Ok.disarm`, `Ok.pop` — the operations keep the invariant
- `Deadlines.Ok.first`, `Ok.none_due` — what is taken out, and what is left
- `Deadlines.dueNow_arm`, `dueNow_pop` — what comes up at the present moment
- `toInt_ofNat_sub` — a difference of wrapped times
-/

namespace NginxEngine

/-- Items with deadlines. `due` and `stamp` mean something for the items in the queue alone. -/
structure Deadlines (α : Type*) where
  now : Nat
  /-- The deadline an item waits for. -/
  due : α → Nat
  /-- The deadline it was last armed with. -/
  asked : α → Nat
  /-- When it was put into the queue: the number of insertions before. -/
  stamp : α → Nat
  count : Nat
  queue : List α

namespace Deadlines

variable {α : Type*} {q : Deadlines α} {a b : α} {tol d n : Nat}

/-- The order in which items come up: the earlier deadline first, among equal ones the item
    that was put in first. -/
def Before (q : Deadlines α) (a b : α) : Prop :=
  q.due a < q.due b ∨ q.due a = q.due b ∧ q.stamp a < q.stamp b

/-- The invariant; `tol` is how close a kept deadline is to the one asked for. -/
structure Ok (q : Deadlines α) (tol : Nat) : Prop where
  nodup : q.queue.Nodup
  sorted : q.queue.Pairwise q.Before
  stamps : ∀ a ∈ q.queue, q.stamp a < q.count
  near : ∀ a ∈ q.queue, q.due a < q.asked a + tol ∧ q.asked a < q.due a + tol

/-- Time passes. -/
def pass (q : Deadlines α) (n : Nat) : Deadlines α := { q with now := q.now + n }

/-- Take out the first item, if it is due. -/
def pop (q : Deadlines α) : Deadlines α :=
  match q.queue with
  | [] => q
  | a :: rest => if q.due a ≤ q.now then { q with queue := rest } else q

/-- The items that are due at the present moment, in the order in which they come up. -/
def dueNow (q : Deadlines α) : List α := q.queue.filter fun a => q.due a ≤ q.now

section Arm

variable [DecidableEq α]

/-- Put an item that does not wait into the queue, behind all that are due no later. -/
def insert (q : Deadlines α) (a : α) (d : Nat) : Deadlines α :=
  { q with
    due := Function.update q.due a d
    stamp := Function.update q.stamp a q.count
    count := q.count + 1
    queue := q.queue.orderedInsert (fun x y => Function.update q.due a d x <
      Function.update q.due a d y) a }

def disarm (q : Deadlines α) (a : α) : Deadlines α := { q with queue := q.queue.erase a }

/-- Arm an item, to come up after `delay`. A deadline less than `tol` away is kept. -/
def arm (q : Deadlines α) (tol : Nat) (a : α) (delay : Nat) : Deadlines α :=
  let d := q.now + delay
  let q' := { q with asked := Function.update q.asked a d }
  if a ∈ q.queue ∧ d < q.due a + tol ∧ q.due a < d + tol then q'
  else (q'.disarm a).insert a d

end Arm

theorem mem_of_mem_pop (h : b ∈ q.pop.queue) : b ∈ q.queue := by
  rw [pop] at h
  cases hq : q.queue with
  | nil =>
    rw [hq] at h
    exact hq ▸ h
  | cons a rest =>
    rw [hq] at h
    dsimp only at h
    split at h
    · exact List.mem_cons_of_mem _ h
    · exact hq ▸ h

theorem mem_of_mem_arm [DecidableEq α] (h : b ∈ (q.arm tol a d).queue) : b = a ∨ b ∈ q.queue := by
  rw [arm] at h
  split at h
  · exact .inr h
  · exact ((List.mem_orderedInsert _).mp h).imp_right List.mem_of_mem_erase

/-! ### The invariant -/

/-- A sorted list stays sorted if an element goes before the first one that it precedes. -/
theorem pairwise_orderedInsert {R r : α → α → Prop} [DecidableRel r] {l : List α}
    (hl : l.Pairwise R) (hbef : ∀ x ∈ l, ¬ r a x → R x a) (haft : ∀ x ∈ l, r a x → R a x)
    (hmono : ∀ x ∈ l, ∀ y ∈ l, R x y → r a x → r a y) : (l.orderedInsert r a).Pairwise R := by
  induction l with
  | nil => exact List.pairwise_singleton R a
  | cons b l ih =>
    obtain ⟨hb, hl⟩ := List.pairwise_cons.mp hl
    rw [List.orderedInsert_cons]
    by_cases hab : r a b
    · rw [if_pos hab]
      refine List.pairwise_cons.mpr ⟨fun x hx => ?_, List.pairwise_cons.mpr ⟨hb, hl⟩⟩
      rcases List.mem_cons.mp hx with rfl | hx'
      · exact haft x hx hab
      · exact haft x hx (hmono b List.mem_cons_self x hx (hb x hx') hab)
    · rw [if_neg hab]
      refine List.pairwise_cons.mpr ⟨fun x hx => ?_, ih hl ?_ ?_ ?_⟩
      · rcases (List.mem_orderedInsert r).mp hx with rfl | hx
        · exact hbef b List.mem_cons_self hab
        · exact hb x hx
      · exact fun x hx => hbef x (List.mem_cons_of_mem _ hx)
      · exact fun x hx => haft x (List.mem_cons_of_mem _ hx)
      · exact fun x hx y hy => hmono x (List.mem_cons_of_mem _ hx) y (List.mem_cons_of_mem _ hy)

/-- The place of an element depends on how it compares with the others alone. -/
theorem orderedInsert_congr {r r' : α → α → Prop} [DecidableRel r] [DecidableRel r'] {l : List α}
    (h : ∀ x ∈ l, r a x ↔ r' a x) : l.orderedInsert r a = l.orderedInsert r' a := by
  induction l with
  | nil => rfl
  | cons b l ih =>
    rw [List.orderedInsert_cons, List.orderedInsert_cons,
      ih fun x hx => h x (List.mem_cons_of_mem _ hx)]
    simp only [h b List.mem_cons_self]

namespace Ok

theorem pass (h : q.Ok tol) (n : Nat) : (q.pass n).Ok tol := ⟨h.nodup, h.sorted, h.stamps, h.near⟩

/-- A queue of which a part is left. -/
theorem sublist (h : q.Ok tol) {l : List α} (hl : l.Sublist q.queue) :
    Ok { q with queue := l } tol :=
  ⟨h.nodup.sublist hl, h.sorted.sublist hl, fun a ha => h.stamps a (hl.subset ha),
    fun a ha => h.near a (hl.subset ha)⟩

theorem pop (h : q.Ok tol) : q.pop.Ok tol := by
  rw [Deadlines.pop]
  cases hq : q.queue with
  | nil => exact h
  | cons a rest =>
    dsimp only
    by_cases hd : q.due a ≤ q.now
    · rw [if_pos hd]
      exact h.sublist (hq ▸ List.sublist_cons_self a rest)
    · rw [if_neg hd]
      exact h

/-- The first item of the queue comes up before all others. -/
theorem first (h : q.Ok tol) {rest : List α} (hq : q.queue = a :: rest) :
    ∀ b ∈ rest, q.Before a b := by
  have hs := h.sorted
  rw [hq] at hs
  exact (List.pairwise_cons.mp hs).1

/-- If the first item of the queue is not due, none is. -/
theorem none_due (h : q.Ok tol) {rest : List α} (hq : q.queue = a :: rest)
    (ha : q.now < q.due a) : ∀ b ∈ q.queue, q.now < q.due b := by
  intro b hb
  rw [hq] at hb
  rcases List.mem_cons.mp hb with rfl | hb
  · exact ha
  · rcases h.first hq b hb with hlt | ⟨heq, -⟩ <;> omega

variable [DecidableEq α]

theorem disarm (h : q.Ok tol) (a : α) : (q.disarm a).Ok tol := h.sublist List.erase_sublist

theorem insert (h : q.Ok tol) (ha : a ∉ q.queue) (hd : d < q.asked a + tol ∧ q.asked a < d + tol) :
    (q.insert a d).Ok tol := by
  -- the other items have kept their deadlines and stamps
  have hdue : ∀ x ∈ q.queue, Function.update q.due a d x = q.due x := fun x hx =>
    Function.update_of_ne (ne_of_mem_of_not_mem hx ha) _ _
  have hst : ∀ x ∈ q.queue, Function.update q.stamp a q.count x = q.stamp x := fun x hx =>
    Function.update_of_ne (ne_of_mem_of_not_mem hx ha) _ _
  refine ⟨?_, pairwise_orderedInsert ?_ ?_ ?_ ?_, ?_, ?_⟩
  · exact (List.perm_orderedInsert _ a _).nodup_iff.mpr (List.nodup_cons.mpr ⟨ha, h.nodup⟩)
  · refine h.sorted.imp_of_mem fun {x y} hx hy hxy => ?_
    rw [Before, Deadlines.insert]
    dsimp only
    rwa [hdue x hx, hdue y hy, hst x hx, hst y hy]
  · intro x hx hax
    rw [Function.update_self, hdue x hx] at hax
    rw [Before, Deadlines.insert]
    dsimp only
    rw [Function.update_self, Function.update_self, hdue x hx, hst x hx]
    have hlt := h.stamps x hx
    omega
  · exact fun x _ hax => .inl hax
  · intro x hx y hy hxy hax
    rw [hdue x hx] at hax
    rw [hdue y hy]
    rw [Before, Deadlines.insert] at hxy
    dsimp only at hxy
    rw [hdue x hx, hdue y hy] at hxy
    omega
  · intro x hx
    rcases (List.mem_orderedInsert _).mp hx with rfl | hx
    · exact (Function.update_self ..).le.trans_lt (Nat.lt_succ_self _)
    · exact (hst x hx).le.trans_lt ((h.stamps x hx).trans (Nat.lt_succ_self _))
  · intro x hx
    rcases (List.mem_orderedInsert _).mp hx with rfl | hx
    · rw [Deadlines.insert]
      dsimp only
      rwa [Function.update_self]
    · rw [Deadlines.insert]
      dsimp only
      rw [hdue x hx]
      exact h.near x hx

/-- **Arming.** However often an item is armed again, the deadline it waits for is less than
    `tol` away from the one last asked for. -/
theorem arm (h : q.Ok tol) (ht : 0 < tol) (a : α) (delay : Nat) : (q.arm tol a delay).Ok tol := by
  rw [Deadlines.arm]
  have hold : ∀ x ∈ q.queue, x ≠ a → Function.update q.asked a (q.now + delay) x = q.asked x :=
    fun x _ hx => Function.update_of_ne hx _ _
  by_cases hk : a ∈ q.queue ∧ q.now + delay < q.due a + tol ∧ q.due a < q.now + delay + tol
  · rw [if_pos hk]
    refine ⟨h.nodup, h.sorted, h.stamps, fun x hx => ?_⟩
    by_cases hxa : x = a
    · dsimp only
      rw [hxa, Function.update_self]
      exact ⟨hk.2.2, hk.2.1⟩
    · dsimp only
      rw [hold x hx hxa]
      exact h.near x hx
  · rw [if_neg hk]
    have hd := h.disarm a
    have hnot : a ∉ q.queue.erase a := h.nodup.not_mem_erase
    refine insert ⟨hd.nodup, hd.sorted, hd.stamps, fun x hx => ?_⟩ hnot ?_
    · have hxa : x ≠ a := by
        rintro rfl
        exact hnot hx
      rw [Deadlines.disarm]
      dsimp only
      rw [hold x (List.mem_of_mem_erase hx) hxa]
      exact h.near x (List.mem_of_mem_erase hx)
    · rw [Deadlines.disarm]
      dsimp only
      rw [Function.update_self]
      omega

end Ok

/-! ### The present moment -/

/-- An element that is filtered out may be put in anywhere. -/
theorem filter_orderedInsert {r : α → α → Prop} [DecidableRel r] {p : α → Bool} {l : List α}
    (ha : p a = false) : (l.orderedInsert r a).filter p = l.filter p := by
  rw [List.orderedInsert_eq_take_drop, List.filter_append, List.filter_cons_of_neg (by simp [ha]),
    ← List.filter_append, List.takeWhile_append_dropWhile]

section Moment

variable [DecidableEq α]

theorem dueNow_disarm (q : Deadlines α) (a : α) : (q.disarm a).dueNow.Sublist q.dueNow :=
  List.erase_sublist.filter _

/-- What is put in for a later moment does not come up now. -/
theorem dueNow_insert (ha : a ∉ q.queue) (hd : q.now < d) : (q.insert a d).dueNow = q.dueNow := by
  have hlate : decide ((q.insert a d).due a ≤ q.now) = false := by
    simp [insert, hd]
  have hout : (q.insert a d).dueNow =
      q.queue.filter fun x => decide ((q.insert a d).due x ≤ q.now) := filter_orderedInsert hlate
  rw [hout]
  refine List.filter_congr fun x hx => ?_
  have hxa : (q.insert a d).due x = q.due x :=
    Function.update_of_ne (ne_of_mem_of_not_mem hx ha) _ _
  rw [hxa]

theorem dueNow_arm (hq : q.queue.Nodup) (hd : 0 < d) :
    (q.arm tol a d).dueNow.Sublist q.dueNow := by
  rw [arm]
  by_cases hk : a ∈ q.queue ∧ q.now + d < q.due a + tol ∧ q.due a < q.now + d + tol
  · rw [if_pos hk]
    exact List.Sublist.refl _
  · rw [if_neg hk]
    let q' := Deadlines.disarm { q with asked := Function.update q.asked a (q.now + d) } a
    have hout : a ∉ q'.queue := hq.not_mem_erase
    have hlt : q'.now < q.now + d := Nat.lt_add_of_pos_right hd
    rw [dueNow_insert hout hlt]
    exact dueNow_disarm q a

end Moment

/-- The item that is taken out was the first of those that are due. -/
theorem dueNow_pop {rest : List α} (hq : q.queue = a :: rest) (ha : q.due a ≤ q.now) :
    q.dueNow = a :: q.pop.dueNow := by
  have hpop : q.pop = { q with queue := rest } := by
    rw [pop, hq]
    exact if_pos ha
  rw [hpop, dueNow, hq]
  exact List.filter_cons_of_pos (decide_eq_true ha)

end Deadlines

/-! ### Clocks that wrap around -/

/-- **Half the range.** The difference of two wrapped times is their difference, if they lie
    less than half the range apart. -/
theorem toInt_ofNat_sub {w a b : Nat} (hlo : b ≤ a + 2 ^ w) (hhi : a < b + 2 ^ w) :
    (BitVec.ofNat (w + 1) a - BitVec.ofNat (w + 1) b).toInt = (a : Int) - b := by
  have hm : ((2 ^ (w + 1) : Nat) : Int) = 2 * (2 ^ w : Nat) := by
    rw [pow_succ]
    push_cast
    ring
  rw [BitVec.toInt_sub, BitVec.toInt_ofNat', BitVec.toInt_ofNat', Int.bmod_sub_bmod,
    Int.sub_bmod_bmod]
  apply Int.bmod_eq_of_le_mul_two
  · rw [hm]
    omega
  · rw [hm]
    omega

end NginxEngine
