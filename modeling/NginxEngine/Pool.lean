import Mathlib.Tactic.Common

/-!
# A pool of cells with a free list

A fixed number of cells that are taken and given back, last in first out. Each taking
gets a number of its own, so that two users of one cell can be told apart although
the cell is all a pointer names. Nothing keeps a cell from being given back twice, or
while it is in use; `Pool.Ok` says that this did not happen.

## Main definitions

- `Pool` — cells, free list and the number of the next taking
- `Pool.get`, `Pool.put`, `Pool.modify` — take a cell, give it back, change its content
- `Pool.Ok` — no cell is free twice or while its content is in use

## Main results

- `Pool.Ok.get`, `Pool.Ok.modify`, `Pool.Ok.release` — the operations that keep `Pool.Ok`
-/

namespace NginxEngine

/-- A cell: the number of the taking its content belongs to, and the content. -/
structure Cell (α : Type) where
  gen : Nat
  val : α
deriving DecidableEq, Repr

structure Pool (α : Type) where
  cells : List (Cell α)
  free : List Nat
  next : Nat
deriving DecidableEq, Repr

namespace Pool

variable {α : Type} {p q : Pool α} {i j : Nat} {v : α} {f : α → α} {x : Cell α} {live : α → Bool}

/-- `n` cells, all of them free, the first one on top. -/
def init (n : Nat) (v : α) : Pool α :=
  ⟨(List.range n).map fun i => ⟨i, v⟩, List.range n, n⟩

def lookup (p : Pool α) (i : Nat) : Option (Cell α) := p.cells[i]?

/-- Take the cell that was given back last, with a new content. -/
def get (p : Pool α) (v : α) : Option (Nat × Pool α) :=
  match p.free with
  | [] => none
  | i :: rest => some (i, ⟨p.cells.set i ⟨p.next, v⟩, rest, p.next + 1⟩)

/-- Give a cell back. -/
def put (p : Pool α) (i : Nat) : Pool α := { p with free := i :: p.free }

def modify (p : Pool α) (i : Nat) (f : α → α) : Pool α :=
  { p with cells := p.cells.modify i fun x => { x with val := f x.val } }

theorem get_eq (h : p.get v = some (i, q)) :
    ∃ rest, p.free = i :: rest ∧ q = ⟨p.cells.set i ⟨p.next, v⟩, rest, p.next + 1⟩ := by
  unfold get at h
  split at h
  · cases h
  · next j rest hf =>
    cases h
    exact ⟨rest, hf, rfl⟩

theorem mem_free_of_get (h : p.get v = some (i, q)) : i ∈ p.free := by
  obtain ⟨rest, hf, -⟩ := get_eq h
  simp [hf]

theorem next_get (h : p.get v = some (i, q)) : q.next = p.next + 1 := by
  obtain ⟨rest, -, rfl⟩ := get_eq h
  rfl

@[simp] theorem length_modify : (p.modify i f).cells.length = p.cells.length := by
  simp [modify]

theorem length_get (h : p.get v = some (i, q)) : q.cells.length = p.cells.length := by
  obtain ⟨rest, -, rfl⟩ := get_eq h
  exact List.length_set

theorem lt_of_lookup (h : p.lookup i = some x) : i < p.cells.length :=
  (List.getElem?_eq_some_iff.mp h).1

@[simp] theorem lookup_put : (p.put i).lookup j = p.lookup j := rfl

theorem lookup_get_self (h : p.get v = some (i, q)) (hlt : i < p.cells.length) :
    q.lookup i = some ⟨p.next, v⟩ := by
  obtain ⟨rest, -, rfl⟩ := get_eq h
  exact List.getElem?_set_self hlt

theorem lookup_get_ne (h : p.get v = some (i, q)) (hne : i ≠ j) : q.lookup j = p.lookup j := by
  obtain ⟨rest, -, rfl⟩ := get_eq h
  exact List.getElem?_set_ne hne

theorem lookup_modify_self : (p.modify i f).lookup i =
    (p.lookup i).map fun x => { x with val := f x.val } := by
  simp [lookup, modify]

theorem lookup_modify_ne (hne : i ≠ j) : (p.modify i f).lookup j = p.lookup j := by
  simp [lookup, modify, hne]

/-- A change of one cell leaves the number of every cell as it is. -/
theorem lookup_modify (h : (p.modify i f).lookup j = some x) :
    ∃ y, p.lookup j = some y ∧ x.gen = y.gen ∧ x.val = if i = j then f y.val else y.val := by
  by_cases hij : i = j
  · subst hij
    rw [lookup_modify_self, Option.map_eq_some_iff] at h
    obtain ⟨y, hy, rfl⟩ := h
    exact ⟨y, hy, rfl, by rw [if_pos rfl]⟩
  · rw [lookup_modify_ne hij] at h
    exact ⟨x, h, rfl, by rw [if_neg hij]⟩

/-- A change of one cell is not seen under the other numbers. -/
theorem lookup_modify_iff {y : Cell α} (hx : p.lookup i = some x) (hne : y.gen ≠ x.gen) :
    (p.modify i f).lookup j = some y ↔ p.lookup j = some y := by
  by_cases hij : i = j
  · subst hij
    rw [lookup_modify_self, hx, Option.map_some, Option.some.injEq, Option.some.injEq]
    constructor
    · rintro rfl
      exact absurd rfl hne
    · rintro rfl
      exact absurd rfl hne
  · rw [lookup_modify_ne hij]

/-- Where `live` tells which contents are in use: the free list holds no cell twice and
    no cell in use, and takings are told apart by their numbers. -/
structure Ok (live : α → Bool) (p : Pool α) : Prop where
  nodup : p.free.Nodup
  range : ∀ i ∈ p.free, i < p.cells.length
  held : ∀ i x, p.lookup i = some x → live x.val = true → i ∉ p.free
  fresh : ∀ i x, p.lookup i = some x → x.gen < p.next
  unique : ∀ i j x y, p.lookup i = some x → p.lookup j = some y → x.gen = y.gen → i = j

/-- A number names one cell. -/
theorem Ok.eq_of_gen {y : Cell α} (h : p.Ok live) (hx : p.lookup i = some x)
    (hy : p.lookup j = some y) (hgen : x.gen = y.gen) : i = j ∧ x = y := by
  obtain rfl := h.unique i j x y hx hy hgen
  exact ⟨rfl, Option.some.inj (hx.symm.trans hy)⟩

theorem ok_init (n : Nat) (hv : live v = false) : (init n v).Ok live := by
  have hlookup : ∀ i x, (init n v).lookup i = some x → i < n ∧ x = ⟨i, v⟩ := by
    intro i x h
    simp only [lookup, init, List.getElem?_map, Option.map_eq_some_iff] at h
    obtain ⟨k, hk, rfl⟩ := h
    obtain ⟨hlt, rfl⟩ := List.getElem?_eq_some_iff.mp hk
    simp at hlt ⊢
    exact hlt
  refine ⟨List.nodup_range, by simp [init], fun i x h hl => ?_, fun i x h => ?_, ?_⟩
  · obtain ⟨-, rfl⟩ := hlookup i x h
    exact absurd (hv.symm.trans hl) (by decide)
  · obtain ⟨hlt, rfl⟩ := hlookup i x h
    exact hlt
  · intro i j x y hx hy hgen
    obtain ⟨-, rfl⟩ := hlookup i x hx
    obtain ⟨-, rfl⟩ := hlookup j y hy
    exact hgen

theorem Ok.get (h : p.Ok live) (hg : p.get v = some (i, q)) : q.Ok live := by
  have hself := lookup_get_self hg (h.range i (mem_free_of_get hg))
  have hne : ∀ j, i ≠ j → q.lookup j = p.lookup j := fun j => lookup_get_ne hg
  have hnext := next_get hg
  obtain ⟨rest, hf, hq⟩ := get_eq hg
  have hfree : q.free = rest := by rw [hq]
  have hnodup := h.nodup
  rw [hf] at hnodup
  obtain ⟨hnot, hrest⟩ := List.nodup_cons.mp hnodup
  refine ⟨hfree ▸ hrest, fun j hj => ?_, fun j x hx hl => ?_, fun j x hx => ?_, ?_⟩
  · have hlt := h.range j (by rw [hf]; exact List.mem_cons_of_mem i (hfree ▸ hj))
    rw [hq]
    simpa using hlt
  · rw [hfree]
    by_cases hij : i = j
    · exact hij ▸ hnot
    · rw [hne j hij] at hx
      have := h.held j x hx hl
      rw [hf] at this
      exact fun hj => this (List.mem_cons_of_mem i hj)
  · by_cases hij : i = j
    · subst hij
      rw [hself, Option.some.injEq] at hx
      rw [← hx, hnext]
      exact Nat.lt_succ_self _
    · rw [hne j hij] at hx
      rw [hnext]
      exact Nat.lt_succ_of_lt (h.fresh j x hx)
  · intro j k x y hx hy hgen
    by_cases hij : i = j
    · by_cases hik : i = k
      · exact hij.symm.trans hik
      · subst hij
        rw [hself, Option.some.injEq] at hx
        rw [hne k hik] at hy
        have hlt := h.fresh k y hy
        rw [← hgen, ← hx] at hlt
        exact absurd hlt (Nat.lt_irrefl _)
    · by_cases hik : i = k
      · subst hik
        rw [hself, Option.some.injEq] at hy
        rw [hne j hij] at hx
        have hlt := h.fresh j x hx
        rw [hgen, ← hy] at hlt
        exact absurd hlt (Nat.lt_irrefl _)
      · rw [hne j hij] at hx
        rw [hne k hik] at hy
        exact h.unique j k x y hx hy hgen

/-- A content may be changed as long as it does not come into use by that. -/
theorem Ok.modify (h : p.Ok live)
    (hf : ∀ x, p.lookup i = some x → live (f x.val) = true → live x.val = true) :
    (p.modify i f).Ok live := by
  refine ⟨h.nodup, fun j hj => ?_, fun j x hx hl => ?_, fun j x hx => ?_, ?_⟩
  · have hlt := h.range j hj
    simpa [Pool.modify] using hlt
  · obtain ⟨y, hy, -, hval⟩ := Pool.lookup_modify hx
    by_cases hij : i = j
    · subst hij
      rw [if_pos rfl] at hval
      exact h.held i y hy (hf y hy (hval ▸ hl))
    · rw [if_neg hij] at hval
      exact h.held j y hy (hval ▸ hl)
  · obtain ⟨y, hy, hgen, -⟩ := Pool.lookup_modify hx
    rw [hgen]
    exact h.fresh j y hy
  · intro j k x y hx hy hgen
    obtain ⟨x', hx', hgx, -⟩ := Pool.lookup_modify hx
    obtain ⟨y', hy', hgy, -⟩ := Pool.lookup_modify hy
    exact h.unique j k x' y' hx' hy' (by rw [← hgx, ← hgy, hgen])

/-- A cell in use is given back once its content is no longer in use. -/
theorem Ok.release (h : p.Ok live) (hx : p.lookup i = some x) (hl : live x.val = true)
    (hf : live (f x.val) = false) : ((p.modify i f).put i).Ok live := by
  have hi : i ∉ p.free := h.held i x hx hl
  have hm : (p.modify i f).Ok live := by
    refine h.modify fun y hy hly => ?_
    rw [hx, Option.some.injEq] at hy
    rw [← hy, hf] at hly
    cases hly
  refine ⟨List.nodup_cons.mpr ⟨hi, h.nodup⟩, fun j hj => ?_, fun j y hy hly => ?_, hm.fresh,
    hm.unique⟩
  · rcases List.mem_cons.mp hj with rfl | hj
    · have hlt := lt_of_lookup hx
      simpa [Pool.put, Pool.modify] using hlt
    · exact hm.range j hj
  · intro hj
    rcases List.mem_cons.mp hj with rfl | hj
    · rw [lookup_put, lookup_modify_self, hx, Option.map_some, Option.some.injEq] at hy
      rw [← hy] at hly
      exact absurd (hf.symm.trans hly) (by decide)
    · exact hm.held j y hy hly hj

end Pool

end NginxEngine
