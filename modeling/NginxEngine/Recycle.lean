import Mathlib.Data.List.Nodup
import Mathlib.Data.List.Pairwise
import Mathlib.Logic.Function.Basic

/-!
# Slots with recycled cells

Slots that share cells. A slot that needs a cell takes the one that was given back last, or a new
one if none is free, and gives it back when it is done. A slot is all that a user of a cell knows,
and a content is written and read through it.

What the slots hold is a partial function from slots to contents. As long as every cell is in one
place, the free list or one slot, the operations on cells are those on partial functions: they
change what one slot holds and no other, whatever cells were recycled.

## Main definitions

- `Recycle` — cells, free list and slots
- `Recycle.attach`, `Recycle.detach`, `Recycle.write` — take a cell, give it back, write to it
- `Recycle.read` — what a slot holds
- `Recycle.Owned` — every cell is in one place

## Main results

- `Recycle.Owned.attach`, `Recycle.Owned.detach`, `Recycle.Owned.write` — every cell stays in one
  place
- `Recycle.Owned.read_attach`, `Recycle.read_detach`, `Recycle.Owned.read_write` — what the slots
  hold afterwards
-/

namespace NginxEngine

/-- The cell that was given back last is the last of the free list. -/
structure Recycle (σ α : Type*) where
  cells : Nat → α
  free : List Nat
  made : Nat
  slot : σ → Option Nat

namespace Recycle

variable {σ α : Type*} {r : Recycle σ α} {s u : σ} {c d : Nat} {v : α} {dom : List σ}

/-- No cell was made yet. -/
def empty (v : α) : Recycle σ α := ⟨fun _ => v, [], 0, fun _ => none⟩

/-- What a slot holds. -/
def read (r : Recycle σ α) (s : σ) : Option α := (r.slot s).map r.cells

/-- The cells of the slots `dom`. -/
def held (r : Recycle σ α) (dom : List σ) : List Nat := dom.filterMap r.slot

/-- Every cell that was made is in one place: once in the free list, or in one of the slots `dom`,
    which are all that have a cell. -/
structure Owned (r : Recycle σ α) (dom : List σ) : Prop where
  nodup : dom.Nodup
  inside : ∀ s, (r.slot s).isSome = true → s ∈ dom
  perm : (r.free ++ r.held dom).Perm (List.range r.made)

/-! ### Cells in one place -/

theorem owned_empty (hdom : dom.Nodup) : (empty v : Recycle σ α).Owned dom := by
  have hnone : (empty v : Recycle σ α).held dom = [] := by
    rw [held, List.filterMap_eq_nil_iff]
    intro s _
    rfl
  refine ⟨hdom, fun s hs => ?_, ?_⟩
  · cases hs
  · rw [hnone]
    exact .nil

theorem Owned.mem_of_slot (h : r.Owned dom) (hs : r.slot s = some c) : s ∈ dom := by
  apply h.inside s
  rw [hs]
  rfl

theorem Owned.mem_held (h : r.Owned dom) (hs : r.slot s = some c) : c ∈ r.held dom :=
  List.mem_filterMap.mpr ⟨s, h.mem_of_slot hs, hs⟩

theorem Owned.places (h : r.Owned dom) : (r.free ++ r.held dom).Nodup :=
  h.perm.nodup_iff.mpr List.nodup_range

theorem Owned.lt_of_slot (h : r.Owned dom) (hs : r.slot s = some c) : c < r.made :=
  List.mem_range.mp (h.perm.mem_iff.mp (List.mem_append_right _ (h.mem_held hs)))

/-- A cell in use is not free. -/
theorem Owned.not_free (h : r.Owned dom) (hs : r.slot s = some c) : c ∉ r.free :=
  fun hc => List.disjoint_of_nodup_append h.places hc (h.mem_held hs)

/-- Two slots have two cells. -/
theorem Owned.slot_ne (h : r.Owned dom) (hs : r.slot s = some c) (hu : r.slot u = some d)
    (hne : s ≠ u) : c ≠ d := by
  have hheld : (r.held dom).Nodup := (List.nodup_append.mp h.places).2.1
  rw [held, List.Nodup, List.pairwise_filterMap] at hheld
  have hsymm : Std.Symm fun x y => ∀ b, r.slot x = some b → ∀ b', r.slot y = some b' → b ≠ b' :=
    ⟨fun x y hxy b hb b' hb' he => hxy b' hb' b hb he.symm⟩
  exact hheld.forall (h.mem_of_slot hs) (h.mem_of_slot hu) hne c hs d hu

/-- More slots, which have no cell yet. -/
theorem Owned.extend {more : List σ} (h : r.Owned dom) (hdom : (dom ++ more).Nodup)
    (hmore : ∀ s ∈ more, r.slot s = none) : r.Owned (dom ++ more) := by
  have hnone : more.filterMap r.slot = [] := List.filterMap_eq_nil_iff.mpr hmore
  refine ⟨hdom, fun s hs => List.mem_append_left more (h.inside s hs), ?_⟩
  rw [held, List.filterMap_append, hnone, List.append_nil]
  exact h.perm

/-- All cells are counted. -/
theorem Owned.length (h : r.Owned dom) : r.free.length + (r.held dom).length = r.made := by
  have hlen := h.perm.length_eq
  rwa [List.length_append, List.length_range] at hlen

/-! ### Writing -/

/-- A content is written through a slot. -/
def write (r : Recycle σ α) (s : σ) (v : α) : Recycle σ α :=
  match r.slot s with
  | some c => { r with cells := Function.update r.cells c v }
  | none => r

theorem write_some (hs : r.slot s = some c) :
    r.write s v = { r with cells := Function.update r.cells c v } := by rw [write, hs]

theorem write_none (hs : r.slot s = none) : r.write s v = r := by rw [write, hs]

/-- Only a content changes. -/
theorem write_eq (r : Recycle σ α) (s : σ) (v : α) :
    ∃ cells, r.write s v = { r with cells := cells } := by
  cases hs : r.slot s with
  | none => exact ⟨r.cells, write_none hs⟩
  | some c => exact ⟨_, write_some hs⟩

theorem Owned.write (h : r.Owned dom) : (r.write s v).Owned dom := by
  obtain ⟨cells, hw⟩ := write_eq r s v
  rw [hw]
  exact ⟨h.nodup, h.inside, h.perm⟩

variable [DecidableEq σ]

/-- What is written through a slot is seen through that slot only. -/
theorem Owned.read_write (h : r.Owned dom) :
    (r.write s v).read = Function.update r.read s ((r.read s).map fun _ => v) := by
  cases hs : r.slot s with
  | none =>
    have hread : (r.read s).map (fun _ => v) = r.read s := by rw [read, hs]; rfl
    rw [write_none hs, hread, Function.update_eq_self]
  | some c =>
    rw [write_some hs]
    funext u
    show (r.slot u).map (Function.update r.cells c v) = _
    by_cases hus : u = s
    · subst hus
      rw [Function.update_self, read, hs, Option.map_some, Option.map_some, Option.map_some,
        Function.update_self]
    · rw [Function.update_of_ne hus, read]
      cases hu : r.slot u with
      | none => rfl
      | some d =>
        have hne : d ≠ c := fun he => h.slot_ne hs hu (fun hsu => hus hsu.symm) he.symm
        rw [Option.map_some, Option.map_some, Function.update_of_ne hne]

/-! ### Taking a cell -/

/-- A slot that gets a cell. -/
theorem filterMap_update_perm {f : σ → Option Nat} (hdom : dom.Nodup) (hs : s ∈ dom)
    (hnone : f s = none) :
    (dom.filterMap (Function.update f s (some c))).Perm (c :: dom.filterMap f) := by
  induction dom with
  | nil => cases hs
  | cons x rest ih =>
    obtain ⟨hx, hrest⟩ := List.nodup_cons.mp hdom
    by_cases hxs : x = s
    · subst hxs
      have hsame : rest.filterMap (Function.update f x (some c)) = rest.filterMap f := by
        refine List.filterMap_congr fun y hy => ?_
        have hne : y ≠ x := fun he => hx (he ▸ hy)
        rw [Function.update_of_ne hne]
      rw [List.filterMap_cons_some (Function.update_self x (some c) f), hsame,
        List.filterMap_cons_none hnone]
    · have hmem : s ∈ rest := (List.mem_cons.mp hs).resolve_left fun he => hxs he.symm
      have hrec := ih hrest hmem
      have hval : Function.update f s (some c) x = f x := Function.update_of_ne hxs _ _
      cases hfx : f x with
      | none =>
        rw [List.filterMap_cons_none (hval.trans hfx), List.filterMap_cons_none hfx]
        exact hrec
      | some d =>
        rw [List.filterMap_cons_some (hval.trans hfx), List.filterMap_cons_some hfx]
        exact (hrec.cons d).trans (.swap c d _)

/-- A slot takes a cell, with the content `v`. -/
def attach (r : Recycle σ α) (s : σ) (v : α) : Recycle σ α :=
  match r.free.getLast? with
  | some c =>
    { r with
      cells := Function.update r.cells c v
      free := r.free.dropLast
      slot := Function.update r.slot s (some c) }
  | none =>
    { r with
      cells := Function.update r.cells r.made v
      made := r.made + 1
      slot := Function.update r.slot s (some r.made) }

/-- A free cell is taken, or a new one. -/
inductive Attached (r : Recycle σ α) (s : σ) (v : α) : Recycle σ α → Prop
  | recycled (rest : List Nat) (c : Nat) (hfree : r.free = rest ++ [c]) :
      Attached r s v ⟨Function.update r.cells c v, rest, r.made, Function.update r.slot s (some c)⟩
  | new (hfree : r.free = []) :
      Attached r s v ⟨Function.update r.cells r.made v, r.free, r.made + 1,
        Function.update r.slot s (some r.made)⟩

theorem attach_cases (r : Recycle σ α) (s : σ) (v : α) : Attached r s v (r.attach s v) := by
  rw [attach]
  split
  · next c hlast =>
    obtain ⟨rest, hfree⟩ := List.getLast?_eq_some_iff.mp hlast
    have hrest : r.free.dropLast = rest := by rw [hfree, List.dropLast_concat]
    rw [hrest]
    exact .recycled rest c hfree
  · next hlast => exact .new (List.getLast?_eq_none_iff.mp hlast)

theorem Owned.attach (h : r.Owned dom) (hs : s ∈ dom) (hnone : r.slot s = none) :
    (r.attach s v).Owned dom := by
  have hin : ∀ c u, (Function.update r.slot s (some c) u).isSome = true → u ∈ dom := by
    intro c u hu
    by_cases hus : u = s
    · exact hus ▸ hs
    · rw [Function.update_of_ne hus] at hu
      exact h.inside u hu
  have hperm := h.perm
  have ha := attach_cases r s v
  generalize r.attach s v = r' at ha ⊢
  cases ha with
  | recycled rest c hfree =>
    refine ⟨h.nodup, hin c, ?_⟩
    have hheld := filterMap_update_perm (c := c) h.nodup hs hnone
    rw [hfree, List.append_assoc] at hperm
    exact (hheld.append_left rest).trans hperm
  | new hfree =>
    refine ⟨h.nodup, hin r.made, ?_⟩
    have hheld := filterMap_update_perm (c := r.made) h.nodup hs hnone
    rw [hfree, List.nil_append] at hperm
    show (r.free ++ dom.filterMap _).Perm (List.range (r.made + 1))
    rw [hfree, List.nil_append, List.range_succ]
    exact hheld.trans ((hperm.cons r.made).trans (List.perm_append_singleton _ _).symm)

/-- The slot holds the content that it was given, and the others what they held. -/
theorem Owned.read_attach (h : r.Owned dom) :
    (r.attach s v).read = Function.update r.read s (some v) := by
  -- the cell that is taken is not that of another slot
  have hother : ∀ c, (∀ u d, r.slot u = some d → d ≠ c) → ∀ u,
      (Function.update r.slot s (some c) u).map (Function.update r.cells c v) =
        Function.update r.read s (some v) u := by
    intro c hc u
    by_cases hus : u = s
    · subst hus
      rw [Function.update_self, Function.update_self, Option.map_some, Function.update_self]
    · rw [Function.update_of_ne hus, Function.update_of_ne hus, read]
      cases hu : r.slot u with
      | none => rfl
      | some d => rw [Option.map_some, Option.map_some, Function.update_of_ne (hc u d hu)]
  have ha := attach_cases r s v
  generalize r.attach s v = r' at ha ⊢
  funext u
  cases ha with
  | recycled rest c hfree =>
    refine hother c (fun u d hu he => h.not_free hu ?_) u
    rw [hfree, he]
    exact List.mem_append_right rest (List.mem_singleton_self c)
  | new hfree =>
    refine hother r.made (fun u d hu he => ?_) u
    have hlt := h.lt_of_slot hu
    omega

/-! ### Giving a cell back -/

/-- A slot gives its cell back. -/
def detach (r : Recycle σ α) (s : σ) : Recycle σ α :=
  match r.slot s with
  | some c => { r with free := r.free ++ [c], slot := Function.update r.slot s none }
  | none => r

theorem detach_some (hs : r.slot s = some c) : r.detach s =
    { r with free := r.free ++ [c], slot := Function.update r.slot s none } := by
  rw [detach, hs]

theorem detach_none (hs : r.slot s = none) : r.detach s = r := by rw [detach, hs]

theorem Owned.detach (h : r.Owned dom) : (r.detach s).Owned dom := by
  cases hs : r.slot s with
  | none =>
    rw [detach_none hs]
    exact h
  | some c =>
    rw [detach_some hs]
    refine ⟨h.nodup, fun u hu => ?_, ?_⟩
    · by_cases hus : u = s
      · subst hus
        have hself : (Function.update r.slot u none u).isSome = true := hu
        rw [Function.update_self] at hself
        cases hself
      · have hother : (Function.update r.slot s none u).isSome = true := hu
        rw [Function.update_of_ne hus] at hother
        exact h.inside u hother
    · have hback : Function.update (Function.update r.slot s none) s (some c) = r.slot := by
        rw [Function.update_idem, ← hs, Function.update_eq_self]
      have hheld := filterMap_update_perm (c := c) (f := Function.update r.slot s none) h.nodup
        (h.mem_of_slot hs) (Function.update_self s none r.slot)
      rw [hback] at hheld
      show (r.free ++ [c] ++ dom.filterMap (Function.update r.slot s none)).Perm _
      rw [List.append_assoc]
      exact (hheld.append_left r.free).symm.trans h.perm

theorem read_detach : (r.detach s).read = Function.update r.read s none := by
  cases hs : r.slot s with
  | none =>
    have hread : r.read s = none := by rw [read, hs, Option.map_none]
    rw [detach_none hs, ← hread, Function.update_eq_self]
  | some c =>
    rw [detach_some hs]
    funext u
    show (Function.update r.slot s none u).map r.cells = _
    by_cases hus : u = s
    · subst hus
      rw [Function.update_self, Function.update_self, Option.map_none]
    · rw [Function.update_of_ne hus, Function.update_of_ne hus]
      rfl

end Recycle

end NginxEngine
