import Mathlib.Data.List.Perm.Basic
import Mathlib.Data.List.Perm.Subperm
import Mathlib.Tactic.Common

/-!
# Regions of memory

Ranges of bytes that are handed out. A heap hands out whole regions and takes them back by
their first address; where it puts them is left open, as long as regions that are live at the
same time do not overlap. An arena carves regions out of chunks, each of them above what was
carved out of its chunk before, and takes none of them back alone.

## Main definitions

- `Region`, `Region.Apart`, `Region.Within` — ranges of bytes
- `Supply`, `Heap` — an allocator that hands out regions and takes them back
- `Chunk`, `Arena` — regions that are carved out of chunks

## Main results

- `Heap.Ok.alloc`, `Heap.Ok.free` — live regions stay apart
- `Heap.freeAll_spec` — a list of live regions is given back, each of them once
- `Arena.carve`, `Arena.extend` — carved regions stay apart
-/

namespace NginxEngine

structure Region where
  start : Nat
  size : Nat
deriving DecidableEq, Repr

namespace Region

variable {r s t : Region}

/-- The address behind the last byte. -/
def stop (r : Region) : Nat := r.start + r.size

def Apart (r s : Region) : Prop := r.stop ≤ s.start ∨ s.stop ≤ r.start

def Within (r s : Region) : Prop := s.start ≤ r.start ∧ r.stop ≤ s.stop

instance : DecidableRel Apart := fun r s =>
  inferInstanceAs (Decidable (r.stop ≤ s.start ∨ s.stop ≤ r.start))

theorem Apart.symm (h : r.Apart s) : s.Apart r := Or.symm h

/-- A part of a region is apart from whatever the region is apart from. -/
theorem Within.apart (h : r.Within s) (ht : s.Apart t) : r.Apart t := by
  rw [Apart] at ht ⊢
  rw [Within] at h
  omega

/-- Being apart does not depend on the order of a list. -/
theorem pairwise_apart_perm {l l' : List Region} (h : l.Perm l') :
    l.Pairwise Apart ↔ l'.Pairwise Apart :=
  h.pairwise_iff fun hrs => hrs.symm

end Region

/-! ### A heap -/

/-- What an allocator answers to a call: `supply n live align size`, where `n` counts the calls
    and `live` are the regions that are handed out. -/
abbrev Supply := Nat → List Region → Nat → Nat → Option Nat

structure Heap where
  calls : Nat
  live : List Region
deriving DecidableEq, Repr

/-- A region that is handed out has the alignment asked for, ends below `top` and overlaps no
    live region. -/
def Supply.Sound (supply : Supply) (top : Nat) : Prop :=
  ∀ n live align size a, supply n live align size = some a →
    align ∣ a ∧ a + size ≤ top ∧ ∀ r ∈ live, r.start ≠ a ∧ Region.Apart ⟨a, size⟩ r

namespace Heap

variable {supply : Supply} {top align size a : Nat} {h h' : Heap} {r : Region}

def alloc (h : Heap) (supply : Supply) (align size : Nat) : Option Nat × Heap :=
  match supply h.calls h.live align size with
  | some a => (some a, ⟨h.calls + 1, ⟨a, size⟩ :: h.live⟩)
  | none => (none, { h with calls := h.calls + 1 })

/-- Give a region back; nothing is defined for an address that no live region has. -/
def free (h : Heap) (a : Nat) : Option Heap :=
  if ∃ r ∈ h.live, r.start = a then
    some { h with live := h.live.eraseP fun r => r.start = a }
  else none

def freeAll (h : Heap) : List Nat → Option Heap
  | [] => some h
  | a :: rest => (h.free a).bind fun h => h.freeAll rest

/-- Live regions are apart and have addresses of their own. -/
def Ok (h : Heap) : Prop := h.live.Pairwise fun r s => r.start ≠ s.start ∧ r.Apart s

/-- What a call can answer. -/
theorem alloc_cases (h : Heap) (supply : Supply) (align size : Nat) :
    (∃ a, supply h.calls h.live align size = some a ∧
      h.alloc supply align size = (some a, ⟨h.calls + 1, ⟨a, size⟩ :: h.live⟩)) ∨
    (supply h.calls h.live align size = none ∧
      h.alloc supply align size = (none, { h with calls := h.calls + 1 })) := by
  rw [alloc]
  cases hs : supply h.calls h.live align size with
  | some a => exact .inl ⟨a, rfl, rfl⟩
  | none => exact .inr ⟨rfl, rfl⟩

/-- A new region beside the live ones. -/
theorem Ok.alloc {n : Nat} {live : List Region} (h : Ok ⟨n, live⟩) (hs : supply.Sound top)
    (ha : supply n live align size = some a) : Ok ⟨n + 1, ⟨a, size⟩ :: live⟩ := by
  obtain ⟨-, -, hnew⟩ := hs _ _ _ _ _ ha
  refine List.pairwise_cons.mpr ⟨fun r hr => ?_, h⟩
  exact ⟨(hnew r hr).1.symm, (hnew r hr).2⟩

/-- The order in which the live regions are listed does not matter. -/
theorem Ok.perm {l l' : List Region} {n m : Nat} (h : Ok ⟨n, l⟩) (hl : l.Perm l') :
    Ok ⟨m, l'⟩ :=
  (hl.pairwise_iff fun hrs => ⟨hrs.1.symm, hrs.2.symm⟩).mp h

/-- The region that begins at an address is given back. -/
theorem free_of_perm {n : Nat} {live rest : List Region} (h : Ok ⟨n, live⟩)
    (hl : live.Perm (r :: rest)) :
    ∃ live', free ⟨n, live⟩ r.start = some ⟨n, live'⟩ ∧ live'.Perm rest := by
  have hr : r ∈ live := hl.mem_iff.mpr List.mem_cons_self
  refine ⟨live.eraseP fun x => x.start = r.start, ?_, ?_⟩
  · rw [free, if_pos ⟨r, hr, rfl⟩]
  · -- no other live region begins there
    obtain ⟨pre, post, rfl⟩ := List.append_of_mem hr
    have hpre : ∀ x ∈ pre, ¬ decide (x.start = r.start) = true := by
      intro x hx
      have hx := (List.pairwise_append.mp h).2.2 x hx r List.mem_cons_self
      simpa using hx.1
    rw [List.eraseP_append_right _ hpre, List.eraseP_cons_of_pos (by simp)]
    exact List.Perm.cons_inv (List.perm_middle.symm.trans hl)

/-- **Giving back.** The regions of a list are given back in any order: each of them is live
    when its turn comes, and what is left are the other live regions. -/
theorem freeAll_spec {n : Nat} {live rs rest : List Region} {as : List Nat} (h : Ok ⟨n, live⟩)
    (hl : live.Perm (rs ++ rest)) (has : as.Perm (rs.map Region.start)) :
    ∃ live', freeAll ⟨n, live⟩ as = some ⟨n, live'⟩ ∧ live'.Perm rest := by
  induction as generalizing live rs with
  | nil =>
    obtain rfl : rs = [] := List.map_eq_nil_iff.mp has.nil_eq.symm
    exact ⟨live, rfl, hl⟩
  | cons a as ih =>
    obtain ⟨r, hr, rfl⟩ := List.mem_map.mp (has.mem_iff.mp List.mem_cons_self)
    have hrs : rs.Perm (r :: rs.erase r) := List.perm_cons_erase hr
    have hl' : live.Perm (r :: (rs.erase r ++ rest)) := hl.trans (hrs.append_right rest)
    obtain ⟨live₁, h₁, hl₁⟩ := free_of_perm h hl'
    have hall : Ok ⟨n, r :: (rs.erase r ++ rest)⟩ := h.perm hl'
    have hok : Ok ⟨n, live₁⟩ := Ok.perm (n := n) (List.pairwise_cons.mp hall).2 hl₁.symm
    obtain ⟨live', h', hl'⟩ := ih hok hl₁ (has.trans (hrs.map Region.start)).cons_inv
    refine ⟨live', ?_, hl'⟩
    rw [freeAll, h₁, Option.bind_some, h']

end Heap

/-! ### An arena -/

/-- A chunk from `lo` to `hi`, used up to `last`. -/
structure Chunk where
  lo : Nat
  last : Nat
  hi : Nat
deriving DecidableEq, Repr

namespace Chunk

/-- The whole chunk, as a region. -/
def region (c : Chunk) : Region := ⟨c.lo, c.hi - c.lo⟩

/-- A region in the used part of a chunk. -/
def Holds (c : Chunk) (r : Region) : Prop := c.lo ≤ r.start ∧ r.stop ≤ c.last

end Chunk

/-- Regions that were carved out of chunks. -/
structure Arena (chunks : List Chunk) (regions : List Region) : Prop where
  bounds : ∀ c ∈ chunks, c.lo ≤ c.last ∧ c.last ≤ c.hi
  chunks_apart : chunks.Pairwise fun c d => c.region.Apart d.region
  held : ∀ r ∈ regions, ∃ c ∈ chunks, c.Holds r
  apart : regions.Pairwise Region.Apart

namespace Arena

variable {chunks pre post : List Chunk} {regions regions' : List Region} {c d : Chunk} {r : Region}
  {m n : Nat}

/-- A region in the used part of a chunk lies within the chunk. -/
theorem within (h : Arena chunks regions) (hc : c ∈ chunks) (hr : c.Holds r) :
    r.Within c.region := by
  have hb := h.bounds c hc
  obtain ⟨hlo, hlast⟩ := hr
  simp only [Region.stop] at hlast
  simp only [Region.Within, Chunk.region, Region.stop]
  omega

/-- Fewer regions. -/
theorem subperm (h : Arena chunks regions) (hs : regions'.Subperm regions) :
    Arena chunks regions' := by
  obtain ⟨l, hl, hsub⟩ := hs
  refine ⟨h.bounds, h.chunks_apart, fun r hr => ?_, ?_⟩
  · exact h.held r (hsub.subset (hl.mem_iff.mpr hr))
  · exact (Region.pairwise_apart_perm hl).mp (h.apart.sublist hsub)

/-- **Carving.** A region above the used part of a chunk is apart from all that were carved
    before. -/
theorem carve (h : Arena (pre ++ c :: post) regions) (hm : c.last ≤ m) (hn : m + n ≤ c.hi) :
    Arena (pre ++ { c with last := m + n } :: post) (⟨m, n⟩ :: regions) := by
  have hc : c ∈ pre ++ c :: post := by simp
  have hb := h.bounds c hc
  refine ⟨?_, ?_, ?_, List.pairwise_cons.mpr ⟨?_, h.apart⟩⟩
  · intro d hd
    rcases List.mem_append.mp hd with hd | hd
    · exact h.bounds d (by simp [hd])
    · rcases List.mem_cons.mp hd with rfl | hd
      · exact ⟨by dsimp only; omega, hn⟩
      · exact h.bounds d (by simp [hd])
  · -- the chunks themselves are where they were
    have hmap : (pre ++ { c with last := m + n } :: post).map Chunk.region =
        (pre ++ c :: post).map Chunk.region := by
      simp [Chunk.region]
    have hp := List.pairwise_map.mpr h.chunks_apart
    exact List.pairwise_map.mp (hmap ▸ hp)
  · intro r hr
    rcases List.mem_cons.mp hr with rfl | hr
    · refine ⟨{ c with last := m + n }, by simp, ?_, Nat.le_refl _⟩
      dsimp only
      omega
    · obtain ⟨d, hd, hr⟩ := h.held r hr
      by_cases hdc : d = c
      · subst hdc
        refine ⟨{ d with last := m + n }, by simp, hr.1, ?_⟩
        have hlast := hr.2
        dsimp only
        omega
      · refine ⟨d, ?_, hr⟩
        rcases List.mem_append.mp hd with hd | hd
        · simp [hd]
        · rcases List.mem_cons.mp hd with hd | hd
          · exact absurd hd hdc
          · simp [hd]
  · intro r hr
    obtain ⟨d, hd, hr⟩ := h.held r hr
    -- in the same chunk it ends below, in another one the chunks are apart
    have hsame : d = c ∨ d.region.Apart c.region := by
      rcases List.mem_append.mp hd with hd | hd
      · exact .inr ((List.pairwise_append.mp h.chunks_apart).2.2 d hd c List.mem_cons_self)
      · rcases List.mem_cons.mp hd with hd | hd
        · exact .inl hd
        · have hpost := (List.pairwise_append.mp h.chunks_apart).2.1
          exact .inr ((List.pairwise_cons.mp hpost).1 d hd).symm
    rcases hsame with rfl | hapart
    · refine .inr ?_
      have hlast := hr.2
      dsimp only
      omega
    · have hnew : Region.Within ⟨m, n⟩ c.region := by
        simp only [Region.Within, Chunk.region, Region.stop]
        omega
      exact hnew.apart ((h.within hd hr).apart hapart).symm

/-- **Extending.** A new chunk beside the others. -/
theorem extend (h : Arena chunks regions) (hc : d.lo ≤ d.last ∧ d.last ≤ d.hi)
    (hd : ∀ c ∈ chunks, c.region.Apart d.region) : Arena (chunks ++ [d]) regions := by
  refine ⟨?_, ?_, ?_, h.apart⟩
  · intro c hc'
    rcases List.mem_append.mp hc' with hc' | hc'
    · exact h.bounds c hc'
    · rw [List.mem_singleton.mp hc']
      exact hc
  · refine List.pairwise_append.mpr ⟨h.chunks_apart, List.pairwise_singleton _ d, ?_⟩
    intro c hc' x hx
    rw [List.mem_singleton.mp hx]
    exact hd c hc'
  · intro r hr
    obtain ⟨c, hc', hr⟩ := h.held r hr
    exact ⟨c, List.mem_append_left _ hc', hr⟩

/-- What is apart from the chunks is apart from all that was carved out of them. -/
theorem apart_append {more : List Region} (h : Arena chunks regions)
    (hmore : (chunks.map Chunk.region ++ more).Pairwise Region.Apart) :
    (regions ++ more).Pairwise Region.Apart := by
  obtain ⟨-, hmore, hcross⟩ := List.pairwise_append.mp hmore
  refine List.pairwise_append.mpr ⟨h.apart, hmore, ?_⟩
  intro r hr s hs
  obtain ⟨c, hc, hr⟩ := h.held r hr
  exact (h.within hc hr).apart (hcross c.region (List.mem_map_of_mem hc) s hs)

end Arena

end NginxEngine
