import Mathlib.Algebra.Group.Nat.Defs
import NginxEngine.Regions

/-!
# Memory pools

`ngx_palloc.c`: a pool hands out memory from the blocks it has, asks the system for another
block when none of them has room, and passes requests that are larger than `max` on to the
system. All of it is given back at once. Sizes are those of a platform with words of 64 bits;
addresses are numbers, and the contents of the memory that is handed out are left out.

## Main definitions

- `NgxPool` — the blocks, the large allocations and the cleanups of a pool
- `palloc` — `ngx_palloc` and `ngx_pnalloc`
- `pmemalign`, `pfree`, `cleanupAdd`, `resetPool`, `destroyPool` — the other operations

- `PoolOk`, `PoolInv` — the invariant, first without and then with large allocations

## Main results

- `PoolOk.pallocSmall` — memory from the blocks is carved out of them
- `PoolInv.palloc` — what a call of `ngx_palloc` does
-/

namespace NginxEngine.Core

/-- `sizeof(ngx_pool_data_t)`. -/
def sizeofPoolData : Nat := 32

/-- `sizeof(ngx_pool_t)`. -/
def sizeofPool : Nat := 80

/-- `sizeof(ngx_pool_large_t)`. -/
def sizeofLarge : Nat := 16

/-- `sizeof(ngx_pool_cleanup_t)`. -/
def sizeofCleanup : Nat := 24

/-- `NGX_ALIGNMENT`. -/
def ngxAlignment : Nat := 8

/-- `NGX_POOL_ALIGNMENT`. -/
def poolAlignment : Nat := 16

/-- The alignment of what `malloc` returns. -/
def mallocAlignment : Nat := 16

/-- A difference of pointers or sizes as a `size_t`. -/
def sizeSub (a b : Nat) : Nat := (a + 2 ^ 64 - b) % 2 ^ 64

/-- `ngx_align_ptr`. -/
def alignPtr (p a : Nat) : Nat := (p + (a - 1)) / a * a

/-- The `d` of a block, with the address of the block. -/
structure Block where
  start : Nat
  last : Nat
  /-- `d.end` -/
  stop : Nat
  failed : Nat
deriving DecidableEq, Repr

/-- An `ngx_pool_large_t` and its address. -/
structure Large where
  record : Nat
  alloc : Option Nat
deriving DecidableEq, Repr

/-- An `ngx_pool_cleanup_t` and its address. -/
structure Cleanup where
  record : Nat
  handler : Option Nat
  data : Option Nat
deriving DecidableEq, Repr

/-- A pool. The blocks are in the order of `d.next`, `current` is the place of one of them; the
    lists of large allocations and cleanups begin with what was added last. -/
structure NgxPool where
  blocks : List Block
  current : Nat
  max : Nat
  large : List Large
  cleanup : List Cleanup
deriving DecidableEq, Repr

/-- A pool and the heap of the process. -/
structure PoolHeap where
  pool : NgxPool
  heap : Heap
deriving DecidableEq, Repr

variable (supply : Supply)

/-- `ngx_create_pool`. -/
def createPool (pagesize size : Nat) (h : Heap) : Option NgxPool × Heap :=
  match h.alloc supply poolAlignment size with
  | (none, h) => (none, h)
  | (some p, h) =>
    let rest := sizeSub size sizeofPool
    (some ⟨[⟨p, p + sizeofPool, p + size, 0⟩], 0,
      if rest < pagesize - 1 then rest else pagesize - 1, [], []⟩, h)

/-- The room that a block has: one turn of the loops of `ngx_palloc` and `ngx_pnalloc`. -/
def Block.fit (b : Block) (aligned : Bool) (size : Nat) : Option (Nat × Block) :=
  let m := if aligned then alignPtr b.last ngxAlignment else b.last
  if size ≤ sizeSub b.stop m then some (m, { b with last := m + size }) else none

/-- The loop of `ngx_palloc` over the blocks from `current` on. -/
def carve (aligned : Bool) (size : Nat) : List Block → Option (Nat × List Block)
  | [] => none
  | b :: bs =>
    match b.fit aligned size with
    | some (m, b) => some (m, b :: bs)
    | none => (carve aligned size bs).map fun r => (r.1, b :: r.2)

/-- The loop of `ngx_palloc_block`, at the block with number `i`: a failure is counted for all
    blocks but the last, and `current` moves past those that have failed too often. -/
def countFailures : Nat → Nat → List Block → List Block × Nat
  | _, current, [] => ([], current)
  | _, current, [b] => ([b], current)
  | i, current, b :: bs =>
    let r := countFailures (i + 1) (if b.failed > 4 then i + 1 else current) bs
    ({ b with failed := b.failed + 1 } :: r.1, r.2)

/-- The size of the first block, which that of the others follows. -/
def NgxPool.psize (p : NgxPool) : Nat :=
  match p.blocks with
  | [] => 0
  | b :: _ => b.stop - b.start

/-- `ngx_palloc_block`. -/
def pallocBlock (size : Nat) (s : PoolHeap) : Option Nat × PoolHeap :=
  let p := s.pool
  match s.heap.alloc supply poolAlignment p.psize with
  | (none, h) => (none, { s with heap := h })
  | (some a, h) =>
    let m := alignPtr (a + sizeofPoolData) ngxAlignment
    let new : Block := ⟨a, m + size, a + p.psize, 0⟩
    let r := countFailures p.current p.current (p.blocks.drop p.current)
    (some m, ⟨{ p with blocks := p.blocks.take p.current ++ r.1 ++ [new], current := r.2 }, h⟩)

/-- `ngx_palloc` and `ngx_pnalloc`, for a size that is not larger than `max`. -/
def pallocSmall (aligned : Bool) (size : Nat) (s : PoolHeap) : Option Nat × PoolHeap :=
  let p := s.pool
  match carve aligned size (p.blocks.drop p.current) with
  | some (m, bs) => (some m, { s with pool := { p with blocks := p.blocks.take p.current ++ bs } })
  | none => pallocBlock supply size s

/-- The loop of `ngx_palloc_large` over the first five large allocations, for one that was
    given back. -/
def reuse (a : Nat) : Nat → List Large → Option (List Large)
  | _, [] => none
  | n, l :: ls =>
    if l.alloc = none then some ({ l with alloc := some a } :: ls)
    else if n > 3 then none
    else (reuse a (n + 1) ls).map fun ls => l :: ls

/-- The end of `ngx_palloc_large` and `ngx_pmemalign`: a record for the memory at `a`, or the
    memory is given back. -/
def addLarge (getRecord : PoolHeap → Option (Option Nat × PoolHeap)) (a : Nat) (s : PoolHeap) :
    Option (Option Nat × PoolHeap) :=
  (getRecord s).bind fun r =>
    match r.1 with
    | none => (r.2.heap.free a).map fun h => (none, { r.2 with heap := h })
    | some record => some (some a,
        { r.2 with pool := { r.2.pool with large := ⟨record, some a⟩ :: r.2.pool.large } })

/-- `ngx_palloc_large`. -/
def pallocLarge (getRecord : PoolHeap → Option (Option Nat × PoolHeap)) (size : Nat)
    (s : PoolHeap) : Option (Option Nat × PoolHeap) :=
  match s.heap.alloc supply mallocAlignment size with
  | (none, h) => some (none, { s with heap := h })
  | (some a, h) =>
    match reuse a 0 s.pool.large with
    | some large => some (some a, ⟨{ s.pool with large := large }, h⟩)
    | none => addLarge getRecord a { s with heap := h }

/-- `ngx_palloc` (`aligned`) and `ngx_pnalloc`. The record of a large allocation comes from the
    pool itself, so the function calls itself; no result means that it does not return within
    `fuel` calls. -/
def palloc : Nat → Bool → Nat → PoolHeap → Option (Option Nat × PoolHeap)
  | 0, _, _, _ => none
  | k + 1, aligned, size, s =>
    if size ≤ s.pool.max then some (pallocSmall supply aligned size s)
    else pallocLarge supply (palloc k true sizeofLarge) size s

/-- `ngx_pmemalign`. -/
def pmemalign (fuel size alignment : Nat) (s : PoolHeap) : Option (Option Nat × PoolHeap) :=
  match s.heap.alloc supply alignment size with
  | (none, h) => some (none, { s with heap := h })
  | (some a, h) => addLarge (palloc supply fuel true sizeofLarge) a { s with heap := h }

/-- The loop of `ngx_pfree`: the first record with this address is cleared. -/
def clearLarge (p : Option Nat) : List Large → Option (List Large)
  | [] => none
  | l :: ls =>
    if p = l.alloc then some ({ l with alloc := none } :: ls)
    else (clearLarge p ls).map fun ls => l :: ls

/-- `ngx_free`; freeing `NULL` does nothing. -/
def ngxFree (h : Heap) : Option Nat → Option Heap
  | none => some h
  | some a => h.free a

/-- `ngx_pfree`; the answer says whether it is `NGX_OK`. -/
def pfree (p : Option Nat) (s : PoolHeap) : Option (Bool × PoolHeap) :=
  match clearLarge p s.pool.large with
  | none => some (false, s)
  | some large =>
    (ngxFree s.heap p).map fun h => (true, ⟨{ s.pool with large := large }, h⟩)

/-- `ngx_pool_cleanup_add`. -/
def cleanupAdd (fuel size : Nat) (s : PoolHeap) : Option (Option Nat × PoolHeap) :=
  (palloc supply fuel true sizeofCleanup s).bind fun r =>
    match r.1 with
    | none => some (none, r.2)
    | some c =>
      if size = 0 then
        some (some c, { r.2 with
          pool := { r.2.pool with cleanup := ⟨c, none, none⟩ :: r.2.pool.cleanup } })
      else
        (palloc supply fuel true size r.2).bind fun d =>
          match d.1 with
          | none => some (none, d.2)
          | some data => some (some c, { d.2 with
              pool := { d.2.pool with cleanup := ⟨c, none, some data⟩ :: d.2.pool.cleanup } })

/-- The caller sets `handler` in the record that it got. -/
def setHandler (c handler : Nat) (p : NgxPool) : NgxPool :=
  { p with cleanup := p.cleanup.map fun x =>
      if x.record = c then { x with handler := some handler } else x }

/-- The addresses that the loops over `pool->large` give back. -/
def NgxPool.allocs (p : NgxPool) : List Nat := p.large.filterMap Large.alloc

/-- `ngx_reset_pool`. -/
def resetPool (s : PoolHeap) : Option PoolHeap :=
  (s.heap.freeAll s.pool.allocs).map fun h =>
    ⟨{ s.pool with
        large := []
        blocks := s.pool.blocks.map fun b => { b with last := b.start + sizeofPool } }, h⟩

/-- `ngx_destroy_pool`: the handlers that it calls, with their data, and the heap afterwards. -/
def destroyPool (s : PoolHeap) : Option (List (Nat × Option Nat) × Heap) :=
  (s.heap.freeAll (s.pool.allocs ++ s.pool.blocks.map Block.start)).map fun h =>
    (s.pool.cleanup.filterMap fun c => c.handler.map fun f => (f, c.data), h)

/-! ### What a pool occupies -/

def Block.chunk (b : Block) : Chunk := ⟨b.start, b.last, b.stop⟩

/-- The headers of blocks at these addresses: the first one holds the pool. -/
def headersAt : List Nat → List Region
  | [] => []
  | a :: rest => ⟨a, sizeofPool⟩ :: rest.map fun a => ⟨a, sizeofPoolData⟩

def NgxPool.headers (p : NgxPool) : List Region := headersAt (p.blocks.map Block.start)

/-- The records that a pool keeps in its own blocks. -/
def NgxPool.records (p : NgxPool) : List Region :=
  p.large.map (fun l => ⟨l.record, sizeofLarge⟩) ++
    p.cleanup.map fun c => ⟨c.record, sizeofCleanup⟩

structure Block.Ok (size : Nat) (b : Block) : Prop where
  aligned : poolAlignment ∣ b.start
  stop_eq : b.stop = b.start + size
  top : b.stop < 2 ^ 64

/-- The invariant of a pool with blocks of the given size: `regions` were carved out of the
    blocks, and `outside` are the other live regions of the heap. -/
structure PoolOk (size : Nat) (s : PoolHeap) (outside regions : List Region) : Prop where
  heap : s.heap.Ok
  live : s.heap.live.Perm (s.pool.blocks.map (fun b => ⟨b.start, size⟩) ++ outside)
  blocks : ∀ b ∈ s.pool.blocks, b.Ok size
  current : s.pool.current < s.pool.blocks.length
  max_le : s.pool.max + sizeofPool ≤ size
  size_dvd : ngxAlignment ∣ size
  arena : Arena (s.pool.blocks.map Block.chunk) (s.pool.headers ++ regions)

variable {supply} {size n m a c top : Nat} {aligned : Bool} {s : PoolHeap} {b b' : Block}
  {bs bs' : List Block} {outside regions : List Region}

theorem headersAt_append {as : List Nat} (h : as ≠ []) :
    headersAt (as ++ [a]) = headersAt as ++ [⟨a, sizeofPoolData⟩] := by
  cases as with
  | nil => exact absurd rfl h
  | cons x as => simp [headersAt]

/-! ### Small allocations -/

/-- A block from which something was carved; as its end is aligned, rounding up stays below it. -/
theorem Block.fit_spec (hb : b.Ok size) (hsize : ngxAlignment ∣ size) (hlast : b.last ≤ b.stop)
    (h : b.fit aligned n = some (m, b')) :
    b' = { b with last := m + n } ∧ b.last ≤ m ∧ m + n ≤ b.stop ∧
      (aligned = true → ngxAlignment ∣ m) := by
  have hstart := hb.aligned
  have hstop := hb.stop_eq
  have htop := hb.top
  rw [poolAlignment] at hstart
  rw [ngxAlignment] at hsize
  simp only [Block.fit, Option.ite_none_right_eq_some, Option.some.injEq, Prod.mk.injEq] at h
  obtain ⟨hfit, rfl, rfl⟩ := h
  rw [sizeSub] at hfit
  refine ⟨rfl, ?_⟩
  cases aligned with
  | false =>
    simp only [Bool.false_eq_true, if_false] at hfit ⊢
    refine ⟨Nat.le_refl _, ?_, fun hc => hc.elim⟩
    omega
  | true =>
    simp only [if_true, alignPtr, ngxAlignment] at hfit ⊢
    refine ⟨?_, ?_, fun _ => Nat.dvd_mul_left _ _⟩
    · omega
    · omega

/-- What the loop over the blocks finds. -/
theorem carve_spec (hb : ∀ b ∈ bs, b.Ok size ∧ b.last ≤ b.stop) (hsize : ngxAlignment ∣ size)
    (h : carve aligned n bs = some (m, bs')) :
    ∃ pre b post, bs = pre ++ b :: post ∧ bs' = pre ++ { b with last := m + n } :: post ∧
      b.last ≤ m ∧ m + n ≤ b.stop ∧ (aligned = true → ngxAlignment ∣ m) := by
  induction bs generalizing bs' with
  | nil => cases h
  | cons b bs ih =>
    rw [carve] at h
    cases hf : b.fit aligned n with
    | some r =>
      obtain ⟨m', b'⟩ := r
      rw [hf] at h
      obtain ⟨rfl, rfl⟩ := Prod.mk.inj (Option.some.inj h)
      obtain ⟨hok, hlast⟩ := hb b List.mem_cons_self
      obtain ⟨rfl, hm, hn, hal⟩ := b.fit_spec hok hsize hlast hf
      exact ⟨[], b, bs, rfl, rfl, hm, hn, hal⟩
    | none =>
      rw [hf] at h
      obtain ⟨r, hr, he⟩ := Option.map_eq_some_iff.mp h
      obtain ⟨rfl, rfl⟩ := Prod.mk.inj he
      obtain ⟨pre, c, post, hbs, hbs', hrest⟩ :=
        ih (fun x hx => hb x (List.mem_cons_of_mem _ hx)) hr
      exact ⟨b :: pre, c, post, congrArg _ hbs, congrArg _ hbs', hrest⟩

/-- Counting failures changes nothing else of the blocks. -/
theorem map_countFailures {α : Type} (f : Block → α)
    (hf : ∀ b : Block, f { b with failed := b.failed + 1 } = f b) (i c : Nat) (bs : List Block) :
    (countFailures i c bs).1.map f = bs.map f := by
  fun_induction countFailures i c bs with
  | case1 => rfl
  | case2 => rfl
  | case3 i c b bs hbs r ih => rw [List.map_cons, List.map_cons, hf, ih]

/-- `current` stays at a block. -/
theorem current_countFailures (i c : Nat) (bs : List Block) (hc : c < i + bs.length) :
    (countFailures i c bs).2 < i + bs.length := by
  fun_induction countFailures i c bs with
  | case1 => exact hc
  | case2 => exact hc
  | case3 i c b bs hbs r ih =>
    have hlen : 0 < bs.length := List.length_pos_iff.mpr fun h => hbs h
    rw [List.length_cons] at hc ⊢
    have hgo : r.2 < i + 1 + bs.length := by
      apply ih
      split <;> omega
    omega

/-- A new block: first its header is carved out of it, then the memory. -/
theorem arena_newBlock (h : Arena (bs.map Block.chunk) regions)
    (hfresh : ∀ b ∈ bs, b.chunk.region.Apart ⟨a, size⟩) (hn : sizeofPoolData + n ≤ size) :
    Arena (bs.map Block.chunk ++ [⟨a, a + sizeofPoolData + n, a + size⟩])
      (⟨a + sizeofPoolData, n⟩ :: ⟨a, sizeofPoolData⟩ :: regions) := by
  have hwhole : (⟨a, a, a + size⟩ : Chunk).region = ⟨a, size⟩ := by
    simp [Chunk.region]
  have hnew : Arena (bs.map Block.chunk ++ [⟨a, a, a + size⟩]) regions := by
    refine h.extend ⟨Nat.le_refl _, Nat.le_add_right _ _⟩ ?_
    intro c hc
    obtain ⟨b, hb, rfl⟩ := List.mem_map.mp hc
    rw [hwhole]
    exact hfresh b hb
  have hheader := hnew.carve (m := a) (n := sizeofPoolData) (Nat.le_refl _) (by dsimp only; omega)
  exact hheader.carve (Nat.le_refl _) (by dsimp only; omega)

/-- A request that `ngx_palloc` makes is refused: for a block to hold the memory, for the memory
    itself if it is large, or for a block to hold the record of it. -/
inductive Refused (supply : Supply) (size n : Nat) (s : PoolHeap) : Prop
  | block (hn : n ≤ s.pool.max)
      (hno : supply s.heap.calls s.heap.live poolAlignment size = none)
  | memory (hn : s.pool.max < n)
      (hno : supply s.heap.calls s.heap.live mallocAlignment n = none)
  | record {a : Nat} (hn : s.pool.max < n)
      (ha : supply s.heap.calls s.heap.live mallocAlignment n = some a)
      (hno : supply (s.heap.calls + 1) (⟨a, n⟩ :: s.heap.live) poolAlignment size = none)

/-- What a small allocation does: nothing if the supply refuses a block, else it carves a region
    out of the blocks. -/
inductive Small (supply : Supply) (size : Nat) (aligned : Bool) (n : Nat) (s : PoolHeap)
    (outside regions : List Region) : Option Nat × PoolHeap → Prop
  | null {calls : Nat} (hno : supply s.heap.calls s.heap.live poolAlignment size = none) :
      Small supply size aligned n s outside regions (none, ⟨s.pool, ⟨calls, s.heap.live⟩⟩)
  | got {a : Nat} {s' : PoolHeap} (hlarge : s'.pool.large = s.pool.large)
      (hcleanup : s'.pool.cleanup = s.pool.cleanup) (hmax : s'.pool.max = s.pool.max)
      (hok : PoolOk size s' outside (⟨a, n⟩ :: regions))
      (hal : aligned = true → ngxAlignment ∣ a) :
      Small supply size aligned n s outside regions (some a, s')

namespace PoolOk

/-- The number of calls does not matter. -/
theorem recount (h : PoolOk size s outside regions) (calls : Nat) :
    PoolOk size ⟨s.pool, ⟨calls, s.heap.live⟩⟩ outside regions :=
  ⟨h.heap, h.live, h.blocks, h.current, h.max_le, h.size_dvd, h.arena⟩

theorem last_le (h : PoolOk size s outside regions) (hb : b ∈ s.pool.blocks) :
    b.last ≤ b.stop := (h.arena.bounds b.chunk (List.mem_map_of_mem hb)).2

/-- Memory from one of the blocks. -/
theorem carve (h : PoolOk size s outside regions)
    (hc : Core.carve aligned n (s.pool.blocks.drop s.pool.current) = some (m, bs)) :
    PoolOk size { s with pool := { s.pool with blocks := s.pool.blocks.take s.pool.current ++ bs } }
      outside (⟨m, n⟩ :: regions) ∧ (aligned = true → ngxAlignment ∣ m) := by
  have hdrop : ∀ b ∈ s.pool.blocks.drop s.pool.current, b.Ok size ∧ b.last ≤ b.stop := by
    intro b hb
    have hb := List.mem_of_mem_drop hb
    exact ⟨h.blocks b hb, h.last_le hb⟩
  obtain ⟨pre, b, post, hbs, rfl, hm, hn, hal⟩ := carve_spec hdrop h.size_dvd hc
  refine ⟨?_, hal⟩
  -- the same blocks, of which one is used further
  have hsplit : s.pool.blocks = (s.pool.blocks.take s.pool.current ++ pre) ++ b :: post := by
    rw [List.append_assoc, ← hbs, List.take_append_drop]
  generalize hP : s.pool.blocks.take s.pool.current ++ pre = P at hsplit
  have hnew : s.pool.blocks.take s.pool.current ++ (pre ++ { b with last := m + n } :: post) =
      P ++ { b with last := m + n } :: post := by
    rw [← List.append_assoc, hP]
  rw [hnew]
  have harena := h.arena
  rw [NgxPool.headers, hsplit, List.map_append, List.map_cons] at harena
  refine ⟨h.heap, ?_, ?_, ?_, h.max_le, h.size_dvd, ?_⟩
  · have hlive := h.live
    rw [hsplit] at hlive
    simpa using hlive
  · intro x hx
    have hb := h.blocks
    rw [hsplit] at hb
    rcases List.mem_append.mp hx with hx | hx
    · exact hb x (List.mem_append_left _ hx)
    · rcases List.mem_cons.mp hx with rfl | hx
      · have hb := hb b (by simp)
        exact ⟨hb.aligned, hb.stop_eq, hb.top⟩
      · exact hb x (by simp [hx])
  · have hcur := h.current
    rw [hsplit] at hcur
    simpa using hcur
  · have hcarved := harena.carve (c := b.chunk) (m := m) (n := n) hm hn
    rw [NgxPool.headers, List.map_append, List.map_cons]
    refine hcarved.subperm (List.Perm.subperm ?_)
    rw [show (P ++ { b with last := m + n } :: post).map Block.start =
      (P ++ b :: post).map Block.start by simp]
    exact List.perm_middle

/-- The size of the blocks. -/
theorem psize_eq (h : PoolOk size s outside regions) : s.pool.psize = size := by
  rw [NgxPool.psize]
  cases hb : s.pool.blocks with
  | nil =>
    have hcur := h.current
    rw [hb] at hcur
    exact absurd hcur (Nat.not_lt_zero _)
  | cons b bs =>
    have hok := (h.blocks b (hb ▸ List.mem_cons_self)).stop_eq
    dsimp only
    omega

theorem starts_ne (h : PoolOk size s outside regions) : s.pool.blocks.map Block.start ≠ [] := by
  intro hnil
  have hcur := h.current
  rw [List.map_eq_nil_iff.mp hnil] at hcur
  exact absurd hcur (Nat.not_lt_zero _)

/-- The whole of a block. -/
theorem chunk_region (h : PoolOk size s outside regions) (hb : b ∈ s.pool.blocks) :
    b.chunk.region = ⟨b.start, size⟩ := by
  have hstop := (h.blocks b hb).stop_eq
  rw [Block.chunk, Chunk.region]
  congr 1
  dsimp only
  omega

/-- What is apart from the live regions is apart from the blocks. -/
theorem apart_block (h : PoolOk size s outside regions)
    (hfresh : ∀ r ∈ s.heap.live, r.start ≠ a ∧ Region.Apart ⟨a, size⟩ r) :
    ∀ b ∈ s.pool.blocks, b.chunk.region.Apart ⟨a, size⟩ := by
  intro b hb
  have hlive : (⟨b.start, size⟩ : Region) ∈ s.heap.live :=
    h.live.mem_iff.mpr (List.mem_append_left _ (List.mem_map.mpr ⟨b, hb, rfl⟩))
  rw [h.chunk_region hb]
  exact (hfresh _ hlive).2.symm

/-- A new block behind the others, of which only the failures may have changed. -/
theorem addBlock (h : PoolOk size s outside regions) (hs : supply.Sound top) (htop : top < 2 ^ 64)
    (ha : supply s.heap.calls s.heap.live poolAlignment size = some a) (hn : n ≤ s.pool.max)
    (hbs : bs.map Block.chunk = s.pool.blocks.map Block.chunk) (hc : c ≤ bs.length) :
    PoolOk size
      ⟨{ s.pool with blocks := bs ++ [⟨a, a + sizeofPoolData + n, a + size, 0⟩], current := c },
        ⟨s.heap.calls + 1, ⟨a, size⟩ :: s.heap.live⟩⟩
      outside (⟨a + sizeofPoolData, n⟩ :: regions) := by
  obtain ⟨hdvd, hend, hfresh⟩ := hs _ _ _ _ _ ha
  have hmax := h.max_le
  have hstarts : bs.map Block.start = s.pool.blocks.map Block.start := by
    have hmap := congrArg (List.map Chunk.lo) hbs
    rwa [List.map_map, List.map_map] at hmap
  refine ⟨h.heap.alloc hs ha, ?_, ?_, ?_, h.max_le, h.size_dvd, ?_⟩
  · have hmap := congrArg (List.map fun a => (⟨a, size⟩ : Region)) hstarts
    rw [List.map_map, List.map_map] at hmap
    have hlive := h.live
    rw [List.map_append, List.append_assoc]
    refine (hlive.cons _).trans (List.Perm.trans ?_ List.perm_middle.symm)
    exact List.Perm.of_eq (congrArg (fun l => _ :: (l ++ outside)) hmap.symm)
  · intro b hb
    rcases List.mem_append.mp hb with hb | hb
    · have hmem : b.chunk ∈ s.pool.blocks.map Block.chunk := hbs ▸ List.mem_map_of_mem hb
      obtain ⟨b₀, hb₀, he⟩ := List.mem_map.mp hmem
      obtain ⟨hstart, -, hstop⟩ := Chunk.mk.inj he
      have hok := h.blocks b₀ hb₀
      refine ⟨hstart ▸ hok.aligned, ?_, hstop ▸ hok.top⟩
      rw [← hstart, ← hstop]
      exact hok.stop_eq
    · rw [List.mem_singleton.mp hb]
      exact ⟨hdvd, rfl, Nat.lt_of_le_of_lt hend htop⟩
  · rw [List.length_append]
    exact Nat.lt_succ_of_le hc
  · have hroom : sizeofPoolData + n ≤ size := by
      simp only [sizeofPool, sizeofPoolData] at hmax ⊢
      omega
    have harena := arena_newBlock h.arena (h.apart_block hfresh) hroom
    rw [NgxPool.headers, List.map_append, List.map_append, hbs, hstarts]
    refine harena.subperm (List.Perm.subperm ?_)
    rw [List.map_singleton, headersAt_append h.starts_ne]
    simp only [List.append_assoc, List.singleton_append]
    exact List.perm_middle.trans ((List.perm_middle.cons _).trans (List.Perm.swap _ _ _))

/-- **Another block.** -/
theorem pallocBlock (h : PoolOk size s outside regions) (hs : supply.Sound top)
    (htop : top < 2 ^ 64) (hn : n ≤ s.pool.max) :
    Small supply size aligned n s outside regions (Core.pallocBlock supply n s) := by
  rw [Core.pallocBlock, h.psize_eq]
  rcases s.heap.alloc_cases supply poolAlignment size with ⟨a, ha, halloc⟩ | ⟨hno, halloc⟩
  · rw [halloc]
    have hdvd : ngxAlignment ∣ a + sizeofPoolData := by
      have hdvd := (hs _ _ _ _ _ ha).1
      simp only [poolAlignment, ngxAlignment, sizeofPoolData] at hdvd ⊢
      omega
    have hm : alignPtr (a + sizeofPoolData) ngxAlignment = a + sizeofPoolData := by
      simp only [alignPtr, ngxAlignment, sizeofPoolData] at hdvd ⊢
      omega
    dsimp only
    rw [hm]
    refine .got rfl rfl rfl (h.addBlock hs htop ha hn ?_ ?_) fun _ => hdvd
    · rw [List.map_append, map_countFailures Block.chunk fun _ => rfl, ← List.map_append,
        List.take_append_drop]
    · have hcur := h.current
      have hlen := congrArg List.length (map_countFailures Block.chunk (fun _ => rfl)
        s.pool.current s.pool.current (s.pool.blocks.drop s.pool.current))
      have hgo := current_countFailures s.pool.current s.pool.current
        (s.pool.blocks.drop s.pool.current) (by rw [List.length_drop]; omega)
      simp only [List.length_map, List.length_drop] at hlen hgo
      rw [List.length_append, List.length_take, hlen]
      omega
  · rw [halloc]
    exact .null hno

/-- **Small allocations.** -/
theorem pallocSmall (aligned : Bool) (h : PoolOk size s outside regions) (hs : supply.Sound top)
    (htop : top < 2 ^ 64) (hn : n ≤ s.pool.max) :
    Small supply size aligned n s outside regions (Core.pallocSmall supply aligned n s) := by
  rw [Core.pallocSmall]
  cases hc : Core.carve aligned n (s.pool.blocks.drop s.pool.current) with
  | some r =>
    obtain ⟨hok, hal⟩ := h.carve hc
    exact .got rfl rfl rfl hok hal
  | none => exact h.pallocBlock hs htop hn

end PoolOk

/-! ### Large allocations -/

/-- What the memory of the process is used for, beside what a pool needs for itself. -/
structure PoolNotes where
  /-- Handed out from the blocks of the pool. -/
  held : List Region
  /-- Handed out as large allocations of the pool. -/
  larges : List Region
  /-- Of no concern to the pool. -/
  others : List Region
deriving DecidableEq, Repr

/-- Memory that the pool has handed out. -/
def PoolNotes.grant (notes : PoolNotes) (max : Nat) (r : Region) : PoolNotes :=
  if r.size ≤ max then { notes with held := r :: notes.held }
  else { notes with larges := r :: notes.larges }

/-- The invariant of a pool, with what it has handed out. -/
structure PoolInv (size : Nat) (s : PoolHeap) (notes : PoolNotes) : Prop where
  ok : PoolOk size s (notes.larges ++ notes.others) (notes.held ++ s.pool.records)
  allocs : (notes.larges.map Region.start).Perm s.pool.allocs
  max_ge : sizeofCleanup ≤ s.pool.max

/-- What a call of `ngx_palloc` does. -/
inductive Palloc (supply : Supply) (size : Nat) (aligned : Bool) (n : Nat) (s : PoolHeap)
    (notes : PoolNotes) : Option Nat × PoolHeap → Prop
  | null {calls : Nat} (hno : Refused supply size n s) :
      Palloc supply size aligned n s notes (none, ⟨s.pool, ⟨calls, s.heap.live⟩⟩)
  | got {a : Nat} {s' : PoolHeap} (hcleanup : s'.pool.cleanup = s.pool.cleanup)
      (hmax : s'.pool.max = s.pool.max) (hinv : PoolInv size s' (notes.grant s.pool.max ⟨a, n⟩))
      (hal : aligned = true → ngxAlignment ∣ a) : Palloc supply size aligned n s notes (some a, s')

variable {notes : PoolNotes} {fuel align : Nat} {large large' : List Large}

/-- The records of large allocations, without one of them. -/
theorem allocs_middle (pre post : List Large) (l : Large) :
    ((pre ++ l :: post).filterMap Large.alloc).Perm
      (l.alloc.toList ++ (pre ++ post).filterMap Large.alloc) := by
  cases h : l.alloc with
  | none => simp [h]
  | some a => simp [h]

/-- What the loop of `ngx_palloc_large` finds. -/
theorem reuse_spec (h : reuse a n large = some large') :
    ∃ pre l post, large = pre ++ l :: post ∧ l.alloc = none ∧
      large' = pre ++ { l with alloc := some a } :: post := by
  induction large generalizing n large' with
  | nil => cases h
  | cons l ls ih =>
    rw [reuse] at h
    by_cases hl : l.alloc = none
    · rw [if_pos hl] at h
      exact ⟨[], l, ls, rfl, hl, (Option.some.inj h).symm⟩
    · rw [if_neg hl] at h
      by_cases hn : n > 3
      · rw [if_pos hn] at h
        cases h
      · rw [if_neg hn] at h
        obtain ⟨ls', hr, rfl⟩ := Option.map_eq_some_iff.mp h
        obtain ⟨pre, x, post, rfl, hx, rfl⟩ := ih hr
        exact ⟨l :: pre, x, post, rfl, hx, rfl⟩

/-- What the loop of `ngx_pfree` finds. -/
theorem clearLarge_spec {p : Option Nat} (h : clearLarge p large = some large') :
    ∃ pre l post, large = pre ++ l :: post ∧ l.alloc = p ∧
      large' = pre ++ { l with alloc := none } :: post := by
  induction large generalizing large' with
  | nil => cases h
  | cons l ls ih =>
    rw [clearLarge] at h
    by_cases hl : p = l.alloc
    · rw [if_pos hl] at h
      exact ⟨[], l, ls, rfl, hl.symm, (Option.some.inj h).symm⟩
    · rw [if_neg hl] at h
      obtain ⟨ls', hr, rfl⟩ := Option.map_eq_some_iff.mp h
      obtain ⟨pre, x, post, rfl, hx, rfl⟩ := ih hr
      exact ⟨l :: pre, x, post, rfl, hx, rfl⟩

/-- The heap has handed out a region that is not a block. -/
theorem PoolOk.alloc (h : PoolOk size s outside regions) (hs : supply.Sound top)
    (ha : supply s.heap.calls s.heap.live align n = some a) :
    PoolOk size { s with heap := ⟨s.heap.calls + 1, ⟨a, n⟩ :: s.heap.live⟩ }
      (⟨a, n⟩ :: outside) regions :=
  ⟨h.heap.alloc hs ha, (h.live.cons _).trans List.perm_middle.symm, h.blocks, h.current, h.max_le,
    h.size_dvd, h.arena⟩

/-- The lists that go along may be rearranged. -/
theorem PoolOk.perm {outside' regions' : List Region} (h : PoolOk size s outside regions)
    (ho : outside.Perm outside') (hr : regions.Perm regions') :
    PoolOk size s outside' regions' :=
  ⟨h.heap, h.live.trans (ho.append_left _), h.blocks, h.current, h.max_le, h.size_dvd,
    h.arena.subperm (hr.symm.append_left _).subperm⟩

/-- The lists of large allocations and cleanups are no concern of the blocks. -/
theorem PoolOk.setLists (h : PoolOk size s outside regions) (ls : List Large)
    (cs : List Cleanup) :
    PoolOk size { s with pool := { s.pool with large := ls, cleanup := cs } } outside regions :=
  ⟨h.heap, h.live, h.blocks, h.current, h.max_le, h.size_dvd, h.arena⟩

namespace PoolInv

/-- A small allocation. -/
theorem pallocSmall (aligned : Bool) (h : PoolInv size s notes) (hs : supply.Sound top)
    (htop : top < 2 ^ 64) (hn : n ≤ s.pool.max) :
    Palloc supply size aligned n s notes (Core.pallocSmall supply aligned n s) := by
  have hsmall := h.ok.pallocSmall aligned hs htop hn
  generalize Core.pallocSmall supply aligned n s = r at hsmall ⊢
  cases hsmall with
  | null hno => exact .null (.block hn hno)
  | @got a s' hlarge hcleanup hmax hok hal =>
    refine .got hcleanup hmax ?_ hal
    have hgrant : notes.grant s.pool.max ⟨a, n⟩ = { notes with held := ⟨a, n⟩ :: notes.held } :=
      if_pos hn
    rw [hgrant]
    refine ⟨?_, ?_, hmax ▸ h.max_ge⟩
    · rw [NgxPool.records, hlarge, hcleanup]
      exact hok
    · rw [NgxPool.allocs, hlarge]
      exact h.allocs

/-- Memory of the heap becomes a large allocation, in a new record. -/
theorem addLarge (fuel : Nat) (h : PoolInv size s notes) (hs : supply.Sound top)
    (htop : top < 2 ^ 64) (ha : supply s.heap.calls s.heap.live align n = some a) :
    ∃ r, Core.addLarge (palloc supply (fuel + 1) true sizeofLarge) a
        { s with heap := ⟨s.heap.calls + 1, ⟨a, n⟩ :: s.heap.live⟩ } = some r ∧
      (r.1 = none → supply (s.heap.calls + 1) (⟨a, n⟩ :: s.heap.live) poolAlignment size = none ∧
        r.2.pool = s.pool ∧ r.2.heap.live = s.heap.live) ∧
      (∀ x, r.1 = some x → x = a ∧ r.2.pool.cleanup = s.pool.cleanup ∧
        r.2.pool.max = s.pool.max ∧
        PoolInv size r.2 { notes with larges := ⟨a, n⟩ :: notes.larges }) := by
  have hmax : sizeofLarge ≤ s.pool.max := Nat.le_trans (by decide) h.max_ge
  have hsmall := (h.ok.alloc hs ha).pallocSmall true hs htop hmax
  rw [Core.addLarge, palloc, if_pos hmax, Option.bind_some]
  generalize Core.pallocSmall supply true sizeofLarge _ = r at hsmall ⊢
  cases hsmall with
  | @null calls hno =>
    -- the memory that was just handed out is given back
    have hfree : Heap.free ⟨calls, ⟨a, n⟩ :: s.heap.live⟩ a = some ⟨calls, s.heap.live⟩ := by
      rw [Heap.free, if_pos ⟨⟨a, n⟩, List.mem_cons_self, rfl⟩]
      simp
    refine ⟨_, congrArg (Option.map _) hfree, fun _ => ⟨hno, rfl, rfl⟩, ?_⟩
    intro x hx
    cases hx
  | @got record s' hlarge hcleanup hmax' hok hal =>
    refine ⟨_, rfl, fun hc => absurd hc (Option.some_ne_none a), ?_⟩
    rintro x ⟨⟩
    refine ⟨rfl, hcleanup, hmax', ⟨?_, ?_, hmax' ▸ h.max_ge⟩⟩
    · have hrec : NgxPool.records { s'.pool with large := ⟨record, some a⟩ :: s'.pool.large } =
          ⟨record, sizeofLarge⟩ :: s.pool.records := by
        rw [NgxPool.records, NgxPool.records, ← hlarge, ← hcleanup]
        rfl
      have hok' := hok.setLists (⟨record, some a⟩ :: s'.pool.large) s'.pool.cleanup
      refine hok'.perm (List.Perm.refl _) ?_
      rw [hrec]
      exact List.perm_middle.symm
    · have hall : NgxPool.allocs { s'.pool with large := ⟨record, some a⟩ :: s'.pool.large } =
          a :: s.pool.allocs := by
        rw [NgxPool.allocs, NgxPool.allocs, ← hlarge]
        rfl
      rw [hall]
      exact h.allocs.cons a

/-- A large allocation takes the record of one that was given back, or a new one. -/
theorem pallocLarge (h : PoolInv size s notes) (hs : supply.Sound top) (htop : top < 2 ^ 64)
    (hn : ¬ n ≤ s.pool.max) :
    ∃ r, Core.pallocLarge supply (palloc supply (fuel + 1) true sizeofLarge) n s = some r ∧
      Palloc supply size aligned n s notes r := by
  have hgrant : ∀ a, notes.grant s.pool.max ⟨a, n⟩ =
      { notes with larges := ⟨a, n⟩ :: notes.larges } := fun a => if_neg hn
  rw [Core.pallocLarge]
  rcases s.heap.alloc_cases supply mallocAlignment n with ⟨a, ha, halloc⟩ | ⟨hno, halloc⟩
  · rw [halloc]
    have hal : ngxAlignment ∣ a :=
      Nat.dvd_trans (by decide : ngxAlignment ∣ mallocAlignment) (hs _ _ _ _ _ ha).1
    dsimp only
    cases hr : reuse a 0 s.pool.large with
    | some large =>
      obtain ⟨pre, l, post, hlarge, hnone, rfl⟩ := reuse_spec hr
      refine ⟨_, rfl, .got rfl rfl ?_ fun _ => hal⟩
      rw [hgrant]
      have hok := (h.ok.alloc hs ha).setLists (pre ++ { l with alloc := some a } :: post)
        s.pool.cleanup
      refine ⟨hok.perm (List.Perm.refl _) ?_, ?_, h.max_ge⟩
      · rw [NgxPool.records, NgxPool.records, hlarge]
        simp
      · have hall := h.allocs
        rw [NgxPool.allocs, hlarge] at hall
        have hold := hall.trans (allocs_middle pre post l)
        rw [hnone] at hold
        exact (hold.cons a).trans (allocs_middle pre post { l with alloc := some a }).symm
    | none =>
      obtain ⟨r, hr, hnull, hgot⟩ := h.addLarge fuel hs htop ha
      refine ⟨r, hr, ?_⟩
      obtain ⟨x, s'⟩ := r
      cases x with
      | none =>
        obtain ⟨hno, hpool, hlive⟩ := hnull rfl
        obtain ⟨pool, calls, live⟩ := s'
        dsimp only at hpool hlive
        subst hpool hlive
        exact .null (.record (Nat.not_le.mp hn) ha hno)
      | some x =>
        obtain ⟨rfl, hcleanup, hmax, hinv⟩ := hgot x rfl
        refine .got hcleanup hmax ?_ fun _ => hal
        rw [hgrant]
        exact hinv
  · rw [halloc]
    exact ⟨_, rfl, .null (.memory (Nat.not_le.mp hn) hno)⟩

/-- **`ngx_palloc`** returns: memory of its own, or `NULL` if the supply refuses a request. -/
theorem palloc (fuel : Nat) (aligned : Bool) (n : Nat) (h : PoolInv size s notes)
    (hs : supply.Sound top) (htop : top < 2 ^ 64) :
    ∃ r, Core.palloc supply (fuel + 2) aligned n s = some r ∧
      Palloc supply size aligned n s notes r := by
  rw [Core.palloc]
  by_cases hn : n ≤ s.pool.max
  · rw [if_pos hn]
    exact ⟨_, rfl, h.pallocSmall aligned hs htop hn⟩
  · rw [if_neg hn]
    exact h.pallocLarge hs htop hn

end PoolInv

end NginxEngine.Core
