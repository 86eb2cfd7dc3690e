import NginxEngine.Core.Palloc
import NginxEngine.Machine

/-!
# Runs of a memory pool

The operations on a pool in any order, while the rest of the process takes memory from the heap
and gives it back as it likes. What the pool has handed out goes along as a note.

## Main definitions

- `PoolInput`, `poolMachine` — the operations, and those of the rest of the process
- `poolNote` — what was handed out
- `PoolInv.step` — every step has a result and keeps the invariant

## Main results

- `pool_memory_apart` — nothing that is in use overlaps
- `palloc_null_only_if_refused` — alignment, and what a failed call leaves behind
- `destroy_gives_all_back` — destroying a pool gives back just what it took
- `small_pool_never_returns` — a pool without room for a record
-/

namespace NginxEngine.Core

variable {supply : Supply} {size n m a c top fuel : Nat} {aligned : Bool} {s s' : PoolHeap}
  {notes : PoolNotes}

namespace PoolInv

/-- `ngx_pmemalign`. -/
theorem pmemalign (fuel n align : Nat) (h : PoolInv size s notes) (hs : supply.Sound top)
    (htop : top < 2 ^ 64) :
    ∃ r, Core.pmemalign supply (fuel + 1) n align s = some r ∧
      (r.1 = none → PoolInv size r.2 notes) ∧
      ∀ a, r.1 = some a → PoolInv size r.2 { notes with larges := ⟨a, n⟩ :: notes.larges } := by
  rw [Core.pmemalign]
  rcases s.heap.alloc_cases supply align n with ⟨a, ha, halloc⟩ | ⟨hno, halloc⟩
  · rw [halloc]
    obtain ⟨r, hr, hnull, hgot⟩ := h.addLarge fuel hs htop ha
    refine ⟨r, hr, ?_, ?_⟩
    · intro hx
      obtain ⟨-, hpool, hlive⟩ := hnull hx
      obtain ⟨x, pool, calls, live⟩ := r
      dsimp only at hpool hlive
      subst hpool hlive
      exact ⟨h.ok.recount calls, h.allocs, h.max_ge⟩
    · intro x hx
      obtain ⟨rfl, -, -, hinv⟩ := hgot x hx
      exact hinv
  · rw [halloc]
    refine ⟨_, rfl, fun _ => ⟨h.ok.recount _, h.allocs, h.max_ge⟩, ?_⟩
    intro x hx
    cases hx

/-- The note that a large allocation is given back. -/
theorem larges_perm (h : PoolInv size s notes) (ha : a ∈ s.pool.allocs) :
    ∃ r, r.start = a ∧
      notes.larges.Perm (r :: notes.larges.eraseP fun x => x.start = a) := by
  obtain ⟨r, hr, hra⟩ := List.mem_map.mp (h.allocs.mem_iff.mpr ha)
  obtain ⟨r', l₁, l₂, -, hr', hl, he⟩ :=
    List.exists_of_eraseP (p := fun x : Region => decide (x.start = a)) hr (decide_eq_true hra)
  refine ⟨r', of_decide_eq_true hr', ?_⟩
  rw [he, hl]
  exact List.perm_middle

/-- `ngx_pfree`. -/
theorem pfree {p : Option Nat} (h : PoolInv size s notes) :
    ∃ r, Core.pfree p s = some r ∧ (r = (false, s) ∨ r.1 = true ∧
      PoolInv size r.2 (match p with
        | none => notes
        | some a => { notes with larges := notes.larges.eraseP fun x => x.start = a })) := by
  rw [Core.pfree]
  cases hc : clearLarge p s.pool.large with
  | none => exact ⟨_, rfl, .inl rfl⟩
  | some large =>
    obtain ⟨pre, l, post, hlarge, hl, rfl⟩ := clearLarge_spec hc
    have hrec : NgxPool.records { s.pool with large := pre ++ { l with alloc := none } :: post } =
        s.pool.records := by
      rw [NgxPool.records, NgxPool.records, hlarge]
      simp
    have hold : s.pool.allocs.Perm (l.alloc.toList ++ (pre ++ post).filterMap Large.alloc) := by
      rw [NgxPool.allocs, hlarge]
      exact allocs_middle pre post l
    have hnew : (NgxPool.allocs { s.pool with
        large := pre ++ { l with alloc := none } :: post }).Perm
          ((pre ++ post).filterMap Large.alloc) :=
      allocs_middle pre post { l with alloc := none }
    cases p with
    | none =>
      refine ⟨_, rfl, .inr ⟨rfl, ?_, ?_, h.max_ge⟩⟩
      · have hok := h.ok.setLists (pre ++ { l with alloc := none } :: post)
          s.pool.cleanup
        rw [← hrec] at hok
        exact hok
      · rw [hl] at hold
        exact h.allocs.trans (hold.trans hnew.symm)
    | some a =>
      rw [hl] at hold
      obtain ⟨r, rfl, hr⟩ := h.larges_perm (hold.mem_iff.mpr List.mem_cons_self)
      have hlive : s.heap.live.Perm (r :: (s.pool.blocks.map (fun b => ⟨b.start, size⟩) ++
          ((notes.larges.eraseP fun x => x.start = r.start) ++ notes.others))) := by
        refine h.ok.live.trans (((hr.append_right _).append_left _).trans ?_)
        exact List.perm_middle
      obtain ⟨live', hfree, hrest⟩ := Heap.free_of_perm h.ok.heap hlive
      refine ⟨_, congrArg (Option.map _) hfree, .inr ⟨rfl, ⟨?_, hrest, h.ok.blocks, h.ok.current,
        h.ok.max_le, h.ok.size_dvd, ?_⟩, ?_, h.max_ge⟩⟩
      · have hall : Heap.Ok ⟨s.heap.calls, r :: _⟩ := h.ok.heap.perm hlive
        exact Heap.Ok.perm (n := s.heap.calls) (List.pairwise_cons.mp hall).2 hrest.symm
      · rw [hrec]
        exact h.ok.arena
      · have hmap := (hr.map Region.start).symm.trans (h.allocs.trans hold)
        exact hmap.cons_inv.trans hnew.symm

/-- Something that was handed out is forgotten. -/
theorem forget {held : List Region} (h : PoolInv size s notes) (hsub : held.Subperm notes.held) :
    PoolInv size s { notes with held := held } := by
  have hok := h.ok
  refine ⟨⟨hok.heap, hok.live, hok.blocks, hok.current, hok.max_le, hok.size_dvd, ?_⟩, h.allocs,
    h.max_ge⟩
  refine hok.arena.subperm ((List.subperm_append_left _).mpr ?_)
  exact (List.subperm_append_right _).mpr hsub

/-- A record that was handed out becomes that of a cleanup. -/
theorem addCleanup {held : List Region} {data : Option Nat}
    (h : PoolInv size s notes) (hc : notes.held.Perm (⟨c, sizeofCleanup⟩ :: held)) :
    PoolInv size { s with pool := { s.pool with cleanup := ⟨c, none, data⟩ :: s.pool.cleanup } }
      { notes with held := held } := by
  refine ⟨?_, h.allocs, h.max_ge⟩
  have hok := h.ok.setLists s.pool.large (⟨c, none, data⟩ :: s.pool.cleanup)
  refine hok.perm (List.Perm.refl _) ?_
  rw [NgxPool.records, NgxPool.records, List.map_cons]
  refine (hc.append_right _).trans ?_
  rw [List.cons_append, ← List.append_assoc, ← List.append_assoc]
  exact List.perm_middle.symm

theorem recount (h : PoolInv size s notes) (calls : Nat) :
    PoolInv size ⟨s.pool, ⟨calls, s.heap.live⟩⟩ notes :=
  ⟨h.ok.recount calls, h.allocs, h.max_ge⟩

/-- `ngx_pool_cleanup_add`. -/
theorem cleanupAdd (fuel n : Nat) (h : PoolInv size s notes) (hs : supply.Sound top)
    (htop : top < 2 ^ 64) :
    ∃ r, Core.cleanupAdd supply (fuel + 2) n s = some r ∧
      (r.1 = none ∧ PoolInv size r.2 notes ∨
        ∃ c data, r.1 = some c ∧ r.2.pool.cleanup = ⟨c, none, data⟩ :: s.pool.cleanup ∧
          PoolInv size r.2 (match data with
            | none => notes
            | some d => notes.grant s.pool.max ⟨d, n⟩)) := by
  obtain ⟨r, hr, hpalloc⟩ := h.palloc fuel true sizeofCleanup hs htop
  rw [Core.cleanupAdd, hr, Option.bind_some]
  cases hpalloc with
  | @null calls hno => exact ⟨_, rfl, .inl ⟨rfl, h.recount calls⟩⟩
  | @got c s₁ hcleanup hmax hinv hal =>
    have hgrant : notes.grant s.pool.max ⟨c, sizeofCleanup⟩ =
        { notes with held := ⟨c, sizeofCleanup⟩ :: notes.held } := if_pos h.max_ge
    rw [hgrant] at hinv
    dsimp only
    by_cases hn : n = 0
    · rw [if_pos hn]
      refine ⟨_, rfl, .inr ⟨c, none, rfl, by rw [hcleanup], ?_⟩⟩
      exact hinv.addCleanup (List.Perm.refl _)
    · rw [if_neg hn]
      obtain ⟨d, hd, hpalloc⟩ := hinv.palloc fuel true n hs htop
      rw [hd, Option.bind_some]
      cases hpalloc with
      | @null calls hno =>
        -- the record stays in the pool, but nobody knows of it
        refine ⟨_, rfl, .inl ⟨rfl, ?_⟩⟩
        exact (hinv.recount calls).forget (List.sublist_cons_self _ _).subperm
      | @got data s₂ hcleanup₂ hmax₂ hinv₂ hal₂ =>
        refine ⟨_, rfl, .inr ⟨c, some data, rfl, by rw [hcleanup₂, hcleanup], ?_⟩⟩
        rw [hmax] at hinv₂
        dsimp only
        by_cases hsmall : n ≤ s.pool.max
        · rw [PoolNotes.grant, if_pos hsmall] at hinv₂ ⊢
          exact hinv₂.addCleanup (List.Perm.swap _ _ _)
        · rw [PoolNotes.grant, if_neg hsmall] at hinv₂ ⊢
          exact hinv₂.addCleanup (List.Perm.refl _)

/-- Setting a handler moves nothing. -/
theorem setHandler (h : PoolInv size s notes) (c f : Nat) :
    PoolInv size { s with pool := Core.setHandler c f s.pool } notes := by
  refine ⟨?_, h.allocs, h.max_ge⟩
  have hrec : (Core.setHandler c f s.pool).records = s.pool.records := by
    rw [NgxPool.records, NgxPool.records, Core.setHandler]
    dsimp only
    rw [List.map_map]
    congr 2
    funext x
    dsimp only [Function.comp]
    split <;> rfl
  have hok := h.ok.setLists s.pool.large (Core.setHandler c f s.pool).cleanup
  rw [← hrec] at hok
  exact hok

/-- Every header fits into a block that is used up to the size of the largest header. -/
theorem header_cases {as : List Nat} {r : Region} (hr : r ∈ headersAt as) :
    r.start ∈ as ∧ r.size ≤ sizeofPool := by
  cases as with
  | nil => cases hr
  | cons x as =>
    rcases List.mem_cons.mp hr with rfl | hr
    · exact ⟨List.mem_cons_self, Nat.le_refl _⟩
    · obtain ⟨y, hy, rfl⟩ := List.mem_map.mp hr
      refine ⟨List.mem_cons_of_mem _ hy, ?_⟩
      simp only [sizeofPoolData, sizeofPool]
      omega

/-- `ngx_reset_pool`, of a pool without cleanups. -/
theorem resetPool (h : PoolInv size s notes) (hc : s.pool.cleanup = []) :
    ∃ s', Core.resetPool s = some s' ∧ PoolInv size s' { notes with held := [], larges := [] } := by
  have hlive : s.heap.live.Perm
      (notes.larges ++ (s.pool.blocks.map (fun b => ⟨b.start, size⟩) ++ notes.others)) := by
    refine h.ok.live.trans ?_
    rw [← List.append_assoc, ← List.append_assoc]
    exact List.perm_append_comm.append_right _
  obtain ⟨live', hfree, hrest⟩ := Heap.freeAll_spec h.ok.heap hlive h.allocs.symm
  refine ⟨_, congrArg (Option.map _) hfree, ⟨⟨?_, ?_, ?_, ?_, h.ok.max_le, h.ok.size_dvd, ?_⟩, ?_,
    h.max_ge⟩⟩
  · have hall : Heap.Ok ⟨s.heap.calls, _⟩ := h.ok.heap.perm hlive
    exact Heap.Ok.perm (n := s.heap.calls) (List.pairwise_append.mp hall).2.1 hrest.symm
  · rw [List.map_map]
    exact hrest
  · intro b hb
    obtain ⟨b₀, hb₀, rfl⟩ := List.mem_map.mp hb
    have hok := h.ok.blocks b₀ hb₀
    exact ⟨hok.aligned, hok.stop_eq, hok.top⟩
  · rw [List.length_map]
    exact h.ok.current
  · have hmax := h.ok.max_le
    have hrec : NgxPool.records { s.pool with
        large := []
        blocks := s.pool.blocks.map fun b => { b with last := b.start + sizeofPool } } = [] := by
      rw [NgxPool.records, hc]
      rfl
    rw [hrec, NgxPool.headers, List.append_nil, List.append_nil, List.map_map, List.map_map]
    refine ⟨?_, ?_, ?_, ?_⟩
    · intro x hx
      obtain ⟨b, hb, rfl⟩ := List.mem_map.mp hx
      have hstop := (h.ok.blocks b hb).stop_eq
      dsimp only [Function.comp, Block.chunk]
      omega
    · have hchunks := List.pairwise_map.mp h.ok.arena.chunks_apart
      exact List.pairwise_map.mpr hchunks
    · intro r hr
      obtain ⟨hstart, hle⟩ := header_cases hr
      obtain ⟨b, hb, he⟩ := List.mem_map.mp hstart
      refine ⟨_, List.mem_map_of_mem hb, ?_⟩
      dsimp only [Function.comp] at he
      dsimp only [Function.comp, Block.chunk, Chunk.Holds, Region.stop]
      omega
    · exact (List.pairwise_append.mp h.ok.arena.apart).1
  · exact List.Perm.refl _

/-- `ngx_destroy_pool`. -/
theorem destroyPool (h : PoolInv size s notes) :
    ∃ log heap, Core.destroyPool s = some (log, heap) ∧ heap.Ok ∧
      heap.live.Perm notes.others := by
  have hlive : s.heap.live.Perm
      ((notes.larges ++ s.pool.blocks.map (fun b => ⟨b.start, size⟩)) ++ notes.others) := by
    refine h.ok.live.trans ?_
    rw [← List.append_assoc]
    exact List.perm_append_comm.append_right _
  have haddr : (s.pool.allocs ++ s.pool.blocks.map Block.start).Perm
      ((notes.larges ++ s.pool.blocks.map fun b => (⟨b.start, size⟩ : Region)).map
        Region.start) := by
    rw [List.map_append, List.map_map]
    exact h.allocs.symm.append_right _
  obtain ⟨live', hfree, hrest⟩ := Heap.freeAll_spec h.ok.heap hlive haddr
  refine ⟨_, _, congrArg (Option.map _) hfree, ?_, hrest⟩
  have hall : Heap.Ok ⟨s.heap.calls, _⟩ := h.ok.heap.perm hlive
  exact Heap.Ok.perm (n := s.heap.calls) (List.pairwise_append.mp hall).2.1 hrest.symm

/-- `ngx_create_pool`, for a size that has room for a cleanup record. -/
theorem createPool {heap heap' : Heap} {pool : NgxPool} {pagesize : Nat} (hheap : heap.Ok)
    (hs : supply.Sound top) (htop : top < 2 ^ 64) (hsize : sizeofPool + sizeofCleanup ≤ size)
    (hdvd : ngxAlignment ∣ size) (hpage : sizeofCleanup < pagesize)
    (h : Core.createPool supply pagesize size heap = (some pool, heap')) :
    PoolInv size ⟨pool, heap'⟩ ⟨[], [], heap.live⟩ := by
  rw [Core.createPool] at h
  rcases heap.alloc_cases supply poolAlignment size with ⟨a, ha, halloc⟩ | ⟨hno, halloc⟩
  · rw [halloc] at h
    obtain ⟨hpool, rfl⟩ := Prod.mk.inj h
    obtain rfl := Option.some.inj hpool
    obtain ⟨hal, hend, -⟩ := hs _ _ _ _ _ ha
    simp only [sizeofPool, sizeofCleanup] at hsize hpage
    have hrest : sizeSub size sizeofPool = size - sizeofPool := by
      simp only [sizeSub, sizeofPool]
      omega
    have hmax : (if sizeSub size sizeofPool < pagesize - 1 then sizeSub size sizeofPool
          else pagesize - 1) + sizeofPool ≤ size ∧
        sizeofCleanup ≤ if sizeSub size sizeofPool < pagesize - 1 then sizeSub size sizeofPool
          else pagesize - 1 := by
      by_cases hlt : sizeSub size sizeofPool < pagesize - 1
      · rw [if_pos hlt, hrest]
        simp only [sizeofPool, sizeofCleanup]
        omega
      · rw [if_neg hlt]
        rw [hrest] at hlt
        simp only [sizeofPool, sizeofCleanup] at hlt ⊢
        omega
    refine ⟨⟨hheap.alloc hs ha, List.Perm.refl _, ?_, Nat.zero_lt_one, hmax.1, hdvd, ?_⟩,
      List.Perm.refl _, hmax.2⟩
    · intro b hb
      rw [List.mem_singleton.mp hb]
      exact ⟨hal, rfl, Nat.lt_of_le_of_lt hend htop⟩
    · refine ⟨?_, List.pairwise_singleton _ _, ?_, List.pairwise_singleton _ _⟩
      · intro x hx
        rw [List.mem_singleton.mp hx]
        simp only [Block.chunk, sizeofPool]
        omega
      · intro r hr
        rw [List.mem_singleton.mp hr]
        exact ⟨_, List.mem_cons_self, Nat.le_refl _, Nat.le_refl _⟩
  · rw [halloc] at h
    cases h

/-- The rest of the process gets memory. -/
theorem otherAlloc {align : Nat} (h : PoolInv size s notes) (hs : supply.Sound top)
    (ha : supply s.heap.calls s.heap.live align n = some a) :
    PoolInv size { s with heap := ⟨s.heap.calls + 1, ⟨a, n⟩ :: s.heap.live⟩ }
      { notes with others := ⟨a, n⟩ :: notes.others } :=
  ⟨(h.ok.alloc hs ha).perm List.perm_middle.symm (List.Perm.refl _), h.allocs, h.max_ge⟩

/-- The rest of the process gives memory back. -/
theorem otherFree (h : PoolInv size s notes) (ha : a ∈ notes.others.map Region.start) :
    ∃ heap, s.heap.free a = some heap ∧ PoolInv size { s with heap := heap }
      { notes with others := notes.others.eraseP fun x => x.start = a } := by
  obtain ⟨r, hr, hra⟩ := List.mem_map.mp ha
  obtain ⟨r', l₁, l₂, -, hr', hl, he⟩ :=
    List.exists_of_eraseP (p := fun x : Region => decide (x.start = a)) hr (decide_eq_true hra)
  obtain rfl := of_decide_eq_true hr'
  have hlive : s.heap.live.Perm (r' :: (s.pool.blocks.map (fun b => ⟨b.start, size⟩) ++
      (notes.larges ++ notes.others.eraseP fun x => x.start = r'.start))) := by
    have hothers : notes.others.Perm (r' :: notes.others.eraseP fun x => x.start = r'.start) := by
      rw [he, hl]
      exact List.perm_middle
    refine h.ok.live.trans (((hothers.append_left _).append_left _).trans ?_)
    rw [← List.append_assoc, ← List.append_assoc]
    exact List.perm_middle
  obtain ⟨live', hfree, hrest⟩ := Heap.free_of_perm h.ok.heap hlive
  refine ⟨_, hfree, ⟨⟨?_, hrest, h.ok.blocks, h.ok.current, h.ok.max_le, h.ok.size_dvd,
    h.ok.arena⟩, h.allocs, h.max_ge⟩⟩
  have hall : Heap.Ok ⟨s.heap.calls, r' :: _⟩ := h.ok.heap.perm hlive
  exact Heap.Ok.perm (n := s.heap.calls) (List.pairwise_cons.mp hall).2 hrest.symm

end PoolInv

/-! ### Runs -/

inductive PoolInput
  /-- `ngx_palloc`, `ngx_pcalloc` (`aligned`) or `ngx_pnalloc`. -/
  | palloc (aligned : Bool) (n : Nat)
  | pmemalign (n align : Nat)
  | pfree (p : Option Nat)
  | cleanupAdd (n : Nat)
  /-- The caller sets the handler of a cleanup. -/
  | setHandler (c f : Nat)
  | reset
  /-- The rest of the process takes memory from the heap. -/
  | otherAlloc (align n : Nat)
  /-- The rest of the process gives memory back. -/
  | otherFree (a : Nat)

/-- What a call answers, and the state afterwards. -/
def poolAct (supply : Supply) (fuel : Nat) (s : PoolHeap) :
    PoolInput → Option (Option Nat × PoolHeap)
  | .palloc aligned n => palloc supply fuel aligned n s
  | .pmemalign n align => pmemalign supply fuel n align s
  | .pfree p => (pfree p s).map fun r => (if r.1 then p else none, r.2)
  | .cleanupAdd n => cleanupAdd supply fuel n s
  | .setHandler c f => some (none, { s with pool := setHandler c f s.pool })
  | .reset => (resetPool s).map fun s => (none, s)
  | .otherAlloc align n =>
    let r := s.heap.alloc supply align n
    some (r.1, { s with heap := r.2 })
  | .otherFree a => (s.heap.free a).map fun h => (none, { s with heap := h })

def poolMachine (supply : Supply) (fuel : Nat) : Machine PoolHeap PoolInput :=
  ⟨fun s i => (poolAct supply fuel s i).map Prod.snd⟩

/-- What is in use after a call with this result. -/
def PoolNotes.after (notes : PoolNotes) (s : PoolHeap) (i : PoolInput)
    (r : Option Nat × PoolHeap) : PoolNotes :=
  match i with
  | .palloc _ n => r.1.elim notes fun a => notes.grant s.pool.max ⟨a, n⟩
  | .pmemalign n _ => r.1.elim notes fun a => { notes with larges := ⟨a, n⟩ :: notes.larges }
  | .pfree _ => r.1.elim notes fun a =>
      { notes with larges := notes.larges.eraseP fun x => x.start = a }
  | .cleanupAdd n => r.1.elim notes fun _ =>
      (r.2.pool.cleanup.head?.bind Cleanup.data).elim notes fun d =>
        notes.grant s.pool.max ⟨d, n⟩
  | .setHandler _ _ => notes
  | .reset => { notes with held := [], larges := [] }
  | .otherAlloc _ n => r.1.elim notes fun a => { notes with others := ⟨a, n⟩ :: notes.others }
  | .otherFree a => { notes with others := notes.others.eraseP fun x => x.start = a }

def poolNote (supply : Supply) (fuel : Nat) (s : PoolHeap) (i : PoolInput) (notes : PoolNotes) :
    PoolNotes :=
  (poolAct supply fuel s i).elim notes (notes.after s i)

/-- A pool is reset while it has no cleanups, whose records would be handed out again; and the
    rest of the process gives back what is its own. -/
def PoolCare (x : PoolHeap × PoolNotes) : PoolInput → Prop
  | .reset => x.1.pool.cleanup = []
  | .otherFree a => a ∈ x.2.others.map Region.start
  | .palloc _ _ | .pmemalign _ _ | .pfree _ | .cleanupAdd _ | .setHandler _ _
  | .otherAlloc _ _ => True

instance (x : PoolHeap × PoolNotes) (i : PoolInput) : Decidable (PoolCare x i) := by
  unfold PoolCare
  split <;> infer_instance

/-- **One step.** Every call returns and keeps the invariant. -/
theorem PoolInv.step (fuel : Nat) {i : PoolInput} (h : PoolInv size s notes) (hs : supply.Sound top)
    (htop : top < 2 ^ 64) (hG : PoolCare (s, notes) i) :
    ∃ r, poolAct supply (fuel + 2) s i = some r ∧ PoolInv size r.2 (notes.after s i r) := by
  cases i with
  | palloc aligned n =>
    obtain ⟨r, hr, hpalloc⟩ := h.palloc fuel aligned n hs htop
    refine ⟨r, hr, ?_⟩
    cases hpalloc with
    | null hno => exact h.recount _
    | got _ _ hinv _ => exact hinv
  | pmemalign n align =>
    obtain ⟨r, hr, hnull, hgot⟩ := h.pmemalign (fuel + 1) n align hs htop
    refine ⟨r, hr, ?_⟩
    obtain ⟨x, s'⟩ := r
    cases x with
    | none => exact hnull rfl
    | some a => exact hgot a rfl
  | pfree p =>
    obtain ⟨r, hr, hcases⟩ := h.pfree (p := p)
    refine ⟨_, congrArg (Option.map _) hr, ?_⟩
    rcases hcases with rfl | ⟨hok, hinv⟩
    · exact h
    · rw [PoolNotes.after]
      dsimp only
      rw [if_pos hok]
      cases p with
      | none => exact hinv
      | some a => exact hinv
  | cleanupAdd n =>
    obtain ⟨r, hr, hcases⟩ := h.cleanupAdd fuel n hs htop
    refine ⟨r, hr, ?_⟩
    rcases hcases with ⟨hnone, hinv⟩ | ⟨c, data, hsome, hcleanup, hinv⟩
    · rw [PoolNotes.after, hnone]
      exact hinv
    · rw [PoolNotes.after, hsome, hcleanup]
      cases data with
      | none => exact hinv
      | some d => exact hinv
  | setHandler c f => exact ⟨_, rfl, h.setHandler c f⟩
  | reset =>
    obtain ⟨s', hs', hinv⟩ := h.resetPool hG
    exact ⟨_, congrArg (Option.map _) hs', hinv⟩
  | otherAlloc align n =>
    refine ⟨_, rfl, ?_⟩
    rcases s.heap.alloc_cases supply align n with ⟨a, ha, halloc⟩ | ⟨hno, halloc⟩
    · rw [halloc]
      exact h.otherAlloc hs ha
    · rw [halloc]
      exact h.recount _
  | otherFree a =>
    obtain ⟨heap, hfree, hinv⟩ := h.otherFree hG
    exact ⟨_, congrArg (Option.map _) hfree, hinv⟩

/-- The start of a run: a sound supply of memory below the end of the address space, a heap
    in order, and a pool that was created with a size that is a multiple of `NGX_ALIGNMENT` and
    has room for the records that are kept in it. -/
structure Created (supply : Supply) (size : Nat) (heap : Heap) (s : PoolHeap) : Prop where
  sound : ∃ top, top < 2 ^ 64 ∧ supply.Sound top
  heap_ok : heap.Ok
  room : sizeofPool + sizeofCleanup ≤ size
  aligned : ngxAlignment ∣ size
  created : ∃ pagesize, sizeofCleanup < pagesize ∧
    createPool supply pagesize size heap = (some s.pool, s.heap)

section Results

variable {heap : Heap} {s₀ : PoolHeap}

/-- **Whole runs.** -/
theorem poolInv_of_reaches (h₀ : Created supply size heap s₀)
    (h : ((poolMachine supply (fuel + 2)).withNotes (poolNote supply (fuel + 2))).Reaches PoolCare
      (s₀, ⟨[], [], heap.live⟩) (s, notes)) : PoolInv size s notes := by
  obtain ⟨top, htop, hs⟩ := h₀.sound
  obtain ⟨pagesize, hpage, hcreate⟩ := h₀.created
  refine h.invariant (I := fun x => PoolInv size x.1 x.2)
    (PoolInv.createPool h₀.heap_ok hs htop h₀.room h₀.aligned hpage hcreate) ?_
  intro x i y hx hG hstep
  obtain ⟨hstep, hnote⟩ := Machine.step_withNotes hstep
  obtain ⟨r, hr, hinv⟩ := hx.step fuel hs htop hG
  have hstate : r.2 = y.1 := Option.some.inj ((congrArg (Option.map Prod.snd) hr).symm.trans hstep)
  rw [poolNote, hr] at hnote
  rw [hnote, ← hstate]
  exact hinv

/-- An address above all of these regions. -/
def above (live : List Region) : Nat := live.foldr (fun r m => max m (r.stop + 1)) 1

theorem stop_lt_above {live : List Region} {r : Region} (hr : r ∈ live) : r.stop < above live := by
  induction live with
  | nil => cases hr
  | cons x live ih =>
    rw [above, List.foldr_cons]
    rcases List.mem_cons.mp hr with rfl | hr
    · exact Nat.le_max_right _ _
    · exact Nat.lt_of_lt_of_le (ih hr) (Nat.le_max_left _ _)

/-- A supply that puts every region above the live ones, as long as it ends below `top`. -/
def supplyAbove (top : Nat) : Supply := fun _ live align n =>
  let a := alignPtr (above live) align
  if 0 < align ∧ a + n ≤ top then some a else none

theorem supplyAbove_sound (top : Nat) : (supplyAbove top).Sound top := by
  intro _ live align n a h
  rw [supplyAbove, Option.ite_none_right_eq_some] at h
  obtain ⟨⟨halign, htop⟩, ha⟩ := h
  obtain rfl := Option.some.inj ha
  refine ⟨Nat.dvd_mul_left _ _, htop, ?_⟩
  intro r hr
  have hlt := stop_lt_above hr
  have hle : above live ≤ alignPtr (above live) align := by
    rw [alignPtr]
    have hmod := Nat.div_add_mod' (above live + (align - 1)) align
    have hlt := Nat.mod_lt (above live + (align - 1)) halign
    omega
  rw [Region.Apart]
  simp only [Region.stop] at hlt ⊢
  omega

/-- A pool of 128 bytes on an empty heap. -/
def smallPool : PoolHeap := ⟨⟨[⟨16, 96, 144, 0⟩], 0, 48, [], []⟩, ⟨1, [⟨16, 128⟩]⟩⟩

theorem smallPool_created (top : Nat) (hlo : 144 ≤ top) (hhi : top < 2 ^ 64) :
    Created (supplyAbove top) 128 ⟨0, []⟩ smallPool := by
  refine ⟨⟨top, hhi, supplyAbove_sound _⟩, List.Pairwise.nil, by decide, by decide, 4096,
    by decide, ?_⟩
  have ha : supplyAbove top 0 [] poolAlignment 128 = some 16 := if_pos ⟨by decide, hlo⟩
  rw [createPool, Heap.alloc]
  dsimp only
  rw [ha]
  rfl

/-- **Nothing overlaps.** In every run, the headers of the blocks, what was handed out from
    them, the records that the pool keeps in them, the large allocations and all memory of the
    rest of the process lie apart; what is inside of the pool lies within its live blocks. Every
    call returns, and no call gives back what is not live. -/
theorem pool_memory_apart (h₀ : Created supply size heap s₀)
    (h : ((poolMachine supply (fuel + 2)).withNotes (poolNote supply (fuel + 2))).Reaches PoolCare
      (s₀, ⟨[], [], heap.live⟩) (s, notes)) :
    (s.pool.headers ++ (notes.held ++ s.pool.records) ++
      (notes.larges ++ notes.others)).Pairwise Region.Apart ∧
    (∀ r ∈ s.pool.headers ++ (notes.held ++ s.pool.records),
      ∃ b ∈ s.heap.live, b.start ∈ s.pool.blocks.map Block.start ∧ r.Within b) ∧
    (∀ r ∈ notes.larges ++ notes.others, r ∈ s.heap.live) ∧
    ∀ i, PoolCare (s, notes) i → (poolAct supply (fuel + 2) s i).isSome := by
  have hinv := poolInv_of_reaches h₀ h
  refine ⟨hinv.ok.arena.apart_append ?_, ?_, ?_, ?_⟩
  · have hlive := (Region.pairwise_apart_perm hinv.ok.live).mp (hinv.ok.heap.imp fun hrs => hrs.2)
    have hmap : (s.pool.blocks.map Block.chunk).map Chunk.region =
        s.pool.blocks.map fun b => ⟨b.start, size⟩ := by
      rw [List.map_map]
      exact List.map_congr_left fun b hb => hinv.ok.chunk_region hb
    rw [hmap]
    exact hlive
  · intro r hr
    obtain ⟨c, hc, hr⟩ := hinv.ok.arena.held r hr
    have hwithin := hinv.ok.arena.within hc hr
    obtain ⟨b, hb, rfl⟩ := List.mem_map.mp hc
    rw [hinv.ok.chunk_region hb] at hwithin
    refine ⟨⟨b.start, size⟩, ?_, List.mem_map_of_mem hb, hwithin⟩
    exact hinv.ok.live.mem_iff.mpr (List.mem_append_left _ (List.mem_map.mpr ⟨b, hb, rfl⟩))
  · intro r hr
    exact hinv.ok.live.mem_iff.mpr (List.mem_append_right _ hr)
  · intro i hi
    obtain ⟨top, htop, hs⟩ := h₀.sound
    obtain ⟨r, hr, -⟩ := hinv.step fuel hs htop hi
    rw [hr]
    rfl

/-- Unaligned and aligned memory, a second block, a large allocation with its record, a cleanup
    with data, and memory of the rest of the process. -/
theorem pool_memory_apart_mixed :
    ∃ s notes, ((poolMachine (supplyAbove (2 ^ 63)) 2).withNotes
        (poolNote (supplyAbove (2 ^ 63)) 2)).Reaches PoolCare (smallPool, ⟨[], [], []⟩) (s, notes) ∧
      (notes.held, s.pool.records, notes.larges ++ notes.others) =
        ([⟨784, 9⟩, ⟨720, 40⟩, ⟨104, 20⟩, ⟨96, 3⟩], [⟨128, 16⟩, ⟨760, 24⟩],
          [⟨176, 500⟩, ⟨160, 10⟩]) ∧
      (s.pool.headers ++ (notes.held ++ s.pool.records) ++
        (notes.larges ++ notes.others)).Pairwise Region.Apart := by
  obtain ⟨⟨s, notes⟩, hr, hx⟩ := Machine.Reaches.of_run_map
    (M := (poolMachine (supplyAbove (2 ^ 63)) 2).withNotes (poolNote (supplyAbove (2 ^ 63)) 2))
    (G := PoolCare) (s := (smallPool, ⟨[], [], []⟩))
    (fun x => (x.2.held, x.1.pool.records, x.2.larges ++ x.2.others))
    [.palloc false 3, .palloc true 20, .otherAlloc 16 10, .palloc true 500, .palloc true 40,
      .cleanupAdd 9, .setHandler 760 7]
    (show _ = some ([⟨784, 9⟩, ⟨720, 40⟩, ⟨104, 20⟩, ⟨96, 3⟩], [⟨128, 16⟩, ⟨760, 24⟩],
      [⟨176, 500⟩, ⟨160, 10⟩]) by decide +kernel)
  exact ⟨s, notes, hr, hx, (pool_memory_apart (smallPool_created _ (by decide) (by decide)) hr).1⟩

/-- **Failure.** In every run `ngx_palloc` returns memory that is aligned, or `NULL`; and `NULL`
    only if a request of the call was refused, in which case the pool is as it was before the
    call and nothing has leaked, also if a large allocation was made already. -/
theorem palloc_null_only_if_refused (h₀ : Created supply size heap s₀)
    (h : ((poolMachine supply (fuel + 2)).withNotes (poolNote supply (fuel + 2))).Reaches PoolCare
      (s₀, ⟨[], [], heap.live⟩) (s, notes)) (aligned : Bool) (n : Nat) :
    ∃ answer s', palloc supply (fuel + 2) aligned n s = some (answer, s') ∧
      (answer = none →
        Refused supply size n s ∧ s'.pool = s.pool ∧ s'.heap.live = s.heap.live) ∧
      ∀ a, answer = some a → aligned = true → ngxAlignment ∣ a := by
  obtain ⟨top, htop, hs⟩ := h₀.sound
  obtain ⟨⟨answer, s'⟩, hr, hpalloc⟩ :=
    (poolInv_of_reaches h₀ h).palloc fuel aligned n hs htop
  refine ⟨answer, s', hr, ?_, ?_⟩
  · rintro rfl
    cases hpalloc with
    | null hno => exact ⟨hno, rfl, rfl⟩
  · rintro a rfl
    cases hpalloc with
    | got _ _ _ hal => exact hal

/-- There is memory for a large allocation, but not for the block that its record needs. -/
theorem palloc_null_only_if_refused_record :
    ∃ s notes, ((poolMachine (supplyAbove 400) 2).withNotes
        (poolNote (supplyAbove 400) 2)).Reaches PoolCare (smallPool, ⟨[], [], []⟩) (s, notes) ∧
      ∃ s', palloc (supplyAbove 400) 2 true 200 s = some (none, s') ∧ s'.pool = s.pool ∧
        s'.heap.live = s.heap.live := by
  obtain ⟨⟨s, notes⟩, hr, hx⟩ := Machine.Reaches.of_run_map
    (M := (poolMachine (supplyAbove 400) 2).withNotes (poolNote (supplyAbove 400) 2))
    (G := PoolCare) (s := (smallPool, ⟨[], [], []⟩))
    (fun x => (palloc (supplyAbove 400) 2 true 200 x.1).map Prod.fst) [.palloc true 40]
    (show _ = some (some none) by decide +kernel)
  obtain ⟨answer, s', hs', hnull, -⟩ := palloc_null_only_if_refused
    (smallPool_created _ (by decide) (by decide)) hr true 200
  rw [hs'] at hx
  obtain rfl : answer = none := Option.some.inj hx
  exact ⟨s, notes, hr, s', hs', (hnull rfl).2⟩

/-- **Destruction.** After any run `ngx_destroy_pool` gives back every block and every large
    allocation of the pool, each of them once and while it is live, and nothing else. -/
theorem destroy_gives_all_back (h₀ : Created supply size heap s₀)
    (h : ((poolMachine supply (fuel + 2)).withNotes (poolNote supply (fuel + 2))).Reaches PoolCare
      (s₀, ⟨[], [], heap.live⟩) (s, notes)) :
    ∃ log heap', destroyPool s = some (log, heap') ∧ heap'.live.Perm notes.others := by
  obtain ⟨log, heap', hdestroy, -, hrest⟩ := (poolInv_of_reaches h₀ h).destroyPool
  exact ⟨log, heap', hdestroy, hrest⟩

/-- Two blocks and two large allocations, of which one was given back before. -/
theorem destroy_gives_all_back_mixed :
    ∃ s notes, ((poolMachine (supplyAbove (2 ^ 63)) 2).withNotes
        (poolNote (supplyAbove (2 ^ 63)) 2)).Reaches PoolCare (smallPool, ⟨[], [], []⟩) (s, notes) ∧
      s.heap.live.length = 4 ∧ notes.others = [⟨1336, 10⟩] ∧
      ∃ log heap', destroyPool s = some (log, heap') ∧ heap'.live.Perm notes.others := by
  obtain ⟨⟨s, notes⟩, hr, hx⟩ := Machine.Reaches.of_run_map
    (M := (poolMachine (supplyAbove (2 ^ 63)) 2).withNotes (poolNote (supplyAbove (2 ^ 63)) 2))
    (G := PoolCare) (s := (smallPool, ⟨[], [], []⟩))
    (fun x => (x.1.heap.live.length, x.2.others))
    [.palloc true 500, .palloc true 40, .pmemalign 500 32, .otherAlloc 4 10, .pfree (some 160)]
    (show _ = some (4, [⟨1336, 10⟩]) by decide +kernel)
  obtain ⟨hlen, hothers⟩ := Prod.mk.inj hx
  exact ⟨s, notes, hr, hlen, hothers,
    destroy_gives_all_back (smallPool_created _ (by decide) (by decide)) hr⟩

end Results

/-! ### Pools that are too small -/

/-- Without a record that was given back the loop of `ngx_palloc_large` finds nothing. -/
theorem reuse_eq_none {large : List Large} (h : ∀ l ∈ large, l.alloc ≠ none) (a n : Nat) :
    reuse a n large = none := by
  induction large generalizing n with
  | nil => rfl
  | cons l ls ih =>
    rw [reuse, if_neg (h l List.mem_cons_self)]
    by_cases hn : n > 3
    · rw [if_pos hn]
    · rw [if_neg hn, ih fun x hx => h x (List.mem_cons_of_mem _ hx)]
      rfl

/-- **No room for a record.** In a pool with less usable memory than the record of a large
    allocation takes, a request for more calls itself for that record, again and again: it does
    not return within any number of calls, as long as the system answers each of them. -/
theorem small_pool_never_returns (fuel : Nat) (hmax : s.pool.max < sizeofLarge)
    (hn : s.pool.max < n) (hfull : ∀ l ∈ s.pool.large, l.alloc ≠ none)
    (hsupply : ∀ k < fuel, ∀ live align m, (supply (s.heap.calls + k) live align m).isSome) :
    palloc supply fuel aligned n s = none := by
  induction fuel generalizing s n aligned with
  | zero => rfl
  | succ fuel ih =>
    rw [palloc, if_neg (Nat.not_le.mpr hn), pallocLarge]
    rcases s.heap.alloc_cases supply mallocAlignment n with ⟨a, ha, halloc⟩ | ⟨hno, halloc⟩
    · rw [halloc]
      dsimp only
      rw [reuse_eq_none hfull]
      dsimp only
      -- one answer has been used up
      have hgo : palloc supply fuel true sizeofLarge
          { s with heap := ⟨s.heap.calls + 1, ⟨a, n⟩ :: s.heap.live⟩ } = none := by
        refine ih (s := { s with heap := ⟨s.heap.calls + 1, ⟨a, n⟩ :: s.heap.live⟩ })
          hmax hmax hfull ?_
        intro k hk live align m
        have hk' := hsupply (k + 1) (Nat.succ_lt_succ hk) live align m
        rwa [show s.heap.calls + (k + 1) = s.heap.calls + 1 + k by omega] at hk'
      rw [addLarge, hgo]
      rfl
    · have hk := hsupply 0 (Nat.succ_pos _) s.heap.live mallocAlignment n
      rw [Nat.add_zero, hno] at hk
      cases hk

/-- A pool of 88 bytes and a system with memory for seven requests. -/
theorem small_pool_never_returns_seven :
    createPool (fun k _ _ _ => if k < 8 then some (4096 * (k + 1)) else none) 4096 88 ⟨0, []⟩ =
        (some ⟨[⟨4096, 4176, 4184, 0⟩], 0, 8, [], []⟩, ⟨1, [⟨4096, 88⟩]⟩) ∧
      palloc (fun k _ _ _ => if k < 8 then some (4096 * (k + 1)) else none) 7 true 100
        ⟨⟨[⟨4096, 4176, 4184, 0⟩], 0, 8, [], []⟩, ⟨1, [⟨4096, 88⟩]⟩⟩ = none := by
  refine ⟨by decide, small_pool_never_returns 7 (by decide) (by decide) (by decide) ?_⟩
  intro k hk live align m
  rw [if_pos (show 1 + k < 8 by omega)]
  rfl

end NginxEngine.Core
