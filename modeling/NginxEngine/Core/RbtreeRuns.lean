import NginxEngine.Core.RbtreeDelete
import NginxEngine.Core.RbtreeInsert
import NginxEngine.Deadlines
import NginxEngine.Machine

/-!
# Runs of the red-black tree

Insertions with the comparison of `ngx_rbtree_insert_value` and deletions, in any order, over
nodes that belong to the caller. What the tree has to hold goes along as a note: which nodes,
under which keys, and which of them was put in first.

## Main definitions

- `rbtreeMachine` — insertions and deletions
- `Stored` — what the tree has to hold
- `StoredOk` — the invariant

## Main results

- `rbtree_holds_stored` — in every run the tree holds the stored nodes in order
-/

namespace NginxEngine.Core

open RB

variable {κ : Type} [LinearOrder κ]

inductive RbtreeInput (κ : Type)
  /-- The caller sets the key of a node and calls `ngx_rbtree_insert`. -/
  | insert (node : Ptr) (key : κ)
  /-- `ngx_rbtree_delete`. -/
  | delete (node : Ptr)

/-- The comparison of `ngx_rbtree_insert_value`. -/
def valueBefore (a b : κ) : Bool := a < b

def rbtreeStep [Zero κ] (fuel : Nat) (t : Rbtree κ) : RbtreeInput κ → Option (Rbtree κ)
  | .insert node key =>
    let t := { t with key := Function.update t.key node key }
    t.insert valueBefore fuel node
  | .delete node => t.delete fuel node

def rbtreeMachine (κ : Type) [LinearOrder κ] [Zero κ] (fuel : Nat) :
    Machine (Rbtree κ) (RbtreeInput κ) := ⟨rbtreeStep fuel⟩

/-- What the tree has to hold; `key` and `stamp` mean something for `nodes` alone. -/
structure Stored (κ : Type) where
  key : Ptr → κ
  /-- How many insertions there were before that of the node. -/
  stamp : Ptr → Nat
  count : Nat
  nodes : List Ptr

/-- The smaller key comes first, among equal keys the node that was put in first. -/
def Stored.Before (S : Stored κ) (x y : Ptr) : Prop :=
  S.key x < S.key y ∨ S.key x = S.key y ∧ S.stamp x < S.stamp y

def storedNote (_ : Rbtree κ) (i : RbtreeInput κ) (S : Stored κ) : Stored κ :=
  match i with
  | .insert node key => ⟨Function.update S.key node key, Function.update S.stamp node S.count,
      S.count + 1, node :: S.nodes⟩
  | .delete node => { S with nodes := S.nodes.erase node }

/-- A node goes in if it is out, and out if it is in. -/
def Proper (nodes : List Ptr) (x : Rbtree κ × Stored κ) : RbtreeInput κ → Prop
  | .insert node _ => node ∈ nodes ∧ node ∉ x.2.nodes
  | .delete node => node ∈ x.2.nodes

instance (nodes : List Ptr) (x : Rbtree κ × Stored κ) (i : RbtreeInput κ) :
    Decidable (Proper nodes x i) := by
  unfold Proper
  split <;> infer_instance

variable {fuel : Nat} {nodes l : List Ptr} {links : Ptr → Links Ptr} {σ : Ptr} {t : Rbtree κ}
  {S : Stored κ} {i : RbtreeInput κ}

/-- The invariant: the tree holds the stored nodes, and the memory of other nodes is as it was
    at the start. -/
structure StoredOk (nodes : List Ptr) (links : Ptr → Links Ptr) (σ : Ptr) (t : Rbtree κ)
    (S : Stored κ) (l : List Ptr) : Prop where
  tree : t.InOrder l
  perm : l.Perm S.nodes
  sorted : l.Pairwise S.Before
  key : ∀ x ∈ l, t.key x = S.key x
  stamps : ∀ x ∈ l, S.stamp x < S.count
  known : ∀ x ∈ l, x ∈ nodes
  sentinel_eq : t.sentinel = σ
  frame : ∀ v, v ∉ nodes → v ≠ σ → t.links v = links v

theorem StoredOk.fuel_lt (h : StoredOk nodes links σ t S l)
    (hfuel : 2 * Nat.log 2 (nodes.length + 1) < fuel) : 2 * Nat.log 2 (l.length + 1) < fuel := by
  have hlen : l.length ≤ nodes.length :=
    (List.subperm_of_subset h.tree.nodup h.known).length_le
  have hlog := Nat.log_mono_right (b := 2) (Nat.succ_le_succ hlen)
  exact lt_of_le_of_lt (Nat.mul_le_mul_left 2 hlog) hfuel

variable [Zero κ]

/-- **One insertion.** -/
theorem StoredOk.insert {node : Ptr} {key : κ} (h : StoredOk nodes links σ t S l) (hσ : σ ∉ nodes)
    (hfuel : 2 * Nat.log 2 (l.length + 1) < fuel) (hn : node ∈ nodes) (hout : node ∉ S.nodes) :
    ∃ t' l', rbtreeStep fuel t (.insert node key) = some t' ∧
      StoredOk nodes links σ t' (storedNote t (.insert node key) S) l' := by
  have hnl : node ∉ l := fun hc => hout (h.perm.mem_iff.mp hc)
  have hne : ∀ x ∈ l, x ≠ node := fun x hx => ne_of_mem_of_not_mem hx hnl
  let t₀ := { t with key := Function.update t.key node key }
  have hnode : t₀.key node = key := Function.update_self ..
  have hkey : ∀ x ∈ l, t₀.key x = S.key x := fun x hx =>
    (Function.update_of_ne (hne x hx) _ _).trans (h.key x hx)
  have hprec : ∀ x ∈ l, t₀.Precedes valueBefore node x ↔ key < S.key x := fun x hx => by
    rw [Rbtree.Precedes, hnode, hkey x hx, valueBefore, decide_eq_true_iff]
  have hmono : ∀ x ∈ l, ∀ y ∈ l, S.Before x y →
      t₀.Precedes valueBefore node x → t₀.Precedes valueBefore node y := by
    intro x hx y hy hxy hlt
    rw [hprec x hx] at hlt
    rw [hprec y hy]
    rcases hxy with hxy | ⟨hxy, -⟩
    · exact hlt.trans hxy
    · exact hxy ▸ hlt
  obtain ⟨t', ht', hin, hs', hk', hframe⟩ := Rbtree.insert_spec (h.tree.setKey t₀.key) hnl
    (by rw [show t.sentinel = σ from h.sentinel_eq]; exact ne_of_mem_of_not_mem hn hσ)
    (h.sorted.imp_of_mem fun hx hy hxy => hmono _ hx _ hy hxy) hfuel
  -- what the note says of the other nodes has not changed
  let S' := storedNote t (.insert node key) S
  have hnode' : S'.key node = key := Function.update_self ..
  have hstamp' : S'.stamp node = S.count := Function.update_self ..
  have hkey' : ∀ x ∈ l, S'.key x = S.key x := fun x hx => Function.update_of_ne (hne x hx) _ _
  have hstamp : ∀ x ∈ l, S'.stamp x = S.stamp x := fun x hx =>
    Function.update_of_ne (hne x hx) _ _
  have hbefore : ∀ x ∈ l, ∀ y ∈ l, S'.Before x y ↔ S.Before x y := fun x hx y hy => by
    rw [Stored.Before, Stored.Before, hkey' x hx, hkey' y hy, hstamp x hx, hstamp y hy]
  have hmem : ∀ x, x ∈ l.orderedInsert (t₀.Precedes valueBefore) node ↔ x = node ∨ x ∈ l :=
    fun x => List.mem_orderedInsert _
  refine ⟨t', _, ht', ⟨hin, ?_, Deadlines.pairwise_orderedInsert ?_ ?_ ?_ ?_, ?_, ?_, ?_,
    hs'.trans h.sentinel_eq, ?_⟩⟩
  · exact (List.perm_orderedInsert _ node l).trans (h.perm.cons node)
  · exact h.sorted.imp_of_mem fun hx hy hxy => (hbefore _ hx _ hy).mpr hxy
  · intro x hx hle
    rw [hprec x hx, not_lt] at hle
    have hlt : S'.stamp x < S'.stamp node := by
      rw [hstamp x hx, hstamp']
      exact h.stamps x hx
    rcases hle.lt_or_eq with hle | hle
    · exact .inl (by rwa [hkey' x hx, hnode'])
    · exact .inr ⟨by rwa [hkey' x hx, hnode'], hlt⟩
  · intro x hx hlt
    rw [hprec x hx] at hlt
    exact .inl (by rwa [hkey' x hx, hnode'])
  · exact fun x hx y hy hxy => hmono x hx y hy ((hbefore x hx y hy).mp hxy)
  · intro x hx
    rw [hk']
    rcases (hmem x).mp hx with rfl | hx
    · exact hnode.trans hnode'.symm
    · exact (hkey x hx).trans (hkey' x hx).symm
  · intro x hx
    rcases (hmem x).mp hx with rfl | hx
    · exact hstamp'.le.trans_lt (Nat.lt_succ_self _)
    · exact (hstamp x hx).le.trans_lt ((h.stamps x hx).trans (Nat.lt_succ_self _))
  · intro x hx
    rcases (hmem x).mp hx with rfl | hx
    · exact hn
    · exact h.known x hx
  · intro v hv hvσ
    have hvl : v ∉ node :: l := fun hc => by
      rcases List.mem_cons.mp hc with rfl | hc
      · exact hv hn
      · exact hv (h.known v hc)
    exact (hframe v hvl).trans (h.frame v hv hvσ)

/-- **One deletion.** -/
theorem StoredOk.delete {node : Ptr} (h : StoredOk nodes links σ t S l)
    (hfuel : 2 * Nat.log 2 (l.length + 1) < fuel) (hn : node ∈ S.nodes) :
    ∃ t' l', rbtreeStep fuel t (.delete node) = some t' ∧
      StoredOk nodes links σ t' (storedNote t (.delete node) S) l' := by
  obtain ⟨t', ht', hin, hs', hk', hframe⟩ :=
    Rbtree.delete_spec h.tree (h.perm.mem_iff.mpr hn) hfuel
  have hsub : (l.erase node).Sublist l := List.erase_sublist
  refine ⟨t', _, ht', ⟨hin, h.perm.erase node, h.sorted.sublist hsub, fun x hx => ?_,
    fun x hx => h.stamps x (hsub.subset hx), fun x hx => h.known x (hsub.subset hx),
    hs'.trans h.sentinel_eq, fun v hv hvσ => ?_⟩⟩
  · rw [hk', Function.update_of_ne (ne_of_mem_of_not_mem hx h.tree.nodup.not_mem_erase)]
    exact h.key x (hsub.subset hx)
  · have hvs : v ≠ t.sentinel := by rwa [h.sentinel_eq]
    exact (hframe v (fun hc => hv (h.known v hc)) hvs).trans (h.frame v hv hvσ)

/-- **One step.** -/
theorem StoredOk.step (h : StoredOk nodes links σ t S l) (hσ : σ ∉ nodes)
    (hfuel : 2 * Nat.log 2 (l.length + 1) < fuel) (hG : Proper nodes (t, S) i) :
    ∃ t' l', rbtreeStep fuel t i = some t' ∧ StoredOk nodes links σ t' (storedNote t i S) l' := by
  cases i with
  | insert node key => exact h.insert hσ hfuel hG.1 hG.2
  | delete node => exact h.delete hfuel hG

/-- An empty tree, with nothing stored. -/
def rbtreeAt (σ : Ptr) (links : Ptr → Links Ptr) (key : Ptr → κ) : Rbtree κ × Stored κ :=
  (.init σ links key, ⟨key, fun _ => 0, 0, []⟩)

omit [Zero κ] in
theorem storedOk_start (key : Ptr → κ) :
    StoredOk nodes links σ (rbtreeAt σ links key).1 (rbtreeAt σ links key).2 [] := by
  refine ⟨Rbtree.init_inOrder σ links key, .refl _, .nil, ?_, ?_, ?_, rfl, fun v _ hv => ?_⟩
  · simp
  · simp
  · simp
  · rw [rbtreeAt, Rbtree.init, Rbtree.links_setColor]
    exact if_neg hv

/-- **Runs of the tree.** In every run of insertions and deletions the tree is a red-black tree
    of just the nodes that were put in and not taken out, sorted by their keys and, among equal
    keys, by the time they were put in; its minimum is the first of them. No node is written
    that the caller has not handed over, and each loop of an operation on a tree of `n` nodes
    ends within `2 * log2 (n + 1) + 1` turns. -/
theorem rbtree_holds_stored {key : Ptr → κ} (hσ : σ ∉ nodes)
    (hfuel : 2 * Nat.log 2 (nodes.length + 1) < fuel)
    (h : ((rbtreeMachine κ fuel).withNotes storedNote).Reaches (Proper nodes)
      (rbtreeAt σ links key) (t, S)) :
    (∃ l, t.InOrder l ∧ l.Perm S.nodes ∧ l.Pairwise S.Before ∧ (∀ x ∈ l, t.key x = S.key x) ∧
      ∀ x, l.head? = some x → t.min fuel t.root = some x) ∧
    (∀ v, v ∉ nodes → v ≠ σ → t.links v = links v) ∧
    (∀ i, Proper nodes (t, S) i → (rbtreeStep fuel t i).isSome) ∧
    ∀ i turns, Proper nodes (t, S) i → 2 * Nat.log 2 (S.nodes.length + 1) < turns →
      (rbtreeStep turns t i).isSome := by
  have hinv : ∃ l, StoredOk nodes links σ t S l := by
    refine h.invariant (I := fun x => ∃ l, StoredOk nodes links σ x.1 x.2 l)
      ⟨[], storedOk_start key⟩ fun x i y hx hG hs => ?_
    obtain ⟨l, hl⟩ := hx
    obtain ⟨hs, hn⟩ := Machine.step_withNotes hs
    obtain ⟨t', l', ht', hl'⟩ := hl.step hσ (hl.fuel_lt hfuel) hG
    obtain rfl : t' = y.1 := Option.some.inj (ht'.symm.trans hs)
    exact ⟨l', by rwa [hn]⟩
  obtain ⟨l, hl⟩ := hinv
  have hturns : ∀ i turns, Proper nodes (t, S) i → 2 * Nat.log 2 (l.length + 1) < turns →
      (rbtreeStep turns t i).isSome := by
    intro i turns hi hlt
    obtain ⟨t', -, ht', -⟩ := hl.step hσ hlt hi
    rw [ht']
    rfl
  refine ⟨⟨l, hl.tree, hl.perm, hl.sorted, hl.key, fun x hx => ?_⟩, hl.frame,
    fun i hi => hturns i fuel hi (hl.fuel_lt hfuel), hl.perm.length_eq ▸ hturns⟩
  cases l with
  | nil => cases hx
  | cons a l =>
    obtain rfl : a = x := Option.some.inj hx
    exact hl.tree.min_eq (hl.fuel_lt hfuel).le

/-- Five nodes, two of them under one key; the root is taken out again. -/
theorem rbtree_holds_stored_five :
    ∃ t S, ((rbtreeMachine Nat 7).withNotes storedNote).Reaches (Proper [1, 2, 3, 4, 5])
        (rbtreeAt 0 (fun _ => ⟨0, 0, 0, .black⟩) fun _ => 0) (t, S) ∧
      S.nodes = [5, 4, 3, 1] ∧ t.root = 4 ∧ ∃ l, t.InOrder l ∧ l.Perm S.nodes := by
  obtain ⟨⟨t, S⟩, hr, hx⟩ := Machine.Reaches.of_run_map
    (M := (rbtreeMachine Nat 7).withNotes storedNote) (G := Proper [1, 2, 3, 4, 5])
    (s := rbtreeAt 0 (fun _ => ⟨0, 0, 0, .black⟩) fun _ => 0) (fun x => (x.2.nodes, x.1.root))
    [.insert 1 10, .insert 2 20, .insert 3 30, .insert 4 20, .insert 5 5, .delete 2]
    (show _ = some ([5, 4, 3, 1], 4) by decide +kernel)
  obtain ⟨hnodes, hroot⟩ := Prod.mk.inj hx
  obtain ⟨⟨l, hin, hperm, -⟩, -⟩ := rbtree_holds_stored (by decide) (by decide) hr
  exact ⟨t, S, hr, hnodes, hroot, l, hin, hperm⟩

end NginxEngine.Core
