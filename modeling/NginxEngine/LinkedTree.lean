import Mathlib.Data.List.Nodup
import Mathlib.Logic.Function.Basic
import NginxEngine.RedBlack

/-!
# Trees laid out in a store of linked cells

A store gives every address a cell with two children, a parent and a colour. One address
stands for the empty tree. `Linked` says that the cells reached from a root are those of a
given tree: children, parents and colours as the tree has them, no address used twice. The
parent of the root is not looked at by anyone and may be anything.

The lemmas split such a tree at a path, so that a change of a few cells is seen as a
change of the subtree in the hole, and everything outside is unchanged.

## Main definitions

- `Links` — a cell
- `Holds`, `PathHolds` — the cells of a subtree, and those of a path around it
- `Linked` — a root and a store that hold a tree
- `adopt`, `fill` — give a subtree another parent, put another subtree into a hole

## Main results

- `holds_plug` — a tree in a store is a path and a subtree in it
- `Linked.rebuild` — a changed subtree in an unchanged path
- `Linked.recolor` — a change of one colour
-/

namespace NginxEngine

namespace RB

open CTree

/-- A cell: its two children, its parent and its colour. -/
structure Links (P : Type*) where
  left : P
  right : P
  parent : P
  color : Color
deriving DecidableEq, Repr

namespace Links

variable {P : Type*}

def child (x : Links P) : Side → P
  | .left => x.left
  | .right => x.right

def setChild (x : Links P) (s : Side) (p : P) : Links P :=
  match s with
  | .left => { x with left := p }
  | .right => { x with right := p }

/-- A cell with the child `p` on the side `s` and `q` on the other one. -/
def of (s : Side) (p q parent : P) (c : Color) : Links P :=
  match s with
  | .left => ⟨p, q, parent, c⟩
  | .right => ⟨q, p, parent, c⟩

variable {s : Side} {p q r u : P} {c c' : Color}

@[simp] theorem child_of_self : (of s p q r c).child s = p := by cases s <;> rfl

@[simp] theorem child_of_other : (of s p q r c).child s.other = q := by cases s <;> rfl

@[simp] theorem parent_of : (of s p q r c).parent = r := by cases s <;> rfl

@[simp] theorem color_of : (of s p q r c).color = c := by cases s <;> rfl

@[simp] theorem setChild_of_self : (of s p q r c).setChild s u = of s u q r c := by
  cases s <;> rfl

@[simp] theorem setChild_of_other : (of s p q r c).setChild s.other u = of s p u r c := by
  cases s <;> rfl

@[simp] theorem setParent_of : { of s p q r c with parent := u } = of s p q u c := by
  cases s <;> rfl

@[simp] theorem setColor_of : { of s p q r c with color := c' } = of s p q r c' := by
  cases s <;> rfl

end Links

open Links

variable {P : Type*} (nil : P)

/-- The address of a tree. -/
def CTree.ptr : CTree P → P
  | leaf => nil
  | node _ _ a _ => a

@[simp] theorem CTree.ptr_leaf : (leaf : CTree P).ptr nil = nil := rfl

@[simp] theorem CTree.ptr_join {s : Side} {c : Color} {a : P} {t u : CTree P} :
    (join s c a t u).ptr nil = a := by cases s <;> rfl

/-- The address of the node above the hole; `top` is the parent of the root. -/
def Path.parent (top : P) : Path P → P
  | [] => top
  | k :: _ => k.label

/-- The address of the whole tree, with the address `h` in the hole. -/
def Path.apex : P → Path P → P
  | h, [] => h
  | _, k :: p => Path.apex k.label p

/-- The cells of a subtree whose parent is `up`. -/
def Holds (lk : P → Links P) : P → CTree P → Prop
  | _, leaf => True
  | up, node c l a r => lk a = ⟨l.ptr nil, r.ptr nil, up, c⟩ ∧ Holds lk a l ∧ Holds lk a r

/-- The cells of a path, with the address `h` in its hole. -/
def PathHolds (lk : P → Links P) (top : P) : Path P → P → Prop
  | [], _ => True
  | k :: p, h => lk k.label = .of k.side h (k.sib.ptr nil) (Path.parent top p) k.color ∧
      Holds nil lk k.label k.sib ∧ PathHolds lk top p k.label

variable {nil} {lk lk' : P → Links P} {root top up : P} {p : Path P} {t u : CTree P}
  {s : Side} {c : Color} {a h : P}

theorem CTree.ptr_mem (ht : t ≠ leaf) : t.ptr nil ∈ t.toList := by
  cases t with
  | leaf => exact absurd rfl ht
  | node c l a r => simp [ptr, toList]

/-- An address outside a tree is not that of the tree. -/
theorem CTree.ne_ptr {x : P} (hx : x ∉ t.toList) (hnil : x ≠ nil) : x ≠ t.ptr nil := by
  by_cases ht : t = leaf
  · rwa [ht]
  · rintro rfl
    exact hx (ptr_mem ht)

theorem CTree.ptr_eq_nil (hnil : nil ∉ t.toList) : t.ptr nil = nil ↔ t = leaf := by
  constructor
  · intro he
    by_contra ht
    exact hnil (he ▸ ptr_mem ht)
  · rintro rfl
    rfl

theorem CTree.mem_join {x : P} :
    x ∈ (join s c a t u).toList ↔ x ∈ t.toList ∨ x = a ∨ x ∈ u.toList := by
  simp [toList_join]

theorem CTree.nodup_join : (join s c a t u).toList.Nodup ↔
    t.toList.Nodup ∧ u.toList.Nodup ∧ a ∉ t.toList ∧ a ∉ u.toList ∧
      ∀ x ∈ t.toList, x ∉ u.toList := by
  have hp : (join s c a t u).toList.Perm (t.toList ++ a :: u.toList) := by
    rw [toList_join]
    exact (Side.cat_perm ..).trans (.append_left _ (Side.cat_perm ..))
  rw [hp.nodup_iff, List.nodup_append]
  simp only [List.nodup_cons, List.mem_cons]
  grind

theorem holds_join : Holds nil lk up (join s c a t u) ↔
    lk a = .of s (t.ptr nil) (u.ptr nil) up c ∧ Holds nil lk a t ∧ Holds nil lk a u := by
  cases s with
  | left => exact Iff.rfl
  | right =>
    simp only [join, Holds, Links.of]
    rw [and_comm (b := Holds nil lk a t)]

theorem holds_plug : Holds nil lk top (plug p t) ↔
    PathHolds nil lk top p (t.ptr nil) ∧ Holds nil lk (Path.parent top p) t := by
  induction p generalizing t with
  | nil => simp [plug, PathHolds, Path.parent]
  | cons k p ih =>
    rw [plug, ih, holds_join, ptr_join, PathHolds, Path.parent]
    tauto

theorem ptr_plug : (plug p t).ptr nil = Path.apex (t.ptr nil) p := by
  induction p generalizing t with
  | nil => rfl
  | cons k p ih => rw [plug, ih, ptr_join, Path.apex]

theorem Path.parent_append (p q : Path P) :
    Path.parent top (p ++ q) = Path.parent (Path.parent top q) p := by
  cases p <;> rfl

/-- A path in a store is its lower part and its upper part. -/
theorem pathHolds_append (p q : Path P) : PathHolds nil lk top (p ++ q) h ↔
    PathHolds nil lk (Path.parent top q) p h ∧ PathHolds nil lk top q (Path.apex h p) := by
  induction p generalizing h with
  | nil => simp [PathHolds, Path.apex]
  | cons k p ih =>
    rw [List.cons_append, PathHolds, PathHolds, ih, Path.parent_append, Path.apex]
    tauto

/-- A subtree depends on its own cells alone. -/
theorem Holds.congr (ht : Holds nil lk up t) (he : ∀ x ∈ t.toList, lk' x = lk x) :
    Holds nil lk' up t := by
  induction t generalizing up with
  | leaf => trivial
  | node c l a r ihl ihr =>
    obtain ⟨ha, hl, hr⟩ := ht
    simp only [toList, List.mem_append, List.mem_cons] at he
    refine ⟨(he a (.inr (.inl rfl))).trans ha, ihl hl ?_, ihr hr ?_⟩
    · exact fun x hx => he x (.inl hx)
    · exact fun x hx => he x (.inr (.inr hx))

/-- A path depends on its own cells alone. -/
theorem PathHolds.congr (hp : PathHolds nil lk top p h)
    (he : ∀ x ∈ Path.labels p, lk' x = lk x) : PathHolds nil lk' top p h := by
  induction p generalizing h with
  | nil => trivial
  | cons k p ih =>
    obtain ⟨hk, hs, hr⟩ := hp
    simp only [Path.labels, List.mem_cons, List.mem_append] at he
    refine ⟨(he _ (.inl rfl)).trans hk, hs.congr ?_, ih hr ?_⟩
    · exact fun x hx => he x (.inr (.inl hx))
    · exact fun x hx => he x (.inr (.inr hx))

/-! ### A tree in a store -/

/-- The store holds the tree `t` under the given root; `top` is the root's parent. -/
structure Linked (nil : P) (lk : P → Links P) (root top : P) (t : CTree P) : Prop where
  root_eq : root = t.ptr nil
  holds : Holds nil lk top t
  nodup : t.toList.Nodup
  nil_notMem : nil ∉ t.toList

theorem ptr_plug_congr (he : t.ptr nil = u.ptr nil) :
    (plug p t).ptr nil = (plug p u).ptr nil := by
  induction p generalizing t u with
  | nil => exact he
  | cons k p ih => exact ih (by rw [ptr_join, ptr_join])

/-- The root of a tree is on every path in it that is not empty. -/
theorem ptr_plug_mem (hp : p ≠ []) : (plug p t).ptr nil ∈ Path.labels p := by
  induction p generalizing t with
  | nil => exact absurd rfl hp
  | cons k p ih =>
    rw [plug, Path.labels]
    by_cases he : p = []
    · rw [he, plug, ptr_join]
      exact List.mem_cons_self
    · exact List.mem_cons_of_mem _ (List.mem_append_right _ (ih he))

theorem nodup_plug : (plug p t).toList.Nodup ↔
    (Path.labels p).Nodup ∧ t.toList.Nodup ∧ ∀ x ∈ t.toList, x ∉ Path.labels p := by
  rw [toList_plug_perm.nodup_iff, List.nodup_append]
  grind

theorem mem_plug {x : P} : x ∈ (plug p t).toList ↔ x ∈ Path.labels p ∨ x ∈ t.toList := by
  rw [toList_plug_perm.mem_iff, List.mem_append]

namespace Linked

theorem path (h : Linked nil lk root top (plug p t)) :
    PathHolds nil lk top p (t.ptr nil) := (holds_plug.mp h.holds).1

theorem sub (h : Linked nil lk root top (plug p t)) :
    Holds nil lk (Path.parent top p) t := (holds_plug.mp h.holds).2

theorem notMem_labels (h : Linked nil lk root top (plug p t)) {x : P} (hx : x ∈ t.toList) :
    x ∉ Path.labels p := (nodup_plug.mp h.nodup).2.2 x hx

/-- The cell of the node in the hole. -/
theorem cell (h : Linked nil lk root top (plug p (join s c a t u))) :
    lk a = .of s (t.ptr nil) (u.ptr nil) (Path.parent top p) c := (holds_join.mp h.sub).1

theorem ne_nil (h : Linked nil lk root top (plug p (join s c a t u))) : a ≠ nil := by
  rintro rfl
  exact h.nil_notMem (mem_plug.mpr (.inr (mem_join.mpr (.inr (.inl rfl)))))

/-- The node in the hole is the root just if the path is empty. -/
theorem eq_root_iff (h : Linked nil lk root top (plug p (join s c a t u))) :
    a = root ↔ p = [] := by
  rw [h.root_eq]
  constructor
  · intro he
    by_contra hp
    have hm : (plug p (join s c a t u)).ptr nil ∈ Path.labels p := ptr_plug_mem hp
    exact h.notMem_labels (mem_join.mpr (.inr (.inl rfl))) (he ▸ hm)
  · rintro rfl
    rw [plug, ptr_join]

/-- Two children are different, unless both are empty. -/
theorem ptr_ne (h : Linked nil lk root top (plug p (join s c a t u))) (ht : t ≠ leaf) :
    t.ptr nil ≠ u.ptr nil := by
  intro he
  have hn := nodup_join.mp (nodup_plug.mp h.nodup).2.1
  have hm : t.ptr nil ∈ t.toList := ptr_mem ht
  cases u with
  | leaf =>
    rw [he, ptr_leaf] at hm
    exact h.nil_notMem (mem_plug.mpr (.inr (mem_join.mpr (.inl hm))))
  | node c' l b r =>
    rw [he] at hm
    exact hn.2.2.2.2 _ hm (ptr_mem (fun e => by cases e))

/-- **Rebuilding.** A new subtree over the same addresses, in the same path. -/
theorem rebuild {root' : P} (h : Linked nil lk root top (plug p t))
    (hperm : u.toList.Perm t.toList) (hroot : root' = (plug p u).ptr nil)
    (hp : PathHolds nil lk' top p (u.ptr nil)) (hu : Holds nil lk' (Path.parent top p) u) :
    Linked nil lk' root' top (plug p u) := by
  have hpl : (plug p u).toList.Perm (plug p t).toList :=
    toList_plug_perm.trans ((hperm.append_left _).trans toList_plug_perm.symm)
  exact ⟨hroot, holds_plug.mpr ⟨hp, hu⟩, hpl.nodup_iff.mpr h.nodup,
    fun hm => h.nil_notMem (hpl.mem_iff.mp hm)⟩

end Linked

section Update

variable [DecidableEq P]

/-- Make `q` the parent of `x`, unless `x` is empty. -/
def adopt (nil : P) (lk : P → Links P) (x q : P) : P → Links P :=
  if x = nil then lk else Function.update lk x { lk x with parent := q }

/-- Put the address `q` into the hole of a path. -/
def fill (lk : P → Links P) (p : Path P) (q : P) : P → Links P :=
  match p with
  | [] => lk
  | k :: _ => Function.update lk k.label ((lk k.label).setChild k.side q)

theorem adopt_of_ne {x q y : P} (hy : y ≠ x) : adopt nil lk x q y = lk y := by
  rw [adopt]
  split
  · rfl
  · exact Function.update_of_ne hy _ _

theorem adopt_of_notMem {q y : P} (hy : y ∉ t.toList) :
    adopt nil lk (t.ptr nil) q y = lk y := by
  by_cases ht : t = leaf
  · rw [ht, ptr_leaf, adopt, if_pos rfl]
  · apply adopt_of_ne
    rintro rfl
    exact hy (ptr_mem ht)

/-- A subtree under another parent. -/
theorem Holds.adopt {q : P} (ht : Holds nil lk up t) (hn : t.toList.Nodup)
    (hnil : nil ∉ t.toList) : Holds nil (adopt nil lk (t.ptr nil) q) q t := by
  cases t with
  | leaf => trivial
  | node c l a r =>
    have ha : a ≠ nil := fun e => hnil (by simp [toList, e])
    have hj : (join .left c a l r).toList.Nodup := hn
    have hn' := nodup_join.mp hj
    obtain ⟨hc, hl, hr⟩ := ht
    refine ⟨?_, hl.congr fun x hx => adopt_of_ne ?_, hr.congr fun x hx => adopt_of_ne ?_⟩
    · rw [RB.adopt, ptr, if_neg ha, Function.update_self, hc]
    · rintro rfl
      exact hn'.2.2.1 hx
    · rintro rfl
      exact hn'.2.2.2.1 hx

/-- Giving a subtree a parent sees the cell of its root alone. -/
theorem adopt_congr {x q y : P} (he : lk' y = lk y) :
    adopt nil lk' x q y = adopt nil lk x q y := by
  rw [adopt, adopt]
  by_cases hx : x = nil
  · rw [if_pos hx, if_pos hx, he]
  · rw [if_neg hx, if_neg hx, Function.update_apply, Function.update_apply]
    by_cases hy : y = x
    · rw [if_pos hy, if_pos hy, ← hy, he]
    · rw [if_neg hy, if_neg hy, he]

/-- Filling a hole sees the cell above it alone. -/
theorem fill_congr {q y : P} (he : lk' y = lk y) : fill lk' p q y = fill lk p q y := by
  cases p with
  | nil => exact he
  | cons k p =>
    rw [fill, fill, Function.update_apply, Function.update_apply]
    by_cases hy : y = k.label
    · rw [if_pos hy, if_pos hy, ← hy, he]
    · rw [if_neg hy, if_neg hy, he]

theorem fill_of_notMem {q y : P} (hy : y ∉ Path.labels p) : fill lk p q y = lk y := by
  cases p with
  | nil => rfl
  | cons k p => exact Function.update_of_ne (fun e => hy (by simp [Path.labels, e])) _ _

/-- A path with another address in its hole. -/
theorem PathHolds.fill {q : P} (hp : PathHolds nil lk top p h) (hn : (Path.labels p).Nodup) :
    PathHolds nil (fill lk p q) top p q := by
  cases p with
  | nil => trivial
  | cons k p =>
    obtain ⟨hk, hs, hr⟩ := hp
    have hn' := List.nodup_cons.mp hn
    refine ⟨?_, hs.congr fun x hx => Function.update_of_ne ?_ _ _,
      hr.congr fun x hx => Function.update_of_ne ?_ _ _⟩
    · rw [RB.fill, Function.update_self, hk, setChild_of_self]
    · rintro rfl
      exact hn'.1 (List.mem_append_left _ hx)
    · rintro rfl
      exact hn'.1 (List.mem_append_right _ hx)

/-- Make `q` the parent of `x`, be it empty or not. -/
def setUp (lk : P → Links P) (x q : P) : P → Links P :=
  Function.update lk x { lk x with parent := q }

theorem setUp_of_ne {x q y : P} (hy : y ≠ x) : setUp lk x q y = lk y :=
  Function.update_of_ne hy _ _

theorem color_setUp {x q : P} (y : P) : (setUp lk x q y).color = (lk y).color := by
  rw [setUp, Function.update_apply]
  by_cases hy : y = x
  · rw [if_pos hy, hy]
  · rw [if_neg hy]

theorem parent_setUp_self {x q : P} : (setUp lk x q x).parent = q := by
  rw [setUp, Function.update_self]

theorem Holds.setUp {q : P} (ht : Holds nil lk up t) (hn : t.toList.Nodup)
    (hnil : nil ∉ t.toList) : Holds nil (setUp lk (t.ptr nil) q) q t := by
  by_cases hT : t = leaf
  · rw [hT]
    trivial
  · have hp : t.ptr nil ≠ nil := fun e => hT ((ptr_eq_nil hnil).mp e)
    have ha := ht.adopt (q := q) hn hnil
    rwa [RB.adopt, if_neg hp] at ha

/-- **Contraction.** A node with one subtree gives its place to that subtree. Its own cell
    may be anything afterwards. -/
theorem Linked.contract {k : Crumb P}
    (h : Linked nil lk root top (plug (k :: p) (join s c a t leaf)))
    (he : ∀ v, v ≠ a → lk' v = RB.setUp (RB.fill lk (k :: p) (t.ptr nil)) (t.ptr nil) k.label v) :
    Linked nil lk' root top (plug (k :: p) t) := by
  obtain ⟨hnp, hnT, hdis⟩ := nodup_plug.mp h.nodup
  obtain ⟨hnt, -, hat, -, -⟩ := nodup_join.mp hnT
  obtain ⟨-, ht, -⟩ := holds_join.mp h.sub
  have hpath := h.path
  have hnil := h.nil_notMem
  simp only [mem_plug, mem_join, not_or] at hnil hdis
  have hroot : root = (plug (k :: p) t).ptr nil := by
    rw [h.root_eq, ptr_plug, ptr_plug, Path.apex, Path.apex]
  refine ⟨hroot, holds_plug.mpr ⟨?_, ?_⟩, ?_, ?_⟩
  · refine (hpath.fill hnp).congr fun v hv => ?_
    rw [he v, setUp_of_ne]
    · rintro rfl
      by_cases hT : t = leaf
      · rw [hT] at hv
        exact hnil.1 hv
      · exact hdis _ (.inl (ptr_mem hT)) hv
    · rintro rfl
      exact hdis v (.inr (.inl rfl)) hv
  · have hfill : Holds nil (RB.fill lk (k :: p) (t.ptr nil)) a t :=
      ht.congr fun v hv => fill_of_notMem (hdis v (.inl hv))
    refine (hfill.setUp hnt hnil.2.1).congr fun v hv => he v ?_
    rintro rfl
    exact hat hv
  · exact nodup_plug.mpr ⟨hnp, hnt, fun v hv => hdis v (.inl hv)⟩
  · exact fun hm => (mem_plug.mp hm).elim hnil.1 hnil.2.1

/-- **Substitution.** The node `a` gives its place to a node `m` of its subtree `B`, of which
    the tree `R` is left. Its own cell may be anything afterwards. -/
theorem Linked.supplant {l₂ : P → Links P} {m : P} {B R S : CTree P}
    (h : Linked nil lk root top (plug p (join s c a B S)))
    (hBR : B.toList.Perm (m :: R.toList)) (hR : Holds nil l₂ up R) (hS : Holds nil l₂ a S)
    (hp : PathHolds nil l₂ top p a)
    (he : ∀ v, v ≠ a → lk' v = RB.adopt nil (RB.adopt nil (RB.fill (Function.update l₂ m
      (.of s (R.ptr nil) (S.ptr nil) (Path.parent top p) c)) p m) (S.ptr nil) m) (R.ptr nil) m v) :
    Linked nil lk' (if p = [] then m else root) top (plug p (join s c m R S)) := by
  obtain ⟨hnp, hnT, hdis⟩ := nodup_plug.mp h.nodup
  obtain ⟨hnB, hnS, haB, haS, hBS⟩ := nodup_join.mp hnT
  have hnil := h.nil_notMem
  simp only [mem_plug, mem_join, not_or, hBR.mem_iff, List.mem_cons] at hnil hdis haB hBS
  obtain ⟨hmR, hnR⟩ := List.nodup_cons.mp (hBR.nodup_iff.mp hnB)
  have hmS : m ∉ S.toList := hBS m (.inl rfl)
  have hmp : m ∉ Path.labels p := hdis m (.inl (.inl rfl))
  -- the new store on the path, on the node, and on the two subtrees
  have hpath : ∀ v ∈ Path.labels p, lk' v = RB.fill l₂ p m v := by
    intro v hv
    have hvR : v ∉ R.toList := fun hm => hdis v (.inl (.inr hm)) hv
    have hvS : v ∉ S.toList := fun hm => hdis v (.inr (.inr hm)) hv
    have hvm : v ≠ m := fun e => hmp (e ▸ hv)
    have hva : v ≠ a := fun e => hdis v (.inr (.inl e)) hv
    rw [he v hva, adopt_of_notMem hvR, adopt_of_notMem hvS]
    exact fill_congr (Function.update_of_ne hvm _ _)
  have hcell : lk' m = .of s (R.ptr nil) (S.ptr nil) (Path.parent top p) c := by
    rw [he m (Ne.symm haB.1), adopt_of_notMem hmR, adopt_of_notMem hmS, fill_of_notMem hmp,
      Function.update_self]
  have hsubS : Holds nil lk' m S := by
    refine (hS.adopt hnS hnil.2.2.2).congr fun v hv => ?_
    have hvR : v ∉ R.toList := fun hm => hBS v (.inr hm) hv
    have hvm : v ≠ m := fun e => hmS (e ▸ hv)
    have hva : v ≠ a := fun e => haS (e ▸ hv)
    rw [he v hva, adopt_of_notMem hvR]
    apply adopt_congr
    rw [fill_of_notMem (hdis v (.inr (.inr hv))), Function.update_of_ne hvm]
  have hsubR : Holds nil lk' m R := by
    refine (hR.adopt hnR hnil.2.1.2).congr fun v hv => ?_
    have hvS : v ∉ S.toList := hBS v (.inr hv)
    have hvm : v ≠ m := fun e => hmR (e ▸ hv)
    have hva : v ≠ a := fun e => haB.2 (e ▸ hv)
    rw [he v hva]
    apply adopt_congr
    rw [adopt_of_notMem hvS, fill_of_notMem (hdis v (.inl (.inr hv))), Function.update_of_ne hvm]
  refine ⟨?_, holds_plug.mpr ⟨?_, holds_join.mpr ⟨hcell, hsubR, hsubS⟩⟩, ?_, ?_⟩
  · cases p with
    | nil => rw [if_pos rfl, plug, ptr_join]
    | cons k p =>
      rw [if_neg (List.cons_ne_nil _ _), h.root_eq, ptr_plug, ptr_plug, Path.apex, Path.apex]
  · rw [ptr_join]
    exact (hp.fill hnp).congr hpath
  · refine nodup_plug.mpr ⟨hnp, nodup_join.mpr ⟨hnR, hnS, hmR, hmS, ?_⟩, ?_⟩
    · exact fun v hv => hBS v (.inr hv)
    · intro v hv
      rcases mem_join.mp hv with hv | rfl | hv
      · exact hdis v (.inl (.inr hv))
      · exact hmp
      · exact hdis v (.inr (.inr hv))
  · intro hm
    rcases mem_plug.mp hm with hm | hm
    · exact hnil.1 hm
    · rcases mem_join.mp hm with hm | hm | hm
      · exact hnil.2.1.2 hm
      · exact hnil.2.1.1 hm
      · exact hnil.2.2.2 hm

/-- **A new leaf.** A node with an address of its own, put into an empty hole. -/
theorem Linked.graft {k : Crumb P} (h : Linked nil lk root top (plug (k :: p) leaf))
    (ha : a ∉ (plug (k :: p) leaf).toList) (hnil : a ≠ nil) :
    Linked nil (Function.update (fill lk (k :: p) a) a (.of s nil nil k.label c)) root top
      (plug (k :: p) (join s c a leaf leaf)) := by
  obtain ⟨hnp, -, -⟩ := nodup_plug.mp h.nodup
  have hroot : root = (plug (k :: p) (join s c a leaf leaf)).ptr nil := by
    rw [h.root_eq, plug, plug]
    exact ptr_plug_congr (by rw [ptr_join, ptr_join])
  simp only [mem_plug, toList, List.not_mem_nil, or_false] at ha
  refine ⟨hroot, holds_plug.mpr ⟨?_, holds_join.mpr ⟨?_, trivial, trivial⟩⟩, ?_, ?_⟩
  · rw [ptr_join]
    refine (h.path.fill hnp).congr fun x hx => Function.update_of_ne ?_ _ _
    rintro rfl
    exact ha hx
  · exact Function.update_self ..
  · refine nodup_plug.mpr ⟨hnp, ?_, ?_⟩
    · exact nodup_join.mpr (by simp [toList])
    · intro x hx
      simp only [mem_join, toList, List.not_mem_nil, or_false, false_or] at hx
      exact hx ▸ ha
  · intro hm
    simp only [mem_plug, mem_join, toList, List.not_mem_nil, or_false, false_or] at hm
    rcases hm with hm | rfl
    · exact h.nil_notMem (mem_plug.mpr (.inl hm))
    · exact hnil rfl

/-- **Recolouring** one node. -/
theorem Linked.recolor {c' : Color} (h : Linked nil lk root top (plug p (join s c a t u))) :
    Linked nil (Function.update lk a { lk a with color := c' }) root top
      (plug p (join s c' a t u)) := by
  have hj := holds_join.mp h.sub
  have hn := nodup_join.mp (nodup_plug.mp h.nodup).2.1
  have hp := h.path
  rw [ptr_join] at hp
  refine h.rebuild ?_ ?_ ?_ ?_
  · rw [toList_join, toList_join]
  · rw [h.root_eq]
    exact ptr_plug_congr (by rw [ptr_join, ptr_join])
  · rw [ptr_join]
    refine hp.congr fun x hx => Function.update_of_ne ?_ _ _
    rintro rfl
    exact h.notMem_labels (mem_join.mpr (.inr (.inl rfl))) hx
  · rw [holds_join]
    refine ⟨?_, hj.2.1.congr fun x hx => Function.update_of_ne ?_ _ _,
      hj.2.2.congr fun x hx => Function.update_of_ne ?_ _ _⟩
    · rw [Function.update_self, hj.1, setColor_of]
    · rintro rfl
      exact hn.2.2.1 hx
    · rintro rfl
      exact hn.2.2.2.1 hx

/-- The store after a rotation at `a`, in the hole of the path `p`: `b` has come up from
    the far side, the tree at `y` between them has changed its parent. -/
def rotated (nil : P) (lk : P → Links P) (p : Path P) (a b y : P) (la lb : Links P) :
    P → Links P :=
  Function.update (Function.update (fill (adopt nil lk y a) p b) b lb) a la

theorem rotated_of_ne {b y v : P} {la lb : Links P} (ha : v ≠ a) (hb : v ≠ b) :
    rotated nil lk p a b y la lb v = fill (adopt nil lk y a) p b v := by
  rw [rotated, Function.update_of_ne ha, Function.update_of_ne hb]

/-- **Rotation.** The rotated store holds the rotated tree, and differs from the old one
    in the cells of the tree alone. -/
theorem Linked.rotate {b : P} {c' : Color} {A B C : CTree P}
    (h : Linked nil lk root top (plug p (join s c a A (join s c' b B C)))) :
    Linked nil (rotated nil lk p a b (B.ptr nil) (.of s (A.ptr nil) (B.ptr nil) b c)
        (.of s a (C.ptr nil) (Path.parent top p) c'))
      (if p = [] then b else root) top (plug p (join s c' b (join s c a A B) C)) ∧
    ∀ v, v ∉ (plug p (join s c a A (join s c' b B C))).toList →
      rotated nil lk p a b (B.ptr nil) (.of s (A.ptr nil) (B.ptr nil) b c)
        (.of s a (C.ptr nil) (Path.parent top p) c') v = lk v := by
  obtain ⟨hnp, hnT, hdis⟩ := nodup_plug.mp h.nodup
  obtain ⟨-, hnJ, haA, haJ, hAJ⟩ := nodup_join.mp hnT
  obtain ⟨hnB, -, hbB, hbC, hBC⟩ := nodup_join.mp hnJ
  obtain ⟨-, hA, hJ⟩ := holds_join.mp h.sub
  obtain ⟨-, hB, hC⟩ := holds_join.mp hJ
  have hnil := h.nil_notMem
  have hpath := h.path
  simp only [mem_plug, mem_join, not_or] at haJ hAJ hnil
  simp only [mem_join] at hdis
  rw [ptr_join] at hpath
  obtain ⟨haB, hab, haC⟩ := haJ
  have hap : a ∉ Path.labels p := hdis a (.inr (.inl rfl))
  have hbp : b ∉ Path.labels p := hdis b (.inr (.inr (.inr (.inl rfl))))
  have hBp : ∀ v ∈ B.toList, v ∉ Path.labels p := fun v hv => hdis v (.inr (.inr (.inl hv)))
  -- away from the two nodes, from the path and from the tree between them nothing changes
  have hfar : ∀ {la lb : Links P} (v : P), v ≠ a → v ≠ b → v ∉ Path.labels p → v ∉ B.toList →
      rotated nil lk p a b (B.ptr nil) la lb v = lk v := by
    intro la lb v hva hvb hvp hvB
    rw [rotated_of_ne hva hvb, fill_of_notMem hvp, adopt_of_notMem hvB]
  refine ⟨h.rebuild ?_ ?_ ?_ ?_, fun v hv => ?_⟩
  · rw [toList_rotate]
  · cases p with
    | nil => rw [if_pos rfl, plug, ptr_join]
    | cons k p =>
      rw [if_neg (List.cons_ne_nil _ _), h.root_eq, plug, plug]
      exact ptr_plug_congr (by rw [ptr_join, ptr_join])
  · rw [ptr_join]
    have had : PathHolds nil (adopt nil lk (B.ptr nil) a) top p a :=
      hpath.congr fun v hv => adopt_of_notMem fun hvB => hBp v hvB hv
    refine (had.fill hnp).congr fun v hv => rotated_of_ne ?_ ?_
    · rintro rfl
      exact hap hv
    · rintro rfl
      exact hbp hv
  · rw [holds_join, holds_join, ptr_join]
    refine ⟨?_, ⟨?_, hA.congr fun v hv => ?_, ?_⟩, hC.congr fun v hv => ?_⟩
    · rw [rotated, Function.update_of_ne (Ne.symm hab), Function.update_self]
    · rw [rotated, Function.update_self]
    · obtain ⟨hvB, hvb, -⟩ := hAJ v hv
      exact hfar v (fun e => haA (e ▸ hv)) hvb (hdis v (.inl hv)) hvB
    · refine (hB.adopt hnB hnil.2.2.2.1).congr fun v hv => ?_
      have hva : v ≠ a := fun e => haB (e ▸ hv)
      have hvb : v ≠ b := fun e => hbB (e ▸ hv)
      rw [rotated_of_ne hva hvb, fill_of_notMem (hBp v hv)]
    · refine hfar v (fun e => haC (e ▸ hv)) (fun e => hbC (e ▸ hv)) ?_ fun hvB => hBC v hvB hv
      exact hdis v (.inr (.inr (.inr (.inr hv))))
  · simp only [mem_plug, mem_join, not_or] at hv
    exact hfar v hv.2.2.1 hv.2.2.2.2.1 hv.1 hv.2.2.2.1

end Update

end RB

end NginxEngine
