import NginxEngine.LinkedTree

/-!
# The red-black tree of the vendored core

`ngx_rbtree.c` and `ngx_rbtree.h`, statement by statement on a memory of nodes. A pointer
is a number, the links and the keys of the nodes are maps from pointers. The two rotations
and the two halves of each rebalancing loop are mirror images, so each is written once
with a side. A loop takes a bound on its turns and gives `none` when the bound is reached.

## Main definitions

- `Rbtree` — `ngx_rbtree_t` together with the memory of its nodes
- `Rbtree.rotate` — `ngx_rbtree_left_rotate`, `ngx_rbtree_right_rotate`
- `Rbtree.insert`, `Rbtree.delete`, `Rbtree.min` — the operations
- `Rbtree.Shape` — a stage of a rearrangement of a tree
- `Rbtree.InOrder` — a red-black tree with the given nodes from left to right

## Main results

- `Rbtree.rotate_holds` — a rotation is a rotation of the tree in memory
-/

namespace NginxEngine.Core

open NginxEngine.RB

abbrev Ptr := Nat

def NULL : Ptr := 0

/-- `ngx_rbtree_t`, and of every `ngx_rbtree_node_t` its links with its colour and its
    key. The `insert` member is an argument of `Rbtree.insert`. -/
structure Rbtree (κ : Type) where
  root : Ptr
  sentinel : Ptr
  links : Ptr → Links Ptr
  key : Ptr → κ

namespace Rbtree

variable {κ : Type}

/-! ### Reading and writing nodes -/

def child (t : Rbtree κ) (s : Side) (p : Ptr) : Ptr := (t.links p).child s

def parent (t : Rbtree κ) (p : Ptr) : Ptr := (t.links p).parent

def color (t : Rbtree κ) (p : Ptr) : Color := (t.links p).color

/-- `ngx_rbt_is_red`. -/
def isRed (t : Rbtree κ) (p : Ptr) : Bool := t.color p = .red

/-- `ngx_rbt_is_black`. -/
def isBlack (t : Rbtree κ) (p : Ptr) : Bool := !t.isRed p

def setChild (t : Rbtree κ) (s : Side) (p q : Ptr) : Rbtree κ :=
  { t with links := Function.update t.links p ((t.links p).setChild s q) }

def setParent (t : Rbtree κ) (p q : Ptr) : Rbtree κ :=
  { t with links := Function.update t.links p { t.links p with parent := q } }

/-- `ngx_rbt_red`, `ngx_rbt_black`, `ngx_rbt_copy_color`. -/
def setColor (t : Rbtree κ) (p : Ptr) (c : Color) : Rbtree κ :=
  { t with links := Function.update t.links p { t.links p with color := c } }

/-- `if (x != sentinel) x->parent = q`. -/
def reparent (t : Rbtree κ) (x q : Ptr) : Rbtree κ :=
  if x ≠ t.sentinel then t.setParent x q else t

/-- Put `temp` where `node` hangs from its parent: on the side `d`, which is looked at
    first, or on the other one. -/
def relink (t : Rbtree κ) (d : Side) (node temp : Ptr) : Rbtree κ :=
  if node = t.child d (t.parent node) then t.setChild d (t.parent node) temp
  else t.setChild d.other (t.parent node) temp

/-- The same where `node` may be the root. -/
def replace (t : Rbtree κ) (d : Side) (node temp : Ptr) : Rbtree κ :=
  if node = t.root then { t with root := temp } else t.relink d node temp

/-- The rotation of `node` to the side `d`. -/
def rotate (t : Rbtree κ) (d : Side) (node : Ptr) : Rbtree κ :=
  let temp := t.child d.other node
  let t := t.setChild d.other node (t.child d temp)
  let t := t.reparent (t.child d temp) node
  let t := t.setParent temp (t.parent node)
  let t := t.replace d node temp
  let t := t.setChild d temp node
  t.setParent node temp

/-- `ngx_rbtree_left_rotate`. -/
def leftRotate (t : Rbtree κ) (node : Ptr) : Rbtree κ := t.rotate .left node

/-- `ngx_rbtree_right_rotate`. -/
def rightRotate (t : Rbtree κ) (node : Ptr) : Rbtree κ := t.rotate .right node

/-- `ngx_rbtree_init`: an empty tree over an arbitrary memory. -/
def init (s : Ptr) (links : Ptr → Links Ptr) (key : Ptr → κ) : Rbtree κ :=
  setColor ⟨s, s, links, key⟩ s .black

/-- `ngx_rbtree_min`. -/
def min (t : Rbtree κ) : Nat → Ptr → Option Ptr
  | 0, _ => none
  | k + 1, node =>
    if t.child .left node ≠ t.sentinel then t.min k (t.child .left node) else some node

/-! ### ngx_rbtree_insert -/

/-- The loop of `ngx_rbtree_insert_value` and `ngx_rbtree_insert_timer_value`: the node
    under which `node` belongs and the side; `before` is the comparison of the keys. -/
def descend (t : Rbtree κ) (before : κ → κ → Bool) (node : Ptr) : Nat → Ptr → Option (Ptr × Side)
  | 0, _ => none
  | k + 1, temp =>
    let s := if before (t.key node) (t.key temp) then Side.left else Side.right
    if t.child s temp = t.sentinel then some (temp, s)
    else t.descend before node k (t.child s temp)

/-- The tail of both functions: `*p = node`, and the links of the new node. -/
def attach (t : Rbtree κ) (node temp : Ptr) (s : Side) : Rbtree κ :=
  let t := t.setChild s temp node
  let t := t.setParent node temp
  let t := t.setChild .left node t.sentinel
  let t := t.setChild .right node t.sentinel
  t.setColor node .red

/-- The end of a turn of the rebalancing loop: `node->parent` comes up. -/
def outerRotation (t : Rbtree κ) (s : Side) (node : Ptr) : Rbtree κ :=
  let t := t.setColor (t.parent node) .black
  let t := t.setColor (t.parent (t.parent node)) .red
  t.rotate s.other (t.parent (t.parent node))

/-- One turn of the rebalancing loop, where `node->parent` is the child of its parent on
    the side `s`. -/
def insertCase (t : Rbtree κ) (s : Side) (node : Ptr) : Rbtree κ × Ptr :=
  let temp := t.child s.other (t.parent (t.parent node))
  if t.isRed temp then
    let t := t.setColor (t.parent node) .black
    let t := t.setColor temp .black
    let t := t.setColor (t.parent (t.parent node)) .red
    (t, t.parent (t.parent node))
  else if node = t.child s.other (t.parent node) then
    ((t.rotate s (t.parent node)).outerRotation s (t.parent node), t.parent node)
  else (t.outerRotation s node, node)

/-- The loop "re-balance tree". -/
def insertFixup : Nat → Rbtree κ → Ptr → Option (Rbtree κ)
  | 0, _, _ => none
  | k + 1, t, node =>
    if node ≠ t.root ∧ t.isRed (t.parent node) then
      let s := if t.parent node = t.child .left (t.parent (t.parent node)) then Side.left
        else Side.right
      insertFixup k (t.insertCase s node).1 (t.insertCase s node).2
    else some t

/-- `ngx_rbtree_insert`, with the comparison of the tree's `insert` function. -/
def insert (t : Rbtree κ) (before : κ → κ → Bool) (fuel : Nat) (node : Ptr) : Option (Rbtree κ) :=
  if t.root = t.sentinel then
    let t := t.setParent node NULL
    let t := t.setChild .left node t.sentinel
    let t := t.setChild .right node t.sentinel
    let t := t.setColor node .black
    some { t with root := node }
  else
    (t.descend before node fuel t.root).bind fun place =>
      (insertFixup fuel (t.attach node place.1 place.2) node).map fun t =>
        t.setColor t.root .black

/-! ### ngx_rbtree_delete -/

/-- `subst`, the node that leaves its place, and `temp`, the one that takes it. -/
def victim (t : Rbtree κ) (fuel : Nat) (node : Ptr) : Option (Ptr × Ptr) :=
  if t.child .left node = t.sentinel then some (node, t.child .right node)
  else if t.child .right node = t.sentinel then some (node, t.child .left node)
  else (t.min fuel (t.child .right node)).map fun subst =>
    if t.child .left subst ≠ t.sentinel then (subst, t.child .left subst)
    else (subst, t.child .right subst)

/-- "DEBUG stuff": the links of a deleted node and its key. -/
def clear [Zero κ] (t : Rbtree κ) (node : Ptr) : Rbtree κ :=
  let t := t.setChild .left node NULL
  let t := t.setChild .right node NULL
  let t := t.setParent node NULL
  { t with key := Function.update t.key node 0 }

/-- The children, the parent and the colour of `node` go over to `subst`. -/
def inherit (t : Rbtree κ) (node subst : Ptr) : Rbtree κ :=
  let t := t.setChild .left subst (t.child .left node)
  let t := t.setChild .right subst (t.child .right node)
  let t := t.setParent subst (t.parent node)
  t.setColor subst (t.color node)

/-- `temp` takes the place of `subst`, which is not the root, and `subst` that of `node`. -/
def splice (t : Rbtree κ) (node subst temp : Ptr) : Rbtree κ :=
  let t := t.relink .left subst temp
  if subst = node then t.setParent temp (t.parent subst)
  else
    let t := if t.parent subst = node then t.setParent temp subst
      else t.setParent temp (t.parent subst)
    let t := t.inherit node subst
    let t := t.replace .left node subst
    let t := t.reparent (t.child .left subst) subst
    t.reparent (t.child .right subst) subst

/-- The first part of a turn of the fixup loop: a red `w` is rotated away. -/
def redSibling (t : Rbtree κ) (s : Side) (temp : Ptr) : Rbtree κ :=
  let w := t.child s.other (t.parent temp)
  if t.isRed w then
    let t := t.setColor w .black
    let t := t.setColor (t.parent temp) .red
    t.rotate s (t.parent temp)
  else t

/-- If `w` has a red child: the one away from `temp` is made red. -/
def redFar (t : Rbtree κ) (s : Side) (w : Ptr) : Rbtree κ :=
  if t.isBlack (t.child s.other w) then
    let t := t.setColor (t.child s w) .black
    let t := t.setColor w .red
    t.rotate s.other w
  else t

/-- The last part: `w` takes the place and the colour of `temp->parent`. -/
def lastRotation (t : Rbtree κ) (s : Side) (temp : Ptr) : Rbtree κ :=
  let w := t.child s.other (t.parent temp)
  let t := t.setColor w (t.color (t.parent temp))
  let t := t.setColor (t.parent temp) .black
  let t := t.setColor (t.child s.other w) .black
  t.rotate s (t.parent temp)

/-- The turn from where `w` is black. -/
def blackSibling (t : Rbtree κ) (s : Side) (temp : Ptr) : Rbtree κ × Ptr :=
  let w := t.child s.other (t.parent temp)
  if t.isBlack (t.child .left w) && t.isBlack (t.child .right w) then
    let t := t.setColor w .red
    (t, t.parent temp)
  else
    let t := (t.redFar s w).lastRotation s temp
    (t, t.root)

/-- One turn of the fixup loop, where `temp` is the child of its parent on the side `s`. -/
def deleteCase (t : Rbtree κ) (s : Side) (temp : Ptr) : Rbtree κ × Ptr :=
  (t.redSibling s temp).blackSibling s temp

/-- The loop "a delete fixup", and the node it stops at. -/
def deleteFixup : Nat → Rbtree κ → Ptr → Option (Rbtree κ × Ptr)
  | 0, _, _ => none
  | k + 1, t, temp =>
    if temp ≠ t.root ∧ t.isBlack temp then
      let s := if temp = t.child .left (t.parent temp) then Side.left else Side.right
      deleteFixup k (t.deleteCase s temp).1 (t.deleteCase s temp).2
    else some (t, temp)

/-- `ngx_rbtree_delete`. -/
def delete [Zero κ] (t : Rbtree κ) (fuel : Nat) (node : Ptr) : Option (Rbtree κ) :=
  (t.victim fuel node).bind fun v =>
    if v.1 = t.root then
      let t := { t with root := v.2 }
      let t := t.setColor v.2 .black
      some (t.clear node)
    else
      let red := t.isRed v.1
      let t := (t.splice node v.1 v.2).clear node
      if red then some t
      else (deleteFixup fuel t v.2).map fun r => r.1.setColor r.2 .black

/-! ### What the writes leave alone -/

section Fields

variable (t : Rbtree κ) (d : Side) (p q : Ptr) (c : Color)

@[simp] theorem sentinel_setChild : (t.setChild d p q).sentinel = t.sentinel := rfl
@[simp] theorem sentinel_setParent : (t.setParent p q).sentinel = t.sentinel := rfl
@[simp] theorem sentinel_setColor : (t.setColor p c).sentinel = t.sentinel := rfl
@[simp] theorem key_setChild : (t.setChild d p q).key = t.key := rfl
@[simp] theorem key_setParent : (t.setParent p q).key = t.key := rfl
@[simp] theorem key_setColor : (t.setColor p c).key = t.key := rfl

theorem links_setColor : (t.setColor p c).links q =
    if q = p then { t.links p with color := c } else t.links q := Function.update_apply ..

@[simp] theorem parent_setColor : (t.setColor p c).parent q = t.parent q := by
  rw [parent, links_setColor]
  by_cases hq : q = p
  · rw [if_pos hq, hq]
    rfl
  · rw [if_neg hq]
    rfl

@[simp] theorem child_setColor : (t.setColor p c).child d q = t.child d q := by
  rw [child, links_setColor]
  by_cases hq : q = p
  · rw [if_pos hq, hq]
    cases d <;> rfl
  · rw [if_neg hq]
    rfl

theorem reparent_eq : t.reparent p q = { t with links := adopt t.sentinel t.links p q } := by
  rw [reparent, adopt]
  by_cases hp : p = t.sentinel
  · rw [if_neg (not_not.mpr hp), if_pos hp]
  · rw [if_pos hp, if_neg hp]
    rfl

@[simp] theorem sentinel_replace : (t.replace d p q).sentinel = t.sentinel := by
  rw [replace, relink]
  split_ifs <;> rfl

@[simp] theorem key_replace : (t.replace d p q).key = t.key := by
  rw [replace, relink]
  split_ifs <;> rfl

@[simp] theorem sentinel_rotate : (t.rotate d p).sentinel = t.sentinel := by
  simp [rotate, reparent_eq]

@[simp] theorem key_rotate : (t.rotate d p).key = t.key := by
  simp [rotate, reparent_eq]

end Fields

/-! ### Rotations in memory -/

open CTree (join)

/-- The memory of `t` holds the tree `T`; `top` is the parent that the root's cell names. -/
def Holds (t : Rbtree κ) (top : Ptr) (T : CTree Ptr) : Prop :=
  Linked t.sentinel t.links t.root top T

variable {t t₀ : Rbtree κ} {l : List Ptr} {d s : Side} {top a b : Ptr} {c c' : Color} {p : Path Ptr}
  {A B C T : CTree Ptr}

section Cell

variable {x y z q v : Ptr} (h : t.links q = .of s x y z c)

include h

theorem setChild_eq :
    t.setChild s q v = { t with links := Function.update t.links q (.of s v y z c) } := by
  rw [setChild, h, Links.setChild_of_self]

theorem setChild_other_eq :
    t.setChild s.other q v = { t with links := Function.update t.links q (.of s x v z c) } := by
  rw [setChild, h, Links.setChild_of_other]

theorem setParent_eq :
    t.setParent q v = { t with links := Function.update t.links q (.of s x y v c) } := by
  rw [setParent, h, Links.setParent_of]

theorem child_eq : t.child s q = x := by rw [child, h, Links.child_of_self]

theorem child_other_eq : t.child s.other q = y := by rw [child, h, Links.child_of_other]

theorem parent_eq : t.parent q = z := by rw [parent, h, Links.parent_of]

theorem color_eq : t.color q = c := by rw [color, h, Links.color_of]

end Cell

/-- Where a node hangs from a path, a replacement changes the hole of the path. -/
theorem relink_eq {node temp : Ptr} {k : Crumb Ptr}
    (hp : PathHolds t.sentinel t.links top (k :: p) node) (hpar : t.parent node = k.label)
    (hne : node ≠ k.sib.ptr t.sentinel) :
    t.relink d node temp = { t with links := fill t.links (k :: p) temp } := by
  obtain ⟨hk, -, -⟩ := hp
  rw [relink, hpar]
  by_cases hd : d = k.side
  · rw [if_pos (by rw [child, hk, hd, Links.child_of_self]), hd]
    rfl
  · obtain rfl := Side.eq_other_of_ne hd
    rw [if_neg (by rw [child, hk, Links.child_of_other]; exact hne), Side.other_other]
    rfl

theorem replace_eq {node temp : Ptr} (hp : PathHolds t.sentinel t.links top p node)
    (hpar : t.parent node = Path.parent top p) (hroot : node = t.root ↔ p = [])
    (hnode : node ∉ Path.labels p) (hnil : node ≠ t.sentinel) :
    t.replace d node temp =
      { t with root := if p = [] then temp else t.root, links := fill t.links p temp } := by
  rw [replace]
  cases p with
  | nil =>
    rw [if_pos (hroot.mpr rfl), if_pos rfl]
    rfl
  | cons k p =>
    have hsib : node ≠ k.sib.ptr t.sentinel :=
      CTree.ne_ptr (fun hm => hnode (by simp [Path.labels, hm])) hnil
    rw [if_neg (fun h => List.cons_ne_nil _ _ (hroot.mp h)), if_neg (List.cons_ne_nil _ _),
      relink_eq hp hpar hsib]

/-- The net effect of a rotation on the memory. -/
theorem rotate_eq {x y z par : Ptr} (ha : t.links a = .of d x b par c)
    (hb : t.links b = .of d y z a c') (hab : a ≠ b) (hay : a ≠ y) (hby : b ≠ y)
    (hp : PathHolds t.sentinel t.links top p a) (hpar : par = Path.parent top p)
    (hroot : a = t.root ↔ p = []) (hap : a ∉ Path.labels p) (hbp : b ∉ Path.labels p)
    (hyp : y ∉ Path.labels p) (hnil : a ≠ t.sentinel) :
    t.rotate d a = { t with
      root := if p = [] then b else t.root
      links := rotated t.sentinel t.links p a b y (.of d x y b c) (.of d a z par c') } := by
  have hba := Ne.symm hab
  -- the memory after each of the statements
  let l₁ := Function.update t.links a (.of d x y par c)
  let l₂ := adopt t.sentinel l₁ y a
  let l₃ := Function.update l₂ b (.of d y z par c')
  let l₄ := fill l₃ p b
  have h₁ : ∀ v, v ≠ a → l₁ v = t.links v := fun v hv => Function.update_of_ne hv _ _
  have h₂a : l₂ a = .of d x y par c := (adopt_of_ne hay).trans (Function.update_self ..)
  have h₂b : l₂ b = .of d y z a c' := (adopt_of_ne hby).trans ((h₁ b hba).trans hb)
  have h₃a : l₃ a = .of d x y par c := (Function.update_of_ne hab _ _).trans h₂a
  have hp₃ : PathHolds t.sentinel l₃ top p a := by
    refine hp.congr fun v hv => ?_
    have hva : v ≠ a := fun e => hap (e ▸ hv)
    have hvb : v ≠ b := fun e => hbp (e ▸ hv)
    have hvy : v ≠ y := fun e => hyp (e ▸ hv)
    exact (Function.update_of_ne hvb _ _).trans ((adopt_of_ne hvy).trans (h₁ v hva))
  have h₄b : l₄ b = .of d y z par c' := (fill_of_notMem hbp).trans (Function.update_self ..)
  have h₄a : l₄ a = .of d x y par c := (fill_of_notMem hap).trans h₃a
  have e₀ : t.setChild d.other a (t.child d b) = { t with links := l₁ } := by
    rw [child_eq hb, setChild_other_eq ha]
  have e₁ : Rbtree.child { t with links := l₁ } d b = y := child_eq ((h₁ b hba).trans hb)
  have e₂ : Rbtree.parent { t with links := l₂ } a = par := parent_eq h₂a
  have e₃ : Rbtree.setParent { t with links := l₂ } b par = { t with links := l₃ } :=
    setParent_eq h₂b
  have e₄ : Rbtree.replace { t with links := l₃ } d a b =
      { t with root := if p = [] then b else t.root, links := l₄ } :=
    replace_eq hp₃ ((parent_eq h₃a).trans hpar) hroot hap hnil
  rw [rotate, child_other_eq ha]
  simp only [e₀, reparent_eq, e₁]
  rw [e₂, e₃, e₄, setChild_eq h₄b, setParent_eq ((Function.update_of_ne hab _ _).trans h₄a)]
  congr 1
  show Function.update (Function.update l₄ b _) a _ = _
  funext v
  by_cases hva : v = a
  · rw [hva, rotated, Function.update_self, Function.update_self]
  · by_cases hvb : v = b
    · rw [hvb, rotated, Function.update_of_ne hba, Function.update_of_ne hba,
        Function.update_self, Function.update_self]
    · rw [rotated_of_ne hva hvb, Function.update_of_ne hva, Function.update_of_ne hvb]
      exact fill_congr ((Function.update_of_ne hvb _ _).trans (adopt_congr (h₁ v hva)))

/-- **Rotation.** A rotation in memory is a rotation of the tree, and no other cell
    changes. -/
theorem rotate_holds (h : t.Holds top (plug p (join d c a A (join d c' b B C)))) :
    (t.rotate d a).Holds top (plug p (join d c' b (join d c a A B) C)) ∧
      ∀ v, v ∉ (plug p (join d c a A (join d c' b B C))).toList →
        (t.rotate d a).links v = t.links v := by
  obtain ⟨-, hnT, hdis⟩ := nodup_plug.mp h.nodup
  obtain ⟨-, hnJ, -, haJ, -⟩ := CTree.nodup_join.mp hnT
  have hbB := (CTree.nodup_join.mp hnJ).2.2.1
  obtain ⟨ha, -, hJ⟩ := holds_join.mp h.sub
  have hnil := h.nil_notMem
  have hpath := h.path
  simp only [mem_plug, CTree.mem_join, not_or] at haJ hnil
  simp only [CTree.mem_join] at hdis
  rw [CTree.ptr_join] at hpath ha
  have hyp : B.ptr t.sentinel ∉ Path.labels p := by
    by_cases hB : B = .leaf
    · rw [hB]
      exact hnil.1
    · exact hdis _ (.inr (.inr (.inl (CTree.ptr_mem hB))))
  rw [rotate_eq ha (holds_join.mp hJ).1 haJ.2.1 (CTree.ne_ptr haJ.1 (Ne.symm hnil.2.2.1))
    (CTree.ne_ptr hbB (Ne.symm hnil.2.2.2.2.1)) hpath rfl h.eq_root_iff
    (hdis a (.inr (.inl rfl))) (hdis b (.inr (.inr (.inr (.inl rfl))))) hyp h.ne_nil]
  exact h.rotate

/-! ### Trees that are being rearranged -/

/-- A stage of a rearrangement that began at `t₀`: the memory holds `T`, with the nodes `l`
    from left to right; keys and everything outside these nodes are as they were. -/
structure Shape (t₀ : Rbtree κ) (l : List Ptr) (top : Ptr) (t : Rbtree κ) (T : CTree Ptr) :
    Prop where
  holds : t.Holds top T
  order : T.toList = l
  black : t₀.color t₀.sentinel = .black
  sentinel_eq : t.sentinel = t₀.sentinel
  key_eq : t.key = t₀.key
  frame : ∀ v, v ∉ l → t.links v = t₀.links v

namespace Shape

variable {k : Crumb Ptr}

theorem rotate (h : Shape t₀ l top t (plug p (join d c a A (join d c' b B C)))) :
    Shape t₀ l top (t.rotate d a) (plug p (join d c' b (join d c a A B) C)) := by
  obtain ⟨hh, hf⟩ := rotate_holds h.holds
  refine ⟨hh, ?_, h.black, (sentinel_rotate ..).trans h.sentinel_eq,
    (key_rotate ..).trans h.key_eq, fun v hv => ?_⟩
  · rw [← h.order]
    exact toList_plug_congr CTree.toList_rotate
  · rw [hf v (h.order.symm ▸ hv), h.frame v hv]

theorem recolor (h : Shape t₀ l top t (plug p (join s c a A B))) (c' : Color) :
    Shape t₀ l top (t.setColor a c') (plug p (join s c' a A B)) := by
  refine ⟨h.holds.recolor, ?_, h.black, h.sentinel_eq, h.key_eq, fun v hv => ?_⟩
  · rw [← h.order]
    exact toList_plug_congr (by rw [CTree.toList_join, CTree.toList_join])
  · rw [← h.frame v hv]
    apply Function.update_of_ne
    rintro rfl
    rw [← h.order] at hv
    exact hv (mem_plug.mpr (.inr (CTree.mem_join.mpr (.inr (.inl rfl)))))

theorem cell (h : Shape t₀ l top t (plug p (join s c a A B))) :
    t.links a = .of s (A.ptr t.sentinel) (B.ptr t.sentinel) (Path.parent top p) c :=
  h.holds.cell

theorem crumb (h : Shape t₀ l top t (plug (k :: p) T)) :
    t.links k.label =
      .of k.side (T.ptr t.sentinel) (k.sib.ptr t.sentinel) (Path.parent top p) k.color :=
  cell (p := p) h

theorem parent_ptr (h : Shape t₀ l top t (plug p T)) (hT : T ≠ .leaf) :
    t.parent (T.ptr t.sentinel) = Path.parent top p := by
  obtain ⟨c, a, A, B, rfl⟩ := CTree.exists_join .left hT
  rw [CTree.ptr_join, parent_eq h.cell]

/-- A tree may be empty if the sentinel names the parent that it would have. -/
theorem parent_ptr_of_leaf (h : Shape t₀ l top t (plug p T))
    (hleaf : T = .leaf → t₀.parent t₀.sentinel = Path.parent top p) :
    t.parent (T.ptr t.sentinel) = Path.parent top p := by
  by_cases hT : T = .leaf
  · have hs : t.sentinel ∉ l := h.order ▸ h.holds.nil_notMem
    rw [← hleaf hT, hT, CTree.ptr_leaf, parent, h.frame _ hs, h.sentinel_eq]
    rfl
  · exact h.parent_ptr hT

/-- The colour in memory is that of the tree; the sentinel is black. -/
theorem color_ptr (h : Shape t₀ l top t (plug p T)) : t.color (T.ptr t.sentinel) = T.color := by
  by_cases hT : T = .leaf
  · have hs : t.sentinel ∉ l := h.order ▸ h.holds.nil_notMem
    rw [hT, CTree.ptr_leaf, color, h.frame _ hs, h.sentinel_eq]
    exact h.black
  · obtain ⟨c, a, A, B, rfl⟩ := CTree.exists_join .left hT
    rw [CTree.ptr_join, color_eq h.cell, CTree.color_join]

theorem isRed_ptr (h : Shape t₀ l top t (plug p T)) :
    t.isRed (T.ptr t.sentinel) = decide (T.color = .red) := by
  rw [isRed, h.color_ptr]

/-- Making a subtree's root black; the sentinel stays as it is. -/
theorem blacken (h : Shape t₀ l top t (plug p T)) :
    Shape t₀ l top (t.setColor (T.ptr t.sentinel) .black) (plug p T.blacken) := by
  by_cases hT : T = .leaf
  · have hc := h.color_ptr
    have hsame : t.setColor (T.ptr t.sentinel) .black = t := by
      rw [hT, CTree.ptr_leaf] at hc ⊢
      rw [setColor, ← show t.color t.sentinel = .black from hc]
      exact congrArg (fun lk => { t with links := lk }) (Function.update_eq_self _ _)
    rw [hsame, hT]
    rwa [hT] at h
  · obtain ⟨c, a, A, B, rfl⟩ := CTree.exists_join .left hT
    rw [CTree.ptr_join, CTree.blacken_join]
    exact h.recolor .black

theorem ptr_ne_sib (h : Shape t₀ l top t (plug (k :: p) T)) (hT : T ≠ .leaf) :
    T.ptr t.sentinel ≠ k.sib.ptr t.sentinel :=
  Linked.ptr_ne (p := p) h.holds hT

/-- What hangs from a path is not the root. -/
theorem ptr_ne_root (h : Shape t₀ l top t (plug (k :: p) T)) : T.ptr t.sentinel ≠ t.root := by
  intro he
  have hm : t.root ∈ Path.labels (k :: p) := by
    rw [h.holds.root_eq]
    exact ptr_plug_mem (List.cons_ne_nil k p)
  rw [← he] at hm
  by_cases hT : T = .leaf
  · rw [hT, CTree.ptr_leaf] at hm
    exact h.holds.nil_notMem (mem_plug.mpr (.inl hm))
  · exact h.holds.notMem_labels (CTree.ptr_mem hT) hm

/-- The test `x == x->parent->left` finds the side that `x` is on. -/
theorem side_eq (h : Shape t₀ l top t (plug (k :: p) T))
    (hne : T.ptr t.sentinel ≠ k.sib.ptr t.sentinel) :
    (if T.ptr t.sentinel = t.child .left k.label then Side.left else Side.right) = k.side := by
  cases hs : k.side with
  | left =>
    have hc := child_eq h.crumb
    rw [hs] at hc
    rw [if_pos hc.symm]
  | right =>
    have hc := child_other_eq h.crumb
    rw [hs] at hc
    exact if_neg fun e => hne (e.trans hc)

/-- The same stage, seen from the subtree beside the hole. -/
theorem sib (h : Shape t₀ l top t (plug (k :: p) T)) :
    Shape t₀ l top t (plug (⟨k.side.other, k.color, k.label, T⟩ :: p) k.sib) := by
  rwa [← plug_sib]

theorem recolor_sib (h : Shape t₀ l top t (plug (k :: p) T)) (hk : k.sib = join s c a A B)
    (c' : Color) : Shape t₀ l top (t.setColor a c')
      (plug (⟨k.side, k.color, k.label, join s c' a A B⟩ :: p) T) := by
  have hs := h.sib
  rw [hk] at hs
  have hr := (hs.recolor c').sib
  rwa [Side.other_other] at hr

end Shape

/-! ### Red-black trees in memory -/

/-- The memory holds a red-black tree with the nodes `l` from left to right. -/
structure InOrder (t : Rbtree κ) (l : List Ptr) : Prop where
  tree : ∃ top T, t.Holds top T ∧ T.RedBlack ∧ T.toList = l
  black : t.color t.sentinel = .black

theorem InOrder.nodup (h : t.InOrder l) : l.Nodup := by
  obtain ⟨top, T, hh, -, rfl⟩ := h.tree
  exact hh.nodup

/-- Memory that differs outside of the nodes and the sentinel holds the same tree. -/
theorem InOrder.congr {t' : Rbtree κ} (h : t.InOrder l) (hroot : t'.root = t.root)
    (hs : t'.sentinel = t.sentinel) (hl : ∀ p, p = t.sentinel ∨ p ∈ l → t'.links p = t.links p) :
    t'.InOrder l := by
  obtain ⟨top, T, hh, hT, rfl⟩ := h.tree
  refine ⟨⟨top, T, ⟨?_, ?_, hh.nodup, ?_⟩, hT, rfl⟩, ?_⟩
  · rw [hroot, hs]
    exact hh.root_eq
  · rw [hs]
    exact hh.holds.congr fun x hx => hl x (.inr hx)
  · rw [hs]
    exact hh.nil_notMem
  · rw [color, hs, hl _ (.inl rfl)]
    exact h.black

/-- The tree is empty just if its root is the sentinel. -/
theorem InOrder.root_eq_iff (h : t.InOrder l) : t.root = t.sentinel ↔ l = [] := by
  obtain ⟨top, T, hh, -, rfl⟩ := h.tree
  rw [hh.root_eq, CTree.ptr_eq_nil hh.nil_notMem]
  cases T <;> simp [CTree.toList]

/-- A stage of a rearrangement at which the tree is a red-black tree again. -/
theorem Shape.inOrder (h : Shape t₀ l top t T) (hT : T.RedBlack) : t.InOrder l := by
  refine ⟨⟨top, T, h.holds, hT, h.order⟩, ?_⟩
  have hs : t.sentinel ∉ l := h.order ▸ h.holds.nil_notMem
  rw [color, h.frame _ hs, h.sentinel_eq]
  exact h.black

theorem init_inOrder (x : Ptr) (links : Ptr → Links Ptr) (key : Ptr → κ) :
    (init x links key).InOrder [] := by
  refine ⟨⟨NULL, .leaf, ⟨rfl, trivial, List.nodup_nil, List.not_mem_nil⟩,
    ⟨rfl, 0, rfl⟩, rfl⟩, ?_⟩
  rw [color, init, links_setColor]
  exact congrArg Links.color (if_pos rfl)

end Rbtree

end NginxEngine.Core
