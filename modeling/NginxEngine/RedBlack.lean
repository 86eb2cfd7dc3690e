import Mathlib.Algebra.Group.Nat.Defs
import Mathlib.Data.List.Basic
import Mathlib.Data.Nat.Log
import Mathlib.Tactic.Common

/-!
# Red-black trees with a path to a place in them

Binary trees with coloured nodes, and the paths that lead to one of their subtrees. A
path is read from the hole upwards, so that a loop that climbs through parents follows
it from its head. Both are written with a side, so that what is mirrored in an algorithm
is stated once.

## Main definitions

- `CTree`, `CTree.join` — a tree; a node with one child on the given side
- `Path`, `plug` — the way up from a subtree, and the whole tree around it
- `CTree.Bal` — every way down meets the same number of black nodes, none two reds in a row
- `Path.Fits` — a path around a hole of a given black height
- `CTree.RedBlack` — balanced with a black root

## Main results

- `redBlack_plug` — what fits a path makes a red-black tree of it
- `CTree.RedBlack.fits` — a subtree of a red-black tree fits the path to it
- `CTree.RedBlack.height_le` — a red-black tree is at most `2 * log₂ (n + 1)` high
-/

namespace NginxEngine

namespace RB

inductive Side
  | left
  | right
deriving DecidableEq, Repr

namespace Side

def other : Side → Side
  | left => right
  | right => left

/-- Concatenation in the reading order of a side. -/
def cat {α : Type*} : Side → List α → List α → List α
  | left, xs, ys => xs ++ ys
  | right, xs, ys => ys ++ xs

variable {α : Type*} (s : Side) (xs ys zs : List α)

@[simp] theorem other_other : s.other.other = s := by cases s <;> rfl

theorem eq_other_of_ne {s s' : Side} (h : s ≠ s') : s = s'.other := by
  cases s <;> cases s' <;> first | rfl | exact absurd rfl h

theorem cat_assoc : s.cat (s.cat xs ys) zs = s.cat xs (s.cat ys zs) := by
  cases s <;> simp [cat]

theorem cat_perm : (s.cat xs ys).Perm (xs ++ ys) := by
  cases s with
  | left => exact .refl _
  | right => exact List.perm_append_comm

@[simp] theorem mem_cat {x : α} : x ∈ s.cat xs ys ↔ x ∈ xs ∨ x ∈ ys := by
  rw [(s.cat_perm xs ys).mem_iff, List.mem_append]

end Side

inductive Color
  | red
  | black
deriving DecidableEq, Repr

namespace Color

/-- What a node of this colour adds to the black height. -/
def weight : Color → Nat
  | red => 0
  | black => 1

theorem eq_red_or_black (c : Color) : c = red ∨ c = black := by cases c <;> simp

end Color

inductive CTree (α : Type*)
  | leaf
  | node (c : Color) (l : CTree α) (a : α) (r : CTree α)
deriving Repr

variable {α : Type*}

namespace CTree

/-- A node with the child `t` on the side `s` and `u` on the other one. -/
def join (s : Side) (c : Color) (a : α) (t u : CTree α) : CTree α :=
  match s with
  | .left => node c t a u
  | .right => node c u a t

def color : CTree α → Color
  | leaf => .black
  | node c _ _ _ => c

/-- The same tree with a black root. -/
def blacken : CTree α → CTree α
  | leaf => leaf
  | node _ l a r => node .black l a r

/-- The labels, from left to right. -/
def toList : CTree α → List α
  | leaf => []
  | node _ l a r => l.toList ++ a :: r.toList

def height : CTree α → Nat
  | leaf => 0
  | node _ l _ r => max l.height r.height + 1

/-- A tree of black height `n`: all ways down from the root meet `n` black nodes, and no
    red node has a red child. -/
def Bal : CTree α → Nat → Prop
  | leaf, n => n = 0
  | node c l _ r, n => (c = .red → l.color = .black ∧ r.color = .black) ∧
      ∃ m, n = m + c.weight ∧ l.Bal m ∧ r.Bal m

/-- A red-black tree. -/
def RedBlack (t : CTree α) : Prop := t.color = .black ∧ ∃ n, t.Bal n

variable {s : Side} {c : Color} {a : α} {t u : CTree α} {n : Nat}

theorem join_other : join s.other c a t u = join s c a u t := by cases s <;> rfl

theorem join_ne_leaf : join s c a t u ≠ leaf := by cases s <;> simp [join]

@[simp] theorem color_join : (join s c a t u).color = c := by cases s <;> rfl

@[simp] theorem blacken_join : (join s c a t u).blacken = join s .black a t u := by
  cases s <;> rfl

theorem toList_join :
    (join s c a t u).toList = s.cat t.toList (s.cat [a] u.toList) := by
  cases s <;> simp [join, toList, Side.cat]

/-- A rotation leaves the reading order. -/
theorem toList_rotate {c' : Color} {b : α} {v : CTree α} :
    (join s c' b (join s c a t u) v).toList = (join s c a t (join s c' b u v)).toList := by
  simp only [toList_join, Side.cat_assoc]

/-- A tree that is not a leaf, seen from a side. -/
theorem exists_join (s : Side) (h : t ≠ leaf) : ∃ c a u v, t = join s c a u v := by
  cases t with
  | leaf => exact absurd rfl h
  | node c l a r =>
    cases s with
    | left => exact ⟨c, a, l, r, rfl⟩
    | right => exact ⟨c, a, r, l, rfl⟩

theorem ne_leaf_of_red (h : t.color = .red) : t ≠ leaf := by
  rintro rfl
  cases h

/-- A red tree, seen from a side. -/
theorem exists_join_red (s : Side) (h : t.color = .red) : ∃ a u v, t = join s .red a u v := by
  obtain ⟨c, a, u, v, rfl⟩ := exists_join s (ne_leaf_of_red h)
  rw [color_join] at h
  exact ⟨a, u, v, by rw [h]⟩

theorem color_blacken : t.blacken.color = .black := by cases t <;> rfl

theorem blacken_eq (h : t.color = .black) : t.blacken = t := by
  cases t with
  | leaf => rfl
  | node c l a r =>
    cases h
    rfl

theorem bal_join : (join s c a t u).Bal n ↔
    (c = .red → t.color = .black ∧ u.color = .black) ∧
      ∃ m, n = m + c.weight ∧ t.Bal m ∧ u.Bal m := by
  cases s with
  | left => exact Iff.rfl
  | right =>
    simp only [join, Bal]
    rw [and_comm (a := u.color = .black)]
    simp only [and_comm (b := t.Bal _)]

theorem bal_join_black : (join s .black a t u).Bal (n + 1) ↔ t.Bal n ∧ u.Bal n := by
  rw [bal_join]
  constructor
  · rintro ⟨-, m, hm, ht, hu⟩
    obtain rfl : n = m := Nat.succ.inj hm
    exact ⟨ht, hu⟩
  · rintro ⟨ht, hu⟩
    exact ⟨fun h => absurd h (by decide), n, rfl, ht, hu⟩

theorem bal_join_red : (join s .red a t u).Bal n ↔
    t.color = .black ∧ u.color = .black ∧ t.Bal n ∧ u.Bal n := by
  rw [bal_join]
  constructor
  · rintro ⟨hc, m, hm, ht, hu⟩
    obtain rfl : n = m := hm
    exact ⟨(hc rfl).1, (hc rfl).2, ht, hu⟩
  · rintro ⟨hct, hcu, ht, hu⟩
    exact ⟨fun _ => ⟨hct, hcu⟩, n, rfl, ht, hu⟩

/-- A tree of positive black height is not a leaf. -/
theorem Bal.ne_leaf (h : t.Bal (n + 1)) : t ≠ leaf := by
  rintro rfl
  exact absurd h (Nat.succ_ne_zero n)

/-- A black tree of positive black height, seen from a side. -/
theorem Bal.exists_join_black (s : Side) (h : t.Bal (n + 1)) (hc : t.color = .black) :
    ∃ a u v, t = join s .black a u v ∧ u.Bal n ∧ v.Bal n := by
  obtain ⟨c, a, u, v, rfl⟩ := exists_join s h.ne_leaf
  rw [color_join] at hc
  subst hc
  exact ⟨a, u, v, rfl, bal_join_black.mp h⟩

/-- Blackening a red root adds one to the black height. -/
theorem Bal.blacken_red (h : t.Bal n) (hc : t.color = .red) : t.blacken.Bal (n + 1) := by
  obtain ⟨a, u, v, rfl⟩ := exists_join_red .left hc
  rw [blacken_join, bal_join_black]
  exact (bal_join_red.mp h).2.2

theorem Bal.redBlack_blacken (h : t.Bal n) : t.blacken.RedBlack := by
  refine ⟨color_blacken, ?_⟩
  rcases t.color.eq_red_or_black with hc | hc
  · exact ⟨n + 1, h.blacken_red hc⟩
  · exact ⟨n, (blacken_eq hc).symm ▸ h⟩

/-- The number of labels is exponential in the black height. -/
theorem Bal.two_pow_le (h : t.Bal n) : 2 ^ n ≤ t.toList.length + 1 := by
  induction t generalizing n with
  | leaf =>
    obtain rfl : n = 0 := h
    exact Nat.le_refl 1
  | node c l a r ihl ihr =>
    obtain ⟨-, m, rfl, hl, hr⟩ := h
    have h1 := ihl hl
    have h2 := ihr hr
    have hw : c.weight ≤ 1 := by cases c <;> decide
    have hp : 2 ^ (m + c.weight) ≤ 2 ^ (m + 1) :=
      Nat.pow_le_pow_right (by decide) (by omega)
    rw [Nat.pow_succ] at hp
    simp only [toList, List.length_append, List.length_cons]
    omega

/-- A way down meets at most one red node for each black one, and a red root. -/
theorem Bal.height_le_weight (h : t.Bal n) : t.height + t.color.weight ≤ 2 * n + 1 := by
  induction t generalizing n with
  | leaf =>
    obtain rfl : n = 0 := h
    simp [height, color, Color.weight]
  | node c l a r ihl ihr =>
    obtain ⟨hc, m, rfl, hl, hr⟩ := h
    have h1 := ihl hl
    have h2 := ihr hr
    cases c with
    | red =>
      obtain ⟨hcl, hcr⟩ := hc rfl
      rw [hcl] at h1
      rw [hcr] at h2
      simp only [height, color, Color.weight] at h1 h2 ⊢
      omega
    | black =>
      simp only [height, color, Color.weight] at h1 h2 ⊢
      omega

/-- **Height.** A red-black tree with `n` labels is at most `2 * log₂ (n + 1)` high. -/
theorem RedBlack.height_le (h : t.RedBlack) : t.height ≤ 2 * Nat.log 2 (t.toList.length + 1) := by
  obtain ⟨hc, n, hb⟩ := h
  have hw := hb.height_le_weight
  have hn : n ≤ Nat.log 2 (t.toList.length + 1) := Nat.le_log_of_pow_le (by decide) hb.two_pow_le
  rw [hc] at hw
  simp only [Color.weight] at hw
  omega

end CTree

open CTree

/-! ### Paths -/

/-- One step up: the side the hole is on, the node, and its other subtree. -/
structure Crumb (α : Type*) where
  side : Side
  color : Color
  label : α
  sib : CTree α

/-- The way from a hole up to the root. -/
abbrev Path (α : Type*) := List (Crumb α)

/-- The whole tree, with `t` in the hole of the path. -/
def plug : Path α → CTree α → CTree α
  | [], t => t
  | k :: p, t => plug p (join k.side k.color k.label t k.sib)

namespace Path

/-- The colour of the node above the hole. What is above the root counts as red, since
    nothing red may hang there. -/
def color : Path α → Color
  | [] => .red
  | k :: _ => k.color

/-- The labels of a path and of the subtrees beside it. -/
def labels : Path α → List α
  | [] => []
  | k :: p => k.label :: (k.sib.toList ++ labels p)

/-- The labels to the left of the hole. -/
def before : Path α → List α
  | [] => []
  | k :: p => match k.side with
    | .left => before p
    | .right => before p ++ (k.sib.toList ++ [k.label])

/-- The labels to the right of the hole. -/
def after : Path α → List α
  | [] => []
  | k :: p => match k.side with
    | .left => k.label :: k.sib.toList ++ after p
    | .right => after p

theorem labels_append (p q : Path α) : labels (p ++ q) = labels p ++ labels q := by
  induction p with
  | nil => rfl
  | cons k p ih => simp [labels, ih]

theorem before_append (p q : Path α) : before (p ++ q) = before q ++ before p := by
  induction p with
  | nil => simp [before]
  | cons k p ih =>
    cases hs : k.side with
    | left => simp [before, hs, ih]
    | right => simp [before, hs, ih]

/-- A path around a hole of black height `n`. -/
def Fits : Path α → Nat → Prop
  | [], _ => True
  | k :: p, n => k.sib.Bal n ∧
      (k.color = .red → k.sib.color = .black ∧ color p = .black) ∧
      Fits p (n + k.color.weight)

/-- A red node on a path hangs from a black one. -/
theorem Fits.exists_black {k : Crumb α} {p : Path α} {n : Nat} (h : Fits (k :: p) n)
    (hk : k.color = .red) : ∃ g q, p = g :: q ∧ g.color = .black := by
  have hp := (h.2.1 hk).2
  cases p with
  | nil => cases hp
  | cons g q => exact ⟨g, q, rfl, hp⟩

end Path

variable {p : Path α} {s : Side} {c : Color} {a : α} {t u : CTree α} {n : Nat}

/-- The same tree, seen from the subtree beside the hole. -/
theorem plug_sib (k : Crumb α) :
    plug (k :: p) t = plug (⟨k.side.other, k.color, k.label, t⟩ :: p) k.sib := by
  rw [plug, plug, join_other]

theorem plug_append (p q : Path α) : plug (p ++ q) t = plug q (plug p t) := by
  induction p generalizing t with
  | nil => rfl
  | cons k p ih => exact ih

/-- The reading order of the whole depends on that of the part alone. -/
theorem toList_plug_congr (h : t.toList = u.toList) : (plug p t).toList = (plug p u).toList := by
  induction p generalizing t u with
  | nil => exact h
  | cons k p ih =>
    apply ih
    rw [toList_join, toList_join, h]

theorem toList_plug_perm : (plug p t).toList.Perm (Path.labels p ++ t.toList) := by
  induction p generalizing t with
  | nil => exact .refl _
  | cons k p ih =>
    refine ih.trans ?_
    have hj : (join k.side k.color k.label t k.sib).toList.Perm
        (t.toList ++ k.label :: k.sib.toList) := by
      rw [toList_join]
      exact (Side.cat_perm ..).trans (.append_left _ (Side.cat_perm ..))
    refine (hj.append_left _).trans ?_
    refine List.perm_append_comm.trans ?_
    rw [Path.labels, List.append_assoc, List.cons_append, List.cons_append, List.append_assoc]
    refine List.perm_append_comm.trans ?_
    rw [List.cons_append, List.append_assoc]

theorem toList_plug : (plug p t).toList = Path.before p ++ t.toList ++ Path.after p := by
  induction p generalizing t with
  | nil => simp [plug, Path.before, Path.after]
  | cons k p ih =>
    rw [plug, ih]
    cases hs : k.side with
    | left => simp [join, toList, Path.before, Path.after, hs]
    | right => simp [join, toList, Path.before, Path.after, hs]

/-- What fits a path, and is black where the path ends in red, makes a red-black tree. -/
theorem redBlack_plug (hp : Path.Fits p n) (ht : t.Bal n)
    (hc : Path.color p = .red → t.color = .black) : (plug p t).RedBlack := by
  induction p generalizing t n with
  | nil => exact ⟨hc rfl, n, ht⟩
  | cons k p ih =>
    obtain ⟨hsib, hred, hrest⟩ := hp
    apply ih hrest
    · exact bal_join.mpr ⟨fun hk => ⟨hc hk, (hred hk).1⟩, n, rfl, ht, hsib⟩
    · intro h
      rw [color_join]
      rcases k.color.eq_red_or_black with hk | hk
      · rw [(hred hk).2] at h
        cases h
      · exact hk

/-- A subtree of a red-black tree fits the path to it. -/
theorem CTree.RedBlack.fits (h : (plug p t).RedBlack) :
    ∃ n, Path.Fits p n ∧ t.Bal n ∧ (Path.color p = .red → t.color = .black) := by
  induction p generalizing t with
  | nil =>
    obtain ⟨hc, n, hb⟩ := h
    exact ⟨n, trivial, hb, fun _ => hc⟩
  | cons k p ih =>
    obtain ⟨n, hp, hb, hc⟩ := ih h
    obtain ⟨hred, m, rfl, ht, hsib⟩ := bal_join.mp hb
    rw [color_join] at hc
    refine ⟨m, ⟨hsib, fun hk => ⟨(hred hk).2, ?_⟩, hp⟩, ht, fun hk => (hred hk).1⟩
    rcases (Path.color p).eq_red_or_black with hpc | hpc
    · rw [hc hpc] at hk
      cases hk
    · exact hpc

/-- Every label is the root of a subtree. -/
theorem CTree.exists_plug {a : α} (ha : a ∈ t.toList) :
    ∃ p c u v, t = plug p (join .left c a u v) := by
  induction t with
  | leaf => cases ha
  | node c l b r ihl ihr =>
    simp only [toList, List.mem_append, List.mem_cons] at ha
    rcases ha with ha | rfl | ha
    · obtain ⟨p, c', u, v, rfl⟩ := ihl ha
      exact ⟨p ++ [⟨.left, c, b, r⟩], c', u, v, by rw [plug_append]; rfl⟩
    · exact ⟨[], c, l, r, rfl⟩
    · obtain ⟨p, c', u, v, rfl⟩ := ihr ha
      exact ⟨p ++ [⟨.right, c, b, l⟩], c', u, v, by rw [plug_append]; rfl⟩

/-- What fits a path does not depend on its labels. -/
theorem Path.fits_relabel {q : Path α} {b : α} (h : Path.Fits (q ++ ⟨s, c, a, u⟩ :: p) n) :
    Path.Fits (q ++ ⟨s, c, b, u⟩ :: p) n ∧
      Path.color (q ++ ⟨s, c, b, u⟩ :: p) = Path.color (q ++ ⟨s, c, a, u⟩ :: p) := by
  induction q generalizing n with
  | nil => exact ⟨h, rfl⟩
  | cons k q ih =>
    obtain ⟨hk, hred, hq⟩ := h
    obtain ⟨hf, hc⟩ := ih hq
    exact ⟨⟨hk, fun hr => ⟨(hred hr).1, hc.trans (hred hr).2⟩, hf⟩, rfl⟩

/-- The length of a path and the height under it stay within the height of the tree. -/
theorem length_add_height_le : p.length + t.height ≤ (plug p t).height := by
  induction p generalizing t with
  | nil => exact (Nat.zero_add _).le
  | cons k p ih =>
    refine le_trans ?_ ih
    have hj : t.height + 1 ≤ (join k.side k.color k.label t k.sib).height := by
      cases k.side <;> simp only [join, height] <;> omega
    simp only [List.length_cons]
    omega

end RB

end NginxEngine
