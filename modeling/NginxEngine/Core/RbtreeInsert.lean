import Mathlib.Data.List.Sort
import NginxEngine.Core.Rbtree

/-!
# Insertion into the red-black tree

The rebalancing loop of `ngx_rbtree_insert` climbs from the new node. At each turn the tree
in memory is a red-black tree but for one place: the node the loop has reached is red, and
so may be its parent. The path above that node is what the induction is on.

## Main results

- `Rbtree.insertFixup_shape` — the loop ends and leaves a red-black tree
-/

namespace NginxEngine.Core

open NginxEngine.RB
open NginxEngine.RB.CTree (join)

namespace Rbtree

variable {κ : Type} {t t₀ : Rbtree κ} {l : List Ptr} {s : Side} {top : Ptr} {p : Path Ptr}
  {k g : Crumb Ptr} {T U : CTree Ptr} {n : Nat}

/-! ### One turn of the loop -/

/-- A red uncle: the reds move two levels up. -/
theorem insertCase_red (h : Shape t₀ l top t (plug (k :: g :: p) T)) (hT : T ≠ .leaf)
    (hu : g.sib.color = .red) :
    ∃ t', t.insertCase g.side (T.ptr t.sentinel) = (t', g.label) ∧
      Shape t₀ l top t' (plug p (join g.side .red g.label
        (join k.side .black k.label T k.sib) g.sib.blacken)) := by
  obtain ⟨u, A, B, hu'⟩ := CTree.exists_join_red .left hu
  have hg : Shape t₀ l top t (plug (g :: p) (join k.side k.color k.label T k.sib)) := h
  have hup : g.sib.ptr t.sentinel = u := by rw [hu', CTree.ptr_join]
  have e₁ : t.child g.side.other g.label = u := (child_other_eq hg.crumb).trans hup
  have e₂ : t.isRed u = true := by
    rw [← hup, hg.sib.isRed_ptr, hu]
    rfl
  have p₀ : t.parent (T.ptr t.sentinel) = k.label := h.parent_ptr hT
  have p₁ : t.parent k.label = g.label := parent_eq h.crumb
  refine ⟨((t.setColor k.label .black).setColor u .black).setColor g.label .red, ?_, ?_⟩
  · rw [insertCase]
    simp only [parent_setColor, p₀, p₁, e₁, e₂, if_true]
  · have h₁ := (hg.recolor .black).recolor_sib hu' .black
    have h₂ := Shape.recolor (p := p) h₁ .red
    rw [hu', CTree.blacken_join]
    exact h₂

/-- The end of a turn with a black uncle: one rotation, and the tree is in order. -/
theorem outerRotation_shape {x q : Ptr} {B : CTree Ptr} {c : Color}
    (h : Shape t₀ l top t (plug (⟨s, .red, x, B⟩ :: ⟨s, c, q, U⟩ :: p) T)) (hT : T ≠ .leaf) :
    Shape t₀ l top (t.outerRotation s (T.ptr t.sentinel))
      (plug (⟨s, .black, x, join s .red q B U⟩ :: p) T) := by
  have p₀ : t.parent (T.ptr t.sentinel) = x := h.parent_ptr hT
  have p₁ : t.parent x = q := parent_eq h.crumb
  have h₁ : Shape t₀ l top (t.setColor x .black)
      (plug (⟨s, c, q, U⟩ :: p) (join s .black x T B)) := Shape.recolor (p := ⟨s, c, q, U⟩ :: p) h _
  have h₂ : Shape t₀ l top ((t.setColor x .black).setColor q .red)
      (plug p (join s .red q (join s .black x T B) U)) := Shape.recolor (p := p) h₁ _
  have h₃ : Shape t₀ l top ((t.setColor x .black).setColor q .red)
      (plug p (join s.other .red q U (join s.other .black x B T))) := by
    rwa [CTree.join_other, CTree.join_other]
  have h₄ := h₃.rotate
  rw [CTree.join_other, CTree.join_other] at h₄
  rw [outerRotation]
  simp only [parent_setColor, p₀, p₁]
  exact h₄

/-- A black uncle and `node` on the outside. -/
theorem insertCase_outer {x q : Ptr} {B : CTree Ptr} {c : Color}
    (h : Shape t₀ l top t (plug (⟨s, .red, x, B⟩ :: ⟨s, c, q, U⟩ :: p) T)) (hT : T ≠ .leaf)
    (hu : U.color = .black) :
    ∃ t', t.insertCase s (T.ptr t.sentinel) = (t', T.ptr t.sentinel) ∧
      Shape t₀ l top t' (plug (⟨s, .black, x, join s .red q B U⟩ :: p) T) := by
  have p₀ : t.parent (T.ptr t.sentinel) = x := h.parent_ptr hT
  have p₁ : t.parent x = q := parent_eq h.crumb
  have hg : Shape t₀ l top t (plug (⟨s, c, q, U⟩ :: p) (join s .red x T B)) := h
  have e₁ : t.child s.other q = U.ptr t.sentinel := child_other_eq hg.crumb
  have e₂ : t.isRed (U.ptr t.sentinel) = false := by
    rw [hg.sib.isRed_ptr, hu]
    rfl
  have e₃ : T.ptr t.sentinel ≠ t.child s.other x := by
    rw [child_other_eq h.crumb]
    exact hg.holds.ptr_ne hT
  refine ⟨t.outerRotation s (T.ptr t.sentinel), ?_, outerRotation_shape h hT⟩
  rw [insertCase]
  simp only [p₀, p₁, e₁, e₂, if_neg e₃, Bool.false_eq_true, if_false]

/-- A black uncle and `node` on the inside: a first rotation brings it to the outside. -/
theorem insertCase_inner {x y q : Ptr} {A B C : CTree Ptr} {c : Color}
    (h : Shape t₀ l top t
      (plug (⟨s.other, .red, x, A⟩ :: ⟨s, c, q, U⟩ :: p) (join s .red y B C)))
    (hu : U.color = .black) :
    ∃ t', t.insertCase s y = (t', x) ∧ Shape t₀ l top t'
      (plug (⟨s, .black, y, join s .red q C U⟩ :: p) (join s .red x A B)) := by
  have p₀ : t.parent y = x := parent_eq h.cell
  have p₁ : t.parent x = q := parent_eq h.crumb
  have hg : Shape t₀ l top t
    (plug (⟨s, c, q, U⟩ :: p) (join s.other .red x (join s .red y B C) A)) := h
  have e₁ : t.child s.other q = U.ptr t.sentinel := child_other_eq hg.crumb
  have e₂ : t.isRed (U.ptr t.sentinel) = false := by
    rw [hg.sib.isRed_ptr, hu]
    rfl
  have e₃ : y = t.child s.other x := by
    have hx := child_eq h.crumb
    rw [CTree.ptr_join] at hx
    exact hx.symm
  rw [CTree.join_other] at hg
  have h₁ : Shape t₀ l top (t.rotate s x)
      (plug (⟨s, .red, y, C⟩ :: ⟨s, c, q, U⟩ :: p) (join s .red x A B)) := hg.rotate
  have h₂ := outerRotation_shape h₁ CTree.join_ne_leaf
  rw [CTree.ptr_join] at h₂
  refine ⟨(t.rotate s x).outerRotation s x, ?_, h₂⟩
  rw [insertCase]
  simp only [p₀, p₁, e₁, e₂, if_pos e₃, Bool.false_eq_true, if_false]

/-! ### The loop -/

/-- Under a black parent the loop stops. -/
theorem insertFixup_black {fuel : Nat} (h : Shape t₀ l top t (plug (k :: p) T)) (hT : T ≠ .leaf)
    (hk : k.color = .black) : insertFixup (fuel + 1) t (T.ptr t.sentinel) = some t := by
  have hp : t.isRed (t.parent (T.ptr t.sentinel)) = false := by
    rw [h.parent_ptr hT, isRed, Path.parent, color_eq h.crumb, hk]
    rfl
  rw [insertFixup, if_neg fun hc => Bool.false_ne_true (hp.symm.trans hc.2)]

/-- Under a red parent it makes a turn, on the side of the grandparent the parent is on. -/
theorem insertFixup_red {fuel : Nat} (h : Shape t₀ l top t (plug (k :: g :: p) T))
    (hT : T ≠ .leaf) (hk : k.color = .red) :
    insertFixup (fuel + 1) t (T.ptr t.sentinel) =
      insertFixup fuel (t.insertCase g.side (T.ptr t.sentinel)).1
        (t.insertCase g.side (T.ptr t.sentinel)).2 := by
  have hg : Shape t₀ l top t (plug (g :: p) (join k.side k.color k.label T k.sib)) := h
  have hpar : t.parent (T.ptr t.sentinel) = k.label := h.parent_ptr hT
  have hred : t.isRed k.label = true := by
    rw [isRed, color_eq h.crumb, hk]
    rfl
  have hside := hg.side_eq (hg.ptr_ne_sib CTree.join_ne_leaf)
  rw [CTree.ptr_join] at hside
  rw [insertFixup, hpar, if_pos ⟨h.ptr_ne_root, hred⟩, show t.parent k.label = g.label from
    parent_eq h.crumb, hside]

/-- After the last rotation the loop stops, and the tree is a red-black tree. -/
theorem insertFixup_last {x q : Ptr} {B : CTree Ptr} {m : Nat}
    (h : Shape t₀ l top t (plug (⟨s, .black, x, join s .red q B U⟩ :: p) T)) (hT : T ≠ .leaf)
    (hb : T.Bal n) (hB : B.color = .black ∧ B.Bal n) (hU : U.color = .black ∧ U.Bal n)
    (hf : Path.Fits p (n + 1)) :
    ∃ t' T', insertFixup (m + 1) t (T.ptr t.sentinel) = some t' ∧ Shape t₀ l top t' T' ∧
      T'.blacken.RedBlack := by
  have hfit : Path.Fits (⟨s, .black, x, join s .red q B U⟩ :: p) n :=
    ⟨CTree.bal_join_red.mpr ⟨hB.1, hU.1, hB.2, hU.2⟩, fun hc => (by cases hc), hf⟩
  have hrb := redBlack_plug hfit hb fun hc => by cases hc
  refine ⟨t, _, insertFixup_black h hT rfl, h, ?_⟩
  rwa [CTree.blacken_eq hrb.1]

/-- **Rebalancing.** From a red node that fits its path but for a red parent, the loop ends
    within the length of the path, with a tree whose root only has to be made black. -/
theorem insertFixup_shape {fuel : Nat} (h : Shape t₀ l top t (plug p T)) (hT : T.color = .red)
    (hb : T.Bal n) (hf : Path.Fits p n) (hfuel : p.length < fuel) :
    ∃ t' T', insertFixup fuel t (T.ptr t.sentinel) = some t' ∧ Shape t₀ l top t' T' ∧
      T'.blacken.RedBlack := by
  have hne := CTree.ne_leaf_of_red hT
  induction fuel generalizing t p T n with
  | zero => omega
  | succ fuel ih =>
    cases p with
    | nil =>
      have hroot : T.ptr t.sentinel = t.root := h.holds.root_eq.symm
      refine ⟨t, T, ?_, h, hb.redBlack_blacken⟩
      rw [insertFixup, if_neg fun hc => hc.1 hroot]
    | cons k p =>
      rcases k.color.eq_red_or_black with hk | hk
      · obtain ⟨g, q, rfl, hg⟩ := hf.exists_black hk
        obtain ⟨hsib, hred, hu, -, hq⟩ := hf
        rw [hk] at hu hq
        rw [hg] at hq
        rw [insertFixup_red h hne hk]
        rcases g.sib.color.eq_red_or_black with hc | hc
        · obtain ⟨t', he, h'⟩ := insertCase_red h hne hc
          have hs : t'.sentinel = t.sentinel := h'.sentinel_eq.trans h.sentinel_eq.symm
          have hbal : (join g.side .red g.label (join k.side .black k.label T k.sib)
              g.sib.blacken).Bal (n + 1) :=
            CTree.bal_join_red.mpr ⟨CTree.color_join, CTree.color_blacken,
              CTree.bal_join_black.mpr ⟨hb, hsib⟩, hu.blacken_red hc⟩
          have hgo := ih h' CTree.color_join hbal hq
            (by simp only [List.length_cons] at hfuel; omega) CTree.join_ne_leaf
          rw [CTree.ptr_join] at hgo
          rwa [he]
        · obtain ⟨sk, ck, x, B⟩ := k
          obtain ⟨s, cg, q', U⟩ := g
          obtain rfl : ck = .red := hk
          obtain ⟨m, rfl⟩ : ∃ m, fuel = m + 1 :=
            ⟨fuel - 1, by simp only [List.length_cons] at hfuel; omega⟩
          by_cases hsk : sk = s
          · subst hsk
            obtain ⟨t', he, h'⟩ := insertCase_outer h hne hc
            have hs : t'.sentinel = t.sentinel := h'.sentinel_eq.trans h.sentinel_eq.symm
            rw [he, ← hs]
            exact insertFixup_last h' hne hb ⟨(hred rfl).1, hsib⟩ ⟨hc, hu⟩ hq
          · obtain rfl := Side.eq_other_of_ne hsk
            obtain ⟨y, A, C, rfl⟩ := CTree.exists_join_red s hT
            obtain ⟨hA, hC, hbA, hbC⟩ := CTree.bal_join_red.mp hb
            obtain ⟨t', he, h'⟩ := insertCase_inner h hc
            have hgo := insertFixup_last (m := m) h' CTree.join_ne_leaf
              (CTree.bal_join_red.mpr ⟨(hred rfl).1, hA, hsib, hbA⟩) ⟨hC, hbC⟩ ⟨hc, hu⟩ hq
            rw [CTree.ptr_join] at hgo ⊢
            rwa [he]
      · have hrb : (plug (k :: p) T).RedBlack :=
          redBlack_plug hf hb fun hc => absurd (hk.symm.trans hc) (by decide)
        refine ⟨t, _, insertFixup_black h hne hk, h, ?_⟩
        rwa [CTree.blacken_eq hrb.1]

/-- The loop and the blackened root after it. -/
theorem rebalance_shape (fuel : Nat) (h : Shape t₀ l top t (plug p T)) (hT : T.color = .red)
    (hb : T.Bal n) (hf : Path.Fits p n) (hfuel : p.length < fuel) :
    ∃ t' T', ((insertFixup fuel t (T.ptr t.sentinel)).map fun t => t.setColor t.root .black) =
      some t' ∧ Shape t₀ l top t' T' ∧ T'.RedBlack := by
  obtain ⟨t', T', he, h', hrb⟩ := insertFixup_shape h hT hb hf hfuel
  have hbl := Shape.blacken (p := []) h'
  rw [← h'.holds.root_eq] at hbl
  exact ⟨_, _, by rw [he]; rfl, hbl, hrb⟩

/-! ### The place of the new node -/

section Place

variable {before : κ → κ → Bool} {node : Ptr}

/-- `before`, as the order in which the new node is compared with the others. -/
def Precedes (t : Rbtree κ) (before : κ → κ → Bool) (x y : Ptr) : Prop :=
  before (t.key x) (t.key y) = true

instance : DecidableRel (t.Precedes before) := fun x y =>
  inferInstanceAs (Decidable (before (t.key x) (t.key y) = true))

/-- The loop of the insert functions ends at a free place; what is to the left of it does
    not follow the new node, what is to the right does. -/
theorem descend_spec (fuel : Nat) (h : t.Holds top (plug p T)) (hT : T ≠ .leaf)
    (hbef : ∀ x ∈ Path.before p, ¬ t.Precedes before node x)
    (haft : ∀ x ∈ Path.after p, t.Precedes before node x)
    (hmono : (plug p T).toList.Pairwise fun x y =>
      t.Precedes before node x → t.Precedes before node y)
    (hfuel : T.height ≤ fuel) :
    ∃ k q, t.descend before node fuel (T.ptr t.sentinel) = some (k.label, k.side) ∧
      plug p T = plug (k :: q) .leaf ∧
      (∀ x ∈ Path.before (k :: q), ¬ t.Precedes before node x) ∧
      ∀ x ∈ Path.after (k :: q), t.Precedes before node x := by
  induction T generalizing p fuel with
  | leaf => exact absurd rfl hT
  | node c A a B ihA ihB =>
    have hcell : t.links a =
        .of .left (A.ptr t.sentinel) (B.ptr t.sentinel) (Path.parent top p) c :=
      Linked.cell (s := .left) h
    have hnil := h.nil_notMem
    simp only [mem_plug, CTree.toList, List.mem_append, List.mem_cons, not_or] at hnil
    simp only [CTree.height] at hfuel
    obtain ⟨m, rfl⟩ : ∃ m, fuel = m + 1 := ⟨fuel - 1, by omega⟩
    have hpw := hmono
    rw [toList_plug, List.pairwise_append, List.pairwise_append, CTree.toList,
      List.pairwise_append, List.pairwise_cons] at hpw
    obtain ⟨⟨-, ⟨-, ⟨haB, -⟩, hAa⟩, -⟩, -, -⟩ := hpw
    rw [CTree.ptr, descend]
    by_cases hp : before (t.key node) (t.key a) = true
    · have haft' : ∀ x ∈ Path.after (⟨.left, c, a, B⟩ :: p), t.Precedes before node x := by
        intro x hx
        simp only [Path.after, List.cons_append, List.mem_cons, List.mem_append] at hx
        rcases hx with rfl | hx | hx
        · exact hp
        · exact haB x hx hp
        · exact haft x hx
      rw [if_pos hp, child_eq hcell]
      by_cases hA : A = .leaf
      · subst hA
        exact ⟨⟨.left, c, a, B⟩, p, if_pos rfl, rfl, hbef, haft'⟩
      · rw [if_neg fun e => hA ((CTree.ptr_eq_nil hnil.2.1).mp e)]
        exact ihA (p := ⟨.left, c, a, B⟩ :: p) m h hA hbef haft' hmono (by omega)
    · have hbef' : ∀ x ∈ Path.before (⟨.right, c, a, A⟩ :: p), ¬ t.Precedes before node x := by
        intro x hx
        simp only [Path.before, List.mem_append, List.mem_singleton] at hx
        rcases hx with hx | hx | rfl
        · exact hbef x hx
        · exact fun hxp => hp (hAa x hx a List.mem_cons_self hxp)
        · exact hp
      have hchild : t.child .right a = B.ptr t.sentinel := child_other_eq hcell
      rw [if_neg hp, hchild]
      by_cases hB : B = .leaf
      · subst hB
        exact ⟨⟨.right, c, a, A⟩, p, if_pos rfl, rfl, hbef', haft⟩
      · rw [if_neg fun e => hB ((CTree.ptr_eq_nil hnil.2.2.2).mp e)]
        exact ihB (p := ⟨.right, c, a, A⟩ :: p) m h hB hbef' haft hmono (by omega)

/-- The memory with the new node under `a`. -/
theorem attach_eq {a : Ptr} (hne : node ≠ a) :
    t.attach node a s = { t with
      links := Function.update (Function.update t.links a ((t.links a).setChild s node))
        node (.of .left t.sentinel t.sentinel a .red) } := by
  rw [attach]
  simp only [setChild, setParent, setColor, Function.update_idem, Function.update_self,
    Function.update_of_ne hne, Links.setChild]
  rfl

theorem attach_holds (h : t.Holds top (plug (k :: p) .leaf))
    (hn : node ∉ (plug (k :: p) (.leaf : CTree Ptr)).toList) (hs : node ≠ t.sentinel) :
    (t.attach node k.label k.side).Holds top
      (plug (k :: p) (join .left .red node .leaf .leaf)) := by
  have hne : node ≠ k.label := by
    rintro rfl
    exact hn (mem_plug.mpr (.inl (by simp [Path.labels])))
  rw [attach_eq hne]
  exact h.graft hn hs

theorem orderedInsert_append {r : Ptr → Ptr → Prop} [DecidableRel r] {a : Ptr} {xs ys : List Ptr}
    (hxs : ∀ x ∈ xs, ¬ r a x) (hys : ∀ y ∈ ys, r a y) :
    (xs ++ ys).orderedInsert r a = xs ++ a :: ys := by
  induction xs with
  | nil =>
    cases ys with
    | nil => rfl
    | cons y ys => exact if_pos (hys y List.mem_cons_self)
  | cons x xs ih =>
    rw [List.cons_append, List.orderedInsert_of_not_le _ _ (hxs x List.mem_cons_self),
      ih fun z hz => hxs z (List.mem_cons_of_mem _ hz), List.cons_append]

/-- The keys are no part of the shape of a tree. -/
theorem InOrder.setKey (h : t.InOrder l) (key : Ptr → κ) : InOrder { t with key := key } l :=
  ⟨h.tree, h.black⟩

/-- Into an empty tree the new node goes as a black root. -/
theorem insert_empty (before : κ → κ → Bool) (h : t.InOrder []) (hs : node ≠ t.sentinel) :
    ∃ t', t.insert before 0 node = some t' ∧ t'.InOrder [node] ∧
      t'.sentinel = t.sentinel ∧ t'.key = t.key ∧ ∀ v, v ∉ [node] → t'.links v = t.links v := by
  let t' : Rbtree κ := { t with
    root := node
    links := Function.update t.links node (.of .left t.sentinel t.sentinel NULL .black) }
  have hcell : t'.links node = .of .left t.sentinel t.sentinel NULL .black :=
    Function.update_self ..
  have hother : ∀ v, v ≠ node → t'.links v = t.links v := fun v hv =>
    Function.update_of_ne hv _ _
  refine ⟨t', ?_, ⟨⟨NULL, join .left .black node .leaf .leaf, ?_, ?_, rfl⟩, ?_⟩, rfl, rfl, ?_⟩
  · rw [insert, if_pos (h.root_eq_iff.mpr rfl)]
    simp only [setChild, setParent, setColor, Function.update_idem, Function.update_self,
      Links.setChild]
    rfl
  · exact ⟨rfl, holds_join.mpr ⟨hcell, trivial, trivial⟩, List.nodup_singleton _,
      fun hm => hs (List.mem_singleton.mp hm).symm⟩
  · exact ⟨rfl, 1, CTree.bal_join_black.mpr ⟨rfl, rfl⟩⟩
  · exact (congrArg Links.color (hother _ (Ne.symm hs))).trans h.black
  · exact fun v hv => hother v fun e => hv (e ▸ List.mem_singleton_self _)

/-- **Insertion.** Within `2 * log₂ (n + 1) + 1` turns of each loop the new node is in the
    tree, behind all nodes that it does not precede; keys and all other memory stay. -/
theorem insert_spec {fuel : Nat} (h : t.InOrder l) (hn : node ∉ l) (hs : node ≠ t.sentinel)
    (hmono : l.Pairwise fun x y => t.Precedes before node x → t.Precedes before node y)
    (hfuel : 2 * Nat.log 2 (l.length + 1) < fuel) :
    ∃ t', t.insert before fuel node = some t' ∧
      t'.InOrder (l.orderedInsert (t.Precedes before) node) ∧
      t'.sentinel = t.sentinel ∧ t'.key = t.key ∧
      ∀ v, v ∉ node :: l → t'.links v = t.links v := by
  by_cases hroot : t.root = t.sentinel
  · obtain rfl : l = [] := h.root_eq_iff.mp hroot
    obtain ⟨t', he, ht'⟩ := insert_empty before h hs
    refine ⟨t', ?_, ht'⟩
    rwa [insert, if_pos hroot] at he ⊢
  · obtain ⟨⟨top, T, hh, hrb, rfl⟩, hblack⟩ := h
    have hT : T ≠ .leaf := by
      rintro rfl
      exact hroot hh.root_eq
    have hheight := hrb.height_le
    obtain ⟨k, q, hd, hp, hbef, haft⟩ :=
      descend_spec (p := []) fuel hh hT (by simp [Path.before]) (by simp [Path.after]) hmono
        (by omega)
    rw [plug] at hp
    rw [insert, if_neg hroot, hh.root_eq, hd, Option.bind_some]
    rw [hp] at hh hn hrb hheight hfuel ⊢
    have hne : node ≠ k.label := by
      rintro rfl
      exact hn (mem_plug.mpr (.inl (by simp [Path.labels])))
    have hframe : ∀ v, v ∉ node :: (plug (k :: q) (.leaf : CTree Ptr)).toList →
        (t.attach node k.label k.side).links v = t.links v := by
      intro v hv
      rw [List.mem_cons, not_or] at hv
      rw [attach_eq hne]
      refine (Function.update_of_ne hv.1 _ _).trans (Function.update_of_ne ?_ _ _)
      rintro rfl
      exact hv.2 (mem_plug.mpr (.inl (by simp [Path.labels])))
    have hord : (plug (k :: q) (join .left .red node .leaf .leaf)).toList =
        (plug (k :: q) .leaf).toList.orderedInsert (t.Precedes before) node := by
      rw [toList_plug, toList_plug, CTree.toList, List.append_nil, orderedInsert_append hbef haft,
        CTree.toList_join]
      simp [Side.cat, CTree.toList]
    have hsh : Shape (t.attach node k.label k.side)
        ((plug (k :: q) .leaf).toList.orderedInsert (t.Precedes before) node) top
        (t.attach node k.label k.side) (plug (k :: q) (join .left .red node .leaf .leaf)) := by
      refine ⟨attach_holds hh hn hs, hord, ?_, rfl, rfl, fun _ _ => rfl⟩
      rw [← hblack]
      refine congrArg Links.color (hframe _ ?_)
      rw [List.mem_cons, not_or]
      exact ⟨Ne.symm hs, hh.nil_notMem⟩
    -- the new node is red and has no black node under it
    obtain ⟨n, hfit, hleaf, -⟩ := hrb.fits
    obtain rfl : n = 0 := hleaf
    have hlen := length_add_height_le (p := k :: q) (t := (.leaf : CTree Ptr))
    obtain ⟨t', T', he, h', hrb'⟩ := rebalance_shape fuel hsh CTree.color_join
      (CTree.bal_join_red.mpr ⟨rfl, rfl, rfl, rfl⟩) hfit (by omega)
    rw [CTree.ptr_join] at he
    refine ⟨t', he, h'.inOrder hrb', h'.sentinel_eq, h'.key_eq, fun v hv => ?_⟩
    rw [h'.frame v ?_, hframe v hv]
    rwa [List.mem_orderedInsert, ← List.mem_cons]

end Place

end Rbtree

end NginxEngine.Core
