import NginxEngine.Core.Rbtree

/-!
# Deletion from the red-black tree

After `ngx_rbtree_delete` has taken a black node out of its place, the subtree that has come
up in its stead is one black node short. The fixup loop climbs from there; the path above
is again what the induction is on. That subtree may be empty: then `temp` is the sentinel,
whose parent the deletion has set for this purpose.

## Main results

- `Rbtree.deleteFixup_shape` — the loop ends and leaves a red-black tree
-/

namespace NginxEngine.Core

open NginxEngine.RB
open NginxEngine.RB.CTree (join)

namespace Rbtree

variable {κ : Type} {t t₀ : Rbtree κ} {l : List Ptr} {s : Side} {c : Color} {top x w : Ptr}
  {p : Path Ptr} {k : Crumb Ptr} {T A B : CTree Ptr} {n : Nat}

/-! ### One turn of the fixup loop -/

/-- A red sibling: a rotation puts one of its black children in its place. -/
theorem redSibling_red (h : Shape t₀ l top t (plug (⟨s, c, x, join s .red w A B⟩ :: p) T))
    (hpar : t.parent (T.ptr t.sentinel) = x) :
    Shape t₀ l top (t.redSibling s (T.ptr t.sentinel))
      (plug (⟨s, .red, x, A⟩ :: ⟨s, .black, w, B⟩ :: p) T) := by
  have e₁ : t.child s.other x = w := by
    have hc := child_other_eq h.crumb
    rwa [CTree.ptr_join] at hc
  have e₂ : t.isRed w = true := by
    have hc := h.sib.isRed_ptr
    rwa [CTree.ptr_join, CTree.color_join] at hc
  have h₁ := Shape.recolor_sib h rfl .black
  have h₂ : Shape t₀ l top ((t.setColor w .black).setColor x .red)
      (plug p (join s .red x T (join s .black w A B))) := Shape.recolor (p := p) h₁ .red
  rw [redSibling, hpar, e₁]
  simp only [e₂, if_true, parent_setColor, hpar]
  exact h₂.rotate

theorem redSibling_black (h : Shape t₀ l top t (plug (⟨s, c, x, join s .black w A B⟩ :: p) T))
    (hpar : t.parent (T.ptr t.sentinel) = x) : t.redSibling s (T.ptr t.sentinel) = t := by
  have e₁ : t.child s.other x = w := by
    have hc := child_other_eq h.crumb
    rwa [CTree.ptr_join] at hc
  have e₂ : t.isRed w = false := by
    have hc := h.sib.isRed_ptr
    rwa [CTree.ptr_join, CTree.color_join] at hc
  rw [redSibling, hpar, e₁]
  simp only [e₂, Bool.false_eq_true, if_false]

/-- The sibling's red child is on the near side: a rotation moves it to the far side. -/
theorem redFar_near {y : Ptr} {A₁ A₂ : CTree Ptr} {c' : Color}
    (h : Shape t₀ l top t (plug (⟨s, c, x, join s c' w (join s .red y A₁ A₂) B⟩ :: p) T))
    (hB : B.color = .black) :
    Shape t₀ l top (t.redFar s w)
      (plug (⟨s, c, x, join s .black y A₁ (join s .red w A₂ B)⟩ :: p) T) := by
  have hw : Shape t₀ l top t
      (plug (⟨s, c', w, B⟩ :: ⟨s.other, c, x, T⟩ :: p) (join s .red y A₁ A₂)) := h.sib
  have e₁ : t.child s.other w = B.ptr t.sentinel := child_other_eq hw.crumb
  have e₂ : t.child s w = y := by
    have hc := child_eq hw.crumb
    rwa [CTree.ptr_join] at hc
  have e₃ : t.isBlack (B.ptr t.sentinel) = true := by
    rw [isBlack, hw.sib.isRed_ptr, hB]
    rfl
  have h₁ := hw.recolor .black
  have h₂ : Shape t₀ l top ((t.setColor y .black).setColor w .red)
      (plug (⟨s.other, c, x, T⟩ :: p) (join s.other .red w B (join s.other .black y A₂ A₁))) := by
    rw [CTree.join_other, CTree.join_other]
    exact Shape.recolor (p := ⟨s.other, c, x, T⟩ :: p) h₁ .red
  have h₃ := h₂.rotate.sib
  rw [CTree.join_other, CTree.join_other, Side.other_other] at h₃
  rw [redFar, e₁, e₂]
  simp only [e₃, if_true]
  exact h₃

theorem redFar_far {c' : Color} (h : Shape t₀ l top t (plug (⟨s, c, x, join s c' w A B⟩ :: p) T))
    (hB : B.color = .red) : t.redFar s w = t := by
  have hw : Shape t₀ l top t (plug (⟨s, c', w, B⟩ :: ⟨s.other, c, x, T⟩ :: p) A) := h.sib
  have e₁ : t.child s.other w = B.ptr t.sentinel := child_other_eq hw.crumb
  have e₂ : t.isBlack (B.ptr t.sentinel) = false := by
    rw [isBlack, hw.sib.isRed_ptr, hB]
    rfl
  rw [redFar, e₁]
  simp only [e₂, Bool.false_eq_true, if_false]

/-- The last rotation: the sibling takes the place and the colour of the parent. -/
theorem lastRotation_shape {c' : Color}
    (h : Shape t₀ l top t (plug (⟨s, c, x, join s c' w A B⟩ :: p) T))
    (hpar : t.parent (T.ptr t.sentinel) = x) :
    Shape t₀ l top (t.lastRotation s (T.ptr t.sentinel))
      (plug p (join s c w (join s .black x T A) B.blacken)) := by
  have e₁ : t.child s.other x = w := by
    have hc := child_other_eq h.crumb
    rwa [CTree.ptr_join] at hc
  have e₂ : t.color x = c := color_eq h.crumb
  have e₃ : t.child s.other w = B.ptr t.sentinel := by
    have hw : Shape t₀ l top t (plug (⟨s, c', w, B⟩ :: ⟨s.other, c, x, T⟩ :: p) A) := h.sib
    exact child_other_eq hw.crumb
  have h₁ := Shape.recolor_sib h rfl c
  have h₂ : Shape t₀ l top ((t.setColor w c).setColor x .black)
      (plug (⟨s, .black, x, join s c w A B⟩ :: p) T) := Shape.recolor (p := p) h₁ .black
  have h₃ : Shape t₀ l top ((t.setColor w c).setColor x .black)
      (plug (⟨s, c, w, B⟩ :: ⟨s.other, .black, x, T⟩ :: p) A) := h₂.sib
  have h₄ := h₃.sib.blacken.sib
  rw [Side.other_other] at h₄
  have h₅ : Shape t₀ l top
      (((t.setColor w c).setColor x .black).setColor (B.ptr t.sentinel) .black)
      (plug (⟨s.other, .black, x, T⟩ :: p) (join s c w A B.blacken)) := h₄
  have h₆ := h₅.sib
  rw [Side.other_other] at h₆
  have h₇ : Shape t₀ l top
      (((t.setColor w c).setColor x .black).setColor (B.ptr t.sentinel) .black)
      (plug p (join s .black x T (join s c w A B.blacken))) := h₆
  rw [lastRotation]
  simp only [hpar, e₁, e₂, child_setColor, parent_setColor, e₃]
  exact h₇.rotate

/-- What a turn does from where the sibling is black: a black node less under both children,
    or a tree that is in order. -/
inductive BlackSibling (t₀ : Rbtree κ) (l : List Ptr) (top : Ptr) (p : Path Ptr) (s : Side)
    (c : Color) (x w : Ptr) (T A B : CTree Ptr) : Rbtree κ × Ptr → Prop
  | up {t : Rbtree κ} :
      Shape t₀ l top t (plug p (join s c x T (join s .red w A B))) → A.color = .black →
      B.color = .black → BlackSibling t₀ l top p s c x w T A B (t, x)
  | done {t : Rbtree κ} {T' : CTree Ptr} :
      Shape t₀ l top t T' → T'.RedBlack → BlackSibling t₀ l top p s c x w T A B (t, t.root)

/-- A tree that is put in order by the last rotation. -/
theorem lastRotation_redBlack {c' : Color}
    (h : Shape t₀ l top t (plug (⟨s, c, x, join s c' w A B⟩ :: p) T))
    (hleaf : T = .leaf → t₀.parent t₀.sentinel = x) (hT : T.Bal n) (hA : A.Bal n)
    (hB : B.blacken.Bal (n + 1)) (hc : c = .red → Path.color p = .black)
    (hp : Path.Fits p (n + 1 + c.weight)) :
    ∃ T', Shape t₀ l top (t.lastRotation s (T.ptr t.sentinel)) T' ∧ T'.RedBlack := by
  refine ⟨_, lastRotation_shape h (h.parent_ptr_of_leaf hleaf), redBlack_plug hp ?_ fun hpc => ?_⟩
  · exact CTree.bal_join.mpr ⟨fun _ => ⟨CTree.color_join, CTree.color_blacken⟩, n + 1, rfl,
      CTree.bal_join_black.mpr ⟨hT, hA⟩, hB⟩
  · rw [CTree.color_join]
    rcases c.eq_red_or_black with hr | hb
    · rw [hc hr] at hpc
      cases hpc
    · exact hb

theorem blackSibling_spec (h : Shape t₀ l top t (plug (⟨s, c, x, join s .black w A B⟩ :: p) T))
    (hleaf : T = .leaf → t₀.parent t₀.sentinel = x) (hT : T.Bal n) (hA : A.Bal n) (hB : B.Bal n)
    (hc : c = .red → Path.color p = .black) (hp : Path.Fits p (n + 1 + c.weight)) :
    BlackSibling t₀ l top p s c x w T A B (t.blackSibling s (T.ptr t.sentinel)) := by
  have hpar : t.parent (T.ptr t.sentinel) = x := h.parent_ptr_of_leaf hleaf
  have hw : Shape t₀ l top t (plug (⟨s, .black, w, B⟩ :: ⟨s.other, c, x, T⟩ :: p) A) := h.sib
  have e₁ : t.child s.other x = w := by
    have hc := child_other_eq h.crumb
    rwa [CTree.ptr_join] at hc
  -- the order in which the two children are looked at does not matter
  have htest : (t.isBlack (t.child .left w) && t.isBlack (t.child .right w)) =
      (!decide (A.color = .red) && !decide (B.color = .red)) := by
    have hl := hw.isRed_ptr
    have hr := hw.sib.isRed_ptr
    rw [← child_eq hw.crumb] at hl
    rw [← child_other_eq hw.crumb] at hr
    rw [← hl, ← hr]
    cases s with
    | left => rfl
    | right => exact Bool.and_comm _ _
  rw [blackSibling, hpar, e₁]
  simp only [htest, parent_setColor, hpar]
  rcases B.color.eq_red_or_black with hBc | hBc
  · -- the far child is red
    rw [redFar_far h hBc]
    obtain ⟨T', h', hrb⟩ := lastRotation_redBlack h hleaf hT hA (hB.blacken_red hBc) hc hp
    simp only [hBc, decide_true, Bool.not_true, Bool.and_false, Bool.false_eq_true, if_false]
    exact .done h' hrb
  · rcases A.color.eq_red_or_black with hAc | hAc
    · -- the near child alone is red
      obtain ⟨y, A₁, A₂, rfl⟩ := CTree.exists_join_red s hAc
      obtain ⟨-, -, hA₁, hA₂⟩ := CTree.bal_join_red.mp hA
      have h₁ := redFar_near h hBc
      have hs : (t.redFar s w).sentinel = t.sentinel := h₁.sentinel_eq.trans h.sentinel_eq.symm
      obtain ⟨T', h', hrb⟩ := lastRotation_redBlack h₁ hleaf hT hA₁
        (CTree.blacken_join ▸ CTree.bal_join_black.mpr ⟨hA₂, hB⟩) hc hp
      rw [hs] at h'
      simp only [CTree.color_join, decide_true, Bool.not_true, Bool.false_and, Bool.false_eq_true,
        if_false]
      exact .done h' hrb
    · simp only [hAc, hBc, show (Color.black = Color.red) = False from by simp, decide_false,
        Bool.not_false, Bool.and_self, if_true]
      exact .up (Shape.recolor_sib h rfl .red) hAc hBc

/-! ### The loop -/

/-- At a red node the loop stops. -/
theorem deleteFixup_red {m : Nat} (h : Shape t₀ l top t (plug p T)) (hT : T.color = .red) :
    deleteFixup (m + 1) t (T.ptr t.sentinel) = some (t, T.ptr t.sentinel) := by
  have hb : t.isBlack (T.ptr t.sentinel) = false := by
    rw [isBlack, h.isRed_ptr, hT]
    rfl
  rw [deleteFixup, if_neg fun hc => Bool.false_ne_true (hb.symm.trans hc.2)]

/-- At a black node that is not the root it makes a turn, on the side the node is on. -/
theorem deleteFixup_turn {m : Nat} (h : Shape t₀ l top t (plug (k :: p) T))
    (hT : T.color = .black) (hsib : k.sib ≠ .leaf)
    (hpar : t.parent (T.ptr t.sentinel) = k.label) :
    deleteFixup (m + 1) t (T.ptr t.sentinel) =
      deleteFixup m (t.deleteCase k.side (T.ptr t.sentinel)).1
        (t.deleteCase k.side (T.ptr t.sentinel)).2 := by
  have hb : t.isBlack (T.ptr t.sentinel) = true := by
    rw [isBlack, h.isRed_ptr, hT]
    rfl
  rw [deleteFixup, if_pos ⟨h.ptr_ne_root, hb⟩, hpar, h.side_eq (Ne.symm (h.sib.ptr_ne_sib hsib))]

/-- What the loop has to reach: a tree in order, but for the colour of the last node. -/
def Fixed (t₀ : Rbtree κ) (l : List Ptr) (top : Ptr) (r : Option (Rbtree κ × Ptr)) : Prop :=
  ∃ t x T, r = some (t, x) ∧ Shape t₀ l top (t.setColor x .black) T ∧ T.RedBlack

/-- After the last rotation the loop stops. -/
theorem fixed_done {m : Nat} (h : Shape t₀ l top t T) (hT : T.RedBlack) :
    Fixed t₀ l top (deleteFixup (m + 1) t t.root) := by
  have hb := Shape.blacken (p := []) h
  rw [← h.holds.root_eq] at hb
  refine ⟨t, t.root, T.blacken, ?_, hb, ?_⟩
  · rw [deleteFixup, if_neg fun hc => hc.1 rfl]
  · rwa [CTree.blacken_eq hT.1]

/-- Under a red parent the loop stops after one turn with a black sibling. -/
theorem fixed_red {m : Nat} {r : Rbtree κ × Ptr}
    (h : BlackSibling t₀ l top p s .red x w T A B r) (hT : T.Bal n) (hA : A.Bal n) (hB : B.Bal n)
    (hp : Path.Fits p (n + 1)) : Fixed t₀ l top (deleteFixup (m + 1) r.1 r.2) := by
  cases h with
  | done h' hrb => exact fixed_done h' hrb
  | @up t' h' hAc hBc =>
    have hstop := deleteFixup_red (m := m) h' CTree.color_join
    rw [CTree.ptr_join] at hstop
    refine ⟨_, _, _, hstop, h'.recolor .black, redBlack_plug hp ?_ fun _ => CTree.color_join⟩
    exact CTree.bal_join_black.mpr ⟨hT, CTree.bal_join_red.mpr ⟨hAc, hBc, hA, hB⟩⟩

/-- **Fixup.** From a subtree that is one black node short of what fits its path, the loop
    ends within the length of the path, with a red-black tree once the node it stops at is
    made black. -/
theorem deleteFixup_shape {fuel : Nat} (h : Shape t₀ l top t (plug p T))
    (hleaf : p ≠ [] → T = .leaf → t₀.parent t₀.sentinel = Path.parent top p)
    (hT : T.Bal n) (hp : Path.Fits p (n + 1)) (hfuel : p.length < fuel) :
    Fixed t₀ l top (deleteFixup fuel t (T.ptr t.sentinel)) := by
  induction fuel generalizing t p T n with
  | zero => omega
  | succ fuel ih =>
    cases p with
    | nil =>
      have hroot : T.ptr t.sentinel = t.root := h.holds.root_eq.symm
      refine ⟨t, T.ptr t.sentinel, _, ?_, h.blacken, hT.redBlack_blacken⟩
      rw [deleteFixup, if_neg fun hc => hc.1 hroot]
    | cons k p =>
      rcases T.color.eq_red_or_black with hTc | hTc
      · refine ⟨_, _, _, deleteFixup_red h hTc, h.blacken, ?_⟩
        exact redBlack_plug hp (hT.blacken_red hTc) fun _ => CTree.color_blacken
      · obtain ⟨s, c, x, S⟩ := k
        obtain ⟨hS, hred, hrest⟩ := hp
        have hlx : T = .leaf → t₀.parent t₀.sentinel = x := hleaf (List.cons_ne_nil _ _)
        have hpar : t.parent (T.ptr t.sentinel) = x := h.parent_ptr_of_leaf hlx
        obtain ⟨m, rfl⟩ : ∃ m, fuel = m + 1 :=
          ⟨fuel - 1, by simp only [List.length_cons] at hfuel; omega⟩
        rw [deleteFixup_turn h hTc hS.ne_leaf hpar, deleteCase]
        rcases S.color.eq_red_or_black with hSc | hSc
        · -- a red sibling has black children; one of them becomes the sibling
          obtain ⟨w, A, B, rfl⟩ := CTree.exists_join_red s hSc
          obtain ⟨hAc, hBc, hA, hB⟩ := CTree.bal_join_red.mp hS
          obtain ⟨a, A₁, A₂, rfl, hA₁, hA₂⟩ := hA.exists_join_black s hAc
          obtain rfl : c = .black := by
            rcases c.eq_red_or_black with hc | hc
            · rw [(hred hc).1] at hSc
              cases hSc
            · exact hc
          have h₁ := redSibling_red h hpar
          have hs : (t.redSibling s (T.ptr t.sentinel)).sentinel = t.sentinel :=
            h₁.sentinel_eq.trans h.sentinel_eq.symm
          have hfit : Path.Fits (⟨s, .black, w, B⟩ :: p) (n + 1) :=
            ⟨hB, fun hc => (by cases hc), hrest⟩
          have h₂ := blackSibling_spec h₁ hlx hT hA₁ hA₂ (fun _ => rfl) hfit
          rw [hs] at h₂
          exact fixed_red h₂ hT hA₁ hA₂ hfit
        · obtain ⟨w, A, B, rfl, hA, hB⟩ := hS.exists_join_black s hSc
          have h₂ := blackSibling_spec h hlx hT hA hB (fun hc => (hred hc).2) hrest
          rw [redSibling_black h hpar]
          rcases c.eq_red_or_black with rfl | rfl
          · exact fixed_red h₂ hT hA hB hrest
          · generalize t.blackSibling s (T.ptr t.sentinel) = r at h₂ ⊢
            cases h₂ with
            | done h' hrb => exact fixed_done h' hrb
            | @up t' h' hAc hBc =>
              have hup : (join s .black x T (join s .red w A B)).Bal (n + 1) :=
                CTree.bal_join_black.mpr ⟨hT, CTree.bal_join_red.mpr ⟨hAc, hBc, hA, hB⟩⟩
              have hgo := ih h' (fun _ hl => absurd hl CTree.join_ne_leaf) hup hrest
                (by simp only [List.length_cons] at hfuel; omega)
              rwa [CTree.ptr_join] at hgo

/-! ### The node that leaves its place -/

/-- `ngx_rbtree_min` goes to the end of the left spine. -/
theorem min_spec (fuel : Nat) (h : t.Holds top (plug p T)) (hT : T ≠ .leaf)
    (hfuel : T.height ≤ fuel) :
    ∃ q c m M, t.min fuel (T.ptr t.sentinel) = some m ∧ T = plug q (join .left c m .leaf M) ∧
      Path.before q = [] := by
  induction T generalizing p fuel with
  | leaf => exact absurd rfl hT
  | node c A a B ihA _ =>
    have hcell : t.links a =
        .of .left (A.ptr t.sentinel) (B.ptr t.sentinel) (Path.parent top p) c :=
      Linked.cell (s := .left) h
    have hnil := h.nil_notMem
    simp only [mem_plug, CTree.toList, List.mem_append, not_or] at hnil
    simp only [CTree.height] at hfuel
    obtain ⟨m, rfl⟩ : ∃ m, fuel = m + 1 := ⟨fuel - 1, by omega⟩
    rw [CTree.ptr, min, child_eq hcell]
    by_cases hA : A = .leaf
    · rw [hA, CTree.ptr_leaf, if_neg (not_not.mpr rfl)]
      exact ⟨[], c, a, B, rfl, rfl, rfl⟩
    · obtain ⟨q, c', x, M, hmin, hq, hb⟩ :=
        ihA (p := ⟨.left, c, a, B⟩ :: p) m h hA (by omega)
      rw [if_pos fun e => hA ((CTree.ptr_eq_nil hnil.2.1).mp e)]
      refine ⟨q ++ [⟨.left, c, a, B⟩], c', x, M, hmin, ?_, ?_⟩
      · rw [plug_append, ← hq]
        rfl
      · rw [Path.before_append, hb]
        rfl

/-- **Minimum.** In a red-black tree `ngx_rbtree_min` finds the first node, in at most
    `2 * log₂ (n + 1)` turns. -/
theorem InOrder.min_eq {a : Ptr} {fuel : Nat} (h : t.InOrder (a :: l))
    (hfuel : 2 * Nat.log 2 ((a :: l).length + 1) ≤ fuel) : t.min fuel t.root = some a := by
  obtain ⟨⟨top, T, hh, hrb, hl⟩, -⟩ := h
  have hT : T ≠ .leaf := by
    rintro rfl
    cases hl
  have hheight := hrb.height_le
  rw [hl] at hheight
  obtain ⟨q, c, m, M, hmin, hq, hb⟩ := min_spec (p := []) fuel hh hT (by omega)
  have hl' := hl
  rw [hq, toList_plug, hb, CTree.toList_join] at hl'
  rw [hh.root_eq, hmin]
  exact congrArg some (List.cons.inj hl').1

/-! ### Taking the node out -/

variable [Zero κ] {a : Ptr} {X : CTree Ptr}

/-- A tree from which `node` has been taken: what hangs from `p` has come up, and where it
    is empty the sentinel names the parent that it would have. -/
structure Spliced (t : Rbtree κ) (l : List Ptr) (node : Ptr) (t' : Rbtree κ) (top : Ptr)
    (p : Path Ptr) (X : CTree Ptr) : Prop where
  holds : t'.Holds top (plug p X)
  sentinel_eq : t'.sentinel = t.sentinel
  color_eq : t'.color t'.sentinel = t.color t.sentinel
  key_eq : t'.key = Function.update t.key node 0
  frame : ∀ v, v ∉ l → v ≠ t.sentinel → t'.links v = t.links v
  up : X = .leaf → t'.parent t'.sentinel = Path.parent top p

theorem links_clear {v : Ptr} (hv : v ≠ a) : (t.clear a).links v = t.links v := by
  rw [clear]
  simp only [setChild, setParent, Function.update_idem]
  exact Function.update_of_ne hv _ _

/-- The links and the key of the node itself do not matter. -/
theorem Spliced.of_clear {t₁ : Rbtree κ} (ha : a ∈ l) (hnil : a ≠ t.sentinel)
    (hsent : t₁.sentinel = t.sentinel) (hkey : t₁.key = t.key)
    (hlinked : Linked t.sentinel (t₁.clear a).links t₁.root top (plug p X))
    (hframe : ∀ v, v ∉ l → v ≠ t.sentinel → t₁.links v = t.links v)
    (hcolor : t₁.color t.sentinel = t.color t.sentinel)
    (hup : X = .leaf → t₁.parent t.sentinel = Path.parent top p) :
    Spliced t l a (t₁.clear a) top p X := by
  have hs : (t₁.clear a).links (t₁.clear a).sentinel = t₁.links t.sentinel := by
    rw [show (t₁.clear a).sentinel = t.sentinel from hsent, links_clear (Ne.symm hnil)]
  refine ⟨?_, hsent, ?_, ?_, fun v hv hvs => ?_, fun hX => ?_⟩
  · rw [Holds, show (t₁.clear a).sentinel = t.sentinel from hsent]
    exact hlinked
  · rw [← hcolor, color, hs]
    rfl
  · rw [← hkey]
    rfl
  · have hva : v ≠ a := fun e => hv (e ▸ ha)
    rw [links_clear hva, hframe v hv hvs]
  · rw [← hup hX, parent, hs]
    rfl

/-- A node with at most one child, not the root. -/
theorem splice_one (h : t.Holds top (plug (k :: p) (join s c a X .leaf))) :
    Spliced t (plug (k :: p) (join s c a X .leaf)).toList a
      ((t.splice a a (X.ptr t.sentinel)).clear a) top (k :: p) X := by
  have hpath := h.path
  rw [CTree.ptr_join] at hpath
  have ha : a ∈ (plug (k :: p) (join s c a X .leaf)).toList :=
    mem_plug.mpr (.inr (CTree.mem_join.mpr (.inr (.inl rfl))))
  have hap : a ∉ Path.labels (k :: p) := h.notMem_labels (CTree.mem_join.mpr (.inr (.inl rfl)))
  have hsib : a ≠ k.sib.ptr t.sentinel :=
    CTree.ne_ptr (fun hm => hap (by simp [Path.labels, hm])) h.ne_nil
  have hpar : t.parent a = k.label := parent_eq h.cell
  have hnil := h.nil_notMem
  rw [mem_plug, not_or] at hnil
  let l₁ := fill t.links (k :: p) (X.ptr t.sentinel)
  let l₂ := setUp l₁ (X.ptr t.sentinel) k.label
  have e₁ : t.relink .left a (X.ptr t.sentinel) = { t with links := l₁ } :=
    relink_eq hpath hpar hsib
  have e₂ : Rbtree.parent { t with links := l₁ } a = k.label :=
    (congrArg Links.parent (fill_of_notMem hap)).trans hpar
  have e₃ : t.splice a a (X.ptr t.sentinel) = { t with links := l₂ } := by
    rw [splice]
    simp only [e₁, if_true, e₂]
    rfl
  rw [e₃]
  refine .of_clear ha h.ne_nil rfl rfl ?_ ?_ ?_ ?_
  · exact Linked.contract h fun v hv => links_clear hv
  · intro v hv hvs
    rw [mem_plug, CTree.mem_join, not_or, not_or] at hv
    exact (setUp_of_ne (CTree.ne_ptr hv.2.1 hvs)).trans (fill_of_notMem hv.1)
  · exact (color_setUp _).trans (congrArg Links.color (fill_of_notMem hnil.1))
  · rintro rfl
    exact parent_setUp_self

omit [Zero κ] in
theorem inherit_eq {m z par : Ptr} (hne : a ≠ m) (ha : t.links a = .of .left x z par c) :
    t.inherit a m = { t with links := Function.update t.links m (.of .left x z par c) } := by
  rw [inherit]
  simp only [setChild, setParent, setColor, child, parent, color, Function.update_idem,
    Function.update_self, Function.update_of_ne hne, ha, Links.setChild]
  rfl

/-! ### A node with two children

It gives its place to `m`, the first node of its right subtree, which `M` replaces there. -/

section Two

variable {c' : Color} {m : Ptr} {q K : Path Ptr} {M : CTree Ptr}

/-- The memory once `x` hangs at the end of a path, with the parent `u`. -/
def hang (t : Rbtree κ) (K : Path Ptr) (x u : Ptr) : Ptr → Links Ptr := setUp (fill t.links K x) x u

omit [Zero κ]

/-- Neither the node that goes up nor what comes after it is on the path to it. -/
theorem Holds.notMem_path (h : t.Holds top (plug K (join .left c' m .leaf M))) :
    m ∉ Path.labels K ∧ M.ptr t.sentinel ∉ Path.labels K := by
  obtain ⟨-, -, hdis⟩ := nodup_plug.mp h.nodup
  refine ⟨hdis m (CTree.mem_join.mpr (.inr (.inl rfl))), ?_⟩
  by_cases hM : M = .leaf
  · rw [hM]
    exact fun hm => h.nil_notMem (mem_plug.mpr (.inl hm))
  · exact hdis _ (CTree.mem_join.mpr (.inr (.inr (CTree.ptr_mem hM))))

/-- The path keeps its nodes. -/
theorem Holds.hang_path (h : t.Holds top (plug K (join .left c' m .leaf M))) (u : Ptr) :
    PathHolds t.sentinel (t.hang K (M.ptr t.sentinel) u) top K (M.ptr t.sentinel) := by
  obtain ⟨hnK, -, -⟩ := nodup_plug.mp h.nodup
  refine (h.path.fill hnK).congr fun v hv => setUp_of_ne ?_
  exact fun e => h.notMem_path.2 (e ▸ hv)

/-- The first statement. -/
theorem relink_path (h : t.Holds top (plug K (join .left c' m .leaf M))) (hK : K ≠ []) :
    t.relink .left m (M.ptr t.sentinel) =
      { t with links := fill t.links K (M.ptr t.sentinel) } := by
  obtain ⟨k, K, rfl⟩ := List.exists_cons_of_ne_nil hK
  have hpath := h.path
  rw [CTree.ptr_join] at hpath
  exact relink_eq hpath (parent_eq h.cell)
    (CTree.ne_ptr (fun hm => h.notMem_path.1 (by simp [Path.labels, hm])) h.ne_nil)

/-- The second one, where the parent of `m` may be the node itself. -/
theorem setParent_path {t₁ : Rbtree κ}
    (h : t.Holds top (plug (q ++ ⟨.right, c, a, A⟩ :: p) (join .left c' m .leaf M)))
    (ht₁ : t₁ = { t with
      links := fill t.links (q ++ ⟨.right, c, a, A⟩ :: p) (M.ptr t.sentinel) }) :
    (if t₁.parent m = a then t₁.setParent (M.ptr t.sentinel) m
      else t₁.setParent (M.ptr t.sentinel) (t₁.parent m)) = { t with
        links := t.hang (q ++ ⟨.right, c, a, A⟩ :: p) (M.ptr t.sentinel) (Path.parent m q) } := by
  have hm : t₁.parent m = Path.parent a q := by
    have hcell := h.cell
    rw [Path.parent_append] at hcell
    rw [ht₁]
    exact parent_eq ((fill_of_notMem h.notMem_path.1).trans hcell)
  rw [hm, ht₁]
  cases q with
  | nil => exact if_pos rfl
  | cons k q =>
    obtain ⟨hnK, -, -⟩ := nodup_plug.mp h.nodup
    have hk : k.label ≠ a := by
      intro he
      exact (List.nodup_cons.mp hnK).1 (by simp [Path.labels_append, Path.labels, he])
    exact if_neg hk

/-- The memory after all of them. -/
theorem splice_eq
    (h : t.Holds top (plug (q ++ ⟨.right, c, a, A⟩ :: p) (join .left c' m .leaf M))) :
    t.splice a m (M.ptr t.sentinel) = { t with
      root := if p = [] then m else t.root
      links := adopt t.sentinel (adopt t.sentinel (fill (Function.update
        (t.hang (q ++ ⟨.right, c, a, A⟩ :: p) (M.ptr t.sentinel) (Path.parent m q))
        m (.of .left (A.ptr t.sentinel) ((plug q M).ptr t.sentinel) (Path.parent top p) c)) p m)
        (A.ptr t.sentinel) m) ((plug q M).ptr t.sentinel) m } := by
  obtain ⟨-, h₂a, -, hp₂⟩ := (pathHolds_append _ _).mp (h.hang_path (Path.parent m q))
  rw [← ptr_plug] at h₂a
  have h' : t.Holds top (plug p (join .right c a (plug q (join .left c' m .leaf M)) A)) := by
    rwa [plug_append] at h
  have hap : a ∉ Path.labels p := h'.notMem_labels (CTree.mem_join.mpr (.inr (.inl rfl)))
  have hmK := h.notMem_path.1
  rw [Path.labels_append] at hmK
  simp only [Path.labels, List.mem_append, List.mem_cons, not_or] at hmK
  obtain ⟨-, hma, hmA, hmp⟩ := hmK
  -- the memory after each of the other statements
  let l₂ := t.hang (q ++ ⟨.right, c, a, A⟩ :: p) (M.ptr t.sentinel) (Path.parent m q)
  let node := Links.of .left (A.ptr t.sentinel) ((plug q M).ptr t.sentinel) (Path.parent top p) c
  let l₃ := Function.update l₂ m node
  let l₄ := fill l₃ p m
  let l₅ := adopt t.sentinel l₄ (A.ptr t.sentinel) m
  have h₃a : l₃ a = node := (Function.update_of_ne (Ne.symm hma) _ _).trans h₂a
  have h₄m : l₄ m = node := (fill_of_notMem hmp).trans (Function.update_self ..)
  have h₅m : l₅ m = node := (adopt_of_notMem hmA).trans h₄m
  have hp₃ : PathHolds t.sentinel l₃ top p a := by
    refine hp₂.congr fun v hv => Function.update_of_ne ?_ _ _
    rintro rfl
    exact hmp hv
  have e₂ := setParent_path h rfl
  change _ = ({ t with links := l₂ } : Rbtree κ) at e₂
  have e₃ : Rbtree.inherit { t with links := l₂ } a m = { t with links := l₃ } :=
    inherit_eq (Ne.symm hma) h₂a
  have e₄ : Rbtree.replace { t with links := l₃ } .left a m =
      { t with root := if p = [] then m else t.root, links := l₄ } :=
    replace_eq hp₃ (parent_eq h₃a) h'.eq_root_iff hap h'.ne_nil
  have e₅ : Rbtree.child { t with root := if p = [] then m else t.root, links := l₄ } .left m =
    A.ptr t.sentinel := child_eq h₄m
  have e₆ : Rbtree.child { t with root := if p = [] then m else t.root, links := l₅ }
    (Side.other .left) m = (plug q M).ptr t.sentinel := child_other_eq h₅m
  rw [splice, relink_path h (by simp)]
  simp only [if_neg hma, e₂, e₃, e₄, reparent_eq, e₅]
  exact congrArg (fun x => { t with
    root := if p = [] then m else t.root, links := adopt t.sentinel l₅ x m }) e₆

/-- What is left of the right subtree, once `M` hangs in it. -/
theorem Holds.hang_right
    (h : t.Holds top (plug (q ++ ⟨.right, c, a, A⟩ :: p) (join .left c' m .leaf M))) :
    ∃ u, RB.Holds t.sentinel
      (t.hang (q ++ ⟨.right, c, a, A⟩ :: p) (M.ptr t.sentinel) (Path.parent m q)) u
        (plug q M) := by
  obtain ⟨-, hnT, hdis⟩ := nodup_plug.mp h.nodup
  obtain ⟨-, hnM, -⟩ := CTree.nodup_join.mp hnT
  obtain ⟨-, -, hM⟩ := holds_join.mp h.sub
  have hnil : t.sentinel ∉ M.toList := fun hm =>
    h.nil_notMem (mem_plug.mpr (.inr (CTree.mem_join.mpr (.inr (.inr hm)))))
  have hM₂ := (hM.congr fun v hv => fill_of_notMem (q := M.ptr t.sentinel)
    (hdis v (CTree.mem_join.mpr (.inr (.inr hv))))).setUp (q := Path.parent m q) hnM hnil
  obtain ⟨hq₂, -⟩ := (pathHolds_append _ _).mp (h.hang_path (Path.parent m q))
  cases q with
  | nil => exact ⟨m, hM₂⟩
  | cons k q => exact ⟨a, holds_plug.mpr ⟨hq₂, hM₂⟩⟩

end Two

/-- A node with two children gives its place to the first node of its right subtree. -/
theorem splice_two {c' : Color} {m : Ptr} {q : Path Ptr} {M : CTree Ptr}
    (h : t.Holds top (plug (q ++ ⟨.right, c, a, A⟩ :: p) (join .left c' m .leaf M))) :
    Spliced t (plug (q ++ ⟨.right, c, a, A⟩ :: p) (join .left c' m .leaf M)).toList a
      ((t.splice a m (M.ptr t.sentinel)).clear a) top (q ++ ⟨.right, c, m, A⟩ :: p) M := by
  let l₂ := t.hang (q ++ ⟨.right, c, a, A⟩ :: p) (M.ptr t.sentinel) (Path.parent m q)
  obtain ⟨u, hR⟩ := h.hang_right
  obtain ⟨-, -, hA₂, hup₂⟩ := (pathHolds_append _ _).mp (h.hang_path (Path.parent m q))
  have hperm : (plug q (join .left c' m .leaf M)).toList.Perm (m :: (plug q M).toList) := by
    refine toList_plug_perm.trans (.trans ?_ (toList_plug_perm.symm.cons m))
    exact List.perm_middle
  have h' : t.Holds top (plug p (join .right c a (plug q (join .left c' m .leaf M)) A)) := by
    rwa [plug_append] at h
  -- outside the tree the rest changes nothing
  have hout : ∀ {l : Links Ptr} (v : Ptr),
      v ∉ (plug (q ++ ⟨.right, c, a, A⟩ :: p) (join .left c' m .leaf M)).toList →
      adopt t.sentinel (adopt t.sentinel (fill (Function.update l₂ m l) p m) (A.ptr t.sentinel) m)
        ((plug q M).ptr t.sentinel) m v = l₂ v := by
    intro l v hv
    simp only [mem_plug, Path.labels_append, Path.labels, CTree.mem_join, List.mem_append,
      List.mem_cons, not_or] at hv
    have hvR : v ∉ (plug q M).toList := fun hm => (mem_plug.mp hm).elim hv.1.1 hv.2.2.2
    rw [adopt_of_notMem hvR, adopt_of_notMem hv.1.2.2.1, fill_of_notMem hv.1.2.2.2,
      Function.update_of_ne hv.2.2.1]
  have hsout := h.nil_notMem
  rw [splice_eq h]
  refine .of_clear ?_ h'.ne_nil rfl rfl ?_ ?_ ?_ ?_
  · rw [mem_plug, Path.labels_append]
    exact .inl (List.mem_append_right _ List.mem_cons_self)
  · rw [plug_append]
    exact Linked.supplant h' hperm hR hA₂ hup₂ fun v hv => links_clear hv
  · intro v hv hvs
    refine (hout v hv).trans ?_
    rw [mem_plug, CTree.mem_join, not_or, not_or, not_or] at hv
    exact (setUp_of_ne (CTree.ne_ptr hv.2.2.2 hvs)).trans (fill_of_notMem hv.1)
  · refine (congrArg Links.color (hout _ hsout)).trans ?_
    rw [mem_plug, not_or] at hsout
    exact (color_setUp _).trans (congrArg Links.color (fill_of_notMem hsout.1))
  · rintro rfl
    refine (congrArg Links.parent (hout _ hsout)).trans ?_
    rw [Path.parent_append]
    exact parent_setUp_self

/-! ### ngx_rbtree_delete -/

/-- What a deletion has to reach. -/
def Deleted (t : Rbtree κ) (l : List Ptr) (node : Ptr) (l' : List Ptr) (r : Option (Rbtree κ)) :
    Prop :=
  ∃ t', r = some t' ∧ t'.InOrder l' ∧ t'.sentinel = t.sentinel ∧
    t'.key = Function.update t.key node 0 ∧ ∀ v, v ∉ l → v ≠ t.sentinel → t'.links v = t.links v

/-- The end of a deletion: nothing is left to do if the node that left its place was red. -/
theorem deleted_of_spliced {t₁ : Rbtree κ} {fuel : Nat} (h : Spliced t l a t₁ top p X)
    (hblack : t.color t.sentinel = .black) (hsub : ∀ v ∈ (plug p X).toList, v ∈ l)
    (hred : c = .red → (plug p X).RedBlack)
    (hshort : c = .black → ∃ n, X.Bal n ∧ Path.Fits p (n + 1)) (hfuel : p.length < fuel) :
    Deleted t l a (plug p X).toList
      (if decide (c = .red) = true then some t₁
       else (deleteFixup fuel t₁ (X.ptr t.sentinel)).map fun r => r.1.setColor r.2 .black) := by
  have hsh : Shape t₁ (plug p X).toList top t₁ (plug p X) :=
    ⟨h.holds, rfl, h.color_eq.trans hblack, rfl, rfl, fun _ _ => rfl⟩
  rcases c.eq_red_or_black with rfl | rfl
  · exact ⟨t₁, rfl, hsh.inOrder (hred rfl), h.sentinel_eq, h.key_eq, h.frame⟩
  · obtain ⟨n, hX, hp⟩ := hshort rfl
    obtain ⟨t', x, T', he, h', hrb⟩ := deleteFixup_shape hsh (fun _ hl => h.up hl) hX hp hfuel
    rw [h.sentinel_eq] at he
    refine ⟨_, by rw [he]; rfl, h'.inOrder hrb, h'.sentinel_eq.trans h.sentinel_eq,
      h'.key_eq.trans h.key_eq, fun v hv hvs => ?_⟩
    rw [h'.frame v fun hm => hv (hsub v hm), h.frame v hv hvs]

/-- The links of a node outside the tree do not matter. -/
theorem InOrder.clear (h : t.InOrder l) (ha : a ∉ l) (hs : a ≠ t.sentinel) :
    (t.clear a).InOrder l := by
  obtain ⟨⟨top, T, hh, hrb, rfl⟩, hb⟩ := h
  refine ⟨⟨top, T, ⟨hh.root_eq, hh.holds.congr fun v hv => ?_, hh.nodup, hh.nil_notMem⟩, hrb, rfl⟩,
    ?_⟩
  · have hva : v ≠ a := fun e => ha (e ▸ hv)
    exact links_clear hva
  · rw [← hb]
    exact congrArg Links.color (links_clear (Ne.symm hs))

/-- The rest of a deletion after `subst` and `temp` have been found. -/
theorem delete_eq {fuel : Nat} {m : Ptr} (hv : t.victim fuel a = some (m, x)) (hm : m ≠ t.root)
    (hc : t.color m = c) :
    t.delete fuel a =
      (if decide (c = .red) = true then some ((t.splice a m x).clear a)
       else (deleteFixup fuel ((t.splice a m x).clear a) x).map fun r =>
        r.1.setColor r.2 .black) := by
  rw [delete, hv, Option.bind_some, if_neg hm]
  simp only [isRed, hc]

/-- Deletion of the root, where it has at most one child. The parent that the new root's cell
    names is the deleted node; nobody reads it. -/
theorem delete_root {fuel : Nat} (h : t.Holds top (join s c a X .leaf))
    (hX : X.Bal n) (hblack : t.color t.sentinel = .black)
    (hv : t.victim fuel a = some (a, X.ptr t.sentinel)) :
    Deleted t (join s c a X .leaf).toList a X.toList (t.delete fuel a) := by
  obtain ⟨-, hXh, -⟩ := holds_join.mp (Linked.sub (p := []) h)
  obtain ⟨hnX, -, haX, -, -⟩ := CTree.nodup_join.mp h.nodup
  have hroot : a = t.root := ((Linked.eq_root_iff (p := []) h).mpr rfl)
  have has : a ≠ t.sentinel := Linked.ne_nil (p := []) h
  have hnil : t.sentinel ∉ X.toList := fun hm => h.nil_notMem (CTree.mem_join.mpr (.inl hm))
  let t₁ : Rbtree κ := { t with root := X.ptr t.sentinel }
  have hsh : Shape t₁ X.toList a t₁ (plug [] X) :=
    ⟨⟨rfl, hXh, hnX, hnil⟩, rfl, hblack, rfl, rfl, fun _ _ => rfl⟩
  have hb := hsh.blacken
  refine ⟨_, by rw [delete, hv, Option.bind_some, if_pos hroot],
    (hb.inOrder hX.redBlack_blacken).clear haX has, rfl, rfl, fun v hvl hvs => ?_⟩
  have hva : v ≠ a := fun e => hvl (CTree.mem_join.mpr (.inr (.inl e)))
  rw [links_clear hva]
  exact hb.frame v fun hm => hvl (CTree.mem_join.mpr (.inl hm))

/-- Deletion of a node with at most one child. -/
theorem delete_one {fuel : Nat} (h : t.Holds top (plug p (join s c a X .leaf)))
    (hrb : (plug p (join s c a X .leaf)).RedBlack) (hblack : t.color t.sentinel = .black)
    (hv : t.victim fuel a = some (a, X.ptr t.sentinel)) (hfuel : p.length < fuel) :
    Deleted t (plug p (join s c a X .leaf)).toList a (plug p X).toList (t.delete fuel a) := by
  obtain ⟨n, hp, hb, hcol⟩ := hrb.fits
  obtain ⟨hX, m, rfl, hXb, hleaf⟩ := CTree.bal_join.mp hb
  cases p with
  | nil => exact delete_root h hXb hblack hv
  | cons k p =>
    have hroot : a ≠ t.root := fun e => List.cons_ne_nil _ _ (h.eq_root_iff.mp e)
    rw [delete_eq hv hroot (color_eq h.cell)]
    refine deleted_of_spliced (splice_one h) hblack ?_ ?_ ?_ hfuel
    · intro v hv
      rw [mem_plug] at hv ⊢
      rw [CTree.mem_join]
      exact hv.imp_right .inl
    · rintro rfl
      exact redBlack_plug hp hXb fun _ => (hX rfl).1
    · rintro rfl
      exact ⟨m, hXb, hp⟩

/-- Deletion of a node with two children; `m` is the first node of the right subtree. -/
theorem delete_two {c' : Color} {m : Ptr} {q : Path Ptr} {M : CTree Ptr} {fuel : Nat}
    (h : t.Holds top (plug (q ++ ⟨.right, c, a, A⟩ :: p) (join .left c' m .leaf M)))
    (hrb : (plug (q ++ ⟨.right, c, a, A⟩ :: p) (join .left c' m .leaf M)).RedBlack)
    (hblack : t.color t.sentinel = .black)
    (hv : t.victim fuel a = some (m, M.ptr t.sentinel))
    (hfuel : (q ++ ⟨.right, c, a, A⟩ :: p).length < fuel) :
    Deleted t (plug (q ++ ⟨.right, c, a, A⟩ :: p) (join .left c' m .leaf M)).toList a
      (plug (q ++ ⟨.right, c, m, A⟩ :: p) M).toList (t.delete fuel a) := by
  obtain ⟨n, hp, hb, hcol⟩ := hrb.fits
  obtain ⟨hM, i, rfl, hleaf, hMb⟩ := CTree.bal_join.mp hb
  obtain ⟨hp', hcol'⟩ := Path.fits_relabel (b := m) hp
  have hroot : m ≠ t.root := fun e => by simpa using h.eq_root_iff.mp e
  rw [delete_eq hv hroot (color_eq h.cell)]
  refine deleted_of_spliced (splice_two h) hblack ?_ ?_ ?_ ?_
  · intro v hv
    simp only [mem_plug, Path.labels_append, Path.labels, CTree.mem_join, List.mem_append,
      List.mem_cons] at hv ⊢
    tauto
  · rintro rfl
    exact redBlack_plug hp' hMb fun _ => (hM rfl).2
  · rintro rfl
    exact ⟨i, hMb, hp'⟩
  · simpa using hfuel

/-- **Deletion.** Within `2 * log₂ (n + 1) + 1` turns of each loop the node is out of the
    tree and the others have kept their order and their keys; of all other memory the
    sentinel's parent alone may have changed. -/
theorem delete_spec {fuel : Nat} (h : t.InOrder l) (ha : a ∈ l)
    (hfuel : 2 * Nat.log 2 (l.length + 1) < fuel) :
    Deleted t l a (l.erase a) (t.delete fuel a) := by
  obtain ⟨⟨top, T, hh, hrb, rfl⟩, hblack⟩ := h
  have hheight := hrb.height_le
  obtain ⟨p, c, A, B, rfl⟩ := CTree.exists_plug ha
  have hlen := length_add_height_le (p := p) (t := join .left c a A B)
  have hcell := hh.cell
  have hnil := hh.nil_notMem
  simp only [mem_plug, CTree.mem_join, not_or] at hnil
  have hleft : t.child .left a = A.ptr t.sentinel := child_eq hcell
  have hright : t.child .right a = B.ptr t.sentinel := child_other_eq hcell
  have hA : A.ptr t.sentinel = t.sentinel ↔ A = .leaf := CTree.ptr_eq_nil hnil.2.1
  have hB : B.ptr t.sentinel = t.sentinel ↔ B = .leaf := CTree.ptr_eq_nil hnil.2.2.2
  have herase : (plug p (join .left c a A B)).toList.erase a =
      Path.before p ++ (A.toList ++ B.toList) ++ Path.after p := by
    have hl : (plug p (join .left c a A B)).toList =
        (Path.before p ++ A.toList) ++ a :: (B.toList ++ Path.after p) := by
      rw [toList_plug, CTree.toList_join]
      simp [Side.cat]
    have hn := hh.nodup
    rw [hl, List.nodup_middle, List.nodup_cons, List.mem_append, not_or] at hn
    rw [hl, List.erase_append_right _ hn.1.1, List.erase_cons_head]
    simp
  rw [herase]
  by_cases hAl : A = .leaf
  · subst hAl
    have hv : t.victim fuel a = some (a, B.ptr t.sentinel) := by
      rw [victim, hleft, if_pos (hA.mpr rfl), hright]
    have hd := delete_one (s := .right) hh hrb hblack hv (by omega)
    rwa [toList_plug (t := B)] at hd
  · by_cases hBl : B = .leaf
    · subst hBl
      have hv : t.victim fuel a = some (a, A.ptr t.sentinel) := by
        rw [victim, hleft, if_neg (fun e => hAl (hA.mp e)), hright, if_pos (hB.mpr rfl)]
      have hd := delete_one hh hrb hblack hv (by omega)
      rwa [toList_plug (t := A), ← List.append_nil A.toList] at hd
    · have hBh : B.height ≤ fuel := by
        have hj : B.height + 1 ≤ (join .left c a A B).height := by
          simp only [join, CTree.height]
          omega
        omega
      obtain ⟨q, c', m, M, hmin, hBq, hbef⟩ :=
        min_spec (p := ⟨.right, c, a, A⟩ :: p) fuel hh hBl hBh
      subst hBq
      have hK : plug p (join .left c a A (plug q (join .left c' m .leaf M))) =
          plug (q ++ ⟨.right, c, a, A⟩ :: p) (join .left c' m .leaf M) := by
        rw [plug_append]
        rfl
      have hord : (plug (q ++ ⟨.right, c, m, A⟩ :: p) M).toList = Path.before p ++
          (A.toList ++ (plug q (join .left c' m .leaf M)).toList) ++ Path.after p := by
        rw [plug_append, plug, toList_plug, CTree.toList_join, toList_plug, toList_plug,
          CTree.toList_join, hbef]
        simp [Side.cat, CTree.toList]
      rw [hK] at hh hrb hheight hfuel ⊢
      have hlen' := length_add_height_le (p := q ++ ⟨.right, c, a, A⟩ :: p)
        (t := join .left c' m .leaf M)
      have hm : t.child .left m = t.sentinel := child_eq hh.cell
      have hm' : t.child .right m = M.ptr t.sentinel := child_other_eq hh.cell
      have hv : t.victim fuel a = some (m, M.ptr t.sentinel) := by
        rw [victim, hleft, if_neg (fun e => hAl (hA.mp e)), hright,
          if_neg (fun e => hBl (hB.mp e)), hmin, Option.map_some, if_neg (not_not.mpr hm), hm']
      rw [← hord]
      exact delete_two hh hrb hblack hv (by omega)

end Rbtree

end NginxEngine.Core
