import Mathlib.Data.List.Induction

/-!
# Statements about every entry of a trace

A trace is the list of what was observed, oldest first. `Everywhere P` says that every
entry is as `P` wants it after the entries before it, `Extends R` that a trace has grown by
entries that meet `R`.

## Main results

- `Everywhere.append` — the rule for a trace that grows
- `Extends.invariant` — what every added entry keeps
- `last_excludes` — the last entry is of one kind only
- `eq_of_countP_le_one` — of a kind there is one entry only
-/

namespace NginxEngine

variable {α : Type*} {P : List α → α → Prop} {R : α → Prop} {l l' l'' : List α} {x : α}

/-- Every entry of a trace meets `P`, which sees the entries before it. -/
def Everywhere (P : List α → α → Prop) (l : List α) : Prop := ∀ p x q, l = p ++ x :: q → P p x

theorem everywhere_nil : Everywhere P [] := by
  intro p x q he
  cases p with
  | nil => cases he
  | cons y p => cases he

theorem Everywhere.append (h : Everywhere P l) (hx : P l x) : Everywhere P (l ++ [x]) := by
  intro p y q he
  rcases List.eq_nil_or_concat q with rfl | ⟨q', z, rfl⟩
  · obtain ⟨rfl, hy⟩ := List.append_inj' he rfl
    cases hy
    exact hx
  · rw [List.concat_eq_append, ← List.cons_append, ← List.append_assoc] at he
    exact h p y q' (List.append_inj' he rfl).1

/-- An entry other than the last one was there before. -/
theorem mem_of_mem_snoc {y : α} (hy : y ∈ l ++ [x]) (hne : y ≠ x) : y ∈ l := by
  rcases List.mem_append.mp hy with hy | hy
  · exact hy
  · exact absurd (List.mem_singleton.mp hy) hne

/-- `l'` is `l` with entries added that meet `R`. -/
def Extends (R : α → Prop) (l l' : List α) : Prop := ∃ k, l' = l ++ k ∧ ∀ x ∈ k, R x

namespace Extends

theorem refl (l : List α) : Extends R l l := ⟨[], (List.append_nil l).symm, nofun⟩

theorem snoc (hx : R x) : Extends R l (l ++ [x]) := by
  refine ⟨[x], rfl, fun y hy => ?_⟩
  obtain rfl := List.mem_singleton.mp hy
  exact hx

theorem trans (h : Extends R l l') (h' : Extends R l' l'') : Extends R l l'' := by
  obtain ⟨k, rfl, hk⟩ := h
  obtain ⟨k', rfl, hk'⟩ := h'
  refine ⟨k ++ k', List.append_assoc l k k', fun x hx => ?_⟩
  rcases List.mem_append.mp hx with hx | hx
  · exact hk x hx
  · exact hk' x hx

/-- What holds of a trace and is kept by every entry that meets `R`. -/
theorem invariant {Q : List α → Prop} (h : Extends R l l') (hinit : Q l)
    (hstep : ∀ l x, Q l → R x → Q (l ++ [x])) : Q l' := by
  obtain ⟨k, rfl, hk⟩ := h
  induction k using List.reverseRecOn with
  | nil => rwa [List.append_nil]
  | append_singleton k x ih =>
    have hQ : Q (l ++ k) := ih fun y hy => hk y (List.mem_append_left [x] hy)
    rw [← List.append_assoc]
    exact hstep _ x hQ (hk x (List.mem_append_right k (List.mem_singleton_self x)))

end Extends

/-- The last entry is of one kind only. -/
theorem last_excludes {f g : α → Bool} (hfg : ∀ x, f x = true → g x = false)
    (h : l.getLast?.any f = true) : l.getLast?.any g ≠ true := by
  intro h'
  obtain ⟨x, hx, hf⟩ := (Option.any_eq_true _ _).mp h
  obtain ⟨y, hy, hg⟩ := (Option.any_eq_true _ _).mp h'
  obtain rfl := Option.some.inj (hx.symm.trans hy)
  exact absurd ((hfg x hf).symm.trans hg) (by decide)

/-- Of entries of a kind there is at most one. -/
theorem eq_of_countP_le_one {f : α → Bool} {y : α} (h : l.countP f ≤ 1) (hx : x ∈ l)
    (hy : y ∈ l) (hfx : f x = true) (hfy : f y = true) : x = y := by
  rw [List.countP_eq_length_filter] at h
  have hx' : x ∈ l.filter f := List.mem_filter.mpr ⟨hx, hfx⟩
  have hy' : y ∈ l.filter f := List.mem_filter.mpr ⟨hy, hfy⟩
  cases hl : l.filter f with
  | nil =>
    rw [hl] at hx'
    cases hx'
  | cons z k =>
    rw [hl, List.length_cons] at h
    obtain rfl := List.length_eq_zero_iff.mp (Nat.le_zero.mp (Nat.le_of_succ_le_succ h))
    rw [hl] at hx' hy'
    rw [List.mem_singleton.mp hx', List.mem_singleton.mp hy']

end NginxEngine
