import Mathlib.Tactic.Common

/-!
# Machines driven by inputs

A machine is a guarded step function: an input either moves the state or is not
enabled there. Runs are lists of inputs. A reachability statement carries a
condition on the steps taken, so that "in every run all of whose steps meet `G`"
is a statement about `M.Reaches G`.

## Main definitions

- `Machine` — a guarded step function
- `Machine.run` — replay a list of inputs
- `Machine.Reaches` — reachability along steps that meet a condition

## Main results

- `Machine.Reaches.invariant` — the induction rule for invariants
- `Machine.Reaches.of_run` — a replayed run reaches its last state
- `Machine.withNotes` — the machine with a note on its run
- `Machine.extend` — the machine with further inputs
-/

namespace NginxEngine

/-- A step function; `none` where the input is not enabled. -/
structure Machine (σ ι : Type*) where
  step : σ → ι → Option σ

namespace Machine

variable {σ ι : Type*} {M : Machine σ ι} {G : σ → ι → Prop} {s t u : σ}

/-- `M.Reaches G s t`: a run leads from `s` to `t`, and each of its steps meets
    `G`, a condition on the state before the step and on the input. -/
inductive Reaches (M : Machine σ ι) (G : σ → ι → Prop) (s : σ) : σ → Prop
  | refl : Reaches M G s s
  | tail {t u : σ} {i : ι} :
      Reaches M G s t → G t i → M.step t i = some u → Reaches M G s u

/-- The condition that every step meets. -/
def always : σ → ι → Prop := fun _ _ => True

instance (s : σ) (i : ι) : Decidable (always s i) := .isTrue trivial

/-- Replay a list of inputs; `none` as soon as one of them is not enabled or does not
    meet the condition. -/
def run (M : Machine σ ι) (G : σ → ι → Prop) [∀ s i, Decidable (G s i)] :
    σ → List ι → Option σ
  | s, [] => some s
  | s, i :: is => if G s i then (M.step s i).bind fun t => M.run G t is else none

namespace Reaches

theorem single {i : ι} (hG : G s i) (h : M.step s i = some t) : M.Reaches G s t :=
  .tail .refl hG h

theorem trans (hst : M.Reaches G s t) (htu : M.Reaches G t u) : M.Reaches G s u := by
  induction htu with
  | refl => exact hst
  | tail _ hG h ih => exact .tail ih hG h

/-- **Invariant rule.** What holds at the start and is kept by every step that
    meets the condition holds in every state reached. -/
theorem invariant {I : σ → Prop} (h : M.Reaches G s t) (hinit : I s)
    (hstep : ∀ t i u, I t → G t i → M.step t i = some u → I u) : I t := by
  induction h with
  | refl => exact hinit
  | tail _ hG h ih => exact hstep _ _ _ ih hG h

/-- A replayed run reaches its last state. -/
theorem of_run [∀ s i, Decidable (G s i)] (is : List ι) (h : M.run G s is = some t) :
    M.Reaches G s t := by
  induction is generalizing s with
  | nil =>
    simp only [run, Option.some.injEq] at h
    exact h ▸ .refl
  | cons i is ih =>
    simp only [run, Option.ite_none_right_eq_some, Option.bind_eq_some_iff] at h
    obtain ⟨hG, r, hr, h⟩ := h
    exact (single hG hr).trans (ih h)

/-- A replayed run reaches a state of which a part is known. -/
theorem of_run_map {β : Type*} {b : β} [∀ s i, Decidable (G s i)] (f : σ → β) (is : List ι)
    (h : (M.run G s is).map f = some b) : ∃ t, M.Reaches G s t ∧ f t = b := by
  obtain ⟨t, ht, hf⟩ := Option.map_eq_some_iff.mp h
  exact ⟨t, of_run is ht, hf⟩

end Reaches

/-- The machine with a note that is rewritten at every step. -/
def withNotes {γ : Type*} (M : Machine σ ι) (note : σ → ι → γ → γ) : Machine (σ × γ) ι :=
  ⟨fun s i => (M.step s.1 i).map fun t => (t, note s.1 i s.2)⟩

theorem step_withNotes {γ : Type*} {note : σ → ι → γ → γ} {s t : σ × γ} {i : ι}
    (h : (M.withNotes note).step s i = some t) :
    M.step s.1 i = some t.1 ∧ t.2 = note s.1 i s.2 := by
  obtain ⟨u, hu, rfl⟩ := Option.map_eq_some_iff.mp h
  exact ⟨hu, rfl⟩

/-- A run with notes is a run. -/
theorem Reaches.of_withNotes {γ : Type*} {note : σ → ι → γ → γ} {s t : σ × γ}
    (h : (M.withNotes note).Reaches (fun s i => G s.1 i) s t) : M.Reaches G s.1 t.1 :=
  h.invariant (I := fun t => M.Reaches G s.1 t.1) .refl fun _ _ _ hr hG hs =>
    .tail hr hG (step_withNotes hs).1

section Extend

variable {κ : Type*} {N : σ → κ → Option σ}

/-- The machine with further inputs. -/
def extend (M : Machine σ ι) (N : σ → κ → Option σ) : Machine σ (ι ⊕ κ) :=
  ⟨fun s i => i.elim (M.step s) (N s)⟩

/-- The step is one of the machine before it was extended, and meets `G`. -/
def left (G : σ → ι → Prop) (s : σ) : ι ⊕ κ → Prop
  | .inl i => G s i
  | .inr _ => False

instance [∀ s i, Decidable (G s i)] (s : σ) (i : ι ⊕ κ) : Decidable (left G s i) :=
  match i with
  | .inl i => inferInstanceAs (Decidable (G s i))
  | .inr _ => inferInstanceAs (Decidable False)

/-- The step meets `G`, or is a further one. -/
def besides (G : σ → ι → Prop) (s : σ) : ι ⊕ κ → Prop
  | .inl i => G s i
  | .inr _ => True

instance [∀ s i, Decidable (G s i)] (s : σ) (i : ι ⊕ κ) : Decidable (besides G s i) :=
  match i with
  | .inl i => inferInstanceAs (Decidable (G s i))
  | .inr _ => inferInstanceAs (Decidable True)

/-- A run without the further inputs is a run of the machine. -/
theorem Reaches.of_left (h : (M.extend N).Reaches (left G) s t) : M.Reaches G s t := by
  refine h.invariant .refl fun t i u hr hG hs => ?_
  cases i with
  | inl i => exact .tail hr hG hs
  | inr k => exact hG.elim

end Extend

end Machine

end NginxEngine
