import Mathlib.Data.List.Basic

/-!
# A position in a list of chunks

Data that lies in several chunks is sent from a position: so many chunks are done, and so
many items of the next one. `Chunks.rest` is what is left behind such a position once the
chunks that are done are dropped.

## Main results

- `Chunks.rest_advance` — moving on inside a chunk
- `Chunks.rest_next` — moving on to the next chunk
- `Chunks.rest_drop_suffix` — what is left is a suffix of the whole
-/

namespace NginxEngine.Chunks

variable {α : Type*} {c : List α} {cs : List (List α)} {n : Nat}

/-- What is left behind the first `n` items of the first chunk. -/
def rest : List (List α) → Nat → List α
  | [], _ => []
  | c :: cs, n => c.drop n ++ cs.flatten

@[simp] theorem rest_zero (cs : List (List α)) : rest cs 0 = cs.flatten := by
  cases cs with
  | nil => rfl
  | cons c cs => simp [rest]

theorem rest_advance (c : List α) (cs : List (List α)) (n k : Nat) :
    rest (c :: cs) n = (c.drop n).take k ++ rest (c :: cs) (n + k) := by
  show c.drop n ++ cs.flatten = (c.drop n).take k ++ (c.drop (n + k) ++ cs.flatten)
  rw [← List.append_assoc, ← List.drop_drop, List.take_append_drop]

theorem rest_next (h : c.length ≤ n) : rest (c :: cs) n = rest cs 0 := by
  rw [rest_zero, rest, List.drop_eq_nil_of_le h, List.nil_append]

theorem rest_suffix (cs : List (List α)) (n : Nat) : rest cs n <:+ cs.flatten := by
  cases cs with
  | nil => exact List.suffix_refl _
  | cons c cs =>
    obtain ⟨p, hp⟩ := List.drop_suffix n c
    refine ⟨p, ?_⟩
    rw [rest, ← List.append_assoc, hp]
    rfl

theorem flatten_take_append_drop (cs : List (List α)) (i : Nat) :
    (cs.take i).flatten ++ (cs.drop i).flatten = cs.flatten := by
  rw [← List.flatten_append, List.take_append_drop]

theorem rest_drop_suffix (cs : List (List α)) (i n : Nat) : rest (cs.drop i) n <:+ cs.flatten :=
  (rest_suffix _ n).trans ⟨_, flatten_take_append_drop cs i⟩

/-- Nothing is missing at a position that has only empty chunks before it. -/
theorem rest_drop_eq_flatten {i : Nat} (h : ∀ c ∈ cs.take i, c = []) :
    rest (cs.drop i) 0 = cs.flatten := by
  have hbefore : (cs.take i).flatten = [] := List.flatten_eq_nil_iff.mpr h
  rw [rest_zero, ← flatten_take_append_drop cs i, hbefore, List.nil_append]

end NginxEngine.Chunks
