import Mathlib.Data.List.Basic
import Mathlib.Logic.Function.Basic
import Mathlib.Tactic.Common

/-!
# Lists with back pointers

Elements that are linked into lists through fields of their own. An element points to the next
one, and back to the place that points to it: the head of a list, or the `next` of the element
before. So it is unlinked without a search and without knowing in which list it is.

## Main definitions

- `Chains` — the heads of the lists and the links of the elements
- `Chains.push`, `Chains.unlink` — put an element in front of a list, take it out
- `Chains.Holds` — the memory holds these lists, which have no element in common

## Main results

- `Chains.Holds.update` — one of the lists becomes another one
- `Chains.Holds.push`, `Chains.Holds.unlink` — the operations on the memory are those on the lists
- `Chains.Holds.forget` — the links of an element that is in no list may be overwritten
-/

namespace NginxEngine

/-- A place that holds the address of an element. -/
inductive Place (ρ α : Type*)
  | head (q : ρ)
  | next (a : α)
deriving DecidableEq, Repr

structure Chains (ρ α : Type*) where
  head : ρ → Option α
  next : α → Option α
  prev : α → Option (Place ρ α)

namespace Chains

variable {ρ α : Type*} [DecidableEq ρ] [DecidableEq α]

def load (m : Chains ρ α) : Place ρ α → Option α
  | .head q => m.head q
  | .next a => m.next a

def store (m : Chains ρ α) (p : Place ρ α) (v : Option α) : Chains ρ α :=
  match p with
  | .head q => { m with head := Function.update m.head q v }
  | .next a => { m with next := Function.update m.next a v }

def setPrev (m : Chains ρ α) (a : α) (p : Option (Place ρ α)) : Chains ρ α :=
  { m with prev := Function.update m.prev a p }

/-- Tell the element behind `a` where it is pointed to from. -/
def relink (m : Chains ρ α) (a : α) (p : Option (Place ρ α)) : Chains ρ α :=
  match m.next a with
  | none => m
  | some n => m.setPrev n p

def push (m : Chains ρ α) (q : ρ) (a : α) : Chains ρ α :=
  let m := m.store (.next a) (m.head q)
  let m := m.setPrev a (some (.head q))
  let m := m.store (.head q) (some a)
  m.relink a (some (.next a))

/-- Nothing is defined for an element that is in no list. -/
def unlink (m : Chains ρ α) (a : α) : Option (Chains ρ α) :=
  (m.prev a).map fun p =>
    let m := m.store p (m.next a)
    let m := m.relink a (m.prev a)
    m.setPrev a none

/-- The links of an element are overwritten with zeros. -/
def forget (m : Chains ρ α) (a : α) : Chains ρ α :=
  { m with next := Function.update m.next a none, prev := Function.update m.prev a none }

/-- The elements that are linked from a place on. -/
def From (m : Chains ρ α) : Place ρ α → List α → Prop
  | p, [] => m.load p = none
  | p, a :: l => m.load p = some a ∧ m.prev a = some p ∧ m.From (.next a) l

structure Holds (m : Chains ρ α) (L : ρ → List α) : Prop where
  linked : ∀ q, m.From (.head q) (L q)
  nodup : ∀ q, (L q).Nodup
  apart : ∀ q q', q ≠ q' → ∀ a ∈ L q, a ∉ L q'
  out : ∀ a, (∀ q, a ∉ L q) → m.prev a = none

variable {m m' : Chains ρ α} {p p' : Place ρ α} {v : Option α} {a b : α} {q : ρ} {l l' : List α}
  {L : ρ → List α}

theorem load_store_self : (m.store p v).load p = v := by
  cases p with
  | head q => exact Function.update_self ..
  | next a => exact Function.update_self ..

theorem load_store_of_ne (h : p' ≠ p) : (m.store p v).load p' = m.load p' := by
  cases p with
  | head q =>
    cases p' with
    | head q' => exact Function.update_of_ne (fun e => h (congrArg _ e)) _ _
    | next a => rfl
  | next a =>
    cases p' with
    | head q' => rfl
    | next a' => exact Function.update_of_ne (fun e => h (congrArg _ e)) _ _

@[simp] theorem prev_store : (m.store p v).prev = m.prev := by
  cases p <;> rfl

omit [DecidableEq ρ] in
@[simp] theorem load_relink {o : Option (Place ρ α)} : (m.relink a o).load p = m.load p := by
  rw [relink]
  cases m.next a with
  | none => rfl
  | some n => cases p <;> rfl

omit [DecidableEq ρ] in
@[simp] theorem load_setPrev {o : Option (Place ρ α)} : (m.setPrev a o).load p = m.load p := by
  cases p <;> rfl

omit [DecidableEq ρ] [DecidableEq α] in
/-- The elements from a place on, in a memory that differs elsewhere. -/
theorem From.congr (h : m.From p l) (hp : m'.load p = m.load p)
    (hnext : ∀ a ∈ l, m'.next a = m.next a) (hprev : ∀ a ∈ l, m'.prev a = m.prev a) :
    m'.From p l := by
  induction l generalizing p with
  | nil => exact hp.trans h
  | cons a l ih =>
    obtain ⟨hload, hback, hrest⟩ := h
    refine ⟨hp.trans hload, (hprev a List.mem_cons_self).trans hback, ?_⟩
    exact ih hrest (hnext a List.mem_cons_self) (fun x hx => hnext x (List.mem_cons_of_mem _ hx))
      fun x hx => hprev x (List.mem_cons_of_mem _ hx)

omit [DecidableEq ρ] [DecidableEq α] in
/-- What a place points to is one of the elements from there on. -/
theorem From.mem_of_load (h : m.From p l) (hp : m.load p = some a) : a ∈ l := by
  cases l with
  | nil => exact absurd (h.symm.trans hp) (Option.some_ne_none a).symm
  | cons n l =>
    obtain rfl : n = a := Option.some.inj (h.1.symm.trans hp)
    exact List.mem_cons_self

omit [DecidableEq ρ] [DecidableEq α] in
theorem From.behind {pre post : List α} (h : m.From p (pre ++ a :: post)) :
    m.From (.next a) post := by
  induction pre generalizing p with
  | nil => exact h.2.2
  | cons b pre ih => exact ih h.2.2

omit [DecidableEq ρ] [DecidableEq α] in
/-- The head of a list is one of its elements. -/
theorem Holds.mem_of_head (h : m.Holds L) (hq : m.head q = some a) : a ∈ L q :=
  (h.linked q).mem_of_load hq

omit [DecidableEq ρ] [DecidableEq α] in
theorem From.prev_of_mem (h : m.From p l) (ha : a ∈ l) : ∃ p', m.prev a = some p' := by
  induction l generalizing p with
  | nil => cases ha
  | cons b l ih =>
    rcases List.mem_cons.mp ha with rfl | ha
    · exact ⟨p, h.2.1⟩
    · exact ih h.2.2 ha

omit [DecidableEq ρ] [DecidableEq α] in
/-- An element is in no list just if it has no back pointer. -/
theorem Holds.prev_eq_none (h : m.Holds L) : m.prev a = none ↔ ∀ q, a ∉ L q := by
  refine ⟨fun hnone q ha => ?_, h.out a⟩
  obtain ⟨p, hp⟩ := (h.linked q).prev_of_mem ha
  rw [hnone] at hp
  cases hp

omit [DecidableEq α] in
/-- One of the lists is another one now, with elements that were in it or in no list. -/
theorem Holds.update (h : m.Holds L) (hl : m'.From (.head q) l) (hnodup : l.Nodup)
    (hnew : ∀ x ∈ l, x ∈ L q ∨ ∀ q', x ∉ L q')
    (hothers : ∀ q', q' ≠ q → m'.From (.head q') (L q'))
    (hout : ∀ x, x ∉ l → (∀ q', q' ≠ q → x ∉ L q') → m'.prev x = none) :
    m'.Holds (Function.update L q l) := by
  have hapart : ∀ q', q' ≠ q → ∀ x ∈ l, x ∉ L q' := by
    intro q' hq' x hx
    rcases hnew x hx with hold | hnone
    · exact h.apart q q' hq'.symm x hold
    · exact hnone q'
  refine ⟨fun q' => ?_, fun q' => ?_, fun q₁ q₂ hq x hx hc => ?_, fun x hx => ?_⟩
  · rcases eq_or_ne q' q with rfl | hq'
    · rwa [Function.update_self]
    · rw [Function.update_of_ne hq']
      exact hothers q' hq'
  · rcases eq_or_ne q' q with rfl | hq'
    · rwa [Function.update_self]
    · rw [Function.update_of_ne hq']
      exact h.nodup q'
  · rcases eq_or_ne q₁ q with rfl | h₁
    · rw [Function.update_self] at hx
      rw [Function.update_of_ne hq.symm] at hc
      exact hapart q₂ hq.symm x hx hc
    · rw [Function.update_of_ne h₁] at hx
      rcases eq_or_ne q₂ q with rfl | h₂
      · rw [Function.update_self] at hc
        exact hapart q₁ h₁ x hc hx
      · rw [Function.update_of_ne h₂] at hc
        exact h.apart q₁ q₂ hq x hx hc
  · refine hout x ?_ fun q' hq' => ?_
    · have hq := hx q
      rwa [Function.update_self] at hq
    · have hq := hx q'
      rwa [Function.update_of_ne hq'] at hq

/-! ### Putting an element in front -/

/-- What pushing writes. -/
theorem prev_push : (m.push q a).prev = match m.head q with
    | none => Function.update m.prev a (some (.head q))
    | some n => Function.update (Function.update m.prev a (some (.head q))) n (some (.next a)) := by
  have hnext : (((m.store (.next a) (m.head q)).setPrev a (some (.head q))).store (.head q)
      (some a)).next a = m.head q := Function.update_self ..
  rw [push]
  rw [relink, hnext]
  cases m.head q <;> rfl

/-- Beside the element only the former head of the list is told a new place. -/
theorem prev_push_of_ne (hba : b ≠ a) (hb : m.head q ≠ some b) :
    (m.push q a).prev b = m.prev b := by
  rw [prev_push]
  cases hq : m.head q with
  | none => exact Function.update_of_ne hba _ _
  | some n =>
    have hbn : b ≠ n := fun e => hb (by rw [hq, e])
    dsimp only
    rw [Function.update_of_ne hbn, Function.update_of_ne hba]

theorem prev_push_self (ha : m.head q ≠ some a) : (m.push q a).prev a = some (.head q) := by
  rw [prev_push]
  cases hq : m.head q with
  | none => exact Function.update_self ..
  | some n =>
    have han : a ≠ n := fun e => ha (by rw [hq, e])
    dsimp only
    rw [Function.update_of_ne han, Function.update_self]

theorem head_push (q' : ρ) :
    (m.push q a).load (.head q') = if q' = q then some a else m.head q' := by
  rw [push]
  rw [load_relink]
  by_cases hq : q' = q
  · rw [if_pos hq, hq, load_store_self]
  · rw [if_neg hq, load_store_of_ne (fun e => hq (Place.head.inj e)), load_setPrev]
    rfl

theorem next_push (b : α) : (m.push q a).load (.next b) = if b = a then m.head q else m.next b := by
  rw [push]
  rw [load_relink, load_store_of_ne (by simp), load_setPrev]
  by_cases hb : b = a
  · rw [if_pos hb, hb, load_store_self]
  · rw [if_neg hb, load_store_of_ne (fun e => hb (Place.next.inj e))]
    rfl

theorem next_push_of_ne (hb : b ≠ a) : (m.push q a).next b = m.next b :=
  (next_push b).trans (if_neg hb)

/-- **Pushing**, in the list itself. -/
theorem From.push (h : m.From (.head q) l) (hnodup : l.Nodup) (ha : a ∉ l) :
    (m.push q a).From (.head q) (a :: l) := by
  have hne : ∀ x ∈ l, x ≠ a := fun x hx => ne_of_mem_of_not_mem hx ha
  refine ⟨(head_push q).trans (if_pos rfl), prev_push_self fun hq => ha (h.mem_of_load hq), ?_⟩
  cases l with
  | nil => exact (next_push a).trans ((if_pos rfl).trans h)
  | cons n l =>
    obtain ⟨hload, -, hrest⟩ := h
    have hload : m.head q = some n := hload
    refine ⟨(next_push a).trans ((if_pos rfl).trans hload), ?_, ?_⟩
    · rw [prev_push, hload]
      exact Function.update_self ..
    · have hl : ∀ x ∈ l, x ≠ a := fun x hx => hne x (List.mem_cons_of_mem _ hx)
      refine hrest.congr (next_push_of_ne (hne n List.mem_cons_self))
        (fun x hx => next_push_of_ne (hl x hx)) fun x hx => prev_push_of_ne (hl x hx) ?_
      rw [hload]
      rintro ⟨⟩
      exact (List.nodup_cons.mp hnodup).1 hx

/-- **Pushing.** -/
theorem Holds.push (h : m.Holds L) (ha : ∀ q, a ∉ L q) (q : ρ) :
    (m.push q a).Holds (Function.update L q (a :: L q)) := by
  have hne : ∀ q' x, x ∈ L q' → x ≠ a := fun q' x hx => ne_of_mem_of_not_mem hx (ha q')
  refine h.update ((h.linked q).push (h.nodup q) (ha q))
    (List.nodup_cons.mpr ⟨ha q, h.nodup q⟩) (fun x hx => ?_) (fun q' hq' => ?_) fun x hx hx' => ?_
  · rcases List.mem_cons.mp hx with rfl | hx
    · exact .inr ha
    · exact .inl hx
  · refine (h.linked q').congr ((head_push q').trans (if_neg hq'))
      (fun x hx => next_push_of_ne (hne q' x hx)) fun x hx => ?_
    exact prev_push_of_ne (hne q' x hx) fun he => h.apart q' q hq' x hx (h.mem_of_head he)
  · obtain ⟨hxa, hxq⟩ := not_or.mp (mt List.mem_cons.mpr hx)
    rw [prev_push_of_ne hxa fun he => hxq (h.mem_of_head he)]
    refine h.out x fun q' => ?_
    rcases eq_or_ne q' q with rfl | hq'
    · exact hxq
    · exact hx' q' hq'

/-! ### Taking an element out -/

/-- The memory after the element `a` was taken out of the place `p`. -/
def unlinked (m : Chains ρ α) (a : α) (p : Place ρ α) : Chains ρ α :=
  ((m.store p (m.next a)).relink a (some p)).setPrev a none

theorem unlink_eq (h : m.prev a = some p) : m.unlink a = some (m.unlinked a p) := by
  have hprev : (m.store p (m.next a)).prev a = some p := by
    rw [prev_store, h]
  rw [unlink, h, Option.map_some]
  dsimp only
  rw [hprev]
  rfl

theorem load_unlinked (p' : Place ρ α) :
    (m.unlinked a p).load p' = if p' = p then m.next a else m.load p' := by
  rw [unlinked, load_setPrev, load_relink]
  by_cases hp : p' = p
  · rw [if_pos hp, hp, load_store_self]
  · rw [if_neg hp, load_store_of_ne hp]

theorem prev_unlinked_self : (m.unlinked a p).prev a = none := Function.update_self ..

/-- The back pointer of the element behind. -/
theorem prev_unlinked_next (hp : p ≠ .next a) (hb : m.next a = some b) (hba : b ≠ a) :
    (m.unlinked a p).prev b = some p := by
  have hnext : (m.store p (m.next a)).next a = some b :=
    (show (m.store p (m.next a)).load (.next a) = m.load (.next a) from
      load_store_of_ne hp.symm).trans hb
  rw [unlinked, relink, hnext]
  exact (Function.update_of_ne hba _ _).trans (Function.update_self ..)

/-- No other one changes. -/
theorem prev_unlinked_of_ne (hp : p ≠ .next a) (hba : b ≠ a) (hb : m.next a ≠ some b) :
    (m.unlinked a p).prev b = m.prev b := by
  have hnext : (m.store p (m.next a)).next a = m.next a :=
    show (m.store p (m.next a)).load (.next a) = m.load (.next a) from load_store_of_ne hp.symm
  rw [unlinked, relink, hnext]
  refine (Function.update_of_ne hba _ _).trans ?_
  cases hn : m.next a with
  | none => exact congrFun prev_store b
  | some n =>
    have hbn : b ≠ n := fun e => hb (by rw [hn, e])
    exact (Function.update_of_ne hbn _ _).trans (congrFun prev_store b)

/-- The first element from a place on is taken out. -/
theorem From.unlink_head (h : m.From p (a :: l)) (hnodup : (a :: l).Nodup)
    (hp : ∀ b ∈ a :: l, p ≠ .next b) : (m.unlinked a p).From p l := by
  obtain ⟨-, -, hrest⟩ := h
  have hpa : p ≠ .next a := hp a List.mem_cons_self
  cases l with
  | nil => exact (load_unlinked p).trans ((if_pos rfl).trans hrest)
  | cons n l =>
    obtain ⟨hn, -, hrest⟩ := hrest
    have hn : m.next a = some n := hn
    obtain ⟨ha, hnodup⟩ := List.nodup_cons.mp hnodup
    have hne : ∀ x ∈ n :: l, x ≠ a := fun x hx => ne_of_mem_of_not_mem hx ha
    have hnext : ∀ x ∈ n :: l, (m.unlinked a p).next x = m.next x := fun x hx =>
      (load_unlinked (.next x)).trans (if_neg (hp x (List.mem_cons_of_mem _ hx)).symm)
    refine ⟨(load_unlinked p).trans ((if_pos rfl).trans hn),
      prev_unlinked_next hpa hn (hne n List.mem_cons_self), ?_⟩
    refine hrest.congr (hnext n List.mem_cons_self)
      (fun x hx => hnext x (List.mem_cons_of_mem _ hx)) fun x hx => ?_
    refine prev_unlinked_of_ne hpa (hne x (List.mem_cons_of_mem _ hx)) ?_
    rw [hn]
    rintro ⟨⟩
    exact (List.nodup_cons.mp hnodup).1 hx

/-- **Unlinking**, in the list from a place on. -/
theorem From.unlink {pre post : List α} (h : m.From p (pre ++ a :: post))
    (hnodup : (pre ++ a :: post).Nodup) (hp : ∀ b ∈ pre ++ a :: post, p ≠ .next b) :
    ∃ p', m.prev a = some p' ∧ (p' = p ∨ ∃ b ∈ pre, p' = .next b) ∧
      (m.unlinked a p').From p (pre ++ post) := by
  induction pre generalizing p with
  | nil => exact ⟨p, h.2.1, .inl rfl, h.unlink_head hnodup hp⟩
  | cons b pre ih =>
    obtain ⟨hload, hback, hrest⟩ := h
    obtain ⟨hb, hnodup⟩ := List.nodup_cons.mp hnodup
    have hpb : ∀ x ∈ pre ++ a :: post, (Place.next b : Place ρ α) ≠ .next x := by
      rintro x hx ⟨⟩
      exact hb hx
    obtain ⟨p', hprev, hplace, hfrom⟩ := ih hrest hnodup hpb
    refine ⟨p', hprev, .inr ?_, ?_, ?_, hfrom⟩
    · rcases hplace with rfl | ⟨x, hx, rfl⟩
      · exact ⟨b, List.mem_cons_self, rfl⟩
      · exact ⟨x, List.mem_cons_of_mem _ hx, rfl⟩
    · -- the place that is written is behind this one
      have hpp' : p ≠ p' := by
        rcases hplace with rfl | ⟨x, hx, rfl⟩
        · exact hp b List.mem_cons_self
        · exact hp x (List.mem_cons_of_mem _ (List.mem_append_left _ hx))
      exact (load_unlinked p).trans ((if_neg hpp').trans hload)
    · have hp'a : p' ≠ .next a := by
        rcases hplace with rfl | ⟨x, hx, rfl⟩
        · exact hpb a (by simp)
        · rintro ⟨⟩
          exact (List.nodup_append.mp hnodup).2.2 a hx a List.mem_cons_self rfl
      -- the element behind `a` is in the rest of the list
      refine (prev_unlinked_of_ne hp'a (fun e => hb (e ▸ by simp)) fun hn => ?_).trans hback
      have hmem := hrest.behind.mem_of_load hn
      exact hb (by simp [hmem])

/-- **Unlinking.** An element is taken out of the list that it is in. -/
theorem Holds.unlink (h : m.Holds L) (ha : a ∈ L q) :
    ∃ m', m.unlink a = some m' ∧ m'.Holds (Function.update L q ((L q).erase a)) := by
  obtain ⟨pre, post, hL⟩ := List.append_of_mem ha
  have hnodup := h.nodup q
  have hlinked := h.linked q
  have herase : (L q).erase a = pre ++ post := by
    rw [hL] at hnodup ⊢
    have hpre : a ∉ pre := fun hc => (List.nodup_append.mp hnodup).2.2 a hc a List.mem_cons_self rfl
    rw [List.erase_append_right _ hpre, List.erase_cons_head]
  rw [hL] at hnodup hlinked
  obtain ⟨p, hprev, hplace, hfrom⟩ := hlinked.unlink hnodup fun b _ => by simp
  have hmem : ∀ b ∈ pre, b ∈ L q := fun b hb => by simp [hL, hb]
  have hpa : p ≠ .next a := by
    rcases hplace with rfl | ⟨b, hb, rfl⟩
    · simp
    · rintro ⟨⟩
      exact (List.nodup_append.mp hnodup).2.2 a hb a List.mem_cons_self rfl
  -- elements of other lists, and elements of no list, are not touched
  have hback : ∀ x, x ∉ L q → (m.unlinked a p).prev x = m.prev x := by
    intro x hx
    refine prev_unlinked_of_ne hpa (ne_of_mem_of_not_mem ha hx).symm fun hn => hx ?_
    have hpost := hlinked.behind.mem_of_load hn
    simp [hL, hpost]
  refine ⟨_, unlink_eq hprev, h.update (herase ▸ hfrom) ((h.nodup q).erase a)
    (fun x hx => .inl (List.mem_of_mem_erase hx)) (fun q' hq' => ?_) fun x hx hx' => ?_⟩
  · have hout : ∀ x ∈ L q', x ∉ L q := h.apart q' q hq'
    refine (h.linked q').congr ?_ ?_ fun x hx => hback x (hout x hx)
    · refine (load_unlinked _).trans (if_neg ?_)
      rcases hplace with rfl | ⟨b, hb, rfl⟩
      · exact fun e => hq' (Place.head.inj e)
      · simp
    · intro x hx
      refine (load_unlinked (.next x)).trans (if_neg ?_)
      rcases hplace with rfl | ⟨b, hb, rfl⟩
      · simp
      · rintro ⟨⟩
        exact hout x hx (hmem x hb)
  · by_cases hxa : x = a
    · rw [hxa]
      exact prev_unlinked_self
    · have hxq : x ∉ L q := fun hc => hx ((List.mem_erase_of_ne hxa).mpr hc)
      rw [hback x hxq]
      refine h.out x fun q' => ?_
      rcases eq_or_ne q' q with rfl | hq'
      · exact hxq
      · exact hx' q' hq'

/-- The same, for an element of which the list is not known. -/
theorem Holds.erase (h : m.Holds L) (ha : a ∈ L q) :
    ∃ m', m.unlink a = some m' ∧ m'.Holds fun q => (L q).erase a := by
  obtain ⟨m', hm', hholds⟩ := h.unlink ha
  have hL : (fun q => (L q).erase a) = Function.update L q ((L q).erase a) := by
    funext q'
    by_cases hq : q' = q
    · rw [hq, Function.update_self]
    · rw [Function.update_of_ne hq]
      exact List.erase_of_not_mem (h.apart q q' (Ne.symm hq) a ha)
  rw [hL]
  exact ⟨m', hm', hholds⟩

omit [DecidableEq ρ] in
/-- Elements that are in no list may be overwritten. -/
theorem Holds.forget (h : m.Holds L) (ha : ∀ q, a ∉ L q) : (m.forget a).Holds L := by
  have hne : ∀ q, ∀ x ∈ L q, x ≠ a := fun q x hx => ne_of_mem_of_not_mem hx (ha q)
  refine ⟨fun q => ?_, h.nodup, h.apart, fun x hx => ?_⟩
  · refine (h.linked q).congr rfl ?_ ?_
    · intro x hx
      exact Function.update_of_ne (hne q x hx) _ _
    · intro x hx
      exact Function.update_of_ne (hne q x hx) _ _
  · by_cases hxa : x = a
    · rw [hxa]
      exact Function.update_self ..
    · exact (Function.update_of_ne hxa _ _).trans (h.out x hx)

end Chains

end NginxEngine
