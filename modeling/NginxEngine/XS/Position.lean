import NginxEngine.Chunks
import NginxEngine.XS.Segments

/-!
# The position of a write

A write is resumed at `s->writer_index`, `s->writer_offset`. What is left of a load behind that
position, where the `NEXTBUF` loop takes it, and when the mixed arithmetic on the offset is exact.

## Main definitions

- `Conn.unsent` — what is left of a load of references
- `Conn.PosOk` — the position lies inside the load

## Main results

- `remaining_eq` — `cur` is the length of what is left of a scalar shorter than 2^31 bytes
- `nextBuf_spec` — `NEXTBUF` skips nothing but empty elements
-/

namespace NginxEngine.XS

variable {c : Conn}

/-- A scalar reference or an array. -/
def Sv.isRef : Sv → Bool
  | .rv _ | .av _ => true
  | _ => false

/-- Every scalar of the load is shorter than 2^31 bytes. -/
def Sv.small : Sv → Bool
  | .rv b => decide (b.length < 2 ^ 31)
  | .av xs => xs.all fun e => decide ((e.getD []).length < 2 ^ 31)
  | _ => true

/-- The bytes of the elements from an offset into the first one on. -/
def tailBytes : List (Option Bytes) → Int → Bytes
  | [], _ => []
  | e :: rest, offset => (e.getD []).drop offset.toNat ++ (rest.map (·.getD [])).flatten

/-- What is left to be sent of a load at the position of the session. -/
def Conn.unsent (c : Conn) : Sv → Bytes
  | .rv b => b.drop c.writerOffset.toNat
  | .av xs => tailBytes (xs.drop c.writerIndex) c.writerOffset
  | _ => []

/-- The offset lies within the first element. -/
def OffsetOk : List (Option Bytes) → Int → Prop
  | [], offset => offset = 0
  | e :: _, offset => 0 ≤ offset ∧ offset ≤ (e.getD []).length

def Conn.PosOk (c : Conn) : Sv → Prop
  | .rv b => c.writerOffset = 0 ∨ 0 ≤ c.writerOffset ∧ c.writerOffset < b.length
  | .av xs => OffsetOk (xs.drop c.writerIndex) c.writerOffset
  | _ => True

/-- The elements as chunks. -/
theorem tailBytes_eq_rest (xs : List (Option Bytes)) (offset : Int) :
    tailBytes xs offset = Chunks.rest (xs.map (·.getD [])) offset.toNat := by
  cases xs with
  | nil => rfl
  | cons e rest => rfl

theorem tailBytes_zero (xs : List (Option Bytes)) :
    tailBytes xs 0 = (xs.map (·.getD [])).flatten :=
  (tailBytes_eq_rest xs 0).trans (Chunks.rest_zero _)

theorem offsetOk_zero (xs : List (Option Bytes)) : OffsetOk xs 0 := by
  cases xs with
  | nil => rfl
  | cons e rest => exact ⟨Int.le_refl 0, Int.natCast_nonneg _⟩

theorem tailBytes_suffix (xs : List (Option Bytes)) (offset : Int) :
    tailBytes xs offset <:+ (xs.map (·.getD [])).flatten := by
  rw [tailBytes_eq_rest]
  exact Chunks.rest_suffix _ _

theorem tailBytes_drop_suffix (xs : List (Option Bytes)) (index : Nat) (offset : Int) :
    tailBytes (xs.drop index) offset <:+ (xs.map (·.getD [])).flatten := by
  rw [tailBytes_eq_rest, List.map_drop]
  exact Chunks.rest_drop_suffix _ _ _

theorem unsent_suffix (c : Conn) (sv : Sv) : c.unsent sv <:+ sv.bytes := by
  cases sv with
  | rv b => exact List.drop_suffix _ _
  | av xs => exact tailBytes_drop_suffix _ _ _
  | undef => exact List.suffix_refl _
  | str b => exact ⟨b, by simp [Conn.unsent, Sv.bytes]⟩
  | rvOther => exact List.suffix_refl _

theorem posOk_zero (ho : c.writerOffset = 0) (sv : Sv) : c.PosOk sv := by
  cases sv with
  | rv b => simp [Conn.PosOk, ho]
  | av xs =>
    rw [Conn.PosOk, ho]
    exact offsetOk_zero _
  | undef => trivial
  | str b => trivial
  | rvOther => trivial

/-- `remaining` is the length of what is left of a scalar. -/
theorem remaining_eq {b : Bytes} {offset : Int} (hb : b.length < 2 ^ 31) (h0 : 0 ≤ offset)
    (h : offset ≤ b.length) : remaining b offset = b.length - offset := by
  rw [remaining]
  exact toSsize_eq (by omega) (by omega)

theorem remaining_le_zero {b : Bytes} {offset : Int} (hb : b.length < 2 ^ 31) (h0 : 0 ≤ offset)
    (h : offset ≤ b.length) : remaining b offset ≤ 0 ↔ b.drop offset.toNat = [] := by
  rw [remaining_eq hb h0 h, List.drop_eq_nil_iff]
  omega

/-- Where `NEXTBUF` stops, what is left to be sent is the same as before. -/
theorem nextBuf_spec (xs : List (Option Bytes)) (index : Nat) (offset : Int)
    (hsmall : ∀ e ∈ xs, (e.getD []).length < 2 ^ 31) (ho : OffsetOk xs offset) :
    match nextBuf xs index offset with
    | .done _ offset' => tailBytes xs offset = [] ∧ offset' = 0
    | .notRef => none ∈ xs
    | .send index' offset' => ∃ k b, index' = index + k ∧ xs[k]? = some (some b) ∧
        0 < remaining b offset' ∧ OffsetOk (xs.drop k) offset' ∧
        tailBytes (xs.drop k) offset' = tailBytes xs offset ∧ (offset = 0 → offset' = 0) := by
  induction xs generalizing index offset with
  | nil => exact ⟨rfl, ho⟩
  | cons e rest ih =>
    cases e with
    | none => exact List.mem_cons_self
    | some b =>
      have hb : b.length < 2 ^ 31 := hsmall (some b) (by simp)
      obtain ⟨h0, hle⟩ := ho
      have hle : offset ≤ b.length := hle
      rw [nextBuf]
      by_cases hrem : remaining b offset ≤ 0
      · rw [if_pos hrem]
        have hempty : b.drop offset.toNat = [] := (remaining_le_zero hb h0 hle).mp hrem
        have htail : tailBytes (some b :: rest) offset = tailBytes rest 0 := by
          rw [tailBytes_eq_rest, tailBytes_eq_rest]
          exact Chunks.rest_next (List.drop_eq_nil_iff.mp hempty)
        have hrest := ih (index + 1) 0 (fun e he => hsmall e (by simp [he])) (offsetOk_zero rest)
        rw [htail]
        revert hrest
        cases nextBuf rest (index + 1) 0 with
        | done index' offset' => exact id
        | notRef => exact List.mem_cons_of_mem _
        | send index' offset' =>
          rintro ⟨k, b', hk, hx, hpos, hok, heq, hz⟩
          exact ⟨k + 1, b', by omega, hx, hpos, hok, heq, fun _ => hz rfl⟩
      · rw [if_neg hrem]
        exact ⟨0, b, rfl, rfl, by omega, ⟨h0, hle⟩, rfl, id⟩

theorem drop_toNat_add {b : Bytes} {offset : Int} {n : Nat} (h0 : 0 ≤ offset) :
    b.drop offset.toNat = (b.drop offset.toNat).take n ++ b.drop (offset + n).toNat := by
  have hadd : (offset + n).toNat = offset.toNat + n := by omega
  rw [hadd, ← List.drop_drop, List.take_append_drop]

/-- The bytes of an array as the offset moves on inside an element. -/
theorem tailBytes_advance {b : Bytes} {rest : List (Option Bytes)} {offset : Int} {n : Nat}
    (h0 : 0 ≤ offset) : tailBytes (some b :: rest) offset =
      (b.drop offset.toNat).take n ++ tailBytes (some b :: rest) (offset + n) := by
  have hnat : (offset + n).toNat = offset.toNat + n := by omega
  rw [tailBytes_eq_rest, tailBytes_eq_rest, hnat]
  exact Chunks.rest_advance b _ _ n

end NginxEngine.XS
