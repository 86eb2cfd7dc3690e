import Mathlib.Algebra.Ring.Int.Defs
import Mathlib.Algebra.Ring.Nat
import Mathlib.Data.List.Basic
import NginxEngine.XS.Event

/-!
# Perl scalars in the read and write buffers

What `ngxe_connection.c` sees of a scalar: the string of the read buffer with its
allocated size (`SvCUR`, `SvLEN`), and the kinds of value that a program can put
into the write buffer. The progress of a write is a C `int` that is mixed with
64-bit lengths, so both conversions are spelled out.
-/

namespace NginxEngine.XS

abbrev Bytes := List UInt8

/-- The string in `s->reader_buffer`: `SvCUR` is the length of `data`. It is the scalar's own; one
    that a copy-on-write assignment shares with another buffer is in `XS.Intake`. -/
structure ReadBuffer where
  data : Bytes
  /-- `SvLEN`. -/
  len : Nat
deriving DecidableEq, Repr

namespace ReadBuffer

/-- `SvCUR`. -/
def cur (b : ReadBuffer) : Nat := b.data.length

/-- `SvGROW(sv, n)`. -/
def svGrow (b : ReadBuffer) (n : Nat) : ReadBuffer := { b with len := max b.len n }

end ReadBuffer

/-- The tiers of the `ngxe_buf_newsv` and `ngxe_buf_svgrow` macros. -/
def bufTier (pagesize s : Nat) : Nat :=
  if s ≤ 4080 then 4080
  else if s ≤ 32768 then 32768 + pagesize - 16
  else if s ≤ 262144 then 262144 + pagesize - 16
  else if s ≤ 1048576 then 1048576 + pagesize - 16
  else if s ≤ 4194304 then 4194304
  else s

/-- `newSV(n)` allocates `n + 1` bytes. -/
def ngxeBufNewsv (pagesize s : Nat) : ReadBuffer := ⟨[], bufTier pagesize s + 1⟩

def ngxeBufSvgrow (pagesize : Nat) (b : ReadBuffer) (s : Nat) : ReadBuffer :=
  b.svGrow (bufTier pagesize s)

/-- A value in the write buffer `$_[3]`. -/
inductive Sv
  | undef
  /-- A plain string. -/
  | str (b : Bytes)
  /-- A reference to a string (`SVt_PV`). -/
  | rv (b : Bytes)
  /-- A reference to an array; `none` is an element that is not a reference. -/
  | av (xs : List (Option Bytes))
  /-- A reference to anything else. -/
  | rvOther
deriving DecidableEq, Repr

namespace Sv

/-- `SvROK`. -/
def rok : Sv → Bool
  | .rv _ | .av _ | .rvOther => true
  | .undef | .str _ => false

/-- `SvPOK(sv) && SvCUR(sv) > 0`. -/
def pokNonempty : Sv → Bool
  | .str b => !b.isEmpty
  | _ => false

/-- `SvCUR` of the buffer itself, of a scalar that has a body: there a reference leaves it 0. The
    `undef` of a scalar without one is in `XS.Transmit`. For `undef` over a string Perl keeps
    the length of the string; it counts as 0 here. -/
def cur : Sv → Nat
  | .str b => b.length
  | _ => 0

/-- `SvCUR(SvRV(sv))`. For an array the field is its `xav_fill`, which is -1 when
    the array is empty. -/
def rvCur : Sv → Nat
  | .rv b => b.length
  | .av xs => if xs.isEmpty then 2 ^ 64 - 1 else xs.length - 1
  | _ => 0

/-- `SvPOK_on` for a value of no supported type. -/
def pokOn : Sv → Sv
  | .undef => .str []
  | sv => sv

/-- The bytes a load asks to send. -/
def bytes : Sv → Bytes
  | .str b | .rv b => b
  | .av xs => (xs.map (·.getD [])).flatten
  | .undef | .rvOther => []

end Sv

/-- The value of an expression stored into a C `int`. -/
def toInt32 (x : Int) : Int := x.bmod (2 ^ 32)

/-- The value of a `size_t` expression stored into an `ssize_t`. -/
def toSsize (x : Int) : Int := x.bmod (2 ^ 64)

/-- `cur = SvCUR(svbuf) - s->writer_offset`. -/
def remaining (b : Bytes) (offset : Int) : Int := toSsize (b.length - offset)

theorem toInt32_eq {x : Int} (h0 : 0 ≤ x) (h : x < 2 ^ 31) : toInt32 x = x := by
  simp only [toInt32, Int.bmod]
  omega

theorem toSsize_eq {x : Int} (h0 : -2 ^ 31 ≤ x) (h : x < 2 ^ 63) : toSsize x = x := by
  simp only [toSsize, Int.bmod]
  omega

end NginxEngine.XS
