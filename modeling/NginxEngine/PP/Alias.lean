import Mathlib.Logic.Function.Basic
import NginxEngine.PP.Process

/-!
# The variable that `_write` is given

`_write` finds its connection in `$_[0]`. That is an alias of the variable which the program has
given to `ngxe_writer_start`, `ngxe_writer_buffer_set` or `ngxe_reader_stop_writer_start`, and the
callback that `_write` calls may assign that variable. The code after the callback then goes on
with what the variable holds by that time. The machines of one connection and of a process take
the variable for what it was; the machines here add the returns of a callback after which it is
something else. The variables of `ngxe_writer`, `_read` and `ngxe_loop` are their own.

## Main definitions

- `Op.givesVariable` — the calls that hand a variable of the program down to `_write`
- `Sys.stray`, `aliased` — what the assignment of such a variable does to one connection
- `Process.retTo`, `Process.aliased` — what it does to a process
- `Unassigned`, `Process.Unassigned` — no such variable is assigned

## Main results

- `AliasReachable.reachable`, `Process.AliasReachable.reachable` — then the runs are the same
-/

namespace NginxEngine.PP

/-- The call gives `_write` a variable of the program. -/
def Op.givesVariable : Op → Bool
  | .writerStart _ | .writerBufferSet _ | .readerStopWriterStart => true
  | _ => false

/-- At which depths of the stack the last call of Perl code has given `_write` a variable. -/
abbrev Given := Nat → Bool

/-! ### One connection -/

/-- What a variable that was assigned has to do with one connection. -/
inductive Stray
  /-- The callback in `_write` returns, and the variable no longer holds the connection. -/
  | away
  /-- A `_write` of another connection goes on with this one after its callback. -/
  | into (error : Bool)
deriving DecidableEq, Repr

namespace Sys

def noteCall (s : Sys) (i : Input) (given : Given) : Given :=
  match i with
  | .op o => Function.update given s.stack.length o.givesVariable
  | _ => given

/-- Perl code is below the `_write` in question: it was not called by `ngxe_loop`. -/
def stray (s : Sys) (given : Given) : Stray → Option Sys
  | .away =>
    match s.stack with
    | .writeDone _ :: rest =>
      if given rest.length ∧ rest.head?.any Frame.isPerl then some { s with stack := rest }
      else none
    | _ => none
  | .into error =>
    if s.stack.head?.any Frame.isPerl then some { s with v := afterWrite s.now s.v error }
    else none

end Sys

/-- One connection, with the variables of the program and with notes, of which `given` tells the
    depths at which `_write` was given one. -/
def aliased {γ : Type} (note : Sys → Input → γ → γ) (given : γ → Given) :
    Machine (Sys × γ) (Input ⊕ Stray) :=
  (engine.withNotes note).extend fun s x => (s.1.stray (given s.2) x).map fun t => (t, s.2)

/-- The states of every run of a connection with variables, of which each step meets `G`. -/
def AliasReachable (G : Sys × Given → Input ⊕ Stray → Prop) (s : Sys) : Prop :=
  ∃ s₀ given, Initial s₀ ∧
    (aliased Sys.noteCall id).Reaches G (s₀, fun _ => false) (s, given)

/-- No variable that `_write` was given is assigned in its callback, and the step meets `G`. -/
def Unassigned (G : Sys → Input → Prop) : Sys × Given → Input ⊕ Stray → Prop :=
  Machine.left fun s i => G s.1 i

instance {G : Sys → Input → Prop} [∀ s i, Decidable (G s i)] (s : Sys × Given)
    (i : Input ⊕ Stray) : Decidable (Unassigned G s i) := by
  unfold Unassigned
  infer_instance

/-- Where no such variable is assigned, the run is one of the connection. -/
theorem AliasReachable.reachable {G : Sys → Input → Prop} {s : Sys}
    (h : AliasReachable (Unassigned G) s) : Reachable G s := by
  obtain ⟨s₀, given, h₀, h⟩ := h
  exact ⟨s₀, h₀, h.of_left.of_withNotes⟩

/-! ### A process -/

/-- What a variable holds that was assigned. -/
inductive Variable
  | conn (k : Nat)
  /-- undef; reading `$_[0]->[CN_CLOSED]` makes it an empty array. -/
  | undef
deriving DecidableEq, Repr

namespace Process

variable {p : Process} {given : Given}

def noteCall (p : Process) (i : PInput) (given : Given) : Given :=
  match i with
  | .op _ o => Function.update given p.stack.length o.givesVariable
  | _ => given

/-- `_write` after its callback, with an empty array for a connection: `CN_CLOSED` is not set,
    `CN_FILENO` counts as 0, and `ngxe_close` dies at `close`. -/
def afterWriteUndef (p : Process) (k : Nat) (error : Bool) (rest : List PFrame) : Process :=
  { p with
    rin := Function.update p.rin 0 (!error)
    rout := Function.update p.rout 0 false
    win := Function.update p.win 0 false
    wout := Function.update p.wout 0 false
    stack := if error then .conn k .crash :: rest else rest }

/-- The callback in a `_write` that was given a variable returns, and the variable holds `x`. -/
def retTo (p : Process) (given : Given) (x : Variable) : Option Process :=
  match p.stack with
  | .conn k (.writeDone error) :: rest =>
    if given rest.length ∧ { p with stack := rest }.inPerl then
      match x with
      | .conn j =>
        if j < p.made then some (p.finish j (afterWrite p.now (p.view j) error, []) rest) else none
      | .undef => some (p.afterWriteUndef k error rest)
    else none
  | _ => none

/-- A process, with the variables of the program. -/
def aliased : Machine (Process × Given) (PInput ⊕ Variable) :=
  (process.withNotes noteCall).extend fun s x => (s.1.retTo s.2 x).map fun p => (p, s.2)

/-- The states of every run of a process with variables, of which each step meets `G`. -/
def AliasReachable (G : Process × Given → PInput ⊕ Variable → Prop) (p : Process) : Prop :=
  ∃ now t given, aliased.Reaches G (init now t, fun _ => false) (p, given)

/-- No variable that `_write` was given is assigned in its callback, and the step meets `G`. -/
def Unassigned (G : Process → PInput → Prop) : Process × Given → PInput ⊕ Variable → Prop :=
  Machine.left fun s i => G s.1 i

instance {G : Process → PInput → Prop} [∀ p i, Decidable (G p i)] (s : Process × Given)
    (i : PInput ⊕ Variable) : Decidable (Unassigned G s i) := by
  unfold Unassigned
  infer_instance

/-- Where no such variable is assigned, the run is one of the process. -/
theorem AliasReachable.reachable {G : Process → PInput → Prop}
    (h : p.AliasReachable (Unassigned G)) : p.Reachable G := by
  obtain ⟨now, t, given, h⟩ := h
  exact ⟨now, t, h.of_left.of_withNotes⟩

end Process

end NginxEngine.PP
