import Mathlib.Data.List.Basic

/-!
# A pipe that keeps what comes in and hands it on

What is received is kept until it is handed over to be sent, and what is handed over is sent
piecemeal. Nothing is lost, doubled or put out of order as long as nothing is handed over before
everything handed over earlier was sent.

## Main definitions

- `Pipe` — what was received and sent, and what is still inside
- `Pipe.receive`, `Pipe.send` — what moves from outside and to it
- `Pipe.Conserved` — what was received is what was sent and what is still inside

## Main results

- `Pipe.Conserved.receive`, `Pipe.Conserved.send` — the moves keep it
- `Pipe.Conserved.received_eq`, `Pipe.conserved_of_received_eq` — before and after what is kept is
  handed over
-/

namespace NginxEngine

@[ext]
structure Pipe (α : Type*) where
  received : List α
  sent : List α
  /-- Handed over and not sent yet. -/
  unsent : List α
  /-- Received and not handed over yet. -/
  kept : List α
deriving DecidableEq, Repr

namespace Pipe

variable {α : Type*} {p : Pipe α}

def receive (p : Pipe α) (b : List α) : Pipe α :=
  { p with received := p.received ++ b, kept := p.kept ++ b }

def send (p : Pipe α) (n : Nat) : Pipe α :=
  { p with sent := p.sent ++ p.unsent.take n, unsent := p.unsent.drop n }

def Conserved (p : Pipe α) : Prop := p.received = p.sent ++ p.unsent ++ p.kept

@[simp] theorem receive_nil : p.receive [] = p := by
  simp [receive]

theorem receive_receive (b b' : List α) : (p.receive b).receive b' = p.receive (b ++ b') := by
  simp [receive]

@[simp] theorem send_zero : p.send 0 = p := by
  simp [send]

theorem Conserved.receive (h : p.Conserved) (b : List α) : (p.receive b).Conserved := by
  rw [Conserved] at h
  simp [Conserved, Pipe.receive, h]

/-- What is kept may be handed over once all that was handed over before is sent. -/
theorem Conserved.received_eq (h : p.Conserved) (hu : p.unsent = []) :
    p.received = p.sent ++ p.kept := by
  rw [Conserved, hu, List.append_nil] at h
  exact h

/-- It is handed over once it is no longer kept. -/
theorem conserved_of_received_eq (h : p.received = p.sent ++ p.unsent) (hk : p.kept = []) :
    p.Conserved := by
  rw [Conserved, hk, List.append_nil]
  exact h

theorem Conserved.send (h : p.Conserved) (n : Nat) : (p.send n).Conserved := by
  rw [Conserved] at h
  simp [Conserved, Pipe.send, h]

/-- What was sent is the beginning of what was received. -/
theorem Conserved.sent_le (h : p.Conserved) : p.sent <+: p.received :=
  ⟨p.unsent ++ p.kept, by rw [← List.append_assoc, ← h]⟩

end Pipe

end NginxEngine
