import NginxEngine.Recycle
import NginxEngine.PP.SelectSets

/-!
# The pool of buffers

`ngxe_reader` and `ngxe_writer` give a connection its two buffers, which `ngxe_xbuf` takes from
`@XBUFSPOOL` or creates, and `ngxe_close` puts them back with `ngxe_xbuffree`. A connection has
references only: the engine here keeps scalars in a store that all connections share, runs each
piece of code on the buffers that the references of its connection lead to, and writes them back
through them. The machine of `NginxEngine.PP.Process`, in which a connection has buffers of its
own, is what it is meant to be.

`ngxe_writer_buffer_set` on a connection without buffers makes a scalar that `ngxe_xbuf` has not
created; runs are considered in which the program does not call it there.

## Main definitions

- `XBufs` — the scalars, the pool and its counters
- `ngxeXbuf`, `ngxeXbuffree` — take a buffer, give it back
- `Pooled` — a process whose connections have references to their buffers
- `BuffersOwned` — every scalar is in one place, and the counters count them
- `BuffersApart` — a step does what it does with buffers that are not shared

## Main results

- `buffers_owned` — both hold in every run
- `pooled_refines` — every run is one of the process in which buffers are not shared
-/

namespace NginxEngine.PP

open NginxEngine.XS (Bytes Sv)

inductive Side
  | read
  | write
deriving DecidableEq, Repr

def Side.pick {α : Type} (r w : α) : Side → α
  | .read => r
  | .write => w

/-- `CN_RBUF` and `CN_WBUF` of the connections. -/
abbrev Slot := Nat × Side

/-- The scalars, `@XBUFSPOOL`, what refers to them, and `XBUFSINUSE`, `XBUFSFREE`, `XBUFSREUSED`
    and `XBUFSCREATED`. -/
structure XBufs where
  store : Recycle Slot Sv
  inuse : Int
  free : Int
  reused : Int
  created : Int

namespace XBufs

def init : XBufs := ⟨.empty .undef, 0, 0, 0, 0⟩

/-- `$c->[...] = ngxe_xbuf()`. -/
def ngxeXbuf (b : XBufs) (s : Slot) : XBufs :=
  if b.store.free.isEmpty then
    { b with
      created := b.created + 1
      inuse := b.inuse + 1
      store := b.store.attach s (.str []) }
  else
    { b with
      free := b.free - 1
      inuse := b.inuse + 1
      reused := b.reused + 1
      store := b.store.attach s (.str []) }

/-- `ngxe_xbuffree($c->[...])`, and the reference is deleted. -/
def ngxeXbuffree (b : XBufs) (s : Slot) : XBufs :=
  { b with
    store := b.store.detach s
    free := b.free + 1
    inuse := b.inuse - 1 }

/-- `$c->[...] = ngxe_xbuf() if !defined $c->[...]`. -/
def take (b : XBufs) (s : Slot) : XBufs := if (b.store.slot s).isSome then b else b.ngxeXbuf s

/-- The buffers in `ngxe_reader` and `ngxe_writer`. -/
def takeBoth (b : XBufs) (k : Nat) : XBufs := (b.take (k, .read)).take (k, .write)

/-- `if (defined $c->[...]) { ngxe_xbuffree($c->[...]); delete $c->[...] }`. -/
def give (b : XBufs) (s : Slot) : XBufs := if (b.store.slot s).isSome then b.ngxeXbuffree s else b

/-- The buffers in `ngxe_close`. -/
def giveBoth (b : XBufs) (k : Nat) : XBufs := (b.give (k, .read)).give (k, .write)

/-- `${$c->[...]} = ...`. -/
def write (b : XBufs) (s : Slot) (sv : Sv) : XBufs := { b with store := b.store.write s sv }

/-- Write the buffers of a connection through its references. -/
def writeBoth (b : XBufs) (k : Nat) (c : Conn) : XBufs :=
  (b.write (k, .read) (.str (c.rbuf.getD []))).write (k, .write) (c.wbuf.getD .undef)

/-- A connection with the buffers that its references lead to. -/
def conn (b : XBufs) (k : Nat) (c : Conn) : Conn :=
  { c with
    rbuf := (b.store.read (k, .read)).map Sv.bytes
    wbuf := b.store.read (k, .write) }

end XBufs

/-- A process whose connections have references to their buffers; those that stand in `proc` are
    not used. -/
structure Pooled where
  proc : Process
  bufs : XBufs

/-- The connection whose code waits on top of the stack. -/
def Process.top (p : Process) : Option Nat :=
  match p.stack with
  | .conn k _ :: _ => some k
  | _ => none

/-- The connection whose code runs. -/
def Process.actor (p : Process) : PInput → Option Nat
  | .dispatch fno => p.fdset fno
  | .op k _ => some k
  | .next | .sysread _ | .syswrite _ | .accept _ | .connect _ | .ret => p.top
  | .tick _ | .select _ _ | .enter | .leave | .server _ | .client _ _ => none

namespace Pooled

def init (now t : Int) : Pooled := ⟨.init now t, .init⟩

/-- The process with the buffers that the references lead to. -/
def load (x : Pooled) : Process :=
  { x.proc with conns := fun k => x.bufs.conn k (x.proc.conns k) }

/-- `ngxe_reader` and `ngxe_writer` give the connection its buffers before they go on. -/
def prepare (x : Pooled) : PInput → Pooled
  | .op k (.reader _ _) | .op k (.writer _ _ _) => { x with bufs := x.bufs.takeBoth k }
  | _ => x

/-- The buffers after a piece of code that has led from `c` to `c'`. -/
def commit (b : XBufs) (k : Nat) (c c' : Conn) : XBufs :=
  if !c.closed && c'.closed then b.giveBoth k else b.writeBoth k c'

/-- The code of a connection runs on the buffers that its references lead to. -/
def run (x : Pooled) (i : PInput) : Option Pooled :=
  (x.load.step i).map fun p =>
    match x.load.actor i with
    | some k => ⟨p, commit x.bufs k (x.load.conns k) (p.conns k)⟩
    | none => ⟨p, x.bufs⟩

def step (x : Pooled) (i : PInput) : Option Pooled := (x.prepare i).run i

end Pooled

def pooled : Machine Pooled PInput := ⟨Pooled.step⟩

variable {b : XBufs} {s : Slot} {sv : Sv} {n k : Nat} {c c' : Conn} {x x' : Pooled}
  {p p' : Process} {i : PInput} {v : View} {o : Outcome} {now t : Int}

/-- `ngxe_writer_buffer_set` is called where there is a write buffer. -/
def BuffersThere (x : Pooled) : PInput → Prop
  | .op k (.writerBufferSet _) => ((x.load.conns k).wbuf).isSome = true
  | _ => True

instance : Decidable (BuffersThere x i) := by
  unfold BuffersThere
  induction i with
  | op k o => induction o <;> infer_instance
  | _ => infer_instance

/-- The states of every run in which it is so. -/
def Pooled.Reachable (x : Pooled) : Prop := ∃ now t, pooled.Reaches BuffersThere (.init now t) x

/-- The references of the first `n` connections. -/
def slots (n : Nat) : List Slot := (List.range n).flatMap fun k => [(k, .read), (k, .write)]

/-- Every scalar that `ngxe_xbuf` has created is in one place: once in the pool, or the buffer of
    one open connection; and the counters count them. -/
structure BuffersOwned (x : Pooled) : Prop where
  places : (x.bufs.store.free ++ x.bufs.store.held (slots x.proc.made)).Perm
    (List.range x.bufs.store.made)
  opened : ∀ k side, (x.bufs.store.slot (k, side)).isSome = true →
    k < x.proc.made ∧ (x.proc.conns k).closed = false
  free : x.bufs.free = x.bufs.store.free.length
  inuse : x.bufs.inuse = (x.bufs.store.held (slots x.proc.made)).length
  created : x.bufs.created = x.bufs.store.made
  sum : x.bufs.created = x.bufs.inuse + x.bufs.free

/-- Whatever was in a scalar, a connection gets it empty; a step leaves the buffers of all
    connections alone but for the one whose code runs; and it does what it does with buffers that
    are not shared. -/
structure BuffersApart (x : Pooled) : Prop where
  empty : ∀ s, (x.bufs.ngxeXbuf s).store.read s = some (.str [])
  others : ∀ i x' j, BuffersThere x i → x.step i = some x' → x.load.actor i ≠ some j →
    (x'.load.conns j).rbuf = (x.load.conns j).rbuf ∧
      (x'.load.conns j).wbuf = (x.load.conns j).wbuf
  apart : ∀ i x', BuffersThere x i → x.step i = some x' → x.load.step i = some x'.load

/-! ### The pool -/

namespace XBufs

/-- Every scalar is in one place, and the counters count them. -/
structure Good (b : XBufs) (n : Nat) : Prop where
  owned : b.store.Owned (slots n)
  free : b.free = b.store.free.length
  inuse : b.inuse = (b.store.held (slots n)).length
  created : b.created = b.store.made

/-- What a reference leads to. -/
def read (b : XBufs) (s : Slot) : Option Sv := b.store.read s

theorem read_isSome : (b.read s).isSome = (b.store.slot s).isSome := Option.isSome_map

theorem ngxeXbuf_store : (b.ngxeXbuf s).store = b.store.attach s (.str []) := by
  rw [ngxeXbuf]
  split
  · rfl
  · rfl

/-- Whatever was in it, a scalar is empty when it is given to a connection. -/
theorem Good.read_ngxeXbuf (h : b.Good n) :
    (b.ngxeXbuf s).read = Function.update b.read s (some (.str [])) := by
  show (b.ngxeXbuf s).store.read = _
  rw [ngxeXbuf_store]
  exact h.owned.read_attach

theorem mem_slots {side : Side} (hk : k < n) : (k, side) ∈ slots n := by
  refine List.mem_flatMap.mpr ⟨k, List.mem_range.mpr hk, ?_⟩
  cases side with
  | read => exact List.mem_cons_self
  | write => exact List.mem_cons_of_mem _ List.mem_cons_self

theorem lt_of_mem_slots (hs : s ∈ slots n) : s.1 < n := by
  obtain ⟨k, hk, hs⟩ := List.mem_flatMap.mp hs
  rw [List.mem_cons, List.mem_singleton] at hs
  rcases hs with rfl | rfl
  · exact List.mem_range.mp hk
  · exact List.mem_range.mp hk

theorem slots_succ : slots (n + 1) = slots n ++ [(n, .read), (n, .write)] := by
  rw [slots, List.range_succ, List.flatMap_append]
  rfl

theorem slots_nodup : (slots n).Nodup := by
  induction n with
  | zero => exact .nil
  | succ n ih =>
    rw [slots_succ]
    refine List.nodup_append.mpr ⟨ih, by simp, fun s hs u hu he => ?_⟩
    have hlt := lt_of_mem_slots hs
    rw [he] at hlt
    simp only [List.mem_cons, List.not_mem_nil, or_false] at hu
    rcases hu with rfl | rfl
    · exact Nat.lt_irrefl n hlt
    · exact Nat.lt_irrefl n hlt

theorem Good.lt (h : b.Good n) (hs : (b.store.slot s).isSome = true) : s.1 < n :=
  lt_of_mem_slots (h.owned.inside s hs)

/-- A new connection has no buffers. -/
theorem Good.succ (h : b.Good n) : b.Good (n + 1) := by
  have hnone : ∀ s ∈ [((n, .read) : Slot), (n, .write)], b.store.slot s = none := by
    intro s hs
    by_contra hne
    have hlt := h.lt (Option.isSome_iff_ne_none.mpr hne)
    simp only [List.mem_cons, List.not_mem_nil, or_false] at hs
    rcases hs with rfl | rfl
    · exact Nat.lt_irrefl n hlt
    · exact Nat.lt_irrefl n hlt
  have howned : b.store.Owned (slots (n + 1)) := by
    rw [slots_succ]
    exact h.owned.extend (slots_succ ▸ slots_nodup) hnone
  have hheld : b.store.held (slots (n + 1)) = b.store.held (slots n) := by
    rw [slots_succ, Recycle.held, List.filterMap_append, List.filterMap_eq_nil_iff.mpr hnone,
      List.append_nil]
    rfl
  exact ⟨howned, h.free, hheld ▸ h.inuse, h.created⟩

theorem good_init : init.Good 0 := ⟨Recycle.owned_empty .nil, rfl, rfl, rfl⟩

/-- The counters agree with the store after a buffer is taken. -/
theorem Good.ngxeXbuf (h : b.Good n) (hs : s.1 < n) (hnone : b.store.slot s = none) :
    (b.ngxeXbuf s).Good n := by
  have hmem : s ∈ slots n := mem_slots hs
  have howned : (b.store.attach s (.str [])).Owned (slots n) := h.owned.attach hmem hnone
  have hbefore := h.owned.length
  have hafter := howned.length
  have ha := Recycle.attach_cases b.store s (.str [])
  have hfree := h.free
  have hinuse := h.inuse
  have hcreated := h.created
  rw [XBufs.ngxeXbuf]
  generalize b.store.attach s (.str []) = r at howned hafter ha ⊢
  cases ha with
  | recycled rest c hlast =>
    have hne : b.store.free.isEmpty = false := by rw [hlast]; simp
    rw [if_neg (by rw [hne]; decide)]
    rw [hlast, List.length_append, List.length_singleton] at hbefore hfree
    refine ⟨howned, ?_, ?_, hcreated⟩
    · show b.free - 1 = (rest.length : Int)
      omega
    · show b.inuse + 1 = _
      dsimp only at hafter ⊢
      omega
  | new hnil =>
    rw [if_pos (List.isEmpty_iff.mpr hnil)]
    refine ⟨howned, hfree, ?_, ?_⟩
    · show b.inuse + 1 = _
      dsimp only at hafter ⊢
      omega
    · show b.created + 1 = ((b.store.made + 1 : Nat) : Int)
      omega

/-- And after one is given back. -/
theorem Good.ngxeXbuffree (h : b.Good n) (hs : (b.store.slot s).isSome = true) :
    (b.ngxeXbuffree s).Good n := by
  obtain ⟨c, hc⟩ := Option.isSome_iff_exists.mp hs
  have howned : (b.store.detach s).Owned (slots n) := h.owned.detach
  have hbefore := h.owned.length
  have hafter := howned.length
  have hfree := h.free
  have hinuse := h.inuse
  have hlast : (b.store.detach s).free = b.store.free ++ [c] := by
    rw [Recycle.detach_some hc]
  have hmade : (b.store.detach s).made = b.store.made := by
    rw [Recycle.detach_some hc]
  rw [hlast, hmade, List.length_append, List.length_singleton] at hafter
  refine ⟨howned, ?_, ?_, ?_⟩
  · show b.free + 1 = ((b.store.detach s).free.length : Int)
    rw [hlast, List.length_append, List.length_singleton]
    omega
  · show b.inuse - 1 = _
    show _ = (((b.store.detach s).held (slots n)).length : Int)
    omega
  · show b.created = ((b.store.detach s).made : Int)
    rw [hmade]
    exact h.created

theorem Good.take (h : b.Good n) (hs : s.1 < n) : (b.take s).Good n := by
  rw [XBufs.take]
  split
  · exact h
  · next hnone => exact h.ngxeXbuf hs (Option.not_isSome_iff_eq_none.mp hnone)

theorem Good.read_take (h : b.Good n) :
    (b.take s).read = Function.update b.read s (some ((b.read s).getD (.str []))) := by
  rw [XBufs.take]
  split
  · next hsome =>
    rw [← read_isSome] at hsome
    obtain ⟨sv, hsv⟩ := Option.isSome_iff_exists.mp hsome
    rw [hsv, Option.getD_some, ← hsv, Function.update_eq_self]
  · next hnone =>
    rw [← read_isSome, Option.not_isSome_iff_eq_none] at hnone
    rw [h.read_ngxeXbuf, hnone, Option.getD_none]

theorem Good.give (h : b.Good n) : (b.give s).Good n := by
  rw [XBufs.give]
  split
  · next hsome => exact h.ngxeXbuffree hsome
  · exact h

theorem read_give : (b.give s).read = Function.update b.read s none := by
  rw [XBufs.give]
  split
  · exact Recycle.read_detach
  · next hnone =>
    rw [← read_isSome, Option.not_isSome_iff_eq_none] at hnone
    rw [← hnone, Function.update_eq_self]

theorem Good.write (h : b.Good n) : (b.write s sv).Good n := by
  obtain ⟨cells, hw⟩ := b.store.write_eq s sv
  have howned : (b.store.write s sv).Owned (slots n) := h.owned.write
  rw [XBufs.write]
  rw [hw] at howned ⊢
  exact ⟨howned, h.free, h.inuse, h.created⟩

theorem Good.read_write (h : b.Good n) :
    (b.write s sv).read = Function.update b.read s ((b.read s).map fun _ => sv) :=
  h.owned.read_write

/-- Two updates at the references of one connection. -/
theorem update_both {f : Slot → Option Sv} {a d : Option Sv} :
    Function.update (Function.update f (k, .read) a) (k, .write) d =
      fun u => if u.1 = k then u.2.pick a d else f u := by
  funext u
  obtain ⟨j, side⟩ := u
  by_cases hj : j = k
  · subst hj
    cases side <;> simp [Function.update, Side.pick]
  · simp [Function.update, hj]

/-- The other reference of the connection is left alone. -/
theorem update_read_write {f : Slot → Option Sv} {a : Option Sv} :
    Function.update f (k, .read) a (k, .write) = f (k, .write) :=
  Function.update_of_ne (by simp) _ _

theorem Good.takeBoth (h : b.Good n) (hk : k < n) : (b.takeBoth k).Good n := (h.take hk).take hk

theorem Good.read_takeBoth (h : b.Good n) (hk : k < n) : (b.takeBoth k).read =
    fun u => if u.1 = k then some ((b.read u).getD (.str [])) else b.read u := by
  have hfirst : (b.take (k, .read)).Good n := h.take hk
  rw [XBufs.takeBoth, hfirst.read_take, h.read_take, update_read_write, update_both]
  funext u
  obtain ⟨j, side⟩ := u
  by_cases hj : j = k
  · subst hj
    cases side <;> rfl
  · rw [if_neg hj, if_neg hj]

theorem Good.giveBoth (h : b.Good n) : (b.giveBoth k).Good n := h.give.give

theorem read_giveBoth :
    (b.giveBoth k).read = fun u => if u.1 = k then none else b.read u := by
  rw [XBufs.giveBoth, read_give, read_give, update_both]
  funext u
  obtain ⟨j, side⟩ := u
  cases side <;> rfl

/-- What is written to a buffer of the connection. -/
def content (c : Conn) : Side → Sv := Side.pick (.str (c.rbuf.getD [])) (c.wbuf.getD .undef)

theorem Good.writeBoth (h : b.Good n) : (b.writeBoth k c).Good n := h.write.write

theorem Good.read_writeBoth (h : b.Good n) : (b.writeBoth k c).read =
    fun u => if u.1 = k then (b.read u).map fun _ => content c u.2 else b.read u := by
  have hfirst : (b.write (k, .read) (.str (c.rbuf.getD []))).Good n := h.write
  rw [XBufs.writeBoth, hfirst.read_write, h.read_write, update_read_write, update_both]
  funext u
  obtain ⟨j, side⟩ := u
  by_cases hj : j = k
  · subst hj
    cases side <;> rfl
  · rw [if_neg hj, if_neg hj]

end XBufs

/-! ### What the code does to the buffers of its connection -/

/-- A connection keeps its buffers, or is closed and has none. -/
inductive Holding (v : View) (o : Outcome) : Prop
  | kept (hr : o.1.rbuf.isSome = v.rbuf.isSome) (hw : o.1.wbuf.isSome = v.wbuf.isSome)
      (hc : o.1.closed = v.closed)
  | closes (hopen : v.closed = false) (hc : o.1.closed = true) (hr : o.1.rbuf = none)
      (hw : o.1.wbuf = none)

namespace Holding

variable {f : Frame} {ev : Option Nat} {args : EvType}

theorem of_eq (hr : o.1.rbuf = v.rbuf) (hw : o.1.wbuf = v.wbuf) (hc : o.1.closed = v.closed) :
    Holding v o := .kept (by rw [hr]) (by rw [hw]) hc

theorem close {v₀ : View} (hr : v.rbuf = v₀.rbuf) (hw : v.wbuf = v₀.wbuf)
    (hc : v.closed = v₀.closed) : Holding v₀ (ngxeClose v, []) := by
  rw [ngxeClose]
  split
  · exact .of_eq hr hw hc
  · next hopen => exact .closes (hc.symm.trans (eq_false_of_ne_true hopen)) rfl rfl rfl

/-- Code that has nothing to do with the writer. -/
theorem aside (ha : Aside v o) (hr : o.1.rbuf.isSome = v.rbuf.isSome) : Holding v o :=
  .kept hr (by rw [ha.beside.wbuf]) ha.beside.closed

/-- Code that has nothing to do with the reader. -/
theorem apart (ha : Apart v o) (hw : o.1.wbuf.isSome = v.wbuf.isSome)
    (hc : o.1.closed = v.closed) : Holding v o := .kept (by rw [ha.rbuf]) hw hc

end Holding

theorem call_rbuf {f : Frame} {ev : Option Nat} {args : EvType} {err : Int} :
    (v.call ev args err f).1.rbuf = v.rbuf := by
  cases ev <;> rfl

theorem call_wbuf {f : Frame} {ev : Option Nat} {args : EvType} {err : Int} :
    (v.call ev args err f).1.wbuf = v.wbuf := by
  cases ev <;> rfl

theorem readEnd_rbuf {total : Nat} {error : Int} : (readEnd now v total error).1.rbuf = v.rbuf := by
  rw [readEnd]
  split
  · rfl
  · dsimp only
    split
    · exact call_rbuf
    · exact call_rbuf

theorem readLoop_rbuf {size : Int} {total : Nat} : (readLoop now v size total).1.rbuf = v.rbuf := by
  rw [readLoop]
  split
  · rfl
  · exact readEnd_rbuf

theorem read_rbuf : (_read now v).1.rbuf = v.rbuf := by
  rw [_read]
  split
  · exact readLoop_rbuf
  · rfl

theorem sysread_holding {size : Int} {total : Nat} {r : ReadResult} :
    Holding v (sysread now v size total r) := by
  refine .aside sysread_aside ?_
  cases r with
  | data b => exact (congrArg Option.isSome readLoop_rbuf).trans (Option.isSome_map ..)
  | eof | again => rw [sysread, readEnd_rbuf]
  | intr => rw [sysread, readLoop_rbuf]
  | error => rw [sysread, readEnd_rbuf]

theorem writeEnd_wbuf {i offset : Nat} {error : Bool} :
    (writeEnd now v i offset error).1.wbuf.isSome = v.wbuf.isSome := by
  have hempty : (if autoempty v.wbuf then some (.str []) else v.wbuf).isSome = v.wbuf.isSome := by
    split
    · next ha =>
      cases hw : v.wbuf with
      | none =>
        rw [hw] at ha
        cases ha
      | some sv => rfl
    · rfl
  exact (congrArg Option.isSome call_wbuf).trans hempty

theorem writeLoop_wbuf {i offset : Nat} :
    (writeLoop now v i offset).1.wbuf.isSome = v.wbuf.isSome := by
  rw [writeLoop]
  split
  · rfl
  · split
    · exact writeEnd_wbuf
    · rfl
    · rfl

theorem write_holding {v₀ : View} (hr : v.rbuf.isSome = v₀.rbuf.isSome)
    (hw : v.wbuf.isSome = v₀.wbuf.isSome) (hc : v.closed = v₀.closed) :
    Holding v₀ (_write now v) := by
  have hwbuf : (_write now v).1.wbuf.isSome =
      ({ v.observe (.ran .write) with wind := firstIndex v } : View).wbuf.isSome := writeLoop_wbuf
  exact .kept ((congrArg Option.isSome write_apart.rbuf).trans hr) (hwbuf.trans hw)
    (write_piece.sides.closed.trans hc)

theorem syswrite_holding {i offset : Nat} {r : WriteResult} :
    Holding v (syswrite now v i offset r) := by
  refine .apart syswrite_apart ?_ syswrite_piece.sides.closed
  rw [syswrite]
  split
  · next b _ =>
    cases r with
    | accepted m =>
      dsimp only
      split
      · let sent := v.observe (.sent ((b.drop offset).take m))
        have h : (writeLoop now sent (i + 1) 0).1.wbuf.isSome = sent.wbuf.isSome := writeLoop_wbuf
        exact h
      · rfl
    | again | intr => rfl
    | error => exact writeEnd_wbuf
  · rfl

theorem timedOut_holding (h : TimedOut v o) : Holding v o := by
  cases h with
  | close => exact .close rfl rfl rfl
  | call ev args | crash => exact .of_eq rfl rfl rfl

theorem dispatch_holding {fno : Nat} : Holding v (dispatch now t fno v) := by
  have ho := dispatch_cases now t fno v
  generalize dispatch now t fno v = o at ho ⊢
  cases ho with
  | skip => exact .of_eq rfl rfl rfl
  | read hread => exact .of_eq read_rbuf read_aside.beside.wbuf read_piece.sides.closed
  | accept =>
    exact .of_eq acceptLoop_apart.rbuf acceptLoop_aside.beside.wbuf acceptLoop_piece.sides.closed
  | timedout h => exact timedOut_holding h

theorem dispatchWrite_holding {win wout : Bool} {wev : Option Nat} :
    Holding v (dispatchWrite now t v win wout wev) := by
  have ho := dispatchWrite_cases now t v win wout wev
  generalize dispatchWrite now t v win wout wev = o at ho ⊢
  cases ho with
  | skip => exact .of_eq rfl rfl rfl
  | write hout => exact write_holding rfl rfl rfl
  | connect => exact .of_eq rfl rfl rfl
  | timedout h => exact timedOut_holding h

theorem accept_holding {ok : Bool} : Holding v (accept v ok) :=
  .of_eq (accept_apart ok).rbuf (accept_aside ok).beside.wbuf accept_piece.sides.closed

theorem connect_holding {limit : Nat} {error : Bool} {r : ConnectResult} :
    Holding v (connect v limit error r) :=
  .of_eq connect_apart.rbuf connect_aside.beside.wbuf connect_aside.beside.closed

theorem finishRead_holding {error : Int} : Holding v (finishRead now v error) := by
  rw [finishRead]
  split
  · exact .of_eq rfl rfl rfl
  split
  · exact .close rfl rfl rfl
  split
  · exact write_holding rfl rfl rfl
  · exact .of_eq rfl rfl rfl

theorem afterCallback_holding {f : Frame} (ho : afterCallback now v f = some o) :
    Holding v o := by
  cases f with
  | readData error =>
    cases ho
    rw [afterData]
    split
    · exact .of_eq rfl rfl rfl
    split
    · exact .of_eq call_rbuf call_wbuf (by cases v.read <;> rfl)
    · exact finishRead_holding
  | readError error =>
    cases ho
    exact finishRead_holding
  | writeDone error =>
    cases ho
    rw [afterWrite]
    split
    · exact .of_eq rfl rfl rfl
    split
    · exact .close rfl rfl rfl
    · exact .of_eq rfl rfl rfl
  | timedout =>
    cases ho
    exact .close rfl rfl rfl
  | accepted =>
    cases ho
    exact .of_eq acceptLoop_apart.rbuf acceptLoop_aside.beside.wbuf acceptLoop_piece.sides.closed
  | connected error =>
    cases ho
    rw [afterConnect]
    split
    · exact .of_eq rfl rfl rfl
    split
    · exact .close rfl rfl rfl
    · exact .of_eq rfl rfl rfl
  | _ => cases ho

/-- `ngxe_reader` and `ngxe_writer` have given the connection its buffers, and
    `ngxe_writer_buffer_set` finds one. -/
def Op.Provided (v : View) : Op → Prop
  | .reader _ _ | .writer _ _ _ => v.rbuf.isSome = true ∧ v.wbuf.isSome = true
  | .writerBufferSet _ => v.wbuf.isSome = true
  | _ => True

theorem applyOp_holding {op : Op} (h : op.Provided v) : Holding v (applyOp now v op) := by
  cases op with
  | reader start timeout =>
    cases start with
    | true | false => exact .kept h.1.symm h.2.symm rfl
  | readerStart timeout | readerStop => exact .of_eq rfl rfl rfl
  | readerStopWriterStart => exact write_holding rfl rfl rfl
  | readerTimeout timeout => exact .of_eq rfl rfl rfl
  | writer start timeout buf =>
    cases start with
    | true => exact write_holding h.1.symm h.2.symm rfl
    | false => exact .kept h.1.symm h.2.symm rfl
  | writerStart timeout => exact write_holding rfl rfl rfl
  | writerStop | writerStopReaderStart | writerTimeout timeout => exact .of_eq rfl rfl rfl
  | writerBufferSet data => exact write_holding rfl (Eq.symm h) rfl
  | close => exact .close rfl rfl rfl
  | setReadBuffer b => exact .kept (Option.isSome_map ..) rfl rfl
  | setWriteBuffer sv =>
    rw [applyOp]
    split
    · next hsome => exact .kept rfl hsome.symm rfl
    · exact .of_eq rfl rfl rfl
  | setMinLen n => exact .of_eq rfl rfl rfl

/-! ### What a step does to the buffers -/

/-- The buffers of a connection are left alone. -/
structure Untouched (p p' : Process) (j : Nat) : Prop where
  rbuf : (p'.conns j).rbuf = (p.conns j).rbuf
  wbuf : (p'.conns j).wbuf = (p.conns j).wbuf
  closed : j < p.made → (p'.conns j).closed = (p.conns j).closed

/-- The code of one connection runs, or that of none. -/
inductive BufStep (p : Process) (i : PInput) (p' : Process) : Prop
  | rests (hact : p.actor i = none)
  | runs (k : Nat) (o : Outcome) (hact : p.actor i = some k) (hk : p'.conns k = o.1.toConn)
      (ho : Holding (p.view k) o)

/-- Connections that were not made have no buffers. -/
def NoneYet (p : Process) : Prop :=
  ∀ j, p.made ≤ j → (p.conns j).rbuf = none ∧ (p.conns j).wbuf = none

/-- A new connection has no buffers either. -/
theorem untouched_add {fno : Nat} (hnew : NoneYet p) (hr : c.rbuf = none) (hw : c.wbuf = none)
    (j : Nat) : Untouched p (p.add c fno) j := by
  by_cases hj : j = p.made
  · subst hj
    obtain ⟨hr', hw'⟩ := hnew p.made (Nat.le_refl _)
    have hself : (p.add c fno).conns p.made = c := Function.update_self _ _ _
    refine ⟨?_, ?_, fun hlt => absurd hlt (Nat.lt_irrefl _)⟩
    · rw [hself, hr, hr']
    · rw [hself, hw, hw']
  · have hne : (p.add c fno).conns j = p.conns j := Function.update_of_ne hj _ _
    exact ⟨by rw [hne], by rw [hne], fun _ => by rw [hne]⟩

theorem untouched_finish {j : Nat} {rest : List PFrame} (hj : j ≠ k) :
    Untouched p (p.finish k o rest) j := by
  have hne : (p.finish k o rest).conns j = p.conns j := Process.conns_finish_ne hj
  exact ⟨by rw [hne], by rw [hne], fun _ => by rw [hne]⟩

/-- A new connection is added first; its number is not yet that of one with buffers. -/
theorem untouched_add_finish {j fno : Nat} {rest : List PFrame} (hnew : NoneYet p)
    (hr : c.rbuf = none) (hw : c.wbuf = none) (hj : j ≠ k) :
    Untouched p ((p.add c fno).finish k o rest) j := by
  have hadd : Untouched p (p.add c fno) j := untouched_add hnew hr hw j
  have hne : ((p.add c fno).finish k o rest).conns j = (p.add c fno).conns j :=
    Process.conns_finish_ne hj
  exact ⟨hne ▸ hadd.rbuf, hne ▸ hadd.wbuf, fun hlt => hne ▸ hadd.closed hlt⟩

theorem untouched_client {j fno : Nat} {timeout : Int} (hnew : NoneYet p) :
    Untouched p (p.ngxeClient fno timeout) j := by
  have hadd : Untouched p (p.add (View.client p.now fno timeout).toConn fno) j :=
    untouched_add hnew rfl rfl j
  by_cases hj : j = p.made
  · subst hj
    have hself : (p.ngxeClient fno timeout).conns p.made =
        (_connect ((p.addClient fno timeout).view p.made)).1.toConn := Process.conns_finish_self
    refine ⟨?_, ?_, fun hlt => absurd hlt (Nat.lt_irrefl _)⟩
    · rw [hself]
      exact hadd.rbuf
    · rw [hself]
      exact hadd.wbuf
  · have hne : (p.ngxeClient fno timeout).conns j = (p.addClient fno timeout).conns j :=
      Process.conns_finish_ne hj
    exact ⟨hne ▸ hadd.rbuf, hne ▸ hadd.wbuf, fun hlt => hne ▸ hadd.closed hlt⟩

theorem top_eq {f : Frame} {rest : List PFrame} (hstk : p.stack = .conn k f :: rest) :
    p.top = some k := by rw [Process.top, hstk]

/-- A step leaves the buffers of all connections alone but for the one whose code runs. -/
theorem untouched_step {j : Nat} (hs : PStep p i p') (hnew : NoneYet p)
    (hj : p.actor i ≠ some j) : Untouched p p' j := by
  have hne : ∀ {k}, p.actor i = some k → j ≠ k := by
    rintro k hk rfl
    exact hj hk
  cases hs with
  | tick n | select r w hstk | enter hstk | leave hstk => exact ⟨rfl, rfl, fun _ => rfl⟩
  | dispatch fno hstk hk => exact untouched_finish (hne hk)
  | next hstk | sysread r hstk hr | syswrite r hstk hr | refuse hstk
  | connectClosed r hstk hclosed | connect r hstk hopen | ret hstk ho =>
    exact untouched_finish (hne (top_eq hstk))
  | accept fno hstk hfree => exact untouched_add_finish hnew rfl rfl (hne (top_eq hstk))
  | op o hperl hk hopen => exact untouched_finish (hne rfl)
  | server fno hperl hfree =>
    have hadd : Untouched p (p.add (View.server fno).toConn fno) j := untouched_add hnew rfl rfl j
    exact ⟨hadd.rbuf, hadd.wbuf, hadd.closed⟩
  | client fno timeout hperl hfree => exact untouched_client hnew

theorem bufStep_finish {rest : List PFrame} (hact : p.actor i = some k)
    (ho : Holding (p.view k) o) : BufStep p i (p.finish k o rest) :=
  .runs k o hact Process.conns_finish_self ho

theorem bufStep_of_step (hs : PStep p i p')
    (hop : ∀ k op, i = .op k op → op.Provided (p.view k)) : BufStep p i p' := by
  cases hs with
  | dispatch fno hstk hk => exact bufStep_finish hk dispatch_holding
  | next hstk => exact bufStep_finish (top_eq hstk) dispatchWrite_holding
  | sysread r hstk hr => exact bufStep_finish (top_eq hstk) sysread_holding
  | syswrite r hstk hr => exact bufStep_finish (top_eq hstk) syswrite_holding
  | refuse hstk => exact bufStep_finish (top_eq hstk) accept_holding
  | accept fno hstk hfree =>
    exact .runs _ _ (top_eq hstk) Process.conns_finish_self accept_holding
  | connectClosed r hstk hclosed => exact bufStep_finish (top_eq hstk) (.of_eq rfl rfl rfl)
  | connect r hstk hopen => exact bufStep_finish (top_eq hstk) connect_holding
  | ret hstk ho => exact bufStep_finish (top_eq hstk) (afterCallback_holding ho)
  | op o hperl hk hopen => exact bufStep_finish rfl (applyOp_holding (hop _ o rfl))
  | _ => exact .rests rfl

theorem made_step (hs : PStep p i p') : p'.made = p.made ∨ p'.made = p.made + 1 := by
  cases hs with
  | accept fno hstk hfree | server fno hperl hfree | client fno timeout hperl hfree =>
    exact .inr rfl
  | _ => exact .inl rfl

/-! ### The engine with the pool -/

/-- The pool is in order, and only open connections have buffers. -/
structure PooledInv (x : Pooled) : Prop where
  good : x.bufs.Good x.proc.made
  opened : ∀ j side, (x.bufs.read (j, side)).isSome = true → (x.proc.conns j).closed = false

theorem PooledInv.lt {side : Side} (h : PooledInv x)
    (hs : (x.bufs.read (k, side)).isSome = true) : k < x.proc.made :=
  h.good.lt (XBufs.read_isSome ▸ hs)

theorem PooledInv.noneYet (h : PooledInv x) : NoneYet x.load := by
  intro j hj
  have hnone : ∀ side, x.bufs.read (j, side) = none := by
    intro side
    by_contra hne
    have hlt := h.lt (Option.isSome_iff_ne_none.mpr hne)
    exact absurd hlt (Nat.not_lt.mpr hj)
  refine ⟨?_, hnone .write⟩
  show (x.bufs.read (j, .read)).map Sv.bytes = none
  rw [hnone, Option.map_none]

/-- The references of a connection lead to its buffers. -/
def Leads (b : XBufs) (j : Nat) (c : Conn) : Prop :=
  (b.read (j, .read)).map Sv.bytes = c.rbuf ∧ b.read (j, .write) = c.wbuf

theorem leads_load (x : Pooled) (j : Nat) : Leads x.bufs j (x.load.conns j) := ⟨rfl, rfl⟩

/-- If all references lead to the buffers of a process, it is the one that is seen. -/
theorem load_eq (h : ∀ j, Leads b j (p.conns j)) : Pooled.load ⟨p, b⟩ = p := by
  have hconns : (fun j => b.conn j (p.conns j)) = p.conns := by
    funext j
    obtain ⟨hr, hw⟩ := h j
    show { p.conns j with
      rbuf := (b.read (j, .read)).map Sv.bytes
      wbuf := b.read (j, .write) } = p.conns j
    rw [hr, hw]
  show { p with conns := fun j => b.conn j (p.conns j) } = p
  rw [hconns]

theorem Leads.other {b' : XBufs} {j : Nat} (h : Leads b j (p.conns j)) (hu : Untouched p p' j)
    (hread : ∀ side, b'.read (j, side) = b.read (j, side)) : Leads b' j (p'.conns j) := by
  refine ⟨?_, ?_⟩
  · rw [hread, hu.rbuf]
    exact h.1
  · rw [hread, hu.wbuf]
    exact h.2

/-- What is written through the references of a connection is what they lead to. -/
theorem leads_write {b' : XBufs} (h : Leads b k c) (hr : c'.rbuf.isSome = c.rbuf.isSome)
    (hw : c'.wbuf.isSome = c.wbuf.isSome)
    (hread : ∀ side, b'.read (k, side) =
      (b.read (k, side)).map fun _ => XBufs.content c' side) : Leads b' k c' := by
  refine ⟨?_, ?_⟩
  · rw [← h.1, Option.isSome_map] at hr
    rw [hread]
    cases hb : b.read (k, .read) with
    | none =>
      rw [hb] at hr
      exact (Option.not_isSome_iff_eq_none.mp (ne_true_of_eq_false hr)).symm
    | some sv =>
      rw [hb] at hr
      obtain ⟨bytes, hbytes⟩ := Option.isSome_iff_exists.mp hr
      rw [hbytes, Option.map_some, Option.map_some, XBufs.content, Side.pick, hbytes]
      rfl
  · rw [← h.2] at hw
    rw [hread]
    cases hb : b.read (k, .write) with
    | none =>
      rw [hb] at hw
      exact (Option.not_isSome_iff_eq_none.mp (ne_true_of_eq_false hw)).symm
    | some sv =>
      rw [hb] at hw
      obtain ⟨sv', hsv⟩ := Option.isSome_iff_exists.mp hw
      rw [hsv, Option.map_some, XBufs.content, Side.pick, hsv]
      rfl

theorem XBufs.Good.grow {m : Nat} (h : b.Good n) (hm : m = n ∨ m = n + 1) : b.Good m := by
  rcases hm with rfl | rfl
  · exact h
  · exact h.succ

/-- The references lead to the buffers of the process, and the pool is in order. -/
structure Committed (p : Process) (b : XBufs) : Prop where
  leads : ∀ j, Leads b j (p.conns j)
  inv : PooledInv ⟨p, b⟩

section Commit

variable (h : PooledInv x)
include h

/-- The code of `k` has run, and the references of the others lead where they led. -/
theorem committed_at {b' : XBufs} (hu : ∀ j, j ≠ k → Untouched x.load p j)
    (hgood : b'.Good p.made)
    (hsame : ∀ j side, j ≠ k → b'.read (j, side) = x.bufs.read (j, side))
    (hself : Leads b' k (p.conns k))
    (hopen : ∀ side, (b'.read (k, side)).isSome = true → (p.conns k).closed = false) :
    Committed p b' := by
  refine ⟨fun j => ?_, hgood, fun j side hsome => ?_⟩
  · by_cases hj : j = k
    · exact hj ▸ hself
    · exact (leads_load x j).other (hu j hj) fun side => hsame j side hj
  · by_cases hj : j = k
    · subst hj
      exact hopen side hsome
    · rw [hsame j side hj] at hsome
      exact ((hu j hj).closed (h.lt hsome)).trans (h.opened j side hsome)

variable (hmade : p.made = x.proc.made ∨ p.made = x.proc.made + 1)
include hmade

theorem committed_rests (hu : ∀ j, Untouched x.load p j) : Committed p x.bufs := by
  refine ⟨fun j => (leads_load x j).other (hu j) fun _ => rfl, h.good.grow hmade, ?_⟩
  intro j side hsome
  exact ((hu j).closed (h.lt hsome)).trans (h.opened j side hsome)

theorem committed_kept (hr : (p.conns k).rbuf.isSome = (x.load.conns k).rbuf.isSome)
    (hw : (p.conns k).wbuf.isSome = (x.load.conns k).wbuf.isSome)
    (hc : (p.conns k).closed = (x.load.conns k).closed)
    (hu : ∀ j, j ≠ k → Untouched x.load p j) :
    Committed p (x.bufs.writeBoth k (p.conns k)) := by
  have hread := h.good.read_writeBoth (k := k) (c := p.conns k)
  have hself : ∀ side, (x.bufs.writeBoth k (p.conns k)).read (k, side) =
      (x.bufs.read (k, side)).map fun _ => XBufs.content (p.conns k) side := by
    intro side
    rw [hread]
    exact if_pos rfl
  refine committed_at h hu (h.good.writeBoth.grow hmade) (fun j side hj => ?_)
    (leads_write (leads_load x k) hr hw hself) fun side hsome => ?_
  · rw [hread]
    exact if_neg hj
  · rw [hself, Option.isSome_map] at hsome
    exact hc.trans (h.opened k side hsome)

theorem committed_closes (hr : (p.conns k).rbuf = none) (hw : (p.conns k).wbuf = none)
    (hu : ∀ j, j ≠ k → Untouched x.load p j) : Committed p (x.bufs.giveBoth k) := by
  have hself : ∀ side, (x.bufs.giveBoth k).read (k, side) = none := by
    intro side
    rw [XBufs.read_giveBoth]
    exact if_pos rfl
  refine committed_at h hu (h.good.giveBoth.grow hmade) (fun j side hj => ?_) ⟨?_, ?_⟩
    fun side hsome => ?_
  · rw [XBufs.read_giveBoth]
    exact if_neg hj
  · rw [hself, hr, Option.map_none]
  · rw [hself, hw]
  · rw [hself] at hsome
    cases hsome

end Commit

/-- A piece of code that runs through the references does what it does on buffers of its own. -/
theorem run_spec (h : PooledInv x) (hop : ∀ k op, i = .op k op → op.Provided (x.load.view k))
    (hs : x.run i = some x') : x.load.step i = some x'.load ∧ PooledInv x' := by
  obtain ⟨p, hp, hx⟩ := Option.map_eq_some_iff.mp hs
  have hstep := Process.step_cases hp
  have hmade : p.made = x.load.made ∨ p.made = x.load.made + 1 := made_step hstep
  suffices hcom : x'.proc = p ∧ Committed p x'.bufs by
    obtain ⟨rfl, hcom⟩ := hcom
    exact ⟨hp.trans (congrArg some (load_eq hcom.leads).symm), hcom.inv⟩
  have hothers : ∀ j, x.load.actor i ≠ some j → Untouched x.load p j :=
    fun j hj => untouched_step hstep h.noneYet hj
  cases bufStep_of_step hstep hop with
  | rests hact =>
    rw [hact] at hx hothers
    subst hx
    have hcom : Committed p x.bufs := committed_rests h hmade fun j => hothers j (by simp)
    exact ⟨rfl, hcom⟩
  | runs k o hact hk ho =>
    rw [hact] at hx hothers
    subst hx
    have hu : ∀ j, j ≠ k → Untouched x.load p j := by
      intro j hj
      apply hothers
      intro he
      exact hj (Option.some.inj he).symm
    refine ⟨rfl, ?_⟩
    have hclosed : (p.conns k).closed = o.1.closed := by rw [hk]
    cases ho with
    | kept hr hw hc =>
      have hsame : (p.conns k).closed = (x.load.conns k).closed := hclosed.trans hc
      have hnot : (!(x.load.conns k).closed && (p.conns k).closed) ≠ true := by
        rw [hsame]
        cases (x.load.conns k).closed <;> decide
      show Committed p (Pooled.commit x.bufs k (x.load.conns k) (p.conns k))
      rw [Pooled.commit, if_neg hnot]
      exact committed_kept h hmade (by rw [hk]; exact hr) (by rw [hk]; exact hw) hsame hu
    | closes hopen hc hr hw =>
      have hcloses : (!(x.load.conns k).closed && (p.conns k).closed) = true := by
        have hopen' : (x.load.conns k).closed = false := hopen
        rw [hopen', hclosed, hc]
        rfl
      show Committed p (Pooled.commit x.bufs k (x.load.conns k) (p.conns k))
      rw [Pooled.commit, if_pos hcloses]
      exact committed_closes h hmade (by rw [hk]; exact hr) (by rw [hk]; exact hw) hu

/-- The connection with the buffers that `ngxe_reader` and `ngxe_writer` give it. -/
def Conn.provided (c : Conn) : Conn :=
  { c with
    rbuf := some (c.rbuf.getD [])
    wbuf := some (c.wbuf.getD (.str [])) }

/-- The process in which `k` has been given its buffers. -/
def Process.provide (p : Process) (k : Nat) : Process :=
  { p with conns := Function.update p.conns k (p.conns k).provided }

theorem conns_provide : (p.provide k).conns k = (p.conns k).provided := Function.update_self _ _ _

theorem finish_provide {rest : List PFrame} :
    (p.provide k).finish k o rest = p.finish k o rest := by
  have hfileno : (p.provide k).fileno k = p.fileno k := by
    rw [Process.fileno, conns_provide]
    rfl
  have hcloses : (p.provide k).closes k o.1 = p.closes k o.1 := by
    rw [Process.closes, conns_provide]
    rfl
  have hconns : Function.update (p.provide k).conns k o.1.toConn =
      Function.update p.conns k o.1.toConn := Function.update_idem _ _ _
  rw [Process.finish, Process.finish, hconns, hcloses, hfileno]
  rfl

theorem view_provide : (p.provide k).view k =
    { p.view k with
      rbuf := some ((p.view k).rbuf.getD [])
      wbuf := some ((p.view k).wbuf.getD (.str [])) } := by
  rw [Process.view, Process.fileno, conns_provide]
  rfl

/-- `ngxe_reader` and `ngxe_writer`, which take the buffers that are missing. -/
def Op.Takes : Op → Prop
  | .reader _ _ | .writer _ _ _ => True
  | _ => False

/-- They find the buffers that they would have taken. -/
theorem applyOp_provide {op : Op} (ht : op.Takes) :
    applyOp now ((p.provide k).view k) op = applyOp now (p.view k) op := by
  rw [view_provide]
  cases op with
  | reader start timeout | writer start timeout buf => rfl
  | _ => exact ht.elim

theorem step_provide {op : Op} (ht : op.Takes) :
    (p.provide k).step (.op k op) = p.step (.op k op) := by
  have hclosed : ((p.provide k).conns k).closed = (p.conns k).closed := by
    rw [conns_provide]
    rfl
  have hfinish : (p.provide k).finish k (applyOp p.now ((p.provide k).view k) op) p.stack =
      p.finish k (applyOp p.now (p.view k) op) p.stack := by
    rw [finish_provide, applyOp_provide ht]
  show (if p.inPerl = true ∧ k < p.made ∧ (((p.provide k).conns k).closed = false ∨ op = .close)
      then some ((p.provide k).finish k (applyOp p.now ((p.provide k).view k) op) p.stack)
      else none) = p.step (.op k op)
  rw [hclosed, hfinish]
  rfl

/-- A buffer that is taken is seen as one of the connection's own. -/
theorem load_takeBoth (h : PooledInv x) (hk : k < x.proc.made) :
    Pooled.load ⟨x.proc, x.bufs.takeBoth k⟩ = x.load.provide k := by
  have hread := h.good.read_takeBoth hk
  have hconns : (fun j => (x.bufs.takeBoth k).conn j (x.proc.conns j)) =
      (x.load.provide k).conns := by
    funext j
    show { x.proc.conns j with
      rbuf := ((x.bufs.takeBoth k).read (j, .read)).map Sv.bytes
      wbuf := (x.bufs.takeBoth k).read (j, .write) } = _
    rw [hread]
    by_cases hj : j = k
    · subst hj
      rw [conns_provide]
      dsimp only
      rw [if_pos rfl, if_pos rfl]
      have hr : ((x.bufs.read (j, .read)).getD (.str [])).bytes =
          ((x.bufs.read (j, .read)).map Sv.bytes).getD [] := by
        cases x.bufs.read (j, .read) <;> rfl
      rw [Option.map_some, hr]
      rfl
    · have hne : (x.load.provide k).conns j = x.load.conns j := Function.update_of_ne hj _ _
      rw [hne]
      dsimp only
      rw [if_neg hj, if_neg hj]
      rfl
  show { x.proc with conns := fun j => (x.bufs.takeBoth k).conn j (x.proc.conns j) } = _
  rw [hconns]
  rfl

theorem PooledInv.takeBoth (h : PooledInv x) (hk : k < x.proc.made)
    (hopen : (x.proc.conns k).closed = false) : PooledInv ⟨x.proc, x.bufs.takeBoth k⟩ := by
  refine ⟨h.good.takeBoth hk, fun j side hsome => ?_⟩
  by_cases hj : j = k
  · subst hj
    exact hopen
  · rw [h.good.read_takeBoth hk] at hsome
    dsimp only at hsome
    rw [if_neg hj] at hsome
    exact h.opened j side hsome

theorem provided_provide {op : Op} (ht : op.Takes) : op.Provided ((p.provide k).view k) := by
  rw [view_provide]
  cases op with
  | reader start timeout | writer start timeout buf => exact ⟨rfl, rfl⟩
  | _ => exact ht.elim

/-- `ngxe_reader` and `ngxe_writer` with buffers from the pool. -/
theorem step_takes {op : Op} (h : PooledInv x) (ht : op.Takes)
    (hs : Pooled.run ⟨x.proc, x.bufs.takeBoth k⟩ (.op k op) = some x') :
    x.load.step (.op k op) = some x'.load ∧ PooledInv x' := by
  obtain ⟨p, hp, -⟩ := Option.map_eq_some_iff.mp hs
  obtain ⟨hk, hopen⟩ : k < x.proc.made ∧ (x.proc.conns k).closed = false := by
    cases Process.step_cases hp with
    | op o hperl hk hopen =>
      refine ⟨hk, hopen.resolve_right ?_⟩
      rintro rfl
      exact ht
  have hload := load_takeBoth h hk
  have hinv : PooledInv ⟨x.proc, x.bufs.takeBoth k⟩ := h.takeBoth hk hopen
  have hop : ∀ j op', PInput.op k op = .op j op' →
      op'.Provided ((Pooled.load ⟨x.proc, x.bufs.takeBoth k⟩).view j) := by
    intro j op' he
    cases he
    rw [hload]
    exact provided_provide ht
  obtain ⟨hstep, hinv'⟩ := run_spec hinv hop hs
  rw [hload, step_provide ht] at hstep
  exact ⟨hstep, hinv'⟩

/-- One step: the buffers are taken, then the code runs. -/
theorem step_spec (h : PooledInv x) (hg : BuffersThere x i) (hs : x.step i = some x') :
    x.load.step i = some x'.load ∧ PooledInv x' := by
  -- all but `ngxe_reader` and `ngxe_writer` leave the pool as it is
  have hplain : x.prepare i = x → (∀ k op, i = .op k op → op.Provided (x.load.view k)) →
      x.load.step i = some x'.load ∧ PooledInv x' := by
    intro hprep hop
    rw [Pooled.step, hprep] at hs
    exact run_spec h hop hs
  cases i with
  | op k op =>
    cases op with
    | reader start timeout | writer start timeout buf => exact step_takes h trivial hs
    | writerBufferSet data => exact hplain rfl fun j op he => by cases he; exact hg
    | _ => exact hplain rfl fun j op he => by cases he; trivial
  | _ => exact hplain rfl fun j op he => by cases he

theorem inv_init : PooledInv (.init now t) :=
  ⟨XBufs.good_init, fun j side hsome => by cases hsome⟩

theorem Pooled.Reachable.inv (h : x.Reachable) : PooledInv x := by
  obtain ⟨now, t, h⟩ := h
  refine h.invariant inv_init fun x i x' hx hg hs => ?_
  exact (step_spec hx hg hs).2

/-- The engine with the pool is the process in which no buffer is shared. -/
theorem pooled_refines (h : x.Reachable) : Process.Reachable Machine.always x.load := by
  obtain ⟨now, t, h⟩ := h
  refine ⟨now, t, ?_⟩
  induction h with
  | refl => exact .refl
  | tail hx hg hs ih =>
    exact .tail ih trivial (step_spec (Pooled.Reachable.inv ⟨now, t, hx⟩) hg hs).1

/-- The buffers of the engine: each is in one place, and none is seen by two connections. -/
theorem buffers_owned (x : Pooled) (h : x.Reachable) : BuffersOwned x ∧ BuffersApart x := by
  have hinv := h.inv
  have hgood := hinv.good
  refine ⟨⟨hgood.owned.perm, fun k side hsome => ?_, hgood.free, hgood.inuse, hgood.created, ?_⟩,
    ⟨fun s => ?_, fun i x' j hg hs hj => ?_, fun i x' hg hs => (step_spec hinv hg hs).1⟩⟩
  · rw [← XBufs.read_isSome] at hsome
    exact ⟨hinv.lt hsome, hinv.opened k side hsome⟩
  · have hlength := hgood.owned.length
    rw [hgood.created, hgood.inuse, hgood.free]
    omega
  · show (x.bufs.ngxeXbuf s).read s = _
    rw [hgood.read_ngxeXbuf, Function.update_self]
  · have hstep := Process.step_cases (step_spec hinv hg hs).1
    have hu := untouched_step hstep hinv.noneYet hj
    exact ⟨hu.rbuf, hu.wbuf⟩

/-- A connection is closed with bytes in its buffers, and another one gets them empty. -/
theorem buffers_owned_recycled : ∃ x : Pooled, x.Reachable ∧ (BuffersOwned x ∧ BuffersApart x) ∧
    (x.proc.conns 1).closed = true ∧ x.bufs.store.read (2, .read) = some (.str []) ∧
    x.bufs.created = 2 ∧ x.bufs.reused = 2 := by
  obtain ⟨x, hr, hx⟩ := Machine.Reaches.of_run_map (M := pooled) (G := BuffersThere)
    (s := .init 100 100)
    (fun x => ((x.proc.conns 1).closed, x.bufs.store.read (2, .read), x.bufs.created,
      x.bufs.reused))
    [.server 3, .leave, .select (fun _ => true) (fun _ => true), .dispatch 3, .accept (some 4),
      .op 1 (.reader true 0), .ret, .accept none, .next,
      .select (fun _ => true) (fun _ => true), .dispatch 4, .sysread (.data [97]), .sysread .again,
      .op 1 (.setWriteBuffer (.str [98])), .op 1 .close, .server 5, .op 2 (.reader true 0)]
    (show _ = some (true, some (.str []), (2 : Int), (2 : Int)) by decide +kernel)
  simp only [Prod.mk.injEq] at hx
  have hreach : x.Reachable := ⟨100, 100, hr⟩
  exact ⟨x, hreach, buffers_owned x hreach, hx⟩

end NginxEngine.PP
