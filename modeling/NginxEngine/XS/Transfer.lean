import NginxEngine.XS.Position

/-!
# What the writer handlers move to the socket

The three handlers share one specification: a segment of their code gives some bytes to
`c->send`, and what is left in the write buffer behind the position of the session is what was
left before without them. A handler that waits, or is about to send, has bytes left; one that
calls back with success has none.

## Main definitions

- `Conn.left` — what is left to be sent of the write buffer
- `Conn.Placed` — the session is at a position inside its write buffer
- `Conn.RequestOk` — the request at `SENDAGAIN` is the rest of the current scalar
- `Transfer` — what a segment of writer code does to what is left

## Main results

- `ngxeWriterHandler_transfer`, `writerSend_transfer`, `ngxeWriterStart_transfer`
-/

namespace NginxEngine.XS

variable {cfg : Config} {ok : Bool} {c c' c'' : Conn} {cb : Nat} {o : Outcome} {sv : Sv}
  {b : Bytes} {k : Kind}

/-- A value that the three handlers can send: every element of an array is a reference. -/
def Sv.sendable : Sv → Bool
  | .av xs => xs.all Option.isSome
  | .rvOther => false
  | .undef | .str _ | .rv _ => true

/-- What the handler of kind `k` leaves in the write buffer when it has sent everything. -/
def Sv.spent (k : Kind) : Sv → Bool
  | .undef => true
  | .str b => b.isEmpty
  | .rv b => b.isEmpty && decide (k = .rvpv)
  | .av _ | .rvOther => false

/-- What is left to be sent of the write buffer. -/
def Conn.left (c : Conn) : Bytes :=
  match c.writerBuffer with
  | some (.str b) => b
  | some sv => c.unsent sv
  | none => []

/-- The session is at a position inside the value in its write buffer. -/
structure Conn.Placed (c : Conn) (sv : Sv) : Prop where
  buffer : c.writerBuffer = some sv
  sendable : sv.sendable = true
  small : sv.small = true
  pos : c.PosOk sv

/-- The scalar that a handler sends from, and the offset of `buf` into it. -/
def Conn.scalar (c : Conn) (k : Kind) : Option (Bytes × Int) :=
  match k, c.writerBuffer with
  | .plain, some (.str b) => some (b, 0)
  | .rvpv, some (.rv b) => some (b, c.writerOffset)
  | .rvpvav, some (.av xs) =>
    match xs[c.writerIndex]? with
    | some (some b) => some (b, c.writerOffset)
    | _ => none
  | _, _ => none

/-- The request at `SENDAGAIN` is what is left of the current scalar, and is not empty. -/
def Conn.RequestOk (c : Conn) (k : Kind) : Prop :=
  ∃ b offset, c.scalar k = some (b, offset) ∧ 0 ≤ offset ∧ offset < b.length ∧
    c.request k = some ⟨b.drop offset.toNat, b.length - offset⟩

def Obs.isSent : Obs → Bool
  | .sent _ => true
  | _ => false

/-- Writer code has given `b` to the socket, and is at what was left without it. -/
structure Advance (c : Conn) (b : Bytes) (c' : Conn) : Prop where
  placed : ∃ sv, c'.Placed sv
  left : c.left = b ++ c'.left
  buffer : c.writerBuffer.any Sv.isRef = true → c'.left ≠ [] → c'.writerBuffer = c.writerBuffer
  trace : ∃ l, c'.trace = c.trace ++ l ∧ l.flatMap Obs.output = b ∧ ∀ x ∈ l, x.isSent = true

/-- What a segment of writer code that calls back with `cb` does to what is left, having given
    `b` to the socket. -/
inductive Transfer (cb : Nat) (c : Conn) (b : Bytes) : Outcome → Prop
  | wait {c' : Conn} (h : Advance c b c') (hl : c'.left ≠ []) : Transfer cb c b (c', [])
  | send {c' : Conn} (k : Kind) (h : Advance c b c') (hq : c'.RequestOk k) :
      Transfer cb c b (c', [.send k cb])
  | done {c' : Conn} (k : Kind) (h : Advance c b c') (sv : Sv) (hb : c'.writerBuffer = some sv)
      (hs : sv.spent k = true) : Transfer cb c b (ngxeCallback c' cb none (.writerDone k))
  | failed {c' : Conn} (e : CbError) (hl : ∃ r, r ≠ [] ∧ c.left = b ++ r)
      (ht : ∃ l, c'.trace = c.trace ++ l ∧ l.flatMap Obs.output = b ∧ ∀ x ∈ l, x.isSent = true) :
      Transfer cb c b (fail c' cb e)

namespace Advance

theorem trans {b' : Bytes} (h : Advance c b c') (h' : Advance c' b' c'') :
    Advance c (b ++ b') c'' := by
  obtain ⟨l, hl, hb, hs⟩ := h.trace
  obtain ⟨l', hl', hb', hs'⟩ := h'.trace
  refine ⟨h'.placed, ?_, fun hr hne => ?_, l ++ l', ?_, ?_, ?_⟩
  · rw [h.left, h'.left, List.append_assoc]
  · have hne' : c'.left ≠ [] := by
      rw [h'.left]
      exact fun hnil => hne (List.append_eq_nil_iff.mp hnil).2
    have hb := h.buffer hr hne'
    exact (h'.buffer (hb ▸ hr) hne).trans hb
  · rw [hl', hl, List.append_assoc]
  · rw [List.flatMap_append, hb, hb']
  · intro x hx
    rcases List.mem_append.mp hx with hx | hx
    · exact hs x hx
    · exact hs' x hx

end Advance

/-- A segment of code behind an advance. -/
theorem Transfer.after {b' : Bytes} (h : Transfer cb c' b' o) (h' : Advance c b c') :
    Transfer cb c (b ++ b') o := by
  cases h with
  | wait h hl => exact .wait (h'.trans h) hl
  | send k h hq => exact .send k (h'.trans h) hq
  | done k h sv hb hs => exact .done k (h'.trans h) sv hb hs
  | failed e hl ht =>
    obtain ⟨r, hr, hl⟩ := hl
    obtain ⟨l, hl', hb, hs⟩ := h'.trace
    obtain ⟨m, hm, hb', hs'⟩ := ht
    refine .failed e ⟨r, hr, ?_⟩ ⟨l ++ m, ?_, ?_, ?_⟩
    · rw [h'.left, hl, List.append_assoc]
    · rw [hm, hl', List.append_assoc]
    · rw [List.flatMap_append, hb, hb']
    · intro x hx
      rcases List.mem_append.mp hx with hx | hx
      · exact hs x hx
      · exact hs' x hx

theorem left_rv (hb : c.writerBuffer = some (.rv b)) : c.left = b.drop c.writerOffset.toNat := by
  rw [Conn.left, hb]
  rfl

theorem left_av {xs : List (Option Bytes)} (hb : c.writerBuffer = some (.av xs)) :
    c.left = tailBytes (xs.drop c.writerIndex) c.writerOffset := by
  rw [Conn.left, hb]
  rfl

/-- At the beginning of a value all of it is left. -/
theorem left_start (hb : c.writerBuffer = some sv) (ho : c.writerOffset = 0)
    (hi : c.writerIndex = 0) : c.left = sv.bytes := by
  rw [Conn.left, hb]
  cases sv with
  | undef => rfl
  | str b => rfl
  | rv b =>
    show b.drop c.writerOffset.toNat = b
    rw [ho]
    rfl
  | av xs =>
    show tailBytes (xs.drop c.writerIndex) c.writerOffset = _
    rw [ho, hi, List.drop_zero, tailBytes_zero]
    rfl
  | rvOther => rfl

/-- Code that keeps the buffer and the position. -/
theorem left_congr (hb : c'.writerBuffer = c.writerBuffer)
    (ho : c'.writerOffset = c.writerOffset) (hi : c'.writerIndex = c.writerIndex) :
    c'.left = c.left := by
  rw [Conn.left, Conn.left, hb]
  split
  · rfl
  · next sv _ _ => cases sv <;> simp [Conn.unsent, ho, hi]
  · rfl

theorem Conn.Placed.congr (h : c.Placed sv) (hb : c'.writerBuffer = c.writerBuffer)
    (ho : c'.writerOffset = c.writerOffset) (hi : c'.writerIndex = c.writerIndex) :
    c'.Placed sv := by
  refine ⟨hb.trans h.buffer, h.sendable, h.small, ?_⟩
  have hpos := h.pos
  cases sv <;> simp only [Conn.PosOk, ho, hi] at hpos ⊢ <;> exact hpos

theorem Conn.Placed.left_of_spent (h : c.Placed sv) (hs : sv.spent k = true) : c.left = [] := by
  rw [Conn.left, h.buffer]
  cases sv with
  | undef => rfl
  | str b => exact List.isEmpty_iff.mp hs
  | rv b =>
    obtain ⟨hb, -⟩ := (Bool.and_eq_true_iff).mp hs
    obtain rfl : b = [] := List.isEmpty_iff.mp hb
    exact List.drop_nil
  | av xs => cases hs
  | rvOther => cases hs

/-- The same, with nothing observed. -/
theorem Advance.same (h : c.Placed sv) (hb : c'.writerBuffer = c.writerBuffer)
    (ho : c'.writerOffset = c.writerOffset) (hi : c'.writerIndex = c.writerIndex)
    (ht : c'.trace = c.trace) : Advance c [] c' :=
  ⟨⟨sv, h.congr hb ho hi⟩, (left_congr hb ho hi).symm, fun _ _ => hb, [],
    by rw [ht, List.append_nil], rfl, by simp⟩

/-- Nothing is left to be sent in the end. -/
theorem Advance.spent (hp : c'.Placed sv) (hl : c.left = b) (hl' : c'.left = [])
    (ht : ∃ l, c'.trace = c.trace ++ l ∧ l.flatMap Obs.output = b ∧ ∀ x ∈ l, x.isSent = true) :
    Advance c b c' :=
  ⟨⟨sv, hp⟩, by rw [hl, hl', List.append_nil], fun _ hne => absurd hl' hne, ht⟩

theorem trace_resetOnEventError : (resetOnEventError k c).trace = c.trace := by
  cases k <;> rfl

theorem trace_resetOnWriteError : (resetOnWriteError k c).trace = c.trace := by
  cases k <;> rfl

theorem fail_transfer (e : CbError) (hl : c.left ≠ []) (ht : c'.trace = c.trace) :
    Transfer cb c [] (fail c' cb e) :=
  .failed e ⟨c.left, hl, rfl⟩ ⟨[], by rw [ht, List.append_nil], rfl, by simp⟩

theorem waitWritable_transfer (h : c.Placed sv) (hl : c.left ≠ []) :
    Transfer cb c [] (waitWritable cfg ok k c cb) := by
  rw [waitWritable]
  split
  · exact fail_transfer _ hl trace_resetOnEventError
  · next c₁ h₁ =>
    have hsame : Advance c [] c₁.armWrite := by
      rw [Conn.armWrite, handleWrite_eq h₁]
      exact .same h rfl rfl rfl rfl
    refine .wait hsame ?_
    rw [← List.nil_append c₁.armWrite.left, ← hsame.left]
    exact hl

/-! ### Arrays of scalar references -/

theorem Conn.Placed.smallElements {xs : List (Option Bytes)} (h : c.Placed (.av xs)) :
    ∀ e ∈ xs, (e.getD []).length < 2 ^ 31 := by
  intro e he
  have hall := List.all_eq_true.mp h.small e he
  exact of_decide_eq_true hall

theorem Conn.Placed.none_not_mem {xs : List (Option Bytes)} (h : c.Placed (.av xs)) :
    none ∉ xs := by
  intro hmem
  have hall := List.all_eq_true.mp h.sendable none hmem
  cases hall

/-- The element that the session is at. -/
theorem Conn.Placed.element {xs : List (Option Bytes)} (h : c.Placed (.av xs))
    (hx : xs[c.writerIndex]? = some (some b)) :
    xs.drop c.writerIndex = some b :: xs.drop (c.writerIndex + 1) ∧ b.length < 2 ^ 31 ∧
      0 ≤ c.writerOffset ∧ c.writerOffset ≤ b.length := by
  obtain ⟨hlt, hget⟩ := List.getElem?_eq_some_iff.mp hx
  have hdrop : xs.drop c.writerIndex = some b :: xs.drop (c.writerIndex + 1) := by
    rw [List.drop_eq_getElem_cons hlt, hget]
  have hpos : OffsetOk (xs.drop c.writerIndex) c.writerOffset := h.pos
  rw [hdrop] at hpos
  exact ⟨hdrop, h.smallElements (some b) (List.mem_of_getElem? hx), hpos⟩

/-- An element with bytes left is what the request is made from. -/
theorem Conn.Placed.requestOk_av {xs : List (Option Bytes)} (h : c.Placed (.av xs))
    (hx : xs[c.writerIndex]? = some (some b)) (hrem : 0 < remaining b c.writerOffset) :
    c.RequestOk .rvpvav := by
  obtain ⟨-, hb, h0, hle⟩ := h.element hx
  have hcur := remaining_eq hb h0 hle
  rw [hcur] at hrem
  refine ⟨b, c.writerOffset, ?_, h0, by omega, ?_⟩
  · simp [Conn.scalar, h.buffer, hx]
  · simp [Conn.request, h.buffer, hx, hcur]

/-- Nothing is left of a value that was replaced by `undef`. -/
theorem undef_placed (h : c.writerBuffer = some .undef) : c.Placed .undef ∧ c.left = [] :=
  ⟨⟨h, rfl, rfl, trivial⟩, by rw [Conn.left, h]; rfl⟩

theorem rvpvavNextBuf_transfer {xs : List (Option Bytes)} (h : c.Placed (.av xs)) :
    Transfer cb c [] (rvpvavNextBuf c cb) := by
  have hsmall : ∀ e ∈ xs.drop c.writerIndex, (e.getD []).length < 2 ^ 31 :=
    fun e he => h.smallElements e (List.mem_of_mem_drop he)
  have hspec := nextBuf_spec (xs.drop c.writerIndex) c.writerIndex c.writerOffset hsmall h.pos
  have hleft := left_av h.buffer
  rw [rvpvavNextBuf]
  split
  · next xs' hb =>
    obtain rfl : xs = xs' := by simpa [h.buffer] using hb
    split
    · next index offset hn =>
      rw [hn] at hspec
      obtain ⟨hempty, rfl⟩ := hspec
      obtain ⟨hp, hl⟩ := undef_placed
        (c := { c with writerIndex := index, writerOffset := 0, writerBuffer := some .undef }) rfl
      exact .done .rvpvav (.spent hp (hleft.trans hempty) hl
        ⟨[], (List.append_nil _).symm, rfl, by simp⟩) .undef rfl rfl
    · next hn =>
      rw [hn] at hspec
      exact absurd (List.mem_of_mem_drop hspec) h.none_not_mem
    · next index offset hn =>
      rw [hn] at hspec
      obtain ⟨j, b, rfl, hx, hrem, hok, heq, -⟩ := hspec
      rw [List.drop_drop] at hok heq
      rw [List.getElem?_drop] at hx
      have hplaced : Conn.Placed
          { c with writerIndex := c.writerIndex + j, writerOffset := offset } (.av xs) :=
        ⟨h.buffer, h.sendable, h.small, hok⟩
      refine .send .rvpvav ⟨⟨_, hplaced⟩, ?_, fun _ _ => rfl, [], (List.append_nil _).symm, rfl,
        by simp⟩ (hplaced.requestOk_av hx hrem)
      rw [hleft, left_av hplaced.buffer]
      exact heq.symm
  · next hb => exact absurd h.buffer (hb xs)

/-! ### The handlers -/

theorem Conn.Placed.bounds (h : c.Placed (.rv b)) :
    b.length < 2 ^ 31 ∧ 0 ≤ c.writerOffset ∧ c.writerOffset ≤ b.length := by
  refine ⟨of_decide_eq_true h.small, ?_⟩
  rcases h.pos with hz | ⟨h0, hlt⟩
  · omega
  · omega

/-- A scalar reference of which nothing is left is empty. -/
theorem Conn.Placed.rv_nil (h : c.Placed (.rv b)) (hl : c.left = []) : b = [] := by
  have hdrop : b.drop c.writerOffset.toNat = [] := (left_rv h.buffer).symm.trans hl
  have hlen : b.length ≤ c.writerOffset.toNat := List.drop_eq_nil_iff.mp hdrop
  rcases h.pos with hz | ⟨h0, hlt⟩
  · exact List.length_eq_zero_iff.mp (by omega)
  · omega

theorem Conn.Placed.requestOk_rv (h : c.Placed (.rv b)) (hl : c.left ≠ []) :
    c.RequestOk .rvpv := by
  obtain ⟨hb, h0, hle⟩ := h.bounds
  have hdrop : b.drop c.writerOffset.toNat ≠ [] := fun he =>
    hl ((left_rv h.buffer).trans he)
  have hlt : c.writerOffset < b.length := by
    by_contra hge
    exact hdrop (List.drop_eq_nil_iff.mpr (by omega))
  refine ⟨b, c.writerOffset, ?_, h0, hlt, ?_⟩
  · simp [Conn.scalar, h.buffer]
  · simp [Conn.request, h.buffer, remaining_eq hb h0 hle]

theorem ngxeRvpvWriterHandler_transfer {ev : Event WriteHandler} (h : c.Placed (.rv b))
    (hto : ev.timedout = false) : Transfer cb c [] (ngxeRvpvWriterHandler c ev cb b) := by
  obtain ⟨hb, h0, hle⟩ := h.bounds
  rw [ngxeRvpvWriterHandler, hto, if_neg Bool.false_ne_true]
  dsimp only
  have hdel : Advance c [] { c with write := c.write.delTimer } := .same h rfl rfl rfl rfl
  split
  · next hrem =>
    have hempty : b.drop c.writerOffset.toNat = [] := (remaining_le_zero hb h0 hle).mp hrem
    have hleft : c.left = [] := (left_rv h.buffer).trans hempty
    obtain rfl := h.rv_nil hleft
    have hplaced : Conn.Placed { c with write := c.write.delTimer, writerOffset := 0 } (.rv []) :=
      ⟨h.buffer, rfl, rfl, posOk_zero rfl _⟩
    have hleft' : Conn.left { c with write := c.write.delTimer, writerOffset := 0 } = [] := by
      rw [left_rv hplaced.buffer]
      rfl
    exact .done .rvpv (.spent hplaced hleft hleft' ⟨[], (List.append_nil _).symm, rfl, by simp⟩)
      (.rv []) h.buffer rfl
  · next hrem =>
    have hplaced : Conn.Placed { c with write := c.write.delTimer } (.rv b) := h.congr rfl rfl rfl
    refine .send .rvpv hdel (hplaced.requestOk_rv fun hl => hrem ?_)
    exact (remaining_le_zero hb h0 hle).mpr ((left_rv hplaced.buffer).symm.trans hl)

theorem requestOk_str (hb : c.writerBuffer = some (.str b)) (hne : b ≠ []) :
    c.RequestOk .plain := by
  have hlen : 0 < b.length := List.length_pos_iff.mpr hne
  refine ⟨b, 0, ?_, Int.le_refl 0, by omega, ?_⟩
  · simp [Conn.scalar, hb]
  · simp [Conn.request, hb]

/-- The handlers, called for a reason other than a timeout. -/
theorem ngxeWriterHandler_transfer {ev : Event WriteHandler} (h : c.Placed sv)
    (hcb : c.writerCallback = some cb) (hto : ev.timedout = false) :
    Transfer cb c [] (ngxeWriterHandler c ev) := by
  have hplaced : Conn.Placed { c with write := c.write.delTimer } sv := h.congr rfl rfl rfl
  have hdel : Advance c [] { c with write := c.write.delTimer } := .same h rfl rfl rfl rfl
  cases sv with
  | undef =>
    have hcur : Sv.undef.cur = 0 := rfl
    rw [ngxeWriterHandler_plain hcb h.buffer rfl hto, if_pos hcur]
    exact .done .plain hdel .undef h.buffer rfl
  | str b =>
    rw [ngxeWriterHandler_plain hcb h.buffer rfl hto]
    split
    · next hcur =>
      have hnil : b = [] := List.length_eq_zero_iff.mp hcur
      exact .done .plain hdel (.str b) h.buffer (by rw [hnil]; rfl)
    · next hcur =>
      exact .send .plain hdel (requestOk_str h.buffer fun hb => hcur (by rw [hb]; rfl))
  | rv b =>
    rw [ngxeWriterHandler_rv hcb h.buffer]
    exact ngxeRvpvWriterHandler_transfer h hto
  | av xs =>
    rw [ngxeWriterHandler_av hcb h.buffer, ngxeRvpvavWriterHandler, hto,
      if_neg Bool.false_ne_true]
    exact (rvpvavNextBuf_transfer hplaced).after hdel
  | rvOther => cases h.sendable

/-! ### `SENDAGAIN` -/

/-- One answer of `c->send` has moved the position over `b`. -/
theorem Advance.sent (hp : c'.Placed sv) (hl : c.left = b ++ c'.left)
    (hb : c.writerBuffer.any Sv.isRef = true → c'.left ≠ [] → c'.writerBuffer = c.writerBuffer)
    (ht : c'.trace = c.trace ++ [.sent b]) : Advance c b c' :=
  ⟨⟨sv, hp⟩, hl, hb, _, ht, by simp [Obs.output], by simp [Obs.isSent]⟩

/-- `n` bytes of a plain string are accepted and chopped off. -/
theorem sendPlain_transfer {n : Nat} (hb : c.writerBuffer = some (.str b)) :
    Transfer cb c (b.take n) (sendAccepted cfg ok .plain c cb ⟨b, b.length⟩ n) := by
  have hsplit : c.left = b.take n ++ b.drop n := by
    rw [List.take_append_drop, Conn.left, hb]
  have hplaced : ∀ w : Event WriteHandler, Conn.Placed { c with
      write := w
      trace := c.trace ++ [Obs.sent (b.take n)]
      writerBuffer := some (.str (b.drop n)) } (.str (b.drop n)) := fun w =>
    ⟨rfl, rfl, rfl, trivial⟩
  have hplain : ∀ p : Prop, c.writerBuffer.any Sv.isRef = true → p := by
    intro p hr
    rw [hb] at hr
    cases hr
  rw [← List.append_nil (b.take n)]
  dsimp only [sendAccepted]
  split
  · next hmore =>
    exact (waitWritable_transfer (hplaced _) (List.length_pos_iff.mp hmore)).after
      (.sent (hplaced _) hsplit (hplain _) rfl)
  · next hdone =>
    have hnil : b.drop n = [] := List.length_eq_zero_iff.mp (by omega)
    rw [List.append_nil]
    exact .done .plain (.sent (hplaced _) hsplit (hplain _) rfl) (.str (b.drop n)) rfl
      (by rw [hnil]; rfl)

/-- The offset moves on inside a scalar. -/
theorem Conn.Placed.advance_rv {n : Nat} (h : c.Placed (.rv b)) (hn : c.writerOffset + n < b.length)
    (hb : c'.writerBuffer = c.writerBuffer) (ho : c'.writerOffset = c.writerOffset + n)
    (ht : c'.trace = c.trace ++ [.sent ((b.drop c.writerOffset.toNat).take n)]) :
    c'.Placed (.rv b) ∧ Advance c ((b.drop c.writerOffset.toNat).take n) c' ∧ c'.left ≠ [] := by
  obtain ⟨-, h0, -⟩ := h.bounds
  have hb' : c'.writerBuffer = some (.rv b) := hb.trans h.buffer
  have hleft : c'.left = b.drop (c.writerOffset + n).toNat := by
    rw [left_rv hb', ho]
  have hplaced : c'.Placed (.rv b) := by
    refine ⟨hb', rfl, h.small, .inr ?_⟩
    rw [ho]
    omega
  refine ⟨hplaced, .sent hplaced ?_ (fun _ _ => hb) ht, ?_⟩
  · rw [left_rv h.buffer, hleft]
    exact drop_toNat_add h0
  · rw [hleft]
    intro hnil
    have hlen : b.length ≤ (c.writerOffset + n).toNat := List.drop_eq_nil_iff.mp hnil
    omega

/-- `n` bytes of a scalar reference are accepted. -/
theorem sendRvpv_transfer {n : Nat} (h : c.Placed (.rv b))
    (hn : (n : Int) ≤ b.length - c.writerOffset) :
    Transfer cb c ((b.drop c.writerOffset.toNat).take n) (sendAccepted cfg ok .rvpv c cb
      ⟨b.drop c.writerOffset.toNat, b.length - c.writerOffset⟩ n) := by
  obtain ⟨hb, h0, hle⟩ := h.bounds
  have hoff : toInt32 (c.writerOffset + n) = c.writerOffset + n :=
    toInt32_eq (by omega) (by omega)
  have hcur : remaining b (c.writerOffset + n) = b.length - (c.writerOffset + n) :=
    remaining_eq hb (by omega) (by omega)
  rw [← List.append_nil (List.take n _)]
  dsimp only [sendAccepted]
  rw [hoff]
  split
  · next b' hb' =>
    obtain rfl : b = b' := by simpa [h.buffer] using hb'
    split
    · next hmore =>
      obtain ⟨hplaced, hmove, hl⟩ := @Conn.Placed.advance_rv c { c with
        write := { c.write with ready := false }
        trace := c.trace ++ [Obs.sent ((b.drop c.writerOffset.toNat).take n)]
        writerOffset := c.writerOffset + n } b n h (by omega) rfl rfl rfl
      exact (waitWritable_transfer hplaced hl).after hmove
    · next hdone =>
      have hsplit := drop_toNat_add (b := b) (n := n) h0
      rw [List.drop_eq_nil_iff.mpr (show b.length ≤ (c.writerOffset + n).toNat by omega),
        List.append_nil] at hsplit
      obtain ⟨hp, hl⟩ := undef_placed (c := { c with
        write := { c.write with
          ready := c.write.ready && decide ((b.length : Int) - c.writerOffset ≤ n) }
        trace := c.trace ++ [Obs.sent ((b.drop c.writerOffset.toNat).take n)]
        writerOffset := 0
        writerBuffer := some .undef }) rfl
      rw [List.append_nil]
      exact .done .rvpv (.spent hp ((left_rv h.buffer).trans hsplit) hl
        ⟨_, rfl, by simp [Obs.output], by simp [Obs.isSent]⟩) .undef rfl rfl
  · next hb' => exact absurd h.buffer (hb' b)

/-- The offset moves on inside an element of an array. -/
theorem Conn.Placed.advance_av {xs : List (Option Bytes)} {n : Nat} (h : c.Placed (.av xs))
    (hx : xs[c.writerIndex]? = some (some b)) (hn : c.writerOffset + n < b.length)
    (hb : c'.writerBuffer = c.writerBuffer) (ho : c'.writerOffset = c.writerOffset + n)
    (hi : c'.writerIndex = c.writerIndex)
    (ht : c'.trace = c.trace ++ [.sent ((b.drop c.writerOffset.toNat).take n)]) :
    c'.Placed (.av xs) ∧ Advance c ((b.drop c.writerOffset.toNat).take n) c' ∧ c'.left ≠ [] := by
  obtain ⟨hdrop, -, h0, -⟩ := h.element hx
  have hb' : c'.writerBuffer = some (.av xs) := hb.trans h.buffer
  have hleft : c'.left =
      tailBytes (some b :: xs.drop (c.writerIndex + 1)) (c.writerOffset + n) := by
    rw [left_av hb', hi, ho, hdrop]
  have hplaced : c'.Placed (.av xs) := by
    refine ⟨hb', h.sendable, h.small, ?_⟩
    rw [Conn.PosOk, hi, ho, hdrop]
    show 0 ≤ c.writerOffset + n ∧ c.writerOffset + n ≤ b.length
    omega
  refine ⟨hplaced, .sent hplaced ?_ (fun _ _ => hb) ht, ?_⟩
  · rw [left_av h.buffer, hleft, hdrop]
    exact tailBytes_advance h0
  · rw [hleft]
    intro hnil
    have hlen : b.length ≤ (c.writerOffset + n).toNat :=
      List.drop_eq_nil_iff.mp (List.append_eq_nil_iff.mp hnil).1
    omega

/-- The position moves on to the next element of an array. -/
theorem Conn.Placed.next_av {xs : List (Option Bytes)} {n : Nat} (h : c.Placed (.av xs))
    (hx : xs[c.writerIndex]? = some (some b)) (hn : c.writerOffset + n = b.length)
    (hb : c'.writerBuffer = c.writerBuffer) (ho : c'.writerOffset = 0)
    (hi : c'.writerIndex = c.writerIndex + 1)
    (ht : c'.trace = c.trace ++ [.sent ((b.drop c.writerOffset.toNat).take n)]) :
    c'.Placed (.av xs) ∧ Advance c ((b.drop c.writerOffset.toNat).take n) c' := by
  obtain ⟨hdrop, -, h0, -⟩ := h.element hx
  have hb' : c'.writerBuffer = some (.av xs) := hb.trans h.buffer
  have hplaced : c'.Placed (.av xs) := ⟨hb', h.sendable, h.small, posOk_zero ho _⟩
  refine ⟨hplaced, .sent hplaced ?_ (fun _ _ => hb) ht⟩
  have hnext : tailBytes (some b :: xs.drop (c.writerIndex + 1)) (c.writerOffset + n) =
      tailBytes (xs.drop (c.writerIndex + 1)) 0 := by
    rw [tailBytes_eq_rest, tailBytes_eq_rest]
    exact Chunks.rest_next (by show b.length ≤ _; omega)
  rw [left_av h.buffer, left_av hb', hi, ho, hdrop, ← hnext]
  exact tailBytes_advance h0

/-- `n` bytes of an element of an array are accepted. -/
theorem sendRvpvav_transfer {xs : List (Option Bytes)} {n : Nat} (h : c.Placed (.av xs))
    (hx : xs[c.writerIndex]? = some (some b)) (hn : (n : Int) ≤ b.length - c.writerOffset) :
    Transfer cb c ((b.drop c.writerOffset.toNat).take n) (sendAccepted cfg ok .rvpvav c cb
      ⟨b.drop c.writerOffset.toNat, b.length - c.writerOffset⟩ n) := by
  obtain ⟨-, hb, h0, hle⟩ := h.element hx
  have hoff : toInt32 (c.writerOffset + n) = c.writerOffset + n :=
    toInt32_eq (by omega) (by omega)
  have hcur : remaining b (c.writerOffset + n) = b.length - (c.writerOffset + n) :=
    remaining_eq hb (by omega) (by omega)
  rw [← List.append_nil (List.take n _)]
  dsimp only [sendAccepted]
  rw [hoff]
  split
  · next xs' hb' =>
    obtain rfl : xs = xs' := by simpa [h.buffer] using hb'
    split
    · next b' hx' =>
      obtain rfl : b = b' := by simpa [hx] using hx'
      split
      · next hmore =>
        obtain ⟨hplaced, hmove, hl⟩ := @Conn.Placed.advance_av c { c with
          write := { c.write.delTimer with ready := false }
          trace := c.trace ++ [Obs.sent ((b.drop c.writerOffset.toNat).take n)]
          writerOffset := c.writerOffset + n } b xs n h hx (by omega) rfl rfl rfl rfl
        exact (waitWritable_transfer hplaced hl).after hmove
      · next hdone =>
        obtain ⟨hplaced, hmove⟩ := @Conn.Placed.next_av c { c with
          write := Event.delTimer { c.write with
            ready := c.write.ready && decide ((b.length : Int) - c.writerOffset ≤ n) }
          trace := c.trace ++ [Obs.sent ((b.drop c.writerOffset.toNat).take n)]
          writerOffset := 0
          writerIndex := c.writerIndex + 1 } b xs n h hx (by omega) rfl rfl rfl rfl
        exact (rvpvavNextBuf_transfer hplaced).after hmove
    · next hx' => exact absurd hx (hx' b)
  · next hb' => exact absurd h.buffer (hb' xs)

/-- A frame at `SENDAGAIN` has something to send. -/
theorem Conn.RequestOk.left_ne_nil (h : c.RequestOk k) : c.left ≠ [] := by
  obtain ⟨b, offset, hs, h0, hlt, -⟩ := h
  have hne : b.drop offset.toNat ≠ [] := by
    intro hnil
    have hlen : b.length ≤ offset.toNat := List.drop_eq_nil_iff.mp hnil
    omega
  rw [Conn.scalar.eq_def] at hs
  split at hs
  · next hb =>
    cases hs
    rw [Conn.left, hb]
    exact hne
  · next hb =>
    cases hs
    rw [left_rv hb]
    exact hne
  · next xs hb =>
    split at hs
    · next b' hx =>
      cases hs
      obtain ⟨hlt', hget⟩ := List.getElem?_eq_some_iff.mp hx
      rw [left_av hb, List.drop_eq_getElem_cons hlt', hget]
      exact fun hnil => hne (List.append_eq_nil_iff.mp hnil).1
    · cases hs
  · cases hs

/-- A writer handler from `SENDAGAIN` on. -/
theorem writerSend_transfer {r : SendResult} (h : c.Placed sv) (hk : c.RequestOk k)
    (hr : r.answers (c.request k) = true) :
    ∃ b, Transfer cb c b (writerSend cfg ok k c cb r) := by
  have hl : c.left ≠ [] := hk.left_ne_nil
  obtain ⟨b, offset, hs, h0, hlt, hq⟩ := hk
  rw [hq] at hr
  rw [writerSend]
  split
  · next hnone => cases hnone.symm.trans hq
  next q hq' =>
  obtain rfl : (⟨b.drop offset.toNat, b.length - offset⟩ : Request) = q :=
    Option.some.inj (hq.symm.trans hq')
  cases r with
  | error => exact ⟨[], fail_transfer _ hl trace_resetOnWriteError⟩
  | zero => exact ⟨[], fail_transfer _ hl trace_resetOnWriteError⟩
  | again =>
    refine ⟨[], ?_⟩
    dsimp only
    split
    · exact .failed _ ⟨c.left, hl, rfl⟩
        ⟨[.sent []], trace_resetOnEventError, rfl, by simp [Obs.isSent]⟩
    · next c₁ h₁ =>
      have hready : c₁.write.ready = false := by rw [handleWrite_eq h₁]
      rw [hready, if_neg Bool.false_ne_true]
      have hmove : Advance c [] c₁.armWrite := by
        rw [Conn.armWrite, handleWrite_eq h₁]
        exact .sent (h.congr rfl rfl rfl) (left_congr rfl rfl rfl).symm (fun _ _ => rfl) rfl
      exact .wait hmove fun hnil => hl (hmove.left.trans hnil)
  | accepted n =>
    simp only [SendResult.answers, Bool.and_eq_true, decide_eq_true_eq] at hr
    obtain ⟨-, hn⟩ := hr
    refine ⟨(b.drop offset.toNat).take n, ?_⟩
    rw [Conn.scalar.eq_def] at hs
    split at hs
    · next hb =>
      cases hs
      simpa using sendPlain_transfer hb
    · next hb =>
      cases hs
      obtain rfl : sv = .rv b := Option.some.inj (h.buffer.symm.trans hb)
      exact sendRvpv_transfer h hn
    · next xs hb =>
      obtain rfl : sv = .av xs := Option.some.inj (h.buffer.symm.trans hb)
      split at hs
      · next b' hx =>
        cases hs
        exact sendRvpvav_transfer h hx hn
      · cases hs
    · cases hs

end NginxEngine.XS
