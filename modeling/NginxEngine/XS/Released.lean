import NginxEngine.XS.Segments

/-!
# Released callback records

`ngxe_callback(cb, 1)` drops the references of a record after the call, and so does
the cleanup of the connection's pool. The record given to `ngxe_client` is released
after its first call and stays in `s->writer_callback` until `ngxe_writer` replaces
it, so nothing may start the writer before that.

## Main definitions

- `NoReleasedCall` — no call of a released record, at most one of the connect record
- `ReleaseSafe` — the condition on steps under which this is so

## Main results

- `released_never_called` — it is so in every run of safe steps
- `released_called` — a client with a reader but no writer breaks it
-/

namespace NginxEngine.XS

variable {cfg : Config} {ok : Bool} {c c' : Conn} {cb : Nat} {o : Outcome} {s t : Sys}
  {rest stk : List Frame}

/-- The kind of a record. -/
def Conn.kindOf (c : Conn) (cb : Nat) : Option CbKind := (c.callbacks[cb]?).map (·.kind)

def Obs.isCall : Obs → Bool
  | .called _ _ _ _ => true
  | _ => false

def Obs.isConnectCall : Obs → Bool
  | .called _ (some r) _ _ => decide (r.kind = .client)
  | _ => false

/-- Every call found its record alive, and the connect callback has run at most once. -/
structure NoReleasedCall (s : Sys) : Prop where
  live : ∀ cb r site err, Obs.called cb r site err ∈ s.c.trace →
    ∃ x, r = some x ∧ x.decremented = false
  once : s.c.trace.countP Obs.isConnectCall ≤ 1

/-- `s->writer_callback` is the record given to `ngxe_client`. -/
def Conn.connectRecord (c : Conn) : Bool :=
  c.writerCallback.any fun cb => decide (c.kindOf cb = some .client)

/-- The writer is not started, by the program or by the automatic switch, as long as
    `s->writer_callback` is the connect record, and no writer is created on a client
    whose read event still goes to `ngxe_client_init_handler`. -/
def ReleaseSafe (s : Sys) : Input → Prop
  | .op (.writerStart _) _ | .op .readerStopWriterStart _ | .op (.writerBufferSet _) _ =>
    s.c.connectRecord = false
  | .op (.writer _ _ _) _ => s.c.read.handler ≠ .clientInit
  | .ret _ =>
    match s.stack with
    | .inCallback _ .readerData :: _ =>
      s.c.switchesToWriter = true → s.c.connectRecord = false
    | _ => True
  | _ => True

instance {i : Input} : Decidable (ReleaseSafe s i) := by
  unfold ReleaseSafe
  generalize s.stack = stk
  induction i with
  | op o ok => induction o <;> infer_instance
  | ret ok =>
    induction stk using List.casesOn with
    | nil => infer_instance
    | cons f rest =>
      induction f with
      | inCallback cb site => induction site <;> infer_instance
      | _ => infer_instance
  | _ => infer_instance

/-! ### The invariant -/

/-- The calls made so far. -/
def Conn.calls (c : Conn) : List Obs := c.trace.filter Obs.isCall

/-- `ngxe_client_init_handler` is installed. -/
def Conn.connecting (c : Conn) : Prop :=
  c.read.handler = .clientInit ∨ c.write.handler = .clientInit

structure Conn.CallsOk (c : Conn) : Prop where
  live : ∀ cb r site err, Obs.called cb r site err ∈ c.calls →
    ∃ x, r = some x ∧ x.decremented = false
  once : c.calls.countP Obs.isConnectCall ≤ 1

/-- The records of an open connection. -/
structure Conn.Records (c : Conn) : Prop where
  released : ∀ (cb : Nat) (r : Callback), c.callbacks[cb]? = some r → r.decremented = true →
    r.kind = .client
  reader : ∀ cb, c.readerCallback = some cb → c.kindOf cb = some .reader
  writer : ∀ cb, c.writerCallback = some cb →
    c.kindOf cb = some .writer ∨ c.kindOf cb = some .client
  started : c.write.handler = .writer → c.connectRecord = false
  connecting : c.connecting → c.calls.countP Obs.isConnectCall = 0 ∧
    ∃ (cb : Nat) (r : Callback), c.writerCallback = some cb ∧ c.callbacks[cb]? = some r ∧
      r.kind = .client ∧ r.decremented = false

/-- The record a frame goes on with. -/
def Frame.RecordOk (c : Conn) : Frame → Prop
  | .recv cb | .inCallback cb .readerData => c.kindOf cb = some .reader
  | .send _ cb | .inCallback cb (.writerDone _) => c.kindOf cb = some .writer
  | .inCallback cb .connected => c.kindOf cb = some .client ∧ ¬ c.connecting
  | .inCallback _ .failed | .outside | .crash => True

structure RelInv (s : Sys) : Prop where
  calls : s.c.CallsOk
  records : s.c.destroyed = false → s.c.Records
  frames : s.c.destroyed = false → ∀ g ∈ s.stack, g.RecordOk s.c
  perl : ∀ g ∈ s.stack.tail, g.isPerl = true
  closed : s.c.destroyed = true → ∀ g ∈ s.stack, g.isPerl = true ∨ g = .crash

theorem countP_calls :
    c.calls.countP Obs.isConnectCall = c.trace.countP Obs.isConnectCall := by
  rw [Conn.calls, List.countP_filter]
  refine List.countP_congr fun x _ => ?_
  cases x <;> simp [Obs.isCall, Obs.isConnectCall]

theorem RelInv.noReleasedCall (h : RelInv s) : NoReleasedCall s := by
  refine ⟨fun cb r site err hmem => ?_, ?_⟩
  · exact h.calls.live cb r site err (List.mem_filter.mpr ⟨hmem, rfl⟩)
  · rw [← countP_calls]
    exact h.calls.once

/-- What holds between the pieces of handler code that run on top of `stk`. -/
structure PerlRec (c : Conn) (stk : List Frame) : Prop where
  calls : c.CallsOk
  records : c.destroyed = false → c.Records
  frames : c.destroyed = false → ∀ g ∈ stk, g.RecordOk c
  perl : ∀ g ∈ stk, g.isPerl = true

theorem Frame.RecordOk.mono {f : Frame} (hf : f.RecordOk c)
    (hk : ∀ cb k, c.kindOf cb = some k → c'.kindOf cb = some k)
    (hconn : c'.connecting → c.connecting) : f.RecordOk c' := by
  cases f with
  | recv cb | send k cb => exact hk cb _ hf
  | inCallback cb site =>
    cases site with
    | readerData | writerDone k => exact hk cb _ hf
    | failed => trivial
    | connected => exact ⟨hk cb _ hf.1, fun hc => hf.2 (hconn hc)⟩
  | outside | crash => trivial

/-- A change that calls nothing back and keeps the kinds of the records there are. -/
theorem PerlRec.evolve (h : PerlRec c stk) (hcalls : c'.calls = c.calls)
    (hopen : c'.destroyed = false → c.destroyed = false)
    (hk : ∀ cb k, c.kindOf cb = some k → c'.kindOf cb = some k)
    (hconn : c'.connecting → c.connecting) (hrec : c.Records → c'.Records) :
    PerlRec c' stk := by
  refine ⟨⟨?_, ?_⟩, fun hd => hrec (h.records (hopen hd)), fun hd g hg => ?_, h.perl⟩
  · rw [hcalls]
    exact h.calls.live
  · rw [hcalls]
    exact h.calls.once
  · exact (h.frames (hopen hd) g hg).mono hk hconn

theorem PerlRec.inv (h : PerlRec c stk) : RelInv ⟨c, stk⟩ :=
  ⟨h.calls, h.records, h.frames, fun g hg => h.perl g (List.mem_of_mem_tail hg),
    fun _ g hg => .inl (h.perl g hg)⟩

theorem PerlRec.crash (h : PerlRec c stk) : RelInv (resume (c, [.crash]) stk) := by
  refine ⟨h.calls, h.records, fun hd g hg => ?_, h.perl, fun _ g hg => ?_⟩
  · rcases List.mem_cons.mp hg with rfl | hg
    · trivial
    · exact h.frames hd g hg
  · rcases List.mem_cons.mp hg with rfl | hg
    · exact .inr rfl
    · exact .inl (h.perl g hg)

theorem kindOf_of_callbacks {k : CbKind} (hcb : c'.callbacks = c.callbacks)
    (hk : c.kindOf cb = some k) : c'.kindOf cb = some k := by
  rw [Conn.kindOf, hcb]
  exact hk

/-- The handlers may change as long as the writer's is not installed over the connect
    record and the client's not at all. -/
theorem Conn.Records.handlers (h : c.Records) (hcb : c'.callbacks = c.callbacks)
    (hr : c'.readerCallback = c.readerCallback) (hw : c'.writerCallback = c.writerCallback)
    (hcount : c'.calls.countP Obs.isConnectCall = c.calls.countP Obs.isConnectCall)
    (hstart : c'.write.handler = .writer → c.write.handler = .writer ∨ c.connectRecord = false)
    (hconn : c'.connecting → c.connecting) : c'.Records := by
  have hkind : c'.kindOf = c.kindOf := by
    funext cb
    rw [Conn.kindOf, Conn.kindOf, hcb]
  have hrec : c'.connectRecord = c.connectRecord := by
    rw [Conn.connectRecord, Conn.connectRecord, hw, hkind]
  refine ⟨?_, ?_, ?_, fun hh => ?_, fun hc => ?_⟩
  · rw [hcb]
    exact h.released
  · rw [hr, hkind]
    exact h.reader
  · rw [hw, hkind]
    exact h.writer
  · rw [hrec]
    exact (hstart hh).elim h.started id
  · rw [hcount, hw, hcb]
    exact h.connecting (hconn hc)

/-- The same, for the whole state. -/
theorem PerlRec.handlers (h : PerlRec c stk) (hcb : c'.callbacks = c.callbacks)
    (hr : c'.readerCallback = c.readerCallback) (hw : c'.writerCallback = c.writerCallback)
    (hcalls : c'.calls = c.calls) (hd : c'.destroyed = c.destroyed)
    (hstart : c'.write.handler = .writer → c.write.handler = .writer ∨ c.connectRecord = false)
    (hconn : c'.connecting → c.connecting) : PerlRec c' stk :=
  h.evolve hcalls (fun ho => hd ▸ ho) (fun cb k hk => kindOf_of_callbacks hcb hk) hconn
    fun hrec => hrec.handlers hcb hr hw (by rw [hcalls]) hstart hconn

/-- A record that is not the connect record is alive while the connection is open. -/
theorem Conn.Records.alive {k : CbKind} (h : c.Records) (hk : c.kindOf cb = some k)
    (hne : k ≠ .client) : ∃ r, c.callbacks[cb]? = some r ∧ r.kind = k ∧ r.decremented = false := by
  simp only [Conn.kindOf, Option.map_eq_some_iff] at hk
  obtain ⟨r, hr, rfl⟩ := hk
  refine ⟨r, hr, rfl, ?_⟩
  by_contra hdec
  exact hne (h.released cb r hr (by simpa using hdec))

/-- Calls of one live record that is not the connect record are appended. -/
theorem Conn.CallsOk.append {l : List Obs} {r : Callback} (h : c.CallsOk)
    (ht : c'.trace = c.trace ++ l) (hr : r.kind ≠ .client) (hlive : r.decremented = false)
    (hl : ∀ x ∈ l, x.isCall = true → ∃ cb site err, x = .called cb (some r) site err) :
    c'.CallsOk ∧ c'.calls.countP Obs.isConnectCall = c.calls.countP Obs.isConnectCall := by
  have hcalls : c'.calls = c.calls ++ l.filter Obs.isCall := by
    rw [Conn.calls, ht, List.filter_append]
    rfl
  have hzero : (l.filter Obs.isCall).countP Obs.isConnectCall = 0 := by
    refine List.countP_eq_zero.mpr fun x hx => ?_
    obtain ⟨hmem, hcall⟩ := List.mem_filter.mp hx
    obtain ⟨cb, site, err, rfl⟩ := hl x hmem hcall
    simp [Obs.isConnectCall, hr]
  have hcount : c'.calls.countP Obs.isConnectCall = c.calls.countP Obs.isConnectCall := by
    rw [hcalls, List.countP_append, hzero, Nat.add_zero]
  refine ⟨⟨fun cb x site err hmem => ?_, hcount ▸ h.once⟩, hcount⟩
  rw [hcalls] at hmem
  rcases List.mem_append.mp hmem with hmem | hmem
  · exact h.live cb x site err hmem
  · obtain ⟨hmem, hcall⟩ := List.mem_filter.mp hmem
    obtain ⟨cb', site', err', hx⟩ := hl _ hmem hcall
    cases hx
    exact ⟨r, rfl, hlive⟩

/-- A frame on top of callbacks that wait, on an open connection. -/
theorem RelInv.of_open (hcalls : c.CallsOk) (hd : c.destroyed = false) (hrec : c.Records)
    {fs : List Frame} (hlen : fs.length ≤ 1) (hfs : ∀ g ∈ fs, g.RecordOk c)
    (hstk : ∀ g ∈ stk, g.RecordOk c) (hperl : ∀ g ∈ stk, g.isPerl = true) :
    RelInv ⟨c, fs ++ stk⟩ := by
  refine ⟨hcalls, fun _ => hrec, fun _ g hg => ?_, fun g hg => ?_, fun hc => ?_⟩
  · rcases List.mem_append.mp hg with hg | hg
    · exact hfs g hg
    · exact hstk g hg
  · match fs, hlen with
    | [], _ => exact hperl g (List.mem_of_mem_tail hg)
    | [f], _ => exact hperl g hg
  · rw [hd] at hc
    cases hc

/-- Code that calls back with one record, which is not the connect record, adds calls of it. -/
theorem PerlRec.counted {k : CbKind} {l : List Obs} (h : PerlRec c stk) (hd : c.destroyed = false)
    (hk : c.kindOf cb = some k) (hne : k ≠ .client) (ht : c'.trace = c.trace ++ l)
    (hl : ∀ cb' r site err, .called cb' r site err ∈ l → r = c.callbacks[cb]?) :
    c'.CallsOk ∧ c'.calls.countP Obs.isConnectCall = c.calls.countP Obs.isConnectCall := by
  obtain ⟨r, hr, hkind, hlive⟩ := (h.records hd).alive hk hne
  refine h.calls.append ht (r := r) (hkind ▸ hne) hlive fun x hx hcall => ?_
  cases x with
  | called cb' r' site err =>
    obtain rfl := hl cb' r' site err hx
    exact ⟨cb', site, err, by rw [hr]⟩
  | received b | sent b | loaded sv => cases hcall

/-- Writer code that calls back with a writer's record. -/
theorem PerlRec.writer (h : PerlRec c stk) (hd : c.destroyed = false) (ho : WriterOutcome cb c o)
    (hk : c.kindOf cb = some .writer) : RelInv (resume o stk) := by
  obtain ⟨l, ht, hl⟩ := ho.move.trace
  have hcb := ho.move.callbacks
  have hmono : ∀ cb' k, c.kindOf cb' = some k → o.1.kindOf cb' = some k :=
    fun _ _ hk' => kindOf_of_callbacks hcb hk'
  obtain ⟨hcalls, hcount⟩ := h.counted hd hk (by decide) ht fun _ _ _ _ hx => (hl _ hx).2.1
  have hconn : o.1.connecting → c.connecting := by
    intro hc
    rw [Conn.connecting, ho.move.read, ho.move.handler] at hc
    exact hc
  refine .of_open hcalls (ho.move.destroyed.trans hd) ?_ ho.frames.length_le ?_ ?_ h.perl
  · refine (h.records hd).handlers hcb ?_ ho.move.writerCallback hcount ?_ hconn
    · rw [ho.move.frame]
    · intro hh
      exact .inl (ho.move.handler ▸ hh)
  · obtain ⟨c', fs⟩ := o
    cases ho.frames with
    | ret => simp
    | send k | done k => simpa [Frame.RecordOk] using hmono _ _ hk
    | failed | crash => simp [Frame.RecordOk]
  · exact fun g hg => (h.frames hd g hg).mono hmono hconn

/-- Reader code that calls back with a reader's record. -/
theorem PerlRec.reader (h : PerlRec c stk) (hd : c.destroyed = false) (ho : ReaderOutcome cb c o)
    (hk : c.kindOf cb = some .reader) : RelInv (resume o stk) := by
  obtain ⟨l, ht, hl⟩ := ho.move.trace
  have hcb := ho.move.callbacks
  have hmono : ∀ cb' k, c.kindOf cb' = some k → o.1.kindOf cb' = some k :=
    fun _ _ hk' => kindOf_of_callbacks hcb hk'
  obtain ⟨hcalls, hcount⟩ := h.counted hd hk (by decide) ht fun _ _ _ _ hx => (hl _ hx).2.1
  have hconn : o.1.connecting → c.connecting := by
    intro hc
    rw [Conn.connecting, ho.move.write, ho.move.handler] at hc
    exact hc
  refine .of_open hcalls (ho.move.destroyed.trans hd) ?_ ho.frames.length_le ?_ ?_ h.perl
  · refine (h.records hd).handlers hcb ho.move.readerCallback ho.move.writerCallback hcount ?_
      hconn
    intro hh
    exact .inl (ho.move.write ▸ hh)
  · obtain ⟨c', fs⟩ := o
    cases ho.frames with
    | ret => simp
    | recv | data => simpa [Frame.RecordOk] using hmono _ _ hk
    | failed | crash => simp [Frame.RecordOk]
  · exact fun g hg => (h.frames hd g hg).mono hmono hconn

theorem Conn.Records.writerKind (h : c.Records) (hc : c.connectRecord = false)
    (hw : c.writerCallback = some cb) : c.kindOf cb = some .writer := by
  refine (h.writer cb hw).resolve_right fun hk => ?_
  simp [Conn.connectRecord, hw, hk] at hc

theorem PerlRec.startWriter (h : PerlRec c stk) (hd : c.destroyed = false)
    (hc : c.connectRecord = false) : RelInv (resume (ngxeWriterStart cfg ok c) stk) := by
  have hi : PerlRec c.installWriter stk := by
    refine h.handlers rfl rfl rfl rfl rfl (fun _ => .inr hc) fun hconn => ?_
    exact hconn.imp_right nofun
  cases hw : c.writerCallback with
  | some w =>
    have hk : c.kindOf w = some .writer := (h.records hd).writerKind hc hw
    have ho : WriterOutcome w c.installWriter (ngxeWriterStart cfg ok c) :=
      ngxeWriterStart_outcome fun x hx => by simpa [hw] using hx.symm
    exact hi.writer hd ho hk
  | none =>
    -- without a record nothing is called, whatever `c->write->ready` is
    rw [ngxeWriterStart]
    rw [hw]
    split
    · exact hi.crash
    · next c₁ h₁ =>
      have hi₁ : PerlRec c₁.armWrite stk := by
        rw [Conn.armWrite, handleWrite_eq h₁]
        exact hi.handlers rfl rfl rfl rfl rfl (fun hh => .inl hh) id
      have hnone : c₁.armWrite.writerCallback = none := by
        rw [Conn.armWrite, handleWrite_eq h₁]
        exact hw
      split
      · have hret : ngxeWriterHandler c₁.armWrite c₁.armWrite.write = (c₁.armWrite, []) := by
          rw [ngxeWriterHandler, hnone]
        rw [hret]
        exact hi₁.inv
      · exact hi₁.inv

theorem PerlRec.startReader (h : PerlRec c stk) (hd : c.destroyed = false) :
    RelInv (resume (ngxeReaderStart cfg ok c) stk) := by
  have hi : PerlRec c.installReader stk := by
    refine h.handlers rfl rfl rfl rfl rfl (fun hh => .inl hh) fun hconn => ?_
    exact hconn.imp_left nofun
  cases hr : c.readerCallback with
  | some r =>
    have ho : ReaderOutcome r c.installReader (ngxeReaderStart cfg ok c) :=
      ngxeReaderStart_outcome fun x hx => by simpa [hr] using hx.symm
    exact hi.reader hd ho ((h.records hd).reader r hr)
  | none =>
    rw [ngxeReaderStart]
    rw [hr]
    split
    · exact hi.crash
    · next c₁ h₁ =>
      have hi₁ : PerlRec c₁.armRead stk := by
        rw [Conn.armRead, handleRead_eq h₁]
        exact hi.handlers rfl rfl rfl rfl rfl (fun hh => .inl hh) id
      exact hi₁.inv

theorem PerlRec.stopWriter (h : PerlRec c stk) : PerlRec (ngxeWriterStop c) stk :=
  h.handlers rfl rfl rfl rfl rfl nofun fun hconn => hconn.imp_right nofun

theorem PerlRec.stopReader (h : PerlRec c stk) : PerlRec (ngxeReaderStop c) stk :=
  h.handlers rfl rfl rfl rfl rfl (fun hh => .inl hh) fun hconn => hconn.imp_left nofun

theorem PerlRec.afterWriter {k : Kind} (h : PerlRec c stk)
    (hk : c.destroyed = false → c.kindOf cb = some .writer) (ho : WriterReturns cfg ok k c cb o) :
    RelInv (resume o stk) := by
  cases ho with
  | ret hret => exact h.inv
  | crash hopen hh hbad => exact h.crash
  | more hopen hh hb hmore => exact h.writer hopen (continueWriter_outcome k) (hk hopen)
  | reader hopen hh hb hrv hmore hr => exact h.stopWriter.startReader hopen
  | rest hopen hh hb hmore hr => exact h.inv

theorem PerlRec.afterReader (h : PerlRec c stk)
    (hk : c.destroyed = false → c.kindOf cb = some .reader)
    (hsafe : c.switchesToWriter = true → c.connectRecord = false)
    (ho : ReaderReturns cfg ok c cb o) : RelInv (resume o stk) := by
  cases ho with
  | ret hret => exact h.inv
  | switch hsw =>
    have hreset : PerlRec { c with writerOffset := 0, writerIndex := 0 } stk :=
      h.handlers rfl rfl rfl rfl rfl (fun hh => .inl hh) id
    exact hreset.stopReader.startWriter (Conn.switchesToWriter_iff.mp hsw).1 (hsafe hsw)
  | reads hopen hh hwants hreads => exact h.reader hopen hreads.outcome (hk hopen)

theorem getElem?_release {j : Nat} : (c.release cb).callbacks[j]? =
    (c.callbacks[j]?).map fun r => if cb = j then { r with decremented := true } else r := by
  simp [Conn.release, List.getElem?_modify]

theorem kindOf_release {j : Nat} : (c.release cb).kindOf j = c.kindOf j := by
  rw [Conn.kindOf, Conn.kindOf, getElem?_release, Option.map_map]
  congr 1
  funext r
  by_cases hj : cb = j
  · simp [hj]
  · simp [hj]

theorem connectRecord_release : (c.release cb).connectRecord = c.connectRecord := by
  simp only [Conn.connectRecord, kindOf_release]
  rfl

/-- The release of the connect record. -/
theorem PerlRec.release (h : PerlRec c stk)
    (hk : c.destroyed = false → c.kindOf cb = some .client ∧ ¬ c.connecting) :
    PerlRec (c.release cb) stk := by
  refine ⟨⟨h.calls.live, h.calls.once⟩, fun hd => ?_, fun hd g hg => ?_, h.perl⟩
  · have hrec := h.records hd
    refine ⟨fun j r hr hdec => ?_, fun j hj => ?_, fun j hj => ?_, fun hh => ?_, fun hc => ?_⟩
    · rw [getElem?_release, Option.map_eq_some_iff] at hr
      obtain ⟨r₀, hr₀, rfl⟩ := hr
      by_cases hj : cb = j
      · subst hj
        have hkind := (hk hd).1
        rw [Conn.kindOf, hr₀] at hkind
        simpa using hkind
      · simp only [hj, if_false] at hdec ⊢
        exact hrec.released j r₀ hr₀ hdec
    · rw [kindOf_release]
      exact hrec.reader j hj
    · rw [kindOf_release]
      exact hrec.writer j hj
    · rw [connectRecord_release]
      exact hrec.started hh
    · exact absurd hc (hk hd).2
  · exact (h.frames hd g hg).mono (fun j k hj => kindOf_release.trans hj) id

theorem PerlRec.closed (hcalls : c.CallsOk) (hperl : ∀ g ∈ stk, g.isPerl = true) :
    PerlRec (ngxeClose c) stk := by
  have hsame : (ngxeClose c).calls = c.calls := by
    rw [ngxeClose]
    split <;> rfl
  refine ⟨⟨?_, ?_⟩, fun hd => ?_, fun hd => ?_, hperl⟩
  · rw [hsame]
    exact hcalls.live
  · rw [hsame]
    exact hcalls.once
  · simp [ngxeClose_destroyed] at hd
  · simp [ngxeClose_destroyed] at hd

/-! ### Events -/

/-- The first and only call of the connect record. -/
theorem PerlRec.connectCall {site : Site} {err : Option CbError} {r : Callback}
    (h : PerlRec c stk) (hd : c.destroyed = false) (hconn : ¬ c.connecting)
    (hr : c.callbacks[cb]? = some r) (hkind : r.kind = .client) (hlive : r.decremented = false)
    (hzero : c.calls.countP Obs.isConnectCall = 0) (hsite : site = .failed ∨ site = .connected) :
    RelInv (resume (ngxeCallback c cb err site) stk) := by
  have hcalls : (ngxeCallback c cb err site).1.calls =
      c.calls ++ [.called cb (some r) site err] := by
    simp [Conn.calls, ngxeCallback, hr, Obs.isCall]
  have hrec := h.records hd
  have hopen : (ngxeCallback c cb err site).1.destroyed = false := hd
  have hlen : (ngxeCallback c cb err site).2.length ≤ 1 := Nat.le_refl 1
  refine .of_open ⟨fun j x site' err' hmem => ?_, ?_⟩ hopen ?_ hlen ?_ ?_ h.perl
  · rw [hcalls] at hmem
    rcases List.mem_append.mp hmem with hmem | hmem
    · exact h.calls.live j x site' err' hmem
    · simp only [List.mem_singleton, Obs.called.injEq] at hmem
      exact ⟨r, hmem.2.1, hlive⟩
  · rw [hcalls, List.countP_append, hzero]
    simp [Obs.isConnectCall, hkind]
  · exact ⟨hrec.released, hrec.reader, hrec.writer, hrec.started, fun hc => absurd hc hconn⟩
  · intro g hg
    obtain rfl : g = .inCallback cb site := by simpa [ngxeCallback] using hg
    rcases hsite with rfl | rfl
    · trivial
    · refine ⟨?_, hconn⟩
      show (c.callbacks[cb]?).map (·.kind) = some .client
      rw [hr, ← hkind]
      rfl
  · intro g hg
    exact (h.frames hd g hg).mono (fun _ _ hk => hk) id

theorem PerlRec.clientInit {H : Type} {ev : Event H} (h : PerlRec c stk)
    (hd : c.destroyed = false) (hconn : c.connecting) :
    RelInv (resume (ngxeClientInitHandler c ev) stk) := by
  obtain ⟨hzero, cb, r, hw, hr, hkind, hlive⟩ := (h.records hd).connecting hconn
  have ho := clientInit_cases c ev
  generalize ngxeClientInitHandler c ev = o at ho ⊢
  cases ho with
  | none hcb => cases hw.symm.trans hcb
  | call w err site hcb hdummy hsite =>
    obtain rfl := Option.some.inj (hw.symm.trans hcb)
    have hw' : w.handler ≠ .clientInit ∧ w.handler ≠ .writer := by simp [hdummy]
    have hp : PerlRec { c with read := { c.read with handler := .dummy }, write := w } stk :=
      h.handlers rfl rfl rfl rfl rfl (fun hh => absurd hh hw'.2) fun hc =>
        hc.elim nofun fun hh => absurd hh hw'.1
    exact hp.connectCall hd (fun hc => hc.elim nofun hw'.1) hr hkind hlive hzero hsite

theorem PerlRec.callReadHandler (h : PerlRec c stk) (hd : c.destroyed = false) :
    RelInv (resume (callReadHandler cfg c) stk) := by
  rw [XS.callReadHandler]
  split
  · exact h.inv
  · cases hr : c.readerCallback with
    | none =>
      rw [ngxeReaderHandler, hr]
      exact h.inv
    | some r =>
      have ho : ReaderOutcome r c (ngxeReaderHandler cfg c c.read) :=
        ngxeReaderHandler_outcome fun x hx => by simpa [hr] using hx.symm
      exact h.reader hd ho ((h.records hd).reader r hr)
  · next hh => exact h.clientInit hd (.inl hh)

theorem PerlRec.callWriteHandler (h : PerlRec c stk) (hd : c.destroyed = false) :
    RelInv (resume (callWriteHandler c) stk) := by
  rw [XS.callWriteHandler]
  split
  · exact h.inv
  · next hh =>
    cases hw : c.writerCallback with
    | none =>
      rw [ngxeWriterHandler, hw]
      exact h.inv
    | some w =>
      have hrec := h.records hd
      have ho : WriterOutcome w c (ngxeWriterHandler c c.write) :=
        ngxeWriterHandler_outcome fun x hx => by simpa [hw] using hx.symm
      exact h.writer hd ho (hrec.writerKind (hrec.started hh) hw)
  · next hh => exact h.clientInit hd (.inr hh)

theorem calls_load {sv : Sv} : (c.load sv).calls = c.calls := by
  simp [Conn.calls, Conn.load, Obs.isCall]

theorem kindOf_append {l : List Callback} {k : CbKind} (hc : c'.callbacks = c.callbacks ++ l)
    (hk : c.kindOf cb = some k) : c'.kindOf cb = some k := by
  simp only [Conn.kindOf, Option.map_eq_some_iff] at hk ⊢
  obtain ⟨r, hr, hk⟩ := hk
  refine ⟨r, ?_, hk⟩
  rw [hc, List.getElem?_append_left (List.getElem?_eq_some_iff.mp hr).1]
  exact hr

theorem kindOf_new {r : Callback} (hc : c'.callbacks = c.callbacks ++ [r]) :
    c'.kindOf c.callbacks.length = some r.kind := by
  simp [Conn.kindOf, hc]

/-- A fresh record is not released. -/
theorem released_append {r : Callback} (hc : c'.callbacks = c.callbacks ++ [r])
    (hr : r.decremented = false) (h : c.Records) :
    ∀ (j : Nat) (x : Callback), c'.callbacks[j]? = some x → x.decremented = true →
      x.kind = .client := by
  intro j x hx hdec
  rw [hc] at hx
  by_cases hj : j < c.callbacks.length
  · rw [List.getElem?_append_left hj] at hx
    exact h.released j x hx hdec
  · rw [List.getElem?_append_right (by omega), List.getElem?_singleton] at hx
    split at hx
    · cases hx
      simp [hr] at hdec
    · cases hx

theorem connectRecord_append {l : List Callback} (h : c.Records)
    (hc : c'.callbacks = c.callbacks ++ l) (hw : c'.writerCallback = c.writerCallback) :
    c'.connectRecord = c.connectRecord := by
  rw [Conn.connectRecord, Conn.connectRecord, hw]
  cases hx : c.writerCallback with
  | none => rfl
  | some w =>
    rcases h.writer w hx with hk | hk
    · simp [hk, kindOf_append hc hk]
    · simp [hk, kindOf_append hc hk]

theorem PerlRec.createReader {timeout : Int} (h : PerlRec c stk) :
    PerlRec (createReader cfg c timeout) stk := by
  have hc : (XS.createReader cfg c timeout).callbacks = c.callbacks ++ [⟨.reader, false, 0⟩] := rfl
  have hconn : (XS.createReader cfg c timeout).connecting → c.connecting :=
    fun hconn => hconn.imp_left nofun
  refine h.evolve rfl id (fun _ _ hk => kindOf_append hc hk) hconn fun hrec => ?_
  refine ⟨released_append hc rfl hrec, fun j hj => ?_, fun j hj => ?_, fun hh => ?_, fun hx => ?_⟩
  · obtain rfl : c.callbacks.length = j := by simpa [XS.createReader] using hj
    exact kindOf_new hc
  · exact (hrec.writer j hj).imp (kindOf_append hc) (kindOf_append hc)
  · rw [connectRecord_append hrec hc rfl]
    exact hrec.started hh
  · obtain ⟨hzero, cb, r, hw, hr, hkind, hlive⟩ := hrec.connecting (hconn hx)
    refine ⟨hzero, cb, r, hw, ?_, hkind, hlive⟩
    rw [hc, List.getElem?_append_left (List.getElem?_eq_some_iff.mp hr).1]
    exact hr

theorem PerlRec.createWriter {timeout : Int} {buffer : Sv} (h : PerlRec c stk)
    (hread : c.read.handler ≠ .clientInit) :
    PerlRec (createWriter cfg c timeout buffer) stk ∧
      (createWriter cfg c timeout buffer).connectRecord = false := by
  have hc : (XS.createWriter cfg c timeout buffer).callbacks =
      c.callbacks ++ [⟨.writer, false, 0⟩] := rfl
  have hnot : ¬ (XS.createWriter cfg c timeout buffer).connecting :=
    fun hconn => hconn.elim hread nofun
  have hnew := kindOf_new hc
  have hrecord : (XS.createWriter cfg c timeout buffer).connectRecord = false := by
    have hw : (XS.createWriter cfg c timeout buffer).writerCallback = some c.callbacks.length := rfl
    rw [Conn.connectRecord, hw, Option.any_some, hnew]
    rfl
  refine ⟨h.evolve calls_load id (fun _ _ hk => kindOf_append hc hk) (absurd · hnot)
    fun hrec => ?_, hrecord⟩
  refine ⟨released_append hc rfl hrec, fun j hj => ?_, fun j hj => ?_, fun _ => hrecord,
    fun hx => absurd hx hnot⟩
  · exact kindOf_append hc (hrec.reader j hj)
  · obtain rfl : c.callbacks.length = j := by simpa [XS.createWriter] using hj
    exact .inl hnew

theorem PerlRec.load {sv : Sv} (h : PerlRec c stk) : PerlRec (c.load sv) stk :=
  h.handlers rfl rfl rfl calls_load rfl (fun hh => .inl hh) id

theorem PerlRec.writerBufferSet {data : Sv} (h : PerlRec c stk) (hd : c.destroyed = false)
    (hc : c.connectRecord = false) :
    RelInv (resume (ngxeWriterBufferSet cfg ok c data) stk) := by
  have ho := bufferSet_cases cfg ok c data
  generalize ngxeWriterBufferSet cfg ok c data = o at ho ⊢
  cases ho with
  | nothing => exact h.inv
  | start sv offset index hb =>
    have hp : PerlRec { c.load sv with writerOffset := offset, writerIndex := index } stk :=
      h.load.handlers rfl rfl rfl rfl rfl (fun hh => .inl hh) id
    exact hp.startWriter hd hc

theorem getElem?_setMinLen {l : List Callback} {n : Int} {j : Nat} :
    (l.modify cb fun r => { r with minLen := n })[j]? =
      (l[j]?).map fun r => if cb = j then { r with minLen := n } else r := by
  simp [List.getElem?_modify]

theorem PerlRec.setMinLen {n : Int} (h : PerlRec c stk) :
    PerlRec { c with callbacks := c.callbacks.modify cb fun r => { r with minLen := n } } stk := by
  have hkind : ∀ j, Conn.kindOf { c with
      callbacks := c.callbacks.modify cb fun r => { r with minLen := n } } j = c.kindOf j := by
    intro j
    rw [Conn.kindOf, Conn.kindOf, getElem?_setMinLen, Option.map_map]
    congr 1
    funext r
    by_cases hj : cb = j
    · simp [hj]
    · simp [hj]
  refine h.evolve rfl id (fun j k hk => (hkind j).trans hk) id fun hrec => ?_
  refine ⟨fun j r hr hdec => ?_, fun j hj => ?_, fun j hj => ?_, fun hh => ?_, fun hx => ?_⟩
  · rw [getElem?_setMinLen, Option.map_eq_some_iff] at hr
    obtain ⟨r₀, hr₀, rfl⟩ := hr
    by_cases hj : cb = j
    · simp only [hj, if_true] at hdec ⊢
      exact hrec.released j r₀ hr₀ hdec
    · simp only [hj, if_false] at hdec ⊢
      exact hrec.released j r₀ hr₀ hdec
  · rw [hkind]
    exact hrec.reader j hj
  · rw [hkind]
    exact hrec.writer j hj
  · simp only [Conn.connectRecord, hkind]
    exact hrec.started hh
  · obtain ⟨hzero, w, r, hw, hr, hk, hlive⟩ := hrec.connecting hx
    refine ⟨hzero, w, if cb = w then { r with minLen := n } else r, hw, ?_, ?_, ?_⟩
    · rw [getElem?_setMinLen, hr]
      rfl
    · split <;> exact hk
    · split <;> exact hlive

theorem PerlRec.op {op : Op} (h : PerlRec c stk) (hs : s.c = c)
    (hopen : c.destroyed = false ∨ op = .close) (hG : ReleaseSafe s (.op op ok)) :
    RelInv (resume (applyOp cfg ok c op) stk) := by
  subst hs
  have hsame : ∀ c', c'.callbacks = s.c.callbacks → c'.readerCallback = s.c.readerCallback →
      c'.writerCallback = s.c.writerCallback → c'.calls = s.c.calls →
      c'.destroyed = s.c.destroyed → c'.read = s.c.read → c'.write = s.c.write →
      PerlRec c' stk := by
    intro c' hcb hr hw hcalls hd hread hwrite
    refine h.handlers hcb hr hw hcalls hd (fun hh => .inl (hwrite ▸ hh)) fun hc => ?_
    rwa [Conn.connecting, hread, hwrite] at hc
  cases op with
  | close => exact (PerlRec.closed h.calls h.perl).inv
  | reader start timeout =>
    have hd := hopen.resolve_right nofun
    cases start with
    | true => exact h.createReader.startReader hd
    | false => exact h.createReader.inv
  | readerStart timeout =>
    have hp : PerlRec (s.c.withReaderTimeout timeout) stk := hsame _ rfl rfl rfl rfl rfl rfl rfl
    exact hp.startReader (hopen.resolve_right nofun)
  | readerStop => exact h.stopReader.inv
  | readerStopWriterStart => exact h.stopReader.startWriter (hopen.resolve_right nofun) hG
  | readerTimeout timeout =>
    have hp : PerlRec (s.c.withReaderTimeout (some timeout)) stk :=
      hsame _ rfl rfl rfl rfl rfl rfl rfl
    exact hp.inv
  | writer start timeout buffer =>
    have hd := hopen.resolve_right nofun
    have hcreate : PerlRec (XS.createWriter cfg s.c timeout buffer) stk ∧
        (XS.createWriter cfg s.c timeout buffer).connectRecord = false := h.createWriter hG
    obtain ⟨hp, hrecord⟩ := hcreate
    cases start with
    | true => exact hp.startWriter hd hrecord
    | false => exact hp.inv
  | writerStart timeout =>
    have hp : PerlRec (s.c.withWriterTimeout timeout) stk := hsame _ rfl rfl rfl rfl rfl rfl rfl
    exact hp.startWriter (hopen.resolve_right nofun) hG
  | writerStop => exact h.stopWriter.inv
  | writerStopReaderStart => exact h.stopWriter.startReader (hopen.resolve_right nofun)
  | writerTimeout timeout =>
    have hp : PerlRec (s.c.withWriterTimeout (some timeout)) stk :=
      hsame _ rfl rfl rfl rfl rfl rfl rfl
    exact hp.inv
  | writerBufferSet data => exact h.writerBufferSet (hopen.resolve_right nofun) hG
  | setReadBuffer b =>
    have hp : PerlRec { s.c with readerBuffer := s.c.readerBuffer.map fun _ => b } stk :=
      hsame _ rfl rfl rfl rfl rfl rfl rfl
    exact hp.inv
  | setWriteBuffer sv =>
    simp only [applyOp]
    split
    · exact h.load.inv
    · exact h.inv
  | setMinLen cb n => exact h.setMinLen.inv

/-! ### Runs -/

theorem RelInv.below {f : Frame} (h : RelInv ⟨c, f :: rest⟩) : PerlRec c rest :=
  ⟨h.calls, h.records, fun hd g hg => h.frames hd g (List.mem_cons_of_mem _ hg), h.perl⟩

theorem RelInv.perl_cons {f : Frame} (h : RelInv ⟨c, f :: rest⟩) (hf : f.isPerl = true) :
    PerlRec c (f :: rest) := by
  refine ⟨h.calls, h.records, h.frames, fun g hg => ?_⟩
  rcases List.mem_cons.mp hg with rfl | hg
  · exact hf
  · exact h.perl g hg

theorem RelInv.open_of_top {f : Frame} (h : RelInv ⟨c, f :: rest⟩) (hf : f.isPerl = false)
    (hne : f ≠ .crash) : c.destroyed = false := by
  by_contra hd
  rcases h.closed (by simpa using hd) f (by simp) with hp | hp
  · simp [hf] at hp
  · exact hne hp

/-- The socket is not looked at. -/
theorem RelInv.socket {unread : Bytes} {eof : Bool} {n : Nat} (h : RelInv ⟨c, stk⟩) :
    RelInv ⟨{ c with unread := unread, eof := eof, pending := n }, stk⟩ := by
  refine ⟨⟨h.calls.live, h.calls.once⟩, fun hd => ?_, fun hd g hg => ?_, h.perl, h.closed⟩
  · exact (h.records hd).handlers rfl rfl rfl rfl (fun hh => .inl hh) id
  · exact (h.frames hd g hg).mono (fun _ _ hk => hk) id

theorem relInv_ret {site : Site} (h : RelInv ⟨c, .inCallback cb site :: rest⟩)
    (hG : ReleaseSafe ⟨c, .inCallback cb site :: rest⟩ (.ret ok)) :
    RelInv (resume (afterCallback cfg ok c cb site) rest) := by
  have hframe : c.destroyed = false → (Frame.inCallback cb site).RecordOk c :=
    fun hd => h.frames hd _ (by simp)
  cases site with
  | readerData => exact h.below.afterReader hframe hG (afterReader_cases cfg ok c cb)
  | writerDone k => exact h.below.afterWriter hframe (afterWriter_cases cfg ok k c cb)
  | failed =>
    have hcalls : (c.release cb).CallsOk := ⟨h.calls.live, h.calls.once⟩
    exact (PerlRec.closed hcalls h.perl).inv
  | connected => exact (h.below.release hframe).inv

theorem relInv_step {i : Input} (h : RelInv s) (hG : ReleaseSafe s i) (hstep : Step cfg s i t) :
    RelInv t := by
  cases hstep with
  | arrive b hb he | arriveEof he | hangup => exact h.socket
  | @readEvent c hopen hr =>
    have hp : PerlRec c.takeRead [] :=
      PerlRec.handlers (c := c) ⟨h.calls, h.records, h.frames, by simp⟩ rfl rfl rfl rfl rfl
        (fun hh => .inl hh) id
    exact hp.callReadHandler hopen
  | @writeEvent c hopen ha =>
    have hp : PerlRec c.takeWrite [] :=
      PerlRec.handlers (c := c) ⟨h.calls, h.records, h.frames, by simp⟩ rfl rfl rfl rfl rfl
        (fun hh => .inl hh) id
    exact hp.callWriteHandler hopen
  | @readTimer c hopen ht =>
    have hp : PerlRec c.expireRead [] :=
      PerlRec.handlers (c := c) ⟨h.calls, h.records, h.frames, by simp⟩ rfl rfl rfl rfl rfl
        (fun hh => .inl hh) id
    exact hp.callReadHandler hopen
  | @writeTimer c hopen ht =>
    have hp : PerlRec c.expireWrite [] :=
      PerlRec.handlers (c := c) ⟨h.calls, h.records, h.frames, by simp⟩ rfl rfl rfl rfl rfl
        (fun hh => .inl hh) id
    exact hp.callWriteHandler hopen
  | enter =>
    exact ⟨h.calls, h.records, by simp [Frame.RecordOk], by simp, by simp [Frame.isPerl]⟩
  | leave => exact h.below.inv
  | op o ok hf hopen => exact (h.perl_cons hf).op rfl hopen hG
  | @recv c cb rest err ok =>
    have hd := h.open_of_top rfl (by simp)
    have hk : (Frame.recv cb).RecordOk c := h.frames hd _ (by simp)
    exact h.below.reader hd readerRecv_outcome hk
  | @send c k cb rest r ok hr =>
    have hd := h.open_of_top rfl (by simp)
    have hk : (Frame.send k cb).RecordOk c := h.frames hd _ (by simp)
    exact h.below.writer hd (writerSend_outcome _ r) hk
  | ret ok => exact relInv_ret h hG

theorem relInv_initial (h : Initial cfg s) : RelInv s := by
  cases h with
  | accepted =>
    refine ⟨⟨by simp [Conn.calls, Conn.accepted], by simp [Conn.calls, Conn.accepted]⟩,
      fun _ => ?_, by simp [Frame.RecordOk], by simp, by simp [Frame.isPerl]⟩
    refine ⟨by simp [Conn.accepted], by simp [Conn.accepted], by simp [Conn.accepted],
      fun hh => ?_, fun hc => ?_⟩
    · cases hh
    · rcases hc with hc | hc <;> cases hc
  | client connected timeout =>
    have hrec : (Conn.client cfg.method connected timeout).Records := by
      refine ⟨?_, by simp [Conn.client, Conn.accepted], fun j hj => ?_, fun hh => ?_,
        fun _ => ?_⟩
      · intro j r hr hdec
        obtain ⟨-, rfl⟩ : j = 0 ∧ ⟨.client, false, 0⟩ = r := by
          simpa [Conn.client, List.getElem?_singleton] using hr
        rfl
      · cases hj
        exact .inr rfl
      · cases hh
      · exact ⟨rfl, 0, ⟨.client, false, 0⟩, rfl, rfl, rfl, rfl⟩
    have hp : PerlRec (Conn.client cfg.method connected timeout) [.outside] :=
      ⟨⟨by simp [Conn.calls, Conn.client, Conn.accepted],
        by simp [Conn.calls, Conn.client, Conn.accepted]⟩, fun _ => hrec,
        by simp [Frame.RecordOk], by simp [Frame.isPerl]⟩
    rw [ngxeClient]
    split
    · exact hp.clientInit rfl (.inr rfl)
    · refine PerlRec.inv ?_
      exact hp.handlers rfl rfl rfl rfl rfl (fun hh => .inl hh) id

/-- In every run of safe steps no released record is called, and the connect callback
    runs at most once. -/
theorem released_never_called (cfg : Config) (s : Sys) (h : Reachable cfg ReleaseSafe s) :
    NoReleasedCall s :=
  (h.invariant (fun _ h₀ => relInv_initial h₀) fun _ _ _ h hG hs =>
    relInv_step h hG hs).noReleasedCall

theorem released_never_called_connect :
    ∃ s, Reachable ⟨.clear, 4096, 4080⟩ ReleaseSafe s ∧ NoReleasedCall s ∧
      s.c.trace.countP Obs.isConnectCall = 1 ∧ s.c.connectRecord = true := by
  have hr : Reachable ⟨.clear, 4096, 4080⟩ ReleaseSafe _ :=
    ⟨_, .client false 1000, .of_run [.leave, .writeEvent, .op (.reader true 0) true, .ret true] rfl⟩
  exact ⟨_, hr, released_never_called _ _ hr, by decide⟩

/-- A client has a reader but no writer. Its reader callback puts a byte into the write
    buffer: the automatic switch takes the connect record for the writer's, and calls it
    again when the byte is sent. -/
theorem released_called :
    ¬ ∀ cfg s, Reachable cfg Machine.always s → NoReleasedCall s := by
  intro h
  have hr : Reachable ⟨.clear, 4096, 4080⟩ Machine.always _ :=
    ⟨_, .client false 1000, .of_run [.leave, .writeEvent, .op (.reader true 0) true, .ret true,
      .arrive [97], .readEvent, .recv false true, .op (.setWriteBuffer (.str [120])) true,
      .ret true, .send (.accepted 1) true] rfl⟩
  have hcall := (h _ _ hr).live 0 (some ⟨.client, true, 0⟩) (.writerDone .plain) none (by decide)
  obtain ⟨x, hx, hlive⟩ := hcall
  cases hx
  cases hlive

end NginxEngine.XS
