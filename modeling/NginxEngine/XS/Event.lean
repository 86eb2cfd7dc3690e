import NginxEngine.Machine

/-!
# Events and the event method

`ngx_event_t`, as far as the handlers of `ngxe_connection.c` read it, and the two
functions of the vendored core that register an event with the event method.
-/

namespace NginxEngine.XS

/-- What `ngx_event_flags` says of the event method. -/
inductive EventMethod
  /-- `NGX_USE_CLEAR_EVENT|NGX_USE_GREEDY_EVENT`: edge-triggered, as epoll. -/
  | clear
  /-- `NGX_USE_LEVEL_EVENT`: select, poll; `greedy` is `NGX_USE_GREEDY_EVENT`. -/
  | level (greedy : Bool)
deriving DecidableEq, Repr

/-- `ngx_event_flags & NGX_USE_GREEDY_EVENT`: a short read leaves `ready` set. -/
def EventMethod.greedy : EventMethod → Bool
  | .clear => true
  | .level greedy => greedy

/-- The functions that `c->read->handler` points to on a connection with a session. -/
inductive ReadHandler
  | dummy
  | reader
  | clientInit
deriving DecidableEq, Repr

/-- The functions that `c->write->handler` points to on a connection with a session. -/
inductive WriteHandler
  | dummy
  | writer
  | clientInit
deriving DecidableEq, Repr

/-- `ngx_event_t`. -/
structure Event (H : Type) where
  handler : H
  ready : Bool
  active : Bool
  timerSet : Bool
  timedout : Bool
  error : Bool
deriving DecidableEq, Repr

namespace Event

variable {H : Type}

/-- A zeroed event with a handler. -/
def idle (handler : H) : Event H := ⟨handler, false, false, false, false, false⟩

/-- `if (ev->timer_set) ngx_del_timer(ev)`. -/
def delTimer (ev : Event H) : Event H := { ev with timerSet := false }

/-- `if (!ev->timer_set && timeout) ngx_add_timer(ev, timeout)`. -/
def addTimer (ev : Event H) (timeout : Int) : Event H :=
  { ev with timerSet := ev.timerSet || decide (timeout ≠ 0) }

/-- Expiry: the timer leaves the tree and the event is marked. -/
def expire (ev : Event H) : Event H := { ev with timerSet := false, timedout := true }

end Event

variable {H : Type}

/-- The body shared by `ngx_handle_read_event` and `ngx_handle_write_event` (called
    with no flags and no low-water mark); `ok` is what `ngx_add_event` or
    `ngx_del_event` answers if it is called, and `none` is `NGX_ERROR`. -/
def ngxHandleEvent (m : EventMethod) (ok : Bool) (ev : Event H) : Option (Event H) :=
  match m with
  | .clear =>
    if !ev.active && !ev.ready then
      if ok then some { ev with active := true } else none
    else some ev
  | .level _ =>
    if !ev.active && !ev.ready then
      if ok then some { ev with active := true } else none
    else if ev.active && ev.ready then
      if ok then some { ev with active := false } else none
    else some ev

def ngxHandleReadEvent (m : EventMethod) (ok : Bool) (rev : Event ReadHandler) :
    Option (Event ReadHandler) :=
  ngxHandleEvent m ok rev

def ngxHandleWriteEvent (m : EventMethod) (ok : Bool) (wev : Event WriteHandler) :
    Option (Event WriteHandler) :=
  ngxHandleEvent m ok wev

/-- Registration touches nothing but `active`. -/
theorem ngxHandleEvent_eq {m : EventMethod} {ok : Bool} {ev ev' : Event H}
    (h : ngxHandleEvent m ok ev = some ev') : ev' = { ev with active := ev'.active } := by
  cases m <;> simp only [ngxHandleEvent] at h <;> split_ifs at h <;> cases h <;> rfl

/-- An edge-triggered method keeps what is registered, and an event that is not
    ready is registered afterwards. -/
theorem ngxHandleEvent_clear_active {ok : Bool} {ev ev' : Event H}
    (h : ngxHandleEvent .clear ok ev = some ev') :
    ev'.active = (ev.active || !ev.ready) := by
  simp only [ngxHandleEvent] at h
  split_ifs at h <;> cases h <;> grind

end NginxEngine.XS
