import UvRpc.TcpConnection

/-! UvTimer over a uv_timer_t: the closures of start, stop and close as the loop runs them,
and what libuv does with the handle on its own. -/
namespace UvRpc

structure UvTimerHandle where
  phase : Phase
  active : Bool
  timeout : Nat
  repeat_ : Nat
  deriving DecidableEq, Repr

namespace UvTimerHandle

def init : UvTimerHandle := ⟨.live,false,0,0⟩

/-- True from uv_close on, also after the close callback. -/
def isClosing (h : UvTimerHandle) : Bool := h.phase = .closing ∨ h.phase = .closed

/-- uv_timer_start, which fails on a handle that is being closed. -/
def start (h : UvTimerHandle) (timeout repeat_ : Nat) : UvTimerHandle :=
  if h.isClosing then h else {h with active := true, timeout := timeout, repeat_ := repeat_}

def stop (h : UvTimerHandle) : UvTimerHandle := {h with active := false}

def setRepeat (h : UvTimerHandle) (times : Nat) : UvTimerHandle := {h with repeat_ := times}

def close (h : UvTimerHandle) : UvTimerHandle := {h with phase := .closing, active := false}

/-- Before the timer callback: the timer is stopped, and started again if it repeats. -/
def expire (h : UvTimerHandle) : UvTimerHandle :=
  if h.repeat_ = 0 then h.stop else h.stop.start h.repeat_ h.repeat_

def finish (h : UvTimerHandle) : UvTimerHandle := {h with phase := .closed}

end UvTimerHandle

/-- Callbacks are named by `K`, none is nullptr. -/
structure UvTimer (K : Type*) where
  bStarted : Bool
  uvHandle : UvTimerHandle
  timeout : Nat
  repeat_ : Nat
  cbOnTimer : Option K
  cbClosed : Option K
  deriving DecidableEq, Repr

namespace UvTimer

variable {K : Type*}

def make (timeout repeat_ : Nat) (callback : Option K) : UvTimer K :=
  ⟨false,.init,timeout,repeat_,callback,none⟩

def startInLoop (t : UvTimer K) : UvTimer K :=
  if t.bStarted then t
  else {t with bStarted := true, uvHandle := t.uvHandle.start t.timeout t.repeat_}

def stopInLoop (t : UvTimer K) : UvTimer K :=
  {t with
    uvHandle := if t.uvHandle.active then t.uvHandle.stop else t.uvHandle
    bStarted := false}

def onTimer (t : UvTimer K) : Option K := t.cbOnTimer

def onClosed (t : UvTimer K) : Option K := t.cbClosed

/-- The second closure of `close`, with the callback it calls itself. -/
def closeInLoop (t : UvTimer K) : UvTimer K × Option K :=
  if t.uvHandle.isClosing then (t,t.onClosed) else ({t with uvHandle := t.uvHandle.close},none)

/-- What `close` does before it hands over its closures. -/
def setClosed (t : UvTimer K) (callback : Option K) : UvTimer K := {t with cbClosed := callback}

def setRepeat (t : UvTimer K) (times : Nat) : UvTimer K :=
  {t with repeat_ := times, uvHandle := t.uvHandle.setRepeat times}

theorem expire_phase (h : UvTimerHandle) : h.expire.phase = h.phase := by
  unfold UvTimerHandle.expire UvTimerHandle.start
  split
  · rfl
  · split <;> rfl

theorem isClosing_congr {h h' : UvTimerHandle} (same : h.phase = h'.phase) : h.isClosing = h'.isClosing := by
  simp [UvTimerHandle.isClosing,same]

@[simp] theorem stopInLoop_bStarted (t : UvTimer K) : t.stopInLoop.bStarted = false := rfl

@[simp] theorem stopInLoop_active (t : UvTimer K) : t.stopInLoop.uvHandle.active = false := by
  unfold stopInLoop UvTimerHandle.stop
  by_cases active : t.uvHandle.active <;> simp [active]

@[simp] theorem stopInLoop_phase (t : UvTimer K) : t.stopInLoop.uvHandle.phase = t.uvHandle.phase := by
  unfold stopInLoop UvTimerHandle.stop
  by_cases active : t.uvHandle.active <;> simp [active]

theorem stopInLoop_closing (t : UvTimer K) : t.stopInLoop.uvHandle.isClosing = t.uvHandle.isClosing :=
  isClosing_congr (stopInLoop_phase t)

@[simp] theorem startInLoop_bStarted (t : UvTimer K) : t.startInLoop.bStarted = true := by
  unfold startInLoop
  split <;> simp_all

@[simp] theorem startInLoop_phase (t : UvTimer K) : t.startInLoop.uvHandle.phase = t.uvHandle.phase := by
  unfold startInLoop UvTimerHandle.start
  split
  · rfl
  · split <;> rfl

theorem startInLoop_closing (t : UvTimer K) : t.startInLoop.uvHandle.isClosing = t.uvHandle.isClosing :=
  isClosing_congr (startInLoop_phase t)

theorem startInLoop_active (t : UvTimer K) : t.startInLoop.uvHandle.active =
    (t.uvHandle.active || !(t.bStarted || t.uvHandle.isClosing)) := by
  unfold startInLoop UvTimerHandle.start
  cases started : t.bStarted <;> cases closing : t.uvHandle.isClosing <;> simp

@[simp] theorem closeInLoop_bStarted (t : UvTimer K) : t.closeInLoop.1.bStarted = t.bStarted := by
  unfold closeInLoop
  split <;> rfl

@[simp] theorem closeInLoop_closing (t : UvTimer K) : t.closeInLoop.1.uvHandle.isClosing = true := by
  unfold closeInLoop
  split
  · assumption
  · rfl

theorem closeInLoop_active {t : UvTimer K} (stopped : t.uvHandle.active = false) :
    t.closeInLoop.1.uvHandle.active = false := by
  unfold closeInLoop
  split
  · exact stopped
  · rfl

end UvTimer
end UvRpc
