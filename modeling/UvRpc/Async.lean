import UvRpc.TcpConnection
import UvRpc.Transition

/-! Async and EventLoop: callbacks that any thread hands to a loop. A caller pushes under
the lock and then wakes the loop if the handle is this object's; init wakes it as well; a
wake-up takes the whole queue and runs it. Threads interleave between these. -/

namespace UvRpc

namespace Async

/-- A runInLoop after its push: before the test of uvHandle.data, and before the send. -/
inductive Caller where
  | idle | pushed | sending
  deriving DecidableEq, Repr

/-- An init after uv_async_init, and after the assignment of uvHandle.data. -/
inductive Starting where
  | idle | initialised | assigned
  deriving DecidableEq, Repr

/-- The loop thread: `woken` in realProcess before the swap, then with the callbacks
still in tmpCallbacks; `afterClose` in onAfterClose before data is reset. -/
inductive Loop (α : Type*) where
  | idle | woken | batch (tmpCallbacks : List α) | afterClose
  deriving DecidableEq, Repr

inductive Status where
  | notRun | running | stop
  deriving DecidableEq, Repr

inductive Action (T α : Type*) where
  | push (t : T) (f : α)
  | test (t : T)
  | send (t : T)
  | init
  | assign
  | initSend
  | close (callback : Option α)
  | uvCallback
  | swap
  | runCallback
  | endBatch
  | onAfterClose
  | resetData
  | runInLoop (t : T) (func : Option α)
  | runInLoopEn (t : T) (func : Option α)
  | run (t : T)
  | leave (status : Status)
  deriving DecidableEq, Repr

end Async

/-- `data` says whether uvHandle.data is this object, and `pending` is libuv's flag of a
wake-up to come. `pushed`, `ran`, `direct` and `closed` record the callbacks that were
pushed, run from the queue, run by the caller itself, and run by onClosed. -/
structure Async (T α : Type*) where
  handle : Phase
  data : Bool
  pending : Bool
  cbQue : List α
  cbOnClosed : Option α
  callers : T → Async.Caller
  starting : Async.Starting
  loop : Async.Loop α
  loopThreadId : Option T
  status : Async.Status
  pushed : List α
  ran : List α
  direct : List α
  closed : List α

namespace Async

variable {T α : Type*} [DecidableEq T]

/-- libuv wakes the loop of an open handle, once for any number of sends. -/
def asyncSend (s : Async T α) : Async T α := if s.handle = .live then {s with pending := true} else s

def push (s : Async T α) (t : T) (f : α) : Option (Async T α) :=
  if s.callers t = .idle then
    some {s with
      cbQue := s.cbQue ++ [f]
      callers := Function.update s.callers t .pushed
      pushed := s.pushed ++ [f]}
  else none

def test (s : Async T α) (t : T) : Option (Async T α) :=
  if s.callers t = .pushed then
    some {s with callers := Function.update s.callers t (if s.data then .sending else .idle)}
  else none

def send (s : Async T α) (t : T) : Option (Async T α) :=
  if s.callers t = .sending then
    some {s.asyncSend with callers := Function.update s.callers t .idle}
  else none

/-- init up to uv_async_init, which makes a handle without a wake-up. -/
def init (s : Async T α) : Option (Async T α) :=
  if s.starting = .idle then
    if s.data then some s
    else some {s with handle := .live, pending := false, starting := .initialised}
  else none

def assign (s : Async T α) : Option (Async T α) :=
  if s.starting = .initialised then some {s with data := true, starting := .assigned} else none

def initSend (s : Async T α) : Option (Async T α) :=
  if s.starting = .assigned then some {s.asyncSend with starting := .idle} else none

def close (s : Async T α) (callback : Option α) : Option (Async T α) :=
  if s.handle = .never then none
  else some {s with
    cbOnClosed := callback
    handle := if s.handle = .live then .closing else s.handle}

def uvCallback (s : Async T α) : Option (Async T α) :=
  match s.loop with
  | .idle =>
    if s.handle = .live ∧ s.pending then
      some {s with pending := false, loop := if s.data then .woken else .idle}
    else none
  | _ => none

/-- realProcess up to its loop. -/
def swap (s : Async T α) : Option (Async T α) :=
  match s.loop with
  | .woken => some {s with cbQue := [], loop := .batch s.cbQue}
  | _ => none

def runCallback (s : Async T α) : Option (Async T α) :=
  match s.loop with
  | .batch (f :: rest) => some {s with loop := .batch rest, ran := s.ran ++ [f]}
  | _ => none

def endBatch (s : Async T α) : Option (Async T α) :=
  match s.loop with
  | .batch [] => some {s with loop := .idle}
  | _ => none

/-- The close callback up to the end of onClosed. -/
def onAfterClose (s : Async T α) : Option (Async T α) :=
  match s.loop with
  | .idle =>
    if s.handle = .closing then
      some {s with
        handle := .closed
        loop := .afterClose
        closed := s.closed ++ s.cbOnClosed.toList}
    else none
  | _ => none

def resetData (s : Async T α) : Option (Async T α) :=
  match s.loop with
  | .afterClose => some {s with data := false, loop := .idle}
  | _ => none

def isRunInLoopThread (s : Async T α) (t : T) : Bool := s.status = .running ∧ s.loopThreadId = some t

def runInLoop (s : Async T α) (t : T) : Option α → Option (Async T α)
  | none => some s
  | some f =>
    if s.isRunInLoopThread t ∨ s.status = .stop then some {s with direct := s.direct ++ [f]}
    else s.push t f

def runInLoopEn (s : Async T α) (t : T) : Option α → Option (Async T α)
  | none => some s
  | some f => s.push t f

/-- `run` and `leave` are EventLoop::run and runNoWait, after init and after uv_run. -/
def step (s : Async T α) : Action T α → Option (Async T α)
  | .push t f => s.push t f
  | .test t => s.test t
  | .send t => s.send t
  | .init => s.init
  | .assign => s.assign
  | .initSend => s.initSend
  | .close callback => s.close callback
  | .uvCallback => s.uvCallback
  | .swap => s.swap
  | .runCallback => s.runCallback
  | .endBatch => s.endBatch
  | .onAfterClose => s.onAfterClose
  | .resetData => s.resetData
  | .runInLoop t func => s.runInLoop t func
  | .runInLoopEn t func => s.runInLoopEn t func
  | .run t => some {s with loopThreadId := some t, status := .running}
  | .leave status => some {s with status := status}

def make : Async T α :=
  ⟨.never,false,false,[],none,fun _ => .idle,.idle,.idle,none,.notRun,[],[],[],[]⟩

/-! The invariant. -/

def Loop.tmpCallbacks : Loop α → List α
  | .batch tmpCallbacks => tmpCallbacks
  | _ => []

def Loop.running : Loop α → Bool
  | .woken => true
  | .batch _ => true
  | _ => false

/-- Why the queue of an open handle may hold callbacks. -/
inductive Reason (pending : Bool) (loop : Loop α) (callers : T → Caller) (starting : Starting) : Prop
  | pending (pending : pending = true)
  | woken (woken : loop = .woken)
  | caller (t : T) (busy : callers t ≠ .idle)
  | starting (starting : starting ≠ .idle)

structure Inv (s : Async T α) : Prop where
  order : s.pushed = s.ran ++ s.loop.tmpCallbacks ++ s.cbQue
  unassigned : s.data = false → s.handle = .live ∨ s.handle = .closing ∨ s.loop = .afterClose →
    s.starting = .initialised
  closed : s.loop = .afterClose → s.handle = .closed
  reason : s.handle = .live → s.cbQue ≠ [] → Reason s.pending s.loop s.callers s.starting

/-- Open, started, and nobody is about to wake the loop or to run the queue. -/
structure Quiescent (s : Async T α) : Prop where
  live : s.handle = .live
  asleep : s.pending = false
  callers : ∀ t, s.callers t = .idle
  started : s.starting = .idle
  finished : s.loop.running = false

variable {s s' : Async T α} {t : T} {f : α}

omit [DecidableEq T] in
theorem make_inv : Inv (make : Async T α) := by
  constructor <;> simp [make,Loop.tmpCallbacks]

theorem push_inv (inv : Inv s) (h : s.push t f = some s') : Inv s' := by
  simp only [push] at h
  split at h
  · cases h
    refine ⟨?_,inv.unassigned,inv.closed,fun _ _ => .caller t (by simp)⟩
    simp [inv.order]
  · cases h

/-- A caller that finds the handle to be another's leaves the callback to init's wake-up. -/
theorem test_inv (inv : Inv s) (h : s.test t = some s') : Inv s' := by
  simp only [test] at h
  split at h
  · cases h
    refine ⟨inv.order,inv.unassigned,inv.closed,fun live _ => ?_⟩
    cases data : s.data with
    | true => exact .caller t (by simp)
    | false =>
      have starting := inv.unassigned data (.inl live)
      exact .starting (by simp [starting])
  · cases h

omit [DecidableEq T] in
theorem asyncSend_eq (s : Async T α) : s.asyncSend = {s with pending := s.asyncSend.pending} := by
  unfold asyncSend; split <;> rfl

omit [DecidableEq T] in
theorem asyncSend_pending (live : s.handle = .live) : s.asyncSend.pending = true := by
  simp [asyncSend,live]

theorem send_inv (inv : Inv s) (h : s.send t = some s') : Inv s' := by
  simp only [send] at h
  split at h
  · cases h
    rw [asyncSend_eq]
    exact ⟨inv.order,inv.unassigned,inv.closed,fun live _ => .pending (asyncSend_pending live)⟩
  · cases h

section
omit [DecidableEq T]

theorem init_inv (inv : Inv s) (h : s.init = some s') : Inv s' := by
  simp only [init] at h
  split at h
  · rename_i idle
    split at h
    · cases h; exact inv
    · rename_i unassigned
      cases h
      refine ⟨inv.order,fun _ _ => rfl,fun closing => ?_,fun _ _ => .starting (by simp)⟩
      have := inv.unassigned (by simpa using unassigned) (.inr (.inr closing))
      rw [idle] at this; cases this
  · cases h

theorem assign_inv (inv : Inv s) (h : s.assign = some s') : Inv s' := by
  simp only [assign] at h
  split at h
  · cases h
    exact ⟨inv.order,by rintro ⟨⟩,inv.closed,fun _ _ => .starting (by simp)⟩
  · cases h

theorem initSend_inv (inv : Inv s) (h : s.initSend = some s') : Inv s' := by
  simp only [initSend] at h
  split at h
  · rename_i assigned
    cases h
    rw [asyncSend_eq]
    refine ⟨inv.order,fun data is_open => ?_,inv.closed,fun live _ => .pending (asyncSend_pending live)⟩
    have := inv.unassigned data is_open
    rw [assigned] at this; cases this
  · cases h

theorem close_inv {callback : Option α} (inv : Inv s) (h : s.close callback = some s') : Inv s' := by
  simp only [close] at h
  split at h
  · cases h
  · cases h
    refine ⟨inv.order,fun data is_open => inv.unassigned data ?_,fun closing => ?_,fun live => ?_⟩
    · by_cases live : s.handle = .live <;> simp_all
    · have := inv.closed closing
      simp [this]
    · by_cases was_live : s.handle = .live <;> simp_all

/-- A wake-up that finds the handle to be another's is followed by init's. -/
theorem uvCallback_inv (inv : Inv s) (h : s.uvCallback = some s') : Inv s' := by
  simp only [uvCallback] at h
  split at h
  case h_2 => cases h
  rename_i idle
  split at h
  · rename_i enabled
    obtain ⟨live,_⟩ := enabled
    cases h
    cases data : s.data with
    | true =>
      refine ⟨?_,?_,?_,fun _ _ => .woken rfl⟩
      · simpa [idle,Loop.tmpCallbacks] using inv.order
      · simp
      · rintro ⟨⟩
    | false =>
      have starting := inv.unassigned data (.inl live)
      refine ⟨?_,fun _ _ => starting,?_,fun _ _ => .starting (by simp [starting])⟩
      · simpa [idle,Loop.tmpCallbacks] using inv.order
      · rintro ⟨⟩
  · cases h

theorem swap_inv (inv : Inv s) (h : s.swap = some s') : Inv s' := by
  simp only [swap] at h
  split at h
  · rename_i woken
    cases h
    refine ⟨?_,fun data is_open => inv.unassigned data ?_,by rintro ⟨⟩,by simp⟩
    · simpa [woken,Loop.tmpCallbacks] using inv.order
    · simpa [woken] using is_open
  · cases h

/-- While the loop runs a batch, it is never the loop itself that will look at the queue. -/
theorem Inv.reason_batch (inv : Inv s) {tmpCallbacks : List α} (batch : s.loop = .batch tmpCallbacks)
    (loop : Loop α) (live : s.handle = .live) (some_left : s.cbQue ≠ []) :
    Reason s.pending loop s.callers s.starting := by
  rcases inv.reason live some_left with pending | woken | ⟨t,busy⟩ | starting
  · exact .pending pending
  · rw [batch] at woken; cases woken
  · exact .caller t busy
  · exact .starting starting

theorem runCallback_inv (inv : Inv s) (h : s.runCallback = some s') : Inv s' := by
  simp only [runCallback] at h
  split at h
  · rename_i f rest batch
    cases h
    refine ⟨?_,fun data is_open => inv.unassigned data ?_,by rintro ⟨⟩,inv.reason_batch batch _⟩
    · simpa [batch,Loop.tmpCallbacks] using inv.order
    · simpa [batch] using is_open
  · cases h

theorem endBatch_inv (inv : Inv s) (h : s.endBatch = some s') : Inv s' := by
  simp only [endBatch] at h
  split at h
  · rename_i batch
    cases h
    refine ⟨?_,fun data is_open => inv.unassigned data ?_,by rintro ⟨⟩,inv.reason_batch batch _⟩
    · simpa [batch,Loop.tmpCallbacks] using inv.order
    · simpa [batch] using is_open
  · cases h

theorem onAfterClose_inv (inv : Inv s) (h : s.onAfterClose = some s') : Inv s' := by
  simp only [onAfterClose] at h
  split at h
  case h_2 => cases h
  rename_i idle
  split at h
  · rename_i closing
    cases h
    refine ⟨?_,fun data _ => inv.unassigned data (.inr (.inl closing)),fun _ => rfl,by rintro ⟨⟩⟩
    simpa [idle,Loop.tmpCallbacks] using inv.order
  · cases h

theorem resetData_inv (inv : Inv s) (h : s.resetData = some s') : Inv s' := by
  simp only [resetData] at h
  split at h
  · rename_i closing
    cases h
    have closed := inv.closed closing
    refine ⟨?_,fun _ is_open => ?_,by rintro ⟨⟩,fun live => ?_⟩
    · simpa [closing,Loop.tmpCallbacks] using inv.order
    · simp [closed] at is_open
    · simp [closed] at live
  · cases h

end

theorem step_inv {a : Action T α} (inv : Inv s) (h : step s a = some s') : Inv s' := by
  cases a with
  | push t f => exact push_inv inv h
  | test t => exact test_inv inv h
  | send t => exact send_inv inv h
  | init => exact init_inv inv h
  | assign => exact assign_inv inv h
  | initSend => exact initSend_inv inv h
  | close callback => exact close_inv inv h
  | uvCallback => exact uvCallback_inv inv h
  | swap => exact swap_inv inv h
  | runCallback => exact runCallback_inv inv h
  | endBatch => exact endBatch_inv inv h
  | onAfterClose => exact onAfterClose_inv inv h
  | resetData => exact resetData_inv inv h
  | runInLoop t func =>
    cases func with
    | none => cases h; exact inv
    | some f =>
      simp only [step,runInLoop] at h
      split at h
      · cases h; exact ⟨inv.order,inv.unassigned,inv.closed,inv.reason⟩
      · exact push_inv inv h
  | runInLoopEn t func =>
    cases func with
    | none => cases h; exact inv
    | some f => exact push_inv inv h
  | run t => cases h; exact ⟨inv.order,inv.unassigned,inv.closed,inv.reason⟩
  | leave status => cases h; exact ⟨inv.order,inv.unassigned,inv.closed,inv.reason⟩

theorem Loop.tmpCallbacks_of_finished {loop : Loop α} (finished : loop.running = false) : loop.tmpCallbacks = [] := by
  cases loop with
  | batch tmpCallbacks => cases finished
  | _ => rfl

omit [DecidableEq T] in
theorem Inv.drained (inv : Inv s) (quiescent : Quiescent s) : s.cbQue = [] := by
  by_contra some_left
  rcases inv.reason quiescent.live some_left with pending | woken | ⟨t,busy⟩ | starting
  · rw [quiescent.asleep] at pending; cases pending
  · have := quiescent.finished
    rw [woken] at this; cases this
  · exact busy (quiescent.callers t)
  · exact starting quiescent.started

/-- In every run, what has run is the front of what was pushed, so each callback runs at
most once and in the order of the pushes, and when the loop has come to rest nothing is
left in the queue and all that was pushed has run. -/
theorem no_lost_callback (actions : List (Action T α)) (s : Async T α)
    (run : Transition.run step make actions = some s) :
    s.ran <+: s.pushed ∧ (Quiescent s → s.cbQue = [] ∧ s.ran = s.pushed) := by
  have inv := Transition.run_invariant_all (fun _ _ _ => step_inv) make_inv run
  refine ⟨?_,fun quiescent => ⟨inv.drained quiescent,?_⟩⟩
  · rw [inv.order,List.append_assoc]
    exact List.prefix_append _ _
  · rw [inv.order,inv.drained quiescent,Loop.tmpCallbacks_of_finished quiescent.finished,List.append_nil,List.append_nil]

def early : List (Action Bool Nat) :=
  [.runInLoopEn true (some 1),.test true,.init,.assign,.initSend,.run false,.runInLoop true (some 2),.test true,
    .uvCallback,.swap,.send true,.runCallback,.runCallback,.endBatch,.uvCallback,.swap,.endBatch]

theorem no_lost_callback_early : ∃ s, Transition.run step make early = some s ∧ s.ran <+: s.pushed ∧
    (Quiescent s → s.cbQue = [] ∧ s.ran = s.pushed) := by
  obtain ⟨s,run⟩ := Option.isSome_iff_exists.mp (show (Transition.run step make early).isSome by decide +kernel)
  exact ⟨s,run,no_lost_callback early s run⟩

end Async
end UvRpc
