import UvRpc.Async

/-! EventLoop's run, runNoWait and stop over the callback queue. A stop() reads the status,
decides between running its closure and queueing it, and does so, in three steps; the
closure closes the wake-up handle, and its close callback calls uv_stop. -/

namespace UvRpc

/-- A queued callback: that of a stop() that was called during run number `issued`, or
another one. -/
inductive Request (α : Type*) where
  | stop (issued : Nat)
  | other (f : α)
  deriving DecidableEq, Repr

def Request.issued? {α : Type*} : Request α → Option Nat
  | .stop issued => some issued
  | .other _ => none

def stops {α : Type*} (queue : List (Request α)) : List Nat := queue.filterMap Request.issued?

namespace EventLoop

inductive Mode where
  | default | noWait
  deriving DecidableEq, Repr

/-- The loop thread: past the status check of run or runNoWait, past init, in uv_run. -/
inductive Stage where
  | outside | entered (mode : Mode) | initialised (mode : Mode) | looping (mode : Mode)
  deriving DecidableEq, Repr

/-- A stop() past its status check, and then past the decision of runInLoop. -/
inductive Stopping where
  | idle | checked (issued : Nat) | direct (issued : Nat) | queueing (issued : Nat)
  deriving DecidableEq, Repr

inductive Action (T α : Type*) where
  | run (mode : Mode)
  | init
  | assign
  | initSend
  | uvRun (t : T)
  | uvCallback
  | swap
  | runCallback
  | endBatch
  | onAfterClose
  | resetData
  | leave
  | stop (t : T)
  | runInLoop (t : T)
  | close (t : T)
  | push (t : T)
  | pushOther (t : T) (f : α)
  | test (t : T)
  | send (t : T)
  deriving DecidableEq, Repr

end EventLoop

/-- `runs` counts the calls of run and runNoWait that passed their status check. `closedBy`
is the run in which the stop() was called whose closure called uv_close, and `ended`
keeps, for each uv_stop, the run it ends and that run. -/
structure EventLoop (T α : Type*) where
  async : Async T (Request α)
  stage : EventLoop.Stage
  runs : Nat
  stopping : T → EventLoop.Stopping
  closedBy : Nat
  stopFlag : Bool
  ended : List (Nat × Nat)

namespace EventLoop

variable {T α : Type*} [DecidableEq T]

def setAsync (s : EventLoop T α) (async : Async T (Request α)) : EventLoop T α := {s with async := async}

def setStopping (s : EventLoop T α) (t : T) (stopping : Stopping) : EventLoop T α :=
  {s with stopping := Function.update s.stopping t stopping}

/-- The status check of run, and that of runNoWait. -/
def run (s : EventLoop T α) (mode : Mode) : Option (EventLoop T α) :=
  if s.stage = .outside ∧ (s.async.status = .notRun ∨ mode = .default ∧ s.async.status = .stop) then
    some {s with stage := .entered mode, runs := s.runs + 1}
  else none

def init (s : EventLoop T α) : Option (EventLoop T α) :=
  match s.stage with
  | .entered mode => s.async.init.map fun async => {s with async := async, stage := .initialised mode}
  | _ => none

def initialising (s : EventLoop T α) (step : Async T (Request α) → Option (Async T (Request α))) :
    Option (EventLoop T α) :=
  match s.stage with
  | .initialised _ => (step s.async).map s.setAsync
  | _ => none

/-- loopThreadId and status are set, and uv_run is called. -/
def uvRun (s : EventLoop T α) (t : T) : Option (EventLoop T α) :=
  match s.stage with
  | .initialised mode =>
    if s.async.starting = .idle then
      some {s with async := {s.async with loopThreadId := some t, status := .running}, stage := .looping mode}
    else none
  | _ => none

def looping (s : EventLoop T α) (step : Async T (Request α) → Option (Async T (Request α))) :
    Option (EventLoop T α) :=
  match s.stage with
  | .looping _ => (step s.async).map s.setAsync
  | _ => none

/-- Async::close with the callback that calls uv_stop. -/
def closeAsync (s : EventLoop T α) (issued : Nat) : Option (EventLoop T α) :=
  (s.async.close (some (.stop issued))).map fun async =>
    {s with async := async, closedBy := if s.async.handle = .live then issued else s.closedBy}

def runCallback (s : EventLoop T α) : Option (EventLoop T α) :=
  match s.async.loop with
  | .batch (.stop issued :: _) => (s.looping Async.runCallback).bind fun s => s.closeAsync issued
  | _ => s.looping Async.runCallback

def onAfterClose (s : EventLoop T α) : Option (EventLoop T α) :=
  (s.looping Async.onAfterClose).map fun s =>
    {s with stopFlag := true, ended := s.ended ++ [(s.runs,s.closedBy)]}

/-- uv_run returns: in the default mode because of uv_stop, since the wake-up handle keeps
the loop alive. It clears the flag. -/
def leave (s : EventLoop T α) : Option (EventLoop T α) :=
  match s.stage, s.async.loop with
  | .looping mode, .idle =>
    if mode = .noWait ∨ s.stopFlag then
      some {s with
        async := {s.async with status := if mode = .noWait then .notRun else .stop}
        stage := .outside
        stopFlag := false}
    else none
  | _, _ => none

/-- The status check of stop; otherwise it answers -1. -/
def stop (s : EventLoop T α) (t : T) : Option (EventLoop T α) :=
  match s.stopping t with
  | .idle => some (if s.async.status = .running then s.setStopping t (.checked s.runs) else s)
  | _ => none

def runInLoop (s : EventLoop T α) (t : T) : Option (EventLoop T α) :=
  match s.stopping t with
  | .checked issued =>
    some (s.setStopping t
      (if s.async.isRunInLoopThread t ∨ s.async.status = .stop then .direct issued else .queueing issued))
  | _ => none

def close (s : EventLoop T α) (t : T) : Option (EventLoop T α) :=
  match s.stopping t with
  | .direct issued => (s.closeAsync issued).map fun s => s.setStopping t .idle
  | _ => none

def push (s : EventLoop T α) (t : T) : Option (EventLoop T α) :=
  match s.stopping t with
  | .queueing issued => (s.async.push t (.stop issued)).map fun async => (s.setAsync async).setStopping t .idle
  | _ => none

def step (s : EventLoop T α) : Action T α → Option (EventLoop T α)
  | .run mode => s.run mode
  | .init => s.init
  | .assign => s.initialising Async.assign
  | .initSend => s.initialising Async.initSend
  | .uvRun t => s.uvRun t
  | .uvCallback => s.looping Async.uvCallback
  | .swap => s.looping Async.swap
  | .runCallback => s.runCallback
  | .endBatch => s.looping Async.endBatch
  | .onAfterClose => s.onAfterClose
  | .resetData => s.looping Async.resetData
  | .leave => s.leave
  | .stop t => s.stop t
  | .runInLoop t => s.runInLoop t
  | .close t => s.close t
  | .push t => s.push t
  | .pushOther t f => (s.async.push t (.other f)).map s.setAsync
  | .test t => (s.async.test t).map s.setAsync
  | .send t => (s.async.send t).map s.setAsync

def make : EventLoop T α := ⟨.make,.outside,0,fun _ => .idle,0,false,[]⟩

def waiting (s : EventLoop T α) : List Nat := stops s.async.cbQue
def taken (s : EventLoop T α) : List Nat := stops s.async.loop.tmpCallbacks

def inUvRun (s : EventLoop T α) : Bool :=
  match s.stage with
  | .looping _ => true
  | _ => false

def Stopping.issued? : Stopping → Option Nat
  | .idle => none
  | .checked issued => some issued
  | .direct issued => some issued
  | .queueing issued => some issued

/-- Every uv_stop ends the run in which its stop() was called; the stop requests in the
queue, in the batch and behind a closing handle are those of the run that is going on, and
between two runs there are none. -/
structure OwnStops (s : EventLoop T α) : Prop where
  ended : ∀ e ∈ s.ended, e.2 = e.1
  own : ∀ issued ∈ s.waiting ++ s.taken, issued = s.runs
  closing : s.async.handle = .closing → s.closedBy = s.runs
  between : s.stage = .outside → s.waiting = [] ∧ s.taken = [] ∧ s.async.handle ≠ .closing

/-- A stop() reaches the queue, or closes the handle itself, in the uv_run in which it was
called: the queue's wake-up is still to come, and nothing is left in the queue by the
one that closes. runNoWait comes to such a request before it returns. -/
def InTime (s : EventLoop T α) : Action T α → Prop
  | .push t => (s.stopping t).issued? = some s.runs ∧ s.inUvRun ∧ s.async.handle = .live ∧ s.taken = []
  | .close t => s.async.handle = .live →
      (s.stopping t).issued? = some s.runs ∧ s.inUvRun ∧ s.waiting = []
  | .leave => s.stage = .looping .noWait → s.waiting = [] ∧ s.async.handle ≠ .closing
  | _ => True

instance inTimeDecidable (s : EventLoop T α) : (a : Action T α) → Decidable (s.InTime a)
  | .push _ => inferInstanceAs (Decidable (_ ∧ _))
  | .close _ => inferInstanceAs (Decidable (_ → _))
  | .leave => inferInstanceAs (Decidable (_ → _))
  | .run _ | .init | .assign | .initSend | .uvRun _ | .uvCallback | .swap | .runCallback | .endBatch
  | .onAfterClose | .resetData | .stop _ | .runInLoop _ | .pushOther _ _ | .test _ | .send _ => isTrue trivial

structure Inv (s : EventLoop T α) : Prop where
  ended : ∀ e ∈ s.ended, e.2 = e.1
  own : ∀ issued ∈ s.waiting ++ s.taken, issued = s.runs
  waiting : s.waiting ≠ [] → s.inUvRun ∧ s.async.handle = .live ∧ s.taken = []
  taken : s.taken ≠ [] → s.inUvRun
  closing : s.async.handle = .closing → s.inUvRun ∧ s.closedBy = s.runs
  stopFlag : s.stopFlag → s.inUvRun ∧ s.async.handle = .closed

variable {s s' : EventLoop T α} {a a' : Async T (Request α)} {t : T}

omit [DecidableEq T] in
theorem Inv.ownStops (inv : Inv s) : OwnStops s := by
  refine ⟨inv.ended,inv.own,fun closing => (inv.closing closing).2,fun outside => ?_⟩
  have idle : ¬ s.inUvRun := by simp [inUvRun,outside]
  refine ⟨?_,?_,fun closing => idle (inv.closing closing).1⟩
  · by_contra some_left
    exact idle (inv.waiting some_left).1
  · by_contra some_left
    exact idle (inv.taken some_left)

/-- The step changes neither the queue nor the batch nor the handle. -/
structure Quiet (a a' : Async T (Request α)) : Prop where
  cbQue : a'.cbQue = a.cbQue
  batch : a'.loop.tmpCallbacks = a.loop.tmpCallbacks
  handle : a'.handle = a.handle

omit [DecidableEq T] in
theorem Inv.quiet (inv : Inv s) (quiet : Quiet s.async a') : Inv (s.setAsync a') := by
  have waiting : (s.setAsync a').waiting = s.waiting := congrArg stops quiet.cbQue
  have taken : (s.setAsync a').taken = s.taken := congrArg stops quiet.batch
  have handle : (s.setAsync a').async.handle = s.async.handle := quiet.handle
  refine ⟨inv.ended,?_,?_,?_,?_,?_⟩
  · rw [waiting,taken]; exact inv.own
  · rw [waiting,taken,handle]; exact inv.waiting
  · rw [taken]; exact inv.taken
  · rw [handle]; exact inv.closing
  · rw [handle]; exact inv.stopFlag

omit [DecidableEq T] in
theorem asyncSend_quiet (a : Async T (Request α)) : Quiet a a.asyncSend := by
  unfold Async.asyncSend
  split <;> exact ⟨rfl,rfl,rfl⟩

theorem test_quiet (h : a.test t = some a') : Quiet a a' := by
  simp only [Async.test,Option.ite_none_right_eq_some] at h
  obtain ⟨_,⟨⟩⟩ := h
  exact ⟨rfl,rfl,rfl⟩

theorem send_quiet (h : a.send t = some a') : Quiet a a' := by
  simp only [Async.send,Option.ite_none_right_eq_some] at h
  obtain ⟨_,⟨⟩⟩ := h
  have sent := asyncSend_quiet a
  exact ⟨sent.cbQue,sent.batch,sent.handle⟩

section
omit [DecidableEq T]

theorem assign_quiet (h : a.assign = some a') : Quiet a a' := by
  simp only [Async.assign,Option.ite_none_right_eq_some] at h
  obtain ⟨_,⟨⟩⟩ := h
  exact ⟨rfl,rfl,rfl⟩

theorem initSend_quiet (h : a.initSend = some a') : Quiet a a' := by
  simp only [Async.initSend,Option.ite_none_right_eq_some] at h
  obtain ⟨_,⟨⟩⟩ := h
  have sent := asyncSend_quiet a
  exact ⟨sent.cbQue,sent.batch,sent.handle⟩

theorem uvCallback_quiet (h : a.uvCallback = some a') : Quiet a a' := by
  simp only [Async.uvCallback] at h
  split at h
  · rename_i idle
    split at h
    · cases h
      refine ⟨rfl,?_,rfl⟩
      cases a.data <;> simp [Async.Loop.tmpCallbacks,idle]
    · cases h
  · cases h

theorem endBatch_quiet (h : a.endBatch = some a') : Quiet a a' := by
  simp only [Async.endBatch] at h
  split at h
  · rename_i batch
    cases h
    exact ⟨rfl,by simp [Async.Loop.tmpCallbacks,batch],rfl⟩
  · cases h

theorem resetData_quiet (h : a.resetData = some a') : Quiet a a' := by
  simp only [Async.resetData] at h
  split at h
  · rename_i closing
    cases h
    exact ⟨rfl,by simp [Async.Loop.tmpCallbacks,closing],rfl⟩
  · cases h

theorem looping_some {f : Async T (Request α) → Option (Async T (Request α))} (h : s.looping f = some s') :
    s.inUvRun ∧ ∃ a', f s.async = some a' ∧ s' = s.setAsync a' := by
  simp only [looping] at h
  split at h
  · rename_i mode stage
    obtain ⟨a',taken,rfl⟩ := Option.map_eq_some_iff.mp h
    exact ⟨by simp [inUvRun,stage],a',taken,rfl⟩
  · cases h

theorem looping_quiet {f : Async T (Request α) → Option (Async T (Request α))} (inv : Inv s)
    (quiet : ∀ {a a'}, f a = some a' → Quiet a a') (h : s.looping f = some s') : Inv s' := by
  obtain ⟨_,a',taken,rfl⟩ := looping_some h
  exact inv.quiet (quiet taken)

theorem initialising_quiet {f : Async T (Request α) → Option (Async T (Request α))} (inv : Inv s)
    (quiet : ∀ {a a'}, f a = some a' → Quiet a a') (h : s.initialising f = some s') : Inv s' := by
  simp only [initialising] at h
  split at h
  · obtain ⟨a',taken,rfl⟩ := Option.map_eq_some_iff.mp h
    exact inv.quiet (quiet taken)
  · cases h

/-- Outside of uv_run nothing is queued and the handle is not being closed. -/
theorem Inv.idle (inv : Inv s) (outside : ¬ s.inUvRun) :
    s.waiting = [] ∧ s.taken = [] ∧ s.async.handle ≠ .closing ∧ ¬ s.stopFlag := by
  refine ⟨?_,?_,fun closing => outside (inv.closing closing).1,fun set => outside (inv.stopFlag set).1⟩
  · by_contra some_left
    exact outside (inv.waiting some_left).1
  · by_contra some_left
    exact outside (inv.taken some_left)

/-- A state without requests, without a closing handle and without uv_stop. -/
theorem Inv.of_idle (ended : ∀ e ∈ s.ended, e.2 = e.1) (waiting : s.waiting = []) (taken : s.taken = [])
    (closing : s.async.handle ≠ .closing) (stopFlag : ¬ s.stopFlag) : Inv s :=
  ⟨ended,by simp [waiting,taken],fun some_left => absurd waiting some_left,
    fun some_left => absurd taken some_left,fun now => absurd now closing,fun set => absurd set stopFlag⟩

theorem run_inv {mode : Mode} (inv : Inv s) (h : s.run mode = some s') : Inv s' := by
  simp only [run,Option.ite_none_right_eq_some] at h
  obtain ⟨⟨outside,_⟩,⟨⟩⟩ := h
  obtain ⟨waiting,taken,closing,stopFlag⟩ := inv.idle (by simp [inUvRun,outside])
  exact .of_idle inv.ended waiting taken closing stopFlag

theorem init_inv (inv : Inv s) (h : s.init = some s') : Inv s' := by
  simp only [init] at h
  split at h
  · rename_i mode entered
    obtain ⟨a',started,rfl⟩ := Option.map_eq_some_iff.mp h
    obtain ⟨waiting,taken,closing,stopFlag⟩ := inv.idle (by simp [inUvRun,entered])
    simp only [Async.init,Option.ite_none_right_eq_some] at started
    obtain ⟨_,started⟩ := started
    split at started
    · cases started
      exact .of_idle inv.ended waiting taken closing stopFlag
    · cases started
      exact .of_idle inv.ended waiting taken (by simp) stopFlag
  · cases h

theorem uvRun_inv (inv : Inv s) (h : s.uvRun t = some s') : Inv s' := by
  simp only [uvRun] at h
  split at h
  · rename_i mode initialised
    obtain ⟨waiting,taken,closing,stopFlag⟩ := inv.idle (by simp [inUvRun,initialised])
    obtain ⟨_,rfl⟩ : s.async.starting = .idle ∧ _ = s' := by
      simp only [Option.ite_none_right_eq_some,Option.some.injEq] at h
      exact h
    exact .of_idle inv.ended waiting taken closing stopFlag
  · cases h

theorem swap_inv (inv : Inv s) (h : s.looping Async.swap = some s') : Inv s' := by
  obtain ⟨running,a',swapped,rfl⟩ := looping_some h
  simp only [Async.swap] at swapped
  split at swapped
  · rename_i woken
    cases swapped
    refine ⟨inv.ended,?_,fun some_left => absurd rfl some_left,fun _ => running,inv.closing,inv.stopFlag⟩
    intro issued member
    exact inv.own issued (List.mem_append_left _ member)
  · cases swapped

/-- A close in uv_run by a stop() of this run, with no other one left in the queue. -/
theorem closeAsync_inv {issued : Nat} (inv : Inv s)
    (live : s.async.handle = .live → issued = s.runs ∧ s.inUvRun ∧ s.waiting = [])
    (h : s.closeAsync issued = some s') : Inv s' := by
  obtain ⟨a',closed,rfl⟩ := Option.map_eq_some_iff.mp h
  simp only [Async.close] at closed
  split at closed
  · cases closed
  · cases closed
    by_cases is_live : s.async.handle = .live
    · obtain ⟨own,running,none_waiting⟩ := live is_live
      refine ⟨inv.ended,inv.own,fun some_left => absurd none_waiting some_left,inv.taken,?_,fun set => ?_⟩
      · simp only [is_live,if_true]
        exact fun _ => ⟨running,own⟩
      · have := (inv.stopFlag set).2
        rw [is_live] at this
        cases this
    · simp only [is_live,if_false]
      exact ⟨inv.ended,inv.own,inv.waiting,inv.taken,inv.closing,inv.stopFlag⟩

theorem runCallback_rest (inv : Inv s) (h : s.looping Async.runCallback = some s') :
    Inv s' ∧ ∃ f rest, s.async.loop = .batch (f :: rest) ∧ s'.async.handle = s.async.handle ∧
      s'.runs = s.runs ∧ s'.waiting = s.waiting ∧ s'.inUvRun = s.inUvRun ∧ s.inUvRun := by
  obtain ⟨running,a',ran,rfl⟩ := looping_some h
  simp only [Async.runCallback] at ran
  split at ran
  · rename_i f rest batch
    cases ran
    have sub : List.Sublist (stops rest) s.taken := by
      rw [taken,batch]
      exact (List.sublist_cons_self f rest).filterMap _
    refine ⟨⟨inv.ended,?_,?_,fun _ => running,inv.closing,inv.stopFlag⟩,f,rest,batch,rfl,rfl,rfl,rfl,running⟩
    · intro issued member
      rcases List.mem_append.mp member with queued | left
      · exact inv.own issued (List.mem_append_left _ queued)
      · exact inv.own issued (List.mem_append_right _ (sub.subset left))
    · intro some_left
      obtain ⟨_,live,none_taken⟩ := inv.waiting some_left
      rw [none_taken] at sub
      exact ⟨running,live,List.sublist_nil.mp sub⟩
  · cases ran

theorem runCallback_inv (inv : Inv s) (h : s.runCallback = some s') : Inv s' := by
  simp only [runCallback] at h
  split at h
  · rename_i issued rest batch
    obtain ⟨s₁,ran,closed⟩ := Option.bind_eq_some_iff.mp h
    obtain ⟨inv₁,_,_,_,handle,runs,waiting,still,running⟩ := runCallback_rest inv ran
    have mine : issued ∈ s.taken := by simp [taken,batch,Async.Loop.tmpCallbacks,stops,Request.issued?]
    refine closeAsync_inv inv₁ (fun live => ⟨?_,by rw [still]; exact running,?_⟩) closed
    · rw [runs]
      exact inv.own issued (List.mem_append_right _ mine)
    · rw [waiting]
      by_contra some_left
      rw [(inv.waiting some_left).2.2] at mine
      cases mine
  · exact (runCallback_rest inv h).1

theorem onAfterClose_inv (inv : Inv s) (h : s.onAfterClose = some s') : Inv s' := by
  obtain ⟨s₁,closed,rfl⟩ := Option.map_eq_some_iff.mp h
  obtain ⟨running,a',called,rfl⟩ := looping_some closed
  simp only [Async.onAfterClose] at called
  split at called
  case h_2 => cases called
  rename_i idle
  split at called
  · rename_i closing
    cases called
    have none_waiting : s.waiting = [] := by
      by_contra some_left
      have live := (inv.waiting some_left).2.1
      rw [closing] at live
      cases live
    refine ⟨?_,?_,fun some_left => absurd none_waiting some_left,fun some_left => absurd rfl some_left,
      by rintro ⟨⟩,fun _ => ⟨running,rfl⟩⟩
    · intro e member
      rcases List.mem_append.mp member with old | new
      · exact inv.ended e old
      · cases List.mem_singleton.mp new
        exact (inv.closing closing).2
    · intro issued member
      change issued ∈ s.waiting ++ [] at member
      rw [none_waiting] at member
      cases member
  · cases called

theorem leave_inv (inv : Inv s) (guard : s.InTime (.leave : Action T α)) (h : s.leave = some s') : Inv s' := by
  simp only [leave] at h
  split at h
  · rename_i mode stage idle
    simp only [Option.ite_none_right_eq_some] at h
    obtain ⟨returns,⟨⟩⟩ := h
    have none_taken : s.taken = [] := by rw [taken,idle]; rfl
    obtain ⟨none_waiting,open_⟩ : s.waiting = [] ∧ s.async.handle ≠ .closing := by
      rcases returns with rfl | set
      · exact guard stage
      · have closed := (inv.stopFlag set).2
        refine ⟨?_,by rw [closed]; decide⟩
        by_contra some_left
        have live := (inv.waiting some_left).2.1
        rw [closed] at live
        cases live
    exact .of_idle inv.ended none_waiting none_taken open_ (by simp)
  · cases h

end

theorem setStopping_inv (inv : Inv s) (stopping : Stopping) : Inv (s.setStopping t stopping) :=
  ⟨inv.ended,inv.own,inv.waiting,inv.taken,inv.closing,inv.stopFlag⟩

theorem push_inv (inv : Inv s) (guard : s.InTime (.push t : Action T α)) (h : s.push t = some s') : Inv s' := by
  simp only [push] at h
  split at h
  · rename_i issued queueing
    obtain ⟨a',pushed,rfl⟩ := Option.map_eq_some_iff.mp h
    obtain ⟨own,running,live,none_taken⟩ := guard
    rw [queueing] at own
    cases own
    simp only [Async.push,Option.ite_none_right_eq_some] at pushed
    obtain ⟨_,⟨⟩⟩ := pushed
    apply setStopping_inv
    refine ⟨inv.ended,?_,fun _ => ⟨running,live,none_taken⟩,inv.taken,inv.closing,inv.stopFlag⟩
    intro k member
    rcases List.mem_append.mp member with queued | taken
    · rw [waiting,setAsync,stops,List.filterMap_append] at queued
      rcases List.mem_append.mp queued with old | new
      · exact inv.own k (List.mem_append_left _ old)
      · change k = s.runs
        simpa [Request.issued?] using new
    · exact inv.own k (List.mem_append_right _ taken)
  · cases h

theorem pushOther_inv {f : α} (inv : Inv s) (h : (s.async.push t (.other f)).map s.setAsync = some s') : Inv s' := by
  obtain ⟨a',pushed,rfl⟩ := Option.map_eq_some_iff.mp h
  simp only [Async.push,Option.ite_none_right_eq_some] at pushed
  obtain ⟨_,⟨⟩⟩ := pushed
  have same : stops (s.async.cbQue ++ [.other f]) = s.waiting := by
    rw [stops,List.filterMap_append]
    exact List.append_nil _
  refine ⟨inv.ended,?_,?_,inv.taken,inv.closing,inv.stopFlag⟩
  · change ∀ issued ∈ stops (s.async.cbQue ++ [.other f]) ++ s.taken, issued = s.runs
    rw [same]
    exact inv.own
  · change stops (s.async.cbQue ++ [.other f]) ≠ [] → _
    rw [same]
    exact inv.waiting

theorem step_inv {action : Action T α} (inv : Inv s) (guard : s.InTime action) (h : step s action = some s') :
    Inv s' := by
  cases action with
  | run mode => exact run_inv inv h
  | init => exact init_inv inv h
  | assign => exact initialising_quiet inv assign_quiet h
  | initSend => exact initialising_quiet inv initSend_quiet h
  | uvRun t => exact uvRun_inv inv h
  | uvCallback => exact looping_quiet inv uvCallback_quiet h
  | swap => exact swap_inv inv h
  | runCallback => exact runCallback_inv inv h
  | endBatch => exact looping_quiet inv endBatch_quiet h
  | onAfterClose => exact onAfterClose_inv inv h
  | resetData => exact looping_quiet inv resetData_quiet h
  | leave => exact leave_inv inv guard h
  | stop t =>
    simp only [step,stop] at h
    split at h
    · cases h
      split
      · exact setStopping_inv inv _
      · exact inv
    · cases h
  | runInLoop t =>
    simp only [step,runInLoop] at h
    split at h
    · cases h
      exact setStopping_inv inv _
    · cases h
  | close t =>
    simp only [step,close] at h
    split at h
    · rename_i issued direct
      obtain ⟨s₁,closed,rfl⟩ := Option.map_eq_some_iff.mp h
      apply setStopping_inv
      refine closeAsync_inv inv (fun live => ?_) closed
      obtain ⟨own,rest⟩ := guard live
      rw [direct] at own
      cases own
      exact ⟨rfl,rest⟩
    · cases h
  | push t => exact push_inv inv guard h
  | pushOther t f => exact pushOther_inv inv h
  | test t =>
    obtain ⟨a',tested,rfl⟩ := Option.map_eq_some_iff.mp h
    exact inv.quiet (test_quiet tested)
  | send t =>
    obtain ⟨a',sent,rfl⟩ := Option.map_eq_some_iff.mp h
    exact inv.quiet (send_quiet sent)

omit [DecidableEq T] in
theorem make_inv : Inv (make : EventLoop T α) :=
  .of_idle (by simp [make]) rfl rfl (by simp [make,Async.make]) (by simp [make])

/-- No run is ended by the stop() of an earlier one as long as every stop() gets its request
into the queue in time. -/
theorem own_stops (actions : List (Action T α)) (inTime : Transition.Meets step InTime make actions) :
    Transition.Along step OwnStops make actions :=
  Transition.along_of_meets (fun _ inv => inv.ownStops) (fun _ _ _ inv guard h => step_inv inv guard h)
    make_inv inTime

def started : List (Action Bool Unit) := [.run .default,.init,.assign,.initSend,.uvRun false]

def stopped : List (Action Bool Unit) := [.stop true,.runInLoop true,.push true]

def sent : List (Action Bool Unit) := [.test true,.send true]
def swapped : List (Action Bool Unit) := [.uvCallback,.swap]
def woken : List (Action Bool Unit) := sent ++ swapped

def closed : List (Action Bool Unit) := [.runCallback,.endBatch,.onAfterClose]
def returned : List (Action Bool Unit) := [.resetData,.leave]
def finished : List (Action Bool Unit) := closed ++ returned

def twoRuns : List (Action Bool Unit) :=
  started ++ stopped ++ woken ++ finished ++ started ++ stopped ++ woken ++ finished

theorem own_stops_two_runs :
    ((Transition.run step make twoRuns).map fun s => s.ended) = some [(1,1),(2,2)] ∧
      Transition.Along step OwnStops make twoRuns :=
  ⟨by decide +kernel,own_stops twoRuns (by decide +kernel)⟩

/-- A second stop() comes while the loop runs the closure of the first one. Its request
stays in the queue, and the wake-up of the next init hands it to the next run. -/
def lateStop : List (Action Bool Unit) :=
  started ++ stopped ++ woken ++ stopped ++ sent ++ finished ++ started ++ swapped ++ closed

theorem later_run_ended :
    ¬ ∀ s ∈ Transition.run step make lateStop, OwnStops s := by
  have ended : ((Transition.run step make lateStop).map fun s => s.ended) = some [(1,1),(2,1)] := by
    decide +kernel
  obtain ⟨s,reached,same⟩ := Option.map_eq_some_iff.mp ended
  intro always
  have own := (always s reached).ended (2,1) (by simp [same])
  cases own

end EventLoop
end UvRpc
