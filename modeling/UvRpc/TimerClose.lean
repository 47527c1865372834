import UvRpc.Async
import UvRpc.Transition
import UvRpc.UvTimer

/-! The end of a UvTimer: its methods called by any thread, their closures run at once or
queued for the loop, and the callbacks that libuv and the user get. -/
namespace UvRpc

/-- The closures of start, stop and close. -/
inductive TimerTask where
  | start | stop | close
  deriving DecidableEq, Repr

/-- A thread in one of the timer's methods has this still to do. -/
inductive TimerTodo where
  | runInLoop (func : TimerTask)
  | runInLoopEn (func : TimerTask)
  | run (func : TimerTask)
  deriving DecidableEq, Repr

/-- The callbacks in the order in which they are made: libuv's timer callback, its close
callback, and the closed callback of the user. -/
inductive TimerEvent (K : Type*) where
  | onTimer | finished
  | closed (callback : K)
  deriving DecidableEq, Repr

/-- `cbQue` holds the closures for the loop that other threads have handed over. -/
structure TimerClose (T K : Type*) where
  timer : UvTimer K
  status : Async.Status
  loopThreadId : Option T
  cbQue : List TimerTask
  todo : T → List TimerTodo
  log : List (TimerEvent K)

namespace TimerClose

inductive Action (T K : Type*) where
  | run (t : T)
  | leave (noWait : Bool)
  | start (t : T)
  | stop (t : T)
  | close (t : T) (callback : Option K)
  | next (t : T)
  | callback
  | expire
  | finish
  deriving DecidableEq, Repr

section
variable {T K : Type*} [DecidableEq T]

def make (timeout repeat_ : Nat) (callback : Option K) : TimerClose T K :=
  ⟨.make timeout repeat_ callback,.notRun,none,[],fun _ => [],[]⟩

def isRunInLoopThread (s : TimerClose T K) (t : T) : Bool := s.status = .running ∧ s.loopThreadId = some t

def isStoped (s : TimerClose T K) : Bool := s.status = .stop

def setTodo (s : TimerClose T K) (t : T) (todo : List TimerTodo) : TimerClose T K :=
  {s with todo := Function.update s.todo t todo}

def enter (s : TimerClose T K) (t : T) (todo : List TimerTodo) : Option (TimerClose T K) :=
  if s.todo t = [] then some (s.setTodo t todo) else none

def exec (s : TimerClose T K) : TimerTask → TimerClose T K
  | .start => {s with timer := s.timer.startInLoop}
  | .stop => {s with timer := s.timer.stopInLoop}
  | .close =>
    {s with
      timer := s.timer.closeInLoop.1
      log := s.log ++ s.timer.closeInLoop.2.toList.map .closed}

def next (s : TimerClose T K) (t : T) : Option (TimerClose T K) :=
  match s.todo t with
  | [] => none
  | .runInLoop f :: rest =>
    some (s.setTodo t ((if s.isRunInLoopThread t || s.isStoped then .run f else .runInLoopEn f) :: rest))
  | .runInLoopEn f :: rest => some ({s with cbQue := s.cbQue ++ [f]}.setTodo t rest)
  | .run f :: rest => some ((s.exec f).setTodo t rest)

def idle (s : TimerClose T K) : Option T :=
  if s.status = .running then s.loopThreadId.filter fun t => s.todo t = [] else none

def step (s : TimerClose T K) : Action T K → Option (TimerClose T K)
  | .run t =>
    if s.status ≠ .running ∧ s.todo t = [] then some {s with status := .running, loopThreadId := some t}
    else none
  | .leave noWait => s.idle.map fun _ => {s with status := if noWait then .notRun else .stop}
  | .start t => s.enter t [.runInLoop .start]
  | .stop t => s.enter t [.runInLoop .stop]
  | .close t callback =>
    {s with timer := s.timer.setClosed callback}.enter t [.runInLoop .stop,.runInLoop .close]
  | .next t => s.next t
  | .callback =>
    match s.cbQue with
    | [] => none
    | f :: rest => s.idle.map fun t => {s with cbQue := rest}.setTodo t [.run f]
  | .expire =>
    if s.timer.uvHandle.active then
      s.idle.map fun _ =>
        {s with timer := {s.timer with uvHandle := s.timer.uvHandle.expire}, log := s.log ++ [.onTimer]}
    else none
  | .finish =>
    if s.timer.uvHandle.phase = .closing then
      s.idle.map fun _ =>
        {s with
          timer := {s.timer with uvHandle := s.timer.uvHandle.finish}
          log := s.log ++ .finished :: s.timer.onClosed.toList.map .closed}
    else none

end

def closed? {K : Type*} : TimerEvent K → Bool
  | .closed _ => true
  | _ => false

/-- The closed callback comes once, after libuv's close callback and after anything else. -/
structure ClosedOnce {K : Type*} (log : List (TimerEvent K)) : Prop where
  once : log.countP closed? ≤ 1
  finished : ∀ before k after, log = before ++ .closed k :: after → .finished ∈ before
  last : ∀ before k after, log = before ++ .closed k :: after → after = []

section
variable {T K : Type*}

/-- Where a closure of close runs on a handle that is closing or closed, no callback is
stored, or libuv has finished and no callback has been made yet. -/
def ClosedBefore (s : TimerClose T K) : Action T K → Prop
  | .next t =>
    (s.todo t).head? = some (.run .close) → s.timer.uvHandle.isClosing = true →
      s.timer.cbClosed = none ∨ s.timer.uvHandle.phase = .closed ∧ s.log.countP closed? = 0
  | _ => True

instance (s : TimerClose T K) : (a : Action T K) → Decidable (s.ClosedBefore a)
  | .next t => inferInstanceAs (Decidable ((s.todo t).head? = some (.run .close) →
      s.timer.uvHandle.isClosing = true → s.timer.cbClosed = none ∨
        s.timer.uvHandle.phase = .closed ∧ s.log.countP closed? = 0))
  | .run _ | .leave _ | .start _ | .stop _ | .close _ _ | .callback | .expire | .finish =>
    inferInstanceAs (Decidable True)

/-- A timer fires until it is closed, then libuv finishes, and then at most one closed
callback is made. -/
structure Inv (s : TimerClose T K) : Prop where
  quiet : s.timer.uvHandle.isClosing = true → s.timer.uvHandle.active = false
  early : s.timer.uvHandle.phase ≠ .closed → ∀ e ∈ s.log, e = .onTimer
  late : s.timer.uvHandle.phase = .closed →
    (.finished ∈ s.log ∧ s.log.countP closed? = 0) ∨
      ∃ seen k, s.log = seen ++ [.closed k] ∧ .finished ∈ seen ∧ seen.countP closed? = 0

variable {s s' : TimerClose T K}

theorem unclosed {log : List (TimerEvent K)} (none_made : log.countP closed? = 0) {k : K}
    (member : .closed k ∈ log) : False :=
  List.countP_eq_zero.mp none_made _ member rfl

theorem closedOnce_of_none {log : List (TimerEvent K)} (none_made : log.countP closed? = 0) : ClosedOnce log := by
  have absent : ∀ before k after, log ≠ before ++ .closed k :: after := by
    rintro before k after rfl
    exact unclosed none_made (List.mem_append_right _ List.mem_cons_self)
  exact ⟨by omega,fun before k after h => absurd h (absent before k after),
    fun before k after h => absurd h (absent before k after)⟩

theorem closedOnce_of_last {seen : List (TimerEvent K)} {k : K} (none_made : seen.countP closed? = 0)
    (finished : .finished ∈ seen) : ClosedOnce (seen ++ [.closed k]) := by
  have only : ∀ before k' after, seen ++ [.closed k] = before ++ .closed k' :: after → seen = before := by
    intro before k' after h
    rcases Transition.split_snoc h with ⟨same,_⟩ | ⟨rest,rfl⟩
    · exact same
    · exact (unclosed none_made (List.mem_append_right _ List.mem_cons_self)).elim
  refine ⟨by simp [none_made,closed?],fun before k' after h => only before k' after h ▸ finished,?_⟩
  intro before k' after h
  obtain rfl := only before k' after h
  exact (List.cons.inj (List.append_cancel_left h)).2.symm

theorem Inv.closedOnce (inv : Inv s) : ClosedOnce s.log := by
  by_cases phase : s.timer.uvHandle.phase = .closed
  · rcases inv.late phase with ⟨_,none_made⟩ | ⟨seen,k,log,finished,none_made⟩
    · exact closedOnce_of_none none_made
    · rw [log]
      exact closedOnce_of_last none_made finished
  · refine closedOnce_of_none (List.countP_eq_zero.mpr fun e member => ?_)
    rw [inv.early phase e member]
    exact Bool.false_ne_true

theorem Inv.of_phase (inv : Inv s) (phase : s'.timer.uvHandle.phase = s.timer.uvHandle.phase)
    (log : s'.log = s.log) (quiet : s'.timer.uvHandle.isClosing = true → s'.timer.uvHandle.active = false) :
    Inv s' := by
  refine ⟨quiet,?_,?_⟩ <;> rw [phase,log]
  · exact inv.early
  · exact inv.late

theorem Inv.of_same (inv : Inv s) (handle : s'.timer.uvHandle = s.timer.uvHandle) (log : s'.log = s.log) :
    Inv s' :=
  inv.of_phase (by rw [handle]) log (by rw [handle]; exact inv.quiet)

theorem exec_inv {f : TimerTask} (inv : Inv s) (before : f = .close → s.timer.uvHandle.isClosing = true →
    s.timer.cbClosed = none ∨ s.timer.uvHandle.phase = .closed ∧ s.log.countP closed? = 0) :
    Inv (s.exec f) := by
  cases f with
  | start =>
    have phase : (s.exec .start).timer.uvHandle.phase = s.timer.uvHandle.phase :=
      UvTimer.startInLoop_phase s.timer
    refine inv.of_phase phase rfl fun closing => ?_
    have closing : s.timer.uvHandle.isClosing = true := (UvTimer.startInLoop_closing s.timer).symm.trans closing
    change s.timer.startInLoop.uvHandle.active = false
    rw [UvTimer.startInLoop_active,inv.quiet closing,closing,Bool.or_true]
    rfl
  | stop =>
    exact inv.of_phase (UvTimer.stopInLoop_phase s.timer) rfl fun _ => UvTimer.stopInLoop_active s.timer
  | close =>
    cases closing : s.timer.uvHandle.isClosing with
    | false =>
      have first : s.timer.closeInLoop = ({s.timer with uvHandle := s.timer.uvHandle.close},none) :=
        if_neg (by simp [closing])
      have open_ : s.timer.uvHandle.phase ≠ .closed := by
        intro closed
        simp [UvTimerHandle.isClosing,closed] at closing
      have log : (s.exec .close).log = s.log := by simp [exec,first]
      have handle : (s.exec .close).timer.uvHandle = s.timer.uvHandle.close := by simp [exec,first]
      refine ⟨fun _ => by rw [handle]; rfl,fun _ => by rw [log]; exact inv.early open_,fun closed => ?_⟩
      rw [handle] at closed
      cases closed
    | true =>
      have same : s.timer.closeInLoop = (s.timer,s.timer.cbClosed) := if_pos closing
      cases callback : s.timer.cbClosed with
      | none => exact inv.of_same (by simp [exec,same]) (by simp [exec,same,callback])
      | some k =>
        obtain ⟨closed,none_made⟩ := (before rfl closing).resolve_left (by simp [callback])
        have log : (s.exec .close).log = s.log ++ [.closed k] := by simp [exec,same,callback]
        have handle : (s.exec .close).timer.uvHandle = s.timer.uvHandle := by simp [exec,same]
        have finished : .finished ∈ s.log := by
          rcases inv.late closed with ⟨finished,_⟩ | ⟨seen,k',made,_⟩
          · exact finished
          · have member : .closed k' ∈ s.log := by simp [made]
            exact (unclosed none_made member).elim
        refine ⟨by rw [handle]; exact inv.quiet,fun open_ => absurd (by rw [handle]; exact closed) open_,fun _ => ?_⟩
        exact .inr ⟨s.log,k,log,finished,none_made⟩

variable [DecidableEq T]

theorem enter_inv {t : T} {todo : List TimerTodo} (inv : Inv s) (h : s.enter t todo = some s') : Inv s' := by
  simp only [enter,Option.ite_none_right_eq_some] at h
  obtain ⟨_,⟨⟩⟩ := h
  exact inv.of_same rfl rfl

theorem step_inv {a : Action T K} (inv : Inv s) (before : s.ClosedBefore a) (h : step s a = some s') : Inv s' := by
  cases a with
  | run t =>
    simp only [step,Option.ite_none_right_eq_some] at h
    obtain ⟨_,⟨⟩⟩ := h
    exact inv.of_same rfl rfl
  | leave noWait =>
    obtain ⟨t,_,rfl⟩ := Option.map_eq_some_iff.mp h
    exact inv.of_same rfl rfl
  | start t => exact enter_inv inv h
  | stop t => exact enter_inv inv h
  | close t callback =>
    have assigned : Inv {s with timer := s.timer.setClosed callback} := inv.of_same rfl rfl
    exact enter_inv assigned h
  | next t =>
    simp only [step,next] at h
    split at h
    · cases h
    · cases h
      exact inv.of_same rfl rfl
    · cases h
      exact inv.of_same rfl rfl
    · rename_i f rest todo
      cases h
      have ran : Inv (s.exec f) := exec_inv inv fun close => before (by rw [todo,close]; rfl)
      exact ran.of_same rfl rfl
  | callback =>
    simp only [step] at h
    split at h
    · cases h
    · obtain ⟨t,_,rfl⟩ := Option.map_eq_some_iff.mp h
      exact inv.of_same rfl rfl
  | expire =>
    simp only [step] at h
    split at h
    · rename_i active
      obtain ⟨t,_,rfl⟩ := Option.map_eq_some_iff.mp h
      have open_ : s.timer.uvHandle.isClosing = false :=
        Bool.eq_false_iff.mpr fun closing => by simp [inv.quiet closing] at active
      have running : s.timer.uvHandle.phase ≠ .closed := fun closed => by
        simp [UvTimerHandle.isClosing,closed] at open_
      have phase := UvTimer.expire_phase s.timer.uvHandle
      refine ⟨fun closing => ?_,fun _ e member => ?_,fun closed => absurd (phase.symm.trans closed) running⟩
      · exact absurd ((UvTimer.isClosing_congr phase).symm.trans closing) (by simp [open_])
      · rcases List.mem_append.mp member with old | new
        · exact inv.early running e old
        · exact List.mem_singleton.mp new
    · cases h
  | finish =>
    simp only [step] at h
    split at h
    · rename_i closing
      obtain ⟨t,_,rfl⟩ := Option.map_eq_some_iff.mp h
      have early := inv.early (by simp [closing])
      have none_made : (s.log ++ [TimerEvent.finished]).countP closed? = 0 := by
        refine List.countP_eq_zero.mpr fun e member => ?_
        rcases List.mem_append.mp member with old | new
        · rw [early e old]
          exact Bool.false_ne_true
        · rw [List.mem_singleton.mp new]
          exact Bool.false_ne_true
      refine ⟨fun _ => inv.quiet (by simp [UvTimerHandle.isClosing,closing]),fun open_ => absurd rfl open_,fun _ => ?_⟩
      cases callback : s.timer.cbClosed with
      | none => exact .inl (by simpa [UvTimer.onClosed,callback] using none_made)
      | some k =>
        refine .inr ⟨s.log ++ [.finished],k,?_,by simp,none_made⟩
        simp [UvTimer.onClosed,callback]
    · cases h

/-- Any other closure of close makes its callback too early or once too often. -/
theorem step_unclosed {a : Action T K} (inv : Inv s) (late : ¬ s.ClosedBefore a) (h : step s a = some s') :
    ¬ ClosedOnce s'.log := by
  cases a with
  | next t =>
    simp only [ClosedBefore,not_forall] at late
    obtain ⟨todo,closing,late⟩ := late
    rw [not_or,not_and] at late
    obtain ⟨k,callback⟩ := Option.ne_none_iff_exists'.mp late.1
    obtain ⟨rest,todo⟩ := List.head?_eq_some_iff.mp todo
    simp only [step,next,todo,Option.some.injEq] at h
    have log : s'.log = s.log ++ [.closed k] := by
      subst h
      simp [setTodo,exec,UvTimer.closeInLoop,closing,UvTimer.onClosed,callback]
    rw [log]
    intro again
    by_cases phase : s.timer.uvHandle.phase = .closed
    · have once := again.once
      rw [List.countP_append] at once
      have last : [TimerEvent.closed k].countP closed? = 1 := rfl
      exact late.2 phase (by omega)
    · have finished := again.finished s.log k [] rfl
      cases inv.early phase _ finished
  | _ => exact absurd trivial late

/-- For any timer and any threads, over every run. -/
theorem closed_once_iff (timeout repeat_ : Nat) (callback : Option K) {actions : List (Action T K)}
    (ran : Transition.run step (make timeout repeat_ callback) actions = some s) :
    Transition.Along step (fun s => ClosedOnce s.log) (make timeout repeat_ callback) actions ↔
      Transition.Meets step ClosedBefore (make (T := T) timeout repeat_ callback) actions := by
  have start : Inv (make (T := T) timeout repeat_ callback) :=
    ⟨fun _ => rfl,(fun _ e member => by cases member),fun closed => by cases closed⟩
  exact Transition.along_iff_meets (P := fun s : TimerClose T K => ClosedOnce s.log) (fun _ inv => inv.closedOnce)
    (fun _ _ _ inv before taken => step_inv inv before taken)
    (fun _ _ _ inv late taken => step_unclosed inv late taken) start ran

end

def toEnd (t : Bool) : Action Bool Nat → List (Action Bool Nat)
  | .close _ callback => [.close t callback,.next t,.next t,.next t,.next t]
  | a => [a,.next t,.next t]

/-- Started before the loop runs, stopped and closed by its own callback. -/
def closedByCallback : List (Action Bool Nat) :=
  toEnd false (.start false) ++ [.run true,.callback,.next true,.expire,.expire] ++
    toEnd true (.stop true) ++ toEnd true (.close true (some 7)) ++ [.finish,.leave false]

theorem closed_once_iff_by_callback :
    ∃ s, Transition.run step (make 3000 3000 (some 0)) closedByCallback = some s ∧
      (Transition.Along step (fun s => ClosedOnce s.log) (make 3000 3000 (some 0)) closedByCallback ↔
        Transition.Meets step ClosedBefore (make 3000 3000 (some 0)) closedByCallback) :=
  ⟨_,rfl,closed_once_iff 3000 3000 (some 0) rfl⟩

def closedTwice : List (Action Bool Nat) :=
  [.run true] ++ toEnd false (.close false (some 1)) ++ toEnd false (.close false (some 2)) ++
    [.callback,.next true,.callback,.next true,.callback,.next true,.callback,.next true,.finish]

/-- The second closure calls back before libuv has finished, and libuv's callback once more. -/
theorem closed_early_and_again :
    ∃ s, Transition.run step (make 3000 3000 (some 0)) closedTwice = some s ∧
      s.log = [.closed 2,.finished,.closed 2] ∧ ¬ ClosedOnce s.log := by
  refine ⟨_,rfl,rfl,fun once => ?_⟩
  exact absurd once.once (by decide)

end TimerClose
end UvRpc
