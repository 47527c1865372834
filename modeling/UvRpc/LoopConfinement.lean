import UvRpc.Async

/-! Which thread makes libuv's calls. A loop is run by one thread at a time; the functions
of the library decide by isRunInLoopThread and isStoped whether to call libuv themselves
or to queue a closure for the loop, and threads interleave between any two of their steps. -/

namespace UvRpc

namespace Confinement

inductive Fn where
  | tcpInit | accept | getpeername | sendBufferSize | recvBufferSize | readStart | tcpConnect | isReadable | isWritable
  | isClosing | write | close | queueWork | asyncInit | stop
  deriving DecidableEq, Repr

/-- The closures that the library gives to a loop. `startRead` is that of onNewConnection,
with what uv_accept has returned, and `stop` that of EventLoop::stop. -/
inductive Closure (L C : Type*) where
  | realSend (c : C)
  | close (c : C)
  | startRead (c : C) (ret : Int)
  | initWorkerPool (l : L)
  | stop (l : L)
  deriving DecidableEq, Repr

/-- A thread in one of the library's functions has this still to do: `launch` is the end of
sendMsg(task), `run` the body of a closure or of close, `batch` the loop of realSend. -/
inductive Todo (L C : Type*) where
  | launch (c : C)
  | closeSafe (c : C)
  | runInLoop (func : Closure L C)
  | runInLoopEn (func : Closure L C)
  | run (func : Closure L C)
  | batch (c : C) (tempQue : List Nat) (bError : Bool)
  | call (fn : Fn) (c : C)
  | loopCall (fn : Fn) (l : L)
  deriving DecidableEq, Repr

/-- A call of libuv on a loop or on a handle of it, and who was in uv_run then. -/
structure Entry (T L : Type*) where
  thread : T
  loop : L
  fn : Fn
  runner : Option T
  deriving DecidableEq, Repr

inductive Action (T L C : Type*) where
  | run (t : T) (l : L) (noWait : Bool)
  | leave (t : T) (l : L)
  | callback (t : T) (l : L)
  | onNewConnection (t : T) (c : C) (ret : Int)
  | onConnect (t : T) (c : C) (status : Int)
  | onReadClose (t : T) (c : C)
  | afterWrite (t : T) (c : C) (i : Nat) (ok locked : Bool)
  | setConnection (task : Nat) (c : C)
  | sendMsg (t : T) (c : C) (task : Nat)
  | sendReq (t : T) (c : C) (task : Nat)
  | invokeSend (t : T) (c : C)
  | closeSafe (t : T) (c : C)
  | close (t : T) (c : C)
  | connect (t : T) (c : C)
  | addToWorkQueue (t : T) (task : Nat)
  | start (t : T) (l : L)
  | stop (t : T) (l : L)
  | onAfterClose (t : T) (l : L)
  | next (t : T) (accepted : Bool)
  deriving DecidableEq, Repr

end Confinement

/-- `runner` is the thread in uv_run, of runNoWait if `noWait`; `inited` and `asyncClosing` are of the loop's wake-up
handle. A write request counts as its task, and `bound` is the connection that a task's weak pointer refers to. -/
structure Confinement (T L C : Type*) where
  runner : L → Option T
  noWait : L → Bool
  status : L → Async.Status
  loopThreadId : L → Option T
  inited : L → Bool
  asyncClosing : L → Bool
  cbQue : L → List (Confinement.Closure L C)
  sendQue : C → List Nat
  inFlight : C → List Nat
  isClosing : C → Bool
  bound : Nat → Option C
  todo : T → List (Confinement.Todo L C)
  log : List (Confinement.Entry T L)

namespace Confinement

variable {T L C : Type*} [DecidableEq T] [DecidableEq L] [DecidableEq C]

def Closure.loop (home : C → L) : Closure L C → L
  | .realSend c => home c
  | .close c => home c
  | .startRead c _ => home c
  | .initWorkerPool l => l
  | .stop l => l

@[simps todo] def setTodo (s : Confinement T L C) (t : T) (todo : List (Todo L C)) : Confinement T L C :=
  {s with todo := Function.update s.todo t todo}

def enter (s : Confinement T L C) (t : T) (todo : List (Todo L C)) : Confinement T L C :=
  s.setTodo t (todo ++ s.todo t)

def libuv (s : Confinement T L C) (t : T) (l : L) (fn : Fn) : Confinement T L C :=
  {s with log := s.log ++ [⟨t,l,fn,s.runner l⟩]}

def pushbackQue (s : Confinement T L C) (c : C) (task : Nat) : Confinement T L C :=
  {s with sendQue := Function.update s.sendQue c (s.sendQue c ++ [task])}

def setClosing (s : Confinement T L C) (c : C) (isClosing : Bool) : Confinement T L C :=
  {s with isClosing := Function.update s.isClosing c isClosing}

def setAsyncClosing (s : Confinement T L C) (l : L) (isClosing : Bool) : Confinement T L C :=
  {s with asyncClosing := Function.update s.asyncClosing l isClosing}

def initAsync (s : Confinement T L C) (t : T) (l : L) : Confinement T L C :=
  if s.inited l then s
  else {(s.libuv t l .asyncInit).setAsyncClosing l false with inited := Function.update s.inited l true}

def isRunInLoopThread (s : Confinement T L C) (t : T) (l : L) : Bool :=
  s.status l = .running ∧ s.loopThreadId l = some t

def isStoped (s : Confinement T L C) (l : L) : Bool := s.status l = .stop

def run (s : Confinement T L C) (t : T) (l : L) (noWait : Bool) : Option (Confinement T L C) :=
  if s.runner l = none ∧ (s.status l = .notRun ∨ ¬ noWait ∧ s.status l = .stop) then
    let s := s.initAsync t l
    some {s with
      runner := Function.update s.runner l (some t)
      noWait := Function.update s.noWait l noWait
      status := Function.update s.status l .running
      loopThreadId := Function.update s.loopThreadId l (some t)}
  else none

/-- uv_run returns in between two callbacks. -/
def leave (s : Confinement T L C) (t : T) (l : L) : Option (Confinement T L C) :=
  if s.runner l = some t ∧ s.todo t = [] then
    some {s with
      runner := Function.update s.runner l none
      status := Function.update s.status l (if s.noWait l then .notRun else .stop)}
  else none

/-- The loop `l` makes a callback, in which the thread has this to do. -/
def loopCalls (s : Confinement T L C) (t : T) (l : L) (todo : List (Todo L C)) : Option (Confinement T L C) :=
  if s.runner l = some t ∧ s.todo t = [] then some (s.setTodo t todo) else none

/-- realProcess takes the next closure. -/
def callback (s : Confinement T L C) (t : T) (l : L) : Option (Confinement T L C) :=
  match s.cbQue l with
  | [] => none
  | f :: rest => {s with cbQue := Function.update s.cbQue l rest}.loopCalls t l [.run f]

def onAfterClose (s : Confinement T L C) (t : T) (l : L) : Option (Confinement T L C) :=
  if s.inited l ∧ s.asyncClosing l then
    {s with inited := Function.update s.inited l false}.loopCalls t l [.loopCall .stop l]
  else none

def setBufferSize : List Fn := [.sendBufferSize,.recvBufferSize]

def calls (c : C) (fns : List Fn) : List (Todo L C) := fns.map (Todo.call · c)

/-- ConnectionManager::onNewConnection, called on the listening loop. getKey asks for the peer's name. -/
def onNewConnection (listening : L) (s : Confinement T L C) (t : T) (c : C) (ret : Int) :
    Option (Confinement T L C) :=
  s.loopCalls t listening
    (calls c (.tcpInit :: .accept :: .getpeername :: setBufferSize) ++ [.runInLoopEn (.startRead c ret)])

def onConnect (home : C → L) (s : Confinement T L C) (t : T) (c : C) (status : Int) : Option (Confinement T L C) :=
  s.loopCalls t (home c)
    (if status < 0 then [] else calls c (setBufferSize ++ [Fn.isReadable,.isWritable,.isClosing,.readStart]))

def onReadClose (home : C → L) (s : Confinement T L C) (t : T) (c : C) : Option (Confinement T L C) :=
  s.loopCalls t (home c) [.run (.close c)]

/-- `locked` is whether the connection that the task is bound to still exists. -/
def afterWrite (home : C → L) (s : Confinement T L C) (t : T) (c : C) (i : Nat) (ok locked : Bool) :
    Option (Confinement T L C) :=
  match (s.inFlight c)[i]? with
  | none => none
  | some task =>
    let s := {s with inFlight := Function.update s.inFlight c ((s.inFlight c).eraseIdx i)}
    match (s.bound task).filter fun _ => locked with
    | none => s.loopCalls t (home c) []
    | some conn =>
      if ok then s.loopCalls t (home c) [.run (.realSend conn)]
      else (s.pushbackQue conn task).loopCalls t (home c) [.run (.close conn)]

/-- Where a user may call close() and connect(): in a callback of the loop, or before it runs. -/
def allowed (home : C → L) (s : Confinement T L C) (t : T) (c : C) : Bool :=
  s.runner (home c) = some t ∨ s.runner (home c) = none ∧ s.status (home c) = .notRun

def closeNow (home : C → L) (s : Confinement T L C) (t : T) (c : C) : Confinement T L C :=
  let s := s.libuv t (home c) .isClosing
  if s.isClosing c then s else (s.libuv t (home c) .close).setClosing c true

def close (home : C → L) (s : Confinement T L C) (t : T) (c : C) : Option (Confinement T L C) :=
  if allowed home s t c then some (closeNow home s t c) else none

def connect (home : C → L) (s : Confinement T L C) (t : T) (c : C) : Option (Confinement T L C) :=
  if allowed home s t c then
    some (((s.libuv t (home c) .tcpInit).setClosing c false).libuv t (home c) .tcpConnect)
  else none

def addToWorkQueue (home : C → L) (s : Confinement T L C) (t : T) (task : Nat) : Option (Confinement T L C) :=
  (s.bound task).map fun c => s.enter t [.loopCall .queueWork (home c)]

def stop (s : Confinement T L C) (t : T) (l : L) : Confinement T L C :=
  if s.status l = .running then s.enter t [.runInLoop (.stop l)] else s

/-- The next step of what the thread has to do. `accepted` is the answer of a uv_write. -/
def next (home : C → L) (s : Confinement T L C) (t : T) (accepted : Bool) : Option (Confinement T L C) :=
  match s.todo t with
  | [] => none
  | .launch c :: rest =>
    some (s.setTodo t
      ((if s.isRunInLoopThread t (home c) then .run (.realSend c) else .runInLoopEn (.realSend c)) :: rest))
  | .closeSafe c :: rest =>
    some (s.setTodo t
      ((if s.isRunInLoopThread t (home c) then .run (.close c) else .runInLoopEn (.close c)) :: rest))
  | .runInLoop f :: rest =>
    let l := f.loop home
    some (s.setTodo t ((if s.isRunInLoopThread t l || s.isStoped l then .run f else .runInLoopEn f) :: rest))
  | .runInLoopEn f :: rest =>
    let l := f.loop home
    some ({s with cbQue := Function.update s.cbQue l (s.cbQue l ++ [f])}.setTodo t rest)
  | .run (.realSend c) :: rest =>
    some ({s with sendQue := Function.update s.sendQue c []}.setTodo t (.batch c (s.sendQue c) false :: rest))
  | .run (.close c) :: rest =>
    some ((s.libuv t (home c) .isClosing).setTodo t (if s.isClosing c then rest else .call .close c :: rest))
  | .run (.startRead c ret) :: rest => some (s.setTodo t (.call (if ret = 0 then .readStart else .close) c :: rest))
  | .run (.initWorkerPool l) :: rest => some (s.setTodo t (.loopCall .queueWork l :: rest))
  | .run (.stop l) :: rest =>
    some ((s.libuv t l .isClosing).setTodo t (if s.asyncClosing l then rest else .loopCall .close l :: rest))
  | .batch _ [] _ :: rest => some (s.setTodo t rest)
  | .batch c (task :: tasks) true :: rest => some ((s.pushbackQue c task).setTodo t (.batch c tasks true :: rest))
  | .batch c (task :: tasks) false :: rest =>
    let s := s.libuv t (home c) .write
    if accepted then
      some ({s with inFlight := Function.update s.inFlight c (s.inFlight c ++ [task])}.setTodo t
        (.batch c tasks false :: rest))
    else some ((s.pushbackQue c task).setTodo t (.run (.close c) :: .batch c tasks true :: rest))
  | .call fn c :: rest =>
    let s := s.libuv t (home c) fn
    some ((if fn = .close ∨ fn = .tcpInit then s.setClosing c (fn = .close) else s).setTodo t rest)
  | .loopCall fn l :: rest =>
    let s := s.libuv t l fn
    some ((if fn = .close then s.setAsyncClosing l true else s).setTodo t rest)

/-- User code may call in at any point. -/
def step (home : C → L) (listening : L) (s : Confinement T L C) : Action T L C → Option (Confinement T L C)
  | .run t l noWait => s.run t l noWait
  | .leave t l => s.leave t l
  | .callback t l => s.callback t l
  | .onNewConnection t c ret => onNewConnection listening s t c ret
  | .onConnect t c status => onConnect home s t c status
  | .onReadClose t c => onReadClose home s t c
  | .afterWrite t c i ok locked => afterWrite home s t c i ok locked
  | .setConnection task c => some {s with bound := Function.update s.bound task (some c)}
  | .sendMsg t c task => some ((s.pushbackQue c task).enter t [.launch c])
  | .sendReq t c task => some ((s.pushbackQue c task).enter t [.runInLoopEn (.realSend c)])
  | .invokeSend t c => some (s.enter t [.runInLoop (.realSend c)])
  | .closeSafe t c => some (s.enter t [.closeSafe c])
  | .close t c => close home s t c
  | .connect t c => connect home s t c
  | .addToWorkQueue t task => addToWorkQueue home s t task
  | .start t l => some (s.enter t [.runInLoop (.initWorkerPool l)])
  | .stop t l => some (s.stop t l)
  | .onAfterClose t l => s.onAfterClose t l
  | .next t accepted => next home s t accepted

def init : Confinement T L C where
  runner _ := none
  noWait _ := false
  status _ := .notRun
  loopThreadId _ := none
  inited _ := false
  asyncClosing _ := false
  cbQue _ := []
  sendQue _ := []
  inFlight _ := []
  isClosing _ := false
  bound _ := none
  todo _ := []
  log := []

/-- Every call of libuv has been made by the thread that runs the loop, if one runs it. -/
def Confined (s : Confinement T L C) : Prop := ∀ e ∈ s.log, e.runner = none ∨ e.runner = some e.thread

/-- The loop does not run, or the thread runs it. -/
def Own (s : Confinement T L C) (t : T) (l : L) : Prop := s.runner l = none ∨ s.runner l = some t

instance ownDecidable (s : Confinement T L C) (t : T) (l : L) : Decidable (s.Own t l) :=
  inferInstanceAs (Decidable (_ ∨ _))

/-- The loop on which a thread is about to call libuv, with no check left to make. -/
def Todo.loop? (home : C → L) : Todo L C → Option L
  | .run f => some (f.loop home)
  | .batch c _ _ => some (home c)
  | .call _ c => some (home c)
  | .loopCall _ l => some l
  | _ => none

/-- A connection is accepted and a task is handed to the workers on the thread of the
connection's loop; a completed write has a task of a connection of the same loop; and a
loop is not started while another thread is calling libuv on it. -/
def Kept (home : C → L) (s : Confinement T L C) : Action T L C → Prop
  | .onNewConnection t c _ => s.Own t (home c)
  | .addToWorkQueue t task => ∀ c ∈ s.bound task, s.Own t (home c)
  | .afterWrite t c i _ locked => locked → ∀ conn ∈ (s.inFlight c)[i]?.bind s.bound, s.Own t (home conn)
  | .run t l _ => ∀ u, u ≠ t → ∀ x ∈ s.todo u, x.loop? home ≠ some l
  | _ => True

instance keptDecidable [Fintype T] (home : C → L) (s : Confinement T L C) :
    (a : Action T L C) → Decidable (Kept home s a)
  | .onNewConnection t c _ => inferInstanceAs (Decidable (s.Own t (home c)))
  | .addToWorkQueue t task => inferInstanceAs (Decidable (∀ c ∈ s.bound task, s.Own t (home c)))
  | .afterWrite t c i _ locked =>
    inferInstanceAs (Decidable (locked → ∀ conn ∈ (s.inFlight c)[i]?.bind s.bound, s.Own t (home conn)))
  | .run t l _ => inferInstanceAs (Decidable (∀ u, u ≠ t → ∀ x ∈ s.todo u, x.loop? home ≠ some l))
  | .leave _ _ | .callback _ _ | .onConnect _ _ _ | .onReadClose _ _ | .setConnection _ _ | .sendMsg _ _ _
  | .sendReq _ _ _ | .invokeSend _ _ | .closeSafe _ _ | .close _ _ | .connect _ _ | .start _ _ | .stop _ _
  | .onAfterClose _ _ | .next _ _ => isTrue trivial

variable {s s' : Confinement T L C} {home : C → L} {listening : L} {t : T} {c : C} {l : L}

structure Inv (home : C → L) (s : Confinement T L C) : Prop where
  running : ∀ l t, s.runner l = some t → s.status l = .running ∧ s.loopThreadId l = some t
  runner : ∀ l, s.status l = .running → s.runner l ≠ none
  cbQue : ∀ l, ∀ f ∈ s.cbQue l, f.loop home = l
  todo : ∀ t, ∀ x ∈ s.todo t, ∀ l ∈ x.loop? home, s.Own t l
  confined : Confined s

omit [DecidableEq L] [DecidableEq C] in
theorem Inv.own_of_thread (inv : Inv home s) (thread : s.isRunInLoopThread t l) : s.Own t l := by
  simp only [isRunInLoopThread,decide_eq_true_eq] at thread
  obtain ⟨running,here⟩ := thread
  obtain ⟨u,runs⟩ := Option.ne_none_iff_exists'.mp (inv.runner l running)
  have same := (inv.running l u runs).2
  rw [here] at same
  cases same
  exact .inr runs

omit [DecidableEq T] [DecidableEq L] [DecidableEq C] in
theorem Inv.own_of_stoped (inv : Inv home s) (stoped : s.isStoped l) : s.Own t l := by
  simp only [isStoped,decide_eq_true_eq] at stoped
  left
  by_contra some_runner
  obtain ⟨u,runs⟩ := Option.ne_none_iff_exists'.mp some_runner
  have running := (inv.running l u runs).1
  rw [stoped] at running
  cases running

omit [DecidableEq L] [DecidableEq C] in
/-- A step of a thread that changes no loop. -/
theorem Inv.turn (inv : Inv home s) (t : T) (runner : s'.runner = s.runner) (status : s'.status = s.status)
    (loopThreadId : s'.loopThreadId = s.loopThreadId) (cbQue : ∀ l, ∀ f ∈ s'.cbQue l, f.loop home = l)
    (others : ∀ u, u ≠ t → s'.todo u = s.todo u)
    (mine : ∀ x ∈ s'.todo t, x ∈ s.todo t ∨ ∀ l ∈ x.loop? home, s.Own t l) (confined : Confined s') : Inv home s' := by
  have own : ∀ {u l}, s.Own u l → s'.Own u l := by
    intro u l own
    rw [Own,runner]
    exact own
  refine ⟨?_,?_,cbQue,fun u x member l on => ?_,confined⟩
  · rw [runner,status,loopThreadId]
    exact inv.running
  · rw [runner,status]
    exact inv.runner
  · by_cases here : u = t
    · subst here
      rcases mine x member with old | allowed
      · exact own (inv.todo u x old l on)
      · exact own (allowed l on)
    · rw [others u here] at member
      exact own (inv.todo u x member l on)

omit [DecidableEq T] [DecidableEq L] [DecidableEq C] in
theorem libuv_confined (fn : Fn) (confined : Confined s) (own : s.Own t l) : Confined (s.libuv t l fn) := by
  intro e member
  rcases List.mem_append.mp member with old | new
  · exact confined e old
  · cases List.mem_singleton.mp new
    exact own

omit [DecidableEq L] [DecidableEq C] in
theorem enter_inv {todo : List (Todo L C)} (inv : Inv home s) (own : ∀ x ∈ todo, ∀ l ∈ x.loop? home, s.Own t l) :
    Inv home (s.enter t todo) := by
  refine inv.turn t rfl rfl rfl inv.cbQue (by simp_all [enter]) (fun x member => ?_) inv.confined
  simp only [enter,setTodo_todo,Function.update_self,List.mem_append] at member
  rcases member with new | old
  · exact .inr (own x new)
  · exact .inl old

omit [DecidableEq L] [DecidableEq C] in
theorem loopCalls_inv {todo : List (Todo L C)} (inv : Inv home s)
    (own : s.Own t l → ∀ x ∈ todo, ∀ k ∈ x.loop? home, s.Own t k) (h : s.loopCalls t l todo = some s') :
    Inv home s' := by
  simp only [loopCalls,Option.ite_none_right_eq_some] at h
  obtain ⟨⟨runs,_⟩,⟨⟩⟩ := h
  refine inv.turn t rfl rfl rfl inv.cbQue (by simp_all) (fun x member => ?_) inv.confined
  simp only [setTodo_todo,Function.update_self] at member
  exact .inr (own (.inr runs) x member)

omit [DecidableEq T] [DecidableEq C] in
theorem enqueue_cbQue {f : Closure L C} (inv : Inv home s) (l : L) :
    ∀ g ∈ Function.update s.cbQue (f.loop home) (s.cbQue (f.loop home) ++ [f]) l, g.loop home = l := by
  intro g member
  by_cases here : l = f.loop home
  · subst here
    rw [Function.update_self] at member
    rcases List.mem_append.mp member with old | new
    · exact inv.cbQue _ g old
    · rw [List.mem_singleton.mp new]
  · rw [Function.update_of_ne here] at member
    exact inv.cbQue l g member

omit [DecidableEq L] [DecidableEq C] in
theorem Inv.goOn {x : Todo L C} {rest : List (Todo L C)} (inv : Inv home s) (todo : s.todo t = x :: rest)
    (instead : List (Todo L C)) (own : ∀ y ∈ instead, ∀ l ∈ y.loop? home, s.Own t l) (runner : s'.runner = s.runner)
    (status : s'.status = s.status) (loopThreadId : s'.loopThreadId = s.loopThreadId)
    (cbQue : ∀ l, ∀ f ∈ s'.cbQue l, f.loop home = l) (todo' : s'.todo = Function.update s.todo t (instead ++ rest))
    (confined : Confined s') : Inv home s' := by
  refine inv.turn t runner status loopThreadId cbQue (fun u apart => ?_) (fun y member => ?_) confined
  · rw [todo',Function.update_of_ne apart]
  · rw [todo',Function.update_self] at member
    rcases List.mem_append.mp member with new | old
    · exact .inr (own y new)
    · exact .inl (by rw [todo]; exact List.mem_cons_of_mem _ old)

section
omit [DecidableEq T] [DecidableEq L] [DecidableEq C]

theorem own_calls {fns : List Fn} (own : s.Own t (home c)) :
    ∀ x ∈ (calls c fns : List (Todo L C)), ∀ l ∈ x.loop? home, s.Own t l := by
  intro x member
  obtain ⟨fn,_,rfl⟩ := List.mem_map.mp member
  rintro l ⟨⟩
  exact own

theorem own_one {x : Todo L C} (own : ∀ l ∈ x.loop? home, s.Own t l) : ∀ y ∈ [x], ∀ l ∈ y.loop? home, s.Own t l := by
  intro y member
  rw [List.mem_singleton.mp member]
  exact own

/-- A closure is run in place or queued. -/
theorem own_checked {f : Closure L C} {b : Bool} (own : b → s.Own t (f.loop home)) :
    ∀ y ∈ [if b then Todo.run f else .runInLoopEn f], ∀ l ∈ y.loop? home, s.Own t l := by
  apply own_one
  cases b with
  | false => rintro l ⟨⟩
  | true =>
    rintro l ⟨⟩
    exact own rfl

end

theorem next_inv {accepted : Bool} (inv : Inv home s) (h : next home s t accepted = some s') : Inv home s' := by
  cases todo : s.todo t with
  | nil => simp [next,todo] at h
  | cons x rest =>
    have own : ∀ l ∈ x.loop? home, s.Own t l := inv.todo t x (by rw [todo]; exact List.mem_cons_self)
    simp only [next,todo] at h
    cases x with
    | launch c =>
      cases h
      exact inv.goOn todo _ (own_checked (f := .realSend c) inv.own_of_thread) rfl rfl rfl inv.cbQue rfl inv.confined
    | closeSafe c =>
      cases h
      exact inv.goOn todo _ (own_checked (f := .close c) inv.own_of_thread) rfl rfl rfl inv.cbQue rfl inv.confined
    | runInLoop f =>
      cases h
      refine inv.goOn todo _ (own_checked fun direct => ?_) rfl rfl rfl inv.cbQue rfl inv.confined
      rcases Bool.or_eq_true _ _ ▸ direct with thread | stoped
      · exact inv.own_of_thread thread
      · exact inv.own_of_stoped stoped
    | runInLoopEn f =>
      cases h
      exact inv.goOn todo [] (by simp) rfl rfl rfl (enqueue_cbQue inv) rfl inv.confined
    | run f =>
      cases f with
      | realSend c =>
        cases h
        exact inv.goOn todo [.batch c (s.sendQue c) false] (own_one own) rfl rfl rfl inv.cbQue rfl inv.confined
      | close c =>
        have confined := libuv_confined .isClosing inv.confined (own (home c) rfl)
        simp only [Option.some.injEq] at h
        split at h
        · cases h
          exact inv.goOn todo [] (by simp) rfl rfl rfl inv.cbQue rfl confined
        · cases h
          exact inv.goOn todo [.call .close c] (own_one own) rfl rfl rfl inv.cbQue rfl confined
      | startRead c ret =>
        cases h
        exact inv.goOn todo [.call (if ret = 0 then .readStart else .close) c] (own_one own) rfl rfl rfl inv.cbQue rfl
          inv.confined
      | initWorkerPool l =>
        cases h
        exact inv.goOn todo [.loopCall .queueWork l] (own_one own) rfl rfl rfl inv.cbQue rfl inv.confined
      | stop l =>
        have confined := libuv_confined .isClosing inv.confined (own l rfl)
        simp only [Option.some.injEq] at h
        split at h
        · cases h
          exact inv.goOn todo [] (by simp) rfl rfl rfl inv.cbQue rfl confined
        · cases h
          exact inv.goOn todo [.loopCall .close l] (own_one own) rfl rfl rfl inv.cbQue rfl confined
    | batch c tempQue bError =>
      have here := own (home c) rfl
      cases tempQue with
      | nil =>
        cases h
        exact inv.goOn todo [] (by simp) rfl rfl rfl inv.cbQue rfl inv.confined
      | cons task tasks =>
        cases bError with
        | true =>
          cases h
          exact inv.goOn todo [.batch c tasks true] (own_one own) rfl rfl rfl inv.cbQue rfl inv.confined
        | false =>
          have confined := libuv_confined .write inv.confined here
          simp only at h
          split at h
          · cases h
            exact inv.goOn todo [.batch c tasks false] (own_one own) rfl rfl rfl inv.cbQue rfl confined
          · cases h
            refine inv.goOn todo [.run (.close c),.batch c tasks true] ?_ rfl rfl rfl inv.cbQue rfl confined
            intro y member
            rcases List.mem_cons.mp member with rfl | last
            · exact own
            · rw [List.mem_singleton.mp last]
              exact own
    | call fn c =>
      have confined := libuv_confined fn inv.confined (own (home c) rfl)
      simp only at h
      split at h
      · cases h
        exact inv.goOn todo [] (by simp) rfl rfl rfl inv.cbQue rfl confined
      · cases h
        exact inv.goOn todo [] (by simp) rfl rfl rfl inv.cbQue rfl confined
    | loopCall fn l =>
      have confined := libuv_confined fn inv.confined (own l rfl)
      simp only at h
      split at h
      · cases h
        exact inv.goOn todo [] (by simp) rfl rfl rfl inv.cbQue rfl confined
      · cases h
        exact inv.goOn todo [] (by simp) rfl rfl rfl inv.cbQue rfl confined

omit [DecidableEq T] [DecidableEq C] in
theorem initAsync_todo (s : Confinement T L C) (t : T) (l : L) : (s.initAsync t l).todo = s.todo := by
  unfold initAsync
  split <;> rfl

omit [DecidableEq T] [DecidableEq C] in
theorem initAsync_inv (inv : Inv home s) (nobody : s.runner l = none) : Inv home (s.initAsync t l) := by
  unfold initAsync
  split
  · exact inv
  · exact ⟨inv.running,inv.runner,inv.cbQue,inv.todo,libuv_confined .asyncInit inv.confined (.inl nobody)⟩

omit [DecidableEq C] in
theorem run_inv {noWait : Bool} (inv : Inv home s) (guard : ∀ u, u ≠ t → ∀ x ∈ s.todo u, x.loop? home ≠ some l)
    (h : s.run t l noWait = some s') : Inv home s' := by
  simp only [run,Option.ite_none_right_eq_some] at h
  obtain ⟨⟨nobody,_⟩,⟨⟩⟩ := h
  replace inv := initAsync_inv (t := t) inv nobody
  rw [← initAsync_todo] at guard
  refine ⟨fun k u runs => ?_,fun k running => ?_,inv.cbQue,fun u x member k on => ?_,inv.confined⟩
  · by_cases here : k = l
    · subst here
      simpa using runs
    · simpa [here] using inv.running k u (by simpa [here] using runs)
  · by_cases here : k = l
    · subst here
      simp
    · simpa [here] using inv.runner k (by simpa [here] using running)
  · by_cases here : k = l
    · subst here
      have same : u = t := by
        by_contra apart
        exact guard u apart x member on
      subst same
      exact .inr (by simp)
    · have own := inv.todo u x member k on
      simpa [Own,here] using own

omit [DecidableEq C] in
theorem leave_inv (inv : Inv home s) (h : s.leave t l = some s') : Inv home s' := by
  simp only [leave,Option.ite_none_right_eq_some] at h
  obtain ⟨_,⟨⟩⟩ := h
  refine ⟨fun k u runs => ?_,fun k running => ?_,inv.cbQue,fun u x member k on => ?_,inv.confined⟩
  · by_cases here : k = l
    · subst here
      simp at runs
    · simpa [here] using inv.running k u (by simpa [here] using runs)
  · by_cases here : k = l
    · subst here
      simp only [Function.update_self] at running
      split at running <;> cases running
    · simpa [here] using inv.runner k (by simpa [here] using running)
  · by_cases here : k = l
    · subst here
      exact .inl (by simp)
    · have own := inv.todo u x member k on
      simpa [Own,here] using own

omit [DecidableEq L] [DecidableEq C] in
theorem own_of_allowed (may : allowed home s t c) : s.Own t (home c) := by
  simp only [allowed,decide_eq_true_eq] at may
  rcases may with here | ⟨nobody,_⟩
  · exact .inr here
  · exact .inl nobody

omit [DecidableEq C] in
theorem callback_inv (inv : Inv home s) (h : s.callback t l = some s') : Inv home s' := by
  simp only [callback] at h
  split at h
  · cases h
  · rename_i f rest queued
    have home_f : f.loop home = l := inv.cbQue l f (by rw [queued]; exact List.mem_cons_self)
    have taken : Inv home {s with cbQue := Function.update s.cbQue l rest} := by
      refine ⟨inv.running,inv.runner,fun k g member => ?_,inv.todo,inv.confined⟩
      by_cases here : k = l
      · subst here
        apply inv.cbQue k g
        rw [queued]
        exact List.mem_cons_of_mem _ (by simpa using member)
      · exact inv.cbQue k g (by simpa [here] using member)
    refine loopCalls_inv taken (fun own => own_one ?_) h
    rintro k ⟨⟩
    rw [home_f]
    exact own

omit [DecidableEq T] [DecidableEq L] in
theorem pushbackQue_inv {task : Nat} (inv : Inv home s) : Inv home (s.pushbackQue c task) :=
  ⟨inv.running,inv.runner,inv.cbQue,inv.todo,inv.confined⟩

omit [DecidableEq L] in
theorem afterWrite_inv {i : Nat} {ok locked : Bool} (inv : Inv home s)
    (guard : locked → ∀ conn ∈ (s.inFlight c)[i]?.bind s.bound, s.Own t (home conn))
    (h : afterWrite home s t c i ok locked = some s') : Inv home s' := by
  simp only [afterWrite] at h
  split at h
  · cases h
  · rename_i task found
    have taken : Inv home {s with inFlight := Function.update s.inFlight c ((s.inFlight c).eraseIdx i)} :=
      ⟨inv.running,inv.runner,inv.cbQue,inv.todo,inv.confined⟩
    split at h
    · exact loopCalls_inv taken (by simp) h
    · rename_i conn target
      obtain ⟨bound,locked⟩ := Option.filter_eq_some_iff.mp target
      have own := guard locked conn (by rw [found]; exact bound)
      split at h
      · exact loopCalls_inv taken (fun _ => own_one (by rintro l ⟨⟩; exact own)) h
      · exact loopCalls_inv (pushbackQue_inv taken) (fun _ => own_one (by rintro l ⟨⟩; exact own)) h

theorem step_inv {a : Action T L C} (inv : Inv home s) (guard : Kept home s a) (h : step home listening s a = some s') :
    Inv home s' := by
  cases a with
  | run t l noWait => exact run_inv inv guard h
  | leave t l => exact leave_inv inv h
  | callback t l => exact callback_inv inv h
  | onNewConnection t c ret =>
    refine loopCalls_inv inv (fun _ x member => ?_) h
    rcases List.mem_append.mp member with calls | last
    · exact own_calls guard x calls
    · cases List.mem_singleton.mp last
      rintro l ⟨⟩
  | onConnect t c status =>
    simp only [step,onConnect] at h
    split at h
    · exact loopCalls_inv inv (by simp) h
    · exact loopCalls_inv inv own_calls h
  | onReadClose t c => exact loopCalls_inv inv (fun own => own_one (by rintro l ⟨⟩; exact own)) h
  | afterWrite t c i ok locked => exact afterWrite_inv inv guard h
  | setConnection task c =>
    cases h
    exact ⟨inv.running,inv.runner,inv.cbQue,inv.todo,inv.confined⟩
  | sendMsg t c task =>
    cases h
    exact enter_inv (pushbackQue_inv inv) (own_one (by rintro l ⟨⟩))
  | sendReq t c task =>
    cases h
    exact enter_inv (pushbackQue_inv inv) (own_one (by rintro l ⟨⟩))
  | invokeSend t c =>
    cases h
    exact enter_inv inv (own_one (by rintro l ⟨⟩))
  | closeSafe t c =>
    cases h
    exact enter_inv inv (own_one (by rintro l ⟨⟩))
  | close t c =>
    simp only [step,close,Option.ite_none_right_eq_some] at h
    obtain ⟨may,⟨⟩⟩ := h
    have own := own_of_allowed may
    have asked := libuv_confined .isClosing inv.confined own
    unfold closeNow
    simp only
    split
    · exact ⟨inv.running,inv.runner,inv.cbQue,inv.todo,asked⟩
    · exact ⟨inv.running,inv.runner,inv.cbQue,inv.todo,libuv_confined .close asked own⟩
  | connect t c =>
    simp only [step,connect,Option.ite_none_right_eq_some] at h
    obtain ⟨may,⟨⟩⟩ := h
    have own := own_of_allowed may
    have confined := libuv_confined .tcpConnect (libuv_confined .tcpInit inv.confined own) own
    exact ⟨inv.running,inv.runner,inv.cbQue,inv.todo,confined⟩
  | addToWorkQueue t task =>
    obtain ⟨c,bound,rfl⟩ := Option.map_eq_some_iff.mp h
    exact enter_inv inv (own_one (by rintro l ⟨⟩; exact guard c bound))
  | start t l =>
    cases h
    exact enter_inv inv (own_one (by rintro l ⟨⟩))
  | stop t l =>
    cases h
    unfold stop
    split
    · exact enter_inv inv (own_one (by rintro l ⟨⟩))
    · exact inv
  | onAfterClose t l =>
    simp only [step,onAfterClose] at h
    split at h
    · have closed : Inv home {s with inited := Function.update s.inited l false} :=
        ⟨inv.running,inv.runner,inv.cbQue,inv.todo,inv.confined⟩
      exact loopCalls_inv closed (fun own => own_one (by rintro l ⟨⟩; exact own)) h
    · cases h
  | next t accepted => exact next_inv inv h

omit [DecidableEq T] [DecidableEq L] [DecidableEq C] in
theorem init_inv : Inv home (init : Confinement T L C) := by
  refine ⟨?_,?_,?_,?_,?_⟩
  · rintro l t ⟨⟩
  · rintro l ⟨⟩
  · rintro l f ⟨⟩
  · rintro t x ⟨⟩
  · rintro e ⟨⟩

/-- The library stays on the threads of its loops as long as these steps do. -/
theorem confined (home : C → L) (listening : L) (actions : List (Action T L C))
    (kept : Transition.Meets (step home listening) (Kept home) init actions) :
    Transition.Along (step home listening) Confined init actions :=
  Transition.along_of_meets (I := Inv home) (fun _ inv => inv.confined) (fun _ _ _ inv guard h => step_inv inv guard h)
    init_inv kept

def accepting : List (Action Bool Bool Unit) :=
  [.run false false false,.onNewConnection false () 0,.next false true,.next false true,.next false true,
    .next false true,.next false true,.next false true]

/-- Only then thread 1 runs the connection's loop. The connection reads, writes a message of
thread 0, hands a task to the workers and is closed by thread 0, which stops the loop at last. -/
def serving : List (Action Bool Bool Unit) :=
  [.run true true false,.callback true true,.next true true,.next true true,
    .setConnection 7 (),.sendMsg false () 7,.next false true,.next false true,.callback true true,.next true true,
    .next true true,.next true true,.afterWrite true () 0 true true,.addToWorkQueue true 7,.next true true,
    .next true true,.next true true,.closeSafe false (),.next false true,.next false true,.callback true true,
    .next true true,.next true true,.stop false true,.next false true,.next false true,.callback true true,
    .next true true,.next true true,.onAfterClose true true,.next true true,.leave true true]

def acceptedBefore : List (Action Bool Bool Unit) := accepting ++ serving

theorem confined_accepted_before :
    ((Transition.run (step (fun _ => true) false) init acceptedBefore).map fun s => s.log.map Entry.fn) =
        some [.asyncInit,.tcpInit,.accept,.getpeername,.sendBufferSize,.recvBufferSize,.asyncInit,.readStart,.write,
          .queueWork,.isClosing,.close,.isClosing,.close,.stop] ∧
      Transition.Along (step (fun _ => true) false) Confined init acceptedBefore :=
  ⟨by decide +kernel,confined _ _ acceptedBefore (by decide +kernel)⟩

/-- The server as it is started: thread 1 runs the loop of the connection when thread 0, that
listens, accepts it. -/
def accepted : List (Action Bool Bool Unit) :=
  [.run true true false,.run false false false,.onNewConnection false () 0,.next false true]

theorem accepted_elsewhere : ∃ s, Transition.run (step (fun _ => true) false) init accepted = some s ∧
    ⟨false,true,.tcpInit,some true⟩ ∈ s.log ∧ ¬ Confined s := by
  have logged : ((Transition.run (step (fun _ => true) false) init accepted).map fun s => s.log) =
      some [⟨true,true,.asyncInit,none⟩,⟨false,false,.asyncInit,none⟩,⟨false,true,.tcpInit,some true⟩] := by
    decide +kernel
  obtain ⟨s,run,log⟩ := Option.map_eq_some_iff.mp logged
  have member : ⟨false,true,.tcpInit,some true⟩ ∈ s.log := by simp [log]
  refine ⟨s,run,member,fun confined => ?_⟩
  rcases confined _ member with nobody | same
  · cases nobody
  · cases same

end Confinement
end UvRpc
