import UvRpc.WritePath

/-! Who drains sendQue. Every sendMsg and invokeSend ends in a realSend, which takes the
whole queue, and a successful afterWrite runs one more. A failed write and a refused one
are pushed back, and nothing is scheduled for them. -/

namespace UvRpc

namespace Drain

/-- Beside the write path there are sendMsg with a request of the caller's, and invokeSend. -/
inductive Action (T C : Type*) where
  | path (a : WritePath.Action T C)
  | sendReq (t : T) (c : C) (req : Nat)
  | invokeSend (t : T) (c : C) (isStoped : Bool)
  deriving DecidableEq, Repr

end Drain

/-- `enqueues` marks the threads in a sendMsg(req): after its push such a thread is where
one in sendMsg(task) is then, but it queues the realSend whatever thread it is. -/
structure Drain (T C : Type*) where
  path : WritePath T C
  enqueues : T → Bool

namespace WritePath

variable {T C : Type*} [DecidableEq T] [DecidableEq C]

/-- The thread will run realSend on `c`, queue one, or close `c`. -/
def Thread.draining (th : Thread C) (c : C) : Bool :=
  (match th.doing with
    | .sending d _ _ => d = c
    | _ => false) || th.completion.any fun k => k.target = some c ∧ k.stage ≠ .sent

/-- Something will still drain the queue of `c`: one of these writes, a queued realSend or
a thread. -/
def Draining (s : WritePath T C) (c : C) (inFlight : List Write) : Prop :=
  inFlight ≠ [] ∨ 0 < (s.conns c).queuedSends ∨ ∃ t, (s.threads t).draining c

instance drainingDecidable [Fintype T] (s : WritePath T C) (c : C) (inFlight : List Write) :
    Decidable (s.Draining c inFlight) :=
  inferInstanceAs (Decidable (_ ∨ _ ∨ ∃ _, _))

omit [DecidableEq T] in
theorem Draining.mono {s s' : WritePath T C} {c : C} {before after : List Write} (draining : s.Draining c before)
    (inFlight : before ≠ [] → after ≠ []) (queued : (s.conns c).queuedSends ≤ (s'.conns c).queuedSends)
    (threads : ∀ u, (s.threads u).draining c → (s'.threads u).draining c) : s'.Draining c after := by
  rcases draining with flying | waiting | ⟨u,busy⟩
  · exact .inl (inFlight flying)
  · exact .inr (.inl (Nat.lt_of_lt_of_le waiting queued))
  · exact .inr (.inr ⟨u,threads u busy⟩)

/-- The connection to which a failed realSend will push back the next request. -/
def Doing.pushesBack : Doing C → Option C
  | .batch c (_ :: _) true => some c
  | _ => none

def queueSend (s : WritePath T C) (c : C) : WritePath T C :=
  s.setConn c {s.conns c with queuedSends := (s.conns c).queuedSends + 1}

end WritePath

namespace Drain

open WritePath

variable {T C : Type*} [DecidableEq T] [DecidableEq C]

def setPath (s : Drain T C) (path : WritePath T C) : Drain T C := {s with path := path}

def sendReq (s : Drain T C) (t : T) (c : C) (req : Nat) : Option (Drain T C) :=
  let th := s.path.threads t
  if th.free ∧ (s.path.conns c).alive then
    some {s with
      path := (s.path.pushbackQue c req).setThread t {th with doing := .sending c 0 .pushed}
      enqueues := Function.update s.enqueues t true}
  else none

def launch (loopOf : C → T) (s : Drain T C) (t : T) : Option (Drain T C) :=
  if s.enqueues t then
    match (s.path.threads t).doing with
    | .sending c _ .pushed =>
      some {s with
        path := (s.path.queueSend c).setThread t {s.path.threads t with doing := .nothing}
        enqueues := Function.update s.enqueues t false}
    | _ => none
  else (WritePath.launch loopOf s.path t).map s.setPath

/-- invokeSend goes through runInLoop, which runs its closure in place on the loop's thread
and on any thread after the loop has stopped. -/
def invokeSend (loopOf : C → T) (s : Drain T C) (t : T) (c : C) (isStoped : Bool) : Option (Drain T C) :=
  let th := s.path.threads t
  if th.free ∧ (s.path.conns c).alive ∧ (isStoped → ¬ s.path.running (loopOf c)) then
    if (s.path.running t ∧ loopOf c = t) ∨ isStoped then some (s.setPath (s.path.swapQue t th c))
    else some (s.setPath (s.path.queueSend c))
  else none

/-- onConnect is a callback of the loop. -/
def step [Fintype T] (loopOf : C → T) (s : Drain T C) : Action T C → Option (Drain T C)
  | .path (.launch t) => launch loopOf s t
  | .path (.call c (.onConnect status)) =>
    if (s.path.threads (loopOf c)).idle then (s.path.call c (.onConnect status)).map s.setPath else none
  | .path a => (s.path.step loopOf a).map s.setPath
  | .sendReq t c req => s.sendReq t c req
  | .invokeSend t c isStoped => invokeSend loopOf s t c isStoped

def init (vecs : Nat → CharVector) (bufs : C → CharVector) : Drain T C := ⟨.init vecs bufs,fun _ => false⟩

/-- Nobody sends on `c`. A write is in flight until its afterWrite is over. -/
structure Quiescent (s : Drain T C) (c : C) : Prop where
  inFlight : (s.path.conns c).inFlight = []
  threads : ∀ t, (s.path.threads t).holds c = false
  queuedSends : (s.path.conns c).queuedSends = 0

/-- A connected client on which nobody sends has nothing to send. -/
def NoneStranded (s : Drain T C) : Prop :=
  ∀ c, (s.path.conns c).tcp.bClient → (s.path.conns c).tcp.bConnected → Quiescent s c →
    (s.path.conns c).tcp.sendQue = []

/-- A connection is established while its queue is empty or being drained. A write that
completes is its connection's own, or others drain the queue. And a realSend that has
failed does not push back to a connection that is up again, unless something drains it. -/
def Drained (s : Drain T C) : Action T C → Prop
  | .path (.call c (.onConnect status)) =>
    0 ≤ status → (s.path.conns c).tcp.sendQue ≠ [] → s.path.Draining c (s.path.conns c).inFlight
  | .path (.afterWrite c i _) =>
    (s.path.conns c).tcp.bConnected → (s.path.conns c).tcp.sendQue ≠ [] →
      (∀ w ∈ (s.path.conns c).inFlight[i]?, s.path.getConnection w.req = some c) ∨
        s.path.Draining c ((s.path.conns c).inFlight.eraseIdx i)
  | .path (.uvWrite t _) =>
    ∀ c ∈ (s.path.threads t).doing.pushesBack, (s.path.conns c).tcp.bConnected →
      s.path.Draining c (s.path.conns c).inFlight
  | _ => True

instance drainedDecidable [Fintype T] (s : Drain T C) : (a : Action T C) → Decidable (s.Drained a)
  | .path (.call _ (.onConnect _)) => inferInstanceAs (Decidable (_ → _ → _))
  | .path (.afterWrite c i _) =>
    inferInstanceAs (Decidable (_ → _ → (∀ w ∈ (s.path.conns c).inFlight[i]?, s.path.getConnection w.req = some c) ∨ _))
  | .path (.uvWrite t _) => inferInstanceAs (Decidable (∀ c ∈ (s.path.threads t).doing.pushesBack, _ → _))
  | .path (.call _ .accept) | .path (.call _ .connect) | .path (.call _ .close) | .path (.setConnection _ _)
  | .path (.loopStatus _ _) | .path (.sendMsg _ _ _) | .path (.getWriteBuffer _) | .path (.encodeTask _ _)
  | .path (.pushinQue _) | .path (.launch _) | .path (.realSend _) | .path (.endBatch _) | .path (.settle _)
  | .path (.putWriteBuffer _) | .path (.closeSafe _ _) | .path (.runClose _) | .path (.closeCb _)
  | .path (.destroy _) | .sendReq _ _ _ | .invokeSend _ _ _ => isTrue trivial

variable {p p' : WritePath T C} {loopOf : C → T} {t : T} {c : C}

structure Inv (loopOf : C → T) (p : WritePath T C) : Prop where
  covered : ∀ c, (p.conns c).tcp.bConnected → (p.conns c).tcp.sendQue ≠ [] → p.Draining c (p.conns c).inFlight
  failed : ∀ t c rest, (p.threads t).doing = .batch c rest true → loopOf c = t → (p.conns c).tcp.bConnected = false

omit [DecidableEq T] in
theorem Inv.nothing_left {s : Drain T C} (inv : Inv loopOf s.path) : NoneStranded s := by
  intro c _ connected quiescent
  by_contra some_left
  rcases inv.covered c connected some_left with flying | queued | ⟨t,draining⟩
  · exact flying quiescent.inFlight
  · rw [quiescent.queuedSends] at queued
    exact absurd queued (Nat.lt_irrefl 0)
  · have free := quiescent.threads t
    simp only [Thread.holds,Bool.or_eq_false_iff] at free
    simp only [Thread.draining,Bool.or_eq_true] at draining
    rcases draining with sending | completing
    · revert sending
      cases doing : (s.path.threads t).doing <;> simp_all
    · revert completing
      cases completion : (s.path.threads t).completion <;> simp_all

/-- A step that touches one thread and one connection, and connects none. -/
theorem Inv.near (inv : Inv loopOf p) (t : T) (c : C) (threads : ∀ u, u ≠ t → p'.threads u = p.threads u)
    (conns : ∀ d, d ≠ c → p'.conns d = p.conns d)
    (elsewhere : ∀ d, d ≠ c → (p.threads t).draining d → (p'.threads t).draining d)
    (covered : (p'.conns c).tcp.bConnected → (p'.conns c).tcp.sendQue ≠ [] → p'.Draining c (p'.conns c).inFlight)
    (connected : (p'.conns c).tcp.bConnected → (p.conns c).tcp.bConnected)
    (failed : ∀ d rest, (p'.threads t).doing = .batch d rest true → loopOf d = t →
      (p'.conns d).tcp.bConnected = false) : Inv loopOf p' := by
  refine ⟨fun d => ?_,fun u d rest batch here => ?_⟩
  · by_cases same : d = c
    · subst same
      exact covered
    · rw [conns d same]
      intro up some_left
      refine (inv.covered d up some_left).mono id (by rw [conns d same]) fun u busy => ?_
      by_cases at_t : u = t
      · subst at_t
        exact elsewhere d same busy
      · rw [threads u at_t]
        exact busy
  · by_cases at_t : u = t
    · subst at_t
      exact failed d rest batch here
    · rw [threads u at_t] at batch
      have down := inv.failed u d rest batch here
      by_cases same : d = c
      · subst same
        by_contra up
        have := connected (Bool.not_eq_false _ ▸ up)
        rw [down] at this
        cases this
      · rw [conns d same]
        exact down

theorem Inv.thread (inv : Inv loopOf p) (t : T) (threads : ∀ u, u ≠ t → p'.threads u = p.threads u)
    (conns : p'.conns = p.conns) (still : ∀ d, (p.threads t).draining d → (p'.threads t).draining d)
    (failed : ∀ d rest, (p'.threads t).doing ≠ .batch d rest true) : Inv loopOf p' := by
  refine ⟨fun d => ?_,fun u d rest batch here => ?_⟩
  · rw [conns]
    intro up some_left
    refine (inv.covered d up some_left).mono id (by rw [conns]) fun u busy => ?_
    by_cases at_t : u = t
    · subst at_t
      exact still d busy
    · rw [threads u at_t]
      exact busy
  · by_cases at_t : u = t
    · subst at_t
      exact absurd batch (failed d rest)
    · rw [threads u at_t] at batch
      rw [conns]
      exact inv.failed u d rest batch here

omit [DecidableEq T] in
theorem Inv.conn (inv : Inv loopOf p) (c : C) (threads : p'.threads = p.threads)
    (conns : ∀ d, d ≠ c → p'.conns d = p.conns d)
    (covered : (p'.conns c).tcp.bConnected → (p'.conns c).tcp.sendQue ≠ [] → p'.Draining c (p'.conns c).inFlight)
    (connected : (p'.conns c).tcp.bConnected → (p.conns c).tcp.bConnected) : Inv loopOf p' := by
  refine ⟨fun d => ?_,fun u d rest batch here => ?_⟩
  · by_cases same : d = c
    · subst same
      exact covered
    · rw [conns d same]
      intro up some_left
      exact (inv.covered d up some_left).mono id (by rw [conns d same]) fun u busy => by rw [threads]; exact busy
  · rw [threads] at batch
    have down := inv.failed u d rest batch here
    by_cases same : d = c
    · subst same
      by_contra up
      have := connected (Bool.not_eq_false _ ▸ up)
      rw [down] at this
      cases this
    · rw [conns d same]
      exact down

theorem draining_doing {th : Thread C} {doing : Doing C} {d : C} (idle : th.doing = .nothing)
    (draining : th.draining d) : ({th with doing := doing} : Thread C).draining d := by
  simp only [Thread.draining,idle,Bool.false_or] at draining
  simp only [Thread.draining,draining,Bool.or_true]

theorem swapQue_inv {th : Thread C} (inv : Inv loopOf p)
    (elsewhere : ∀ d, d ≠ c → (p.threads t).draining d → ({th with doing := .nothing} : Thread C).draining d) :
    Inv loopOf (p.swapQue t th c) := by
  refine inv.near t c (by simp_all [swapQue]) (by simp_all [swapQue]) (fun d apart busy => ?_) ?_ ?_ ?_
  · simpa [swapQue,Thread.draining] using elsewhere d apart busy
  · simp [swapQue]
  · simp [swapQue]
  · simp [swapQue]

omit [DecidableEq T] in
theorem queueSend_inv (inv : Inv loopOf p) : Inv loopOf (p.queueSend c) := by
  refine inv.conn c rfl (by simp_all [queueSend]) ?_ (by simp [queueSend])
  exact fun _ _ => .inr (.inl (by simp [queueSend]))

omit [DecidableEq T] in
theorem down_inv {k : Conn} (inv : Inv loopOf p) (down : k.tcp.bConnected = false) : Inv loopOf (p.setConn c k) :=
  inv.conn c rfl (by simp_all) (by simp [down]) (by simp [down])

theorem close_down (tcp : TcpConnection) : tcp.close.bConnected = false := by
  simp only [TcpConnection.close]
  split <;> split <;> rfl

omit [DecidableEq T] in
theorem same_inv {k : Conn} (inv : Inv loopOf p) (sendQue : k.tcp.sendQue = (p.conns c).tcp.sendQue)
    (connected : k.tcp.bConnected = (p.conns c).tcp.bConnected) (inFlight : k.inFlight = (p.conns c).inFlight)
    (queued : k.queuedSends = (p.conns c).queuedSends) : Inv loopOf (p.setConn c k) := by
  refine inv.conn c rfl (by simp_all) ?_ (by simp [connected])
  simp only [setConn_conns,Function.update_self,sendQue,connected,inFlight]
  intro up some_left
  exact (inv.covered c up some_left).mono id (by simp [queued]) fun _ busy => busy

theorem queueLaunch_inv {task : Nat} (inv : Inv loopOf p) (pushed : (p.threads t).doing = .sending c task .pushed) :
    Inv loopOf ((p.queueSend c).setThread t {p.threads t with doing := .nothing}) := by
  refine inv.near t c (by simp_all [queueSend]) (by simp_all [queueSend]) (fun d apart busy => ?_) ?_ ?_ ?_
  · simpa [Thread.draining,pushed,Ne.symm apart] using busy
  · exact fun _ _ => .inr (.inl (by simp [queueSend]))
  · simp [queueSend]
  · simp

theorem launch_inv (inv : Inv loopOf p) (h : WritePath.launch loopOf p t = some p') : Inv loopOf p' := by
  rcases launch_some h with ⟨c,task,pushed,⟨_,_,rfl⟩ | ⟨_,rfl⟩⟩
  · refine swapQue_inv inv fun d apart busy => ?_
    simpa [Thread.draining,pushed,Ne.symm apart] using busy
  · exact queueLaunch_inv inv pushed

theorem push_inv {task : Nat} {stage : Stage} (inv : Inv loopOf p) (th : Thread C) (r : Nat)
    (sending : th.doing = .sending c task stage)
    (elsewhere : ∀ d, d ≠ c → (p.threads t).draining d → th.draining d) :
    Inv loopOf ((p.pushbackQue c r).setThread t th) := by
  refine inv.near t c (by simp_all [pushbackQue]) (by simp_all [pushbackQue]) (fun d apart busy => ?_) ?_ ?_ ?_
  · simpa using elsewhere d apart busy
  · exact fun _ _ => .inr (.inr ⟨t,by simp [Thread.draining,sending]⟩)
  · simp [pushbackQue]
  · simp [sending]

theorem pushinQue_inv (inv : Inv loopOf p) (h : p.pushinQue t = some p') : Inv loopOf p' := by
  obtain ⟨c,task,r,encoded,rfl⟩ := pushinQue_some h
  have ticketed : Inv loopOf (p.ticketed r) := ⟨inv.covered,inv.failed⟩
  have pushed := push_inv (t := t) ticketed {p.threads t with doing := .sending c task .pushed} r rfl
    fun d apart busy => by simpa [Thread.draining,encoded,Ne.symm apart] using busy
  exact ⟨pushed.covered,pushed.failed⟩

theorem uvWrite_inv {accepted : Bool} (inv : Inv loopOf p)
    (guard : ∀ c r rest, (p.threads t).doing = .batch c (r :: rest) true → (p.conns c).tcp.bConnected →
      p.Draining c (p.conns c).inFlight)
    (h : p.uvWrite t accepted = some p') : Inv loopOf p' := by
  obtain ⟨c,r,rest,bError,batch,effect⟩ := uvWrite_some h
  have busy_else : ∀ d tempQue b, (p.threads t).draining d →
      ({p.threads t with doing := .batch c tempQue b} : Thread C).draining d := by
    intro d tempQue b busy
    simpa [Thread.draining,batch] using busy
  rcases effect with ⟨_,rfl⟩ | ⟨_,⟨rfl,rfl⟩ | ⟨rfl,_,_,rfl⟩ | ⟨rfl,_,rfl⟩⟩
  · exact ⟨inv.covered,inv.failed⟩
  · refine inv.near t c (by simp_all [pushbackQue]) (by simp_all [pushbackQue]) ?_ ?_ ?_ ?_
    · exact fun d _ busy => by simpa using busy_else d _ _ busy
    · intro up _
      have draining := guard c r rest batch (by simpa [pushbackQue] using up)
      refine draining.mono (by simp [pushbackQue]) (by simp [pushbackQue]) fun u busy => ?_
      by_cases at_t : u = t
      · subst at_t
        simpa using busy_else c _ _ busy
      · simpa [pushbackQue,at_t] using busy
    · simp [pushbackQue]
    · intro d rest' same here
      simp only [setThread_threads,Function.update_self] at same
      cases same
      simpa [pushbackQue] using inv.failed t c _ batch here
  · have taken : Inv loopOf ((p.accept c ⟨r,p.ticket r,p.submissions,(p.threads t).failing c⟩).setThread t
        {p.threads t with doing := .batch c rest false}) := by
      refine inv.near t c (by simp_all [accept]) (by simp_all [accept]) ?_ ?_ ?_ ?_
      · exact fun d _ busy => by simpa using busy_else d _ _ busy
      · exact fun _ _ => .inl (by simp [accept])
      · simp [accept]
      · simp
    exact ⟨taken.covered,taken.failed⟩
  · have refused : Inv loopOf ((p.refuse c r).setThread t {p.threads t with doing := .batch c rest true}) := by
      refine inv.near t c (by simp_all [refuse,pushbackQue]) (by simp_all [refuse,pushbackQue]) ?_ ?_ ?_ ?_
      · exact fun d _ busy => by simpa using busy_else d _ _ busy
      · simp [refuse,close_down]
      · simp [refuse,close_down]
      · intro d rest' same here
        simp only [setThread_threads,Function.update_self] at same
        cases same
        simp [refuse,close_down]
    exact ⟨refused.covered,refused.failed⟩

theorem afterWrite_inv {i : Nat} {ok : Bool} (inv : Inv loopOf p)
    (guard : (p.conns c).tcp.bConnected → (p.conns c).tcp.sendQue ≠ [] →
      (∀ w ∈ (p.conns c).inFlight[i]?, p.getConnection w.req = some c) ∨
        p.Draining c ((p.conns c).inFlight.eraseIdx i))
    (h : WritePath.afterWrite loopOf p c i ok = some p') : Inv loopOf p' := by
  obtain ⟨idle,w,found,rfl⟩ := afterWrite_some h
  obtain ⟨nothing,none_below⟩ := Thread.idle_spec idle
  have free : ∀ d, ¬ (p.threads (loopOf c)).draining d := by simp [Thread.draining,nothing,none_below]
  have completed : Inv loopOf ((p.setConn c ((p.conns c).complete i w ok)).setThread (loopOf c)
      {p.threads (loopOf c) with completion := some ⟨c,w,p.getConnection w.req,.callback ok⟩}) := by
    refine inv.near (loopOf c) c (by simp_all) (by simp_all) (fun d _ busy => absurd busy (free d)) ?_
      (by simp [Conn.complete]) (by simp [nothing])
    simp only [setThread_conns,setConn_conns,Function.update_self]
    intro up some_left
    rcases guard up some_left with own | draining
    · refine .inr (.inr ⟨loopOf c,?_⟩)
      simp [Thread.draining,own w found]
    · refine draining.mono (by cases ok <;> simp [Conn.complete]) (by simp [Conn.complete]) fun u busy => ?_
      have apart : u ≠ loopOf c := by
        rintro rfl
        exact free c busy
      simpa [apart] using busy
  exact ⟨completed.covered,completed.failed⟩

theorem settle_inv (inv : Inv loopOf p) (h : p.settle t = some p') : Inv loopOf p' := by
  obtain ⟨c,w,target,ok,completion,free,effect⟩ := settle_some h
  have nothing := Thread.free_doing free
  have only : ∀ d, (p.threads t).draining d → target = some d := by
    intro d busy
    simpa [Thread.draining,nothing,completion] using busy
  rcases effect with ⟨rfl,rfl⟩ | ⟨d,rfl,rfl,rfl⟩ | ⟨d,rfl,rfl,rfl⟩
  · have left : Inv loopOf ((p.setPool (p.pool.putWriteBuffer w.req)).setThread t
        {p.threads t with completion := none}) :=
      inv.thread t (by simp_all) rfl (fun d busy => by cases only d busy) (by simp [nothing])
    exact ⟨left.covered,left.failed⟩
  · have counted := same_inv (c := d) (k := {p.conns d with
      tcp := {(p.conns d).tcp with sentCount := (p.conns d).tcp.sentCount + 1}}) inv rfl rfl rfl rfl
    refine swapQue_inv counted fun e apart busy => ?_
    cases only e busy
    exact absurd rfl apart
  · refine inv.near t d (by simp_all [refuse,pushbackQue]) (by simp_all [refuse,pushbackQue]) (fun e apart busy => ?_)
      (by simp [refuse,close_down]) (by simp [refuse,close_down]) (by simp [nothing])
    cases only e busy
    exact absurd rfl apart

omit [DecidableEq T] in
/-- onConnect comes while the loop runs nothing else, so that none of its realSend has failed. -/
theorem connect_inv {tcp : TcpConnection} (inv : Inv loopOf p) (idle : (p.threads (loopOf c)).idle)
    (sendQue : tcp.sendQue = (p.conns c).tcp.sendQue)
    (guard : (p.conns c).tcp.sendQue ≠ [] → p.Draining c (p.conns c).inFlight) : Inv loopOf (p.setTcp c tcp) := by
  refine ⟨fun d => ?_,fun u d rest batch here => ?_⟩
  · by_cases same : d = c
    · subst same
      simp only [setTcp_conns,Function.update_self,sendQue]
      exact fun _ some_left => (guard some_left).mono id (by simp) fun _ busy => busy
    · simp only [setTcp_conns,Function.update_of_ne same]
      intro up some_left
      exact (inv.covered d up some_left).mono id (by simp [same]) fun _ busy => busy
  · have apart : d ≠ c := by
      rintro rfl
      have nothing := (Thread.idle_spec idle).1
      subst here
      rw [setTcp_threads,nothing] at batch
      cases batch
    simpa [apart] using inv.failed u d rest batch here

omit [DecidableEq T] in
theorem call_inv {m : Method} (inv : Inv loopOf p) (other : ∀ status, m ≠ .onConnect status)
    (h : p.call c m = some p') : Inv loopOf p' := by
  obtain ⟨_,rfl⟩ := call_some h
  cases m with
  | accept => exact same_inv inv rfl rfl rfl rfl
  | connect => exact same_inv inv rfl rfl rfl rfl
  | onConnect status => exact absurd rfl (other status)
  | close => exact down_inv inv (close_down _)

theorem path_inv [Fintype T] {s : Drain T C} {a : WritePath.Action T C} (inv : Inv loopOf s.path)
    (guard : Drained s (.path a)) (other : ∀ c status, a ≠ .call c (.onConnect status))
    (h : s.path.step loopOf a = some p') : Inv loopOf p' := by
  cases a with
  | setConnection task c => cases h; exact ⟨inv.covered,inv.failed⟩
  | loopStatus t isRunning => cases h; exact ⟨inv.covered,inv.failed⟩
  | sendMsg t c task =>
    obtain ⟨free,_,rfl⟩ := sendMsg_some h
    have nothing := Thread.free_doing free
    exact inv.thread t (by simp_all) rfl (fun d busy => by simpa using draining_doing nothing busy) (by simp)
  | getWriteBuffer t =>
    obtain ⟨c,task,called,rfl⟩ := getWriteBuffer_some h
    have taken : Inv loopOf (s.path.setThread t {s.path.threads t with
        doing := .sending c task (.encoding s.path.pool.getWriteBuffer.1)}) :=
      inv.thread t (by simp_all) rfl (fun d busy => by simpa [Thread.draining,called] using busy) (by simp)
    exact ⟨taken.covered,taken.failed⟩
  | encodeTask t vecBuf =>
    obtain ⟨c,task,r,encoding,rfl⟩ := encodeTask_some h
    exact inv.thread t (by simp_all) rfl (fun d busy => by simpa [Thread.draining,encoding] using busy) (by simp)
  | pushinQue t => exact pushinQue_inv inv h
  | launch t => exact launch_inv inv h
  | realSend c =>
    obtain ⟨idle,_,⟨_,rfl⟩ | ⟨_,rfl⟩⟩ := realSend_some h
    · exact ⟨inv.covered,inv.failed⟩
    refine inv.near (loopOf c) c (by simp_all [swapQue]) (by simp_all [swapQue]) (fun d _ busy => ?_)
      (by simp [swapQue]) (by simp [swapQue]) (by simp [swapQue])
    simpa [swapQue] using draining_doing (Thread.idle_spec idle).1 busy
  | uvWrite t accepted =>
    refine uvWrite_inv inv (fun c r rest batch up => ?_) h
    exact guard c (by rw [batch]; rfl) up
  | endBatch t =>
    obtain ⟨c,bError,batch,rfl⟩ := endBatch_some h
    exact inv.thread t (by simp_all) rfl (fun d busy => by simpa [Thread.draining,batch] using busy) (by simp)
  | afterWrite c i ok => exact afterWrite_inv inv guard h
  | settle t => exact settle_inv inv h
  | putWriteBuffer t =>
    obtain ⟨c,w,target,completion,nothing,rfl⟩ := putWriteBuffer_some h
    have left : Inv loopOf (s.path.setThread t {s.path.threads t with completion := none}) :=
      inv.thread t (by simp_all) rfl (fun d busy => by simp [Thread.draining,completion,nothing] at busy) (by simp [nothing])
    exact ⟨left.covered,left.failed⟩
  | call c m => exact call_inv inv (fun status same => other c status (by rw [same])) h
  | closeSafe t c =>
    rcases closeSafe_some h with ⟨_,rfl | rfl⟩
    · exact down_inv inv (close_down _)
    · exact down_inv inv rfl
  | runClose c =>
    obtain ⟨_,_,⟨_,rfl⟩ | ⟨_,rfl⟩⟩ := runClose_some h
    · exact ⟨inv.covered,inv.failed⟩
    · exact down_inv inv (close_down _)
  | closeCb c =>
    obtain ⟨_,_,_,_,rfl⟩ := closeCb_some h
    refine same_inv inv (by simp) ?_ rfl rfl
    simp only [TcpConnection.runCloseCb]
    split <;> rfl
  | destroy c =>
    obtain ⟨_,_,_,rfl⟩ := destroy_some h
    exact inv.conn c rfl (by simp_all [destroyed]) (by simp [destroyed]) (by simp [destroyed])

theorem step_inv [Fintype T] {s s' : Drain T C} {a : Action T C} (inv : Inv loopOf s.path) (guard : Drained s a)
    (h : step loopOf s a = some s') : Inv loopOf s'.path := by
  cases a with
  | path a =>
    by_cases connects : ∃ c status, a = .call c (.onConnect status)
    · obtain ⟨c,status,rfl⟩ := connects
      simp only [step,Option.ite_none_right_eq_some] at h
      obtain ⟨idle,taken⟩ := h
      obtain ⟨p',called,rfl⟩ := Option.map_eq_some_iff.mp taken
      obtain ⟨_,rfl⟩ := call_some called
      by_cases up : 0 ≤ status
      · exact connect_inv inv idle (TcpConnection.onConnect_sendQue _ status) (guard up)
      · apply down_inv inv
        have failed : status < 0 := by omega
        simp [Method.apply,TcpConnection.onConnect,failed]
    · have other : ∀ c status, a ≠ .call c (.onConnect status) := fun c status same => connects ⟨c,status,same⟩
      by_cases launches : ∃ t, a = .launch t
      · obtain ⟨t,rfl⟩ := launches
        simp only [step,launch] at h
        split at h
        · split at h
          · rename_i c task pushed
            cases h
            exact queueLaunch_inv inv pushed
          · cases h
        · obtain ⟨p',taken,rfl⟩ := Option.map_eq_some_iff.mp h
          exact launch_inv inv taken
      · have ordinary : step loopOf s (.path a) = (s.path.step loopOf a).map s.setPath := by
          cases a with
          | launch t => exact absurd ⟨t,rfl⟩ launches
          | call c m =>
            cases m with
            | onConnect status => exact absurd rfl (other c status)
            | _ => rfl
          | _ => rfl
        rw [ordinary] at h
        obtain ⟨p',taken,rfl⟩ := Option.map_eq_some_iff.mp h
        exact path_inv inv guard other taken
  | sendReq t c req =>
    simp only [step,sendReq,Option.ite_none_right_eq_some] at h
    obtain ⟨⟨free,_⟩,⟨⟩⟩ := h
    exact push_inv inv _ _ rfl fun d _ busy => draining_doing (Thread.free_doing free) busy
  | invokeSend t c isStoped =>
    simp only [step,invokeSend,Option.ite_none_right_eq_some] at h
    obtain ⟨⟨free,_⟩,taken⟩ := h
    split at taken
    · cases taken
      exact swapQue_inv inv fun d _ busy => draining_doing (Thread.free_doing free) busy
    · cases taken
      exact queueSend_inv inv

omit [DecidableEq T] in
theorem init_inv (vecs : Nat → CharVector) (bufs : C → CharVector) :
    Inv loopOf (init vecs bufs : Drain T C).path := by
  refine ⟨fun c up => ?_,fun t c rest batch => ?_⟩
  · cases up
  · cases batch

/-- No message is stranded in a run that keeps the queues drained where they may be left. -/
theorem none_stranded [Fintype T] (loopOf : C → T) (vecs : Nat → CharVector) (bufs : C → CharVector)
    (actions : List (Action T C)) (drained : Transition.Meets (step loopOf) Drained (init vecs bufs) actions) :
    Transition.Along (step loopOf) NoneStranded (init vecs bufs) actions :=
  Transition.along_of_meets (I := fun s => Inv loopOf s.path) (fun _ inv => inv.nothing_left)
    (fun _ _ _ inv guard h => step_inv inv guard h) (init_inv vecs bufs) drained

/-- A client connects, and its first write fails; the connection is closed and reconnected. -/
def reconnecting : List (Action Bool Unit) :=
  [.path (.setConnection 7 ()),.path (.call () .connect),.path (.call () (.onConnect 0)),
    .path (.sendMsg true () 7),.path (.getWriteBuffer true),.path (.encodeTask true ⟨none,0,0⟩),.path (.pushinQue true),
    .path (.launch true),.path (.realSend ()),.path (.uvWrite false true),.path (.endBatch false),
    .path (.afterWrite () 0 false),.path (.settle false),.path (.closeCb ()),.path (.call () .connect)]

def start : Drain Bool Unit := init (fun _ => ⟨none,0,0⟩) fun _ => ⟨none,0,0⟩

def invoking : List (Action Bool Unit) :=
  [.invokeSend true () false,.path (.call () (.onConnect 0)),.path (.realSend ()),
    .path (.uvWrite false true),.path (.endBatch false),.path (.afterWrite () 0 true),.path (.settle false),
    .path (.endBatch false),.path (.putWriteBuffer false)]

def invoked : List (Action Bool Unit) := reconnecting ++ invoking

theorem none_stranded_invoked : (Transition.run (step fun _ => false) start invoked).isSome ∧
    Transition.Along (step fun _ => false) NoneStranded start invoked :=
  ⟨by decide +kernel,none_stranded _ _ _ invoked (by decide +kernel)⟩

theorem stranded_reconnected : ∃ s, Transition.run (step fun _ => false) start
    (reconnecting ++ [.path (.call () (.onConnect 0))]) = some s ∧ ¬ NoneStranded s := by
  have reached : (Transition.run (step fun _ => false) start
      (reconnecting ++ [.path (.call () (.onConnect 0))])).map (fun s =>
        (s.path.conns (),s.path.threads false,s.path.threads true)) =
      some (⟨⟨true,true,true,0,0,0,.fresh,⟨.live,[.tcpInit,.close,.closeCb,.tcpInit]⟩,⟨none,0,0⟩,[0]⟩,true,0,0,[]⟩,
        .none,.none) := by decide +kernel
  obtain ⟨s,run,same⟩ := Option.map_eq_some_iff.mp reached
  simp only [Prod.mk.injEq] at same
  obtain ⟨conn,loop,sender⟩ := same
  refine ⟨s,run,fun none_stranded => ?_⟩
  have quiescent : Quiescent s () := by
    refine ⟨by rw [conn],fun t => ?_,by rw [conn]⟩
    cases t
    · rw [loop]; rfl
    · rw [sender]; rfl
  have empty := none_stranded () (by rw [conn]) (by rw [conn]) quiescent
  rw [conn] at empty
  cases empty

end Drain
end UvRpc
