import UvRpc.BufferPool
import UvRpc.TcpConnection
import UvRpc.Transition

/-! The way of a write request: a thread that calls sendMsg takes it from the pool,
encodes into it and pushes it in sendQue; the loop thread's realSend takes the whole
queue and gives its requests to uv_write; afterWrite puts a written request back in the
pool and pushes a failed one back. Threads interleave at the locks and at libuv's calls. -/

namespace UvRpc

/-- A write that libuv has accepted. Beside the request the model records what no code
looks at: `ticket` numbers the first pushes and `submission` the accepted uv_write calls,
and a write is `doomed` when one accepted before it has failed in the meantime, or was
just failing. -/
structure Write where
  req : Nat
  ticket : Nat
  submission : Nat
  doomed : Bool
  deriving DecidableEq, Repr

namespace WritePath

inductive Returned where
  | written | destroyed | orphaned
  deriving DecidableEq, Repr

inductive Event (C : Type*) where
  | checkedOut (req : Nat)
  | pushed (conn : C) (req ticket : Nat)
  | submitted (conn : C) (write : Write)
  | refused (conn : C) (req : Nat)
  | completed (conn : C) (write : Write) (ok : Bool)
  | returned (req : Nat) (why : Returned)
  deriving DecidableEq, Repr

inductive Stage where
  | called | encoding (req : Nat) | encoded (req : Nat) | pushed
  deriving DecidableEq, Repr

/-- What a thread is in: a sendMsg, or a realSend that has swapped the queue and has
`tempQue` left to send. -/
inductive Doing (C : Type*) where
  | nothing
  | sending (conn : C) (task : Nat) (stage : Stage)
  | batch (conn : C) (tempQue : List Nat) (bError : Bool)
  deriving DecidableEq, Repr

/-- An afterWrite up to the end of the send callback, and after a success in the
realSend that is followed by putWriteBuffer only. -/
inductive AfterWrite where
  | callback (ok : Bool) | sent
  deriving DecidableEq, Repr

def AfterWrite.ok : AfterWrite → Bool
  | .callback ok => ok
  | .sent => true

/-- An afterWrite for a write of `conn`. `target` is what getConnection answers. -/
structure Completion (C : Type*) where
  conn : C
  write : Write
  target : Option C
  stage : AfterWrite
  deriving DecidableEq, Repr

/-- A thread may be in an afterWrite below what it is doing. -/
structure Thread (C : Type*) where
  doing : Doing C
  completion : Option (Completion C)
  deriving DecidableEq, Repr

structure Conn where
  tcp : TcpConnection
  alive : Bool
  /-- The realSend and the close closures waiting in the loop's queue. -/
  queuedSends : Nat
  queuedCloses : Nat
  inFlight : List Write
  deriving DecidableEq, Repr

/-- Methods that leave sendQue alone, as users and libuv's callbacks call them. -/
inductive Method where
  | accept | connect | onConnect (status : Int) | close
  deriving DecidableEq, Repr

inductive Action (T C : Type*) where
  | setConnection (task : Nat) (c : C)
  | loopStatus (t : T) (isRunning : Bool)
  | sendMsg (t : T) (c : C) (task : Nat)
  | getWriteBuffer (t : T)
  | encodeTask (t : T) (vecBuf : CharVector)
  | pushinQue (t : T)
  | launch (t : T)
  | realSend (c : C)
  | uvWrite (t : T) (accepted : Bool)
  | endBatch (t : T)
  | afterWrite (c : C) (i : Nat) (ok : Bool)
  | settle (t : T)
  | putWriteBuffer (t : T)
  | call (c : C) (m : Method)
  | closeSafe (t : T) (c : C)
  | runClose (c : C)
  | closeCb (c : C)
  | destroy (c : C)
  deriving DecidableEq, Repr

end WritePath

structure WritePath (T C : Type*) where
  pool : BufferPool
  conns : C → WritePath.Conn
  threads : T → WritePath.Thread C
  /-- Whether the realSend that the thread is in comes from a queued closure. -/
  inClosure : T → Bool
  /-- A member of a destroyed connection has been used. -/
  wild : Bool
  /-- The status of the loop that the thread runs. -/
  running : T → Bool
  /-- The connection that a task's weak pointer refers to. -/
  bound : Nat → Option C
  ticket : Nat → Nat
  pushes : Nat
  submissions : Nat
  history : List (WritePath.Event C)

namespace WritePath

def Thread.none {C : Type*} : Thread C := ⟨.nothing,.none⟩

def Thread.idle {C : Type*} (th : Thread C) : Bool :=
  match th.doing, th.completion with
  | .nothing, .none => true
  | _, _ => false

/-- Whether user code may call sendMsg here: in no other call of it, in no realSend, and
in no afterWrite that has left the send callback behind. -/
def Thread.free {C : Type*} (th : Thread C) : Bool :=
  match th.doing with
  | .nothing => th.completion.all fun k => k.stage ≠ .sent
  | _ => false

/-- The thread is in the send callback of a failed write of `c`. -/
def Thread.failing {C : Type*} [DecidableEq C] (th : Thread C) (c : C) : Bool :=
  th.completion.any fun k => k.conn = c ∧ k.stage = .callback false

def Method.apply : Method → TcpConnection → TcpConnection
  | .accept, tcp => {tcp with remoteTcp := tcp.remoteTcp.tcpInit}
  | .connect, tcp => tcp.connect
  | .onConnect status, tcp => tcp.onConnect status
  | .close, tcp => tcp.close

def beginEncode (task : Nat) (w : WriteReq) : WriteReq :=
  {w with vecBuf := w.vecBuf.clear, taskPtr := some task}

/-- The encoder has left `vecBuf`, and uv_buf_init takes its data() and size(). -/
def endEncode (vecBuf : CharVector) (w : WriteReq) : WriteReq :=
  {w with vecBuf := vecBuf, buf := ⟨vecBuf.base_ptr.map Block.addr,vecBuf.len⟩}

variable {T C : Type*} [DecidableEq T] [DecidableEq C]

@[simps] def setThread (s : WritePath T C) (t : T) (th : Thread C) : WritePath T C :=
  {s with threads := Function.update s.threads t th}

@[simps] def setConn (s : WritePath T C) (c : C) (k : Conn) : WritePath T C :=
  {s with conns := Function.update s.conns c k}

@[simps] def setPool (s : WritePath T C) (pool : BufferPool) : WritePath T C := {s with pool := pool}

@[simps] def note (s : WritePath T C) (events : List (Event C)) : WritePath T C :=
  {s with history := s.history ++ events}

@[simps] def setTcp (s : WritePath T C) (c : C) (tcp : TcpConnection) : WritePath T C :=
  {s with conns := Function.update s.conns c {s.conns c with tcp := tcp}}

/-- Code that runs on a destroyed connection. Nothing is said of its effect. -/
@[simps] def runWild (s : WritePath T C) : WritePath T C := {s with wild := true}

@[simps] def setClosure (s : WritePath T C) (t : T) (inside : Bool) : WritePath T C :=
  {s with inClosure := Function.update s.inClosure t inside}

def pushbackQue (s : WritePath T C) (c : C) (r : Nat) : WritePath T C :=
  s.setTcp c {(s.conns c).tcp with sendQue := (s.conns c).tcp.sendQue ++ [r]}

/-- realSend up to its loop: sendQue is swapped into tempQue under the lock. -/
def swapQue (s : WritePath T C) (t : T) (th : Thread C) (c : C) : WritePath T C :=
  (s.setTcp c {(s.conns c).tcp with sendQue := []}).setThread t
    {th with doing := .batch c (s.conns c).tcp.sendQue false}

def sendMsg (s : WritePath T C) (t : T) (c : C) (task : Nat) : Option (WritePath T C) :=
  let th := s.threads t
  if th.free ∧ (s.conns c).alive then some (s.setThread t {th with doing := .sending c task .called})
  else none

def getWriteBuffer (s : WritePath T C) (t : T) : Option (WritePath T C) :=
  let th := s.threads t
  match th.doing with
  | .sending c task .called =>
    let (r,pool) := s.pool.getWriteBuffer
    some (((s.setPool (pool.modify r (beginEncode task))).setThread t
      {th with doing := .sending c task (.encoding r)}).note [.checkedOut r])
  | _ => none

def encodeTask (s : WritePath T C) (t : T) (vecBuf : CharVector) : Option (WritePath T C) :=
  let th := s.threads t
  match th.doing with
  | .sending c task (.encoding r) =>
    some ((s.setPool (s.pool.modify r (endEncode vecBuf))).setThread t
      {th with doing := .sending c task (.encoded r)})
  | _ => none

def pushinQue (s : WritePath T C) (t : T) : Option (WritePath T C) :=
  let th := s.threads t
  match th.doing with
  | .sending c task (.encoded r) =>
    let s := {s with ticket := Function.update s.ticket r s.pushes, pushes := s.pushes + 1}
    some (((s.pushbackQue c r).setThread t {th with doing := .sending c task .pushed}).note
      [.pushed c r (s.ticket r)])
  | _ => none

/-- The end of sendMsg: isRunInLoopThread decides between realSend and a closure. -/
def launch (loopOf : C → T) (s : WritePath T C) (t : T) : Option (WritePath T C) :=
  let th := s.threads t
  match th.doing with
  | .sending c _ .pushed =>
    let th := {th with doing := .nothing}
    if s.running t ∧ loopOf c = t then some (s.swapQue t th c)
    else some ((s.setConn c {s.conns c with queuedSends := (s.conns c).queuedSends + 1}).setThread t th)
  | _ => none

/-- The loop runs a queued closure. It has captured `this` and owns nothing, so that the
connection may be gone. -/
def realSend (loopOf : C → T) (s : WritePath T C) (c : C) : Option (WritePath T C) :=
  let th := s.threads (loopOf c)
  let k := s.conns c
  if th.idle ∧ 0 < k.queuedSends then
    if k.alive then
      some (((s.setConn c {k with queuedSends := k.queuedSends - 1}).swapQue (loopOf c) th c).setClosure
        (loopOf c) true)
    else some s.runWild
  else none

/-- One round of realSend's loop, which uses the connection whatever uv_write answers. libuv
accepts no write on a handle that was never opened or has had its close callback. -/
def uvWrite (s : WritePath T C) (t : T) (accepted : Bool) : Option (WritePath T C) :=
  let th := s.threads t
  match th.doing with
  | .batch c (r :: rest) bError =>
    let k := s.conns c
    if ¬ k.alive then some s.runWild
    else if bError then some ((s.pushbackQue c r).setThread t {th with doing := .batch c rest true})
    else if accepted then
      if k.tcp.handle.phase = .live ∨ k.tcp.handle.phase = .closing then
        let w : Write := ⟨r,s.ticket r,s.submissions,th.failing c⟩
        some ((({s with submissions := s.submissions + 1}.setConn c
            {k with inFlight := k.inFlight ++ [w]}).setThread t
          {th with doing := .batch c rest false}).note [.submitted c w])
      else none
    else
      let s := s.setTcp c {k.tcp with bConnected := false}
      let s := s.pushbackQue c r
      some (((s.setTcp c (s.conns c).tcp.close).setThread t
        {th with doing := .batch c rest true}).note [.refused c r])
  | _ => none

def endBatch (s : WritePath T C) (t : T) : Option (WritePath T C) :=
  let th := s.threads t
  match th.doing with
  | .batch _ [] _ => some ((s.setThread t {th with doing := .nothing}).setClosure t false)
  | _ => none

def getConnection (s : WritePath T C) (r : Nat) : Option C :=
  ((s.pool.reqs r).taskPtr.bind s.bound).filter fun c => (s.conns c).alive

/-- What a failure makes of the writes accepted after the failed one. -/
def doom (failed : Write) (w : Write) : Write :=
  if failed.submission < w.submission then {w with doomed := true} else w

def Conn.complete (k : Conn) (i : Nat) (w : Write) (ok : Bool) : Conn :=
  let others := k.inFlight.eraseIdx i
  {k with inFlight := if ok then others else others.map (doom w)}

/-- libuv completes the i-th write in flight. The send callback comes first, and the
thread may call sendMsg in it. -/
def afterWrite (loopOf : C → T) (s : WritePath T C) (c : C) (i : Nat) (ok : Bool) :
    Option (WritePath T C) :=
  let th := s.threads (loopOf c)
  let k := s.conns c
  if th.idle then
    k.inFlight[i]?.map fun w =>
      ((s.setConn c (k.complete i w ok)).setThread (loopOf c)
        {th with completion := some ⟨c,w,s.getConnection w.req,.callback ok⟩}).note [.completed c w ok]
  else none

/-- afterWrite after the send callback. -/
def settle (s : WritePath T C) (t : T) : Option (WritePath T C) :=
  let th := s.threads t
  match th.completion with
  | some ⟨c,w,target,.callback ok⟩ =>
    if th.free then
      match target with
      | none =>
        some (((s.setPool (s.pool.putWriteBuffer w.req)).setThread t {th with completion := none}).note
          [.returned w.req .orphaned])
      | some target =>
        let tcp := (s.conns target).tcp
        if ok then
          let s := s.setTcp target {tcp with sentCount := tcp.sentCount + 1}
          some (s.swapQue t {th with completion := some ⟨c,w,some target,.sent⟩} target)
        else
          let s := s.setTcp target {tcp with bConnected := false}
          let s := s.pushbackQue target w.req
          some ((s.setTcp target (s.conns target).tcp.close).setThread t {th with completion := none})
    else none
  | _ => none

/-- The end of afterWrite after realSend. -/
def putWriteBuffer (s : WritePath T C) (t : T) : Option (WritePath T C) :=
  let th := s.threads t
  match th.completion, th.doing with
  | some ⟨_,w,_,.sent⟩, .nothing =>
    some (((s.setPool (s.pool.putWriteBuffer w.req)).setThread t {th with completion := none}).note
      [.returned w.req .written])
  | _, _ => none

def call (s : WritePath T C) (c : C) (m : Method) : Option (WritePath T C) :=
  if (s.conns c).alive then some (s.setTcp c (m.apply (s.conns c).tcp)) else none

def closeSafe (loopOf : C → T) (s : WritePath T C) (t : T) (c : C) : Option (WritePath T C) :=
  let k := s.conns c
  let tcp := {k.tcp with bConnected := false}
  if k.alive then
    if s.running t ∧ loopOf c = t then some (s.setTcp c tcp.close)
    else some (s.setConn c {k with tcp := tcp, queuedCloses := k.queuedCloses + 1})
  else none

/-- The closure of closeSafe has captured `this` too. -/
def runClose (loopOf : C → T) (s : WritePath T C) (c : C) : Option (WritePath T C) :=
  let k := s.conns c
  if (s.threads (loopOf c)).idle ∧ 0 < k.queuedCloses then
    if k.alive then some (s.setConn c {k with tcp := k.tcp.close, queuedCloses := k.queuedCloses - 1})
    else some s.runWild
  else none

/-- The close callback. libuv has run the callbacks of all writes before. -/
def closeCb (loopOf : C → T) (s : WritePath T C) (c : C) : Option (WritePath T C) :=
  let k := s.conns c
  if (s.threads (loopOf c)).idle ∧ k.alive ∧ k.tcp.handle.phase = .closing ∧ k.inFlight = [] then
    some (s.setTcp c k.tcp.runCloseCb)
  else none

/-- Whether the thread is inside a method of the connection. -/
def Thread.holds (th : Thread C) (c : C) : Bool :=
  (match th.doing with
    | .nothing => false
    | .sending d _ _ => d = c
    | .batch d _ _ => d = c) || th.completion.any fun k => k.conn = c ∨ k.target = some c

/-- Whether the thread has a shared pointer to the connection: a caller of sendMsg and an
afterWrite have one, the realSend of a queued closure has none. -/
def Thread.owns (th : Thread C) (inClosure : Bool) (c : C) : Bool :=
  (match th.doing with
    | .nothing => false
    | .sending d _ _ => d = c
    | .batch d _ _ => d = c ∧ inClosure = false) || th.completion.any fun k => k.conn = c ∨ k.target = some c

/-- The destructor, which runs after the close callback once nobody owns the connection. -/
def destroy [Fintype T] (s : WritePath T C) (c : C) : Option (WritePath T C) :=
  let k := s.conns c
  if k.alive ∧ k.tcp.handle.phase = .closed ∧ ∀ t, (s.threads t).owns (s.inClosure t) c = false then
    some (((s.setPool (s.pool.putAll k.tcp.sendQue)).setConn c
      {k with tcp := {k.tcp with sendQue := []}, alive := false}).note
        (k.tcp.sendQue.map fun r => .returned r .destroyed))
  else none

/-- `loopOf` names the thread that runs the loop of a connection. -/
def step [Fintype T] (loopOf : C → T) (s : WritePath T C) : Action T C → Option (WritePath T C)
  | .setConnection task c => some {s with bound := Function.update s.bound task (some c)}
  | .loopStatus t isRunning => some {s with running := Function.update s.running t isRunning}
  | .sendMsg t c task => s.sendMsg t c task
  | .getWriteBuffer t => s.getWriteBuffer t
  | .encodeTask t vecBuf => s.encodeTask t vecBuf
  | .pushinQue t => s.pushinQue t
  | .launch t => launch loopOf s t
  | .realSend c => realSend loopOf s c
  | .uvWrite t accepted => s.uvWrite t accepted
  | .endBatch t => s.endBatch t
  | .afterWrite c i ok => afterWrite loopOf s c i ok
  | .settle t => s.settle t
  | .putWriteBuffer t => s.putWriteBuffer t
  | .call c m => s.call c m
  | .closeSafe t c => closeSafe loopOf s t c
  | .runClose c => runClose loopOf s c
  | .closeCb c => closeCb loopOf s c
  | .destroy c => s.destroy c

def init (vecs : Nat → CharVector) (bufs : C → CharVector) : WritePath T C where
  pool := .make vecs
  conns c := ⟨.make (bufs c),true,0,0,[]⟩
  threads _ := .none
  inClosure _ := false
  wild := false
  running _ := false
  bound _ := none
  ticket _ := 0
  pushes := 0
  submissions := 0
  history := []

/-! What each action needs and does. -/

variable {s s' : WritePath T C} {loopOf : C → T} {t : T} {c : C}

section
omit [DecidableEq C]

theorem Thread.free_doing {th : Thread C} (h : th.free) : th.doing = .nothing := by
  unfold Thread.free at h
  split at h
  · assumption
  · cases h

theorem Thread.idle_spec {th : Thread C} (h : th.idle) : th.doing = .nothing ∧ th.completion = .none := by
  unfold Thread.idle at h
  split at h
  · constructor <;> assumption
  · cases h

theorem sendMsg_some {task : Nat} (h : s.sendMsg t c task = some s') :
    (s.threads t).free ∧ (s.conns c).alive ∧
      s' = s.setThread t {s.threads t with doing := .sending c task .called} := by
  simp only [sendMsg] at h
  split at h
  · rename_i enabled
    exact ⟨enabled.1,enabled.2,(Option.some.inj h).symm⟩
  · cases h

theorem getWriteBuffer_some (h : s.getWriteBuffer t = some s') :
    ∃ c task, (s.threads t).doing = .sending c task .called ∧
      s' = ((s.setPool (s.pool.getWriteBuffer.2.modify s.pool.getWriteBuffer.1 (beginEncode task))).setThread t
        {s.threads t with doing := .sending c task (.encoding s.pool.getWriteBuffer.1)}).note
          [.checkedOut s.pool.getWriteBuffer.1] := by
  simp only [getWriteBuffer] at h
  split at h
  · rename_i c task called
    exact ⟨c,task,called,(Option.some.inj h).symm⟩
  · cases h

theorem encodeTask_some {vecBuf : CharVector} (h : s.encodeTask t vecBuf = some s') :
    ∃ c task r, (s.threads t).doing = .sending c task (.encoding r) ∧
      s' = (s.setPool (s.pool.modify r (endEncode vecBuf))).setThread t
        {s.threads t with doing := .sending c task (.encoded r)} := by
  simp only [encodeTask] at h
  split at h
  · rename_i c task r encoding
    exact ⟨c,task,r,encoding,(Option.some.inj h).symm⟩
  · cases h

end

@[simps] def ticketed (s : WritePath T C) (r : Nat) : WritePath T C :=
  {s with ticket := Function.update s.ticket r s.pushes, pushes := s.pushes + 1}

theorem pushinQue_some (h : s.pushinQue t = some s') :
    ∃ c task r, (s.threads t).doing = .sending c task (.encoded r) ∧
      s' = (((s.ticketed r).pushbackQue c r).setThread t
        {s.threads t with doing := .sending c task .pushed}).note [.pushed c r s.pushes] := by
  simp only [pushinQue,Function.update_self] at h
  split at h
  · rename_i c task r encoded
    exact ⟨c,task,r,encoded,(Option.some.inj h).symm⟩
  · cases h

theorem launch_some (h : launch loopOf s t = some s') :
    ∃ c task, (s.threads t).doing = .sending c task .pushed ∧
      ((s.running t ∧ loopOf c = t ∧ s' = s.swapQue t {s.threads t with doing := .nothing} c) ∨
        (¬ (s.running t ∧ loopOf c = t) ∧
          s' = (s.setConn c {s.conns c with queuedSends := (s.conns c).queuedSends + 1}).setThread t
            {s.threads t with doing := .nothing})) := by
  simp only [launch] at h
  split at h
  · rename_i c task pushed
    refine ⟨c,task,pushed,?_⟩
    split at h
    · rename_i direct
      exact .inl ⟨direct.1,direct.2,(Option.some.inj h).symm⟩
    · rename_i queued
      exact .inr ⟨queued,(Option.some.inj h).symm⟩
  · cases h

theorem realSend_some (h : realSend loopOf s c = some s') :
    (s.threads (loopOf c)).idle ∧ 0 < (s.conns c).queuedSends ∧
      (((s.conns c).alive = false ∧ s' = s.runWild) ∨
        ((s.conns c).alive = true ∧
          s' = ((s.setConn c {s.conns c with queuedSends := (s.conns c).queuedSends - 1}).swapQue (loopOf c)
            (s.threads (loopOf c)) c).setClosure (loopOf c) true)) := by
  simp only [realSend] at h
  split at h
  · rename_i enabled
    refine ⟨enabled.1,enabled.2,?_⟩
    split at h
    · exact .inr ⟨‹_›,(Option.some.inj h).symm⟩
    · exact .inl ⟨Bool.eq_false_iff.mpr ‹_›,(Option.some.inj h).symm⟩
  · cases h

/-- The state after a refused uv_write: the request is pushed back and the connection closed. -/
def refuse (s : WritePath T C) (c : C) (r : Nat) : WritePath T C :=
  let s := (s.setTcp c {(s.conns c).tcp with bConnected := false}).pushbackQue c r
  s.setTcp c (s.conns c).tcp.close

def accept (s : WritePath T C) (c : C) (w : Write) : WritePath T C :=
  {s with submissions := s.submissions + 1}.setConn c
    {s.conns c with inFlight := (s.conns c).inFlight ++ [w]}

theorem uvWrite_some {accepted : Bool} (h : s.uvWrite t accepted = some s') :
    ∃ c r rest bError, (s.threads t).doing = .batch c (r :: rest) bError ∧
      (((s.conns c).alive = false ∧ s' = s.runWild) ∨
        (s.conns c).alive = true ∧
        ((bError = true ∧ s' = (s.pushbackQue c r).setThread t
            {s.threads t with doing := .batch c rest true}) ∨
          (bError = false ∧ accepted = true ∧
            ((s.conns c).tcp.handle.phase = .live ∨ (s.conns c).tcp.handle.phase = .closing) ∧
            s' = ((s.accept c ⟨r,s.ticket r,s.submissions,(s.threads t).failing c⟩).setThread t
              {s.threads t with doing := .batch c rest false}).note
                [.submitted c ⟨r,s.ticket r,s.submissions,(s.threads t).failing c⟩]) ∨
          (bError = false ∧ accepted = false ∧
            s' = ((s.refuse c r).setThread t {s.threads t with doing := .batch c rest true}).note
              [.refused c r]))) := by
  simp only [uvWrite] at h
  split at h
  · rename_i c r rest bError batch
    refine ⟨c,r,rest,bError,batch,?_⟩
    split at h
    · rename_i dead
      exact .inl ⟨Bool.eq_false_iff.mpr dead,(Option.some.inj h).symm⟩
    rename_i alive
    refine .inr ⟨by simpa using alive,?_⟩
    split at h
    · rename_i failed
      exact .inl ⟨failed,(Option.some.inj h).symm⟩
    rename_i good
    have good := Bool.eq_false_iff.mpr good
    split at h
    · rename_i taken
      split at h
      · rename_i open_
        exact .inr (.inl ⟨good,taken,open_,(Option.some.inj h).symm⟩)
      · cases h
    · rename_i refused
      exact .inr (.inr ⟨good,Bool.eq_false_iff.mpr refused,(Option.some.inj h).symm⟩)
  · cases h

omit [DecidableEq C] in
theorem endBatch_some (h : s.endBatch t = some s') :
    ∃ c bError, (s.threads t).doing = .batch c [] bError ∧
      s' = (s.setThread t {s.threads t with doing := .nothing}).setClosure t false := by
  simp only [endBatch] at h
  split at h
  · rename_i c bError batch
    exact ⟨c,bError,batch,(Option.some.inj h).symm⟩
  · cases h

theorem afterWrite_some {i : Nat} {ok : Bool} (h : afterWrite loopOf s c i ok = some s') :
    (s.threads (loopOf c)).idle ∧ ∃ w, (s.conns c).inFlight[i]? = some w ∧
      s' = ((s.setConn c ((s.conns c).complete i w ok)).setThread (loopOf c) {s.threads (loopOf c) with
        completion := some ⟨c,w,s.getConnection w.req,.callback ok⟩}).note [.completed c w ok] := by
  simp only [afterWrite] at h
  split at h
  · rename_i idle
    obtain ⟨w,found,same⟩ := Option.map_eq_some_iff.mp h
    exact ⟨idle,w,found,same.symm⟩
  · cases h

theorem settle_some (h : s.settle t = some s') :
    ∃ c w target ok, (s.threads t).completion = some ⟨c,w,target,.callback ok⟩ ∧ (s.threads t).free ∧
      ((target = none ∧ s' = ((s.setPool (s.pool.putWriteBuffer w.req)).setThread t
          {s.threads t with completion := none}).note [.returned w.req .orphaned]) ∨
        (∃ d, target = some d ∧ ok = true ∧
          s' = (s.setTcp d {(s.conns d).tcp with sentCount := (s.conns d).tcp.sentCount + 1}).swapQue t
            {s.threads t with completion := some ⟨c,w,some d,.sent⟩} d) ∨
        (∃ d, target = some d ∧ ok = false ∧
          s' = (s.refuse d w.req).setThread t {s.threads t with completion := none})) := by
  simp only [settle] at h
  split at h
  · rename_i c w target ok completion
    split at h
    · rename_i free
      refine ⟨c,w,target,ok,completion,free,?_⟩
      cases target with
      | none => exact .inl ⟨rfl,(Option.some.inj h).symm⟩
      | some d =>
        cases ok with
        | true => exact .inr (.inl ⟨d,rfl,rfl,(Option.some.inj h).symm⟩)
        | false => exact .inr (.inr ⟨d,rfl,rfl,(Option.some.inj h).symm⟩)
    · cases h
  · cases h

omit [DecidableEq C] in
theorem putWriteBuffer_some (h : s.putWriteBuffer t = some s') :
    ∃ c w target, (s.threads t).completion = some ⟨c,w,target,.sent⟩ ∧ (s.threads t).doing = .nothing ∧
      s' = ((s.setPool (s.pool.putWriteBuffer w.req)).setThread t
        {s.threads t with completion := none}).note [.returned w.req .written] := by
  simp only [putWriteBuffer] at h
  split at h
  · rename_i c w target completion batch
    exact ⟨c,w,target,completion,batch,(Option.some.inj h).symm⟩
  · cases h

omit [DecidableEq T] in
/-- The methods that are called on a connection without moving a request: its sendQue
and its writes stay, and so do all other connections. -/
theorem call_some {m : Method} (h : s.call c m = some s') :
    (s.conns c).alive ∧ s' = s.setTcp c (m.apply (s.conns c).tcp) := by
  simp only [call] at h
  split at h
  · rename_i alive
    exact ⟨alive,(Option.some.inj h).symm⟩
  · cases h

theorem closeSafe_some (h : closeSafe loopOf s t c = some s') :
    (s.conns c).alive ∧
      (s' = s.setTcp c ({(s.conns c).tcp with bConnected := false} : TcpConnection).close ∨
        s' = s.setConn c {s.conns c with
          tcp := {(s.conns c).tcp with bConnected := false}
          queuedCloses := (s.conns c).queuedCloses + 1}) := by
  simp only [closeSafe] at h
  split at h
  · rename_i alive
    refine ⟨alive,?_⟩
    split at h
    · exact .inl (Option.some.inj h).symm
    · exact .inr (Option.some.inj h).symm
  · cases h

omit [DecidableEq T] in
theorem runClose_some (h : runClose loopOf s c = some s') :
    (s.threads (loopOf c)).idle ∧ 0 < (s.conns c).queuedCloses ∧
      (((s.conns c).alive = false ∧ s' = s.runWild) ∨
        ((s.conns c).alive = true ∧ s' = s.setConn c {s.conns c with
          tcp := (s.conns c).tcp.close
          queuedCloses := (s.conns c).queuedCloses - 1})) := by
  simp only [runClose] at h
  split at h
  · rename_i enabled
    refine ⟨enabled.1,enabled.2,?_⟩
    split at h
    · exact .inr ⟨‹_›,(Option.some.inj h).symm⟩
    · exact .inl ⟨Bool.eq_false_iff.mpr ‹_›,(Option.some.inj h).symm⟩
  · cases h

omit [DecidableEq T] in
theorem closeCb_some (h : closeCb loopOf s c = some s') :
    (s.threads (loopOf c)).idle ∧ (s.conns c).alive ∧ (s.conns c).tcp.handle.phase = .closing ∧
      (s.conns c).inFlight = [] ∧ s' = s.setTcp c (s.conns c).tcp.runCloseCb := by
  simp only [closeCb] at h
  split at h
  · rename_i enabled
    exact ⟨enabled.1,enabled.2.1,enabled.2.2.1,enabled.2.2.2,(Option.some.inj h).symm⟩
  · cases h

def destroyed (s : WritePath T C) (c : C) : WritePath T C :=
  ((s.setPool (s.pool.putAll (s.conns c).tcp.sendQue)).setConn c
    {s.conns c with tcp := {(s.conns c).tcp with sendQue := []}, alive := false}).note
      ((s.conns c).tcp.sendQue.map fun r => .returned r .destroyed)

omit [DecidableEq T] in
theorem destroy_some [Fintype T] (h : s.destroy c = some s') :
    (s.conns c).alive ∧ (s.conns c).tcp.handle.phase = .closed ∧
      (∀ t, (s.threads t).owns (s.inClosure t) c = false) ∧ s' = s.destroyed c := by
  simp only [destroy] at h
  split at h
  · rename_i enabled
    exact ⟨enabled.1,enabled.2.1,enabled.2.2,(Option.some.inj h).symm⟩
  · cases h

end WritePath
end UvRpc
