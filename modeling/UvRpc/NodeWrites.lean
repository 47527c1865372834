import UvRpc.BrokerSend
import UvRpc.WriteQueue

/-! A node of the Broker sends by the realSend and afterWrite of the write path: what either
of them does in one go on the node's loop is a run of the write path on that thread. The
node names a request by the task that it was taken for. -/

namespace UvRpc

/-- The connection with its requests under other names. -/
def TcpConnection.named (c : TcpConnection) (name : Nat → Nat) : TcpConnection :=
  {c with sendQue := c.sendQue.map name}

namespace NodeSend

open WritePath (Place Lives)

@[simp] theorem named_handle (c : TcpConnection) (name : Nat → Nat) : (c.named name).handle = c.handle := rfl

@[simp] theorem named_close (c : TcpConnection) (name : Nat → Nat) : (c.named name).close = c.close.named name := by
  by_cases client : c.bClient
  · by_cases closing : c.localTcp.isClosing <;> simp [TcpConnection.close,TcpConnection.named,client,closing]
  · by_cases closing : c.remoteTcp.isClosing <;> simp [TcpConnection.close,TcpConnection.named,client,closing]

theorem named_congr {c : TcpConnection} {name name' : Nat → Nat} (same : ∀ r ∈ c.sendQue, name r = name' r) :
    c.named name = c.named name' := by
  rw [TcpConnection.named,TcpConnection.named,List.map_congr_left same]

/-- The task that a request was taken for. -/
def taskOf (pool : BufferPool) (r : Nat) : Nat := (pool.reqs r).taskPtr.getD 0

variable {T C : Type*} [DecidableEq T] [DecidableEq C]

/-- The connection `c` of the write path is that of the node. -/
structure Shows (n : NodeSend) (s : WritePath T C) (c : C) : Prop where
  alive : (s.conns c).alive = true
  conn : n.conn = (s.conns c).tcp.named (taskOf s.pool)
  inFlight : n.inFlight = (s.conns c).inFlight.map fun w => taskOf s.pool w.req

def Reaches [Fintype T] (loopOf : C → T) (s s' : WritePath T C) : Prop :=
  ∃ actions, Transition.run (WritePath.step loopOf) s actions = some s'

variable {loopOf : C → T} {s s' u : WritePath T C} {t : T} {c : C} {n : NodeSend}

theorem Reaches.trans [Fintype T] (first : Reaches loopOf s s') (second : Reaches loopOf s' u) : Reaches loopOf s u := by
  obtain ⟨front,ran⟩ := first
  obtain ⟨back,later⟩ := second
  exact ⟨front ++ back,by rw [Transition.run_append,ran]; exact later⟩

theorem Reaches.step [Fintype T] {a : WritePath.Action T C} (taken : WritePath.step loopOf s a = some s') :
    Reaches loopOf s s' :=
  ⟨[a],by rw [Transition.run_cons,taken]; rfl⟩

omit [DecidableEq T] [DecidableEq C] in
theorem Shows.phase (shows : n.Shows s c) : n.phase = (s.conns c).tcp.handle.phase := by
  change n.conn.handle.phase = _
  rw [shows.conn,named_handle]

omit [DecidableEq C] in
theorem Shows.setThread (shows : n.Shows s c) (th : WritePath.Thread C) : n.Shows (s.setThread t th) c :=
  ⟨shows.alive,shows.conn,shows.inFlight⟩

section
omit [DecidableEq T]

theorem Shows.setTcp (shows : n.Shows s c) {conn tcp : TcpConnection} (same : conn = tcp.named (taskOf s.pool)) :
    (n.setConn conn).Shows (s.setTcp c tcp) c :=
  ⟨by simpa using shows.alive,by simpa using same,by simpa using shows.inFlight⟩

theorem Shows.pushbackQue (shows : n.Shows s c) (r : Nat) :
    (n.pushbackQue (taskOf s.pool r)).Shows (s.pushbackQue c r) c := by
  refine shows.setTcp ?_
  rw [shows.conn]
  simp [TcpConnection.named]

theorem Shows.close (shows : n.Shows s c) : (n.setConn n.conn.close).Shows (s.setTcp c (s.conns c).tcp.close) c :=
  shows.setTcp (by rw [shows.conn,named_close])

end

structure Sends (t : T) (th : WritePath.Thread C) (s s' : WritePath T C) : Prop where
  thread : s'.threads t = {th with doing := .nothing}
  pool : s'.pool = s.pool
  running : s'.running = s.running

theorem sendEach_reaches [Fintype T] (loopOf : C → T) (queue : List Nat) (bError : Bool) (refused : Option Nat)
    {th : WritePath.Thread C} (shows : n.Shows s c)
    (thread : s.threads t = {th with doing := .batch c queue bError}) :
    ∃ s', Reaches loopOf s s' ∧ (n.sendEach bError refused (queue.map (taskOf s.pool))).Shows s' c ∧ Sends t th s s' := by
  induction queue generalizing n s bError refused with
  | nil =>
    have taken : WritePath.step loopOf s (.endBatch t) =
        some ((s.setThread t {th with doing := .nothing}).setClosure t false) := by
      simp [WritePath.step,WritePath.endBatch,thread]
    exact ⟨_,.step taken,⟨shows.alive,shows.conn,shows.inFlight⟩,⟨by simp,rfl,rfl⟩⟩
  | cons r rest ih =>
    have alive := shows.alive
    -- the rest of the batch, after the first request
    have more (a : WritePath.Action T C) (m : NodeSend) (v : WritePath T C) (left : Bool) (refused' : Option Nat)
        (taken : WritePath.step loopOf s a = some (v.setThread t {th with doing := .batch c rest left}))
        (shown : m.Shows v c) (pool : v.pool = s.pool) (running : v.running = s.running)
        (same : n.sendEach bError refused ((r :: rest).map (taskOf s.pool)) =
          m.sendEach left refused' (rest.map (taskOf s.pool))) :
        ∃ s', Reaches loopOf s s' ∧ (n.sendEach bError refused ((r :: rest).map (taskOf s.pool))).Shows s' c ∧
          Sends t th s s' := by
      obtain ⟨s',reached,shown',sends⟩ := ih left refused' (shown.setThread (t := t) {th with doing := .batch c rest left})
        (by simp)
      rw [WritePath.setThread_pool,pool] at shown'
      exact ⟨s',(Reaches.step taken).trans reached,by rw [same]; exact shown',sends.thread,sends.pool.trans pool,
        sends.running.trans running⟩
    cases bError with
    | true =>
      exact more (.uvWrite t true) _ (s.pushbackQue c r) true refused
        (by simp [WritePath.step,WritePath.uvWrite,thread,alive]) (shows.pushbackQue r) rfl rfl (by simp [sendEach])
    | false =>
      by_cases accepted : n.phase = .live ∧ refused ≠ some 0
      · have live : (s.conns c).tcp.handle.phase = .live := by rw [← shows.phase]; exact accepted.1
        let w : Write := ⟨r,s.ticket r,s.submissions,(s.threads t).failing c⟩
        have conn : NodeSend.conn {n with inFlight := n.inFlight ++ [taskOf s.pool r]} = n.conn := rfl
        refine more (.uvWrite t true) {n with inFlight := n.inFlight ++ [taskOf s.pool r]}
          ((s.accept c w).note [.submitted c w]) false (refused.map (· - 1)) ?_ ⟨?_,?_,?_⟩ rfl rfl
          (by simp [sendEach,accepted])
        · simp only [WritePath.step,WritePath.uvWrite,w,thread]
          rw [if_neg (not_not.mpr alive),if_neg (by simp),if_pos trivial,if_pos (.inl live)]
          rfl
        · simpa [WritePath.accept] using alive
        · simpa [WritePath.accept,conn] using shows.conn
        · simp [WritePath.accept,shows.inFlight,w]
      · have back := (shows.pushbackQue r).close
        refine more (.uvWrite t false)
          ((n.pushbackQue (taskOf s.pool r)).setConn (n.pushbackQue (taskOf s.pool r)).conn.close)
          ((s.refuse c r).note [.refused c r]) true refused ?_ ⟨?_,?_,?_⟩ rfl rfl
          (by rw [List.map_cons,sendEach,if_neg (by simp),if_neg accepted])
        · simp only [WritePath.step,WritePath.uvWrite,thread]
          rw [if_neg (not_not.mpr alive),if_neg (by simp),if_neg (by simp)]
          rfl
        · simpa [WritePath.refuse,WritePath.pushbackQue] using alive
        · rw [back.conn]
          simp [WritePath.refuse,WritePath.pushbackQue]
          rfl
        · rw [back.inFlight]
          simp [WritePath.refuse,WritePath.pushbackQue]

/-- The whole of realSend, once the queue is swapped. -/
theorem realSend_reaches [Fintype T] (loopOf : C → T) (refused : Option Nat) (t : T) (th : WritePath.Thread C)
    (shows : n.Shows s c) :
    ∃ s', Reaches loopOf (s.swapQue t th c) s' ∧ (n.realSend refused).Shows s' c ∧ Sends t th s s' := by
  have emptied : (n.setConn {n.conn with sendQue := []}).Shows (s.swapQue t th c) c :=
    (shows.setTcp (by rw [shows.conn]; rfl)).setThread _
  have queue : n.conn.sendQue = (s.conns c).tcp.sendQue.map (taskOf s.pool) := by rw [shows.conn]; rfl
  obtain ⟨s',reached,shown,sends⟩ := sendEach_reaches loopOf (s.conns c).tcp.sendQue false refused (t := t) emptied
    (by simp [WritePath.swapQue]; rfl)
  rw [realSend,queue]
  exact ⟨s',reached,shown,sends.thread,sends.pool,sends.running⟩

omit [DecidableEq T] [DecidableEq C] in
/-- What the names say of is not touched. -/
theorem Shows.setPool (shows : n.Shows s c) {pool : BufferPool}
    (queue : ∀ r ∈ (s.conns c).tcp.sendQue, taskOf pool r = taskOf s.pool r)
    (flights : ∀ w ∈ (s.conns c).inFlight, taskOf pool w.req = taskOf s.pool w.req) : n.Shows (s.setPool pool) c := by
  refine ⟨shows.alive,?_,?_⟩
  · rw [shows.conn]
    exact named_congr fun r member => (queue r member).symm
  · rw [shows.inFlight]
    exact List.map_congr_left fun w member => (flights w member).symm

omit [DecidableEq T] [DecidableEq C] in
theorem Shows.of_same (shows : n.Shows s c) (conns : u.conns c = s.conns c) (pool : u.pool = s.pool) : n.Shows u c :=
  ⟨by rw [conns]; exact shows.alive,by rw [conns,pool]; exact shows.conn,by rw [conns,pool]; exact shows.inFlight⟩

/-- The request that getWriteBuffer answers is in no other place. -/
theorem getWriteBuffer_unused (lives : ∃ loc, Lives s loc) {p : Place T C} (other : p ≠ .pool) :
    s.pool.getWriteBuffer.1 ∉ s.held p := by
  obtain ⟨loc,lives⟩ := lives
  intro member
  rcases s.pool.getWriteBuffer_cases with ⟨r,rest,queue,same,_⟩ | ⟨_,same,_⟩
  · rw [same] at member
    exact other (lives.placed.same_place member (show r ∈ s.held .pool by simp [WritePath.held,queue]))
  · rw [same] at member
    have known := (lives.known s.pool.made).mp (by rw [lives.placed.mem_iff.mp member]; rfl)
    omega

/-- sendMsg up to pushinQue: a request that is nowhere else gets the task. -/
theorem pushinQue_reaches [Fintype T] (loopOf : C → T) (shows : n.Shows s c) (lives : ∃ loc, Lives s loc)
    (free : (s.threads t).free) :
    ∃ s', Reaches loopOf s s' ∧ (n.pushbackQue n.made).Shows s' c ∧
      s'.threads t = {s.threads t with doing := .sending c n.made .pushed} ∧ s'.running = s.running ∧
      ∀ p, p ≠ .pool → ∀ r ∈ s.held p, taskOf s'.pool r = taskOf s.pool r := by
  obtain ⟨r,r_eq⟩ : ∃ r, r = s.pool.getWriteBuffer.1 := ⟨_,rfl⟩
  obtain ⟨pool,pool_eq⟩ : ∃ pool, pool = (s.pool.getWriteBuffer.2.modify r (WritePath.beginEncode n.made)).modify r
    (WritePath.endEncode .null) := ⟨_,rfl⟩
  have new : taskOf pool r = n.made := by
    simp [taskOf,pool_eq,BufferPool.modify,WritePath.endEncode,WritePath.beginEncode]
  have old {q : Nat} (other : q ≠ r) : taskOf pool q = taskOf s.pool q := by
    rw [taskOf,pool_eq,BufferPool.modify_reqs_other _ _ other,BufferPool.modify_reqs_other _ _ other,
      BufferPool.getWriteBuffer_reqs,taskOf]
  have unused {p : Place T C} (other : p ≠ .pool) : r ∉ s.held p := r_eq ▸ getWriteBuffer_unused lives other
  have shown : n.Shows (s.setPool pool) c := by
    refine shows.setPool (fun q member => old ?_) fun w member => old ?_
    · exact ne_of_mem_of_not_mem (show q ∈ s.held (.sendQue c) from member) (unused (by simp))
    · exact ne_of_mem_of_not_mem (show w.req ∈ s.held (.inFlight c) from List.mem_map_of_mem member) (unused (by simp))
  have pushed := shown.pushbackQue r
  rw [WritePath.setPool_pool,new] at pushed
  let th := s.threads t
  let bound : WritePath T C := {s with bound := Function.update s.bound n.made (some c)}
  let called := bound.setThread t {th with doing := .sending c n.made .called}
  have sets : WritePath.step loopOf s (.setConnection n.made c) = some bound := rfl
  have sends : WritePath.step loopOf bound (.sendMsg t c n.made) = some called := if_pos ⟨free,shows.alive⟩
  let encoding := ((called.setPool (s.pool.getWriteBuffer.2.modify r (WritePath.beginEncode n.made))).setThread t
    {th with doing := .sending c n.made (.encoding r)}).note [.checkedOut r]
  have checks : WritePath.step loopOf called (.getWriteBuffer t) = some encoding := by
    simp only [WritePath.step,WritePath.getWriteBuffer,called,WritePath.setThread_threads,Function.update_self,encoding,r_eq]
    rfl
  let encoded := (encoding.setPool pool).setThread t {th with doing := .sending c n.made (.encoded r)}
  have encodes : WritePath.step loopOf encoding (.encodeTask t .null) = some encoded := by
    simp only [WritePath.step,WritePath.encodeTask,encoding,WritePath.note_threads,WritePath.setThread_threads,
      Function.update_self,encoded,pool_eq]
    rfl
  let final := (((encoded.ticketed r).pushbackQue c r).setThread t {th with doing := .sending c n.made .pushed}).note
    [.pushed c r s.pushes]
  have pushes : WritePath.step loopOf encoded (.pushinQue t) = some final := by
    simp only [WritePath.step,WritePath.pushinQue,encoded,WritePath.setThread_threads,Function.update_self]
    rfl
  have reached := ((Reaches.step sets).trans (.step sends)).trans (.step checks)
  exact ⟨final,reached.trans ((Reaches.step encodes).trans (.step pushes)),pushed.of_same rfl rfl,by simp [final,th],rfl,fun p other q member => old (ne_of_mem_of_not_mem member (unused other))⟩

theorem sendNewTask_reaches [Fintype T] (refused : Option Nat) (shows : n.Shows s c) (lives : ∃ loc, Lives s loc)
    (free : (s.threads t).free) (running : s.running t = true) (here : loopOf c = t) :
    ∃ s', Reaches loopOf s s' ∧ (n.sendNewTask refused).Shows s' c ∧ s'.threads t = s.threads t ∧
      ∀ p, p ≠ .pool → ∀ r ∈ s.held p, taskOf s'.pool r = taskOf s.pool r := by
  obtain ⟨u,reached,pushed,thread,still,names⟩ := pushinQue_reaches loopOf shows lives free
  have launched : WritePath.step loopOf u (.launch t) = some (u.swapQue t {u.threads t with doing := .nothing} c) := by
    simp only [WritePath.step,WritePath.launch,thread]
    rw [if_pos ⟨by rw [still]; exact running,here⟩]
  have made : NodeSend.Shows {n.pushbackQue n.made with made := n.made + 1} u c := ⟨pushed.alive,pushed.conn,pushed.inFlight⟩
  obtain ⟨s',later,shown,sends⟩ := realSend_reaches loopOf refused t {u.threads t with doing := .nothing} made
  refine ⟨s',(reached.trans (.step launched)).trans later,shown,?_,fun p other r member => ?_⟩
  · rw [sends.thread,thread,← WritePath.Thread.free_doing free]
  · rw [sends.pool]
    exact names p other r member

theorem Reaches.lives [Fintype T] (reached : Reaches loopOf s s') (lives : ∃ loc, Lives s loc) : ∃ loc, Lives s' loc := by
  obtain ⟨actions,ran⟩ := reached
  exact Transition.run_invariant_all (P := fun s => ∃ loc, Lives s loc)
    (fun _ _ _ ⟨_,lives⟩ taken => (WritePath.step_effect taken).lives lives) lives ran

omit [DecidableEq T] in
/-- A completed write is out of the connection, and the others are named as before. -/
theorem Shows.complete (shows : n.Shows s c) {w : Write} {others : List Write} (flying : (s.conns c).inFlight = w :: others)
    (ok : Bool) : NodeSend.Shows {n with inFlight := n.inFlight.tail} (s.setConn c ((s.conns c).complete 0 w ok)) c := by
  have doomed : (others.map (WritePath.doom w)).map (fun v => taskOf s.pool v.req) =
      others.map fun v => taskOf s.pool v.req := by
    rw [List.map_map]
    exact List.map_congr_left fun v _ => by rw [Function.comp_apply,WritePath.doom_req]
  refine ⟨by simpa [WritePath.Conn.complete] using shows.alive,?_,?_⟩
  · change n.conn = _
    simpa [WritePath.Conn.complete] using shows.conn
  · rw [shows.inFlight,flying]
    cases ok <;> simp [WritePath.Conn.complete,flying,← doomed]

/-- After the send callback of a written request: realSend, and the request is put back. -/
theorem written_reaches [Fintype T] (loopOf : C → T) (refused : Option Nat) (shows : n.Shows s c)
    (lives : ∃ loc, Lives s loc) {w : Write} (thread : s.threads t = ⟨.nothing,some ⟨c,w,some c,.callback true⟩⟩)
    (done : List Nat) :
    ∃ s', Reaches loopOf s s' ∧
      (NodeSend.realSend {n.setConn {n.conn with sentCount := n.conn.sentCount + 1} with written := done} refused).Shows
        s' c ∧ (s'.threads t).idle := by
  let counted := s.setTcp c {(s.conns c).tcp with sentCount := (s.conns c).tcp.sentCount + 1}
  have same : (n.setConn {n.conn with sentCount := n.conn.sentCount + 1}).Shows counted c :=
    shows.setTcp (by rw [shows.conn]; rfl)
  have shown : NodeSend.Shows {n.setConn {n.conn with sentCount := n.conn.sentCount + 1} with written := done}
      counted c := ⟨same.alive,same.conn,same.inFlight⟩
  let th : WritePath.Thread C := ⟨.nothing,some ⟨c,w,some c,.sent⟩⟩
  have settles : WritePath.step loopOf s (.settle t) = some (counted.swapQue t th c) := by
    simp only [WritePath.step,WritePath.settle,thread]
    rfl
  obtain ⟨v,reached,shown',sends⟩ := realSend_reaches loopOf refused t th shown
  have so_far := (Reaches.step settles).trans reached
  have holds : w.req ∈ v.held (.completing t true) := by
    simp [WritePath.held,sends.thread,th,WritePath.Thread.completing,WritePath.AfterWrite.ok]
  have elsewhere {p : Place T C} (other : p ≠ .completing t true) {r : Nat} (member : r ∈ v.held p) : r ≠ w.req := by
    obtain ⟨loc,lives'⟩ := so_far.lives lives
    rintro rfl
    exact other (lives'.placed.same_place member holds)
  have puts : WritePath.step loopOf v (.putWriteBuffer t) =
      some (((v.setPool (v.pool.putWriteBuffer w.req)).setThread t .none).note [.returned w.req .written]) := by
    simp only [WritePath.step,WritePath.putWriteBuffer,sends.thread,th]
    rfl
  have back : NodeSend.Shows _ (v.setPool (v.pool.putWriteBuffer w.req)) c := shown'.setPool
    (fun r member => by
      rw [taskOf,BufferPool.putWriteBuffer_reqs_other _
        (elsewhere (show Place.sendQue c ≠ _ by simp) (show r ∈ v.held (.sendQue c) from member)),taskOf])
    (fun x member => by
      rw [taskOf,BufferPool.putWriteBuffer_reqs_other _ (elsewhere (show Place.inFlight c ≠ _ by simp)
        (show x.req ∈ v.held (.inFlight c) from List.mem_map_of_mem member)),taskOf])
  exact ⟨_,so_far.trans (.step puts),back.of_same rfl rfl,by simp [WritePath.Thread.none,WritePath.Thread.idle]⟩

/-- After the send callback of a failed request: it waits again, and the connection closes. -/
theorem failed_reaches [Fintype T] (loopOf : C → T) (shows : n.Shows s c) {w : Write}
    (thread : s.threads t = ⟨.nothing,some ⟨c,w,some c,.callback false⟩⟩) :
    ∃ s', Reaches loopOf s s' ∧
      (let m := (n.setConn {n.conn with bConnected := false}).pushbackQue (taskOf s.pool w.req)
       (m.setConn m.conn.close).Shows s' c) ∧ (s'.threads t).idle := by
  have settles : WritePath.step loopOf s (.settle t) = some ((s.refuse c w.req).setThread t .none) := by
    simp only [WritePath.step,WritePath.settle,thread]
    rfl
  have lost : (n.setConn {n.conn with bConnected := false}).Shows
      (s.setTcp c {(s.conns c).tcp with bConnected := false}) c := shows.setTcp (by rw [shows.conn]; rfl)
  exact ⟨_,.step settles,(lost.pushbackQue w.req).close.setThread _,by simp [WritePath.Thread.none,WritePath.Thread.idle]⟩

/-- The node's afterWrite is the write path's for the oldest write, with the send callback's
sendMsg and the realSend that follows. -/
theorem afterWrite_reaches [Fintype T] (shows : n.Shows s c) (lives : ∃ loc, Lives s loc) (bound : s.Bound)
    (idle : (s.threads (loopOf c)).idle) (running : s.running (loopOf c) = true) {req : Nat} {rest : List Nat}
    (flying : n.inFlight = req :: rest) (ok : Bool) (refused : Option Nat) :
    ∃ s', Reaches loopOf s s' ∧ (NodeSend.afterWrite {n with inFlight := rest} req ok refused).Shows s' c ∧
      (s'.threads (loopOf c)).idle := by
  obtain ⟨w,others,queue,named,_⟩ := List.map_eq_cons_iff.mp (shows.inFlight.symm.trans flying)
  have target : s.getConnection w.req = some c := by
    simp [WritePath.getConnection,bound c w (by simp [queue]),Option.filter,shows.alive]
  obtain ⟨nothing,free⟩ := WritePath.Thread.idle_spec idle
  let s₁ := ((s.setConn c ((s.conns c).complete 0 w ok)).setThread (loopOf c) {s.threads (loopOf c) with
    completion := some ⟨c,w,some c,.callback ok⟩}).note [.completed c w ok]
  have completes : WritePath.step loopOf s (.afterWrite c 0 ok) = some s₁ := by
    simp [WritePath.step,WritePath.afterWrite,idle,queue,target,s₁]
  have first : NodeSend.Shows {n with inFlight := rest} s₁ c := by
    have := shows.complete queue ok
    rw [flying] at this
    exact ⟨this.alive,this.conn,this.inFlight⟩
  have below : s₁.threads (loopOf c) = ⟨.nothing,some ⟨c,w,some c,.callback ok⟩⟩ := by simp [s₁,nothing]
  -- the send callback
  obtain ⟨m,m_eq⟩ : ∃ m : NodeSend, m = if n.item.node.callbacks then NodeSend.sendNewTask {n with inFlight := rest} refused
    else {n with inFlight := rest} := ⟨_,rfl⟩
  obtain ⟨s₂,reached,shown,thread,name⟩ : ∃ s₂, Reaches loopOf s₁ s₂ ∧ m.Shows s₂ c ∧
      s₂.threads (loopOf c) = s₁.threads (loopOf c) ∧ taskOf s₂.pool w.req = req := by
    have lives₁ := (Reaches.step completes).lives lives
    rw [m_eq]
    split
    · obtain ⟨s₂,reached,shown,thread,names⟩ := sendNewTask_reaches refused first lives₁
        (by rw [below]; cases ok <;> rfl) running rfl
      refine ⟨s₂,reached,shown,thread,(names (.completing (loopOf c) ok) (by simp) w.req ?_).trans named⟩
      simp [WritePath.held,below,WritePath.Thread.completing,WritePath.AfterWrite.ok]
    · exact ⟨s₁,⟨[],rfl⟩,first,rfl,named⟩
  rw [below] at thread
  have so_far := (Reaches.step completes).trans reached
  cases ok with
  | true =>
    obtain ⟨s',later,shown',idle'⟩ := written_reaches loopOf refused shown (so_far.lives lives)
      thread (m.written ++ [req])
    refine ⟨s',so_far.trans later,?_,idle'⟩
    rw [NodeSend.afterWrite,← m_eq]
    exact shown'
  | false =>
    obtain ⟨s',later,shown',idle'⟩ := failed_reaches loopOf shown thread
    refine ⟨s',so_far.trans later,?_,idle'⟩
    rw [name] at shown'
    rw [NodeSend.afterWrite,← m_eq]
    by_cases live : NodeSend.phase {n with inFlight := rest} = .live
    all_goals
      simp only [live,decide_true,decide_false,Bool.false_eq_true,if_false,if_true]
      exact ⟨shown'.alive,shown'.conn,shown'.inFlight⟩

theorem step_reaches [Fintype T] (shows : n.Shows s c) (lives : ∃ loc, Lives s loc) (bound : s.Bound)
    (idle : (s.threads (loopOf c)).idle) (running : s.running (loopOf c) = true) {n' : NodeSend} {ok : Bool}
    {refused : Option Nat} (taken : n.step (.afterWrite ok refused) = some n') :
    ∃ s', Reaches loopOf s s' ∧ n'.Shows s' c ∧ (s'.threads (loopOf c)).idle := by
  simp only [NodeSend.step] at taken
  split at taken
  · cases taken
  · rename_i req rest flying
    cases taken
    exact afterWrite_reaches shows lives bound idle running flying ok refused

end NodeSend
end UvRpc
