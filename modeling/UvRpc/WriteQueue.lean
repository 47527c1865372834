import UvRpc.WriteLifecycle
import UvRpc.RetryQueue

/-! One connection of the write path is a retry queue: realSend's tempQue is its batch,
and what uv_write refuses or afterWrite gets back as failed goes to the tail of sendQue. -/

namespace UvRpc

def Write.item (w : Write) : Nat × Nat := (w.req,w.ticket)

def Write.flight (w : Write) : RetryQueue.Flight (Nat × Nat) := ⟨w.item,w.submission,w.doomed⟩

namespace WritePath

variable {T C : Type*} [DecidableEq T] [DecidableEq C]

/-- The task of every write in flight is bound to the connection that the write is on. -/
def Bound (s : WritePath T C) : Prop :=
  ∀ c, ∀ w ∈ (s.conns c).inFlight, (s.pool.reqs w.req).taskPtr.bind s.bound = some c

instance boundDecidable [Fintype C] (s : WritePath T C) : Decidable (Bound s) :=
  inferInstanceAs (Decidable (∀ c, ∀ w ∈ (s.conns c).inFlight, (s.pool.reqs w.req).taskPtr.bind s.bound = some c))

/-- The task of the write that completes is bound to the connection that the write is on. -/
def Binds (s : WritePath T C) : Action T C → Prop
  | .afterWrite c i _ => ∀ w ∈ (s.conns c).inFlight[i]?, (s.pool.reqs w.req).taskPtr.bind s.bound = some c
  | _ => True

instance bindsDecidable (s : WritePath T C) (a : Action T C) : Decidable (s.Binds a) :=
  match a with
  | .afterWrite c i _ =>
    inferInstanceAs (Decidable (∀ w ∈ (s.conns c).inFlight[i]?, (s.pool.reqs w.req).taskPtr.bind s.bound = some c))
  | .setConnection _ _ | .loopStatus _ _ | .sendMsg _ _ _ | .getWriteBuffer _ | .encodeTask _ _ | .pushinQue _
  | .launch _ | .realSend _ | .uvWrite _ _ | .endBatch _ | .settle _ | .putWriteBuffer _ | .call _ _ | .closeSafe _ _
  | .runClose _ | .closeCb _ | .destroy _ => isTrue trivial

structure Conn.Ok (k : Conn) : Prop where
  closed : k.tcp.handle.phase = .closed → k.inFlight = []
  dead : k.alive = false → k.tcp.handle.phase = .closed ∧ k.tcp.sendQue = []

/-- sendMsg and afterWrite run on connections that exist, realSend and afterWrite on their loop. -/
def Doing.Ok (loopOf : C → T) (alive : C → Bool) (t : T) : Doing C → Prop
  | .nothing => True
  | .sending c _ _ => alive c = true
  | .batch c _ _ => loopOf c = t

def Completion.Ok (loopOf : C → T) (alive : C → Bool) (t : T) (k : Completion C) : Prop :=
  loopOf k.conn = t ∧ k.target = some k.conn ∧ alive k.conn = true

structure Thread.Ok (loopOf : C → T) (alive : C → Bool) (t : T) (th : Thread C) : Prop where
  doing : th.doing.Ok loopOf alive t
  completion : ∀ k, th.completion = some k → k.Ok loopOf alive t

structure Sound (loopOf : C → T) (s : WritePath T C) : Prop where
  conns : ∀ c, (s.conns c).Ok
  threads : ∀ t, (s.threads t).Ok loopOf (fun c => (s.conns c).alive) t

variable {s s' : WritePath T C} {loopOf : C → T} {t : T} {c : C}

omit [DecidableEq T] [DecidableEq C] in
theorem Bound.binds (bound : Bound s) (a : Action T C) : s.Binds a := by
  cases a with
  | afterWrite c i ok => exact fun w found => bound c w (List.mem_of_getElem? found)
  | _ => trivial

theorem Conn.Ok.alive_of_inFlight {k : Conn} {w : Write} (ok : k.Ok) (member : w ∈ k.inFlight) :
    k.alive = true := by
  by_contra dead
  rw [ok.closed (ok.dead (Bool.eq_false_iff.mpr dead)).1] at member
  cases member

theorem Conn.Ok.of_alive {k : Conn} (alive : k.alive = true)
    (closed : k.tcp.handle.phase = .closed → k.inFlight = []) : k.Ok :=
  ⟨closed,fun dead => by rw [alive] at dead; cases dead⟩

omit [DecidableEq C] in
theorem Sound.setThread (sound : Sound loopOf s) {th : Thread C}
    (ok : th.Ok loopOf (fun c => (s.conns c).alive) t) : Sound loopOf (s.setThread t th) := by
  refine ⟨sound.conns,fun u => ?_⟩
  by_cases here : u = t
  · subst here; simpa using ok
  · simpa [here] using sound.threads u

omit [DecidableEq T] in
theorem Sound.setConn (sound : Sound loopOf s) {k : Conn} (ok : k.Ok) (alive : k.alive = (s.conns c).alive) :
    Sound loopOf (s.setConn c k) := by
  have same : (fun d => ((s.setConn c k).conns d).alive) = fun d => (s.conns d).alive := by
    funext d
    by_cases here : d = c
    · subst here; simpa using alive
    · simp [here]
  refine ⟨fun d => ?_,fun u => by rw [same]; exact sound.threads u⟩
  by_cases here : d = c
  · subst here; simpa using ok
  · simpa [here] using sound.conns d

omit [DecidableEq T] in
theorem Sound.setTcp (sound : Sound loopOf s) {tcp : TcpConnection}
    (ok : ({s.conns c with tcp := tcp} : Conn).Ok) : Sound loopOf (s.setTcp c tcp) :=
  sound.setConn ok rfl

section
omit [DecidableEq T] [DecidableEq C]

theorem Sound.setPool (sound : Sound loopOf s) (pool : BufferPool) : Sound loopOf (s.setPool pool) :=
  ⟨sound.conns,sound.threads⟩

theorem Sound.note (sound : Sound loopOf s) (events : List (Event C)) : Sound loopOf (s.note events) :=
  ⟨sound.conns,sound.threads⟩

theorem Sound.runWild (sound : Sound loopOf s) : Sound loopOf s.runWild := ⟨sound.conns,sound.threads⟩

end

omit [DecidableEq C] in
theorem Sound.setClosure (sound : Sound loopOf s) (t : T) (inside : Bool) : Sound loopOf (s.setClosure t inside) :=
  ⟨sound.conns,sound.threads⟩

omit [DecidableEq T] [DecidableEq C] in
theorem Sound.ticketed (sound : Sound loopOf s) (r : Nat) : Sound loopOf (s.ticketed r) :=
  ⟨sound.conns,sound.threads⟩

section
omit [DecidableEq T]

theorem Sound.pushbackQue (sound : Sound loopOf s) (alive : (s.conns c).alive = true) (r : Nat) :
    Sound loopOf (s.pushbackQue c r) :=
  sound.setTcp (.of_alive alive (sound.conns c).closed)

theorem Sound.refuse (sound : Sound loopOf s) (alive : (s.conns c).alive = true) (r : Nat) :
    Sound loopOf (s.refuse c r) := by
  have base : Sound loopOf (s.setTcp c {(s.conns c).tcp with bConnected := false}) :=
    sound.setTcp (.of_alive alive (sound.conns c).closed)
  have back := base.pushbackQue (c := c) (by simpa using alive) r
  refine back.setTcp (.of_alive (by simpa [WritePath.pushbackQue] using alive) fun closed => ?_)
  exact (back.conns c).closed (TcpConnection.closed_of_close closed)

/-- Steps on one connection keep the others and the life of all. -/
theorem pushbackQue_alive (r : Nat) (d : C) : ((s.pushbackQue c r).conns d).alive = (s.conns d).alive := by
  by_cases here : d = c
  · subst here; simp [pushbackQue]
  · simp [pushbackQue,here]

theorem refuse_alive (r : Nat) (d : C) : ((s.refuse c r).conns d).alive = (s.conns d).alive := by
  by_cases here : d = c
  · subst here; simp [refuse,pushbackQue]
  · simp [refuse,pushbackQue,here]

end

theorem Sound.swapQue (sound : Sound loopOf s) {th : Thread C} (here : loopOf c = t)
    (ok : th.Ok loopOf (fun c => (s.conns c).alive) t) : Sound loopOf (s.swapQue t th c) := by
  have emptied : Sound loopOf (s.setTcp c {(s.conns c).tcp with sendQue := []}) :=
    sound.setTcp ⟨(sound.conns c).closed,fun dead => ⟨((sound.conns c).dead dead).1,rfl⟩⟩
  have alive : (fun d => ((s.setTcp c {(s.conns c).tcp with sendQue := []}).conns d).alive) =
      fun d => (s.conns d).alive := by
    funext d
    by_cases same : d = c
    · subst same; simp
    · simp [same]
  apply emptied.setThread
  rw [alive]
  exact ⟨here,ok.completion⟩

theorem Method.closed (m : Method) {tcp : TcpConnection} (closed : (m.apply tcp).handle.phase = .closed) :
    tcp.handle.phase = .closed := by
  cases m with
  | accept =>
    simp only [Method.apply,TcpConnection.handle] at closed ⊢
    by_cases client : tcp.bClient <;> simp_all [UvTcp.tcpInit]
  | connect => simp [Method.apply,TcpConnection.connect,TcpConnection.handle,UvTcp.tcpInit] at closed
  | onConnect status => simpa [Method.apply,TcpConnection.onConnect_handle] using closed
  | close => exact TcpConnection.closed_of_close closed

omit [DecidableEq T] [DecidableEq C] in
/-- Without a bound task afterWrite might act on another connection. -/
theorem getConnection_bound (sound : Sound loopOf s) {w : Write} (member : w ∈ (s.conns c).inFlight)
    (bound : (s.pool.reqs w.req).taskPtr.bind s.bound = some c) : s.getConnection w.req = some c := by
  simp [getConnection,bound,Option.filter,(sound.conns c).alive_of_inFlight member]

omit [DecidableEq T] in
/-- A thread does not notice the end of a connection that it does not own. -/
theorem Thread.Ok.unowned {th : Thread C} {inClosure : Bool} {alive alive' : C → Bool} (ok : th.Ok loopOf alive t)
    (unowned : th.owns inClosure c = false) (others : ∀ d, d ≠ c → alive' d = alive d) :
    th.Ok loopOf alive' t := by
  obtain ⟨doing,completion⟩ := th
  simp only [Thread.owns,Bool.or_eq_false_iff] at unowned
  refine ⟨?_,fun k hk => ?_⟩
  · have doing_ok := ok.doing
    cases doing with
    | nothing => trivial
    | sending d task stage =>
      have apart : d ≠ c := by simpa using unowned.1
      exact (others d apart).trans doing_ok
    | batch d tempQue bError => exact doing_ok
  · obtain ⟨here,same,lives⟩ := ok.completion k hk
    have apart : k.conn ≠ c := by
      have := unowned.2
      simp only at hk
      rw [hk] at this
      simp at this
      exact this.1
    exact ⟨here,same,(others k.conn apart).trans lives⟩

omit [DecidableEq T] in
theorem Sound.destroyed (sound : Sound loopOf s) (closed : (s.conns c).tcp.handle.phase = .closed)
    (unowned : ∀ t, (s.threads t).owns (s.inClosure t) c = false) : Sound loopOf (s.destroyed c) := by
  refine ⟨fun d => ?_,fun u => (sound.threads u).unowned (unowned u) fun d apart => ?_⟩
  · by_cases here : d = c
    · subst here
      simp only [WritePath.destroyed,note_conns,setConn_conns,Function.update_self]
      exact ⟨fun _ => (sound.conns d).closed closed,fun _ => ⟨closed,rfl⟩⟩
    · simpa [WritePath.destroyed,here] using sound.conns d
  · simp [WritePath.destroyed,apart]

theorem step_sound [Fintype T] {a : Action T C} (sound : Sound loopOf s) (binds : s.Binds a)
    (h : step loopOf s a = some s') : Sound loopOf s' := by
  cases a with
  | setConnection task c => cases h; exact ⟨sound.conns,sound.threads⟩
  | loopStatus t isRunning => cases h; exact ⟨sound.conns,sound.threads⟩
  | sendMsg t c task =>
    obtain ⟨_,alive,rfl⟩ := sendMsg_some h
    exact sound.setThread ⟨alive,(sound.threads t).completion⟩
  | getWriteBuffer t =>
    obtain ⟨c,task,called,rfl⟩ := getWriteBuffer_some h
    have ok := sound.threads t
    have alive : (s.conns c).alive := by have := ok.doing; rwa [called] at this
    refine ((sound.setPool _).setThread ?_).note _
    exact ⟨alive,ok.completion⟩
  | encodeTask t vecBuf =>
    obtain ⟨c,task,r,encoding,rfl⟩ := encodeTask_some h
    have ok := sound.threads t
    have alive : (s.conns c).alive := by have := ok.doing; rwa [encoding] at this
    exact (sound.setPool _).setThread ⟨alive,ok.completion⟩
  | pushinQue t =>
    obtain ⟨c,task,r,encoded,rfl⟩ := pushinQue_some h
    have ok := sound.threads t
    have alive : (s.conns c).alive := by have := ok.doing; rwa [encoded] at this
    refine (((sound.ticketed r).pushbackQue alive r).setThread ?_).note _
    simp only [pushbackQue_alive]
    exact ⟨alive,ok.completion⟩
  | launch t =>
    rcases launch_some h with ⟨c,task,pushed,⟨_,here,rfl⟩ | ⟨_,rfl⟩⟩
    · exact sound.swapQue here ⟨trivial,(sound.threads t).completion⟩
    · have queued := sound.setConn (k := {s.conns c with queuedSends := (s.conns c).queuedSends + 1})
        ⟨(sound.conns c).closed,(sound.conns c).dead⟩ rfl
      exact queued.setThread ⟨trivial,(queued.threads t).completion⟩
  | realSend c =>
    obtain ⟨idle,_,⟨_,rfl⟩ | ⟨_,rfl⟩⟩ := realSend_some h
    · exact sound.runWild
    have taken := sound.setConn (k := {s.conns c with queuedSends := (s.conns c).queuedSends - 1})
      ⟨(sound.conns c).closed,(sound.conns c).dead⟩ rfl
    exact (taken.swapQue rfl (taken.threads (loopOf c))).setClosure _ _
  | uvWrite t accepted =>
    obtain ⟨c,r,rest,bError,batch,effect⟩ := uvWrite_some h
    have ok := sound.threads t
    have here : loopOf c = t := by have := ok.doing; rwa [batch] at this
    rcases effect with ⟨_,rfl⟩ | ⟨alive,⟨_,rfl⟩ | ⟨_,_,is_open,rfl⟩ | ⟨_,_,rfl⟩⟩
    · exact sound.runWild
    · apply (sound.pushbackQue alive r).setThread
      simp only [pushbackQue_alive]
      exact ⟨here,ok.completion⟩
    · have taken : Sound loopOf (s.accept c ⟨r,s.ticket r,s.submissions,(s.threads t).failing c⟩) :=
        Sound.setConn (s := {s with submissions := s.submissions + 1}) ⟨sound.conns,sound.threads⟩
          (.of_alive alive fun closed => by rcases is_open with p | p <;> rw [p] at closed <;> cases closed) rfl
      refine (taken.setThread ?_).note _
      exact ⟨here,(taken.threads t).completion⟩
    · refine ((sound.refuse alive r).setThread ?_).note _
      simp only [refuse_alive]
      exact ⟨here,ok.completion⟩
  | endBatch t =>
    obtain ⟨c,bError,batch,rfl⟩ := endBatch_some h
    have left : Sound loopOf (s.setThread t {s.threads t with doing := .nothing}) :=
      sound.setThread ⟨trivial,(sound.threads t).completion⟩
    exact left.setClosure t false
  | afterWrite c i ok =>
    obtain ⟨idle,w,found,rfl⟩ := afterWrite_some h
    have member : w ∈ (s.conns c).inFlight := List.mem_of_getElem? found
    have alive := (sound.conns c).alive_of_inFlight member
    have completed := sound.setConn (c := c) (k := (s.conns c).complete i w ok)
      (.of_alive alive fun closed => by
        have none_left := (sound.conns c).closed closed
        rw [none_left] at member; cases member) rfl
    refine (completed.setThread ?_).note _
    refine ⟨(completed.threads (loopOf c)).doing,?_⟩
    rintro k ⟨⟩
    exact ⟨rfl,getConnection_bound sound member (binds w found),by simpa [Conn.complete] using alive⟩
  | settle t =>
    obtain ⟨c,w,target,ok,completion,free,effect⟩ := settle_some h
    have th := sound.threads t
    obtain ⟨here,same,alive⟩ := th.completion _ completion
    rcases effect with ⟨gone,rfl⟩ | ⟨d,found,rfl,rfl⟩ | ⟨d,found,rfl,rfl⟩
    · rw [gone] at same; cases same
    · have d_eq : d = c := by rw [found] at same; exact Option.some.inj same
      subst d_eq
      have counted : Sound loopOf (s.setTcp d {(s.conns d).tcp with sentCount := (s.conns d).tcp.sentCount + 1}) :=
        sound.setTcp (.of_alive alive (sound.conns d).closed)
      refine counted.swapQue here ⟨(counted.threads t).doing,?_⟩
      rintro k ⟨⟩
      exact ⟨here,rfl,by simpa using alive⟩
    · have d_eq : d = c := by rw [found] at same; exact Option.some.inj same
      subst d_eq
      have refused := sound.refuse alive w.req
      exact refused.setThread ⟨(refused.threads t).doing,by simp⟩
  | putWriteBuffer t =>
    obtain ⟨c,w,target,completion,_,rfl⟩ := putWriteBuffer_some h
    refine ((sound.setPool _).setThread ?_).note _
    exact ⟨(sound.threads t).doing,by simp⟩
  | call c m =>
    obtain ⟨alive,rfl⟩ := call_some h
    exact sound.setTcp (.of_alive alive fun closed => (sound.conns c).closed (m.closed closed))
  | closeSafe t c =>
    rcases closeSafe_some h with ⟨alive,rfl | rfl⟩
    · exact sound.setTcp (.of_alive alive fun closed =>
        (sound.conns c).closed (TcpConnection.closed_of_close closed))
    · exact sound.setConn (.of_alive alive (sound.conns c).closed) rfl
  | runClose c =>
    obtain ⟨_,_,⟨_,rfl⟩ | ⟨alive,rfl⟩⟩ := runClose_some h
    · exact sound.runWild
    · exact sound.setConn (.of_alive alive fun closed =>
        (sound.conns c).closed (TcpConnection.closed_of_close closed)) rfl
  | closeCb c =>
    obtain ⟨_,alive,_,none_left,rfl⟩ := closeCb_some h
    exact sound.setTcp (.of_alive alive fun _ => none_left)
  | destroy c =>
    obtain ⟨_,closed,unowned,rfl⟩ := destroy_some h
    exact sound.destroyed closed unowned

/-! The queue of one connection. -/

def item (s : WritePath T C) (r : Nat) : Nat × Nat := (r,s.ticket r)

def Doing.batchOf (c : C) : Doing C → Option (List Nat × Bool)
  | .batch d (r :: rest) bError => if d = c then some (r :: rest,bError) else none
  | _ => none

/-- A failed write of `c` that is not yet pushed back. -/
def failedOf (c : C) : Option (Completion C) → List Write
  | some ⟨d,w,_,.callback false⟩ => if d = c then [w] else []
  | _ => []

def Event.conn : Event C → Option C
  | .pushed c _ _ => some c
  | .submitted c _ => some c
  | .refused c _ => some c
  | .completed c _ _ => some c
  | _ => none

def Event.pushedItem (c : C) : Event C → Option (Nat × Nat)
  | .pushed d r n => if d = c then some (r,n) else none
  | _ => none

def Event.submittedWrite (c : C) : Event C → Option Write
  | .submitted d w => if d = c then some w else none
  | _ => none

def Event.writtenWrite (c : C) : Event C → Option Write
  | .completed d w true => if d = c then some w else none
  | _ => none

def Event.fails (c : C) : Event C → Bool
  | .refused d _ => d = c
  | .completed d _ ok => d = c && !ok
  | _ => false

/-- The state of the retry queue that `c` is. -/
structure Views (loopOf : C → T) (c : C) (s : WritePath T C) (q : RetryQueue.State (Nat × Nat)) : Prop where
  que : q.que = (s.conns c).tcp.sendQue.map s.item
  batch : q.batch = (((s.threads (loopOf c)).doing.batchOf c).elim [] Prod.fst).map s.item
  holding : ∀ p ∈ (s.threads (loopOf c)).doing.batchOf c, q.holding = p.2
  inFlight : q.inFlight = (s.conns c).inFlight.map Write.flight
  returning : q.returning = (failedOf c (s.threads (loopOf c)).completion).map Write.item
  dropped : q.dropped = !(s.conns c).alive
  nextTicket : q.nextTicket ≤ s.pushes
  nextSubmission : q.nextSubmission ≤ s.submissions
  pushed : q.pushed = s.history.filterMap (Event.pushedItem c)
  submitted : q.submitted = (s.history.filterMap (Event.submittedWrite c)).map Write.flight
  written : q.written = (s.history.filterMap (Event.writtenWrite c)).map Write.flight
  failed : q.failed = s.history.any (Event.fails c)
  tickets : ∀ w, w ∈ (s.conns c).inFlight ∨ w ∈ failedOf c (s.threads (loopOf c)).completion → s.ticket w.req = w.ticket

theorem Event.silent {e : Event C} (other : e.conn ≠ some c) :
    e.pushedItem c = none ∧ e.submittedWrite c = none ∧ e.writtenWrite c = none ∧ e.fails c = false := by
  cases e with
  | completed d w ok => cases ok <;> simp_all [conn,pushedItem,submittedWrite,writtenWrite,fails]
  | _ => simp_all [conn,pushedItem,submittedWrite,writtenWrite,fails]

theorem Doing.batchOf_mem {d : Doing C} {r : Nat} (member : r ∈ (d.batchOf c).elim [] Prod.fst) :
    r ∈ d.tempQue := by
  unfold batchOf at member
  split at member
  · split at member
    · exact member
    · cases member
  · cases member

theorem failedOf_mem {th : Thread C} {w : Write} (member : w ∈ failedOf c th.completion) :
    w.req ∈ th.completing false := by
  unfold failedOf at member
  split at member
  · rename_i completion
    split at member
    · simp [Thread.completing,completion,AfterWrite.ok,List.mem_singleton.mp member]
    · cases member
  · cases member

omit [DecidableEq T] in
/-- A step that does not concern `c`. -/
theorem Views.frame {q : RetryQueue.State (Nat × Nat)} (views : Views loopOf c s q) (events : List (Event C))
    (sendQue : (s'.conns c).tcp.sendQue = (s.conns c).tcp.sendQue)
    (inFlight : (s'.conns c).inFlight = (s.conns c).inFlight) (alive : (s'.conns c).alive = (s.conns c).alive)
    (batch : (s'.threads (loopOf c)).doing.batchOf c = (s.threads (loopOf c)).doing.batchOf c)
    (failed : failedOf c (s'.threads (loopOf c)).completion = failedOf c (s.threads (loopOf c)).completion)
    (ticket : ∀ r, s'.ticket r ≠ s.ticket r →
      ∀ p ∈ [.sendQue c,.batch (loopOf c),.inFlight c,.completing (loopOf c) false], r ∉ s.held p)
    (pushes : s.pushes ≤ s'.pushes) (submissions : s.submissions ≤ s'.submissions)
    (history : s'.history = s.history ++ events) (silent : ∀ e ∈ events, e.conn ≠ some c) :
    Views loopOf c s' q := by
  have kept : ∀ l : List Nat, (∀ r ∈ l, s'.ticket r = s.ticket r) → l.map s'.item = l.map s.item :=
    fun l same => List.map_congr_left fun r hr => by rw [item,item,same r hr]
  have nothing : ∀ {β : Type} (f : Event C → Option β), (∀ e ∈ events, f e = none) →
      s'.history.filterMap f = s.history.filterMap f := by
    intro β f none_here
    rw [history,List.filterMap_append,List.filterMap_eq_nil_iff.mpr none_here,List.append_nil]
  refine ⟨?_,?_,?_,?_,?_,?_,views.nextTicket.trans pushes,views.nextSubmission.trans submissions,?_,?_,?_,?_,?_⟩
  · rw [sendQue,views.que,kept]
    intro r hr
    by_contra changed
    exact ticket r changed (.sendQue c) (by simp) hr
  · rw [batch,views.batch,kept]
    intro r hr
    by_contra changed
    exact ticket r changed (.batch (loopOf c)) (by simp) (Doing.batchOf_mem hr)
  · rw [batch]; exact views.holding
  · rw [inFlight]; exact views.inFlight
  · rw [failed]; exact views.returning
  · rw [alive]; exact views.dropped
  · rw [views.pushed,nothing _ fun e he => (Event.silent (silent e he)).1]
  · rw [views.submitted,nothing _ fun e he => (Event.silent (silent e he)).2.1]
  · rw [views.written,nothing _ fun e he => (Event.silent (silent e he)).2.2.1]
  · have quiet : events.any (Event.fails c) = false := by
      rw [List.any_eq_false]
      intro e he
      simp [(Event.silent (silent e he)).2.2.2]
    rw [views.failed,history,List.any_append,quiet,Bool.or_false]
  · intro w hw
    rw [inFlight,failed] at hw
    rw [← views.tickets w hw]
    by_contra changed
    rcases hw with flying | back
    · exact ticket w.req changed (.inFlight c) (by simp) (List.mem_map_of_mem flying)
    · exact ticket w.req changed (.completing (loopOf c) false) (by simp) (failedOf_mem back)

omit [DecidableEq C] in
theorem threads_field {β : Type*} (f : Thread C → β) {th : Thread C} (same : f th = f (s.threads t)) (u : T) :
    f (Function.update s.threads t th u) = f (s.threads u) := by
  by_cases here : u = t
  · subst here; simpa using same
  · simp [here]

theorem Views.setThread {q : RetryQueue.State (Nat × Nat)} (views : Views loopOf c s q) {th : Thread C}
    (batch : th.doing.batchOf c = (s.threads t).doing.batchOf c)
    (failed : failedOf c th.completion = failedOf c (s.threads t).completion) :
    Views loopOf c (s.setThread t th) q := by
  refine views.frame [] rfl rfl rfl ?_ ?_ ?_ (Nat.le_refl _) (Nat.le_refl _) ?_ ?_
  · exact threads_field (fun th => th.doing.batchOf c) batch _
  · exact threads_field (fun th => failedOf c th.completion) failed _
  · simp
  · simp
  · simp

section
omit [DecidableEq T]

theorem Views.setConn {q : RetryQueue.State (Nat × Nat)} (views : Views loopOf c s q) {d : C} {k : Conn}
    (same : d = c → k.tcp.sendQue = (s.conns c).tcp.sendQue ∧ k.inFlight = (s.conns c).inFlight ∧
      k.alive = (s.conns c).alive) : Views loopOf c (s.setConn d k) q := by
  refine views.frame [] ?_ ?_ ?_ rfl rfl ?_ (Nat.le_refl _) (Nat.le_refl _) ?_ ?_
  · by_cases here : c = d
    · subst here; simpa using (same rfl).1
    · simp [here]
  · by_cases here : c = d
    · subst here; simpa using (same rfl).2.1
    · simp [here]
  · by_cases here : c = d
    · subst here; simpa using (same rfl).2.2
    · simp [here]
  · simp
  · simp
  · simp

theorem Views.note {q : RetryQueue.State (Nat × Nat)} (views : Views loopOf c s q) {events : List (Event C)}
    (silent : ∀ e ∈ events, e.conn ≠ some c) : Views loopOf c (s.note events) q :=
  views.frame events rfl rfl rfl rfl rfl (by simp) (Nat.le_refl _) (Nat.le_refl _) rfl silent

theorem Views.setPool {q : RetryQueue.State (Nat × Nat)} (views : Views loopOf c s q) (pool : BufferPool) :
    Views loopOf c (s.setPool pool) q :=
  views.frame [] rfl rfl rfl rfl rfl (by simp) (Nat.le_refl _) (Nat.le_refl _) (by simp) (by simp)

theorem Views.runWild {q : RetryQueue.State (Nat × Nat)} (views : Views loopOf c s q) : Views loopOf c s.runWild q :=
  views.frame [] rfl rfl rfl rfl rfl (by simp) (Nat.le_refl _) (Nat.le_refl _) (by simp) (by simp)

end

theorem Views.setClosure {q : RetryQueue.State (Nat × Nat)} {inside : Bool} (views : Views loopOf c s q) :
    Views loopOf c (s.setClosure t inside) q :=
  views.frame [] rfl rfl rfl rfl rfl (by simp) (Nat.le_refl _) (Nat.le_refl _) (by simp) (by simp)

def NoneNewer (s : WritePath T C) (c : C) (ticket : Nat) : Prop :=
  ∀ r ∈ (s.conns c).tcp.sendQue, ¬ ticket < s.ticket r

/-- A request is pushed back only while nothing newer waits in sendQue, and sockets fail
as streams do: a write accepted after a failing one fails too, and nothing newer than a
doomed write is accepted for good. -/
def InOrder (s : WritePath T C) : Action T C → Prop
  | .uvWrite t accepted =>
    match (s.threads t).doing with
    | .batch c (r :: _) bError =>
      if bError = false ∧ accepted = true then
        (s.threads t).failing c = false →
          ∀ w ∈ (s.conns c).inFlight, w.doomed = true → ¬ w.ticket < s.ticket r
      else s.NoneNewer c (s.ticket r)
    | _ => True
  | .afterWrite c i ok => ∀ w ∈ (s.conns c).inFlight[i]?,
      if ok then w.doomed = false
      else ∀ v ∈ s.history.filterMap (Event.writtenWrite c), v.submission < w.submission
  | .settle t =>
    match (s.threads t).completion with
    | some ⟨_,w,some d,.callback false⟩ => s.NoneNewer d w.ticket
    | _ => True
  | _ => True

/-- The retry queue of `c` takes at most one step, which meets its guard if the step of
the write path does. -/
def Follows (loopOf : C → T) (c : C) (s s' : WritePath T C) (q : RetryQueue.State (Nat × Nat))
    (a : Action T C) : Prop :=
  Views loopOf c s' q ∨ ∃ b q', RetryQueue.step Prod.snd q b = some q' ∧ Views loopOf c s' q' ∧
    (s.InOrder a → RetryQueue.Guard Prod.snd q b)

variable {q : RetryQueue.State (Nat × Nat)} {loc : Nat → Option (Place T C)}

theorem Follows.setClosure {a : Action T C} {inside : Bool} (follows : Follows loopOf c s s' q a) :
    Follows loopOf c s (s'.setClosure t inside) q a := by
  rcases follows with views | ⟨b,q',taken,views,guard⟩
  · exact .inl views.setClosure
  · exact .inr ⟨b,q',taken,views.setClosure,guard⟩

omit [DecidableEq T] in
theorem push_follows (views : Views loopOf c s q) (alive : (s.conns c).alive = true) {r n : Nat}
    (ticket : s.ticket r = n) (fresh : q.nextTicket ≤ n) (counted : n < s.pushes) :
    ∃ q', RetryQueue.step Prod.snd q (.push (r,n)) = some q' ∧
      Views loopOf c ((s.pushbackQue c r).note [.pushed c r n]) q' := by
  have kept : q.dropped = false := by rw [views.dropped,alive]; rfl
  refine ⟨_,if_pos ⟨fresh,kept⟩,?_,views.batch,views.holding,?_,views.returning,?_,counted,views.nextSubmission,
    ?_,?_,?_,?_,?_⟩
  · simp [views.que,pushbackQue,item,ticket]
  · simp [views.inFlight,pushbackQue]
  · simp [views.dropped,pushbackQue]
  · simp [views.pushed,pushbackQue,Event.pushedItem]
  · simp [views.submitted,pushbackQue,Event.submittedWrite]
  · simp [views.written,pushbackQue,Event.writtenWrite]
  · simp [views.failed,pushbackQue,Event.fails]
  · simpa [pushbackQue] using views.tickets

theorem take_follows (views : Views loopOf c s q) {th : Thread C}
    (batch : (s.threads (loopOf c)).doing.batchOf c = none)
    (failed : failedOf c th.completion = failedOf c (s.threads (loopOf c)).completion) :
    ∃ q', RetryQueue.step Prod.snd q .take = some q' ∧ Views loopOf c (s.swapQue (loopOf c) th c) q' := by
  have empty : q.batch = [] := by rw [views.batch,batch]; rfl
  refine ⟨_,if_pos empty,?_,?_,?_,?_,?_,?_,views.nextTicket,views.nextSubmission,views.pushed,views.submitted,
    views.written,views.failed,?_⟩
  · simp [swapQue]
  · cases queued : (s.conns c).tcp.sendQue <;> simp [swapQue,views.que,Doing.batchOf,queued,item]
  · cases queued : (s.conns c).tcp.sendQue <;> simp [swapQue,Doing.batchOf,queued]
  · simp [swapQue,views.inFlight]
  · simp [swapQue,views.returning,failed]
  · simp [swapQue,views.dropped]
  · simpa [swapQue,failed] using views.tickets

omit [DecidableEq T] in
theorem Views.batch_cons (views : Views loopOf c s q) {r : Nat} {rest : List Nat} {bError : Bool}
    (batch : (s.threads (loopOf c)).doing = .batch c (r :: rest) bError) :
    q.batch = s.item r :: rest.map s.item ∧ q.holding = bError := by
  constructor
  · rw [views.batch,batch]; simp [Doing.batchOf]
  · exact views.holding (r :: rest,bError) (by rw [batch]; simp [Doing.batchOf])

theorem hold_follows (views : Views loopOf c s q) {r : Nat} {rest : List Nat}
    (batch : (s.threads (loopOf c)).doing = .batch c (r :: rest) true) :
    ∃ q', RetryQueue.step Prod.snd q .hold = some q' ∧
      Views loopOf c ((s.pushbackQue c r).setThread (loopOf c)
        {s.threads (loopOf c) with doing := .batch c rest true}) q' := by
  obtain ⟨front,holding⟩ := views.batch_cons batch
  refine ⟨{q with que := q.que ++ [s.item r], batch := rest.map s.item},by simp [RetryQueue.step,front,holding],
    ?_,?_,?_,?_,?_,?_,views.nextTicket,views.nextSubmission,views.pushed,views.submitted,
    views.written,views.failed,?_⟩
  · simp [views.que,pushbackQue,item]
  · cases rest <;> simp [Doing.batchOf,pushbackQue,item]
  · cases rest <;> simp [Doing.batchOf,holding]
  · simp [views.inFlight,pushbackQue]
  · simp [views.returning]
  · simp [views.dropped,pushbackQue]
  · simpa [pushbackQue] using views.tickets

theorem failing_eq (th : Thread C) : th.failing c = !((failedOf c th.completion).map Write.item).isEmpty := by
  unfold Thread.failing failedOf
  split
  · rename_i d w target completion
    by_cases here : d = c <;> simp [completion,here]
  · rename_i other
    cases completion : th.completion with
    | none => rfl
    | some k =>
      obtain ⟨d,w,target,stage⟩ := k
      cases stage with
      | callback ok =>
        cases ok with
        | true => simp
        | false => exact absurd completion (other d w target)
      | sent => simp

theorem submit_follows (views : Views loopOf c s q) {r : Nat} {rest : List Nat} {w : Write}
    (batch : (s.threads (loopOf c)).doing = .batch c (r :: rest) false)
    (write : w = ⟨r,s.ticket r,s.submissions,(s.threads (loopOf c)).failing c⟩) :
    ∃ q', RetryQueue.step Prod.snd q (.submit s.submissions) = some q' ∧
      Views loopOf c (((s.accept c w).setThread (loopOf c)
        {s.threads (loopOf c) with doing := .batch c rest false}).note [.submitted c w]) q' := by
  obtain ⟨front,holding⟩ := views.batch_cons batch
  have flight : w.flight = ⟨s.item r,s.submissions,!q.returning.isEmpty⟩ := by
    rw [write,Write.flight,failing_eq,views.returning]; rfl
  refine ⟨{q with
      batch := rest.map s.item
      inFlight := q.inFlight ++ [w.flight]
      submitted := q.submitted ++ [w.flight]
      nextSubmission := s.submissions + 1},
    by simp [RetryQueue.step,front,holding,views.nextSubmission,flight],
    ?_,?_,?_,?_,?_,?_,views.nextTicket,Nat.le_refl _,?_,?_,?_,?_,?_⟩
  · simp [views.que,accept,item]
  · cases rest <;> simp [Doing.batchOf,accept,item]
  · cases rest <;> simp [Doing.batchOf,holding]
  · simp [views.inFlight,accept]
  · simp [views.returning]
  · simp [views.dropped,accept]
  · simp [views.pushed,accept,Event.pushedItem]
  · simp [views.submitted,accept,Event.submittedWrite]
  · simp [views.written,accept,Event.writtenWrite]
  · simp [views.failed,accept,Event.fails]
  · intro v hv
    simp only [accept,note_conns,setThread_conns,setConn_conns,Function.update_self,List.mem_append,
      List.mem_singleton,note_threads,setThread_threads,note_ticket,setThread_ticket,setConn_ticket] at hv ⊢
    rcases hv with (old | new) | back
    · exact views.tickets v (.inl old)
    · rw [new,write]
    · exact views.tickets v (.inr back)

theorem refuse_follows (views : Views loopOf c s q) {r : Nat} {rest : List Nat}
    (batch : (s.threads (loopOf c)).doing = .batch c (r :: rest) false) :
    ∃ q', RetryQueue.step Prod.snd q .refuse = some q' ∧
      Views loopOf c (((s.refuse c r).setThread (loopOf c)
        {s.threads (loopOf c) with doing := .batch c rest true}).note [.refused c r]) q' := by
  obtain ⟨front,holding⟩ := views.batch_cons batch
  refine ⟨{q with que := q.que ++ [s.item r], batch := rest.map s.item, holding := true, failed := true},
    by simp [RetryQueue.step,front,holding],
    ?_,?_,?_,?_,?_,?_,views.nextTicket,views.nextSubmission,?_,?_,?_,?_,?_⟩
  · simp [views.que,refuse,pushbackQue,item]
  · cases rest <;> simp [Doing.batchOf,refuse,pushbackQue,item]
  · cases rest <;> simp [Doing.batchOf]
  · simp [views.inFlight,refuse,pushbackQue]
  · simp [views.returning]
  · simp [views.dropped,refuse,pushbackQue]
  · simp [views.pushed,refuse,pushbackQue,Event.pushedItem]
  · simp [views.submitted,refuse,pushbackQue,Event.submittedWrite]
  · simp [views.written,refuse,pushbackQue,Event.writtenWrite]
  · simp [refuse,pushbackQue,Event.fails]
  · simpa [refuse,pushbackQue] using views.tickets

theorem giveBack_follows (views : Views loopOf c s q) {w : Write} {target : Option C}
    (nothing : (s.threads (loopOf c)).doing = .nothing)
    (completion : (s.threads (loopOf c)).completion = some ⟨c,w,target,.callback false⟩) :
    q.returning = [w.item] ∧ ∃ q', RetryQueue.step Prod.snd q .giveBack = some q' ∧
      Views loopOf c ((s.refuse c w.req).setThread (loopOf c)
        {s.threads (loopOf c) with completion := none}) q' := by
  have back : q.returning = [w.item] := by rw [views.returning,completion]; simp [failedOf]
  have empty : q.batch = [] := by rw [views.batch,nothing]; rfl
  have ticket : s.ticket w.req = w.ticket := views.tickets w (.inr (by simp [completion,failedOf]))
  refine ⟨back,{q with que := q.que ++ [w.item], returning := []},by simp [RetryQueue.step,back,empty],
    ?_,?_,?_,?_,?_,?_,views.nextTicket,views.nextSubmission,?_,?_,?_,?_,?_⟩
  · simp [views.que,refuse,pushbackQue,item,Write.item,ticket]
  · simp [empty,nothing,Doing.batchOf]
  · simp [nothing,Doing.batchOf]
  · simp [views.inFlight,refuse,pushbackQue]
  · simp [failedOf]
  · simp [views.dropped,refuse,pushbackQue]
  · simp [views.pushed,refuse,pushbackQue]
  · simp [views.submitted,refuse,pushbackQue]
  · simp [views.written,refuse,pushbackQue]
  · simp [views.failed,refuse,pushbackQue]
  · intro v hv
    refine views.tickets v (.inl ?_)
    simpa [refuse,pushbackQue,failedOf] using hv

theorem doom_flight (f w : Write) : (doom f w).flight = RetryQueue.doom f.flight w.flight := by
  unfold doom RetryQueue.doom
  by_cases later : f.submission < w.submission <;> simp [later,Write.flight,Write.item]

theorem doom_ticket (f w : Write) : (doom f w).ticket = w.ticket := by
  unfold doom; split <;> rfl

theorem complete_follows (views : Views loopOf c s q) {i : Nat} {w : Write} (ok : Bool) (target : Option C)
    (idle : (s.threads (loopOf c)).completion = none) (found : (s.conns c).inFlight[i]? = some w) :
    q.inFlight[i]? = some w.flight ∧ ∃ q', RetryQueue.step Prod.snd q (.complete i ok) = some q' ∧
      Views loopOf c (((s.setConn c ((s.conns c).complete i w ok)).setThread (loopOf c)
        {s.threads (loopOf c) with completion := some ⟨c,w,target,.callback ok⟩}).note [.completed c w ok]) q' := by
  have flight : q.inFlight[i]? = some w.flight := by rw [views.inFlight,List.getElem?_map,found]; rfl
  have none_back : q.returning = [] := by rw [views.returning,idle]; rfl
  have known : ∀ v ∈ (s.conns c).inFlight, s.ticket v.req = v.ticket := fun v hv => views.tickets v (.inl hv)
  have fewer : ∀ v ∈ (s.conns c).inFlight.eraseIdx i, s.ticket v.req = v.ticket :=
    fun v hv => known v (List.mem_of_mem_eraseIdx hv)
  refine ⟨flight,_,by simp only [RetryQueue.step,flight,Option.map_some]; rfl,?_⟩
  cases ok with
  | true =>
    refine ⟨?_,?_,?_,?_,?_,?_,views.nextTicket,views.nextSubmission,?_,?_,?_,?_,?_⟩
    · simp [views.que,Conn.complete,item]
    · simp [views.batch,item]
    · simpa using views.holding
    · simp [views.inFlight,Conn.complete,List.eraseIdx_map]
    · simp [none_back,failedOf]
    · simp [views.dropped,Conn.complete]
    · simp [views.pushed,Event.pushedItem]
    · simp [views.submitted,Event.submittedWrite]
    · simp [views.written,Event.writtenWrite]
    · simp [views.failed,Event.fails]
    · simpa [Conn.complete,failedOf] using fewer
  | false =>
    refine ⟨?_,?_,?_,?_,?_,?_,views.nextTicket,views.nextSubmission,?_,?_,?_,?_,?_⟩
    · simp [views.que,Conn.complete,item]
    · simp [views.batch,item]
    · simpa using views.holding
    · simp [views.inFlight,Conn.complete,List.eraseIdx_map,doom_flight]
    · simp [none_back,failedOf,Write.flight]
    · simp [views.dropped,Conn.complete]
    · simp [views.pushed,Event.pushedItem]
    · simp [views.submitted,Event.submittedWrite]
    · simp [views.written,Event.writtenWrite]
    · simp [Event.fails]
    · intro v hv
      have member : v ∈ ((s.conns c).inFlight.eraseIdx i).map (doom w) ∨ v = w := by
        simpa [Conn.complete,failedOf] using hv
      rcases member with other | rfl
      · obtain ⟨o,ho,rfl⟩ := List.mem_map.mp other
        rw [doom_req,doom_ticket]; exact fewer o ho
      · exact known v (List.mem_of_getElem? found)

omit [DecidableEq T] in
theorem drop_follows (views : Views loopOf c s q) :
    ∃ q', RetryQueue.step Prod.snd q .drop = some q' ∧ Views loopOf c (s.destroyed c) q' := by
  have silent : ∀ e ∈ (s.conns c).tcp.sendQue.map (fun r => (.returned r .destroyed : Event C)), e.conn ≠ some c := by
    intro e he
    obtain ⟨r,_,rfl⟩ := List.mem_map.mp he
    simp [Event.conn]
  have noted := (views.setPool (s.pool.putAll (s.conns c).tcp.sendQue)).note silent
  refine ⟨_,rfl,?_,noted.batch,noted.holding,?_,noted.returning,?_,noted.nextTicket,noted.nextSubmission,
    noted.pushed,noted.submitted,noted.written,noted.failed,?_⟩
  · simp [destroyed]
  · simp [destroyed,views.inFlight]
  · simp [destroyed]
  · simpa [destroyed] using views.tickets

omit [DecidableEq T] in
theorem Views.other (views : Views loopOf c s q) {d : C} (other : d ≠ c) (events : List (Event C))
    (conns : ∀ e, e ≠ d → s'.conns e = s.conns e)
    (batch : (s'.threads (loopOf c)).doing.batchOf c = (s.threads (loopOf c)).doing.batchOf c)
    (failed : failedOf c (s'.threads (loopOf c)).completion = failedOf c (s.threads (loopOf c)).completion)
    (ticket : s'.ticket = s.ticket) (pushes : s'.pushes = s.pushes) (submissions : s.submissions ≤ s'.submissions)
    (history : s'.history = s.history ++ events) (silent : ∀ e ∈ events, e.conn ≠ some c) :
    Views loopOf c s' q := by
  have same := conns c (Ne.symm other)
  refine views.frame events (by rw [same]) (by rw [same]) (by rw [same]) batch failed ?_ (Nat.le_of_eq pushes.symm)
    submissions history silent
  rw [ticket]
  exact fun r changed => absurd rfl changed

theorem Doing.batchOf_other {d : C} (other : d ≠ c) (tempQue : List Nat) (bError : Bool) :
    (Doing.batch d tempQue bError).batchOf c = none := by
  cases tempQue <;> simp [batchOf,other]

theorem swapQue_follows (views : Views loopOf c s q) {d : C} {th : Thread C} (here : loopOf d = t)
    (batch : (s.threads t).doing.batchOf c = none)
    (failed : failedOf c th.completion = failedOf c (s.threads t).completion) (s₀ : WritePath T C) (a : Action T C) :
    Follows loopOf c s₀ (s.swapQue t th d) q a := by
  subst here
  by_cases same : d = c
  · subst same
    obtain ⟨q',taken,views'⟩ := take_follows views batch failed
    exact .inr ⟨.take,q',taken,views',fun _ => trivial⟩
  · refine .inl (views.other same [] (fun e he => by simp [swapQue,he]) ?_ ?_ rfl rfl (Nat.le_refl _)
      (by simp [swapQue]) (by simp))
    · by_cases shared : loopOf c = loopOf d
      · simp [swapQue,shared,batch,Doing.batchOf_other same]
      · simp [swapQue,shared]
    · by_cases shared : loopOf c = loopOf d <;> simp [swapQue,shared,failed]

theorem pushinQue_follows (sound : Sound loopOf s) (placed : Placement.Placed s.held loc)
    (views : Views loopOf c s q) (h : s.pushinQue t = some s') : Follows loopOf c s s' q (.pushinQue t) := by
  obtain ⟨d,task,r,encoded,rfl⟩ := pushinQue_some h
  have ticketed : Views loopOf c (s.ticketed r) q := by
    refine views.frame [] rfl rfl rfl rfl rfl ?_ (Nat.le_succ _) (Nat.le_refl _) (by simp) (by simp)
    intro u changed p hp member
    have same : u = r := by
      by_contra apart
      exact changed (by simp [apart])
    subst same
    have encoder : u ∈ s.held (.encoder t true) := by simp [held,encoded,Doing.encoder,Stage.req]
    have := placed.same_place encoder member
    subst this
    simp at hp
  by_cases same : d = c
  · subst same
    have alive : (s.conns d).alive := by
      have := (sound.threads t).doing; rwa [encoded] at this
    obtain ⟨q',pushed,views'⟩ := push_follows ticketed (r := r) (n := s.pushes) alive (by simp)
      views.nextTicket (by simp)
    refine .inr ⟨_,q',pushed,?_,fun _ => trivial⟩
    refine views'.setThread (t := t) ?_ ?_
    · simp [pushbackQue,encoded,Doing.batchOf]
    · rfl
  · refine .inl (ticketed.other same _ (fun e he => by simp [pushbackQue,he]) ?_ ?_ rfl rfl (Nat.le_refl _) rfl ?_)
    · by_cases here : loopOf c = t <;> simp [pushbackQue,here,encoded,Doing.batchOf]
    · by_cases here : loopOf c = t <;> simp [pushbackQue,here]
    · simp [Event.conn,same]

theorem launch_follows (views : Views loopOf c s q) (h : launch loopOf s t = some s') :
    Follows loopOf c s s' q (.launch t) := by
  rcases launch_some h with ⟨d,task,pushed,⟨_,here,rfl⟩ | ⟨_,rfl⟩⟩
  · exact swapQue_follows views here (by simp [pushed,Doing.batchOf]) rfl _ _
  · have queued := views.setConn (d := d) (k := {s.conns d with queuedSends := (s.conns d).queuedSends + 1})
      fun same => by subst same; exact ⟨rfl,rfl,rfl⟩
    exact .inl (queued.setThread (by simp [pushed,Doing.batchOf]) rfl)

theorem realSend_follows (views : Views loopOf c s q) {d : C} (h : realSend loopOf s d = some s') :
    Follows loopOf c s s' q (.realSend d) := by
  obtain ⟨idle,_,⟨_,rfl⟩ | ⟨_,rfl⟩⟩ := realSend_some h
  · exact .inl views.runWild
  obtain ⟨nothing,_⟩ := Thread.idle_spec idle
  have taken := views.setConn (d := d) (k := {s.conns d with queuedSends := (s.conns d).queuedSends - 1})
    fun same => by subst same; exact ⟨rfl,rfl,rfl⟩
  exact (swapQue_follows taken rfl (by simp [nothing,Doing.batchOf]) rfl _ _).setClosure

omit [DecidableEq T] in
theorem NoneNewer.guard (views : Views loopOf c s q) {a : Nat × Nat} (none_newer : s.NoneNewer c a.2) :
    RetryQueue.NoneNewer Prod.snd q a := by
  intro b hb
  rw [views.que] at hb
  obtain ⟨r,hr,rfl⟩ := List.mem_map.mp hb
  exact none_newer r hr

omit [DecidableEq T] in
theorem submit_guard (views : Views loopOf c s q) {r : Nat} {rest : List Nat} {bError : Bool}
    (batch : (s.threads (loopOf c)).doing = .batch c (r :: rest) bError)
    (live : (s.threads (loopOf c)).failing c = false →
      ∀ w ∈ (s.conns c).inFlight, w.doomed = true → ¬ w.ticket < s.ticket r) (k : Nat) :
    RetryQueue.Guard Prod.snd q (.submit k) := by
  intro a ha none_back f hf doomed
  rw [(views.batch_cons batch).1] at ha
  obtain rfl : s.item r = a := by simpa using ha
  have quiet : (s.threads (loopOf c)).failing c = false := by
    rw [failing_eq,← views.returning,none_back]; rfl
  rw [views.inFlight] at hf
  obtain ⟨w,hw,rfl⟩ := List.mem_map.mp hf
  exact live quiet w hw doomed

theorem uvWrite_follows (sound : Sound loopOf s) (views : Views loopOf c s q) {accepted : Bool}
    (h : s.uvWrite t accepted = some s') : Follows loopOf c s s' q (.uvWrite t accepted) := by
  obtain ⟨d,r,rest,bError,batch,effect⟩ := uvWrite_some h
  have here : loopOf d = t := by
    have := (sound.threads t).doing
    rw [batch] at this
    exact this
  subst here
  rcases effect with ⟨_,rfl⟩ | ⟨_,effect⟩
  · exact .inl views.runWild
  by_cases same : d = c
  · subst same
    have front := (views.batch_cons batch).1
    rcases effect with ⟨rfl,rfl⟩ | ⟨rfl,rfl,_,rfl⟩ | ⟨rfl,rfl,rfl⟩
    · obtain ⟨q',held,views'⟩ := hold_follows views batch
      refine .inr ⟨.hold,q',held,views',fun inOrder a ha => ?_⟩
      simp only [InOrder,batch] at inOrder
      obtain rfl : s.item r = a := by simpa [front] using ha
      exact NoneNewer.guard views (by simpa [item] using inOrder)
    · obtain ⟨q',submitted,views'⟩ := submit_follows views batch rfl
      refine .inr ⟨_,q',submitted,views',fun inOrder => ?_⟩
      simp only [InOrder,batch,and_self,if_true] at inOrder
      exact submit_guard views batch inOrder _
    · obtain ⟨q',refused,views'⟩ := refuse_follows views batch
      refine .inr ⟨.refuse,q',refused,views',fun inOrder a ha => ?_⟩
      simp only [InOrder,batch] at inOrder
      obtain rfl : s.item r = a := by simpa [front] using ha
      exact NoneNewer.guard views (by simpa [item] using inOrder)
  · have apart : ∀ tempQue b, (Doing.batch d tempQue b).batchOf c = none := Doing.batchOf_other same
    rcases effect with ⟨_,rfl⟩ | ⟨_,_,_,rfl⟩ | ⟨_,_,rfl⟩
    · refine .inl (views.other same [] (fun e he => by simp [pushbackQue,he]) ?_ ?_ rfl rfl
        (Nat.le_refl _) (by simp [pushbackQue]) (by simp))
      · by_cases shared : loopOf c = loopOf d <;> simp [pushbackQue,shared,batch,apart]
      · by_cases shared : loopOf c = loopOf d <;> simp [pushbackQue,shared]
    · refine .inl (views.other same _ (fun e he => by simp [accept,he]) ?_ ?_ rfl rfl
        (Nat.le_succ _) rfl (by simp [Event.conn,same]))
      · by_cases shared : loopOf c = loopOf d <;> simp [accept,shared,batch,apart]
      · by_cases shared : loopOf c = loopOf d <;> simp [accept,shared]
    · refine .inl (views.other same _ (fun e he => by simp [refuse,pushbackQue,he]) ?_ ?_ rfl rfl
        (Nat.le_refl _) rfl (by simp [Event.conn,same]))
      · by_cases shared : loopOf c = loopOf d <;> simp [refuse,pushbackQue,shared,batch,apart]
      · by_cases shared : loopOf c = loopOf d <;> simp [refuse,pushbackQue,shared]

theorem afterWrite_follows (views : Views loopOf c s q) {d : C} {i : Nat} {ok : Bool}
    (h : afterWrite loopOf s d i ok = some s') : Follows loopOf c s s' q (.afterWrite d i ok) := by
  obtain ⟨idle,w,found,rfl⟩ := afterWrite_some h
  obtain ⟨nothing,none_below⟩ := Thread.idle_spec idle
  by_cases same : d = c
  · subst same
    obtain ⟨flight,q',completed,views'⟩ := complete_follows views ok (s.getConnection w.req) none_below found
    refine .inr ⟨_,q',completed,views',fun inOrder f hf => ?_⟩
    obtain rfl : w.flight = f := by simpa [flight] using hf
    have inOrder := inOrder w (by simp [found])
    cases ok with
    | true => simpa [Write.flight] using inOrder
    | false =>
      intro g hg
      rw [views.written] at hg
      obtain ⟨v,hv,rfl⟩ := List.mem_map.mp hg
      simpa [Write.flight] using inOrder v hv
  · refine .inl (views.other same _ (fun e he => by simp [he]) ?_ ?_ rfl rfl (Nat.le_refl _) rfl
      (by simp [Event.conn,same]))
    · by_cases shared : loopOf c = loopOf d <;> simp [shared]
    · by_cases shared : loopOf c = loopOf d
      · cases ok <;> simp [shared,none_below,failedOf,same]
      · simp [shared]

theorem settle_follows (sound : Sound loopOf s) (views : Views loopOf c s q) (h : s.settle t = some s') :
    Follows loopOf c s s' q (.settle t) := by
  obtain ⟨d,w,target,ok,completion,free,effect⟩ := settle_some h
  obtain ⟨here,bound,_⟩ := (sound.threads t).completion _ completion
  simp only at here bound
  subst here bound
  have nothing := Thread.free_doing free
  rcases effect with ⟨gone,_⟩ | ⟨e,found,rfl,rfl⟩ | ⟨e,found,rfl,rfl⟩
  · cases gone
  · cases found
    have counted := views.setConn (d := d)
      (k := {s.conns d with tcp := {(s.conns d).tcp with sentCount := (s.conns d).tcp.sentCount + 1}})
      fun same => by subst same; exact ⟨rfl,rfl,rfl⟩
    exact swapQue_follows counted rfl (by simp [nothing,Doing.batchOf]) (by simp [completion,failedOf]) _ _
  · cases found
    by_cases same : d = c
    · subst same
      obtain ⟨back,q',given,views'⟩ := giveBack_follows views nothing completion
      refine .inr ⟨.giveBack,q',given,views',fun inOrder a ha => ?_⟩
      simp only [InOrder,completion] at inOrder
      obtain rfl : w.item = a := by simpa [back] using ha
      exact NoneNewer.guard views inOrder
    · refine .inl (views.other same [] (fun e he => by simp [refuse,pushbackQue,he]) ?_ ?_ rfl rfl
        (Nat.le_refl _) (by simp [refuse,pushbackQue]) (by simp))
      · by_cases shared : loopOf c = loopOf d <;> simp [refuse,pushbackQue,shared]
      · by_cases shared : loopOf c = loopOf d <;>
          simp [refuse,pushbackQue,shared,completion,failedOf,same]

omit [DecidableEq T] in
theorem setConn_follows (views : Views loopOf c s q) {d : C} {k : Conn}
    (sendQue : k.tcp.sendQue = (s.conns d).tcp.sendQue) (inFlight : k.inFlight = (s.conns d).inFlight)
    (alive : k.alive = (s.conns d).alive) (a : Action T C) : Follows loopOf c s (s.setConn d k) q a :=
  .inl (views.setConn fun same => by subst same; exact ⟨sendQue,inFlight,alive⟩)

omit [DecidableEq T] in
theorem destroy_follows [Fintype T] (views : Views loopOf c s q) {d : C} (h : s.destroy d = some s') :
    Follows loopOf c s s' q (.destroy d) := by
  obtain ⟨_,_,_,rfl⟩ := destroy_some h
  by_cases same : d = c
  · subst same
    obtain ⟨q',dropped,views'⟩ := drop_follows views
    exact .inr ⟨.drop,q',dropped,views',fun _ => trivial⟩
  · refine .inl (views.other same _ (fun e he => by simp [destroyed,he]) rfl rfl rfl rfl (Nat.le_refl _) rfl ?_)
    intro e he
    obtain ⟨r,_,rfl⟩ := List.mem_map.mp he
    simp [Event.conn]

theorem step_follows [Fintype T] {a : Action T C} (sound : Sound loopOf s)
    (placed : Placement.Placed s.held loc) (views : Views loopOf c s q) (h : step loopOf s a = some s') :
    Follows loopOf c s s' q a := by
  cases a with
  | setConnection task d =>
    cases h
    exact .inl (views.frame [] rfl rfl rfl rfl rfl (by simp) (Nat.le_refl _) (Nat.le_refl _) (by simp) (by simp))
  | loopStatus t isRunning =>
    cases h
    exact .inl (views.frame [] rfl rfl rfl rfl rfl (by simp) (Nat.le_refl _) (Nat.le_refl _) (by simp) (by simp))
  | sendMsg t d task =>
    obtain ⟨free,_,rfl⟩ := sendMsg_some h
    exact .inl (views.setThread (by simp [Thread.free_doing free,Doing.batchOf]) rfl)
  | getWriteBuffer t =>
    obtain ⟨d,task,called,rfl⟩ := getWriteBuffer_some h
    refine .inl (((views.setPool _).setThread ?_ ?_).note ?_)
    · simp [called,Doing.batchOf]
    · rfl
    · simp [Event.conn]
  | encodeTask t vecBuf =>
    obtain ⟨d,task,r,encoding,rfl⟩ := encodeTask_some h
    exact .inl ((views.setPool _).setThread (by simp [encoding,Doing.batchOf]) rfl)
  | pushinQue t => exact pushinQue_follows sound placed views h
  | launch t => exact launch_follows views h
  | realSend d => exact realSend_follows views h
  | uvWrite t accepted => exact uvWrite_follows sound views h
  | endBatch t =>
    obtain ⟨d,bError,batch,rfl⟩ := endBatch_some h
    have left : Views loopOf c (s.setThread t {s.threads t with doing := .nothing}) q :=
      views.setThread (by simp [batch,Doing.batchOf]) rfl
    exact .inl left.setClosure
  | afterWrite d i ok => exact afterWrite_follows views h
  | settle t => exact settle_follows sound views h
  | putWriteBuffer t =>
    obtain ⟨d,w,target,completion,_,rfl⟩ := putWriteBuffer_some h
    refine .inl (((views.setPool _).setThread ?_ ?_).note ?_)
    · rfl
    · simp [completion,failedOf]
    · simp [Event.conn]
  | call d m =>
    obtain ⟨_,rfl⟩ := call_some h
    exact setConn_follows views (k := {s.conns d with tcp := m.apply (s.conns d).tcp})
      (by cases m <;> simp [Method.apply]) rfl rfl _
  | closeSafe t d =>
    rcases closeSafe_some h with ⟨_,rfl | rfl⟩
    · exact setConn_follows views
        (k := {s.conns d with tcp := ({(s.conns d).tcp with bConnected := false} : TcpConnection).close})
        (by simp) rfl rfl _
    · refine setConn_follows views ?_ ?_ ?_ _ <;> rfl
  | runClose d =>
    obtain ⟨_,_,⟨_,rfl⟩ | ⟨_,rfl⟩⟩ := runClose_some h
    · exact .inl views.runWild
    refine setConn_follows views ?_ ?_ ?_ _
    · simp
    · rfl
    · rfl
  | closeCb d =>
    obtain ⟨_,_,_,_,rfl⟩ := closeCb_some h
    exact setConn_follows views (k := {s.conns d with tcp := (s.conns d).tcp.runCloseCb}) (by simp) rfl rfl _
  | destroy d => exact destroy_follows views h

/-- What holds in every state that a run with bound tasks reaches. -/
structure Reached (loopOf : C → T) (s : WritePath T C) : Prop where
  sound : Sound loopOf s
  lives : ∃ loc, Lives s loc
  owned : ∀ r, .returned r .orphaned ∉ s.history

omit [DecidableEq T] [DecidableEq C] in
theorem Sound.bound (sound : Sound loopOf s) : ¬ s.Unbound := by
  rintro ⟨t,k,completion,none_found⟩
  have found := ((sound.threads t).completion k completion).2.1
  rw [none_found] at found
  cases found

theorem init_reached (vecs : Nat → CharVector) (bufs : C → CharVector) :
    Reached loopOf (init vecs bufs : WritePath T C) := by
  refine ⟨⟨fun c => .of_alive rfl fun _ => rfl,fun t => ⟨trivial,?_⟩⟩,⟨_,init_lives vecs bufs⟩,?_⟩
  · rintro k ⟨⟩
  · intro r member; cases member

theorem step_reached [Fintype T] {a : Action T C} (reached : Reached loopOf s) (bound : Bound s)
    (h : step loopOf s a = some s') : Reached loopOf s' := by
  obtain ⟨loc,lives⟩ := reached.lives
  have effect := step_effect h
  obtain ⟨events,history,orphan⟩ := effect.history
  refine ⟨step_sound reached.sound (bound.binds a) h,effect.lives lives,fun r member => ?_⟩
  rw [history,List.mem_append] at member
  rcases member with old | new
  · exact reached.owned r old
  · exact reached.sound.bound (orphan r new)

theorem run_reached [Fintype T] {actions : List (Action T C)} (reached : Reached loopOf s)
    (bound : Transition.Meets (step loopOf) (fun s _ => Bound s) s actions)
    (run : Transition.run (step loopOf) s actions = some s') : Reached loopOf s' :=
  Transition.run_invariant (fun _ _ _ reached bound => step_reached reached bound) reached bound run

omit [DecidableEq T] in
theorem init_views (vecs : Nat → CharVector) (bufs : C → CharVector) (c : C) :
    Views loopOf c (init vecs bufs : WritePath T C) RetryQueue.start := by
  refine ⟨rfl,rfl,?_,rfl,rfl,rfl,Nat.le_refl _,Nat.le_refl _,rfl,rfl,rfl,rfl,?_⟩
  · rintro p ⟨⟩
  · rintro w (member | member) <;> cases member

theorem run_follows [Fintype T] {actions : List (Action T C)} (reached : Reached loopOf s)
    (views : Views loopOf c s q)
    (bound : Transition.Meets (step loopOf) (fun s _ => Bound s) s actions)
    (run : Transition.run (step loopOf) s actions = some s') :
    ∃ moves q', Transition.run (RetryQueue.step Prod.snd) q moves = some q' ∧ Views loopOf c s' q' ∧
      (Transition.Meets (step loopOf) InOrder s actions →
        Transition.Meets (RetryQueue.step Prod.snd) (RetryQueue.Guard Prod.snd) q moves) := by
  induction actions generalizing s q with
  | nil =>
    cases run
    exact ⟨[],q,rfl,views,fun _ => trivial⟩
  | cons a rest ih =>
    obtain ⟨m,taken,later⟩ := Transition.run_cons_some run
    obtain ⟨loc,lives⟩ := reached.lives
    have next := step_reached reached bound.1 taken
    have bound_rest := bound.2
    rw [taken] at bound_rest
    have guarded : Transition.Meets (step loopOf) InOrder s (a :: rest) →
        s.InOrder a ∧ Transition.Meets (step loopOf) InOrder m rest := by
      rintro ⟨first,others⟩
      rw [taken] at others
      exact ⟨first,others⟩
    rcases step_follows reached.sound lives.placed views taken with stay | ⟨b,p,move,moved,guard⟩
    · obtain ⟨moves,q',done,views',meets⟩ := ih next stay bound_rest later
      exact ⟨moves,q',done,views',fun inOrder => meets (guarded inOrder).2⟩
    · obtain ⟨moves,q',done,views',meets⟩ := ih next moved bound_rest later
      refine ⟨b :: moves,q',by rw [Transition.run_cons,move]; exact done,views',fun inOrder => ⟨guard (guarded inOrder).1,?_⟩⟩
      rw [move]
      exact meets (guarded inOrder).2

end WritePath
end UvRpc
