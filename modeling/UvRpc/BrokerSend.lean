import UvRpc.Broker

/-! What the Broker sends to a node. Every session starts with a task, and every write that
comes back, written or failed, is answered by the next one; what has failed is kept for the
next session. Nothing else than the node's loop touches its connection until stop. -/
namespace UvRpc

open Broker (Item Way Moves)

/-- Tasks go by the order in which they are made. `inFlight` has the requests that libuv
has, oldest first. `cancelled` counts the writes that failed while the handle was being
closed, `broken` the others that failed. -/
structure NodeSend where
  item : Item
  inFlight : List Nat
  made : Nat
  written : List Nat
  sessions : Nat
  cancelled : Nat
  broken : Nat
  deriving DecidableEq, Repr

namespace NodeSend

/-- `refused` tells which write of a batch uv_write refuses although the handle is open. -/
inductive Action where
  | run (refused : Bool)
  | onConnect (status : Int) (refused : Option Nat)
  | onRead (nread : Int) (nullBuf : Bool)
  | afterWrite (ok : Bool) (refused : Option Nat)
  | onClose (refused : Bool)
  | onTimer (refused : Bool)
  deriving DecidableEq, Repr

def conn (s : NodeSend) : TcpConnection := s.item.node.conn

def phase (s : NodeSend) : Phase := s.item.node.phase

def setConn (s : NodeSend) (conn : TcpConnection) : NodeSend :=
  {s with item := {s.item with node := {s.item.node with conn := conn}}}

def start : NodeSend := ⟨⟨.fresh,[.connect]⟩,[],0,[],0,0,0⟩

def pushbackQue (s : NodeSend) (req : Nat) : NodeSend :=
  s.setConn {s.conn with sendQue := s.conn.sendQue ++ [req]}

/-- The loop of realSend. libuv takes writes for an open handle only. -/
def sendEach (s : NodeSend) (bError : Bool) (refused : Option Nat) : List Nat → NodeSend
  | [] => s
  | req :: rest =>
    if bError then sendEach (s.pushbackQue req) true refused rest
    else if s.phase = .live ∧ refused ≠ some 0 then
      sendEach {s with inFlight := s.inFlight ++ [req]} false (refused.map (· - 1)) rest
    else
      let s := s.pushbackQue req
      sendEach (s.setConn s.conn.close) true refused rest

def realSend (s : NodeSend) (refused : Option Nat) : NodeSend :=
  (s.setConn {s.conn with sendQue := []}).sendEach false refused s.conn.sendQue

/-- sendMsg on the node's loop: pushinQue, and realSend at once. -/
def sendNewTask (s : NodeSend) (refused : Option Nat) : NodeSend :=
  {s.pushbackQue s.made with made := s.made + 1}.realSend refused

/-- The send callback comes first. -/
def afterWrite (s : NodeSend) (req : Nat) (ok : Bool) (refused : Option Nat) : NodeSend :=
  let live := decide (s.phase = .live)
  let s := if s.item.node.callbacks then s.sendNewTask refused else s
  if ok then
    let s := s.setConn {s.conn with sentCount := s.conn.sentCount + 1}
    {s with written := s.written ++ [req]}.realSend refused
  else
    let s := (s.setConn {s.conn with bConnected := false}).pushbackQue req
    let s := s.setConn s.conn.close
    if live then {s with broken := s.broken + 1} else {s with cancelled := s.cancelled + 1}

def react (s : NodeSend) (r : Reaction) : NodeSend := {s with item := ⟨r.node,s.item.posts ++ r.posts⟩}

/-- libuv answers all writes, in order, before it runs the close callback. -/
def step (s : NodeSend) : Action → Option NodeSend
  | .run refused =>
    match s.item.posts with
    | [] => none
    | task :: posts => some {s with item := ⟨s.item.node.run refused task,posts⟩}
  | .onConnect status refused =>
    (s.item.node.event false (.onConnect status)).map fun r =>
      if status < 0 ∨ r.node.callbacks = false then s.react r
      else {s.react r with sessions := s.sessions + 1}.sendNewTask refused
  | .onRead nread nullBuf => (s.item.node.event false (.onRead nread nullBuf)).map s.react
  | .afterWrite ok refused =>
    match s.inFlight with
    | [] => none
    | req :: rest => some ({s with inFlight := rest}.afterWrite req ok refused)
  | .onClose refused =>
    if s.inFlight = [] then (s.item.node.event false (.onClose refused)).map s.react else none
  | .onTimer refused => (s.item.node.event false (.onTimer refused)).map s.react

/-! ## One batch -/

variable {s t : NodeSend} {w v : Way} {refused : Option Nat} {req : Nat}

@[simp] theorem setConn_conn (s : NodeSend) (c : TcpConnection) : (s.setConn c).conn = c := rfl
@[simp] theorem setConn_phase (s : NodeSend) (c : TcpConnection) : (s.setConn c).phase = c.handle.phase := rfl
@[simp] theorem setConn_inFlight (s : NodeSend) (c : TcpConnection) : (s.setConn c).inFlight = s.inFlight := rfl
@[simp] theorem setConn_setConn (s : NodeSend) (c d : TcpConnection) : (s.setConn c).setConn d = s.setConn d := rfl

@[simp] theorem setConn_same (s : NodeSend) : s.setConn s.conn = s := rfl

theorem close_conn_phase {c : TcpConnection} (busy : c.handle.phase = .live ∨ c.handle.phase = .closing) :
    c.close.handle.phase = .closing := by
  rcases busy with live | closing
  · exact Broker.close_live live
  · simp [TcpConnection.close_phase,UvTcp.isClosing,closing]

/-- After the first write that is refused all others wait again. -/
theorem sendEach_error (queue : List Nat) (s : NodeSend) (refused : Option Nat) :
    s.sendEach true refused queue = s.setConn {s.conn with sendQue := s.conn.sendQue ++ queue} := by
  induction queue generalizing s with
  | nil => simp only [sendEach,List.append_nil]; rfl
  | cons req rest ih => simp [sendEach,ih,pushbackQue]

/-- What a batch can do: libuv gets the first of the requests, the others wait again in
their order. If there are any the handle is being closed, and else it is as before. -/
structure Batch (s : NodeSend) (queue : List Nat) (refused : Option Nat) (taken back : List Nat)
    (conn : TcpConnection) : Prop where
  queue : queue = taken ++ back
  waiting : conn.sendQue = back
  same : back = [] → conn.handle.phase = s.phase
  returned : back ≠ [] → conn.handle.phase = .closing
  closing : s.phase = .closing → taken = []
  live : s.phase = .live → refused = none → back = []

theorem sendEach_batch (queue : List Nat) (s : NodeSend) (refused : Option Nat)
    (busy : s.phase = .live ∨ s.phase = .closing) (empty : s.conn.sendQue = []) :
    ∃ taken back conn, s.Batch queue refused taken back conn ∧
      s.sendEach false refused queue = {s.setConn conn with inFlight := s.inFlight ++ taken} := by
  induction queue generalizing s refused with
  | nil =>
    refine ⟨[],[],s.conn,⟨rfl,empty,fun _ => rfl,by simp,fun _ => rfl,fun _ _ => rfl⟩,?_⟩
    simp [sendEach]
  | cons req rest ih =>
    by_cases accepted : s.phase = .live ∧ refused ≠ some 0
    · obtain ⟨taken,back,conn,batch,sent⟩ :=
        ih {s with inFlight := s.inFlight ++ [req]} (refused.map (· - 1)) busy empty
      refine ⟨req :: taken,back,conn,⟨by rw [batch.queue]; rfl,batch.waiting,batch.same,batch.returned,?_,?_⟩,?_⟩
      · intro closing
        rw [accepted.1] at closing
        cases closing
      · rintro live rfl
        exact batch.live live rfl
      · simp [sendEach,accepted,sent,setConn]
    · have closed : (s.pushbackQue req).conn.close.handle.phase = .closing := close_conn_phase busy
      have first : (s.pushbackQue req).conn.close.sendQue = [req] := by simp [pushbackQue,empty]
      refine ⟨[],req :: rest,{(s.pushbackQue req).conn.close with sendQue := req :: rest},
        ⟨rfl,rfl,nofun,fun _ => closed,fun _ => rfl,?_⟩,?_⟩
      · rintro live rfl
        exact absurd ⟨live,by simp⟩ accepted
      · rw [sendEach,if_neg (by simp),if_neg accepted,sendEach_error]
        simp only [setConn_conn,first,List.append_nil]
        rfl

theorem realSend_batch (busy : s.phase = .live ∨ s.phase = .closing) (refused : Option Nat) :
    ∃ taken back conn, s.Batch s.conn.sendQue refused taken back conn ∧
      s.realSend refused = {s.setConn conn with inFlight := s.inFlight ++ taken} := by
  obtain ⟨taken,back,conn,batch,sent⟩ :=
    sendEach_batch s.conn.sendQue (s.setConn {s.conn with sendQue := []}) refused busy rfl
  exact ⟨taken,back,conn,⟨batch.queue,batch.waiting,batch.same,batch.returned,batch.closing,batch.live⟩,sent⟩

theorem sendNewTask_batch (busy : s.phase = .live ∨ s.phase = .closing) (refused : Option Nat) :
    ∃ taken back conn, s.Batch (s.conn.sendQue ++ [s.made]) refused taken back conn ∧
      s.sendNewTask refused = {s.setConn conn with inFlight := s.inFlight ++ taken, made := s.made + 1} := by
  obtain ⟨taken,back,conn,batch,sent⟩ :=
    realSend_batch (s := {s.pushbackQue s.made with made := s.made + 1}) busy refused
  exact ⟨taken,back,conn,⟨batch.queue,batch.waiting,batch.same,batch.returned,batch.closing,batch.live⟩,sent⟩

theorem realSend_nil (empty : s.conn.sendQue = []) (refused : Option Nat) : s.realSend refused = s := by
  have same : s.setConn {s.conn with sendQue := []} = s := by
    rw [← empty]
    rfl
  rw [realSend,empty,same]
  rfl

theorem afterWrite_written (busy : s.phase = .live ∨ s.phase = .closing) (callbacks : s.item.node.callbacks = true)
    (req : Nat) (refused : Option Nat) :
    ∃ taken back conn, s.Batch (s.conn.sendQue ++ [s.made]) refused taken back conn ∧
      s.afterWrite req true refused =
        {s.setConn conn with inFlight := s.inFlight ++ taken, made := s.made + 1, written := s.written ++ [req]} := by
  obtain ⟨taken,back,conn,batch,sent⟩ := sendNewTask_batch busy refused
  let counted : NodeSend :=
    {s.setConn {conn with sentCount := conn.sentCount + 1} with
      inFlight := s.inFlight ++ taken, made := s.made + 1, written := s.written ++ [req]}
  have again : s.afterWrite req true refused = counted.realSend refused := by
    simp only [afterWrite,callbacks,if_true,sent]
    rfl
  by_cases none_back : back = []
  · refine ⟨taken,back,{conn with sentCount := conn.sentCount + 1},
      ⟨batch.queue,batch.waiting,batch.same,batch.returned,batch.closing,batch.live⟩,?_⟩
    have empty : counted.conn.sendQue = [] := batch.waiting.trans none_back
    rw [again,realSend_nil empty]
  -- what was refused is tried once more and refused again: the handle is being closed
  · have closing : counted.phase = .closing := batch.returned none_back
    obtain ⟨taken',back',conn',batch',sent'⟩ := realSend_batch (s := counted) (.inr closing) refused
    have none_taken := batch'.closing closing
    have queue : back = back' := by
      have := batch'.queue
      rw [none_taken,List.nil_append] at this
      exact batch.waiting.symm.trans this
    have still : conn'.handle.phase = .closing := batch'.returned (queue ▸ none_back)
    refine ⟨taken,back,conn',⟨batch.queue,batch'.waiting.trans queue.symm,fun empty => absurd empty none_back,
      fun _ => still,batch.closing,batch.live⟩,?_⟩
    rw [again,sent',none_taken,List.append_nil]
    rfl

theorem afterWrite_failed (busy : s.phase = .live ∨ s.phase = .closing) (callbacks : s.item.node.callbacks = true)
    (req : Nat) (refused : Option Nat) :
    ∃ taken back conn, s.conn.sendQue ++ [s.made] = taken ++ back ∧ conn.sendQue = back ++ [req] ∧
      conn.handle.phase = .closing ∧ (s.phase = .closing → taken = []) ∧
      (s.phase = .live → refused = none → back = []) ∧
      s.afterWrite req false refused =
        {s.setConn conn with
          inFlight := s.inFlight ++ taken, made := s.made + 1
          cancelled := s.cancelled + if s.phase = .live then 0 else 1
          broken := s.broken + if s.phase = .live then 1 else 0} := by
  obtain ⟨taken,back,conn,batch,sent⟩ := sendNewTask_batch busy refused
  let kept : TcpConnection := {conn with bConnected := false, sendQue := conn.sendQue ++ [req]}
  have phase : kept.handle.phase = .live ∨ kept.handle.phase = .closing := by
    by_cases none_back : back = []
    · exact (batch.same none_back).symm ▸ busy
    · exact .inr (batch.returned none_back)
  refine ⟨taken,back,kept.close,batch.queue,?_,close_conn_phase phase,batch.closing,batch.live,?_⟩
  · rw [TcpConnection.close_sendQue]
    exact congrArg (· ++ [req]) batch.waiting
  · simp only [afterWrite,callbacks,if_true,sent]
    by_cases live : s.phase = .live <;> simp only [live,decide_true,decide_false,if_true,if_false] <;> rfl

/-! ## One step -/

/-- Every task is waiting, in flight or written, and each was made for a session or for a
write that came back. libuv has writes in a session and while it closes the handle. -/
structure Sent (s : NodeSend) (w : Way) : Prop where
  at_w : s.item.At w
  all : (s.conn.sendQue ++ s.inFlight ++ s.written).Perm (List.range s.made)
  made : s.made = s.sessions + s.written.length + s.cancelled + s.broken
  answered : w ≠ .session → w ≠ .closing → s.inFlight = []

theorem start_sent : start.Sent .connecting := by
  refine ⟨⟨rfl,rfl,rfl,rfl,fun _ => ?_,?_,rfl,fun _ => rfl⟩,.refl _,rfl,fun _ _ => rfl⟩
  · simp [start,Node.fresh]
  · simp [start,Node.fresh]

inductive Effect (s : NodeSend) (w : Way) : Action → NodeSend → Way → Prop
  | moves {a : Action} {y : Item} {v : Way} (next : w.Next v) (at_v : y.At v) (silent : v = .session → w = .session)
    (queue : y.node.conn.sendQue = s.conn.sendQue) (answered : w = .closing → s.inFlight = []) :
    Effect s w a {s with item := y} v
  | connects {status : Int} {refused : Option Nat} {taken back : List Nat} {y : Item} {v : Way}
    (attempting : w = .attempting) (at_v : y.At v) (batch : s.conn.sendQue ++ [s.made] = taken ++ back)
    (waiting : y.node.conn.sendQue = back) (phase : v = .session ∧ back = [] ∨ v = .closing)
    (all : refused = none → v = .session) :
    Effect s w (.onConnect status refused)
      {s with item := y, inFlight := s.inFlight ++ taken, made := s.made + 1, sessions := s.sessions + 1} v
  | written {refused : Option Nat} {req : Nat} {rest taken back : List Nat} {y : Item} {v : Way}
    (flying : s.inFlight = req :: rest) (at_v : y.At v) (batch : s.conn.sendQue ++ [s.made] = taken ++ back)
    (waiting : y.node.conn.sendQue = back)
    (phase : w = .session ∧ (v = .session ∧ back = [] ∨ v = .closing ∧ refused ≠ none) ∨
      w = .closing ∧ v = .closing ∧ taken = []) :
    Effect s w (.afterWrite true refused)
      {s with item := y, inFlight := rest ++ taken, made := s.made + 1, written := s.written ++ [req]} v
  | failed {refused : Option Nat} {req : Nat} {rest taken back : List Nat} {y : Item}
    (flying : s.inFlight = req :: rest) (at_v : y.At .closing) (batch : s.conn.sendQue ++ [s.made] = taken ++ back)
    (waiting : y.node.conn.sendQue = back ++ [req])
    (phase : w = .session ∧ s.phase = .live ∧ (refused = none → back = []) ∨
      w = .closing ∧ s.phase = .closing ∧ taken = []) :
    Effect s w (.afterWrite false refused)
      {s with
        item := y, inFlight := rest ++ taken, made := s.made + 1
        cancelled := s.cancelled + if s.phase = .live then 0 else 1
        broken := s.broken + if s.phase = .live then 1 else 0} .closing

theorem Sent.busy (sent : s.Sent w) {rest : List Nat} (flying : s.inFlight = req :: rest) :
    w = .session ∧ s.phase = .live ∨ w = .closing ∧ s.phase = .closing := by
  by_cases session : w = .session
  · subst session
    exact .inl ⟨rfl,sent.at_w.phase⟩
  · by_cases closing : w = .closing
    · subst closing
      exact .inr ⟨rfl,sent.at_w.phase⟩
    · rw [sent.answered session closing] at flying
      cases flying

/-- A connection that goes on, or is closed, in its session or while it is being closed. -/
theorem carry {x : Item} (at_w : x.At w) (busy : w = .session ∨ w = .closing) {conn : TcpConnection} (v : Way)
    (phase : v = w ∧ conn.handle.phase = x.node.phase ∨ v = .closing ∧ conn.handle.phase = .closing) :
    (⟨{x.node with conn := conn},x.posts⟩ : Item).At v := by
  have same : conn.handle.phase = v.phase := by
    rcases phase with ⟨rfl,same⟩ | ⟨rfl,closing⟩
    · exact same.trans at_w.phase
    · exact closing
  rcases busy with rfl | rfl
  · rcases phase with ⟨rfl,_⟩ | ⟨rfl,_⟩
    · exact ⟨at_w.posts,at_w.attempts,at_w.timers,same,at_w.reading,at_w.refused,at_w.callbacks,nofun⟩
    · have taken : x.node.refused = true ↔ Way.closing = .lost := by simpa using at_w.refused
      exact ⟨at_w.posts,at_w.attempts,at_w.timers,same,fun other => absurd rfl other,taken,at_w.callbacks,nofun⟩
  · obtain rfl : v = .closing := by
      rcases phase with ⟨rfl,_⟩ | ⟨rfl,_⟩ <;> rfl
    exact ⟨at_w.posts,at_w.attempts,at_w.timers,same,at_w.reading,at_w.refused,at_w.callbacks,nofun⟩

/-- The Broker's callbacks send nothing. -/
theorem event_sendQue {n : Node} {e : NodeEvent} {r : Reaction} (reacts : n.event false e = some r) :
    r.node.conn.sendQue = n.conn.sendQue := by
  cases e with
  | onConnect status =>
    simp only [Node.event] at reacts
    split at reacts
    case isFalse => cases reacts
    split at reacts <;> (obtain rfl := Option.some.inj reacts; simp)
  | onRead nread nullBuf =>
    simp only [Node.event] at reacts
    split at reacts
    case isFalse => cases reacts
    obtain rfl := Option.some.inj reacts
    cases nullBuf <;> by_cases negative : nread < 0 <;> simp [TcpConnection.onReadClose,negative]
  | writeFails =>
    simp only [Node.event] at reacts
    split at reacts
    case isFalse => cases reacts
    obtain rfl := Option.some.inj reacts
    simp
  | onClose refused =>
    simp only [Node.event] at reacts
    split at reacts
    case isFalse => cases reacts
    split at reacts
    · simp only [Bool.false_eq_true,if_false,Option.some.injEq] at reacts
      subst reacts
      simp [Node.reConnect,Node.connect]
    · obtain rfl := Option.some.inj reacts
      simp
  | onTimer refused =>
    simp only [Node.event] at reacts
    split at reacts
    case isFalse => cases reacts
    obtain rfl := Option.some.inj reacts
    simp [Node.reConnect,Node.connect]

theorem run_sendQue (n : Node) (refused : Bool) (task : NodeTask) : (n.run refused task).conn.sendQue = n.conn.sendQue := by
  cases task <;> simp [Node.run,Node.connect]

theorem Sent.reacts (sent : s.Sent w) {e : NodeEvent} {r : Reaction} (reacts : s.item.node.event false e = some r) :
    ∃ v, w.Next v ∧ (s.react r).item.At v :=
  sent.at_w.moves (i := 0) (.event reacts)

theorem of_session (next : Way.Next .session v) : v = .session ∨ v = .closing := by
  cases next with
  | reads => exact .inl rfl
  | closes => exact .inr rfl
  | refused connects => cases connects

theorem next_session (next : w.Next v) (other : w ≠ .attempting) : v = .session → w = .session := by
  rintro rfl
  cases next with
  | connected => exact absurd rfl other
  | reads => rfl

theorem written_effect (sent : s.Sent w) {rest : List Nat} (flying : s.inFlight = req :: rest) (refused : Option Nat) :
    ∃ v, Effect s w (.afterWrite true refused) ({s with inFlight := rest}.afterWrite req true refused) v := by
  have busy := sent.busy flying
  obtain ⟨taken,back,conn,batch,done⟩ := afterWrite_written (s := {s with inFlight := rest})
    (busy.imp And.right And.right) sent.at_w.callbacks req refused
  have ways := busy.imp And.left And.left
  rw [done]
  by_cases none_back : back = []
  · have session : w = .session ∧ s.phase = .live := by
      rcases busy with session | closing
      · exact session
      · have queue : s.conn.sendQue ++ [s.made] = taken ++ back := batch.queue
        rw [batch.closing closing.2,none_back] at queue
        simp at queue
    exact ⟨_,.written flying (carry sent.at_w ways w (.inl ⟨rfl,batch.same none_back⟩)) batch.queue batch.waiting
      (.inl ⟨session.1,.inl ⟨session.1,none_back⟩⟩)⟩
  · have closing : conn.handle.phase = .closing := batch.returned none_back
    refine ⟨_,.written flying (carry sent.at_w ways .closing (.inr ⟨rfl,closing⟩)) batch.queue batch.waiting ?_⟩
    exact busy.imp (fun session => ⟨session.1,.inr ⟨rfl,fun all => none_back (batch.live session.2 all)⟩⟩)
      (fun closing => ⟨closing.1,rfl,batch.closing closing.2⟩)

theorem failed_effect (sent : s.Sent w) {rest : List Nat} (flying : s.inFlight = req :: rest) (refused : Option Nat) :
    Effect s w (.afterWrite false refused) ({s with inFlight := rest}.afterWrite req false refused) .closing := by
  have busy := sent.busy flying
  obtain ⟨taken,back,conn,queue,waiting,closed,closing,live,done⟩ := afterWrite_failed (s := {s with inFlight := rest})
    (busy.imp And.right And.right) sent.at_w.callbacks req refused
  have at_v := carry sent.at_w (busy.imp And.left And.left) .closing (.inr ⟨rfl,closed⟩)
  rw [done]
  exact .failed flying at_v queue waiting
    (busy.imp (fun session => ⟨session.1,session.2,live session.2⟩) fun other => ⟨other.1,other.2,closing other.2⟩)

theorem answer {n : Node} {status : Int} {r : Reaction} (reacts : n.event false (.onConnect status) = some r) :
    0 < n.attempts ∧ (status < 0 → r.posts = if n.callbacks then [.startTimer] else []) ∧
      (¬ status < 0 → r.node.reading = true ∧ r.node.phase = .live) := by
  simp only [Node.event] at reacts
  split at reacts
  case isFalse => cases reacts
  rename_i asked
  split at reacts
  · rename_i negative
    obtain rfl := Option.some.inj reacts
    exact ⟨asked.1,fun _ => rfl,fun success => absurd negative success⟩
  · rename_i success
    obtain rfl := Option.some.inj reacts
    refine ⟨asked.1,fun negative => absurd negative success,fun _ => ⟨rfl,?_⟩⟩
    simpa [Node.phase,TcpConnection.onConnect_handle] using asked.2 (Int.not_lt.mp success)

theorem connects_effect (sent : s.Sent w) {status : Int} {r : Reaction}
    (reacts : s.item.node.event false (.onConnect status) = some r) (success : ¬ status < 0) (refused : Option Nat) :
    ∃ v, Effect s w (.onConnect status refused)
      ({s.react r with sessions := s.sessions + 1}.sendNewTask refused) v := by
  obtain ⟨asked,_,opened⟩ := answer reacts
  have attempting := sent.at_w.attempting asked
  obtain ⟨u,_,at_u⟩ := sent.reacts reacts
  obtain ⟨reading,live⟩ := opened success
  obtain rfl : u = .session := at_u.session live reading
  obtain ⟨taken,back,conn,batch,done⟩ :=
    sendNewTask_batch (s := {s.react r with sessions := s.sessions + 1}) (.inl live) refused
  have queue : s.conn.sendQue ++ [s.made] = taken ++ back := by
    have := batch.queue
    rwa [show ({s.react r with sessions := s.sessions + 1} : NodeSend).conn.sendQue = s.conn.sendQue from
      event_sendQue reacts] at this
  have idle : s.inFlight = [] := sent.answered (by simp [attempting]) (by simp [attempting])
  rw [done]
  by_cases none_back : back = []
  · exact ⟨_,.connects attempting (carry at_u (.inl rfl) .session (.inl ⟨rfl,batch.same none_back⟩)) queue batch.waiting
      (.inl ⟨rfl,none_back⟩) fun _ => rfl⟩
  · exact ⟨_,.connects attempting (carry at_u (.inl rfl) .closing (.inr ⟨rfl,batch.returned none_back⟩)) queue
      batch.waiting (.inr rfl) fun all => absurd (batch.live live all) none_back⟩

theorem step_effect (sent : s.Sent w) {a : Action} (taken : step s a = some t) : ∃ v, Effect s w a t v := by
  cases a with
  | run refused =>
    simp only [step] at taken
    split at taken
    · cases taken
    rename_i task posts queued
    obtain rfl := Option.some.inj taken
    have node : s.item = ⟨s.item.node,task :: posts⟩ := by rw [← queued]
    have moves : Moves false 0 (.run 0 refused) s.item ⟨s.item.node.run refused task,posts⟩ := by
      rw [node]
      exact .run ..
    obtain ⟨v,next,at_v⟩ := sent.at_w.moves moves
    have posted {u : Way} (none_posted : u.posts = []) : w ≠ u := by
      rintro rfl
      have := sent.at_w.posts
      rw [queued,none_posted] at this
      cases this
    exact ⟨v,.moves next at_v (next_session next (posted rfl)) (run_sendQue ..) fun closing => absurd closing (posted rfl)⟩
  | onConnect status refused =>
    obtain ⟨r,reacts,rfl⟩ := Option.map_eq_some_iff.mp taken
    obtain ⟨v,next,at_v⟩ := sent.reacts reacts
    have callbacks : r.node.callbacks = true := at_v.callbacks
    by_cases failure : status < 0
    · rw [if_pos (.inl failure)]
      obtain ⟨asked,posts,_⟩ := answer reacts
      have attempting := sent.at_w.attempting asked
      have posted : (s.react r).item.posts = s.item.posts ++ [.startTimer] := by
        simp [react,posts failure,sent.at_w.callbacks]
      refine ⟨v,.moves next at_v ?_ (event_sendQue reacts) (by simp [attempting])⟩
      rintro rfl
      rw [at_v.posts] at posted
      simp [Way.posts] at posted
    · rw [if_neg (by simp [failure,callbacks])]
      exact connects_effect sent reacts failure refused
  | onRead nread nullBuf =>
    obtain ⟨r,reacts,rfl⟩ := Option.map_eq_some_iff.mp taken
    obtain ⟨v,next,at_v⟩ := sent.reacts reacts
    have session : w = .session := by
      cases Broker.event_reacts reacts with
      | session _ _ reading live => exact sent.at_w.session live reading
    exact ⟨v,.moves next at_v (fun _ => session) (event_sendQue reacts) (by simp [session])⟩
  | afterWrite ok refused =>
    simp only [step] at taken
    split at taken
    · cases taken
    rename_i req rest flying
    obtain rfl := Option.some.inj taken
    cases ok with
    | true => exact written_effect sent flying refused
    | false => exact ⟨_,failed_effect sent flying refused⟩
  | onClose refused =>
    simp only [step] at taken
    split at taken
    case isFalse => cases taken
    rename_i answered
    obtain ⟨r,reacts,rfl⟩ := Option.map_eq_some_iff.mp taken
    obtain ⟨v,next,at_v⟩ := sent.reacts reacts
    have closing : w = .closing := by
      cases Broker.event_reacts reacts with
      | ends _ closing | reconnects _ closing => exact sent.at_w.closing closing
      | session talks => rcases talks with other | ⟨_,_,other⟩ <;> cases other
    exact ⟨v,.moves next at_v (next_session next (by simp [closing])) (event_sendQue reacts) fun _ => answered⟩
  | onTimer refused =>
    obtain ⟨r,reacts,rfl⟩ := Option.map_eq_some_iff.mp taken
    obtain ⟨v,next,at_v⟩ := sent.reacts reacts
    have retrying : w = .retrying := by
      cases Broker.event_reacts reacts with
      | retries _ pending => exact sent.at_w.retrying pending
      | session talks => rcases talks with other | ⟨_,_,other⟩ <;> cases other
    exact ⟨v,.moves next at_v (next_session next (by simp [retrying])) (event_sendQue reacts) (by simp [retrying])⟩

/-! ## Runs -/

/-- A new task joins the others, and some of those that waited are in flight. -/
theorem batch_all {queue flight written taken back : List Nat} {made : Nat}
    (all : (queue ++ flight ++ written).Perm (List.range made)) (batch : queue ++ [made] = taken ++ back) :
    (back ++ (flight ++ taken) ++ written).Perm (List.range (made + 1)) := by
  rw [List.perm_iff_count] at all ⊢
  intro x
  have before := all x
  have moved := congrArg (List.count x) batch
  simp only [List.range_succ,List.count_append] at before moved ⊢
  omega

theorem head_all {queue rest written all : List Nat} (perm : (queue ++ req :: rest ++ written).Perm all) :
    (queue ++ rest ++ (written ++ [req])).Perm all ∧ (queue ++ rest ++ ([req] ++ written)).Perm all := by
  have singled : queue ++ req :: rest ++ written = queue ++ ([req] ++ rest) ++ written := rfl
  rw [singled] at perm
  constructor
  all_goals
    rw [List.perm_iff_count] at perm ⊢
    intro x
    have before := perm x
    simp only [List.count_append] at before ⊢
    omega

theorem Effect.sent (sent : s.Sent w) {a : Action} (effect : Effect s w a t v) : t.Sent v := by
  have all := sent.all
  have made := sent.made
  cases effect with
  | @moves _ y _ next at_v silent queue answered =>
    refine ⟨at_v,by simpa [conn,queue] using all,made,fun other open_ => ?_⟩
    by_cases closing : w = .closing
    · exact answered closing
    · refine sent.answered (fun session => ?_) closing
      subst session
      rcases of_session next with rfl | rfl
      · exact other rfl
      · exact open_ rfl
  | connects attempting at_v batch waiting phase _ =>
    refine ⟨at_v,by simpa only [conn,waiting] using batch_all all batch,?_,fun other open_ => ?_⟩
    · simp only []
      omega
    · rcases phase with ⟨rfl,_⟩ | rfl
      · exact absurd rfl other
      · exact absurd rfl open_
  | @written refused req rest taken back y v flying at_v batch waiting phase =>
    rw [flying] at all
    refine ⟨at_v,by simpa only [conn,waiting] using batch_all (head_all all).1 batch,?_,fun other open_ => ?_⟩
    · simp only [List.length_append,List.length_singleton]
      omega
    · rcases phase with ⟨_,⟨rfl,_⟩ | ⟨rfl,_⟩⟩ | ⟨_,rfl,_⟩
      · exact absurd rfl other
      · exact absurd rfl open_
      · exact absurd rfl open_
  | @failed refused req rest taken back y flying at_v batch waiting phase =>
    rw [flying] at all
    have kept := batch_all (head_all all).2 batch
    refine ⟨at_v,?_,?_,fun _ open_ => absurd rfl open_⟩
    · rw [List.perm_iff_count] at kept ⊢
      intro x
      have same := kept x
      simp only [conn,waiting,List.count_append] at same ⊢
      omega
    · simp only []
      split <;> omega

theorem run_sent {actions : List Action} (run : Transition.run step start actions = some s) : ∃ w, s.Sent w :=
  Transition.run_invariant_all (P := fun s => ∃ w, s.Sent w)
    (fun _ _ _ ⟨_,sent⟩ taken => let ⟨v,effect⟩ := step_effect sent taken; ⟨v,effect.sent sent⟩)
    ⟨.connecting,start_sent⟩ run

def load (s : NodeSend) : Nat := s.conn.sendQue.length + s.inFlight.length

theorem Sent.load (sent : s.Sent w) : s.load = s.sessions + s.cancelled + s.broken := by
  have length := sent.all.length_eq
  have made := sent.made
  simp only [List.length_append,List.length_range] at length
  unfold NodeSend.load
  omega

/-- As libuv is used to do: it takes the writes of an open handle, and cancels those that
are left when it closes. -/
def Usual (s : NodeSend) : Action → Prop
  | .onConnect _ refused => refused = none
  | .afterWrite ok refused => (s.phase = .live → refused = none) ∧ (s.phase = .closing → ok = false)
  | _ => True

instance usualDecidable (s : NodeSend) (a : Action) : Decidable (s.Usual a) := by
  cases a <;> unfold Usual <;> infer_instance

/-- In a session everything is in flight, and the number of requests has doubled with each
session before it. Outside of one the requests are those that the next session starts with,
after the writes that are still to be cancelled. -/
structure Doubled (s : NodeSend) (w : Way) : Prop extends s.Sent w where
  flying : w = .session → s.conn.sendQue = []
  session : w = .session → 2 ^ s.sessions ≤ s.load + 1 ∧ (s.broken = 0 → 2 ^ s.sessions = s.load + 1)
  outside : w ≠ .session → 2 ^ (s.sessions + 1) ≤ s.load + s.inFlight.length + 2 ∧
    (s.broken = 0 → 2 ^ (s.sessions + 1) = s.load + s.inFlight.length + 2)

theorem start_doubled : start.Doubled .connecting :=
  ⟨start_sent,nofun,nofun,fun _ => ⟨by decide,fun _ => by decide⟩⟩

theorem Effect.doubled (doubled : s.Doubled w) {a : Action} (usual : s.Usual a) (effect : Effect s w a t v) :
    t.Doubled v := by
  have sent := effect.sent doubled.toSent
  have flying := doubled.flying
  have session := doubled.session
  have outside := doubled.outside
  simp only [load,conn] at flying session outside
  cases effect with
  | @moves _ y _ next at_v silent queue answered =>
    have same : y.node.conn.sendQue.length = s.conn.sendQue.length := congrArg List.length queue
    refine ⟨sent,fun inside => queue.trans (flying (silent inside)),fun inside => ?_,fun other => ?_⟩
    · simpa only [load,conn,same] using session (silent inside)
    · simp only [load,conn,same]
      by_cases before : w = .session
      -- the session ends with everything in flight
      · have all := session before
        simp only [flying before,List.length_nil] at all ⊢
        rw [Nat.pow_succ]
        exact ⟨by omega,fun own => by have := all.2 own; omega⟩
      · exact outside before
  | connects attempting at_v batch waiting phase all =>
    obtain rfl := all usual
    have none_back := (phase.resolve_right (by simp)).2
    have idle := doubled.answered (by simp [attempting]) (by simp [attempting])
    have length := congrArg List.length batch
    have before := outside (by simp [attempting])
    simp only [conn,none_back,idle,List.length_append,List.length_singleton,List.length_nil] at length before
    refine ⟨sent,fun _ => waiting.trans none_back,fun _ => ?_,fun other => absurd rfl other⟩
    simp only [load,conn,waiting,none_back,idle,List.length_append,List.length_nil]
    exact ⟨by omega,fun own => by have := before.2 own; omega⟩
  | @written refused req rest taken back y v flight at_v batch waiting phase =>
    rcases phase with ⟨before,unbroken⟩ | ⟨before,_⟩
    · have live : s.phase = .live := doubled.at_w.phase.trans (congrArg Way.phase before)
      obtain ⟨rfl,none_back⟩ := unbroken.resolve_right fun broken => broken.2 (usual.1 live)
      have all := session before
      have length := congrArg List.length batch
      simp only [conn,flying before,none_back,flight,List.length_append,List.length_cons,List.length_nil] at all length
      refine ⟨sent,fun _ => waiting.trans none_back,fun _ => ?_,fun other => absurd rfl other⟩
      simp only [load,conn,waiting,none_back,List.length_append,List.length_nil]
      exact ⟨by omega,fun own => by have := all.2 own; omega⟩
    · cases usual.2 (doubled.at_w.phase.trans (congrArg Way.phase before))
  | @failed refused req rest taken back y flight at_v batch waiting phase =>
    have length := congrArg List.length batch
    refine ⟨sent,nofun,nofun,fun _ => ?_⟩
    rcases phase with ⟨before,live,all⟩ | ⟨before,closing,none_taken⟩
    -- the next task is sent all the same, and will be cancelled
    · have none_back := all (usual.1 live)
      have grown := session before
      simp only [conn,flying before,none_back,flight,List.length_append,List.length_cons,List.length_nil] at grown length
      simp only [load,conn,waiting,none_back,live,List.length_append,List.length_cons,List.length_nil]
      rw [Nat.pow_succ]
      exact ⟨by omega,fun own => by simp at own⟩
    · have all := outside (by simp [before])
      simp only [conn,none_taken,flight,List.length_append,List.length_cons,List.length_nil] at all length
      simp only [load,conn,waiting,none_taken,closing,List.length_append,List.length_cons,List.length_nil]
      exact ⟨by omega,fun own => by have := all.2 own; omega⟩

theorem step_doubled (doubled : s.Doubled w) {a : Action} (usual : s.Usual a) (taken : step s a = some t) :
    ∃ v, t.Doubled v :=
  (step_effect doubled.toSent taken).imp fun _ effect => effect.doubled doubled usual

theorem run_doubled {actions : List Action} (usual : Transition.Meets step Usual start actions)
    (run : Transition.run step start actions = some s) : ∃ w, s.Doubled w :=
  Transition.run_invariant (P := fun s => ∃ w, s.Doubled w)
    (fun _ _ _ ⟨_,doubled⟩ usual taken => step_doubled doubled usual taken) ⟨.connecting,start_doubled⟩ usual run

theorem usual_cons {a : Action} {rest : List Action} (usual : s.Usual a) (taken : step s a = some t)
    (later : Transition.Meets step Usual t rest) : Transition.Meets step Usual s (a :: rest) :=
  ⟨usual,by rw [taken]; exact later⟩

/-- libuv cancels what is left, oldest first. -/
theorem Doubled.cancel (doubled : s.Doubled .closing) : ∃ actions t, Transition.Meets step Usual s actions ∧
    Transition.run step s actions = some t ∧ t.Doubled .closing ∧ t.inFlight = [] ∧ t.sessions = s.sessions := by
  generalize flight : s.inFlight = left
  induction left generalizing s with
  | nil => exact ⟨[],s,trivial,rfl,doubled,flight,rfl⟩
  | cons req rest ih =>
    have closing : s.phase = .closing := doubled.at_w.phase
    have taken : step s (.afterWrite false none) = some ({s with inFlight := rest}.afterWrite req false none) := by
      simp [step,flight]
    have usual : s.Usual (.afterWrite false none) := ⟨fun _ => rfl,fun _ => rfl⟩
    have next := (failed_effect doubled.toSent flight none).doubled doubled usual
    obtain ⟨gone,_,_,_,_,_,none_gone,_,done⟩ := afterWrite_failed (s := {s with inFlight := rest})
      (.inr closing) doubled.at_w.callbacks req none
    obtain ⟨actions,t,later,run,ended,idle,same⟩ := ih next (by rw [done]; simp [none_gone closing])
    refine ⟨.afterWrite false none :: actions,t,usual_cons usual taken later,?_,ended,idle,same.trans (by rw [done]; rfl)⟩
    rw [Transition.run_cons,taken]
    exact run

/-- A closed connection connects again, and a node that answers has the next session. -/
theorem Doubled.reconnect (doubled : s.Doubled .closing) (idle : s.inFlight = []) :
    ∃ actions t, Transition.Meets step Usual s actions ∧ Transition.run step s actions = some t ∧
      t.Doubled .session ∧ t.sessions = s.sessions + 1 := by
  have closing : s.item.node.phase = .closing := doubled.at_w.phase
  have answered : s.item.node.attempts = 0 := doubled.at_w.attempts
  let r : Reaction := ⟨{s.item.node with conn := s.conn.runCloseCb}.reConnect false,[],false⟩
  have closed : step s (.onClose false) = some (s.react r) := by
    simp [step,idle,Node.event,closing,answered,doubled.at_w.callbacks,r,conn]
  obtain ⟨v,asking⟩ := step_doubled doubled (a := .onClose false) trivial closed
  have asked : 0 < (s.react r).item.node.attempts := by simp [react,r,Node.reConnect,Node.connect]
  obtain rfl := asking.at_w.attempting asked
  have live : (s.react r).item.node.phase = .live := asking.at_w.phase
  have callbacks : (s.react r).item.node.callbacks = true := asking.at_w.callbacks
  let r' : Reaction :=
    ⟨{(s.react r).item.node with
      conn := (s.react r).conn.onConnect 0, attempts := (s.react r).item.node.attempts - 1, reading := true},[],
      (s.react r).item.node.callbacks⟩
  have reacts : (s.react r).item.node.event false (.onConnect 0) = some r' := by
    simp [Node.event,asked,live,r',conn]
  let opened : NodeSend := {(s.react r).react r' with sessions := s.sessions + 1}
  have answers : step (s.react r) (.onConnect 0 none) = some (opened.sendNewTask none) := by
    simp only [step,reacts,Option.map_some,lt_irrefl,false_or]
    rw [if_neg (by simp [r',callbacks])]
    rfl
  have open_ : opened.phase = .live := (answer reacts).2.2 (by simp) |>.2
  obtain ⟨taken,back,conn,batch,done⟩ := sendNewTask_batch (s := opened) (.inl open_) none
  have still : conn.handle.phase = .live := (batch.same (batch.live open_ rfl)).trans open_
  obtain ⟨v,began⟩ := step_doubled asking (a := .onConnect 0 none) rfl answers
  rw [done] at began
  obtain rfl := began.at_w.session still rfl
  refine ⟨[.onClose false,.onConnect 0 none],_,usual_cons trivial closed (usual_cons rfl answers trivial),?_,began,rfl⟩
  simp [Transition.run,closed,answers,done]

/-- A session that ends begins again, if the writes that are left are cancelled and the
node can be reached. -/
theorem Doubled.again (doubled : s.Doubled .session) :
    ∃ actions t, Transition.Meets step Usual s actions ∧ Transition.run step s actions = some t ∧
      t.Doubled .session ∧ t.sessions = s.sessions + 1 := by
  have live : s.item.node.phase = .live := doubled.at_w.phase
  have reading : s.item.node.reading = true := (doubled.at_w.reading (by simp)).mpr rfl
  let r : Reaction := ⟨{s.item.node with conn := s.conn.onReadClose (-4095) false},[],false⟩
  have broken : step s (.onRead (-4095) false) = some (s.react r) := by simp [step,Node.event,reading,live,r,conn]
  obtain ⟨v,ends⟩ := step_doubled doubled (a := .onRead (-4095) false) trivial broken
  have closing : (s.react r).item.node.phase = .closing := Broker.close_live live
  obtain rfl := ends.at_w.closing closing
  obtain ⟨cancels,t,usual,run,ended,idle,same⟩ := ends.cancel
  obtain ⟨connects,u,usual',run',begun,next⟩ := ended.reconnect idle
  refine ⟨.onRead (-4095) false :: (cancels ++ connects),u,
    usual_cons trivial broken (Transition.meets_append usual run usual'),?_,begun,by rw [next,same]; rfl⟩
  rw [Transition.run_cons,broken,Option.bind_some,Transition.run_append,run]
  exact run'

theorem sessions_begin (n : Nat) : ∃ actions s, Transition.Meets step Usual start actions ∧
    Transition.run step start actions = some s ∧ s.Doubled .session ∧ s.sessions = n + 1 := by
  induction n with
  | zero =>
    have usual : Transition.Meets step Usual start [.run false,.onConnect 0 none] := by decide
    obtain ⟨s,run,first⟩ := Option.any_eq_true _ _ |>.mp
      (show (Transition.run step start [.run false,.onConnect 0 none]).any
        (fun s => s.sessions = 1 ∧ s.item.node.reading = true ∧ s.phase = .live) by decide)
    simp only [decide_eq_true_eq] at first
    obtain ⟨w,doubled⟩ := run_doubled usual run
    obtain rfl := doubled.at_w.session first.2.2 first.2.1
    exact ⟨_,s,usual,run,doubled,first.1⟩
  | succ n ih =>
    obtain ⟨actions,s,usual,run,doubled,sessions⟩ := ih
    obtain ⟨more,t,usual',run',again,next⟩ := doubled.again
    refine ⟨actions ++ more,t,Transition.meets_append usual run usual',?_,again,by rw [next,sessions]⟩
    rw [Transition.run_append,run]
    exact run'

/-- A session is on while the connection is read. -/
def InSession (s : NodeSend) : Prop := s.item.node.reading = true ∧ s.phase = .live

/-- No task is dropped, and none is written twice: each is waiting, in flight or written.
What is under way only grows, by one with each session and with each write that fails. -/
theorem nothing_dropped (actions : List Action) (s : NodeSend) (run : Transition.run step start actions = some s) :
    (s.conn.sendQue ++ s.inFlight ++ s.written).Perm (List.range s.made) ∧
      s.load = s.sessions + s.cancelled + s.broken := by
  obtain ⟨w,sent⟩ := run_sent run
  exact ⟨sent.all,sent.load⟩

/-- The n-th session has at least 2 ^ n - 1 requests in flight, exactly as many if no write
failed by itself: each session that ends doubles them. -/
theorem load_doubles (actions : List Action) (usual : Transition.Meets step Usual start actions) :
    Transition.Along step (fun s => s.InSession →
      2 ^ s.sessions ≤ s.inFlight.length + 1 ∧ (s.broken = 0 → 2 ^ s.sessions = s.inFlight.length + 1)) start actions := by
  refine Transition.along_of_meets (I := fun s => ∃ w, s.Doubled w) ?_
    (fun _ _ _ ⟨_,doubled⟩ usual taken => step_doubled doubled usual taken) ⟨.connecting,start_doubled⟩ usual
  rintro s ⟨w,doubled⟩ ⟨reading,live⟩
  have session := doubled.at_w.session live reading
  simpa [load,doubled.flying session] using doubled.session session

/-- A node whose connection breaks twice, the second time by a write that fails. -/
def brokenTwice : List Action :=
  [.run false,.onConnect 0 none,.afterWrite true none,.onRead (-4095) false,.afterWrite false none,.onClose false,
    .onConnect (-111) none,.run false,.onTimer false,.onConnect 0 none,.afterWrite false none,.afterWrite false none,
    .afterWrite false none,.afterWrite false none,.onClose false,.onConnect 0 none]

theorem nothing_dropped_brokenTwice : ∃ s, Transition.run step start brokenTwice = some s ∧
    (s.conn.sendQue ++ s.inFlight ++ s.written).Perm (List.range s.made) ∧
    s.load = s.sessions + s.cancelled + s.broken := by
  obtain ⟨s,run⟩ := Option.isSome_iff_exists.mp (show (Transition.run step start brokenTwice).isSome by decide)
  exact ⟨s,run,nothing_dropped brokenTwice s run⟩

theorem load_doubles_brokenTwice : Transition.Along step (fun s => s.InSession →
    2 ^ s.sessions ≤ s.inFlight.length + 1 ∧ (s.broken = 0 → 2 ^ s.sessions = s.inFlight.length + 1)) start brokenTwice :=
  load_doubles brokenTwice (by decide)

/-- No number of requests is the most that a node can have in flight. -/
theorem load_unbounded (n : Nat) : ∃ actions s, Transition.Meets step Usual start actions ∧
    Transition.run step start actions = some s ∧ n ≤ s.inFlight.length := by
  obtain ⟨actions,s,usual,run,doubled,sessions⟩ := sessions_begin n
  refine ⟨actions,s,usual,run,?_⟩
  have grown := (doubled.session rfl).1
  simp only [load,doubled.flying rfl,List.length_nil,sessions] at grown
  have large := Nat.lt_two_pow_self (n := n + 1)
  omega

end NodeSend
end UvRpc
