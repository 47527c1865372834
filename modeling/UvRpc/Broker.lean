import UvRpc.TcpConnection
import UvRpc.Transition

/-! Broker: client connections to the nodes of a cluster, each reconnected when it breaks
and tried again after a while when it cannot be made, and the stop of all of them. -/
namespace UvRpc

/-- The closures that are posted to a node's loop: addNode's, reConnect's and closeSafe's. -/
inductive NodeTask where
  | connect | startTimer | close
  deriving DecidableEq, Repr

/-- A connection with its callbacks, and what libuv has under way for it: connect requests
without an answer, reading, retry timers. `refused` is the answer of the last call of
uv_tcp_connect itself, which connect drops. -/
structure Node where
  conn : TcpConnection
  callbacks : Bool
  attempts : Nat
  refused : Bool
  reading : Bool
  timers : Nat
  deriving DecidableEq, Repr

inductive NodeEvent where
  | onConnect (status : Int)
  | onRead (nread : Int) (nullBuf : Bool)
  /-- A write fails, at once or later. -/
  | writeFails
  | onClose (refused : Bool)
  | onTimer (refused : Bool)
  deriving DecidableEq, Repr

/-- A node after one of its callbacks: what the callback posts to the node's loop, and
whether it looks up `clients[index]`. -/
structure Reaction where
  node : Node
  posts : List NodeTask
  indexed : Bool
  deriving DecidableEq, Repr

namespace Node

def fresh : Node := ⟨.make .null,true,0,false,false,0⟩

def phase (n : Node) : Phase := n.conn.handle.phase

/-- No callback follows a request that is refused at once. -/
def connect (n : Node) (refused : Bool) : Node :=
  {n with
    conn := n.conn.connect
    attempts := if refused then n.attempts else n.attempts + 1
    refused := refused
    reading := false}

def reConnect (n : Node) (refused : Bool) : Node := n.connect refused

def run (n : Node) (refused : Bool) : NodeTask → Node
  | .connect => n.connect refused
  | .startTimer => {n with timers := n.timers + 1}
  | .close => {n with conn := n.conn.close}

/-- The part of closeSafe that its caller runs. -/
def closeSafe (n : Node) : Node := {n with conn := {n.conn with bConnected := false}}

/-- libuv answers a connect request with success only while the handle is open, runs the
close callback after all answers, and reads and writes in a session. -/
def event (bStop : Bool) (n : Node) : NodeEvent → Option Reaction
  | .onConnect status =>
    if 0 < n.attempts ∧ (0 ≤ status → n.phase = .live) then
      let n := {n with conn := n.conn.onConnect status, attempts := n.attempts - 1}
      if status < 0 then some ⟨n,if n.callbacks then [.startTimer] else [],n.callbacks⟩
      else some ⟨{n with reading := true},[],n.callbacks⟩
    else none
  | .onRead nread nullBuf =>
    if n.reading ∧ n.phase = .live then some ⟨{n with conn := n.conn.onReadClose nread nullBuf},[],false⟩ else none
  | .writeFails =>
    if n.reading ∧ n.phase = .live then some ⟨{n with conn := n.conn.close},[],false⟩ else none
  | .onClose refused =>
    if n.phase = .closing ∧ n.attempts = 0 then
      let n := {n with conn := n.conn.runCloseCb}
      if n.callbacks then
        if bStop then some ⟨{n with callbacks := false},[],false⟩ else some ⟨n.reConnect refused,[],false⟩
      else some ⟨n,[],false⟩
    else none
  | .onTimer refused =>
    if 0 < n.timers then some ⟨{n with timers := n.timers - 1}.reConnect refused,[],true⟩ else none

end Node

structure Post where
  task : NodeTask
  index : Nat
  deriving DecidableEq, Repr

/-- Where the thread that calls stop is: posting the closes, reading the flags, or past
`clients.clear()`. -/
inductive StopStage where
  | running | closing (k : Nat) | waiting (k : Nat) | cleared
  deriving DecidableEq, Repr

/-- `nodes` has every connection that was made, `clients` is the size of the vector. What
is posted to a loop stays in order. `wild` tells of a look beyond the end of the vector. -/
structure Broker where
  bStop : Bool
  nodes : List Node
  clients : Nat
  posted : List Post
  main : StopStage
  wild : Bool
  deriving DecidableEq, Repr

namespace Broker

inductive Action where
  | addNode
  | stop
  /-- One round of the first loop of stop. -/
  | closeNext
  /-- One round of the loop that waits. -/
  | poll
  /-- A loop runs the first closure that is posted to it. -/
  | run (loop : Nat) (refused : Bool)
  | event (index : Nat) (e : NodeEvent)
  deriving DecidableEq, Repr

def start : Broker := ⟨false,[],0,[],.running,false⟩

/-- One step, although emplace_back may move the clients while another loop reads one. -/
def addNode (s : Broker) : Broker :=
  {s with
    nodes := s.nodes ++ [.fresh]
    clients := s.clients + 1
    posted := s.posted ++ [⟨.connect,s.nodes.length⟩]}

/-- What one of L loops runs next, and what is left. -/
def next (L loop : Nat) : List Post → Option (Post × List Post)
  | [] => none
  | p :: rest =>
    if p.index % L = loop then some (p,rest) else (next L loop rest).map fun (q,rest) => (q,p :: rest)

def react (s : Broker) (i : Nat) (r : Reaction) : Broker :=
  {s with
    nodes := s.nodes.set i r.node
    posted := s.posted ++ r.posts.map (⟨·,i⟩)
    wild := s.wild || (r.indexed && decide (s.clients ≤ i))}

def step (L : Nat) (s : Broker) : Action → Option Broker
  | .addNode => if s.main = .running then some s.addNode else none
  | .stop => if s.main = .running then some {s with bStop := true, main := .closing 0} else none
  | .closeNext =>
    match s.main with
    | .closing k =>
      if k < s.clients then
        s.nodes[k]?.map fun n => {s.react k ⟨n.closeSafe,[.close],false⟩ with main := .closing (k + 1)}
      else some {s with main := .waiting 0}
    | _ => none
  | .poll =>
    match s.main with
    | .waiting k =>
      if k < s.clients then
        s.nodes[k]?.map fun n => {s with main := .waiting (if n.conn.bClosed then k + 1 else 0)}
      else some {s with clients := 0, main := .cleared}
    | _ => none
  | .run loop refused =>
    (next L loop s.posted).bind fun (p,rest) =>
      s.nodes[p.index]?.map fun n => {s with nodes := s.nodes.set p.index (n.run refused p.task), posted := rest}
  | .event i e => s.nodes[i]?.bind fun n => (n.event s.bStop e).map fun r => s.react i r

structure Item where
  node : Node
  posts : List NodeTask
  deriving DecidableEq, Repr

def postsOf (posted : List Post) (i : Nat) : List NodeTask := (posted.filter fun p => p.index = i).map (·.task)

def item (s : Broker) (i : Nat) : Option Item := s.nodes[i]?.map fun n => ⟨n,postsOf s.posted i⟩

inductive Moves (bStop : Bool) (i : Nat) : Action → Item → Item → Prop
  | run (loop : Nat) (refused : Bool) (n : Node) (task : NodeTask) (posts : List NodeTask) :
    Moves bStop i (.run loop refused) ⟨n,task :: posts⟩ ⟨n.run refused task,posts⟩
  | event {n : Node} {posts : List NodeTask} {e : NodeEvent} {r : Reaction} (reacts : n.event bStop e = some r) :
    Moves bStop i (.event i e) ⟨n,posts⟩ ⟨r.node,posts ++ r.posts⟩
  | close (n : Node) (posts : List NodeTask) :
    bStop = true → Moves bStop i .closeNext ⟨n,posts⟩ ⟨n.closeSafe,posts ++ [.close]⟩

/-! ## One node -/

theorem close_live {c : TcpConnection} (live : c.handle.phase = .live) : c.close.handle.phase = .closing := by
  simp [TcpConnection.close_phase,UvTcp.isClosing,live]

theorem onReadClose_live {c : TcpConnection} (live : c.handle.phase = .live) (nread : Int) (nullBuf : Bool) :
    (c.onReadClose nread nullBuf).handle.phase = .live ∨ (c.onReadClose nread nullBuf).handle.phase = .closing := by
  unfold TcpConnection.onReadClose
  by_cases negative : nread < 0 <;> cases nullBuf <;>
    simp [negative,live,close_live,TcpConnection.close_phase,UvTcp.isClosing]

theorem onReadClose_bClosed (c : TcpConnection) (nread : Int) (nullBuf : Bool) :
    (c.onReadClose nread nullBuf).bClosed = c.bClosed := by
  unfold TcpConnection.onReadClose
  by_cases negative : nread < 0 <;> cases nullBuf <;> simp [negative]

inductive Reacts (bStop : Bool) (n : Node) : NodeEvent → Reaction → Prop
  | fails (status : Int) (asked : 0 < n.attempts) :
    Reacts bStop n (.onConnect status) ⟨{n with conn := n.conn.onConnect status, attempts := n.attempts - 1},
      if n.callbacks then [.startTimer] else [],n.callbacks⟩
  | connects (status : Int) (success : 0 ≤ status) (asked : 0 < n.attempts) (live : n.phase = .live) :
    Reacts bStop n (.onConnect status)
      ⟨{n with conn := n.conn.onConnect status, attempts := n.attempts - 1, reading := true},[],n.callbacks⟩
  | session {e : NodeEvent} (talks : e = .writeFails ∨ ∃ nread nullBuf, e = .onRead nread nullBuf) (conn : TcpConnection)
    (reading : n.reading = true) (live : n.phase = .live)
    (phase : conn.handle.phase = .live ∨ conn.handle.phase = .closing) (same : conn.bClosed = n.conn.bClosed) :
    Reacts bStop n e ⟨{n with conn := conn},[],false⟩
  | ends (refused : Bool) (closing : n.phase = .closing) (answered : n.attempts = 0)
    (quiet : bStop = true ∨ n.callbacks = false) :
    Reacts bStop n (.onClose refused) ⟨{n with conn := n.conn.runCloseCb, callbacks := false},[],false⟩
  | reconnects (refused : Bool) (closing : n.phase = .closing) (answered : n.attempts = 0)
    (callbacks : n.callbacks = true) (running : bStop = false) :
    Reacts bStop n (.onClose refused) ⟨{n with conn := n.conn.runCloseCb}.reConnect refused,[],false⟩
  | retries (refused : Bool) (pending : 0 < n.timers) :
    Reacts bStop n (.onTimer refused) ⟨{n with timers := n.timers - 1}.reConnect refused,[],true⟩

theorem event_reacts {bStop : Bool} {n : Node} {e : NodeEvent} {r : Reaction} (reacts : n.event bStop e = some r) :
    Reacts bStop n e r := by
  cases e with
  | onConnect status =>
    simp only [Node.event] at reacts
    split at reacts
    case isFalse => cases reacts
    rename_i asked
    split at reacts
    · obtain rfl := Option.some.inj reacts
      exact .fails status asked.1
    · rename_i negative
      obtain rfl := Option.some.inj reacts
      exact .connects status (Int.not_lt.mp negative) asked.1 (asked.2 (Int.not_lt.mp negative))
  | onRead nread nullBuf =>
    simp only [Node.event] at reacts
    split at reacts
    case isFalse => cases reacts
    rename_i open_session
    obtain rfl := Option.some.inj reacts
    exact .session (.inr ⟨nread,nullBuf,rfl⟩) _ open_session.1 open_session.2
      (onReadClose_live open_session.2 nread nullBuf) (onReadClose_bClosed n.conn nread nullBuf)
  | writeFails =>
    simp only [Node.event] at reacts
    split at reacts
    case isFalse => cases reacts
    rename_i open_session
    obtain rfl := Option.some.inj reacts
    exact .session (.inl rfl) _ open_session.1 open_session.2 (.inr (close_live open_session.2))
      (TcpConnection.close_bClosed n.conn)
  | onClose refused =>
    simp only [Node.event] at reacts
    split at reacts
    case isFalse => cases reacts
    rename_i through
    split at reacts
    · rename_i callbacks
      split at reacts
      · rename_i stopped
        obtain rfl := Option.some.inj reacts
        exact .ends refused through.1 through.2 (.inl stopped)
      · rename_i running
        obtain rfl := Option.some.inj reacts
        exact .reconnects refused through.1 through.2 callbacks (by simpa using running)
    · rename_i quiet
      have quiet : n.callbacks = false := by simpa using quiet
      obtain rfl := Option.some.inj reacts
      simpa only [quiet] using (Reacts.ends refused through.1 through.2 (.inr quiet) : Reacts bStop n _ _)
  | onTimer refused =>
    simp only [Node.event] at reacts
    split at reacts
    case isFalse => cases reacts
    rename_i pending
    obtain rfl := Option.some.inj reacts
    exact .retries refused pending

/-- What can be under way for a node, or that a connect has been refused and nothing is. -/
inductive Way where
  | connecting | attempting | session | closing | failed | retrying | lost
  deriving DecidableEq, Repr

namespace Way

def posts : Way → List NodeTask
  | connecting => [.connect]
  | failed => [.startTimer]
  | _ => []

def attempts : Way → Nat
  | attempting => 1
  | _ => 0

def timers : Way → Nat
  | retrying => 1
  | _ => 0

def phase : Way → Phase
  | connecting => .never
  | closing => .closing
  | _ => .live

inductive Next : Way → Way → Prop
  | attempts : Next connecting attempting
  | connected : Next attempting session
  | fails : Next attempting failed
  | reads : Next session session
  | closes : Next session closing
  | reconnects : Next closing attempting
  | waits : Next failed retrying
  | retries : Next retrying attempting
  | refused {w : Way} (connects : Next w attempting) : Next w lost

theorem Next.of_attempting {w : Way} (connects : Next w attempting) (refused : Bool) :
    Next w (if refused then lost else attempting) := by
  cases refused
  · exact connects
  · exact .refused connects

end Way

/-- Before stop, a node is there and nothing else is going on. -/
structure Item.At (x : Item) (w : Way) : Prop where
  posts : x.posts = w.posts
  attempts : x.node.attempts = w.attempts
  timers : x.node.timers = w.timers
  phase : x.node.phase = w.phase
  reading : w ≠ .closing → (x.node.reading = true ↔ w = .session)
  refused : x.node.refused = true ↔ w = .lost
  callbacks : x.node.callbacks = true
  first : w = .connecting → x.node.conn.bClosed = false

theorem connect_at {n : Node} (refused : Bool) (attempts : n.attempts = 0) (timers : n.timers = 0)
    (callbacks : n.callbacks = true) :
    (⟨n.connect refused,[]⟩ : Item).At (if refused then .lost else .attempting) := by
  cases refused <;> constructor <;>
    simp [Node.connect,Node.phase,Way.posts,Way.attempts,Way.timers,Way.phase,attempts,timers,callbacks]

variable {x y : Item} {w : Way}

theorem Item.At.session (at_w : x.At w) (live : x.node.phase = .live) (reading : x.node.reading = true) :
    w = .session := by
  by_cases closing : w = .closing
  · have := at_w.phase
    rw [live,closing] at this
    cases this
  · exact (at_w.reading closing).mp reading

theorem Item.At.closing (at_w : x.At w) (closing : x.node.phase = .closing) : w = .closing := by
  have phase := at_w.phase
  rw [closing] at phase
  cases w <;> first | rfl | cases phase

theorem Item.At.attempting (at_w : x.At w) (asked : 0 < x.node.attempts) : w = .attempting := by
  rw [at_w.attempts] at asked
  cases w <;> first | rfl | cases asked

theorem Item.At.retrying (at_w : x.At w) (pending : 0 < x.node.timers) : w = .retrying := by
  rw [at_w.timers] at pending
  cases w <;> first | rfl | cases pending

/-- A session goes on, or its handle is being closed. -/
theorem Item.At.hangUp (at_w : x.At .session) {conn : TcpConnection}
    (phase : conn.handle.phase = .live ∨ conn.handle.phase = .closing) :
    ∃ v, Way.Next .session v ∧ (⟨{x.node with conn := conn},x.posts⟩ : Item).At v := by
  rcases phase with live | closing
  · exact ⟨.session,.reads,at_w.posts,at_w.attempts,at_w.timers,live,at_w.reading,at_w.refused,at_w.callbacks,nofun⟩
  · have taken : x.node.refused = true ↔ Way.closing = .lost := by simpa using at_w.refused
    exact ⟨.closing,.closes,at_w.posts,at_w.attempts,at_w.timers,closing,fun other => absurd rfl other,taken,
      at_w.callbacks,nofun⟩

/-- Until stop is called, whatever happens to a node takes it one step further. -/
theorem Item.At.moves {i : Nat} {a : Action} (at_w : x.At w) (moves : Moves false i a x y) : ∃ v, w.Next v ∧ y.At v := by
  cases moves with
  | close _ _ stopped => cases stopped
  | run _ refused n task posts =>
    have head : task :: posts = w.posts := at_w.posts
    cases w <;> simp only [Way.posts,reduceCtorEq,List.cons.injEq] at head
    case connecting =>
      obtain ⟨rfl,rfl⟩ := head
      exact ⟨_,.of_attempting .attempts refused,connect_at refused at_w.attempts at_w.timers at_w.callbacks⟩
    case failed =>
      obtain ⟨rfl,rfl⟩ := head
      have timers : n.timers = 0 := at_w.timers
      refine ⟨.retrying,.waits,rfl,at_w.attempts,?_,at_w.phase,fun _ => ?_,?_,at_w.callbacks,nofun⟩
      · simp [Node.run,timers,Way.timers]
      · simpa [Node.run] using at_w.reading (by simp)
      · simpa [Node.run] using at_w.refused
  | @event n posts e r reacts =>
    have taken := at_w.refused
    cases event_reacts reacts with
    | fails status asked =>
      obtain rfl := at_w.attempting asked
      have attempts : n.attempts = 1 := at_w.attempts
      have phase : (n.conn.onConnect status).handle.phase = .live := by
        rw [TcpConnection.onConnect_handle]; exact at_w.phase
      have callbacks : n.callbacks = true := at_w.callbacks
      have posts : posts = [] := at_w.posts
      refine ⟨.failed,.fails,?_,?_,at_w.timers,phase,fun _ => ?_,by simpa using taken,callbacks,nofun⟩
      · simp [posts,callbacks,Way.posts]
      · simp [attempts,Way.attempts]
      · simpa using at_w.reading (by simp)
    | connects status _ asked live =>
      obtain rfl := at_w.attempting asked
      have attempts : n.attempts = 1 := at_w.attempts
      have phase : (n.conn.onConnect status).handle.phase = .live := by
        rw [TcpConnection.onConnect_handle]; exact live
      have posts : posts = [] := at_w.posts
      refine ⟨.session,.connected,?_,?_,at_w.timers,phase,fun _ => ?_,by simpa using taken,at_w.callbacks,nofun⟩
      · simp [posts,Way.posts]
      · simp [attempts,Way.attempts]
      · simp
    | session _ conn reading live phase _ =>
      obtain rfl := at_w.session live reading
      simpa using at_w.hangUp phase
    | ends _ closing answered quiet =>
      rcases quiet with stopped | quiet
      · cases stopped
      · exact absurd at_w.callbacks (by simp [quiet])
    | reconnects refused closing answered callbacks _ =>
      obtain rfl := at_w.closing closing
      have posts : posts = [] := at_w.posts
      refine ⟨_,.of_attempting .reconnects refused,?_⟩
      simpa [posts,Node.reConnect,callbacks] using
        connect_at (n := {n with conn := n.conn.runCloseCb}) refused answered at_w.timers callbacks
    | retries refused pending =>
      obtain rfl := at_w.retrying pending
      have posts : posts = [] := at_w.posts
      have timers : n.timers = 1 := at_w.timers
      refine ⟨_,.of_attempting .retries refused,?_⟩
      simpa [posts,Node.reConnect] using
        connect_at (n := {n with timers := n.timers - 1}) refused at_w.attempts (by simp [timers]) at_w.callbacks

/-! ## All nodes -/

variable {L : Nat} {s s' : Broker} {i j : Nat}

/-- What a loop runs comes after posts for other loops only. -/
theorem next_spec {loop : Nat} {posted rest : List Post} {p : Post} (found : next L loop posted = some (p,rest)) :
    ∃ front back, posted = front ++ p :: back ∧ rest = front ++ back ∧ p.index % L = loop ∧
      ∀ q ∈ front, q.index % L ≠ loop := by
  induction posted generalizing rest with
  | nil => cases found
  | cons q posted ih =>
    simp only [next] at found
    split at found
    · rename_i here
      obtain ⟨rfl,rfl⟩ := Prod.mk.inj (Option.some.inj found)
      exact ⟨[],posted,rfl,rfl,here,by simp⟩
    · rename_i other
      obtain ⟨⟨p',rest'⟩,later,same⟩ := Option.map_eq_some_iff.mp found
      obtain ⟨rfl,rfl⟩ := Prod.mk.inj same
      obtain ⟨front,back,split,left,here,before⟩ := ih later
      exact ⟨q :: front,back,by rw [split]; rfl,by rw [left]; rfl,here,List.forall_mem_cons.mpr ⟨other,before⟩⟩

theorem next_head (p : Post) (rest : List Post) : next L (p.index % L) (p :: rest) = some (p,rest) := if_pos rfl

theorem postsOf_append (front back : List Post) (i : Nat) :
    postsOf (front ++ back) i = postsOf front i ++ postsOf back i := by
  simp [postsOf]

theorem postsOf_same (tasks : List NodeTask) (i : Nat) : postsOf (tasks.map (⟨·,i⟩)) i = tasks := by
  simp [postsOf,List.filter_map,Function.comp_def]

theorem postsOf_other (tasks : List NodeTask) (other : i ≠ j) : postsOf (tasks.map (⟨·,i⟩)) j = [] := by
  simp [postsOf,other]

theorem postsOf_none {posted : List Post} (absent : ∀ p ∈ posted, p.index ≠ i) : postsOf posted i = [] := by
  simpa [postsOf] using absent

theorem item_of_node {n : Node} (here : s.nodes[i]? = some n) : s.item i = some ⟨n,postsOf s.posted i⟩ := by
  simp [item,here]

theorem node_of_item {x : Item} (here : s.item i = some x) :
    s.nodes[i]? = some x.node ∧ x.posts = postsOf s.posted i := by
  obtain ⟨n,found,rfl⟩ := Option.map_eq_some_iff.mp here
  exact ⟨found,rfl⟩

theorem item_react {n : Node} (here : s.nodes[i]? = some n) (r : Reaction) (j : Nat) :
    (s.react i r).item j =
      if i = j then some ⟨r.node,postsOf s.posted i ++ r.posts⟩ else s.item j := by
  by_cases same : i = j
  · subst same
    have inside : i < s.nodes.length := (List.getElem?_eq_some_iff.mp here).1
    simp [react,item,List.getElem?_set_self inside,postsOf_append,postsOf_same]
  · simp [react,item,List.getElem?_set_ne same,postsOf_append,postsOf_other _ same,same]

theorem item_addNode (s : Broker) (j : Nat) :
    s.addNode.item j =
      if j = s.nodes.length then some ⟨.fresh,postsOf s.posted j ++ [.connect]⟩ else s.item j := by
  by_cases last : j = s.nodes.length
  · subst last
    simp [addNode,item,postsOf]
  · rcases Nat.lt_or_gt_of_ne last with inside | beyond
    · simp [addNode,item,List.getElem?_append_left inside,postsOf,last,Ne.symm last]
    · have out : s.nodes.length + 1 ≤ j := beyond
      simp [addNode,item,last,List.getElem?_eq_none,out,Nat.le_of_lt beyond]

inductive Effect (L : Nat) (s : Broker) : Action → Broker → Prop
  | addNode (running : s.main = .running) : Effect L s .addNode s.addNode
  | stop (running : s.main = .running) : Effect L s .stop {s with bStop := true, main := .closing 0}
  | closeNext {k : Nat} {n : Node} (closing : s.main = .closing k) (inside : k < s.clients)
    (here : s.nodes[k]? = some n) :
    Effect L s .closeNext {s.react k ⟨n.closeSafe,[.close],false⟩ with main := .closing (k + 1)}
  | closed {k : Nat} (closing : s.main = .closing k) (last : s.clients ≤ k) :
    Effect L s .closeNext {s with main := .waiting 0}
  | poll {k : Nat} {n : Node} (waiting : s.main = .waiting k) (inside : k < s.clients) (here : s.nodes[k]? = some n) :
    Effect L s .poll {s with main := .waiting (if n.conn.bClosed then k + 1 else 0)}
  | clear {k : Nat} (waiting : s.main = .waiting k) (last : s.clients ≤ k) :
    Effect L s .poll {s with clients := 0, main := .cleared}
  | run {loop : Nat} {refused : Bool} {p : Post} {front back : List Post} {n : Node}
    (split : s.posted = front ++ p :: back) (on : p.index % L = loop) (before : ∀ q ∈ front, q.index % L ≠ loop)
    (here : s.nodes[p.index]? = some n) :
    Effect L s (.run loop refused) {s with nodes := s.nodes.set p.index (n.run refused p.task), posted := front ++ back}
  | event {k : Nat} {e : NodeEvent} {n : Node} {r : Reaction} (here : s.nodes[k]? = some n)
    (reacts : n.event s.bStop e = some r) : Effect L s (.event k e) (s.react k r)

theorem step_effect {a : Action} (taken : step L s a = some s') : Effect L s a s' := by
  cases a with
  | addNode =>
    simp only [step] at taken
    split at taken
    case isFalse => cases taken
    rename_i running
    obtain rfl := Option.some.inj taken
    exact .addNode running
  | stop =>
    simp only [step] at taken
    split at taken
    case isFalse => cases taken
    rename_i running
    obtain rfl := Option.some.inj taken
    exact .stop running
  | closeNext =>
    simp only [step] at taken
    split at taken
    case h_2 => cases taken
    rename_i k closing
    split at taken
    · rename_i inside
      obtain ⟨n,here,rfl⟩ := Option.map_eq_some_iff.mp taken
      exact .closeNext closing inside here
    · rename_i outside
      obtain rfl := Option.some.inj taken
      exact .closed closing (Nat.le_of_not_lt outside)
  | poll =>
    simp only [step] at taken
    split at taken
    case h_2 => cases taken
    rename_i k waiting
    split at taken
    · rename_i inside
      obtain ⟨n,here,rfl⟩ := Option.map_eq_some_iff.mp taken
      exact .poll waiting inside here
    · rename_i outside
      obtain rfl := Option.some.inj taken
      exact .clear waiting (Nat.le_of_not_lt outside)
  | run loop refused =>
    obtain ⟨⟨p,rest⟩,first,taken⟩ := Option.bind_eq_some_iff.mp taken
    obtain ⟨n,here,rfl⟩ := Option.map_eq_some_iff.mp taken
    obtain ⟨front,back,split,rfl,on,before⟩ := next_spec first
    exact .run split on before here
  | event k e =>
    obtain ⟨n,here,taken⟩ := Option.bind_eq_some_iff.mp taken
    obtain ⟨r,reacts,rfl⟩ := Option.map_eq_some_iff.mp taken
    exact .event here reacts

theorem step_item {a : Action} (flag : s.main ≠ .running → s.bStop = true) (taken : step L s a = some s') {x : Item}
    (here : s.item i = some x) : ∃ y, s'.item i = some y ∧ (y = x ∨ Moves s.bStop i a x y) := by
  obtain ⟨found,posts⟩ := node_of_item here
  have inside : i < s.nodes.length := (List.getElem?_eq_some_iff.mp found).1
  -- a reaction of some node
  have reaction {k : Nat} {n : Node} {r : Reaction} (there : s.nodes[k]? = some n)
      (moves : Moves s.bStop k a ⟨n,postsOf s.posted k⟩ ⟨r.node,postsOf s.posted k ++ r.posts⟩) :
      ∃ y, (s.react k r).item i = some y ∧ (y = x ∨ Moves s.bStop i a x y) := by
    rw [item_react there]
    by_cases same : k = i
    · subst same
      have node : n = x.node := Option.some.inj (there.symm.trans found)
      subst node
      rw [← posts] at moves ⊢
      exact ⟨_,if_pos rfl,.inr moves⟩
    · exact ⟨x,by rw [if_neg same,here],.inl rfl⟩
  cases step_effect taken with
  | addNode _ => exact ⟨x,by rw [item_addNode,if_neg (by omega),here],.inl rfl⟩
  | stop _ | closed _ _ | poll _ _ _ | clear _ _ => exact ⟨x,here,.inl rfl⟩
  | closeNext closing _ there => exact reaction there (.close _ _ (flag (by simp [closing])))
  | @run loop refused p front back n split on before there =>
    by_cases same : p.index = i
    · subst same
      have none_before : postsOf front p.index = [] :=
        postsOf_none fun q member same => before q member (by rw [same,on])
      have node : n = x.node := Option.some.inj (there.symm.trans found)
      subst node
      have queue : x.posts = p.task :: postsOf back p.index := by
        rw [posts,split,postsOf_append,none_before]
        simp [postsOf]
      refine ⟨⟨x.node.run refused p.task,postsOf back p.index⟩,?_,.inr ?_⟩
      · simp [item,List.getElem?_set_self inside,postsOf_append,none_before]
      · have moves := @Moves.run s.bStop p.index loop refused x.node p.task (postsOf back p.index)
        rwa [← queue] at moves
    · refine ⟨x,?_,.inl rfl⟩
      have other : postsOf s.posted i = postsOf (front ++ back) i := by
        rw [split,postsOf_append,postsOf_append]
        simp [postsOf,same]
      simp [item,List.getElem?_set_ne same,found,← other,← posts]
  | event there reacts => exact reaction there (.event reacts)

/-- bStop tells whether stop has been called, every closure that is posted is for a node,
and the vector has all nodes until it is cleared. -/
structure Inv (s : Broker) : Prop where
  stopping : s.bStop = true ↔ s.main ≠ .running
  clients : s.clients = if s.main = .cleared then 0 else s.nodes.length
  posted : ∀ p ∈ s.posted, p.index < s.nodes.length

theorem start_inv : start.Inv := ⟨by simp [start],rfl,by simp [start]⟩

theorem Inv.react (inv : s.Inv) {n : Node} (here : s.nodes[i]? = some n) (r : Reaction) : (s.react i r).Inv := by
  have inside : i < s.nodes.length := (List.getElem?_eq_some_iff.mp here).1
  refine ⟨inv.stopping,by simpa [Broker.react] using inv.clients,fun p member => ?_⟩
  simp only [Broker.react,List.length_set]
  rcases List.mem_append.mp member with old | new
  · exact inv.posted p old
  · obtain ⟨task,_,rfl⟩ := List.mem_map.mp new
    exact inside

theorem step_inv {a : Action} (inv : s.Inv) (taken : step L s a = some s') : s'.Inv := by
  have whole (uncleared : s.main ≠ .cleared) : s.clients = s.nodes.length := by simpa [uncleared] using inv.clients
  have stopped (main : s.main ≠ .running) : s.bStop = true := inv.stopping.mpr main
  cases step_effect taken with
  | addNode running =>
    refine ⟨inv.stopping,by simp [addNode,inv.clients,running],fun p member => ?_⟩
    rcases List.mem_append.mp member with old | new
    · have := inv.posted p old
      simp only [addNode,List.length_append]
      omega
    · obtain rfl := List.mem_singleton.mp new
      simp [addNode]
  | stop running => exact ⟨by simp,by simpa using whole (by simp [running]),inv.posted⟩
  | closeNext closing _ there =>
    have main : s.main ≠ .running ∧ s.main ≠ .cleared := by simp [closing]
    exact ⟨by simp [Broker.react,stopped main.1],by simp [Broker.react,whole main.2],(inv.react there _).posted⟩
  | closed closing _ =>
    have main : s.main ≠ .running ∧ s.main ≠ .cleared := by simp [closing]
    exact ⟨by simp [stopped main.1],by simp [whole main.2],inv.posted⟩
  | poll waiting _ _ =>
    have main : s.main ≠ .running ∧ s.main ≠ .cleared := by simp [waiting]
    exact ⟨by simp [stopped main.1],by simp [whole main.2],inv.posted⟩
  | clear waiting _ => exact ⟨by simp [stopped (by simp [waiting] : s.main ≠ .running)],by simp,inv.posted⟩
  | run split _ _ _ =>
    refine ⟨inv.stopping,by simpa using inv.clients,fun q member => ?_⟩
    have old : q ∈ s.posted := by
      rw [split]
      rcases List.mem_append.mp member with left | right
      · exact List.mem_append_left _ left
      · exact List.mem_append_right _ (List.mem_cons_of_mem _ right)
    simpa using inv.posted q old
  | event there _ => exact inv.react there _

/-- A look at `clients` misses only after it has been cleared. -/
theorem Inv.tame (inv : s.Inv) (tame : s.wild = false) {a : Action} (taken : step L s a = some s')
    (uncleared : s.main ≠ .cleared) : s'.wild = false := by
  have reaction {k : Nat} {n : Node} (r : Reaction) (there : s.nodes[k]? = some n) : (s.react k r).wild = false := by
    have inside : k < s.nodes.length := (List.getElem?_eq_some_iff.mp there).1
    have clients : s.clients = s.nodes.length := by simpa [uncleared] using inv.clients
    simp [Broker.react,tame,clients,inside]
  cases step_effect taken with
  | addNode _ | stop _ | closed _ _ | poll _ _ _ | clear _ _ | run _ _ _ _ => exact tame
  | closeNext _ _ there => exact reaction _ there
  | event there _ => exact reaction _ there

def Item.underWay (x : Item) : Nat :=
  x.posts.length + x.node.attempts + x.node.timers + (if x.node.reading ∧ x.node.phase = .live then 1 else 0) +
    if x.node.phase = .closing then 1 else 0

theorem Item.At.underWay (at_w : x.At w) : x.underWay = if x.node.refused then 0 else 1 := by
  have reading := at_w.reading
  have refused := at_w.refused
  simp only [Item.underWay,at_w.posts,at_w.attempts,at_w.timers,at_w.phase]
  cases w <;> simp_all [Way.posts,Way.attempts,Way.timers,Way.phase]

theorem lost_next {v : Way} : ¬ Way.Next .lost v := by
  intro next
  generalize from_lost : Way.lost = u at next
  induction next with
  | refused _ ih => exact ih from_lost
  | _ => cases from_lost

/-- Until stop is called every node is somewhere, and no look at `clients` misses. -/
structure Going (s : Broker) : Prop extends s.Inv where
  ways : s.bStop = false → ∀ i x, s.item i = some x → ∃ w, x.At w
  tame : s.bStop = false → s.wild = false

theorem start_going : start.Going := ⟨start_inv,by simp [start,item],fun _ => rfl⟩

theorem step_running {a : Action} (taken : step L s a = some s') (running : s'.bStop = false) : s.bStop = false := by
  cases step_effect taken with
  | stop _ => cases running
  | _ => exact running

theorem run_running {actions : List Action} (run : Transition.run (step L) s actions = some s')
    (running : s'.bStop = false) : s.bStop = false := by
  induction actions generalizing s with
  | nil => cases run; exact running
  | cons a rest ih =>
    obtain ⟨t,taken,later⟩ := Transition.run_cons_some run
    exact step_running taken (ih later)

/-- A node that a step finds is an old one, or addNode's. -/
theorem item_before {a : Action} (taken : step L s a = some s') {x : Item} (here : s'.item i = some x) :
    (∃ y, s.item i = some y) ∨
      s.main = .running ∧ x = ⟨.fresh,postsOf s.posted i ++ [.connect]⟩ ∧ i = s.nodes.length := by
  have old (length : s'.nodes.length = s.nodes.length) : ∃ y, s.item i = some y := by
    obtain ⟨found,_⟩ := node_of_item here
    have inside : i < s.nodes.length := length ▸ (List.getElem?_eq_some_iff.mp found).1
    exact ⟨_,item_of_node (List.getElem?_eq_getElem inside)⟩
  cases step_effect taken with
  | addNode running =>
    rw [item_addNode] at here
    split at here
    · rename_i last
      exact .inr ⟨running,(Option.some.inj here).symm,last⟩
    · exact .inl ⟨x,here⟩
  | _ => exact .inl (old (by simp [Broker.react]))

theorem step_going {a : Action} (going : s.Going) (taken : step L s a = some s') : s'.Going := by
  refine ⟨step_inv going.toInv taken,fun running i x here => ?_,fun running => ?_⟩
  · have before := step_running taken running
    rcases item_before taken here with ⟨y,there⟩ | ⟨_,rfl,rfl⟩
    · obtain ⟨w,at_w⟩ := going.ways before i y there
      obtain ⟨z,now,moved⟩ := step_item going.stopping.mpr taken there
      obtain rfl : x = z := Option.some.inj (here.symm.trans now)
      rcases moved with rfl | moves
      · exact ⟨w,at_w⟩
      · rw [before] at moves
        obtain ⟨v,_,at_v⟩ := at_w.moves moves
        exact ⟨v,at_v⟩
    · have none_posted : postsOf s.posted s.nodes.length = [] :=
        postsOf_none fun p member same => absurd (going.posted p member) (by omega)
      refine ⟨.connecting,by rw [none_posted]; rfl,rfl,rfl,rfl,?_,?_,rfl,fun _ => rfl⟩
      · simp [Node.fresh]
      · simp [Node.fresh]
  · have before := step_running taken running
    have main : s.main = .running := by
      by_contra other
      rw [going.stopping.mpr other] at before
      cases before
    exact going.toInv.tame (going.tame before) taken (by simp [main])

/-- Nothing happens any more to a node whose connect has been refused, until stop. -/
theorem step_lost {a : Action} (going : s.Going) (taken : step L s a = some s') (running : s'.bStop = false)
    {x : Item} (here : s.item i = some x) (refused : x.node.refused = true) : s'.item i = some x := by
  have before := step_running taken running
  obtain ⟨w,at_w⟩ := going.ways before i x here
  obtain rfl := at_w.refused.mp refused
  obtain ⟨y,now,rfl | moves⟩ := step_item going.stopping.mpr taken here
  · exact now
  · rw [before] at moves
    obtain ⟨v,next,_⟩ := at_w.moves moves
    exact absurd next lost_next

theorem run_lost {actions : List Action} (going : s.Going) (run : Transition.run (step L) s actions = some s')
    (running : s'.bStop = false) {x : Item} (here : s.item i = some x) (refused : x.node.refused = true) :
    s'.item i = some x := by
  induction actions generalizing s with
  | nil => cases run; exact here
  | cons a rest ih =>
    obtain ⟨t,taken,later⟩ := Transition.run_cons_some run
    exact ih (step_going going taken) later (step_lost going taken (run_running later running) here refused)

theorem run_going {actions : List Action} (run : Transition.run (step L) start actions = some s) : s.Going :=
  Transition.run_invariant_all (fun _ _ _ going taken => step_going going taken) start_going run

/-- Until stop is called exactly one thing is under way for every node and no look at
`clients` misses, whatever the nodes do and in whatever order. A node whose connect is
refused at once has nothing under way, and nothing will be: the error is dropped. -/
theorem one_under_way (actions : List Action) (s : Broker) (run : Transition.run (step L) start actions = some s)
    (running : s.bStop = false) : s.wild = false ∧ ∀ i x, s.item i = some x →
      x.underWay = (if x.node.refused then 0 else 1) ∧
      (x.node.refused = true →
        ∀ later t, Transition.run (step L) s later = some t → t.bStop = false → t.item i = some x) := by
  have going := run_going run
  refine ⟨going.tame running,fun i x here => ?_⟩
  obtain ⟨w,at_w⟩ := going.ways running i x here
  exact ⟨at_w.underWay,fun refused later t run still => run_lost going run still here refused⟩

/-- Two nodes on two loops: one has a session that breaks, the other fails and is refused
when it tries again. -/
def brokenAndRefused : List Action :=
  [.addNode,.addNode,.run 1 false,.run 0 false,.event 0 (.onConnect 0),.event 1 (.onConnect (-111)),
    .event 0 (.onRead (-4095) false),.run 1 false,.event 1 (.onTimer true),.event 0 (.onClose false)]

theorem one_under_way_brokenAndRefused : ∃ s, Transition.run (step 2) start brokenAndRefused = some s ∧
    s.wild = false ∧ ∀ i x, s.item i = some x → x.underWay = if x.node.refused then 0 else 1 := by
  obtain ⟨s,run,running⟩ := (Option.any_eq_true _ _).mp
    (show (Transition.run (step 2) start brokenAndRefused).any (fun s => s.bStop = false) by decide +kernel)
  have under_way := one_under_way brokenAndRefused s run (by simpa using running)
  exact ⟨s,run,under_way.1,fun i x here => (under_way.2 i x here).1⟩

end Broker
end UvRpc
