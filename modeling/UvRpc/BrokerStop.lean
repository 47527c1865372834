import UvRpc.Broker

/-! Broker::stop. It posts a close for every node, waits until every bClosed is set, and
clears the vector, which drops the connections. bClosed is never reset, and neither retry
timers nor connect requests are waited for. -/
namespace UvRpc.Broker

/-- No look at `clients` has missed, and when the vector has been cleared libuv is through
with every handle. -/
def Safe (s : Broker) : Prop := s.wild = false ∧ (s.main = .cleared → ∀ n ∈ s.nodes, n.phase = .closed)

/-- Nothing is on its way to connect a node, and no node had to reconnect before. -/
def Settled (s : Broker) : Prop := ∀ i x, s.item i = some x →
  x.posts = [] ∧ x.node.attempts = 0 ∧ x.node.timers = 0 ∧ x.node.conn.bClosed = false

variable {L : Nat} {s s' : Broker} {x y : Item} {bStop : Bool}

@[simp] theorem closeSafe_phase (n : Node) : n.closeSafe.phase = n.phase := rfl

@[simp] theorem closeSafe_bClosed (n : Node) : n.closeSafe.conn.bClosed = n.conn.bClosed := rfl

theorem run_close (n : Node) (refused : Bool) :
    (n.run refused .close).phase = (if n.phase = .closed then .closed else .closing) ∧
      (n.run refused .close).conn.bClosed = n.conn.bClosed := by
  refine ⟨?_,TcpConnection.close_bClosed n.conn⟩
  have phase : (n.run refused .close).phase = if n.conn.handle.isClosing then n.phase else .closing :=
    TcpConnection.close_phase n.conn
  rw [phase]
  by_cases closed : n.phase = .closed
  · simp [UvTcp.isClosing,Node.phase] at closed ⊢
    simp [closed]
  · by_cases closing : n.phase = .closing <;> simp_all [UvTcp.isClosing,Node.phase]

theorem Moves.bClosed {i : Nat} {a : Action} (moves : Moves bStop i a x y) (closed : x.node.conn.bClosed = true) :
    y.node.conn.bClosed = true := by
  cases moves with
  | run _ refused n task posts => cases task <;> simpa [Node.run,Node.connect] using closed
  | close n posts _ => exact closed
  | event reacts =>
    cases event_reacts reacts with
    | fails | connects => simpa using closed
    | session _ _ _ _ _ same => exact same.trans closed
    | ends => exact TcpConnection.runCloseCb_bClosed _
    | reconnects => simp [Node.reConnect,Node.connect]
    | retries => simpa [Node.reConnect,Node.connect] using closed

/-! ## Where it is safe -/

/-- A node that stop has settled: only closes are posted, and bClosed tells whether its
handle is closed. -/
structure Item.Calm (x : Item) : Prop where
  posts : ∀ t ∈ x.posts, t = .close
  attempts : x.node.attempts = 0
  timers : x.node.timers = 0
  closed : x.node.conn.bClosed = true ↔ x.node.phase = .closed
  begun : x.node.phase ≠ .never

theorem Item.Calm.reacts {n : Node} {posts : List NodeTask} {e : NodeEvent} {r : Reaction}
    (calm : (⟨n,posts⟩ : Item).Calm) (reacts : Reacts true n e r) :
    r.indexed = false ∧ (⟨r.node,posts ++ r.posts⟩ : Item).Calm := by
  have answered : n.attempts = 0 := calm.attempts
  have no_timer : n.timers = 0 := calm.timers
  cases reacts with
  | fails _ asked | connects _ _ asked _ => omega
  | session _ conn reading live phase same =>
    refine ⟨rfl,by simpa using calm.posts,calm.attempts,calm.timers,?_,?_⟩
    · have unclosed : ¬ n.conn.bClosed = true := fun set => by
        have closed := calm.closed.mp set
        rw [live] at closed
        cases closed
      rcases phase with phase | phase <;> simp [same,unclosed,Node.phase,phase]
    · rcases phase with phase | phase <;> simp [Node.phase,phase]
  | ends _ _ _ _ =>
    refine ⟨rfl,by simpa using calm.posts,calm.attempts,calm.timers,?_,?_⟩
    · simp [Node.phase]
    · simp [Node.phase]
  | reconnects _ _ _ _ running => cases running
  | retries _ pending => omega

theorem Item.Calm.moves {i : Nat} {a : Action} (calm : x.Calm) (moves : Moves true i a x y) : y.Calm := by
  cases moves with
  | run _ refused n task posts =>
    obtain rfl := calm.posts task List.mem_cons_self
    obtain ⟨phase,same⟩ := run_close n refused
    have closed : n.conn.bClosed = true ↔ n.phase = .closed := calm.closed
    refine ⟨fun t member => calm.posts t (List.mem_cons_of_mem _ member),calm.attempts,calm.timers,?_,?_⟩
    · rw [phase,same,closed]
      by_cases through : n.phase = .closed <;> simp [through]
    · rw [phase]
      by_cases through : n.phase = .closed <;> simp [through]
  | close n posts _ =>
    refine ⟨fun t member => ?_,calm.attempts,calm.timers,by simpa using calm.closed,by simpa using calm.begun⟩
    rcases List.mem_append.mp member with old | new
    · exact calm.posts t old
    · exact List.mem_singleton.mp new
  | event reacts => exact (calm.reacts (event_reacts reacts)).2

/-- What holds from a call of stop on that finds all nodes settled. -/
structure Calm (s : Broker) : Prop extends s.Inv where
  stopped : s.bStop = true
  tame : s.wild = false
  nodes : ∀ i x, s.item i = some x → x.Calm
  waited : ∀ k, s.main = .waiting k → ∀ i < k, ∀ n : Node, s.nodes[i]? = some n → n.conn.bClosed = true
  cleared : s.main = .cleared → ∀ (i : Nat) (n : Node), s.nodes[i]? = some n → n.conn.bClosed = true

theorem Calm.safe (calm : s.Calm) : s.Safe := by
  refine ⟨calm.tame,fun cleared n member => ?_⟩
  obtain ⟨i,here⟩ := List.mem_iff_getElem?.mp member
  exact (calm.nodes i _ (item_of_node here)).closed.mp (calm.cleared cleared i n here)

theorem step_bClosed {a : Action} {i : Nat} {n n' : Node} (flag : s.main ≠ .running → s.bStop = true)
    (taken : step L s a = some s') (here : s.nodes[i]? = some n) (now : s'.nodes[i]? = some n')
    (closed : n.conn.bClosed = true) : n'.conn.bClosed = true := by
  obtain ⟨y,there,moved⟩ := step_item flag taken (item_of_node here)
  obtain rfl : n' = y.node := Option.some.inj (now.symm.trans (node_of_item there).1)
  rcases moved with rfl | moves
  · exact closed
  · exact moves.bClosed closed

/-- Past the call of stop a node that is there was there before. -/
theorem node_before {a : Action} {i : Nat} {n' : Node} (main : s.main ≠ .running) (taken : step L s a = some s')
    (now : s'.nodes[i]? = some n') : ∃ n, s.nodes[i]? = some n := by
  rcases item_before taken (item_of_node now) with ⟨y,there⟩ | ⟨running,_⟩
  · exact ⟨_,(node_of_item there).1⟩
  · exact absurd running main

theorem step_calm {a : Action} (calm : s.Calm) (taken : step L s a = some s') : s'.Calm := by
  have stopped := calm.stopped
  have main : s.main ≠ .running := calm.stopping.mp stopped
  have inv := step_inv calm.toInv taken
  have still (i : Nat) (n' : Node) (now : s'.nodes[i]? = some n')
      (before : ∀ n : Node, s.nodes[i]? = some n → n.conn.bClosed = true) : n'.conn.bClosed = true := by
    obtain ⟨n,here⟩ := node_before main taken now
    exact step_bClosed calm.stopping.mpr taken here now (before n here)
  refine ⟨inv,?_,?_,fun i x here => ?_,?_,?_⟩
  · rw [inv.stopping]
    cases step_effect taken <;> first | exact main | simp
  · cases step_effect taken with
    | event here reacts =>
      rw [stopped] at reacts
      have quiet := ((calm.nodes _ _ (item_of_node here)).reacts (event_reacts reacts)).1
      simp [react,calm.tame,quiet]
    | closeNext _ _ _ => simp [react,calm.tame]
    | _ => exact calm.tame
  · rcases item_before taken here with ⟨y,there⟩ | ⟨running,_⟩
    · obtain ⟨z,now,moved⟩ := step_item calm.stopping.mpr taken there
      obtain rfl : x = z := Option.some.inj (here.symm.trans now)
      rcases moved with rfl | moves
      · exact calm.nodes i x there
      · rw [stopped] at moves
        exact (calm.nodes i y there).moves moves
    · exact absurd running main
  · intro k waiting i less n' now
    cases step_effect taken with
    | addNode running | stop running => exact absurd running main
    | closeNext _ _ _ | clear _ _ => cases waiting
    | closed _ _ =>
      cases waiting
      omega
    | @poll l n polled _ here =>
      by_cases set : n.conn.bClosed = true
      · rw [set] at waiting
        cases waiting
        rcases Nat.lt_succ_iff_lt_or_eq.mp less with before | rfl
        · exact calm.waited l polled i before n' now
        · obtain rfl := Option.some.inj (here.symm.trans now)
          exact set
      · rw [if_neg set] at waiting
        cases waiting
        omega
    | run _ _ _ _ | event _ _ => exact still i n' now fun n here => calm.waited k waiting i less n here
  · intro cleared i n' now
    cases step_effect taken with
    | addNode running | stop running => exact absurd running main
    | closeNext _ _ _ | closed _ _ | poll _ _ _ => cases cleared
    | @clear k waiting last =>
      have inside : i < s.nodes.length := (List.getElem?_eq_some_iff.mp now).1
      have clients : s.clients = s.nodes.length := by simpa [waiting] using calm.clients
      exact calm.waited k waiting i (by omega) n' now
    | run _ _ _ _ | event _ _ => exact still i n' now fun n here => calm.cleared cleared i n here

theorem Going.calm (going : s.Going) (running : s.bStop = false) (settled : s.Settled)
    (taken : step L s .stop = some s') : s'.Calm := by
  have inv := step_inv going.toInv taken
  cases step_effect taken with
  | stop main =>
    refine ⟨inv,rfl,going.tame running,fun i x here => ?_,nofun,nofun⟩
    have there : s.item i = some x := here
    obtain ⟨w,at_w⟩ := going.ways running i x there
    obtain ⟨posts,attempts,timers,unclosed⟩ := settled i x there
    have phase : x.node.phase = .live ∨ x.node.phase = .closing := by
      rw [at_w.phase]
      have none_posted := at_w.posts
      rw [posts] at none_posted
      cases w with
      | connecting | failed => simp [Way.posts] at none_posted
      | closing => exact .inr rfl
      | _ => exact .inl rfl
    refine ⟨by simp [posts],attempts,timers,?_,?_⟩
    · rcases phase with phase | phase <;> simp [unclosed,phase]
    · rcases phase with phase | phase <;> simp [phase]

/-! ## Where it is not -/

/-- The steps of a stop that goes wrong as fast as it can: no connect request succeeds, no
retry timer fires, and no node whose bClosed is set has its close callback. -/
def hurried (s : Broker) : Action → Bool
  | .closeNext => true
  | .poll =>
    match s.main with
    | .waiting k => s.nodes[k]?.all (·.conn.bClosed)
    | _ => false
  | .run _ refused => !refused
  | .event _ (.onConnect status) => decide (status < 0)
  | .event i (.onClose _) => s.nodes[i]?.all (!·.conn.bClosed)
  | _ => false

def hurry (L : Nat) (s : Broker) (a : Action) : Option Broker := if s.hurried a then step L s a else none

theorem hurry_step {a : Action} (taken : hurry L s a = some s') : s.hurried a = true ∧ step L s a = some s' := by
  simp only [hurry] at taken
  split at taken
  · rename_i fast
    exact ⟨fast,taken⟩
  · cases taken

/-- A node waits for its first connect at the head of its queue, and bClosed is set when
its handle is closed. -/
structure Item.Bound (x : Item) : Prop where
  first : .connect ∈ x.posts → (∃ posts, x.posts = .connect :: posts ∧ .connect ∉ posts) ∧
    x.node.phase = .never ∧ x.node.conn.bClosed = false
  closed : x.node.phase = .closed → x.node.conn.bClosed = true

/-- What makes stop go on without further ado. -/
def Item.Doomed (x : Item) : Prop := .close ∈ x.posts ∨ x.node.phase = .closing ∨ x.node.conn.bClosed = true

def Item.Pending (x : Item) : Prop :=
  .startTimer ∈ x.posts ∨ 0 < x.node.timers ∨ x.node.callbacks = true ∧ (0 < x.node.attempts ∨ .connect ∈ x.posts)

/-- What stop does not wait for: a retry, or the handle of a node that was closed before. -/
def Item.Missed (x : Item) : Prop := x.Pending ∨ x.node.conn.bClosed = true ∧ x.node.phase ≠ .closed

inductive Hurries : Item → Item → Prop
  | connect (n : Node) (posts : List NodeTask) : Hurries ⟨n,.connect :: posts⟩ ⟨n.connect false,posts⟩
  | startTimer (n : Node) (posts : List NodeTask) :
    Hurries ⟨n,.startTimer :: posts⟩ ⟨{n with timers := n.timers + 1},posts⟩
  | close (n : Node) (posts : List NodeTask) : Hurries ⟨n,.close :: posts⟩ ⟨n.run false .close,posts⟩
  | closeSafe (n : Node) (posts : List NodeTask) : Hurries ⟨n,posts⟩ ⟨n.closeSafe,posts ++ [.close]⟩
  | fails (status : Int) {n : Node} (posts : List NodeTask) (asked : 0 < n.attempts) :
    Hurries ⟨n,posts⟩ ⟨{n with conn := n.conn.onConnect status, attempts := n.attempts - 1},
      posts ++ if n.callbacks then [.startTimer] else []⟩
  | ends {n : Node} (posts : List NodeTask) (closing : n.phase = .closing) (answered : n.attempts = 0)
    (first : n.conn.bClosed = false) : Hurries ⟨n,posts⟩ ⟨{n with conn := n.conn.runCloseCb, callbacks := false},posts⟩

theorem hurry_item {a : Action} (stopped : s.bStop = true) (taken : hurry L s a = some s') {i : Nat}
    (here : s.item i = some x) : ∃ y, s'.item i = some y ∧ (y = x ∨ Hurries x y) := by
  obtain ⟨fast,taken⟩ := hurry_step taken
  obtain ⟨y,now,moved⟩ := step_item (fun _ => stopped) taken here
  refine ⟨y,now,moved.imp_right fun moves => ?_⟩
  rw [stopped] at moves
  cases moves with
  | run loop refused n task posts =>
    obtain rfl : refused = false := by simpa [hurried] using fast
    cases task
    · exact .connect n posts
    · exact .startTimer n posts
    · exact .close n posts
  | close n posts _ => exact .closeSafe n posts
  | @event n posts e r reacts =>
    cases event_reacts reacts with
    | fails status asked => exact .fails status posts asked
    | connects status success _ _ =>
      have negative : status < 0 := by simpa [hurried] using fast
      omega
    | session talks _ _ _ _ _ => rcases talks with rfl | ⟨_,_,rfl⟩ <;> cases fast
    | ends refused closing answered _ =>
      have first : n.conn.bClosed = false := by
        simpa [hurried,(node_of_item here).1] using fast
      simpa using Hurries.ends posts closing answered first
    | reconnects _ _ _ _ running => cases running
    | retries => cases fast

theorem Item.Bound.tail {n : Node} {task : NodeTask} {posts : List NodeTask} (bound : (⟨n,task :: posts⟩ : Item).Bound) :
    .connect ∉ posts := by
  intro member
  obtain ⟨⟨rest,same,absent⟩,_⟩ := bound.first (List.mem_cons_of_mem _ member)
  cases same
  exact absent member

/-- Other posts may join the queue of a node whose handle and flag stay as they are. -/
theorem Item.Bound.grows (bound : x.Bound) {n : Node} {more : List NodeTask} (absent : .connect ∉ more)
    (phase : n.phase = x.node.phase) (same : n.conn.bClosed = x.node.conn.bClosed) :
    (⟨n,x.posts ++ more⟩ : Item).Bound := by
  refine ⟨fun member => ?_,fun closed => ?_⟩
  · rcases List.mem_append.mp member with old | new
    · obtain ⟨⟨posts,queue,once⟩,never,unclosed⟩ := bound.first old
      refine ⟨⟨posts ++ more,by simp [queue],?_⟩,phase.trans never,same.trans unclosed⟩
      simp [once,absent]
    · exact absurd new absent
  · exact same.trans (bound.closed (phase.symm.trans closed))

theorem onConnect_phase (n : Node) (status : Int) :
    ({n with conn := n.conn.onConnect status, attempts := n.attempts - 1} : Node).phase = n.phase := by
  simp only [Node.phase,TcpConnection.onConnect_handle]

theorem Item.Bound.hurries (bound : x.Bound) (hurries : Hurries x y) : y.Bound := by
  cases hurries with
  | connect n posts => exact ⟨fun member => absurd member bound.tail,nofun⟩
  | startTimer n posts => exact ⟨fun member => absurd member bound.tail,bound.closed⟩
  | close n posts =>
    obtain ⟨phase,same⟩ := run_close n false
    refine ⟨fun member => absurd member bound.tail,fun closed => ?_⟩
    rw [phase] at closed
    split at closed
    · rename_i through
      exact same.trans (bound.closed through)
    · cases closed
  | closeSafe n posts => exact bound.grows (by simp) rfl rfl
  | @fails status n posts _ =>
    have absent : .connect ∉ (if n.callbacks then [NodeTask.startTimer] else []) := by cases n.callbacks <;> simp
    exact bound.grows absent (onConnect_phase n status) (TcpConnection.onConnect_bClosed n.conn status)
  | @ends n posts closing _ _ =>
    refine ⟨fun member => ?_,fun _ => TcpConnection.runCloseCb_bClosed n.conn⟩
    have never := (bound.first member).2.1
    rw [closing] at never
    cases never

theorem Item.Doomed.hurries (bound : x.Bound) (doomed : x.Doomed) (hurries : Hurries x y) : y.Doomed := by
  cases hurries with
  | connect n posts =>
    obtain ⟨_,never,unclosed⟩ := bound.first List.mem_cons_self
    rcases doomed with posted | closing | closed
    · exact .inl (by simpa using posted)
    · rw [closing] at never
      cases never
    · rw [closed] at unclosed
      cases unclosed
  | startTimer n posts =>
    rcases doomed with posted | others
    · exact .inl (by simpa using posted)
    · exact .inr others
  | close n posts =>
    obtain ⟨phase,same⟩ := run_close n false
    by_cases through : n.phase = .closed
    · exact .inr (.inr (same.trans (bound.closed through)))
    · exact .inr (.inl (by rw [phase,if_neg through]))
  | closeSafe n posts => exact .inl (by simp)
  | @fails status n posts _ =>
    rcases doomed with posted | closing | closed
    · exact .inl (List.mem_append_left _ posted)
    · exact .inr (.inl ((onConnect_phase n status).trans closing))
    · exact .inr (.inr ((TcpConnection.onConnect_bClosed n.conn status).trans closed))
  | @ends n posts _ _ _ => exact .inr (.inr (TcpConnection.runCloseCb_bClosed n.conn))

theorem Item.Missed.hurries (bound : x.Bound) (missed : x.Missed) (hurries : Hurries x y) : y.Missed := by
  cases hurries with
  | connect n posts =>
    obtain ⟨_,_,unclosed⟩ := bound.first List.mem_cons_self
    rcases missed with (posted | timer | asked) | again
    · exact .inl (.inl (by simpa using posted))
    · exact .inl (.inr (.inl timer))
    · exact .inl (.inr (.inr ⟨asked.1,.inl (Nat.succ_pos _)⟩))
    · rw [again.1] at unclosed
      cases unclosed
  | startTimer n posts => exact .inl (.inr (.inl (Nat.succ_pos _)))
  | close n posts =>
    obtain ⟨phase,same⟩ := run_close n false
    rcases missed with (posted | timer | asked) | again
    · exact .inl (.inl (by simpa using posted))
    · exact .inl (.inr (.inl timer))
    · exact .inl (.inr (.inr ⟨asked.1,asked.2.imp_right fun member => by simpa using member⟩))
    · refine .inr ⟨same.trans again.1,?_⟩
      rw [phase,if_neg again.2]
      simp
  | closeSafe n posts =>
    rcases missed with (posted | timer | asked) | again
    · exact .inl (.inl (List.mem_append_left _ posted))
    · exact .inl (.inr (.inl timer))
    · exact .inl (.inr (.inr ⟨asked.1,asked.2.imp_right (List.mem_append_left _)⟩))
    · exact .inr again
  | @fails status n posts asked =>
    rcases missed with (posted | timer | asked) | again
    · exact .inl (.inl (List.mem_append_left _ posted))
    · exact .inl (.inr (.inl timer))
    · have callbacks : n.callbacks = true := asked.1
      exact .inl (.inl (by simp [callbacks]))
    · refine .inr ⟨(TcpConnection.onConnect_bClosed n.conn status).trans again.1,?_⟩
      exact fun closed => again.2 ((onConnect_phase n status).symm.trans closed)
  | @ends n posts closing answered first =>
    rcases missed with (posted | timer | ⟨_,asked | member⟩) | again
    · exact .inl (.inl posted)
    · exact .inl (.inr (.inl timer))
    · have asked : 0 < n.attempts := asked
      omega
    · have never := (bound.first member).2.1
      rw [closing] at never
      cases never
    · rw [first] at again
      cases again.1

/-- A stop under way. The nodes it has posted a close for are going to be closed, and it
misses node j. -/
structure Hurried (j : Nat) (s : Broker) : Prop extends s.Inv where
  stopped : s.bStop = true
  bound : ∀ i x, s.item i = some x → x.Bound
  closing : ∀ k, s.main = .closing k → ∀ i < k, ∀ x, s.item i = some x → x.Doomed
  waiting : ∀ k, s.main = .waiting k → ∀ i x, s.item i = some x → x.Doomed
  missed : ∃ x, s.item j = some x ∧ x.Missed

variable {j : Nat}

theorem hurry_before {a : Action} (hurried : s.Hurried j) (taken : hurry L s a = some s') {i : Nat}
    (now : s'.item i = some y) : ∃ x, s.item i = some x ∧ (y = x ∨ Hurries x y) := by
  have main : s.main ≠ .running := hurried.stopping.mp hurried.stopped
  rcases item_before (hurry_step taken).2 now with ⟨x,here⟩ | ⟨running,_⟩
  · obtain ⟨z,there,moved⟩ := hurry_item hurried.stopped taken here
    obtain rfl := Option.some.inj (now.symm.trans there)
    exact ⟨x,here,moved⟩
  · exact absurd running main

theorem hurry_kept {a : Action} (hurried : s.Hurried j) (taken : hurry L s a = some s') : s'.Hurried j := by
  have main : s.main ≠ .running := hurried.stopping.mp hurried.stopped
  have inv := step_inv hurried.toInv (hurry_step taken).2
  -- a node that was doomed is
  have doomed (i : Nat) (y : Item) (now : s'.item i = some y) (before : ∀ x, s.item i = some x → x.Doomed) :
      y.Doomed := by
    obtain ⟨x,here,rfl | hurries⟩ := hurry_before hurried taken now
    · exact before y here
    · exact (before x here).hurries (hurried.bound i x here) hurries
  refine ⟨inv,?_,fun i y now => ?_,?_,?_,?_⟩
  · rw [inv.stopping]
    cases step_effect (hurry_step taken).2 <;> first | exact main | simp
  · obtain ⟨x,here,rfl | hurries⟩ := hurry_before hurried taken now
    · exact hurried.bound i y here
    · exact (hurried.bound i x here).hurries hurries
  · intro k closing i less y now
    cases step_effect (hurry_step taken).2 with
    | addNode running | stop running => exact absurd running main
    | @closeNext l n posted inside here =>
      cases closing
      rcases Nat.lt_succ_iff_lt_or_eq.mp less with before | rfl
      · exact doomed i y now fun x here => hurried.closing l posted i before x here
      · rw [show ({s.react i ⟨n.closeSafe,[.close],false⟩ with main := .closing (i + 1)} : Broker).item i =
          (s.react i ⟨n.closeSafe,[.close],false⟩).item i from rfl,item_react here,if_pos rfl] at now
        obtain rfl := Option.some.inj now
        exact .inl (by simp)
    | closed _ _ | poll _ _ _ | clear _ _ => cases closing
    | run _ _ _ _ | event _ _ => exact doomed i y now fun x here => hurried.closing k closing i less x here
  · intro k waiting i y now
    cases step_effect (hurry_step taken).2 with
    | addNode running | stop running => exact absurd running main
    | closeNext _ _ _ | clear _ _ => cases waiting
    | @closed l posted last =>
      obtain ⟨found,_⟩ := node_of_item now
      have inside : i < s.nodes.length := (List.getElem?_eq_some_iff.mp found).1
      have clients : s.clients = s.nodes.length := by simpa [posted] using hurried.clients
      exact doomed i y now fun x here => hurried.closing l posted i (by omega) x here
    | @poll l n polled _ _ => exact doomed i y now fun x here => hurried.waiting l polled i x here
    | run _ _ _ _ | event _ _ => exact doomed i y now fun x here => hurried.waiting k waiting i x here
  · obtain ⟨x,here,missed⟩ := hurried.missed
    obtain ⟨y,now,rfl | hurries⟩ := hurry_item hurried.stopped taken here
    · exact ⟨y,now,missed⟩
    · exact ⟨y,now,missed.hurries (hurried.bound j x here) hurries⟩

/-! A hurried stop comes to its end: what it still has to do gets less with every step. -/

def taskWeight : NodeTask → Nat
  | .connect => 10
  | .startTimer => 2
  | .close => 1

def phaseWeight : Phase → Nat
  | .never | .live => 2
  | .closing => 1
  | .closed => 0

def nodeWeight (n : Node) : Nat := 4 * n.attempts + phaseWeight n.phase

def stageWeight (nodes : Nat) : StopStage → Nat
  | .closing k => 2 * (nodes - k) + nodes + 2
  | .waiting k => nodes - k + 1
  | _ => 0

def weight (s : Broker) : Nat :=
  stageWeight s.nodes.length s.main + (s.posted.map (taskWeight ·.task)).sum + (s.nodes.map nodeWeight).sum

theorem sum_set {nodes : List Node} {i : Nat} {n : Node} (here : nodes[i]? = some n) (m : Node) :
    ((nodes.set i m).map nodeWeight).sum + nodeWeight n = (nodes.map nodeWeight).sum + nodeWeight m := by
  induction nodes generalizing i with
  | nil => cases here
  | cons first rest ih =>
    cases i with
    | zero =>
      obtain rfl : first = n := by simpa using here
      simp only [List.set_cons_zero,List.map_cons,List.sum_cons]
      omega
    | succ i =>
      have := ih (i := i) (by simpa using here)
      simp only [List.set_cons_succ,List.map_cons,List.sum_cons]
      omega

theorem phaseWeight_le (p : Phase) : phaseWeight p ≤ 2 := by cases p <;> simp [phaseWeight]

/-- A closure that runs costs a node less than it weighed. -/
theorem run_weight (n : Node) (task : NodeTask) : nodeWeight (n.run false task) < nodeWeight n + taskWeight task := by
  cases task with
  | connect =>
    have := phaseWeight_le (n.run false .connect).phase
    simp only [nodeWeight,taskWeight]
    have attempts : (n.run false .connect).attempts = n.attempts + 1 := rfl
    omega
  | startTimer =>
    have same : nodeWeight (n.run false .startTimer) = nodeWeight n := rfl
    simp [same,taskWeight]
  | close =>
    have phase := (run_close n false).1
    have attempts : (n.run false .close).attempts = n.attempts := rfl
    simp only [nodeWeight,taskWeight,phase,attempts]
    cases n.phase <;> simp [phaseWeight]

theorem hurry_weight {a : Action} (hurried : s.Hurried j) (taken : hurry L s a = some s') : s'.weight < s.weight := by
  have main : s.main ≠ .running := hurried.stopping.mp hurried.stopped
  have whole (uncleared : s.main ≠ .cleared) : s.clients = s.nodes.length := by simpa [uncleared] using hurried.clients
  obtain ⟨fast,taken⟩ := hurry_step taken
  cases step_effect taken with
  | addNode running | stop running => exact absurd running main
  | @closeNext k n closing inside here =>
    have clients := whole (by simp [closing])
    have nodes := sum_set here n.closeSafe
    have same : nodeWeight n.closeSafe = nodeWeight n := rfl
    simp only [weight,react,closing,stageWeight,List.length_set,List.map_append,List.sum_append,List.map_cons,
      List.map_nil,List.sum_cons,List.sum_nil,taskWeight]
    omega
  | closed closing _ =>
    simp only [weight,closing,stageWeight]
    omega
  | @poll k n waiting inside here =>
    have clients := whole (by simp [waiting])
    have set : n.conn.bClosed = true := by simpa [Broker.hurried,waiting,here] using fast
    simp only [weight,waiting,stageWeight,set,if_true]
    omega
  | clear waiting _ =>
    simp only [weight,waiting,stageWeight]
    omega
  | @run loop refused p front back n split on before here =>
    obtain rfl : refused = false := by simpa [Broker.hurried] using fast
    have nodes := sum_set here (n.run false p.task)
    have less := run_weight n p.task
    simp only [weight,split,List.length_set,List.map_append,List.sum_append,List.map_cons,List.sum_cons]
    omega
  | @event k e n r here reacts =>
    have nodes := sum_set here r.node
    have posts : ((r.posts.map (⟨·,k⟩ : NodeTask → Post)).map (taskWeight ·.task)).sum = (r.posts.map taskWeight).sum := by
      rw [List.map_map]; rfl
    rw [hurried.stopped] at reacts
    have less : nodeWeight r.node + (r.posts.map taskWeight).sum < nodeWeight n := by
      cases event_reacts reacts with
      | fails status asked =>
        have phase := onConnect_phase n status
        simp only [nodeWeight,phase]
        cases n.callbacks <;> simp [taskWeight] <;> omega
      | connects status success _ _ =>
        have negative : status < 0 := by simpa [Broker.hurried] using fast
        omega
      | session talks _ _ _ _ _ => rcases talks with rfl | ⟨_,_,rfl⟩ <;> cases fast
      | ends _ closing _ _ =>
        have phase : ({n with conn := n.conn.runCloseCb, callbacks := false} : Node).phase = .closed :=
          TcpConnection.runCloseCb_phase n.conn
        simp [nodeWeight,phase,closing,phaseWeight]
      | reconnects _ _ _ _ running => cases running
      | retries => cases fast
    simp only [weight,react,List.length_set,List.map_append,List.sum_append,posts]
    omega

/-- A closure, a connect request or a handle to be closed for the first time keeps a hurried
stop going. -/
theorem Hurried.through (hurried : s.Hurried j) (stuck : ∀ a, hurry L s a = none) {i : Nat} {x : Item}
    (here : s.item i = some x) :
    x.posts = [] ∧ x.node.attempts = 0 ∧ (x.node.phase = .closing → x.node.conn.bClosed = true) := by
  obtain ⟨found,posts⟩ := node_of_item here
  have none_posted : s.posted = [] := by
    by_contra some_posted
    obtain ⟨p,rest,posted⟩ := List.exists_cons_of_ne_nil some_posted
    have inside := hurried.posted p (by simp [posted])
    have waits := stuck (.run (p.index % L) false)
    simp [hurry,Broker.hurried,step,posted,next_head,List.getElem?_eq_getElem inside] at waits
  have answered : x.node.attempts = 0 := by
    by_contra asked
    have waits := stuck (.event i (.onConnect (-1)))
    simp [hurry,Broker.hurried,step,found,Node.event,Nat.pos_of_ne_zero asked] at waits
  refine ⟨by rw [posts,none_posted]; rfl,answered,fun closing => ?_⟩
  by_contra first
  have waits := stuck (.event i (.onClose false))
  have unclosed : x.node.conn.bClosed = false := by simpa using first
  cases callbacks : x.node.callbacks <;>
    simp [hurry,Broker.hurried,step,found,Node.event,closing,answered,unclosed,callbacks,hurried.stopped] at waits

/-- A hurried stop gets stuck only when it has cleared the vector. -/
theorem Hurried.cleared (hurried : s.Hurried j) (stuck : ∀ a, hurry L s a = none) : s.main = .cleared := by
  cases main : s.main with
  | running => exact absurd main (hurried.stopping.mp hurried.stopped)
  | cleared => rfl
  | closing k =>
    have clients : s.clients = s.nodes.length := by simpa [main] using hurried.clients
    have waits := stuck .closeNext
    by_cases inside : k < s.nodes.length <;>
      simp [hurry,Broker.hurried,step,main,clients,inside] at waits
  | waiting k =>
    have clients : s.clients = s.nodes.length := by simpa [main] using hurried.clients
    have waits := stuck .poll
    by_cases inside : k < s.nodes.length
    · have found := List.getElem?_eq_getElem inside
      have here := item_of_node found
      obtain ⟨posts,_,closed⟩ := hurried.through stuck here
      have set : s.nodes[k].conn.bClosed = true := by
        rcases hurried.waiting k main k _ here with posted | closing | set
        · rw [posts] at posted
          cases posted
        · exact closed closing
        · exact set
      simp [hurry,Broker.hurried,step,main,clients,inside,set] at waits
    · simp [hurry,Broker.hurried,step,main,clients,inside] at waits

/-- Then a retry timer looks beyond the end of the vector, or a connection has been
dropped whose handle is open. -/
theorem Hurried.goes_wrong (hurried : s.Hurried j) (stuck : ∀ a, hurry L s a = none) :
    ∃ actions t, Transition.run (step L) s actions = some t ∧ ¬ t.Safe := by
  have cleared := hurried.cleared stuck
  have clients : s.clients = 0 := by simpa [cleared] using hurried.clients
  obtain ⟨x,here,missed⟩ := hurried.missed
  obtain ⟨found,_⟩ := node_of_item here
  obtain ⟨posts,answered,_⟩ := hurried.through stuck here
  rcases missed with pending | again
  · have timer : 0 < x.node.timers := by
      rcases pending with posted | timer | ⟨_,asked | posted⟩
      · rw [posts] at posted
        cases posted
      · exact timer
      · omega
      · rw [posts] at posted
        cases posted
    obtain ⟨r,reacts,indexed⟩ : ∃ r, x.node.event s.bStop (.onTimer false) = some r ∧ r.indexed = true :=
      ⟨_,by rw [Node.event,if_pos timer],rfl⟩
    refine ⟨[.event j (.onTimer false)],s.react j r,?_,fun safe => ?_⟩
    · simp [Transition.run,step,found,reacts]
    · have tame := safe.1
      simp [react,indexed,clients] at tame
  · exact ⟨[],s,rfl,fun safe => again.2 (safe.2 cleared _ (List.mem_of_getElem? found))⟩

theorem Item.At.bound {w : Way} (at_w : x.At w) : x.Bound := by
  refine ⟨fun member => ?_,fun closed => ?_⟩
  · rw [at_w.posts] at member
    cases w with
    | connecting => exact ⟨⟨[],at_w.posts,by simp⟩,at_w.phase,at_w.first rfl⟩
    | _ => simp [Way.posts] at member
  · rw [at_w.phase] at closed
    cases w <;> cases closed

theorem Item.At.missed {w : Way} (at_w : x.At w)
    (trouble : ¬ (x.posts = [] ∧ x.node.attempts = 0 ∧ x.node.timers = 0 ∧ x.node.conn.bClosed = false)) : x.Missed := by
  have posts := at_w.posts
  have attempts := at_w.attempts
  have timers := at_w.timers
  have phase := at_w.phase
  cases w with
  | connecting => exact .inl (.inr (.inr ⟨at_w.callbacks,.inr (by simp [posts,Way.posts])⟩))
  | attempting => exact .inl (.inr (.inr ⟨at_w.callbacks,.inl (by simp [attempts,Way.attempts])⟩))
  | failed => exact .inl (.inl (by simp [posts,Way.posts]))
  | retrying => exact .inl (.inr (.inl (by simp [timers,Way.timers])))
  | session | closing | lost =>
    -- nothing is on its way to connect, so the node has had to reconnect before
    simp only [Way.posts,Way.attempts,Way.timers] at posts attempts timers
    exact .inr ⟨by simpa [posts,attempts,timers] using trouble,by simp [phase,Way.phase]⟩

/-- Where a call of stop finds a node that is not settled, it may go wrong. -/
theorem Going.goes_wrong (going : s.Going) (running : s.bStop = false) (unsettled : ¬ s.Settled)
    (taken : step L s .stop = some s') : ∃ actions t, Transition.run (step L) s' actions = some t ∧ ¬ t.Safe := by
  have inv := step_inv going.toInv taken
  obtain ⟨j,x,here,trouble⟩ : ∃ j x, s.item j = some x ∧
      ¬ (x.posts = [] ∧ x.node.attempts = 0 ∧ x.node.timers = 0 ∧ x.node.conn.bClosed = false) := by
    simpa [Settled] using unsettled
  have hurried : s'.Hurried j := by
    cases step_effect taken with
    | stop main =>
      refine ⟨inv,rfl,fun i y there => ?_,?_,nofun,x,here,?_⟩
      · obtain ⟨w,at_w⟩ := going.ways running i y there
        exact at_w.bound
      · intro k closing i less
        cases closing
        omega
      · obtain ⟨w,at_w⟩ := going.ways running j x here
        exact at_w.missed trouble
  obtain ⟨actions,t,_,run,⟨kept,_⟩,stuck⟩ := Transition.run_stops
    (I := fun s n => s.Hurried j ∧ s.weight = n)
    (fun s _ a t inv (taken : hurry L s a = some t) => ⟨t.weight,inv.2 ▸ hurry_weight inv.1 taken,hurry_kept inv.1 taken,rfl⟩) ⟨hurried,rfl⟩
  obtain ⟨more,u,later,wrong⟩ := kept.goes_wrong stuck
  refine ⟨actions ++ more,u,?_,wrong⟩
  rw [Transition.run_append,Transition.run_of_restricted (fun _ _ _ taken => (hurry_step taken).2) run]
  exact later

/-- A node whose connect has failed and that waits for its retry. -/
def waitingToRetry : List Action :=
  [.addNode,.run 0 false,.event 0 (.onConnect (-111)),.run 0 false]

end UvRpc.Broker
