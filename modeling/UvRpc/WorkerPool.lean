import UvRpc.Framing
import UvRpc.GlobalConfig
import UvRpc.Placement
import UvRpc.Transition

/-! WorkerPool under a server that has PingDispatch2Worker as its dispatcher: each packet of a
connection becomes a work request, a thread of libuv's pool does its work, and the loop of
the connection deletes it. libuv's pool takes the requests in the order in which they are
queued, and gives each back to the loop it was queued for. Between any two packets of a read
other threads may do something. -/

namespace UvRpc

/-- What a task of the server holds: `conn` is what its weak pointer refers to. -/
structure WorkTask (C : Type*) where
  taskTypeName : String
  taskIdStr : List UInt8
  conn : C

/-- A registration, a uvWork with the work it found, and a uvAfterWork. -/
inductive WorkEvent (L P : Type*) where
  | registered (name : String) (work : Option Nat)
  | worked (thread : P) (req : Nat) (work : Option Nat)
  | deleted (loop : L) (req : Nat)

inductive WorkPlace (L P : Type*) where
  | queue | running (thread : P) | after (loop : L) | gone
  deriving DecidableEq, Repr

/-- The n-th task made is that of request `n`. `received` is what was read on a connection so
far, and `pending` has the payloads that its onMessage has still to give to onMessageParse. -/
structure WorkerPool (C L P : Type*) where
  config : GlobalConfig
  alive : C → Bool
  dispatch : C → Dispatch
  recvCount : C → Nat
  received : C → List UInt8
  pending : C → List (List UInt8)
  tasks : List (WorkTask C)
  queue : List Nat
  running : P → Option Nat
  after : L → List Nat
  gone : List Nat
  history : List (WorkEvent L P)

namespace WorkerPool

/-- addWorkType does not lock the table against the getWorkType of other threads, and each
of them is taken as one step. -/
inductive Action (C L P : Type*) where
  | addWorkType (name : String) (work : Option Nat)
  | onRead (c : C) (chunk : List UInt8)
  | onMessageParse (c : C)
  | uvWork (thread : P)
  /-- uvWork returns, and libuv lets the loop know. -/
  | workDone (thread : P)
  | uvAfterWork (loop : L)
  | destroy (c : C)

variable {C L P : Type*} [DecidableEq C] [DecidableEq L] [DecidableEq P]

def addToWorkQueue (s : WorkerPool C L P) (task : WorkTask C) : WorkerPool C L P :=
  {s with tasks := s.tasks ++ [task], queue := s.queue ++ [s.tasks.length]}

/-- PingDispatch2Worker::onMessageParse. The type of a task is that of its constructor. -/
def onMessageParse (s : WorkerPool C L P) (c : C) : Option (WorkerPool C L P) :=
  match s.pending c with
  | buf :: rest => some (addToWorkQueue {s with
      pending := Function.update s.pending c rest
      recvCount := Function.update s.recvCount c (s.recvCount c + 1)} ⟨"IWork",buf,c⟩)
  | [] => none

def onRead (s : WorkerPool C L P) (c : C) (chunk : List UInt8) : Option (WorkerPool C L P) :=
  if s.alive c ∧ s.pending c = [] then
    (Dispatch.onMessage {s.dispatch c with log := []} chunk).map fun d => {s with
      dispatch := Function.update s.dispatch c d
      received := Function.update s.received c (s.received c ++ chunk)
      pending := Function.update s.pending c ((deliveries d.log).map Prod.snd)}
  else none

/-- The work for the task's type is looked up on the thread that does it. -/
def uvWork (s : WorkerPool C L P) (p : P) : Option (WorkerPool C L P) :=
  match s.running p,s.queue with
  | none,r :: rest => s.tasks[r]?.map fun task => {s with
      queue := rest
      running := Function.update s.running p (some r)
      history := s.history ++ [.worked p r (s.config.getWorkType task.taskTypeName)]}
  | _,_ => none

def workDone (loopOf : C → L) (s : WorkerPool C L P) (p : P) : Option (WorkerPool C L P) :=
  (s.running p).bind fun r => s.tasks[r]?.map fun task => {s with
    running := Function.update s.running p none
    after := Function.update s.after (loopOf task.conn) (s.after (loopOf task.conn) ++ [r])}

/-- Whether the connection is still there makes no difference. -/
def uvAfterWork (s : WorkerPool C L P) (l : L) : Option (WorkerPool C L P) :=
  match s.after l with
  | r :: rest => some {s with
      after := Function.update s.after l rest
      gone := s.gone ++ [r]
      history := s.history ++ [.deleted l r]}
  | [] => none

/-- The reader of a connection holds it. -/
def destroy (s : WorkerPool C L P) (c : C) : Option (WorkerPool C L P) :=
  if s.pending c = [] then some {s with alive := Function.update s.alive c false} else none

def addWorkType (s : WorkerPool C L P) (name : String) (work : Option Nat) : WorkerPool C L P :=
  {s with config := (s.config.addWorkType name work).2, history := s.history ++ [.registered name work]}

def step (loopOf : C → L) (s : WorkerPool C L P) : Action C L P → Option (WorkerPool C L P)
  | .addWorkType name work => some (s.addWorkType name work)
  | .onRead c chunk => s.onRead c chunk
  | .onMessageParse c => s.onMessageParse c
  | .uvWork p => s.uvWork p
  | .workDone p => workDone loopOf s p
  | .uvAfterWork l => s.uvAfterWork l
  | .destroy c => s.destroy c

def start (heaps : C → Heap) (dispatch : C → Dispatch) : Prop := ∀ c, Dispatch.fresh (heaps c) = some (dispatch c)

def init (dispatch : C → Dispatch) : WorkerPool C L P :=
  ⟨.make,fun _ => true,dispatch,fun _ => 0,fun _ => [],fun _ => [],[],[],fun _ => none,fun _ => [],[],[]⟩

def held (s : WorkerPool C L P) : WorkPlace L P → List Nat
  | .queue => s.queue
  | .running p => (s.running p).toList
  | .after l => s.after l
  | .gone => s.gone

end WorkerPool

def WorkEvent.registration {L P : Type*} : WorkEvent L P → Option (String × Option Nat)
  | .registered name work => some (name,work)
  | _ => none

def WorkEvent.work {L P : Type*} : WorkEvent L P → Option Nat
  | .worked _ r _ => some r
  | _ => none

namespace WorkerPool
variable {C L P : Type*} [DecidableEq C] [DecidableEq L] [DecidableEq P]

def stringsOf (s : WorkerPool C L P) (c : C) : List (List UInt8) :=
  (s.tasks.filter (·.conn = c)).map WorkTask.taskIdStr

/-- Each packet becomes one task, in order. Each request is in one place. Work is done once for
each that has left the queue, in the order of the tasks and by the work registered first for
its type, and each request that is gone was deleted by its connection's loop after its work. -/
structure Conserved (loopOf : C → L) (s : WorkerPool C L P) : Prop where
  placed : ∀ r < s.tasks.length, ∃ p, ∀ p', (s.held p').count r = if p' = p then 1 else 0
  order : s.history.filterMap WorkEvent.work ++ s.queue = List.range s.tasks.length
  packets : ∀ c, s.stringsOf c ++ s.pending c = (frames (s.received c)).map Frame.payload ∧
    s.recvCount c + (s.pending c).length = (frames (s.received c)).length
  works : ∀ before p r work after, s.history = before ++ .worked p r work :: after → ∃ task, s.tasks[r]? = some task ∧
    work = (Registry.first (before.filterMap WorkEvent.registration) task.taskTypeName).join
  deleted : ∀ before l r after, s.history = before ++ .deleted l r :: after → r ∈ before.filterMap WorkEvent.work ∧
    ∃ task, s.tasks[r]? = some task ∧ l = loopOf task.conn

structure Pooled (loopOf : C → L) (s : WorkerPool C L P) : Prop where
  placed : ∃ loc, Placement.Placed s.held loc ∧ ∀ r, (loc r).isSome ↔ r < s.tasks.length
  order : s.history.filterMap WorkEvent.work ++ s.queue = List.range s.tasks.length
  configured : Registry.Filled (s.history.filterMap WorkEvent.registration) s.config.workMap
  waiting : ∀ l, ∀ r ∈ s.after l, ∃ task, s.tasks[r]? = some task ∧ l = loopOf task.conn
  works : ∀ before p r work after, s.history = before ++ .worked p r work :: after → ∃ task, s.tasks[r]? = some task ∧
    work = (Registry.first (before.filterMap WorkEvent.registration) task.taskTypeName).join
  deleted : ∀ before l r after, s.history = before ++ .deleted l r :: after → r ∈ before.filterMap WorkEvent.work ∧
    ∃ task, s.tasks[r]? = some task ∧ l = loopOf task.conn

variable {loopOf : C → L} {s t : WorkerPool C L P} {c : C} {r : Nat}

section
omit [DecidableEq C]

theorem Pooled.known (pooled : s.Pooled loopOf) {p : WorkPlace L P} (member : r ∈ s.held p) : r < s.tasks.length := by
  obtain ⟨loc,placed,known⟩ := pooled.placed
  exact (known r).mp (by rw [placed.mem_iff.mp member]; rfl)

theorem Pooled.worked (pooled : s.Pooled loopOf) {p : WorkPlace L P} (member : r ∈ s.held p) (left : p ≠ .queue) :
    r ∈ s.history.filterMap WorkEvent.work := by
  obtain ⟨loc,placed,_⟩ := pooled.placed
  have made : r ∈ s.history.filterMap WorkEvent.work ++ s.queue := by
    rw [pooled.order]
    exact List.mem_range.mpr (pooled.known member)
  exact (List.mem_append.mp made).resolve_right fun queued => left (placed.same_place member queued)

theorem found_more {tasks : List (WorkTask C)} {task : WorkTask C} (more : List (WorkTask C)) (found : tasks[r]? = some task) :
    (tasks ++ more)[r]? = some task := by
  rw [List.getElem?_append_left (List.getElem?_eq_some_iff.mp found).1,found]

theorem Pooled.add (pooled : s.Pooled loopOf) (task : WorkTask C) : (s.addToWorkQueue task).Pooled loopOf := by
  obtain ⟨loc,placed,known⟩ := pooled.placed
  have absent : loc s.tasks.length = none := by
    simpa using (known s.tasks.length).not.mpr (Nat.lt_irrefl _)
  have still {q : Nat} {l : L} (has : ∃ task, s.tasks[q]? = some task ∧ l = loopOf task.conn) :
      ∃ other, (s.tasks ++ [task])[q]? = some other ∧ l = loopOf other.conn := by
    obtain ⟨other,found,rest⟩ := has
    exact ⟨other,found_more _ found,rest⟩
  have queued : ((s.addToWorkQueue task).held .queue).Perm (s.held .queue ++ [s.tasks.length]) := .refl _
  refine ⟨⟨_,placed.insert absent queued ?_,fun q => ?_⟩,?_,pooled.configured,
    fun l q member => still (pooled.waiting l q member),fun before p q work after split => ?_,
    fun before l q after split => ?_⟩
  · intro p other
    cases p <;> first | rfl | exact absurd rfl other
  · change _ ↔ q < (s.tasks ++ [task]).length
    rw [List.length_append,List.length_singleton]
    by_cases same : q = s.tasks.length
    · simp [same]
    · simp only [same,if_false,known q]
      omega
  · change s.history.filterMap WorkEvent.work ++ (s.queue ++ [s.tasks.length]) = List.range (s.tasks ++ [task]).length
    rw [List.length_append,List.length_singleton,List.range_succ,← pooled.order,List.append_assoc]
  · obtain ⟨other,found,rest⟩ := pooled.works before p q work after split
    exact ⟨other,found_more _ found,rest⟩
  · obtain ⟨worked,has⟩ := pooled.deleted before l q after split
    exact ⟨worked,still has⟩

/-- A request is moved from one place to another, and the history grows by nothing or by
what is said about it. -/
theorem Pooled.move (pooled : s.Pooled loopOf) {src dst : WorkPlace L P} {keep : List Nat} (apart : src ≠ dst)
    (before : s.held src = r :: keep) (gone : t.held src = keep) (arrived : t.held dst = s.held dst ++ [r])
    (others : ∀ p, p ≠ src → p ≠ dst → t.held p = s.held p) (tasks : t.tasks = s.tasks) :
    ∃ loc, Placement.Placed t.held loc ∧ ∀ q, (loc q).isSome ↔ q < t.tasks.length := by
  obtain ⟨loc,placed,known⟩ := pooled.placed
  have here : r ∈ s.held src := by rw [before]; exact List.mem_cons_self
  have front : (s.held src).Perm ([r] ++ keep) := by rw [before]; rfl
  refine ⟨_,placed.transfer apart front (by rw [gone]) (by rw [arrived]) others,fun q => ?_⟩
  rw [tasks,← known q]
  by_cases same : q = r
  · simp [same,placed.mem_iff.mp here]
  · simp [same]

theorem Pooled.addWorkType (pooled : s.Pooled loopOf) (name : String) (work : Option Nat) :
    (s.addWorkType name work).Pooled loopOf := by
  refine ⟨pooled.placed,?_,?_,pooled.waiting,fun before p r found after split => ?_,fun before l r after split => ?_⟩
  · rw [WorkerPool.addWorkType,GlobalConfig.filterMap_silent rfl]
    exact pooled.order
  · rw [WorkerPool.addWorkType,List.filterMap_append]
    exact pooled.configured.add name work
  · rcases Transition.split_snoc split with ⟨_,other⟩ | ⟨rest,earlier⟩
    · cases other
    · exact pooled.works before p r found rest earlier
  · rcases Transition.split_snoc split with ⟨_,other⟩ | ⟨rest,earlier⟩
    · cases other
    · exact pooled.deleted before l r rest earlier

/-- The work is the one registered first, because that is what the table has. -/
theorem Pooled.uvWork (pooled : s.Pooled loopOf) {p : P} (taken : s.uvWork p = some t) :
    t.Pooled loopOf ∧ t.tasks = s.tasks := by
  simp only [WorkerPool.uvWork] at taken
  split at taken
  case h_2 => cases taken
  rename_i r rest free queue
  obtain ⟨task,found,rfl⟩ := Option.map_eq_some_iff.mp taken
  have work : s.config.getWorkType task.taskTypeName =
      (Registry.first (s.history.filterMap WorkEvent.registration) task.taskTypeName).join := by
    rw [GlobalConfig.getWorkType,pooled.configured]
  refine ⟨⟨?_,?_,?_,pooled.waiting,fun before q r' work' after split => ?_,fun before l r' after split => ?_⟩,rfl⟩
  · refine pooled.move (show (.queue : WorkPlace L P) ≠ .running p by simp) queue rfl ?_ ?_ rfl
    · simp [held,free]
    · intro place apart other
      cases place with
      | running p' =>
        have differ : p' ≠ p := by rintro rfl; exact other rfl
        simp [held,differ]
      | queue => exact absurd rfl apart
      | _ => rfl
  · have order := pooled.order
    rw [queue] at order
    rw [← order,List.filterMap_append,List.append_assoc]
    rfl
  · rw [GlobalConfig.filterMap_silent rfl]
    exact pooled.configured
  · rcases Transition.split_snoc split with ⟨rfl,same⟩ | ⟨later,earlier⟩
    · injection same with _ request found_work
      exact ⟨task,by rw [← request]; exact found,by rw [← found_work,work]⟩
    · exact pooled.works before q r' work' later earlier
  · rcases Transition.split_snoc split with ⟨_,other⟩ | ⟨later,earlier⟩
    · cases other
    · exact pooled.deleted before l r' later earlier

theorem Pooled.workDone (pooled : s.Pooled loopOf) {p : P} (taken : workDone loopOf s p = some t) :
    t.Pooled loopOf ∧ t.tasks = s.tasks := by
  obtain ⟨r,running,taken⟩ := Option.bind_eq_some_iff.mp taken
  obtain ⟨task,found,rfl⟩ := Option.map_eq_some_iff.mp taken
  refine ⟨⟨?_,pooled.order,pooled.configured,fun l q member => ?_,pooled.works,pooled.deleted⟩,rfl⟩
  · refine pooled.move (show .running p ≠ .after (loopOf task.conn) by simp) (show s.held (.running p) = [r] from ?_) ?_ ?_ ?_ rfl
    · simp [held,running]
    · simp [held]
    · simp [held]
    · intro place apart other
      cases place with
      | running p' =>
        have differ : p' ≠ p := by rintro rfl; exact apart rfl
        simp [held,differ]
      | after l =>
        have differ : l ≠ loopOf task.conn := by rintro rfl; exact other rfl
        simp [held,differ]
      | _ => rfl
  · by_cases here : l = loopOf task.conn
    · subst here
      simp only [Function.update_self,List.mem_append,List.mem_singleton] at member
      rcases member with old | rfl
      · exact pooled.waiting _ q old
      · exact ⟨task,found,rfl⟩
    · exact pooled.waiting l q (by simpa [here] using member)

theorem Pooled.uvAfterWork (pooled : s.Pooled loopOf) {l : L} (taken : s.uvAfterWork l = some t) :
    t.Pooled loopOf ∧ t.tasks = s.tasks := by
  simp only [WorkerPool.uvAfterWork] at taken
  split at taken
  case h_2 => cases taken
  rename_i r rest waiting
  obtain rfl := Option.some.inj taken
  have here : r ∈ s.held (.after l) := by simp [held,waiting]
  refine ⟨⟨?_,?_,?_,fun m q member => ?_,fun before p r' work after split => ?_,fun before m r' after split => ?_⟩,rfl⟩
  · refine pooled.move (show .after l ≠ .gone by simp) waiting ?_ rfl ?_ rfl
    · simp [held]
    · intro place apart other
      cases place with
      | after m =>
        have differ : m ≠ l := by rintro rfl; exact apart rfl
        simp [held,differ]
      | gone => exact absurd rfl other
      | _ => rfl
  · rw [GlobalConfig.filterMap_silent rfl]
    exact pooled.order
  · rw [GlobalConfig.filterMap_silent rfl]
    exact pooled.configured
  · by_cases same : m = l
    · subst same
      exact pooled.waiting m q (by rw [waiting]; exact List.mem_cons_of_mem _ (by simpa using member))
    · exact pooled.waiting m q (by simpa [same] using member)
  · rcases Transition.split_snoc split with ⟨_,other⟩ | ⟨later,earlier⟩
    · cases other
    · exact pooled.works before p r' work later earlier
  · rcases Transition.split_snoc split with ⟨rfl,same⟩ | ⟨later,earlier⟩
    · injection same with loop request
      subst loop request
      exact ⟨pooled.worked here (by simp),pooled.waiting l r (by rw [waiting]; exact List.mem_cons_self)⟩
    · exact pooled.deleted before m r' later earlier

end

structure Inv (loopOf : C → L) (s : WorkerPool C L P) : Prop extends s.Pooled loopOf where
  ready : ∀ c, (s.dispatch c).Ready ∧ (s.dispatch c).residue = unparsed (s.received c)
  packets : ∀ c, s.stringsOf c ++ s.pending c = (frames (s.received c)).map Frame.payload ∧
    s.recvCount c + (s.pending c).length = (frames (s.received c)).length

theorem Inv.onRead (inv : s.Inv loopOf) {chunk : List UInt8} (taken : s.onRead c chunk = some t) : t.Inv loopOf := by
  simp only [WorkerPool.onRead,Option.ite_none_right_eq_some] at taken
  obtain ⟨⟨_,done⟩,taken⟩ := taken
  obtain ⟨ready,residue⟩ := inv.ready c
  have quiet : Dispatch.Ready {s.dispatch c with log := []} := ⟨ready.valid,ready.heap,ready.incomplete⟩
  obtain ⟨d,received,parses⟩ := Dispatch.onMessage_spec quiet chunk
  rw [received,Option.map_some,Option.some.injEq] at taken
  have kept : ({s.dispatch c with log := []} : Dispatch).residue = unparsed (s.received c) := residue
  have strings : (deliveries d.log).map Prod.snd = (frames (unparsed (s.received c) ++ chunk)).map Frame.payload := by
    rw [parses.logged.delivered,kept]
    change (List.map Prod.snd ([] ++ _)) = _
    rw [List.nil_append,List.map_map]
    rfl
  have more : frames (s.received c ++ chunk) = frames (s.received c) ++ frames (unparsed (s.received c) ++ chunk) ∧
      unparsed (s.received c ++ chunk) = unparsed (unparsed (s.received c) ++ chunk) := by
    simp only [frames,unparsed,packetCutter.parse_append (s.received c) chunk,and_self]
  rw [strings] at taken
  subst taken
  refine {inv.toPooled with ready := fun e => ?_, packets := fun e => ?_}
  · by_cases here : e = c
    · subst here
      simp only [Function.update_self]
      refine ⟨parses.ready,?_⟩
      rw [parses.residue,kept,more.2]
    · simpa [here] using inv.ready e
  · by_cases here : e = c
    · subst here
      obtain ⟨before,count⟩ := inv.packets e
      rw [done,List.append_nil] at before
      rw [done,List.length_nil] at count
      simp only [Function.update_self,more.1,List.map_append,List.length_append,List.length_map,← count]
      exact ⟨congrArg (· ++ _) before,rfl⟩
    · simp only [Function.update_of_ne here]
      exact inv.packets e

theorem Inv.onMessageParse (inv : s.Inv loopOf) (taken : s.onMessageParse c = some t) : t.Inv loopOf := by
  simp only [WorkerPool.onMessageParse] at taken
  split at taken
  case h_2 => cases taken
  rename_i buf rest pending
  obtain rfl := Option.some.inj taken
  have parsing : ({s with
      pending := Function.update s.pending c rest
      recvCount := Function.update s.recvCount c (s.recvCount c + 1)} : WorkerPool C L P).Pooled loopOf :=
    {inv.toPooled with}
  refine {parsing.add ⟨"IWork",buf,c⟩ with ready := inv.ready, packets := fun e => ?_}
  obtain ⟨strings,count⟩ := inv.packets e
  by_cases here : e = c
  · subst here
    rw [pending] at strings count
    rw [List.length_cons] at count
    refine ⟨Eq.trans ?_ strings,Eq.trans ?_ count⟩
    · simp [addToWorkQueue,stringsOf]
    · simp only [addToWorkQueue,Function.update_self]
      omega
  · simpa [here,Ne.symm here,addToWorkQueue,stringsOf] using ⟨strings,count⟩

theorem step_inv (s : WorkerPool C L P) (a : Action C L P) (t : WorkerPool C L P) (inv : s.Inv loopOf)
    (taken : step loopOf s a = some t) : t.Inv loopOf := by
  cases a with
  | addWorkType name work =>
    obtain rfl := Option.some.inj taken
    exact {inv.toPooled.addWorkType name work with ready := inv.ready, packets := inv.packets}
  | onRead c chunk => exact inv.onRead taken
  | onMessageParse c => exact inv.onMessageParse taken
  | uvWork p =>
    have pooled := (inv.toPooled.uvWork taken).1
    simp only [step,uvWork] at taken
    split at taken
    case h_2 => cases taken
    obtain ⟨task,_,rfl⟩ := Option.map_eq_some_iff.mp taken
    exact {pooled with ready := inv.ready, packets := inv.packets}
  | workDone p =>
    have pooled := (inv.toPooled.workDone taken).1
    obtain ⟨r,_,taken⟩ := Option.bind_eq_some_iff.mp taken
    obtain ⟨task,_,rfl⟩ := Option.map_eq_some_iff.mp taken
    exact {pooled with ready := inv.ready, packets := inv.packets}
  | uvAfterWork l =>
    have pooled := (inv.toPooled.uvAfterWork taken).1
    simp only [step,uvAfterWork] at taken
    split at taken
    case h_2 => cases taken
    obtain rfl := Option.some.inj taken
    exact {pooled with ready := inv.ready, packets := inv.packets}
  | destroy c =>
    simp only [step,destroy,Option.ite_none_right_eq_some] at taken
    obtain ⟨_,⟨⟩⟩ := taken
    exact {inv.toPooled with ready := inv.ready, packets := inv.packets}

theorem init_inv {heaps : C → Heap} {dispatch : C → Dispatch} (succeeds : ∀ c, (heaps c).Succeeds)
    (started : start heaps dispatch) : (init dispatch : WorkerPool C L P).Inv loopOf := by
  have fresh (c : C) : (dispatch c).Ready ∧ (dispatch c).residue = [] := by
    obtain ⟨d,made,ready,empty,_⟩ := Dispatch.fresh_ready (succeeds c)
    obtain rfl := Option.some.inj ((started c).symm.trans made)
    exact ⟨ready,empty⟩
  have nothing := frames_of_incomplete (s := []) (by simp [Complete,DataHeader.size])
  refine {
    placed := ⟨fun _ => none,fun p r => ?_,fun r => by simp [init]⟩
    order := rfl, configured := fun _ => rfl
    waiting := by simp [init], works := by simp [init], deleted := by simp [init]
    ready := fun c => ⟨(fresh c).1,(fresh c).2.trans nothing.2.symm⟩
    packets := fun c => ?_}
  · cases p <;> rfl
  · change [] = (frames []).map Frame.payload ∧ 0 = (frames []).length
    rw [nothing.1]
    exact ⟨rfl,rfl⟩

theorem Inv.conserved (inv : s.Inv loopOf) : s.Conserved loopOf := by
  obtain ⟨loc,placed,known⟩ := inv.placed
  refine ⟨fun r made => ?_,inv.order,inv.packets,inv.works,inv.deleted⟩
  obtain ⟨p,lies⟩ := Option.isSome_iff_exists.mp ((known r).mpr made)
  refine ⟨p,fun p' => ?_⟩
  rw [placed p' r,lies]
  simp [eq_comm]

/-- Two loops, a pool thread, and a packet whose work starts before any is registered, in the
middle of a read of the other loop. -/
def lateRegistration : List (Action Bool Bool Unit) :=
  [.onRead true [0,1,0,0,0,0,0,0,9],.onRead false [0,0,0,0,0,0,0,0,0,0,0,0,0,0,0,0],.onMessageParse false,
    .onMessageParse true,.uvWork (),.onMessageParse false,.workDone (),.addWorkType "IWork" (some 3),.uvWork (),
    .destroy true,.uvAfterWork false]

end WorkerPool
end UvRpc
