import UvRpc.TcpConnection
import UvRpc.Transition

/-! Who owns a TcpConnection while callbacks for it wait in its loop's queue. Threads and
the loop's callbacks hold shared pointers, connMap holds one until onClose, and a queued
callback holds what it has captured. A connection exists as long as it has an owner. -/

namespace UvRpc

namespace Lifetime

/-- The callbacks that are queued for a connection: those of sendMsg and closeSafe, and the
one with which a user has a new connection call connect. -/
inductive Task where
  | realSend | close | connect
  deriving DecidableEq, Repr

/-- sendMsg captures by reference and closeSafe copies this: neither owns the connection.
The user's callback copies the shared pointer. -/
def Task.owned : Task → Nat
  | .realSend => 0
  | .close => 0
  | .connect => 1

structure Callback (C : Type*) where
  conn : C
  task : Task
  deriving DecidableEq, Repr

inductive Action (T C : Type*) where
  | onNewConnection (c : C)
  | makeShared (t : T) (c : C)
  | copy (t : T) (c : C)
  | release (t : T) (c : C)
  | loopStatus (t : T) (isRunning : Bool)
  | sendMsg (t : T) (c : C)
  | closeSafe (t : T) (c : C)
  | addNode (t : T) (c : C)
  | close (c : C)
  | onClose (c : C)
  | swap (t : T)
  | callback (t : T)
  | popFront (t : T)
  deriving DecidableEq, Repr

end Lifetime

/-- `refs` has an entry for every shared pointer that a thread holds, those of the loop's
own callbacks included. The front of `batch` is what the loop runs when it is `busy`. -/
structure Lifetime (T C : Type*) where
  made : C → Bool
  registered : C → Bool
  refs : List (T × C)
  phase : C → Phase
  running : T → Bool
  queue : T → List (Lifetime.Callback C)
  batch : T → List (Lifetime.Callback C)
  busy : T → Bool

namespace Lifetime

variable {T C : Type*} [DecidableEq T] [DecidableEq C]

/-- The callbacks of a connection that have not yet run to their end. -/
def waiting (loopOf : C → T) (s : Lifetime T C) (c : C) : List (Callback C) :=
  (s.batch (loopOf c) ++ s.queue (loopOf c)).filter fun f => f.conn = c

def held (s : Lifetime T C) (c : C) : Nat := s.refs.countP (fun ref => ref.2 = c) + (s.registered c).toNat

def owners (loopOf : C → T) (s : Lifetime T C) (c : C) : Nat :=
  s.held c + ((waiting loopOf s c).map fun f => f.task.owned).sum

def enqueue (s : Lifetime T C) (t : T) (f : Callback C) : Lifetime T C :=
  {s with queue := Function.update s.queue t (s.queue t ++ [f])}

def uvClose (s : Lifetime T C) (c : C) : Lifetime T C :=
  if s.phase c = .live then {s with phase := Function.update s.phase c .closing} else s

/-- A connection of the server, owned by connMap. -/
def onNewConnection (s : Lifetime T C) (c : C) : Option (Lifetime T C) :=
  if s.made c then none
  else some {s with
    made := Function.update s.made c true
    registered := Function.update s.registered c true
    phase := Function.update s.phase c .live}

def makeShared (s : Lifetime T C) (t : T) (c : C) : Option (Lifetime T C) :=
  if s.made c then none
  else some {s with
    made := Function.update s.made c true
    refs := (t,c) :: s.refs
    phase := Function.update s.phase c .live}

/-- A thread gets a pointer from another owner, or from a weak pointer that still locks. -/
def copy (loopOf : C → T) (s : Lifetime T C) (t : T) (c : C) : Option (Lifetime T C) :=
  if 0 < owners loopOf s c then some {s with refs := (t,c) :: s.refs} else none

def release (s : Lifetime T C) (t : T) (c : C) : Option (Lifetime T C) :=
  if (t,c) ∈ s.refs then some {s with refs := s.refs.erase (t,c)} else none

/-- sendMsg from pushinQue on. On the loop's own thread it sends at once. -/
def sendMsg (loopOf : C → T) (s : Lifetime T C) (t : T) (c : C) : Option (Lifetime T C) :=
  if (t,c) ∈ s.refs then
    if s.running t ∧ loopOf c = t then some s else some (s.enqueue (loopOf c) ⟨c,.realSend⟩)
  else none

def closeSafe (loopOf : C → T) (s : Lifetime T C) (t : T) (c : C) : Option (Lifetime T C) :=
  if (t,c) ∈ s.refs then
    if s.running t ∧ loopOf c = t then some (s.uvClose c) else some (s.enqueue (loopOf c) ⟨c,.close⟩)
  else none

def addNode (loopOf : C → T) (s : Lifetime T C) (t : T) (c : C) : Option (Lifetime T C) :=
  if (t,c) ∈ s.refs then some (s.enqueue (loopOf c) ⟨c,.connect⟩) else none

def close (loopOf : C → T) (s : Lifetime T C) (c : C) : Option (Lifetime T C) :=
  if 0 < owners loopOf s c then some (s.uvClose c) else none

/-- The close callback: it holds a pointer itself while connMap lets go of its own. -/
def onClose (loopOf : C → T) (s : Lifetime T C) (c : C) : Option (Lifetime T C) :=
  if s.phase c = .closing ∧ s.busy (loopOf c) = false ∧ 0 < owners loopOf s c then
    some {s with
      refs := (loopOf c,c) :: s.refs
      registered := Function.update s.registered c false
      phase := Function.update s.phase c .closed}
  else none

/-- realProcess takes the queue. -/
def swapQue (s : Lifetime T C) (t : T) : Lifetime T C :=
  {s with batch := Function.update s.batch t (s.queue t), queue := Function.update s.queue t []}

def swap (s : Lifetime T C) (t : T) : Option (Lifetime T C) := if s.batch t = [] then some (s.swapQue t) else none

def callback (s : Lifetime T C) (t : T) : Option (Lifetime T C) :=
  if s.batch t ≠ [] ∧ s.busy t = false then some {s with busy := Function.update s.busy t true} else none

def popFront (s : Lifetime T C) (t : T) : Option (Lifetime T C) :=
  match s.batch t, s.busy t with
  | f :: rest, true =>
    let s := if f.task = .close then s.uvClose f.conn else s
    some {s with batch := Function.update s.batch t rest, busy := Function.update s.busy t false}
  | _, _ => none

def step (loopOf : C → T) (s : Lifetime T C) : Action T C → Option (Lifetime T C)
  | .onNewConnection c => s.onNewConnection c
  | .makeShared t c => s.makeShared t c
  | .copy t c => copy loopOf s t c
  | .release t c => s.release t c
  | .loopStatus t isRunning => some {s with running := Function.update s.running t isRunning}
  | .sendMsg t c => sendMsg loopOf s t c
  | .closeSafe t c => closeSafe loopOf s t c
  | .addNode t c => addNode loopOf s t c
  | .close c => close loopOf s c
  | .onClose c => onClose loopOf s c
  | .swap t => s.swap t
  | .callback t => s.callback t
  | .popFront t => s.popFront t

def init : Lifetime T C :=
  ⟨fun _ => false,fun _ => false,[],fun _ => .never,fun _ => false,fun _ => [],fun _ => [],fun _ => false⟩

/-- The connection of every callback that runs still exists. -/
def Exist (loopOf : C → T) (s : Lifetime T C) : Prop :=
  ∀ t, s.busy t → ∀ f ∈ (s.batch t).head?, 0 < owners loopOf s f.conn

/-- The last owner goes only when no callback of the connection waits, its own apart. -/
def Outlives (loopOf : C → T) (s : Lifetime T C) : Action T C → Prop
  | .release _ c => owners loopOf s c = 1 → waiting loopOf s c = []
  | .popFront t => ∀ f ∈ (s.batch t).head?, 0 < f.task.owned → owners loopOf s f.conn = 1 →
      waiting loopOf s f.conn = [f]
  | _ => True

/-- Callbacks wait in the loop of their connection. -/
def Home (loopOf : C → T) (s : Lifetime T C) : Prop := ∀ t f, f ∈ s.batch t ++ s.queue t → loopOf f.conn = t

structure Inv (loopOf : C → T) (s : Lifetime T C) : Prop where
  owned : ∀ c, waiting loopOf s c ≠ [] → 0 < owners loopOf s c
  home : Home loopOf s

variable {s s' : Lifetime T C} {loopOf : C → T} {t : T} {c : C} {f : Callback C}

section
omit [DecidableEq T]

theorem Inv.exist (inv : Inv loopOf s) : Exist loopOf s := by
  intro t _ f front
  have member : f ∈ s.batch t := List.mem_of_mem_head? front
  have home := inv.home t f (List.mem_append_left _ member)
  refine inv.owned f.conn (List.ne_nil_of_mem (a := f) ?_)
  simp [waiting,home,member]

theorem init_inv : Inv loopOf (init : Lifetime T C) := by
  constructor <;> simp [init,waiting,Home]

theorem Inv.more (inv : Inv loopOf s) (queue : s'.queue = s.queue) (batch : s'.batch = s.batch)
    (more : ∀ c, s.held c ≤ s'.held c) : Inv loopOf s' := by
  have same : waiting loopOf s' = waiting loopOf s := by funext c; simp [waiting,queue,batch]
  refine ⟨fun c some_left => ?_,fun t f member => inv.home t f (by rwa [queue,batch] at member)⟩
  rw [same] at some_left
  rw [owners,same]
  exact Nat.lt_of_lt_of_le (inv.owned c some_left) (Nat.add_le_add_right (more c) _)

theorem held_acquired {ref : T × C} (refs : s'.refs = ref :: s.refs) (registered : s'.registered = s.registered)
    (c : C) : s.held c ≤ s'.held c := by
  rw [held,held,refs,registered]
  exact Nat.add_le_add_right (List.sublist_cons_self _ _).countP_le _

theorem uvClose_inv (inv : Inv loopOf s) (c : C) : Inv loopOf (s.uvClose c) := by
  unfold uvClose
  split
  · exact inv.more rfl rfl fun d => Nat.le_refl _
  · exact inv

end

theorem waiting_enqueue (f : Callback C) (c : C) : waiting loopOf (s.enqueue (loopOf f.conn) f) c =
    waiting loopOf s c ++ if f.conn = c then [f] else [] := by
  by_cases same : f.conn = c
  · subst same; simp [waiting,enqueue,List.append_assoc]
  · by_cases shared : loopOf c = loopOf f.conn <;> simp [waiting,enqueue,shared,same]

theorem owners_enqueue (f : Callback C) (c : C) :
    owners loopOf s c ≤ owners loopOf (s.enqueue (loopOf f.conn) f) c := by
  have same : (s.enqueue (loopOf f.conn) f).held c = s.held c := rfl
  rw [owners,owners,waiting_enqueue,same,List.map_append,List.sum_append]
  omega

omit [DecidableEq T] in
theorem owners_of_ref (ref : (t,c) ∈ s.refs) : 0 < owners loopOf s c := by
  have := List.countP_pos_iff (p := fun ref : T × C => decide (ref.2 = c)).mpr ⟨_,ref,by simp⟩
  unfold owners held; omega

/-- A caller of the connection owns it, so its callback may be queued. -/
theorem enqueue_inv (inv : Inv loopOf s) (ref : (t,f.conn) ∈ s.refs) :
    Inv loopOf (s.enqueue (loopOf f.conn) f) := by
  refine ⟨fun d some_left => Nat.lt_of_lt_of_le ?_ (owners_enqueue f d),fun u g member => ?_⟩
  · rw [waiting_enqueue] at some_left
    by_cases same : f.conn = d
    · subst same; exact owners_of_ref ref
    · simp only [same,if_false,List.append_nil] at some_left
      exact inv.owned d some_left
  · by_cases here : u = loopOf f.conn
    · subst here
      simp only [enqueue,Function.update_self,← List.append_assoc] at member
      rcases List.mem_append.mp member with old | new
      · exact inv.home _ g old
      · rw [List.mem_singleton.mp new]
    · exact inv.home u g (by simpa [enqueue,here] using member)

theorem owners_release (loopOf : C → T) (ref : (t,c) ∈ s.refs) (d : C) :
    owners loopOf s d = owners loopOf {s with refs := s.refs.erase (t,c)} d + if c = d then 1 else 0 := by
  have perm := List.perm_cons_erase ref
  have same : waiting loopOf {s with refs := s.refs.erase (t,c)} d = waiting loopOf s d := rfl
  rw [owners,owners,same,held,held,perm.countP_eq]
  by_cases here : c = d
  · simp [here]; omega
  · simp [here]

theorem release_inv (inv : Inv loopOf s) (outlives : Outlives loopOf s (.release t c)) (h : s.release t c = some s') :
    Inv loopOf s' := by
  simp only [release] at h
  split at h
  · rename_i ref
    cases h
    refine ⟨fun d some_left => ?_,inv.home⟩
    have before := inv.owned d some_left
    have count := owners_release loopOf ref d
    by_cases same : c = d
    · subst same
      have more : owners loopOf s c ≠ 1 := fun one => some_left (outlives one)
      rw [if_pos rfl] at count
      omega
    · rw [if_neg same] at count
      omega
  · cases h

theorem waiting_pop {rest : List (Callback C)} (busy : T → Bool) (batch : s.batch t = f :: rest)
    (home : loopOf f.conn = t) (c : C) : waiting loopOf s c =
      (if f.conn = c then [f] else []) ++
        waiting loopOf {s with batch := Function.update s.batch t rest, busy := busy} c := by
  subst home
  by_cases same : f.conn = c
  · subst same; simp [waiting,batch]
  · by_cases shared : loopOf c = loopOf f.conn <;> simp [waiting,batch,shared,same]

omit [DecidableEq C] in
theorem Home.pop (home : Home loopOf s) {rest : List (Callback C)} (busy : T → Bool) (batch : s.batch t = f :: rest) :
    Home loopOf {s with batch := Function.update s.batch t rest, busy := busy} := by
  intro u g member
  apply home u g
  by_cases here : u = t
  · subst here
    simp only [Function.update_self] at member
    rw [batch]
    exact List.mem_cons_of_mem _ member
  · simpa [here] using member

theorem waiting_swapQue (loopOf : C → T) (empty : s.batch t = []) : waiting loopOf (s.swapQue t) = waiting loopOf s := by
  funext c
  by_cases here : loopOf c = t
  · subst here; simp [waiting,swapQue,empty]
  · simp [waiting,swapQue,here]

omit [DecidableEq C] in
theorem Home.swapQue (home : Home loopOf s) (t : T) : Home loopOf (s.swapQue t) := by
  intro u g member
  apply home u g
  by_cases here : u = t
  · subst here; simpa [Lifetime.swapQue] using Or.inr member
  · simpa [Lifetime.swapQue,here] using member

theorem pop_inv (inv : Inv loopOf s) {rest : List (Callback C)} {busy : T → Bool} (batch : s.batch t = f :: rest)
    (outlives : 0 < f.task.owned → owners loopOf s f.conn = 1 → waiting loopOf s f.conn = [f]) :
    Inv loopOf {s with batch := Function.update s.batch t rest, busy := busy} := by
  have home : loopOf f.conn = t := inv.home t f (by simp [batch])
  have split := fun d => waiting_pop busy batch home d
  refine ⟨fun d some_left => ?_,inv.home.pop busy batch⟩
  · have before := split d
    have owned_before := inv.owned d (by rw [before]; simp [some_left])
    have same_held : ({s with batch := Function.update s.batch t rest, busy := busy} : Lifetime T C).held d = s.held d := rfl
    rw [owners,before,List.map_append,List.sum_append] at owned_before
    rw [owners,same_held]
    by_cases same : f.conn = d
    · subst same
      by_cases owned : 0 < f.task.owned
      · have more : owners loopOf s f.conn ≠ 1 := fun one => by
          have only := outlives owned one
          rw [before,if_pos rfl,List.singleton_append,List.cons.injEq] at only
          exact some_left only.2
        rw [owners,before,List.map_append,List.sum_append] at more
        have unit : f.task.owned ≤ 1 := by cases f.task <;> decide
        rw [if_pos rfl,List.map_singleton,List.sum_singleton] at owned_before more
        omega
      · rw [if_pos rfl,List.map_singleton,List.sum_singleton] at owned_before
        omega
    · rw [if_neg same,List.map_nil,List.sum_nil] at owned_before
      omega

section
omit [DecidableEq T]

@[simp] theorem uvClose_waiting (s : Lifetime T C) (c : C) : waiting loopOf (s.uvClose c) = waiting loopOf s := by
  unfold uvClose; split <;> rfl

@[simp] theorem uvClose_owners (s : Lifetime T C) (c : C) : owners loopOf (s.uvClose c) = owners loopOf s := by
  unfold uvClose; split <;> rfl

@[simp] theorem uvClose_batch (s : Lifetime T C) (c : C) : (s.uvClose c).batch = s.batch := by
  unfold uvClose; split <;> rfl

end

theorem popFront_inv (inv : Inv loopOf s) (outlives : Outlives loopOf s (.popFront t))
    (h : s.popFront t = some s') : Inv loopOf s' := by
  simp only [popFront] at h
  split at h
  · rename_i f rest batch busy
    have guard := outlives f (by simp [batch])
    cases h
    split
    · exact pop_inv (uvClose_inv inv f.conn) (by simpa using batch) (by simpa using guard)
    · exact pop_inv inv batch guard
  · cases h

omit [DecidableEq T] in
theorem onClose_inv (inv : Inv loopOf s) (h : onClose loopOf s c = some s') : Inv loopOf s' := by
  simp only [onClose] at h
  split at h
  · cases h
    refine inv.more rfl rfl fun d => ?_
    by_cases here : d = c
    · subst here
      have one : (s.registered d).toNat ≤ 1 := Bool.toNat_le _
      simp only [held,List.countP_cons_of_pos,decide_true,Function.update_self,Bool.toNat_false]
      omega
    · simp [held,here,Ne.symm here]
  · cases h

theorem swap_inv (inv : Inv loopOf s) (h : s.swap t = some s') : Inv loopOf s' := by
  simp only [swap] at h
  split at h
  · rename_i empty
    cases h
    refine ⟨fun d some_left => ?_,inv.home.swapQue t⟩
    have same := congrFun (waiting_swapQue loopOf empty) d
    have same_held : (s.swapQue t).held d = s.held d := rfl
    rw [same] at some_left
    rw [owners,same,same_held]
    exact inv.owned d some_left
  · cases h

theorem step_inv {a : Action T C} (inv : Inv loopOf s) (outlives : Outlives loopOf s a)
    (h : step loopOf s a = some s') : Inv loopOf s' := by
  cases a with
  | onNewConnection c =>
    simp only [step,onNewConnection] at h
    split at h
    · cases h
    · cases h
      refine inv.more rfl rfl fun d => ?_
      by_cases here : d = c
      · subst here
        have one : (s.registered d).toNat ≤ 1 := Bool.toNat_le _
        simpa [held] using one
      · simp [held,here]
  | makeShared t c =>
    simp only [step,makeShared] at h
    split at h
    · cases h
    · cases h
      exact inv.more rfl rfl (held_acquired rfl rfl)
  | copy t c =>
    simp only [step,copy] at h
    split at h
    · cases h
      exact inv.more rfl rfl (held_acquired rfl rfl)
    · cases h
  | release t c => exact release_inv inv outlives h
  | loopStatus t isRunning => cases h; exact inv.more rfl rfl fun d => Nat.le_refl _
  | sendMsg t c =>
    simp only [step,sendMsg] at h
    split at h
    · rename_i ref
      split at h
      · cases h; exact inv
      · cases h; exact enqueue_inv (f := ⟨c,.realSend⟩) inv ref
    · cases h
  | closeSafe t c =>
    simp only [step,closeSafe] at h
    split at h
    · rename_i ref
      split at h
      · cases h; exact uvClose_inv inv c
      · cases h; exact enqueue_inv (f := ⟨c,.close⟩) inv ref
    · cases h
  | addNode t c =>
    simp only [step,addNode] at h
    split at h
    · rename_i ref
      cases h; exact enqueue_inv (f := ⟨c,.connect⟩) inv ref
    · cases h
  | close c =>
    simp only [step,close] at h
    split at h
    · cases h; exact uvClose_inv inv c
    · cases h
  | onClose c => exact onClose_inv inv h
  | swap t => exact swap_inv inv h
  | callback t =>
    simp only [step,callback] at h
    split at h
    · cases h; exact inv.more rfl rfl fun d => Nat.le_refl _
    · cases h
  | popFront t => exact popFront_inv inv outlives h

/-- Whenever a callback of sendMsg or closeSafe runs, its connection exists, in every run
in which the last owner of a connection goes only when none of its callbacks waits. -/
theorem callbacks_exist (loopOf : C → T) (actions : List (Action T C)) (s : Lifetime T C)
    (run : Transition.run (step loopOf) init actions = some s)
    (outlives : Transition.Meets (step loopOf) (Outlives loopOf) init actions) : Exist loopOf s :=
  (Transition.run_invariant (fun _ _ _ => step_inv) init_inv outlives run).exist

/-! The condition is the weakest: once it is broken, the loop comes to run a callback whose
connection is gone. -/

omit [DecidableEq T] in
theorem waiting_congr (batch : s'.batch = s.batch) (queue : s'.queue = s.queue) :
    waiting loopOf s' = waiting loopOf s := by
  funext c; simp [waiting,batch,queue]

omit [DecidableEq T] in
theorem held_congr (refs : s'.refs = s.refs) (registered : s'.registered = s.registered) : s'.held = s.held := by
  funext c; simp [held,refs,registered]

theorem front_ends {rest : List (Callback C)} (batch : s.batch t = f :: rest) :
    ∃ later s', Transition.run (step loopOf) s later = some s' ∧ s'.batch = Function.update s.batch t rest ∧
      s'.queue = s.queue ∧ s'.refs = s.refs ∧ s'.registered = s.registered := by
  have popped : ∀ s₁ : Lifetime T C, s₁.batch t = f :: rest → s₁.busy t = true →
      ∃ s', step loopOf s₁ (.popFront t) = some s' ∧ s'.batch = Function.update s₁.batch t rest ∧
        s'.queue = s₁.queue ∧ s'.refs = s₁.refs ∧ s'.registered = s₁.registered := by
    intro s₁ batch busy
    refine ⟨_,by simp only [step,popFront,batch,busy]; rfl,?_⟩
    by_cases closes : f.task = .close
    · unfold uvClose; by_cases live : s₁.phase f.conn = .live <;> simp [closes,live]
    · simp [closes]
  cases busy : s.busy t with
  | true =>
    obtain ⟨s',taken,same⟩ := popped s batch busy
    exact ⟨[.popFront t],s',by rw [Transition.run_cons,taken]; rfl,same⟩
  | false =>
    obtain ⟨s',taken,same⟩ := popped {s with busy := Function.update s.busy t true} batch (by simp)
    have called : step loopOf s (.callback t) = some {s with busy := Function.update s.busy t true} := by
      simp [step,callback,batch,busy]
    exact ⟨[.callback t,.popFront t],s',by rw [Transition.run_cons,called,Option.bind_some,Transition.run_cons,taken]; rfl,same⟩

theorem front_unowned {rest : List (Callback C)} (batch : s.batch t = f :: rest) (gone : owners loopOf s f.conn = 0) :
    ∃ later s', Transition.run (step loopOf) s later = some s' ∧ ¬ Exist loopOf s' := by
  cases busy : s.busy t with
  | true =>
    refine ⟨[],s,rfl,fun exist => ?_⟩
    have := exist t busy f (by simp [batch])
    omega
  | false =>
    refine ⟨[.callback t],{s with busy := Function.update s.busy t true},?_,fun exist => ?_⟩
    · simp [Transition.run,step,callback,batch,busy]
    · have some_owner := exist t (by simp) f (by simp [batch])
      have same : owners loopOf {s with busy := Function.update s.busy t true} f.conn = owners loopOf s f.conn := rfl
      omega

/-- A waiting callback of a connection without owners is run in the end. -/
theorem ownerless_runs (home : Home loopOf s) (gone : owners loopOf s c = 0) (some_left : waiting loopOf s c ≠ []) :
    ∃ later s', Transition.run (step loopOf) s later = some s' ∧ ¬ Exist loopOf s' := by
  -- on the callbacks of the loop; an empty batch is swapped first
  generalize length : (s.batch (loopOf c) ++ s.queue (loopOf c)).length = n
  induction n using Nat.strong_induction_on generalizing s with
  | _ n ih =>
    have front : ∀ u : Lifetime T C, Home loopOf u → owners loopOf u c = 0 → waiting loopOf u c ≠ [] →
        (u.batch (loopOf c) ++ u.queue (loopOf c)).length = n → u.batch (loopOf c) ≠ [] →
        ∃ later s', Transition.run (step loopOf) u later = some s' ∧ ¬ Exist loopOf s' := by
      intro u home gone some_left length nonempty
      obtain ⟨f,rest,batch⟩ := List.exists_cons_of_ne_nil nonempty
      by_cases own : f.conn = c
      · subst own; exact front_unowned batch gone
      obtain ⟨first,v,ended,batch',queue',refs',registered'⟩ := front_ends (s := u) batch
      have pop := waiting_pop u.busy batch (home _ f (by simp [batch])) c
      rw [if_neg own,List.nil_append] at pop
      have same : waiting loopOf v c = waiting loopOf u c := by
        rw [pop]
        exact congrFun (waiting_congr (s := {u with batch := Function.update u.batch (loopOf c) rest}) batch' queue') c
      have shorter : (v.batch (loopOf c) ++ v.queue (loopOf c)).length < n := by
        rw [batch',queue',Function.update_self,← length,batch]; simp
      have home' : Home loopOf v := by
        have := home.pop u.busy batch
        intro t g member
        rw [batch',queue'] at member
        exact this t g member
      obtain ⟨later,s',run,dead⟩ := ih _ shorter home'
        (by rw [owners,same,held_congr refs' registered']; exact gone) (by rw [same]; exact some_left) rfl
      exact ⟨first ++ later,s',by rw [Transition.run_append,ended]; exact run,dead⟩
    by_cases nonempty : s.batch (loopOf c) ≠ []
    · exact front s home gone some_left length nonempty
    · have empty := not_not.mp nonempty
      have same := congrFun (waiting_swapQue loopOf empty) c
      have taken : step loopOf s (.swap (loopOf c)) = some (s.swapQue (loopOf c)) := if_pos empty
      have left : (s.swapQue (loopOf c)).batch (loopOf c) ≠ [] := by
        intro none_left
        apply some_left
        simp only [swapQue,Function.update_self] at none_left
        simp [waiting,empty,none_left]
      obtain ⟨later,s',run,dead⟩ := front (s.swapQue (loopOf c)) (home.swapQue _)
        (by rw [owners,same]; exact gone) (by rw [same]; exact some_left) (by rw [← length,empty]; simp [swapQue]) left
      exact ⟨.swap (loopOf c) :: later,s',by rw [Transition.run_cons,taken]; exact run,dead⟩

/-- After a step that breaks the condition the loop comes to run a callback whose
connection is gone. -/
theorem outlives_needed {a : Action T C} (inv : Inv loopOf s) (broken : ¬ Outlives loopOf s a)
    (h : step loopOf s a = some s') :
    ∃ later s'', Transition.run (step loopOf) s' later = some s'' ∧ ¬ Exist loopOf s'' := by
  cases a with
  | release t c =>
    simp only [step,release] at h
    split at h
    · rename_i ref
      cases h
      simp only [Outlives,Classical.not_imp] at broken
      refine ownerless_runs inv.home ?_ broken.2
      have := owners_release loopOf ref c
      rw [if_pos rfl] at this
      omega
    · cases h
  | popFront t =>
    simp only [step,popFront] at h
    split at h
    · rename_i f rest batch busy
      simp only [Outlives,batch,List.head?_cons,Option.mem_def,Option.some.injEq,forall_eq',Classical.not_imp] at broken
      obtain ⟨owned,one,others⟩ := broken
      cases h
      have stays : f.task ≠ .close := by
        intro closes; rw [closes] at owned; cases owned
      rw [if_neg stays]
      have split := waiting_pop (Function.update s.busy t false) batch (inv.home t f (by simp [batch])) f.conn
      rw [if_pos rfl] at split
      refine ownerless_runs (c := f.conn) (inv.home.pop _ batch) ?_ fun none_left => others ?_
      · rw [owners,split,List.map_append,List.sum_append,List.map_singleton,List.sum_singleton] at one
        change s.held f.conn + _ = 0
        omega
      · rw [split,none_left]; rfl
    · cases h
  | _ => exact absurd trivial broken

instance outlivesDecidable (loopOf : C → T) (s : Lifetime T C) : (a : Action T C) → Decidable (Outlives loopOf s a)
  | .release _ c => inferInstanceAs (Decidable (owners loopOf s c = 1 → waiting loopOf s c = []))
  | .popFront t => inferInstanceAs (Decidable (∀ f ∈ (s.batch t).head?, 0 < f.task.owned →
      owners loopOf s f.conn = 1 → waiting loopOf s f.conn = [f]))
  | .onNewConnection _ | .makeShared _ _ | .copy _ _ | .loopStatus _ _ | .sendMsg _ _ | .closeSafe _ _
  | .addNode _ _ | .close _ | .onClose _ | .swap _ | .callback _ => isTrue trivial

/-- Thread `true` sends while the loop closes the connection of its message. -/
def racing : List (Action Bool Unit) :=
  [.onNewConnection (),.copy true (),.close (),.sendMsg true (),.onClose (),.release false ()]

theorem callbacks_exist_racing : ∃ s, Transition.run (step fun _ => false) init
    (racing ++ [.swap false,.callback false]) = some s ∧ Exist (fun _ => false) s := by
  obtain ⟨s,run⟩ := Option.isSome_iff_exists.mp (show (Transition.run (step fun _ => false) init
    (racing ++ [.swap false,.callback false])).isSome by decide)
  exact ⟨s,run,callbacks_exist _ _ s run (by decide)⟩

/-- The thread lets go of its pointer before the loop comes to the callback. -/
theorem callback_outlives : ∃ s, Transition.run (step fun _ => false) init
    (racing ++ [.release true (),.swap false,.callback false]) = some s ∧ ¬ Exist (fun _ => false) s := by
  refine ⟨_,rfl,fun exist => ?_⟩
  exact absurd (exist false rfl ⟨(),.realSend⟩ rfl) (by decide)

end Lifetime
end UvRpc
