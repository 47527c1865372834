import UvRpc.PongEncode
import UvRpc.Socket
import UvRpc.WriteConservation

/-! From sendMsg to the peer's onMessageParse: the write path with PongEncode as its
encoder, and a socket for each accept or connect of a connection. An accepted write gives
the socket the bytes that its uv_buf_t points to. They are sent in any pieces, afterWrite
gets a success only when they are all sent, and after a failure the socket sends no more. -/

namespace UvRpc

/-- `texts` has the pushes of all connections in order, each with the string of its task.
`sockets` has the sockets of each connection, the latest one last. -/
structure Wire (T C : Type*) where
  path : WritePath T C
  encoder : Heap
  texts : List (C × List UInt8)
  sockets : C → List Socket

namespace Wire

open WritePath

/-- `transmit` sends `n` more bytes on the k-th socket of `c`. -/
inductive Action (T C : Type*) where
  | path (a : WritePath.Action T C)
  | transmit (c : C) (k n : Nat)
  deriving DecidableEq, Repr

variable {T C : Type*} [DecidableEq T] [DecidableEq C]

def tasks (w : Wire T C) (c : C) : List (List UInt8) :=
  w.texts.filterMap fun (d,text) => if d = c then some text else none

def setSockets (w : Wire T C) (c : C) (sockets : List Socket) : C → List Socket :=
  Function.update w.sockets c sockets

/-- The latest socket accepts a write. -/
def send (sockets : List Socket) (n : Nat) (bytes : List UInt8) : List Socket :=
  sockets.dropLast ++ [(sockets.getLastD .fresh).accept n bytes]

def Method.opens : Method → Bool
  | .accept | .connect => true
  | _ => false

section
variable (taskIdStr : Nat → List UInt8) (loopOf : C → T)

def encodeTask (w : Wire T C) (t : T) : Option (Wire T C) :=
  match (w.path.threads t).doing with
  | .sending _ task (.encoding r) =>
    (PongEncode.encodeTask w.encoder (w.path.pool.reqs r).vecBuf (taskIdStr task)).bind fun (v,h) =>
      (w.path.encodeTask t v).map fun path => {w with path := path, encoder := h}
  | _ => none

def pushinQue (w : Wire T C) (t : T) : Option (Wire T C) :=
  match (w.path.threads t).doing with
  | .sending c task _ =>
    (w.path.pushinQue t).map fun path => {w with path := path, texts := w.texts ++ [(c,taskIdStr task)]}
  | _ => none

def uvWrite (w : Wire T C) (t : T) (accepted : Bool) : Option (Wire T C) :=
  match (w.path.threads t).doing with
  | .batch c (r :: _) bError =>
    (w.path.uvWrite t accepted).map fun path => {w with
      path := path
      sockets := if (w.path.conns c).alive ∧ accepted ∧ bError = false then
        w.setSockets c (send (w.sockets c) w.path.submissions (w.path.pool.reqs r).vecBuf.contents) else w.sockets}
  | _ => none

def afterWrite (w : Wire T C) (c : C) (i : Nat) (ok : Bool) : Option (Wire T C) :=
  (w.path.conns c).inFlight[i]?.bind fun x =>
    if ok then
      if (w.sockets c).any (·.done x.submission) then
        (w.path.afterWrite loopOf c i true).map fun path => {w with path := path}
      else none
    else
      (w.path.afterWrite loopOf c i false).map fun path => {w with
        path := path
        sockets := w.setSockets c ((w.sockets c).map (·.fail x.submission))}

def call (w : Wire T C) (c : C) (m : Method) : Option (Wire T C) :=
  (w.path.call c m).map fun path => {w with
    path := path
    sockets := if Method.opens m then w.setSockets c (w.sockets c ++ [.fresh]) else w.sockets}

def transmit (w : Wire T C) (c : C) (k n : Nat) : Option (Wire T C) :=
  ((w.sockets c)[k]?.bind (·.transmit n)).map fun socket =>
    {w with sockets := w.setSockets c ((w.sockets c).set k socket)}

/-- The encoder finds its vector itself. -/
def step [Fintype T] (w : Wire T C) : Action T C → Option (Wire T C)
  | .path (.encodeTask t _) => w.encodeTask taskIdStr t
  | .path (.pushinQue t) => w.pushinQue taskIdStr t
  | .path (.uvWrite t accepted) => w.uvWrite t accepted
  | .path (.afterWrite c i ok) => w.afterWrite loopOf c i ok
  | .path (.call c m) => w.call c m
  | .path a => (w.path.step loopOf a).map fun path => {w with path := path}
  | .transmit c k n => w.transmit c k n
end

def init (vecs : Nat → Recycled) (bufs : C → CharVector) (encoder : Heap) : Wire T C :=
  ⟨.init (fun r => (vecs r).val) bufs,encoder,[],fun _ => []⟩

/-! What the steps of the write path other than encodeTask and pushinQue leave alone. -/

/-- Nothing is noted that was pushed, only uv_write submits, and only afterWrite finishes a write. -/
def Silent (a : WritePath.Action T C) (e : WritePath.Event C) (c : C) : Prop :=
  e.pushedItem c = none ∧ (e.submittedWrite c = none ∨ ∃ t, a = .uvWrite t true) ∧
    (e.writtenWrite c = none ∨ ∃ d i, a = .afterWrite d i true)

structure Keeps (a : WritePath.Action T C) (s s' : WritePath T C) : Prop where
  vecBuf : ∀ r, (s'.pool.reqs r).vecBuf = (s.pool.reqs r).vecBuf ∨ (s'.pool.reqs r).vecBuf = (s.pool.reqs r).vecBuf.clear
  ticket : s'.ticket = s.ticket
  pushes : s'.pushes = s.pushes
  doing : ∀ t c task r, (s'.threads t).doing = .sending c task (.encoded r) →
    (s.threads t).doing = .sending c task (.encoded r)
  noted : ∃ events, s'.history = s.history ++ events ∧ ∀ e ∈ events, ∀ c, Silent a e c

variable {s s' : WritePath T C} {a : WritePath.Action T C} {loopOf : C → T} {t : T} {c : C}

omit [DecidableEq T] in
theorem Keeps.of_pool (events : List (WritePath.Event C)) (same : s'.pool = s.pool) (ticket : s'.ticket = s.ticket)
    (pushes : s'.pushes = s.pushes)
    (doing : ∀ t c task r, (s'.threads t).doing = .sending c task (.encoded r) →
      (s.threads t).doing = .sending c task (.encoded r))
    (history : s'.history = s.history ++ events) (silent : ∀ e ∈ events, ∀ c, Silent a e c) :
    Keeps a s s' :=
  ⟨fun r => .inl (by rw [same]),ticket,pushes,doing,events,history,silent⟩

omit [DecidableEq T] in
theorem Keeps.of_silent (same : s'.pool = s.pool) (ticket : s'.ticket = s.ticket) (pushes : s'.pushes = s.pushes)
    (doing : ∀ t c task r, (s'.threads t).doing = .sending c task (.encoded r) →
      (s.threads t).doing = .sending c task (.encoded r)) (history : s'.history = s.history) : Keeps a s s' :=
  .of_pool [] same ticket pushes doing (by rw [history,List.append_nil]) (by simp)

omit [DecidableEq C] in
theorem doing_update {th : Thread C} (other : ∀ c task r, th.doing = .sending c task (.encoded r) →
      (s.threads t).doing = .sending c task (.encoded r)) (u : T) (c : C) (task r : Nat)
    (here : (Function.update s.threads t th u).doing = .sending c task (.encoded r)) :
    (s.threads u).doing = .sending c task (.encoded r) := by
  by_cases same : u = t
  · subst same
    exact other c task r (by simpa using here)
  · simpa [same] using here

theorem putWriteBuffer_vecBuf (p : BufferPool) (u r : Nat) : ((p.putWriteBuffer u).reqs r).vecBuf = (p.reqs r).vecBuf := by
  by_cases same : r = u
  · subst same
    simp [BufferPool.putWriteBuffer,BufferPool.modify]
  · rw [BufferPool.putWriteBuffer_reqs_other p same]

theorem putAll_vecBuf (p : BufferPool) (us : List Nat) (r : Nat) : ((p.putAll us).reqs r).vecBuf = (p.reqs r).vecBuf := by
  induction us generalizing p with
  | nil => rfl
  | cons u rest ih => exact (ih (p.putWriteBuffer u)).trans (putWriteBuffer_vecBuf p u r)

theorem step_keeps [Fintype T] (h : s.step loopOf a = some s')
    (not_encode : ∀ t v, a ≠ .encodeTask t v) (not_push : ∀ t, a ≠ .pushinQue t) : Keeps a s s' := by
  cases a with
  | encodeTask t v => exact absurd rfl (not_encode t v)
  | pushinQue t => exact absurd rfl (not_push t)
  | setConnection task d => cases h; exact .of_silent rfl rfl rfl (fun _ _ _ _ => id) rfl
  | loopStatus t isRunning => cases h; exact .of_silent rfl rfl rfl (fun _ _ _ _ => id) rfl
  | sendMsg t d task =>
    obtain ⟨_,_,rfl⟩ := sendMsg_some h
    exact .of_silent rfl rfl rfl (doing_update (by simp)) rfl
  | getWriteBuffer t =>
    obtain ⟨d,task,_,rfl⟩ := getWriteBuffer_some h
    refine ⟨fun r => ?_,rfl,rfl,doing_update (by simp),_,rfl,by simp [Silent,Event.pushedItem,Event.submittedWrite,Event.writtenWrite]⟩
    change ((s.pool.getWriteBuffer.2.modify _ _).reqs r).vecBuf = _ ∨ ((s.pool.getWriteBuffer.2.modify _ _).reqs r).vecBuf = _
    by_cases same : r = s.pool.getWriteBuffer.1
    · right
      rw [same,BufferPool.modify]
      simp [beginEncode]
    · left
      rw [BufferPool.modify_reqs_other _ _ same,BufferPool.getWriteBuffer_reqs]
  | launch t =>
    rcases launch_some h with ⟨d,task,_,⟨_,_,rfl⟩ | ⟨_,rfl⟩⟩
    · exact .of_silent rfl rfl rfl (doing_update (by simp)) rfl
    · exact .of_silent rfl rfl rfl (doing_update (by simp)) rfl
  | realSend d =>
    obtain ⟨_,_,⟨_,rfl⟩ | ⟨_,rfl⟩⟩ := realSend_some h
    · exact .of_silent rfl rfl rfl (fun _ _ _ _ => id) rfl
    · exact .of_silent rfl rfl rfl (doing_update (by simp)) rfl
  | uvWrite t accepted =>
    rcases uvWrite_some h with ⟨d,u,rest,bError,_,⟨_,rfl⟩ | ⟨_,⟨_,rfl⟩ | ⟨_,rfl,_,rfl⟩ | ⟨_,_,rfl⟩⟩⟩
    · exact .of_silent rfl rfl rfl (fun _ _ _ _ => id) rfl
    · exact .of_silent rfl rfl rfl (doing_update (by simp)) rfl
    · exact .of_pool _ rfl rfl rfl (doing_update (by simp)) rfl (by simp [Silent,Event.pushedItem,Event.writtenWrite])
    · exact .of_pool _ rfl rfl rfl (doing_update (by simp)) rfl (by simp [Silent,Event.pushedItem,Event.submittedWrite,Event.writtenWrite])
  | endBatch t =>
    obtain ⟨d,bError,_,rfl⟩ := endBatch_some h
    exact .of_silent rfl rfl rfl (doing_update (by simp)) rfl
  | afterWrite d i ok =>
    obtain ⟨_,w,_,rfl⟩ := afterWrite_some h
    refine .of_pool _ rfl rfl rfl (doing_update (by simp)) rfl ?_
    cases ok <;> simp [Silent,Event.pushedItem,Event.submittedWrite,Event.writtenWrite]
  | settle t =>
    rcases settle_some h with ⟨d,w,target,ok,_,_,⟨_,rfl⟩ | ⟨e,_,_,rfl⟩ | ⟨e,_,_,rfl⟩⟩
    · exact ⟨fun r => .inl (putWriteBuffer_vecBuf _ _ _),rfl,rfl,doing_update (by simp),_,rfl,
        by simp [Silent,Event.pushedItem,Event.submittedWrite,Event.writtenWrite]⟩
    · exact .of_silent rfl rfl rfl (doing_update (by simp)) rfl
    · exact .of_silent rfl rfl rfl (doing_update fun _ _ _ => id) rfl
  | putWriteBuffer t =>
    obtain ⟨d,w,target,_,_,rfl⟩ := putWriteBuffer_some h
    exact ⟨fun r => .inl (putWriteBuffer_vecBuf _ _ _),rfl,rfl,doing_update (by simp),_,rfl,
      by simp [Silent,Event.pushedItem,Event.submittedWrite,Event.writtenWrite]⟩
  | call d m =>
    obtain ⟨_,rfl⟩ := call_some h
    exact .of_silent rfl rfl rfl (fun _ _ _ _ => id) rfl
  | closeSafe t d =>
    rcases closeSafe_some h with ⟨_,rfl | rfl⟩
    all_goals exact .of_silent rfl rfl rfl (fun _ _ _ _ => id) rfl
  | runClose d =>
    obtain ⟨_,_,⟨_,rfl⟩ | ⟨_,rfl⟩⟩ := runClose_some h
    all_goals exact .of_silent rfl rfl rfl (fun _ _ _ _ => id) rfl
  | closeCb d =>
    obtain ⟨_,_,_,_,rfl⟩ := closeCb_some h
    exact .of_silent rfl rfl rfl (fun _ _ _ _ => id) rfl
  | destroy d =>
    obtain ⟨_,_,_,rfl⟩ := destroy_some h
    refine ⟨fun r => .inl (putAll_vecBuf _ _ _),rfl,rfl,fun _ _ _ _ => id,_,rfl,?_⟩
    simp [Silent,Event.pushedItem,Event.submittedWrite,Event.writtenWrite]

def queued : Place T C → Bool
  | .pool | .encoder _ _ => false
  | _ => true

omit [DecidableEq T] [DecidableEq C] in
theorem encoded_of_queued {p : Place T C} (after : queued p) : p.encoded := by
  cases p <;> simp_all [queued,Place.encoded]

variable {loc : Nat → Option (Place T C)} {r : Nat}

theorem queued_before (effect : Effect s s') {p : Place T C} (after : queued p) (member : r ∈ s'.held p) :
    (∃ q, queued q ∧ r ∈ s.held q) ∨ ∃ c n, .pushed c r n ∈ s'.history.drop s.history.length := by
  cases effect with
  | stay held made history => exact .inl ⟨p,after,by rw [← held]; exact member⟩
  | fresh t arrived others made history =>
    have apart : p ≠ .encoder t false := by rintro rfl; cases after
    exact .inl ⟨p,after,by rw [← others p apart]; exact member⟩
  | move src dst moved keep events arrow _ moves made history =>
    rw [history,List.drop_left]
    by_cases at_src : p = src
    · subst at_src
      exact .inl ⟨p,after,moves.before.mem_iff.mpr (List.mem_append_right _ (moves.after.mem_iff.mp member))⟩
    by_cases at_dst : p = dst
    · subst at_dst
      rcases List.mem_append.mp (moves.arrived.mem_iff.mp member) with old | new
      · exact .inl ⟨p,after,old⟩
      · have source := moves.before.mem_iff.mpr (List.mem_append_left keep new)
        cases arrow with
        | pushed t c u n =>
          obtain rfl := List.mem_singleton.mp new
          exact .inr ⟨c,n,List.mem_singleton.mpr rfl⟩
        | checkedOut => cases after
        | encoded => cases after
        | written => cases after
        | orphaned => cases after
        | destroyed => cases after
        | _ => exact .inl ⟨_,rfl,source⟩
    · exact .inl ⟨p,after,by rw [← moves.others p at_src at_dst]; exact member⟩

omit [DecidableEq T] [DecidableEq C] in
theorem returned_pooled (effect : Effect s s') {why : Returned}
    (returned : .returned r why ∈ s'.history.drop s.history.length) : r ∈ s'.held .pool := by
  cases effect with
  | stay held made history =>
    rw [history,List.drop_length] at returned
    cases returned
  | fresh t arrived others made history =>
    rw [history,List.drop_left] at returned
    exact absurd (List.mem_singleton.mp returned) (by simp)
  | move src dst moved keep events arrow _ moves made history =>
    rw [history,List.drop_left] at returned
    have arrived : r ∈ moved → r ∈ s'.held dst := fun here => moves.arrived.mem_iff.mpr (List.mem_append_right _ here)
    cases arrow with
    | written t u =>
      exact arrived (List.mem_singleton.mpr (WritePath.Event.returned.inj (List.mem_singleton.mp returned)).1)
    | orphaned t ok u =>
      exact arrived (List.mem_singleton.mpr (WritePath.Event.returned.inj (List.mem_singleton.mp returned)).1)
    | destroyed c rs =>
      refine arrived ?_
      obtain ⟨u,member,same⟩ := List.mem_map.mp returned
      injection same with same
      exact same ▸ member
    | _ => simp at returned

/-- Outside the pool an encoded request stays as it is. -/
theorem reqs_kept [Fintype T] (lives : Lives s loc) (h : s.step loopOf a = some s')
    {p q : Place T C} (before : q.encoded) (was : r ∈ s.held q) (out : p ≠ .pool) (is : r ∈ s'.held p) :
    s'.pool.reqs r = s.pool.reqs r := by
  refine (step_reqs lives ⟨q,before,was⟩ h).resolve_right ?_
  rintro ⟨why,returned⟩
  obtain ⟨loc',lives'⟩ := (step_effect h).lives lives
  exact out (lives'.placed.same_place is (returned_pooled (step_effect h) returned))

def textAt (texts : List (C × List UInt8)) (n : Nat) : List UInt8 := texts[n]?.elim [] Prod.snd

/-- The requests hold the packets of their tasks. -/
structure Loaded (taskIdStr : Nat → List UInt8) (w : Wire T C) : Prop where
  lives : ∃ loc, Lives w.path loc
  encoder : w.encoder.Succeeds
  valid : ∀ r, (w.path.pool.reqs r).vecBuf.Valid
  count : w.texts.length = w.path.pushes
  encoded : ∀ t c task r, (w.path.threads t).doing = .sending c task (.encoded r) →
    (w.path.pool.reqs r).vecBuf.contents = PongEncode.packet (taskIdStr task)
  queued : ∀ p r, queued p → r ∈ w.path.held p → w.path.ticket r < w.texts.length ∧
    (w.path.pool.reqs r).vecBuf.contents = PongEncode.packet (textAt w.texts (w.path.ticket r))
  short : ∀ e ∈ w.texts, e.2.length ≤ 65534

def stream (texts : List (List UInt8)) : List UInt8 := (texts.map PongEncode.packet).flatten

/-- What was pushed is `texts`, what was submitted is in the sockets, and what was written has arrived. -/
structure Sent (w : Wire T C) : Prop where
  tickets : ∀ c, ∀ i ∈ w.path.history.filterMap (Event.pushedItem c), i.2 < w.texts.length
  tasks : ∀ c, w.tasks c = (w.path.history.filterMap (Event.pushedItem c)).map fun i => textAt w.texts i.2
  submitted : ∀ c, ∀ x ∈ w.path.history.filterMap (Event.submittedWrite c), x.ticket < w.texts.length
  writes : ∀ c, ((w.sockets c).map Socket.writes).flatten =
    (w.path.history.filterMap (Event.submittedWrite c)).map fun x =>
      (x.submission,PongEncode.packet (textAt w.texts x.ticket))
  written : ∀ c, ∀ x ∈ w.path.history.filterMap (Event.writtenWrite c), ∃ k ∈ w.sockets c, k.done x.submission

variable {w w' : Wire T C} {taskIdStr : Nat → List UInt8} {path : WritePath T C}

section
omit [DecidableEq T]

theorem Keeps.pushedItem (keeps : Keeps a s s') (c : C) :
    s'.history.filterMap (Event.pushedItem c) = s.history.filterMap (Event.pushedItem c) := by
  obtain ⟨events,history,silent⟩ := keeps.noted
  rw [history,List.filterMap_append,List.filterMap_eq_nil_iff.mpr fun e member => (silent e member c).1,List.append_nil]

theorem Keeps.submittedWrite (keeps : Keeps a s s') (other : ∀ t, a ≠ .uvWrite t true) (c : C) :
    s'.history.filterMap (Event.submittedWrite c) = s.history.filterMap (Event.submittedWrite c) := by
  obtain ⟨events,history,silent⟩ := keeps.noted
  have nothing : events.filterMap (Event.submittedWrite c) = [] :=
    List.filterMap_eq_nil_iff.mpr fun e member => (silent e member c).2.1.resolve_right fun ⟨t,same⟩ => other t same
  rw [history,List.filterMap_append,nothing,List.append_nil]

theorem Keeps.writtenWrite (keeps : Keeps a s s') (other : ∀ d i, a ≠ .afterWrite d i true) (c : C) :
    s'.history.filterMap (Event.writtenWrite c) = s.history.filterMap (Event.writtenWrite c) := by
  obtain ⟨events,history,silent⟩ := keeps.noted
  have nothing : events.filterMap (Event.writtenWrite c) = [] :=
    List.filterMap_eq_nil_iff.mpr fun e member => (silent e member c).2.2.resolve_right fun ⟨d,i,same⟩ => other d i same
  rw [history,List.filterMap_append,nothing,List.append_nil]

end

theorem Keeps.queued [Fintype T] (keeps : Keeps a s s') (lives : Lives s loc) (taken : s.step loopOf a = some s')
    {p : Place T C} (after : queued p) (member : r ∈ s'.held p) :
    ∃ q, Wire.queued q ∧ r ∈ s.held q ∧ s'.pool.reqs r = s.pool.reqs r := by
  rcases queued_before (step_effect taken) after member with ⟨q,before,was⟩ | ⟨c,n,pushed⟩
  · exact ⟨q,before,was,reqs_kept lives taken (encoded_of_queued before) was (by rintro rfl; cases after) member⟩
  · obtain ⟨events,history,silent⟩ := keeps.noted
    rw [history,List.drop_left] at pushed
    exact absurd (silent _ pushed c).1 (by simp [Event.pushedItem])

theorem Loaded.keeps [Fintype T] (loaded : w.Loaded taskIdStr) (taken : w.path.step loopOf a = some path)
    (keeps : Keeps a w.path path) (sockets : C → List Socket) :
    ({w with path := path, sockets := sockets} : Wire T C).Loaded taskIdStr := by
  obtain ⟨loc,lives⟩ := loaded.lives
  refine ⟨(step_effect taken).lives lives,loaded.encoder,fun r => ?_,loaded.count.trans keeps.pushes.symm,?_,?_,
    loaded.short⟩
  · rcases keeps.vecBuf r with same | cleared
    · rw [same]; exact loaded.valid r
    · rw [cleared]; exact (loaded.valid r).clear
  · intro t c task r doing
    change (path.threads t).doing = _ at doing
    have before := keeps.doing t c task r doing
    have was : r ∈ w.path.held (.encoder t true) := by simp [held,before,Doing.encoder,Stage.req]
    have is : r ∈ path.held (.encoder t true) := by simp [held,doing,Doing.encoder,Stage.req]
    rw [reqs_kept lives taken rfl was (by simp) is]
    exact loaded.encoded t c task r before
  · intro p r after member
    obtain ⟨q,before,was,same⟩ := keeps.queued lives taken after member
    rw [same,keeps.ticket]
    exact loaded.queued q r before was

section
omit [DecidableEq T]

/-- A step other than an accepted uv_write. What is written in it has arrived. -/
theorem Sent.carry (sent : w.Sent) (keeps : Keeps a w.path path) (other : ∀ t, a ≠ .uvWrite t true)
    (arrived : ∀ c, ∀ x ∈ path.history.filterMap (Event.writtenWrite c),
      x ∈ w.path.history.filterMap (Event.writtenWrite c) ∨ ∃ k ∈ w.sockets c, k.done x.submission) :
    ({w with path := path} : Wire T C).Sent := by
  refine ⟨fun c => ?_,fun c => ?_,fun c => ?_,fun c => ?_,fun c x member => ?_⟩
  · rw [keeps.pushedItem c]; exact sent.tickets c
  · rw [keeps.pushedItem c]; exact sent.tasks c
  · rw [keeps.submittedWrite other c]; exact sent.submitted c
  · rw [keeps.submittedWrite other c]; exact sent.writes c
  · rcases arrived c x member with old | now
    · exact sent.written c x old
    · exact now

theorem Sent.keeps (sent : w.Sent) (keeps : Keeps a w.path path) (not_write : ∀ t, a ≠ .uvWrite t true)
    (not_after : ∀ d i, a ≠ .afterWrite d i true) : ({w with path := path} : Wire T C).Sent :=
  sent.carry keeps not_write fun c x member => .inl (by rwa [← keeps.writtenWrite not_after c])

theorem Sent.setSockets (sent : w.Sent) (c : C) {sockets : List Socket}
    (writes : (sockets.map Socket.writes).flatten = ((w.sockets c).map Socket.writes).flatten)
    (grows : ∀ k ∈ w.sockets c, ∃ k' ∈ sockets, k.Grows k') :
    ({w with sockets := w.setSockets c sockets} : Wire T C).Sent := by
  refine {sent with writes := fun d => ?_, written := fun d x member => ?_}
  · by_cases here : d = c
    · subst here
      simpa [Wire.setSockets,writes] using sent.writes d
    · simpa [Wire.setSockets,here] using sent.writes d
  · obtain ⟨k,there,done⟩ := sent.written d x member
    by_cases here : d = c
    · subst here
      obtain ⟨k',there',grown⟩ := grows k there
      exact ⟨k',by simpa [Wire.setSockets] using there',grown.done done⟩
    · exact ⟨k,by simpa [Wire.setSockets,here] using there,done⟩

theorem Sent.open (sent : w.Sent) (c : C) :
    ({w with sockets := w.setSockets c (w.sockets c ++ [.fresh])} : Wire T C).Sent :=
  sent.setSockets c (by simp [Socket.fresh]) fun k member => ⟨k,List.mem_append_left _ member,.refl k⟩

theorem Sent.fail (sent : w.Sent) (c : C) (n : Nat) :
    ({w with sockets := w.setSockets c ((w.sockets c).map (·.fail n))} : Wire T C).Sent := by
  refine sent.setSockets c ?_ fun k member => ⟨k.fail n,List.mem_map_of_mem member,k.fail_grows n⟩
  rw [List.map_map]
  rfl

theorem Sent.transmit (sent : w.Sent) {c : C} {k n : Nat} (taken : w.transmit c k n = some w') :
    w'.Sent ∧ w'.path = w.path ∧ w'.encoder = w.encoder ∧ w'.texts = w.texts := by
  simp only [Wire.transmit] at taken
  obtain ⟨socket',found,rfl⟩ := Option.map_eq_some_iff.mp taken
  obtain ⟨socket,there,moved⟩ := Option.bind_eq_some_iff.mp found
  obtain ⟨same,grows⟩ := Socket.transmit_some moved
  obtain ⟨inside,rfl⟩ := List.getElem?_eq_some_iff.mp there
  refine ⟨sent.setSockets c ?_ fun old member => ?_,rfl,rfl,rfl⟩
  · rw [List.map_set,same,← List.getElem_map Socket.writes (h := by simpa using inside),List.set_getElem_self]
  · obtain ⟨j,within,rfl⟩ := List.mem_iff_getElem.mp member
    by_cases here : j = k
    · subst here
      exact ⟨socket',List.mem_set within socket',grows⟩
    · exact ⟨(w.sockets c)[j],List.mem_iff_getElem.mpr ⟨j,by simpa using within,by simp [Ne.symm here]⟩,.refl _⟩

end

theorem send_writes (sockets : List Socket) (n : Nat) (bytes : List UInt8) :
    ((send sockets n bytes).map Socket.writes).flatten = (sockets.map Socket.writes).flatten ++ [(n,bytes)] := by
  rcases List.eq_nil_or_concat sockets with rfl | ⟨front,last,rfl⟩
  · simp [send,Socket.accept,Socket.fresh]
  · simp [send,Socket.accept]

theorem send_grows {sockets : List Socket} {k : Socket} (member : k ∈ sockets) (n : Nat) (bytes : List UInt8) :
    ∃ k' ∈ send sockets n bytes, k.Grows k' := by
  rcases List.eq_nil_or_concat sockets with rfl | ⟨front,last,rfl⟩
  · cases member
  · simp only [List.concat_eq_append,List.mem_append,List.mem_singleton] at member
    rcases member with before | rfl
    · exact ⟨k,by simp [send,before],.refl k⟩
    · exact ⟨k.accept n bytes,by simp [send],k.accept_grows n bytes⟩

/-- encodeTask makes the packet of the task it is called with. -/
theorem Loaded.encodeTask [Fintype T] (loaded : w.Loaded taskIdStr) (short : ∀ task, (taskIdStr task).length ≤ 65534)
    (taken : w.encodeTask taskIdStr t = some w') :
    w'.Loaded taskIdStr ∧ w'.texts = w.texts ∧ w'.sockets = w.sockets ∧ w'.path.history = w.path.history ∧
      ∃ v, w.path.encodeTask t v = some w'.path := by
  simp only [Wire.encodeTask] at taken
  split at taken
  case h_2 => cases taken
  rename_i c task r doing
  obtain ⟨v,h,encoded,valid,heap,contents⟩ := PongEncode.encodeTask_spec (h := w.encoder)
    (loaded.valid r) loaded.encoder (Nat.lt_of_le_of_lt (short task) (by decide))
  rw [encoded,Option.bind_some,Option.map_eq_some_iff] at taken
  obtain ⟨path,stepped,rfl⟩ := taken
  refine ⟨?_,rfl,rfl,?_,v,stepped⟩
  all_goals
    obtain ⟨c',task',r',doing',rfl⟩ := encodeTask_some stepped
    obtain ⟨rfl,rfl,⟨⟨rfl⟩⟩⟩ : c = c' ∧ task = task' ∧ r = r' := by rw [doing] at doing'; simpa using doing'
  case refine_2 => rfl
  obtain ⟨loc,lives⟩ := loaded.lives
  have taken : w.path.step (fun _ => t) (.encodeTask t v) = some _ := stepped
  have effect := step_effect taken
  have here : r ∈ w.path.held (.encoder t false) := by simp [held,doing,Doing.encoder,Stage.req]
  have others {q : Nat} (other : q ≠ r) : (w.path.pool.modify r (endEncode v)).reqs q = w.path.pool.reqs q :=
    BufferPool.modify_reqs_other _ _ other
  have this_one : ((w.path.pool.modify r (endEncode v)).reqs r).vecBuf = v := by simp [BufferPool.modify,endEncode]
  refine ⟨effect.lives lives,heap,fun q => ?_,loaded.count,fun u c' task' q doing' => ?_,fun p q after member => ?_,
    loaded.short⟩
  · change ((w.path.pool.modify r (endEncode v)).reqs q).vecBuf.Valid
    by_cases same : q = r
    · rw [same,this_one]; exact valid
    · rw [others same]; exact loaded.valid q
  · change ((w.path.pool.modify r (endEncode v)).reqs q).vecBuf.contents = _
    by_cases same : u = t
    · subst same
      simp only [WritePath.setThread_threads,Function.update_self,Doing.sending.injEq,Stage.encoded.injEq] at doing'
      obtain ⟨_,rfl,rfl⟩ := doing'
      rw [this_one,contents]
    · have before : (w.path.threads u).doing = .sending c' task' (.encoded q) := by simpa [same] using doing'
      have other : q ≠ r := by
        rintro rfl
        exact absurd (lives.placed.same_place here (show q ∈ w.path.held (.encoder u true) by
          simp [held,before,Doing.encoder,Stage.req])) (by simp)
      rw [others other]
      exact loaded.encoded u c' task' q before
  · rcases queued_before effect after member with ⟨p',before,was⟩ | ⟨d,n,pushed⟩
    · have other : q ≠ r := by
        rintro rfl
        have := lives.placed.same_place here was
        subst this
        cases before
      change _ ∧ ((w.path.pool.modify r (endEncode v)).reqs q).vecBuf.contents = _
      rw [others other]
      exact loaded.queued p' q before was
    · exact absurd pushed (by simp)

omit [DecidableEq C] in
theorem textAt_old (texts : List (C × List UInt8)) (new : C × List UInt8) {n : Nat} (old : n < texts.length) :
    textAt (texts ++ [new]) n = textAt texts n := by
  rw [textAt,textAt,List.getElem?_append_left old]

omit [DecidableEq C] in
theorem textAt_new (texts : List (C × List UInt8)) (new : C × List UInt8) :
    textAt (texts ++ [new]) texts.length = new.2 := by
  simp [textAt]

theorem push_step [Fintype T] (taken : w.pushinQue taskIdStr t = some w') :
    ∃ c task r, (w.path.threads t).doing = .sending c task (.encoded r) ∧ w.path.pushinQue t = some w'.path ∧
      w' = {w with path := w'.path, texts := w.texts ++ [(c,taskIdStr task)]} ∧
      w'.path.pool = w.path.pool ∧ w'.path.ticket = Function.update w.path.ticket r w.path.pushes ∧
      w'.path.pushes = w.path.pushes + 1 ∧ w'.path.history = w.path.history ++ [.pushed c r w.path.pushes] ∧
      ∀ u c task q, (w'.path.threads u).doing = .sending c task (.encoded q) →
        (w.path.threads u).doing = .sending c task (.encoded q) := by
  simp only [Wire.pushinQue] at taken
  split at taken
  case h_2 => cases taken
  rename_i c task stage doing
  obtain ⟨path,stepped,rfl⟩ := Option.map_eq_some_iff.mp taken
  refine ⟨c,task,?_⟩
  obtain ⟨c',task',r,doing',rfl⟩ := pushinQue_some stepped
  obtain ⟨rfl,rfl,rfl⟩ : c = c' ∧ task = task' ∧ stage = .encoded r := by rw [doing] at doing'; simpa using doing'
  exact ⟨r,doing,stepped,rfl,rfl,rfl,rfl,rfl,doing_update (by simp)⟩

theorem Loaded.push [Fintype T] (loaded : w.Loaded taskIdStr) (short : ∀ task, (taskIdStr task).length ≤ 65534)
    (taken : w.pushinQue taskIdStr t = some w') :
    w'.Loaded taskIdStr := by
  obtain ⟨c,task,r,doing,stepped,shape,pool,ticket,pushes,history,still⟩ := push_step taken
  obtain ⟨loc,lives⟩ := loaded.lives
  have texts : w'.texts = w.texts ++ [(c,taskIdStr task)] := by rw [shape]
  have step : w.path.step (fun _ => t) (.pushinQue t) = some w'.path := stepped
  have effect := step_effect step
  have here : r ∈ w.path.held (.encoder t true) := by simp [held,doing,Doing.encoder,Stage.req]
  refine ⟨effect.lives lives,by rw [shape]; exact loaded.encoder,by rw [pool]; exact loaded.valid,?_,?_,?_,?_⟩
  · rw [texts,pushes,← loaded.count]
    simp
  · intro u c task q doing'
    rw [pool]
    exact loaded.encoded u c task q (still u c task q doing')
  · intro p q after member
    rw [pool,ticket,texts,List.length_append,List.length_singleton]
    rcases queued_before effect after member with ⟨p',before,was⟩ | ⟨d,n,pushed⟩
    · have other : q ≠ r := by
        rintro rfl
        have := lives.placed.same_place here was
        subst this
        cases before
      obtain ⟨known,contents⟩ := loaded.queued p' q before was
      rw [Function.update_of_ne other,textAt_old _ _ known]
      exact ⟨by omega,contents⟩
    · rw [history,List.drop_left,List.mem_singleton] at pushed
      obtain ⟨_,rfl,_⟩ := WritePath.Event.pushed.inj pushed
      rw [Function.update_self,← loaded.count,textAt_new]
      exact ⟨by omega,loaded.encoded t c task q doing⟩
  · rw [texts]
    exact List.forall_mem_append.mpr ⟨loaded.short,List.forall_mem_singleton.mpr (short task)⟩

theorem Sent.push [Fintype T] (sent : w.Sent) (loaded : w.Loaded taskIdStr)
    (taken : w.pushinQue taskIdStr t = some w') : w'.Sent := by
  obtain ⟨c,task,r,_,_,shape,_,_,_,history,_⟩ := push_step taken
  have texts : w'.texts = w.texts ++ [(c,taskIdStr task)] := by rw [shape]
  have sockets : w'.sockets = w.sockets := by rw [shape]
  have submitted (d : C) : w'.path.history.filterMap (Event.submittedWrite d) =
      w.path.history.filterMap (Event.submittedWrite d) := by
    rw [history,List.filterMap_append]
    simp [Event.submittedWrite]
  have written (d : C) : w'.path.history.filterMap (Event.writtenWrite d) =
      w.path.history.filterMap (Event.writtenWrite d) := by
    rw [history,List.filterMap_append]
    simp [Event.writtenWrite]
  have pushed (d : C) : w'.path.history.filterMap (Event.pushedItem d) =
      w.path.history.filterMap (Event.pushedItem d) ++ if c = d then [(r,w.texts.length)] else [] := by
    rw [history,List.filterMap_append,loaded.count]
    by_cases here : c = d <;> simp [Event.pushedItem,here]
  refine ⟨fun d i member => ?_,fun d => ?_,fun d x member => ?_,fun d => ?_,fun d x member => ?_⟩
  · rw [texts,List.length_append,List.length_singleton]
    rw [pushed,List.mem_append] at member
    rcases member with old | new
    · exact Nat.lt_succ_of_lt (sent.tickets d i old)
    · split at new
      · rw [List.mem_singleton.mp new]
        exact Nat.lt_succ_self _
      · cases new
  · have before := sent.tasks d
    have same : (w.path.history.filterMap (Event.pushedItem d)).map (fun i => textAt w'.texts i.2) =
        (w.path.history.filterMap (Event.pushedItem d)).map fun i => textAt w.texts i.2 :=
      List.map_congr_left fun i member => by rw [texts,textAt_old _ _ (sent.tickets d i member)]
    rw [pushed,List.map_append,same,← before,Wire.tasks,Wire.tasks,texts,List.filterMap_append]
    by_cases here : c = d <;> simp [here,textAt_new]
  · rw [submitted] at member
    rw [texts,List.length_append,List.length_singleton]
    exact Nat.lt_succ_of_lt (sent.submitted d x member)
  · rw [submitted,sockets,sent.writes d]
    exact List.map_congr_left fun x member => by rw [texts,textAt_old _ _ (sent.submitted d x member)]
  · rw [written] at member
    rw [sockets]
    exact sent.written d x member

/-- uv_write gives the bytes of its request to the latest socket or leaves the sockets alone. -/
theorem write_step {accepted : Bool} (taken : w.uvWrite t accepted = some w') :
    w.path.uvWrite t accepted = some w'.path ∧ w' = {w with path := w'.path, sockets := w'.sockets} ∧
      ((w'.sockets = w.sockets ∧ ∀ d, w'.path.history.filterMap (Event.submittedWrite d) =
          w.path.history.filterMap (Event.submittedWrite d)) ∨
        ∃ c x, x.req ∈ w.path.held (.batch t) ∧ x.ticket = w.path.ticket x.req ∧
          w'.sockets = w.setSockets c
            (send (w.sockets c) x.submission (w.path.pool.reqs x.req).vecBuf.contents) ∧
          w'.path.history = w.path.history ++ [.submitted c x]) := by
  simp only [uvWrite] at taken
  split at taken
  case h_2 => cases taken
  rename_i c r rest bError doing
  obtain ⟨path,stepped,rfl⟩ := Option.map_eq_some_iff.mp taken
  refine ⟨stepped,rfl,?_⟩
  obtain ⟨c',r',rest',bError',doing',cases⟩ := uvWrite_some stepped
  obtain ⟨rfl,⟨rfl,rfl⟩,rfl⟩ : c = c' ∧ (r = r' ∧ rest = rest') ∧ bError = bError' := by
    rw [doing] at doing'; simpa using doing'
  rcases cases with ⟨dead,rfl⟩ | ⟨alive,⟨rfl,rfl⟩ | ⟨rfl,rfl,_,rfl⟩ | ⟨rfl,rfl,rfl⟩⟩
  · exact .inl ⟨by simp [dead],fun d => rfl⟩
  · exact .inl ⟨by simp,fun d => rfl⟩
  · refine .inr ⟨c,⟨r,w.path.ticket r,w.path.submissions,(w.path.threads t).failing c⟩,?_,rfl,by simp [alive],rfl⟩
    simp [held,doing,Doing.tempQue]
  · refine .inl ⟨by simp,fun d => ?_⟩
    change (w.path.history ++ [WritePath.Event.refused c r]).filterMap _ = _
    simp [Event.submittedWrite]

theorem Loaded.write [Fintype T] (loaded : w.Loaded taskIdStr) {accepted : Bool}
    (taken : w.uvWrite t accepted = some w') : w'.Loaded taskIdStr := by
  obtain ⟨stepped,shape,_⟩ := write_step taken
  have step : w.path.step (fun _ => t) (.uvWrite t accepted) = some w'.path := stepped
  rw [shape]
  exact loaded.keeps step (step_keeps step (by simp) (by simp)) _

theorem Sent.write [Fintype T] (sent : w.Sent) (loaded : w.Loaded taskIdStr) {accepted : Bool}
    (taken : w.uvWrite t accepted = some w') : w'.Sent := by
  obtain ⟨stepped,shape,cases⟩ := write_step taken
  have step : w.path.step (fun _ => t) (.uvWrite t accepted) = some w'.path := stepped
  have keeps := step_keeps step (by simp) (by simp)
  have texts : w'.texts = w.texts := by rw [shape]
  have tickets (d : C) : ∀ i ∈ w'.path.history.filterMap (Event.pushedItem d), i.2 < w'.texts.length := by
    rw [keeps.pushedItem d,texts]; exact sent.tickets d
  have tasks (d : C) : w'.tasks d = (w'.path.history.filterMap (Event.pushedItem d)).map fun i => textAt w'.texts i.2 := by
    rw [keeps.pushedItem d,texts,Wire.tasks,texts]; exact sent.tasks d
  have written (d : C) := keeps.writtenWrite (by simp) d
  rcases cases with ⟨sockets,submitted⟩ | ⟨c,x,here,ticket,sockets,history⟩
  · refine ⟨tickets,tasks,fun d => ?_,fun d => ?_,fun d => ?_⟩
    · rw [submitted d,texts]; exact sent.submitted d
    · rw [submitted d,texts,sockets]; exact sent.writes d
    · rw [written d,sockets]; exact sent.written d
  · obtain ⟨known,contents⟩ := loaded.queued _ x.req rfl here
    have submitted (d : C) : w'.path.history.filterMap (Event.submittedWrite d) =
        w.path.history.filterMap (Event.submittedWrite d) ++ if c = d then [x] else [] := by
      rw [history,List.filterMap_append]
      by_cases same : c = d <;> simp [Event.submittedWrite,same]
    refine ⟨tickets,tasks,fun d y member => ?_,fun d => ?_,fun d y member => ?_⟩
    · rw [texts]
      rw [submitted,List.mem_append] at member
      rcases member with old | new
      · exact sent.submitted d y old
      · split at new
        · rw [List.mem_singleton.mp new,ticket]
          exact known
        · cases new
    · rw [submitted,texts,List.map_append,← sent.writes d,sockets,contents]
      by_cases this_one : c = d
      · subst this_one
        rw [Wire.setSockets,Function.update_self,send_writes,if_pos rfl,List.map_singleton,ticket]
      · rw [Wire.setSockets,Function.update_of_ne (Ne.symm this_one),if_neg this_one,List.map_nil,List.append_nil]
    · rw [written d] at member
      obtain ⟨k,there,done⟩ := sent.written d y member
      rw [sockets,Wire.setSockets]
      by_cases this_one : c = d
      · subst this_one
        obtain ⟨k',there',grown⟩ := send_grows there x.submission (w.path.pool.reqs x.req).vecBuf.contents
        exact ⟨k',by rwa [Function.update_self],grown.done done⟩
      · exact ⟨k,by rwa [Function.update_of_ne (Ne.symm this_one)],done⟩

theorem Sent.after [Fintype T] (sent : w.Sent) {i : Nat} {ok : Bool} (taken : w.afterWrite loopOf c i ok = some w') :
    w'.Sent ∧ w.path.afterWrite loopOf c i ok = some w'.path ∧ w' = {w with path := w'.path, sockets := w'.sockets} := by
  simp only [Wire.afterWrite] at taken
  obtain ⟨x,found,taken⟩ := Option.bind_eq_some_iff.mp taken
  have keeps {ok : Bool} {path : WritePath T C} (stepped : w.path.afterWrite loopOf c i ok = some path) :=
    step_keeps (a := .afterWrite c i ok) stepped (by simp) (by simp)
  cases ok with
  | true =>
    simp only [if_true,Option.ite_none_right_eq_some] at taken
    obtain ⟨finished,taken⟩ := taken
    obtain ⟨path,stepped,rfl⟩ := Option.map_eq_some_iff.mp taken
    refine ⟨sent.carry (keeps stepped) (by simp) fun d y member => ?_,stepped,rfl⟩
    obtain ⟨_,x',found',rfl⟩ := afterWrite_some stepped
    obtain rfl : x = x' := Option.some.inj (found.symm.trans found')
    change y ∈ (w.path.history ++ [WritePath.Event.completed c x true]).filterMap _ at member
    rw [List.filterMap_append,List.mem_append] at member
    refine member.imp_right fun here => ?_
    by_cases same : c = d
    · subst same
      obtain ⟨k,there,done⟩ := List.any_eq_true.mp finished
      obtain rfl : y = x := by simpa [Event.writtenWrite] using here
      exact ⟨k,there,done⟩
    · simp [Event.writtenWrite,same] at here
  | false =>
    simp only [Bool.false_eq_true,if_false] at taken
    obtain ⟨path,stepped,rfl⟩ := Option.map_eq_some_iff.mp taken
    exact ⟨(sent.keeps (keeps stepped) (by simp) (by simp)).fail c x.submission,stepped,rfl⟩

/-- A connection is destroyed as in the write path alone. -/
def Outlives (w : Wire T C) : Action T C → Prop
  | .path a => w.path.Outlives a
  | .transmit _ _ _ => True

instance outlivesDecidable [Fintype T] (w : Wire T C) (a : Action T C) : Decidable (w.Outlives a) :=
  match a with
  | .path a => inferInstanceAs (Decidable (w.path.Outlives a))
  | .transmit _ _ _ => isTrue trivial

/-- A step keeps both invariants and is a step of the write path, or leaves it alone. -/
theorem step_inv [Fintype T] {a : Action T C} (short : ∀ task, (taskIdStr task).length ≤ 65534)
    (loaded : w.Loaded taskIdStr) (sent : w.Sent) (taken : w.step taskIdStr loopOf a = some w') :
    w'.Loaded taskIdStr ∧ w'.Sent ∧
      (w'.path = w.path ∨ ∃ b, w.path.step loopOf b = some w'.path ∧ (w.Outlives a → w.path.Outlives b)) := by
  have plain {b : WritePath.Action T C} {path : WritePath T C} (stepped : w.path.step loopOf b = some path)
      (not_encode : ∀ t v, b ≠ .encodeTask t v) (not_push : ∀ t, b ≠ .pushinQue t)
      (not_write : ∀ t ok, b ≠ .uvWrite t ok) (not_after : ∀ c i ok, b ≠ .afterWrite c i ok) :
      ({w with path := path} : Wire T C).Loaded taskIdStr ∧ ({w with path := path} : Wire T C).Sent := by
    have keeps := step_keeps stepped not_encode not_push
    exact ⟨loaded.keeps stepped keeps _,sent.keeps keeps (fun t => not_write t true) fun d i => not_after d i true⟩
  cases a with
  | transmit c k n =>
    obtain ⟨sent',path,encoder,texts⟩ := sent.transmit taken
    refine ⟨?_,sent',.inl path⟩
    obtain ⟨lives,succeeds,valid,count,encoded,queued,shorts⟩ := loaded
    constructor <;> simp only [path,encoder,texts] <;> assumption
  | path a =>
    cases a with
    | encodeTask t v =>
      obtain ⟨loaded',texts,sockets,history,v',stepped⟩ := loaded.encodeTask short taken
      refine ⟨loaded',⟨?_,?_,?_,?_,?_⟩,.inr ⟨.encodeTask t v',stepped,id⟩⟩
      · rw [history,texts]; exact sent.tickets
      · simp only [Wire.tasks,history,texts]; exact sent.tasks
      · rw [history,texts]; exact sent.submitted
      · rw [history,texts,sockets]; exact sent.writes
      · rw [history,sockets]; exact sent.written
    | pushinQue t =>
      obtain ⟨_,_,_,_,stepped,_⟩ := push_step taken
      exact ⟨loaded.push short taken,sent.push loaded taken,.inr ⟨.pushinQue t,stepped,id⟩⟩
    | uvWrite t accepted =>
      exact ⟨loaded.write taken,sent.write loaded taken,.inr ⟨.uvWrite t accepted,(write_step taken).1,id⟩⟩
    | afterWrite c i ok =>
      obtain ⟨sent',stepped,shape⟩ := sent.after taken
      have step : w.path.step loopOf (.afterWrite c i ok) = some w'.path := stepped
      refine ⟨?_,sent',.inr ⟨.afterWrite c i ok,stepped,id⟩⟩
      rw [shape]
      exact loaded.keeps step (step_keeps step (by simp) (by simp)) _
    | call c m =>
      obtain ⟨path,stepped,rfl⟩ := Option.map_eq_some_iff.mp taken
      have step : w.path.step loopOf (.call c m) = some path := stepped
      obtain ⟨_,sent'⟩ := plain step (by simp) (by simp) (by simp) (by simp)
      refine ⟨loaded.keeps step (step_keeps step (by simp) (by simp)) _,?_,.inr ⟨.call c m,stepped,id⟩⟩
      split
      · exact sent'.open c
      · exact sent'
    | _ =>
      simp only [step] at taken
      obtain ⟨path,stepped,rfl⟩ := Option.map_eq_some_iff.mp taken
      obtain ⟨loaded',sent'⟩ := plain stepped (by simp) (by simp) (by simp) (by simp)
      exact ⟨loaded',sent',.inr ⟨_,stepped,id⟩⟩

theorem init_loaded (vecs : Nat → Recycled) (bufs : C → CharVector) {encoder : Heap} (succeeds : encoder.Succeeds) :
    (init vecs bufs encoder : Wire T C).Loaded taskIdStr := by
  refine ⟨⟨_,init_lives _ bufs⟩,succeeds,fun r => (vecs r).property,rfl,?_,?_,by simp [init]⟩
  · intro t c task r doing
    cases doing
  · intro p r after member
    cases p <;> simp [queued,init,WritePath.init,held,Thread.none,Doing.tempQue,Thread.completing,TcpConnection.make]
      at after member

omit [DecidableEq T] in
theorem init_sent (vecs : Nat → Recycled) (bufs : C → CharVector) (encoder : Heap) :
    (init vecs bufs encoder : Wire T C).Sent :=
  ⟨by simp [init,WritePath.init],by simp [init,WritePath.init,tasks],by simp [init,WritePath.init],
    by simp [init,WritePath.init],by simp [init,WritePath.init]⟩

def Bound (w : Wire T C) (_ : Action T C) : Prop := w.path.Bound

instance boundDecidable [Fintype C] (w : Wire T C) (a : Action T C) : Decidable (w.Bound a) :=
  inferInstanceAs (Decidable w.path.Bound)

theorem run_inv [Fintype T] (short : ∀ task, (taskIdStr task).length ≤ 65534) {actions : List (Action T C)}
    (loaded : w.Loaded taskIdStr) (sent : w.Sent) (bound : Transition.Meets (step taskIdStr loopOf) Bound w actions)
    (outlives : Transition.Meets (step taskIdStr loopOf) Outlives w actions)
    (run : Transition.run (step taskIdStr loopOf) w actions = some w') :
    w'.Loaded taskIdStr ∧ w'.Sent ∧ ∃ moves, Transition.run (WritePath.step loopOf) w.path moves = some w'.path ∧
      Transition.Meets (WritePath.step loopOf) (fun s _ => s.Bound) w.path moves ∧
      Transition.Meets (WritePath.step loopOf) WritePath.Outlives w.path moves := by
  induction actions generalizing w with
  | nil =>
    cases run
    exact ⟨loaded,sent,[],rfl,trivial,trivial⟩
  | cons a rest ih =>
    obtain ⟨m,taken,later⟩ := Transition.run_cons_some run
    obtain ⟨here,bound⟩ := bound
    obtain ⟨kept,outlives⟩ := outlives
    rw [taken] at bound outlives
    obtain ⟨loaded',sent',moved⟩ := step_inv short loaded sent taken
    obtain ⟨loaded'',sent'',moves,ran,met,owned⟩ := ih loaded' sent' bound outlives later
    rcases moved with still | ⟨b,stepped,guard⟩
    · rw [still] at ran met owned
      exact ⟨loaded'',sent'',moves,ran,met,owned⟩
    · refine ⟨loaded'',sent'',b :: moves,by rw [Transition.run_cons,stepped]; exact ran,⟨here,?_⟩,guard kept,?_⟩
      · rw [stepped]
        exact met
      · rw [stepped]
        exact owned

end Wire
end UvRpc
