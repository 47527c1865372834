import UvRpc.WritePath
import UvRpc.Placement

/-! The life of a write request. It is always in one place, and every step of the write
path either leaves all requests where they are or moves some along one arrow of the life
cycle: pool, encoder, sendQue, realSend's batch, in flight, completing, and back. -/

namespace UvRpc.WritePath

/-- `encoder t filled` is thread `t` between getWriteBuffer and pushinQue. -/
inductive Place (T C : Type*) where
  | pool | encoder (t : T) (filled : Bool) | sendQue (c : C) | batch (t : T) | inFlight (c : C)
  | completing (t : T) (ok : Bool)
  deriving DecidableEq, Repr

variable {T C : Type*}

def Stage.req : Bool → Stage → List Nat
  | false, .encoding r => [r]
  | true, .encoded r => [r]
  | _, _ => []

def Doing.encoder (filled : Bool) : Doing C → List Nat
  | .sending _ _ stage => stage.req filled
  | _ => []

def Doing.tempQue : Doing C → List Nat
  | .batch _ tempQue _ => tempQue
  | _ => []

def Thread.completing (th : Thread C) (ok : Bool) : List Nat :=
  th.completion.elim [] fun k => if k.stage.ok = ok then [k.write.req] else []

def held (s : WritePath T C) : Place T C → List Nat
  | .pool => s.pool.reqQueue
  | .encoder t filled => (s.threads t).doing.encoder filled
  | .sendQue c => (s.conns c).tcp.sendQue
  | .batch t => (s.threads t).doing.tempQue
  | .inFlight c => (s.conns c).inFlight.map Write.req
  | .completing t ok => (s.threads t).completing ok

/-- The arrows of the life cycle: from where, to where, which requests, and what is
noted about it. -/
inductive Arrow : Place T C → Place T C → List Nat → List (Event C) → Prop
  | checkedOut (t : T) (r : Nat) : Arrow .pool (.encoder t false) [r] [.checkedOut r]
  | encoded (t : T) (r : Nat) : Arrow (.encoder t false) (.encoder t true) [r] []
  | pushed (t : T) (c : C) (r n : Nat) : Arrow (.encoder t true) (.sendQue c) [r] [.pushed c r n]
  | swapped (c : C) (t : T) (rs : List Nat) : Arrow (.sendQue c) (.batch t) rs []
  | submitted (t : T) (c : C) (w : Write) : Arrow (.batch t) (.inFlight c) [w.req] [.submitted c w]
  | refused (t : T) (c : C) (r : Nat) : Arrow (.batch t) (.sendQue c) [r] [.refused c r]
  | heldBack (t : T) (c : C) (r : Nat) : Arrow (.batch t) (.sendQue c) [r] []
  | completed (c : C) (t : T) (w : Write) (ok : Bool) :
      Arrow (.inFlight c) (.completing t ok) [w.req] [.completed c w ok]
  | pushedBack (t : T) (c : C) (r : Nat) : Arrow (.completing t false) (.sendQue c) [r] []
  | written (t : T) (r : Nat) : Arrow (.completing t true) .pool [r] [.returned r .written]
  | orphaned (t : T) (ok : Bool) (r : Nat) : Arrow (.completing t ok) .pool [r] [.returned r .orphaned]
  | destroyed (c : C) (rs : List Nat) :
      Arrow (.sendQue c) .pool rs (rs.map fun r => .returned r .destroyed)

variable [DecidableEq T] [DecidableEq C]

/-- `moved` leave `src`, where `keep` stay, and arrive in `dst`. -/
structure Moves (s s' : WritePath T C) (src dst : Place T C) (moved keep : List Nat) : Prop where
  apart : src ≠ dst
  before : (s.held src).Perm (moved ++ keep)
  after : (s'.held src).Perm keep
  arrived : (s'.held dst).Perm (s.held dst ++ moved)
  others : ∀ p, p ≠ src → p ≠ dst → s'.held p = s.held p

/-- getConnection has answered null in some afterWrite. -/
def Unbound (s : WritePath T C) : Prop := ∃ t k, (s.threads t).completion = some k ∧ k.target = none

inductive Effect (s s' : WritePath T C) : Prop
  | stay (held : s'.held = s.held) (made : s'.pool.made = s.pool.made) (history : s'.history = s.history)
  | fresh (t : T) (arrived : s'.held (.encoder t false) = s.held (.encoder t false) ++ [s.pool.made])
      (others : ∀ p, p ≠ .encoder t false → s'.held p = s.held p) (made : s'.pool.made = s.pool.made + 1)
      (history : s'.history = s.history ++ [.checkedOut s.pool.made])
  | move (src dst : Place T C) (moved keep : List Nat) (events : List (Event C))
      (arrow : Arrow src dst moved events) (orphan : ∀ r, .returned r .orphaned ∈ events → s.Unbound)
      (moves : Moves s s' src dst moved keep)
      (made : s'.pool.made = s.pool.made) (history : s'.history = s.history ++ events)

/-- The places that a step on thread `t` and connection `c` may touch. -/
def near (t : T) (c : C) : List (Place T C) :=
  [.pool,.encoder t true,.encoder t false,.sendQue c,.batch t,.inFlight c,.completing t true,.completing t false]

omit [DecidableEq T] [DecidableEq C] in
theorem held_far {s s' : WritePath T C} {t : T} {c : C}
    (threads : ∀ u, u ≠ t → s'.threads u = s.threads u) (conns : ∀ d, d ≠ c → s'.conns d = s.conns d)
    {p : Place T C} (far : p ∉ near t c) : s'.held p = s.held p := by
  cases p with
  | pool => simp [near] at far
  | encoder u filled => cases filled <;> simp [near] at far <;> simp [held,threads u far]
  | sendQue d => simp [near] at far; simp [held,conns d far]
  | batch u => simp [near] at far; simp [held,threads u far]
  | inFlight d => simp [near] at far; simp [held,conns d far]
  | completing u ok => cases ok <;> simp [near] at far <;> simp [held,threads u far]

theorem held_others {s s' : WritePath T C} (t : T) (c : C) {P : Place T C → Prop}
    (threads : ∀ u, u ≠ t → s'.threads u = s.threads u) (conns : ∀ d, d ≠ c → s'.conns d = s.conns d)
    (here : ∀ p ∈ near t c, P p → s'.held p = s.held p) (p : Place T C) (other : P p) :
    s'.held p = s.held p := by
  by_cases close : p ∈ near t c
  · exact here p close other
  · exact held_far threads conns close

variable {s s' : WritePath T C} {loopOf : C → T} {t : T} {c : C}

theorem Effect.of_near (t : T) (c : C) {src dst : Place T C} {moved : List Nat} (keep : List Nat)
    {events : List (Event C)} (arrow : Arrow src dst moved events)
    (orphan : ∀ r, .returned r .orphaned ∈ events → s.Unbound) (apart : src ≠ dst)
    (before : s.held src = moved ++ keep) (after : s'.held src = keep)
    (arrived : s'.held dst = s.held dst ++ moved)
    (threads : ∀ u, u ≠ t → s'.threads u = s.threads u) (conns : ∀ d, d ≠ c → s'.conns d = s.conns d)
    (here : ∀ p ∈ near t c, p ≠ src ∧ p ≠ dst → s'.held p = s.held p)
    (made : s'.pool.made = s.pool.made) (history : s'.history = s.history ++ events) : Effect s s' :=
  .move src dst moved keep events arrow orphan
    ⟨apart,by rw [before],by rw [after],by rw [arrived],fun p hs hd =>
      held_others t c threads conns here p ⟨hs,hd⟩⟩ made history

theorem Effect.of_far (t : T) (c : C) (threads : ∀ u, u ≠ t → s'.threads u = s.threads u)
    (conns : ∀ d, d ≠ c → s'.conns d = s.conns d)
    (here : ∀ p ∈ near t c, True → s'.held p = s.held p)
    (made : s'.pool.made = s.pool.made) (history : s'.history = s.history) : Effect s s' :=
  .stay (funext fun p => held_others t c threads conns here p trivial) made history

omit [DecidableEq T] [DecidableEq C] in
theorem Effect.of_same {s₁ : WritePath T C} (same : s₁.held = s.held) (made : s₁.pool.made = s.pool.made)
    (history : s₁.history = s.history) (threads : s₁.threads = s.threads) (effect : Effect s₁ s') :
    Effect s s' := by
  have unbound : s₁.Unbound → s.Unbound := by unfold Unbound; rw [threads]; exact id
  cases effect with
  | stay h m e => exact .stay (h.trans same) (m.trans made) (e.trans history)
  | fresh t arrived others m e =>
    rw [same,made] at arrived
    rw [made] at m
    rw [history,made] at e
    exact .fresh t arrived (fun p hp => by rw [others p hp,same]) m e
  | move src dst moved keep events arrow orphan moves m e =>
    refine .move src dst moved keep events arrow (fun r hr => unbound (orphan r hr)) ⟨moves.apart,?_,moves.after,?_,fun p hs hd => ?_⟩
      (m.trans made) (by rw [e,history])
    · rw [← same]; exact moves.before
    · rw [← same]; exact moves.arrived
    · rw [moves.others p hs hd,same]

omit [DecidableEq T] in
theorem held_setConn {k : Conn} (sendQue : k.tcp.sendQue = (s.conns c).tcp.sendQue)
    (inFlight : k.inFlight = (s.conns c).inFlight) : (s.setConn c k).held = s.held := by
  funext p
  cases p with
  | sendQue d =>
    by_cases here : d = c
    · subst here; simpa [held] using sendQue
    · simp [held,here]
  | inFlight d =>
    by_cases here : d = c
    · subst here; simp [held,inFlight]
    · simp [held,here]
  | _ => rfl

omit [DecidableEq T] in
theorem setConn_effect {k : Conn} (sendQue : k.tcp.sendQue = (s.conns c).tcp.sendQue)
    (inFlight : k.inFlight = (s.conns c).inFlight) : Effect s (s.setConn c k) :=
  .stay (held_setConn sendQue inFlight) rfl rfl

theorem sendMsg_effect {task : Nat} (h : s.sendMsg t c task = some s') : Effect s s' := by
  obtain ⟨free,_,rfl⟩ := sendMsg_some h
  refine .of_far t c (fun u hu => by simp [hu]) (fun d hd => by simp) ?_ rfl rfl
  simp [near,held,Doing.encoder,Doing.tempQue,Thread.completing,Stage.req,Thread.free_doing free]

theorem getWriteBuffer_effect (h : s.getWriteBuffer t = some s') : Effect s s' := by
  obtain ⟨c,task,called,rfl⟩ := getWriteBuffer_some h
  rcases s.pool.getWriteBuffer_cases with ⟨r,rest,queue,taken,left,made⟩ | ⟨queue,taken,left,made⟩
  · refine .of_near t c rest (.checkedOut t r) (by simp) (by simp) (by simp [held,queue]) (by simp [held,left])
      ?_ (fun u hu => by simp [hu]) (fun d hd => by simp) ?_ (by simp [made]) (by simp [taken])
    · simp [held,Doing.encoder,Stage.req,called,taken]
    · simp [near,held,Doing.encoder,Stage.req,Doing.tempQue,Thread.completing,called]
  · refine .fresh t ?_ (held_others (P := (· ≠ .encoder t false)) t c (fun u hu => by simp [hu])
      (fun d hd => by simp) ?_) (by simp [made]) (by simp [taken])
    · simp [held,Doing.encoder,Stage.req,called,taken]
    · simp [near,held,Doing.encoder,Stage.req,Doing.tempQue,Thread.completing,queue,left,called]

theorem encodeTask_effect {vecBuf : CharVector} (h : s.encodeTask t vecBuf = some s') : Effect s s' := by
  obtain ⟨c,task,r,encoding,rfl⟩ := encodeTask_some h
  refine .of_near t c [] (.encoded t r) (by simp) (by simp) ?_ ?_ ?_ (fun u hu => by simp [hu]) (fun d hd => by simp) ?_ rfl
    (by simp)
  · simp [held,Doing.encoder,encoding,Stage.req]
  · simp [held,Doing.encoder,Stage.req]
  · simp [held,Doing.encoder,encoding,Stage.req]
  · simp [near,held,Doing.tempQue,Thread.completing,encoding]

theorem pushinQue_effect (h : s.pushinQue t = some s') : Effect s s' := by
  obtain ⟨c,task,r,encoded,rfl⟩ := pushinQue_some h
  refine .of_near t c [] (.pushed t c r s.pushes) (by simp) (by simp) ?_ ?_ ?_ (fun u hu => ?_) (fun d hd => ?_) ?_ rfl rfl
  · simp [held,Doing.encoder,encoded,Stage.req]
  · simp [held,Doing.encoder,Stage.req]
  · simp [held,pushbackQue]
  · simp [pushbackQue,hu]
  · simp [pushbackQue,hd]
  · simp [near,held,pushbackQue,Doing.encoder,Stage.req,Doing.tempQue,Thread.completing,encoded]

theorem swapQue_effect {th : Thread C} (encoder : ∀ filled, (s.threads t).doing.encoder filled = [])
    (tempQue : (s.threads t).doing.tempQue = [])
    (completing : ∀ ok, th.completing ok = (s.threads t).completing ok) : Effect s (s.swapQue t th c) := by
  refine .of_near t c [] (.swapped c t (s.conns c).tcp.sendQue) (by simp) (by simp) ?_ ?_ ?_ (fun u hu => ?_) (fun d hd => ?_)
    ?_ rfl (by simp [swapQue])
  · simp [held]
  · simp [held,swapQue]
  · simp only [held,tempQue]
    simp [swapQue,Doing.tempQue]
  · simp [swapQue,hu]
  · simp [swapQue,hd]
  · simp only [Thread.completing,Doing.encoder] at completing encoder
    simp [near,held,encoder,swapQue,Doing.encoder,Thread.completing,completing]

theorem launch_effect (h : launch loopOf s t = some s') : Effect s s' := by
  rcases launch_some h with ⟨c,task,pushed,⟨_,_,rfl⟩ | ⟨_,rfl⟩⟩
  · exact swapQue_effect (by simp [pushed,Doing.encoder,Stage.req]) (by simp [pushed,Doing.tempQue]) fun ok => rfl
  · refine .of_far t c (fun u hu => by simp [hu]) (fun d hd => by simp [hd]) ?_ rfl rfl
    simp [near,held,Doing.encoder,Doing.tempQue,Thread.completing,Stage.req,pushed]

omit [DecidableEq T] [DecidableEq C] in
theorem runWild_effect : Effect s s.runWild := .stay rfl rfl rfl

omit [DecidableEq C] in
theorem Effect.setClosure {inside : Bool} (effect : Effect s s') : Effect s (s'.setClosure t inside) := by
  cases effect with
  | stay held made history => exact .stay held made history
  | fresh u arrived others made history => exact .fresh u arrived others made history
  | move src dst moved keep events arrow orphan moves made history =>
    exact .move src dst moved keep events arrow orphan ⟨moves.apart,moves.before,moves.after,moves.arrived,moves.others⟩
      made history

theorem realSend_effect (h : realSend loopOf s c = some s') : Effect s s' := by
  obtain ⟨idle,_,⟨_,rfl⟩ | ⟨_,rfl⟩⟩ := realSend_some h
  · exact runWild_effect
  obtain ⟨nothing,_⟩ := Thread.idle_spec idle
  refine .setClosure (.of_same ?_ ?_ ?_ ?_ (swapQue_effect ?_ ?_ fun ok => rfl))
  · exact held_setConn rfl rfl
  · rfl
  · rfl
  · rfl
  · simp [nothing,Doing.encoder]
  · simp [nothing,Doing.tempQue]

theorem endBatch_effect (h : s.endBatch t = some s') : Effect s s' := by
  obtain ⟨c,bError,batch,rfl⟩ := endBatch_some h
  refine .setClosure (.of_far t c (fun u hu => by simp [hu]) (fun d hd => by simp) ?_ rfl rfl)
  simp [near,held,Doing.encoder,Doing.tempQue,Thread.completing,batch]

theorem uvWrite_effect {accepted : Bool} (h : s.uvWrite t accepted = some s') : Effect s s' := by
  rcases uvWrite_some h with ⟨c,r,rest,bError,batch,⟨_,rfl⟩ | ⟨_,⟨_,rfl⟩ | ⟨_,_,_,rfl⟩ | ⟨_,_,rfl⟩⟩⟩
  · exact runWild_effect
  · refine .of_near t c rest (.heldBack t c r) (by simp) (by simp) ?_ ?_ ?_ (fun u hu => ?_) (fun d hd => ?_) ?_ rfl
      (by simp [pushbackQue])
    · simp [held,batch,Doing.tempQue]
    · simp [held,Doing.tempQue]
    · simp [held,pushbackQue]
    · simp [pushbackQue,hu]
    · simp [pushbackQue,hd]
    · simp [near,held,pushbackQue,Doing.encoder,Thread.completing,batch]
  · refine .of_near t c rest (.submitted t c ⟨r,s.ticket r,s.submissions,(s.threads t).failing c⟩) (by simp) (by simp)
      ?_ ?_ ?_ (fun u hu => ?_) (fun d hd => ?_) ?_ rfl
      (by simp [accept])
    · simp [held,batch,Doing.tempQue]
    · simp [held,Doing.tempQue]
    · simp [held,accept]
    · simp [accept,hu]
    · simp [accept,hd]
    · simp [near,held,accept,Doing.encoder,Thread.completing,batch]
  · refine .of_near t c rest (.refused t c r) (by simp) (by simp) ?_ ?_ ?_ (fun u hu => ?_) (fun d hd => ?_) ?_ rfl
      (by simp [refuse,pushbackQue])
    · simp [held,batch,Doing.tempQue]
    · simp [held,Doing.tempQue]
    · simp [held,refuse,pushbackQue]
    · simp [refuse,pushbackQue,hu]
    · simp [refuse,pushbackQue,hd]
    · simp [near,held,refuse,pushbackQue,Doing.encoder,Thread.completing,batch]

theorem eraseIdx_perm (field : Write → Nat) {l : List Write} {i : Nat} {w : Write} (found : l[i]? = some w) :
    (l.map field).Perm (field w :: (l.eraseIdx i).map field) := by
  obtain ⟨inside,rfl⟩ := List.getElem?_eq_some_iff.mp found
  rw [← List.map_cons]
  exact (List.getElem_cons_eraseIdx_perm inside).symm.map _

theorem doom_req (failed w : Write) : (doom failed w).req = w.req := by
  unfold doom; split <;> rfl

theorem afterWrite_effect {i : Nat} {ok : Bool} (h : afterWrite loopOf s c i ok = some s') : Effect s s' := by
  obtain ⟨idle,w,found,rfl⟩ := afterWrite_some h
  obtain ⟨nothing,none_below⟩ := Thread.idle_spec idle
  refine .move (.inFlight c) (.completing (loopOf c) ok) [w.req] (((s.conns c).inFlight.eraseIdx i).map Write.req) _
    (.completed c (loopOf c) w ok) (by simp) ⟨by simp,eraseIdx_perm Write.req found,?_,?_,fun p hs hd =>
      held_others (P := fun p => p ≠ .inFlight c ∧ p ≠ .completing (loopOf c) ok) (loopOf c) c ?_ ?_ ?_ p ⟨hs,hd⟩⟩ rfl rfl
  · cases ok <;> simp [held,Conn.complete,doom_req,Function.comp_def]
  · simp [held,Thread.completing,AfterWrite.ok,none_below]
  · intro u hu; simp [hu]
  · intro d hd; simp [hd]
  · cases ok <;> simp [near,held,Conn.complete,Thread.completing,AfterWrite.ok,none_below,Doing.encoder,Doing.tempQue,nothing]

theorem settle_effect (h : s.settle t = some s') : Effect s s' := by
  rcases settle_some h with ⟨c,w,target,ok,completion,free,⟨unbound,rfl⟩ | ⟨d,_,rfl,rfl⟩ | ⟨d,_,rfl,rfl⟩⟩
  · refine .of_near t c [] (.orphaned t ok w.req) (fun _ _ => ⟨t,_,completion,unbound⟩) (by simp)
      ?_ ?_ ?_ (fun u hu => ?_) (fun d hd => ?_) ?_ rfl rfl
    · simp [held,Thread.completing,AfterWrite.ok,completion]
    · simp [held,Thread.completing]
    · simp [held]
    · simp [hu]
    · simp
    · cases ok <;> simp [near,held,Thread.completing,AfterWrite.ok,completion]
  · refine .of_same ?_ ?_ ?_ ?_ (swapQue_effect ?_ ?_ ?_)
    · exact held_setConn rfl rfl
    · rfl
    · rfl
    · rfl
    · simp [Thread.free_doing free,Doing.encoder]
    · simp [Thread.free_doing free,Doing.tempQue]
    · intro ok; simp [Thread.completing,AfterWrite.ok,completion]
  · refine .of_near t d [] (.pushedBack t d w.req) (by simp) (by simp) ?_ ?_ ?_ (fun u hu => ?_) (fun e he => ?_) ?_ rfl
      (by simp [refuse,pushbackQue])
    · simp [held,Thread.completing,AfterWrite.ok,completion]
    · simp [held,Thread.completing]
    · simp [held,refuse,pushbackQue]
    · simp [refuse,pushbackQue,hu]
    · simp [refuse,pushbackQue,he]
    · simp [near,held,refuse,pushbackQue,Thread.completing,AfterWrite.ok,completion]

theorem putWriteBuffer_effect (h : s.putWriteBuffer t = some s') : Effect s s' := by
  obtain ⟨c,w,target,completion,_,rfl⟩ := putWriteBuffer_some h
  refine .of_near t c [] (.written t w.req) (by simp) (by simp) ?_ ?_ ?_ (fun u hu => ?_) (fun d hd => ?_) ?_ rfl rfl
  · simp [held,Thread.completing,AfterWrite.ok,completion]
  · simp [held,Thread.completing]
  · simp [held]
  · simp [hu]
  · simp
  · simp [near,held,Thread.completing,AfterWrite.ok,completion]

omit [DecidableEq T] in
theorem call_effect {m : Method} (h : s.call c m = some s') : Effect s s' := by
  obtain ⟨_,rfl⟩ := call_some h
  refine setConn_effect ?_ rfl
  cases m <;> simp [Method.apply]

theorem closeSafe_effect (h : closeSafe loopOf s t c = some s') : Effect s s' := by
  rcases closeSafe_some h with ⟨_,rfl | rfl⟩
  · exact setConn_effect (by simp) rfl
  · exact setConn_effect rfl rfl

omit [DecidableEq T] in
theorem runClose_effect (h : runClose loopOf s c = some s') : Effect s s' := by
  obtain ⟨_,_,⟨_,rfl⟩ | ⟨_,rfl⟩⟩ := runClose_some h
  · exact runWild_effect
  · exact setConn_effect (by simp) rfl

omit [DecidableEq T] in
theorem closeCb_effect (h : closeCb loopOf s c = some s') : Effect s s' := by
  obtain ⟨_,_,_,_,rfl⟩ := closeCb_some h
  exact setConn_effect (by simp) rfl

theorem destroyed_effect (t : T) : Effect s (s.destroyed c) := by
  refine .of_near t c [] (.destroyed c (s.conns c).tcp.sendQue) (by simp) (by simp) ?_ ?_ ?_ (fun u hu => ?_) (fun d hd => ?_) ?_
    (by simp [destroyed]) rfl
  · simp [held]
  · simp [held,destroyed]
  · simp [held,destroyed]
  · simp [destroyed]
  · simp [destroyed,hd]
  · simp [near,held,destroyed]

theorem step_effect [Fintype T] {a : Action T C} (h : step loopOf s a = some s') : Effect s s' := by
  cases a with
  | setConnection task c => cases h; exact .stay rfl rfl rfl
  | loopStatus t isRunning => cases h; exact .stay rfl rfl rfl
  | sendMsg t c task => exact sendMsg_effect h
  | getWriteBuffer t => exact getWriteBuffer_effect h
  | encodeTask t vecBuf => exact encodeTask_effect h
  | pushinQue t => exact pushinQue_effect h
  | launch t => exact launch_effect h
  | realSend c => exact realSend_effect h
  | uvWrite t accepted => exact uvWrite_effect h
  | endBatch t => exact endBatch_effect h
  | afterWrite c i ok => exact afterWrite_effect h
  | settle t => exact settle_effect h
  | putWriteBuffer t => exact putWriteBuffer_effect h
  | call c m => exact call_effect h
  | closeSafe t c => exact closeSafe_effect h
  | runClose c => exact runClose_effect h
  | closeCb c => exact closeCb_effect h
  | destroy c =>
    obtain ⟨_,_,_,rfl⟩ := destroy_some h
    exact destroyed_effect (loopOf c)

def Event.req : Event C → Nat
  | .checkedOut r => r
  | .pushed _ r _ => r
  | .submitted _ w => w.req
  | .refused _ r => r
  | .completed _ w _ => w.req
  | .returned r _ => r

def trace (r : Nat) (history : List (Event C)) : List (Event C) := history.filter (·.req = r)

omit [DecidableEq C] in
theorem trace_append (r : Nat) (history more : List (Event C)) :
    trace r (history ++ more) = trace r history ++ trace r more :=
  List.filter_append _ _

/-- The traces that the arrows allow for a request, by the place they lead to. -/
inductive Life (r : Nat) : Option (Place T C) → List (Event C) → Prop
  | unmade : Life r none []
  | prepared : Life r (some .pool) []
  | new (t : T) : Life r (some (.encoder t false)) [.checkedOut r]
  | step {src dst : Place T C} {moved : List Nat} {events seen : List (Event C)} (life : Life r (some src) seen)
      (arrow : Arrow src dst moved events) (member : r ∈ moved) (once : moved.Nodup) :
      Life r (some dst) (seen ++ trace r events)

/-- Every request lies where `loc` says, and its trace has led it there. -/
structure Lives (s : WritePath T C) (loc : Nat → Option (Place T C)) : Prop where
  placed : Placement.Placed s.held loc
  known : ∀ r, (loc r).isSome ↔ r < s.pool.made
  life : ∀ r, Life r (loc r) (trace r s.history)

omit [DecidableEq T] [DecidableEq C] in
theorem Arrow.about {src dst : Place T C} {moved : List Nat} {events : List (Event C)}
    (arrow : Arrow src dst moved events) {r : Nat} (unmoved : r ∉ moved) : trace r events = [] := by
  refine List.filter_eq_nil_iff.mpr fun e he => ?_
  cases arrow with
  | destroyed c rs =>
    obtain ⟨u,hu,rfl⟩ := List.mem_map.mp he
    have other : u ≠ r := by rintro rfl; exact unmoved hu
    simp [Event.req,other]
  | _ => simp_all [Event.req,eq_comm]

variable {loc : Nat → Option (Place T C)}

theorem Lives.stay (lives : Lives s loc) (held : s'.held = s.held) (made : s'.pool.made = s.pool.made)
    (history : s'.history = s.history) : Lives s' loc :=
  ⟨by rw [held]; exact lives.placed,by rw [made]; exact lives.known,by rw [history]; exact lives.life⟩

theorem Lives.fresh (lives : Lives s loc) (arrived : s'.held (.encoder t false) = s.held (.encoder t false) ++ [s.pool.made])
    (others : ∀ p, p ≠ .encoder t false → s'.held p = s.held p) (made : s'.pool.made = s.pool.made + 1)
    (history : s'.history = s.history ++ [.checkedOut s.pool.made]) :
    Lives s' (fun r => if r = s.pool.made then some (.encoder t false) else loc r) := by
  have absent : loc s.pool.made = none := by
    have := (lives.known s.pool.made).not.mpr (Nat.lt_irrefl _)
    simpa using this
  refine ⟨lives.placed.insert absent (by rw [arrived]) others,fun r => ?_,fun r => ?_⟩
  · by_cases same : r = s.pool.made
    · simp [same,made]
    · simp only [same,if_false,lives.known r,made]
      omega
  · have before := lives.life r
    rw [history,trace_append]
    by_cases same : r = s.pool.made
    · subst same
      rw [absent] at before
      generalize trace s.pool.made s.history = seen at before
      cases before
      simpa [trace,Event.req] using Life.new t
    · have other : ¬ s.pool.made = r := fun h => same h.symm
      have silent : trace r [(.checkedOut s.pool.made : Event C)] = [] := by simp [trace,Event.req,other]
      simpa [same,silent] using before

theorem Lives.move (lives : Lives s loc) {src dst : Place T C} {moved keep : List Nat} {events : List (Event C)}
    (arrow : Arrow src dst moved events) (moves : Moves s s' src dst moved keep)
    (made : s'.pool.made = s.pool.made) (history : s'.history = s.history ++ events) :
    Lives s' (fun r => if r ∈ moved then some dst else loc r) := by
  have source : ∀ r ∈ moved, loc r = some src := fun r hr =>
    lives.placed.mem_iff.mp (moves.before.mem_iff.mpr (List.mem_append_left _ hr))
  have once : moved.Nodup :=
    (List.nodup_append.mp (moves.before.nodup_iff.mp (lives.placed.nodup src))).1
  refine ⟨lives.placed.transfer moves.apart moves.before moves.after moves.arrived moves.others,
    fun r => ?_,fun r => ?_⟩
  · rw [made,← lives.known r]
    by_cases here : r ∈ moved
    · simp [here,source r here]
    · simp [here]
  · have before := lives.life r
    rw [history,trace_append]
    by_cases here : r ∈ moved
    · rw [source r here] at before
      simpa [here] using before.step arrow here once
    · simpa [here,arrow.about here] using before

theorem Effect.lives (effect : Effect s s') (lives : Lives s loc) : ∃ loc', Lives s' loc' := by
  cases effect with
  | stay held made history => exact ⟨_,lives.stay held made history⟩
  | fresh t arrived others made history => exact ⟨_,lives.fresh arrived others made history⟩
  | move src dst moved keep events arrow _ moves made history => exact ⟨_,lives.move arrow moves made history⟩

omit [DecidableEq T] [DecidableEq C] in
/-- Every step appends to the history, and an orphan is noted only after getConnection
has answered null. -/
theorem Effect.history (effect : Effect s s') : ∃ events, s'.history = s.history ++ events ∧
    ∀ r, .returned r .orphaned ∈ events → s.Unbound := by
  cases effect with
  | stay _ _ history => exact ⟨[],by simpa using history,by simp⟩
  | fresh _ _ _ _ history => exact ⟨_,history,by simp⟩
  | move _ _ _ _ events _ orphan _ _ history => exact ⟨events,history,orphan⟩

theorem init_lives (vecs : Nat → CharVector) (bufs : C → CharVector) :
    Lives (init vecs bufs : WritePath T C) (fun r => if r < 1000 then some .pool else none) := by
  refine ⟨fun p r => ?_,fun r => ?_,fun r => ?_⟩
  · cases p with
    | pool =>
      simp only [held,init,BufferPool.make,List.nodup_range.count,List.mem_range]
      split <;> simp
    | _ => simp [held,init,Thread.none,Doing.encoder,Doing.tempQue,Thread.completing,TcpConnection.make]
  · change _ ↔ r < 1000
    split <;> simp_all
  · change Life r _ []
    split
    · exact .prepared
    · exact .unmade

end UvRpc.WritePath
