import UvRpc.WriteQueue

/-! Conservation of write requests: in every run in which connections outlive their queued
closures a request is in one place, keeps what was encoded into it, goes back to the pool
once for each time it was taken, and is submitted in its turn while nothing has failed. -/

namespace UvRpc.WritePath

variable {T C : Type*}

def Event.checksOut : Event C → Bool
  | .checkedOut _ => true
  | _ => false

def Event.putsBack : Event C → Bool
  | .returned _ _ => true
  | _ => false

def checkouts (r : Nat) (history : List (Event C)) : Nat := (trace r history).countP Event.checksOut
def returns (r : Nat) (history : List (Event C)) : Nat := (trace r history).countP Event.putsBack

def Place.out : Place T C → Nat
  | .pool => 0
  | _ => 1

/-- Between encodeTask and the pool. -/
def Place.encoded : Place T C → Bool
  | .pool => false
  | .encoder _ filled => filled
  | _ => true

def Encoded (s : WritePath T C) (r : Nat) : Prop := ∃ p : Place T C, p.encoded ∧ r ∈ s.held p

/-- A return is earned by a write that has just succeeded, unless a destructor makes it. -/
def Earned (before : List (Event C)) : Returned → Prop
  | .written => ∃ c w, before.getLast? = some (.completed c w true)
  | .destroyed => True
  | .orphaned => False

theorem trace_destroyed {rs : List Nat} {r : Nat} (member : r ∈ rs) (once : rs.Nodup) :
    trace r (rs.map fun u => (.returned u .destroyed : Event C)) = [.returned r .destroyed] := by
  have only : rs.filter (· = r) = [r] := by
    rw [List.filter_eq,List.count_eq_one_of_mem once member]; rfl
  rw [trace,List.filter_map]
  have same : ((fun e : Event C => decide (e.req = r)) ∘ fun u => Event.returned u Returned.destroyed) =
      fun u => decide (u = r) := rfl
  rw [same,only]; rfl

variable {src dst : Place T C} {moved : List Nat} {events seen : List (Event C)} {r : Nat}
  {place : Option (Place T C)}

theorem Arrow.balance (arrow : Arrow src dst moved events) (member : r ∈ moved) (once : moved.Nodup) :
    (trace r events).countP Event.checksOut + src.out = (trace r events).countP Event.putsBack + dst.out := by
  cases arrow with
  | destroyed c rs => rw [trace_destroyed member once]; rfl
  | swapped => rfl
  | _ =>
    obtain rfl := List.mem_singleton.mp member
    simp [trace,Event.req,Event.checksOut,Event.putsBack,Place.out]

theorem Life.balance (life : Life r place seen) :
    seen.countP Event.checksOut = seen.countP Event.putsBack + place.elim 0 Place.out := by
  induction life with
  | unmade => rfl
  | prepared => rfl
  | new t => rfl
  | @step src dst moved events seen _ arrow member once ih =>
    have balance := arrow.balance member once
    simp only [Option.elim_some] at ih
    simp only [List.countP_append,Option.elim_some]
    omega

theorem Life.completed {t : T} {ok : Bool} (life : Life r (some (.completing t ok : Place T C)) seen) :
    ∃ c w, seen.getLast? = some (.completed c w ok) := by
  generalize place_eq : some (.completing t ok : Place T C) = place at life
  cases life with
  | unmade => cases place_eq
  | prepared => cases place_eq
  | new t => cases place_eq
  | step life arrow member once =>
    cases arrow with
    | completed c t w ok' =>
      obtain rfl := List.mem_singleton.mp member
      cases place_eq
      exact ⟨c,w,by simp [trace,Event.req]⟩
    | _ => cases place_eq

theorem Arrow.trace_cases (arrow : Arrow src dst moved events) (member : r ∈ moved) (once : moved.Nodup) :
    trace r events = [] ∨ ∃ e, trace r events = [e] ∧
      ∀ u why, e = .returned u why → why = .orphaned ∨ why = .destroyed ∨
        (why = .written ∧ ∃ t, src = .completing t true) := by
  cases arrow with
  | destroyed c rs => exact .inr ⟨_,trace_destroyed member once,by rintro u why ⟨⟩; exact .inr (.inl rfl)⟩
  | written t u =>
    obtain rfl := List.mem_singleton.mp member
    exact .inr ⟨_,by simp [trace,Event.req]; rfl,by rintro v why ⟨⟩; exact .inr (.inr ⟨rfl,t,rfl⟩)⟩
  | orphaned t ok u =>
    obtain rfl := List.mem_singleton.mp member
    exact .inr ⟨_,by simp [trace,Event.req]; rfl,by rintro v why ⟨⟩; exact .inl rfl⟩
  | swapped => exact .inl rfl
  | encoded => exact .inl rfl
  | heldBack => exact .inl rfl
  | pushedBack => exact .inl rfl
  | _ =>
    obtain rfl := List.mem_singleton.mp member
    exact .inr ⟨_,by simp [trace,Event.req]; rfl,by simp⟩

theorem Life.earned (life : Life r place seen) {before after : List (Event C)} {u : Nat} {why : Returned}
    (split : seen = before ++ .returned u why :: after) : why = .orphaned ∨ Earned before why := by
  induction life generalizing after with
  | unmade => simp at split
  | prepared => simp at split
  | new t => cases before <;> simp at split
  | step life arrow member once ih =>
    rcases arrow.trace_cases member once with quiet | ⟨e,single,returned⟩
    · rw [quiet,List.append_nil] at split
      exact ih split
    · rw [single] at split
      rcases Transition.split_snoc split with ⟨rfl,rfl⟩ | ⟨rest,earlier⟩
      · rcases returned u why rfl with orphaned | rfl | ⟨rfl,t,rfl⟩
        · exact .inl orphaned
        · exact .inr trivial
        · exact .inr life.completed
      · exact ih earlier

variable [DecidableEq T] [DecidableEq C]
variable {s s' : WritePath T C} {loopOf : C → T} {t : T} {c : C} {loc : Nat → Option (Place T C)}

/-- A request that is encoded stays so until it is returned. -/
theorem Effect.encoded (effect : Effect s s') (lives : Lives s loc) (encoded : s.Encoded r) :
    s'.Encoded r ∨ ∃ why, .returned r why ∈ s'.history.drop s.history.length := by
  obtain ⟨p,after,member⟩ := encoded
  have elsewhere : ∀ q, r ∈ s.held q → q = p := fun q hq => lives.placed.same_place hq member
  cases effect with
  | stay held made history => exact .inl ⟨p,after,by rw [held]; exact member⟩
  | fresh t arrived others made history =>
    have apart : p ≠ .encoder t false := by rintro rfl; cases after
    exact .inl ⟨p,after,by rw [others p apart]; exact member⟩
  | move src dst moved keep events arrow _ moves made history =>
    by_cases here : r ∈ moved
    · have source := elsewhere src (moves.before.mem_iff.mpr (List.mem_append_left _ here))
      have arrived : r ∈ s'.held dst := moves.arrived.mem_iff.mpr (List.mem_append_right _ here)
      have noted : s'.history.drop s.history.length = events := by rw [history,List.drop_left]
      subst source
      rw [noted]
      cases arrow with
      | checkedOut => cases after
      | encoded => cases after
      | written t u =>
        obtain rfl := List.mem_singleton.mp here
        exact .inr ⟨_,List.mem_singleton.mpr rfl⟩
      | orphaned t ok u =>
        obtain rfl := List.mem_singleton.mp here
        exact .inr ⟨_,List.mem_singleton.mpr rfl⟩
      | destroyed c => exact .inr ⟨_,List.mem_map_of_mem here⟩
      | _ => exact .inl ⟨_,rfl,arrived⟩
    · refine .inl ⟨p,after,?_⟩
      by_cases at_src : p = src
      · subst at_src
        have := moves.before.mem_iff.mp member
        simp only [List.mem_append,here,false_or] at this
        exact moves.after.mem_iff.mpr this
      · by_cases at_dst : p = dst
        · subst at_dst
          exact moves.arrived.mem_iff.mpr (List.mem_append_left _ member)
        · rw [moves.others p at_src at_dst]; exact member

theorem step_reqs [Fintype T] {a : Action T C} (lives : Lives s loc) (encoded : s.Encoded r)
    (h : step loopOf s a = some s') :
    s'.pool.reqs r = s.pool.reqs r ∨ ∃ why, .returned r why ∈ s'.history.drop s.history.length := by
  obtain ⟨p,after,member⟩ := encoded
  have elsewhere : ∀ q, r ∈ s.held q → q = p := fun q hq => lives.placed.same_place hq member
  have put : ∀ u why, s'.pool = s.pool.putWriteBuffer u → s'.history = s.history ++ [.returned u why] →
      s'.pool.reqs r = s.pool.reqs r ∨ ∃ why, .returned r why ∈ s'.history.drop s.history.length := by
    intro u why pool history
    by_cases same : r = u
    · subst same
      exact .inr ⟨why,by rw [history,List.drop_left]; exact List.mem_singleton.mpr rfl⟩
    · exact .inl (by rw [pool]; exact BufferPool.putWriteBuffer_reqs_other _ same)
  cases a with
  | setConnection task d => cases h; exact .inl rfl
  | loopStatus t isRunning => cases h; exact .inl rfl
  | sendMsg t d task =>
    obtain ⟨_,_,rfl⟩ := sendMsg_some h
    exact .inl rfl
  | getWriteBuffer t =>
    obtain ⟨d,task,_,rfl⟩ := getWriteBuffer_some h
    have other : r ≠ s.pool.getWriteBuffer.1 := by
      intro taken
      rcases s.pool.getWriteBuffer_cases with ⟨u,rest,queue,eq,_,_⟩ | ⟨_,eq,_,_⟩
      · have pooled := elsewhere .pool (by rw [taken,eq]; simp [held,queue])
        subst pooled; cases after
      · have known := (lives.known r).mp (by rw [lives.placed.mem_iff.mp member]; rfl)
        rw [taken,eq] at known
        exact absurd known (Nat.lt_irrefl _)
    left
    change (s.pool.getWriteBuffer.2.modify _ _).reqs r = _
    rw [BufferPool.modify_reqs_other _ _ other,BufferPool.getWriteBuffer_reqs]
  | encodeTask t vecBuf =>
    obtain ⟨d,task,u,encoding,rfl⟩ := encodeTask_some h
    have other : r ≠ u := by
      rintro rfl
      have unfilled := elsewhere (.encoder t false) (by simp [held,encoding,Doing.encoder,Stage.req])
      subst unfilled; cases after
    exact .inl (BufferPool.modify_reqs_other _ _ other)
  | pushinQue t =>
    obtain ⟨d,task,u,_,rfl⟩ := pushinQue_some h
    exact .inl rfl
  | launch t =>
    rcases launch_some h with ⟨d,task,_,⟨_,_,rfl⟩ | ⟨_,rfl⟩⟩
    · exact .inl rfl
    · exact .inl rfl
  | realSend d =>
    obtain ⟨_,_,⟨_,rfl⟩ | ⟨_,rfl⟩⟩ := realSend_some h
    · exact .inl rfl
    · exact .inl rfl
  | uvWrite t accepted =>
    rcases uvWrite_some h with ⟨d,u,rest,bError,_,⟨_,rfl⟩ | ⟨_,⟨_,rfl⟩ | ⟨_,_,_,rfl⟩ | ⟨_,_,rfl⟩⟩⟩
    · exact .inl rfl
    · exact .inl rfl
    · exact .inl rfl
    · exact .inl rfl
  | endBatch t =>
    obtain ⟨d,bError,_,rfl⟩ := endBatch_some h
    exact .inl rfl
  | afterWrite d i ok =>
    obtain ⟨_,w,_,rfl⟩ := afterWrite_some h
    exact .inl rfl
  | settle t =>
    rcases settle_some h with ⟨d,w,target,ok,_,_,⟨_,rfl⟩ | ⟨e,_,_,rfl⟩ | ⟨e,_,_,rfl⟩⟩
    · exact put w.req .orphaned rfl rfl
    · exact .inl rfl
    · exact .inl rfl
  | putWriteBuffer t =>
    obtain ⟨d,w,target,_,_,rfl⟩ := putWriteBuffer_some h
    exact put w.req .written rfl rfl
  | call d m =>
    obtain ⟨_,rfl⟩ := call_some h
    exact .inl rfl
  | closeSafe t d =>
    rcases closeSafe_some h with ⟨_,rfl | rfl⟩
    · exact .inl rfl
    · exact .inl rfl
  | runClose d =>
    obtain ⟨_,_,⟨_,rfl⟩ | ⟨_,rfl⟩⟩ := runClose_some h
    · exact .inl rfl
    · exact .inl rfl
  | closeCb d =>
    obtain ⟨_,_,_,_,rfl⟩ := closeCb_some h
    exact .inl rfl
  | destroy d =>
    obtain ⟨_,_,_,rfl⟩ := destroy_some h
    by_cases queued : r ∈ (s.conns d).tcp.sendQue
    · refine .inr ⟨.destroyed,?_⟩
      rw [show (s.destroyed d).history = s.history ++ _ from rfl,List.drop_left]
      exact List.mem_map_of_mem queued
    · exact .inl (BufferPool.putAll_reqs_other _ queued)

omit [DecidableEq C] in
theorem returns_append (r : Nat) (history more : List (Event C)) :
    returns r (history ++ more) = returns r history + returns r more := by
  rw [returns,trace_append,List.countP_append]; rfl

omit [DecidableEq C] in
theorem returns_pos {events : List (Event C)} {why : Returned} (member : .returned r why ∈ events) :
    0 < returns r events :=
  List.countP_pos_iff.mpr ⟨_,List.mem_filter.mpr ⟨member,by simp [Event.req]⟩,rfl⟩

theorem run_returns [Fintype T] {actions : List (Action T C)}
    (run : Transition.run (step loopOf) s actions = some s') : returns r s.history ≤ returns r s'.history := by
  refine Transition.run_invariant_all (P := fun v => returns r s.history ≤ returns r v.history) ?_ (Nat.le_refl _) run
  intro u a v le taken
  obtain ⟨events,history,_⟩ := (step_effect taken).history
  simp only [history,returns_append]
  omega

/-- As long as it is not returned, a request keeps what was encoded into it. -/
theorem run_reqs [Fintype T] {actions : List (Action T C)} (lives : ∃ loc, Lives s loc) (encoded : s.Encoded r)
    (run : Transition.run (step loopOf) s actions = some s') (kept : returns r s'.history = returns r s.history) :
    s'.pool.reqs r = s.pool.reqs r := by
  induction actions generalizing s with
  | nil => cases run; rfl
  | cons a rest ih =>
    obtain ⟨m,taken,later⟩ := Transition.run_cons_some run
    obtain ⟨loc,lives⟩ := lives
    have effect := step_effect taken
    obtain ⟨events,history,_⟩ := effect.history
    have first : returns r m.history = returns r s.history + returns r events := by rw [history,returns_append]
    have grows : returns r m.history ≤ returns r s'.history := run_returns later
    have unreturned : ¬ ∃ why, .returned r why ∈ m.history.drop s.history.length := by
      rintro ⟨why,member⟩
      rw [history,List.drop_left] at member
      have := returns_pos member
      omega
    have same := (step_reqs lives encoded taken).resolve_right unreturned
    have still := (effect.encoded lives encoded).resolve_right unreturned
    rw [ih (effect.lives lives) still later (by omega),same]

/-- A connection is destroyed while no closure of it is queued and no realSend of it has
requests left to send. -/
def Outlives (s : WritePath T C) : Action T C → Prop
  | .destroy c => (s.conns c).queuedSends = 0 ∧ (s.conns c).queuedCloses = 0 ∧
      ∀ t, (s.threads t).doing.batchOf c = none
  | _ => True

instance outlivesDecidable [Fintype T] (s : WritePath T C) (a : Action T C) : Decidable (s.Outlives a) :=
  match a with
  | .destroy c => inferInstanceAs (Decidable (_ ∧ _ ∧ ∀ t, (s.threads t).doing.batchOf c = none))
  | .setConnection _ _ | .loopStatus _ _ | .sendMsg _ _ _ | .getWriteBuffer _ | .encodeTask _ _ | .pushinQue _
  | .launch _ | .realSend _ | .uvWrite _ _ | .endBatch _ | .afterWrite _ _ _ | .settle _ | .putWriteBuffer _
  | .call _ _ | .closeSafe _ _ | .runClose _ | .closeCb _ => isTrue trivial

/-- No code runs or is to run on a destroyed connection. -/
structure Tame (s : WritePath T C) : Prop where
  wild : s.wild = false
  sends : ∀ c, (s.conns c).alive = false → (s.conns c).queuedSends = 0
  closes : ∀ c, (s.conns c).alive = false → (s.conns c).queuedCloses = 0
  batches : ∀ t c, (s.conns c).alive = false → (s.threads t).doing.batchOf c = none

omit [DecidableEq T] in
/-- Closures are queued and batches taken on existing connections only. -/
theorem Tame.step (tame : Tame s) (wild : s'.wild = s.wild)
    (conns : ∀ d, (s'.conns d).alive = false → (s.conns d).alive = false ∧
      (s'.conns d).queuedSends ≤ (s.conns d).queuedSends ∧ (s'.conns d).queuedCloses ≤ (s.conns d).queuedCloses)
    (threads : ∀ t d, (s'.conns d).alive = false → (s'.threads t).doing.batchOf d = none ∨
      (s'.threads t).doing.batchOf d = (s.threads t).doing.batchOf d) : Tame s' := by
  refine ⟨wild.trans tame.wild,fun d dead => ?_,fun d dead => ?_,fun t d dead => ?_⟩
  · have := tame.sends d (conns d dead).1
    have := (conns d dead).2.1
    omega
  · have := tame.closes d (conns d dead).1
    have := (conns d dead).2.2
    omega
  · rcases threads t d dead with none_left | same
    · exact none_left
    · exact same.trans (tame.batches t d (conns d dead).1)

theorem Tame.near (tame : Tame s) (t : T) (c : C) (alive : (s'.conns c).alive = true) (wild : s'.wild = s.wild)
    (threads : ∀ u, u ≠ t → s'.threads u = s.threads u) (conns : ∀ d, d ≠ c → s'.conns d = s.conns d)
    (batch : ∀ d, d ≠ c → (s'.threads t).doing.batchOf d = none ∨
      (s'.threads t).doing.batchOf d = (s.threads t).doing.batchOf d) : Tame s' := by
  have other (d : C) (dead : (s'.conns d).alive = false) : d ≠ c := by
    rintro rfl
    rw [alive] at dead
    cases dead
  refine tame.step wild (fun d dead => ?_) fun u d dead => ?_
  · have same := conns d (other d dead)
    rw [same] at dead ⊢
    exact ⟨dead,Nat.le_refl _,Nat.le_refl _⟩
  · by_cases here : u = t
    · subst here
      exact batch d (other d dead)
    · rw [threads u here]
      exact .inr rfl

theorem batchOf_other {c d : C} (apart : d ≠ c) (tempQue : List Nat) (bError : Bool) :
    (Doing.batch c tempQue bError).batchOf d = none :=
  Doing.batchOf_other (Ne.symm apart) tempQue bError

theorem Tame.swapQue (tame : Tame s) (t : T) (th : Thread C) (alive : (s.conns c).alive = true) :
    Tame (s.swapQue t th c) := by
  refine tame.near t c ?_ rfl (fun u apart => ?_) (fun d apart => ?_) fun d apart => .inl ?_
  · simpa [WritePath.swapQue] using alive
  · simp [WritePath.swapQue,apart]
  · simp [WritePath.swapQue,apart]
  · simp only [WritePath.swapQue,setThread_threads,Function.update_self]
    exact batchOf_other apart _ _

omit [DecidableEq T] in
theorem Tame.setConn (tame : Tame s) {k : Conn} (alive : k.alive = true) : Tame (s.setConn c k) := by
  refine tame.step rfl (fun d dead => ?_) fun u d _ => .inr rfl
  by_cases same : d = c
  · subst same
    simp [alive] at dead
  · simp only [setConn_conns,Function.update_of_ne same] at dead ⊢
    exact ⟨dead,Nat.le_refl _,Nat.le_refl _⟩

theorem Tame.setThread (tame : Tame s) {th : Thread C} (none_left : ∀ d, th.doing.batchOf d = none) :
    Tame (s.setThread t th) := by
  refine tame.step rfl (fun d dead => ⟨dead,Nat.le_refl _,Nat.le_refl _⟩) fun u d _ => ?_
  by_cases here : u = t
  · subst here
    simp [none_left]
  · simp [here]

theorem Tame.uvWrite (tame : Tame s) {accepted : Bool} (h : s.uvWrite t accepted = some s') : Tame s' := by
  obtain ⟨c,r,rest,bError,batch,⟨dead,_⟩ | ⟨alive,effect⟩⟩ := uvWrite_some h
  · have := tame.batches t c dead
    simp [batch,Doing.batchOf] at this
  rcases effect with ⟨_,rfl⟩ | ⟨_,_,_,rfl⟩ | ⟨_,_,rfl⟩
  · refine tame.near t c (by simpa [pushbackQue] using alive) rfl (fun u apart => by simp [pushbackQue,apart])
      (fun d apart => by simp [pushbackQue,apart]) fun d apart => .inl ?_
    simpa using batchOf_other apart _ _
  · refine tame.near t c (by simpa [accept] using alive) rfl (fun u apart => by simp [accept,apart])
      (fun d apart => by simp [accept,apart]) fun d apart => .inl ?_
    simpa using batchOf_other apart _ _
  · refine tame.near t c (by simpa [refuse,pushbackQue] using alive) rfl
      (fun u apart => by simp [refuse,pushbackQue,apart]) (fun d apart => by simp [refuse,pushbackQue,apart])
      fun d apart => .inl ?_
    simpa using batchOf_other apart _ _

theorem Tame.settle (tame : Tame s) (sound : Sound loopOf s) (h : s.settle t = some s') : Tame s' := by
  obtain ⟨c,w,target,ok,completion,free,effect⟩ := settle_some h
  obtain ⟨_,same,alive⟩ := (sound.threads t).completion _ completion
  have nothing (d : C) : (s.threads t).doing.batchOf d = none := by rw [Thread.free_doing free]; rfl
  rcases effect with ⟨_,rfl⟩ | ⟨d,found,_,rfl⟩ | ⟨d,found,_,rfl⟩
  · have left : Tame (s.setThread t {s.threads t with completion := none}) := tame.setThread nothing
    exact ⟨left.wild,left.sends,left.closes,left.batches⟩
  · obtain rfl : d = c := by rw [found] at same; exact Option.some.inj same
    have counted : Tame (s.setTcp d {(s.conns d).tcp with sentCount := (s.conns d).tcp.sentCount + 1}) :=
      tame.setConn alive
    exact counted.swapQue _ _ (by simpa using alive)
  · obtain rfl : d = c := by rw [found] at same; exact Option.some.inj same
    exact tame.near t d (by simpa [refuse,pushbackQue] using alive) rfl
      (fun u apart => by simp [refuse,pushbackQue,apart]) (fun e apart => by simp [refuse,pushbackQue,apart])
      fun e _ => .inr (by simp)

omit [DecidableEq T] in
theorem Tame.destroyed (tame : Tame s) (sends : (s.conns c).queuedSends = 0) (closes : (s.conns c).queuedCloses = 0)
    (batches : ∀ t, (s.threads t).doing.batchOf c = none) : Tame (s.destroyed c) := by
  have conn (d : C) : d = c ∨ (s.destroyed c).conns d = s.conns d := by
    by_cases same : d = c
    · exact .inl same
    · exact .inr (by simp [WritePath.destroyed,same])
  refine ⟨tame.wild,fun d dead => ?_,fun d dead => ?_,fun t d dead => ?_⟩
  · rcases conn d with rfl | same
    · simpa [WritePath.destroyed] using sends
    · rw [same] at dead ⊢
      exact tame.sends d dead
  · rcases conn d with rfl | same
    · simpa [WritePath.destroyed] using closes
    · rw [same] at dead ⊢
      exact tame.closes d dead
  · rcases conn d with rfl | same
    · exact batches t
    · rw [same] at dead
      exact tame.batches t d dead

theorem step_tame [Fintype T] {a : Action T C} (tame : Tame s) (sound : Sound loopOf s) (outlives : s.Outlives a)
    (h : step loopOf s a = some s') : Tame s' := by
  cases a with
  | setConnection task d => cases h; exact ⟨tame.wild,tame.sends,tame.closes,tame.batches⟩
  | loopStatus t isRunning => cases h; exact ⟨tame.wild,tame.sends,tame.closes,tame.batches⟩
  | sendMsg t d task =>
    obtain ⟨_,_,rfl⟩ := sendMsg_some h
    exact tame.setThread fun _ => rfl
  | getWriteBuffer t =>
    obtain ⟨d,task,_,rfl⟩ := getWriteBuffer_some h
    have taken : Tame (s.setThread t {s.threads t with
        doing := .sending d task (.encoding s.pool.getWriteBuffer.1)}) := tame.setThread fun _ => rfl
    exact ⟨taken.wild,taken.sends,taken.closes,taken.batches⟩
  | encodeTask t vecBuf =>
    obtain ⟨d,task,u,_,rfl⟩ := encodeTask_some h
    have encoded : Tame (s.setThread t {s.threads t with doing := .sending d task (.encoded u)}) :=
      tame.setThread fun _ => rfl
    exact ⟨encoded.wild,encoded.sends,encoded.closes,encoded.batches⟩
  | pushinQue t =>
    obtain ⟨d,task,u,encoded,rfl⟩ := pushinQue_some h
    have alive : (s.conns d).alive := by have := (sound.threads t).doing; rwa [encoded] at this
    exact tame.near t d (by simpa [pushbackQue] using alive) rfl (fun u apart => by simp [pushbackQue,apart])
      (fun e apart => by simp [pushbackQue,apart]) fun e _ => .inl (by simp [Doing.batchOf])
  | launch t =>
    rcases launch_some h with ⟨d,task,pushed,direct | ⟨_,rfl⟩⟩
    all_goals have alive : (s.conns d).alive := by have := (sound.threads t).doing; rwa [pushed] at this
    · obtain ⟨_,_,rfl⟩ := direct
      exact tame.swapQue _ _ alive
    · have queued : Tame (s.setConn d {s.conns d with queuedSends := (s.conns d).queuedSends + 1}) := tame.setConn alive
      exact queued.setThread fun _ => rfl
  | realSend d =>
    obtain ⟨_,queued,⟨dead,_⟩ | ⟨alive,rfl⟩⟩ := realSend_some h
    · have := tame.sends d dead
      omega
    · have taken : Tame (s.setConn d {s.conns d with queuedSends := (s.conns d).queuedSends - 1}) := tame.setConn alive
      have swapped := taken.swapQue (loopOf d) (s.threads (loopOf d)) (c := d) (by simpa using alive)
      exact ⟨swapped.wild,swapped.sends,swapped.closes,swapped.batches⟩
  | uvWrite t accepted => exact tame.uvWrite h
  | endBatch t =>
    obtain ⟨d,bError,_,rfl⟩ := endBatch_some h
    have left : Tame (s.setThread t {s.threads t with doing := .nothing}) := tame.setThread fun _ => rfl
    exact ⟨left.wild,left.sends,left.closes,left.batches⟩
  | afterWrite d i ok =>
    obtain ⟨idle,w,found,rfl⟩ := afterWrite_some h
    have alive := (sound.conns d).alive_of_inFlight (List.mem_of_getElem? found)
    have completed : Tame (s.setConn d ((s.conns d).complete i w ok)) := tame.setConn alive
    have called : Tame ((s.setConn d ((s.conns d).complete i w ok)).setThread (loopOf d) {s.threads (loopOf d) with
        completion := some ⟨d,w,s.getConnection w.req,.callback ok⟩}) :=
      completed.setThread fun e => by simp [(Thread.idle_spec idle).1,Doing.batchOf]
    exact ⟨called.wild,called.sends,called.closes,called.batches⟩
  | settle t => exact tame.settle sound h
  | putWriteBuffer t =>
    obtain ⟨d,w,target,_,nothing,rfl⟩ := putWriteBuffer_some h
    have left : Tame (s.setThread t {s.threads t with completion := none}) :=
      tame.setThread fun e => by simp [nothing,Doing.batchOf]
    exact ⟨left.wild,left.sends,left.closes,left.batches⟩
  | call d m =>
    obtain ⟨alive,rfl⟩ := call_some h
    exact tame.setConn alive
  | closeSafe t d =>
    rcases closeSafe_some h with ⟨alive,rfl | rfl⟩
    · exact tame.setConn alive
    · exact tame.setConn alive
  | runClose d =>
    obtain ⟨_,queued,⟨dead,_⟩ | ⟨alive,rfl⟩⟩ := runClose_some h
    · have := tame.closes d dead
      omega
    · exact tame.setConn alive
  | closeCb d =>
    obtain ⟨_,alive,_,_,rfl⟩ := closeCb_some h
    exact tame.setConn alive
  | destroy d =>
    obtain ⟨_,_,_,rfl⟩ := destroy_some h
    exact tame.destroyed outlives.1 outlives.2.1 outlives.2.2

theorem run_tame [Fintype T] {actions : List (Action T C)} (tame : Tame s) (reached : Reached loopOf s)
    (bound : Transition.Meets (step loopOf) (fun s _ => Bound s) s actions)
    (outlives : Transition.Meets (step loopOf) Outlives s actions)
    (run : Transition.run (step loopOf) s actions = some s') : Tame s' := by
  have both := Transition.meets_and bound outlives
  refine (Transition.run_invariant (P := fun s => Reached loopOf s ∧ Tame s) ?_ ⟨reached,tame⟩ both run).2
  intro u a v ⟨reached,tame⟩ ⟨bound,outlives⟩ taken
  exact ⟨step_reached reached bound taken,step_tame tame reached.sound outlives taken⟩

omit [DecidableEq T] in
theorem init_tame (vecs : Nat → CharVector) (bufs : C → CharVector) : Tame (init vecs bufs : WritePath T C) :=
  ⟨rfl,fun _ _ => rfl,fun _ _ => rfl,fun _ _ _ => rfl⟩

/-- What becomes of write requests: no code runs on a destroyed connection; each request is
in exactly one place; what was encoded into it stays until it is returned to the pool; it
is returned once for each time it was taken, after a write that has succeeded or by a
destructor; and while nothing has failed on a connection, requests are submitted on it in
the order of their pushes. -/
structure Conserved [Fintype T] (loopOf : C → T) (s : WritePath T C) : Prop where
  tame : s.wild = false
  placed : ∀ r, r < s.pool.made → ∃ p, ∀ p', (s.held p').count r = if p' = p then 1 else 0
  kept : ∀ r, s.Encoded r → ∀ later s', Transition.run (step loopOf) s later = some s' →
    returns r s'.history = returns r s.history → s'.pool.reqs r = s.pool.reqs r
  balanced : ∀ r, checkouts r s.history =
    returns r s.history + if r < s.pool.made ∧ r ∉ s.held .pool then 1 else 0
  earned : ∀ before r why after, s.history = before ++ .returned r why :: after → Earned (trace r before) why
  inTurn : ∀ c, s.history.any (Event.fails c) = false →
    (s.history.filterMap (Event.submittedWrite c)).map Write.item <+:
      s.history.filterMap (Event.pushedItem c)

/-- Write requests are conserved in every run in which the task of each write in flight is
bound to the connection of that write and every connection outlives its queued closures. -/
theorem conservation [Fintype T] (loopOf : C → T) (vecs : Nat → CharVector) (bufs : C → CharVector)
    (actions : List (Action T C)) (s : WritePath T C)
    (run : Transition.run (step loopOf) (init vecs bufs) actions = some s)
    (bound : Transition.Meets (step loopOf) (fun s _ => Bound s) (init vecs bufs) actions)
    (outlives : Transition.Meets (step loopOf) Outlives (init vecs bufs) actions) :
    Conserved loopOf s := by
  have reached := run_reached (init_reached vecs bufs) bound run
  have tame := run_tame (init_tame vecs bufs) (init_reached vecs bufs) bound outlives run
  obtain ⟨loc,lives⟩ := reached.lives
  refine ⟨tame.wild,fun r made => ?_,fun r encoded later s' run' kept => run_reqs reached.lives encoded run' kept,
    fun r => ?_,fun before r why after split => ?_,fun c good => ?_⟩
  · obtain ⟨p,lies⟩ := Option.isSome_iff_exists.mp ((lives.known r).mpr made)
    refine ⟨p,fun p' => ?_⟩
    rw [lives.placed p' r,lies]
    simp [eq_comm]
  · have balance := (lives.life r).balance
    have known := lives.known r
    have pooled : r ∈ s.held .pool ↔ loc r = some .pool := lives.placed.mem_iff
    rw [checkouts,returns,balance]
    simp only [← known,pooled]
    cases loc r with
    | none => rfl
    | some p => cases p <;> simp [Place.out]
  · have seen : trace r s.history = trace r before ++ .returned r why :: trace r after := by
      rw [split,trace_append,trace,trace,trace,List.filter_cons_of_pos (by simp [Event.req])]
    apply ((lives.life r).earned seen).resolve_left
    rintro rfl
    exact reached.owned r (by rw [split]; simp)
  · obtain ⟨moves,q,moved,views,_⟩ := run_follows (c := c) (init_reached vecs bufs) (init_views vecs bufs c) bound run
    have inTurn := (RetryQueue.run_inTurn moved).submitted (by rw [views.failed]; exact good)
    rw [views.submitted,views.pushed,List.map_map] at inTurn
    exact inTurn

/-- The condition is needed: what the destructor leaves behind runs next. -/
theorem destroyed_early [Fintype T] (h : s.destroy c = some s') (early : ¬ s.Outlives (.destroy c)) :
    (∃ t, (s.threads t).doing.batchOf c ≠ none ∧ s'.uvWrite t true = some s'.runWild) ∨
      ((s.threads (loopOf c)).idle →
        realSend loopOf s' c = some s'.runWild ∨ runClose loopOf s' c = some s'.runWild) := by
  obtain ⟨_,_,_,rfl⟩ := destroy_some h
  have dead : ((s.destroyed c).conns c).alive = false := by simp [destroyed]
  have sends : ((s.destroyed c).conns c).queuedSends = (s.conns c).queuedSends := by simp [destroyed]
  have closes : ((s.destroyed c).conns c).queuedCloses = (s.conns c).queuedCloses := by simp [destroyed]
  have threads : (s.destroyed c).threads = s.threads := rfl
  by_cases busy : ∃ t, (s.threads t).doing.batchOf c ≠ none
  · obtain ⟨t,batch⟩ := busy
    refine .inl ⟨t,batch,?_⟩
    unfold Doing.batchOf at batch
    split at batch
    · rename_i d r rest bError doing
      split at batch
      · subst d
        simp [uvWrite,threads,doing,dead]
      · exact absurd rfl batch
    · exact absurd rfl batch
  refine .inr fun idle => ?_
  simp only [ne_eq,not_exists,not_not] at busy
  by_cases queued : (s.conns c).queuedSends = 0
  · have waiting : 0 < (s.conns c).queuedCloses := Nat.pos_of_ne_zero fun none_left => early ⟨queued,none_left,busy⟩
    right
    simp [runClose,threads,idle,closes,waiting,dead]
  · left
    simp [realSend,threads,idle,sends,Nat.pos_of_ne_zero queued,dead]

/-! Two threads: `false` runs the loop, `true` sends. -/

def sent (task : Nat) : List (Action Bool Unit) :=
  [.setConnection task (),.sendMsg true () task,.getWriteBuffer true,.encodeTask true ⟨some ⟨3,[1,2]⟩,2,2⟩,.pushinQue true,
    .launch true]

def failedWrite : List (Action Bool Unit) :=
  [.call () .connect,.call () (.onConnect 0)] ++ sent 7 ++ sent 8 ++
    [.realSend (),.uvWrite false true,.uvWrite false false,.endBatch false,.realSend (),.uvWrite false false,
      .endBatch false,.afterWrite () 0 false,.settle false,.closeCb (),.destroy ()]

def noVecs : WritePath Bool Unit := init (fun _ => ⟨none,0,0⟩) fun _ => ⟨none,0,0⟩

theorem conservation_failedWrite : ∃ s, Transition.run (step fun _ => false) noVecs failedWrite = some s ∧
      [.returned 1 .destroyed,.returned 0 .destroyed] <:+ s.history ∧ Conserved (fun _ => false) s := by
  have seen : (Transition.run (step fun _ => false) noVecs failedWrite).any fun s =>
    decide ([.returned 1 .destroyed,.returned 0 .destroyed] <:+ s.history) := by decide +kernel
  obtain ⟨s,run,destroyed⟩ := (Option.any_eq_true _ _).mp seen
  exact ⟨s,run,of_decide_eq_true destroyed,conservation _ _ _ _ s run (by decide +kernel) (by decide +kernel)⟩

/-- The connection is closed before the loop runs the closure that sendMsg has queued, and
destroyed by the close callback. -/
def outlivedClosure : List (Action Bool Unit) :=
  [.call () .connect,.call () (.onConnect 0)] ++ sent 7 ++ [.call () .close,.closeCb (),.destroy (),.realSend ()]

theorem closure_outlives_connection : ∃ s, Transition.run (step fun _ => false) noVecs outlivedClosure = some s ∧
    Transition.Meets (step fun _ => false) (fun s _ => Bound s) noVecs outlivedClosure ∧
      ¬ Conserved (fun _ => false) s := by
  have seen : (Transition.run (step fun _ => false) noVecs outlivedClosure).any fun s => s.wild := by decide +kernel
  obtain ⟨s,run,wild⟩ := (Option.any_eq_true _ _).mp seen
  refine ⟨s,run,by decide +kernel,fun conserved => ?_⟩
  have tame := conserved.tame
  rw [wild] at tame
  cases tame

end UvRpc.WritePath
