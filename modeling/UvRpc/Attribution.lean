import UvRpc.WriteQueue

/-! To which connection afterWrite applies what a completed write has to have: it looks
the connection up through the task of the write. A write goes by the number of its
submission. -/

namespace UvRpc

namespace Attribution

/-- What afterWrite does with the connection that getConnection has answered: the
assertion, the send callback, and then the count or the push-back and the close. -/
inductive Deed (C : Type*) where
  | asserted (found : Bool)
  | sendCb (conn : C) (ok : Bool)
  | counted (conn : C)
  | pushedBack (conn : C)
  | closed (conn : C)
  deriving DecidableEq, Repr

end Attribution

structure Attribution (T C : Type*) where
  path : WritePath T C
  log : List (Nat × Attribution.Deed C)

namespace WritePath

def Thread.callback {C : Type*} (th : Thread C) : Option (Completion C) :=
  th.completion.filter fun k => k.stage ≠ .sent

inductive Spot (T C : Type*) where
  | inFlight (c : C) | callback (t : T)
  deriving DecidableEq, Repr

def writes {T C : Type*} (s : WritePath T C) : Spot T C → List Nat
  | .inFlight c => (s.conns c).inFlight.map Write.submission
  | .callback t => ((s.threads t).callback.map fun k => k.write.submission).toList

end WritePath

namespace Attribution

open WritePath

variable {T C : Type*} [DecidableEq T] [DecidableEq C]

def lookedUp (s : WritePath T C) (w : Write) (ok : Bool) : List (Nat × Deed C) :=
  match s.getConnection w.req with
  | none => [(w.submission,.asserted false)]
  | some conn => [(w.submission,.asserted true),(w.submission,.sendCb conn ok)]

def settled (k : Completion C) : List (Nat × Deed C) :=
  match k.target,k.stage with
  | some conn,.callback true => [(k.write.submission,.counted conn)]
  | some conn,.callback false => [(k.write.submission,.pushedBack conn),(k.write.submission,.closed conn)]
  | _,_ => []

def deeds (s : WritePath T C) : WritePath.Action T C → List (Nat × Deed C)
  | .afterWrite c i ok => (s.conns c).inFlight[i]?.elim [] fun w => lookedUp s w ok
  | .settle t => (s.threads t).completion.elim [] settled
  | _ => []

def step [Fintype T] (loopOf : C → T) (s : Attribution T C) (a : WritePath.Action T C) :
    Option (Attribution T C) :=
  (s.path.step loopOf a).map fun path => ⟨path,s.log ++ deeds s.path a⟩

def init (vecs : Nat → CharVector) (bufs : C → CharVector) : Attribution T C := ⟨.init vecs bufs,[]⟩

def doneFor (s : Attribution T C) (n : Nat) : List (Deed C) := (s.log.filter fun e => e.1 = n).map Prod.snd

/-- What is to be done for a write of `c` before its callback is over, and after. -/
def first (c : C) (ok : Bool) : List (Deed C) := [.asserted true,.sendCb c ok]
def last (c : C) (ok : Bool) : List (Deed C) := if ok then [.counted c] else [.pushedBack c,.closed c]

/-- A write submitted on `c` is in flight and nothing is done for it; or it is in its send
callback; or it has completed, and all was done once, in order, and on `c`. -/
inductive Outcome (s : Attribution T C) (c : C) (n : Nat) : Prop
  | inFlight (member : n ∈ s.path.writes (.inFlight c)) (nothing : s.doneFor n = [])
  | callback (t : T) (k : Completion C) (ok : Bool) (here : (s.path.threads t).callback = some k) (conn : k.conn = c)
      (same : k.write.submission = n) (stage : k.stage = .callback ok) (done : s.doneFor n = first c ok)
  | complete (w : Write) (ok : Bool) (completed : .completed c w ok ∈ s.path.history) (same : w.submission = n)
      (done : s.doneFor n = first c ok ++ last c ok)

/-- Every submitted write has its outcome, and nothing is done for any other. -/
structure Attributed (s : Attribution T C) : Prop where
  outcome : ∀ c w, .submitted c w ∈ s.path.history → Outcome s c w.submission
  submitted : ∀ e ∈ s.log, ∃ c w, .submitted c w ∈ s.path.history ∧ w.submission = e.1

/-- The task of a write is bound to the connection of the write when the write completes. -/
def Binds (s : Attribution T C) (a : WritePath.Action T C) : Prop := s.path.Binds a

instance bindsDecidable (s : Attribution T C) (a : WritePath.Action T C) : Decidable (s.Binds a) :=
  inferInstanceAs (Decidable (s.path.Binds a))

variable {s s' : Attribution T C} {p p' : WritePath T C} {loopOf : C → T} {t : T} {c : C} {n : Nat}

structure Inv (loopOf : C → T) (s : Attribution T C) : Prop where
  sound : Sound loopOf s.path
  placed : ∃ loc, Placement.Placed s.path.writes loc ∧ ∀ n, (loc n).isSome → n < s.path.submissions
  outcome : ∀ c w, .submitted c w ∈ s.path.history → w.submission < s.path.submissions ∧ Outcome s c w.submission
  submitted : ∀ e ∈ s.log, ∃ c w, .submitted c w ∈ s.path.history ∧ w.submission = e.1
  inFlight : ∀ c, ∀ n ∈ s.path.writes (.inFlight c), s.doneFor n = [] ∧
    ∃ w, .submitted c w ∈ s.path.history ∧ w.submission = n
  callback : ∀ t k, (s.path.threads t).callback = some k → ∃ ok, k.stage = .callback ok ∧
    s.doneFor k.write.submission = first k.conn ok ∧ .completed k.conn k.write ok ∈ s.path.history

theorem Inv.attributed (inv : Inv loopOf s) : Attributed s :=
  ⟨fun c w member => (inv.outcome c w member).2,inv.submitted⟩

theorem Inv.doneFor_new (inv : Inv loopOf s) (new : s.path.submissions ≤ n) : s.doneFor n = [] := by
  rw [doneFor,List.map_eq_nil_iff,List.filter_eq_nil_iff]
  intro e member same
  obtain ⟨c,w,submitted,number⟩ := inv.submitted e member
  have := (inv.outcome c w submitted).1
  have : e.1 = n := by simpa using same
  omega

section
omit [DecidableEq T] [DecidableEq C]

theorem logged_of_done {deed : Deed C} (done : deed ∈ s.doneFor n) : (n,deed) ∈ s.log := by
  obtain ⟨⟨m,deed⟩,member,rfl⟩ := List.mem_map.mp done
  obtain ⟨logged,same⟩ := List.mem_filter.mp member
  have same : m = n := by simpa using same
  rwa [← same]

theorem doneFor_append (path : WritePath T C) (more : List (Nat × Deed C)) :
    (⟨path,s.log ++ more⟩ : Attribution T C).doneFor n =
      s.doneFor n ++ (more.filter fun e => e.1 = n).map Prod.snd := by
  simp [doneFor,List.filter_append]

theorem Outcome.keep (outcome : Outcome s c n)
    (inFlight : n ∈ s.path.writes (.inFlight c) → n ∈ s'.path.writes (.inFlight c))
    (callback : ∀ t k, (s.path.threads t).callback = some k → k.write.submission = n →
      (s'.path.threads t).callback = some k)
    (done : s'.doneFor n = s.doneFor n) (still : ∀ e, e ∈ s.path.history → e ∈ s'.path.history) : Outcome s' c n := by
  cases outcome with
  | inFlight member nothing => exact .inFlight (inFlight member) (done.trans nothing)
  | callback t k ok here conn same stage first =>
    exact .callback t k ok (callback t k here same) conn same stage (done.trans first)
  | complete w ok completed same all => exact .complete w ok (still _ completed) same (done.trans all)

end

/-- The step leaves the writes and what is to be known of them. -/
structure Quiet (p p' : WritePath T C) : Prop where
  inFlight : ∀ c, (p'.conns c).inFlight = (p.conns c).inFlight
  callback : ∀ t, (p'.threads t).callback = (p.threads t).callback
  submissions : p'.submissions = p.submissions
  history : ∃ events, p'.history = p.history ++ events ∧ ∀ c w, .submitted c w ∉ events

omit [DecidableEq T] [DecidableEq C] in
theorem Quiet.writes (quiet : Quiet p p') : p'.writes = p.writes := by
  funext spot
  cases spot with
  | inFlight c => simp only [WritePath.writes,quiet.inFlight]
  | callback t => simp only [WritePath.writes,quiet.callback]

theorem Inv.quiet (inv : Inv loopOf s) (quiet : Quiet s.path p') (sound : Sound loopOf p') :
    Inv loopOf ⟨p',s.log ++ []⟩ := by
  obtain ⟨events,history,none_submitted⟩ := quiet.history
  have old : ∀ {c w}, Event.submitted c w ∈ p'.history → .submitted c w ∈ s.path.history := by
    intro c w member
    rw [history,List.mem_append] at member
    exact member.resolve_right (none_submitted c w)
  have still : ∀ e, e ∈ s.path.history → e ∈ p'.history := by
    intro e member
    rw [history]
    exact List.mem_append_left _ member
  have done : ∀ n, (⟨p',s.log ++ []⟩ : Attribution T C).doneFor n = s.doneFor n := by
    intro n
    rw [doneFor_append]
    exact List.append_nil _
  refine ⟨sound,?_,fun c w member => ?_,fun e member => ?_,fun c n member => ?_,fun t k here => ?_⟩
  · change ∃ loc, Placement.Placed p'.writes loc ∧ ∀ n, (loc n).isSome → n < p'.submissions
    rw [quiet.writes,quiet.submissions]
    exact inv.placed
  · obtain ⟨below,outcome⟩ := inv.outcome c w (old member)
    refine ⟨by rw [quiet.submissions]; exact below,?_⟩
    refine outcome.keep (fun member => ?_) (fun t k here _ => ?_) (done _) still
    · rw [quiet.writes]
      exact member
    · exact (quiet.callback t).trans here
  · rw [List.append_nil] at member
    obtain ⟨c,w,submitted,number⟩ := inv.submitted e member
    exact ⟨c,w,still _ submitted,number⟩
  · change n ∈ p'.writes _ at member
    rw [quiet.writes] at member
    obtain ⟨nothing,w,submitted,number⟩ := inv.inFlight c n member
    exact ⟨(done n).trans nothing,w,still _ submitted,number⟩
  · obtain ⟨ok,stage,first,completed⟩ := inv.callback t k ((quiet.callback t).symm.trans here)
    exact ⟨ok,stage,(done _).trans first,still _ completed⟩

theorem Quiet.of_near (t : T) (c : C) (threads : ∀ u, u ≠ t → p'.threads u = p.threads u)
    (conns : ∀ d, d ≠ c → p'.conns d = p.conns d) (callback : (p'.threads t).callback = (p.threads t).callback)
    (inFlight : (p'.conns c).inFlight = (p.conns c).inFlight) (submissions : p'.submissions = p.submissions)
    (events : List (WritePath.Event C)) (history : p'.history = p.history ++ events)
    (none_submitted : ∀ c w, .submitted c w ∉ events) : Quiet p p' := by
  refine ⟨fun d => ?_,fun u => ?_,submissions,events,history,none_submitted⟩
  · by_cases here : d = c
    · subst here; exact inFlight
    · rw [conns d here]
  · by_cases here : u = t
    · subst here; exact callback
    · rw [threads u here]

omit [DecidableEq T] in
theorem refuse_inFlight (r : Nat) (d : C) : ((p.refuse c r).conns d).inFlight = (p.conns d).inFlight := by
  by_cases here : d = c
  · subst here; simp [refuse,pushbackQue]
  · simp [refuse,pushbackQue,here]

theorem swapQue_quiet {th : Thread C} (callback : th.callback = (p.threads t).callback) :
    Quiet p (p.swapQue t th c) := by
  refine .of_near t c (fun u apart => ?_) (fun d apart => ?_) ?_ ?_ rfl [] ?_ ?_
  · simp [swapQue,apart]
  · simp [swapQue,apart]
  · simpa [swapQue,Thread.callback] using callback
  · simp [swapQue]
  · simp [swapQue]
  · simp

omit [DecidableEq T] in
theorem setConn_quiet {k : Conn} (inFlight : k.inFlight = (p.conns c).inFlight) : Quiet p (p.setConn c k) := by
  refine ⟨fun d => ?_,fun u => rfl,rfl,[],(List.append_nil _).symm,by simp⟩
  by_cases here : d = c
  · subst here; simpa using inFlight
  · simp [here]

omit [DecidableEq T] [DecidableEq C] in
theorem Quiet.trans {p'' : WritePath T C} (first : Quiet p p') (second : Quiet p' p'') : Quiet p p'' := by
  obtain ⟨events,history,none_submitted⟩ := first.history
  obtain ⟨events',history',none_submitted'⟩ := second.history
  refine ⟨fun c => (second.inFlight c).trans (first.inFlight c),fun t => (second.callback t).trans (first.callback t),
    second.submissions.trans first.submissions,events ++ events',by rw [history',history,List.append_assoc],?_⟩
  intro c w member
  rcases List.mem_append.mp member with old | new
  · exact none_submitted c w old
  · exact none_submitted' c w new

omit [DecidableEq T] [DecidableEq C] in
theorem runWild_quiet : Quiet p p.runWild :=
  ⟨fun _ => rfl,fun _ => rfl,rfl,[],(List.append_nil _).symm,by simp⟩

omit [DecidableEq C] in
theorem Quiet.setClosure {inside : Bool} (quiet : Quiet p p') : Quiet p (p'.setClosure t inside) :=
  ⟨quiet.inFlight,quiet.callback,quiet.submissions,quiet.history⟩

/-- An action that neither submits a write nor is about a completion. -/
def stays : WritePath.Action T C → Bool
  | .uvWrite _ _ => false
  | .afterWrite _ _ _ => false
  | .settle _ => false
  | _ => true

theorem step_quiet [Fintype T] {a : WritePath.Action T C} (other : stays a) (h : p.step loopOf a = some p') :
    Quiet p p' := by
  cases a with
  | setConnection task c => cases h; exact ⟨fun _ => rfl,fun _ => rfl,rfl,[],(List.append_nil _).symm,by simp⟩
  | loopStatus t isRunning => cases h; exact ⟨fun _ => rfl,fun _ => rfl,rfl,[],(List.append_nil _).symm,by simp⟩
  | sendMsg t c task =>
    obtain ⟨_,_,rfl⟩ := sendMsg_some h
    exact .of_near t c (by simp_all) (by simp) (by simp [Thread.callback]) rfl rfl [] (List.append_nil _).symm (by simp)
  | getWriteBuffer t =>
    obtain ⟨c,task,_,rfl⟩ := getWriteBuffer_some h
    exact .of_near t c (by simp_all) (by simp) (by simp [Thread.callback]) rfl rfl _ rfl (by simp)
  | encodeTask t vecBuf =>
    obtain ⟨c,task,r,_,rfl⟩ := encodeTask_some h
    exact .of_near t c (by simp_all) (by simp) (by simp [Thread.callback]) rfl rfl [] (List.append_nil _).symm (by simp)
  | pushinQue t =>
    obtain ⟨c,task,r,_,rfl⟩ := pushinQue_some h
    exact .of_near t c (by simp_all [pushbackQue]) (by simp_all [pushbackQue]) (by simp [Thread.callback,pushbackQue])
      (by simp [pushbackQue]) rfl _ rfl (by simp)
  | launch t =>
    rcases launch_some h with ⟨c,task,_,⟨_,_,rfl⟩ | ⟨_,rfl⟩⟩
    · exact swapQue_quiet rfl
    · exact .of_near t c (by simp_all) (by simp_all) (by simp [Thread.callback]) (by simp) rfl []
        (List.append_nil _).symm (by simp)
  | realSend c =>
    obtain ⟨_,_,⟨_,rfl⟩ | ⟨_,rfl⟩⟩ := realSend_some h
    · exact runWild_quiet
    have taken := setConn_quiet (p := p) (c := c) (k := {p.conns c with queuedSends := (p.conns c).queuedSends - 1}) rfl
    exact (taken.trans (swapQue_quiet rfl)).setClosure
  | uvWrite t accepted => cases other
  | endBatch t =>
    obtain ⟨c,bError,_,rfl⟩ := endBatch_some h
    exact .setClosure (.of_near t c (by simp_all) (by simp) (by simp [Thread.callback]) rfl rfl [] (List.append_nil _).symm (by simp))
  | afterWrite c i ok => cases other
  | settle t => cases other
  | putWriteBuffer t =>
    obtain ⟨c,w,target,completion,_,rfl⟩ := putWriteBuffer_some h
    have none_below : (p.threads t).callback = none := by rw [Thread.callback,completion]; rfl
    exact .of_near t c (by simp_all) (by simp) (by rw [none_below]; simp [Thread.callback]) rfl rfl _ rfl (by simp)
  | call c m =>
    obtain ⟨_,rfl⟩ := call_some h
    exact setConn_quiet rfl
  | closeSafe t c =>
    rcases closeSafe_some h with ⟨_,rfl | rfl⟩
    · exact setConn_quiet rfl
    · exact setConn_quiet rfl
  | runClose c =>
    obtain ⟨_,_,⟨_,rfl⟩ | ⟨_,rfl⟩⟩ := runClose_some h
    · exact runWild_quiet
    · exact setConn_quiet rfl
  | closeCb c =>
    obtain ⟨_,_,_,_,rfl⟩ := closeCb_some h
    exact setConn_quiet rfl
  | destroy c =>
    obtain ⟨_,_,_,rfl⟩ := destroy_some h
    exact .of_near (loopOf c) c (fun _ _ => rfl) (by simp_all [destroyed]) rfl (by simp [destroyed]) rfl _ rfl (by simp)

theorem doom_submission (failed w : Write) : (doom failed w).submission = w.submission := by
  unfold doom
  split <;> rfl

omit [DecidableEq T] [DecidableEq C] in
theorem doneFor_more {path : WritePath T C} {m : Nat} (deeds : List (Deed C)) :
    (⟨path,s.log ++ deeds.map fun d => (m,d)⟩ : Attribution T C).doneFor n =
      s.doneFor n ++ if n = m then deeds else [] := by
  rw [doneFor_append]
  by_cases same : n = m
  · subst same
    simp [List.filter_eq_self.mpr,Function.comp_def]
  · simp [same,Ne.symm same]

/-- A step that is about one write keeps what is known of all others. -/
theorem Inv.update {deeds : List (Deed C)} (inv : Inv loopOf s) (sound : Sound loopOf p')
    (placed : ∃ loc, Placement.Placed p'.writes loc ∧ ∀ m, (loc m).isSome → m < p'.submissions)
    (submissions : s.path.submissions ≤ p'.submissions) (still : ∀ e, e ∈ s.path.history → e ∈ p'.history)
    (old : ∀ c w, w.submission ≠ n → .submitted c w ∈ p'.history → .submitted c w ∈ s.path.history)
    (unmoved : ∀ c m, m ≠ n → (m ∈ p'.writes (.inFlight c) ↔ m ∈ s.path.writes (.inFlight c)))
    (callback : ∀ u k, k.write.submission ≠ n →
      ((p'.threads u).callback = some k ↔ (s.path.threads u).callback = some k))
    (submitted : deeds ≠ [] → ∃ c w, .submitted c w ∈ p'.history ∧ w.submission = n)
    (outcome : ∀ c w, .submitted c w ∈ p'.history → w.submission = n →
      n < p'.submissions ∧ Outcome ⟨p',s.log ++ deeds.map fun d => (n,d)⟩ c n)
    (flying : ∀ c, n ∈ p'.writes (.inFlight c) →
      s.doneFor n ++ deeds = [] ∧ ∃ w, .submitted c w ∈ p'.history ∧ w.submission = n)
    (calling : ∀ u k, (p'.threads u).callback = some k → k.write.submission = n → ∃ ok, k.stage = .callback ok ∧
      s.doneFor n ++ deeds = first k.conn ok ∧ .completed k.conn k.write ok ∈ p'.history) :
    Inv loopOf ⟨p',s.log ++ deeds.map fun d => (n,d)⟩ := by
  have mine : (⟨p',s.log ++ deeds.map fun d => (n,d)⟩ : Attribution T C).doneFor n = s.doneFor n ++ deeds := by
    rw [doneFor_more,if_pos rfl]
  have done : ∀ m, m ≠ n →
      (⟨p',s.log ++ deeds.map fun d => (n,d)⟩ : Attribution T C).doneFor m = s.doneFor m := by
    intro m apart
    rw [doneFor_more,if_neg apart,List.append_nil]
  refine ⟨sound,placed,fun c w was => ?_,fun e logged => ?_,fun c m lies => ?_,fun u k here => ?_⟩
  · by_cases same : w.submission = n
    · rw [same]
      exact outcome c w was same
    · obtain ⟨below,outcome⟩ := inv.outcome c w (old c w same was)
      refine ⟨Nat.lt_of_lt_of_le below submissions,?_⟩
      refine outcome.keep (unmoved c _ same).mpr (fun u k here number => ?_) (done _ same) still
      exact (callback u k (by rw [number]; exact same)).mpr here
  · rcases List.mem_append.mp logged with logged | new
    · obtain ⟨c,w,was,number⟩ := inv.submitted e logged
      exact ⟨c,w,still _ was,number⟩
    · obtain ⟨deed,member,rfl⟩ := List.mem_map.mp new
      exact submitted (List.ne_nil_of_mem member)
  · by_cases same : m = n
    · subst same
      rw [mine]
      exact flying c lies
    · obtain ⟨nothing,w,was,number⟩ := inv.inFlight c m ((unmoved c m same).mp lies)
      exact ⟨(done m same).trans nothing,w,still _ was,number⟩
  · by_cases same : k.write.submission = n
    · rw [same,mine]
      exact calling u k here same
    · obtain ⟨ok,stage,did,completed⟩ := inv.callback u k ((callback u k same).mp here)
      exact ⟨ok,stage,(done _ same).trans did,still _ completed⟩

theorem submit_inv {w : Write} {th : Thread C} (inv : Inv loopOf s)
    (number : w.submission = s.path.submissions) (conns : p'.conns = Function.update s.path.conns c
      {s.path.conns c with inFlight := (s.path.conns c).inFlight ++ [w]})
    (threads : p'.threads = Function.update s.path.threads t th)
    (callback : th.callback = (s.path.threads t).callback)
    (submissions : p'.submissions = s.path.submissions + 1)
    (history : p'.history = s.path.history ++ [.submitted c w]) (sound : Sound loopOf p') :
    Inv loopOf ⟨p',s.log ++ []⟩ := by
  obtain ⟨loc,placed,known⟩ := inv.placed
  have callbacks : ∀ u, (p'.threads u).callback = (s.path.threads u).callback := by
    intro u
    by_cases here : u = t
    · subst here; simpa [threads] using callback
    · simp [threads,here]
  have arrived : (p'.writes (.inFlight c)).Perm (s.path.writes (.inFlight c) ++ [s.path.submissions]) :=
    .of_eq (by simp [writes,conns,number])
  have others : ∀ spot, spot ≠ .inFlight c → p'.writes spot = s.path.writes spot := by
    intro spot apart
    cases spot with
    | inFlight d =>
      have apart : d ≠ c := by rintro rfl; exact apart rfl
      simp [writes,conns,apart]
    | callback u => simp only [writes,callbacks u]
  have absent : loc s.path.submissions = none := by
    by_contra some_place
    exact Nat.lt_irrefl _ (known _ (Option.isSome_iff_ne_none.mpr some_place))
  have placed' := placed.insert absent arrived others
  have fresh : s.doneFor s.path.submissions = [] := inv.doneFor_new (Nat.le_refl _)
  have here : s.path.submissions ∈ p'.writes (.inFlight c) := placed'.mem_iff.mpr (if_pos rfl)
  have now : .submitted c w ∈ p'.history := by
    rw [history]
    exact List.mem_append_right _ (List.mem_singleton.mpr rfl)
  have entry : ∀ d x, .submitted d x ∈ p'.history → .submitted d x ∈ s.path.history ∨ d = c ∧ x = w := by
    intro d x member
    simpa [history] using member
  have untouched : (⟨p',s.log ++ []⟩ : Attribution T C).doneFor s.path.submissions = [] := by
    rw [doneFor_append,fresh]
    rfl
  refine inv.update (n := s.path.submissions) sound ⟨_,placed',fun m lies => ?_⟩ (by omega)
    (fun _ member => by rw [history]; exact List.mem_append_left _ member) (fun d x apart member => ?_)
    (fun d m apart => ?_) (fun u k _ => by rw [callbacks u]) (fun some_deed => absurd rfl some_deed)
    (fun d x member same => ?_) (fun d lies => ?_) (fun u k below same => ?_)
  · by_cases new : m = s.path.submissions
    · omega
    · have := known m (by simpa [new] using lies)
      omega
  · rcases entry d x member with was | ⟨rfl,rfl⟩
    · exact was
    · exact absurd number apart
  · rw [placed'.mem_iff,placed.mem_iff,if_neg apart]
  · rcases entry d x member with was | ⟨rfl,rfl⟩
    · have := (inv.outcome d x was).1
      omega
    · exact ⟨by omega,.inFlight here untouched⟩
  · have at_c : d = c := by
      have := (placed'.mem_iff.mp lies).symm.trans (placed'.mem_iff.mp here)
      cases this
      rfl
    subst at_c
    exact ⟨by rw [fresh]; rfl,w,now,number⟩
  · obtain ⟨ok,_,did,_⟩ := inv.callback u k ((callbacks u).symm.trans below)
    rw [same,fresh] at did
    cases did

/-- A write of `c` moves from the ones in flight to a send callback. -/
theorem complete_inv {i : Nat} {w : Write} {ok : Bool} {th : Thread C} (inv : Inv loopOf s)
    (found : (s.path.conns c).inFlight[i]? = some w) (none_below : (s.path.threads t).callback = none)
    (callback : th.callback = some ⟨c,w,some c,.callback ok⟩) (conns : p'.conns =
      Function.update s.path.conns c ((s.path.conns c).complete i w ok))
    (threads : p'.threads = Function.update s.path.threads t th) (submissions : p'.submissions = s.path.submissions)
    (history : p'.history = s.path.history ++ [.completed c w ok]) (sound : Sound loopOf p') :
    Inv loopOf ⟨p',s.log ++ (first c ok).map fun d => (w.submission,d)⟩ := by
  obtain ⟨loc,placed,known⟩ := inv.placed
  have member : w.submission ∈ s.path.writes (.inFlight c) := List.mem_map_of_mem (List.mem_of_getElem? found)
  obtain ⟨nothing,v,submitted,number⟩ := inv.inFlight c _ member
  have before : (s.path.writes (.inFlight c)).Perm
      ([w.submission] ++ ((s.path.conns c).inFlight.eraseIdx i).map Write.submission) :=
    eraseIdx_perm Write.submission found
  have after : (p'.writes (.inFlight c)).Perm (((s.path.conns c).inFlight.eraseIdx i).map Write.submission) := by
    cases ok <;> simp [writes,conns,Conn.complete,doom_submission,Function.comp_def]
  have arrived : (p'.writes (.callback t)).Perm (s.path.writes (.callback t) ++ [w.submission]) := by
    simp [writes,threads,none_below,callback]
  have apart : (.inFlight c : Spot T C) ≠ .callback t := by simp
  have placed' := placed.transfer apart before after arrived fun spot at_c at_t => by
    cases spot with
    | inFlight d =>
      have apart : d ≠ c := by rintro rfl; exact at_c rfl
      simp [writes,conns,apart]
    | callback u =>
      have apart : u ≠ t := by rintro rfl; exact at_t rfl
      simp [writes,threads,apart]
  have still : ∀ e, e ∈ s.path.history → e ∈ p'.history := by
    intro e member
    rw [history]
    exact List.mem_append_left _ member
  have old : ∀ d x, .submitted d x ∈ p'.history → .submitted d x ∈ s.path.history := by
    intro d x member
    simpa [history] using member
  have below : (p'.threads t).callback = some ⟨c,w,some c,.callback ok⟩ := by simpa [threads] using callback
  refine inv.update sound ⟨_,placed',fun m lies => ?_⟩ (Nat.le_of_eq submissions.symm) still (fun d x _ => old d x)
    (fun d m apart => placed.unmoved placed' (by simpa using apart)) (fun u k apart => ?_)
    (fun _ => ⟨c,v,still _ submitted,number⟩) (fun d x was same => ?_) (fun d lies => ?_) (fun u k here same => ?_)
  · rw [submissions]
    by_cases same : m = w.submission
    · rw [same]
      exact known _ (by rw [placed.mem_iff.mp member]; rfl)
    · exact known m (by simpa [same] using lies)
  · by_cases here : u = t
    · subst here
      rw [below,none_below]
      constructor
      · rintro ⟨⟩
        exact absurd rfl apart
      · rintro ⟨⟩
    · rw [threads,Function.update_of_ne here]
  · -- it was in flight on `c`, so this is its only submission
    obtain ⟨small,outcome⟩ := inv.outcome d x (old d x was)
    rw [same] at small outcome
    refine ⟨by omega,?_⟩
    cases outcome with
    | inFlight lies _ =>
      cases placed.same_place lies member
      exact .callback t _ ok below rfl rfl rfl (by rw [doneFor_more,nothing,if_pos rfl]; rfl)
    | callback u k ok' _ _ _ _ did =>
      rw [nothing] at did
      cases did
    | complete x' ok' _ _ did =>
      rw [nothing] at did
      cases did
  · have := placed'.mem_iff.mp lies
    simp at this
  · by_cases at_t : u = t
    · subst at_t
      rw [below] at here
      cases here
      exact ⟨ok,rfl,by rw [nothing]; rfl,by rw [history]; exact List.mem_append_right _ (List.mem_singleton.mpr rfl)⟩
    · rw [threads,Function.update_of_ne at_t] at here
      obtain ⟨ok',_,did,_⟩ := inv.callback u k here
      rw [same,nothing] at did
      cases did

theorem settle_inv {k : Completion C} {ok : Bool} (inv : Inv loopOf s)
    (here : (s.path.threads t).callback = some k) (stage : k.stage = .callback ok)
    (inFlight : ∀ d, (p'.conns d).inFlight = (s.path.conns d).inFlight)
    (left : (p'.threads t).callback = none) (others : ∀ u, u ≠ t → p'.threads u = s.path.threads u)
    (submissions : p'.submissions = s.path.submissions) (history : p'.history = s.path.history)
    (sound : Sound loopOf p') :
    Inv loopOf ⟨p',s.log ++ (last k.conn ok).map fun d => (k.write.submission,d)⟩ := by
  obtain ⟨loc,placed,known⟩ := inv.placed
  obtain ⟨ok',stage',did,completed⟩ := inv.callback t k here
  obtain rfl : ok' = ok := by
    rw [stage] at stage'
    cases stage'
    rfl
  have member : k.write.submission ∈ s.path.writes (.callback t) := by simp [writes,here]
  have before : (s.path.writes (.callback t)).Perm ([k.write.submission] ++ []) := by simp [writes,here]
  have after : (p'.writes (.callback t)).Perm [] := by simp [writes,left]
  have placed' := placed.remove before after fun spot at_t => by
    cases spot with
    | inFlight d => simp only [writes,inFlight d]
    | callback u =>
      have apart : u ≠ t := by rintro rfl; exact at_t rfl
      simp only [writes,others u apart]
  have still : ∀ e, e ∈ s.path.history → e ∈ p'.history := by
    intro e member
    rw [history]
    exact member
  have submitted : ∃ c w, .submitted c w ∈ p'.history ∧ w.submission = k.write.submission := by
    have asserted : Deed.asserted true ∈ s.doneFor k.write.submission := by
      rw [did]
      simp [first]
    obtain ⟨c,w,was,number⟩ := inv.submitted _ (logged_of_done asserted)
    exact ⟨c,w,still _ was,number⟩
  refine inv.update sound ⟨_,placed',fun m lies => ?_⟩ (Nat.le_of_eq submissions.symm) still
    (fun c w _ was => by rwa [history] at was) (fun c m apart => placed.unmoved placed' (by simpa using apart))
    (fun u j apart => ?_) (fun _ => submitted) (fun c w was same => ?_) (fun c lies => ?_) (fun u j below same => ?_)
  · rw [submissions]
    by_cases same : m = k.write.submission
    · simp [same] at lies
    · exact known m (by simpa [same] using lies)
  · by_cases at_t : u = t
    · subst at_t
      rw [left,here]
      constructor
      · rintro ⟨⟩
      · rintro ⟨⟩
        exact absurd rfl apart
    · rw [others u at_t]
  · rw [history] at was
    obtain ⟨small,outcome⟩ := inv.outcome c w was
    rw [same] at small outcome
    refine ⟨by omega,?_⟩
    cases outcome with
    | inFlight lies _ => cases placed.same_place lies member
    | callback u j ok' below conn same' _ _ =>
      have at_u : k.write.submission ∈ s.path.writes (.callback u) := by simp [writes,below,same']
      cases placed.same_place at_u member
      rw [here] at below
      cases below
      subst conn
      exact .complete k.write _ (still _ completed) rfl (by rw [doneFor_more,did,if_pos rfl])
    | complete w' ok'' _ _ all =>
      rw [did] at all
      have := congrArg List.length all
      cases ok'' <;> simp [first,last] at this
  · have := placed'.mem_iff.mp lies
    simp at this
  · have at_u : j.write.submission ∈ p'.writes (.callback u) := by simp [writes,below]
    have := placed'.mem_iff.mp at_u
    simp [same] at this

theorem step_inv [Fintype T] {a : WritePath.Action T C} (inv : Inv loopOf s) (binds : s.Binds a)
    (h : step loopOf s a = some s') : Inv loopOf s' := by
  obtain ⟨p',taken,rfl⟩ := Option.map_eq_some_iff.mp h
  have sound := step_sound inv.sound binds taken
  by_cases other : stays a
  · have none_done : deeds s.path a = [] := by cases a <;> first | rfl | cases other
    rw [none_done]
    exact inv.quiet (step_quiet other taken) sound
  cases a with
  | uvWrite t accepted =>
    rcases uvWrite_some taken with ⟨c,r,rest,bError,_,⟨_,rfl⟩ | ⟨_,⟨_,rfl⟩ | ⟨_,_,_,rfl⟩ | ⟨_,_,rfl⟩⟩⟩
    · exact inv.quiet runWild_quiet sound
    · exact inv.quiet (.of_near t c (by simp_all [pushbackQue]) (by simp_all [pushbackQue])
        (by simp [Thread.callback,pushbackQue]) (by simp [pushbackQue]) rfl [] (List.append_nil _).symm (by simp)) sound
    · exact submit_inv inv rfl rfl rfl rfl rfl rfl sound
    · exact inv.quiet (.of_near t c (by simp_all [refuse,pushbackQue]) (by simp_all [refuse,pushbackQue])
        (by simp [Thread.callback,refuse,pushbackQue]) (by simp [refuse,pushbackQue]) rfl _ rfl (by simp)) sound
  | afterWrite c i ok =>
    obtain ⟨idle,w,found,rfl⟩ := afterWrite_some taken
    have target := getConnection_bound inv.sound (List.mem_of_getElem? found) (binds w found)
    have none_below : (s.path.threads (loopOf c)).callback = none := by
      rw [Thread.callback,(Thread.idle_spec idle).2]
      rfl
    have done : deeds s.path (.afterWrite c i ok) = (first c ok).map fun d => (w.submission,d) := by
      simp [deeds,found,lookedUp,target,first]
    rw [done]
    rw [target] at sound ⊢
    exact complete_inv inv found none_below rfl rfl rfl rfl rfl sound
  | settle t =>
    obtain ⟨c,w,target,ok,completion,free,effect⟩ := settle_some taken
    obtain ⟨_,same,_⟩ := (inv.sound.threads t).completion _ completion
    obtain rfl : target = some c := same
    have here : (s.path.threads t).callback = some ⟨c,w,some c,.callback ok⟩ := by
      rw [Thread.callback,completion]
      rfl
    have done : deeds s.path (.settle t) = (last c ok).map fun d => (w.submission,d) := by
      cases ok <;> simp [deeds,completion,settled,last]
    rw [done]
    rcases effect with ⟨none_found,_⟩ | ⟨d,found,rfl,rfl⟩ | ⟨d,found,rfl,rfl⟩
    · cases none_found
    · cases found
      refine settle_inv inv here rfl (fun e => ?_) (by simp [swapQue,Thread.callback]) (by simp_all [swapQue]) rfl rfl
        sound
      by_cases at_d : e = c
      · subst at_d; simp [swapQue]
      · simp [swapQue,at_d]
    · cases found
      exact settle_inv inv here rfl (refuse_inFlight w.req) (by simp [Thread.callback])
        (by simp_all [refuse,pushbackQue]) rfl rfl sound
  | _ => exact absurd rfl other

theorem init_inv (vecs : Nat → CharVector) (bufs : C → CharVector) :
    Inv loopOf (init vecs bufs : Attribution T C) := by
  refine ⟨(init_reached vecs bufs).sound,⟨fun _ => none,?_,by rintro n ⟨⟩⟩,?_,?_,?_,?_⟩
  · rintro (c | t) n <;> rfl
  · intro c w member
    cases member
  · intro e member
    cases member
  · intro c n member
    cases member
  · rintro t k ⟨⟩

/-- A write whose task is bound elsewhere, or nowhere, is attributed elsewhere, or nowhere. -/
theorem unbound_unattributed [Fintype T] {a : WritePath.Action T C} (inv : Inv loopOf s) (unbound : ¬ s.Binds a)
    (h : step loopOf s a = some s') : ¬ Attributed s' := by
  obtain ⟨p',taken,rfl⟩ := Option.map_eq_some_iff.mp h
  cases a with
  | afterWrite c i ok =>
    obtain ⟨idle,w,found,rfl⟩ := afterWrite_some taken
    have elsewhere : s.path.getConnection w.req ≠ some c := by
      intro here
      refine unbound fun v found' => ?_
      rw [found] at found'
      cases found'
      exact (Option.filter_eq_some_iff.mp here).1
    have member : w.submission ∈ s.path.writes (.inFlight c) := List.mem_map_of_mem (List.mem_of_getElem? found)
    obtain ⟨nothing,v,submitted,number⟩ := inv.inFlight c _ member
    intro attributed
    have done : ∀ path : WritePath T C, (⟨path,s.log ++ deeds s.path (.afterWrite c i ok)⟩ : Attribution T C).doneFor
        w.submission = (lookedUp s.path w ok).map Prod.snd := by
      intro path
      rw [doneFor_append,nothing,deeds,found]
      cases target : s.path.getConnection w.req <;> simp [lookedUp,target]
    have outcome := attributed.outcome c v (List.mem_append_left _ submitted)
    rw [number] at outcome
    cases target : s.path.getConnection w.req with
    | none =>
      cases outcome with
      | inFlight _ nothing => simp [done,lookedUp,target] at nothing
      | callback u k ok' _ _ _ _ did => simp [done,lookedUp,target,first] at did
      | complete x ok' _ _ did => simp [done,lookedUp,target,first] at did
    | some d =>
      rw [target] at elsewhere
      cases outcome with
      | inFlight _ nothing => simp [done,lookedUp,target] at nothing
      | callback u k ok' _ _ _ _ did => simp_all [lookedUp,first]
      | complete x ok' _ _ did => simp_all [lookedUp,first]
  | _ => exact absurd trivial unbound

/-- In every state of a run all completions have been attributed to the connections of
their writes, exactly if the run completes writes only while their tasks are bound there. -/
theorem attributed_iff [Fintype T] (loopOf : C → T) (vecs : Nat → CharVector) (bufs : C → CharVector)
    (actions : List (WritePath.Action T C)) (s : Attribution T C)
    (run : Transition.run (step loopOf) (init vecs bufs) actions = some s) :
    Transition.Along (step loopOf) Attributed (init vecs bufs) actions ↔
      Transition.Meets (step loopOf) Binds (init vecs bufs) actions :=
  Transition.along_iff_meets (I := Inv loopOf) (fun _ inv => inv.attributed)
    (fun _ _ _ inv binds h => step_inv inv binds h) (fun _ _ _ inv unbound h => unbound_unattributed inv unbound h)
    (init_inv vecs bufs) run

def submitted (c : Bool) : List (WritePath.Action Bool Bool) :=
  [.sendMsg true c 7,.getWriteBuffer true,.encodeTask true ⟨none,0,0⟩,.pushinQue true,.launch true,.realSend c,
    .uvWrite false true,.endBatch false]

def connected (c : Bool) : List (WritePath.Action Bool Bool) := [.call c .connect,.call c (.onConnect 0)]

def binding : List (WritePath.Action Bool Bool) := [.setConnection 7 true]

def succeeding : List (WritePath.Action Bool Bool) :=
  [.afterWrite true 0 true,.settle false,.endBatch false,.putWriteBuffer false]

def failing (c : Bool) : List (WritePath.Action Bool Bool) := [.afterWrite c 0 false,.settle false]

def bothWays : List (WritePath.Action Bool Bool) :=
  connected true ++ binding ++ submitted true ++ succeeding ++ submitted true ++ failing true

def start : Attribution Bool Bool := init (fun _ => ⟨none,0,0⟩) fun _ => ⟨none,0,0⟩

theorem attributed_both_ways : (Transition.run (step fun _ => false) start bothWays).isSome ∧
    Transition.Along (step fun _ => false) Attributed start bothWays := by
  have runs : (Transition.run (step fun _ => false) start bothWays).isSome := by decide +kernel
  obtain ⟨s,run⟩ := Option.isSome_iff_exists.mp runs
  exact ⟨runs,(attributed_iff _ _ _ bothWays s run).mpr (by decide +kernel)⟩

/-- One task is sent on two connections, and the write fails on the one it is not bound to. -/
def shared : List (WritePath.Action Bool Bool) :=
  connected true ++ connected false ++ binding ++ submitted true ++ submitted false ++ failing false

theorem moved_to_other_queue : ∃ s, Transition.run (step fun _ => false) start shared = some s ∧
    s.log = [(1,.asserted true),(1,.sendCb true false),(1,.pushedBack true),(1,.closed true)] ∧ ¬ Attributed s := by
  have reached : (Transition.run (step fun _ => false) start shared).map (fun s =>
      (s.log,s.path.history.filterMap (Event.submittedWrite false))) =
        some ([(1,.asserted true),(1,.sendCb true false),(1,.pushedBack true),(1,.closed true)],[⟨1,1,1,false⟩]) := by
    decide +kernel
  obtain ⟨s,run,same⟩ := Option.map_eq_some_iff.mp reached
  obtain ⟨log,submitted⟩ := Prod.mk.inj same
  refine ⟨s,run,log,fun attributed => ?_⟩
  have member : .submitted false ⟨1,1,1,false⟩ ∈ s.path.history := by
    have listed : (⟨1,1,1,false⟩ : Write) ∈ s.path.history.filterMap (Event.submittedWrite false) := by
      rw [submitted]
      exact List.mem_singleton.mpr rfl
    obtain ⟨e,member,here⟩ := List.mem_filterMap.mp listed
    cases e with
    | submitted c w => simp_all [Event.submittedWrite]
    | _ => cases here
  have done : s.doneFor 1 = [.asserted true,.sendCb true false,.pushedBack true,.closed true] := by
    rw [doneFor,log]
    rfl
  cases attributed.outcome false _ member with
  | inFlight _ nothing => simp_all
  | callback t k ok _ _ _ _ did => simp_all [first]
  | complete w ok _ _ did => simp_all [first]

end Attribution
end UvRpc
