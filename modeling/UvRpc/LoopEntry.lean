import UvRpc.Async
import UvRpc.Transition

/-! Who is inside uv_run: run, runNoWait, stop and isRunInLoopThread of one EventLoop, with a
step of its own for each read and each write of status and of loopThreadId. -/
namespace UvRpc

/-- The next step of a thread in one of these methods. `enter` is the call of uv_run and
`setExit` the store after it. Both checks of run are here, that of NotRun first. -/
inductive EntryStep where
  | checkNotRun (noWait : Bool)
  | checkStop
  | init (noWait : Bool)
  | setThreadId (noWait : Bool)
  | setRunning (noWait : Bool)
  | enter (noWait : Bool)
  | setExit (noWait : Bool)
  | stopCheck
  | askStatus
  | askThreadId
  deriving DecidableEq, Repr

/-- `pc` is none outside these methods and in a callback; `uvRuns` are the calls of uv_run
that the thread is inside, innermost first, with true for one of runNoWait. -/
structure EntryThread where
  pc : Option EntryStep
  uvRuns : List Bool
  deriving DecidableEq, Repr

/-- Between a check that has passed and the store of Running. -/
def EntryStep.entering : EntryStep → Bool
  | .init _ => true
  | .setThreadId _ => true
  | .setRunning _ => true
  | _ => false

/-- Between the store of Running and that of Stop or NotRun, outside uv_run itself. -/
def EntryStep.running : EntryStep → Bool
  | .enter _ => true
  | .setExit _ => true
  | _ => false

def EntryThread.calm (w : EntryThread) : Prop := ∀ p, w.pc = some p → p.entering = false ∧ p.running = false

/-- The thread has no part in a run of the loop. -/
structure EntryThread.Out (w : EntryThread) : Prop where
  outside : w.uvRuns = []
  calm : w.calm

/-- `answers` are the true answers of isRunInLoopThread: whom they were given to, and
whether it was inside uv_run then. -/
structure LoopEntry (T : Type*) where
  status : Async.Status
  loopThreadId : Option T
  threads : T → EntryThread
  answers : List (T × Bool)

namespace LoopEntry

inductive Action (T : Type*) where
  | run (t : T)
  | runNoWait (t : T)
  | stop (t : T)
  | isRunInLoopThread (t : T)
  | next (t : T)
  /-- uv_run returns, after stop() or because nothing is left to do. -/
  | leave (t : T)
  deriving DecidableEq, Repr

section
variable {T : Type*} [DecidableEq T]

def make : LoopEntry T := ⟨.notRun,none,fun _ => ⟨none,[]⟩,[]⟩

def setThread (s : LoopEntry T) (t : T) (w : EntryThread) : LoopEntry T :=
  {s with threads := Function.update s.threads t w}

def go (s : LoopEntry T) (t : T) (pc : Option EntryStep) : LoopEntry T :=
  s.setThread t {s.threads t with pc := pc}

def call (s : LoopEntry T) (t : T) (first : EntryStep) : Option (LoopEntry T) :=
  if (s.threads t).pc = none then some (s.go t (some first)) else none

def inside (s : LoopEntry T) (t : T) : Bool := (s.threads t).uvRuns ≠ []

/-- Where stop finds the loop running it goes on with runInLoop, which asks
isRunInLoopThread and makes or queues the closure that ends uv_run. -/
def perform (s : LoopEntry T) (t : T) : EntryStep → LoopEntry T
  | .checkNotRun noWait =>
    s.go t (if s.status = .notRun then some (.init noWait) else if noWait then none else some .checkStop)
  | .checkStop => s.go t (if s.status = .stop then some (.init false) else none)
  | .init noWait => s.go t (some (.setThreadId noWait))
  | .setThreadId noWait => {s with loopThreadId := some t}.go t (some (.setRunning noWait))
  | .setRunning noWait => {s with status := .running}.go t (some (.enter noWait))
  | .enter noWait => s.setThread t ⟨none,noWait :: (s.threads t).uvRuns⟩
  | .setExit noWait => {s with status := if noWait then .notRun else .stop}.go t none
  | .stopCheck => s.go t (if s.status = .running then some .askStatus else none)
  | .askStatus => s.go t (if s.status = .running then some .askThreadId else none)
  | .askThreadId =>
    {s with answers := if s.loopThreadId = some t then s.answers ++ [(t,s.inside t)] else s.answers}.go t none

def step (s : LoopEntry T) : Action T → Option (LoopEntry T)
  | .run t => s.call t (.checkNotRun false)
  | .runNoWait t => s.call t (.checkNotRun true)
  | .stop t => s.call t .stopCheck
  | .isRunInLoopThread t => s.call t .askStatus
  | .next t => (s.threads t).pc.map (s.perform t)
  | .leave t =>
    match (s.threads t).uvRuns with
    | [] => none
    | noWait :: rest =>
      if (s.threads t).pc = none then some (s.setThread t ⟨some (.setExit noWait),rest⟩) else none

end

variable {T : Type*}

/-- At most one thread is inside uv_run, and only to that one isRunInLoopThread has said yes. -/
structure Exclusive (s : LoopEntry T) : Prop where
  one : ∀ t u, s.inside t = true → s.inside u = true → t = u
  answered : ∀ e ∈ s.answers, e.2 = true

def passes (s : LoopEntry T) (t : T) : Bool :=
  match (s.threads t).pc with
  | some (.checkNotRun _) => s.status = .notRun
  | some .checkStop => s.status = .stop
  | _ => false

def entering (s : LoopEntry T) (t : T) : Bool := (s.threads t).pc.any EntryStep.entering

/-- A check passes only while no other thread is on its way in. -/
def EntersAlone (s : LoopEntry T) : Action T → Prop
  | .next t => s.passes t = true → ∀ u, u ≠ t → s.entering u = false
  | _ => True

/-- How far the one thread has got that runs the loop. -/
inductive Stage (s : LoopEntry T) (t : T) : Prop
  | entering {p : EntryStep} : (s.threads t).pc = some p → p.entering = true → (s.threads t).uvRuns = [] →
      s.status ≠ .running → ((∃ noWait, p = .setRunning noWait) → s.loopThreadId = some t) → Stage s t
  | running {p : EntryStep} : (s.threads t).pc = some p → p.running = true → (s.threads t).uvRuns = [] →
      s.status = .running → s.loopThreadId = some t → Stage s t
  | inside {noWait : Bool} : (s.threads t).calm → (s.threads t).uvRuns = [noWait] →
      s.status = .running → s.loopThreadId = some t → Stage s t

/-- One thread runs the loop, or none does. A thread that has seen Running and not compared
the ids yet is inside if the id is its own. -/
structure Inv (s : LoopEntry T) : Prop where
  owner : (s.status ≠ .running ∧ ∀ u, (s.threads u).Out) ∨
    ∃ t, Stage s t ∧ ∀ u, u ≠ t → (s.threads u).Out
  asked : ∀ t, (s.threads t).pc = some .askThreadId → s.loopThreadId = some t → s.inside t = true
  answered : ∀ e ∈ s.answers, e.2 = true

instance [Fintype T] [DecidableEq T] (s : LoopEntry T) : (a : Action T) → Decidable (s.EntersAlone a)
  | .next t => inferInstanceAs (Decidable (s.passes t = true → ∀ u, u ≠ t → s.entering u = false))
  | .run _ | .runNoWait _ | .stop _ | .isRunInLoopThread _ | .leave _ => inferInstanceAs (Decidable True)

variable {s s' : LoopEntry T} {t : T}

theorem Inv.exclusive (inv : Inv s) : Exclusive s := by
  refine ⟨fun t u at_t at_u => ?_,inv.answered⟩
  have ran : ∀ v, s.inside v = true → ¬ (s.threads v).Out := by
    intro v inside out
    simp [LoopEntry.inside,out.outside] at inside
  rcases inv.owner with ⟨_,out⟩ | ⟨o,_,out⟩
  · exact absurd (out t) (ran t at_t)
  · have same : ∀ v, s.inside v = true → v = o := fun v inside => by
      by_contra other
      exact ran v inside (out v other)
    rw [same t at_t,same u at_u]

/-- A thread on its way in, out or inside is the one. -/
theorem Inv.stage (inv : Inv s) (part : ¬ (s.threads t).Out) :
    Stage s t ∧ ∀ u, u ≠ t → (s.threads u).Out := by
  rcases inv.owner with ⟨_,out⟩ | ⟨o,stage,out⟩
  · exact absurd (out t) part
  · by_cases same : t = o
    · subst same
      exact ⟨stage,out⟩
    · exact absurd (out t same) part

theorem Stage.of_entering {p : EntryStep} (stage : Stage s t) (at_p : (s.threads t).pc = some p)
    (enters : p.entering = true) : (s.threads t).uvRuns = [] ∧ s.status ≠ .running ∧
      ((∃ noWait, p = .setRunning noWait) → s.loopThreadId = some t) := by
  cases stage with
  | entering at_q _ outside idle owned =>
    cases at_p.symm.trans at_q
    exact ⟨outside,idle,owned⟩
  | running at_q runs =>
    cases at_p.symm.trans at_q
    cases p <;> simp_all [EntryStep.entering,EntryStep.running]
  | inside calm => exact absurd enters (by simp [(calm p at_p).1])

theorem Stage.of_running {p : EntryStep} (stage : Stage s t) (at_p : (s.threads t).pc = some p)
    (runs : p.running = true) : (s.threads t).uvRuns = [] ∧ s.status = .running ∧ s.loopThreadId = some t := by
  cases stage with
  | entering at_q enters =>
    cases at_p.symm.trans at_q
    cases p <;> simp_all [EntryStep.entering,EntryStep.running]
  | running _ _ outside running owned => exact ⟨outside,running,owned⟩
  | inside calm => exact absurd runs (by simp [(calm p at_p).2])

theorem Stage.of_calm (stage : Stage s t) (calm : (s.threads t).calm) :
    (∃ noWait, (s.threads t).uvRuns = [noWait]) ∧ s.status = .running ∧ s.loopThreadId = some t := by
  cases stage with
  | entering at_p enters => exact absurd enters (by simp [(calm _ at_p).1])
  | running at_p runs => exact absurd runs (by simp [(calm _ at_p).2])
  | inside _ within running owned => exact ⟨⟨_,within⟩,running,owned⟩

theorem Inv.advance (inv : Inv s) (others : ∀ u, u ≠ t → (s.threads u).Out)
    (kept : ∀ u, u ≠ t → s'.threads u = s.threads u) (stage : Stage s' t)
    (id : s'.loopThreadId = s.loopThreadId ∨ s'.loopThreadId = some t)
    (unasked : (s'.threads t).pc ≠ some .askThreadId) (answers : s'.answers = s.answers) : Inv s' := by
  refine ⟨.inr ⟨t,stage,fun u other => by rw [kept u other]; exact others u other⟩,fun u asks own => ?_,
    by rw [answers]; exact inv.answered⟩
  by_cases same : u = t
  · subst same
    exact absurd asks unasked
  · rw [LoopEntry.inside,kept u same]
    rw [kept u same] at asks
    rcases id with unchanged | changed
    · exact inv.asked u asks (unchanged ▸ own)
    · exact absurd (Option.some.inj (own.symm.trans changed)) same

/-- A step that has nothing to do with a run of the loop. -/
theorem Inv.aside (inv : Inv s) (kept : ∀ u, u ≠ t → s'.threads u = s.threads u)
    (uvRuns : (s'.threads t).uvRuns = (s.threads t).uvRuns) (calm : (s.threads t).calm)
    (calm' : (s'.threads t).calm) (status : s'.status = s.status) (id : s'.loopThreadId = s.loopThreadId)
    (asked : (s'.threads t).pc = some .askThreadId → s.loopThreadId = some t → s.inside t = true)
    (answered : ∀ e ∈ s'.answers, e.2 = true) : Inv s' := by
  have out : ∀ u, (s.threads u).Out → (s'.threads u).Out := by
    intro u out
    by_cases same : u = t
    · subst same
      exact ⟨uvRuns.trans out.outside,calm'⟩
    · rw [kept u same]
      exact out
  refine ⟨?_,fun u asks own => ?_,answered⟩
  · rcases inv.owner with ⟨idle,none_in⟩ | ⟨o,stage,others⟩
    · exact .inl ⟨by rw [status]; exact idle,fun u => out u (none_in u)⟩
    · refine .inr ⟨o,?_,fun u other => out u (others u other)⟩
      by_cases same : o = t
      · subst same
        obtain ⟨⟨noWait,within⟩,running,owned⟩ := stage.of_calm calm
        exact .inside calm' (uvRuns.trans within) (status.trans running) (id.trans owned)
      · have same := kept o same
        cases stage with
        | entering at_p enters outside idle owned =>
          exact .entering (by rw [same]; exact at_p) enters (by rw [same]; exact outside)
            (by rw [status]; exact idle) (by rw [id]; exact owned)
        | running at_p runs outside running owned =>
          exact .running (by rw [same]; exact at_p) runs (by rw [same]; exact outside)
            (status.trans running) (id.trans owned)
        | inside calm within running owned =>
          exact .inside (by rw [same]; exact calm) (by rw [same]; exact within)
            (status.trans running) (id.trans owned)
  · by_cases same : u = t
    · subst same
      rw [LoopEntry.inside,uvRuns]
      exact asked asks (id ▸ own)
    · rw [LoopEntry.inside,kept u same]
      rw [kept u same] at asks
      exact inv.asked u asks (id ▸ own)

section
variable [DecidableEq T]

@[simp] theorem setThread_same (s : LoopEntry T) (t : T) (w : EntryThread) : (s.setThread t w).threads t = w := by
  simp [setThread]

theorem setThread_other (s : LoopEntry T) {t u : T} (w : EntryThread) (other : u ≠ t) :
    (s.setThread t w).threads u = s.threads u := by
  simp [setThread,other]

theorem go_inv (inv : Inv s) {pc : Option EntryStep} (calm : (s.threads t).calm)
    (calm' : ∀ p, pc = some p → p.entering = false ∧ p.running = false)
    (asked : pc = some .askThreadId → s.loopThreadId = some t → s.inside t = true) : Inv (s.go t pc) := by
  have kept : ∀ u, u ≠ t → (s.go t pc).threads u = s.threads u := fun u other => setThread_other s _ other
  have here : (s.go t pc).threads t = {s.threads t with pc := pc} := setThread_same s t _
  apply inv.aside kept (by rw [here]) calm
  · rw [here]
    exact calm'
  · rfl
  · rfl
  · rw [here]
    exact asked
  · exact inv.answered

theorem call_inv {first : EntryStep} (inv : Inv s) (outer : first.entering = false ∧ first.running = false)
    (unasked : first ≠ .askThreadId) (h : s.call t first = some s') : Inv s' := by
  simp only [call,Option.ite_none_right_eq_some] at h
  obtain ⟨idle,⟨⟩⟩ := h
  apply go_inv inv
  · intro p at_p
    cases idle.symm.trans at_p
  · rintro _ ⟨⟩
    exact outer
  · rintro ⟨⟩
    exact absurd rfl unasked

theorem pass_inv {noWait : Bool} (inv : Inv s) (calm : (s.threads t).calm) (idle : s.status ≠ .running)
    (alone : ∀ u, u ≠ t → s.entering u = false) : Inv (s.go t (some (.init noWait))) := by
  have out : ∀ u, (s.threads u).Out := by
    rcases inv.owner with ⟨_,out⟩ | ⟨o,stage,out⟩
    · exact out
    · cases stage with
      | entering at_p enters =>
        by_cases same : o = t
        · subst same
          exact absurd enters (by simp [(calm _ at_p).1])
        · have := alone o same
          simp [LoopEntry.entering,at_p,enters] at this
      | running _ _ _ running => exact absurd running idle
      | inside _ _ running => exact absurd running idle
  refine inv.advance (fun u _ => out u) (fun u other => setThread_other s _ other) ?_ (.inl rfl) (by simp [go]) rfl
  exact .entering (p := .init noWait) (by simp [go]) rfl (by simpa [go] using (out t).outside) idle
    (by rintro ⟨_,⟨⟩⟩)

theorem enter_inv {p : EntryStep} (inv : Inv s) (at_p : (s.threads t).pc = some p) (enters : p.entering = true) :
    Inv (s.perform t p) := by
  have part : ¬ (s.threads t).Out := fun out => by simp [(out.calm p at_p).1] at enters
  obtain ⟨stage,others⟩ := inv.stage part
  obtain ⟨outside,idle,owned⟩ := stage.of_entering at_p enters
  cases p with
  | init noWait =>
    refine inv.advance others (fun u other => setThread_other s _ other) ?_ (.inl rfl) (by simp [perform,go]) rfl
    exact .entering (p := .setThreadId noWait) (by simp [perform,go]) rfl (by simpa [perform,go] using outside) idle
      (by rintro ⟨_,⟨⟩⟩)
  | setThreadId noWait =>
    refine inv.advance others (fun u other => setThread_other _ _ other) ?_ (.inr rfl) (by simp [perform,go]) rfl
    exact .entering (p := .setRunning noWait) (by simp [perform,go]) rfl (by simpa [perform,go] using outside) idle
      fun _ => rfl
  | setRunning noWait =>
    refine inv.advance others (fun u other => setThread_other _ _ other) ?_ (.inl rfl) (by simp [perform,go]) rfl
    exact .running (p := .enter noWait) (by simp [perform,go]) rfl (by simpa [perform,go] using outside) rfl
      (owned ⟨noWait,rfl⟩)
  | _ => cases enters

theorem running_inv {p : EntryStep} (inv : Inv s) (at_p : (s.threads t).pc = some p) (runs : p.running = true) :
    Inv (s.perform t p) := by
  have part : ¬ (s.threads t).Out := fun out => by simp [(out.calm p at_p).2] at runs
  obtain ⟨stage,others⟩ := inv.stage part
  obtain ⟨outside,running,owned⟩ := stage.of_running at_p runs
  cases p with
  | enter noWait =>
    refine inv.advance others (fun u other => setThread_other s _ other) ?_ (.inl rfl) (by simp [perform]) rfl
    have now : (s.perform t (.enter noWait)).threads t = ⟨none,[noWait]⟩ := by simp [perform,outside]
    exact .inside (by rw [now]; rintro _ ⟨⟩) (by rw [now]) running owned
  | setExit noWait =>
    have kept : ∀ u, u ≠ t → (s.perform t (.setExit noWait)).threads u = s.threads u :=
      fun u other => setThread_other _ _ other
    have here : (s.perform t (.setExit noWait)).threads t = ⟨none,[]⟩ := by simp [perform,go,outside]
    refine ⟨.inl ⟨?_,fun u => ?_⟩,fun u asks own => ?_,inv.answered⟩
    · change (if noWait then Async.Status.notRun else .stop) ≠ .running
      cases noWait <;> simp
    · by_cases same : u = t
      · rw [same,here]
        exact ⟨rfl,fun q at_q => by cases at_q⟩
      · rw [kept u same]
        exact others u same
    · by_cases same : u = t
      · rw [same,here] at asks
        cases asks
      · rw [inside,kept u same]
        rw [kept u same] at asks
        exact inv.asked u asks own
  | _ => cases runs

theorem read_inv {p : EntryStep} (inv : Inv s) (at_p : (s.threads t).pc = some p)
    (outer : p.entering = false ∧ p.running = false) (alone : s.EntersAlone (.next t)) : Inv (s.perform t p) := by
  have calm : (s.threads t).calm := by
    intro q at_q
    cases at_p.symm.trans at_q
    exact outer
  cases p with
  | checkNotRun noWait =>
    simp only [perform]
    by_cases passed : s.status = .notRun
    · rw [if_pos passed]
      exact pass_inv inv calm (by simp [passed]) (alone (by simp [passes,at_p,passed]))
    · rw [if_neg passed]
      cases noWait
      · exact go_inv inv calm (by rintro _ ⟨⟩; exact ⟨rfl,rfl⟩) (by rintro ⟨⟩)
      · exact go_inv inv calm (by rintro _ ⟨⟩) (by rintro ⟨⟩)
  | checkStop =>
    simp only [perform]
    by_cases passed : s.status = .stop
    · rw [if_pos passed]
      exact pass_inv inv calm (by simp [passed]) (alone (by simp [passes,at_p,passed]))
    · rw [if_neg passed]
      exact go_inv inv calm (by rintro _ ⟨⟩) (by rintro ⟨⟩)
  | stopCheck =>
    simp only [perform]
    split
    · exact go_inv inv calm (by rintro _ ⟨⟩; exact ⟨rfl,rfl⟩) (by rintro ⟨⟩)
    · exact go_inv inv calm (by rintro _ ⟨⟩) (by rintro ⟨⟩)
  | askStatus =>
    simp only [perform]
    split
    · rename_i running
      refine go_inv inv calm (by rintro _ ⟨⟩; exact ⟨rfl,rfl⟩) fun _ own => ?_
      rcases inv.owner with ⟨idle,_⟩ | ⟨o,stage,_⟩
      · exact absurd running idle
      · have owned : s.loopThreadId = some o ∧ ((s.threads o).calm → s.inside o = true) := by
          cases stage with
          | entering _ _ _ idle => exact absurd running idle
          | running at_q runs _ _ owned => exact ⟨owned,fun calm => absurd runs (by simp [(calm _ at_q).2])⟩
          | inside _ within _ owned => exact ⟨owned,fun _ => by simp [inside,within]⟩
        obtain rfl := Option.some.inj (own.symm.trans owned.1)
        exact owned.2 calm
    · exact go_inv inv calm (by rintro _ ⟨⟩) (by rintro ⟨⟩)
  | askThreadId =>
    have kept : ∀ u, u ≠ t → (s.perform t .askThreadId).threads u = s.threads u :=
      fun u other => setThread_other _ _ other
    have here : (s.perform t .askThreadId).threads t = {s.threads t with pc := none} := setThread_same _ t _
    apply inv.aside kept (by rw [here]) calm (by rw [here]; rintro _ ⟨⟩) rfl rfl (by rw [here]; rintro ⟨⟩)
    change ∀ e ∈ (if s.loopThreadId = some t then s.answers ++ [(t,s.inside t)] else s.answers), e.2 = true
    split
    · rename_i own
      intro e member
      rcases List.mem_append.mp member with old | new
      · exact inv.answered e old
      · rw [List.mem_singleton.mp new]
        exact inv.asked t at_p own
    · exact inv.answered
  | _ => simp [EntryStep.entering,EntryStep.running] at outer

theorem step_inv {a : Action T} (inv : Inv s) (alone : s.EntersAlone a) (h : step s a = some s') : Inv s' := by
  cases a with
  | run t => exact call_inv inv ⟨rfl,rfl⟩ (by simp) h
  | runNoWait t => exact call_inv inv ⟨rfl,rfl⟩ (by simp) h
  | stop t => exact call_inv inv ⟨rfl,rfl⟩ (by simp) h
  | isRunInLoopThread t => exact call_inv inv ⟨rfl,rfl⟩ (by simp) h
  | next t =>
    obtain ⟨p,at_p,rfl⟩ := Option.map_eq_some_iff.mp h
    cases enters : p.entering with
    | true => exact enter_inv inv at_p enters
    | false =>
      cases runs : p.running with
      | true => exact running_inv inv at_p runs
      | false => exact read_inv inv at_p ⟨enters,runs⟩ alone
  | leave t =>
    simp only [step] at h
    split at h
    · cases h
    · rename_i noWait rest within
      obtain ⟨idle,⟨⟩⟩ := Option.ite_none_right_eq_some.mp h
      have calm : (s.threads t).calm := fun p at_p => by cases idle.symm.trans at_p
      obtain ⟨stage,others⟩ := inv.stage (t := t) fun out => by simp [out.outside] at within
      obtain ⟨⟨_,once⟩,running,owned⟩ := stage.of_calm calm
      cases within.symm.trans once
      refine inv.advance others (fun u other => setThread_other s _ other) ?_ (.inl rfl) (by simp) rfl
      exact .running (p := .setExit noWait) (by simp) rfl (by simp) running owned

theorem entered_alone (actions : List (Action T))
    (alone : Transition.Meets step EntersAlone (make : LoopEntry T) actions) :
    Transition.Along step Exclusive make actions := by
  have start : Inv (make : LoopEntry T) :=
    ⟨.inl ⟨Async.Status.noConfusion,fun _ => ⟨rfl,nofun⟩⟩,nofun,nofun⟩
  exact Transition.along_of_meets (fun _ inv => inv.exclusive)
    (fun _ _ _ inv alone taken => step_inv inv alone taken) start alone

end

def steps (t : Bool) (k : Nat) : List (Action Bool) := List.replicate k (.next t)

/-- One thread runs the loop, the other tries to, asks, and stops it, and runs it next. -/
def inTurn : List (Action Bool) :=
  .run true :: steps true 5 ++ .run false :: steps false 2 ++ .isRunInLoopThread true :: steps true 2 ++
    .isRunInLoopThread false :: steps false 2 ++ .stop false :: steps false 3 ++ .leave true :: steps true 1 ++
      .run false :: steps false 6

theorem entered_alone_in_turn : Transition.Along step Exclusive make inTurn :=
  entered_alone inTurn (by decide +kernel)

/-- Both threads see NotRun before either stores Running. -/
def bothCheck : List (Action Bool) := [.run true,.run false,.next true,.next false] ++ steps true 4 ++ steps false 4

/-- The one has stored its id last and left again when the other stores Running. -/
def storesLate : List (Action Bool) :=
  [.run true,.run false,.next true,.next false] ++ steps false 2 ++ steps true 4 ++ .leave true :: steps true 1 ++
    steps false 2 ++ .isRunInLoopThread true :: steps true 2

theorem two_inside_or_answered_outside :
    (∃ s, Transition.run step make bothCheck = some s ∧ s.inside true = true ∧ s.inside false = true ∧
      ¬ Exclusive s) ∧
    ∃ s, Transition.run step make storesLate = some s ∧ s.answers = [(true,false)] ∧ ¬ Exclusive s := by
  refine ⟨⟨_,rfl,rfl,rfl,fun exclusive => ?_⟩,⟨_,rfl,rfl,fun exclusive => ?_⟩⟩
  · exact absurd (exclusive.one true false rfl rfl) (by decide)
  · exact absurd (exclusive.answered (true,false) (by decide)) (by decide)

end LoopEntry
end UvRpc
