import UvRpc.EventLoop

/-! A stop() that reaches its loop ends the loop. The loop has a bounded number of steps left
from then on, one more for each callback that is still pushed, and until it leaves uv_run
it has one to take, or waits for a caller that has pushed and not yet sent. -/

namespace UvRpc.EventLoop

/-- The part of the state that the loop thread goes by. -/
structure View (α : Type*) where
  stage : Stage
  stopFlag : Bool
  starting : Async.Starting
  handle : Phase
  data : Bool
  loop : Async.Loop (Request α)
  cbQue : List (Request α)

variable {T α : Type*} [DecidableEq T]

def Action.cost : Action T α → Nat
  | .uvCallback | .swap | .runCallback | .endBatch | .onAfterClose | .resetData => 1
  | _ => 0

def Action.gain : Action T α → Nat
  | .push _ | .pushOther _ _ => 1
  | _ => 0

def view (s : EventLoop T α) : View α :=
  ⟨s.stage,s.stopFlag,s.async.starting,s.async.handle,s.async.data,s.async.loop,s.async.cbQue⟩

namespace View

def inUvRun (v : View α) : Prop := ∃ mode, v.stage = .looping mode

def close (v : View α) : View α := {v with handle := if v.handle = .live then .closing else v.handle}

/-- The loop has been asked to stop: its handle is being closed, or will be by a request
in the queue or in the batch. -/
def Asked (v : View α) : Prop := v.handle ≠ .live ∨ stops v.cbQue ≠ [] ∨ stops v.loop.tmpCallbacks ≠ []

/-- The steps up to the end of the batch after the next one, with q callbacks in the queue. -/
def toBatch (q : Nat) : Async.Loop (Request α) → Nat
  | .idle => q + 6
  | .woken => q + 5
  | .batch b => b.length + q + 7
  | .afterClose => 0

def toEnd (q : Nat) : Async.Loop (Request α) → Nat
  | .idle => 3
  | .woken => q + 5
  | .batch b => b.length + 4
  | .afterClose => 2

def weight (v : View α) : Nat :=
  match v.handle with
  | .live =>
    if stops v.loop.tmpCallbacks = [] then toBatch v.cbQue.length v.loop else toEnd v.cbQue.length v.loop
  | .closing => toEnd v.cbQue.length v.loop
  | _ =>
    match v.loop with
    | .idle => 1
    | _ => 2

inductive Turn : Action T α → View α → View α → Prop
  | run {mode : Mode} {v : View α} (outside : v.stage = .outside) : Turn (.run mode) v {v with stage := .entered mode}
  | initAgain {mode : Mode} {v : View α} (entered : v.stage = .entered mode) (data : v.data = true) :
    Turn .init v {v with stage := .initialised mode}
  | init {mode : Mode} {v : View α} (entered : v.stage = .entered mode) (data : v.data = false) :
    Turn .init v {v with stage := .initialised mode, handle := .live, starting := .initialised}
  | assign {mode : Mode} {v : View α} (initialised : v.stage = .initialised mode) (starting : v.starting = .initialised) :
    Turn .assign v {v with data := true, starting := .assigned}
  | initSend {mode : Mode} {v : View α} (initialised : v.stage = .initialised mode) (starting : v.starting = .assigned) :
    Turn .initSend v {v with starting := .idle}
  | uvRun {t : T} {mode : Mode} {v : View α} (initialised : v.stage = .initialised mode) (starting : v.starting = .idle) :
    Turn (.uvRun t) v {v with stage := .looping mode}
  | uvCallback {v : View α} (running : v.inUvRun) (idle : v.loop = .idle) (live : v.handle = .live) :
    Turn .uvCallback v {v with loop := if v.data then .woken else .idle}
  | swap {v : View α} (running : v.inUvRun) (woken : v.loop = .woken) :
    Turn .swap v {v with loop := .batch v.cbQue, cbQue := []}
  | runOther {v : View α} {f : α} {rest : List (Request α)} (running : v.inUvRun) (batch : v.loop = .batch (.other f :: rest)) :
    Turn .runCallback v {v with loop := .batch rest}
  | runStop {v : View α} {issued : Nat} {rest : List (Request α)} (running : v.inUvRun)
    (batch : v.loop = .batch (.stop issued :: rest)) : Turn .runCallback v {v with loop := .batch rest}.close
  | endBatch {v : View α} (running : v.inUvRun) (batch : v.loop = .batch []) : Turn .endBatch v {v with loop := .idle}
  | onAfterClose {v : View α} (running : v.inUvRun) (idle : v.loop = .idle) (closing : v.handle = .closing) :
    Turn .onAfterClose v {v with handle := .closed, loop := .afterClose, stopFlag := true}
  | resetData {v : View α} (running : v.inUvRun) (after : v.loop = .afterClose) :
    Turn .resetData v {v with data := false, loop := .idle}
  | leave {mode : Mode} {v : View α} (running : v.stage = .looping mode) (idle : v.loop = .idle)
    (returns : mode = .noWait ∨ v.stopFlag = true) : Turn .leave v {v with stage := .outside, stopFlag := false}
  | close {t : T} {v : View α} (made : v.handle ≠ .never) : Turn (.close t) v v.close
  | push {t : T} {v : View α} (issued : Nat) : Turn (.push t) v {v with cbQue := v.cbQue ++ [.stop issued]}
  | pushOther {t : T} {v : View α} (f : α) : Turn (.pushOther t f) v {v with cbQue := v.cbQue ++ [.other f]}
  | stop {t : T} {v : View α} : Turn (.stop t) v v
  | runInLoop {t : T} {v : View α} : Turn (.runInLoop t) v v
  | test {t : T} {v : View α} : Turn (.test t) v v
  | send {t : T} {v : View α} : Turn (.send t) v v

end View

variable {s s' : EventLoop T α}

section
omit [DecidableEq T]

theorem asyncSend_view (a : Async T (Request α)) : a.asyncSend.starting = a.starting ∧ a.asyncSend.handle = a.handle ∧
    a.asyncSend.data = a.data ∧ a.asyncSend.loop = a.loop ∧ a.asyncSend.cbQue = a.cbQue := by
  unfold Async.asyncSend
  split <;> exact ⟨rfl,rfl,rfl,rfl,rfl⟩

theorem looping_view {f : Async T (Request α) → Option (Async T (Request α))} (h : s.looping f = some s') :
    s.view.inUvRun ∧ ∃ a', f s.async = some a' ∧ s' = s.setAsync a' := by
  simp only [looping] at h
  split at h
  · rename_i mode stage
    obtain ⟨a',taken,rfl⟩ := Option.map_eq_some_iff.mp h
    exact ⟨⟨mode,stage⟩,a',taken,rfl⟩
  · cases h

theorem closeAsync_view {issued : Nat} (h : s.closeAsync issued = some s') :
    s.async.handle ≠ .never ∧ s'.view = s.view.close := by
  obtain ⟨a',closed,rfl⟩ := Option.map_eq_some_iff.mp h
  simp only [Async.close] at closed
  split at closed
  · cases closed
  · rename_i made
    cases closed
    exact ⟨made,rfl⟩

end

theorem step_turn {a : Action T α} (h : step s a = some s') : View.Turn a s.view s'.view := by
  cases a with
  | run mode =>
    simp only [step,run,Option.ite_none_right_eq_some] at h
    obtain ⟨⟨outside,_⟩,⟨⟩⟩ := h
    exact .run outside
  | init =>
    simp only [step,init] at h
    split at h
    case h_2 => cases h
    rename_i mode entered
    obtain ⟨a',started,rfl⟩ := Option.map_eq_some_iff.mp h
    simp only [Async.init,Option.ite_none_right_eq_some] at started
    obtain ⟨_,started⟩ := started
    split at started
    · rename_i data
      cases started
      exact .initAgain entered data
    · rename_i data
      cases started
      exact .init entered (Bool.eq_false_iff.mpr data)
  | assign =>
    simp only [step,initialising] at h
    split at h
    case h_2 => cases h
    rename_i mode initialised
    obtain ⟨a',assigned,rfl⟩ := Option.map_eq_some_iff.mp h
    simp only [Async.assign,Option.ite_none_right_eq_some] at assigned
    obtain ⟨starting,⟨⟩⟩ := assigned
    exact .assign initialised starting
  | initSend =>
    simp only [step,initialising] at h
    split at h
    case h_2 => cases h
    rename_i mode initialised
    obtain ⟨a',sent,rfl⟩ := Option.map_eq_some_iff.mp h
    simp only [Async.initSend,Option.ite_none_right_eq_some] at sent
    obtain ⟨starting,⟨⟩⟩ := sent
    obtain ⟨_,handle,data,loop,cbQue⟩ := asyncSend_view s.async
    have turn : View.Turn (T := T) .initSend s.view {s.view with starting := .idle} := .initSend initialised starting
    simpa [view,setAsync,handle,data,loop,cbQue] using turn
  | uvRun t =>
    simp only [step,uvRun] at h
    split at h
    case h_2 => cases h
    rename_i mode initialised
    simp only [Option.ite_none_right_eq_some] at h
    obtain ⟨starting,⟨⟩⟩ := h
    exact .uvRun initialised starting
  | uvCallback =>
    obtain ⟨running,a',called,rfl⟩ := looping_view h
    simp only [Async.uvCallback] at called
    split at called
    case h_2 => cases called
    rename_i idle
    simp only [Option.ite_none_right_eq_some] at called
    obtain ⟨⟨live,_⟩,⟨⟩⟩ := called
    exact .uvCallback running idle live
  | swap =>
    obtain ⟨running,a',swapped,rfl⟩ := looping_view h
    simp only [Async.swap] at swapped
    split at swapped
    case h_2 => cases swapped
    rename_i woken
    cases swapped
    exact .swap running woken
  | runCallback =>
    simp only [step,runCallback] at h
    split at h
    · rename_i issued rest batch
      obtain ⟨s₁,ran,closed⟩ := Option.bind_eq_some_iff.mp h
      obtain ⟨running,a',taken,rfl⟩ := looping_view ran
      simp only [Async.runCallback,batch,Option.some.injEq] at taken
      subst taken
      rw [(closeAsync_view closed).2]
      exact .runStop running batch
    · rename_i other
      obtain ⟨running,a',taken,rfl⟩ := looping_view h
      simp only [Async.runCallback] at taken
      split at taken
      case h_2 => cases taken
      rename_i f rest batch
      cases taken
      cases f with
      | stop issued => exact absurd batch (other issued rest)
      | other f => exact .runOther running batch
  | endBatch =>
    obtain ⟨running,a',ended,rfl⟩ := looping_view h
    simp only [Async.endBatch] at ended
    split at ended
    case h_2 => cases ended
    rename_i batch
    cases ended
    exact .endBatch running batch
  | onAfterClose =>
    obtain ⟨s₁,called,rfl⟩ := Option.map_eq_some_iff.mp h
    obtain ⟨running,a',closed,rfl⟩ := looping_view called
    simp only [Async.onAfterClose] at closed
    split at closed
    case h_2 => cases closed
    rename_i idle
    simp only [Option.ite_none_right_eq_some] at closed
    obtain ⟨closing,⟨⟩⟩ := closed
    exact .onAfterClose running idle closing
  | resetData =>
    obtain ⟨running,a',reset,rfl⟩ := looping_view h
    simp only [Async.resetData] at reset
    split at reset
    case h_2 => cases reset
    rename_i after
    cases reset
    exact .resetData running after
  | leave =>
    simp only [step,leave] at h
    split at h
    case h_2 => cases h
    rename_i mode running idle
    simp only [Option.ite_none_right_eq_some] at h
    obtain ⟨returns,⟨⟩⟩ := h
    exact .leave running idle returns
  | stop t =>
    simp only [step,stop] at h
    split at h
    case h_2 => cases h
    cases h
    split <;> exact .stop
  | runInLoop t =>
    simp only [step,runInLoop] at h
    split at h
    case h_2 => cases h
    cases h
    exact .runInLoop
  | close t =>
    simp only [step,close] at h
    split at h
    case h_2 => cases h
    obtain ⟨s₁,closed,rfl⟩ := Option.map_eq_some_iff.mp h
    obtain ⟨made,same⟩ := closeAsync_view closed
    have turn : View.Turn (.close t) s.view s.view.close := .close made
    rw [← same] at turn
    exact turn
  | push t =>
    simp only [step,push] at h
    split at h
    case h_2 => cases h
    rename_i issued _
    obtain ⟨a',pushed,rfl⟩ := Option.map_eq_some_iff.mp h
    simp only [Async.push,Option.ite_none_right_eq_some] at pushed
    obtain ⟨_,⟨⟩⟩ := pushed
    exact .push issued
  | pushOther t f =>
    obtain ⟨a',pushed,rfl⟩ := Option.map_eq_some_iff.mp h
    simp only [Async.push,Option.ite_none_right_eq_some] at pushed
    obtain ⟨_,⟨⟩⟩ := pushed
    exact .pushOther f
  | test t =>
    obtain ⟨a',tested,rfl⟩ := Option.map_eq_some_iff.mp h
    simp only [Async.test,Option.ite_none_right_eq_some] at tested
    obtain ⟨_,⟨⟩⟩ := tested
    exact .test
  | send t =>
    obtain ⟨a',sent,rfl⟩ := Option.map_eq_some_iff.mp h
    simp only [Async.send,Option.ite_none_right_eq_some] at sent
    obtain ⟨_,⟨⟩⟩ := sent
    obtain ⟨starting,handle,data,loop,cbQue⟩ := asyncSend_view s.async
    have turn : View.Turn (.send t) s.view s.view := .send
    simpa [view,setAsync,starting,handle,data,loop,cbQue] using turn

/-- The queue belongs to a handle that is open, or is to be waited for, from the
initialisation on that a run begins with; only a stop closes it. -/
structure View.Sound (v : View α) : Prop where
  outside : ¬ v.inUvRun → v.loop = .idle ∧ v.stopFlag = false
  starting : v.starting ≠ .idle → ∃ mode, v.stage = .initialised mode
  unset : v.handle = .never ∨ v.handle = .closed ∧ v.loop ≠ .afterClose → v.data = false
  up : (∃ mode, v.stage = .initialised mode) ∨ v.inUvRun →
    v.handle ≠ .never ∧ (v.handle = .closed → v.stopFlag = true)
  flag : v.stopFlag = true → v.handle = .closed
  busy : v.loop.running = true → v.handle ≠ .closed
  after : v.loop = .afterClose → v.handle = .closed

namespace View

variable {v w : View α} {a : Action T α}

/-- uv_close takes an open handle to closing and leaves the others. -/
theorem close_cases (v : View α) : v.close = v ∧ v.handle ≠ .live ∨ v.handle = .live ∧ v.close = {v with handle := .closing} := by
  by_cases live : v.handle = .live
  · exact .inr ⟨live,by simp [close,live]⟩
  · exact .inl ⟨by simp [close,live],live⟩

theorem Sound.close (sound : v.Sound) : v.close.Sound := by
  rcases v.close_cases with ⟨same,_⟩ | ⟨live,closing⟩
  · rw [same]; exact sound
  · rw [closing]
    have unflagged : v.stopFlag = false := by
      by_contra set
      have closed := sound.flag (by simpa using set)
      rw [live] at closed
      cases closed
    refine ⟨sound.outside,sound.starting,by simp,by simp,by simp [unflagged],by simp,fun after => ?_⟩
    have closed := sound.after after
    rw [live] at closed
    cases closed

theorem Sound.goes_on (sound : v.Sound) (running : v.inUvRun) {loop : Async.Loop (Request α)} (before : v.loop ≠ .afterClose)
    (now : loop ≠ .afterClose) (busy : loop.running = true → v.handle ≠ .closed) : ({v with loop := loop} : View α).Sound :=
  ⟨fun outside => absurd running outside,sound.starting,fun gone => sound.unset (gone.imp_right fun closed => ⟨closed.1,before⟩),
    sound.up,sound.flag,busy,fun after => absurd after now⟩

omit [DecidableEq T] in
theorem Sound.turn (sound : v.Sound) (turn : Turn a v w) : w.Sound := by
  have elsewhere {stage : Stage} (here : v.stage = stage) (other : ∀ mode, stage ≠ .looping mode) : ¬ v.inUvRun :=
    fun ⟨mode,running⟩ => other mode (here.symm.trans running)
  cases turn with
  | run outside =>
    have idle := sound.outside (elsewhere outside (by simp))
    refine ⟨fun _ => idle,fun started => ?_,sound.unset,by simp [inUvRun],sound.flag,sound.busy,sound.after⟩
    obtain ⟨mode,initialised⟩ := sound.starting started
    rw [outside] at initialised
    cases initialised
  | @initAgain mode _ entered data =>
    have idle := sound.outside (elsewhere entered (by simp))
    have made : ¬ (v.handle = .never ∨ v.handle = .closed ∧ v.loop ≠ .afterClose) := fun gone => by
      rw [sound.unset gone] at data
      cases data
    rw [idle.1] at made
    refine ⟨fun _ => idle,fun _ => ⟨mode,rfl⟩,sound.unset,fun _ => ⟨fun never => made (.inl never),fun closed => ?_⟩,
      sound.flag,sound.busy,sound.after⟩
    exact absurd (.inr ⟨closed,by simp⟩) made
  | @init mode _ entered data =>
    obtain ⟨idle,unflagged⟩ := sound.outside (elsewhere entered (by simp))
    refine ⟨fun _ => ⟨idle,unflagged⟩,fun _ => ⟨mode,rfl⟩,by simp,by simp,by simp [unflagged],by simp,by simp [idle]⟩
  | assign initialised starting =>
    obtain ⟨idle,unflagged⟩ := sound.outside (elsewhere initialised (by simp))
    obtain ⟨made,open_⟩ := sound.up (.inl ⟨_,initialised⟩)
    refine ⟨sound.outside,fun _ => ⟨_,initialised⟩,fun gone => ?_,sound.up,sound.flag,sound.busy,sound.after⟩
    rcases gone with never | ⟨closed,_⟩
    · exact absurd never made
    · have flagged := open_ closed
      rw [unflagged] at flagged
      cases flagged
  | initSend => exact ⟨sound.outside,by simp,sound.unset,sound.up,sound.flag,sound.busy,sound.after⟩
  | @uvRun _ mode _ initialised starting =>
    have running (outside : ¬ ({v with stage := .looping mode} : View α).inUvRun) : False := outside ⟨mode,rfl⟩
    exact ⟨fun outside => (running outside).elim,fun started => absurd starting started,sound.unset,
      fun _ => sound.up (.inl ⟨mode,initialised⟩),sound.flag,sound.busy,sound.after⟩
  | uvCallback running idle live =>
    refine sound.goes_on running (by simp [idle]) ?_ (by simp [live])
    cases v.data <;> simp
  | swap running woken =>
    have busy := sound.busy (by simp [woken,Async.Loop.running])
    have next : ({v with loop := .batch v.cbQue} : View α).Sound :=
      sound.goes_on running (by simp [woken]) (by simp) fun _ => busy
    exact ⟨next.outside,next.starting,next.unset,next.up,next.flag,next.busy,next.after⟩
  | runOther running batch =>
    exact sound.goes_on running (by simp [batch]) (by simp) fun _ => sound.busy (by simp [batch,Async.Loop.running])
  | runStop running batch =>
    exact (sound.goes_on running (by simp [batch]) (by simp) fun _ => sound.busy (by simp [batch,Async.Loop.running])).close
  | endBatch running batch => exact sound.goes_on running (by simp [batch]) (by simp) (by simp [Async.Loop.running])
  | onAfterClose running idle closing =>
    exact ⟨fun outside => absurd running outside,sound.starting,by simp,by simp,by simp,by simp [Async.Loop.running],by simp⟩
  | resetData running after =>
    exact ⟨fun outside => absurd running outside,sound.starting,fun _ => rfl,sound.up,sound.flag,
      by simp [Async.Loop.running],by simp⟩
  | leave running idle _ =>
    refine ⟨fun _ => ⟨idle,rfl⟩,fun started => ?_,sound.unset,by simp [inUvRun],by simp,sound.busy,sound.after⟩
    obtain ⟨mode,initialised⟩ := sound.starting started
    rw [running] at initialised
    cases initialised
  | close _ => exact sound.close
  | push _ | pushOther _ =>
    exact ⟨sound.outside,sound.starting,sound.unset,sound.up,sound.flag,sound.busy,sound.after⟩
  | stop | runInLoop | test | send => exact sound

theorem stops_append_ne {queue : List (Request α)} (some_left : stops queue ≠ []) (more : List (Request α)) :
    stops (queue ++ more) ≠ [] := by
  rw [stops,List.filterMap_append]
  exact List.append_ne_nil_of_left_ne_nil some_left _

/-- An open handle with nothing to stop in the batch has it in the queue. -/
theorem Asked.queued (asked : v.Asked) (live : v.handle = .live) (none_taken : stops v.loop.tmpCallbacks = []) :
    stops v.cbQue ≠ [] := by
  rcases asked with gone | queued | taken
  · exact absurd live gone
  · exact queued
  · exact absurd none_taken taken

/-- A handle in uv_run that is not open is being closed while a batch is there. -/
theorem Sound.closing (sound : v.Sound) (running : v.inUvRun) (busy : v.loop.running = true) (gone : v.handle ≠ .live) :
    v.handle = .closing := by
  cases handle : v.handle with
  | live => exact absurd handle gone
  | closing => rfl
  | never => exact absurd handle (sound.up (.inr running)).1
  | closed => exact absurd handle (sound.busy busy)

/-- Closing an open handle does not put off the end. -/
theorem close_weight (sound : v.Sound) : v.close.Asked ∧ v.close.weight ≤ v.weight := by
  rcases v.close_cases with ⟨same,gone⟩ | ⟨live,closing⟩
  · rw [same]
    exact ⟨.inl gone,Nat.le_refl _⟩
  · rw [closing]
    refine ⟨.inl (by simp),?_⟩
    simp only [weight,live]
    split
    · cases loop : v.loop with
      | afterClose =>
        have closed := sound.after loop
        rw [live] at closed
        cases closed
      | _ => simp only [toEnd,toBatch]; omega
    · exact Nat.le_refl _

/-- A callback in the queue puts it off by one step at most. -/
theorem push_weight (asked : v.Asked) (f : Request α) :
    ({v with cbQue := v.cbQue ++ [f]} : View α).Asked ∧
      ({v with cbQue := v.cbQue ++ [f]} : View α).weight ≤ v.weight + 1 := by
  refine ⟨asked.imp_right fun some_left => some_left.imp_left fun queued => stops_append_ne queued [f],?_⟩
  have later (loop : Async.Loop (Request α)) :
      toBatch (v.cbQue.length + 1) loop ≤ toBatch v.cbQue.length loop + 1 ∧
        toEnd (v.cbQue.length + 1) loop ≤ toEnd v.cbQue.length loop + 1 := by
    cases loop <;> simp only [toBatch,toEnd] <;> omega
  simp only [weight,List.length_append,List.length_singleton]
  cases v.handle with
  | live =>
    simp only
    split
    · exact (later v.loop).1
    · exact (later v.loop).2
  | closing => exact (later v.loop).2
  | never | closed => exact Nat.le_succ _

section
omit [DecidableEq T]

/-- Until uv_run returns, each step of the loop leaves it one fewer, and only callbacks that
are pushed bring in more. -/
theorem turn_weight {mode : Mode} (sound : v.Sound) (running : v.stage = .looping mode) (asked : v.Asked)
    (set : v.handle = .live → v.data = true) (turn : Turn a v w) (stays : a ≠ .leave) :
    w.stage = v.stage ∧ w.Asked ∧ w.weight + a.cost ≤ v.weight + a.gain := by
  cases turn with
  | run here | initAgain here _ | init here _ | assign here _ | initSend here _ | uvRun here _ =>
    rw [running] at here
    cases here
  | leave => exact absurd rfl stays
  | stop | runInLoop | test | send => exact ⟨rfl,asked,Nat.le_refl _⟩
  | push issued => exact ⟨rfl,push_weight asked (.stop issued)⟩
  | pushOther f => exact ⟨rfl,push_weight asked (.other f)⟩
  | close _ =>
    refine ⟨rfl,close_weight sound⟩
  | uvCallback _ idle live =>
    have queued := asked.queued live (by rw [idle]; rfl)
    refine ⟨rfl,.inr (.inl queued),?_⟩
    simp [weight,live,set live,idle,Async.Loop.tmpCallbacks,stops,toBatch,Action.cost,Action.gain]
  | swap here woken =>
    by_cases live : v.handle = .live
    · have queued := asked.queued live (by rw [woken]; rfl)
      refine ⟨rfl,.inr (.inr queued),?_⟩
      simp [weight,live,woken,Async.Loop.tmpCallbacks,queued,toBatch,toEnd,Action.cost,Action.gain]
    · have closing := sound.closing here (by rw [woken]; rfl) live
      refine ⟨rfl,.inl live,?_⟩
      simp [weight,closing,woken,toEnd,Action.cost,Action.gain]
  | @runOther _ f rest here batch =>
    have same : stops (.other f :: rest) = stops rest := rfl
    by_cases live : v.handle = .live
    · refine ⟨rfl,?_,?_⟩
      · simpa [Asked,batch,Async.Loop.tmpCallbacks,same] using asked
      · simp only [weight,live,batch,Async.Loop.tmpCallbacks,same,Action.cost,Action.gain]
        by_cases none_left : stops rest = []
        · simp only [none_left,if_true,toBatch,List.length_cons]
          omega
        · simp only [none_left,if_false,toEnd,List.length_cons]
          omega
    · have closing := sound.closing here (by rw [batch]; rfl) live
      refine ⟨rfl,.inl live,?_⟩
      simp only [weight,closing,batch,toEnd,List.length_cons,Action.cost,Action.gain]
      omega
  | @runStop _ issued rest here batch =>
    have some_left : stops (.stop issued :: rest) ≠ [] := by simp [stops,Request.issued?]
    rcases View.close_cases {v with loop := .batch rest} with ⟨same,gone⟩ | ⟨live,same⟩
    · have closing := sound.closing here (by rw [batch]; rfl) gone
      rw [same]
      refine ⟨rfl,.inl gone,?_⟩
      simp only [weight,closing,batch,toEnd,List.length_cons,Action.cost,Action.gain]
      omega
    · have live : v.handle = .live := live
      rw [same]
      refine ⟨rfl,.inl (by simp),?_⟩
      simp only [weight,live,batch,Async.Loop.tmpCallbacks,if_neg some_left,toEnd,List.length_cons,Action.cost,Action.gain]
      omega
  | endBatch here batch =>
    by_cases live : v.handle = .live
    · have queued := asked.queued live (by rw [batch]; rfl)
      refine ⟨rfl,.inr (.inl queued),?_⟩
      simp [weight,live,batch,Async.Loop.tmpCallbacks,stops,toBatch,Action.cost,Action.gain]
    · have closing := sound.closing here (by rw [batch]; rfl) live
      refine ⟨rfl,.inl live,?_⟩
      simp [weight,closing,batch,toEnd,Action.cost,Action.gain]
  | onAfterClose here idle closing =>
    refine ⟨rfl,.inl (by simp),?_⟩
    simp [weight,closing,idle,toEnd,Action.cost,Action.gain]
  | resetData here after =>
    have closed := sound.after after
    refine ⟨rfl,.inl (by simp [closed]),?_⟩
    simp [weight,closed,after,Action.cost,Action.gain]

theorem make_sound : (make : EventLoop T α).view.Sound := by
  constructor <;> simp [EventLoop.make,Async.make,view,inUvRun,Async.Loop.running]

/-- A stop() that hands over its request asks the loop to stop. -/
theorem turn_handed {t : T} (sound : v.Sound) (turn : Turn (.push t) v w ∨ Turn (.close t) v w) :
    w.stage = v.stage ∧ w.Asked := by
  rcases turn with turn | turn
  · cases turn with
    | push issued => exact ⟨rfl,.inr (.inl (by simp [stops,Request.issued?]))⟩
  · cases turn with
    | close _ => exact ⟨rfl,(close_weight sound).1⟩

end

theorem weight_le (v : View α) : v.weight ≤ v.loop.tmpCallbacks.length + v.cbQue.length + 7 := by
  have ends : toEnd v.cbQue.length v.loop ≤ v.loop.tmpCallbacks.length + v.cbQue.length + 7 := by
    cases v.loop <;> simp only [toEnd,Async.Loop.tmpCallbacks] <;> omega
  have starts : toBatch v.cbQue.length v.loop ≤ v.loop.tmpCallbacks.length + v.cbQue.length + 7 := by
    cases v.loop <;> simp only [toBatch,Async.Loop.tmpCallbacks] <;> omega
  unfold weight
  split
  · split
    · exact starts
    · exact ends
  · exact ends
  · split <;> omega

end View

/-- The callback queue's own invariant: all that EventLoop does to it are its operations. -/
theorem step_async {a : Action T α} (inv : s.async.Inv) (h : step s a = some s') : s'.async.Inv := by
  have init_part {f : Async T (Request α) → Option (Async T (Request α))} (kept : ∀ a', f s.async = some a' → a'.Inv)
      (h : s.initialising f = some s') : s'.async.Inv := by
    simp only [initialising] at h
    split at h
    case h_2 => cases h
    obtain ⟨a',taken,rfl⟩ := Option.map_eq_some_iff.mp h
    exact kept a' taken
  have loop_part {f : Async T (Request α) → Option (Async T (Request α))} (kept : ∀ a', f s.async = some a' → a'.Inv)
      (h : s.looping f = some s') : s'.async.Inv := by
    obtain ⟨_,a',taken,rfl⟩ := looping_view h
    exact kept a' taken
  have caller_part {b : Option (Async T (Request α))} (kept : ∀ a', b = some a' → a'.Inv)
      (h : b.map s.setAsync = some s') : s'.async.Inv := by
    obtain ⟨a',taken,rfl⟩ := Option.map_eq_some_iff.mp h
    exact kept a' taken
  cases a with
  | run mode =>
    simp only [step,run,Option.ite_none_right_eq_some] at h
    obtain ⟨_,⟨⟩⟩ := h
    exact inv
  | init =>
    simp only [step,init] at h
    split at h
    case h_2 => cases h
    obtain ⟨a',started,rfl⟩ := Option.map_eq_some_iff.mp h
    exact Async.init_inv inv started
  | assign => exact init_part (fun _ taken => Async.assign_inv inv taken) h
  | initSend => exact init_part (fun _ taken => Async.initSend_inv inv taken) h
  | uvRun t =>
    simp only [step,uvRun] at h
    split at h
    case h_2 => cases h
    simp only [Option.ite_none_right_eq_some] at h
    obtain ⟨_,⟨⟩⟩ := h
    exact ⟨inv.order,inv.unassigned,inv.closed,inv.reason⟩
  | uvCallback => exact loop_part (fun _ taken => Async.uvCallback_inv inv taken) h
  | swap => exact loop_part (fun _ taken => Async.swap_inv inv taken) h
  | runCallback =>
    simp only [step,runCallback] at h
    split at h
    · obtain ⟨s₁,ran,closed⟩ := Option.bind_eq_some_iff.mp h
      obtain ⟨_,a',taken,rfl⟩ := looping_view ran
      obtain ⟨a'',closing,rfl⟩ := Option.map_eq_some_iff.mp closed
      exact Async.close_inv (Async.runCallback_inv inv taken) closing
    · exact loop_part (fun _ taken => Async.runCallback_inv inv taken) h
  | endBatch => exact loop_part (fun _ taken => Async.endBatch_inv inv taken) h
  | onAfterClose =>
    obtain ⟨s₁,called,rfl⟩ := Option.map_eq_some_iff.mp h
    obtain ⟨_,a',taken,rfl⟩ := looping_view called
    exact Async.onAfterClose_inv inv taken
  | resetData => exact loop_part (fun _ taken => Async.resetData_inv inv taken) h
  | leave =>
    simp only [step,leave] at h
    split at h
    case h_2 => cases h
    simp only [Option.ite_none_right_eq_some] at h
    obtain ⟨_,⟨⟩⟩ := h
    exact ⟨inv.order,inv.unassigned,inv.closed,inv.reason⟩
  | stop t =>
    simp only [step,stop] at h
    split at h
    case h_2 => cases h
    cases h
    split <;> exact inv
  | runInLoop t =>
    simp only [step,runInLoop] at h
    split at h
    case h_2 => cases h
    cases h
    exact inv
  | close t =>
    simp only [step,close] at h
    split at h
    case h_2 => cases h
    obtain ⟨s₁,closed,rfl⟩ := Option.map_eq_some_iff.mp h
    obtain ⟨a',closing,rfl⟩ := Option.map_eq_some_iff.mp closed
    exact Async.close_inv inv closing
  | push t =>
    simp only [step,push] at h
    split at h
    case h_2 => cases h
    obtain ⟨a',pushed,rfl⟩ := Option.map_eq_some_iff.mp h
    exact Async.push_inv inv pushed
  | pushOther t f => exact caller_part (fun _ taken => Async.push_inv inv taken) h
  | test t => exact caller_part (fun _ taken => Async.test_inv inv taken) h
  | send t => exact caller_part (fun _ taken => Async.send_inv inv taken) h

/-- A loop in uv_run that has been asked to stop, in a state that a run can reach. -/
structure Ending (s : EventLoop T α) : Prop where
  async : s.async.Inv
  sound : s.view.Sound
  running : s.view.inUvRun
  asked : s.view.Asked

omit [DecidableEq T] in
theorem Ending.set (ending : s.Ending) (live : s.async.handle = .live) : s.async.data = true := by
  by_contra unset
  have initialised := ending.async.unassigned (by simpa using unset) (.inl live)
  obtain ⟨mode,stage⟩ := ending.sound.starting (by simp [view,initialised])
  obtain ⟨mode',running⟩ := ending.running
  rw [stage] at running
  cases running

theorem Ending.goes_on {a : Action T α} (ending : s.Ending) (stays : a ≠ .leave) (taken : step s a = some s') :
    s'.Ending ∧ s'.view.weight + a.cost ≤ s.view.weight + a.gain := by
  obtain ⟨mode,running⟩ := ending.running
  obtain ⟨stage,asked,paid⟩ := View.turn_weight ending.sound running ending.asked ending.set (step_turn taken) stays
  exact ⟨⟨step_async ending.async taken,ending.sound.turn (step_turn taken),⟨mode,stage.trans running⟩,asked⟩,paid⟩

/-- A caller that has pushed and is to wake the loop. -/
def Action.wakes (a : Action T α) : Prop := ∃ t, a = .test t ∨ a = .send t

/-- Somebody can always go on: the loop, or after a caller has woken it. -/
theorem Ending.advances (ending : s.Ending) : ∃ (front : List (Action T α)) (a : Action T α) (s' : EventLoop T α),
    (∀ b ∈ front, b.wakes) ∧ (a.cost = 1 ∨ a = .leave) ∧ Transition.run step s (front ++ [a]) = some s' := by
  have after (front : List (Action T α)) {a : Action T α} (wakes : ∀ b ∈ front, b.wakes) (kind : a.cost = 1 ∨ a = .leave)
      (enabled : (Transition.run step s (front ++ [a])).isSome) :
      ∃ (front : List (Action T α)) (a : Action T α) (s' : EventLoop T α),
        (∀ b ∈ front, b.wakes) ∧ (a.cost = 1 ∨ a = .leave) ∧ Transition.run step s (front ++ [a]) = some s' := by
    obtain ⟨s',run⟩ := Option.isSome_iff_exists.mp enabled
    exact ⟨front,a,s',wakes,kind,run⟩
  -- the loop goes on by itself
  have alone {a : Action T α} (kind : a.cost = 1 ∨ a = .leave) (enabled : (step s a).isSome) :
      ∃ (front : List (Action T α)) (a : Action T α) (s' : EventLoop T α),
        (∀ b ∈ front, b.wakes) ∧ (a.cost = 1 ∨ a = .leave) ∧ Transition.run step s (front ++ [a]) = some s' := by
    obtain ⟨s',taken⟩ := Option.isSome_iff_exists.mp enabled
    exact after [] (by simp) kind (by simp [Transition.run,taken])
  obtain ⟨mode,stage⟩ := ending.running
  have stage : s.stage = .looping mode := stage
  cases loop : s.async.loop with
  | woken => exact alone (a := .swap) (.inl rfl) (by simp [step,looping,stage,Async.swap,loop])
  | batch b =>
    cases b with
    | nil => exact alone (a := .endBatch) (.inl rfl) (by simp [step,looping,stage,Async.endBatch,loop])
    | cons f rest =>
      have made : s.async.handle ≠ .never := (ending.sound.up (.inr ending.running)).1
      refine alone (a := .runCallback) (.inl rfl) ?_
      cases f <;> simp [step,runCallback,looping,stage,Async.runCallback,loop,closeAsync,setAsync,Async.close,made]
  | afterClose => exact alone (a := .resetData) (.inl rfl) (by simp [step,looping,stage,Async.resetData,loop])
  | idle =>
    cases handle : s.async.handle with
    | never => exact absurd handle (ending.sound.up (.inr ending.running)).1
    | closing =>
      exact alone (a := .onAfterClose) (.inl rfl)
        (by simp [step,onAfterClose,looping,stage,Async.onAfterClose,loop,handle])
    | closed =>
      have flag : s.stopFlag = true := (ending.sound.up (.inr ending.running)).2 handle
      exact alone (a := .leave) (.inr rfl) (by simp [step,leave,stage,loop,flag])
    | live =>
      have queued : s.async.cbQue ≠ [] := by
        intro none_left
        have some_stops := ending.asked.queued handle (by simp [view,loop,Async.Loop.tmpCallbacks,stops])
        simp [view,none_left,stops] at some_stops
      have data := ending.set handle
      rcases ending.async.reason handle queued with pending | woken | ⟨t,busy⟩ | starting
      · exact alone (a := .uvCallback) (.inl rfl) (by simp [step,looping,stage,Async.uvCallback,loop,handle,pending])
      · rw [loop] at woken
        cases woken
      · cases caller : s.async.callers t with
        | idle => exact absurd caller busy
        | pushed =>
          refine after [.test t,.send t] (a := .uvCallback) (by simp [Action.wakes]) (.inl rfl) ?_
          simp [Transition.run,step,Async.test,Async.send,Async.asyncSend,caller,data,handle,looping,setAsync,stage,
            Async.uvCallback,loop]
        | sending =>
          refine after [.send t] (a := .uvCallback) (by simp [Action.wakes]) (.inl rfl) ?_
          simp [Transition.run,step,Async.send,Async.asyncSend,caller,data,handle,looping,setAsync,stage,
            Async.uvCallback,loop]
      · obtain ⟨mode',initialised⟩ := ending.sound.starting starting
        have initialised : s.stage = .initialised mode' := initialised
        rw [stage] at initialised
        cases initialised

theorem Ending.enabled (ending : s.Ending) :
    ∃ a : Action T α, (a.cost = 1 ∨ a = .leave ∨ a.wakes) ∧ (step s a).isSome := by
  obtain ⟨front,a,s',wakes,kind,run⟩ := ending.advances
  cases front with
  | nil =>
    obtain ⟨t,taken,_⟩ := Transition.run_cons_some run
    exact ⟨a,kind.imp_right .inl,by simp [taken]⟩
  | cons b rest =>
    obtain ⟨t,taken,_⟩ := Transition.run_cons_some run
    exact ⟨b,.inr (.inr (wakes b List.mem_cons_self)),by simp [taken]⟩

structure Reached (s : EventLoop T α) : Prop where
  async : s.async.Inv
  sound : s.view.Sound

theorem Reached.step {a : Action T α} (reached : s.Reached) (taken : EventLoop.step s a = some s') : s'.Reached :=
  ⟨step_async reached.async taken,reached.sound.turn (step_turn taken)⟩

theorem Reached.run {actions : List (Action T α)} (reached : s.Reached)
    (run : Transition.run EventLoop.step s actions = some s') : s'.Reached :=
  Transition.run_invariant_all (fun _ _ _ reached taken => reached.step taken) reached run

omit [DecidableEq T] in
theorem make_reached : (make : EventLoop T α).Reached := ⟨Async.make_inv,View.make_sound⟩

theorem Reached.handed {t : T} {mode : Mode} (reached : s.Reached) (running : s.stage = .looping mode)
    (handed : EventLoop.step s (.push t) = some s' ∨ EventLoop.step s (.close t) = some s') : s'.Ending := by
  obtain ⟨stage,asked⟩ := View.turn_handed reached.sound (handed.imp step_turn step_turn)
  have there : s'.Reached := handed.elim reached.step reached.step
  exact ⟨there.async,there.sound,⟨mode,stage.trans running⟩,asked⟩

/-- A stop() that hands its request over while the loop is in uv_run stops it, whatever the
other threads do: the loop takes no more steps than it had callbacks in hand, and pushed
since, and seven; and as long as it has not left, somebody can go on. -/
theorem stop_ends (actions : List (Action T α)) (s s' : EventLoop T α) (t : T) (mode : Mode)
    (run : Transition.run step make actions = some s) (running : s.stage = .looping mode)
    (handed : step s (.push t) = some s' ∨ step s (.close t) = some s')
    (later : List (Action T α)) (u : EventLoop T α) (goes_on : Transition.run step s' later = some u)
    (stays : .leave ∉ later) :
    (later.map Action.cost).sum ≤
      s'.async.loop.tmpCallbacks.length + s'.async.cbQue.length + 7 + (later.map Action.gain).sum ∧
    ∃ a : Action T α, (a.cost = 1 ∨ a = .leave ∨ a.wakes) ∧ (step u a).isSome := by
  have ending := (make_reached.run run).handed running handed
  have kinds : ∀ a ∈ later, a ≠ .leave := fun a member same => stays (same ▸ member)
  have budget := Transition.run_budget (I := Ending (T := T) (α := α))
    (fun _ _ _ ending other taken => ending.goes_on other taken) ending kinds goes_on
  have paid : u.view.weight + (later.map Action.cost).sum ≤ s'.view.weight + (later.map Action.gain).sum := budget.2
  refine ⟨?_,budget.1.enabled⟩
  have bound : s'.view.weight ≤ s'.async.loop.tmpCallbacks.length + s'.async.cbQue.length + 7 := s'.view.weight_le
  omega

def behindCallback : List (Action Bool Unit) :=
  [.run .default,.init,.assign,.initSend,.uvRun false,.pushOther true (),.test true,.send true,.stop true,.runInLoop true]

def closing : List (Action Bool Unit) := [.uvCallback,.swap,.test true,.runCallback,.runCallback]

theorem stop_ends_behindCallback : ∃ s' u : EventLoop Bool Unit, Transition.run step s' closing = some u ∧
    (closing.map Action.cost).sum ≤
      s'.async.loop.tmpCallbacks.length + s'.async.cbQue.length + 7 + (closing.map Action.gain).sum ∧
    ∃ a : Action Bool Unit, (a.cost = 1 ∨ a = .leave ∨ a.wakes) ∧ (step u a).isSome := by
  obtain ⟨s,run,seen⟩ := (Option.any_eq_true _ _).mp
    (show (Transition.run step make behindCallback).any (fun s => decide (s.stage = .looping .default) &&
      (step s (.push true)).any fun s' => (Transition.run step s' closing).isSome) by decide +kernel)
  rw [Bool.and_eq_true,decide_eq_true_eq] at seen
  obtain ⟨s',pushed,goes_on⟩ := (Option.any_eq_true _ _).mp seen.2
  obtain ⟨u,goes_on⟩ := Option.isSome_iff_exists.mp goes_on
  exact ⟨s',u,goes_on,stop_ends behindCallback s s' true .default run seen.1 (.inl pushed) closing u goes_on (by decide)⟩

/-! Whether the loop ends at all. -/

/-- Only the steps of stop() change where the calls of it are. -/
theorem step_stopping {a : Action T α} (taken : step s a = some s') :
    s'.stopping = s.stopping ∨ ∃ t, a = .stop t ∨ a = .runInLoop t ∨ a = .close t ∨ a = .push t := by
  have looped {f : Async T (Request α) → Option (Async T (Request α))} (taken : s.looping f = some s') :
      s'.stopping = s.stopping := by
    obtain ⟨_,a',_,rfl⟩ := looping_view taken
    rfl
  have started {f : Async T (Request α) → Option (Async T (Request α))} (taken : s.initialising f = some s') :
      s'.stopping = s.stopping := by
    simp only [initialising] at taken
    split at taken
    case h_2 => cases taken
    obtain ⟨a',_,rfl⟩ := Option.map_eq_some_iff.mp taken
    rfl
  have called {b : Option (Async T (Request α))} (taken : b.map s.setAsync = some s') : s'.stopping = s.stopping := by
    obtain ⟨a',_,rfl⟩ := Option.map_eq_some_iff.mp taken
    rfl
  cases a with
  | stop t | runInLoop t | close t | push t => exact .inr ⟨t,by simp⟩
  | assign | initSend => exact .inl (started taken)
  | uvCallback | swap | endBatch | resetData => exact .inl (looped taken)
  | pushOther t f => exact .inl (called (b := s.async.push t (.other f)) taken)
  | test t => exact .inl (called (b := s.async.test t) taken)
  | send t => exact .inl (called (b := s.async.send t) taken)
  | run mode =>
    simp only [step,run,Option.ite_none_right_eq_some] at taken
    obtain ⟨_,⟨⟩⟩ := taken
    exact .inl rfl
  | init =>
    simp only [step,init] at taken
    split at taken
    case h_2 => cases taken
    obtain ⟨a',_,rfl⟩ := Option.map_eq_some_iff.mp taken
    exact .inl rfl
  | uvRun t =>
    simp only [step,uvRun] at taken
    split at taken
    case h_2 => cases taken
    simp only [Option.ite_none_right_eq_some] at taken
    obtain ⟨_,⟨⟩⟩ := taken
    exact .inl rfl
  | runCallback =>
    simp only [step,runCallback] at taken
    split at taken
    · obtain ⟨s₁,ran,closed⟩ := Option.bind_eq_some_iff.mp taken
      obtain ⟨_,a',_,rfl⟩ := looping_view ran
      obtain ⟨a'',_,rfl⟩ := Option.map_eq_some_iff.mp closed
      exact .inl rfl
    · exact .inl (looped taken)
  | onAfterClose =>
    obtain ⟨s₁,closed,rfl⟩ := Option.map_eq_some_iff.mp taken
    obtain ⟨_,a',_,rfl⟩ := looping_view closed
    exact .inl rfl
  | leave =>
    simp only [step,leave] at taken
    split at taken
    case h_2 => cases taken
    simp only [Option.ite_none_right_eq_some] at taken
    obtain ⟨_,⟨⟩⟩ := taken
    exact .inl rfl

/-- A loop in run() that waits for callbacks and has not been asked to stop. -/
structure View.Waits (v : View α) : Prop where
  running : v.stage = .looping .default
  live : v.handle = .live
  queue : stops v.cbQue = []
  batch : stops v.loop.tmpCallbacks = []

omit [DecidableEq T] in
theorem View.Waits.turn {v w : View α} {a : Action T α} (waits : v.Waits) (sound : v.Sound) (turn : Turn a v w)
    (no_push : ∀ t, a ≠ .push t) (no_close : ∀ t, a ≠ .close t) : w.Waits ∧ a ≠ .leave := by
  have running := waits.running
  have live := waits.live
  cases turn with
  | run here | initAgain here _ | init here _ | assign here _ | initSend here _ | uvRun here _ =>
    rw [running] at here
    cases here
  | stop | runInLoop | test | send => exact ⟨waits,by simp⟩
  | push _ => exact absurd rfl (no_push _)
  | close _ => exact absurd rfl (no_close _)
  | pushOther f =>
    refine ⟨⟨running,live,?_,waits.batch⟩,by simp⟩
    rw [stops,List.filterMap_append]
    exact (List.append_nil _).trans waits.queue
  | uvCallback _ _ _ => exact ⟨⟨running,live,waits.queue,by cases v.data <;> rfl⟩,by simp⟩
  | swap _ _ => exact ⟨⟨running,live,rfl,waits.queue⟩,by simp⟩
  | runOther _ batch =>
    have before := waits.batch
    rw [batch] at before
    exact ⟨⟨running,live,waits.queue,before⟩,by simp⟩
  | runStop _ batch =>
    have before := waits.batch
    rw [batch] at before
    cases before
  | endBatch _ _ => exact ⟨⟨running,live,waits.queue,rfl⟩,by simp⟩
  | onAfterClose _ _ closing =>
    rw [live] at closing
    cases closing
  | resetData _ after =>
    have closed := sound.after after
    rw [live] at closed
    cases closed
  | leave here _ returns =>
    rw [running] at here
    cases here
    rcases returns with noWait | flagged
    · cases noWait
    · have closed := sound.flag flagged
      rw [live] at closed
      cases closed

/-- Nor has a stop() passed its check. -/
structure Unasked (s : EventLoop T α) : Prop where
  sound : s.view.Sound
  waits : s.view.Waits
  idle : ∀ t, s.stopping t = .idle

theorem Unasked.goes_on {a : Action T α} (unasked : s.Unasked) (others : ∀ t, a ≠ .stop t) (taken : step s a = some s') :
    s'.Unasked ∧ a ≠ .leave := by
  have idle := unasked.idle
  have none_of {t : T} (a : Action T α) (h : a = .runInLoop t ∨ a = .close t ∨ a = .push t) : step s a = none := by
    rcases h with rfl | rfl | rfl <;> simp [step,runInLoop,close,push,idle t]
  rcases step_stopping taken with same | ⟨t,stop | rest⟩
  · have turn := step_turn taken
    obtain ⟨waits,stays⟩ := unasked.waits.turn unasked.sound turn
      (fun t same => by rw [none_of a (.inr (.inr same))] at taken; cases taken)
      (fun t same => by rw [none_of a (.inr (.inl same))] at taken; cases taken)
    exact ⟨⟨unasked.sound.turn turn,waits,fun t => by rw [same]; exact idle t⟩,stays⟩
  · exact absurd stop (others t)
  · rw [none_of a rest] at taken
    cases taken

/-- Until another stop() is called it goes on waiting. -/
theorem Unasked.stays {later : List (Action T α)} {u : EventLoop T α} (unasked : s.Unasked)
    (others : ∀ t, .stop t ∉ later) (goes_on : Transition.run step s later = some u) : .leave ∉ later := by
  induction later generalizing s with
  | nil => exact List.not_mem_nil
  | cons a rest ih =>
    obtain ⟨s',taken,after⟩ := Transition.run_cons_some goes_on
    obtain ⟨kept,other⟩ := unasked.goes_on (fun t same => others t (same ▸ List.mem_cons_self)) taken
    refine fun member => ?_
    rcases List.mem_cons.mp member with same | there
    · exact other same.symm
    · exact ih kept (fun t member => others t (List.mem_cons_of_mem _ member)) after there

omit [DecidableEq T] in
theorem Action.wakes.free {a : Action T α} (wakes : a.wakes) : a.cost = 0 ∧ a.gain = 0 ∧ a ≠ .leave ∧ ∀ t, a ≠ .stop t := by
  obtain ⟨t,rfl | rfl⟩ := wakes <;> simp [Action.cost,Action.gain]

omit [DecidableEq T] in
theorem Action.gain_of_cost {a : Action T α} (cost : a.cost = 1) : a.gain = 0 ∧ a ≠ .leave ∧ ∀ t, a ≠ .stop t := by
  cases a <;> simp_all [Action.cost,Action.gain]

/-- Callers that wake the loop leave its remaining steps as they are. -/
theorem Ending.woken {front : List (Action T α)} (ending : s.Ending) (wakes : ∀ b ∈ front, b.wakes)
    (run : Transition.run step s front = some s') : s'.Ending ∧ s'.view.weight ≤ s.view.weight := by
  induction front generalizing s with
  | nil => cases run; exact ⟨ending,Nat.le_refl _⟩
  | cons b rest ih =>
    obtain ⟨m,taken,later⟩ := Transition.run_cons_some run
    obtain ⟨cost,gain,stays,_⟩ := (wakes b List.mem_cons_self).free
    obtain ⟨kept,paid⟩ := ending.goes_on stays taken
    obtain ⟨reached,less⟩ := ih kept (fun c member => wakes c (List.mem_cons_of_mem _ member)) later
    exact ⟨reached,by omega⟩

/-- A loop that has been asked comes to its end without another stop(). -/
theorem Ending.finishes (ending : s.Ending) : ∃ (later : List (Action T α)) (u : EventLoop T α),
    (∀ t, .stop t ∉ later) ∧ .leave ∈ later ∧ Transition.run step s later = some u := by
  induction size : s.view.weight using Nat.strong_induction_on generalizing s with
  | _ n ih =>
    subst size
    obtain ⟨front,a,s',wakes,kind,run⟩ := ending.advances
    rw [Transition.run_append] at run
    obtain ⟨m,woken,taken⟩ := Option.bind_eq_some_iff.mp run
    obtain ⟨s'',taken,same⟩ := Transition.run_cons_some taken
    cases same
    have no_stop (t : T) (b : Action T α) (member : b ∈ front) : b ≠ .stop t := (wakes b member).free.2.2.2 t
    obtain ⟨still,less⟩ := ending.woken wakes woken
    rcases kind with cost | rfl
    · obtain ⟨gain,stays,other⟩ := Action.gain_of_cost cost
      obtain ⟨kept,paid⟩ := still.goes_on stays taken
      obtain ⟨later,u,none_stops,leaves,goes_on⟩ := ih s'.view.weight (by omega) kept rfl
      refine ⟨front ++ a :: later,u,fun t member => ?_,by simp [leaves],?_⟩
      · rcases List.mem_append.mp member with before | after
        · exact no_stop t _ before rfl
        · rcases List.mem_cons.mp after with same | there
          · exact other t same.symm
          · exact none_stops t there
      · simp [Transition.run_append,woken,Transition.run_cons,taken,goes_on]
    · refine ⟨front ++ [.leave],s',fun t member => ?_,by simp,by simp [Transition.run_append,woken,Transition.run,taken]⟩
      rcases List.mem_append.mp member with before | after
      · exact no_stop t _ before rfl
      · simp at after

/-- A thread can finish the wake-up of an earlier push. -/
theorem frees_caller (s : EventLoop T α) (t : T) : ∃ (front : List (Action T α)) (s' : EventLoop T α),
    (∀ b ∈ front, b.wakes) ∧ Transition.run step s front = some s' ∧ s'.async.callers t = .idle ∧
      s'.stage = s.stage ∧ s'.stopping = s.stopping := by
  have send {s : EventLoop T α} (caller : s.async.callers t = .sending) : ∃ s' : EventLoop T α,
      step s (.send t) = some s' ∧ s'.async.callers t = .idle ∧ s'.stage = s.stage ∧ s'.stopping = s.stopping := by
    obtain ⟨a',sent,free⟩ : ∃ a', s.async.send t = some a' ∧ a'.callers t = .idle := ⟨_,if_pos caller,by simp⟩
    exact ⟨s.setAsync a',by simp [step,sent],free,rfl,rfl⟩
  cases caller : s.async.callers t with
  | idle => exact ⟨[],s,by simp,rfl,caller,rfl,rfl⟩
  | sending =>
    obtain ⟨s',taken,free⟩ := send caller
    exact ⟨[.send t],s',by simp [Action.wakes],by simp [Transition.run,taken],free⟩
  | pushed =>
    obtain ⟨s',taken,now,stage,stopping⟩ : ∃ s' : EventLoop T α, step s (.test t) = some s' ∧
        s'.async.callers t = (if s.async.data then .sending else .idle) ∧ s'.stage = s.stage ∧
        s'.stopping = s.stopping := by
      obtain ⟨a',tested,now⟩ : ∃ a', s.async.test t = some a' ∧
          a'.callers t = (if s.async.data then .sending else .idle) := ⟨_,if_pos caller,by simp⟩
      exact ⟨s.setAsync a',by simp [step,tested],now,rfl,rfl⟩
    cases data : s.async.data with
    | false =>
      exact ⟨[.test t],s',by simp [Action.wakes],by simp [Transition.run,taken],by simp [now,data],stage,stopping⟩
    | true =>
      obtain ⟨s'',sent,free,stage',stopping'⟩ := send (s := s') (by simp [now,data])
      exact ⟨[.test t,.send t],s'',by simp [Action.wakes],by simp [Transition.run,taken,sent],free,stage'.trans stage,
        stopping'.trans stopping⟩

/-- A stop() past its check hands over its request. -/
theorem Reached.hands_over {t : T} {mode : Mode} (reached : s.Reached) (running : s.stage = .looping mode)
    (free : s.async.callers t = .idle) (called : s.stopping t ≠ .idle) :
    ∃ (front : List (Action T α)) (s' : EventLoop T α),
      (∀ u, .stop u ∉ front) ∧ Transition.run EventLoop.step s front = some s' ∧ s'.Ending := by
  have made : s.async.handle ≠ .never := (reached.sound.up (.inr ⟨mode,running⟩)).1
  -- the decision of runInLoop has been made
  have decided {s : EventLoop T α} (reached : s.Reached) (running : s.stage = .looping mode)
      (free : s.async.callers t = .idle) (made : s.async.handle ≠ .never) {issued : Nat}
      (stopping : s.stopping t = .direct issued ∨ s.stopping t = .queueing issued) :
      ∃ (a : Action T α) (s' : EventLoop T α), (∀ u, a ≠ .stop u) ∧ EventLoop.step s a = some s' ∧ s'.Ending := by
    rcases stopping with direct | queueing
    · obtain ⟨s',taken⟩ := Option.isSome_iff_exists.mp
        (show (EventLoop.step s (.close t)).isSome by simp [EventLoop.step,close,direct,closeAsync,Async.close,made])
      exact ⟨.close t,s',by simp,taken,reached.handed running (.inr taken)⟩
    · obtain ⟨s',taken⟩ := Option.isSome_iff_exists.mp
        (show (EventLoop.step s (.push t)).isSome by simp [EventLoop.step,push,queueing,Async.push,free])
      exact ⟨.push t,s',by simp,taken,reached.handed running (.inl taken)⟩
  cases stopping : s.stopping t with
  | idle => exact absurd stopping called
  | direct issued =>
    obtain ⟨a,s',other,taken,ending⟩ := decided reached running free made (.inl stopping)
    exact ⟨[a],s',by simp [Ne.symm (other _)],by simp [Transition.run,taken],ending⟩
  | queueing issued =>
    obtain ⟨a,s',other,taken,ending⟩ := decided reached running free made (.inr stopping)
    exact ⟨[a],s',by simp [Ne.symm (other _)],by simp [Transition.run,taken],ending⟩
  | checked issued =>
    obtain ⟨next,decides,forth⟩ : ∃ next, EventLoop.step s (.runInLoop t) = some (s.setStopping t next) ∧
        (next = .direct issued ∨ next = .queueing issued) := by
      by_cases direct : s.async.isRunInLoopThread t ∨ s.async.status = .stop
      · exact ⟨.direct issued,by simp [EventLoop.step,runInLoop,stopping,direct],.inl rfl⟩
      · exact ⟨.queueing issued,by simp [EventLoop.step,runInLoop,stopping,direct],.inr rfl⟩
    obtain ⟨a,s',other,taken,ending⟩ := decided (reached.step decides) running free made
      (show (s.setStopping t next).stopping t = .direct issued ∨ (s.setStopping t next).stopping t = .queueing issued by
        simpa [setStopping] using forth)
    exact ⟨[.runInLoop t,a],s',by simp [Ne.symm (other _)],by simp [Transition.run,decides,taken],ending⟩

/-- run() of a loop comes to its end without a further stop() exactly if a stop() has passed
its check or has already had its effect: one that came before the status was Running has
done nothing, and its caller waits for the thread for ever. -/
theorem ends_iff (actions : List (Action T α)) (s : EventLoop T α) (run : Transition.run step make actions = some s)
    (running : s.stage = .looping .default) :
    (∃ (later : List (Action T α)) (u : EventLoop T α),
      (∀ t, .stop t ∉ later) ∧ .leave ∈ later ∧ Transition.run step s later = some u) ↔
      s.view.Asked ∨ ∃ t, s.stopping t ≠ .idle := by
  have reached := make_reached.run run
  constructor
  · rintro ⟨later,u,others,leaves,goes_on⟩
    by_contra nobody
    rw [not_or,not_exists] at nobody
    obtain ⟨unasked,idle⟩ := nobody
    simp only [View.Asked,not_or,not_not] at unasked
    obtain ⟨live,queue,batch⟩ := unasked
    have waiting : s.Unasked := ⟨reached.sound,⟨running,live,queue,batch⟩,fun t => not_not.mp (idle t)⟩
    exact waiting.stays others goes_on leaves
  · rintro (asked | ⟨t,called⟩)
    · have ending : s.Ending := ⟨reached.async,reached.sound,⟨.default,running⟩,asked⟩
      exact ending.finishes
    · obtain ⟨front,m,wakes,freed,free,stage,stopping⟩ := frees_caller s t
      have there := reached.run freed
      obtain ⟨middle,m',none_stops,handed,ending⟩ :=
        there.hands_over (stage.trans running) free (by rw [stopping]; exact called)
      obtain ⟨later,u,others,leaves,goes_on⟩ := ending.finishes
      refine ⟨front ++ (middle ++ later),u,fun t member => ?_,by simp [leaves],?_⟩
      · rcases List.mem_append.mp member with first | rest
        · exact (wakes _ first).free.2.2.2 t rfl
        · exact (List.mem_append.mp rest).elim (none_stops t) (others t)
      · simp [Transition.run_append,freed,handed,goes_on]

/-- A stop() that comes while the thread is still in init. -/
def tooEarly : List (Action Bool Unit) := [.run .default,.init,.assign,.stop true,.initSend,.uvRun false]

theorem ends_iff_tooEarly : ∃ s : EventLoop Bool Unit, Transition.run step make tooEarly = some s ∧
    ¬ ∃ (later : List (Action Bool Unit)) (u : EventLoop Bool Unit),
      (∀ t, .stop t ∉ later) ∧ .leave ∈ later ∧ Transition.run step s later = some u := by
  obtain ⟨s,run,seen⟩ := (Option.any_eq_true _ _).mp
    (show (Transition.run step make tooEarly).any (fun s => decide (s.stage = .looping .default ∧ s.async.handle = .live ∧
      s.async.cbQue = [] ∧ s.async.loop = .idle ∧ ∀ t, s.stopping t = .idle)) by decide +kernel)
  obtain ⟨running,live,queue,loop,idle⟩ := of_decide_eq_true seen
  refine ⟨s,run,fun ends => ?_⟩
  rcases (ends_iff tooEarly s run running).mp ends with asked | ⟨t,called⟩
  · simp [View.Asked,view,live,queue,loop,stops,Async.Loop.tmpCallbacks] at asked
  · exact called (idle t)

end UvRpc.EventLoop
