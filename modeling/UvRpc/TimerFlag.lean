import UvRpc.Transition
import UvRpc.UvTimer

/-! bStarted against the timer that libuv has, on the loop's thread. There every closure runs
at once, so a callback is a sequence of whole calls. -/
namespace UvRpc

inductive TimerCall (K : Type*) where
  | start | stop
  | close (callback : Option K)
  | setRepeat (times : Nat)
  deriving DecidableEq, Repr

/-- A callback of the loop and the calls that it makes on the timer: one of its own two,
or any other. -/
inductive TimerCallback (K : Type*) where
  | other (calls : List (TimerCall K))
  | expire (calls : List (TimerCall K))
  | finish (calls : List (TimerCall K))
  deriving DecidableEq, Repr

/-- `armed` says that every start() so far on a timer that was not running and not closed has
set it running. -/
structure TimerFlag (K : Type*) where
  timer : UvTimer K
  armed : Bool
  deriving DecidableEq, Repr

namespace TimerFlag

variable {K : Type*}

def make (timeout repeat_ : Nat) (callback : Option K) : TimerFlag K :=
  ⟨.make timeout repeat_ callback,true⟩

def active (s : TimerFlag K) : Bool := s.timer.uvHandle.active
def closing (s : TimerFlag K) : Bool := s.timer.uvHandle.isClosing

def call (s : TimerFlag K) : TimerCall K → TimerFlag K
  | .start =>
    let t := s.timer.startInLoop
    ⟨t,s.armed && (s.active || s.closing || t.uvHandle.active)⟩
  | .stop => {s with timer := s.timer.stopInLoop}
  | .close callback => {s with timer := (s.timer.setClosed callback).stopInLoop.closeInLoop.1}
  | .setRepeat times => {s with timer := s.timer.setRepeat times}

def callAll (s : TimerFlag K) (calls : List (TimerCall K)) : TimerFlag K := calls.foldl call s

def setHandle (s : TimerFlag K) (h : UvTimerHandle) : TimerFlag K :=
  {s with timer := {s.timer with uvHandle := h}}

def step (s : TimerFlag K) : TimerCallback K → Option (TimerFlag K)
  | .other calls => some (s.callAll calls)
  | .expire calls =>
    if s.active ∧ (s.timer.onTimer.isSome ∨ calls = []) then
      some ((s.setHandle s.timer.uvHandle.expire).callAll calls)
    else none
  | .finish calls =>
    if s.timer.uvHandle.phase = .closing ∧ (s.timer.onClosed.isSome ∨ calls = []) then
      some ((s.setHandle s.timer.uvHandle.finish).callAll calls)
    else none

/-- The flag is that of libuv, and start() has done what it is for. -/
def InStep (s : TimerFlag K) : Prop := (s.timer.bStarted = true ↔ s.active = true) ∧ s.armed = true

instance (s : TimerFlag K) : Decidable s.InStep := inferInstanceAs (Decidable (_ ∧ _))

end TimerFlag

def TimerCall.flag {K : Type*} : TimerCall K → Option Bool
  | .start => some true
  | .stop => some false
  | .close _ => some false
  | .setRepeat _ => none

def TimerCall.closes {K : Type*} : TimerCall K → Bool
  | .close _ => true
  | _ => false

namespace TimerCallback

variable {K : Type*}

def calls : TimerCallback K → List (TimerCall K)
  | .other calls => calls
  | .expire calls => calls
  | .finish calls => calls

/-- After the expiry of a timer that does not repeat, its callback calls stop or close
before start if anything. -/
def StopsFirst (s : TimerFlag K) : TimerCallback K → Prop
  | .expire calls => s.timer.uvHandle.repeat_ ≠ 0 ∨ calls.findSome? TimerCall.flag = some false
  | _ => True

/-- On a closed timer, or one that the callback closes, start is not the last call. -/
def EndsStopped (s : TimerFlag K) (c : TimerCallback K) : Prop :=
  s.closing = true ∨ c.calls.any TimerCall.closes = true → c.calls.reverse.findSome? TimerCall.flag ≠ some true

def Orderly (s : TimerFlag K) (c : TimerCallback K) : Prop := c.StopsFirst s ∧ c.EndsStopped s

instance (s : TimerFlag K) : (c : TimerCallback K) → Decidable (c.StopsFirst s)
  | .other _ => inferInstanceAs (Decidable True)
  | .expire _ => inferInstanceAs (Decidable (_ ∨ _))
  | .finish _ => inferInstanceAs (Decidable True)

instance (s : TimerFlag K) (c : TimerCallback K) : Decidable (c.Orderly s) :=
  inferInstanceAs (Decidable (_ ∧ (_ → _)))

end TimerCallback

namespace TimerFlag

variable {K : Type*}

/-- Whatever is called, and as long as start() has armed: a closed timer does not run, and
the flag of any other is right. -/
structure Calm (s : TimerFlag K) : Prop where
  armed : s.armed = true
  shut : s.closing = true → s.active = false
  flag : s.closing = false → s.timer.bStarted = s.active

theorem Calm.inStep_iff {s : TimerFlag K} (calm : s.Calm) :
    s.InStep ↔ (s.closing = true → s.timer.bStarted ≠ true) := by
  cases closing : s.closing with
  | false => simp [InStep,calm.armed,calm.flag closing]
  | true => simp [InStep,calm.armed,calm.shut closing]

theorem call_bStarted (s : TimerFlag K) (c : TimerCall K) :
    (s.call c).timer.bStarted = c.flag.getD s.timer.bStarted := by
  cases c with
  | start => exact UvTimer.startInLoop_bStarted s.timer
  | stop => rfl
  | close callback => exact UvTimer.closeInLoop_bStarted _
  | setRepeat times => rfl

theorem call_closing (s : TimerFlag K) (c : TimerCall K) :
    (s.call c).closing = (s.closing || c.closes) := by
  cases c with
  | start => exact (UvTimer.startInLoop_closing s.timer).trans (Bool.or_false _).symm
  | stop => exact (UvTimer.stopInLoop_closing s.timer).trans (Bool.or_false _).symm
  | close callback => exact (UvTimer.closeInLoop_closing _).trans (Bool.or_true _).symm
  | setRepeat times => exact (Bool.or_false _).symm

theorem call_stop_calm {s : TimerFlag K} (armed : s.armed = true) : (s.call .stop).Calm := by
  have off : (s.call .stop).active = false := UvTimer.stopInLoop_active s.timer
  exact ⟨armed,fun _ => off,fun _ => off.symm⟩

theorem call_close_calm {s : TimerFlag K} (armed : s.armed = true) (callback : Option K) :
    (s.call (.close callback)).Calm := by
  have off : (s.call (.close callback)).active = false :=
    UvTimer.closeInLoop_active (UvTimer.stopInLoop_active _)
  have flag : (s.call (.close callback)).timer.bStarted = false := call_bStarted s (.close callback)
  exact ⟨armed,fun _ => off,fun _ => by rw [flag,off]⟩

theorem Calm.call {s : TimerFlag K} (calm : s.Calm) (c : TimerCall K) : (s.call c).Calm := by
  have closing := call_closing s c
  cases c with
  | start =>
    have active : (s.call .start).active = (s.active || !(s.timer.bStarted || s.closing)) :=
      UvTimer.startInLoop_active s.timer
    have armed : (s.call .start).armed = (s.armed && (s.active || s.closing || (s.call .start).active)) := rfl
    have flag := call_bStarted s .start
    cases shut : s.closing with
    | true =>
      refine ⟨by simp [armed,calm.armed,shut],fun _ => by simp [active,calm.shut shut,shut],fun live => ?_⟩
      simp [closing,shut] at live
    | false =>
      have running : (s.call .start).active = true := by simp [active,calm.flag shut,shut]
      refine ⟨by simp [armed,calm.armed,running],fun bad => ?_,fun _ => by rw [running]; exact flag⟩
      simp [closing,shut,TimerCall.closes] at bad
  | stop => exact call_stop_calm calm.armed
  | close callback => exact call_close_calm calm.armed callback
  | setRepeat times => exact ⟨calm.armed,calm.shut,calm.flag⟩

theorem callAll_cons (s : TimerFlag K) (c : TimerCall K) (rest : List (TimerCall K)) :
    s.callAll (c :: rest) = (s.call c).callAll rest := rfl

theorem callAll_bStarted (s : TimerFlag K) (calls : List (TimerCall K)) :
    (s.callAll calls).timer.bStarted =
      (calls.reverse.findSome? TimerCall.flag).getD s.timer.bStarted := by
  induction calls generalizing s with
  | nil => rfl
  | cons c rest ih =>
    rw [callAll_cons,ih,call_bStarted,List.reverse_cons,List.findSome?_append]
    cases rest.reverse.findSome? TimerCall.flag <;> simp [List.findSome?_singleton]

theorem callAll_closing (s : TimerFlag K) (calls : List (TimerCall K)) :
    (s.callAll calls).closing = (s.closing || calls.any TimerCall.closes) := by
  induction calls generalizing s with
  | nil => exact (Bool.or_false _).symm
  | cons c rest ih => rw [callAll_cons,ih,call_closing,List.any_cons,Bool.or_assoc]

theorem Calm.callAll {s : TimerFlag K} (calm : s.Calm) (calls : List (TimerCall K)) : (s.callAll calls).Calm := by
  induction calls generalizing s with
  | nil => exact calm
  | cons c rest ih => exact ih (calm.call c)

theorem callAll_armed {s : TimerFlag K} (calls : List (TimerCall K)) (armed : (s.callAll calls).armed = true) :
    s.armed = true := by
  induction calls generalizing s with
  | nil => exact armed
  | cons c rest ih =>
    have before := ih armed
    cases c with
    | start => exact (Bool.and_eq_true_iff.mp before).1
    | stop => exact before
    | close => exact before
    | setRepeat => exact before

structure RunOut (s : TimerFlag K) : Prop where
  armed : s.armed = true
  live : s.closing = false
  flag : s.timer.bStarted = true
  off : s.active = false

/-- stop or close puts a run-out timer right, start does nothing to it. -/
theorem RunOut.callAll {s : TimerFlag K} (out : s.RunOut) (calls : List (TimerCall K)) :
    calls.findSome? TimerCall.flag = some false ∧ (s.callAll calls).Calm ∨
      calls.findSome? TimerCall.flag ≠ some false ∧ ¬ (s.callAll calls).InStep := by
  induction calls generalizing s with
  | nil =>
    refine .inr ⟨by simp,fun inStep => ?_⟩
    have := inStep.1.mp out.flag
    rw [show (s.callAll []).active = s.active from rfl,out.off] at this
    cases this
  | cons c rest ih =>
    rw [callAll_cons]
    cases c with
    | start =>
      refine .inr ⟨by simp [List.findSome?_cons,TimerCall.flag],fun inStep => ?_⟩
      have off : s.timer.uvHandle.active = false := out.off
      have still : s.timer.startInLoop.uvHandle.active = false := by
        simp [UvTimer.startInLoop_active,out.flag,off]
      have armed := callAll_armed rest inStep.2
      simp [call,out.off,out.live,still] at armed
    | stop => exact .inl ⟨rfl,(call_stop_calm out.armed).callAll rest⟩
    | close callback => exact .inl ⟨rfl,(call_close_calm out.armed callback).callAll rest⟩
    | setRepeat times => exact ih ⟨out.armed,out.live,out.flag,out.off⟩

/-- Expiry by itself: a repeating timer runs on, any other has run out. -/
theorem Calm.expire {s : TimerFlag K} (calm : s.Calm) (active : s.active = true) (live : s.closing = false) :
    (s.setHandle s.timer.uvHandle.expire).closing = false ∧
      (s.timer.uvHandle.repeat_ ≠ 0 ∧ (s.setHandle s.timer.uvHandle.expire).Calm ∨
        s.timer.uvHandle.repeat_ = 0 ∧ (s.setHandle s.timer.uvHandle.expire).RunOut) := by
  have flag : s.timer.bStarted = true := (calm.flag live).trans active
  by_cases once : s.timer.uvHandle.repeat_ = 0
  · have stopped : s.timer.uvHandle.expire = s.timer.uvHandle.stop := if_pos once
    rw [stopped]
    exact ⟨live,.inr ⟨once,calm.armed,live,flag,rfl⟩⟩
  · have again : s.timer.uvHandle.expire =
        {s.timer.uvHandle with active := true, timeout := s.timer.uvHandle.repeat_} := by
      rw [UvTimerHandle.expire,if_neg once,UvTimerHandle.start,if_neg]
      · rfl
      · rw [show s.timer.uvHandle.stop.isClosing = s.closing from rfl,live]
        decide
    rw [again]
    exact ⟨live,.inl ⟨once,calm.armed,(fun closing => by cases live.symm.trans closing),fun _ => flag⟩⟩

theorem Calm.callAll_inStep_iff {s : TimerFlag K} {calls : List (TimerCall K)} (calm : (s.callAll calls).Calm)
    (right : s.closing = true → s.timer.bStarted = false) :
    (s.callAll calls).InStep ↔ (s.closing = true ∨ calls.any TimerCall.closes = true →
      calls.reverse.findSome? TimerCall.flag ≠ some true) := by
  rw [calm.inStep_iff,callAll_closing,callAll_bStarted,Bool.or_eq_true]
  refine imp_congr_right fun shut => ?_
  cases last : calls.reverse.findSome? TimerCall.flag with
  | some flag => simp
  | none =>
    have unclosed : calls.any TimerCall.closes = false := by
      rw [List.any_eq_false]
      intro c member closes
      have flagless := List.findSome?_eq_none_iff.mp last c (List.mem_reverse.mpr member)
      cases c <;> simp_all [TimerCall.closes,TimerCall.flag]
    rcases shut with closing | closes
    · simp [right closing]
    · simp [unclosed] at closes

/-- A callback leaves the flag right exactly when it is orderly. -/
theorem step_inStep_iff {s t : TimerFlag K} {c : TimerCallback K} (calm : s.Calm) (inStep : s.InStep)
    (taken : step s c = some t) : (t.InStep ↔ c.Orderly s) ∧ (c.Orderly s → t.Calm) := by
  have right : s.closing = true → s.timer.bStarted = false := fun closing =>
    Bool.eq_false_iff.mpr (calm.inStep_iff.mp inStep closing)
  cases c with
  | other calls =>
    cases taken
    have after := calm.callAll calls
    exact ⟨(after.callAll_inStep_iff right).trans ⟨fun ends => ⟨trivial,ends⟩,And.right⟩,fun _ => after⟩
  | expire calls =>
    simp only [step,Option.ite_none_right_eq_some] at taken
    obtain ⟨⟨active,_⟩,⟨⟩⟩ := taken
    have live : s.closing = false := Bool.eq_false_iff.mpr fun closing => by simp [calm.shut closing] at active
    obtain ⟨closing,outcome⟩ := calm.expire active live
    have ends : ∀ {after : TimerFlag K}, after.Calm → after = (s.setHandle s.timer.uvHandle.expire).callAll calls →
        (after.InStep ↔ (TimerCallback.expire calls).EndsStopped s) := by
      rintro after calm rfl
      rw [calm.callAll_inStep_iff fun shut => by simp [closing] at shut,closing,← live]
      rfl
    rcases outcome with ⟨repeats,calm⟩ | ⟨once,out⟩
    · have after := calm.callAll calls
      exact ⟨(ends after rfl).trans ⟨fun ends => ⟨.inl repeats,ends⟩,And.right⟩,fun _ => after⟩
    · rcases out.callAll calls with ⟨stops,after⟩ | ⟨starts,bad⟩
      · exact ⟨(ends after rfl).trans ⟨fun ends => ⟨.inr stops,ends⟩,And.right⟩,fun _ => after⟩
      · have unorderly : ¬ (TimerCallback.expire calls).Orderly s := fun orderly =>
          orderly.1.elim (fun repeats => repeats once) starts
        exact ⟨iff_of_false bad unorderly,fun orderly => absurd orderly unorderly⟩
  | finish calls =>
    simp only [step,Option.ite_none_right_eq_some] at taken
    obtain ⟨⟨closing,_⟩,⟨⟩⟩ := taken
    have shut : s.closing = true := by simp [TimerFlag.closing,UvTimerHandle.isClosing,closing]
    have finished : (s.setHandle s.timer.uvHandle.finish).Calm :=
      ⟨calm.armed,fun _ => calm.shut shut,fun live => by cases live⟩
    have after := finished.callAll calls
    refine ⟨(after.callAll_inStep_iff fun _ => right shut).trans ?_,fun _ => after⟩
    exact ⟨fun ends => ⟨trivial,fun _ => ends (.inl rfl)⟩,fun orderly _ => orderly.2 (.inl shut)⟩

/-- For any timeout and repeat, over every run of the loop's thread. -/
theorem flag_in_step_iff (timeout repeat_ : Nat) (callback : Option K) {callbacks : List (TimerCallback K)}
    {s : TimerFlag K} (ran : Transition.run step (make timeout repeat_ callback) callbacks = some s) :
    Transition.Along step InStep (make timeout repeat_ callback) callbacks ↔
      Transition.Meets step (fun s c => c.Orderly s) (make timeout repeat_ callback) callbacks := by
  have start : (make timeout repeat_ callback).Calm := ⟨rfl,fun _ => rfl,fun _ => rfl⟩
  have started : (make timeout repeat_ callback).InStep := start.inStep_iff.mpr fun closing => by cases closing
  refine Transition.along_iff_meets (I := fun s => s.Calm ∧ s.InStep) (P := InStep) (fun _ inv => inv.2)
    (fun s c t inv orderly taken => ?_) (fun s c t inv unorderly taken inStep => ?_) ⟨start,started⟩ ran
  · obtain ⟨iff,after⟩ := step_inStep_iff inv.1 inv.2 taken
    exact ⟨after orderly,iff.mpr orderly⟩
  · exact unorderly ((step_inStep_iff inv.1 inv.2 taken).1.mp inStep)

/-- A repeating timer that its callback stops and starts again, later closed. -/
def restarted : List (TimerCallback Unit) :=
  [.other [.start],.expire [],.expire [.stop,.start],.expire [.close none],.finish []]

theorem flag_in_step_iff_restarted :
    Transition.Along step InStep (make 10 5 (some ())) restarted ↔
      Transition.Meets step (fun s c => c.Orderly s) (make 10 5 (some ())) restarted :=
  flag_in_step_iff (s := ⟨⟨false,⟨.closed,false,5,5⟩,10,5,some (),none⟩,true⟩) 10 5 (some ()) (by decide)

/-- Once a timer without repeat has expired, start() does not arm it again. -/
theorem one_shot_not_armed_again : ∃ s,
    Transition.run step (make 10 0 (some ())) [.other [.start],.expire [],.other [.start]] = some s ∧
      s.active = false ∧ s.closing = false ∧ ¬ s.InStep :=
  ⟨_,rfl,by decide⟩

end TimerFlag
end UvRpc
