import UvRpc.Transition

/-! spin_lock, with threads that count under it as in the example of its header: each adds
one to a shared number in two steps, a load and a store. -/
namespace UvRpc

/-- Where a thread is. `loaded` has read the number and will store the next one. -/
inductive SpinStep where
  | outside | spinning | inside | loaded (num : Nat)
  deriving DecidableEq, Repr

def SpinStep.holds : SpinStep → Bool
  | .inside | .loaded _ => true
  | _ => false

/-- `added` counts the additions that are complete. -/
structure SpinLock (T : Type*) where
  flag : Bool
  pc : T → SpinStep
  num : Nat
  added : Nat

namespace SpinLock

inductive Action (T : Type*) where
  | lock (t : T)
  /-- One round of lock's loop. -/
  | testAndSet (t : T)
  | unlock (t : T)
  | load (t : T)
  | store (t : T)
  deriving DecidableEq, Repr

variable {T : Type*} [DecidableEq T]

/-- A default atomic_flag is clear only from C++20 on. -/
def start (flag : Bool) : SpinLock T := ⟨flag,fun _ => .outside,0,0⟩

@[simps] def go (s : SpinLock T) (t : T) (pc : SpinStep) : SpinLock T := {s with pc := Function.update s.pc t pc}

def step (s : SpinLock T) : Action T → Option (SpinLock T)
  | .lock t => if s.pc t = .outside then some (s.go t .spinning) else none
  | .testAndSet t =>
    if s.pc t = .spinning then some {s.go t (if s.flag then .spinning else .inside) with flag := true} else none
  | .unlock t =>
    match s.pc t with
    | .outside | .inside => some {s.go t .outside with flag := false}
    | _ => none
  | .load t => if s.pc t = .inside then some (s.go t (.loaded s.num)) else none
  | .store t =>
    match s.pc t with
    | .loaded num => some {s.go t .inside with num := num + 1, added := s.added + 1}
    | _ => none

/-- A lock is released by its holder, or while nobody holds it. -/
def Released (s : SpinLock T) : Action T → Prop
  | .unlock t => ∀ u, (s.pc u).holds → u = t
  | _ => True

instance releasedDecidable [Fintype T] (s : SpinLock T) (a : Action T) : Decidable (s.Released a) := by
  cases a <;> unfold Released <;> infer_instance

/-- Whoever holds the lock holds it alone, the flag says so, and no addition is lost. -/
structure Exclusive (s : SpinLock T) : Prop where
  alone : ∀ t u, (s.pc t).holds → (s.pc u).holds → t = u
  flag : ∀ t, (s.pc t).holds → s.flag = true
  num : s.num = s.added

/-- A number that was loaded is the current one. -/
structure Inv (s : SpinLock T) : Prop extends s.Exclusive where
  loaded : ∀ t num, s.pc t = .loaded num → num = s.num

variable {s s' : SpinLock T} {t : T} {pc : SpinStep}

omit [DecidableEq T] in
theorem start_inv (flag : Bool) : (start flag : SpinLock T).Inv :=
  ⟨⟨by simp [start,SpinStep.holds],by simp [start,SpinStep.holds],rfl⟩,by simp [start]⟩

theorem Inv.outside (inv : s.Inv) (free : pc.holds = false) : (s.go t pc).Inv := by
  have same {u : T} (holder : ((s.go t pc).pc u).holds) : u ≠ t ∧ (s.pc u).holds := by
    by_cases here : u = t
    · subst here
      simp [free] at holder
    · exact ⟨here,by simpa [here] using holder⟩
  refine ⟨⟨fun u v hu hv => inv.alone u v (same hu).2 (same hv).2,fun u hu => inv.flag u (same hu).2,inv.num⟩,fun u num hu => ?_⟩
  by_cases here : u = t
  · subst here
    rw [go_pc,Function.update_self] at hu
    subst hu
    cases free
  · exact inv.loaded u num (by simpa [here] using hu)

theorem Inv.inside (inv : s.Inv) (holder : (s.pc t).holds) (num : Nat) (added : Nat) (counted : num = added)
    (pc : SpinStep) (current : ∀ n, pc = .loaded n → n = num) :
    ({s.go t pc with num := num, added := added} : SpinLock T).Inv := by
  have only {u : T} (hu : (Function.update s.pc t pc u).holds) : u = t := by
    by_contra other
    rw [Function.update_of_ne other] at hu
    exact other (inv.alone u t hu holder)
  refine ⟨⟨fun u v hu hv => (only hu).trans (only hv).symm,fun u hu => inv.flag t holder,counted⟩,fun u n hu => ?_⟩
  change Function.update s.pc t pc u = _ at hu
  have here : u = t := only (by rw [hu]; rfl)
  subst here
  rw [Function.update_self] at hu
  exact current n hu

theorem step_inv (inv : s.Inv) {a : Action T} (released : s.Released a) (taken : s.step a = some s') : s'.Inv := by
  cases a with
  | lock t =>
    simp only [step] at taken
    split at taken
    · obtain rfl := Option.some.inj taken
      exact inv.outside rfl
    · cases taken
  | testAndSet t =>
    simp only [step] at taken
    split at taken
    case isFalse => cases taken
    obtain rfl := Option.some.inj taken
    cases held : s.flag with
    | true =>
      have next : (s.go t .spinning).Inv := inv.outside rfl
      simpa [go,held] using next
    | false =>
      -- nobody holds a lock whose flag is clear
      have nobody (u : T) : (s.pc u).holds = false := by
        by_contra holder
        have := inv.flag u (by simpa using holder)
        rw [held] at this
        cases this
      have only {u : T} (hu : (Function.update s.pc t .inside u).holds) : u = t := by
        by_contra other
        rw [Function.update_of_ne other,nobody u] at hu
        cases hu
      refine ⟨⟨fun u v hu hv => (only hu).trans (only hv).symm,fun _ _ => rfl,inv.num⟩,fun u num hu => ?_⟩
      change Function.update s.pc t .inside u = _ at hu
      have here : u = t := only (by rw [hu]; rfl)
      subst here
      rw [Function.update_self] at hu
      cases hu
  | unlock t =>
    have nobody (u : T) : (Function.update s.pc t .outside u).holds = false := by
      by_cases here : u = t
      · rw [here,Function.update_self]; rfl
      · rw [Function.update_of_ne here]
        by_contra holder
        exact here (released u (by simpa using holder))
    have free : ({s.go t .outside with flag := false} : SpinLock T).Inv := by
      refine ⟨⟨fun u v hu => ?_,fun u hu => ?_,inv.num⟩,fun u num hu => ?_⟩
      · exact absurd ((nobody u).symm.trans hu) Bool.false_ne_true
      · exact absurd ((nobody u).symm.trans hu) Bool.false_ne_true
      · have free := nobody u
        rw [show Function.update s.pc t .outside u = .loaded num from hu] at free
        cases free
    simp only [step] at taken
    split at taken
    · obtain rfl := Option.some.inj taken; exact free
    · obtain rfl := Option.some.inj taken; exact free
    · cases taken
  | load t =>
    simp only [step] at taken
    split at taken
    case isFalse => cases taken
    rename_i here
    obtain rfl := Option.some.inj taken
    exact inv.inside (by rw [here]; rfl) s.num s.added inv.num (.loaded s.num) fun n same => by cases same; rfl
  | store t =>
    simp only [step] at taken
    split at taken
    case h_2 => cases taken
    rename_i num here
    obtain rfl := Option.some.inj taken
    have current := inv.loaded t num here
    exact inv.inside (by rw [here]; rfl) (num + 1) (s.added + 1) (by rw [current,inv.num]) .inside (by simp)

/-- Clearing the flag under a holder lets the next one in. -/
theorem unreleased {a : Action T} (bad : ¬ s.Released a) (taken : s.step a = some s') : ¬ s'.Exclusive := by
  intro exclusive
  cases a with
  | unlock t =>
    simp only [Released,not_forall] at bad
    obtain ⟨u,holder,other⟩ := bad
    have cleared : s' = {s.go t .outside with flag := false} := by
      simp only [step] at taken
      split at taken
      · exact (Option.some.inj taken).symm
      · exact (Option.some.inj taken).symm
      · cases taken
    subst cleared
    have set := exclusive.flag u (by simpa [other] using holder)
    cases set
  | _ => exact bad trivial

/-- The lock excludes and no addition is lost exactly as long as it is released by its
holder or while nobody holds it. -/
theorem exclusive_iff (flag : Bool) (actions : List (Action T)) (s : SpinLock T)
    (run : Transition.run step (start flag) actions = some s) :
    Transition.Along step Exclusive (start flag) actions ↔ Transition.Meets step Released (start flag) actions :=
  Transition.along_iff_meets (I := Inv) (fun _ inv => inv.toExclusive) (fun _ _ _ inv released taken => step_inv inv released taken)
    (fun _ _ _ _ bad taken => unreleased bad taken) (start_inv flag) run

def twoAdditions : List (Action Bool) :=
  [.lock true,.lock false,.testAndSet true,.testAndSet false,.load true,.testAndSet false,.store true,.unlock true,
    .testAndSet false,.load false,.store false,.unlock false]

theorem exclusive_iff_twoAdditions : Transition.Along step Exclusive (start false) twoAdditions := by
  obtain ⟨s,run⟩ := Option.isSome_iff_exists.mp
    (show (Transition.run step (start false) twoAdditions).isSome by decide)
  exact (exclusive_iff false twoAdditions s run).mpr (by decide)

/-- Only a holder releases the lock. -/
def Held (s : SpinLock T) : Action T → Prop
  | .unlock t => (s.pc t).holds
  | _ => True

/-- The flag is set and nobody has got past it. -/
structure Shut (s : SpinLock T) : Prop where
  flag : s.flag = true
  nobody : ∀ t, (s.pc t).holds = false

theorem step_shut (shut : s.Shut) {a : Action T} (held : s.Held a) (taken : s.step a = some s') : s'.Shut := by
  have stays {t : T} {pc : SpinStep} (free : pc.holds = false) (u : T) : (Function.update s.pc t pc u).holds = false := by
    by_cases here : u = t
    · rw [here,Function.update_self,free]
    · rw [Function.update_of_ne here,shut.nobody u]
  cases a with
  | lock t =>
    simp only [step] at taken
    split at taken
    · obtain rfl := Option.some.inj taken
      exact ⟨shut.flag,stays rfl⟩
    · cases taken
  | testAndSet t =>
    simp only [step,shut.flag] at taken
    split at taken
    · obtain rfl := Option.some.inj taken
      exact ⟨rfl,stays rfl⟩
    · cases taken
  | unlock t => exact absurd held (by simp [Held,shut.nobody t])
  | load t =>
    have free := shut.nobody t
    simp only [step] at taken
    split at taken
    · rename_i here
      rw [here] at free
      cases free
    · cases taken
  | store t =>
    have free := shut.nobody t
    simp only [step] at taken
    split at taken
    · rename_i here
      rw [here] at free
      cases free
    · cases taken

/-- Where only holders release it, a thread can get the lock exactly if the flag starts
clear: with a flag that starts set no call of lock ever returns. -/
theorem entered_iff (t : T) (flag : Bool) :
    (∃ actions s, Transition.Meets step Held (start flag) actions ∧
      Transition.run step (start flag) actions = some s ∧ (s.pc t).holds) ↔ flag = false := by
  constructor
  · rintro ⟨actions,s,held,run,holder⟩
    by_contra set
    have set : flag = true := by simpa using set
    subst set
    have shut := Transition.run_invariant (P := Shut) (fun _ _ _ shut held taken => step_shut shut held taken)
      ⟨rfl,fun _ => rfl⟩ held run
    rw [shut.nobody t] at holder
    cases holder
  · rintro rfl
    refine ⟨[.lock t,.testAndSet t],{((start false).go t .spinning).go t .inside with flag := true},?_,?_,?_⟩
    · simp [Transition.Meets,step,start,go,Held]
    · simp [Transition.run,step,start,go]
    · simp [SpinStep.holds]

end SpinLock
end UvRpc
