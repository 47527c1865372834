import Mathlib

/-! Runs of a partial step function. A step answers none when the action is not
enabled, so a list of actions is a run exactly when `run` answers a state. -/
namespace Transition

variable {σ α : Type*} {step : σ → α → Option σ}

def run (step : σ → α → Option σ) (s : σ) : List α → Option σ
  | [] => some s
  | a :: rest => (step s a).bind fun t => run step t rest

/-- The guard holds of the state before each step and of the action taken there. -/
def Meets (step : σ → α → Option σ) (guard : σ → α → Prop) (s : σ) : List α → Prop
  | [] => True
  | a :: rest => guard s a ∧ match step s a with
    | none => True
    | some t => Meets step guard t rest

/-- The property holds of every state the run visits, both ends included. -/
def Along (step : σ → α → Option σ) (P : σ → Prop) (s : σ) : List α → Prop
  | [] => P s
  | a :: rest => P s ∧ match step s a with
    | none => True
    | some t => Along step P t rest

def Steps (step : σ → α → Option σ) (R : σ → α → σ → Prop) (s : σ) : List α → Prop
  | [] => True
  | a :: rest => ∃ t, step s a = some t ∧ R s a t ∧ Steps step R t rest

theorem run_cons (s : σ) (a : α) (rest : List α) :
    run step s (a :: rest) = (step s a).bind fun t => run step t rest := rfl

theorem run_cons_some {s u : σ} {a : α} {rest : List α} (h : run step s (a :: rest) = some u) :
    ∃ t, step s a = some t ∧ run step t rest = some u := by
  simpa [run_cons,Option.bind_eq_some_iff] using h

theorem run_append (s : σ) (front back : List α) :
    run step s (front ++ back) = (run step s front).bind fun t => run step t back := by
  induction front generalizing s with
  | nil => rfl
  | cons a rest ih =>
    simp only [List.cons_append,run_cons]
    cases step s a with
    | none => rfl
    | some t => exact ih t

theorem meets_append {guard : σ → α → Prop} {s t : σ} {front back : List α} (first : Meets step guard s front)
    (reached : run step s front = some t) (second : Meets step guard t back) : Meets step guard s (front ++ back) := by
  induction front generalizing s with
  | nil => cases reached; exact second
  | cons a rest ih =>
    obtain ⟨u,taken,later⟩ := run_cons_some reached
    refine ⟨first.1,?_⟩
    have rest := first.2
    rw [taken] at rest ⊢
    exact ih rest later

instance meetsDecidable (guard : σ → α → Prop) [∀ s a, Decidable (guard s a)] :
    ∀ (s : σ) (actions : List α), Decidable (Meets step guard s actions)
  | _, [] => isTrue trivial
  | s, a :: rest =>
    have : Decidable (match step s a with
        | none => True
        | some t => Meets step guard t rest) :=
      match step s a with
      | none => isTrue trivial
      | some t => meetsDecidable guard t rest
    inferInstanceAs (Decidable (_ ∧ _))

theorem Along.start {P : σ → Prop} {s : σ} {actions : List α}
    (along : Along step P s actions) : P s := by
  cases actions with
  | nil => exact along
  | cons => exact along.1

/-- Invariant rule for runs whose steps all meet a guard. -/
theorem run_invariant {P : σ → Prop} {guard : σ → α → Prop}
    (preserved : ∀ s a t, P s → guard s a → step s a = some t → P t)
    {s u : σ} {actions : List α} (initial : P s) (meets : Meets step guard s actions)
    (h : run step s actions = some u) : P u := by
  induction actions generalizing s with
  | nil => cases h; exact initial
  | cons a rest ih =>
    obtain ⟨t,taken,later⟩ := run_cons_some h
    have rest := meets.2
    rw [taken] at rest
    exact ih (preserved s a t initial meets.1 taken) rest later

/-- Invariant rule for arbitrary runs. -/
theorem run_invariant_all {P : σ → Prop} (preserved : ∀ s a t, P s → step s a = some t → P t)
    {s u : σ} {actions : List α} (initial : P s) (h : run step s actions = some u) : P u := by
  induction actions generalizing s with
  | nil => cases h; exact initial
  | cons a rest ih =>
    obtain ⟨t,taken,later⟩ := run_cons_some h
    exact ih (preserved s a t initial taken) later

/-- Where an invariant makes every step be there, so is every run. -/
theorem run_exists {I : σ → Prop} (total : ∀ s a, I s → ∃ t, step s a = some t ∧ I t) {s : σ}
    (initial : I s) (actions : List α) : ∃ u, run step s actions = some u ∧ I u := by
  induction actions generalizing s with
  | nil => exact ⟨s,rfl,initial⟩
  | cons a rest ih =>
    obtain ⟨t,taken,kept⟩ := total s a initial
    obtain ⟨u,later,reached⟩ := ih kept
    exact ⟨u,by rw [run_cons,taken]; exact later,reached⟩

/-- An invariant that contains a property keeps it along every run that guarded steps make. -/
theorem along_of_meets {I P : σ → Prop} {guard : σ → α → Prop} (holds : ∀ s, I s → P s)
    (preserved : ∀ s a t, I s → guard s a → step s a = some t → I t)
    {s : σ} {actions : List α} (initial : I s) (meets : Meets step guard s actions) :
    Along step P s actions := by
  induction actions generalizing s with
  | nil => exact holds s initial
  | cons a rest ih =>
    obtain ⟨guarded,later⟩ := meets
    refine ⟨holds s initial,?_⟩
    cases taken : step s a with
    | none => trivial
    | some t =>
      rw [taken] at later
      exact ih (preserved s a t initial guarded taken) later

theorem along_of_invariant {I P : σ → Prop} (holds : ∀ s, I s → P s)
    (preserved : ∀ s a t, I s → step s a = some t → I t) {s : σ} (actions : List α) (initial : I s) :
    Along step P s actions := by
  induction actions generalizing s with
  | nil => exact holds s initial
  | cons a rest ih =>
    refine ⟨holds s initial,?_⟩
    cases taken : step s a with
    | none => trivial
    | some t => exact ih (preserved s a t initial taken)

/-- A guard that an invariant implies is met all along. -/
theorem meets_and {P Q : σ → α → Prop} {s : σ} {actions : List α} (first : Meets step P s actions)
    (second : Meets step Q s actions) : Meets step (fun s a => P s a ∧ Q s a) s actions := by
  induction actions generalizing s with
  | nil => trivial
  | cons a rest ih =>
    refine ⟨⟨first.1,second.1⟩,?_⟩
    have later := first.2
    have later' := second.2
    cases taken : step s a with
    | none => trivial
    | some t =>
      rw [taken] at later later'
      exact ih later later'

theorem meets_of_invariant {I : σ → Prop} {guard : σ → α → Prop} (holds : ∀ s a, I s → guard s a)
    (preserved : ∀ s a t, I s → step s a = some t → I t) {s : σ} (actions : List α) (initial : I s) :
    Meets step guard s actions := by
  induction actions generalizing s with
  | nil => trivial
  | cons a rest ih =>
    refine ⟨holds s a initial,?_⟩
    cases taken : step s a with
    | none => trivial
    | some t => exact ih (preserved s a t initial taken)

/-- Where guarded steps are always there, a guarded run never gets stuck, and what each
step does to the invariant states it does all along. -/
theorem steps_of_meets {I : σ → Prop} {R : σ → α → σ → Prop} {guard : σ → α → Prop}
    (makes : ∀ s a, I s → guard s a → ∃ t, step s a = some t ∧ I t ∧ R s a t)
    {s : σ} {actions : List α} (initial : I s) (meets : Meets step guard s actions) :
    Steps step R s actions := by
  induction actions generalizing s with
  | nil => trivial
  | cons a rest ih =>
    obtain ⟨guarded,later⟩ := meets
    obtain ⟨t,taken,kept,related⟩ := makes s a initial guarded
    rw [taken] at later
    exact ⟨t,taken,related,ih kept later⟩

/-- The guard is what keeps the property: an invariant that contains the property and
that guarded steps preserve, together with the loss of the property at every unguarded
step, makes them equivalent along a run. -/
theorem along_iff_meets {I P : σ → Prop} {guard : σ → α → Prop} (holds : ∀ s, I s → P s)
    (preserved : ∀ s a t, I s → guard s a → step s a = some t → I t)
    (destroyed : ∀ s a t, I s → ¬ guard s a → step s a = some t → ¬ P t)
    {s u : σ} {actions : List α} (initial : I s) (h : run step s actions = some u) :
    Along step P s actions ↔ Meets step guard s actions := by
  induction actions generalizing s with
  | nil => exact ⟨fun _ => trivial, fun _ => holds s initial⟩
  | cons a rest ih =>
    obtain ⟨t,taken,later⟩ := run_cons_some h
    simp only [Along,Meets,taken]
    constructor
    · rintro ⟨_,along⟩
      have guarded : guard s a := by
        by_contra bad
        exact destroyed s a t initial bad taken along.start
      exact ⟨guarded,(ih (preserved s a t initial guarded taken) later).mp along⟩
    · rintro ⟨guarded,meets⟩
      exact ⟨holds s initial,(ih (preserved s a t initial guarded taken) later).mpr meets⟩

/-- A rank that every step lowers bounds the length of runs. -/
theorem run_length {I : σ → Nat → Prop} (lowers : ∀ s n a t, I s n → step s a = some t → ∃ m < n, I t m)
    {s u : σ} {n : Nat} {actions : List α} (initial : I s n) (h : run step s actions = some u) :
    ∃ m, I u m ∧ m + actions.length ≤ n := by
  induction actions generalizing s n with
  | nil => cases h; exact ⟨n,initial,Nat.le_refl n⟩
  | cons a rest ih =>
    obtain ⟨t,taken,later⟩ := run_cons_some h
    obtain ⟨m,less,kept⟩ := lowers s n a t initial taken
    obtain ⟨k,reached,length⟩ := ih kept later
    exact ⟨k,reached,by rw [List.length_cons]; omega⟩

/-- Where every step lowers a rank, taking steps as long as there are any leads to a
state that has none. -/
theorem run_stops {I : σ → Nat → Prop} (lowers : ∀ s n a t, I s n → step s a = some t → ∃ m < n, I t m)
    {s : σ} {n : Nat} (initial : I s n) :
    ∃ actions u m, run step s actions = some u ∧ I u m ∧ ∀ a, step u a = none := by
  induction n using Nat.strong_induction_on generalizing s with
  | _ n ih =>
    by_cases stuck : ∀ a, step s a = none
    · exact ⟨[],s,n,rfl,initial,stuck⟩
    · obtain ⟨a,enabled⟩ := not_forall.mp stuck
      obtain ⟨t,taken⟩ := Option.ne_none_iff_exists'.mp enabled
      obtain ⟨m,less,kept⟩ := lowers s n a t initial taken
      obtain ⟨rest,u,k,later,reached,none_left⟩ := ih m less kept
      exact ⟨a :: rest,u,k,by rw [run_cons,taken]; exact later,reached,none_left⟩

/-- Where every step of a kind lowers a rank by what it costs and raises it by no more than
it brings in, so does a run of such steps. -/
theorem run_budget {I : σ → Prop} {rank : σ → Nat} {kind : α → Prop} {cost gain : α → Nat}
    (pays : ∀ s a t, I s → kind a → step s a = some t → I t ∧ rank t + cost a ≤ rank s + gain a)
    {s u : σ} {actions : List α} (initial : I s) (kinds : ∀ a ∈ actions, kind a) (h : run step s actions = some u) :
    I u ∧ rank u + (actions.map cost).sum ≤ rank s + (actions.map gain).sum := by
  induction actions generalizing s with
  | nil => cases h; exact ⟨initial,Nat.le_refl _⟩
  | cons a rest ih =>
    obtain ⟨t,taken,later⟩ := run_cons_some h
    obtain ⟨first,others⟩ := List.forall_mem_cons.mp kinds
    obtain ⟨kept,paid⟩ := pays s a t initial first taken
    obtain ⟨reached,all⟩ := ih kept others later
    refine ⟨reached,?_⟩
    simp only [List.map_cons,List.sum_cons]
    omega

theorem run_of_restricted {step' : σ → α → Option σ} (sub : ∀ s a t, step' s a = some t → step s a = some t)
    {s u : σ} {actions : List α} (h : run step' s actions = some u) : run step s actions = some u := by
  induction actions generalizing s with
  | nil => exact h
  | cons a rest ih =>
    obtain ⟨t,taken,later⟩ := run_cons_some h
    rw [run_cons,sub s a t taken]
    exact ih later

theorem split_snoc {α : Type*} {seen before after : List α} {e x : α} (h : seen ++ [e] = before ++ x :: after) :
    (seen = before ∧ e = x) ∨ ∃ rest, seen = before ++ x :: rest := by
  rcases List.eq_nil_or_concat after with rfl | ⟨rest,z,rfl⟩
  · obtain ⟨front,last⟩ := List.append_inj' h rfl
    exact .inl ⟨front,List.singleton_inj.mp last⟩
  · rw [List.concat_eq_append,← List.cons_append,← List.append_assoc] at h
    exact .inr ⟨rest,(List.append_inj' h rfl).1⟩

end Transition
