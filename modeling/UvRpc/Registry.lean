import Mathlib

/-! A table to which names are added once: what is added first under a name stays. -/
namespace Registry

variable {κ α : Type*} [DecidableEq κ]

/-- Whether the entry was added, and the table after it. -/
def add (m : κ → Option α) (name : κ) (a : α) : Bool × (κ → Option α) :=
  match m name with
  | some _ => (false,m)
  | none => (true,Function.update m name (some a))

def first (calls : List (κ × α)) (name : κ) : Option α := (calls.find? fun c => c.1 = name).map Prod.snd

theorem first_append (calls : List (κ × α)) (name key : κ) (a : α) :
    first (calls ++ [(name,a)]) key = (first calls key).or (if name = key then some a else none) := by
  rw [first,first,List.find?_append,Option.map_or]
  congr 1
  by_cases same : name = key <;> simp [same]

def Filled (calls : List (κ × α)) (m : κ → Option α) : Prop := ∀ name, m name = first calls name

theorem Filled.add {calls : List (κ × α)} {m : κ → Option α} (filled : Filled calls m) (name : κ) (a : α) :
    Filled (calls ++ [(name,a)]) (add m name a).2 := by
  intro key
  rw [first_append,← filled key,Registry.add]
  cases here : m name with
  | some b =>
    by_cases same : name = key
    · subst same; simp [here]
    · simp [same]
  | none =>
    by_cases same : name = key
    · subst same; simp [here]
    · simp [same,Ne.symm same]

theorem Filled.added_iff {calls : List (κ × α)} {m : κ → Option α} (filled : Filled calls m) (name : κ) (a : α) :
    (Registry.add m name a).1 = true ↔ first calls name = none := by
  rw [← filled name,Registry.add]
  split <;> simp [*]

end Registry
