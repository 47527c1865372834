import Mathlib

/-! Turns taken in a circle: how often each place has its turn. -/
namespace RoundRobin

/-- The first k turns over L places, from the place that `start` falls on. -/
def turns (L start k : Nat) : List Nat := (List.range k).map fun i => (start + i) % L

variable {L : Nat}

theorem turns_succ (L start k : Nat) : turns L start (k + 1) = start % L :: turns L (start + 1) k := by
  simp [turns,List.range_succ_eq_map,Function.comp_def,Nat.add_assoc,Nat.add_comm 1]

theorem turns_mod (L start k : Nat) : turns L (start % L) k = turns L start k := by
  simp [turns]

theorem turns_lt (pos : 0 < L) {start k i : Nat} (member : i ∈ turns L start k) : i < L := by
  obtain ⟨_,_,rfl⟩ := List.mem_map.mp member
  exact Nat.mod_lt _ pos

/-- Each place has a turn in every full round, and those next in line have one more. -/
theorem count_turns (pos : 0 < L) (start k : Nat) {j : Nat} (inside : j < L) :
    (turns L start k).count j = k / L + if (j + (L - 1) * start) % L < k % L then 1 else 0 := by
  have around : start + (j + (L - 1) * start) = j + L * start := by
    obtain ⟨m,rfl⟩ := Nat.exists_eq_succ_of_ne_zero (Nat.ne_of_gt pos)
    simp only [Nat.succ_eq_add_one,Nat.add_sub_cancel]
    ring
  have turn : ∀ i, (start + i) % L = j ↔ i ≡ j + (L - 1) * start [MOD L] := by
    intro i
    have place : j % L = (start + (j + (L - 1) * start)) % L := by
      rw [around,Nat.add_mul_mod_self_left]
    constructor
    · intro at_j
      exact Nat.ModEq.add_left_cancel' start (at_j.trans ((Nat.mod_eq_of_lt inside).symm.trans place))
    · intro same
      exact Eq.trans (same.add_left start) (place.symm.trans (Nat.mod_eq_of_lt inside))
  rw [← Nat.count_modEq_card k pos,turns,List.count,List.countP_map,Nat.count]
  refine List.countP_congr fun i _ => ?_
  simp [turn i]

theorem turns_balanced (pos : 0 < L) (start k : Nat) {i j : Nat} (hi : i < L) (hj : j < L) :
    (turns L start k).count i ≤ (turns L start k).count j + 1 := by
  rw [count_turns pos start k hi,count_turns pos start k hj]
  split <;> split <;> omega

/-- In the first round nobody has a second turn. -/
theorem turns_once (pos : 0 < L) (start : Nat) {k : Nat} (round : k ≤ L) (j : Nat) :
    (turns L start k).count j ≤ 1 := by
  by_cases inside : j < L
  · rw [count_turns pos start k inside]
    rcases Nat.lt_or_eq_of_le round with short | rfl
    · rw [Nat.div_eq_of_lt short]
      split <;> omega
    · rw [Nat.div_self pos,Nat.mod_self,if_neg (Nat.not_lt_zero _)]
  · rw [List.count_eq_zero.mpr fun member => inside (turns_lt pos member)]
    exact Nat.zero_le 1

/-- Beyond it the first place has. -/
theorem turns_again (pos : 0 < L) (start : Nat) {k : Nat} (beyond : L < k) :
    2 ≤ (turns L start k).count (start % L) := by
  have first : (start % L + (L - 1) * start) % L = 0 := by
    obtain ⟨m,rfl⟩ := Nat.exists_eq_succ_of_ne_zero (Nat.ne_of_gt pos)
    rw [Nat.mod_add_mod,Nat.succ_eq_add_one,Nat.add_sub_cancel,
      show start + m * start = (m + 1) * start by ring]
    exact Nat.mul_mod_right _ _
  rw [count_turns pos start k (Nat.mod_lt start pos),first]
  have round : 0 < k / L := Nat.div_pos (Nat.le_of_lt beyond) pos
  have total := Nat.div_add_mod k L
  split
  · omega
  · rename_i whole
    have rest : k % L = 0 := by omega
    have more : ¬ k / L = 1 := fun once => by rw [once,rest] at total; omega
    omega

end RoundRobin
