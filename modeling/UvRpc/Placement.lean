import Mathlib

/-! Tokens lying in places. A placement says that every token lies in at most one
place and at most once there, and it survives moving tokens between places. -/
namespace Placement

variable {P R : Type*} [DecidableEq P] [DecidableEq R]

/-- Each token lies once where `loc` says and nowhere else. -/
def Placed (held : P → List R) (loc : R → Option P) : Prop :=
  ∀ p r, (held p).count r = if loc r = some p then 1 else 0

variable {held held' : P → List R} {loc : R → Option P}

theorem Placed.mem_iff (placed : Placed held loc) {p : P} {r : R} :
    r ∈ held p ↔ loc r = some p := by
  rw [← List.count_pos_iff,placed p r]
  split <;> simp_all

theorem Placed.nodup (placed : Placed held loc) (p : P) : (held p).Nodup := by
  rw [List.nodup_iff_count_le_one]
  intro r
  rw [placed p r]
  split <;> omega

theorem Placed.same_place (placed : Placed held loc) {p q : P} {r : R}
    (hp : r ∈ held p) (hq : r ∈ held q) : p = q :=
  Option.some.inj ((placed.mem_iff.mp hp).symm.trans (placed.mem_iff.mp hq))

theorem Placed.unmoved (placed : Placed held loc) {moved : List R} {dst : Option P}
    (placed' : Placed held' (fun r => if r ∈ moved then dst else loc r)) {p : P} {r : R} (apart : r ∉ moved) :
    r ∈ held' p ↔ r ∈ held p := by
  rw [placed'.mem_iff,placed.mem_iff,if_neg apart]

/-- Moving tokens from one place to another; the other places keep theirs. -/
theorem Placed.transfer (placed : Placed held loc) {src dst : P} {moved keep : List R}
    (apart : src ≠ dst) (before : (held src).Perm (moved ++ keep))
    (after : (held' src).Perm keep) (arrived : (held' dst).Perm (held dst ++ moved))
    (others : ∀ p, p ≠ src → p ≠ dst → held' p = held p) :
    Placed held' (fun r => if r ∈ moved then some dst else loc r) := by
  intro p r
  have atSrc := placed src r
  rw [before.count_eq,List.count_append] at atSrc
  by_cases hm : r ∈ moved
  · have positive : 0 < moved.count r := List.count_pos_iff.mpr hm
    have source : loc r = some src := by
      by_contra elsewhere
      rw [if_neg elsewhere] at atSrc
      omega
    rw [if_pos source] at atSrc
    simp only [hm,if_true,Option.some.injEq]
    by_cases isDst : p = dst
    · subst p
      rw [arrived.count_eq,List.count_append,placed dst r,source]
      simp only [Option.some.injEq,if_neg apart,if_true]
      omega
    · rw [if_neg (Ne.symm isDst)]
      by_cases isSrc : p = src
      · subst p
        rw [after.count_eq]
        omega
      · rw [others p isSrc isDst,placed p r,source]
        simp [Ne.symm isSrc]
  · have none_moved : moved.count r = 0 := List.count_eq_zero.mpr hm
    simp only [hm,if_false]
    by_cases isDst : p = dst
    · subst p
      rw [arrived.count_eq,List.count_append,none_moved,placed dst r,Nat.add_zero]
    · by_cases isSrc : p = src
      · subst p
        rw [after.count_eq,← atSrc,none_moved,Nat.zero_add]
      · rw [others p isSrc isDst,placed p r]

theorem Placed.insert (placed : Placed held loc) {dst : P} {fresh : R} (absent : loc fresh = none)
    (arrived : (held' dst).Perm (held dst ++ [fresh])) (others : ∀ p, p ≠ dst → held' p = held p) :
    Placed held' (fun r => if r = fresh then some dst else loc r) := by
  intro p r
  by_cases isDst : p = dst
  · subst p
    rw [arrived.count_eq,List.count_append,placed dst r,List.count_singleton]
    by_cases same : r = fresh
    · subst r; simp [absent]
    · simp [same,Ne.symm same]
  · rw [others p isDst,placed p r]
    by_cases same : r = fresh
    · subst r; simp [absent,Ne.symm isDst]
    · simp [same]

theorem Placed.remove (placed : Placed held loc) {src : P} {moved keep : List R}
    (before : (held src).Perm (moved ++ keep)) (after : (held' src).Perm keep)
    (others : ∀ p, p ≠ src → held' p = held p) : Placed held' (fun r => if r ∈ moved then none else loc r) := by
  intro p r
  have atSrc := placed src r
  rw [before.count_eq,List.count_append] at atSrc
  by_cases hm : r ∈ moved
  · have positive : 0 < moved.count r := List.count_pos_iff.mpr hm
    have source : loc r = some src := by
      by_contra elsewhere
      rw [if_neg elsewhere] at atSrc
      omega
    rw [if_pos source] at atSrc
    simp only [hm,if_true,reduceCtorEq,if_false]
    by_cases isSrc : p = src
    · subst p
      rw [after.count_eq]
      omega
    · rw [others p isSrc,placed p r,source]
      simp [Ne.symm isSrc]
  · have none_moved : moved.count r = 0 := List.count_eq_zero.mpr hm
    simp only [hm,if_false]
    by_cases isSrc : p = src
    · subst p
      rw [after.count_eq,← atSrc,none_moved,Nat.zero_add]
    · rw [others p isSrc,placed p r]

end Placement
