import UvRpc.Vectors

/-! How far the growth loop goes: the capacities that a program can reach, and the
requests that the loop answers before its size_t wraps around. -/
namespace UvRpc
namespace CharVector

def candidate (v : CharVector) : Nat := if 64 < v.cap then v.cap else 64

/-- The loop gets from one candidate to another that fits, and none on the way wraps
around: each is above the one before. -/
inductive Climbs (n : Nat) : Nat → Nat → Prop
  | done {sz : Nat} : n ≤ sz → Climbs n sz sz
  | grows {sz sz' : Nat} : sz < n → sz < growStep sz → Climbs n (growStep sz) sz' → Climbs n sz sz'

/-- The growth loop of `reserve(n)` ends without a wrap, with room for n bytes. -/
def Grows (v : CharVector) (n : Nat) : Prop :=
  ∃ sz, grow growRounds n v.candidate = some sz ∧ Climbs n v.candidate sz ∧ n ≤ sz

def AppendFits (v : CharVector) (n : Nat) : Prop :=
  ∀ h buf r, buf.length = n → v.append h buf = some r → r.ok = true → v.len + n ≤ r.vec.cap

def ResizeFits (v : CharVector) (n : Nat) : Prop :=
  ∀ h r, v.resize h n = some r → r.ok = true → r.vec.len ≤ r.vec.cap

/-- The sizes that the growth steps lead to from 64: powers of two up to 16 MB, then
multiples of 1 MB, with zero where the sum wraps around. -/
def Shape (sz : Nat) : Prop := sz ∣ 2 ^ 24 ∨ 2 ^ 20 ∣ sz ∧ sz ≤ growable

theorem Shape.le {sz : Nat} (shape : Shape sz) : sz ≤ growable := by
  rcases shape with divides | ⟨_,le⟩
  · exact Nat.le_trans (Nat.le_of_dvd (by decide) divides) (by decide)
  · exact le

theorem Shape.growStep {sz : Nat} (shape : Shape sz) : Shape (growStep sz) := by
  by_cases small : sz ≤ doubling
  · rw [growStep_doubles small]
    unfold doubling at small
    rcases shape with divides | ⟨multiple,_⟩
    · obtain ⟨k,le,rfl⟩ := (Nat.dvd_prime_pow (m := 24) Nat.prime_two).mp divides
      have below : k < 24 := (Nat.pow_lt_pow_iff_right (by decide)).mp (by omega : 2 ^ k < 2 ^ 24)
      rw [← Nat.pow_succ]
      exact .inl (Nat.pow_dvd_pow 2 below)
    · exact .inr ⟨Dvd.dvd.mul_right multiple 2,by unfold growable; omega⟩
  · have multiple : 2 ^ 20 ∣ sz := by
      rcases shape with divides | ⟨multiple,_⟩
      · obtain ⟨k,le,rfl⟩ := (Nat.dvd_prime_pow (m := 24) Nat.prime_two).mp divides
        have above : 20 < k := (Nat.pow_lt_pow_iff_right (by decide)).mp
          (by unfold doubling at small; omega : 2 ^ 20 < 2 ^ k)
        exact Nat.pow_dvd_pow 2 (Nat.le_of_lt above)
      · exact multiple
    unfold doubling at small
    rw [CharVector.growStep,if_pos (by omega),wrap]
    exact .inr (by unfold growable; omega)

structure Reached (v : CharVector) : Prop where
  shape : Shape v.cap
  size : v.len < 2 ^ 64

theorem Reached.candidate {v : CharVector} (reached : v.Reached) : Shape v.candidate := by
  unfold CharVector.candidate
  split
  · exact reached.shape
  · exact .inl (by decide)

theorem Reached.reserve {h : Heap} {v : CharVector} {n : Nat} {r : Result} (shape : Shape v.cap)
    (reserved : v.reserve h n = some r) :
    Shape r.vec.cap ∧ r.vec.len = v.len ∧ (r.ok = true → n ≤ r.vec.cap) := by
  have kept : Shape r.vec.cap := by
    rcases reserve_preserves (P := Shape) (fun _ _ shape => shape.growStep) (.inl (by decide))
      (fun _ => shape) reserved with same | grown
    · rw [same]; exact shape
    · exact grown
  obtain ⟨sz,ends,rfl⟩ := Option.map_eq_some_iff.mp reserved
  obtain ⟨len,_,room⟩ := allocMem_sizes h v sz
  exact ⟨kept,len,fun ok => Nat.le_trans (grow_fits growRounds ends) (room ok)⟩

theorem Reached.resize {h : Heap} {v : CharVector} {n : Nat} {r : Result} (reached : v.Reached)
    (answered : v.resize h n = some r) :
    r.vec.Reached ∧ (r.ok = true → r.vec.len = n ∧ n ≤ r.vec.cap) := by
  have within : ∀ {cap}, Shape cap → n ≤ cap → n < 2 ^ 64 := fun shape fits =>
    Nat.lt_of_le_of_lt (Nat.le_trans fits shape.le) (by decide)
  unfold CharVector.resize at answered
  split at answered
  · obtain ⟨s,reserved,rfl⟩ := Option.map_eq_some_iff.mp answered
    obtain ⟨shape,len,room⟩ := Reached.reserve reached.shape reserved
    split
    · exact ⟨⟨shape,within shape (room ‹_›)⟩,fun _ => ⟨rfl,room ‹_›⟩⟩
    · exact ⟨⟨shape,by rw [len]; exact reached.size⟩,fun ok => absurd ok ‹_›⟩
  · cases answered
    have fits : n ≤ v.cap := Nat.le_of_not_gt ‹_›
    exact ⟨⟨reached.shape,within reached.shape fits⟩,fun _ => ⟨rfl,fits⟩⟩

theorem Reached.append {h : Heap} {v : CharVector} {buf : List UInt8} {r : Result} (reached : v.Reached)
    (answered : v.append h buf = some r) :
    r.vec.Reached ∧ (r.ok = true → wrap (v.len + buf.length) ≤ r.vec.cap) := by
  obtain ⟨s,reserved,rfl⟩ := Option.map_eq_some_iff.mp answered
  obtain ⟨shape,len,room⟩ := Reached.reserve reached.shape reserved
  split
  · exact ⟨⟨shape,Nat.mod_lt _ (by decide)⟩,room⟩
  · exact ⟨⟨shape,by rw [len]; exact reached.size⟩,room⟩

theorem Reached.push_back {h : Heap} {v : CharVector} {ch : UInt8} {r : Result} (reached : v.Reached)
    (answered : v.push_back h ch = some r) : r.vec.Reached := by
  unfold CharVector.push_back at answered
  split at answered
  · cases answered
    exact ⟨reached.shape,Nat.mod_lt _ (by decide)⟩
  · obtain ⟨s,reserved,rfl⟩ := Option.map_eq_some_iff.mp answered
    obtain ⟨shape,len,_⟩ := Reached.reserve reached.shape reserved
    split
    · exact ⟨shape,Nat.mod_lt _ (by decide)⟩
    · exact ⟨shape,by rw [len]; exact reached.size⟩

theorem Reached.call {h : Heap} {v : CharVector} {c : Call} {r : Result} (reached : v.Reached)
    (answered : c.run h v = some r) : r.vec.Reached := by
  cases c with
  | push_back ch => exact reached.push_back answered
  | append buf => exact (reached.append answered).1
  | reserve n =>
    obtain ⟨shape,len,_⟩ := Reached.reserve reached.shape answered
    exact ⟨shape,by rw [len]; exact reached.size⟩
  | resize n => exact (reached.resize answered).1
  | clear =>
    cases answered
    exact ⟨reached.shape,Nat.two_pow_pos 64⟩

theorem Reached.copyTo {h : Heap} {v other : CharVector} {r : Result} (_ : v.Reached)
    (other_reached : other.Reached) (answered : v.copyTo h other = some r) : r.vec.Reached := by
  obtain ⟨s,reserved,answered⟩ := Option.bind_eq_some_iff.mp answered
  obtain ⟨shape,len,_⟩ := Reached.reserve other_reached.shape reserved
  split at answered
  · obtain ⟨t,resized,rfl⟩ := Option.map_eq_some_iff.mp answered
    have written : (s.vec.setBytes (memcpy s.vec.bytes 0 v.contents)).Reached :=
      ⟨shape,by change s.vec.len < _; rw [len]; exact other_reached.size⟩
    exact (written.resize resized).1
  · cases answered
    exact ⟨shape,by rw [len]; exact other_reached.size⟩

theorem vectors_reached {h : Heap} {ops : List Op} {s : Vectors}
    (ran : Transition.run Vectors.step (Vectors.start h) ops = some s) : ∀ v ∈ s.vecs, v.Reached := by
  refine Transition.run_invariant_all (P := fun s => ∀ v ∈ s.vecs, v.Reached)
    (fun s op t all taken => Vectors.all_preserved (fun {h n r} built => ?_) Reached.call Reached.copyTo
      all taken) (fun _ member => by cases member) ran
  obtain ⟨shape,len,_⟩ := Reached.reserve (.inr ⟨Nat.dvd_zero _,Nat.zero_le _⟩) built
  exact ⟨shape,by rw [len]; decide⟩

/-- Up to the last multiple of 1 MB the loop climbs to a size that fits. -/
theorem climbs_to {n : Nat} (rounds sz : Nat) (pos : 0 < sz) (small : n ≤ growable) (enough : n - sz < rounds) :
    ∃ sz', grow rounds n sz = some sz' ∧ Climbs n sz sz' := by
  induction rounds generalizing sz with
  | zero => omega
  | succ rounds ih =>
    by_cases lt : sz < n
    · obtain ⟨progress,_⟩ := growStep_between pos lt small
      obtain ⟨sz',ends,climbs⟩ := ih (growStep sz) (by omega) (by omega)
      exact ⟨sz',by rw [grow,if_pos lt,ends],.grows lt progress climbs⟩
    · exact ⟨sz,by rw [grow,if_neg lt],.done (by omega)⟩

/-- Beyond it the loop never ends: no candidate is large enough. -/
theorem Reached.grow_never {v : CharVector} {n : Nat} (reached : v.Reached) (beyond : growable < n)
    (rounds : Nat) : grow rounds n v.candidate = none := by
  cases ends : grow rounds n v.candidate with
  | none => rfl
  | some sz =>
    have shape := grow_preserves rounds (fun _ _ shape => Shape.growStep shape) reached.candidate ends
    have fits := grow_fits rounds ends
    exact absurd (Nat.le_trans fits shape.le) (Nat.not_le.mpr beyond)

theorem Reached.grows_iff {v : CharVector} (reached : v.Reached) (n : Nat) : v.Grows n ↔ n ≤ growable := by
  constructor
  · rintro ⟨sz,ends,_⟩
    by_contra beyond
    rw [reached.grow_never (Nat.lt_of_not_le beyond)] at ends
    cases ends
  · intro small
    have pos : 0 < v.candidate := by unfold CharVector.candidate; split <;> omega
    obtain ⟨sz,ends,climbs⟩ := climbs_to growRounds v.candidate pos small
      (by unfold growRounds; unfold growable at small; omega)
    exact ⟨sz,ends,climbs,grow_fits growRounds ends⟩

theorem Reached.resizeFits {v : CharVector} (reached : v.Reached) (n : Nat) : v.ResizeFits n := by
  intro h r answered ok
  obtain ⟨len,fits⟩ := (reached.resize answered).2 ok
  rw [len]
  exact fits

theorem append_answers (v : CharVector) (buf : List UInt8) (small : wrap (v.len + buf.length) ≤ growable) :
    ∃ r, v.append plenty buf = some r ∧ r.ok = true := by
  obtain ⟨sz,asked,_⟩ := reserve_asks plenty v small
  obtain ⟨ok,_⟩ := allocMem_ok plenty_succeeds v sz
  refine ⟨_,by rw [CharVector.append,asked]; rfl,?_⟩
  simp only [ok,if_true]

/-- `append` writes beyond the capacity exactly where the sum of the sizes wraps around. -/
theorem Reached.appendFits_iff {v : CharVector} {n : Nat} (reached : v.Reached) (small : n ≤ growable) :
    v.AppendFits n ↔ v.len + n < 2 ^ 64 := by
  constructor
  · intro fits
    by_contra wraps
    have size := reached.size
    have below : wrap (v.len + n) ≤ growable := by
      unfold wrap
      omega
    obtain ⟨r,answered,ok⟩ := append_answers v (List.replicate n 0) (by simpa using below)
    have within := fits plenty _ r List.length_replicate answered ok
    have limit := (reached.append answered).1.shape.le
    unfold growable at limit
    omega
  · intro sum h buf r length answered ok
    have room := (reached.append answered).2 ok
    rwa [length,wrap,Nat.mod_eq_of_lt sum] at room

end CharVector
open CharVector

/-- The growth loop and what rests on it, for every vector of every program. -/
theorem growth_sound_iff {h : Heap} {ops : List Op} {s : Vectors} {v : CharVector} (n : Nat)
    (ran : Transition.run Vectors.step (Vectors.start h) ops = some s) (member : v ∈ s.vecs) :
    v.Grows n ∧ v.AppendFits n ∧ v.ResizeFits n ↔ n ≤ growable ∧ v.len + n < 2 ^ 64 := by
  have reached := vectors_reached ran v member
  rw [reached.grows_iff n]
  constructor
  · rintro ⟨small,append,_⟩
    exact ⟨small,(reached.appendFits_iff small).mp append⟩
  · rintro ⟨small,sum⟩
    exact ⟨small,(reached.appendFits_iff small).mpr sum,reached.resizeFits n⟩

/-- What the default constructor builds on an allocator that grants its request. -/
def empty_1024 : CharVector := ⟨some ⟨0,Grant.fresh ⟨0,fun _ => 0⟩ 1024⟩,0,1024⟩

theorem empty_1024_built :
    Transition.run Vectors.step (Vectors.start plenty) [.new] = some ⟨[empty_1024],plenty.next,true⟩ := rfl

theorem growth_sound_iff_1024 : empty_1024.Grows 5000 ∧ empty_1024.AppendFits 5000 ∧ empty_1024.ResizeFits 5000 :=
  (growth_sound_iff 5000 empty_1024_built (List.mem_singleton_self _)).mpr (by decide)

/-- The largest size_t: from 1024 the loop doubles up to 16 MB, goes on in steps of 1 MB up to
2^64 - 2^20, wraps around to zero and stays there. -/
theorem empty_1024_never_grows :
    Transition.run Vectors.step (Vectors.start plenty) [.new] = some ⟨[empty_1024],plenty.next,true⟩ ∧
      grow growRounds (2 ^ 64 - 1) empty_1024.candidate = none ∧
      ¬ (empty_1024.Grows (2 ^ 64 - 1) ∧ empty_1024.AppendFits (2 ^ 64 - 1) ∧
        empty_1024.ResizeFits (2 ^ 64 - 1)) := by
  have reached := vectors_reached empty_1024_built empty_1024 (List.mem_singleton_self _)
  refine ⟨empty_1024_built,reached.grow_never (by decide) growRounds,?_⟩
  rintro ⟨grows,_⟩
  exact absurd ((reached.grows_iff _).mp grows) (by decide)

end UvRpc
