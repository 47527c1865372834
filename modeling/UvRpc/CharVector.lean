import Mathlib

/-! CharVector, the growable byte buffer under every message, over an allocator
whose answers are arbitrary: each request may fail, move the block, and hand out
memory with any contents. Sizes are size_t, so their arithmetic is modulo 2^64.
An operation answers none only when its growth loop never ends. -/
namespace UvRpc

structure Block where
  addr : Nat
  bytes : List UInt8
  deriving DecidableEq, Repr

/-- One granted request: where the block is and what the new memory happens to hold. -/
structure Grant where
  addr : Nat
  fill : Nat → UInt8

/-- `answer k` is the allocator's answer to request number k, none for a failure. -/
structure Heap where
  answer : Nat → Option Grant
  asked : Nat

def Heap.Succeeds (h : Heap) : Prop := ∀ k, (h.answer k).isSome

def Grant.fresh (g : Grant) (n : Nat) : List UInt8 := (List.range n).map g.fill

def Heap.next (h : Heap) : Heap := {h with asked := h.asked + 1}

def Heap.malloc (h : Heap) (n : Nat) : Option Block × Heap :=
  ((h.answer h.asked).map fun g => ⟨g.addr,g.fresh n⟩,h.next)

/-- Only called to enlarge: the old bytes are kept and the rest is indeterminate. -/
def Heap.realloc (h : Heap) (b : Block) (n : Nat) : Option Block × Heap :=
  ((h.answer h.asked).map fun g => ⟨g.addr,b.bytes ++ g.fresh (n - b.bytes.length)⟩,h.next)

/-- Where realloc, or else malloc, puts the block, or where it was when both fail. -/
def Heap.landing (h : Heap) (b : Block) : Nat :=
  match h.answer h.asked with
  | some g => g.addr
  | none =>
    match h.answer (h.asked + 1) with
    | some g => g.addr
    | none => b.addr

@[simp] theorem Grant.fresh_length (g : Grant) (n : Nat) : (g.fresh n).length = n := by
  simp [Grant.fresh]

@[simp] theorem Heap.next_succeeds {h : Heap} : h.next.Succeeds ↔ h.Succeeds := Iff.rfl

/-- An allocator that never fails and always moves the block. -/
def plenty : Heap := ⟨fun k => some ⟨k,fun _ => 0⟩,0⟩

theorem plenty_succeeds : plenty.Succeeds := fun _ => rfl

def memcpy (dst : List UInt8) (off : Nat) (src : List UInt8) : List UInt8 :=
  dst.take off ++ src ++ dst.drop (off + src.length)

theorem memcpy_length {dst src : List UInt8} {off : Nat} (fits : off + src.length ≤ dst.length) :
    (memcpy dst off src).length = dst.length := by
  simp [memcpy]; omega

theorem memcpy_take (dst src : List UInt8) {off : Nat} (fits : off ≤ dst.length) :
    (memcpy dst off src).take (off + src.length) = dst.take off ++ src := by
  rw [memcpy,List.take_left']
  simp [fits]

structure CharVector where
  base_ptr : Option Block
  len : Nat
  cap : Nat
  deriving DecidableEq, Repr

namespace CharVector

structure Result where
  ok : Bool
  vec : CharVector
  heap : Heap

def wrap (n : Nat) : Nat := n % 2 ^ 64

/-- The growth step of `reserve` and `push_back`: doubling, then steps of 1 MB. -/
def growStep (sz : Nat) : Nat :=
  if sz > 10 * 1024 * 1024 then wrap (sz + 1024 * 1024) else wrap (sz * 2)

/-- The loop `while (sz < n)` of `reserve`, none when it runs out of rounds. -/
def grow : Nat → Nat → Nat → Option Nat
  | 0, _, _ => none
  | rounds + 1, n, sz => if sz < n then grow rounds n (growStep sz) else some sz

/-- More rounds than the loop can make before the candidate size repeats. -/
def growRounds : Nat := 2 ^ 64 + 1

def bytes (v : CharVector) : List UInt8 :=
  match v.base_ptr with
  | none => []
  | some b => b.bytes

/-- What the vector holds: the first `len` bytes of its block. -/
def contents (v : CharVector) : List UInt8 := v.bytes.take v.len

def setBytes (v : CharVector) (bytes : List UInt8) : CharVector :=
  {v with base_ptr := v.base_ptr.map fun b => {b with bytes := bytes}}

def allocMem (h : Heap) (v : CharVector) (n : Nat) : Result :=
  match v.base_ptr with
  | none =>
    match h.malloc n with
    | (none,h) => ⟨false,v,h⟩
    | (some b,h) => ⟨true,{v with base_ptr := some b, cap := n},h⟩
  | some old =>
    if n > v.cap then
      match h.realloc old n with
      | (some b,h) => ⟨true,{v with base_ptr := some b, cap := n},h⟩
      | (none,h) =>
        match h.malloc n with
        | (none,h) => ⟨false,v,h⟩
        | (some b,h) =>
          ⟨true,{v with base_ptr := some {b with bytes := memcpy b.bytes 0 (old.bytes.take v.len)}, cap := n},h⟩
    else ⟨true,v,h⟩

def reserve (h : Heap) (v : CharVector) (n : Nat) : Option Result :=
  (grow growRounds n (if 64 < v.cap then v.cap else 64)).map fun sz => v.allocMem h sz

/-- `base_ptr[len] = ch; len++` -/
def store (v : CharVector) (ch : UInt8) : CharVector :=
  {v.setBytes (memcpy v.bytes v.len [ch]) with len := wrap (v.len + 1)}

def push_back (h : Heap) (v : CharVector) (ch : UInt8) : Option Result :=
  if v.len < v.cap then some ⟨true,v.store ch,h⟩
  else
    (v.reserve h (growStep v.cap)).map fun r =>
      if r.ok then {r with vec := r.vec.store ch} else r

def clear (v : CharVector) : CharVector := {v with len := 0}

def append (h : Heap) (v : CharVector) (buf : List UInt8) : Option Result :=
  (v.reserve h (wrap (v.len + buf.length))).map fun r =>
    if r.ok then
      {r with vec := {r.vec.setBytes (memcpy r.vec.bytes r.vec.len buf) with
        len := wrap (r.vec.len + buf.length)}}
    else r

def resize (h : Heap) (v : CharVector) (n : Nat) : Option Result :=
  if n > v.cap then
    (v.reserve h n).map fun r => if r.ok then {r with vec := {r.vec with len := n}} else r
  else some ⟨true,{v with len := n},h⟩

/-- The answer carries `other`, the vector copied to; the result of its `resize` is
not looked at. -/
def copyTo (h : Heap) (v other : CharVector) : Option Result :=
  (other.reserve h v.len).bind fun r =>
    if r.ok then
      ((r.vec.setBytes (memcpy r.vec.bytes 0 v.contents)).resize r.heap v.len).map fun s =>
        {s with ok := true}
    else some r

def null : CharVector := ⟨none,0,0⟩

def ofSize (h : Heap) (n : Nat) : Option Result := null.reserve h n

def new (h : Heap) : Option Result := null.reserve h 1024

structure Valid (v : CharVector) : Prop where
  size_le : v.len ≤ v.cap
  block : v.bytes.length = v.cap

/-- The size up to which the growth loop only doubles. -/
def doubling : Nat := 10 * 1024 * 1024

/-- The largest request that the growth loop reaches before its size_t wraps. -/
def growable : Nat := 2 ^ 64 - 1024 * 1024

@[simp] theorem null_valid : null.Valid := ⟨Nat.le_refl 0, rfl⟩

theorem Valid.contents_length {v : CharVector} (valid : v.Valid) : v.contents.length = v.len := by
  have := valid.size_le
  have := valid.block
  simp [contents]; omega

theorem Valid.present {v : CharVector} (valid : v.Valid) (some_held : 0 < v.len) :
    ∃ old, v.base_ptr = some old := by
  have block := valid.block
  have size := valid.size_le
  cases base : v.base_ptr with
  | none => simp [bytes,base] at block; omega
  | some old => exact ⟨old,rfl⟩

@[simp] theorem clear_contents (v : CharVector) : v.clear.contents = [] := by simp [clear,contents]
@[simp] theorem clear_len (v : CharVector) : v.clear.len = 0 := rfl

theorem Valid.clear {v : CharVector} (valid : v.Valid) : v.clear.Valid :=
  ⟨Nat.zero_le _, valid.block⟩

theorem setBytes_bytes {v : CharVector} (present : v.base_ptr ≠ none) (bytes : List UInt8) :
    (v.setBytes bytes).bytes = bytes := by
  unfold setBytes CharVector.bytes
  cases h : v.base_ptr with
  | none => exact absurd h present
  | some b => rfl

theorem setBytes_present {v : CharVector} (present : v.base_ptr ≠ none) (bytes : List UInt8) :
    (v.setBytes bytes).base_ptr ≠ none := by
  simpa [setBytes] using present

@[simp] theorem setBytes_addr (v : CharVector) (bytes : List UInt8) :
    (v.setBytes bytes).base_ptr.map Block.addr = v.base_ptr.map Block.addr := by
  unfold setBytes
  cases v.base_ptr <;> rfl

theorem growStep_doubles {sz : Nat} (small : sz ≤ doubling) : growStep sz = sz * 2 := by
  unfold doubling at small
  rw [growStep,if_neg (by omega),wrap,Nat.mod_eq_of_lt (by omega)]

/-- Below the request a growth step makes progress and at most doubles. -/
theorem growStep_between {sz n : Nat} (pos : 0 < sz) (lt : sz < n) (small : n ≤ growable) :
    sz < growStep sz ∧ growStep sz ≤ 2 * sz := by
  unfold growable at small
  unfold growStep wrap
  split <;> omega

/-- The loop ends with the first candidate that fits the request. -/
theorem grow_spec {n : Nat} (rounds sz : Nat) (pos : 0 < sz) (small : n ≤ growable) (enough : n - sz < rounds) :
    ∃ sz', grow rounds n sz = some sz' ∧ n ≤ sz' ∧ sz ≤ sz' ∧ (sz' = sz ∨ sz < n ∧ sz' < 2 * n) := by
  induction rounds generalizing sz with
  | zero => omega
  | succ rounds ih =>
    by_cases lt : sz < n
    · obtain ⟨progress,twice⟩ := growStep_between pos lt small
      obtain ⟨sz',h,fits,le,bound⟩ := ih (growStep sz) (by omega) (by omega)
      refine ⟨sz',?_,fits,by omega,by omega⟩
      rw [grow,if_pos lt,h]
    · exact ⟨sz,by rw [grow,if_neg lt],by omega,Nat.le_refl _,.inl rfl⟩

/-- What `reserve(n)` does when it succeeds: room for n bytes and nothing lost. -/
structure Grown (v v' : CharVector) (n : Nat) : Prop where
  valid : v'.Valid
  present : v'.base_ptr ≠ none
  len : v'.len = v.len
  contents : v'.contents = v.contents
  room : n ≤ v'.cap
  cap_mono : v.cap ≤ v'.cap
  cap_le : v'.cap ≤ max v.cap (max 64 (2 * n))

inductive Allocated (h : Heap) (v : CharVector) (n : Nat) : Result → Prop
  | noBlock (base : v.base_ptr = none) (first : h.answer h.asked = none) : Allocated h v n ⟨false,v,h.next⟩
  | firstBlock (base : v.base_ptr = none) {g : Grant} (first : h.answer h.asked = some g) :
    Allocated h v n ⟨true,{v with base_ptr := some ⟨g.addr,g.fresh n⟩, cap := n},h.next⟩
  | enough {old : Block} (base : v.base_ptr = some old) (fits : n ≤ v.cap) : Allocated h v n ⟨true,v,h⟩
  | realloc {old : Block} (base : v.base_ptr = some old) (grows : v.cap < n) {g : Grant}
      (first : h.answer h.asked = some g) :
    Allocated h v n
      ⟨true,{v with base_ptr := some ⟨g.addr,old.bytes ++ g.fresh (n - old.bytes.length)⟩, cap := n},h.next⟩
  | malloc {old : Block} (base : v.base_ptr = some old) (grows : v.cap < n) {g : Grant}
      (first : h.answer h.asked = none) (second : h.answer (h.asked + 1) = some g) :
    Allocated h v n ⟨true,
      {v with base_ptr := some ⟨g.addr,memcpy (g.fresh n) 0 (old.bytes.take v.len)⟩, cap := n},h.next.next⟩
  | refused {old : Block} (base : v.base_ptr = some old) (grows : v.cap < n)
      (first : h.answer h.asked = none) (second : h.answer (h.asked + 1) = none) :
    Allocated h v n ⟨false,v,h.next.next⟩

theorem allocMem_allocated (h : Heap) (v : CharVector) (n : Nat) : Allocated h v n (v.allocMem h n) := by
  cases base : v.base_ptr with
  | none =>
    rw [allocMem,base]
    simp only [Heap.malloc]
    cases first : h.answer h.asked with
    | none => exact .noBlock base first
    | some g => exact .firstBlock base first
  | some old =>
    by_cases grows : v.cap < n
    · cases first : h.answer h.asked with
      | some g =>
        rw [allocMem,base]
        simp only [grows,if_true,Heap.realloc,first,Option.map_some]
        exact .realloc base grows first
      | none =>
        have after : h.next.answer h.next.asked = h.answer (h.asked + 1) := rfl
        rw [allocMem,base]
        simp only [grows,if_true,Heap.realloc,Heap.malloc,first,after,Option.map_none]
        cases second : h.answer (h.asked + 1) with
        | none => exact .refused base grows first second
        | some g => exact .malloc base grows first second
    · rw [allocMem,base]
      simp only [grows,if_false]
      exact .enough base (Nat.le_of_not_gt grows)

/-- What enlarging the block leaves unchanged. -/
structure Same (v v' : CharVector) : Prop where
  valid : v'.Valid
  len : v'.len = v.len
  contents : v'.contents = v.contents

/-- Whatever the allocator answers, nothing is lost: either there is room for n bytes
or the vector is as before. -/
theorem allocMem_same {h : Heap} {v : CharVector} {n : Nat} (valid : v.Valid) (larger : v.cap ≤ n) :
    Same v (v.allocMem h n).vec ∧
      ((v.allocMem h n).ok = true ∧ (v.allocMem h n).vec.base_ptr ≠ none ∧ (v.allocMem h n).vec.cap = n ∨
        (v.allocMem h n).ok = false ∧ (v.allocMem h n).vec = v) := by
  have size := valid.size_le
  have block := valid.block
  have allocated := allocMem_allocated h v n
  generalize v.allocMem h n = r at allocated
  cases allocated with
  | noBlock => exact ⟨⟨valid,rfl,rfl⟩,.inr ⟨rfl,rfl⟩⟩
  | firstBlock base =>
    have none_held : v.len = 0 := by simp [bytes,base] at block; omega
    refine ⟨⟨⟨by simp; omega,Grant.fresh_length _ _⟩,rfl,?_⟩,.inl ⟨rfl,by simp,rfl⟩⟩
    simp [contents,none_held]
  | enough base fits => exact ⟨⟨valid,rfl,rfl⟩,.inl ⟨rfl,by simp [base],show v.cap = n by omega⟩⟩
  | @realloc old base grows g first =>
    simp only [bytes,base] at block
    refine ⟨⟨⟨by simp; omega,by simp [bytes]; omega⟩,rfl,?_⟩,.inl ⟨rfl,by simp,rfl⟩⟩
    simp only [contents,bytes,base]
    exact List.take_append_of_le_length (by omega)
  | @malloc old base grows g first second =>
    simp only [bytes,base] at block
    have length := g.fresh_length n
    have copied : (old.bytes.take v.len).length = v.len := by simp; omega
    have front := memcpy_take (g.fresh n) (old.bytes.take v.len) (Nat.zero_le _)
    rw [copied,Nat.zero_add,List.take_zero,List.nil_append] at front
    refine ⟨⟨⟨by simp; omega,?_⟩,rfl,?_⟩,.inl ⟨rfl,by simp,rfl⟩⟩
    · exact (memcpy_length (by omega)).trans length
    · simp only [contents,bytes,base]
      exact front
  | refused => exact ⟨⟨valid,rfl,rfl⟩,.inr ⟨rfl,rfl⟩⟩

theorem allocMem_ok {h : Heap} (succeeds : h.Succeeds) (v : CharVector) (n : Nat) :
    (v.allocMem h n).ok = true ∧ (v.allocMem h n).heap.Succeeds := by
  have never : h.answer h.asked ≠ none := Option.isSome_iff_ne_none.mp (succeeds h.asked)
  have allocated := allocMem_allocated h v n
  generalize v.allocMem h n = r at allocated
  cases allocated with
  | noBlock _ first => exact absurd first never
  | firstBlock | enough | realloc => exact ⟨rfl,succeeds⟩
  | malloc _ _ first => exact absurd first never
  | refused _ _ first => exact absurd first never

/-- The size that `reserve(n)` asks for: at least n, and more than the capacity only if
the request does not fit. -/
theorem reserve_asks (h : Heap) (v : CharVector) {n : Nat} (small : n ≤ growable) :
    ∃ sz, v.reserve h n = some (v.allocMem h sz) ∧ v.cap ≤ sz ∧ n ≤ sz ∧
      sz ≤ max v.cap (max 64 (2 * n)) ∧ (v.cap < sz ↔ v.cap < max 64 n) := by
  obtain ⟨start,start_eq⟩ : ∃ start, start = if 64 < v.cap then v.cap else 64 := ⟨_,rfl⟩
  have larger : start = max v.cap 64 := by rw [start_eq]; split <;> omega
  obtain ⟨sz,ends,fits,le,bound⟩ := grow_spec growRounds start (by omega) small
    (by unfold growRounds; unfold growable at small; omega)
  exact ⟨sz,by rw [reserve,← start_eq,ends]; rfl,by omega,fits,by omega,by omega⟩

theorem reserve_cases {h : Heap} {v : CharVector} {n : Nat} (valid : v.Valid) (small : n ≤ growable) :
    ∃ sz, v.reserve h n = some (v.allocMem h sz) ∧ (v.cap < sz ↔ v.cap < max 64 n) ∧
      ((v.allocMem h sz).ok = true ∧ Grown v (v.allocMem h sz).vec n ∨
        (v.allocMem h sz).ok = false ∧ (v.allocMem h sz).vec = v) := by
  obtain ⟨sz,asked,le,fits,bound,grows⟩ := reserve_asks h v small
  rcases allocMem_same (h := h) valid le with ⟨same,⟨ok,present,cap⟩ | failed⟩
  · exact ⟨sz,asked,grows,
      .inl ⟨ok,same.valid,present,same.len,same.contents,by omega,by omega,by omega⟩⟩
  · exact ⟨sz,asked,grows,.inr failed⟩

theorem reserve_spec {h : Heap} {v : CharVector} {n : Nat} (valid : v.Valid)
    (succeeds : h.Succeeds) (small : n ≤ growable) :
    ∃ r, v.reserve h n = some r ∧ r.ok = true ∧ r.heap.Succeeds ∧ Grown v r.vec n := by
  rcases reserve_cases (h := h) valid small with ⟨sz,asked,_,⟨_,grown⟩ | ⟨failed,_⟩⟩
  · obtain ⟨ok,heap⟩ := allocMem_ok succeeds v sz
    exact ⟨_,asked,ok,heap,grown⟩
  · exact absurd ((allocMem_ok succeeds v sz).1.symm.trans failed) (by decide)

theorem allocMem_addr {h : Heap} {v : CharVector} {old : Block} (base : v.base_ptr = some old) (n : Nat) :
    (v.allocMem h n).vec.base_ptr.map Block.addr =
      some (if v.cap < n then h.landing old else old.addr) := by
  have allocated := allocMem_allocated h v n
  generalize v.allocMem h n = r at allocated
  cases allocated with
  | noBlock absent => rw [base] at absent; cases absent
  | firstBlock absent => rw [base] at absent; cases absent
  | enough _ fits => simp [base,Nat.not_lt.mpr fits]
  | realloc _ grows first => simp [grows,Heap.landing,first]
  | malloc _ grows first second => simp [grows,Heap.landing,first,second]
  | refused _ grows first second => simp [base,grows,Heap.landing,first,second]

/-- What the growth steps below a request preserve holds where the loop ends. -/
theorem grow_preserves {P : Nat → Prop} {n sz sz' : Nat} (rounds : Nat)
    (stable : ∀ sz, sz < n → P sz → P (growStep sz)) (holds : P sz)
    (ends : grow rounds n sz = some sz') : P sz' := by
  induction rounds generalizing sz with
  | zero => cases ends
  | succ rounds ih =>
    rw [grow] at ends
    split at ends
    · exact ih (stable sz ‹_› holds) ends
    · cases ends
      exact holds

theorem grow_fits {n sz sz' : Nat} (rounds : Nat) (ends : grow rounds n sz = some sz') : n ≤ sz' := by
  induction rounds generalizing sz with
  | zero => cases ends
  | succ rounds ih =>
    rw [grow] at ends
    split at ends
    · exact ih ends
    · cases ends
      omega

/-- What `allocMem` does to the two sizes, whether or not the vector is valid. -/
theorem allocMem_sizes (h : Heap) (v : CharVector) (n : Nat) :
    (v.allocMem h n).vec.len = v.len ∧
      ((v.allocMem h n).vec.cap = v.cap ∨ (v.allocMem h n).vec.cap = n) ∧
      ((v.allocMem h n).ok = true → n ≤ (v.allocMem h n).vec.cap) := by
  have allocated := allocMem_allocated h v n
  generalize v.allocMem h n = r at allocated
  cases allocated with
  | noBlock | refused => exact ⟨rfl,.inl rfl,fun ok => by cases ok⟩
  | firstBlock | realloc | malloc => exact ⟨rfl,.inr rfl,fun _ => Nat.le_refl n⟩
  | enough _ fits => exact ⟨rfl,.inl rfl,fun _ => fits⟩

/-- A new capacity is reached by growth steps from the old one or from 64. -/
theorem reserve_preserves {P : Nat → Prop} {h : Heap} {v : CharVector} {n : Nat} {r : Result}
    (stable : ∀ sz, sz < n → P sz → P (growStep sz)) (least : P 64) (holds : 64 < v.cap → P v.cap)
    (reserved : v.reserve h n = some r) : r.vec.cap = v.cap ∨ P r.vec.cap := by
  obtain ⟨sz,ends,rfl⟩ := Option.map_eq_some_iff.mp reserved
  have start : P (if 64 < v.cap then v.cap else 64) := by
    split
    · exact holds ‹_›
    · exact least
  rcases (allocMem_sizes h v sz).2.1 with same | grown
  · exact .inl same
  · rw [grown]
    exact .inr (grow_preserves growRounds stable start ends)

theorem reserve_divides {h : Heap} {v : CharVector} {n : Nat} {r : Result} (small : n ≤ 131072)
    (divides : 64 < v.cap → v.cap ∣ 131072) (reserved : v.reserve h n = some r) :
    r.vec.cap = v.cap ∨ r.vec.cap ∣ 131072 := by
  apply reserve_preserves (P := (· ∣ 131072)) (fun sz lt divides => ?_) (by decide) divides reserved
  obtain ⟨k,le,rfl⟩ := (Nat.dvd_prime_pow (m := 17) Nat.prime_two).mp divides
  have below : k < 17 := (Nat.pow_lt_pow_iff_right (by decide)).mp (by omega : 2 ^ k < 2 ^ 17)
  rw [growStep_doubles (by unfold doubling; omega),← Nat.pow_succ]
  exact Nat.pow_dvd_pow 2 below

theorem append_divides {h : Heap} {v : CharVector} {buf : List UInt8} {r : Result}
    (small : v.len + buf.length ≤ 131072) (divides : v.cap ∣ 131072)
    (appended : v.append h buf = some r) : r.vec.cap ∣ 131072 := by
  obtain ⟨s,reserved,rfl⟩ := Option.map_eq_some_iff.mp appended
  have exact_sum : wrap (v.len + buf.length) = v.len + buf.length := Nat.mod_eq_of_lt (by omega)
  have kept : s.vec.cap ∣ 131072 := by
    rcases reserve_divides (by omega) (fun _ => divides) reserved with same | grown
    · rw [same]; exact divides
    · exact grown
  split <;> exact kept

structure Outcome (v : CharVector) (effect : CharVector → Prop) (r : Result) : Prop where
  valid : r.vec.Valid
  cap_mono : v.cap ≤ r.vec.cap
  done : r.ok = true → effect r.vec
  failed : r.ok = false → r.vec = v

theorem Outcome.mono {v : CharVector} {effect weaker : CharVector → Prop} {r : Result} (outcome : Outcome v effect r)
    (weaken : ∀ w, effect w → weaker w) : Outcome v weaker r :=
  ⟨outcome.valid,outcome.cap_mono,fun ok => weaken _ (outcome.done ok),outcome.failed⟩

/-- The method answers true if its allocator never fails. -/
def Result.Granted (r : Result) (h : Heap) : Prop := h.Succeeds → r.ok = true ∧ r.heap.Succeeds

/-- A method that asks `reserve` for room and then finishes on the enlarged vector. -/
theorem reserve_then {h : Heap} {v : CharVector} {n : Nat} (finish : CharVector → CharVector)
    {effect : CharVector → Prop} (valid : v.Valid) (small : n ≤ growable)
    (finished : ∀ v', Grown v v' n → (finish v').Valid ∧ (finish v').cap = v'.cap ∧ effect (finish v')) :
    ∃ r, ((v.reserve h n).map fun r => if r.ok then {r with vec := finish r.vec} else r) = some r ∧
      Outcome v effect r ∧ r.Granted h := by
  rcases reserve_cases (h := h) valid small with ⟨sz,asked,_,⟨ok,grown⟩ | ⟨refused,same⟩⟩
  · obtain ⟨kept,cap,reached⟩ := finished _ grown
    refine ⟨{v.allocMem h sz with vec := finish (v.allocMem h sz).vec},by simp [asked,ok],
      ⟨kept,?_,fun _ => reached,fun failed => ?_⟩,fun succeeds => allocMem_ok succeeds v sz⟩
    · rw [cap]
      exact grown.cap_mono
    · exact absurd (ok.symm.trans failed) (by decide)
  · refine ⟨v.allocMem h sz,by simp [asked,refused],⟨by rw [same]; exact valid,by rw [same],
      fun ok => ?_,fun _ => same⟩,fun succeeds => allocMem_ok succeeds v sz⟩
    exact absurd (ok.symm.trans refused) (by decide)

def write (v : CharVector) (buf : List UInt8) : CharVector :=
  {v.setBytes (memcpy v.bytes v.len buf) with len := wrap (v.len + buf.length)}

theorem append_eq (h : Heap) (v : CharVector) (buf : List UInt8) : v.append h buf =
    (v.reserve h (wrap (v.len + buf.length))).map fun r =>
      if r.ok then {r with vec := r.vec.write buf} else r := rfl

theorem store_eq (v : CharVector) (ch : UInt8) : v.store ch = v.write [ch] := rfl

theorem write_grown {v v' : CharVector} {n : Nat} (grown : Grown v v' n) (buf : List UInt8)
    (fits : v.len + buf.length ≤ n) (small : n ≤ growable) :
    (v'.write buf).Valid ∧ (v'.write buf).cap = v'.cap ∧
      (v'.write buf).base_ptr ≠ none ∧ (v'.write buf).contents = v.contents ++ buf := by
  have block := grown.valid.block
  have size := grown.valid.size_le
  have room := grown.room
  have len := grown.len
  have exact_sum : wrap (v'.len + buf.length) = v'.len + buf.length :=
    Nat.mod_eq_of_lt (by unfold growable at small; omega)
  have bytes : (v'.write buf).bytes = memcpy v'.bytes v'.len buf := setBytes_bytes grown.present _
  have end_ : (v'.write buf).len = v'.len + buf.length := exact_sum
  refine ⟨⟨?_,?_⟩,rfl,setBytes_present grown.present _,?_⟩
  · rw [end_]
    change v'.len + buf.length ≤ v'.cap
    omega
  · rw [bytes,memcpy_length (by omega)]
    exact block
  · rw [contents,bytes,end_,memcpy_take _ _ (by omega),← grown.contents]
    rfl

theorem append_outcome {h : Heap} {v : CharVector} (valid : v.Valid) (buf : List UInt8)
    (small : v.len + buf.length ≤ growable) :
    ∃ r, v.append h buf = some r ∧
      Outcome v (fun w => w.base_ptr ≠ none ∧ w.contents = v.contents ++ buf) r ∧ r.Granted h := by
  rw [append_eq,wrap,Nat.mod_eq_of_lt (by unfold growable at small; omega)]
  apply reserve_then (fun w => w.write buf) valid small
  intro v' grown
  exact write_grown grown buf (Nat.le_refl _) small

/-- Up to the smallest block every request is the same. -/
theorem reserve_least (h : Heap) (v : CharVector) {n : Nat} (small : n ≤ 64) :
    v.reserve h n = v.reserve h 64 := by
  obtain ⟨start,start_eq⟩ : ∃ start, start = if 64 < v.cap then v.cap else 64 := ⟨_,rfl⟩
  have least : 64 ≤ start := by rw [start_eq]; split <;> omega
  rw [reserve,reserve,← start_eq,growRounds,grow,grow,if_neg (by omega),if_neg (by omega)]

theorem push_back_asks (h : Heap) {v : CharVector} (full : v.len = v.cap) (small : v.len < 2 ^ 63 + 2 ^ 62) :
    ∃ n, v.reserve h (growStep v.cap) = v.reserve h n ∧ v.len + 1 ≤ n ∧ n ≤ growable := by
  by_cases empty : v.cap = 0
  · rw [empty] at full ⊢
    exact ⟨64,reserve_least h v (by decide),by omega,by decide⟩
  · refine ⟨growStep v.cap,rfl,?_⟩
    unfold growStep growable wrap
    split <;> omega

theorem push_back_outcome {h : Heap} {v : CharVector} (valid : v.Valid) (ch : UInt8)
    (small : v.len < 2 ^ 63 + 2 ^ 62) :
    ∃ r, v.push_back h ch = some r ∧
      Outcome v (fun w => w.base_ptr ≠ none ∧ w.contents = v.contents ++ [ch]) r ∧ r.Granted h := by
  by_cases room : v.len < v.cap
  · have present : v.base_ptr ≠ none := by
      intro absent
      have := valid.block
      simp [bytes,absent] at this
      omega
    obtain ⟨written,cap,shown⟩ := write_grown (n := v.len + 1)
      ⟨valid,present,rfl,rfl,room,Nat.le_refl _,Nat.le_max_left _ _⟩ [ch] (Nat.le_refl _)
      (by unfold growable; omega)
    refine ⟨_,by rw [push_back,if_pos room,store_eq],⟨written,Nat.le_of_eq cap.symm,
      fun _ => shown,fun failed => ?_⟩,fun succeeds => ⟨rfl,succeeds⟩⟩
    cases failed
  · have full : v.len = v.cap := by have := valid.size_le; omega
    obtain ⟨n,same,fits,bounded⟩ := push_back_asks h full small
    rw [push_back,if_neg room,same]
    apply reserve_then (fun w => w.store ch) valid bounded
    intro v' grown
    exact write_grown grown [ch] fits bounded

def overwrite (w : CharVector) (bytes : List UInt8) : CharVector :=
  {w.setBytes (memcpy w.bytes 0 bytes) with len := bytes.length}

/-- The `resize` at the end of `copyTo` never asks for memory. -/
theorem copyTo_eq {h : Heap} {v other : CharVector} (valid : v.Valid) (other_valid : other.Valid)
    (small : v.len ≤ growable) : v.copyTo h other =
      (other.reserve h v.len).map fun r =>
        if r.ok then {r with vec := r.vec.overwrite v.contents} else r := by
  rcases reserve_cases (h := h) other_valid small with ⟨sz,asked,_,⟨ok,grown⟩ | ⟨refused,_⟩⟩
  · have room := grown.room
    rw [copyTo,asked,Option.bind_some,Option.map_some,if_pos ok,if_pos ok,resize,
      if_neg (show ¬ v.len > ((other.allocMem h sz).vec.setBytes _).cap from Nat.not_lt.mpr room),
      overwrite,valid.contents_length,ok]
    rfl
  · simp [copyTo,asked,refused]

theorem copyTo_outcome {h : Heap} {v other : CharVector} (valid : v.Valid) (other_valid : other.Valid)
    (small : v.len ≤ growable) :
    ∃ r, v.copyTo h other = some r ∧
      Outcome other (fun w => w.base_ptr ≠ none ∧ w.contents = v.contents) r ∧ r.Granted h := by
  rw [copyTo_eq valid other_valid small]
  apply reserve_then (fun w => w.overwrite v.contents) other_valid small
  intro w grown
  have length := valid.contents_length
  have room := grown.room
  have block := grown.valid.block
  have bytes := setBytes_bytes grown.present (memcpy w.bytes 0 v.contents)
  have front := memcpy_take w.bytes v.contents (Nat.zero_le _)
  rw [Nat.zero_add] at front
  refine ⟨⟨?_,?_⟩,rfl,setBytes_present grown.present _,?_⟩
  · change v.contents.length ≤ w.cap
    omega
  · change (w.setBytes _).bytes.length = w.cap
    rw [bytes,memcpy_length (by omega)]
    exact block
  · change (w.setBytes _).bytes.take v.contents.length = _
    rw [bytes,front,List.take_zero,List.nil_append]

/-- A successful operation: the vector is valid and holds `contents`. -/
structure Holds (r : Result) (contents : List UInt8) : Prop where
  ok : r.ok = true
  heap : r.heap.Succeeds
  valid : r.vec.Valid
  present : r.vec.base_ptr ≠ none
  contents : r.vec.contents = contents

theorem Outcome.holds {h : Heap} {v : CharVector} {contents : List UInt8} {r : Result}
    (outcome : Outcome v (fun w => w.base_ptr ≠ none ∧ w.contents = contents) r) (granted : r.Granted h)
    (succeeds : h.Succeeds) : Holds r contents := by
  obtain ⟨ok,heap⟩ := granted succeeds
  obtain ⟨present,held⟩ := outcome.done ok
  exact ⟨ok,heap,outcome.valid,present,held⟩

theorem append_spec {h : Heap} {v : CharVector} (valid : v.Valid)
    (succeeds : h.Succeeds) (buf : List UInt8) (small : v.len + buf.length ≤ growable) :
    ∃ r, v.append h buf = some r ∧ Holds r (v.contents ++ buf) := by
  obtain ⟨r,appended,outcome,granted⟩ := append_outcome (h := h) valid buf small
  exact ⟨r,appended,outcome.holds granted succeeds⟩

theorem copyTo_spec {h : Heap} {v other : CharVector} (valid : v.Valid) (other_valid : other.Valid)
    (succeeds : h.Succeeds) (small : v.len ≤ growable) :
    ∃ r, v.copyTo h other = some r ∧ Holds r v.contents := by
  obtain ⟨r,copied,outcome,granted⟩ := copyTo_outcome (h := h) valid other_valid small
  exact ⟨r,copied,outcome.holds granted succeeds⟩

theorem push_back_spec {h : Heap} {v : CharVector} (ch : UInt8) (valid : v.Valid)
    (succeeds : h.Succeeds) (small : v.len < 2 ^ 63 + 2 ^ 62) :
    ∃ r, v.push_back h ch = some r ∧ Holds r (v.contents ++ [ch]) := by
  obtain ⟨r,pushed,outcome,granted⟩ := push_back_outcome (h := h) valid ch small
  exact ⟨r,pushed,outcome.holds granted succeeds⟩

/-- A request for n bytes fails: malloc has no first block for the vector, or realloc and
the malloc after it have no larger one. -/
def Refused (v : CharVector) (h : Heap) (n : Nat) : Prop :=
  match v.base_ptr with
  | none => h.answer h.asked = none
  | some _ => v.cap < max 64 n ∧ h.answer h.asked = none ∧ h.answer (h.asked + 1) = none

theorem allocMem_refused_iff (h : Heap) {v : CharVector} {n sz : Nat} (grows : v.cap < sz ↔ v.cap < max 64 n) :
    (v.allocMem h sz).ok = false ↔ v.Refused h n := by
  rw [Refused,← grows]
  have allocated := allocMem_allocated h v sz
  generalize v.allocMem h sz = r at allocated
  cases allocated with
  | noBlock base first => simp [base,first]
  | firstBlock base first => simp [base,first]
  | enough base fits => simp [base,Nat.not_lt.mpr fits]
  | realloc base larger first => simp [base,first]
  | malloc base larger first second => simp [base,second]
  | refused base larger first second => simp [base,larger,first,second]

/-- When `append` fails, and where the block lies after it. -/
theorem append_allocates {h : Heap} {v : CharVector} {buf : List UInt8} {r : Result}
    (small : v.len + buf.length ≤ growable) (appended : v.append h buf = some r) :
    (r.ok = false ↔ v.Refused h (v.len + buf.length)) ∧
      ∀ old, v.base_ptr = some old → r.vec.base_ptr.map Block.addr =
        some (if v.cap < max 64 (v.len + buf.length) then h.landing old else old.addr) := by
  obtain ⟨sz,asked,_,_,_,grows⟩ := reserve_asks h v small
  rw [append_eq,wrap,Nat.mod_eq_of_lt (by unfold growable at small; omega),asked] at appended
  cases appended
  rw [← allocMem_refused_iff h grows]
  beta_reduce
  refine ⟨by split <;> rfl,fun old base => ?_⟩
  rw [← if_congr grows rfl rfl,← allocMem_addr base sz]
  split
  · exact setBytes_addr _ _
  · rfl

theorem new_spec {h : Heap} (succeeds : h.Succeeds) :
    ∃ r, new h = some r ∧ Holds r [] ∧ r.vec.cap ∣ 131072 := by
  obtain ⟨r,hr,ok,heap,grown⟩ := reserve_spec (n := 1024) null_valid succeeds (by decide)
  refine ⟨r,hr,⟨ok,heap,grown.valid,grown.present,by rw [grown.contents]; rfl⟩,?_⟩
  rcases reserve_divides (by decide) (by decide) hr with same | divides
  · have room := grown.room
    rw [same] at room
    exact absurd room (by decide)
  · exact divides

end CharVector
end UvRpc
