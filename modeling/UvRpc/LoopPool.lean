import UvRpc.RoundRobin

/-! ConnectionManager's IO loops: started and stopped as a whole, given out in turn. The
number that getNextLoop counts to is the constant, that of the loops is start's argument. -/
namespace UvRpc

def IO_LOOPS : Nat := 1

/-- A loop counts as running from its start until it is stopped. `threadVector` tells of
each thread whether it is joinable. -/
structure LoopPool where
  round_robin : Nat
  loopVector : List Bool
  threadVector : List Bool
  deriving DecidableEq, Repr

inductive PoolCall where
  | start (n : Int)
  | stop
  deriving DecidableEq, Repr

namespace LoopPool

def make : LoopPool := ⟨0,[],[]⟩

/-- How many loops `start(n)` is to make. `L` is IO_LOOPS. -/
def loops (L : Nat) (n : Int) : Int :=
  let n := if n < L then (L : Int) else n
  if n < 1 then 1 else n

def start (L : Nat) (s : LoopPool) (n : Int) : LoopPool :=
  if s.loopVector.length > 0 then s
  else
    {s with
      loopVector := List.replicate (loops L n).toNat true
      threadVector := List.replicate (loops L n).toNat true}

def stop (s : LoopPool) : LoopPool :=
  {s with loopVector := s.loopVector.map fun _ => false, threadVector := s.threadVector.map fun _ => false}

def call (L : Nat) (s : LoopPool) : PoolCall → LoopPool
  | .start n => s.start L n
  | .stop => s.stop

def calls (L : Nat) (s : LoopPool) (history : List PoolCall) : LoopPool := history.foldl (call L) s

/-- The answer is the index into `loopVector`. -/
def getNextLoop (L : Nat) (s : LoopPool) : Nat × LoopPool :=
  let round_robin := (s.round_robin + 1) % L
  (round_robin,{s with round_robin := round_robin})

def serve (L : Nat) (s : LoopPool) : Nat → List Nat
  | 0 => []
  | k + 1 => (s.getNextLoop L).1 :: (s.getNextLoop L).2.serve L k

/-- Every answer is a running loop, and no loop has been answered more than once more
often than another. -/
structure Served (L : Nat) (s : LoopPool) (k : Nat) : Prop where
  running : ∀ i ∈ s.serve L k, s.loopVector[i]? = some true
  even : ∀ i j, i < s.loopVector.length → j < s.loopVector.length →
    (s.serve L k).count i ≤ (s.serve L k).count j + 1

/-- The history from the first start on: what comes before finds no loops. -/
def fromStart (history : List PoolCall) : List PoolCall := history.dropWhile (· = .stop)

/-- The loops are those of the first start: no stop comes after it, and there are no more
than the index counts to. -/
def Suited (L : Nat) (history : List PoolCall) (k : Nat) : Prop :=
  match fromStart history with
  | .start n :: rest => (k = 0 ∨ .stop ∉ rest) ∧ (k ≤ L ∨ n ≤ L)
  | _ => False

theorem serve_eq (L : Nat) (s : LoopPool) (k : Nat) : s.serve L k = RoundRobin.turns L (s.round_robin + 1) k := by
  induction k generalizing s with
  | zero => rfl
  | succ k ih =>
    rw [serve,ih,RoundRobin.turns_succ]
    congr 1
    change RoundRobin.turns L ((s.round_robin + 1) % L + 1) k = _
    rw [← RoundRobin.turns_mod,Nat.mod_add_mod,RoundRobin.turns_mod]

def uniform (n : Nat) (running : Bool) : LoopPool := ⟨0,List.replicate n running,List.replicate n running⟩

/-- Once there are loops, a start does nothing and the first stop is for good. -/
theorem uniform_calls (L : Nat) {n : Nat} (some_loops : 0 < n) (running : Bool) (rest : List PoolCall) :
    (uniform n running).calls L rest = uniform n (running && !rest.contains .stop) := by
  induction rest generalizing running with
  | nil => simp [calls]
  | cons c rest ih =>
    have next : (uniform n running).calls L (c :: rest) = ((uniform n running).call L c).calls L rest := rfl
    cases c with
    | start m =>
      have same : (uniform n running).call L (.start m) = uniform n running :=
        if_pos (by simpa [uniform] using some_loops)
      rw [next,same,ih]
      simp
    | stop =>
      have stopped : (uniform n running).call L .stop = uniform n false := by simp [call,stop,uniform]
      rw [next,stopped,ih]
      simp

theorem loops_eq (L : Nat) (n : Int) : loops L n = max 1 (max (L : Int) n) := by
  simp only [loops]
  split <;> split <;> omega

theorem loops_pos (L : Nat) (n : Int) : 0 < (loops L n).toNat := by
  rw [loops_eq]
  omega

theorem make_calls (L : Nat) {history rest : List PoolCall} {n : Int}
    (first : fromStart history = .start n :: rest) :
    make.calls L history = uniform (loops L n).toNat (!rest.contains .stop) := by
  induction history with
  | nil => cases first
  | cons c history ih =>
    cases c with
    | stop => exact ih first
    | start m =>
      cases first
      exact uniform_calls L (loops_pos L n) true rest

theorem fromStart_start (history : List PoolCall) (n : Int) :
    ∃ m rest, fromStart (history ++ [.start n]) = .start m :: rest := by
  induction history with
  | nil => exact ⟨n,[],rfl⟩
  | cons c history ih =>
    cases c with
    | stop => exact ih
    | start m => exact ⟨m,history ++ [.start n],rfl⟩

/-- Which loops are given out, and how evenly, when n of them are up or down together. -/
theorem uniform_served_iff {L n : Nat} (pos : 0 < L) (enough : L ≤ n) (running : Bool) (k : Nat) :
    Served L (uniform n running) k ↔ (k = 0 ∨ running = true) ∧ (k ≤ L ∨ n = L) := by
  have serve : (uniform n running).serve L k = RoundRobin.turns L 1 k := serve_eq L _ k
  have length : (uniform n running).loopVector.length = n := List.length_replicate
  constructor
  · intro served
    refine ⟨?_,?_⟩
    · cases k with
      | zero => exact .inl rfl
      | succ k =>
        have first := served.running (1 % L) (by rw [serve,RoundRobin.turns_succ]; exact List.mem_cons_self)
        exact .inr (List.eq_of_mem_replicate (List.mem_of_getElem? first)).symm
    · by_contra uneven
      rw [not_or] at uneven
      obtain ⟨again,more⟩ := uneven
      have even := served.even (1 % L) L (by have := Nat.mod_lt 1 pos; omega) (by omega)
      have twice := RoundRobin.turns_again pos 1 (by omega : L < k)
      have never : (RoundRobin.turns L 1 k).count L = 0 :=
        List.count_eq_zero.mpr fun member => absurd (RoundRobin.turns_lt pos member) (Nat.lt_irrefl L)
      rw [serve] at even
      omega
  · rintro ⟨up,even⟩
    refine ⟨fun i member => ?_,fun i j hi hj => ?_⟩
    · rw [serve] at member
      have inside := RoundRobin.turns_lt pos member
      have running : running = true := up.resolve_left (by rintro rfl; cases member)
      exact List.getElem?_eq_some_iff.mpr ⟨by omega,by simp [uniform,running]⟩
    · rw [length] at hi hj
      rw [serve]
      rcases even with round | rfl
      · have := RoundRobin.turns_once pos 1 round i
        omega
      · exact RoundRobin.turns_balanced pos 1 k hi hj

/-- For any constant, any history of starts and stops, and any number of calls. -/
theorem served_iff {L : Nat} (pos : 0 < L) (history : List PoolCall) (n : Int) (k : Nat) :
    Served L (make.calls L (history ++ [.start n])) k ↔ Suited L (history ++ [.start n]) k := by
  obtain ⟨m,rest,first⟩ := fromStart_start history n
  have enough : L ≤ (loops L m).toNat := by rw [loops_eq]; omega
  have exactly : (loops L m).toNat = L ↔ m ≤ L := by rw [loops_eq]; omega
  rw [make_calls L first,uniform_served_iff pos enough,exactly,Suited,first]
  simp

theorem served_iff_one : Served IO_LOOPS (make.calls IO_LOOPS [.stop,.start (-3)]) 5 ↔
    Suited IO_LOOPS [.stop,.start (-3)] 5 :=
  served_iff (by decide) [.stop] (-3) 5

theorem second_loop_idle : ¬ Served IO_LOOPS (make.calls IO_LOOPS [.start 2]) 2 := by
  intro served
  have even := served.even 0 1 (by decide) (by decide)
  exact absurd even (by decide)

/-- After a stop the next start makes no loops, and a stopped one is given out. -/
theorem stopped_loop_served : ¬ Served IO_LOOPS (make.calls IO_LOOPS [.start 1,.stop,.start 1]) 1 := by
  intro served
  have running := served.running 0 (by decide)
  exact absurd running (by decide)

end LoopPool
end UvRpc
