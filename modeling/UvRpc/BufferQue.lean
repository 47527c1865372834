import UvRpc.Queue

/-! BufferQue: the buffers that nobody uses wait in a QUEUE, linked through their own
nodes. Both methods hold the mutex from end to end, so calls of any threads come one
after the other. -/
namespace UvRpc

/-- mem_t without the memory and the node. -/
structure Mem where
  nSize : Nat
  nCap : Nat
  deriving DecidableEq, Repr

/-- `none` is the head of the queue and `some m` the node of buffer `m`. `made` buffers
have been allocated. -/
structure BufferQue where
  links : Links (Option Nat)
  mems : Nat → Mem
  made : Nat

namespace BufferQue

def make (links : Links (Option Nat)) (mems : Nat → Mem) : BufferQue := ⟨Queue.init links none,mems,0⟩

def getBuffer (b : BufferQue) : Nat × BufferQue :=
  match Queue.head b.links none with
  | some m => (m,{b with
      links := Queue.remove b.links (some m)
      mems := Function.update b.mems m {b.mems m with nSize := 0}})
  | none => (b.made,{b with mems := Function.update b.mems b.made ⟨0,2048⟩, made := b.made + 1})

def putBuffer (b : BufferQue) : Option Nat → Bool × BufferQue
  | none => (false,b)
  | some m => (true,{b with links := Queue.insertTail b.links none (some m)})

def getBuffers : Nat → BufferQue → List Nat × BufferQue
  | 0, b => ([],b)
  | n + 1, b =>
    let (m,b) := b.getBuffer
    let (ms,b) := getBuffers n b
    (m :: ms,b)

def Idle (b : BufferQue) (idle : List Nat) : Prop := b.links.Ring none (idle.map some)

variable {b : BufferQue} {m : Nat} {idle : List Nat}

theorem make_idle (links : Links (Option Nat)) (mems : Nat → Mem) : (make links mems).Idle [] :=
  Queue.init_ring links none

theorem getBuffer_nil (empty : b.Idle []) : b.getBuffer =
    (b.made,{b with mems := Function.update b.mems b.made ⟨0,2048⟩, made := b.made + 1}) := by
  have next : Queue.head b.links none = none := empty.next_head
  rw [getBuffer,next]

theorem getBuffer_cons (held : b.Idle (m :: idle)) : b.getBuffer = (m,{b with
    links := Queue.remove b.links (some m)
    mems := Function.update b.mems m {b.mems m with nSize := 0}}) ∧ b.getBuffer.2.Idle idle := by
  have next : Queue.head b.links none = some m := held.next_head
  have got : b.getBuffer = (m,{b with
      links := Queue.remove b.links (some m)
      mems := Function.update b.mems m {b.mems m with nSize := 0}}) := by rw [getBuffer,next]
  refine ⟨got,?_⟩
  rw [got]
  exact Queue.remove_ring (show b.links.Ring none ([] ++ some m :: idle.map some) from held)

theorem putBuffer_idle (held : b.Idle idle) (absent : m ∉ idle) : (b.putBuffer (some m)).2.Idle (idle ++ [m]) := by
  change Links.Ring _ none ((idle ++ [m]).map some)
  rw [List.map_append]
  exact Queue.insertTail_ring held (by simpa using absent)

def putTwice (b : BufferQue) (m : Nat) : BufferQue := ((b.putBuffer (some m)).2.putBuffer (some m)).2

theorem putTwice_lasso (held : b.Idle idle) (absent : m ∉ idle) :
    Queue.Lasso (b.putTwice m).links none (idle.map some) (some m) := by
  have ring := putBuffer_idle held absent
  rw [Idle,List.map_append] at ring
  exact Queue.insertTail_twice ring

theorem lasso_getBuffers (lasso : Queue.Lasso b.links none (idle.map some) (some m)) (n : Nat) :
    (b.getBuffers n).1 = idle.take n ++ List.replicate (n - idle.length) m ∧ (b.getBuffers n).2.made = b.made := by
  induction n generalizing b idle with
  | zero => simp [getBuffers]
  | succ n ih =>
    cases idle with
    | nil =>
      obtain ⟨first,same⟩ := Queue.Lasso.remove_loop lasso
      have next : Queue.Lasso b.getBuffer.2.links none (([] : List Nat).map some) (some m) := by
        rw [getBuffer,first]
        simpa [same] using lasso
      obtain ⟨got,made⟩ := ih next
      simp only [getBuffers,got,made]
      simp [getBuffer,first,List.replicate_succ]
    | cons k rest =>
      obtain ⟨first,kept⟩ := Queue.Lasso.remove_first lasso
      have next : Queue.Lasso b.getBuffer.2.links none (rest.map some) (some m) := by
        rw [getBuffer,first]
        exact kept
      obtain ⟨got,made⟩ := ih next
      simp only [getBuffers,got,made]
      simp [getBuffer,first]

end BufferQue

/-- A queue and those who use it. `out` are the buffers that somebody has, `put` all that
were put back and `taken` all that were handed out again, in order; `most` is the largest
number that was ever out. -/
structure BufferUsers where
  que : BufferQue
  out : List Nat
  put : List Nat
  taken : List Nat
  most : Nat

namespace BufferUsers

inductive Call
  | getBuffer | putBuffer (buf : Option Nat)
  /-- The user of a buffer sets its size. -/
  | fill (m nSize : Nat)
  deriving DecidableEq, Repr

def start (links : Links (Option Nat)) (mems : Nat → Mem) : BufferUsers := ⟨.make links mems,[],[],[],0⟩

def step (s : BufferUsers) : Call → Option BufferUsers
  | .getBuffer =>
    let (m,que) := s.que.getBuffer
    some {s with
      que := que
      out := m :: s.out
      taken := if que.made = s.que.made then s.taken ++ [m] else s.taken
      most := max s.most (s.out.length + 1)}
  | .putBuffer none => some {s with que := (s.que.putBuffer none).2}
  | .putBuffer (some m) => some {s with
      que := (s.que.putBuffer (some m)).2
      out := s.out.erase m
      put := s.put ++ [m]}
  | .fill m nSize => some {s with
      que := {s.que with mems := Function.update s.que.mems m {s.que.mems m with nSize := nSize}}}

/-- Users put back what they have. -/
def Owned (s : BufferUsers) : Call → Prop
  | .getBuffer => True
  | .putBuffer buf => ∀ m ∈ buf, m ∈ s.out
  | .fill _ _ => True

instance (s : BufferUsers) (c : Call) : Decidable (s.Owned c) := by
  cases c <;> unfold Owned <;> infer_instance

structure Inv (s : BufferUsers) (idle : List Nat) : Prop where
  held : s.que.Idle idle
  all : (idle ++ s.out).Perm (List.range s.que.made)
  fifo : s.put = s.taken ++ idle
  nCap : ∀ m < s.que.made, (s.que.mems m).nCap = 2048
  most : s.que.made = s.most

/-- What the next getBuffer will hand out is nobody's, is empty, and is the buffer put
back first among those not taken again, or a new one if there is none. -/
structure Exclusive (s : BufferUsers) : Prop where
  once : s.out.Nodup
  unused : s.que.getBuffer.1 ∉ s.out
  reset : s.que.getBuffer.2.mems s.que.getBuffer.1 = ⟨0,2048⟩
  fifo : s.taken <+: s.put ∧ s.que.getBuffer.1 = (s.put.drop s.taken.length).headD s.que.made

variable {s t : BufferUsers} {idle : List Nat}

theorem start_inv (links : Links (Option Nat)) (mems : Nat → Mem) : (start links mems).Inv [] :=
  ⟨BufferQue.make_idle links mems,.refl _,rfl,by simp [start,BufferQue.make],rfl⟩

theorem Inv.known (inv : s.Inv idle) {m : Nat} (member : m ∈ idle ++ s.out) : m < s.que.made :=
  List.mem_range.mp (inv.all.mem_iff.mp member)

theorem Inv.exclusive (inv : s.Inv idle) : s.Exclusive := by
  have distinct := inv.all.nodup_iff.mpr List.nodup_range
  obtain ⟨_,out,apart⟩ := List.nodup_append'.mp distinct
  have later : s.put.drop s.taken.length = idle := by rw [inv.fifo,List.drop_left]
  cases idle with
  | nil =>
    have got := BufferQue.getBuffer_nil inv.held
    refine ⟨out,?_,by simp [got],⟨[],by simp [inv.fifo]⟩,by rw [later,got]; rfl⟩
    rw [got]
    exact fun member => absurd (inv.known (List.mem_append_right _ member)) (Nat.lt_irrefl _)
  | cons m rest =>
    obtain ⟨got,_⟩ := BufferQue.getBuffer_cons inv.held
    refine ⟨out,?_,?_,⟨_,inv.fifo.symm⟩,by rw [later,got]; rfl⟩
    · rw [got]
      exact apart (by simp)
    · simp [got,inv.nCap m (inv.known (by simp))]

theorem step_inv {c : Call} (inv : s.Inv idle) (owned : s.Owned c) (taken : s.step c = some t) :
    ∃ idle, t.Inv idle := by
  cases c with
  | getBuffer =>
    simp only [step,Option.some.injEq] at taken
    subst taken
    cases idle with
    | nil =>
      have got := BufferQue.getBuffer_nil inv.held
      have number : s.out.length = s.que.made := by simpa using inv.all.length_eq
      have most := inv.most
      refine ⟨[],?_⟩
      rw [got]
      refine ⟨inv.held,?_,by simp [inv.fifo],fun m made => ?_,by simp only; omega⟩
      · change (s.que.made :: s.out).Perm (List.range (s.que.made + 1))
        rw [List.range_succ]
        exact (inv.all.cons _).trans (List.perm_append_singleton _ _).symm
      · by_cases new : m = s.que.made
        · simp [new]
        · simp [new,inv.nCap m (by simp only at made; omega)]
    | cons m rest =>
      obtain ⟨got,idle⟩ := BufferQue.getBuffer_cons inv.held
      have number := inv.all.length_eq
      rw [List.length_append,List.length_cons,List.length_range] at number
      have most := inv.most
      refine ⟨rest,?_⟩
      rw [got] at idle ⊢
      refine ⟨idle,?_,by simp [inv.fifo],fun k made => ?_,by simp only; omega⟩
      · exact List.perm_middle.trans inv.all
      · by_cases same : k = m
        · simp [same,inv.nCap m (by simpa [← same] using made)]
        · simpa [same] using inv.nCap k made
  | putBuffer buf =>
    cases buf with
    | none =>
      simp only [step,Option.some.injEq] at taken
      subst taken
      exact ⟨idle,inv.held,inv.all,inv.fifo,inv.nCap,inv.most⟩
    | some m =>
      simp only [step,Option.some.injEq] at taken
      subst taken
      have member : m ∈ s.out := owned m rfl
      have distinct := inv.all.nodup_iff.mpr List.nodup_range
      have absent : m ∉ idle := fun inside => (List.nodup_append'.mp distinct).2.2 inside member
      refine ⟨idle ++ [m],BufferQue.putBuffer_idle inv.held absent,?_,by simp [inv.fifo],inv.nCap,inv.most⟩
      rw [List.append_assoc]
      exact ((List.perm_cons_erase member).symm.append_left idle).trans inv.all
  | fill m nSize =>
    simp only [step,Option.some.injEq] at taken
    subst taken
    refine ⟨idle,inv.held,inv.all,inv.fifo,fun k made => ?_,inv.most⟩
    by_cases same : k = m
    · simp [same,inv.nCap m (by simpa [← same] using made)]
    · simpa [same] using inv.nCap k made

/-- As long as users put back only what they have, a buffer has one user at a time. -/
theorem one_user (links : Links (Option Nat)) (mems : Nat → Mem) (calls : List Call)
    (owned : Transition.Meets step Owned (start links mems) calls) :
    Transition.Along step Exclusive (start links mems) calls :=
  Transition.along_of_meets (I := fun s => ∃ idle, s.Inv idle) (fun _ ⟨_,inv⟩ => inv.exclusive)
    (fun _ _ _ ⟨_,inv⟩ guarded taken => step_inv inv guarded taken) ⟨_,start_inv links mems⟩ owned

def borrowed : List Call := [.getBuffer,.getBuffer,.fill 0 5,.putBuffer (some 0),.putBuffer none,.getBuffer]

def somewhere : BufferUsers := start ⟨fun _ => some 7,fun _ => none⟩ fun _ => ⟨1,1⟩

theorem one_user_borrowed : Transition.Along step Exclusive somewhere borrowed :=
  one_user ⟨fun _ => some 7,fun _ => none⟩ (fun _ => ⟨1,1⟩) borrowed (by decide)

/-- No buffer is allocated beyond the largest number that were out at one time. -/
theorem made_most (links : Links (Option Nat)) (mems : Nat → Mem) (calls : List Call)
    (owned : Transition.Meets step Owned (start links mems) calls) :
    Transition.Along step (fun s => s.que.made = s.most) (start links mems) calls :=
  Transition.along_of_meets (I := fun s => ∃ idle, s.Inv idle) (fun _ ⟨_,inv⟩ => inv.most)
    (fun _ _ _ ⟨_,inv⟩ guarded taken => step_inv inv guarded taken) ⟨_,start_inv links mems⟩ owned

theorem made_most_borrowed : Transition.Along step (fun s => s.que.made = s.most) somewhere borrowed :=
  made_most ⟨fun _ => some 7,fun _ => none⟩ (fun _ => ⟨1,1⟩) borrowed (by decide)

/-- Once a buffer is put back twice in a row, the buffers before it come out, and then
every getBuffer hands out that one; nothing is allocated any more. -/
theorem put_twice (links : Links (Option Nat)) (mems : Nat → Mem) (calls : List Call) (s : BufferUsers)
    (run : Transition.run step (start links mems) calls = some s)
    (owned : Transition.Meets step Owned (start links mems) calls) (m : Nat) (has : m ∈ s.out) (n : Nat) :
    ((s.que.putTwice m).getBuffers n).1 =
        (s.put.drop s.taken.length).take n ++ List.replicate (n - (s.put.drop s.taken.length).length) m ∧
      ((s.que.putTwice m).getBuffers n).2.made = s.que.made := by
  obtain ⟨idle,inv⟩ := Transition.run_invariant (P := fun s => ∃ idle, s.Inv idle)
    (fun _ _ _ ⟨_,inv⟩ guarded taken => step_inv inv guarded taken) ⟨_,start_inv links mems⟩ owned run
  have later : s.put.drop s.taken.length = idle := by rw [inv.fifo,List.drop_left]
  have distinct := inv.all.nodup_iff.mpr List.nodup_range
  have absent : m ∉ idle := fun inside => (List.nodup_append'.mp distinct).2.2 inside has
  rw [later]
  exact BufferQue.lasso_getBuffers (BufferQue.putTwice_lasso inv.held absent) n

theorem put_twice_two : ∃ s, Transition.run step somewhere [.getBuffer,.getBuffer,.putBuffer (some 0)] = some s ∧
    ((s.que.putTwice 1).getBuffers 4).1 = [0,1,1,1] ∧ ((s.que.putTwice 1).getBuffers 4).2.made = s.que.made := by
  have ran : (Transition.run step somewhere [.getBuffer,.getBuffer,.putBuffer (some 0)]).any fun s =>
    1 ∈ s.out ∧ s.put.drop s.taken.length = [0] := by decide
  obtain ⟨s,run,seen⟩ := Option.any_eq_true _ _ |>.mp ran
  obtain ⟨has,idle⟩ := of_decide_eq_true seen
  have twice := put_twice ⟨fun _ => some 7,fun _ => none⟩ (fun _ => ⟨1,1⟩) _ s run (by decide) 1 has 4
  rw [idle] at twice
  exact ⟨s,run,twice⟩

end BufferUsers
end UvRpc
