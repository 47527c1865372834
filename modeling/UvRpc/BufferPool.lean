import UvRpc.CharVector

/-! BufferPool: the write requests and the queue of those that nobody uses. A request is
its number, and the pool keeps the requests themselves. -/
namespace UvRpc

/-- uv_buf_t. -/
structure UvBuf where
  base : Option Nat
  len : Nat
  deriving DecidableEq, Repr

/-- write_req_vec_t. -/
structure WriteReq where
  vecBuf : CharVector
  buf : UvBuf
  taskPtr : Option Nat
  deriving DecidableEq, Repr

structure BufferPool where
  reqQueue : List Nat
  reqs : Nat → WriteReq
  /-- How many requests were ever allocated. -/
  made : Nat
  getNumWrite : Nat
  putNumWrite : Nat
  newNumWrite : Nat

namespace BufferPool

def make (vecs : Nat → CharVector) : BufferPool :=
  ⟨List.range 1000,fun r => ⟨vecs r,⟨none,0⟩,none⟩,1000,0,0,0⟩

def modify (p : BufferPool) (r : Nat) (f : WriteReq → WriteReq) : BufferPool :=
  {p with reqs := Function.update p.reqs r (f (p.reqs r))}

/-- The pop is done under the lock, and a new request belongs to the caller alone. -/
def getWriteBuffer (p : BufferPool) : Nat × BufferPool :=
  match p.reqQueue with
  | r :: rest => (r,{p with reqQueue := rest, getNumWrite := p.getNumWrite + 1})
  | [] => (p.made,{p with made := p.made + 1, newNumWrite := p.newNumWrite + 1})

def putWriteBuffer (p : BufferPool) (r : Nat) : BufferPool :=
  {p.modify r fun w => {w with taskPtr := none} with
    reqQueue := p.reqQueue ++ [r]
    putNumWrite := p.putNumWrite + 1}

def putAll (p : BufferPool) (rs : List Nat) : BufferPool := rs.foldl putWriteBuffer p

@[simp] theorem modify_reqQueue (p : BufferPool) (r : Nat) (f : WriteReq → WriteReq) :
    (p.modify r f).reqQueue = p.reqQueue := rfl
@[simp] theorem modify_made (p : BufferPool) (r : Nat) (f : WriteReq → WriteReq) :
    (p.modify r f).made = p.made := rfl
theorem modify_reqs_other (p : BufferPool) {r q : Nat} (f : WriteReq → WriteReq) (other : q ≠ r) :
    (p.modify r f).reqs q = p.reqs q := by simp [modify,other]

@[simp] theorem putWriteBuffer_reqQueue (p : BufferPool) (r : Nat) :
    (p.putWriteBuffer r).reqQueue = p.reqQueue ++ [r] := rfl
theorem putWriteBuffer_reqs_other (p : BufferPool) {r q : Nat} (other : q ≠ r) :
    (p.putWriteBuffer r).reqs q = p.reqs q :=
  modify_reqs_other p (fun w => {w with taskPtr := none}) other

@[simp] theorem putAll_reqQueue (p : BufferPool) (rs : List Nat) :
    (p.putAll rs).reqQueue = p.reqQueue ++ rs := by
  induction rs generalizing p with
  | nil => simp [putAll]
  | cons r rest ih =>
    change ((p.putWriteBuffer r).putAll rest).reqQueue = _
    rw [ih,putWriteBuffer_reqQueue,List.append_assoc]; rfl

@[simp] theorem putAll_made (p : BufferPool) (rs : List Nat) : (p.putAll rs).made = p.made := by
  induction rs generalizing p with
  | nil => rfl
  | cons r rest ih => exact ih (p.putWriteBuffer r)

theorem putAll_reqs_other (p : BufferPool) {rs : List Nat} {q : Nat} (other : q ∉ rs) :
    (p.putAll rs).reqs q = p.reqs q := by
  induction rs generalizing p with
  | nil => rfl
  | cons r rest ih =>
    rw [List.mem_cons,not_or] at other
    obtain ⟨here,later⟩ := other
    exact (ih (p.putWriteBuffer r) later).trans (putWriteBuffer_reqs_other p here)

theorem getWriteBuffer_cases (p : BufferPool) :
    (∃ r rest, p.reqQueue = r :: rest ∧ p.getWriteBuffer.1 = r ∧
      p.getWriteBuffer.2.reqQueue = rest ∧ p.getWriteBuffer.2.made = p.made) ∨
    (p.reqQueue = [] ∧ p.getWriteBuffer.1 = p.made ∧
      p.getWriteBuffer.2.reqQueue = [] ∧ p.getWriteBuffer.2.made = p.made + 1) := by
  unfold getWriteBuffer
  cases queue : p.reqQueue with
  | nil => exact .inr ⟨rfl,rfl,rfl,rfl⟩
  | cons r rest => exact .inl ⟨r,rest,rfl,rfl,rfl,rfl⟩

@[simp] theorem getWriteBuffer_reqs (p : BufferPool) : p.getWriteBuffer.2.reqs = p.reqs := by
  unfold getWriteBuffer; split <;> rfl

end BufferPool
end UvRpc
