import UvRpc.BufferPool
import UvRpc.TcpConnection
import UvRpc.Transition

/-! The read half of BufferPool under the reads of all connections. A buffer is its
number in the order of allocation. `getReadBuffer` holds the lock only for its pop, so
other threads may come between a pop that finds nothing and the allocation after it. -/
namespace UvRpc

def DEFAUTL_BUF_SZ : Nat := 1024 * 64

structure ReadPool where
  bufQueue : List Nat
  getNumRead : Nat
  putNumRead : Nat
  newNumRead : Nat
  deriving DecidableEq, Repr

namespace ReadPool

def make : ReadPool := ⟨List.range 1000,0,0,0⟩

/-- `getReadBuffer` up to the end of its lock. -/
def pop (p : ReadPool) : Option Nat × ReadPool :=
  let p := {p with getNumRead := p.getNumRead + 1}
  match p.bufQueue with
  | b :: rest => (some b,{p with bufQueue := rest})
  | [] => (none,p)

/-- `getReadBuffer` after a pop that found nothing. -/
def alloc (p : ReadPool) : Nat × ReadPool :=
  (1000 + p.newNumRead,{p with newNumRead := p.newNumRead + 1})

def putReadBuffer (p : ReadPool) : Option Nat → ReadPool
  | none => p
  | some b => {p with putNumRead := p.putNumRead + 1, bufQueue := p.bufQueue ++ [b]}

end ReadPool

def onFreeReadBuffer (p : ReadPool) (buf : UvBuf) : ReadPool := p.putReadBuffer buf.base

/-- A read that libuv has a buffer for: its place in the order of the allocations, whose
it is and the buffer. -/
structure Read where
  id : Nat
  conn : Nat
  base : Nat
  len : Nat
  deriving DecidableEq, Repr

def Read.buf (r : Read) : UvBuf := ⟨some r.base,r.len⟩
def Read.key (r : Read) : Nat × Nat := (r.id,r.base)

/-- `missed` are the connections whose pop found nothing. `handed` and `returned` record
each buffer that went out and came back, with the read it went out for. -/
structure Reading where
  pool : ReadPool
  missed : List Nat
  reads : List Read
  conns : Nat → TcpConnection
  handed : List (Nat × Nat)
  returned : List (Nat × Nat)

inductive ReadEvent
  | onAllocBuffer (conn : Nat)
  | newBuffer (i : Nat)
  | onRead (i : Nat) (nread : Int) (bytes : List UInt8)
  /-- An error for which libuv has no buffer. -/
  | onReadNull (conn : Nat) (nread : Int)

namespace Reading
section
-- The installed dispatcher. It sees the connection and the bytes, not the pool.
variable (onMessage : TcpConnection → List UInt8 → TcpConnection)

def start (conns : Nat → TcpConnection) : Reading := ⟨.make,[],[],conns,[],[]⟩

def onRead (p : ReadPool) (c : TcpConnection) (nread : Int) (bytes : List UInt8) (buf : UvBuf) :
    ReadPool × TcpConnection :=
  let c := if nread > 0 then onMessage c bytes else c
  if buf.base = none then (p,c.onReadClose nread true)
  else (onFreeReadBuffer p buf,c.onReadClose nread false)

def hand (s : Reading) (p : ReadPool) (conn b : Nat) : Reading :=
  {s with
    pool := p
    reads := s.reads ++ [⟨s.handed.length,conn,b,DEFAUTL_BUF_SZ⟩]
    handed := s.handed ++ [(s.handed.length,b)]}

/-- The record takes down whatever the call has put into the queue. -/
def answer (s : Reading) (id conn : Nat) (result : ReadPool × TcpConnection) : Reading :=
  {s with
    pool := result.1
    conns := Function.update s.conns conn result.2
    returned := s.returned ++ (result.1.bufQueue.drop s.pool.bufQueue.length).map fun b => (id,b)}

def step (s : Reading) : ReadEvent → Option Reading
  | .onAllocBuffer conn =>
    match s.pool.pop with
    | (some b,p) => some (s.hand p conn b)
    | (none,p) => some {s with pool := p, missed := s.missed ++ [conn]}
  | .newBuffer i => s.missed[i]?.map fun conn =>
    {s with missed := s.missed.eraseIdx i}.hand s.pool.alloc.2 conn s.pool.alloc.1
  | .onRead i nread bytes => s.reads[i]?.map fun r =>
    {s with reads := s.reads.eraseIdx i}.answer r.id r.conn
      (onRead onMessage s.pool (s.conns r.conn) nread bytes r.buf)
  | .onReadNull conn nread =>
    if nread ≤ 0 then some (s.answer s.handed.length conn (onRead onMessage s.pool (s.conns conn) nread [] ⟨none,0⟩))
    else none

/-- The law of the pool: where the buffers are, how many there are, and that each read
gave back what it was given. -/
structure Conserved (s : Reading) : Prop where
  queued_once : s.pool.bufQueue.Nodup
  held_apart : ∀ r ∈ s.reads, r.base ∉ s.pool.bufQueue
  held_once : (s.reads.map Read.base).Nodup
  ids : (s.handed.map Prod.fst).Nodup
  returned_once : (s.returned ++ s.reads.map Read.key).Perm s.handed
  count : s.pool.bufQueue.length + s.reads.length = 1000 + s.pool.newNumRead

/-- Every buffer ever allocated is in the queue or with one read. -/
structure Pooled (s : Reading) : Prop where
  all : (s.pool.bufQueue ++ s.reads.map Read.base).Perm (List.range (1000 + s.pool.newNumRead))
  ids : s.handed.map Prod.fst = List.range s.handed.length
  returned : (s.returned ++ s.reads.map Read.key).Perm s.handed

theorem start_pooled (conns : Nat → TcpConnection) : (start conns).Pooled :=
  ⟨by simp [start,ReadPool.make],rfl,.refl _⟩

theorem Pooled.conserved {s : Reading} (pooled : s.Pooled) : s.Conserved := by
  obtain ⟨queued,held,apart⟩ := List.nodup_append.mp (pooled.all.nodup_iff.mpr List.nodup_range)
  refine ⟨queued,?_,held,?_,pooled.returned,?_⟩
  · intro r outstanding inside
    exact apart r.base inside r.base (List.mem_map_of_mem outstanding) rfl
  · rw [pooled.ids]
    exact List.nodup_range
  · simpa using pooled.all.length_eq

theorem Pooled.hand {s : Reading} {p : ReadPool} {conn b : Nat} (pooled : s.Pooled)
    (out : (b :: p.bufQueue ++ s.reads.map Read.base).Perm (List.range (1000 + p.newNumRead))) :
    (s.hand p conn b).Pooled := by
  refine ⟨?_,?_,?_⟩
  · change (p.bufQueue ++ (s.reads ++ [_]).map Read.base).Perm _
    rw [List.map_append,← List.append_assoc]
    exact (List.perm_append_singleton b _).trans out
  · change (s.handed ++ [_]).map Prod.fst = List.range (s.handed ++ [_]).length
    rw [List.map_append,pooled.ids,List.length_append]
    exact List.range_succ.symm
  · change (s.returned ++ (s.reads ++ [_]).map Read.key).Perm (s.handed ++ [_])
    rw [List.map_append,← List.append_assoc]
    exact pooled.returned.append_right _

theorem step_pooled {s t : Reading} {e : ReadEvent} (pooled : s.Pooled)
    (taken : step onMessage s e = some t) : t.Pooled := by
  cases e with
  | onAllocBuffer conn =>
    simp only [step,ReadPool.pop] at taken
    cases queue : s.pool.bufQueue with
    | nil =>
      simp only [queue,Option.some.injEq] at taken
      subst taken
      exact ⟨by rw [← queue]; exact pooled.all,pooled.ids,pooled.returned⟩
    | cons b rest =>
      simp only [queue,Option.some.injEq] at taken
      subst taken
      apply pooled.hand
      have all := pooled.all
      rw [queue] at all
      exact all
  | newBuffer i =>
    obtain ⟨conn,_,rfl⟩ := Option.map_eq_some_iff.mp taken
    have kept : {s with missed := s.missed.eraseIdx i}.Pooled := ⟨pooled.all,pooled.ids,pooled.returned⟩
    apply kept.hand
    change ((1000 + s.pool.newNumRead) :: (s.pool.bufQueue ++ s.reads.map Read.base)).Perm
      (List.range (1000 + s.pool.newNumRead + 1))
    rw [List.range_succ]
    exact (pooled.all.cons _).trans (List.perm_append_singleton _ _).symm
  | onRead i nread bytes =>
    obtain ⟨r,found,rfl⟩ := Option.map_eq_some_iff.mp taken
    obtain ⟨inside,rfl⟩ := List.getElem?_eq_some_iff.mp found
    have out : (s.reads[i] :: s.reads.eraseIdx i).Perm s.reads := List.getElem_cons_eraseIdx_perm inside
    refine ⟨?_,pooled.ids,?_⟩
    · change ((s.pool.bufQueue ++ [s.reads[i].base]) ++ (s.reads.eraseIdx i).map Read.base).Perm _
      rw [List.append_assoc]
      exact ((out.map Read.base).append_left _).trans pooled.all
    · change ((s.returned ++ ((s.pool.bufQueue ++ [s.reads[i].base]).drop s.pool.bufQueue.length).map
        fun b => (s.reads[i].id,b)) ++ (s.reads.eraseIdx i).map Read.key).Perm _
      rw [List.drop_left,List.append_assoc]
      exact ((out.map Read.key).append_left _).trans pooled.returned
  | onReadNull conn nread =>
    simp only [step] at taken
    split at taken
    · cases taken
      exact ⟨pooled.all,pooled.ids,by simpa [answer,onRead] using pooled.returned⟩
    · cases taken

/-- Over any number of connections and any reads of any of them. -/
theorem read_buffers_conserved (conns : Nat → TcpConnection) (events : List ReadEvent) :
    Transition.Along (step onMessage) Conserved (start conns) events :=
  Transition.along_of_invariant (fun _ pooled => pooled.conserved)
    (fun _ _ _ pooled taken => step_pooled onMessage pooled taken) events (start_pooled conns)

end
end Reading
end UvRpc
