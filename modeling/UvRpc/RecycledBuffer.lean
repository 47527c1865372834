import UvRpc.PingEncode
import UvRpc.WritePath

/-! TcpConnection::encodeTask fills a request out of the pool, whose vector still holds what
was encoded in it before. What the peer receives is a function of the task as far as
the encoder writes every byte that is sent. -/
namespace UvRpc

/-- The two kinds of task that are encoded: ITask's taskIdStr, and PathlossTask's num. A
string is shorter than 2^63 bytes. -/
structure Task where
  taskIdStr : List UInt8
  num : UInt64
  object : taskIdStr.length < 2 ^ 63

/-- The encoders that are written for a CharVector. -/
inductive Encoder where
  | pong | client | distribute
  deriving DecidableEq, Repr

def Encoder.encodeTask (e : Encoder) (h : Heap) (buffer : CharVector) (task : Task) :
    Option (CharVector × Heap) :=
  match e with
  | .pong => PongEncode.encodeTask h buffer task.taskIdStr
  | .client => PingEncode.client h buffer task.num
  | .distribute => PingEncode.distribute h buffer task.num

/-- Its length parameter is an unsigned int. -/
def uvBufInit (v : CharVector) : UvBuf := ⟨v.base_ptr.map Block.addr,v.len % 2 ^ 32⟩

/-- `wreq` is what getWriteBuffer has returned, and `taskPtr` the number of the task. -/
def TcpConnection.encodeTask (e : Encoder) (h : Heap) (wreq : WriteReq) (task : Task) (taskPtr : Nat) :
    Option (WriteReq × Heap) :=
  let wreq := WritePath.beginEncode taskPtr wreq
  (e.encodeTask h wreq.vecBuf task).map fun (vecBuf,h) =>
    ({wreq with vecBuf := vecBuf, buf := uvBufInit vecBuf},h)

def WriteReq.sent (wreq : WriteReq) : List UInt8 := wreq.vecBuf.bytes.take wreq.buf.len

/-- What position i holds once the vector has room for it: what it held before, or what
the new memory happens to hold. -/
def leftover (h : Heap) (v : CharVector) (i : Nat) : UInt8 :=
  if i < v.cap then v.bytes.getD i 0
  else
    match h.answer h.asked with
    | some g => g.fill (i - v.cap)
    | none => 0

theorem Grant.fresh_getD (g : Grant) {i n : Nat} (inside : i < n) : (g.fresh n).getD i 0 = g.fill i := by
  simp [Grant.fresh,inside]

theorem allocMem_leftover {h : Heap} {v : CharVector} {n i : Nat} (valid : v.Valid) (succeeds : h.Succeeds)
    (inside : i < n) (larger : v.cap ≤ n) : (v.allocMem h n).vec.bytes.getD i 0 = leftover h v i := by
  have block := valid.block
  have never : h.answer h.asked ≠ none := Option.isSome_iff_ne_none.mp (succeeds h.asked)
  have allocated := CharVector.allocMem_allocated h v n
  generalize v.allocMem h n = r at allocated
  cases allocated with
  | noBlock _ first => exact absurd first never
  | @firstBlock base g first =>
    have empty : v.cap = 0 := by simp [← block,CharVector.bytes,base]
    rw [leftover,if_neg (by omega),first,empty]
    exact g.fresh_getD inside
  | enough _ fits => rw [leftover,if_pos (by omega)]
  | @realloc old base grows g first =>
    have held : v.bytes = old.bytes := by simp [CharVector.bytes,base]
    rw [held] at block
    change (old.bytes ++ g.fresh (n - old.bytes.length)).getD i 0 = _
    by_cases old_byte : i < v.cap
    · rw [leftover,if_pos old_byte,held,List.getD_append _ _ _ _ (by omega)]
    · rw [leftover,if_neg old_byte,first,List.getD_append_right _ _ _ _ (by omega),block,
        g.fresh_getD (by omega)]
  | malloc _ _ first => exact absurd first never
  | refused _ _ first => exact absurd first never

theorem reserve_leftover {h : Heap} {v : CharVector} {n size : Nat} {r : CharVector.Result} (valid : v.Valid)
    (succeeds : h.Succeeds) (small : n ≤ CharVector.growable) (fits : size ≤ n)
    (reserved : v.reserve h n = some r) (start : Nat) :
    (r.vec.bytes.take size).drop start = (List.range' start (size - start)).map (leftover h v) := by
  obtain ⟨sz,asked,le,enough,_⟩ := CharVector.reserve_asks h v small
  cases reserved.symm.trans asked
  rcases CharVector.allocMem_same (h := h) valid le with ⟨_,⟨_,_,cap⟩ | ⟨failed,_⟩⟩
  · have length : (v.allocMem h sz).vec.bytes.length = sz := by
      have valid' := (CharVector.allocMem_same (h := h) valid le).1.valid
      rw [valid'.block,cap]
    apply List.ext_getElem
    · simp [length]; omega
    · intro j inside _
      have bound : start + j < sz := by simp [length] at inside; omega
      have byte := allocMem_leftover valid succeeds bound le
      rw [List.getD_eq_getElem _ _ (by omega)] at byte
      simp [byte]
  · exact absurd ((CharVector.allocMem_ok succeeds v sz).1.symm.trans failed) (by decide)

/-- The positions of a packet of that size that PingEncode does not write. -/
def PingEncode.unwritten (size : Nat) (num : UInt64) : List Nat :=
  List.range' (DataHeader.size + (snprintf num).length) (size - (DataHeader.size + (snprintf num).length))

namespace Encoder

/-- The positions of the sent packet that the encoder does not write. -/
def unwritten (e : Encoder) (task : Task) : List Nat :=
  match e with
  | .pong => []
  | .client => PingEncode.unwritten 1024 task.num
  | .distribute => PingEncode.unwritten 256 task.num

def written (e : Encoder) (task : Task) : List UInt8 :=
  match e with
  | .pong => (PongEncode.packet task.taskIdStr).take ((PongEncode.packet task.taskIdStr).length % 2 ^ 32)
  | .client => (PingEncode.header 1024).toBytes ++ PingEncode.snprintf task.num
  | .distribute => (PingEncode.header 256).toBytes ++ PingEncode.snprintf task.num

end Encoder

theorem sent_take (wreq : WriteReq) (v : CharVector) :
    WriteReq.sent {wreq with vecBuf := v, buf := uvBufInit v} = v.contents.take (v.len % 2 ^ 32) := by
  change v.bytes.take (v.len % 2 ^ 32) = _
  rw [CharVector.contents,List.take_take,Nat.min_eq_left (Nat.mod_le _ _)]

theorem PingEncode.sent_spec (size : Nat) {h : Heap} {wreq : WriteReq} (num : UInt64) (p : Nat)
    (valid : wreq.vecBuf.Valid) (succeeds : h.Succeeds) (fits : size ≤ 2048)
    (some_room : DataHeader.size + 21 ≤ size) :
    ∃ v h', encodeTask size h (WritePath.beginEncode p wreq).vecBuf num = some (v,h') ∧
      WriteReq.sent {WritePath.beginEncode p wreq with vecBuf := v, buf := uvBufInit v} =
        (header size).toBytes ++ snprintf num ++ (unwritten size num).map (leftover h wreq.vecBuf) := by
  obtain ⟨r,v,reserved,encoded,_,len,contents⟩ :=
    encodeTask_spec wreq.vecBuf.clear num valid.clear succeeds fits some_room
  have rest := reserve_leftover (v := wreq.vecBuf.clear.clear) valid.clear.clear succeeds (by decide) fits reserved
    (DataHeader.size + (snprintf num).length)
  refine ⟨v,r.heap,encoded,?_⟩
  rw [sent_take,len,Nat.mod_eq_of_lt (by omega),CharVector.contents,List.take_take,len,Nat.min_self]
  rw [CharVector.contents,len] at contents
  rw [contents,rest,List.append_assoc]
  rfl

theorem sent_spec {e : Encoder} {h : Heap} {wreq : WriteReq} (task : Task) (p : Nat)
    (valid : wreq.vecBuf.Valid) (succeeds : h.Succeeds) :
    ∃ w h', TcpConnection.encodeTask e h wreq task p = some (w,h') ∧
      w.sent = e.written task ++ (e.unwritten task).map (leftover h wreq.vecBuf) := by
  cases e with
  | pong =>
    obtain ⟨v,h',encoded,valid',_,contents⟩ := PongEncode.encodeTask_spec
      (show (WritePath.beginEncode p wreq).vecBuf.Valid from valid.clear) succeeds task.object
    refine ⟨_,h',by simp only [TcpConnection.encodeTask,Encoder.encodeTask,encoded,Option.map_some]; rfl,?_⟩
    rw [sent_take,← valid'.contents_length,contents]
    simp [Encoder.written,Encoder.unwritten]
  | client =>
    obtain ⟨v,h',encoded,sent⟩ := PingEncode.sent_spec 1024 task.num p valid succeeds (by decide) (by decide)
    refine ⟨_,h',?_,sent⟩
    simp only [TcpConnection.encodeTask,Encoder.encodeTask,PingEncode.client,encoded,Option.map_some]
  | distribute =>
    obtain ⟨v,h',encoded,sent⟩ := PingEncode.sent_spec 256 task.num p valid succeeds (by decide) (by decide)
    refine ⟨_,h',?_,sent⟩
    simp only [TcpConnection.encodeTask,Encoder.encodeTask,PingEncode.distribute,encoded,Option.map_some]

/-- Two states of the write buffer give the same bytes exactly when they agree where the
encoder leaves the packet unwritten: PongEncode always, PingEncode behind its number. -/
theorem same_bytes_iff (e : Encoder) (task : Task) (p : Nat) (h₁ h₂ : Heap) (w₁ w₂ : WriteReq)
    (succeeds₁ : h₁.Succeeds) (succeeds₂ : h₂.Succeeds) (valid₁ : w₁.vecBuf.Valid) (valid₂ : w₂.vecBuf.Valid) :
    ∃ r₁ r₂, TcpConnection.encodeTask e h₁ w₁ task p = some r₁ ∧
      TcpConnection.encodeTask e h₂ w₂ task p = some r₂ ∧
      (r₁.1.sent = r₂.1.sent ↔ ∀ i ∈ e.unwritten task, leftover h₁ w₁.vecBuf i = leftover h₂ w₂.vecBuf i) := by
  obtain ⟨r₁,h₁',encoded₁,sent₁⟩ := sent_spec (e := e) task p valid₁ succeeds₁
  obtain ⟨r₂,h₂',encoded₂,sent₂⟩ := sent_spec (e := e) task p valid₂ succeeds₂
  refine ⟨(r₁,h₁'),(r₂,h₂'),encoded₁,encoded₂,?_⟩
  rw [sent₁,sent₂,List.append_cancel_left_eq]
  exact List.map_inj_left

/-- A new request: DEFAULT_VEC_SZ bytes, which here happen to be zero. -/
def blank : WriteReq := ⟨⟨some ⟨0,List.replicate 8192 0⟩,0,8192⟩,⟨none,0⟩,none⟩

theorem blank_valid : blank.vecBuf.Valid := ⟨by decide,List.length_replicate⟩

/-- The same request after it has carried 12345. -/
def carried : WriteReq :=
  ⟨⟨some ⟨0,(PingEncode.header 1024).toBytes ++ [49,50,51,52,53,0] ++ List.replicate 8178 0⟩,1024,8192⟩,⟨some 0,1024⟩,some 0⟩

theorem carried_valid : carried.vecBuf.Valid := by
  refine ⟨by decide,?_⟩
  change ((PingEncode.header 1024).toBytes ++ [49,50,51,52,53,0] ++ List.replicate 8178 0).length = 8192
  rw [List.length_append,List.length_append,List.length_replicate]
  rfl

/-- One number into a request that is used again and into a new one. -/
theorem same_bytes_recycled : ∃ r₁ r₂,
    TcpConnection.encodeTask .client plenty carried ⟨[],7,by decide⟩ 0 = some r₁ ∧
      TcpConnection.encodeTask .client plenty blank ⟨[],7,by decide⟩ 0 = some r₂ ∧
      (r₁.1.sent = r₂.1.sent ↔ ∀ i ∈ Encoder.client.unwritten ⟨[],7,by decide⟩,
        leftover plenty carried.vecBuf i = leftover plenty blank.vecBuf i) :=
  same_bytes_iff .client ⟨[],7,by decide⟩ 0 plenty plenty carried blank plenty_succeeds plenty_succeeds
    carried_valid blank_valid

/-- The request that carried 12345 sends 7, zero, 345: digits of the earlier number. -/
theorem earlier_number_sent : ∃ old r₁ r₂,
    TcpConnection.encodeTask .client plenty blank ⟨[],12345,by decide⟩ 0 = some old ∧
      TcpConnection.encodeTask .client old.2 old.1 ⟨[],7,by decide⟩ 1 = some r₁ ∧
      TcpConnection.encodeTask .client plenty blank ⟨[],7,by decide⟩ 1 = some r₂ ∧
      (r₁.1.sent.drop 8).take 6 = [55,0,51,52,53,0] ∧ (r₂.1.sent.drop 8).take 6 = [55,0,0,0,0,0] ∧
      r₁.1.sent ≠ r₂.1.sent := by
  have reused : ((TcpConnection.encodeTask .client plenty blank ⟨[],12345,by decide⟩ 0).bind fun old =>
      (TcpConnection.encodeTask .client old.2 old.1 ⟨[],7,by decide⟩ 1).map fun r =>
        (r.1.sent.drop 8).take 6) = some [55,0,51,52,53,0] := by decide +kernel
  have clean : ((TcpConnection.encodeTask .client plenty blank ⟨[],7,by decide⟩ 1).map fun r =>
      (r.1.sent.drop 8).take 6) = some [55,0,0,0,0,0] := by decide +kernel
  obtain ⟨old,first,later⟩ := Option.bind_eq_some_iff.mp reused
  obtain ⟨r₁,second,leak⟩ := Option.map_eq_some_iff.mp later
  obtain ⟨r₂,other,zeros⟩ := Option.map_eq_some_iff.mp clean
  refine ⟨old,r₁,r₂,first,second,other,leak,zeros,fun same => ?_⟩
  rw [same,zeros] at leak
  exact absurd leak (by decide)

end UvRpc
