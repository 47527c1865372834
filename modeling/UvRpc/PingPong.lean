import UvRpc.PingDispatcher
import UvRpc.PingEncode
import UvRpc.ReadPool

/-! The ping client and the echo server. The client means to have one request after the other
written, the next in the send callback of the last one, and counts what comes back; the
server answers each request. But both sides send tasks that no setConnection has bound, and
afterWrite calls the send callback for bound ones only. Each side runs on its loop's thread.
Between them are two streams of bytes, read in pieces of any size. -/
namespace UvRpc

def SEND_COUNT : Nat := 50

/-- The counters and taskVec of the client. Beside them the record has the ids that were
looked up, how often the total time was printed, and whether the code ever looked beyond
the end of taskVec or of a payload. -/
structure PingClient where
  curNum : Nat
  retNum : Nat
  taskVec : Nat → Bool
  found : List Nat
  totals : Nat
  wild : Bool

namespace PingClient

def start : PingClient := ⟨0,0,fun _ => false,[],0,false⟩

def putTask (c : PingClient) (id : Nat) : PingClient :=
  if id < 100000 then {c with taskVec := Function.update c.taskVec id true} else {c with wild := true}

def findTask (c : PingClient) (id : Nat) : PingClient :=
  let c := {c with found := c.found ++ [id]}
  if id < 100000 then
    let c := if c.taskVec id then {c with retNum := c.retNum + 1} else c
    if c.retNum = SEND_COUNT then {c with totals := c.totals + 1} else c
  else {c with wild := true}

def msgCb (c : PingClient) (buf : List UInt8) : PingClient :=
  match Decimal.strtoll buf with
  | some n => c.findTask (n % 2 ^ 64).toNat
  | none => {c with wild := true}

/-- What PongDispatcher calls it for while the log is written. -/
def receive (c : PingClient) (log : List Event) : PingClient := (PingDispatcher.replies log).foldl msgCb c

end PingClient

/-- `conn` says whether the weak pointer has been set by setConnection. -/
structure PathlossTask where
  num : Nat
  conn : Bool

structure EchoTask where
  taskIdStr : List UInt8
  conn : Bool

/-- The writes `sending` of the client and `answering` of the server have no afterWrite yet.
A side is up until an assertion aborts its process. -/
structure PingPong where
  client : PingClient
  connected : Bool
  clientUp : Bool
  sending : List PathlossTask
  encoder : Heap
  request : List UInt8
  server : Dispatch
  serverUp : Bool
  answering : List EchoTask
  responder : Heap
  reply : List UInt8
  reader : Dispatch

namespace PingPong

structure Heaps where
  encoder : Heap
  server : Heap
  responder : Heap
  reader : Heap

structure Heaps.Succeed (h : Heaps) : Prop where
  encoder : h.encoder.Succeeds
  server : h.server.Succeeds
  responder : h.responder.Succeeds
  reader : h.reader.Succeeds

def start (h : Heaps) : Option PingPong :=
  (Dispatch.fresh h.server).bind fun server => (Dispatch.fresh h.reader).map fun reader =>
    ⟨.start,false,true,[],h.encoder,[],server,true,[],h.responder,[],reader⟩

/-- SendNewTask and, on the same thread, all of sendMsg: the pool hands out `buffer`. -/
def sendNewTask (s : PingPong) (buffer : Recycled) : Option PingPong :=
  (PingEncode.client s.encoder buffer.val (.ofNat s.client.curNum)).map fun (v,h) => {s with
    client := {s.client with curNum := s.client.curNum + 1}.putTask s.client.curNum
    sending := s.sending ++ [⟨s.client.curNum,false⟩]
    encoder := h
    request := s.request ++ v.contents}

/-- The server's sendMsg for each string. The pool hands out `pool i` for the i-th. -/
def respond (h : Heap) (pool : Nat → Recycled) : List (List UInt8) → Option (List UInt8 × Heap)
  | [] => some ([],h)
  | taskIdStr :: rest =>
    (PongEncode.encodeTask h (pool 0).val taskIdStr).bind fun (v,h) =>
      (respond h (fun i => pool (i + 1)) rest).map fun (bytes,h) => (v.contents ++ bytes,h)

inductive Action
  | onConnect (buffer : Recycled)
  /-- The oldest write of a side is complete. -/
  | afterWrite (buffer : Recycled)
  | serverAfterWrite
  | serverRead (nread : Nat) (pool : Nat → Recycled)
  | clientRead (nread : Nat)

/-- libuv has at least one byte for a read callback and at most a buffer. -/
def Readable (nread : Nat) (stream : List UInt8) : Prop := 0 < nread ∧ nread ≤ stream.length ∧ nread ≤ DEFAUTL_BUF_SZ

instance (nread : Nat) (stream : List UInt8) : Decidable (Readable nread stream) :=
  inferInstanceAs (Decidable (_ ∧ _))

def read (d : Dispatch) (stream : List UInt8) (nread : Nat) : Option Dispatch :=
  if Readable nread stream then {d with log := []}.onMessage (stream.take nread) else none

/-- `ndebug` tells whether assert(conn) of afterWrite is compiled out. -/
def step (ndebug : Bool) (s : PingPong) : Action → Option PingPong
  | .onConnect buffer =>
    if s.connected ∨ s.clientUp = false then none else {s with connected := true}.sendNewTask buffer
  | .afterWrite buffer =>
    match s.clientUp, s.sending with
    | true, task :: rest =>
      let s := {s with sending := rest}
      -- the send callback comes after the test of getConnection
      if task.conn then (if s.client.curNum < SEND_COUNT then s.sendNewTask buffer else some s)
      else some {s with clientUp := ndebug}
    | _, _ => none
  | .serverAfterWrite =>
    match s.serverUp, s.answering with
    | true, task :: rest => some {s with answering := rest, serverUp := task.conn || ndebug}
    | _, _ => none
  | .serverRead nread pool =>
    if s.serverUp then
      (read s.server s.request nread).bind fun server =>
        (respond s.responder pool (PingDispatcher.replies server.log)).map fun (bytes,h) => {s with
          request := s.request.drop nread
          server := server
          answering := s.answering ++ (PingDispatcher.replies server.log).map fun taskIdStr => ⟨taskIdStr,false⟩
          responder := h
          reply := s.reply ++ bytes}
    else none
  | .clientRead nread =>
    if s.clientUp then
      (read s.reader s.reply nread).map fun reader => {s with
        client := s.client.receive reader.log
        reply := s.reply.drop nread
        reader := reader}
    else none

/-- The bytes of the request `n` behind its header: the number as text, and whatever the
buffer held before. -/
def Ping (n : Nat) (payload : List UInt8) : Prop :=
  payload.length = 1016 ∧ ∃ rest, payload = Decimal.print n ++ 0 :: rest

def pingPacket (payload : List UInt8) : List UInt8 := (PingEncode.header 1024).toBytes ++ payload

/-- The requests that begin with number `n`, one after the other. -/
def Numbered : Nat → List (List UInt8) → Prop
  | _, [] => True
  | n, payload :: rest => Ping n payload ∧ Numbered (n + 1) rest

theorem numbered_append {n : Nat} {front back : List (List UInt8)} :
    Numbered n (front ++ back) ↔ Numbered n front ∧ Numbered (n + front.length) back := by
  induction front generalizing n with
  | nil => simp [Numbered]
  | cons p front ih => simp only [List.cons_append,Numbered,ih,List.length_cons,and_assoc,Nat.add_assoc,Nat.add_comm 1]

theorem Numbered.length {n : Nat} {payloads : List (List UInt8)} (numbered : Numbered n payloads) :
    ∀ p ∈ payloads, p.length = 1016 := by
  induction payloads generalizing n with
  | nil => simp
  | cons p rest ih => exact List.forall_mem_cons.mpr ⟨numbered.1.1,ih numbered.2⟩

theorem client_spec {h : Heap} (buffer : Recycled) {n : Nat} (succeeds : h.Succeeds) (small : n < 2 ^ 64) :
    ∃ v h' payload, PingEncode.client h buffer.val (.ofNat n) = some (v,h') ∧ h'.Succeeds ∧
      Ping n payload ∧ v.contents = pingPacket payload := by
  obtain ⟨r,v,reserved,encoded,room,_,contents⟩ :=
    PingEncode.encodeTask_spec buffer.val (.ofNat n) buffer.property succeeds (show 1024 ≤ 2048 by decide) (by decide)
  obtain ⟨r',reserved',_,heap,_⟩ := CharVector.reserve_spec (n := 2048) buffer.property.clear succeeds (by decide)
  obtain rfl := Option.some.inj (reserved.symm.trans reserved')
  have digits := Decimal.print_length_le (k := 20) (by decide) (Nat.lt_of_lt_of_le small (by decide))
  have printed : PingEncode.snprintf (.ofNat n) = Decimal.print n ++ [0] := by
    rw [PingEncode.snprintf,UInt64.toNat_ofNat_of_lt' (by simpa using small),List.take_of_length_le (by omega)]
  rw [printed] at contents
  refine ⟨v,r.heap,_,encoded,heap,
    ⟨?_,(r.vec.bytes.take 1024).drop (DataHeader.size + (Decimal.print n ++ [0]).length),?_⟩,contents⟩
  · simp only [List.length_append,List.length_singleton,List.length_drop,List.length_take,DataHeader.size]
    omega
  · rw [List.append_assoc]
    rfl

theorem cut_ping {payload : List UInt8} (length : payload.length = 1016) (rest : List UInt8) :
    packetCutter.cut (pingPacket payload ++ rest) = some (⟨PingEncode.header 1024,payload⟩,rest) := by
  rw [pingPacket,List.append_assoc]
  exact cutFrame_toBytes (by rw [length]; rfl) rest

theorem respond_spec {h : Heap} (pool : Nat → Recycled) (strings : List (List UInt8)) (succeeds : h.Succeeds)
    (small : ∀ t ∈ strings, t.length < 2 ^ 63) :
    ∃ h', respond h pool strings = some ((strings.map PongEncode.packet).flatten,h') ∧ h'.Succeeds := by
  induction strings generalizing h pool with
  | nil => exact ⟨h,rfl,succeeds⟩
  | cons t rest ih =>
    obtain ⟨v,h1,encoded,_,heap,contents⟩ :=
      PongEncode.encodeTask_spec (pool 0).property succeeds (small t (by simp))
    obtain ⟨h2,later,heap'⟩ := ih (fun i => pool (i + 1)) heap fun u member => small u (List.mem_cons_of_mem _ member)
    exact ⟨h2,by simp [respond,encoded,later,contents],heap'⟩

/-- A piece of a stream of packets: some of the packets are delivered, and the others are
what the connection keeps and what is still to come. -/
theorem read_spec {d : Dispatch} {stream : List UInt8} {nread : Nat} (ready : d.Ready)
    (readable : Readable nread stream) {write : List UInt8 → List UInt8} {frame : List UInt8 → Frame}
    {payloads : List (List UInt8)}
    (cuts : ∀ p ∈ payloads, ∀ rest, packetCutter.cut (write p ++ rest) = some (frame p,rest))
    (whole : d.residue ++ stream = (payloads.map write).flatten) :
    ∃ d' front back, read d stream nread = some d' ∧ d'.Ready ∧ payloads = front ++ back ∧
      PingDispatcher.replies d'.log = front.map (fun p => (frame p).payload) ∧
      d'.residue ++ stream.drop nread = (back.map write).flatten := by
  have split : (d.residue ++ stream.take nread) ++ stream.drop nread = (payloads.map write).flatten := by
    rw [List.append_assoc,List.take_append_drop,whole]
  obtain ⟨front,back,rfl,cut,left⟩ := packetCutter.parse_begun write frame payloads cuts split
  have quiet : Dispatch.Ready {d with log := []} := ⟨ready.valid,ready.heap,ready.incomplete⟩
  obtain ⟨d',received,parses⟩ := Dispatch.onMessage_spec quiet (stream.take nread)
  have delivered := parses.logged.delivered
  refine ⟨d',front,back,by rw [read,if_pos readable]; exact received,parses.ready,rfl,?_,?_⟩
  · change _ = _ ++ ((packetCutter.parse (d.residue ++ stream.take nread)).1.map _) at delivered
    rw [PingDispatcher.replies_deliveries,delivered,cut]
    simp [deliveries,Frame.delivery]
  · rw [parses.residue]
    exact left

/-- `waiting` are the requests answered but not read by the client, `pending` those that
the server has not answered. -/
structure Streams (s : PingPong) (waiting pending : List (List UInt8)) : Prop where
  numbered : Numbered s.client.retNum (waiting ++ pending)
  counted : s.client.curNum = s.client.retNum + (waiting.length + pending.length)
  limit : s.client.curNum ≤ 1
  unbound : ∀ task ∈ s.sending, task.conn = false
  put : ∀ i, s.client.taskVec i ↔ i < s.client.curNum
  found : s.client.found = List.range s.client.retNum
  total : s.client.totals = if s.client.retNum = SEND_COUNT then 1 else 0
  tame : s.client.wild = false
  encoder : s.encoder.Succeeds
  responder : s.responder.Succeeds
  server : s.server.Ready
  reader : s.reader.Ready
  requests : s.server.residue ++ s.request = (pending.map pingPacket).flatten
  replies : s.reader.residue ++ s.reply = (waiting.map PongEncode.packet).flatten

def Writes (ndebug : Bool) (s : PingPong) : Prop :=
  if s.connected then s.client.curNum = 1 ∧
    (s.sending.length = 1 ∧ s.clientUp = true ∨ s.sending = [] ∧ s.clientUp = ndebug)
  else s.client.curNum = 0 ∧ s.sending = [] ∧ s.clientUp = true

structure Inv (ndebug : Bool) (s : PingPong) (waiting pending : List (List UInt8)) : Prop extends s.Streams waiting pending where
  writes : s.Writes ndebug
  serves : ndebug = true → s.serverUp = true

/-- No more steps than this are left when `answered` requests have been answered: each
write needs a callback, and each byte a read. -/
def rank (s : PingPong) (answered : Nat) : Nat :=
  (if s.connected then 0 else 1) + (s.sending.length + (1 - s.client.curNum)) + (s.answering.length + (1 - answered)) +
    (s.request.length + 1024 * (1 - s.client.curNum)) + (s.reply.length + 1025 * (1 - answered))

/-- The client looks up nothing but the number that it waits for. -/
theorem msgCb_spec {c : PingClient} {payload : List UInt8} (ping : Ping c.retNum payload) (rest : List UInt8)
    (sent : c.retNum < SEND_COUNT) (put : c.taskVec c.retNum) :
    c.msgCb (payload ++ rest) = {c with
      retNum := c.retNum + 1
      found := c.found ++ [c.retNum]
      totals := if c.retNum + 1 = SEND_COUNT then c.totals + 1 else c.totals} := by
  obtain ⟨_,more,rfl⟩ := ping
  rw [SEND_COUNT] at sent
  have number := Decimal.strtoll_print (n := c.retNum) (by omega) (show Decimal.isDigit 0 = false by decide) (more ++ rest)
  have id : ((c.retNum : Int) % 2 ^ 64).toNat = c.retNum := by omega
  rw [PingClient.msgCb,List.append_assoc,List.cons_append,number]
  simp only [id,PingClient.findTask,put,if_true,if_pos (show c.retNum < 100000 by omega)]
  split <;> simp_all

theorem receive_spec {c : PingClient} {front : List (List UInt8)} (numbered : Numbered c.retNum front)
    (sent : c.retNum + front.length ≤ SEND_COUNT) (put : ∀ i < c.retNum + front.length, c.taskVec i)
    (found : c.found = List.range c.retNum) (total : c.totals = if c.retNum = SEND_COUNT then 1 else 0) :
    (front.map (· ++ [0])).foldl PingClient.msgCb c = {c with
      retNum := c.retNum + front.length
      found := List.range (c.retNum + front.length)
      totals := if c.retNum + front.length = SEND_COUNT then 1 else 0} := by
  induction front generalizing c with
  | nil => simp [← found,← total]
  | cons p rest ih =>
    rw [List.length_cons] at sent put
    have first := msgCb_spec numbered.1 [0] (by omega) (put _ (by omega))
    rw [List.map_cons,List.foldl_cons,first]
    have later := ih (c := {c with
        retNum := c.retNum + 1
        found := c.found ++ [c.retNum]
        totals := if c.retNum + 1 = SEND_COUNT then c.totals + 1 else c.totals}) numbered.2
      (by simp only; omega) (fun i small => put i (by simp only at small; omega))
      (by simp only [found,List.range_succ])
      (by simp only [total,if_neg (show c.retNum ≠ SEND_COUNT by omega)])
    rw [later]
    simp [Nat.add_assoc,Nat.add_comm 1]

variable {s t : PingPong} {waiting pending : List (List UInt8)}

/-- The first request, and by the guard the only one. -/
theorem Streams.sendNewTask (streams : s.Streams waiting pending) (buffer : Recycled) (first : s.client.curNum = 0) :
    ∃ t payload, s.sendNewTask buffer = some t ∧ t.Streams waiting (pending ++ [payload]) ∧
      t.connected = s.connected ∧ t.clientUp = s.clientUp ∧ t.serverUp = s.serverUp ∧
      t.sending = s.sending ++ [⟨s.client.curNum,false⟩] ∧ t.answering = s.answering ∧
      t.client.curNum = s.client.curNum + 1 ∧
      t.client.retNum = s.client.retNum ∧ t.request.length = s.request.length + 1024 ∧ t.reply = s.reply := by
  obtain ⟨v,h,payload,encoded,heap,ping,contents⟩ := client_spec (h := s.encoder) buffer streams.encoder
    (n := s.client.curNum) (by rw [first]; decide)
  have length : (pingPacket payload).length = 1024 := by rw [pingPacket,List.length_append,ping.1]; rfl
  refine ⟨_,payload,by rw [PingPong.sendNewTask,encoded]; rfl,?_⟩
  have inside : s.client.curNum < 100000 := by rw [first]; decide
  simp only [PingClient.putTask,inside,if_true,contents,List.length_append,length,and_true]
  refine {streams with
    numbered := ?_, counted := ?_, limit := ?_, unbound := ?_, put := fun i => ?_, encoder := heap, requests := ?_}
  · rw [← List.append_assoc]
    refine numbered_append.mpr ⟨streams.numbered,?_,trivial⟩
    rw [List.length_append,← streams.counted]
    exact ping
  · have counted := streams.counted
    simp only [List.length_append,List.length_singleton]
    omega
  · simp [first]
  · exact List.forall_mem_append.mpr ⟨streams.unbound,List.forall_mem_singleton.mpr rfl⟩
  · have before := streams.put i
    simp only [Function.update_apply]
    split <;> grind
  · rw [← List.append_assoc,streams.requests]
    simp

/-- What a step leads to: a state with the invariant and a smaller rank. -/
def Leads (ndebug : Bool) (s : PingPong) (answered : Nat) (t : PingPong) : Prop :=
  ∃ waiting pending, t.Inv ndebug waiting pending ∧ t.rank (t.client.retNum + waiting.length) < s.rank answered

variable {ndebug : Bool}

theorem Inv.onConnect (inv : s.Inv ndebug waiting pending) (first : s.connected = false) (buffer : Recycled) :
    ∃ t, step ndebug s (.onConnect buffer) = some t ∧ s.Leads ndebug (s.client.retNum + waiting.length) t := by
  have writes := inv.writes
  simp only [Writes,first] at writes
  obtain ⟨unnumbered,unsent,up⟩ := writes
  have streams : ({s with connected := true} : PingPong).Streams waiting pending := {inv.toStreams with}
  obtain ⟨t,payload,sent,kept,connected,clientUp,serverUp,sending,answering,curNum,retNum,request,reply⟩ :=
    streams.sendNewTask buffer unnumbered
  refine ⟨t,by simpa [step,first,up] using sent,waiting,_,⟨kept,?_,?_⟩,?_⟩
  · simp [Writes,connected,clientUp,sending,curNum,unsent,unnumbered,up]
  · rw [serverUp]; exact inv.serves
  · simp only [rank,connected,sending,answering,curNum,retNum,request,reply,first,unsent,unnumbered,if_true,if_false,
      Bool.false_eq_true,List.length_append,List.length_singleton,List.length_nil]
    omega

theorem Inv.afterWrite (inv : s.Inv ndebug waiting pending) (up : s.clientUp = true) (writing : s.sending ≠ [])
    (buffer : Recycled) :
    ∃ t, step ndebug s (.afterWrite buffer) = some t ∧ s.Leads ndebug (s.client.retNum + waiting.length) t := by
  have writes := inv.writes
  unfold Writes at writes
  split at writes
  case isFalse => exact absurd writes.2.1 writing
  rename_i open_
  obtain ⟨task,rest,here⟩ := List.exists_cons_of_ne_nil writing
  have unbound : task.conn = false := inv.unbound task (by simp [here])
  have last : rest = [] := by
    rcases writes.2 with ⟨one,_⟩ | ⟨none_left,_⟩
    · simpa [here] using one
    · exact absurd none_left writing
  subst last
  have streams : ({s with sending := [], clientUp := ndebug} : PingPong).Streams waiting pending :=
    {inv.toStreams with unbound := by simp}
  refine ⟨_,by simp only [step,up,here,unbound,Bool.false_eq_true,if_false],waiting,pending,⟨streams,?_,inv.serves⟩,?_⟩
  · simp [Writes,open_,writes.1]
  · simp only [rank,here,List.length_singleton,List.length_nil]
    omega

theorem Inv.serverAfterWrite (inv : s.Inv ndebug waiting pending) (up : s.serverUp = true) (writing : s.answering ≠ []) :
    ∃ t, step ndebug s .serverAfterWrite = some t ∧ s.Leads ndebug (s.client.retNum + waiting.length) t := by
  obtain ⟨task,rest,here⟩ := List.exists_cons_of_ne_nil writing
  have streams : ({s with answering := rest, serverUp := task.conn || ndebug} : PingPong).Streams waiting pending :=
    {inv.toStreams with}
  refine ⟨_,by simp only [step,up,here],waiting,pending,⟨streams,inv.writes,fun release => by simp [release]⟩,?_⟩
  simp only [rank,here,List.length_cons]
  omega

theorem packets_length {payloads : List (List UInt8)} (lengths : ∀ p ∈ payloads, p.length = 1016) :
    (payloads.map PongEncode.packet).flatten.length = 1025 * payloads.length := by
  induction payloads with
  | nil => rfl
  | cons p rest ih =>
    have first := lengths p (by simp)
    have later := ih fun q member => lengths q (List.mem_cons_of_mem _ member)
    rw [List.map_cons,List.flatten_cons,List.length_append,PongEncode.packet_length,first,later,List.length_cons,
      DataHeader.size]
    omega

theorem Inv.serverRead (inv : s.Inv ndebug waiting pending) (up : s.serverUp = true) {nread : Nat}
    (readable : Readable nread s.request) (pool : Nat → Recycled) :
    ∃ t, step ndebug s (.serverRead nread pool) = some t ∧ s.Leads ndebug (s.client.retNum + waiting.length) t := by
  have lengths := Numbered.length (numbered_append.mp inv.numbered).2
  have counted := inv.counted
  have limit := inv.limit
  obtain ⟨d,front,back,received,ready,rfl,strings,left⟩ :=
    read_spec inv.server readable (fun p member rest => cut_ping (lengths p member) rest) inv.requests
  have short (p) (member : p ∈ front) : p.length = 1016 := lengths p (List.mem_append_left _ member)
  obtain ⟨h,answered,heap⟩ := respond_spec pool front inv.responder fun p member => by rw [short p member]; decide
  rw [List.map_id'] at strings
  rw [List.length_append] at counted
  obtain ⟨bytes,bytes_eq⟩ : ∃ bytes, bytes = (front.map PongEncode.packet).flatten := ⟨_,rfl⟩
  rw [← bytes_eq] at answered
  have streams : ({s with
      request := s.request.drop nread
      server := d
      answering := s.answering ++ front.map fun taskIdStr => ⟨taskIdStr,false⟩
      responder := h
      reply := s.reply ++ bytes} : PingPong).Streams (waiting ++ front) back :=
    {inv.toStreams with
      numbered := by rw [List.append_assoc]; exact inv.numbered
      counted := by simp only [List.length_append]; omega
      responder := heap, server := ready, requests := left
      replies := by
        change s.reader.residue ++ (s.reply ++ bytes) = _
        rw [← List.append_assoc,inv.replies,bytes_eq,List.map_append,List.flatten_append]}
  refine ⟨_,by simp only [step,up,if_true,received,Option.bind_some,strings,answered,Option.map_some],waiting ++ front,back,
    ⟨streams,inv.writes,inv.serves⟩,?_⟩
  have replied := packets_length short
  obtain ⟨some_bytes,inside,_⟩ := readable
  simp only [rank,List.length_append,List.length_map,List.length_drop,bytes_eq,replied]
  omega

theorem Inv.clientRead (inv : s.Inv ndebug waiting pending) (up : s.clientUp = true) {nread : Nat}
    (readable : Readable nread s.reply) :
    ∃ t, step ndebug s (.clientRead nread) = some t ∧ s.Leads ndebug (s.client.retNum + waiting.length) t := by
  have numbered := inv.numbered
  have lengths := Numbered.length (numbered_append.mp numbered).1
  have counted := inv.counted
  have limit := inv.limit
  obtain ⟨d,front,back,received,ready,rfl,strings,left⟩ := read_spec inv.reader readable
    (fun p member rest => PongEncode.cut_packet (by rw [lengths p member]; decide) rest) inv.replies
  rw [List.length_append] at counted
  rw [List.append_assoc] at numbered
  have looked_up : s.client.receive d.log = {s.client with
      retNum := s.client.retNum + front.length
      found := List.range (s.client.retNum + front.length)
      totals := if s.client.retNum + front.length = SEND_COUNT then 1 else 0} := by
    rw [PingClient.receive,strings]
    exact receive_spec (numbered_append.mp numbered).1 (by rw [SEND_COUNT]; omega)
      (fun i small => (inv.put i).mpr (by omega)) inv.found inv.total
  have streams : ({s with
      client := s.client.receive d.log
      reply := s.reply.drop nread
      reader := d} : PingPong).Streams back pending := by
    rw [looked_up]
    exact {inv.toStreams with
      numbered := (numbered_append.mp numbered).2
      counted := by simp only; omega
      found := rfl, total := rfl, reader := ready, replies := left}
  have writes : ({s with
      client := s.client.receive d.log
      reply := s.reply.drop nread
      reader := d} : PingPong).Writes ndebug := by
    rw [looked_up]
    exact inv.writes
  refine ⟨_,by simp only [step,up,if_true,received,Option.map_some],back,pending,⟨streams,writes,inv.serves⟩,?_⟩
  obtain ⟨some_bytes,inside,_⟩ := readable
  simp only [rank,looked_up,List.length_append,List.length_drop]
  omega

/-- The invariant, with a bound on the steps that are left. -/
def Within (ndebug : Bool) (s : PingPong) (n : Nat) : Prop :=
  ∃ waiting pending, s.Inv ndebug waiting pending ∧ s.rank (s.client.retNum + waiting.length) = n

theorem Heaps.Succeed.start_within {h : Heaps} (succeed : h.Succeed) (ndebug : Bool) :
    ∃ s, start h = some s ∧ s.Within ndebug 2052 := by
  obtain ⟨server,made,ready,empty,_⟩ := Dispatch.fresh_ready succeed.server
  obtain ⟨reader,made',ready',empty',_⟩ := Dispatch.fresh_ready succeed.reader
  refine ⟨_,by rw [start,made,made']; rfl,[],[],⟨⟨trivial,rfl,Nat.zero_le _,by simp,fun i => ?_,rfl,rfl,rfl,
    succeed.encoder,succeed.responder,ready,ready',?_,?_⟩,?_,fun _ => rfl⟩,?_⟩
  · simp [PingClient.start]
  · simp [empty]
  · simp [empty']
  · simp [Writes,PingClient.start]
  · simp [rank,PingClient.start]

theorem step_within (s : PingPong) (n : Nat) (a : Action) (t : PingPong) (within : s.Within ndebug n)
    (taken : step ndebug s a = some t) : ∃ m < n, t.Within ndebug m := by
  obtain ⟨waiting,pending,inv,rfl⟩ := within
  suffices leads : ∃ u, step ndebug s a = some u ∧ s.Leads ndebug (s.client.retNum + waiting.length) u by
    obtain ⟨u,same,waiting',pending',kept,less⟩ := leads
    obtain rfl := Option.some.inj (taken.symm.trans same)
    exact ⟨_,less,waiting',pending',kept,rfl⟩
  cases a with
  | onConnect buffer =>
    refine inv.onConnect ?_ buffer
    by_contra connected
    simp [step,connected] at taken
  | afterWrite buffer =>
    refine inv.afterWrite ?_ (fun nothing => ?_) buffer
    · by_contra down
      simp [step,down] at taken
    · simp [step,nothing] at taken
  | serverAfterWrite =>
    refine inv.serverAfterWrite ?_ fun nothing => ?_
    · by_contra down
      simp [step,down] at taken
    · simp [step,nothing] at taken
  | serverRead nread pool =>
    refine inv.serverRead ?_ ?_ pool
    · by_contra down
      simp [step,down] at taken
    · by_contra unreadable
      simp [step,read,unreadable] at taken
  | clientRead nread =>
    refine inv.clientRead ?_ ?_
    · by_contra down
      simp [step,down] at taken
    · by_contra unreadable
      simp [step,read,unreadable] at taken

/-- What holds all along: no more than the request 0 is ever sent. It comes back at most
once, nothing else is looked up, and no total time is printed. -/
structure OneRequest (s : PingPong) : Prop where
  asked : s.client.curNum ≤ 1
  returned : s.client.retNum ≤ s.client.curNum
  found : s.client.found = List.range s.client.retNum
  total : s.client.totals = 0
  tame : s.client.wild = false

theorem Inv.oneRequest (inv : s.Inv ndebug waiting pending) : s.OneRequest := by
  have counted := inv.counted
  have limit := inv.limit
  exact ⟨limit,by omega,inv.found,by rw [inv.total,if_neg (by rw [SEND_COUNT]; omega)],inv.tame⟩

/-- A stream of packets that is all with the reader is no stream at all. -/
theorem nothing_left {d : Dispatch} (ready : d.Ready) {write : List UInt8 → List UInt8} {frame : List UInt8 → Frame}
    {payloads : List (List UInt8)} (cuts : ∀ p ∈ payloads, ∀ rest, packetCutter.cut (write p ++ rest) = some (frame p,rest))
    (whole : d.residue = (payloads.map write).flatten) : payloads = [] := by
  cases payloads with
  | nil => rfl
  | cons p rest =>
    have cut := cuts p (by simp) (rest.map write).flatten
    rw [← List.flatten_cons,← List.map_cons,← whole] at cut
    exact absurd (cut.symm.trans (cutFrame_none_iff.mpr ready.incomplete)) (by simp)

theorem readable_one {stream : List UInt8} (more : stream ≠ []) : Readable 1 stream :=
  ⟨Nat.one_pos,List.length_pos_iff.mpr more,by decide⟩

/-- Where the test stops: the client has aborted, or waits for ever with 49 requests unsent. -/
def Stalled (ndebug : Bool) (s : PingPong) : Prop :=
  if ndebug then s.clientUp = true ∧ s.client.curNum = 1 ∧ s.client.found = [0] ∧ s.sending = [] else s.clientUp = false

theorem Inv.stuck (inv : s.Inv ndebug waiting pending) (stuck : ∀ a, step ndebug s a = none) : s.Stalled ndebug := by
  obtain ⟨buffer,_⟩ : ∃ buffer : Recycled, buffer = ⟨.null,CharVector.null_valid⟩ := ⟨_,rfl⟩
  have no_step {P : PingPong → Prop} {a : Action} (taken : ∃ t, step ndebug s a = some t ∧ P t) : False := by
    obtain ⟨t,taken,_⟩ := taken
    exact absurd (taken.symm.trans (stuck a)) (by simp)
  have writes := inv.writes
  unfold Writes at writes
  split at writes
  case isFalse first => exact (no_step (inv.onConnect (by simpa using first) buffer)).elim
  obtain ⟨asked,left⟩ := writes
  obtain ⟨sent,up⟩ : s.sending = [] ∧ s.clientUp = ndebug := by
    refine left.resolve_left fun ⟨one,up⟩ => no_step (inv.afterWrite up (fun nothing => ?_) buffer)
    simp [nothing] at one
  cases ndebug with
  | false => exact up
  | true =>
    have numbered := numbered_append.mp inv.numbered
    have request : s.request = [] := by
      by_contra more
      exact no_step (inv.serverRead (inv.serves rfl) (readable_one more) fun _ => buffer)
    have reply : s.reply = [] := by
      by_contra more
      exact no_step (inv.clientRead up (readable_one more))
    have nothing_asked : pending = [] := nothing_left inv.server
      (fun p member rest => cut_ping (numbered.2.length p member) rest) (by rw [← inv.requests,request,List.append_nil])
    have nothing_answered : waiting = [] := nothing_left inv.reader
      (fun p member rest => PongEncode.cut_packet (by rw [numbered.1.length p member]; decide) rest)
      (by rw [← inv.replies,reply,List.append_nil])
    have counted := inv.counted
    rw [nothing_asked,nothing_answered,asked] at counted
    have returned : s.client.retNum = 1 := counted.symm
    exact ⟨up,asked,by rw [inv.found,returned]; rfl,sent⟩

/-- However the reads cut the two streams and whatever the buffers held, the client sends
one request only, and gets at most that one back. -/
theorem one_request (ndebug : Bool) (h : Heaps) (succeed : h.Succeed) :
    ∃ s, start h = some s ∧ ∀ actions, Transition.Along (step ndebug) OneRequest s actions := by
  obtain ⟨s,started,within⟩ := succeed.start_within ndebug
  refine ⟨s,started,fun actions =>
    Transition.along_of_invariant (I := fun s => ∃ n, s.Within ndebug n) ?_ ?_ actions ⟨_,within⟩⟩
  · rintro s ⟨n,waiting,pending,inv,_⟩
    exact inv.oneRequest
  · rintro s a t ⟨n,within⟩ taken
    obtain ⟨m,_,kept⟩ := step_within s n a t within taken
    exact ⟨m,kept⟩

def Heaps.plenty : Heaps := ⟨UvRpc.plenty,UvRpc.plenty,UvRpc.plenty,UvRpc.plenty⟩

theorem Heaps.plenty_succeed : Heaps.plenty.Succeed :=
  ⟨plenty_succeeds,plenty_succeeds,plenty_succeeds,plenty_succeeds⟩

theorem one_request_plenty :
    ∃ s, start .plenty = some s ∧ ∀ actions, Transition.Along (step true) OneRequest s actions :=
  one_request true .plenty Heaps.plenty_succeed

end PingPong
end UvRpc
