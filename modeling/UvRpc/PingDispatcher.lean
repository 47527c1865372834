import UvRpc.PongEncode

/-! PingDispatcher: the echo server answers each packet with its payload, encoded as the
string of a task. -/
namespace UvRpc

namespace PingDispatcher

/-- The taskIdStr of the task handed to sendMsg: `std::string(buf, len)`. -/
def onMessageParse (call : ParseCall) : List UInt8 := call.payload

def replies (log : List Event) : List (List UInt8) :=
  log.filterMap fun
    | .parse call => some (onMessageParse call)
    | _ => none

/-- The server reads the chunks of its requests. Its i-th reply is encoded into the
buffer that the pool hands out then. -/
def echo (server encoder : Heap) (pool : Nat → Recycled) (requests : List (List UInt8)) :
    Option (List (List UInt8)) :=
  (Dispatch.fresh server).bind fun d =>
    (d.onMessages requests).bind fun d =>
      PongEncode.encodeTasks encoder ((replies d.log).zipIdx.map fun (s,i) => (s,pool i))

/-- The buffers are the replies to the payloads: their length fields are right, and a
client that gets them in any chunks reads the payloads, each with a zero byte. -/
def Echoes (client : Heap) (payloads buffers : List (List UInt8)) : Prop :=
  (∀ b ∈ buffers, lenOf b = b.length - DataHeader.size) ∧
    ∀ chunks : List (List UInt8), chunks.flatten = buffers.flatten →
      ∃ d, (Dispatch.fresh client).bind (Dispatch.onMessages · chunks) = some d ∧
        deliveries d.log = payloads.map (fun p => (p.length + 1,p ++ [0])) ∧ d.residue = []

theorem replies_deliveries (log : List Event) : replies log = (deliveries log).map Prod.snd := by
  rw [replies,deliveries,List.map_filterMap]
  congr 1
  funext e
  cases e <;> rfl

theorem payload_le {s : List UInt8} {f : Frame} (member : f ∈ frames s) : f.payload.length ≤ 65535 := by
  rw [payload_length member]; exact f.header.getLen_bound

theorem echo_spec {server encoder : Heap} (server_succeeds : server.Succeeds)
    (encoder_succeeds : encoder.Succeeds) (pool : Nat → Recycled) (requests : List (List UInt8)) :
    echo server encoder pool requests =
      some ((frames requests.flatten).map fun f => PongEncode.packet f.payload) := by
  obtain ⟨d,received,_,delivered,_⟩ := Dispatch.fresh_onMessages server_succeeds requests
  obtain ⟨start,made,read⟩ := Option.bind_eq_some_iff.mp received
  have strings : replies d.log = (frames requests.flatten).map Frame.payload := by
    rw [replies_deliveries,delivered,List.map_map]; rfl
  have encoded := PongEncode.encodeTasks_spec ((replies d.log).zipIdx.map fun (s,i) => (s,pool i))
    encoder_succeeds (by
      intro t ht
      obtain ⟨⟨s,i⟩,member,rfl⟩ := List.mem_map.mp ht
      have sent := List.fst_mem_of_mem_zipIdx member
      rw [strings] at sent
      obtain ⟨f,hf,rfl⟩ := List.mem_map.mp sent
      exact Nat.lt_of_le_of_lt (payload_le hf) (by decide))
  rw [echo,made,Option.bind_some,read,Option.bind_some,encoded,List.map_map]
  have first : ((fun t : List UInt8 × Recycled => PongEncode.packet t.1) ∘
      fun x : List UInt8 × Nat => (x.1,pool x.2)) = PongEncode.packet ∘ Prod.fst := rfl
  rw [first,← List.map_map,List.zipIdx_map_fst,strings,List.map_map]
  rfl

theorem lenOf_packet_right_iff {payload : List UInt8} (fits : payload.length ≤ 65535) :
    lenOf (PongEncode.packet payload) = (PongEncode.packet payload).length - DataHeader.size ↔
      payload.length ≤ 65534 := by
  rw [PongEncode.lenOf_packet,PongEncode.packet_length]
  omega

/-- The server echoes exactly when no payload is as long as the length field allows:
with its zero byte, a payload of 65535 bytes does not fit the field. -/
theorem echoes_iff (server encoder client : Heap) (server_succeeds : server.Succeeds)
    (encoder_succeeds : encoder.Succeeds) (client_succeeds : client.Succeeds)
    (pool : Nat → Recycled) (requests : List (List UInt8)) :
    ∃ buffers, echo server encoder pool requests = some buffers ∧
      (Echoes client ((frames requests.flatten).map Frame.payload) buffers ↔
        ∀ f ∈ frames requests.flatten, f.payload.length ≤ 65534) := by
  refine ⟨_,echo_spec server_succeeds encoder_succeeds pool requests,?_⟩
  constructor
  · intro ⟨right,_⟩ f hf
    have field := right _ (List.mem_map.mpr ⟨f,hf,rfl⟩)
    exact lenOf_packet_right_iff (payload_le hf) |>.mp field
  · intro short
    refine ⟨?_,fun chunks cut => ?_⟩
    · intro b hb
      obtain ⟨f,hf,rfl⟩ := List.mem_map.mp hb
      exact (lenOf_packet_right_iff (payload_le hf)).mpr (short f hf)
    · exact PongEncode.fresh_reads _ client_succeeds (by simpa using short)
        (by rw [cut,List.map_map]; rfl)

/-- A request whose payload is a header of a packet with three bytes. -/
theorem echoes_small : ∃ buffers,
    echo plenty plenty (fun _ => ⟨.null,CharVector.null_valid⟩) [[0,8,0,0,0],[0,0,0,0,3,0,0,0,0,0,0]] =
      some buffers ∧ Echoes plenty [[0,3,0,0,0,0,0,0]] buffers := by
  obtain ⟨buffers,replied,echoed⟩ := echoes_iff plenty plenty plenty plenty_succeeds plenty_succeeds
    plenty_succeeds (fun _ => ⟨.null,CharVector.null_valid⟩) [[0,8,0,0,0],[0,0,0,0,3,0,0,0,0,0,0]]
  exact ⟨buffers,replied,echoed.mpr (by decide)⟩

/-- A payload of 65535 bytes is answered with a packet that announces no bytes. -/
theorem echo_overflows : ¬ ∀ requests : List (List UInt8), ∃ buffers,
    echo plenty plenty (fun _ => ⟨.null,CharVector.null_valid⟩) requests = some buffers ∧
      Echoes plenty ((frames requests.flatten).map Frame.payload) buffers := by
  intro claimed
  obtain ⟨payload,length⟩ : ∃ payload : List UInt8, payload.length = 65535 :=
    ⟨_,List.length_replicate (n := 65535) (a := 0)⟩
  have request := frames_toBytes (h := ⟨(255,255),0,0,0,(0,0,0)⟩) (show _ = payload.length by rw [length]; rfl)
  obtain ⟨buffers,replied,right,_⟩ := claimed [_ ++ payload]
  rw [echo_spec plenty_succeeds plenty_succeeds,List.flatten_singleton,request] at replied
  have field := right (PongEncode.packet payload) (by rw [← Option.some.inj replied]; simp)
  have short := (lenOf_packet_right_iff (by omega)).mp field
  omega

end PingDispatcher
end UvRpc
