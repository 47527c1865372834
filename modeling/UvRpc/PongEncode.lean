import UvRpc.Framing

/-! PongEncode::encodeTask and the echo server built on it: a placeholder header, the
task's string byte by byte, a zero byte, then the header's fields. -/
namespace UvRpc

/-- A write buffer's vector as the pool may hand it out: any contents, size and capacity. -/
abbrev Recycled := {v : CharVector // v.Valid}

namespace PongEncode

/-- Repeated push_back. The results are not looked at. -/
def pushAll (h : Heap) (v : CharVector) : List UInt8 → Option (CharVector × Heap)
  | [] => some (v,h)
  | ch :: rest => (v.push_back h ch).bind fun r => pushAll r.heap r.vec rest

/-- The fields written through the header pointer once the size is known. -/
def fillHeader (v : CharVector) : CharVector :=
  let header : DataHeader :=
    {DataHeader.ofBytes v.bytes with type := 0x10, encode := 0xf0, version := 0x10}
  v.setBytes (memcpy v.bytes 0
    (header.setLen (CharVector.wrap (v.len + 2 ^ 64 - DataHeader.size))).toBytes)

def encodeTask (h : Heap) (buffer : CharVector) (taskIdStr : List UInt8) : Option (CharVector × Heap) :=
  (buffer.clear.reserve h 1024).bind fun r =>
    -- packet header, filled with '#'
    (pushAll r.heap r.vec (List.replicate DataHeader.size 35)).bind fun (v,h) =>
      (pushAll h v taskIdStr).bind fun (v,h) =>
        (v.push_back h 0).map fun r => (fillHeader r.vec,r.heap)

def encodeTasks (h : Heap) : List (List UInt8 × Recycled) → Option (List (List UInt8))
  | [] => some []
  | (taskIdStr,buffer) :: rest =>
    (encodeTask h buffer.val taskIdStr).bind fun (v,h) =>
      (encodeTasks h rest).map (v.contents :: ·)

/-- The header of a task's packet. Its length field keeps only 16 bits. -/
def header (taskIdStr : List UInt8) : DataHeader :=
  ⟨DataHeader.htons (taskIdStr.length + 1),0x10,0xf0,0x10,(35,35,35)⟩

def packet (taskIdStr : List UInt8) : List UInt8 := (header taskIdStr).toBytes ++ (taskIdStr ++ [0])

theorem pushAll_spec {h : Heap} {v : CharVector} (bytes : List UInt8) (valid : v.Valid)
    (succeeds : h.Succeeds) (small : v.len + bytes.length ≤ 2 ^ 63 + 2 ^ 62) :
    ∃ v' h', pushAll h v bytes = some (v',h') ∧ v'.Valid ∧ h'.Succeeds ∧
      v'.contents = v.contents ++ bytes := by
  induction bytes generalizing h v with
  | nil => exact ⟨v,h,rfl,valid,succeeds,by simp⟩
  | cons ch rest ih =>
    rw [List.length_cons] at small
    obtain ⟨r,pushed,holds⟩ := CharVector.push_back_spec ch valid succeeds (by omega)
    have length : r.vec.len = v.len + 1 := by
      have := congrArg List.length holds.contents
      rwa [holds.valid.contents_length,List.length_append,valid.contents_length] at this
    obtain ⟨v',h',later,valid',heap',contents⟩ := ih holds.valid holds.heap (by omega)
    refine ⟨v',h',by simp [pushAll,pushed,later],valid',heap',?_⟩
    rw [contents,holds.contents,List.append_assoc]
    rfl

theorem fillHeader_spec {v : CharVector} {body : List UInt8} (valid : v.Valid)
    (present : v.base_ptr ≠ none) (small : v.len < 2 ^ 64)
    (contents : v.contents = List.replicate DataHeader.size 35 ++ body) :
    (fillHeader v).Valid ∧ (fillHeader v).contents =
      (⟨DataHeader.htons body.length,0x10,0xf0,0x10,(35,35,35)⟩ : DataHeader).toBytes ++ body := by
  have size := valid.size_le
  have block := valid.block
  have eight : DataHeader.size = 8 := rfl
  have length : v.len = DataHeader.size + body.length := by
    rw [← valid.contents_length,contents]; simp
  obtain ⟨tail,split⟩ : ∃ tail, v.bytes = v.contents ++ tail :=
    ⟨v.bytes.drop v.len,(List.take_append_drop _ _).symm⟩
  rw [contents] at split
  have placeholder : DataHeader.ofBytes v.bytes = ⟨(35,35),35,35,35,(35,35,35)⟩ := by
    rw [split]; rfl
  have announced : CharVector.wrap (v.len + 2 ^ 64 - DataHeader.size) = body.length := by
    unfold CharVector.wrap; omega
  have bytes : (fillHeader v).bytes =
      (⟨DataHeader.htons body.length,0x10,0xf0,0x10,(35,35,35)⟩ : DataHeader).toBytes ++
        (body ++ tail) := by
    unfold fillHeader
    rw [CharVector.setBytes_bytes present,announced,placeholder,memcpy,split]
    rfl
  refine ⟨⟨size,?_⟩,?_⟩
  · rw [bytes]
    change _ = v.cap
    rw [← block,split]
    simp
  · change (fillHeader v).bytes.take v.len = _
    rw [bytes,← List.append_assoc,List.take_left']
    simp; omega

theorem encodeTask_spec {h : Heap} {buffer : CharVector} {taskIdStr : List UInt8}
    (valid : buffer.Valid) (succeeds : h.Succeeds) (small : taskIdStr.length < 2 ^ 63) :
    ∃ v h', encodeTask h buffer taskIdStr = some (v,h') ∧ v.Valid ∧ h'.Succeeds ∧
      v.contents = packet taskIdStr := by
  obtain ⟨r,reserved,_,heap,grown⟩ :=
    CharVector.reserve_spec (n := 1024) valid.clear succeeds (by decide)
  have held : r.vec.contents = [] := by rw [grown.contents,CharVector.clear_contents]
  have none_held : r.vec.len = 0 := by rw [grown.len,CharVector.clear_len]
  obtain ⟨v,h1,placed,valid1,heap1,contents1⟩ := pushAll_spec
    (List.replicate DataHeader.size 35) grown.valid heap (by rw [none_held]; decide)
  have length1 : v.len = DataHeader.size := by
    rw [← valid1.contents_length,contents1,held]; simp
  have eight : DataHeader.size = 8 := rfl
  obtain ⟨w,h2,written,valid2,heap2,contents2⟩ := pushAll_spec taskIdStr valid1 heap1 (by omega)
  have length2 : w.len = DataHeader.size + taskIdStr.length := by
    rw [← valid2.contents_length,contents2,List.length_append,valid1.contents_length,length1]
  obtain ⟨s,ended,holds⟩ := CharVector.push_back_spec 0 valid2 heap2 (by omega)
  have contents : s.vec.contents = List.replicate DataHeader.size 35 ++ (taskIdStr ++ [0]) := by
    rw [holds.contents,contents2,contents1,held,List.nil_append,List.append_assoc]
  have length : s.vec.len = DataHeader.size + (taskIdStr.length + 1) := by
    rw [← holds.valid.contents_length,contents]; simp
  obtain ⟨valid',filled⟩ := fillHeader_spec holds.valid holds.present (by omega) contents
  refine ⟨fillHeader s.vec,s.heap,?_,valid',holds.heap,?_⟩
  · simp [encodeTask,reserved,placed,written,ended]
  · rw [filled,List.length_append]; rfl

theorem encodeTasks_spec {h : Heap} (tasks : List (List UInt8 × Recycled)) (succeeds : h.Succeeds)
    (small : ∀ t ∈ tasks, t.1.length < 2 ^ 63) :
    encodeTasks h tasks = some (tasks.map fun t => packet t.1) := by
  induction tasks generalizing h with
  | nil => rfl
  | cons t rest ih =>
    obtain ⟨v,h',encoded,_,heap,contents⟩ :=
      encodeTask_spec t.2.property succeeds (small t (by simp))
    have later := ih heap fun u hu => small u (List.mem_cons_of_mem _ hu)
    simp [encodeTasks,encoded,later,contents]

theorem packet_length (taskIdStr : List UInt8) :
    (packet taskIdStr).length = DataHeader.size + (taskIdStr.length + 1) := by
  simp [packet]

theorem header_len (taskIdStr : List UInt8) :
    (header taskIdStr).getLen = (taskIdStr.length + 1) % 65536 :=
  DataHeader.ntohs_htons _

theorem lenOf_packet (taskIdStr : List UInt8) :
    lenOf (packet taskIdStr) = (taskIdStr.length + 1) % 65536 := by
  rw [lenOf,packet,DataHeader.ofBytes_toBytes,header_len]

theorem cut_packet {taskIdStr : List UInt8} (short : taskIdStr.length ≤ 65534) (rest : List UInt8) :
    packetCutter.cut (packet taskIdStr ++ rest) =
      some (⟨header taskIdStr,taskIdStr ++ [0]⟩,rest) := by
  have announced : (header taskIdStr).getLen = (taskIdStr ++ [0]).length := by
    rw [header_len]; simp; omega
  rw [packet,List.append_assoc]
  exact cutFrame_toBytes announced rest

theorem frames_packets {tasks : List (List UInt8)} (short : ∀ t ∈ tasks, t.length ≤ 65534) :
    frames (tasks.map packet).flatten = tasks.map (fun t => ⟨header t,t ++ [0]⟩) ∧
      unparsed (tasks.map packet).flatten = [] := by
  have h := packetCutter.parse_written packet (fun t => ⟨header t,t ++ [0]⟩) tasks
    (fun t ht rest => cut_packet (short t ht) rest) []
  rw [List.append_nil,packetCutter.parse_stuck (rfl : packetCutter.cut [] = none),List.append_nil] at h
  simp only [frames,unparsed,h,and_self]

theorem fresh_reads {heap : Heap} (tasks : List (List UInt8)) (succeeds : heap.Succeeds) {chunks : List (List UInt8)}
    (short : ∀ t ∈ tasks, t.length ≤ 65534) (cut : chunks.flatten = (tasks.map packet).flatten) :
    ∃ d, (Dispatch.fresh heap).bind (Dispatch.onMessages · chunks) = some d ∧
      deliveries d.log = tasks.map (fun t => (t.length + 1,t ++ [0])) ∧ d.residue = [] := by
  obtain ⟨d,received,_,delivered,left⟩ := Dispatch.fresh_onMessages succeeds chunks
  obtain ⟨cut_off,rest⟩ := frames_packets short
  refine ⟨d,received,?_,by rw [left,cut,rest]⟩
  rw [delivered,cut,cut_off,List.map_map]
  refine List.map_congr_left fun t ht => ?_
  have announced : (header t).getLen = t.length + 1 := by
    have := short t ht
    rw [header_len]; omega
  simp only [Function.comp_apply,Frame.delivery,announced]

/-- Encoded, cut in any way and parsed by a fresh connection, the tasks come back one by
one, each followed by its zero byte. -/
theorem round_trip (heap peer : Heap) (succeeds : heap.Succeeds) (peer_succeeds : peer.Succeeds)
    (tasks : List (List UInt8 × Recycled)) (short : ∀ t ∈ tasks, t.1.length ≤ 65534) :
    ∃ buffers, encodeTasks heap tasks = some buffers ∧
      ∀ chunks : List (List UInt8), chunks.flatten = buffers.flatten →
        ∃ d, (Dispatch.fresh peer).bind (Dispatch.onMessages · chunks) = some d ∧
          deliveries d.log = tasks.map (fun t => (t.1.length + 1,t.1 ++ [0])) ∧ d.residue = [] := by
  have encoded := encodeTasks_spec tasks succeeds fun t ht => Nat.lt_of_le_of_lt (short t ht) (by decide)
  refine ⟨_,encoded,fun chunks cut => ?_⟩
  obtain ⟨d,received,delivered,left⟩ := fresh_reads (tasks.map Prod.fst) peer_succeeds
    (by simpa using short) (by rw [cut,List.map_map]; rfl)
  exact ⟨d,received,by rw [delivered,List.map_map]; rfl,left⟩

/-- A payload that looks like a header, and a zero byte, into an empty vector. -/
theorem round_trip_two : ∃ buffers,
    encodeTasks plenty [([0,1,0,0,0,0,0,0],⟨.null,CharVector.null_valid⟩),([0],⟨.null,CharVector.null_valid⟩)] = some buffers ∧
      ∀ chunks : List (List UInt8), chunks.flatten = buffers.flatten →
        ∃ d, (Dispatch.fresh plenty).bind (Dispatch.onMessages · chunks) = some d ∧
          deliveries d.log = [(9,[0,1,0,0,0,0,0,0,0]),(2,[0,0])] ∧ d.residue = [] :=
  round_trip plenty plenty plenty_succeeds plenty_succeeds
    [([0,1,0,0,0,0,0,0],⟨.null,CharVector.null_valid⟩),([0],⟨.null,CharVector.null_valid⟩)] (by simp)

end PongEncode
end UvRpc
