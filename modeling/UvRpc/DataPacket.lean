import UvRpc.Incremental

/-! The packet format: an 8 byte header whose first field is the payload length in
network order, then the payload. `frames` is the one-pass reading of a byte stream. -/
namespace UvRpc

/-- `header_packet`. The two bytes of `len` are kept as they lie in memory. -/
structure DataHeader where
  len : UInt8 × UInt8
  type : UInt8
  encode : UInt8
  version : UInt8
  reserve : UInt8 × UInt8 × UInt8
  deriving DecidableEq, Repr

namespace DataHeader

def size : Nat := 8

/-- The argument is converted to uint16_t, so only its low 16 bits remain. -/
def htons (n : Nat) : UInt8 × UInt8 := (UInt8.ofNat (n / 256),UInt8.ofNat n)
def ntohs (len : UInt8 × UInt8) : Nat := 256 * len.1.toNat + len.2.toNat

def setLen (h : DataHeader) (sz : Nat) : DataHeader := {h with len := htons sz}
def getLen (h : DataHeader) : Nat := ntohs h.len

def ofBytes (s : List UInt8) : DataHeader :=
  ⟨(s.getD 0 0,s.getD 1 0),s.getD 2 0,s.getD 3 0,s.getD 4 0,(s.getD 5 0,s.getD 6 0,s.getD 7 0)⟩

def toBytes (h : DataHeader) : List UInt8 :=
  [h.len.1,h.len.2,h.type,h.encode,h.version,h.reserve.1,h.reserve.2.1,h.reserve.2.2]

@[simp] theorem toBytes_length (h : DataHeader) : h.toBytes.length = size := rfl

theorem ntohs_htons (n : Nat) : ntohs (htons n) = n % 65536 := by
  simp only [ntohs,htons,UInt8.toNat_ofNat']
  omega

theorem getLen_bound (h : DataHeader) : h.getLen ≤ 65535 := by
  have high := h.len.1.toNat_lt
  have low := h.len.2.toNat_lt
  simp only [getLen,ntohs]
  omega

theorem ofBytes_append {s : List UInt8} (whole : size ≤ s.length) (more : List UInt8) :
    ofBytes (s ++ more) = ofBytes s := by
  have byte (i : Nat) (inside : i < size) : (s ++ more).getD i 0 = s.getD i 0 :=
    List.getD_append s more 0 i (by omega)
  simp only [ofBytes,byte _ (show 0 < size by decide),byte _ (show 1 < size by decide),
    byte _ (show 2 < size by decide),byte _ (show 3 < size by decide),
    byte _ (show 4 < size by decide),byte _ (show 5 < size by decide),
    byte _ (show 6 < size by decide),byte _ (show 7 < size by decide)]

@[simp] theorem ofBytes_toBytes (h : DataHeader) (more : List UInt8) :
    ofBytes (h.toBytes ++ more) = h := rfl

theorem toBytes_ofBytes {s : List UInt8} (whole : size ≤ s.length) :
    (ofBytes s).toBytes = s.take size := by
  unfold size at whole ⊢
  match s, whole with
  | _ :: _ :: _ :: _ :: _ :: _ :: _ :: _ :: _, _ => rfl

theorem ofBytes_take {s : List UInt8} {n : Nat} (whole : size ≤ n) (inside : n ≤ s.length) :
    ofBytes (s.take n) = ofBytes s := by
  have h := ofBytes_append (s := s.take n) (by simp; omega) (s.drop n)
  rw [List.take_append_drop] at h
  exact h.symm

end DataHeader

structure Frame where
  header : DataHeader
  payload : List UInt8
  deriving DecidableEq, Repr

def lenOf (s : List UInt8) : Nat := (DataHeader.ofBytes s).getLen

theorem lenOf_bound (s : List UInt8) : lenOf s ≤ 65535 := DataHeader.getLen_bound _

/-- At least a header, and at least the payload it announces. -/
def Complete (s : List UInt8) : Prop :=
  DataHeader.size ≤ s.length ∧ DataHeader.size + lenOf s ≤ s.length

instance (s : List UInt8) : Decidable (Complete s) := inferInstanceAs (Decidable (_ ∧ _))

def cutFrame (s : List UInt8) : Option (Frame × List UInt8) :=
  if Complete s then
    some (⟨DataHeader.ofBytes s,(s.drop DataHeader.size).take (lenOf s)⟩,
      s.drop (DataHeader.size + lenOf s))
  else none

theorem cutFrame_none_iff {s : List UInt8} : cutFrame s = none ↔ ¬ Complete s := by
  unfold cutFrame
  split <;> simp [*]

theorem cutFrame_some_iff {s rest : List UInt8} {f : Frame} :
    cutFrame s = some (f,rest) ↔ Complete s ∧ rest = s.drop (DataHeader.size + lenOf s) ∧
      f = ⟨DataHeader.ofBytes s,(s.drop DataHeader.size).take (lenOf s)⟩ := by
  unfold cutFrame
  split
  · rename_i complete
    simp only [Option.some.injEq,Prod.mk.injEq,complete,true_and]
    exact ⟨fun h => ⟨h.2.symm,h.1.symm⟩,fun h => ⟨h.2.symm,h.1.symm⟩⟩
  · simp [*]

/-- A header that announces the payload behind it is cut off with that payload. -/
theorem cutFrame_toBytes {h : DataHeader} {payload : List UInt8} (announced : h.getLen = payload.length)
    (rest : List UInt8) : cutFrame (h.toBytes ++ (payload ++ rest)) = some (⟨h,payload⟩,rest) := by
  have header := DataHeader.ofBytes_toBytes h (payload ++ rest)
  have len : lenOf (h.toBytes ++ (payload ++ rest)) = payload.length := by
    rw [lenOf,header,announced]
  have body : (h.toBytes ++ (payload ++ rest)).drop DataHeader.size = payload ++ rest := rfl
  refine cutFrame_some_iff.mpr ⟨⟨?_,?_⟩,?_,?_⟩
  · simp
  · rw [len]; simp
  · rw [len,← List.drop_drop,body,List.drop_left]
  · rw [len,body,List.take_left,header]

theorem Complete.append {s : List UInt8} (complete : Complete s) (more : List UInt8) :
    Complete (s ++ more) ∧ lenOf (s ++ more) = lenOf s := by
  have same : lenOf (s ++ more) = lenOf s :=
    congrArg DataHeader.getLen (DataHeader.ofBytes_append complete.1 more)
  refine ⟨⟨?_,?_⟩,same⟩
  · have := complete.1; simp; omega
  · have := complete.2; rw [same]; simp; omega

def packetCutter : Incremental.Cutter UInt8 Frame where
  cut := cutFrame
  shrinks := by
    intro s f rest h
    obtain ⟨complete,rfl,_⟩ := cutFrame_some_iff.mp h
    have := complete.1
    simp only [DataHeader.size,List.length_drop] at *
    omega
  stable := by
    intro s f rest more h
    obtain ⟨complete,rfl,rfl⟩ := cutFrame_some_iff.mp h
    obtain ⟨whole,same⟩ := complete.append more
    refine cutFrame_some_iff.mpr ⟨whole,?_,?_⟩
    · rw [same,List.drop_append_of_le_length complete.2]
    · rw [same,DataHeader.ofBytes_append complete.1,List.drop_append_of_le_length complete.1,
        List.take_append_of_le_length]
      have := complete.2
      simp; omega

/-- The reference parse of a byte stream: its complete packets, in order. -/
def frames (s : List UInt8) : List Frame := (packetCutter.parse s).1

def unparsed (s : List UInt8) : List UInt8 := (packetCutter.parse s).2

/-- What a packet delivers: the announced length and the payload bytes. -/
def Frame.delivery (f : Frame) : Nat × List UInt8 := (f.header.getLen,f.payload)

theorem frames_of_incomplete {s : List UInt8} (h : ¬ Complete s) : frames s = [] ∧ unparsed s = s := by
  have stuck := packetCutter.parse_stuck (cutFrame_none_iff.mpr h)
  simp [frames,unparsed,stuck]

theorem frames_of_complete {s : List UInt8} (h : Complete s) :
    frames s = ⟨DataHeader.ofBytes s,(s.drop DataHeader.size).take (lenOf s)⟩ ::
        frames (s.drop (DataHeader.size + lenOf s)) ∧
      unparsed s = unparsed (s.drop (DataHeader.size + lenOf s)) := by
  have cut := packetCutter.parse_cut (cutFrame_some_iff.mpr ⟨h,rfl,rfl⟩)
  simp [frames,unparsed,cut]

theorem frames_toBytes {h : DataHeader} {payload : List UInt8} (announced : h.getLen = payload.length) :
    frames (h.toBytes ++ payload) = [⟨h,payload⟩] := by
  have cut := cutFrame_toBytes announced []
  have nothing := packetCutter.parse_stuck (rfl : packetCutter.cut [] = none)
  rw [List.append_nil] at cut
  rw [frames,packetCutter.parse_cut cut,nothing]

theorem unparsed_incomplete (s : List UInt8) : ¬ Complete (unparsed s) :=
  cutFrame_none_iff.mp (packetCutter.parse_rest s)

theorem payload_length {s : List UInt8} {f : Frame} (member : f ∈ frames s) :
    f.payload.length = f.header.getLen := by
  refine packetCutter.parse_forall (P := fun f => f.payload.length = f.header.getLen) ?_ s f member
  intro xs b rest cut
  obtain ⟨complete,_,rfl⟩ := cutFrame_some_iff.mp cut
  have inside := complete.2
  rw [List.length_take,List.length_drop,min_eq_left (by omega)]
  rfl

theorem cutFrame_glue (s : List UInt8) (f : Frame) (rest : List UInt8) (h : cutFrame s = some (f,rest)) :
    s = f.header.toBytes ++ f.payload ++ rest := by
  obtain ⟨complete,rfl,rfl⟩ := cutFrame_some_iff.mp h
  rw [DataHeader.toBytes_ofBytes complete.1,List.append_assoc,← List.drop_drop,
    List.take_append_drop,List.take_append_drop]

/-- The packets and the rest, glued together, are the stream. -/
theorem frames_glue (s : List UInt8) :
    ((frames s).map fun f => f.header.toBytes ++ f.payload).flatten ++ unparsed s = s :=
  packetCutter.parse_glue (fun f => f.header.toBytes ++ f.payload) cutFrame_glue s

theorem glued_length {s : List UInt8} {front : List Frame} (leads : front <+: frames s) :
    ((front.map fun f => f.header.toBytes ++ f.payload).flatten).length =
      (front.map fun f => DataHeader.size + f.header.getLen).sum := by
  rw [List.length_flatten,List.map_map]
  congr 1
  refine List.map_congr_left fun f member => ?_
  simp [payload_length (leads.subset member)]

/-- The packets of a stream go on behind those already read. -/
theorem frames_front {s : List UInt8} {front : List Frame} (leads : front <+: frames s) :
    (front.map fun f => DataHeader.size + f.header.getLen).sum ≤ s.length ∧
      frames s = front ++ frames (s.drop (front.map fun f => DataHeader.size + f.header.getLen).sum) := by
  obtain ⟨rest,whole,parsed⟩ :=
    packetCutter.parse_front (fun f => f.header.toBytes ++ f.payload) cutFrame_glue leads
  have dropped : s.drop (front.map fun f => DataHeader.size + f.header.getLen).sum = rest := by
    rw [whole,← glued_length leads,List.drop_left]
  refine ⟨?_,by rw [dropped]; exact parsed⟩
  rw [whole,← glued_length leads,List.length_append]
  omega

/-- Behind all its packets a stream has the unparsed rest. -/
theorem unparsed_drop (s : List UInt8) :
    s.drop ((frames s).map fun f => DataHeader.size + f.header.getLen).sum = unparsed s := by
  rw [← glued_length (List.prefix_refl (frames s))]
  exact (congrArg (List.drop _) (frames_glue s)).symm.trans List.drop_left

def wholePackets (s : List UInt8) : List UInt8 := s.take (s.length - (unparsed s).length)

theorem wholePackets_glue (s : List UInt8) :
    ((frames s).map fun f => f.header.toBytes ++ f.payload).flatten = wholePackets s := by
  have glued := frames_glue s
  have length := congrArg List.length glued
  rw [List.length_append] at length
  rw [wholePackets,← length,Nat.add_sub_cancel]
  conv => rhs; rw [← glued]
  rw [List.take_left' (by rw [glued])]

/-- Streams share packets as far as they share their bytes. -/
theorem frames_prefix_iff (s t : List UInt8) : frames s <+: frames t ↔ wholePackets s <+: t := by
  rw [← wholePackets_glue]
  constructor
  · intro leads
    obtain ⟨rest,whole,_⟩ :=
      packetCutter.parse_front (fun f => f.header.toBytes ++ f.payload) cutFrame_glue leads
    exact ⟨rest,whole.symm⟩
  · rintro ⟨rest,rfl⟩
    have read := packetCutter.parse_written (fun f => f.header.toBytes ++ f.payload) id (frames s)
      (fun f member more => by
        rw [List.append_assoc]
        exact cutFrame_toBytes (payload_length member).symm more) rest
    rw [List.map_id] at read
    change frames s <+: (packetCutter.parse _).1
    rw [read]
    exact List.prefix_append _ _

theorem frames_more (s more : List UInt8) : frames s <+: frames (s ++ more) := by
  rw [frames,frames,packetCutter.parse_append s more]
  exact List.prefix_append _ _

/-- A residue is shorter than a packet, and a packet has at most 65543 bytes. -/
theorem incomplete_length {s : List UInt8} (h : ¬ Complete s) : s.length ≤ 65542 := by
  have := lenOf_bound s
  unfold Complete DataHeader.size at h
  omega

example : frames [0,1,0,0,0,0,0,0,7, 0,0,0,0,0,0,0,0, 0,9] =
    [⟨⟨(0,1),0,0,0,(0,0,0)⟩,[7]⟩,⟨⟨(0,0),0,0,0,(0,0,0)⟩,[]⟩] := by decide

end UvRpc
