import UvRpc.Decimal
import UvRpc.PongEncode

/-! PingEncode::encodeTask: a placeholder header, the task's number as snprintf prints it,
the header's fields, and a packet of a fixed size whatever was printed. -/
namespace UvRpc

namespace PingEncode

/-- `snprintf(p, 100, "%ju", num)`: at most 99 characters, and a zero byte. -/
def snprintf (num : UInt64) : List UInt8 := (Decimal.print num.toNat).take 99 ++ [0]

def fillFields (v : CharVector) : CharVector :=
  v.setBytes (memcpy v.bytes 0
    {DataHeader.ofBytes v.bytes with type := 0x10, encode := 0xf0, version := 0x10}.toBytes)

def fillLen (v : CharVector) : CharVector :=
  v.setBytes (memcpy v.bytes 0
    ((DataHeader.ofBytes v.bytes).setLen (CharVector.wrap (v.len + 2 ^ 64 - DataHeader.size))).toBytes)

/-- The results of reserve and push_back are not looked at. -/
def encodeTask (size : Nat) (h : Heap) (buffer : CharVector) (num : UInt64) : Option (CharVector × Heap) :=
  (buffer.clear.reserve h 2048).bind fun r =>
    -- packet header, filled with '#'
    (PongEncode.pushAll r.heap r.vec (List.replicate DataHeader.size 35)).bind fun (v,h) =>
      let v := v.setBytes (memcpy v.bytes DataHeader.size (snprintf num))
      ((fillFields v).resize h size).map fun r => (fillLen r.vec,r.heap)

def client : Heap → CharVector → UInt64 → Option (CharVector × Heap) := encodeTask 1024

def distribute : Heap → CharVector → UInt64 → Option (CharVector × Heap) := encodeTask 256

/-- The block of a vector from its first byte on: `front` up to the size, then `tail`. -/
structure Laid (v : CharVector) (front tail : List UInt8) : Prop where
  present : v.base_ptr ≠ none
  bytes : v.bytes = front ++ tail
  len : v.len = front.length
  cap : v.cap = front.length + tail.length

theorem memcpy_after (front tail src : List UInt8) :
    memcpy (front ++ tail) front.length src = front ++ (src ++ tail.drop src.length) := by
  rw [memcpy,List.take_left,List.drop_length_add_append,List.append_assoc]

theorem memcpy_over {old src : List UInt8} (same : src.length = old.length) (tail : List UInt8) :
    memcpy (old ++ tail) 0 src = src ++ tail := by
  rw [memcpy,List.take_zero,Nat.zero_add,same,List.drop_left]
  rfl

/-- While there is room push_back overwrites what lies behind the size. -/
theorem pushAll_laid {h : Heap} {v : CharVector} {front tail : List UInt8} (bytes : List UInt8)
    (laid : Laid v front tail) (room : bytes.length ≤ tail.length) (small : v.len + bytes.length < 2 ^ 64) :
    ∃ v', PongEncode.pushAll h v bytes = some (v',h) ∧
      Laid v' (front ++ bytes) (tail.drop bytes.length) := by
  induction bytes generalizing v front tail with
  | nil => exact ⟨v,rfl,by simpa using laid⟩
  | cons ch rest ih =>
    rw [List.length_cons] at room small
    have cap := laid.cap
    have len := laid.len
    have stored : Laid (v.store ch) (front ++ [ch]) (tail.drop 1) := by
      refine ⟨CharVector.setBytes_present laid.present _,?_,?_,?_⟩
      · change (v.setBytes _).bytes = _
        rw [CharVector.setBytes_bytes laid.present,laid.bytes,len,memcpy_after,List.append_assoc]
        rfl
      · change CharVector.wrap (v.len + 1) = _
        rw [CharVector.wrap,Nat.mod_eq_of_lt (by omega),len,List.length_append]
        rfl
      · change v.cap = _
        rw [cap,List.length_append,List.length_drop,List.length_singleton]
        omega
    obtain ⟨v',pushed,laid'⟩ := ih stored (by rw [List.length_drop]; omega)
      (by rw [stored.len,List.length_append,← len]; simp; omega)
    refine ⟨v',?_,?_⟩
    · rw [PongEncode.pushAll,CharVector.push_back,if_pos (by omega)]
      exact pushed
    · simpa [Nat.add_comm] using laid'

theorem Laid.write_after {v : CharVector} {front tail : List UInt8} (laid : Laid v front tail) (src : List UInt8)
    (room : src.length ≤ tail.length) :
    Laid (v.setBytes (memcpy v.bytes front.length src)) front (src ++ tail.drop src.length) := by
  refine ⟨CharVector.setBytes_present laid.present _,?_,laid.len,?_⟩
  · rw [CharVector.setBytes_bytes laid.present,laid.bytes,memcpy_after]
  · have cap := laid.cap
    change v.cap = _
    simp; omega

theorem write_over {v : CharVector} {old tail src : List UInt8} (present : v.base_ptr ≠ none)
    (bytes : v.bytes = old ++ tail) (same : src.length = old.length) :
    (v.setBytes (memcpy v.bytes 0 src)).bytes = src ++ tail := by
  rw [CharVector.setBytes_bytes present,bytes,memcpy_over same]

def header (size : Nat) : DataHeader :=
  ⟨DataHeader.htons (size - DataHeader.size),0x10,0xf0,0x10,(35,35,35)⟩

theorem snprintf_length (num : UInt64) : (snprintf num).length ≤ 21 := by
  have := Decimal.print_length_le (k := 20) (by decide) (Nat.lt_of_lt_of_le num.toNat_lt (by decide))
  simp [snprintf]
  omega

def fields : DataHeader := ⟨(35,35),0x10,0xf0,0x10,(35,35,35)⟩

theorem fillFields_bytes {v : CharVector} {tail : List UInt8} (present : v.base_ptr ≠ none)
    (bytes : v.bytes = List.replicate DataHeader.size 35 ++ tail) :
    (fillFields v).bytes = fields.toBytes ++ tail := by
  have placeholder : DataHeader.ofBytes v.bytes = ⟨(35,35),35,35,35,(35,35,35)⟩ := by
    rw [bytes]
    rfl
  rw [fillFields,placeholder]
  exact write_over present bytes rfl

theorem fillLen_bytes {v : CharVector} {tail : List UInt8} (present : v.base_ptr ≠ none)
    (bytes : v.bytes = fields.toBytes ++ tail) (room : DataHeader.size ≤ v.len) (small : v.len < 2 ^ 64) :
    (fillLen v).bytes = (header v.len).toBytes ++ tail := by
  have filled : DataHeader.ofBytes v.bytes = fields := by
    rw [bytes]
    rfl
  have announced : CharVector.wrap (v.len + 2 ^ 64 - DataHeader.size) = v.len - DataHeader.size := by
    unfold CharVector.wrap
    omega
  rw [fillLen,filled,announced]
  exact write_over present bytes rfl

/-- Over any vector: behind the header and the printed number the packet is what the
reserved block held before. -/
theorem encodeTask_spec {size : Nat} {h : Heap} (buffer : CharVector) (num : UInt64) (valid : buffer.Valid)
    (succeeds : h.Succeeds) (fits : size ≤ 2048) (some_room : DataHeader.size + 21 ≤ size) :
    ∃ r v, buffer.clear.reserve h 2048 = some r ∧ encodeTask size h buffer num = some (v,r.heap) ∧
      2048 ≤ r.vec.bytes.length ∧ v.len = size ∧
      v.contents = (header size).toBytes ++ (snprintf num ++
        (r.vec.bytes.take size).drop (DataHeader.size + (snprintf num).length)) := by
  obtain ⟨r,reserved,_,heap,grown⟩ :=
    CharVector.reserve_spec (n := 2048) valid.clear succeeds (by decide)
  have room := grown.room
  have block := grown.valid.block
  have text := snprintf_length num
  have eight : DataHeader.size = 8 := rfl
  have laid : Laid r.vec [] r.vec.bytes := ⟨grown.present,rfl,grown.len,by rw [block]; simp⟩
  obtain ⟨v,pushed,placed⟩ := pushAll_laid (h := r.heap) (List.replicate DataHeader.size 35) laid
    (by rw [List.length_replicate]; omega) (by rw [laid.len]; decide)
  rw [List.nil_append,List.length_replicate] at placed
  have printed := placed.write_after (snprintf num) (by rw [List.length_drop]; omega)
  rw [List.length_replicate,List.drop_drop] at printed
  obtain ⟨w,w_eq⟩ : ∃ w, w = v.setBytes (memcpy v.bytes DataHeader.size (snprintf num)) := ⟨_,rfl⟩
  rw [← w_eq] at printed
  have present : (fillFields w).base_ptr ≠ none := CharVector.setBytes_present printed.present _
  have resized : (fillFields w).resize r.heap size = some ⟨true,{fillFields w with len := size},r.heap⟩ := by
    have no_growth : ¬ size > (fillFields w).cap := by
      have cap := printed.cap
      change ¬ size > w.cap
      simp at cap
      omega
    rw [CharVector.resize,if_neg no_growth]
  have bytes := fillLen_bytes (v := {fillFields w with len := size}) present
    (fillFields_bytes printed.present printed.bytes) (show 8 ≤ size by omega) (show size < 2 ^ 64 by omega)
  refine ⟨r,fillLen {fillFields w with len := size},reserved,?_,by omega,rfl,?_⟩
  · simp only [encodeTask,reserved,pushed,Option.bind_some,← w_eq,resized,Option.map_some]
  · change (fillLen _).bytes.take size = _
    rw [bytes,List.drop_take,List.take_append,List.take_of_length_le (by rw [DataHeader.toBytes_length]; omega),
      DataHeader.toBytes_length,List.take_append,List.take_of_length_le (by omega),Nat.sub_sub]

end PingEncode
end UvRpc
