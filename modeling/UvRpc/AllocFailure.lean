import UvRpc.ParseCalls
import UvRpc.ReceiveBounds
import UvRpc.Transition

/-! Failed allocations on the receive path. copyToVec does not look at what append answers:
the bytes of a refused append are gone, and the parse goes on as if vecbuf held them. As
long as no append is refused, the packets handed over are those of the stream. -/
namespace UvRpc
open Transition

/-- What a call hands over: the header, the length and the payload. A header argument into
vecbuf stands for what vecbuf starts with, also where its block has moved. -/
def ParseCall.packet (call : ParseCall) : DataHeader × Nat × List UInt8 :=
  let header := match call.header with
    | .residue _ => DataHeader.ofBytes call.vecbuf.bytes
    | .received bytes => DataHeader.ofBytes bytes
    | .tmpHeader header => header
  (header,call.len,call.payload)

def Frame.packet (f : Frame) : DataHeader × Nat × List UInt8 := (f.header,f.header.getLen,f.payload)

/-- A connection and all the bytes that have arrived on it. -/
structure Inbound where
  dispatch : Dispatch
  stream : List UInt8

namespace Inbound

def connected (heap : Heap) : Option Inbound := (Dispatch.fresh heap).map fun d => ⟨d,[]⟩

def receive (s : Inbound) (buf : List UInt8) : Option Inbound :=
  (s.dispatch.onMessage buf).map fun d => ⟨d,s.stream ++ buf⟩

def packets (s : Inbound) : List (DataHeader × Nat × List UInt8) :=
  (calls s.dispatch.log).map ParseCall.packet

/-- The packets handed over are the first packets of the stream. -/
def InOrder (s : Inbound) : Prop := s.packets <+: (frames s.stream).map Frame.packet

/-- The stream behind as many bytes as the packets handed over announce. -/
def pending (s : Inbound) : List UInt8 :=
  s.stream.drop (s.packets.map fun p => DataHeader.size + p.2.1).sum

end Inbound

namespace Dispatch

instance (d : Dispatch) (buf : List UInt8) : Decidable (d.Fills buf) := inferInstanceAs (Decidable (_ ∧ _))

/-- An append that onMessage makes for the chunk is refused: the one that fills up a packet
in vecbuf, or the one that keeps what is left behind the last packet. -/
def Refuses (d : Dispatch) (buf : List UInt8) : Prop :=
  let left := unparsed (d.residue ++ buf)
  if d.Fills buf then
    match d.vecbuf.append d.heap (buf.take (DataHeader.size + lenOf d.residue - d.vecbuf.len)) with
    | none => True
    | some r => r.ok = false ∨ left ≠ [] ∧ r.vec.Refused r.heap left.length
  else left ≠ [] ∧ d.vecbuf.Refused d.heap left.length

def FillRefused (d : Dispatch) (buf : List UInt8) : Prop :=
  d.Fills buf ∧ d.vecbuf.Refused d.heap (DataHeader.size + lenOf d.residue)

theorem direct_packet {call : ParseCall} {f : Frame} (direct : Direct call f) : call.packet = f.packet := by
  rw [ParseCall.packet,Frame.packet,direct.len,direct.payload]
  rcases direct.header with received | stacked
  · rw [received]
    rfl
  · rw [stacked]

theorem direct_packets {made : List ParseCall} {packets : List Frame}
    (direct : List.Forall₂ Direct made packets) : made.map ParseCall.packet = packets.map Frame.packet := by
  induction direct with
  | nil => rfl
  | cons call _ ih => rw [List.map_cons,List.map_cons,ih,direct_packet call]

/-- Unless the copy of case 2) is refused, the packets are those of residue and chunk. -/
theorem Made.packets {d : Dispatch} (sound : Sound d) {buf : List UInt8} {made : List ParseCall}
    (calls : Made d buf made)
    (granted : ¬ d.FillRefused buf) : made.map ParseCall.packet = (frames (d.residue ++ buf)).map Frame.packet := by
  cases calls with
  | direct elsewhere direct => exact direct_packets direct
  | @fill made need vecbuf whole fits filled copied direct =>
    obtain ⟨same_header,complete,front,_⟩ := sound.fill_stream whole fits filled
    have len : lenOf (d.residue ++ buf) = lenOf d.residue := congrArg DataHeader.getLen same_header
    have appended : vecbuf.contents = (d.residue ++ buf).take (DataHeader.size + lenOf (d.residue ++ buf)) := by
      rcases copied.outcome with ⟨_,appended⟩ | ⟨refused,_⟩
      · rw [appended,front]
      · rw [List.length_take_of_le fits,filled] at refused
        exact absurd ⟨⟨whole,complete⟩,refused⟩ granted
    obtain ⟨_,header,payload⟩ := filled_packet copied.valid complete appended
    rw [(frames_of_complete complete).1,List.map_cons,List.map_cons,direct_packets direct,← len]
    simp only [ParseCall.packet,Frame.packet,header,payload]
    rfl

def Roomy (cap : Nat) : Prop := cap = 0 ∨ 64 ≤ cap

theorem reserve_roomy {h : Heap} {v : CharVector} {n : Nat} {r : CharVector.Result}
    (small : n ≤ CharVector.growable) (roomy : Roomy v.cap) (reserved : v.reserve h n = some r) :
    Roomy r.vec.cap := by
  have kept := CharVector.reserve_preserves (P := (64 ≤ ·)) (fun sz lt le => ?_) (Nat.le_refl 64)
    (fun lt => Nat.le_of_lt lt) reserved
  · rcases kept with same | le
    · rw [same]
      exact roomy
    · exact .inr le
  · have := (CharVector.growStep_between (by omega) lt small).1
    omega

theorem copyToVec_roomy : CopyKeeps Roomy := by
  intro d d' buf len roomy small copied
  obtain ⟨r,appended,rfl⟩ := Option.map_eq_some_iff.mp copied
  obtain ⟨s,reserved,rfl⟩ := Option.map_eq_some_iff.mp appended
  have taken : (buf.take len).length ≤ len := List.length_take_le len buf
  have bounded : CharVector.wrap (d.vecbuf.len + (buf.take len).length) ≤ CharVector.growable := by
    rw [CharVector.wrap,Nat.mod_eq_of_lt (by omega)]
    unfold CharVector.growable
    omega
  have kept := reserve_roomy bounded roomy reserved
  split <;> exact kept

theorem fresh_roomy {heap : Heap} {d : Dispatch} (made : fresh heap = some d) : Roomy d.vecbuf.cap := by
  obtain ⟨r,constructed,rfl⟩ := Option.map_eq_some_iff.mp made
  exact reserve_roomy (by decide) (.inl rfl) constructed

/-- What is left is kept, or the append is refused and some of it lost. -/
def LeftBehind (refused : Prop) (left : List UInt8) (d' : Dispatch) : Prop :=
  ¬ refused ∧ d'.residue = left ∨ refused ∧ ∃ lost, lost ≠ [] ∧ d'.residue ++ lost = left

theorem doMessageInNewBuf_left {d : Dispatch} (buf : List UInt8) (valid : d.vecbuf.Valid) (empty : d.vecbuf.len = 0) :
    ∃ d', d.doMessageInNewBuf buf buf.length = some d' ∧
      LeftBehind (unparsed buf ≠ [] ∧ d.vecbuf.Refused d.heap (unparsed buf).length) (unparsed buf) d' := by
  have none_held : d.residue = [] := by simp [residue,CharVector.contents,empty]
  rcases doMessageInNewBuf_cases d buf with ⟨events,_,⟨nothing,done⟩ | ⟨rest,left,le,taken,done⟩⟩
  · exact ⟨_,done,.inl ⟨fun refused => refused.1 nothing,by rw [nothing]; exact none_held⟩⟩
  · have small := unparsed_length le taken
    obtain ⟨d',copied,outcome,_⟩ := copyToVec_cases (d := d.note events) valid le
      (by rw [note_vecbuf,empty,CharVector.growable]; omega)
    refine ⟨d',done.trans copied,?_⟩
    have size : (d.note events).vecbuf.len + (unparsed buf).length = (unparsed buf).length := by
      rw [note_vecbuf,empty,Nat.zero_add]
    rw [taken] at outcome
    have outcome := outcome.outcome
    rw [size] at outcome
    rcases outcome with ⟨granted,appended⟩ | ⟨refused,same⟩
    · refine .inl ⟨fun refused => granted refused.2,?_⟩
      rw [residue,appended,note_residue,none_held,List.nil_append]
    · have kept : d'.residue = [] := by rw [residue,same]; exact none_held
      by_cases nothing : unparsed buf = []
      · exact .inl ⟨fun refused => refused.1 nothing,by rw [kept,nothing]⟩
      · exact .inr ⟨⟨nothing,refused⟩,_,nothing,by rw [kept,List.nil_append]⟩

/-- The append that fills up a packet is granted, and then the rest of the chunk is kept or lost. -/
theorem fill_left {d : Dispatch} (sound : Sound d) {buf : List UInt8} {events : List Event} {need : Nat}
    (whole : DataHeader.size ≤ d.vecbuf.len) (fits : need ≤ buf.length)
    (filled : d.vecbuf.len + need = DataHeader.size + lenOf d.residue) (granted : ¬ d.FillRefused buf) :
    ∃ d', (((d.note events).copyToVec buf need).bind fun d' =>
        (d'.parseResidue (d.vecbuf.base_ptr.map Block.addr) (lenOf d.residue) buf.length need).doMessageInNewBuf
          (buf.drop need) (buf.drop need).length) = some d' ∧
      LeftBehind (d.Refuses buf) (unparsed (d.residue ++ buf)) d' := by
  obtain ⟨_,complete,_,rest⟩ := sound.fill_stream whole fits filled
  have bound := lenOf_bound d.residue
  have taken : (buf.take need).length = need := List.length_take_of_le fits
  have eight : DataHeader.size = 8 := rfl
  have small : d.vecbuf.len + (buf.take need).length ≤ CharVector.growable := by unfold CharVector.growable; omega
  obtain ⟨r,appended,outcome,_⟩ := CharVector.append_outcome (h := d.heap) sound.valid (buf.take need) small
  have count : DataHeader.size + lenOf d.residue - d.vecbuf.len = need := by omega
  have ok : r.ok = true := by
    rw [← Bool.not_eq_false,(CharVector.append_allocates small appended).1,taken,filled]
    exact fun refused => granted ⟨⟨whole,complete⟩,refused⟩
  obtain ⟨d',done,left⟩ := doMessageInNewBuf_left
    (d := Dispatch.parseResidue ⟨r.vec,r.heap,(d.note events).log ++ [.read need buf.length]⟩
      (d.vecbuf.base_ptr.map Block.addr) (lenOf d.residue) buf.length need)
    (buf.drop need) outcome.valid.clear rfl
  refine ⟨d',?_,?_⟩
  · rw [copyToVec,note_vecbuf,note_heap,appended]
    exact done
  · have refuses : d.Refuses buf ↔ unparsed (d.residue ++ buf) ≠ [] ∧
        r.vec.Refused r.heap (unparsed (d.residue ++ buf)).length := by
      simp [Refuses,show d.Fills buf from ⟨whole,complete⟩,count,appended,ok]
    rw [LeftBehind,refuses]
    rw [rest,← (frames_of_complete complete).2] at left
    exact left

/-- What a call leaves in vecbuf, unless the packet that it fills up there is cut short. -/
theorem onMessage_left {d : Dispatch} (sound : Sound d) (roomy : Roomy d.vecbuf.cap) {buf : List UInt8}
    (granted : ¬ d.FillRefused buf) :
    ∃ d', onMessage d buf = some d' ∧ LeftBehind (d.Refuses buf) (unparsed (d.residue ++ buf)) d' := by
  have path := onMessage_path sound buf (onMessageDepth 1)
  change Path d buf (onMessage d buf) at path
  generalize onMessage d buf = result at path
  have refuses (elsewhere : ¬ d.Fills buf) : d.Refuses buf ↔ unparsed (d.residue ++ buf) ≠ [] ∧
      d.vecbuf.Refused d.heap (unparsed (d.residue ++ buf)).length := by simp only [Refuses,if_neg elsewhere]
  cases path with
  | new empty =>
    have none_held : d.residue = [] := by simp [residue,CharVector.contents,empty]
    have elsewhere : ¬ d.Fills buf := fun fills => absurd fills.1 (by rw [empty]; decide)
    simp only [refuses elsewhere,none_held,List.nil_append]
    exact doMessageInNewBuf_left buf sound.valid empty
  | @keep events quiet incomplete =>
    simp only [refuses fun fills => incomplete fills.2,(frames_of_incomplete incomplete).2]
    have small := incomplete_length incomplete
    have size := sound.residue_length
    rw [List.length_append,size] at small
    obtain ⟨d',copied,outcome,_⟩ := copyToVec_cases (d := d.note events) sound.valid
      (Nat.le_refl buf.length) (by rw [note_vecbuf]; unfold CharVector.growable; omega)
    rw [List.take_length] at outcome
    refine ⟨d',copied,?_⟩
    rw [List.length_append,size]
    rcases outcome.outcome with ⟨granted,appended⟩ | ⟨refused,same⟩
    · exact .inl ⟨fun refused => granted refused.2,appended⟩
    · have kept : d'.residue = d.residue := by rw [residue,same]; rfl
      by_cases nothing : buf = []
      · -- without new bytes there is room
        refine .inl ⟨fun refused => ?_,by rw [kept,nothing,List.append_nil]⟩
        have some_held : 0 < d.vecbuf.len := by
          rw [← size]
          exact List.length_pos_of_ne_nil (by simpa [nothing] using refused.1)
        obtain ⟨old,base⟩ := sound.valid.present some_held
        have no_room := refused.2
        rw [CharVector.Refused,base,nothing] at no_room
        have larger : d.vecbuf.cap < max 64 d.vecbuf.len := no_room.1
        have inside := sound.valid.size_le
        unfold Roomy at roomy
        omega
      · exact .inr ⟨⟨by simp [nothing],refused⟩,buf,nothing,by rw [kept]⟩
  | fill quiet whole fits filled => exact fill_left sound whole fits filled granted
  | @tmp events need quiet short fits filled complete =>
    have body := sound.tmp_stream buf filled
    have rest : (buf.drop need).drop (lenOf (d.residue ++ buf)) =
        (d.residue ++ buf).drop (DataHeader.size + lenOf (d.residue ++ buf)) := by rw [body,List.drop_drop]
    simp only [refuses fun fills => absurd fills.1 (Nat.not_le.mpr short),(frames_of_complete complete).2,rest]
    exact doMessageInNewBuf_left _ sound.valid.clear rfl

theorem Refuses.of_fill {d : Dispatch} (sound : Sound d) {buf : List UInt8} (refused : d.FillRefused buf) :
    d.Refuses buf := by
  obtain ⟨fills,refused⟩ := refused
  have size : d.residue.length = d.vecbuf.len := sound.residue_length
  have eight : DataHeader.size = 8 := rfl
  have bound := lenOf_bound d.residue
  have partial_packet := (sound.header fills.1).2
  have header := DataHeader.ofBytes_append (s := d.residue) (by rw [size]; exact fills.1) buf
  have len : lenOf (d.residue ++ buf) = lenOf d.residue := congrArg DataHeader.getLen header
  have enough := fills.2.2
  rw [List.length_append,size,len] at enough
  have taken : (buf.take (DataHeader.size + lenOf d.residue - d.vecbuf.len)).length =
      DataHeader.size + lenOf d.residue - d.vecbuf.len := List.length_take_of_le (by omega)
  have small : d.vecbuf.len + (buf.take (DataHeader.size + lenOf d.residue - d.vecbuf.len)).length ≤
      CharVector.growable := by
    unfold CharVector.growable
    omega
  obtain ⟨r,appended,_,_⟩ := CharVector.append_outcome (h := d.heap) sound.valid _ small
  have failed : r.ok = false := by
    rw [(CharVector.append_allocates small appended).1,taken]
    rwa [show d.vecbuf.len + (DataHeader.size + lenOf d.residue - d.vecbuf.len) = DataHeader.size + lenOf d.residue by omega]
  simp only [Refuses,if_pos fills,appended]
  exact .inl failed

theorem not_refused {h : Heap} (succeeds : h.Succeeds) (v : CharVector) (n : Nat) : ¬ v.Refused h n := by
  have answered := succeeds h.asked
  intro refused
  unfold CharVector.Refused at refused
  split at refused
  · rw [refused] at answered
    cases answered
  · rw [refused.2.1] at answered
    cases answered

theorem Ready.grants {d : Dispatch} (ready : Ready d) (buf : List UInt8) : ¬ d.Refuses buf := by
  by_cases fills : d.Fills buf
  · have bound := lenOf_bound d.residue
    have partial_packet := (ready.sound.header fills.1).2
    have taken := List.length_take_le (DataHeader.size + lenOf d.residue - d.vecbuf.len) buf
    obtain ⟨r,appended,held⟩ := CharVector.append_spec ready.valid ready.heap
      (buf.take (DataHeader.size + lenOf d.residue - d.vecbuf.len))
      (by unfold CharVector.growable DataHeader.size at *; omega)
    simp [Refuses,fills,appended,held.ok,not_refused held.heap]
  · simp [Refuses,fills,not_refused ready.heap]

theorem Made.too_short {d : Dispatch} (sound : Sound d) (roomy : Roomy d.vecbuf.cap) {buf : List UInt8}
    {made : List ParseCall} (calls : Made d buf made)
    (refused : d.FillRefused buf) : ∃ call ∈ made, call.payload.length < call.len := by
  obtain ⟨fills,refused⟩ := refused
  cases calls with
  | direct elsewhere _ => exact absurd fills elsewhere
  | @fill made need vecbuf whole fits filled copied direct =>
    refine ⟨_,List.mem_cons_self,?_⟩
    have eight : DataHeader.size = 8 := rfl
    have size := sound.valid.size_le
    obtain ⟨old,base⟩ := sound.valid.present (by omega)
    have same : vecbuf = d.vecbuf := by
      rcases copied.outcome with ⟨granted,_⟩ | ⟨_,same⟩
      · rw [List.length_take_of_le fits,filled] at granted
        exact absurd refused granted
      · exact same
    -- a block has at least 64 bytes, so a refused request was for more than this one has
    have small : d.vecbuf.cap < max 64 (DataHeader.size + lenOf d.residue) := by
      rw [CharVector.Refused,base] at refused
      exact refused.1
    have block := sound.valid.block
    unfold Roomy at roomy
    rw [same]
    simp only [List.length_take,List.length_drop,block]
    omega

end Dispatch

namespace Inbound
open Dispatch

theorem InOrder.continues {s : Inbound} (order : s.InOrder) (buf : List UInt8) :
    (frames (s.stream ++ buf)).map Frame.packet =
      s.packets ++ (frames (s.pending ++ buf)).map Frame.packet := by
  obtain ⟨front,leads,handed⟩ := List.prefix_map_iff.mp order
  have announced : (s.packets.map fun p => DataHeader.size + p.2.1).sum =
      (front.map fun f => DataHeader.size + f.header.getLen).sum := by
    rw [handed,List.map_map]
    rfl
  obtain ⟨inside,_⟩ := frames_front leads
  obtain ⟨_,whole⟩ := frames_front (leads.trans (frames_more s.stream buf))
  rw [whole,List.map_append,pending,announced,handed,List.drop_append_of_le_length inside]

/-- Between chunks of a run without a refused append: vecbuf holds all that has not been
handed over. -/
structure Whole (s : Inbound) : Prop where
  sound : Sound s.dispatch
  roomy : Roomy s.dispatch.vecbuf.cap
  order : s.InOrder
  held : s.dispatch.residue = s.pending

/-- Unless a packet is cut short, the order is kept, and vecbuf has what is left or lacks some of it. -/
theorem Whole.receive_left {s : Inbound} (whole : s.Whole) {buf : List UInt8} (granted : ¬ s.dispatch.FillRefused buf) :
    ∃ t, s.receive buf = some t ∧ Sound t.dispatch ∧ Roomy t.dispatch.vecbuf.cap ∧ t.InOrder ∧
      LeftBehind (s.dispatch.Refuses buf) t.pending t.dispatch := by
  obtain ⟨d,made,received,sound,called,by_case⟩ := onMessage_calls whole.sound buf
  obtain ⟨d',received',left⟩ := onMessage_left whole.sound whole.roomy granted
  cases received.symm.trans received'
  have handed : packets ⟨d,s.stream ++ buf⟩ = s.packets ++ (frames (s.pending ++ buf)).map Frame.packet := by
    rw [packets,called,List.map_append,by_case.packets whole.sound granted,whole.held]
    rfl
  have inside : (s.packets.map fun p => DataHeader.size + p.2.1).sum ≤ s.stream.length := by
    obtain ⟨front,leads,first⟩ := List.prefix_map_iff.mp whole.order
    rw [first,List.map_map]
    exact (frames_front leads).1
  have pending_eq : pending ⟨d,s.stream ++ buf⟩ = unparsed (s.dispatch.residue ++ buf) := by
    rw [← unparsed_drop,whole.held,pending,pending,handed,pending,List.map_append,List.sum_append,
      ← List.drop_drop,List.drop_append_of_le_length inside,List.map_map]
    rfl
  refine ⟨⟨d,s.stream ++ buf⟩,by rw [receive,received]; rfl,sound,
    onMessage_capacity copyToVec_roomy whole.sound whole.roomy received,?_,by rw [pending_eq]; exact left⟩
  rw [InOrder,handed,whole.order.continues]

theorem Whole.receive {s : Inbound} (whole : s.Whole) {buf : List UInt8} (granted : ¬ s.dispatch.Refuses buf) :
    ∃ t, s.receive buf = some t ∧ t.Whole := by
  obtain ⟨t,received,sound,roomy,order,left⟩ := whole.receive_left fun refused => granted (.of_fill whole.sound refused)
  exact ⟨t,received,sound,roomy,order,(left.resolve_right fun lost => granted lost.1).2⟩

theorem connected_whole {heap : Heap} {s : Inbound} (made : connected heap = some s) : s.Whole ∧ s.stream = [] := by
  obtain ⟨d,built,rfl⟩ := Option.map_eq_some_iff.mp made
  obtain ⟨r,constructed,rfl⟩ := Option.map_eq_some_iff.mp built
  refine ⟨⟨fresh_sound built,fresh_roomy built,List.nil_prefix,?_⟩,rfl⟩
  obtain ⟨sz,asked,_,outcome⟩ := CharVector.reserve_cases (h := heap) (n := 1024) CharVector.null_valid (by decide)
  cases asked.symm.trans constructed
  rcases outcome with ⟨_,grown⟩ | ⟨_,same⟩
  · exact grown.contents
  · rw [pending,residue,same]
    rfl

theorem receive_sound (s : Inbound) (buf : List UInt8) (sound : Sound s.dispatch) :
    ∃ t, s.receive buf = some t ∧ Sound t.dispatch := by
  obtain ⟨d,_,received,sound',_⟩ := onMessage_calls sound buf
  exact ⟨⟨d,s.stream ++ buf⟩,by rw [receive,received]; rfl,sound'⟩

theorem run_stream {s u : Inbound} {chunks : List (List UInt8)} (received : run receive s chunks = some u) :
    u.stream = s.stream ++ chunks.flatten := by
  induction chunks generalizing s with
  | nil => cases received; simp
  | cons buf rest ih =>
    obtain ⟨t,first,later⟩ := run_cons_some received
    obtain ⟨d,_,rfl⟩ := Option.map_eq_some_iff.mp first
    rw [ih later,List.flatten_cons,List.append_assoc]

/-- However the stream is cut: as long as no append is refused, the packets handed over are
the first of the stream, and vecbuf holds the rest. -/
theorem in_order (heap : Heap) (s : Inbound) (made : connected heap = some s) (chunks : List (List UInt8))
    (granted : Meets receive (fun s buf => ¬ s.dispatch.Refuses buf) s chunks) :
    ∃ u, run receive s chunks = some u ∧ u.stream = chunks.flatten ∧ u.dispatch.residue = u.pending ∧
      Along receive InOrder s chunks := by
  obtain ⟨whole,blank⟩ := connected_whole made
  have step : ∀ (s : Inbound) (buf : List UInt8) (t : Inbound), s.Whole → ¬ s.dispatch.Refuses buf →
      s.receive buf = some t → t.Whole := by
    intro s buf t whole granted taken
    obtain ⟨t',taken',whole'⟩ := whole.receive granted
    cases taken.symm.trans taken'
    exact whole'
  obtain ⟨u,received,_⟩ := run_exists receive_sound whole.sound chunks
  refine ⟨u,received,by rw [run_stream received,blank]; rfl,(run_invariant step whole granted received).held,?_⟩
  exact along_of_meets (I := Whole) (fun _ whole => whole.order) step whole granted

/-- An allocator that never fails refuses no append. -/
theorem granted_of_succeeds {heap : Heap} (succeeds : heap.Succeeds) {s : Inbound} (made : connected heap = some s)
    (chunks : List (List UInt8)) : Meets receive (fun s buf => ¬ s.dispatch.Refuses buf) s chunks := by
  obtain ⟨d,built,rfl⟩ := Option.map_eq_some_iff.mp made
  obtain ⟨d',built',ready,_⟩ := fresh_ready succeeds
  cases built.symm.trans built'
  have preserved : ∀ (s : Inbound) (buf : List UInt8) (t : Inbound), Ready s.dispatch → s.receive buf = some t →
      Ready t.dispatch := by
    intro s buf t ready taken
    obtain ⟨d,parsed,parses⟩ := onMessage_spec ready buf
    obtain ⟨d',parsed',rfl⟩ := Option.map_eq_some_iff.mp taken
    cases parsed.symm.trans parsed'
    exact parses.ready
  exact meets_of_invariant (I := fun s : Inbound => Ready s.dispatch) (fun _ buf ready => ready.grants buf) preserved
    chunks ready

theorem packet_injective : Function.Injective Frame.packet := by
  rintro ⟨h,p⟩ ⟨h',p'⟩ same
  simp only [Frame.packet,Prod.mk.injEq] at same
  rw [same.1,same.2.2]

theorem no_packet {call : ParseCall} (too_short : call.payload.length < call.len) (s : List UInt8) :
    call.packet ∉ (frames s).map Frame.packet := by
  intro member
  obtain ⟨f,framed,same⟩ := List.mem_map.mp member
  have whole := payload_length framed
  simp only [Frame.packet,ParseCall.packet,Prod.mk.injEq] at same
  rw [same.2.1,same.2.2] at whole
  omega

/-- The order is lost where a packet is cut short, or vecbuf and the chunk make other packets
than those that come next. -/
theorem receive_order {s t : Inbound} {buf : List UInt8} (sound : Sound s.dispatch) (roomy : Roomy s.dispatch.vecbuf.cap)
    (order : s.InOrder) (taken : s.receive buf = some t) (kept : t.InOrder) :
    ¬ s.dispatch.FillRefused buf ∧ frames (s.dispatch.residue ++ buf) <+: frames (s.pending ++ buf) := by
  obtain ⟨d,made,received,_,called,by_case⟩ := onMessage_calls sound buf
  obtain ⟨d',received',rfl⟩ := Option.map_eq_some_iff.mp taken
  cases received.symm.trans received'
  have handed : packets ⟨d,s.stream ++ buf⟩ = s.packets ++ made.map ParseCall.packet := by
    rw [packets,called,List.map_append]
    rfl
  rw [InOrder,handed,order.continues,List.prefix_append_right_inj] at kept
  have whole_fill : ¬ s.dispatch.FillRefused buf := by
    intro refused
    obtain ⟨call,member,too_short⟩ := by_case.too_short sound roomy refused
    exact no_packet too_short _ (kept.subset (List.mem_map_of_mem member))
  rw [by_case.packets sound whole_fill] at kept
  obtain ⟨front,leads,same⟩ := List.prefix_map_iff.mp kept
  rw [List.map_injective_iff.mpr packet_injective same]
  exact ⟨whole_fill,leads⟩

/-- Lost bytes show in the packets of some chunk: its first byte, at the place of the first
lost one and unlike it, is in the next packet. -/
theorem lost_shows {kept lost : List UInt8} (incomplete : ¬ Complete kept) (some_lost : lost ≠ []) :
    ∃ chunk, ¬ frames (kept ++ chunk) <+: frames (kept ++ lost ++ chunk) := by
  obtain ⟨x,xs,rfl⟩ := List.exists_cons_of_ne_nil some_lost
  -- as many bytes as any packet has
  obtain ⟨zeros,many⟩ : ∃ zeros : List UInt8, zeros.length = 65542 := ⟨_,List.length_replicate (a := 0)⟩
  refine ⟨(x + 1) :: zeros,fun leads => ?_⟩
  rw [frames_prefix_iff,wholePackets] at leads
  generalize whole : kept ++ (x + 1) :: zeros = s at leads
  have length : s.length = kept.length + 65543 := by simp [← whole,many]
  have eight : DataHeader.size = 8 := rfl
  have bound := lenOf_bound s
  have complete : Complete s := ⟨by omega,by omega⟩
  have left : (unparsed s).length + (DataHeader.size + lenOf s) ≤ s.length := by
    have := complete.2
    rw [(frames_of_complete complete).2,← unparsed_drop,List.length_drop,List.length_drop]
    omega
  have inside : kept.length < DataHeader.size + lenOf s := by
    by_cases short : kept.length < DataHeader.size
    · omega
    · have header := DataHeader.ofBytes_append (s := kept) (by omega) ((x + 1) :: zeros)
      rw [whole] at header
      have len : lenOf s = lenOf kept := congrArg DataHeader.getLen header
      rw [Complete] at incomplete
      omega
  obtain ⟨rest,same⟩ := leads
  have there := congrArg (·[kept.length]?) same
  rw [List.getElem?_append_left (by rw [List.length_take]; omega),List.getElem?_take_of_lt (by omega),← whole] at there
  simp at there

/-- A refused append is followed, at once or after one more chunk, by a packet that is none
of the stream. -/
theorem misframed_of_refused {s : Inbound} (whole : s.Whole) {buf : List UInt8} (refused : s.dispatch.Refuses buf) :
    ∃ t, s.receive buf = some t ∧ (¬ t.InOrder ∨ ∃ chunk u, t.receive chunk = some u ∧ ¬ u.InOrder) := by
  by_cases short : s.dispatch.FillRefused buf
  · obtain ⟨t,received,_⟩ := receive_sound s buf whole.sound
    exact ⟨t,received,.inl fun order => (receive_order whole.sound whole.roomy whole.order received order).1 short⟩
  obtain ⟨t,received,sound,roomy,order,left⟩ := whole.receive_left short
  obtain ⟨_,lost,some_lost,pending⟩ := left.resolve_left fun kept => kept.1 refused
  obtain ⟨chunk,shows⟩ := lost_shows sound.incomplete some_lost
  obtain ⟨u,later,_⟩ := receive_sound t chunk sound
  refine ⟨t,received,.inr ⟨chunk,u,later,fun order' => shows ?_⟩⟩
  rw [pending]
  exact (receive_order sound roomy order later order').2

instance (v : CharVector) (h : Heap) (n : Nat) : Decidable (v.Refused h n) :=
  match base : v.base_ptr with
  | none => decidable_of_iff ((h.answer h.asked).isNone = true) (by simp [CharVector.Refused,base])
  | some _ =>
    decidable_of_iff (v.cap < max 64 n ∧ (h.answer h.asked).isNone = true ∧ (h.answer (h.asked + 1)).isNone = true)
      (by simp [CharVector.Refused,base])

instance (d : Dispatch) (buf : List UInt8) : Decidable (d.Refuses buf) :=
  if fills : d.Fills buf then
    match appended : d.vecbuf.append d.heap (buf.take (DataHeader.size + lenOf d.residue - d.vecbuf.len)) with
    | none => isTrue (by simp [Refuses,fills,appended])
    | some r => decidable_of_iff (r.ok = false ∨ unparsed (d.residue ++ buf) ≠ [] ∧
        r.vec.Refused r.heap (unparsed (d.residue ++ buf)).length) (by simp [Refuses,fills,appended])
  else decidable_of_iff (unparsed (d.residue ++ buf) ≠ [] ∧
    d.vecbuf.Refused d.heap (unparsed (d.residue ++ buf)).length) (by simp [Refuses,fills])

/-- The constructor gets no memory, and realloc never does. -/
def scarce : Heap := ⟨fun k => if k % 2 = 0 then none else some ⟨k,fun _ => 0⟩,0⟩

/-- The first append gets vecbuf's first block, and a packet is filled up there. -/
theorem in_order_scarce : ∃ s u, connected scarce = some s ∧
    run receive s [[0,1,0,0,0,0,0,0],[7,0]] = some u ∧ u.stream = [0,1,0,0,0,0,0,0,7,0] ∧
      u.dispatch.residue = u.pending ∧ Along receive InOrder s [[0,1,0,0,0,0,0,0],[7,0]] := by
  obtain ⟨s,made⟩ := Option.isSome_iff_exists.mp (show (connected scarce).isSome by decide +kernel)
  have granted : Meets receive (fun s buf => ¬ s.dispatch.Refuses buf) s [[0,1,0,0,0,0,0,0],[7,0]] := by
    have seen : (connected scarce).all fun s =>
      decide (Meets receive (fun s buf => ¬ s.dispatch.Refuses buf) s [[0,1,0,0,0,0,0,0],[7,0]]) := by decide +kernel
    rw [made] at seen
    exact of_decide_eq_true seen
  exact ⟨s,(in_order scarce s made _ granted).imp fun _ after => ⟨made,after⟩⟩

/-- Neither the constructor nor the first append gets memory. -/
def late : Heap := ⟨fun k => if k < 2 then none else some ⟨k,fun _ => 0⟩,0⟩

/-- The first two bytes of a packet of one byte are lost, and the rest of it is taken for an
empty packet with another header. -/
theorem misframed_after_loss : ∃ s u, connected late = some s ∧
    run receive s [[0,1],[0,0,0,0,0,0,7,0]] = some u ∧ ¬ u.InOrder := by
  have state : ((connected late).bind fun s => (run receive s [[0,1],[0,0,0,0,0,0,7,0]]).map fun u =>
      (u.packets,u.stream)) = some ([(⟨(0,0),0,0,0,(0,7,0)⟩,0,[])],[0,1,0,0,0,0,0,0,7,0]) := by
    decide +kernel
  obtain ⟨s,made,after⟩ := Option.bind_eq_some_iff.mp state
  obtain ⟨u,received,handed⟩ := Option.map_eq_some_iff.mp after
  obtain ⟨packets,stream⟩ := Prod.mk.inj handed
  refine ⟨s,u,made,received,?_⟩
  rw [InOrder,packets,stream]
  decide

end Inbound
end UvRpc
