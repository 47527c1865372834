import UvRpc.SimpleMsgDispatcher

/-! onMessage refines the one-pass parse: with the residue in front of the chunk, it
delivers the packets of the whole and keeps the rest of it. Allocation succeeds
throughout. -/
namespace UvRpc.Dispatch

/-- Between calls: a valid vecbuf that holds no complete packet. -/
structure Ready (d : Dispatch) : Prop where
  valid : d.vecbuf.Valid
  heap : d.heap.Succeeds
  incomplete : ¬ Complete d.residue

/-- The log grows by the deliveries of some packets and by nothing unsafe. -/
structure Logged (log log' : List Event) (packets : List Frame) : Prop where
  delivered : deliveries log' = deliveries log ++ packets.map Frame.delivery
  safe : (∀ e ∈ log, e.Safe) → ∀ e ∈ log', e.Safe

theorem deliveries_append (log more : List Event) :
    deliveries (log ++ more) = deliveries log ++ deliveries more := List.filterMap_append

theorem Logged.refl (log : List Event) : Logged log log [] := ⟨by simp,fun h => h⟩

theorem Logged.trans {log log' log'' : List Event} {packets more : List Frame}
    (first : Logged log log' packets) (second : Logged log' log'' more) :
    Logged log log'' (packets ++ more) :=
  ⟨by rw [second.delivered,first.delivered,List.map_append,List.append_assoc],
    fun h => second.safe (first.safe h)⟩

theorem Logged.append (log : List Event) {events : List Event} (packets : List Frame)
    (delivered : deliveries events = packets.map Frame.delivery) (safe : ∀ e ∈ events, e.Safe) :
    Logged log (log ++ events) packets := by
  refine ⟨by rw [deliveries_append,delivered],fun h e member => ?_⟩
  rcases List.mem_append.mp member with old | new
  · exact h e old
  · exact safe e new

@[simp] theorem note_vecbuf (d : Dispatch) (events : List Event) : (d.note events).vecbuf = d.vecbuf := rfl
@[simp] theorem note_heap (d : Dispatch) (events : List Event) : (d.note events).heap = d.heap := rfl
@[simp] theorem note_log (d : Dispatch) (events : List Event) : (d.note events).log = d.log ++ events := rfl
@[simp] theorem note_residue (d : Dispatch) (events : List Event) : (d.note events).residue = d.residue := rfl

theorem note_note (d : Dispatch) (events more : List Event) :
    (d.note events).note more = d.note (events ++ more) := by
  simp [note]

theorem calls_append (log more : List Event) : calls (log ++ more) = calls log ++ calls more :=
  List.filterMap_append

theorem deliveries_calls (log : List Event) :
    deliveries log = (calls log).map fun call => (call.len,call.payload) := by
  induction log with
  | nil => rfl
  | cons e log ih => cases e <;> simp_all [deliveries,calls]

structure Received (call : ParseCall) (f : Frame) : Prop where
  header : call.header = .received f.header.toBytes
  len : call.len = f.header.getLen
  payload : call.payload = f.payload

theorem received_deliveries {made : List ParseCall} {packets : List Frame}
    (received : List.Forall₂ Received made packets) :
    (made.map fun call => (call.len,call.payload)) = packets.map Frame.delivery := by
  induction received with
  | nil => rfl
  | cons call _ ih => rw [List.map_cons,List.map_cons,ih,call.len,call.payload]; rfl

/-- Events of the packet loop: one call for each packet, and nothing unsafe. -/
structure Cuts (events : List Event) (packets : List Frame) : Prop where
  calls : List.Forall₂ Received (calls events) packets
  safe : ∀ e ∈ events, e.Safe

theorem Cuts.append {events more : List Event} {packets later : List Frame} (first : Cuts events packets)
    (second : Cuts more later) : Cuts (events ++ more) (packets ++ later) := by
  refine ⟨?_,fun e member => ?_⟩
  · rw [calls_append]
    exact List.rel_append first.calls second.calls
  · rcases List.mem_append.mp member with old | new
    · exact first.safe e old
    · exact second.safe e new

theorem Cuts.logged {events : List Event} {packets : List Frame} (cuts : Cuts events packets)
    (log : List Event) : Logged log (log ++ events) packets := by
  apply Logged.append log packets _ cuts.safe
  rw [deliveries_calls,received_deliveries cuts.calls]

/-- The state after `stream` has been read from an empty residue. -/
structure Parses (log : List Event) (d' : Dispatch) (stream : List UInt8) : Prop where
  ready : Ready d'
  residue : d'.residue = unparsed stream
  logged : Logged log d'.log (frames stream)

theorem copyToVec_spec {d : Dispatch} (buf : List UInt8) (len : Nat) (valid : d.vecbuf.Valid)
    (heap : d.heap.Succeeds) (inside : len ≤ buf.length)
    (small : d.vecbuf.len + len ≤ CharVector.growable) :
    ∃ d', d.copyToVec buf len = some d' ∧ d'.vecbuf.Valid ∧ d'.heap.Succeeds ∧
      d'.residue = d.residue ++ buf.take len ∧ d'.vecbuf.len = d.vecbuf.len + len ∧
      Logged d.log d'.log [] := by
  have taken : (buf.take len).length = len := by simp [inside]
  obtain ⟨r,hr,holds⟩ := CharVector.append_spec valid heap (buf.take len) (by omega)
  refine ⟨⟨r.vec,r.heap,d.log ++ [.read len buf.length]⟩,by simp [copyToVec,hr],
    holds.valid,holds.heap,holds.contents,?_,?_⟩
  · have := congrArg List.length holds.contents
    rw [holds.valid.contents_length,List.length_append,valid.contents_length,taken] at this
    exact this
  · exact Logged.append d.log [] rfl (by simp [Event.Safe,inside])

theorem cuts_packet {buf : List UInt8} (complete : Complete buf) (vecbuf : CharVector) :
    Cuts [.read 2 buf.length,.read (lenOf buf) (buf.drop DataHeader.size).length,
        .parse ⟨.received (buf.take DataHeader.size),(buf.drop DataHeader.size).take (lenOf buf),
          lenOf buf,vecbuf⟩]
      [⟨DataHeader.ofBytes buf,(buf.drop DataHeader.size).take (lenOf buf)⟩] := by
  refine ⟨.cons ⟨?_,rfl,rfl⟩ .nil,?_⟩
  · rw [DataHeader.toBytes_ofBytes complete.1]
  · have whole := complete.1
    have inside := complete.2
    simp only [DataHeader.size] at whole inside
    simp [Event.Safe,DataHeader.size]; omega

/-- The loop cuts off every complete packet and stops at the rest. -/
theorem packetLoop_spec {rounds : Nat} {d : Dispatch} (buf : List UInt8) (enough : buf.length < rounds) :
    ∃ events rest left, packetLoop rounds d buf buf.length = some (d.note events,rest,left) ∧
      left ≤ rest.length ∧ rest.take left = unparsed buf ∧ Cuts events (frames buf) := by
  induction rounds generalizing d buf with
  | zero => omega
  | succ rounds ih =>
    by_cases header : buf.length ≥ DataHeader.size
    · have eight : DataHeader.size = 8 := rfl
      by_cases exact_fit : buf.length = lenOf buf + DataHeader.size
      · have complete : Complete buf := ⟨header,by omega⟩
        obtain ⟨frame,rest⟩ := frames_of_complete complete
        have empty : buf.drop (DataHeader.size + lenOf buf) = [] :=
          List.drop_eq_nil_of_le (by omega)
        have nothing := frames_of_incomplete (s := []) (by simp [Complete,DataHeader.size])
        rw [frame,rest,empty,nothing.1,nothing.2]
        refine ⟨_,buf.drop DataHeader.size,0,?_,Nat.zero_le _,rfl,cuts_packet complete d.vecbuf⟩
        rw [packetLoop,if_pos header,if_pos exact_fit,onMessageParse,note_note]
        rfl
      · by_cases longer : buf.length > lenOf buf + DataHeader.size
        · have complete : Complete buf := ⟨header,by omega⟩
          obtain ⟨frame,rest⟩ := frames_of_complete complete
          have tail : (buf.drop DataHeader.size).drop (lenOf buf) =
              buf.drop (DataHeader.size + lenOf buf) := List.drop_drop
          have length : buf.length - (lenOf buf + DataHeader.size) =
              (buf.drop (DataHeader.size + lenOf buf)).length := by simp; omega
          have less : Cuts [.subtract buf.length (lenOf buf + DataHeader.size)] [] :=
            ⟨.nil,by simp [Event.Safe]; omega⟩
          obtain ⟨events,stop,left,loop,le,taken,later⟩ :=
            ih (d := ((d.note [.read 2 buf.length]).onMessageParse (.received (buf.take DataHeader.size))
                (buf.drop DataHeader.size) (lenOf buf) (buf.drop DataHeader.size).length).note
                  [.subtract buf.length (lenOf buf + DataHeader.size)])
              (buf.drop (DataHeader.size + lenOf buf)) (by omega)
          rw [frame,rest]
          refine ⟨_,stop,left,?_,le,taken,((cuts_packet complete d.vecbuf).append less).append later⟩
          rw [packetLoop,if_pos header,if_neg exact_fit,if_pos longer,tail,length,loop]
          simp [onMessageParse,note_note]
        · have partial_packet : ¬ Complete buf := fun complete => by have := complete.2; omega
          obtain ⟨none_cut,kept⟩ := frames_of_incomplete partial_packet
          rw [none_cut,kept]
          refine ⟨[.read 2 buf.length],buf,buf.length,?_,Nat.le_refl _,List.take_length,.nil,?_⟩
          · rw [packetLoop,if_pos header,if_neg exact_fit,if_neg longer]
          · simp [Event.Safe]; omega
    · have short : ¬ Complete buf := fun complete => header complete.1
      obtain ⟨none_cut,kept⟩ := frames_of_incomplete short
      rw [none_cut,kept]
      refine ⟨[],buf,buf.length,?_,Nat.le_refl _,List.take_length,.nil,by simp⟩
      rw [packetLoop,if_neg header]
      simp [note]

theorem doMessageInNewBuf_cases (d : Dispatch) (buf : List UInt8) :
    ∃ events, Cuts events (frames buf) ∧
      (unparsed buf = [] ∧ d.doMessageInNewBuf buf buf.length = some (d.note events) ∨
        ∃ rest left, left ≤ rest.length ∧ rest.take left = unparsed buf ∧
          d.doMessageInNewBuf buf buf.length = (d.note events).copyToVec rest left) := by
  by_cases received : buf.length = 0
  · have nil : buf = [] := List.eq_nil_of_length_eq_zero received
    obtain ⟨none_cut,kept⟩ := frames_of_incomplete (s := []) (by simp [Complete,DataHeader.size])
    subst nil
    rw [none_cut,kept]
    exact ⟨[],⟨.nil,by simp⟩,.inl ⟨rfl,by simp [doMessageInNewBuf,note]⟩⟩
  · obtain ⟨events,rest,left,loop,le,taken,cuts⟩ :=
      packetLoop_spec (d := d) buf (Nat.lt_succ_self _)
    refine ⟨events,cuts,?_⟩
    by_cases some_left : left > 0
    · exact .inr ⟨rest,left,le,taken,by simp [doMessageInNewBuf,received,loop,some_left]⟩
    · refine .inl ⟨?_,by simp [doMessageInNewBuf,received,loop,some_left]⟩
      rw [← taken,show left = 0 by omega,List.take_zero]

theorem unparsed_length {rest buf : List UInt8} {left : Nat} (le : left ≤ rest.length)
    (taken : rest.take left = unparsed buf) : left ≤ 65542 := by
  have bound := incomplete_length (unparsed_incomplete buf)
  rw [← taken,List.length_take_of_le le] at bound
  exact bound

theorem doMessageInNewBuf_spec {d : Dispatch} (buf : List UInt8) (valid : d.vecbuf.Valid)
    (heap : d.heap.Succeeds) (empty : d.vecbuf.len = 0) :
    ∃ d', d.doMessageInNewBuf buf buf.length = some d' ∧ Parses d.log d' buf := by
  have none_held : d.residue = [] := by simp [residue,CharVector.contents,empty]
  have incomplete := unparsed_incomplete buf
  rcases doMessageInNewBuf_cases d buf with ⟨events,cuts,⟨nothing,done⟩ | ⟨rest,left,le,taken,done⟩⟩
  · rw [nothing,← none_held] at incomplete
    exact ⟨_,done,⟨valid,heap,incomplete⟩,by rw [note_residue,none_held,nothing],cuts.logged d.log⟩
  · have bound := unparsed_length le taken
    obtain ⟨d',copied,valid',heap',residue',_,logged⟩ := copyToVec_spec (d := d.note events) rest left
      valid heap le (by rw [note_vecbuf,empty,CharVector.growable]; omega)
    rw [note_residue,none_held,List.nil_append,taken] at residue'
    refine ⟨d',done.trans copied,⟨valid',heap',by rw [residue']; exact incomplete⟩,residue',?_⟩
    simpa using (cuts.logged d.log).trans logged

/-- Between calls and whatever the allocator does: vecbuf holds no complete packet. -/
structure Sound (d : Dispatch) : Prop where
  valid : d.vecbuf.Valid
  incomplete : ¬ Complete d.residue

theorem Ready.sound {d : Dispatch} (ready : Ready d) : Sound d := ⟨ready.valid,ready.incomplete⟩

theorem Sound.residue_length {d : Dispatch} (sound : Sound d) : d.residue.length = d.vecbuf.len :=
  sound.valid.contents_length

theorem Sound.header {d : Dispatch} (sound : Sound d) (whole : DataHeader.size ≤ d.vecbuf.len) :
    DataHeader.ofBytes d.vecbuf.bytes = DataHeader.ofBytes d.residue ∧
      d.vecbuf.len < DataHeader.size + lenOf d.residue := by
  have size := sound.valid.size_le
  have block := sound.valid.block
  refine ⟨(DataHeader.ofBytes_take whole (by omega)).symm,?_⟩
  have incomplete := sound.incomplete
  rw [Complete,sound.residue_length] at incomplete
  omega

/-- Events without a call and without harm. -/
abbrev Quiet (events : List Event) : Prop := Cuts events []

/-- Case 2) once the packet has been filled up: it is parsed in vecbuf, whose address was
taken before, and the rest of the chunk is parsed as new. -/
def parseResidue (d : Dispatch) (addr : Option Nat) (dataLen : Nat) (len need : Nat) : Dispatch :=
  (d.onMessageParse (.residue addr) (d.vecbuf.bytes.drop DataHeader.size) dataLen
    (d.vecbuf.len - DataHeader.size)).clear.note [.subtract len need]

/-- Case 6): the packet is parsed with a header put together on the stack. -/
def parseChunk (d : Dispatch) (tmpHeader : DataHeader) (body : List UInt8) : Dispatch :=
  (d.onMessageParse (.tmpHeader tmpHeader) body tmpHeader.getLen body.length).clear.note
    [.subtract body.length tmpHeader.getLen]

/-- What a call does when the residue is no complete packet, by the cases of the source. -/
inductive Path (d : Dispatch) (buf : List UInt8) : Option Dispatch → Prop where
  | new (empty : d.vecbuf.len = 0) : Path d buf (d.doMessageInNewBuf buf buf.length)
  | keep {events : List Event} (quiet : Quiet events) (incomplete : ¬ Complete (d.residue ++ buf)) :
      Path d buf ((d.note events).copyToVec buf buf.length)
  | fill {events : List Event} {need : Nat} (quiet : Quiet events)
      (whole : DataHeader.size ≤ d.vecbuf.len) (fits : need ≤ buf.length)
      (filled : d.vecbuf.len + need = DataHeader.size + lenOf d.residue) :
      Path d buf (((d.note events).copyToVec buf need).bind fun d' =>
        (d'.parseResidue (d.vecbuf.base_ptr.map Block.addr) (lenOf d.residue) buf.length need).doMessageInNewBuf
          (buf.drop need) (buf.drop need).length)
  | tmp {events : List Event} {need : Nat} (quiet : Quiet events)
      (short : d.vecbuf.len < DataHeader.size) (fits : need ≤ buf.length) (filled : d.vecbuf.len + need = DataHeader.size)
      (complete : Complete (d.residue ++ buf)) :
      Path d buf (((d.note events).parseChunk (DataHeader.ofBytes (d.residue ++ buf))
        (buf.drop need)).doMessageInNewBuf ((buf.drop need).drop (lenOf (d.residue ++ buf)))
          ((buf.drop need).drop (lenOf (d.residue ++ buf))).length)

/-- Cases 2) and 3). -/
theorem onMessage_header {d : Dispatch} (sound : Sound d) (buf : List UInt8)
    (whole : DataHeader.size ≤ d.vecbuf.len) (self : Dispatch → List UInt8 → Option Dispatch) :
    Path d buf (onMessageWith self d buf) := by
  obtain ⟨same_header,partial_packet⟩ := sound.header whole
  have size : d.residue.length = d.vecbuf.len := sound.residue_length
  have eight : DataHeader.size = 8 := rfl
  have positive : d.vecbuf.len > 0 := by omega
  have same_len : lenOf d.vecbuf.bytes = lenOf d.residue := congrArg DataHeader.getLen same_header
  have stream_len : lenOf (d.residue ++ buf) = lenOf d.residue :=
    congrArg DataHeader.getLen (DataHeader.ofBytes_append (by omega) buf)
  obtain ⟨need,need_eq⟩ : ∃ need, need = DataHeader.size + lenOf d.residue - d.vecbuf.len := ⟨_,rfl⟩
  have quiet : Quiet [.read 2 d.vecbuf.len,.check (d.vecbuf.len < DataHeader.size + lenOf d.residue),
      .subtract (DataHeader.size + lenOf d.residue) d.vecbuf.len,.check (need > 0)] :=
    ⟨.nil,by simp [Event.Safe,partial_packet]; omega⟩
  simp only [onMessageWith,positive,if_true,whole,ge_iff_le,same_len,not_le.mpr partial_packet,if_false,
    note_note,List.cons_append,List.nil_append,← need_eq]
  by_cases fills : need ≤ buf.length
  · rw [if_pos fills,← List.length_drop]
    exact .fill quiet whole fills (by omega)
  · have incomplete : ¬ Complete (d.residue ++ buf) := by
      intro complete
      have := complete.2
      rw [stream_len,List.length_append] at this
      omega
    rw [if_neg fills]
    exact .keep quiet incomplete

/-- Cases 4), 5) and 6). -/
theorem onMessage_short {d : Dispatch} (sound : Sound d) (buf : List UInt8)
    (some_held : 0 < d.vecbuf.len) (short : d.vecbuf.len < DataHeader.size)
    (self : Dispatch → List UInt8 → Option Dispatch) : Path d buf (onMessageWith self d buf) := by
  have size : d.residue.length = d.vecbuf.len := sound.residue_length
  have eight : DataHeader.size = 8 := rfl
  have total : (d.residue ++ buf).length = d.vecbuf.len + buf.length := by rw [List.length_append,size]
  obtain ⟨need,need_eq⟩ : ∃ need, need = DataHeader.size - d.vecbuf.len := ⟨_,rfl⟩
  have quiet : Quiet [.subtract DataHeader.size d.vecbuf.len,.check (need > 0)] :=
    ⟨.nil,by simp [Event.Safe]; omega⟩
  simp only [onMessageWith,gt_iff_lt,some_held,if_true,ge_iff_le,not_le.mpr short,if_false,
    note_vecbuf,← need_eq]
  by_cases fills : buf.length < need
  · have incomplete : ¬ Complete (d.residue ++ buf) := fun complete => by
      have := complete.1
      omega
    rw [if_pos fills]
    exact .keep quiet incomplete
  have first : (d.residue ++ buf).take DataHeader.size = d.residue ++ buf.take need := by
    rw [List.take_append,List.take_of_length_le (by omega),size,need_eq]
  have header : DataHeader.ofBytes (d.vecbuf.bytes.take d.vecbuf.len ++ buf.take need) =
      DataHeader.ofBytes (d.residue ++ buf) := by
    change DataHeader.ofBytes (d.residue ++ buf.take need) = _
    rw [← first,DataHeader.ofBytes_take (Nat.le_refl _) (by omega)]
  have dataLen : (DataHeader.ofBytes (d.residue ++ buf)).getLen = lenOf (d.residue ++ buf) := rfl
  have read : Quiet [.read d.vecbuf.len d.vecbuf.len,.read need buf.length,.subtract buf.length need] :=
    ⟨.nil,by simp [Event.Safe]; omega⟩
  rw [if_neg fills,header]
  simp only [note_note]
  by_cases partial_packet : (DataHeader.ofBytes (d.residue ++ buf)).getLen > buf.length - need
  · have incomplete : ¬ Complete (d.residue ++ buf) := fun complete => by
      have := complete.2
      omega
    rw [if_pos partial_packet]
    exact .keep (quiet.append read) incomplete
  · rw [if_neg partial_packet,← List.length_drop,dataLen,← List.length_drop]
    exact .tmp (quiet.append read) short (by omega) (by omega) ⟨by omega,by omega⟩

theorem onMessage_path {d : Dispatch} (sound : Sound d) (buf : List UInt8)
    (self : Dispatch → List UInt8 → Option Dispatch) : Path d buf (onMessageWith self d buf) := by
  rcases Nat.eq_zero_or_pos d.vecbuf.len with empty | some_held
  · have path : Path d buf _ := .new empty
    simpa [onMessageWith,empty] using path
  · by_cases whole : DataHeader.size ≤ d.vecbuf.len
    · exact onMessage_header sound buf whole self
    · exact onMessage_short sound buf some_held (by omega) self

/-- Cases 3), 4) and 5): the chunk does not complete the packet and is kept. -/
theorem keep_spec {d : Dispatch} {buf : List UInt8} (valid : d.vecbuf.Valid) (heap : d.heap.Succeeds)
    (incomplete : ¬ Complete (d.residue ++ buf)) :
    ∃ d', d.copyToVec buf buf.length = some d' ∧ Parses d.log d' (d.residue ++ buf) := by
  have bound := incomplete_length incomplete
  rw [List.length_append,residue,valid.contents_length] at bound
  obtain ⟨d',copied,valid',heap',residue',_,logged⟩ := copyToVec_spec buf buf.length
    valid heap (Nat.le_refl _) (by unfold CharVector.growable; omega)
  rw [List.take_length] at residue'
  obtain ⟨none_cut,kept⟩ := frames_of_incomplete incomplete
  exact ⟨d',copied,⟨valid',heap',by rw [residue']; exact incomplete⟩,by rw [residue',kept],
    by rw [none_cut]; exact logged⟩

/-- Cases 2) and 6): the first packet of the stream has been delivered and the residue
dropped, and the rest of the chunk is parsed as new. -/
theorem finish_spec {d : Dispatch} {log : List Event} {stream rest : List UInt8} (valid : d.vecbuf.Valid)
    (heap : d.heap.Succeeds) (empty : d.vecbuf.len = 0) (complete : Complete stream)
    (remaining : rest = stream.drop (DataHeader.size + lenOf stream))
    (logged : Logged log d.log
      [⟨DataHeader.ofBytes stream,(stream.drop DataHeader.size).take (lenOf stream)⟩]) :
    ∃ d', d.doMessageInNewBuf rest rest.length = some d' ∧ Parses log d' stream := by
  obtain ⟨d',done,parses⟩ := doMessageInNewBuf_spec rest valid heap empty
  obtain ⟨frame,left⟩ := frames_of_complete complete
  refine ⟨d',done,parses.ready,?_,?_⟩
  · rw [parses.residue,left,remaining]
  · rw [frame,← remaining]
    exact logged.trans parses.logged

/-- How the chunk splits when it fills the residue up to a packet. -/
theorem Sound.fill_stream {d : Dispatch} (sound : Sound d) {buf : List UInt8} {need : Nat}
    (whole : DataHeader.size ≤ d.vecbuf.len) (fits : need ≤ buf.length)
    (filled : d.vecbuf.len + need = DataHeader.size + lenOf d.residue) :
    DataHeader.ofBytes (d.residue ++ buf) = DataHeader.ofBytes d.residue ∧ Complete (d.residue ++ buf) ∧
      d.residue ++ buf.take need = (d.residue ++ buf).take (DataHeader.size + lenOf (d.residue ++ buf)) ∧
      buf.drop need = (d.residue ++ buf).drop (DataHeader.size + lenOf (d.residue ++ buf)) := by
  have size : d.residue.length = d.vecbuf.len := sound.residue_length
  have header := DataHeader.ofBytes_append (s := d.residue) (by omega) buf
  have len : lenOf (d.residue ++ buf) = lenOf d.residue := congrArg DataHeader.getLen header
  have total : (d.residue ++ buf).length = d.vecbuf.len + buf.length := by rw [List.length_append,size]
  refine ⟨header,⟨by omega,by omega⟩,?_,?_⟩ <;> rw [len,← filled,← size]
  · rw [List.take_length_add_append]
  · rw [List.drop_length_add_append]

/-- A vector that holds the first packet of the stream shows its header and its payload. -/
theorem filled_packet {v : CharVector} {stream : List UInt8} (valid : v.Valid) (complete : Complete stream)
    (held : v.contents = stream.take (DataHeader.size + lenOf stream)) :
    v.len = DataHeader.size + lenOf stream ∧ DataHeader.ofBytes v.bytes = DataHeader.ofBytes stream ∧
      (v.bytes.drop DataHeader.size).take (lenOf stream) =
        (stream.drop DataHeader.size).take (lenOf stream) := by
  have len : v.len = DataHeader.size + lenOf stream := by
    rw [← valid.contents_length,held,List.length_take_of_le complete.2]
  have inside := valid.size_le
  rw [← valid.block] at inside
  refine ⟨len,?_,?_⟩
  · rw [← DataHeader.ofBytes_take (by omega) inside]
    change DataHeader.ofBytes v.contents = _
    rw [held,DataHeader.ofBytes_take (by omega) complete.2]
  · rw [List.take_drop,List.take_drop,← held,← len]
    rfl

/-- How the chunk splits when it completes a header and its packet. -/
theorem Sound.tmp_stream {d : Dispatch} (sound : Sound d) (buf : List UInt8) {need : Nat}
    (filled : d.vecbuf.len + need = DataHeader.size) :
    buf.drop need = (d.residue ++ buf).drop DataHeader.size := by
  rw [← filled,← sound.residue_length,List.drop_length_add_append]

theorem onMessageWith_spec {d : Dispatch} (ready : Ready d) (buf : List UInt8)
    (self : Dispatch → List UInt8 → Option Dispatch) :
    ∃ d', onMessageWith self d buf = some d' ∧ Parses d.log d' (d.residue ++ buf) := by
  have sound := ready.sound
  have path := onMessage_path sound buf self
  generalize onMessageWith self d buf = result at path
  cases path with
  | new empty =>
    have none_held : d.residue = [] := by simp [residue,CharVector.contents,empty]
    rw [none_held]
    exact doMessageInNewBuf_spec buf ready.valid ready.heap empty
  | keep quiet incomplete =>
    obtain ⟨d',copied,parses⟩ := keep_spec (d := d.note _) ready.valid ready.heap incomplete
    exact ⟨d',copied,parses.ready,parses.residue,(quiet.logged d.log).trans parses.logged⟩
  | @fill events need quiet whole fits filled =>
    obtain ⟨header,complete,front,rest⟩ := sound.fill_stream whole fits filled
    have len : lenOf (d.residue ++ buf) = lenOf d.residue := congrArg DataHeader.getLen header
    have bound := lenOf_bound d.residue
    obtain ⟨d',copied,valid',heap',residue',len',logged⟩ := copyToVec_spec (d := d.note events) buf
      need ready.valid ready.heap fits (by rw [note_vecbuf,filled]; unfold CharVector.growable DataHeader.size; omega)
    rw [note_residue,front] at residue'
    rw [note_vecbuf,filled] at len'
    have payload := (filled_packet valid' complete residue').2.2
    have cut : Logged d.log
        (d'.parseResidue (d.vecbuf.base_ptr.map Block.addr) (lenOf d.residue) buf.length need).log
        [⟨DataHeader.ofBytes (d.residue ++ buf),
          ((d.residue ++ buf).drop DataHeader.size).take (lenOf (d.residue ++ buf))⟩] := by
      apply ((quiet.logged d.log).trans logged).trans
      refine (Logged.append d'.log [_] ?_ ?_).trans (Logged.append _ [] rfl ?_)
      · change [(lenOf d.residue,_)] = [(lenOf (d.residue ++ buf),_)]
        rw [← len,payload]
      · simp [Event.Safe,len']
      · simp [Event.Safe,fits]
    obtain ⟨d'',done,parses⟩ := finish_spec (d := d'.parseResidue _ _ _ _) valid'.clear heap' rfl complete rest cut
    refine ⟨d'',?_,parses⟩
    rw [copied]
    exact done
  | @tmp events need quiet short fits filled complete =>
    have body := sound.tmp_stream buf filled
    have enough := complete.2
    rw [List.length_append,sound.residue_length] at enough
    have rest : (buf.drop need).drop (lenOf (d.residue ++ buf)) =
        (d.residue ++ buf).drop (DataHeader.size + lenOf (d.residue ++ buf)) := by
      rw [body,List.drop_drop]
    have cut : Logged d.log ((d.note events).parseChunk (DataHeader.ofBytes (d.residue ++ buf)) (buf.drop need)).log
        [⟨DataHeader.ofBytes (d.residue ++ buf),
          ((d.residue ++ buf).drop DataHeader.size).take (lenOf (d.residue ++ buf))⟩] := by
      have inside : (DataHeader.ofBytes (d.residue ++ buf)).getLen ≤ (buf.drop need).length := by
        change lenOf (d.residue ++ buf) ≤ _
        rw [List.length_drop]; omega
      apply (quiet.logged d.log).trans
      refine (Logged.append (d.log ++ events) [_] ?_ ?_).trans (Logged.append _ [] rfl ?_)
      · change [(lenOf (d.residue ++ buf),_)] = [(lenOf (d.residue ++ buf),_)]
        rw [body]
        rfl
      all_goals simpa [Event.Safe] using inside
    exact finish_spec ready.valid.clear ready.heap rfl complete rest cut

theorem onMessage_spec {d : Dispatch} (ready : Ready d) (buf : List UInt8) :
    ∃ d', onMessage d buf = some d' ∧ Parses d.log d' (d.residue ++ buf) :=
  onMessageWith_spec ready buf _

theorem onMessage_receives : packetCutter.Receives onMessage Ready residue
    (fun d d' packets => Logged d.log d'.log packets) where
  silent d := Logged.refl d.log
  joins first second := first.trans second
  stuck ready := cutFrame_none_iff.mpr ready.incomplete
  piece buf ready := by
    obtain ⟨d',received,parses⟩ := onMessage_spec ready buf
    exact ⟨d',received,parses.ready,parses.residue,parses.logged⟩

theorem onMessages_spec {d : Dispatch} (ready : Ready d) (chunks : List (List UInt8)) :
    ∃ d', onMessages d chunks = some d' ∧ Parses d.log d' (d.residue ++ chunks.flatten) := by
  obtain ⟨d',received,ready',kept,logged⟩ := onMessage_receives.pieces ready chunks
  exact ⟨d',received,ready',kept,logged⟩

theorem fresh_ready {heap : Heap} (succeeds : heap.Succeeds) :
    ∃ d, fresh heap = some d ∧ Ready d ∧ d.residue = [] ∧ d.log = [] := by
  obtain ⟨r,made,holds,_⟩ := CharVector.new_spec succeeds
  refine ⟨⟨r.vec,r.heap,[]⟩,by simp [fresh,made],⟨holds.valid,holds.heap,?_⟩,holds.contents,rfl⟩
  change ¬ Complete r.vec.contents
  rw [holds.contents]
  simp [Complete,DataHeader.size]

/-- A fresh connection delivers the packets of the whole stream and keeps the rest. -/
theorem fresh_onMessages {heap : Heap} (succeeds : heap.Succeeds) (chunks : List (List UInt8)) :
    ∃ d, (fresh heap).bind (onMessages · chunks) = some d ∧ Ready d ∧
      deliveries d.log = (frames chunks.flatten).map Frame.delivery ∧
      d.residue = unparsed chunks.flatten := by
  obtain ⟨start,made,ready,empty,silent⟩ := fresh_ready succeeds
  obtain ⟨d,received,parses⟩ := onMessages_spec ready chunks
  have delivered := parses.logged.delivered
  rw [empty,List.nil_append] at parses delivered
  rw [silent] at delivered
  exact ⟨d,by rw [made]; exact received,parses.ready,delivered,parses.residue⟩

/-- However a stream is cut into chunks, a fresh connection calls onMessageParse once
for each packet of the stream, in order and with its payload, and vecbuf is left with
the unparsed rest; so two cuts of one stream cannot be told apart. -/
theorem framing (heap : Heap) (succeeds : heap.Succeeds) (stream : List UInt8)
    (chunks : List (List UInt8)) (cut : chunks.flatten = stream) :
    ∃ d, (fresh heap).bind (onMessages · chunks) = some d ∧
      deliveries d.log = (frames stream).map Frame.delivery ∧ d.residue = unparsed stream ∧
      ∀ others : List (List UInt8), others.flatten = stream →
        ∃ e, (fresh heap).bind (onMessages · others) = some e ∧
          deliveries e.log = deliveries d.log ∧ e.residue = d.residue := by
  obtain ⟨d,received,_,delivered,left⟩ := fresh_onMessages succeeds chunks
  rw [cut] at delivered left
  refine ⟨d,received,delivered,left,fun others whole => ?_⟩
  obtain ⟨e,received',_,delivered',left'⟩ := fresh_onMessages succeeds others
  rw [whole] at delivered' left'
  exact ⟨e,received',delivered'.trans delivered.symm,left'.trans left.symm⟩

/-- A 3 byte packet cut inside its header and inside its payload. -/
theorem framing_three_cuts : ∃ d,
    (fresh plenty).bind (onMessages · [[0],[3,0,0,0,0,0,0,65,66],[67,9]]) = some d ∧
      deliveries d.log = [(3,[65,66,67])] ∧ d.residue = [9] := by
  obtain ⟨d,received,delivered,left,_⟩ :=
    framing plenty plenty_succeeds [0,3,0,0,0,0,0,0,65,66,67,9]
      [[0],[3,0,0,0,0,0,0,65,66],[67,9]] rfl
  exact ⟨d,received,delivered,left⟩

end UvRpc.Dispatch
