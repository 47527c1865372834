import UvRpc.ParseCalls

/-! The header argument of onMessageParse. It points into the received chunk, to a local
copy, or into vecbuf's block, and then it was taken before copyToVec could move that
block. The allocator's answers are arbitrary here: a request may also fail. -/
namespace UvRpc

/-- What the header argument points to when the call is made: none when its block has been
freed or moved since the pointer was taken. -/
def ParseCall.headerBytes (call : ParseCall) : Option (List UInt8) :=
  match call.header with
  | .residue base_ptr =>
    if base_ptr = call.vecbuf.base_ptr.map Block.addr then some (call.vecbuf.bytes.take DataHeader.size)
    else none
  | .received bytes => some bytes
  | .tmpHeader header => some header.toBytes

/-- The argument is alive and holds the header of the packet. -/
def ParseCall.HoldsHeader (call : ParseCall) (f : Frame) : Prop :=
  call.headerBytes = some f.header.toBytes

namespace Dispatch

/-- The chunk completes a packet whose header vecbuf already holds, and the allocator moves
the block when the missing bytes are appended. -/
def HeaderMoves (d : Dispatch) (buf : List UInt8) : Prop :=
  DataHeader.size ≤ d.vecbuf.len ∧ Complete (d.residue ++ buf) ∧
    d.vecbuf.cap < max 64 (DataHeader.size + lenOf d.residue) ∧
    ∃ old, d.vecbuf.base_ptr = some old ∧ d.heap.landing old ≠ old.addr

theorem direct_holdsHeader {call : ParseCall} {f : Frame} (direct : Direct call f) :
    call.HoldsHeader f := by
  rw [ParseCall.HoldsHeader,ParseCall.headerBytes]
  rcases direct.header with received | stacked
  · rw [received]
  · rw [stacked]

theorem header_bytes {v : CharVector} (whole : DataHeader.size ≤ v.len) :
    v.bytes.take DataHeader.size = v.contents.take DataHeader.size := by
  rw [CharVector.contents,List.take_take,Nat.min_eq_left whole]

theorem fill_holdsHeader {d : Dispatch} {vecbuf : CharVector} {buf : List UInt8} {need : Nat} (sound : Sound d)
    (whole : DataHeader.size ≤ d.vecbuf.len) (fits : need ≤ buf.length)
    (filled : d.vecbuf.len + need = DataHeader.size + lenOf d.residue)
    (copied : Copied d vecbuf (buf.take need)) {payload : List UInt8} {len : Nat} :
    ParseCall.HoldsHeader ⟨.residue (d.vecbuf.base_ptr.map Block.addr),payload,len,vecbuf⟩
        ⟨DataHeader.ofBytes (d.residue ++ buf),
          ((d.residue ++ buf).drop DataHeader.size).take (lenOf (d.residue ++ buf))⟩ ↔
      ¬ HeaderMoves d buf := by
  obtain ⟨header,complete,_,_⟩ := sound.fill_stream whole fits filled
  have size : d.residue.length = d.vecbuf.len := sound.residue_length
  have kept : vecbuf.bytes.take DataHeader.size = d.residue.take DataHeader.size := by
    rcases copied.outcome with ⟨_,appended⟩ | ⟨_,same⟩
    · have length := congrArg List.length appended
      rw [copied.valid.contents_length,List.length_append,size] at length
      rw [header_bytes (by omega),appended,List.take_append_of_le_length (by omega)]
    · rw [same,header_bytes whole]
      rfl
  obtain ⟨old,base⟩ := sound.valid.present (by unfold DataHeader.size at whole; omega)
  have bytes : vecbuf.bytes.take DataHeader.size = (DataHeader.ofBytes (d.residue ++ buf)).toBytes := by
    rw [kept,header,DataHeader.toBytes_ofBytes (by omega)]
  have landed := copied.moved old base
  rw [List.length_take_of_le fits,filled] at landed
  simp only [ParseCall.HoldsHeader,ParseCall.headerBytes,landed,base,bytes,HeaderMoves]
  by_cases grows : d.vecbuf.cap < max 64 (DataHeader.size + lenOf d.residue)
  · by_cases stays : d.heap.landing old = old.addr
    · simp [stays]
    · simp [whole,complete,grows,stays,Ne.symm stays]
  · simp [grows]

theorem Made.holdsHeader {d : Dispatch} (sound : Sound d) {buf : List UInt8} {made : List ParseCall}
    (calls : Made d buf made) :
    List.Forall₂ ParseCall.HoldsHeader made (frames (d.residue ++ buf)) ↔ ¬ HeaderMoves d buf := by
  have direct_hold {made : List ParseCall} {packets : List Frame} (direct : List.Forall₂ Direct made packets) :
      List.Forall₂ ParseCall.HoldsHeader made packets := direct.imp fun _ _ => direct_holdsHeader
  cases calls with
  | direct elsewhere direct =>
    exact iff_of_true (direct_hold direct) fun moves => elsewhere ⟨moves.1,moves.2.1⟩
  | @fill made need vecbuf whole fits filled copied direct =>
    have complete := (sound.fill_stream whole fits filled).2.1
    rw [(frames_of_complete complete).1,List.forall₂_cons,fill_holdsHeader sound whole fits filled copied]
    exact and_iff_left (direct_hold direct)

/-- Whatever the allocator answers, each packet of residue and chunk has its call, and the
header arguments are alive and hold the headers of their packets unless the block moves
under the first one. -/
theorem header_held_iff (heap : Heap) (chunks : List (List UInt8)) (d : Dispatch)
    (reached : (fresh heap).bind (onMessages · chunks) = some d) (buf : List UInt8) :
    ∃ d' made, onMessage d buf = some d' ∧ calls d'.log = calls d.log ++ made ∧
      (d.heap.Succeeds → made.map (fun call => (call.len,call.payload)) =
        (frames (d.residue ++ buf)).map Frame.delivery) ∧
      (List.Forall₂ ParseCall.HoldsHeader made (frames (d.residue ++ buf)) ↔ ¬ HeaderMoves d buf) := by
  obtain ⟨start,made,received⟩ := Option.bind_eq_some_iff.mp reached
  have sound := onMessages_sound (fresh_sound made) chunks received
  obtain ⟨d',calls_made,done,_,called,by_case⟩ := onMessage_calls sound buf
  refine ⟨d',calls_made,done,called,fun succeeds => ?_,by_case.holdsHeader sound⟩
  obtain ⟨d'',done',parses⟩ := onMessage_spec ⟨sound.valid,succeeds,sound.incomplete⟩ buf
  cases done.symm.trans done'
  have delivered := parses.logged.delivered
  rw [deliveries_calls,deliveries_calls,called,List.map_append] at delivered
  exact List.append_cancel_left delivered

/-- A packet cut inside its header, then inside its payload. -/
theorem header_held_three : ∃ d d' made,
    (fresh plenty).bind (onMessages · [[0],[3,0,0,0,0,0,0,65]]) = some d ∧
      onMessage d [66,67] = some d' ∧ calls d'.log = calls d.log ++ made ∧
      (d.heap.Succeeds → made.map (fun call => (call.len,call.payload)) =
        (frames (d.residue ++ [66,67])).map Frame.delivery) ∧
      (List.Forall₂ ParseCall.HoldsHeader made (frames (d.residue ++ [66,67])) ↔ ¬ HeaderMoves d [66,67]) := by
  obtain ⟨d,received,_⟩ := fresh_onMessages plenty_succeeds [[0],[3,0,0,0,0,0,0,65]]
  obtain ⟨d',made,held⟩ := header_held_iff plenty _ d received [66,67]
  exact ⟨d,d',made,received,held⟩

/-- A packet of 1032 bytes does not fit the 1024 that vecbuf starts with: when it is
filled up, the block moves and the header argument points to freed memory. -/
theorem header_freed : ∃ d d' made,
    (fresh plenty).bind (onMessages · [[4,0,0,0,0,0,0,0,7]]) = some d ∧
      onMessage d (List.replicate 1023 0) = some d' ∧ calls d'.log = calls d.log ++ made ∧
      ¬ List.Forall₂ ParseCall.HoldsHeader made (frames (d.residue ++ List.replicate 1023 0)) := by
  have state : ((fresh plenty).bind (onMessages · [[4,0,0,0,0,0,0,0,7]])).map (fun d =>
      (d.residue,d.vecbuf.cap,d.vecbuf.base_ptr.map fun b => (b.addr,d.heap.landing b))) =
      some ([4,0,0,0,0,0,0,0,7],1024,some (0,1)) := by decide +kernel
  obtain ⟨d,reached,held⟩ := Option.map_eq_some_iff.mp state
  simp only [Prod.mk.injEq] at held
  obtain ⟨residue_eq,cap,block⟩ := held
  obtain ⟨old,base,addresses⟩ := Option.map_eq_some_iff.mp block
  obtain ⟨start,made,received⟩ := Option.bind_eq_some_iff.mp reached
  have sound := onMessages_sound (fresh_sound made) _ received
  obtain ⟨d',calls_made,done,_,called,by_case⟩ := onMessage_calls sound (List.replicate 1023 0)
  refine ⟨d,d',calls_made,reached,done,called,fun holds => (by_case.holdsHeader sound).mp holds ⟨?_,?_,?_,old,base,?_⟩⟩
  · rw [← sound.residue_length,residue_eq]
    decide
  · rw [residue_eq]
    decide +kernel
  · rw [residue_eq,cap]
    decide
  · simp only [Prod.mk.injEq] at addresses
    rw [addresses.1,addresses.2]
    decide

end Dispatch
end UvRpc
