import UvRpc.Framing

/-! The onMessageParse calls of one chunk, whatever the allocator answers. Only the call
for a packet that is completed in vecbuf depends on the answers. -/
namespace UvRpc.Dispatch

/-- What vecbuf becomes when `bytes` are copied to it: all of them are appended, or none
when the allocator refuses the room. -/
structure Copied (d : Dispatch) (vecbuf : CharVector) (bytes : List UInt8) : Prop where
  valid : vecbuf.Valid
  outcome : ¬ d.vecbuf.Refused d.heap (d.vecbuf.len + bytes.length) ∧ vecbuf.contents = d.residue ++ bytes ∨
    d.vecbuf.Refused d.heap (d.vecbuf.len + bytes.length) ∧ vecbuf = d.vecbuf
  moved : ∀ old, d.vecbuf.base_ptr = some old → vecbuf.base_ptr.map Block.addr =
    some (if d.vecbuf.cap < max 64 (d.vecbuf.len + bytes.length) then d.heap.landing old else old.addr)

theorem copyToVec_cases {d : Dispatch} {buf : List UInt8} {len : Nat} (valid : d.vecbuf.Valid)
    (inside : len ≤ buf.length) (small : d.vecbuf.len + len ≤ CharVector.growable) :
    ∃ d', d.copyToVec buf len = some d' ∧ Copied d d'.vecbuf (buf.take len) ∧ calls d'.log = calls d.log := by
  have taken : (buf.take len).length = len := List.length_take_of_le inside
  have bounded : d.vecbuf.len + (buf.take len).length ≤ CharVector.growable := by omega
  obtain ⟨r,appended,outcome,_⟩ := CharVector.append_outcome (h := d.heap) valid (buf.take len) bounded
  obtain ⟨refused,moved⟩ := CharVector.append_allocates bounded appended
  refine ⟨⟨r.vec,r.heap,d.log ++ [.read len buf.length]⟩,by rw [copyToVec,appended]; rfl,
    ⟨outcome.valid,?_,moved⟩,?_⟩
  · rw [← refused]
    cases ok : r.ok with
    | true => exact .inl ⟨Bool.true_eq_false_eq_False,(outcome.done ok).2⟩
    | false => exact .inr ⟨rfl,outcome.failed ok⟩
  · rw [calls_append]
    exact List.append_nil _

theorem Copied.sound {d d' : Dispatch} {bytes : List UInt8} (copied : Copied d d'.vecbuf bytes)
    (before : ¬ Complete d.residue) (after : ¬ Complete (d.residue ++ bytes)) : Sound d' := by
  refine ⟨copied.valid,?_⟩
  rcases copied.outcome with ⟨_,appended⟩ | ⟨_,same⟩
  · rw [residue,appended]
    exact after
  · rw [residue,same]
    exact before

structure Direct (call : ParseCall) (f : Frame) : Prop where
  header : call.header = .received f.header.toBytes ∨ call.header = .tmpHeader f.header
  len : call.len = f.header.getLen
  payload : call.payload = f.payload

theorem Received.direct {call : ParseCall} {f : Frame} (received : Received call f) : Direct call f :=
  ⟨.inl received.header,received.len,received.payload⟩

theorem received_direct {made : List ParseCall} {packets : List Frame}
    (received : List.Forall₂ Received made packets) : List.Forall₂ Direct made packets :=
  received.imp fun _ _ => Received.direct

/-- The chunk completes a packet whose header vecbuf already holds. -/
def Fills (d : Dispatch) (buf : List UInt8) : Prop :=
  DataHeader.size ≤ d.vecbuf.len ∧ Complete (d.residue ++ buf)

/-- The calls that a chunk leads to. The one of case 2) has the header argument taken
before the missing bytes were copied, and the payload found there afterwards. -/
inductive Made (d : Dispatch) (buf : List UInt8) : List ParseCall → Prop where
  | direct {made : List ParseCall} (elsewhere : ¬ Fills d buf)
      (direct : List.Forall₂ Direct made (frames (d.residue ++ buf))) : Made d buf made
  | fill {made : List ParseCall} {need : Nat} {vecbuf : CharVector} (whole : DataHeader.size ≤ d.vecbuf.len)
      (fits : need ≤ buf.length) (filled : d.vecbuf.len + need = DataHeader.size + lenOf d.residue)
      (copied : Copied d vecbuf (buf.take need))
      (direct : List.Forall₂ Direct made
        (frames ((d.residue ++ buf).drop (DataHeader.size + lenOf (d.residue ++ buf))))) :
      Made d buf (⟨.residue (d.vecbuf.base_ptr.map Block.addr),
        (vecbuf.bytes.drop DataHeader.size).take (lenOf d.residue),lenOf d.residue,vecbuf⟩ :: made)

theorem doMessageInNewBuf_calls {d : Dispatch} (buf : List UInt8) (valid : d.vecbuf.Valid)
    (empty : d.vecbuf.len = 0) : ∃ d' made, d.doMessageInNewBuf buf buf.length = some d' ∧ Sound d' ∧
      calls d'.log = calls d.log ++ made ∧ List.Forall₂ Received made (frames buf) := by
  have none_held : d.residue = [] := by simp [residue,CharVector.contents,empty]
  have nothing : ¬ Complete d.residue := by rw [none_held]; simp [Complete,DataHeader.size]
  rcases doMessageInNewBuf_cases d buf with ⟨events,cuts,⟨_,done⟩ | ⟨rest,left,le,taken,done⟩⟩
  · exact ⟨_,calls events,done,⟨valid,nothing⟩,calls_append _ _,cuts.calls⟩
  · have small := unparsed_length le taken
    obtain ⟨d',copied,outcome,silent⟩ := copyToVec_cases (d := d.note events) valid le
      (by rw [note_vecbuf,empty,CharVector.growable]; omega)
    refine ⟨d',calls events,done.trans copied,outcome.sound nothing ?_,?_,cuts.calls⟩
    · rw [note_residue,none_held,List.nil_append,taken]
      exact unparsed_incomplete buf
    · rw [silent,note_log,calls_append]

theorem parseResidue_calls (d : Dispatch) (addr : Option Nat) (dataLen len need : Nat) :
    calls (d.parseResidue addr dataLen len need).log = calls d.log ++
      [⟨.residue addr,(d.vecbuf.bytes.drop DataHeader.size).take dataLen,dataLen,d.vecbuf⟩] := by
  rw [parseResidue,note_log,calls_append]
  exact (List.append_nil _).trans (calls_append _ _)

theorem parseChunk_calls (d : Dispatch) (tmpHeader : DataHeader) (body : List UInt8) :
    calls (d.parseChunk tmpHeader body).log = calls d.log ++
      [⟨.tmpHeader tmpHeader,body.take tmpHeader.getLen,tmpHeader.getLen,d.vecbuf⟩] := by
  rw [parseChunk,note_log,calls_append]
  exact (List.append_nil _).trans (calls_append _ _)

theorem onMessage_calls {d : Dispatch} (sound : Sound d) (buf : List UInt8) :
    ∃ d' made, onMessage d buf = some d' ∧ Sound d' ∧ calls d'.log = calls d.log ++ made ∧
      Made d buf made := by
  have path := onMessage_path sound buf (onMessageDepth 1)
  change Path d buf (onMessage d buf) at path
  generalize onMessage d buf = result at path
  cases path with
  | new empty =>
    have none_held : d.residue = [] := by simp [residue,CharVector.contents,empty]
    obtain ⟨d',made,done,sound',called,received⟩ := doMessageInNewBuf_calls buf sound.valid empty
    refine ⟨d',made,done,sound',called,.direct (fun fills => ?_) ?_⟩
    · have := fills.1
      rw [empty] at this
      exact absurd this (by decide)
    · rw [none_held]
      exact received_direct received
  | @keep events quiet incomplete =>
    have small := incomplete_length incomplete
    rw [List.length_append,sound.residue_length] at small
    obtain ⟨d',copied,outcome,silent⟩ := copyToVec_cases (d := d.note events) sound.valid
      (Nat.le_refl buf.length) (by rw [note_vecbuf]; unfold CharVector.growable; omega)
    rw [List.take_length] at outcome
    refine ⟨d',[],copied,outcome.sound sound.incomplete incomplete,?_,.direct (fun fills => incomplete fills.2) ?_⟩
    · rw [silent,note_log,calls_append,List.forall₂_nil_right_iff.mp quiet.calls]
    · rw [(frames_of_incomplete incomplete).1]
      exact .nil
  | @fill events need quiet whole fits filled =>
    obtain ⟨_,_,_,rest⟩ := sound.fill_stream whole fits filled
    have bound := lenOf_bound d.residue
    obtain ⟨d₁,copied,outcome,silent⟩ := copyToVec_cases (d := d.note events) sound.valid
      fits (by rw [note_vecbuf,filled]; unfold CharVector.growable DataHeader.size; omega)
    obtain ⟨d',made,done,sound',called,received⟩ := doMessageInNewBuf_calls
      (d := d₁.parseResidue (d.vecbuf.base_ptr.map Block.addr) (lenOf d.residue) buf.length need)
      (buf.drop need) outcome.valid.clear rfl
    rw [rest] at received
    rw [parseResidue_calls,silent,note_log,calls_append,List.forall₂_nil_right_iff.mp quiet.calls,
      List.append_nil,List.append_assoc] at called
    exact ⟨d',_,by rw [copied]; exact done,sound',called,
      .fill whole fits filled ⟨outcome.valid,outcome.outcome,outcome.moved⟩ (received_direct received)⟩
  | @tmp events need quiet short fits filled complete =>
    have body := sound.tmp_stream buf filled
    obtain ⟨d',made,done,sound',called,received⟩ := doMessageInNewBuf_calls
      (d := (d.note events).parseChunk (DataHeader.ofBytes (d.residue ++ buf)) (buf.drop need))
      ((buf.drop need).drop (lenOf (d.residue ++ buf))) sound.valid.clear rfl
    rw [body,List.drop_drop] at received
    rw [parseChunk_calls,note_log,calls_append,List.forall₂_nil_right_iff.mp quiet.calls,
      List.append_nil,List.append_assoc] at called
    refine ⟨d',_,done,sound',called,.direct (fun fills => absurd fills.1 (Nat.not_le.mpr short)) ?_⟩
    rw [(frames_of_complete complete).1,List.singleton_append,body]
    exact .cons ⟨.inr rfl,rfl,rfl⟩ (received_direct received)

theorem onMessages_sound {d d' : Dispatch} (sound : Sound d) (chunks : List (List UInt8))
    (received : onMessages d chunks = some d') : Sound d' := by
  induction chunks generalizing d with
  | nil => cases received; exact sound
  | cons chunk rest ih =>
    obtain ⟨d₁,_,first,sound₁,_⟩ := onMessage_calls sound chunk
    rw [onMessages,List.foldlM_cons,first] at received
    exact ih sound₁ received

theorem fresh_sound {heap : Heap} {d : Dispatch} (made : fresh heap = some d) : Sound d := by
  obtain ⟨sz,asked,_,outcome⟩ := CharVector.reserve_cases (h := heap) (n := 1024)
    CharVector.null_valid (by decide)
  obtain ⟨r,constructed,rfl⟩ := Option.map_eq_some_iff.mp made
  cases asked.symm.trans constructed
  have nothing : ¬ Complete CharVector.null.contents := by decide
  rcases outcome with ⟨_,grown⟩ | ⟨_,same⟩
  · refine ⟨grown.valid,?_⟩
    rw [residue,grown.contents]
    exact nothing
  · rw [same]
    exact ⟨CharVector.null_valid,nothing⟩

end UvRpc.Dispatch
