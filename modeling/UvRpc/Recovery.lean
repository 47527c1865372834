import UvRpc.Framing

/-! Case 1) of onMessage, which the assertion rules out: a residue that already holds
complete packets is copied aside, parsed by an inner call from an empty vecbuf, and the
chunk by a second one. Together they are the one-pass parse. -/
namespace UvRpc.Dispatch

theorem onMessageWith_twice {d : Dispatch} (ready : Ready d) (first second : List UInt8)
    (self : Dispatch → List UInt8 → Option Dispatch) :
    ∃ d', (onMessageWith self d first).bind (fun d => onMessageWith self d second) = some d' ∧
      Parses d.log d' (d.residue ++ first ++ second) := by
  obtain ⟨d₁,received₁,parses₁⟩ := onMessageWith_spec ready first self
  obtain ⟨d₂,received₂,parses₂⟩ := onMessageWith_spec parses₁.ready second self
  have whole := packetCutter.parse_append (d.residue ++ first) second
  refine ⟨d₂,by rw [received₁]; exact received₂,parses₂.ready,?_,?_⟩
  · rw [parses₂.residue,parses₁.residue,unparsed,unparsed,unparsed,whole]
  · have logged := parses₁.logged.trans parses₂.logged
    rw [parses₁.residue] at logged
    rw [frames,whole]
    exact logged

theorem copyAside {v : CharVector} {h : Heap} (valid : v.Valid) (object : v.cap < 2 ^ 63)
    (succeeds : h.Succeeds) : ∃ tmp copied, CharVector.ofSize h v.cap = some tmp ∧
      v.copyTo tmp.heap tmp.vec = some copied ∧ CharVector.Holds copied v.contents := by
  have size := valid.size_le
  obtain ⟨tmp,made,_,heap,grown⟩ := CharVector.reserve_spec (n := v.cap) CharVector.null_valid succeeds
    (by unfold CharVector.growable; omega)
  obtain ⟨copied,done,holds⟩ := CharVector.copyTo_spec valid grown.valid heap
    (by unfold CharVector.growable; omega)
  exact ⟨tmp,copied,made,done,holds⟩

/-- For every residue that holds complete packets, and no object reaches 2^63 bytes: the
branch ends, delivers the packets of residue and chunk once each and in order, and
leaves the unparsed rest. -/
theorem recovery (d : Dispatch) (valid : d.vecbuf.Valid) (object : d.vecbuf.cap < 2 ^ 63)
    (succeeds : d.heap.Succeeds) (complete : Complete d.residue) (buf : List UInt8) :
    ∃ d', onMessage d buf = some d' ∧
      deliveries d'.log = deliveries d.log ++ (frames (d.residue ++ buf)).map Frame.delivery ∧
      d'.residue = unparsed (d.residue ++ buf) ∧ Ready d' := by
  obtain ⟨whole,packet⟩ := complete
  have size : d.residue.length = d.vecbuf.len := valid.contents_length
  have room := valid.size_le
  have block := valid.block
  have eight : DataHeader.size = 8 := rfl
  rw [size] at whole packet
  have same_len : lenOf d.vecbuf.bytes = lenOf d.residue :=
    congrArg DataHeader.getLen (DataHeader.ofBytes_take whole (by omega)).symm
  obtain ⟨tmp,copied,made,aside,holds⟩ := copyAside valid object succeeds
  obtain ⟨start,start_eq⟩ : ∃ start : Dispatch, start = ⟨d.vecbuf.clear,copied.heap,d.log ++
    [.read 2 d.vecbuf.len,.check (d.vecbuf.len < DataHeader.size + lenOf d.residue)]⟩ := ⟨_,rfl⟩
  have cleared : start.residue = [] := by rw [start_eq]; exact CharVector.clear_contents d.vecbuf
  have branch : onMessage d buf = (onMessageDepth 1 start copied.vec.contents).bind
      fun d => onMessageDepth 1 d buf := by
    have positive : d.vecbuf.len > 0 := by omega
    simp only [onMessage,onMessageDepth,onMessageWith,positive,if_true,ge_iff_le,whole,same_len,packet,
      note_vecbuf,note_heap,made,aside,Option.bind_some]
    rw [start_eq]
    rfl
  have ready : Ready start := by
    refine ⟨by rw [start_eq]; exact valid.clear,by rw [start_eq]; exact holds.heap,?_⟩
    rw [cleared]
    simp [Complete,DataHeader.size]
  obtain ⟨d',done,parses⟩ := onMessageWith_twice ready copied.vec.contents buf (onMessageDepth 0)
  have stream : start.residue ++ copied.vec.contents ++ buf = d.residue ++ buf := by
    rw [cleared,List.nil_append,holds.contents]
    rfl
  have silent : deliveries start.log = deliveries d.log := by
    rw [start_eq,deliveries_append]
    simp [deliveries]
  rw [stream] at parses
  refine ⟨d',by rw [branch]; exact done,?_,parses.residue,parses.ready⟩
  rw [parses.logged.delivered,silent]

theorem recovery_two : ∃ d',
    onMessage ⟨⟨some ⟨0,[0,1,0,0,0,0,0,0,7,0,0,0,0,0,0,0,0,0]⟩,18,18⟩,plenty,[]⟩ [2,0,0,0,0,0,0,8,9] = some d' ∧
      deliveries d'.log = [] ++ [(1,[7]),(0,[]),(2,[8,9])] ∧ d'.residue = [] ∧ Ready d' :=
  recovery ⟨⟨some ⟨0,[0,1,0,0,0,0,0,0,7,0,0,0,0,0,0,0,0,0]⟩,18,18⟩,plenty,[]⟩ ⟨by decide,rfl⟩ (by decide)
    plenty_succeeds (by decide) [2,0,0,0,0,0,0,8,9]

end UvRpc.Dispatch
