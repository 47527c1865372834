import UvRpc.Framing

/-! Memory safety of the receive path. Whatever the chunks contain, no assertion fails,
no subtraction wraps, nothing is read outside its buffer, and vecbuf stays within one
packet: its capacity only doubles, from 1024 bytes to 128 KB at most. -/
namespace UvRpc.Dispatch

structure Bounded (d : Dispatch) : Prop where
  ready : Ready d
  capacity : d.vecbuf.cap ∣ 131072

def CopyKeeps (P : Nat → Prop) : Prop :=
  ∀ {d d' : Dispatch} {buf : List UInt8} {len : Nat}, P d.vecbuf.cap → d.vecbuf.len + len ≤ 131072 →
    d.copyToVec buf len = some d' → P d'.vecbuf.cap

theorem copyToVec_divides : CopyKeeps (· ∣ 131072) := by
  intro d d' buf len divides small copied
  obtain ⟨r,appended,rfl⟩ := Option.map_eq_some_iff.mp copied
  have taken : (buf.take len).length ≤ len := List.length_take_le len buf
  exact CharVector.append_divides (by omega) divides appended

variable {P : Nat → Prop}

theorem doMessageInNewBuf_capacity (keeps : CopyKeeps P) {d d' : Dispatch} {buf : List UInt8}
    (holds : P d.vecbuf.cap) (empty : d.vecbuf.len = 0)
    (done : d.doMessageInNewBuf buf buf.length = some d') : P d'.vecbuf.cap := by
  rcases doMessageInNewBuf_cases d buf with ⟨events,_,⟨_,all⟩ | ⟨rest,left,le,taken,kept⟩⟩
  · rw [all] at done
    cases done
    exact holds
  · rw [kept] at done
    have small := unparsed_length le taken
    apply keeps (d := d.note events) holds _ done
    rw [note_vecbuf,empty]
    omega

theorem onMessage_capacity (keeps : CopyKeeps P) {d d' : Dispatch} {buf : List UInt8} (sound : Sound d)
    (holds : P d.vecbuf.cap) (received : onMessage d buf = some d') : P d'.vecbuf.cap := by
  have path := onMessage_path sound buf (onMessageDepth 1)
  change Path d buf (onMessage d buf) at path
  have eight : DataHeader.size = 8 := rfl
  generalize onMessage d buf = result at path received
  cases path with
  | new empty => exact doMessageInNewBuf_capacity keeps holds empty received
  | keep quiet incomplete =>
    have small := incomplete_length incomplete
    rw [List.length_append,sound.residue_length] at small
    apply keeps (d := d.note _) holds _ received
    rw [note_vecbuf]
    omega
  | @fill events need quiet whole fits filled =>
    obtain ⟨d₁,copied,done⟩ := Option.bind_eq_some_iff.mp received
    have small := lenOf_bound d.residue
    have grown : P d₁.vecbuf.cap := by
      apply keeps (d := d.note events) holds _ copied
      rw [note_vecbuf,filled]
      omega
    exact doMessageInNewBuf_capacity (d := d₁.parseResidue _ _ _ _) keeps grown rfl done
  | @tmp events need quiet short fits filled complete =>
    exact doMessageInNewBuf_capacity (d := (d.note events).parseChunk _ _) keeps holds rfl received

theorem onMessage_receives_bounded : packetCutter.Receives onMessage Bounded residue
    (fun d d' packets => Logged d.log d'.log packets) where
  silent d := Logged.refl d.log
  joins first second := first.trans second
  stuck bounded := cutFrame_none_iff.mpr bounded.ready.incomplete
  piece buf bounded := by
    obtain ⟨d',received,parses⟩ := onMessage_spec bounded.ready buf
    have capacity := onMessage_capacity (P := (· ∣ 131072)) copyToVec_divides bounded.ready.sound bounded.capacity received
    exact ⟨d',received,⟨parses.ready,capacity⟩,parses.residue,parses.logged⟩

theorem fresh_bounded {heap : Heap} (succeeds : heap.Succeeds) :
    ∃ d, fresh heap = some d ∧ Bounded d ∧ d.log = [] := by
  obtain ⟨d,made,ready,_,silent⟩ := fresh_ready succeeds
  obtain ⟨r,constructed,_,divides⟩ := CharVector.new_spec succeeds
  rw [fresh,constructed] at made
  cases made
  exact ⟨_,by rw [fresh,constructed]; rfl,⟨ready,divides⟩,silent⟩

/-- Chunks of any length and contents, hostile length fields included: every loop ends, each
assertion, subtraction and read made is safe, and vecbuf is left with at most 65542
bytes in at most 128 KB. -/
theorem receive_bounded (heap : Heap) (succeeds : heap.Succeeds) (chunks : List (List UInt8)) :
    ∃ d, (fresh heap).bind (onMessages · chunks) = some d ∧ (∀ e ∈ d.log, e.Safe) ∧
      d.vecbuf.Valid ∧ d.vecbuf.len ≤ 65542 ∧ d.vecbuf.cap ≤ 131072 := by
  obtain ⟨start,made,bounded,silent⟩ := fresh_bounded succeeds
  obtain ⟨d,received,⟨ready,capacity⟩,_,logged⟩ := onMessage_receives_bounded.pieces bounded chunks
  have small := incomplete_length ready.incomplete
  rw [ready.sound.residue_length] at small
  refine ⟨d,by rw [made]; exact received,?_,ready.valid,small,Nat.le_of_dvd (by decide) capacity⟩
  apply logged.safe
  simp [silent]

/-- A header that announces 65535 bytes, cut in two, and then too few of them. -/
theorem receive_bounded_hostile : ∃ d,
    (fresh plenty).bind (onMessages · [[255,255,0],[0,0,0,0,0,1],[2]]) = some d ∧
      (∀ e ∈ d.log, e.Safe) ∧ d.vecbuf.Valid ∧ d.vecbuf.len ≤ 65542 ∧ d.vecbuf.cap ≤ 131072 :=
  receive_bounded plenty plenty_succeeds [[255,255,0],[0,0,0,0,0,1],[2]]

end UvRpc.Dispatch
