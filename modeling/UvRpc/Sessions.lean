import UvRpc.Framing
import UvRpc.TcpConnection

/-! A client connection over several sessions. vecbuf lives in the TcpConnection object
and neither connect nor onClose touches it, so what one session leaves unparsed stands
in front of the first bytes of the next. -/
namespace UvRpc

/-- A connection with the process state its dispatcher works on. -/
structure Client where
  conn : TcpConnection
  heap : Heap
  log : List Event

namespace Client

def fresh (heap : Heap) : Option Client :=
  (Dispatch.fresh heap).map fun d => ⟨.make d.vecbuf,d.heap,d.log⟩

def dispatch (c : Client) : Dispatch := ⟨c.conn.buf,c.heap,c.log⟩

def onMessage (c : Client) (buf : List UInt8) : Option Client :=
  (c.dispatch.onMessage buf).map fun d => ⟨{c.conn with buf := d.vecbuf},d.heap,d.log⟩

/-- `onRead` with `nread` bytes in a buffer that is not null. -/
def onRead (c : Client) (chunk : List UInt8) : Option Client :=
  if 0 < chunk.length then c.onMessage chunk else some c

/-- The session after connect or reConnect: it is connected, reads its chunks, is closed
and gets its close callback. -/
def serve (c : Client) (chunks : List (List UInt8)) : Option Client :=
  (chunks.foldlM onRead {c with conn := c.conn.onConnect 0}).map fun c =>
    {c with conn := c.conn.close.runCloseCb}

structure Session where
  stream : List UInt8
  delivered : List (Nat × List UInt8)
  left : List UInt8
  deriving DecidableEq, Repr

def observe (c c' : Client) (chunks : List (List UInt8)) : Session :=
  ⟨chunks.flatten,(deliveries c'.log).drop (deliveries c.log).length,c'.conn.buf.contents⟩

def resume (c : Client) : List (List (List UInt8)) → Option (List Session)
  | [] => some []
  | chunks :: later =>
    (serve {c with conn := c.conn.reConnect} chunks).bind fun c' =>
      (resume c' later).map (observe c c' chunks :: ·)

/-- A run of a fresh client: connect, then a reConnect after each close callback. -/
def sessions (heap : Heap) : List (List (List UInt8)) → Option (List Session)
  | [] => some []
  | chunks :: later =>
    (fresh heap).bind fun c =>
      (serve {c with conn := c.conn.connect} chunks).bind fun c' =>
        (resume c' later).map (observe c c' chunks :: ·)

end Client

/-- The session delivered the packets of its own bytes, and if it received any, what it
leaves is the unparsed rest of its own bytes. -/
def Client.Session.Own (s : Client.Session) : Prop :=
  s.delivered = (frames s.stream).map Frame.delivery ∧ (s.stream ≠ [] → s.left = unparsed s.stream)

/-- A session that is followed by one in which a byte arrives ends on a packet border. -/
def Bordered : List (List UInt8) → Prop
  | [] => True
  | stream :: later => ((∃ s ∈ later, s ≠ []) → unparsed stream = []) ∧ Bordered later

namespace Client

theorem onRead_spec {c : Client} (ready : c.dispatch.Ready) (chunk : List UInt8) :
    ∃ c', c.onRead chunk = some c' ∧ Dispatch.Parses c.log c'.dispatch (c.conn.buf.contents ++ chunk) := by
  by_cases some_read : 0 < chunk.length
  · obtain ⟨d,received,parses⟩ := Dispatch.onMessage_spec ready chunk
    exact ⟨⟨{c.conn with buf := d.vecbuf},d.heap,d.log⟩,by
      simp only [onRead,if_pos some_read,onMessage,received,Option.map_some],parses⟩
  · have empty : chunk = [] := List.eq_nil_of_length_eq_zero (by omega)
    obtain ⟨none_cut,kept⟩ := frames_of_incomplete ready.incomplete
    refine ⟨c,by simp [onRead,empty],ready,?_,?_⟩
    · rw [empty,List.append_nil]; exact kept.symm
    · rw [empty,List.append_nil]
      change Dispatch.Logged c.log c.log (frames c.dispatch.residue)
      rw [none_cut]; exact Dispatch.Logged.refl _

theorem onRead_receives : packetCutter.Receives onRead (fun c => c.dispatch.Ready)
    (fun c => c.conn.buf.contents) (fun c c' packets => Dispatch.Logged c.log c'.log packets) where
  silent c := Dispatch.Logged.refl c.log
  joins first second := first.trans second
  stuck ready := cutFrame_none_iff.mpr ready.incomplete
  piece chunk ready := by
    obtain ⟨c',read,parses⟩ := onRead_spec ready chunk
    exact ⟨c',read,parses.ready,parses.residue,parses.logged⟩

theorem serve_spec {c : Client} (ready : c.dispatch.Ready) (chunks : List (List UInt8)) :
    ∃ c', c.serve chunks = some c' ∧
      Dispatch.Parses c.log c'.dispatch (c.conn.buf.contents ++ chunks.flatten) := by
  have same : ({c with conn := c.conn.onConnect 0} : Client).dispatch = c.dispatch := by
    simp [dispatch]
  obtain ⟨c',read,ready',kept',logged⟩ := onRead_receives.pieces
    (s := {c with conn := c.conn.onConnect 0}) (by rw [same]; exact ready) chunks
  have parses : Dispatch.Parses c.log c'.dispatch (c.conn.buf.contents ++ chunks.flatten) := by
    simp only [TcpConnection.onConnect_buf] at kept' logged
    exact ⟨ready',kept',logged⟩
  refine ⟨{c' with conn := c'.conn.close.runCloseCb},by simp only [serve,read,Option.map_some],?_⟩
  have kept : ({c' with conn := c'.conn.close.runCloseCb} : Client).dispatch = c'.dispatch := by
    simp [dispatch]
  rw [kept]
  exact parses

def carried (kept : List UInt8) : List (List UInt8) → List Session
  | [] => []
  | stream :: later =>
    ⟨stream,(frames (kept ++ stream)).map Frame.delivery,unparsed (kept ++ stream)⟩ ::
      carried (unparsed (kept ++ stream)) later

theorem observe_spec {c c' : Client} {chunks : List (List UInt8)}
    (parses : Dispatch.Parses c.log c'.dispatch (c.conn.buf.contents ++ chunks.flatten)) :
    observe c c' chunks = ⟨chunks.flatten,
      (frames (c.conn.buf.contents ++ chunks.flatten)).map Frame.delivery,
      unparsed (c.conn.buf.contents ++ chunks.flatten)⟩ := by
  have residue : c'.conn.buf.contents = _ := parses.residue
  have log : deliveries c'.log = _ := parses.logged.delivered
  simp only [observe,residue,log,List.drop_left]

theorem resume_spec {c : Client} (ready : c.dispatch.Ready) (later : List (List (List UInt8))) :
    c.resume later = some (carried c.conn.buf.contents (later.map List.flatten)) := by
  induction later generalizing c with
  | nil => rfl
  | cons chunks later ih =>
    obtain ⟨c',served,parses⟩ := serve_spec (c := {c with conn := c.conn.reConnect}) ready chunks
    have seen := observe_spec (c := c) parses
    have residue : c'.conn.buf.contents = _ := parses.residue
    simp only [resume,served,Option.bind_some,ih parses.ready,Option.map_some,seen,residue]
    rfl

theorem sessions_spec {heap : Heap} (succeeds : heap.Succeeds) (runs : List (List (List UInt8))) :
    sessions heap runs = some (carried [] (runs.map List.flatten)) := by
  cases runs with
  | nil => rfl
  | cons chunks later =>
    obtain ⟨d,made,ready,empty,silent⟩ := Dispatch.fresh_ready succeeds
    have start : fresh heap = some ⟨.make d.vecbuf,d.heap,d.log⟩ := by simp [fresh,made]
    obtain ⟨c',served,parses⟩ := serve_spec
      (c := {(⟨.make d.vecbuf,d.heap,d.log⟩ : Client) with conn := (TcpConnection.make d.vecbuf).connect})
      ready chunks
    have none_held : d.vecbuf.contents = [] := empty
    have seen := observe_spec (c := ⟨.make d.vecbuf,d.heap,d.log⟩) parses
    have residue : c'.conn.buf.contents = _ := parses.residue
    simp only [sessions,start,Option.bind_some,served,resume_spec parses.ready,Option.map_some,seen,residue]
    simp [carried,TcpConnection.make,none_held]

theorem stream_length (s : List UInt8) :
    s.length = (((frames s).map Frame.delivery).map fun d => DataHeader.size + d.2.length).sum +
      (unparsed s).length := by
  have glued := congrArg List.length (frames_glue s)
  rw [List.length_append,List.length_flatten] at glued
  rw [← glued,List.map_map,List.map_map]
  congr 3
  funext f
  simp [Frame.delivery]

theorem front_empty {kept stream : List UInt8}
    (delivered : (frames (kept ++ stream)).map Frame.delivery = (frames stream).map Frame.delivery)
    (left : unparsed (kept ++ stream) = unparsed stream) : kept = [] := by
  have long := stream_length (kept ++ stream)
  have short := stream_length stream
  rw [delivered,left,← short,List.length_append] at long
  exact List.eq_nil_of_length_eq_zero (by omega)

theorem carried_own_iff_silent {kept : List UInt8} (incomplete : ¬ Complete kept) (some_kept : kept ≠ [])
    (streams : List (List UInt8)) :
    (∀ s ∈ carried kept streams, s.Own) ↔ ∀ stream ∈ streams, stream = [] := by
  induction streams with
  | nil => simp [carried]
  | cons stream later ih =>
    simp only [carried,List.forall_mem_cons]
    by_cases silent : stream = []
    · subst silent
      obtain ⟨none_cut,held⟩ := frames_of_incomplete incomplete
      have nothing := frames_of_incomplete (s := []) (by simp [Complete,DataHeader.size])
      simp only [List.append_nil,held,none_cut,ih,true_and]
      simp [Session.Own,nothing.1]
    · simp only [silent,false_and,iff_false,not_and]
      intro own
      exact absurd (front_empty own.1 (own.2 silent)) some_kept

theorem bordered_of_silent {streams : List (List UInt8)} (silent : ∀ s ∈ streams, s = []) :
    Bordered streams := by
  induction streams with
  | nil => trivial
  | cons stream later ih =>
    have rest := fun s hs => silent s (List.mem_cons_of_mem _ hs)
    exact ⟨fun ⟨s,hs,some_read⟩ => absurd (rest s hs) some_read,ih rest⟩

theorem carried_own_iff (streams : List (List UInt8)) :
    (∀ s ∈ carried [] streams, s.Own) ↔ Bordered streams := by
  induction streams with
  | nil => simp [carried,Bordered]
  | cons stream later ih =>
    have own : Session.Own ⟨stream,(frames stream).map Frame.delivery,unparsed stream⟩ :=
      ⟨rfl,fun _ => rfl⟩
    simp only [carried,List.nil_append,List.forall_mem_cons,own,true_and,Bordered]
    by_cases border : unparsed stream = []
    · simp [border,ih]
    · rw [carried_own_iff_silent (unparsed_incomplete stream) border]
      constructor
      · intro silent
        exact ⟨fun ⟨s,hs,some_read⟩ => absurd (silent s hs) some_read,bordered_of_silent silent⟩
      · rintro ⟨border',_⟩ s hs
        by_contra some_read
        exact border (border' ⟨s,hs,some_read⟩)

/-- The sessions of a client see only their own bytes exactly when every session that
is followed by one in which a byte arrives ends on a packet border. -/
theorem sessions_own_iff (heap : Heap) (succeeds : heap.Succeeds) (runs : List (List (List UInt8))) :
    ∃ seen, sessions heap runs = some seen ∧
      ((∀ s ∈ seen, s.Own) ↔ Bordered (runs.map List.flatten)) :=
  ⟨_,sessions_spec succeeds runs,carried_own_iff _⟩

theorem sessions_own_two : ∃ seen,
    sessions plenty [[[0],[0,0,0,0,0,0,0]],[[0,0,0,0,0,0,0,0]]] = some seen ∧ ∀ s ∈ seen, s.Own := by
  obtain ⟨seen,run,own⟩ := sessions_own_iff plenty plenty_succeeds
    [[[0],[0,0,0,0,0,0,0]],[[0,0,0,0,0,0,0,0]]]
  refine ⟨seen,run,own.mpr ⟨fun _ => ?_,fun _ => ?_,trivial⟩⟩ <;> decide

/-- One zero byte left by the first session turns the one byte packet of the second
into an empty packet and two bytes of residue. -/
theorem sessions_mixed : ¬ ∀ runs, ∃ seen, sessions plenty runs = some seen ∧ ∀ s ∈ seen, s.Own := by
  intro claimed
  obtain ⟨seen,run,own⟩ := claimed [[[0]],[[0,1,0,0,0,0,0,0,65]]]
  rw [sessions_spec plenty_succeeds] at run
  have second := own ⟨[0,1,0,0,0,0,0,0,65],[(0,[])],[0,65]⟩ (by
    rw [← Option.some.inj run]; decide)
  exact absurd second.1 (by decide)

end Client
end UvRpc
