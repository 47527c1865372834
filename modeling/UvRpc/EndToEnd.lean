import UvRpc.Wire

/-! What the peers of a connection read of the messages that were sent on it. -/

namespace UvRpc.Wire

open WritePath

variable {T C : Type*} [DecidableEq T] [DecidableEq C] {loopOf : C → T} {c : C} {w : Wire T C}

/-- Whatever a peer has got of `bytes` so far and in whatever chunks, it has read the texts
whose packets are complete in it, each with a zero byte, and nothing else. -/
def Reads (peer : Heap) (bytes : List UInt8) (texts : List (List UInt8)) : Prop :=
  ∀ chunks : List (List UInt8), chunks.flatten <+: bytes →
    ∃ d front, (Dispatch.fresh peer).bind (Dispatch.onMessages · chunks) = some d ∧ front <+: texts ∧
      deliveries d.log = front.map (fun t => (t.length + 1,t ++ [0])) ∧
      ∀ part, part <+: texts → stream part <+: chunks.flatten → part <+: front

theorem stream_reads {peer : Heap} (succeeds : peer.Succeeds) {bytes : List UInt8} {texts : List (List UInt8)}
    (short : ∀ t ∈ texts, t.length ≤ 65534) (begins : bytes <+: stream texts) : Reads peer bytes texts := by
  intro chunks got
  obtain ⟨ys,whole⟩ := got.trans begins
  obtain ⟨d,received,_,delivered,_⟩ := Dispatch.fresh_onMessages succeeds chunks
  obtain ⟨front,back,rfl,cut,_⟩ := packetCutter.parse_begun PongEncode.packet
    (fun t => ⟨PongEncode.header t,t ++ [0]⟩) texts (fun t member rest => PongEncode.cut_packet (short t member) rest) whole
  have announced : (front.map fun t => (⟨PongEncode.header t,t ++ [0]⟩ : Frame)).map Frame.delivery =
      front.map fun t => (t.length + 1,t ++ [0]) := by
    rw [List.map_map]
    refine List.map_congr_left fun t member => ?_
    have small := short t (List.mem_append_left _ member)
    rw [Function.comp_apply,Frame.delivery,PongEncode.header_len,Nat.mod_eq_of_lt (by omega)]
  refine ⟨d,front,received,List.prefix_append _ _,by rw [delivered,frames,cut,announced],fun part leads lies => ?_⟩
  -- the packets of part are cut off first, so that there are no fewer in front
  obtain ⟨rest,split⟩ := lies
  have parsed := packetCutter.parse_written PongEncode.packet (fun t => ⟨PongEncode.header t,t ++ [0]⟩) part
    (fun t member rest => PongEncode.cut_packet (short t (leads.subset member)) rest) rest
  rw [← stream,split] at parsed
  have counted := congrArg List.length (cut.symm.trans (congrArg Prod.fst parsed))
  simp only [List.length_map,List.length_append] at counted
  exact List.prefix_of_prefix_length_le leads (List.prefix_append _ _) (by omega)

/-- No request of `c` waits to be submitted. -/
structure Submitted (loopOf : C → T) (s : WritePath T C) (c : C) : Prop where
  alive : (s.conns c).alive
  sendQue : (s.conns c).tcp.sendQue = []
  batch : (s.threads (loopOf c)).doing.tempQue = []

/-- Each peer of `c` reads the texts of its group, one after the other, as far as they have
arrived. The groups have only what was pushed on `c`, and what afterWrite was told to be
written has arrived. While nothing has failed on `c`, the groups are the beginning of what
was pushed, in order and each once; they are all of it when nothing waits, and have arrived
when nothing is in flight. -/
structure Delivered (loopOf : C → T) (peer : Heap) (w : Wire T C) (c : C) (groups : List (List (List UInt8))) : Prop where
  tame : w.path.wild = false
  reads : List.Forall₂ (fun k texts => Reads peer k.arrived texts) (w.sockets c) groups
  known : ∀ text ∈ groups.flatten, text ∈ w.tasks c
  written : ∀ x ∈ w.path.history.filterMap (Event.writtenWrite c), ∃ p ∈ (w.sockets c).zip groups, ∃ front,
    front ++ [textAt w.texts x.ticket] <+: p.2 ∧ stream (front ++ [textAt w.texts x.ticket]) <+: p.1.arrived
  inTurn : w.path.history.any (Event.fails c) = false → groups.flatten <+: w.tasks c
  all : w.path.history.any (Event.fails c) = false → Submitted loopOf w.path c → groups.flatten = w.tasks c
  arrived : w.path.history.any (Event.fails c) = false → (w.path.conns c).inFlight = [] →
    List.Forall₂ (fun k texts => k.arrived = stream texts) (w.sockets c) groups

theorem exists_parts {α β : Type*} (f : α → β) {parts : List (List β)} {xs : List α} (whole : parts.flatten = xs.map f) :
    ∃ groups : List (List α), parts = groups.map (List.map f) ∧ groups.flatten = xs := by
  induction parts generalizing xs with
  | nil => exact ⟨[],rfl,(List.map_eq_nil_iff.mp whole.symm).symm⟩
  | cons part rest ih =>
    obtain ⟨front,back,rfl,rfl,later⟩ := List.map_eq_append_iff.mp whole.symm
    obtain ⟨groups,rfl,rfl⟩ := ih later.symm
    exact ⟨front :: groups,rfl,rfl⟩

def load (texts : List (C × List UInt8)) (x : Write) : Nat × List UInt8 :=
  (x.submission,PongEncode.packet (textAt texts x.ticket))

/-- The writes of each socket of `c`. -/
structure Grouped (w : Wire T C) (c : C) (groups : List (List Write)) : Prop where
  sockets : (w.sockets c).map Socket.writes = groups.map (List.map (load w.texts))
  whole : groups.flatten = w.path.history.filterMap (Event.submittedWrite c)
  numbered : groups.flatten.Pairwise (·.submission < ·.submission)

variable {groups : List (List Write)}

omit [DecidableEq T] in
theorem Sent.grouped (sent : w.Sent) (c : C) (numbered :
    (w.path.history.filterMap (Event.submittedWrite c)).Pairwise (·.submission < ·.submission)) :
    ∃ groups, Grouped w c groups := by
  obtain ⟨groups,sockets,whole⟩ := exists_parts (load w.texts) (sent.writes c)
  exact ⟨groups,sockets,whole,by rwa [whole]⟩

omit [DecidableEq C] in
theorem bytesOf_load (texts : List (C × List UInt8)) (group : List Write) :
    Socket.bytesOf (group.map (load texts)) = stream (group.map fun x => textAt texts x.ticket) := by
  simp [Socket.bytesOf,stream,Function.comp_def,load]

section
omit [DecidableEq T]

theorem Grouped.paired (grouped : Grouped w c groups) :
    List.Forall₂ (fun k group => k.writes = group.map (load w.texts)) (w.sockets c) groups := by
  have same : List.Forall₂ (· = ·) ((w.sockets c).map Socket.writes) (groups.map (List.map (load w.texts))) := by
    rw [List.forall₂_eq_eq_eq]
    exact grouped.sockets
  rwa [List.forall₂_map_left_iff,List.forall₂_map_right_iff] at same

theorem Grouped.unique (grouped : Grouped w c groups) {x y : Write} (hx : x ∈ groups.flatten) (hy : y ∈ groups.flatten)
    (same : x.submission = y.submission) : x = y :=
  List.inj_on_of_nodup_map (List.pairwise_map.mpr (grouped.numbered.imp Nat.ne_of_lt)) hx hy same

theorem Grouped.begins (grouped : Grouped w c groups) {p : Socket × List Write} (member : p ∈ (w.sockets c).zip groups) :
    p.1.arrived <+: stream (p.2.map fun x => textAt w.texts x.ticket) := by
  have same : p.1.writes = p.2.map (load w.texts) := List.forall₂_zip grouped.paired member
  rw [← bytesOf_load,← same]
  exact List.take_prefix _ _

/-- A finished write lies in the group of its socket, and has arrived with all before it. -/
theorem Grouped.finished (grouped : Grouped w c groups) {y : Write} (submitted : y ∈ groups.flatten) {k : Socket}
    (there : k ∈ w.sockets c) (done : k.done y.submission) :
    ∃ p ∈ (w.sockets c).zip groups, ∃ front back, p.2 = front ++ y :: back ∧
      stream ((front ++ [y]).map fun x => textAt w.texts x.ticket) <+: p.1.arrived := by
  rw [← List.map_fst_zip grouped.paired.length_eq.le] at there
  obtain ⟨p,member,rfl⟩ := List.mem_map.mp there
  have same : p.1.writes = p.2.map (load w.texts) := List.forall₂_zip grouped.paired member
  obtain ⟨before,bytes,after,split,arrived⟩ := Socket.done_arrived done
  obtain ⟨front,rest,whole,rfl,lies⟩ := List.map_eq_append_iff.mp (same.symm.trans split)
  obtain ⟨x,back,rfl,here,rfl⟩ := List.map_eq_cons_iff.mp lies
  have grouped_x : x ∈ groups.flatten :=
    List.mem_flatten.mpr ⟨p.2,(List.of_mem_zip member).2,by rw [whole]; simp⟩
  obtain rfl : x = y := grouped.unique grouped_x submitted (congrArg Prod.fst here)
  refine ⟨p,member,front,back,whole,?_⟩
  rwa [← bytesOf_load,List.map_append,List.map_singleton,here]

end

theorem same_part {α β : Type*} {parts : List (β × List α)} (nodup : (parts.flatMap Prod.snd).Nodup) {p q : β × List α}
    (hp : p ∈ parts) (hq : q ∈ parts) {a : α} (in_p : a ∈ p.2) (in_q : a ∈ q.2) : p = q := by
  induction parts with
  | nil => cases hp
  | cons part rest ih =>
    rw [List.flatMap_cons,List.nodup_append] at nodup
    have apart {p : β × List α} (later : p ∈ rest) (here : a ∈ part.2) (there : a ∈ p.2) : False :=
      nodup.2.2 a here a (List.mem_flatMap.mpr ⟨p,later,there⟩) rfl
    rcases List.mem_cons.mp hp with rfl | old_p <;> rcases List.mem_cons.mp hq with rfl | old_q
    · rfl
    · exact (apart old_q in_p in_q).elim
    · exact (apart old_p in_q in_p).elim
    · exact ih nodup.2.1 old_p old_q

omit [DecidableEq T] in
theorem Grouped.arrived (grouped : Grouped w c groups)
    (finished : ∀ y ∈ groups.flatten, ∃ k ∈ w.sockets c, k.done y.submission) :
    List.Forall₂ (fun k group => k.arrived = stream (group.map fun x => textAt w.texts x.ticket)) (w.sockets c) groups := by
  have lengths := grouped.paired.length_eq
  have nodup : groups.flatten.Nodup := grouped.numbered.imp fun less same => by rw [same] at less; omega
  refine List.forall₂_iff_zip.mpr ⟨lengths,fun {k group} member => ?_⟩
  have begins := grouped.begins member
  rcases List.eq_nil_or_concat group with rfl | ⟨front,y,rfl⟩
  · exact List.prefix_nil.mp begins
  rw [List.concat_eq_append] at member begins ⊢
  -- the socket that has finished the last write of the group is this one
  have here : y ∈ groups.flatten := List.mem_flatten.mpr ⟨_,(List.of_mem_zip member).2,by simp⟩
  obtain ⟨k',there,done⟩ := finished y here
  obtain ⟨p,paired,front',back,whole,arrived⟩ := grouped.finished here there done
  have parts : (((w.sockets c).zip groups).flatMap Prod.snd).Nodup := by
    rwa [List.flatMap_def,List.map_snd_zip lengths.ge]
  obtain rfl : p = (k,front ++ [y]) := same_part parts paired member (a := y) (by rw [whole]; simp) (by simp)
  have once : (front' ++ y :: back).Nodup := by
    rw [← whole]
    exact (List.nodup_flatten.mp nodup).1 _ (List.of_mem_zip member).2
  rcases List.eq_nil_or_concat back with rfl | ⟨more,z,rfl⟩
  · rw [← whole] at arrived
    exact begins.eq_of_length_le arrived.length_le
  · exfalso
    obtain rfl : y = z := by simpa [List.getLast?_append,List.getLast?_cons] using congrArg List.getLast? whole
    have behind := (List.nodup_append.mp once).2.1
    simp at behind

/-- The sockets of `c` beside the retry queue that `c` is. -/
structure Traced (loopOf : C → T) (w : Wire T C) (c : C) (q : RetryQueue.State (Nat × Nat)) (parts : List (List Write)) :
    Prop where
  sent : w.Sent
  views : Views loopOf c w.path q
  grouped : Grouped w c parts
  known : RetryQueue.Known q
  inTurn : RetryQueue.InTurn q
  recorded : RetryQueue.Recorded q

namespace Traced

variable {q : RetryQueue.State (Nat × Nat)} {parts : List (List Write)}
omit [DecidableEq T]

def texts (w : Wire T C) (parts : List (List Write)) : List (List (List UInt8)) :=
  parts.map (List.map fun x => textAt w.texts x.ticket)

theorem submitted (traced : Traced loopOf w c q parts) :
    (texts w parts).flatten = (q.submitted.map RetryQueue.Flight.item).map fun i => textAt w.texts i.2 := by
  rw [texts,← List.map_flatten,traced.grouped.whole,traced.views.submitted,List.map_map,List.map_map]
  rfl

theorem pushed (traced : Traced loopOf w c q parts) : w.tasks c = q.pushed.map fun i => textAt w.texts i.2 := by
  rw [traced.views.pushed]
  exact traced.sent.tasks c

theorem mem_tasks (traced : Traced loopOf w c q parts) {text : List UInt8} (member : text ∈ (texts w parts).flatten) :
    text ∈ w.tasks c := by
  rw [traced.submitted] at member
  obtain ⟨i,hi,rfl⟩ := List.mem_map.mp member
  obtain ⟨f,hf,rfl⟩ := List.mem_map.mp hi
  rw [traced.pushed]
  exact List.mem_map_of_mem (traced.known.submitted f hf)

theorem reads (traced : Traced loopOf w c q parts) {peer : Heap} (succeeds : peer.Succeeds)
    (short : ∀ e ∈ w.texts, e.2.length ≤ 65534) :
    List.Forall₂ (fun k texts => Reads peer k.arrived texts) (w.sockets c) (texts w parts) := by
  have lengths := traced.grouped.paired.length_eq
  refine List.forall₂_map_right_iff.mpr (List.forall₂_iff_zip.mpr ⟨lengths,fun {k part} paired => ?_⟩)
  refine stream_reads succeeds (fun t ht => ?_) (traced.grouped.begins paired)
  have there : t ∈ (texts w parts).flatten :=
    List.mem_flatten.mpr ⟨_,List.mem_map_of_mem (List.of_mem_zip paired).2,ht⟩
  obtain ⟨⟨d,text⟩,pushed_there,same⟩ := List.mem_filterMap.mp (traced.mem_tasks there)
  obtain ⟨_,rfl⟩ : d = c ∧ text = t := by simpa using same
  exact short _ pushed_there

/-- The text of a written write has arrived, with those before it in its group. -/
theorem written (traced : Traced loopOf w c q parts) {x : Write}
    (member : x ∈ w.path.history.filterMap (Event.writtenWrite c)) :
    ∃ p ∈ (w.sockets c).zip (texts w parts), ∃ front, front ++ [textAt w.texts x.ticket] <+: p.2 ∧
      stream (front ++ [textAt w.texts x.ticket]) <+: p.1.arrived := by
  have flight : x.flight ∈ q.written := by
    rw [traced.views.written]
    exact List.mem_map_of_mem member
  obtain ⟨g,submitted,item,number⟩ := traced.recorded.written _ flight
  rw [traced.views.submitted] at submitted
  obtain ⟨y,here,rfl⟩ := List.mem_map.mp submitted
  have ticket : y.ticket = x.ticket := congrArg Prod.snd item
  obtain ⟨k,there,done⟩ := traced.sent.written c x member
  rw [← traced.grouped.whole] at here
  obtain ⟨p,paired,front,back,split,arrived⟩ :=
    traced.grouped.finished here there (by rwa [show y.submission = x.submission from number])
  rw [← ticket]
  refine ⟨(p.1,p.2.map fun x => textAt w.texts x.ticket),?_,front.map fun x => textAt w.texts x.ticket,?_,?_⟩
  · rw [texts,List.zip_map_right]
    exact List.mem_map_of_mem paired
  · rw [split]
    exact ⟨back.map fun x => textAt w.texts x.ticket,by simp⟩
  · simpa using arrived

/-- Nothing waits in the queue or in the batch. -/
theorem all (traced : Traced loopOf w c q parts) (good : w.path.history.any (Event.fails c) = false)
    (none_waits : Submitted loopOf w.path c) : (texts w parts).flatten = w.tasks c := by
  have batch : q.batch = [] := by
    have taken : (((w.path.threads (loopOf c)).doing.batchOf c).elim [] Prod.fst) = [] :=
      List.eq_nil_iff_forall_not_mem.mpr fun r member => by
        have := Doing.batchOf_mem member
        rw [none_waits.batch] at this
        cases this
    rw [traced.views.batch,taken]; rfl
  have que : q.que = [] := by rw [traced.views.que,none_waits.sendQue]; rfl
  have whole := traced.inTurn.whole (by rw [traced.views.failed]; exact good)
    (by rw [traced.views.dropped,none_waits.alive]; rfl)
  rw [traced.submitted,traced.pushed,whole,batch,que,List.append_nil,List.append_nil]

/-- What was submitted and is not in flight has been written. -/
theorem arrived (traced : Traced loopOf w c q parts) (good : w.path.history.any (Event.fails c) = false)
    (landed : (w.path.conns c).inFlight = []) :
    List.Forall₂ (fun k texts => k.arrived = stream texts) (w.sockets c) (texts w parts) := by
  refine List.forall₂_map_right_iff.mpr (traced.grouped.arrived fun y here => ?_)
  rw [traced.grouped.whole] at here
  have submitted : y.flight ∈ q.submitted := by
    rw [traced.views.submitted]
    exact List.mem_map_of_mem here
  rcases traced.recorded.accounted (by rw [traced.views.failed]; exact good) _ submitted with flying | written
  · rw [traced.views.inFlight,landed] at flying
    cases flying
  · rw [traced.views.written] at written
    obtain ⟨x,member,same⟩ := List.mem_map.mp written
    have number : x.submission = y.submission := congrArg RetryQueue.Flight.submission same
    rw [← number]
    exact traced.sent.written c x member

end Traced

/-- Messages sent by any threads reach the peers whole, and without failures in the order
of their pushes and exactly once, however threads interleave, bytes are sent and chunks are cut. -/
theorem delivered [Fintype T] (taskIdStr : Nat → List UInt8) (short : ∀ task, (taskIdStr task).length ≤ 65534)
    (loopOf : C → T) (vecs : Nat → Recycled) (bufs : C → CharVector) (encoder peer : Heap)
    (encoder_succeeds : encoder.Succeeds) (peer_succeeds : peer.Succeeds) (actions : List (Action T C)) (w : Wire T C)
    (run : Transition.run (step taskIdStr loopOf) (init vecs bufs encoder) actions = some w)
    (bound : Transition.Meets (step taskIdStr loopOf) Bound (init vecs bufs encoder) actions)
    (outlives : Transition.Meets (step taskIdStr loopOf) Outlives (init vecs bufs encoder) actions) (c : C) :
    ∃ groups, Delivered loopOf peer w c groups := by
  obtain ⟨loaded,sent,moves,ran,met,owned⟩ :=
    run_inv short (init_loaded vecs bufs encoder_succeeds) (init_sent vecs bufs encoder) bound outlives run
  have tame := run_tame (init_tame _ bufs) (init_reached _ bufs) met owned ran
  obtain ⟨requests,q,moved,views,_⟩ := run_follows (c := c) (init_reached _ bufs) (init_views _ bufs c) met ran
  have recorded := RetryQueue.run_recorded moved
  have numbered : (w.path.history.filterMap (Event.submittedWrite c)).Pairwise (·.submission < ·.submission) := by
    have ordered := recorded.numbered
    rw [views.submitted,List.pairwise_map] at ordered
    exact ordered
  obtain ⟨parts,grouped⟩ := sent.grouped c numbered
  have traced : Traced loopOf w c q parts :=
    ⟨sent,views,grouped,RetryQueue.run_known moved,RetryQueue.run_inTurn moved,recorded⟩
  refine ⟨Traced.texts w parts,tame.wild,traced.reads peer_succeeds loaded.short,fun _ => traced.mem_tasks,
    fun _ => traced.written,fun good => ?_,traced.all,traced.arrived⟩
  rw [traced.submitted,traced.pushed]
  exact (traced.inTurn.submitted (by rw [views.failed]; exact good)).map _

/-- Thread `true` sends a message, and the loop's thread `false` sends one in the callback
of its write. A packet has 10 bytes, and 4 of the second one have not been sent yet. -/
def twoMessages : List (Action Bool Unit) :=
  [.path (.setConnection 7 ()),.path (.setConnection 8 ()),.path (.loopStatus false true),.path (.call () .connect),
    .path (.call () (.onConnect 0)),.path (.sendMsg true () 7),.path (.getWriteBuffer true),
    .path (.encodeTask true ⟨none,0,0⟩),.path (.pushinQue true),.path (.launch true),.path (.realSend ()),
    .path (.uvWrite false true),.path (.endBatch false),.transmit () 0 3,.transmit () 0 7,.path (.afterWrite () 0 true),
    .path (.sendMsg false () 8),.path (.getWriteBuffer false),.path (.encodeTask false ⟨none,0,0⟩),
    .path (.pushinQue false),.path (.launch false),.path (.uvWrite false true),.path (.endBatch false),.transmit () 0 6]

def noVectors : Nat → Recycled := fun _ => ⟨.null,CharVector.null_valid⟩

def number (task : Nat) : List UInt8 := [task.toUInt8]

theorem delivered_twoMessages : ∃ w groups,
    Transition.run (step number fun _ => false) (init noVectors (fun _ => .null) plenty) twoMessages = some w ∧
      Delivered (fun _ => false) plenty w () groups := by
  obtain ⟨w,run⟩ := Option.isSome_iff_exists.mp (show (Transition.run (step number fun _ => false)
    (init noVectors (fun _ => .null) plenty) twoMessages).isSome by decide +kernel)
  obtain ⟨groups,holds⟩ := delivered number (fun _ => by simp [number]) (fun _ => false) noVectors (fun _ => .null)
    plenty plenty plenty_succeeds plenty_succeeds _ w run (by decide +kernel) (by decide +kernel) ()
  exact ⟨w,groups,run,holds⟩

end UvRpc.Wire
