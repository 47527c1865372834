import UvRpc.WriteQueue

/-! Whether a message can overtake one that was pushed before it. A failed request goes to
the tail of sendQue, behind whatever was pushed while it was in flight. -/

namespace UvRpc.WritePath

variable {T C : Type*} [DecidableEq T] [DecidableEq C]

/-- Of two requests written on `c`, the one pushed first was also submitted first on its
last submission. -/
def WrittenInOrder (s : WritePath T C) (c : C) : Prop :=
  ∀ a b, .completed c a true ∈ s.history → .completed c b true ∈ s.history →
    a.ticket < b.ticket → a.submission < b.submission

theorem mem_written {c : C} {w : Write} {history : List (Event C)} (member : .completed c w true ∈ history) :
    w ∈ history.filterMap (Event.writtenWrite c) :=
  List.mem_filterMap.mpr ⟨_,member,by simp [Event.writtenWrite]⟩

/-- No message overtakes another in a run in which requests are pushed back only while
nothing newer waits in sendQue and writes fail as those of one stream do. -/
theorem written_in_order [Fintype T] (loopOf : C → T) (vecs : Nat → CharVector) (bufs : C → CharVector)
    (actions : List (Action T C)) (s : WritePath T C)
    (run : Transition.run (step loopOf) (init vecs bufs) actions = some s)
    (bound : Transition.Meets (step loopOf) (fun s _ => Bound s) (init vecs bufs) actions)
    (inOrder : Transition.Meets (step loopOf) InOrder (init vecs bufs) actions) (c : C) :
    s.WrittenInOrder c := by
  obtain ⟨moves,q,moved,views,guarded⟩ :=
    run_follows (c := c) (init_reached vecs bufs) (init_views vecs bufs c) bound run
  have ordered := RetryQueue.run_ordered (guarded inOrder) moved
  have flown : ∀ w, .completed c w true ∈ s.history → w.flight ∈ q.written := fun w member => by
    rw [views.written]
    exact List.mem_map_of_mem (mem_written member)
  intro a b ha hb newer
  exact ordered a.flight (flown a ha) b.flight (flown b hb) newer

instance noneNewerDecidable (s : WritePath T C) (c : C) (ticket : Nat) : Decidable (s.NoneNewer c ticket) :=
  inferInstanceAs (Decidable (∀ r ∈ _, ¬ _))

instance inOrderDecidable (s : WritePath T C) : (a : Action T C) → Decidable (s.InOrder a)
  | .uvWrite t accepted =>
    match doing : (s.threads t).doing with
    | .batch c (r :: _) bError =>
      decidable_of_iff (if bError = false ∧ accepted = true then
          (s.threads t).failing c = false →
            ∀ w ∈ (s.conns c).inFlight, w.doomed = true → ¬ w.ticket < s.ticket r
        else s.NoneNewer c (s.ticket r)) (by simp only [InOrder,doing])
    | .batch _ [] _ => isTrue (by simp [InOrder,doing])
    | .sending _ _ _ => isTrue (by simp [InOrder,doing])
    | .nothing => isTrue (by simp [InOrder,doing])
  | .afterWrite c i ok => inferInstanceAs (Decidable (∀ w ∈ (s.conns c).inFlight[i]?,
      if ok then w.doomed = false
      else ∀ v ∈ s.history.filterMap (Event.writtenWrite c), v.submission < w.submission))
  | .settle t =>
    match completion : (s.threads t).completion with
    | some ⟨_,w,some d,.callback false⟩ =>
      decidable_of_iff (s.NoneNewer d w.ticket) (by simp only [InOrder,completion])
    | some ⟨_,_,none,_⟩ => isTrue (by simp [InOrder,completion])
    | some ⟨_,_,some _,.callback true⟩ => isTrue (by simp [InOrder,completion])
    | some ⟨_,_,some _,.sent⟩ => isTrue (by simp [InOrder,completion])
    | none => isTrue (by simp [InOrder,completion])
  | .setConnection _ _ | .loopStatus _ _ | .sendMsg _ _ _ | .getWriteBuffer _ | .encodeTask _ _
  | .pushinQue _ | .launch _ | .realSend _ | .endBatch _ | .putWriteBuffer _ | .call _ _
  | .closeSafe _ _ | .runClose _ | .closeCb _ | .destroy _ => isTrue trivial

/-! Two threads: `false` runs the loop, `true` sends. -/

def push (task : Nat) : List (Action Bool Unit) :=
  [.setConnection task (),.sendMsg true () task,.getWriteBuffer true,
    .encodeTask true ⟨some ⟨3,[1,2]⟩,2,2⟩,.pushinQue true]

def submit (n : Nat) : List (Action Bool Unit) :=
  [.launch true,.realSend ()] ++ List.replicate n (.uvWrite false true) ++ [.endBatch false]

def connected : List (Action Bool Unit) := [.call () .connect,.call () (.onConnect 0)]

def succeed : List (Action Bool Unit) :=
  [.afterWrite () 0 true,.settle false,.endBatch false,.putWriteBuffer false]

def fail : List (Action Bool Unit) := [.afterWrite () 0 false,.settle false]

def started : WritePath Bool Unit := init (fun _ => ⟨none,0,0⟩) fun _ => ⟨none,0,0⟩

def failedAlone : List (Action Bool Unit) :=
  connected ++ push 7 ++ submit 1 ++ fail ++ [.closeCb ()] ++ connected ++ push 8 ++ submit 2 ++ succeed ++ succeed

theorem written_in_order_failedAlone : ∃ s, Transition.run (step fun _ => false) started failedAlone = some s ∧
    s.WrittenInOrder () := by
  obtain ⟨s,run⟩ := Option.isSome_iff_exists.mp
    (show (Transition.run (step fun _ => false) started failedAlone).isSome by decide +kernel)
  exact ⟨s,run,written_in_order _ _ _ _ s run (by decide +kernel) (by decide +kernel) ()⟩

/-- The second message is pushed while the first is in flight. -/
def overtaking : List (Action Bool Unit) :=
  connected ++ push 7 ++ submit 1 ++ push 8 ++ fail ++ [.closeCb ()] ++ connected ++ submit 2 ++ succeed ++ succeed

/-- The first message is pushed back behind the second, which is written before it. -/
theorem pushed_back_overtaken : ∃ s, Transition.run (step fun _ => false) started overtaking = some s ∧
    Transition.Meets (step fun _ => false) (fun s _ => Bound s) started overtaking ∧ ¬ s.WrittenInOrder () := by
  obtain ⟨s,run,first,second⟩ : ∃ s, Transition.run (step fun _ => false) started overtaking = some s ∧
      .completed () ⟨0,0,2,false⟩ true ∈ s.history ∧ .completed () ⟨1,1,1,false⟩ true ∈ s.history := by
    have seen : (Transition.run (step fun _ => false) started overtaking).any fun s =>
      .completed () ⟨0,0,2,false⟩ true ∈ s.history ∧ .completed () ⟨1,1,1,false⟩ true ∈ s.history := by decide +kernel
    simpa [Option.any_eq_true] using seen
  refine ⟨s,run,by decide +kernel,fun ordered => ?_⟩
  exact absurd (ordered _ _ first second (by decide)) (by decide)

end UvRpc.WritePath
