import UvRpc.HandleLifecycle

/-! bConnected and bClosed over the runs of a client. onClose sets bClosed and connect does
not reset it, so after a reconnect isClosed() speaks of an earlier handle. -/
namespace UvRpc.Lifecycle

inductive Event where
  | lifecycle (a : Action)
  | connect (accepted : Bool)
  deriving DecidableEq, Repr

def stepEvent (s : Lifecycle) : Event → Option Lifecycle
  | .lifecycle a => step s a
  | .connect accepted => some (s.connectAgain accepted)

/-- isClosed() is true exactly when the close callback has run and no connect has been
started since, and isOK() is not true as well. -/
def FlagsRight (s : Lifecycle) : Prop :=
  (s.tcp.bClosed = true ↔ s.tcp.localTcp.phase = .closed) ∧ ¬ (s.tcp.bConnected = true ∧ s.tcp.bClosed = true)

instance (s : Lifecycle) : Decidable s.FlagsRight := inferInstanceAs (Decidable (_ ∧ _))

/-- connect, and reConnect wherever it is called. -/
def Event.connects : Event → Bool
  | .connect _ => true
  | .lifecycle (.reConnect _) => true
  | .lifecycle (.timer _) => true
  | _ => false

/-- No connect on a connection whose close callback has run before. -/
def FirstLife (s : Lifecycle) (e : Event) : Prop := e.connects = true → s.tcp.bClosed = false

instance (s : Lifecycle) (e : Event) : Decidable (s.FirstLife e) := inferInstanceAs (Decidable (_ → _))

/-- What every method keeps: the flag follows the handle, and a handle that is being
closed is not connected. -/
structure Marked (tcp : TcpConnection) : Prop where
  client : tcp.bClient = true
  closed : tcp.bClosed = true ↔ tcp.localTcp.phase = .closed
  quiet : tcp.localTcp.isClosing → tcp.bConnected = false

variable {s s' : Lifecycle} {tcp : TcpConnection}

theorem Marked.handle_eq (marked : Marked tcp) : tcp.handle = tcp.localTcp := by
  simp [TcpConnection.handle,marked.client]

theorem Marked.flagsRight (marked : Marked s.tcp) : s.FlagsRight := by
  refine ⟨marked.closed,fun both => ?_⟩
  have closing : s.tcp.localTcp.isClosing := by simp [UvTcp.isClosing,marked.closed.mp both.2]
  exact absurd both.1 (by simp [marked.quiet closing])

theorem Marked.disconnect (marked : Marked tcp) : Marked {tcp with bConnected := false} :=
  ⟨marked.client,marked.closed,fun _ => rfl⟩

theorem close_flags (tcp : TcpConnection) :
    tcp.close.bConnected = false ∧ tcp.close.bClosed = tcp.bClosed := by
  simp only [TcpConnection.close]
  split <;> split <;> exact ⟨rfl,rfl⟩

theorem Marked.close (marked : Marked tcp) : Marked tcp.close := by
  obtain ⟨connected,closed⟩ := close_flags tcp
  rcases close_cases marked.client with ⟨client,⟨same,_⟩ | ⟨closing,running⟩⟩
  · exact ⟨client,by rw [closed,same]; exact marked.closed,fun _ => connected⟩
  · refine ⟨client,?_,fun _ => connected⟩
    have open_ : tcp.localTcp.phase ≠ .closed := fun eq => running (by simp [UvTcp.isClosing,eq])
    rw [closed,closing,marked.closed]
    simp [UvTcp.close,open_]

theorem Marked.onReadClose (marked : Marked tcp) (nread : Int) (nullBuf : Bool) :
    Marked (tcp.onReadClose nread nullBuf) := by
  unfold TcpConnection.onReadClose
  by_cases error : nread < 0 <;> cases nullBuf <;> simp only [error,if_true,if_false,Bool.false_eq_true]
  · exact marked.close
  · exact marked.close.close
  · exact marked
  · exact marked.close

theorem Marked.onConnect (marked : Marked tcp) {status : Int}
    (answer : status < 0 ∨ status = 0 ∧ tcp.handle.phase = .live) : Marked (tcp.onConnect status) := by
  unfold TcpConnection.onConnect
  split
  · exact marked.disconnect
  · rename_i success
    refine ⟨marked.client,marked.closed,fun closing => ?_⟩
    rcases answer with failed | ⟨_,live⟩
    · exact absurd failed success
    · rw [marked.handle_eq] at live
      simp [UvTcp.isClosing,live] at closing

theorem Marked.runCloseCb (marked : Marked tcp) (closing : tcp.handle.phase = .closing) : Marked tcp.runCloseCb := by
  rw [marked.handle_eq] at closing
  have quiet := marked.quiet (by simp [UvTcp.isClosing,closing])
  rw [TcpConnection.runCloseCb,if_pos marked.client]
  exact ⟨marked.client,by simp [TcpConnection.onClose,UvTcp.runCloseCb],fun _ => quiet⟩

theorem connect_marked (first : tcp.bClosed = false) : Marked tcp.connect := by
  refine ⟨rfl,?_,fun closing => ?_⟩
  · change tcp.bClosed = true ↔ Phase.live = .closed
    simp [first]
  · simp [TcpConnection.connect,UvTcp.tcpInit,UvTcp.isClosing] at closing

theorem step_marked {a : Action} (marked : Marked s.tcp) (first : s.FirstLife (.lifecycle a))
    (h : step s a = some s') : Marked s'.tcp := by
  cases a with
  | onConnect status =>
    obtain ⟨answer,rfl⟩ : (status < 0 ∨ status = 0 ∧ s.tcp.handle.phase = .live) ∧ _ = s' := by
      simp only [step,onConnect,Option.ite_none_right_eq_some] at h
      exact ⟨h.1.2.2,Option.some.inj h.2⟩
    exact marked.onConnect answer
  | onRead nread nullBuf =>
    simp only [step,onRead,Option.ite_none_right_eq_some] at h
    obtain ⟨_,⟨⟩⟩ := h
    exact marked.onReadClose nread nullBuf
  | writeFailed =>
    cases h
    exact marked.disconnect.close
  | close =>
    cases h
    exact marked.close
  | closeSafe =>
    cases h
    exact marked.disconnect
  | runClose =>
    simp only [step,runClose,Option.ite_none_right_eq_some] at h
    obtain ⟨_,⟨⟩⟩ := h
    exact marked.close
  | onClose =>
    simp only [step,onClose,Option.ite_none_right_eq_some] at h
    obtain ⟨⟨_,_,closing⟩,⟨⟩⟩ := h
    exact marked.runCloseCb closing
  | endCallback =>
    obtain ⟨_,_,rfl⟩ := Option.map_eq_some_iff.mp h
    exact marked
  | reConnect accepted =>
    have again := connect_marked (first rfl)
    simp only [step,reConnect] at h
    split at h
    · cases h; exact again
    · cases h; exact again
    · cases h
  | startTimer =>
    simp only [step,startTimer] at h
    split at h
    · cases h; exact marked
    · cases h
  | timer accepted =>
    simp only [step,timer,Option.ite_none_right_eq_some] at h
    obtain ⟨_,⟨⟩⟩ := h
    exact connect_marked (first rfl)

theorem stepEvent_marked {e : Event} (marked : Marked s.tcp) (first : s.FirstLife e)
    (h : stepEvent s e = some s') : Marked s'.tcp := by
  cases e with
  | lifecycle a => exact step_marked marked first h
  | connect accepted =>
    cases h
    exact connect_marked (first rfl)

/-- Whoever connects, bClosed stays as it was and the handle is open. -/
theorem connects_reopens {e : Event} (connects : e.connects = true) (h : stepEvent s e = some s') :
    s'.tcp = s.tcp.connect := by
  cases e with
  | connect accepted => cases h; rfl
  | lifecycle a =>
    cases a with
    | reConnect accepted =>
      simp only [stepEvent,step,reConnect] at h
      split at h
      · cases h; rfl
      · cases h; rfl
      · cases h
    | timer accepted =>
      simp only [stepEvent,step,timer,Option.ite_none_right_eq_some] at h
      obtain ⟨_,⟨⟩⟩ := h
      rfl
    | _ => cases connects

/-- A connect after a close callback leaves isClosed() true while the handle is open. -/
theorem stepEvent_wrong {e : Event} (again : ¬ s.FirstLife e) (h : stepEvent s e = some s') :
    ¬ s'.FlagsRight := by
  simp only [FirstLife,Classical.not_imp,Bool.not_eq_false] at again
  rintro ⟨closed,_⟩
  rw [connects_reopens again.1 h] at closed
  exact absurd (closed.mp again.2) (by simp [TcpConnection.connect,UvTcp.tcpInit])

theorem start_marked (buf : CharVector) (accepted : Bool) : Marked (start buf accepted).tcp := by
  refine ⟨rfl,?_,fun closing => ?_⟩
  · simp [start,TcpConnection.connect,TcpConnection.make,UvTcp.tcpInit]
  · simp [start,TcpConnection.connect,UvTcp.tcpInit,UvTcp.isClosing] at closing

/-- Over every run the flags tell the state of the handle exactly if no connect is made
once a close callback has run. -/
theorem flags_iff (buf : CharVector) (accepted : Bool) (events : List Event) (s : Lifecycle)
    (run : Transition.run stepEvent (start buf accepted) events = some s) :
    Transition.Along stepEvent FlagsRight (start buf accepted) events ↔
      Transition.Meets stepEvent FirstLife (start buf accepted) events :=
  Transition.along_iff_meets (fun _ marked => Marked.flagsRight marked) (fun _ _ _ => stepEvent_marked)
    (fun _ _ _ _ => stepEvent_wrong) (start_marked buf accepted) run

/-- A failed connect, a second one that succeeds, and a close. -/
theorem flags_iff_second : Transition.Along stepEvent FlagsRight (start ⟨none,0,0⟩ true)
    [.lifecycle (.onConnect (-111)),.lifecycle .endCallback,.connect true,.lifecycle (.onConnect 0),
      .lifecycle .endCallback,.lifecycle .close,.lifecycle .onClose] := by
  obtain ⟨s,run⟩ := Option.isSome_iff_exists.mp (show (Transition.run stepEvent (start ⟨none,0,0⟩ true)
    [.lifecycle (.onConnect (-111)),.lifecycle .endCallback,.connect true,.lifecycle (.onConnect 0),
      .lifecycle .endCallback,.lifecycle .close,.lifecycle .onClose]).isSome by decide)
  exact (flags_iff _ _ _ s run).mpr (by decide)

/-- Read error, close callback with reConnect, connected: isOK() and isClosed() are both
true, and the handle is open. -/
theorem reconnected_closed : ∃ s, Transition.run stepEvent (start ⟨none,0,0⟩ true)
      [.lifecycle (.onConnect 0),.lifecycle .endCallback,.lifecycle (.onRead (-104) false),.lifecycle .onClose,
        .lifecycle (.reConnect true),.lifecycle .endCallback,.lifecycle (.onConnect 0)] = some s ∧
    s.tcp.bClosed = true ∧ s.tcp.bConnected = true ∧ s.tcp.localTcp.phase = .live ∧ ¬ s.FlagsRight :=
  ⟨_,rfl,by decide⟩

end UvRpc.Lifecycle
