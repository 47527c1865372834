import UvRpc.TcpConnection
import UvRpc.Transition

/-! The handle of a client connection over its whole life. Every path that closes goes
through uv_is_closing; reConnect initialises the handle whatever its state is. -/
namespace UvRpc

/-- The calls since the last uv_tcp_init, the latest first. -/
def lastRound (calls : List HandleCall) : List HandleCall := calls.reverse.takeWhile (· ≠ .tcpInit)

/-- After a first uv_tcp_init there is another one only when the close callback has run,
and in a round there is one uv_close and one close callback. -/
def Allowed (before : List HandleCall) : HandleCall → Prop
  | .tcpInit => .tcpInit ∈ before → .closeCb ∈ lastRound before
  | .close => .close ∉ lastRound before
  | .closeCb => .closeCb ∉ lastRound before

def Disciplined (calls : List HandleCall) : Prop :=
  ∀ before call after, calls = before ++ call :: after → Allowed before call

@[simp] theorem lastRound_tcpInit (calls : List HandleCall) : lastRound (calls ++ [.tcpInit]) = [] := by
  simp [lastRound]

theorem lastRound_snoc {calls : List HandleCall} {call : HandleCall} (other : call ≠ .tcpInit) :
    lastRound (calls ++ [call]) = call :: lastRound calls := by
  simp [lastRound,other]

theorem disciplined_snoc {calls : List HandleCall} {call : HandleCall} :
    Disciplined (calls ++ [call]) ↔ Disciplined calls ∧ Allowed calls call := by
  constructor
  · intro disciplined
    refine ⟨fun before c after split => disciplined before c (after ++ [call]) (by simp [split]),?_⟩
    exact disciplined calls call [] rfl
  · rintro ⟨disciplined,allowed⟩ before c after split
    rcases Transition.split_snoc split with ⟨rfl,rfl⟩ | ⟨rest,earlier⟩
    · exact allowed
    · exact disciplined before c rest earlier

namespace Lifecycle

/-- The user callback that is running: that of a connect, or that of a close, in which
reConnect may already have been called. -/
inductive Callback where
  | connectCb (failed : Bool) | closeCb (reConnected : Bool)
  deriving DecidableEq, Repr

inductive Action where
  | onConnect (status : Int)
  | onRead (nread : Int) (nullBuf : Bool)
  | writeFailed
  | close
  | closeSafe
  | runClose
  | onClose
  | endCallback
  | reConnect (accepted : Bool)
  | startTimer
  | timer (accepted : Bool)
  deriving DecidableEq, Repr

end Lifecycle

/-- `connecting` says that a uv_tcp_connect is to be answered. `timers` are those that
connect callbacks have started to call reConnect later. -/
structure Lifecycle where
  tcp : TcpConnection
  connecting : Bool
  inside : Option Lifecycle.Callback
  timers : Nat
  queuedCloses : Nat
  deriving DecidableEq, Repr

namespace Lifecycle

/-- libuv answers the connect, with an error when the handle is being closed. -/
def onConnect (s : Lifecycle) (status : Int) : Option Lifecycle :=
  if s.connecting ∧ s.inside = none ∧ (status < 0 ∨ status = 0 ∧ s.tcp.handle.phase = .live) then
    some {s with
      tcp := s.tcp.onConnect status
      connecting := false
      inside := some (.connectCb (status < 0))}
  else none

def onRead (s : Lifecycle) (nread : Int) (nullBuf : Bool) : Option Lifecycle :=
  if s.inside = none ∧ s.tcp.handle.phase = .live then some {s with tcp := s.tcp.onReadClose nread nullBuf}
  else none

/-- A uv_write that is refused in realSend, or a failed one in afterWrite. -/
def writeFailed (s : Lifecycle) : Lifecycle :=
  {s with tcp := ({s.tcp with bConnected := false} : TcpConnection).close}

/-- closeSafe on another thread than the loop's. -/
def closeSafe (s : Lifecycle) : Lifecycle :=
  {s with tcp := {s.tcp with bConnected := false}, queuedCloses := s.queuedCloses + 1}

def runClose (s : Lifecycle) : Option Lifecycle :=
  if 0 < s.queuedCloses then some {s with tcp := s.tcp.close, queuedCloses := s.queuedCloses - 1} else none

/-- libuv has answered an outstanding connect before. -/
def onClose (s : Lifecycle) : Option Lifecycle :=
  if s.inside = none ∧ s.connecting = false ∧ s.tcp.handle.phase = .closing then
    some {s with tcp := s.tcp.runCloseCb, inside := some (.closeCb false)}
  else none

/-- reConnect, where uv_tcp_connect may fail at once. -/
def connectAgain (s : Lifecycle) (accepted : Bool) : Lifecycle :=
  {s with tcp := s.tcp.reConnect, connecting := accepted}

/-- The user calls reConnect in the callback of a failed connect or in the close callback. -/
def reConnect (s : Lifecycle) (accepted : Bool) : Option Lifecycle :=
  match s.inside with
  | some (.connectCb true) => some (s.connectAgain accepted)
  | some (.closeCb _) => some {s.connectAgain accepted with inside := some (.closeCb true)}
  | _ => none

def startTimer (s : Lifecycle) : Option Lifecycle :=
  match s.inside with
  | some (.connectCb true) => some {s with timers := s.timers + 1}
  | _ => none

def timer (s : Lifecycle) (accepted : Bool) : Option Lifecycle :=
  if s.inside = none ∧ 0 < s.timers then some {s.connectAgain accepted with timers := s.timers - 1} else none

def step (s : Lifecycle) : Action → Option Lifecycle
  | .onConnect status => s.onConnect status
  | .onRead nread nullBuf => s.onRead nread nullBuf
  | .writeFailed => some s.writeFailed
  | .close => some {s with tcp := s.tcp.close}
  | .closeSafe => some s.closeSafe
  | .runClose => s.runClose
  | .onClose => s.onClose
  | .endCallback => s.inside.map fun _ => {s with inside := none}
  | .reConnect accepted => s.reConnect accepted
  | .startTimer => s.startTimer
  | .timer accepted => s.timer accepted

def start (buf : CharVector) (accepted : Bool) : Lifecycle :=
  ⟨(TcpConnection.make buf).connect,accepted,none,0,0⟩

/-- reConnect is not called in the callback of a failed connect, in a close callback only
once, and by a timer only when the close callback has run and nobody has reconnected since. -/
def Reopens (s : Lifecycle) : Action → Prop
  | .reConnect _ => s.inside = some (.closeCb false)
  | .timer _ => s.tcp.localTcp.phase = .closed
  | _ => True

instance reopensDecidable (s : Lifecycle) : (a : Action) → Decidable (s.Reopens a)
  | .reConnect _ => inferInstanceAs (Decidable (s.inside = some (.closeCb false)))
  | .timer _ => inferInstanceAs (Decidable (s.tcp.localTcp.phase = .closed))
  | .onConnect _ | .onRead _ _ | .writeFailed | .close | .closeSafe | .runClose | .onClose | .endCallback
  | .startTimer => isTrue trivial

def round : Phase → List HandleCall
  | .never => []
  | .live => []
  | .closing => [.close]
  | .closed => [.closeCb,.close]

/-- The handle is used as it should be, and its phase tells where it is in its round. -/
structure Handle (tcp : TcpConnection) : Prop where
  client : tcp.bClient = true
  phase : tcp.localTcp.phase ≠ .never
  initialised : .tcpInit ∈ tcp.localTcp.calls
  round : lastRound tcp.localTcp.calls = round tcp.localTcp.phase
  disciplined : Disciplined tcp.localTcp.calls

/-- While a connect callback runs, or is still to come, the handle is not closed; in a
close callback it is until reConnect is called. -/
structure Inv (s : Lifecycle) : Prop where
  handle : Handle s.tcp
  connecting : s.connecting → s.tcp.localTcp.phase ≠ .closed
  connectCb : ∀ failed, s.inside = some (.connectCb failed) → s.tcp.localTcp.phase ≠ .closed
  closeCb : ∀ reConnected, s.inside = some (.closeCb reConnected) →
    (s.tcp.localTcp.phase = .closed ↔ reConnected = false)

variable {s s' : Lifecycle} {tcp : TcpConnection}

theorem Handle.handle_eq (handle : Handle tcp) : tcp.handle = tcp.localTcp := by
  simp [TcpConnection.handle,handle.client]

/-- A close through uv_is_closing: it neither closes twice nor reopens. -/
theorem close_cases (client : tcp.bClient = true) : tcp.close.bClient = true ∧
    (tcp.close.localTcp = tcp.localTcp ∧ tcp.localTcp.isClosing ∨
      tcp.close.localTcp = tcp.localTcp.close ∧ ¬ tcp.localTcp.isClosing) := by
  unfold TcpConnection.close
  by_cases closing : tcp.localTcp.isClosing <;> simp [client,closing]

theorem Handle.close (handle : Handle tcp) :
    Handle tcp.close ∧ (tcp.close.localTcp.phase = .closed ↔ tcp.localTcp.phase = .closed) := by
  rcases close_cases handle.client with ⟨client,⟨same,_⟩ | ⟨closed,running⟩⟩
  · obtain ⟨_,phase,initialised,round,disciplined⟩ := handle
    exact ⟨⟨client,by rwa [same],by rwa [same],by rwa [same],by rwa [same]⟩,by rw [same]⟩
  · obtain ⟨_,phase,initialised,round,disciplined⟩ := handle
    have live : tcp.localTcp.phase = .live := by
      cases eq : tcp.localTcp.phase <;> simp_all [UvTcp.isClosing]
    rw [live] at round
    have calls : tcp.close.localTcp.calls = tcp.localTcp.calls ++ [.close] := by rw [closed]; rfl
    have now : tcp.close.localTcp.phase = .closing := by rw [closed]; rfl
    refine ⟨⟨client,by simp [now],by simp [calls,initialised],?_,?_⟩,by simp [now,live]⟩
    · rw [calls,now,lastRound_snoc (by simp),round]; rfl
    · rw [calls,disciplined_snoc]
      exact ⟨disciplined,by simp [Allowed,round,Lifecycle.round]⟩

theorem Handle.onReadClose (handle : Handle tcp) (nread : Int) (nullBuf : Bool) :
    Handle (tcp.onReadClose nread nullBuf) ∧
      ((tcp.onReadClose nread nullBuf).localTcp.phase = .closed ↔ tcp.localTcp.phase = .closed) := by
  have again := handle.close.1.close
  unfold TcpConnection.onReadClose
  by_cases error : nread < 0 <;> cases nullBuf <;> simp only [error,if_true,if_false,Bool.false_eq_true]
  · exact handle.close
  · exact ⟨again.1,again.2.trans handle.close.2⟩
  · exact ⟨handle,trivial⟩
  · exact handle.close

theorem Handle.runCloseCb (handle : Handle tcp) (closing : tcp.localTcp.phase = .closing) :
    Handle tcp.runCloseCb ∧ tcp.runCloseCb.localTcp.phase = .closed := by
  obtain ⟨client,phase,initialised,round,disciplined⟩ := handle
  rw [closing] at round
  have eq : tcp.runCloseCb = ({tcp with localTcp := tcp.localTcp.runCloseCb} : TcpConnection).onClose := by
    simp [TcpConnection.runCloseCb,client]
  rw [eq]
  refine ⟨⟨client,?_,?_,?_,?_⟩,rfl⟩
  · simp [TcpConnection.onClose,UvTcp.runCloseCb]
  · simp [TcpConnection.onClose,UvTcp.runCloseCb,initialised]
  · simp only [TcpConnection.onClose,UvTcp.runCloseCb]
    rw [lastRound_snoc (by simp),round]; rfl
  · simp only [TcpConnection.onClose,UvTcp.runCloseCb]
    rw [disciplined_snoc]
    exact ⟨disciplined,by simp [Allowed,round,Lifecycle.round]⟩

theorem Handle.reConnect (handle : Handle tcp) (closed : tcp.localTcp.phase = .closed) :
    Handle tcp.reConnect ∧ tcp.reConnect.localTcp.phase = .live := by
  obtain ⟨client,phase,initialised,round,disciplined⟩ := handle
  rw [closed] at round
  refine ⟨⟨rfl,?_,?_,?_,?_⟩,rfl⟩
  · simp [TcpConnection.reConnect,TcpConnection.connect,UvTcp.tcpInit]
  · simp [TcpConnection.reConnect,TcpConnection.connect,UvTcp.tcpInit]
  · simp only [TcpConnection.reConnect,TcpConnection.connect,UvTcp.tcpInit,lastRound_tcpInit]; rfl
  · simp only [TcpConnection.reConnect,TcpConnection.connect,UvTcp.tcpInit]
    rw [disciplined_snoc]
    exact ⟨disciplined,fun _ => by simp [round,Lifecycle.round]⟩

theorem reConnect_undisciplined (handle : Handle tcp) (running : tcp.localTcp.phase ≠ .closed) :
    ¬ Disciplined tcp.reConnect.localTcp.calls := by
  simp only [TcpConnection.reConnect,TcpConnection.connect,UvTcp.tcpInit]
  rw [disciplined_snoc]
  rintro ⟨_,allowed⟩
  have closed := allowed handle.initialised
  rw [handle.round] at closed
  cases eq : tcp.localTcp.phase <;> simp_all [Lifecycle.round]

theorem start_inv (buf : CharVector) (accepted : Bool) : Inv (start buf accepted) := by
  refine ⟨⟨rfl,by rintro ⟨⟩,by simp [start,TcpConnection.connect,TcpConnection.make,UvTcp.tcpInit],rfl,?_⟩,?_,?_,?_⟩
  · change Disciplined ([] ++ [.tcpInit])
    refine disciplined_snoc.mpr ⟨?_,by simp [Allowed]⟩
    intro before call after split
    simp at split
  · rintro _ ⟨⟩
  · rintro failed ⟨⟩
  · rintro reConnected ⟨⟩

theorem Inv.keep (inv : Inv s) {tcp : TcpConnection} (handle : Handle tcp)
    (closed : tcp.localTcp.phase = .closed ↔ s.tcp.localTcp.phase = .closed) (timers queuedCloses : Nat) :
    Inv {s with tcp := tcp, timers := timers, queuedCloses := queuedCloses} :=
  ⟨handle,fun connecting => by rw [ne_eq,closed]; exact inv.connecting connecting,
    fun failed inside => by rw [ne_eq,closed]; exact inv.connectCb failed inside,
    fun reConnected inside => by rw [closed]; exact inv.closeCb reConnected inside⟩

theorem onConnect_inv {status : Int} (inv : Inv s) (h : s.onConnect status = some s') : Inv s' := by
  simp only [onConnect] at h
  split at h
  · rename_i enabled
    cases h
    have same : (s.tcp.onConnect status).localTcp = s.tcp.localTcp ∧
        (s.tcp.onConnect status).bClient = s.tcp.bClient := by
      unfold TcpConnection.onConnect; split <;> exact ⟨rfl,rfl⟩
    have running := inv.connecting enabled.1
    obtain ⟨client,phase,initialised,round,disciplined⟩ := inv.handle
    refine ⟨⟨?_,?_,?_,?_,?_⟩,by rintro ⟨⟩,fun failed _ => ?_,by rintro reConnected ⟨⟩⟩ <;>
      simpa only [same.1,same.2]
  · cases h

theorem connectAgain_inv (inv : Inv s) (closed : s.tcp.localTcp.phase = .closed) (accepted : Bool) (timers : Nat)
    (inside : s.inside = none ∨ s.inside = some (.closeCb false)) :
    Inv {s.connectAgain accepted with inside := s.inside.map fun _ => .closeCb true, timers := timers} := by
  obtain ⟨handle,live⟩ := inv.handle.reConnect closed
  have running : s.tcp.reConnect.localTcp.phase ≠ .closed := by rw [live]; decide
  refine ⟨handle,fun _ => running,fun failed there => ?_,fun reConnected there => ?_⟩
  · rcases inside with eq | eq <;> simp [eq] at there
  · rcases inside with eq | eq
    · simp [eq] at there
    · obtain rfl : true = reConnected := by simpa [connectAgain,eq] using there
      simpa [connectAgain] using running

theorem step_inv {a : Action} (inv : Inv s) (reopens : s.Reopens a) (h : step s a = some s') : Inv s' := by
  have handle := inv.handle
  cases a with
  | onConnect status => exact onConnect_inv inv h
  | onRead nread nullBuf =>
    simp only [step,onRead] at h
    split at h
    · cases h
      obtain ⟨handle',closed⟩ := handle.onReadClose nread nullBuf
      exact inv.keep handle' closed _ _
    · cases h
  | writeFailed =>
    cases h
    have open_ : Handle {s.tcp with bConnected := false} :=
      ⟨handle.client,handle.phase,handle.initialised,handle.round,handle.disciplined⟩
    obtain ⟨handle',closed⟩ := open_.close
    exact inv.keep handle' closed _ _
  | close =>
    cases h
    obtain ⟨handle',closed⟩ := handle.close
    exact inv.keep handle' closed _ _
  | closeSafe =>
    cases h
    have open_ : Handle {s.tcp with bConnected := false} :=
      ⟨handle.client,handle.phase,handle.initialised,handle.round,handle.disciplined⟩
    exact inv.keep open_ Iff.rfl _ _
  | runClose =>
    simp only [step,runClose] at h
    split at h
    · cases h
      obtain ⟨handle',closed⟩ := handle.close
      exact inv.keep handle' closed _ _
    · cases h
  | onClose =>
    simp only [step,onClose] at h
    split at h
    · rename_i enabled
      cases h
      obtain ⟨_,idle,closing⟩ := enabled
      rw [handle.handle_eq] at closing
      obtain ⟨handle',closed⟩ := handle.runCloseCb closing
      refine ⟨handle',fun connecting => ?_,by rintro failed ⟨⟩,?_⟩
      · rw [idle] at connecting; cases connecting
      · rintro reConnected ⟨⟩
        simp [closed]
    · cases h
  | endCallback =>
    obtain ⟨_,_,rfl⟩ := Option.map_eq_some_iff.mp h
    exact ⟨handle,inv.connecting,by rintro failed ⟨⟩,by rintro reConnected ⟨⟩⟩
  | reConnect accepted =>
    have inside : s.inside = some (.closeCb false) := reopens
    have closed := (inv.closeCb false inside).mpr rfl
    simp only [step,reConnect,inside] at h
    cases h
    have again := connectAgain_inv inv closed accepted s.timers (.inr inside)
    simpa [inside,connectAgain] using again
  | startTimer =>
    simp only [step,startTimer] at h
    split at h
    · cases h
      exact inv.keep handle Iff.rfl _ _
    · cases h
  | timer accepted =>
    simp only [step,timer] at h
    split at h
    · rename_i enabled
      cases h
      have again := connectAgain_inv inv reopens accepted (s.timers - 1) (.inl enabled.1)
      simpa [enabled.1,connectAgain] using again
    · cases h

theorem step_undisciplined {a : Action} (inv : Inv s) (other : ¬ s.Reopens a) (h : step s a = some s') :
    ¬ Disciplined s'.tcp.localTcp.calls := by
  cases a with
  | reConnect accepted =>
    simp only [step,reConnect] at h
    split at h
    · rename_i inside
      cases h
      exact reConnect_undisciplined inv.handle (inv.connectCb true inside)
    · rename_i reConnected inside
      cases h
      refine reConnect_undisciplined inv.handle fun closed => other ?_
      rw [Reopens,inside,(inv.closeCb reConnected inside).mp closed]
    · cases h
  | timer accepted =>
    simp only [step,timer] at h
    split at h
    · cases h
      exact reConnect_undisciplined inv.handle other
    · cases h
  | _ => exact absurd trivial other

/-- Over every run of a client, the handle is initialised only when it is new or closed,
closed once and called back once in each round, exactly if reConnect is called at most
once in each close callback and never after a failed connect before a close callback. -/
theorem disciplined_iff (buf : CharVector) (accepted : Bool) (actions : List Action) (s : Lifecycle)
    (run : Transition.run step (start buf accepted) actions = some s) :
    Transition.Along step (fun s => Disciplined s.tcp.localTcp.calls) (start buf accepted) actions ↔
      Transition.Meets step Reopens (start buf accepted) actions :=
  Transition.along_iff_meets (fun _ inv => inv.handle.disciplined) (fun _ _ _ => step_inv)
    (fun _ _ _ => step_undisciplined) (start_inv buf accepted) run

/-- The read fails, and reConnect is called in the close callback. -/
theorem disciplined_iff_reopened : Transition.Along step (fun s => Disciplined s.tcp.localTcp.calls)
    (start ⟨none,0,0⟩ true) [.onConnect 0,.endCallback,.onRead (-104) true,.onClose,.reConnect true,.endCallback] := by
  obtain ⟨s,run⟩ := Option.isSome_iff_exists.mp (show (Transition.run step (start ⟨none,0,0⟩ true)
    [.onConnect 0,.endCallback,.onRead (-104) true,.onClose,.reConnect true,.endCallback]).isSome by decide)
  exact (disciplined_iff _ _ _ s run).mpr (by decide)

/-- reConnect in the callback of a failed connect initialises an open handle. -/
theorem failed_connect_reinitialised : ∃ s, Transition.run step (start ⟨none,0,0⟩ true)
      [.onConnect (-111),.reConnect true] = some s ∧ ¬ Disciplined s.tcp.localTcp.calls := by
  refine ⟨_,rfl,fun disciplined => ?_⟩
  have allowed := disciplined [.tcpInit] .tcpInit [] rfl
  exact absurd (allowed (by decide)) (by decide)

end Lifecycle
end UvRpc
