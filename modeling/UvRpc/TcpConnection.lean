import UvRpc.SimpleMsgDispatcher

/-! TcpConnection: the fields its methods share, and the methods themselves up to the
libuv calls they make. A uv_tcp_t is what libuv does with it, with the calls made on it
kept in order. -/
namespace UvRpc

/-- A handle is `never` initialised memory at first. `closed` means that its close
callback has run. -/
inductive Phase where
  | never | live | closing | closed
  deriving DecidableEq, Repr

inductive HandleCall where
  | tcpInit | close | closeCb
  deriving DecidableEq, Repr

structure UvTcp where
  phase : Phase
  calls : List HandleCall
  deriving DecidableEq, Repr

namespace UvTcp

def fresh : UvTcp := ⟨.never,[]⟩

/-- uv_tcp_init writes the handle anew, whatever it held. -/
def tcpInit (h : UvTcp) : UvTcp := ⟨.live,h.calls ++ [.tcpInit]⟩
def close (h : UvTcp) : UvTcp := ⟨.closing,h.calls ++ [.close]⟩
def runCloseCb (h : UvTcp) : UvTcp := ⟨.closed,h.calls ++ [.closeCb]⟩

/-- True from uv_close on, also after the close callback. -/
def isClosing (h : UvTcp) : Bool := h.phase = .closing ∨ h.phase = .closed

end UvTcp

/-- `sendQue` holds write requests by their number. -/
structure TcpConnection where
  bClient : Bool
  bConnected : Bool
  bClosed : Bool
  sentCount : Nat
  recvCount : Nat
  recvCountLast : Nat
  remoteTcp : UvTcp
  localTcp : UvTcp
  buf : CharVector
  sendQue : List Nat
  deriving DecidableEq, Repr

namespace TcpConnection

def make (buf : CharVector) : TcpConnection :=
  ⟨false,false,false,0,0,0,.fresh,.fresh,buf,[]⟩

/-- The handle that reads, writes and closes go to. -/
def handle (c : TcpConnection) : UvTcp := if c.bClient then c.localTcp else c.remoteTcp

/-- `connect(SocketAddr*)`. Its uv_tcp_connect is answered later, by `onConnect`. -/
def connect (c : TcpConnection) : TcpConnection :=
  {c with
    sentCount := 0, recvCount := 0, recvCountLast := 0
    bClient := true
    localTcp := c.localTcp.tcpInit}

def reConnect (c : TcpConnection) : TcpConnection := c.connect

/-- Before the user's callback. On success reading is started as well. -/
def onConnect (c : TcpConnection) (status : Int) : TcpConnection :=
  if status < 0 then {c with bConnected := false} else {c with bConnected := true}

def close (c : TcpConnection) : TcpConnection :=
  let c := {c with bConnected := false}
  if c.bClient then
    if c.localTcp.isClosing then c else {c with localTcp := c.localTcp.close}
  else
    if c.remoteTcp.isClosing then c else {c with remoteTcp := c.remoteTcp.close}

/-- The part of `onRead` that does not dispatch: errors and end of file close, nread 0
does not, and a null buffer closes (once more). -/
def onReadClose (c : TcpConnection) (nread : Int) (nullBuf : Bool) : TcpConnection :=
  let c := if nread < 0 then c.close else c
  if nullBuf then c.close else c

def onClose (c : TcpConnection) : TcpConnection := {c with bClosed := true}

/-- libuv runs the close callback of the handle: `onClose`. -/
def runCloseCb (c : TcpConnection) : TcpConnection :=
  if c.bClient then {c with localTcp := c.localTcp.runCloseCb}.onClose
  else {c with remoteTcp := c.remoteTcp.runCloseCb}.onClose

@[simp] theorem connect_buf (c : TcpConnection) : c.connect.buf = c.buf := rfl

@[simp] theorem onConnect_buf (c : TcpConnection) (status : Int) : (c.onConnect status).buf = c.buf := by
  unfold onConnect; split <;> rfl

@[simp] theorem connect_sendQue (c : TcpConnection) : c.connect.sendQue = c.sendQue := rfl

@[simp] theorem onConnect_sendQue (c : TcpConnection) (status : Int) :
    (c.onConnect status).sendQue = c.sendQue := by
  unfold onConnect; split <;> rfl

@[simp] theorem close_buf (c : TcpConnection) : c.close.buf = c.buf := by
  simp only [close]; split <;> split <;> rfl

@[simp] theorem close_sendQue (c : TcpConnection) : c.close.sendQue = c.sendQue := by
  simp only [close]; split <;> split <;> rfl

@[simp] theorem runCloseCb_buf (c : TcpConnection) : c.runCloseCb.buf = c.buf := by
  unfold runCloseCb; split <;> rfl

@[simp] theorem runCloseCb_sendQue (c : TcpConnection) : c.runCloseCb.sendQue = c.sendQue := by
  unfold runCloseCb; split <;> rfl

theorem closed_of_close {c : TcpConnection} (closed : c.close.handle.phase = .closed) :
    c.handle.phase = .closed := by
  unfold close at closed
  by_cases client : c.bClient <;> simp only [client,handle] at closed ⊢
  · by_cases closing : c.localTcp.isClosing <;> simp_all [UvTcp.close]
  · by_cases closing : c.remoteTcp.isClosing <;> simp_all [UvTcp.close]

@[simp] theorem connect_phase (c : TcpConnection) : c.connect.handle.phase = .live := rfl

theorem close_phase (c : TcpConnection) :
    c.close.handle.phase = if c.handle.isClosing then c.handle.phase else .closing := by
  unfold close
  by_cases client : c.bClient <;> simp only [client,handle]
  · by_cases closing : c.localTcp.isClosing <;> simp [closing,UvTcp.close]
  · by_cases closing : c.remoteTcp.isClosing <;> simp [closing,UvTcp.close]

@[simp] theorem runCloseCb_phase (c : TcpConnection) : c.runCloseCb.handle.phase = .closed := by
  unfold runCloseCb handle
  cases c.bClient <;> rfl

@[simp] theorem connect_bClosed (c : TcpConnection) : c.connect.bClosed = c.bClosed := rfl

@[simp] theorem onConnect_bClosed (c : TcpConnection) (status : Int) : (c.onConnect status).bClosed = c.bClosed := by
  unfold onConnect; split <;> rfl

@[simp] theorem close_bClosed (c : TcpConnection) : c.close.bClosed = c.bClosed := by
  simp only [close]; split <;> split <;> rfl

@[simp] theorem runCloseCb_bClosed (c : TcpConnection) : c.runCloseCb.bClosed = true := by
  unfold runCloseCb; split <;> rfl

theorem onConnect_handle (c : TcpConnection) (status : Int) : (c.onConnect status).handle = c.handle := by
  unfold onConnect; split <;> rfl

end TcpConnection
end UvRpc
