import UvRpc.CharVector
import UvRpc.DataPacket

/-! SimpleMsgDispatcher::onMessage: packets are cut off each received chunk, and what
is left of it is kept in the connection's vecbuf for the next one. A received chunk is
the list of its bytes, and a pointer into it the list of the bytes from there on.
Beside the onMessageParse calls the log records what the code relies on but cannot
see: each assertion, each subtraction of lengths and each read of a buffer. -/
namespace UvRpc

/-- What the header argument of onMessageParse points to. -/
inductive HeaderRef where
  | residue (base_ptr : Option Nat)
  | received (bytes : List UInt8)
  | tmpHeader (header : DataHeader)
  deriving DecidableEq, Repr

/-- One call of onMessageParse, with the vecbuf as it is at that moment. -/
structure ParseCall where
  header : HeaderRef
  payload : List UInt8
  len : Nat
  vecbuf : CharVector
  deriving DecidableEq, Repr

inductive Event where
  | parse (call : ParseCall)
  | check (holds : Bool)
  | subtract (minuend subtrahend : Nat)
  | read (count available : Nat)
  deriving DecidableEq, Repr

def Event.Safe : Event → Prop
  | .parse _ => True
  | .check holds => holds = true
  | .subtract a b => b ≤ a
  | .read count available => count ≤ available

instance (e : Event) : Decidable e.Safe := by
  cases e <;> unfold Event.Safe <;> infer_instance

/-- The part of a connection and of the process that onMessage works on. -/
structure Dispatch where
  vecbuf : CharVector
  heap : Heap
  log : List Event

namespace Dispatch

def note (d : Dispatch) (events : List Event) : Dispatch := {d with log := d.log ++ events}

def clear (d : Dispatch) : Dispatch := {d with vecbuf := d.vecbuf.clear}

def residue (d : Dispatch) : List UInt8 := d.vecbuf.contents

/-- The virtual call: `available` bytes are really there behind the pointer. -/
def onMessageParse (d : Dispatch) (header : HeaderRef) (buf : List UInt8) (len available : Nat) :
    Dispatch :=
  d.note [.read len available,.parse ⟨header,buf.take len,len,d.vecbuf⟩]

/-- The result of `append` is not looked at. -/
def copyToVec (d : Dispatch) (buf : List UInt8) (len : Nat) : Option Dispatch :=
  (d.vecbuf.append d.heap (buf.take len)).map fun r =>
    {vecbuf := r.vec, heap := r.heap, log := d.log ++ [.read len buf.length]}

/-- The loop of doMessageInNewBuf. It answers the pointer and the count it stops at. -/
def packetLoop : Nat → Dispatch → List UInt8 → Nat → Option (Dispatch × List UInt8 × Nat)
  | 0, _, _, _ => none
  | rounds + 1, d, buf, left =>
    if left ≥ DataHeader.size then
      let d := d.note [.read 2 buf.length]
      let dataLen := lenOf buf
      let header := HeaderRef.received (buf.take DataHeader.size)
      let body := buf.drop DataHeader.size
      if left = dataLen + DataHeader.size then
        some (d.onMessageParse header body dataLen body.length,body,0)
      else if left > dataLen + DataHeader.size then
        packetLoop rounds
          ((d.onMessageParse header body dataLen body.length).note
            [.subtract left (dataLen + DataHeader.size)])
          (body.drop dataLen) (left - (dataLen + DataHeader.size))
      else some (d,buf,left)
    else some (d,buf,left)

/-- Each round of the loop takes at least a header off `left`. -/
def doMessageInNewBuf (d : Dispatch) (buf : List UInt8) (len : Nat) : Option Dispatch :=
  if len = 0 then some d
  else
    (packetLoop (len + 1) d buf len).bind fun (d,buf,left) =>
      if left > 0 then d.copyToVec buf left else some d

/-- `self` is the function itself, called again in case 1). -/
def onMessageWith (self : Dispatch → List UInt8 → Option Dispatch) (d : Dispatch)
    (buf : List UInt8) : Option Dispatch :=
  let len := buf.length
  let sz := d.vecbuf.len
  if sz > 0 then
    if sz ≥ DataHeader.size then
      let header := HeaderRef.residue (d.vecbuf.base_ptr.map Block.addr)
      let dataLen := lenOf d.vecbuf.bytes
      let d := d.note [.read 2 sz,.check (sz < DataHeader.size + dataLen)]
      if sz ≥ DataHeader.size + dataLen then -- 1)
        (CharVector.ofSize d.heap d.vecbuf.cap).bind fun tmp =>
          (d.vecbuf.copyTo tmp.heap tmp.vec).bind fun copied =>
            (self {d.clear with heap := copied.heap} copied.vec.contents).bind fun d => self d buf
      else
        let need := DataHeader.size + dataLen - sz
        let d := d.note [.subtract (DataHeader.size + dataLen) sz,.check (need > 0)]
        if len ≥ need then -- 2)
          (d.copyToVec buf need).bind fun d =>
            let d := (d.onMessageParse header (d.vecbuf.bytes.drop DataHeader.size) dataLen
              (d.vecbuf.len - DataHeader.size)).clear
            (d.note [.subtract len need]).doMessageInNewBuf (buf.drop need) (len - need)
        else d.copyToVec buf len -- 3)
    else
      let need := DataHeader.size - sz
      let d := d.note [.subtract DataHeader.size sz,.check (need > 0)]
      if len < need then d.copyToVec buf len -- 4)
      else
        let tmpHeader := DataHeader.ofBytes (d.vecbuf.bytes.take sz ++ buf.take need)
        let tmpBuf := buf.drop need
        let left := len - need
        let d := d.note [.read sz sz,.read need len,.subtract len need]
        let dataLen := tmpHeader.getLen
        if dataLen > left then d.copyToVec buf len -- 5)
        else -- 6)
          let d := (d.onMessageParse (.tmpHeader tmpHeader) tmpBuf dataLen tmpBuf.length).clear
          (d.note [.subtract left dataLen]).doMessageInNewBuf (tmpBuf.drop dataLen) (left - dataLen)
  else d.doMessageInNewBuf buf len

def onMessageDepth : Nat → Dispatch → List UInt8 → Option Dispatch
  | 0 => fun _ _ => none
  | depth + 1 => onMessageWith (onMessageDepth depth)

/-- The inner calls of case 1) start from a residue that is no complete packet, so the
recursion is never deeper than two. -/
def onMessage (d : Dispatch) (buf : List UInt8) : Option Dispatch := onMessageDepth 2 d buf

def onMessages (d : Dispatch) (chunks : List (List UInt8)) : Option Dispatch :=
  chunks.foldlM onMessage d

def fresh (heap : Heap) : Option Dispatch :=
  (CharVector.new heap).map fun r => ⟨r.vec,r.heap,[]⟩

end Dispatch

def calls (log : List Event) : List ParseCall :=
  log.filterMap fun
    | .parse call => some call
    | _ => none

def deliveries (log : List Event) : List (Nat × List UInt8) :=
  log.filterMap fun
    | .parse call => some (call.len,call.payload)
    | _ => none

end UvRpc
