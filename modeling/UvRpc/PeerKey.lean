import UvRpc.Decimal
import UvRpc.DataPacket

/-! The key under which a connection is managed: getKey prints the peer's socket address.
libuv fills in a sockaddr_in or a sockaddr_in6, whose layouts overlap, and the caller says
which of the two the bytes are read as. inet_ntoa and inet_ntop are parameters. -/
namespace UvRpc

/-- The peer of a connection, as uv_tcp_getpeername knows it. -/
inductive Peer where
  | v4 (addr : Fin 4 → UInt8) (port : UInt16)
  | v6 (addr : Fin 16 → UInt8) (port : UInt16) (flowinfo scope_id : Fin 4 → UInt8)
  deriving DecidableEq

inductive IPV where
  | Ipv4 | Ipv6
  deriving DecidableEq, Repr

namespace Peer

def port : Peer → UInt16
  | v4 _ port => port
  | v6 _ port _ _ => port

def identity : Peer → IPV × List UInt8 × UInt16
  | v4 addr port => (.Ipv4,List.ofFn addr,port)
  | v6 addr port _ _ => (.Ipv6,List.ofFn addr,port)

/-- sin_port and sin6_port are in network order. -/
def netPort (port : UInt16) : List UInt8 :=
  [(DataHeader.htons port.toNat).1,(DataHeader.htons port.toNat).2]

/-- sockaddr_in: family, port, address and padding. sockaddr_in6: family, port, flow
information, address and scope. -/
def sockaddr : Peer → List UInt8
  | v4 addr port => [2,0] ++ netPort port ++ List.ofFn addr ++ List.replicate 8 0
  | v6 addr port flowinfo scope_id =>
    [10,0] ++ netPort port ++ List.ofFn flowinfo ++ List.ofFn addr ++ List.ofFn scope_id

/-- The four bytes at offset 4: sin_addr of one layout, sin6_flowinfo of the other. -/
def offset4 : Peer → Fin 4 → UInt8
  | v4 addr _ => addr
  | v6 _ _ flowinfo _ => flowinfo

end Peer

/-- A sockaddr_storage on the stack, of which getpeername fills in a front part. -/
def uvTcpGetpeername (client : Peer) (stack : Nat → UInt8) : Nat → UInt8 :=
  fun i => client.sockaddr.getD i (stack i)

section
variable (inet_ntoa : (Fin 4 → UInt8) → List UInt8) (inet_ntop : (Fin 16 → UInt8) → List UInt8)

/-- The text, and the port in host order. -/
def getIpAndPort (addr : Nat → UInt8) (ipv : IPV) : List UInt8 × Nat :=
  match ipv with
  | .Ipv6 => (inet_ntop fun i => addr (8 + i.val),DataHeader.ntohs (addr 2,addr 3))
  | .Ipv4 => (inet_ntoa fun i => addr (4 + i.val),DataHeader.ntohs (addr 2,addr 3))

/-- uv_tcp_getpeername has left `addr` behind; its result is ignored. -/
def addrToStr (addr : Nat → UInt8) (ipv : IPV) : List UInt8 :=
  let (out,port) := getIpAndPort inet_ntoa inet_ntop addr ipv
  out ++ 58 :: Decimal.print port

/-- The key is computed once and kept in infoKey. -/
def keyFrom (infoKey : List UInt8) (addr : Nat → UInt8) : List UInt8 :=
  if infoKey = [] then addrToStr inet_ntoa inet_ntop addr .Ipv4 else infoKey

def getKey (infoKey : List UInt8) (remote : Peer) (stack : Nat → UInt8) : List UInt8 :=
  keyFrom inet_ntoa inet_ntop infoKey (uvTcpGetpeername remote stack)

theorem keyFrom_ne_nil (infoKey : List UInt8) (addr : Nat → UInt8) :
    keyFrom inet_ntoa inet_ntop infoKey addr ≠ [] := by
  unfold keyFrom
  split
  · simp [addrToStr]
  · assumption

theorem keyFrom_kept {infoKey : List UInt8} (computed : infoKey ≠ []) (addr : Nat → UInt8) :
    keyFrom inet_ntoa inet_ntop infoKey addr = infoKey := if_neg computed

variable {inet_ntoa inet_ntop}

theorem getpeername_port (p : Peer) (stack : Nat → UInt8) :
    DataHeader.ntohs (uvTcpGetpeername p stack 2,uvTcpGetpeername p stack 3) = p.port.toNat := by
  have bytes : (uvTcpGetpeername p stack 2,uvTcpGetpeername p stack 3) = DataHeader.htons p.port.toNat := by
    cases p <;> rfl
  rw [bytes,DataHeader.ntohs_htons]
  exact Nat.mod_eq_of_lt p.port.toNat_lt

theorem getpeername_offset4 (p : Peer) (stack : Nat → UInt8) :
    (fun i : Fin 4 => uvTcpGetpeername p stack (4 + i.val)) = p.offset4 := by
  funext i
  cases p <;> fin_cases i <;> rfl

/-- Whatever the family, the key is the text of the four bytes at offset 4, and the port. -/
theorem getKey_eq (p : Peer) (stack : Nat → UInt8) :
    getKey inet_ntoa inet_ntop [] p stack = inet_ntoa p.offset4 ++ 58 :: Decimal.print p.port.toNat := by
  rw [getKey,keyFrom,if_pos rfl,addrToStr,getIpAndPort,getpeername_port,getpeername_offset4]

/-- Two different peers get different keys exactly when their ports differ, or the bytes
that are the address of an IPv4 peer and the flow information of an IPv6 peer. -/
theorem keys_differ_iff (ntoa_injective : Function.Injective inet_ntoa) (p q : Peer) (stack stack' : Nat → UInt8) :
    (p.identity ≠ q.identity →
        getKey inet_ntoa inet_ntop [] p stack ≠ getKey inet_ntoa inet_ntop [] q stack') ↔
      p.identity = q.identity ∨ p.port ≠ q.port ∨ p.offset4 ≠ q.offset4 := by
  have printed : getKey inet_ntoa inet_ntop [] p stack = getKey inet_ntoa inet_ntop [] q stack' ↔
      p.port = q.port ∧ p.offset4 = q.offset4 := by
    rw [getKey_eq,getKey_eq]
    constructor
    · intro same
      obtain ⟨text,port⟩ := Decimal.append_print_inj (by decide) same
      exact ⟨UInt16.toNat_inj.mp port,ntoa_injective text⟩
    · rintro ⟨port,bytes⟩
      rw [port,bytes]
  rw [ne_eq (getKey _ _ _ _ _),printed,not_and_or,← or_iff_not_imp_left]

def dotted (a : Fin 4 → UInt8) : List UInt8 :=
  Decimal.print (a 0).toNat ++ 46 :: Decimal.print (a 1).toNat ++ 46 :: Decimal.print (a 2).toNat ++
    46 :: Decimal.print (a 3).toNat

theorem dotted_injective : Function.Injective dotted := by
  intro a b same
  obtain ⟨same,last⟩ := Decimal.append_print_inj (by decide) same
  obtain ⟨same,third⟩ := Decimal.append_print_inj (by decide) same
  obtain ⟨same,second⟩ := Decimal.append_print_inj (by decide) same
  have first := Decimal.print_injective same
  funext i
  fin_cases i
  · exact UInt8.toNat_inj.mp first
  · exact UInt8.toNat_inj.mp second
  · exact UInt8.toNat_inj.mp third
  · exact UInt8.toNat_inj.mp last

def loopback (port : UInt16) : Peer := .v4 ![127,0,0,1] port
def loopback6 (port : UInt16) : Peer := .v6 ![0,0,0,0,0,0,0,0,0,0,0,0,0,0,0,1] port 0 0

/-- An IPv4 and an IPv6 peer with two ports. No text of inet_ntop is needed, since
nothing is read as IPv6. -/
theorem keys_differ_loopback :
    ((loopback 40000).identity ≠ (loopback6 40001).identity →
        getKey dotted (fun _ => []) [] (loopback 40000) (fun _ => 0) ≠
          getKey dotted (fun _ => []) [] (loopback6 40001) (fun _ => 0)) ↔
      (loopback 40000).identity = (loopback6 40001).identity ∨
        (loopback 40000).port ≠ (loopback6 40001).port ∨
        (loopback 40000).offset4 ≠ (loopback6 40001).offset4 :=
  keys_differ_iff dotted_injective (loopback 40000) (loopback6 40001) (fun _ => 0) (fun _ => 0)

/-- Two IPv6 peers, ::1 and ::2, at port 50000: both keys are 0.0.0.0:50000. -/
theorem ipv6_keys_collide : ∃ p q : Peer, p.identity ≠ q.identity ∧
    ∀ (inet_ntoa : (Fin 4 → UInt8) → List UInt8) (inet_ntop : (Fin 16 → UInt8) → List UInt8)
      (stack stack' : Nat → UInt8),
      getKey inet_ntoa inet_ntop [] p stack = getKey inet_ntoa inet_ntop [] q stack' := by
  refine ⟨loopback6 50000,.v6 ![0,0,0,0,0,0,0,0,0,0,0,0,0,0,0,2] 50000 0 0,by decide,
    fun _ _ stack stack' => ?_⟩
  simp only [getKey_eq,loopback6,Peer.offset4,Peer.port]

end
end UvRpc
