import UvRpc.PeerKey
import UvRpc.TcpConnection
import UvRpc.Transition

/-! ConnectionManager keeps the connections of a server in connMap, under the keys that
getKey prints for them. Listeners accept and add, the loops run the close callbacks and
free; the map is locked for each of its operations only. -/

namespace UvRpc

namespace ConnectionManager

/-- How far onNewConnection is with a connection: its loop has yet to run the closure
when it is `posted`, and has run it when it is `started`. -/
inductive Stage where
  | accepted | added | posted | started
  deriving DecidableEq, Repr

/-- A connection of the server. `ret` is what uv_accept has answered for it, and
`freeing` is set while onClose has not yet come to freeConnection. -/
structure Session where
  peer : Peer
  tcp : TcpConnection
  infoKey : List UInt8
  ret : Int
  stage : Stage
  freeing : Bool
  deriving DecidableEq

abbrev ConnMap := AList fun _ : List UInt8 => Nat

/-- The insert of std::map: an entry that is there stays. -/
def ConnMap.insertNew (m : ConnMap) (key : List UInt8) (c : Nat) : ConnMap :=
  if key ∈ m then m else m.insert key c

def ConnMap.addConnection (m : ConnMap) (key : List UInt8) (c : Nat) : ConnMap × Nat :=
  let m := m.insertNew key c
  (m,m.keys.length)

def ConnMap.freeConnection (m : ConnMap) (key : List UInt8) : ConnMap × Bool :=
  if key ∈ m then (m.erase key,true) else (m,false)

/-- `addr` is what getpeername has left in the variable that getKey prints: the peer's
address, or whatever was there when the call has failed. -/
inductive Action (T : Type*) where
  | onNewConnection (t : T) (peer : Peer) (addr : Nat → UInt8) (buf : CharVector) (ret : Int)
  | addConnection (t : T)
  | runInLoopEn (t : T)
  | start (c : Nat)
  | close (c : Nat)
  | onClose (c : Nat)
  | freeConnection (c : Nat) (addr : Nat → UInt8)

end ConnectionManager

/-- Connections are numbered as they are accepted. `accepting` says which connection a
listener thread has in its onNewConnection, and `freed` which entry each freeConnection
has removed. -/
structure ConnectionManager (T : Type*) where
  connMap : ConnectionManager.ConnMap
  conns : List ConnectionManager.Session
  accepting : T → Option Nat
  freed : List (Nat × Option Nat)

namespace ConnectionManager

section
variable (inet_ntoa : (Fin 4 → UInt8) → List UInt8) (inet_ntop : (Fin 16 → UInt8) → List UInt8)

def Session.getKey (x : Session) (addr : Nat → UInt8) : Session :=
  {x with infoKey := keyFrom inet_ntoa inet_ntop x.infoKey addr}

def accepted (peer : Peer) (addr : Nat → UInt8) (buf : CharVector) (ret : Int) : Session :=
  let tcp := {TcpConnection.make buf with remoteTcp := UvTcp.fresh.tcpInit}
  Session.getKey inet_ntoa inet_ntop ⟨peer,tcp,[],ret,.accepted,false⟩ addr

variable {T : Type*} [DecidableEq T]

/-- Up to addConnection. A peer comes back from the same address only when uv_close has
been called on the connection that it had. -/
def onNewConnection (s : ConnectionManager T) (t : T) (peer : Peer) (addr : Nat → UInt8) (buf : CharVector)
    (ret : Int) : Option (ConnectionManager T) :=
  if s.accepting t = none ∧
      (ret = 0 → ∀ x ∈ s.conns, x.ret = 0 → x.peer.identity = peer.identity → x.tcp.remoteTcp.isClosing) then
    some {s with
      conns := s.conns ++ [accepted inet_ntoa inet_ntop peer addr buf ret]
      accepting := Function.update s.accepting t (some s.conns.length)}
  else none

def atHand (s : ConnectionManager T) (t : T) (stage : Stage) : Option (Nat × Session) :=
  (s.accepting t).bind fun c => (s.conns[c]?.filter fun x => x.stage = stage).map fun x => (c,x)

def addConnection (s : ConnectionManager T) (t : T) : Option (ConnectionManager T) :=
  (s.atHand t .accepted).map fun (c,x) => {s with
    connMap := (s.connMap.addConnection x.infoKey c).1
    conns := s.conns.set c {x with stage := .added}}

/-- The end of onNewConnection, which lets go of its pointer. -/
def runInLoopEn (s : ConnectionManager T) (t : T) : Option (ConnectionManager T) :=
  (s.atHand t .added).map fun (c,x) => {s with
    conns := s.conns.set c {x with stage := .posted}
    accepting := Function.update s.accepting t none}

def session (s : ConnectionManager T) (c : Nat) (stage : Stage) : Option Session :=
  s.conns[c]?.filter fun x => x.stage = stage

def start (s : ConnectionManager T) (c : Nat) : Option (ConnectionManager T) :=
  (s.session c .posted).map fun x =>
    let tcp := if x.ret = 0 then x.tcp else {x.tcp with remoteTcp := x.tcp.remoteTcp.close}
    {s with conns := s.conns.set c {x with tcp := tcp, stage := .started}}

def close (s : ConnectionManager T) (c : Nat) : Option (ConnectionManager T) :=
  (s.session c .started).map fun x => {s with conns := s.conns.set c {x with tcp := x.tcp.close}}

/-- libuv runs the close callback, up to freeConnection. -/
def onClose (s : ConnectionManager T) (c : Nat) : Option (ConnectionManager T) :=
  ((s.session c .started).filter fun x => x.tcp.remoteTcp.phase = .closing).map fun x =>
    {s with conns := s.conns.set c {x with tcp := x.tcp.runCloseCb, freeing := true}}

def freeConnection (s : ConnectionManager T) (c : Nat) (addr : Nat → UInt8) : Option (ConnectionManager T) :=
  ((s.session c .started).filter fun x => x.freeing).map fun x =>
    let x := x.getKey inet_ntoa inet_ntop addr
    {s with
      connMap := (s.connMap.freeConnection x.infoKey).1
      conns := s.conns.set c {x with freeing := false}
      freed := s.freed ++ [(c,s.connMap.lookup x.infoKey)]}

def step (s : ConnectionManager T) : Action T → Option (ConnectionManager T)
  | .onNewConnection t peer addr buf ret => s.onNewConnection inet_ntoa inet_ntop t peer addr buf ret
  | .addConnection t => s.addConnection t
  | .runInLoopEn t => s.runInLoopEn t
  | .start c => s.start c
  | .close c => s.close c
  | .onClose c => s.onClose c
  | .freeConnection c addr => s.freeConnection inet_ntoa inet_ntop c addr

end

variable {T : Type*} [DecidableEq T]

def init : ConnectionManager T := ⟨∅,[],fun _ => none,[]⟩

/-! What each action needs and does. -/

variable {s s' : ConnectionManager T} {t : T} {c : Nat} {x : Session}
  {inet_ntoa : (Fin 4 → UInt8) → List UInt8} {inet_ntop : (Fin 16 → UInt8) → List UInt8}

theorem Session.getKey_cached (keyed : x.infoKey ≠ []) (addr : Nat → UInt8) :
    x.getKey inet_ntoa inet_ntop addr = x := by
  rw [getKey,keyFrom_kept inet_ntoa inet_ntop keyed]

omit [DecidableEq T] in
theorem atHand_some {stage : Stage} (h : s.atHand t stage = some (c,x)) :
    s.accepting t = some c ∧ s.conns[c]? = some x ∧ x.stage = stage := by
  obtain ⟨d,accepting,found⟩ := Option.bind_eq_some_iff.mp h
  obtain ⟨y,found,same⟩ := Option.map_eq_some_iff.mp found
  cases same
  obtain ⟨found,at_stage⟩ := Option.filter_eq_some_iff.mp found
  exact ⟨accepting,found,by simpa using at_stage⟩

omit [DecidableEq T] in
theorem session_some {stage : Stage} (h : s.session c stage = some x) : s.conns[c]? = some x ∧ x.stage = stage := by
  obtain ⟨found,at_stage⟩ := Option.filter_eq_some_iff.mp h
  exact ⟨found,by simpa using at_stage⟩

theorem onNewConnection_some {peer : Peer} {addr : Nat → UInt8} {buf : CharVector} {ret : Int}
    (h : s.onNewConnection inet_ntoa inet_ntop t peer addr buf ret = some s') :
    s.accepting t = none ∧ s' = {s with
      conns := s.conns ++ [accepted inet_ntoa inet_ntop peer addr buf ret]
      accepting := Function.update s.accepting t (some s.conns.length)} := by
  simp only [onNewConnection] at h
  split at h
  · rename_i enabled
    exact ⟨enabled.1,(Option.some.inj h).symm⟩
  · cases h

omit [DecidableEq T] in
theorem addConnection_some (h : s.addConnection t = some s') :
    ∃ c x, s.accepting t = some c ∧ s.conns[c]? = some x ∧ x.stage = .accepted ∧ s' = {s with
      connMap := s.connMap.insertNew x.infoKey c
      conns := s.conns.set c {x with stage := .added}} := by
  obtain ⟨⟨c,x⟩,found,same⟩ := Option.map_eq_some_iff.mp h
  obtain ⟨accepting,found,at_stage⟩ := atHand_some found
  exact ⟨c,x,accepting,found,at_stage,same.symm⟩

theorem runInLoopEn_some (h : s.runInLoopEn t = some s') :
    ∃ c x, s.accepting t = some c ∧ s.conns[c]? = some x ∧ x.stage = .added ∧ s' = {s with
      conns := s.conns.set c {x with stage := .posted}
      accepting := Function.update s.accepting t none} := by
  obtain ⟨⟨c,x⟩,found,same⟩ := Option.map_eq_some_iff.mp h
  obtain ⟨accepting,found,at_stage⟩ := atHand_some found
  exact ⟨c,x,accepting,found,at_stage,same.symm⟩

section
omit [DecidableEq T]

theorem start_some (h : s.start c = some s') :
    ∃ x tcp, s.conns[c]? = some x ∧ x.stage = .posted ∧
      (tcp = x.tcp ∨ tcp = {x.tcp with remoteTcp := x.tcp.remoteTcp.close}) ∧
      s' = {s with conns := s.conns.set c {x with tcp := tcp, stage := .started}} := by
  obtain ⟨x,found,same⟩ := Option.map_eq_some_iff.mp h
  obtain ⟨found,at_stage⟩ := session_some found
  refine ⟨x,_,found,at_stage,?_,same.symm⟩
  split
  · exact .inl rfl
  · exact .inr rfl

theorem close_some (h : s.close c = some s') :
    ∃ x, s.conns[c]? = some x ∧ x.stage = .started ∧
      s' = {s with conns := s.conns.set c {x with tcp := x.tcp.close}} := by
  obtain ⟨x,found,same⟩ := Option.map_eq_some_iff.mp h
  obtain ⟨found,at_stage⟩ := session_some found
  exact ⟨x,found,at_stage,same.symm⟩

theorem onClose_some (h : s.onClose c = some s') :
    ∃ x, s.conns[c]? = some x ∧ x.stage = .started ∧ x.tcp.remoteTcp.phase = .closing ∧
      s' = {s with conns := s.conns.set c {x with tcp := x.tcp.runCloseCb, freeing := true}} := by
  obtain ⟨x,found,same⟩ := Option.map_eq_some_iff.mp h
  obtain ⟨found,closing⟩ := Option.filter_eq_some_iff.mp found
  obtain ⟨found,at_stage⟩ := session_some found
  exact ⟨x,found,at_stage,by simpa using closing,same.symm⟩

theorem freeConnection_some {addr : Nat → UInt8} (h : s.freeConnection inet_ntoa inet_ntop c addr = some s') :
    ∃ x, s.conns[c]? = some x ∧ x.stage = .started ∧ x.freeing ∧ s' = {s with
      connMap := (s.connMap.freeConnection (x.getKey inet_ntoa inet_ntop addr).infoKey).1
      conns := s.conns.set c {x.getKey inet_ntoa inet_ntop addr with freeing := false}
      freed := s.freed ++ [(c,s.connMap.lookup (x.getKey inet_ntoa inet_ntop addr).infoKey)]} := by
  obtain ⟨x,found,same⟩ := Option.map_eq_some_iff.mp h
  obtain ⟨found,freeing⟩ := Option.filter_eq_some_iff.mp found
  obtain ⟨found,at_stage⟩ := session_some found
  exact ⟨x,found,at_stage,freeing,same.symm⟩

end

/-! The map. -/

theorem ConnMap.insertNew_absent {m : ConnMap} {key : List UInt8} (absent : m.lookup key = none) (c : Nat) :
    m.insertNew key c = m.insert key c := if_neg (AList.lookup_eq_none.mp absent)

theorem ConnMap.insertNew_present {m : ConnMap} {key : List UInt8} (present : m.lookup key ≠ none) (c : Nat) :
    m.insertNew key c = m := if_pos (by rwa [ne_eq,AList.lookup_eq_none,not_not] at present)

theorem ConnMap.lookup_freeConnection (m : ConnMap) (key other : List UInt8) :
    (m.freeConnection key).1.lookup other = if other = key then none else m.lookup other := by
  unfold freeConnection
  split <;> rename_i member
  · split <;> rename_i same
    · rw [same,AList.lookup_erase]
    · rw [AList.lookup_erase_ne same]
  · split <;> rename_i same
    · rw [same,AList.lookup_eq_none.mpr member]
    · rfl

/-! The property and its invariant. -/

/-- An entry of connMap holds the connection. -/
def Owns (s : ConnectionManager T) (c : Nat) : Prop := ∃ key, s.connMap.lookup key = some c

/-- Every connection that was added and whose close callback has not yet run is an entry,
and each freeConnection has removed the entry of its own connection. -/
structure Registered (s : ConnectionManager T) : Prop where
  owned : ∀ c x, s.conns[c]? = some x → x.stage ≠ .accepted → x.tcp.remoteTcp.phase ≠ .closed → s.Owns c
  freed : ∀ c removed, (c,removed) ∈ s.freed → removed = some c

/-- addConnection finds no entry under the key of its connection. -/
def Vacant (s : ConnectionManager T) : Action T → Prop
  | .addConnection t => ∀ p ∈ s.atHand t .accepted, s.connMap.lookup p.2.infoKey = none
  | _ => True

structure Session.Ok (m : ConnMap) (c : Nat) (x : Session) : Prop where
  server : x.tcp.bClient = false
  keyed : x.infoKey ≠ []
  unstarted : x.stage ≠ .started → x.tcp.remoteTcp.phase = .live ∧ x.freeing = false
  closed : x.freeing → x.tcp.remoteTcp.phase = .closed
  entry : x.stage ≠ .accepted → (x.tcp.remoteTcp.phase = .closed → x.freeing) → m.lookup x.infoKey = some c

structure Inv (s : ConnectionManager T) : Prop where
  hand : ∀ t c, s.accepting t = some c → ∃ x, s.conns[c]? = some x ∧ (x.stage = .accepted ∨ x.stage = .added)
  once : ∀ t u c, s.accepting t = some c → s.accepting u = some c → t = u
  entries : ∀ key c, s.connMap.lookup key = some c → ∃ x, s.conns[c]? = some x ∧ x.stage ≠ .accepted ∧ x.infoKey = key
  sessions : ∀ c (x : Session), s.conns[c]? = some x → x.Ok s.connMap c
  freed : ∀ c removed, (c,removed) ∈ s.freed → removed = some c

section
omit [DecidableEq T]

theorem Inv.registered (inv : Inv s) : Registered s :=
  ⟨fun c x found added running => ⟨_,(inv.sessions c x found).entry added fun closed => absurd closed running⟩,
    inv.freed⟩

theorem init_inv : Inv (init : ConnectionManager T) := by
  constructor <;> simp [init]

theorem Inv.update (inv : Inv s) {y : Session} {m : ConnMap} {freed : List (Nat × Option Nat)}
    (found : s.conns[c]? = some x) (ok : y.Ok m c)
    (hand : (∃ t, s.accepting t = some c) → y.stage = .accepted ∨ y.stage = .added)
    (entries : ∀ key d, m.lookup key = some d →
      d = c ∧ y.stage ≠ .accepted ∧ y.infoKey = key ∨ d ≠ c ∧ s.connMap.lookup key = some d)
    (others : ∀ key d, d ≠ c → s.connMap.lookup key = some d → m.lookup key = some d)
    (own : ∀ d removed, (d,removed) ∈ freed → removed = some d) :
    Inv {s with connMap := m, conns := s.conns.set c y, freed := freed} := by
  obtain ⟨inside,_⟩ := List.getElem?_eq_some_iff.mp found
  have here : (s.conns.set c y)[c]? = some y := List.getElem?_set_self inside
  have there : ∀ d, d ≠ c → (s.conns.set c y)[d]? = s.conns[d]? := fun d apart =>
    List.getElem?_set_ne (Ne.symm apart)
  refine ⟨fun t d accepting => ?_,inv.once,fun key d entry => ?_,fun d z at_d => ?_,own⟩
  · by_cases same : d = c
    · subst same; exact ⟨y,here,hand ⟨t,accepting⟩⟩
    · simpa only [there d same] using inv.hand t d accepting
  · rcases entries key d entry with ⟨rfl,added,under⟩ | ⟨apart,old⟩
    · exact ⟨y,here,added,under⟩
    · simpa only [there d apart] using inv.entries key d old
  · by_cases same : d = c
    · subst same
      rw [here] at at_d
      cases at_d
      exact ok
    · simp only [there d same] at at_d
      obtain ⟨server,keyed,unstarted,closed,entry⟩ := inv.sessions d z at_d
      exact ⟨server,keyed,unstarted,closed,fun added running => others _ d same (entry added running)⟩

theorem Inv.set (inv : Inv s) {y : Session} (found : s.conns[c]? = some x) (ok : y.Ok s.connMap c)
    (key : y.infoKey = x.infoKey) (added : x.stage ≠ .accepted → y.stage ≠ .accepted)
    (hand : (∃ t, s.accepting t = some c) → y.stage = .accepted ∨ y.stage = .added) :
    Inv {s with conns := s.conns.set c y} := by
  refine inv.update found ok hand (fun _ d entry => ?_) (fun _ _ _ entry => entry) inv.freed
  by_cases same : d = c
  · subst same
    obtain ⟨z,at_d,stage,under⟩ := inv.entries _ d entry
    rw [found] at at_d
    cases at_d
    exact .inl ⟨rfl,added stage,key.trans under⟩
  · exact .inr ⟨same,entry⟩

/-- A connection at one of the later stages is in no listener's hands. -/
theorem Inv.released (inv : Inv s) (found : s.conns[c]? = some x) (stage : x.stage = .posted ∨ x.stage = .started) :
    ¬ ∃ t, s.accepting t = some c := by
  rintro ⟨t,accepting⟩
  obtain ⟨z,at_c,early⟩ := inv.hand t c accepting
  rw [found] at at_c
  cases at_c
  rcases stage with eq | eq <;> rw [eq] at early <;> simp at early

/-- What onRead, the user and the close callback do to the handle of a started connection. -/
theorem Inv.handle (inv : Inv s) (found : s.conns[c]? = some x) (started : x.stage = .started)
    {tcp : TcpConnection} {freeing : Bool} (server : tcp.bClient = false)
    (closed : freeing → tcp.remoteTcp.phase = .closed)
    (running : (tcp.remoteTcp.phase = .closed → freeing) → x.tcp.remoteTcp.phase = .closed → x.freeing) :
    Inv {s with conns := s.conns.set c {x with tcp := tcp, freeing := freeing}} := by
  have ok := inv.sessions c x found
  refine inv.set found ⟨server,ok.keyed,?_,closed,?_⟩ rfl (fun added => added) ?_
  · simp [started]
  · exact fun added later => ok.entry added (running later)
  · exact fun held => absurd held (inv.released found (.inr started))

end

theorem onNewConnection_inv {peer : Peer} {addr : Nat → UInt8} {buf : CharVector} {ret : Int} (inv : Inv s)
    (h : s.onNewConnection inet_ntoa inet_ntop t peer addr buf ret = some s') : Inv s' := by
  obtain ⟨idle,rfl⟩ := onNewConnection_some h
  have stage : (accepted inet_ntoa inet_ntop peer addr buf ret).stage = .accepted := rfl
  have keyed : (accepted inet_ntoa inet_ntop peer addr buf ret).infoKey ≠ [] :=
    keyFrom_ne_nil inet_ntoa inet_ntop [] addr
  have fresh : (accepted inet_ntoa inet_ntop peer addr buf ret).tcp.bClient = false ∧
      (accepted inet_ntoa inet_ntop peer addr buf ret).tcp.remoteTcp.phase = .live ∧
      (accepted inet_ntoa inet_ntop peer addr buf ret).freeing = false := ⟨rfl,rfl,rfl⟩
  generalize accepted inet_ntoa inet_ntop peer addr buf ret = new at stage keyed fresh
  have last : (s.conns ++ [new])[s.conns.length]? = some new := by simp
  have before : ∀ (d : Nat) (x : Session), s.conns[d]? = some x → (s.conns ++ [new])[d]? = some x := by
    intro d x found
    obtain ⟨inside,_⟩ := List.getElem?_eq_some_iff.mp found
    rw [List.getElem?_append_left inside,found]
  have old : ∀ t c, s.accepting t = some c → c < s.conns.length := by
    intro t c accepting
    obtain ⟨x,found,_⟩ := inv.hand t c accepting
    exact (List.getElem?_eq_some_iff.mp found).1
  refine ⟨fun u d accepting => ?_,fun u v d hu hv => ?_,fun key d entry => ?_,fun d x found => ?_,inv.freed⟩
  · by_cases same : u = t
    · subst same
      simp only [Function.update_self,Option.some.injEq] at accepting
      subst accepting
      exact ⟨_,last,.inl stage⟩
    · simp only [Function.update_of_ne same] at accepting
      obtain ⟨x,found,early⟩ := inv.hand u d accepting
      exact ⟨x,before d x found,early⟩
  · have := old u d
    have := old v d
    have := inv.once u v d
    simp only [Function.update_apply] at hu hv
    split at hu <;> split at hv <;> simp_all
  · obtain ⟨x,found,added⟩ := inv.entries key d entry
    exact ⟨x,before d x found,added⟩
  · rcases Nat.lt_or_ge d s.conns.length with inside | beyond
    · rw [List.getElem?_append_left inside] at found
      exact inv.sessions d x found
    · have is_last : d = s.conns.length := by
        have := (List.getElem?_eq_some_iff.mp found).1
        simp at this; omega
      subst is_last
      rw [last] at found
      cases found
      refine ⟨fresh.1,keyed,fun _ => fresh.2,fun freeing => ?_,fun added => absurd stage added⟩
      rw [fresh.2.2] at freeing
      cases freeing

omit [DecidableEq T] in
theorem addConnection_inv (inv : Inv s) (vacant : s.Vacant (.addConnection t)) (h : s.addConnection t = some s') :
    Inv s' := by
  obtain ⟨c,x,accepting,found,stage,rfl⟩ := addConnection_some h
  have absent : s.connMap.lookup x.infoKey = none := vacant (c,x) (by simp [atHand,accepting,found,stage])
  have ok := inv.sessions c x found
  have fresh := ok.unstarted (by simp [stage])
  rw [ConnMap.insertNew_absent absent]
  refine inv.update found ⟨ok.server,ok.keyed,fun _ => fresh,ok.closed,fun _ _ => AList.lookup_insert _⟩
    (fun _ => .inr rfl) (fun key d entry => ?_) (fun key d apart entry => ?_) inv.freed
  · by_cases same : key = x.infoKey
    · subst same
      rw [AList.lookup_insert] at entry
      exact .inl ⟨(Option.some.inj entry).symm,by simp,rfl⟩
    · rw [AList.lookup_insert_ne same] at entry
      refine .inr ⟨?_,entry⟩
      rintro rfl
      obtain ⟨y,at_d,added,_⟩ := inv.entries key d entry
      rw [found] at at_d
      cases at_d
      exact added stage
  · have other : key ≠ x.infoKey := by
      rintro rfl
      rw [absent] at entry; cases entry
    rw [AList.lookup_insert_ne other]
    exact entry

theorem runInLoopEn_inv (inv : Inv s) (h : s.runInLoopEn t = some s') : Inv s' := by
  obtain ⟨c,x,accepting,found,stage,rfl⟩ := runInLoopEn_some h
  have released : Inv {s with accepting := Function.update s.accepting t none} := by
    refine ⟨fun u d hu => ?_,fun u v d hu hv => ?_,inv.entries,inv.sessions,inv.freed⟩
    · simp only [Function.update_apply] at hu
      split at hu
      · cases hu
      · exact inv.hand u d hu
    · simp only [Function.update_apply] at hu hv
      split at hu <;> split at hv <;> simp_all [inv.once u v d]
  have ok := inv.sessions c x found
  refine released.set (x := x) found ⟨ok.server,ok.keyed,?_,ok.closed,?_⟩ rfl (by simp) ?_
  · exact fun _ => ok.unstarted (by simp [stage])
  · exact fun _ => ok.entry (by simp [stage])
  · rintro ⟨u,hu⟩
    simp only [Function.update_apply] at hu
    split at hu
    · cases hu
    · rename_i other
      exact absurd (inv.once u t c hu accepting) other

omit [DecidableEq T] in
theorem start_inv (inv : Inv s) (h : s.start c = some s') : Inv s' := by
  obtain ⟨x,tcp,found,stage,handle,rfl⟩ := start_some h
  have ok := inv.sessions c x found
  have fresh := ok.unstarted (by simp [stage])
  have running : tcp.bClient = false ∧ tcp.remoteTcp.phase ≠ .closed := by
    rcases handle with rfl | rfl
    · exact ⟨ok.server,by simp [fresh]⟩
    · exact ⟨ok.server,by simp [UvTcp.close]⟩
  refine inv.set found ⟨running.1,ok.keyed,by simp,?_,?_⟩ rfl (by simp) ?_
  · intro freeing; rw [fresh.2] at freeing; cases freeing
  · exact fun _ _ => ok.entry (by simp [stage]) (by simp [fresh])
  · exact fun held => absurd held (inv.released found (.inl stage))

theorem close_server {tcp : TcpConnection} (server : tcp.bClient = false) :
    tcp.close.bClient = false ∧ (tcp.close.remoteTcp.phase = .closed ↔ tcp.remoteTcp.phase = .closed) := by
  unfold TcpConnection.close
  by_cases closing : tcp.remoteTcp.isClosing
  · simp [server,closing]
  · have running : tcp.remoteTcp.phase ≠ .closed := by
      intro closed; simp [UvTcp.isClosing,closed] at closing
    simp [server,closing,UvTcp.close,running]

section
omit [DecidableEq T]

theorem close_inv (inv : Inv s) (h : s.close c = some s') : Inv s' := by
  obtain ⟨x,found,stage,rfl⟩ := close_some h
  have ok := inv.sessions c x found
  obtain ⟨server,closed⟩ := close_server ok.server
  exact inv.handle found stage server (fun freeing => closed.mpr (ok.closed freeing))
    fun later closed' => later (closed.mpr closed')

theorem onClose_inv (inv : Inv s) (h : s.onClose c = some s') : Inv s' := by
  obtain ⟨x,found,stage,closing,rfl⟩ := onClose_some h
  have ok := inv.sessions c x found
  refine inv.handle found stage ?_ ?_ ?_
  · simp [TcpConnection.runCloseCb,TcpConnection.onClose,ok.server]
  · simp [TcpConnection.runCloseCb,TcpConnection.onClose,ok.server,UvTcp.runCloseCb]
  · intro _ closed; rw [closing] at closed; cases closed

theorem freeConnection_inv {addr : Nat → UInt8} (inv : Inv s)
    (h : s.freeConnection inet_ntoa inet_ntop c addr = some s') : Inv s' := by
  obtain ⟨x,found,stage,freeing,rfl⟩ := freeConnection_some h
  have ok := inv.sessions c x found
  have entry := ok.entry (by simp [stage]) fun _ => freeing
  rw [Session.getKey_cached ok.keyed]
  refine inv.update found ⟨ok.server,ok.keyed,by simp [stage],by simp,?_⟩ ?_ ?_ ?_ ?_
  · intro _ running
    exact absurd (running (ok.closed freeing)) (by simp)
  · exact fun held => absurd held (inv.released found (.inr stage))
  · intro key d there
    rw [ConnMap.lookup_freeConnection] at there
    split at there
    · cases there
    · rename_i other
      refine .inr ⟨?_,there⟩
      rintro rfl
      obtain ⟨y,at_d,_,under⟩ := inv.entries key d there
      rw [found] at at_d
      cases at_d
      exact other under.symm
  · intro key d apart there
    rw [ConnMap.lookup_freeConnection,if_neg]
    · exact there
    · rintro rfl
      rw [entry] at there
      exact apart (Option.some.inj there).symm
  · intro d removed member
    rcases List.mem_append.mp member with old | new
    · exact inv.freed d removed old
    · cases List.mem_singleton.mp new
      exact entry

end

theorem step_inv {a : Action T} (inv : Inv s) (vacant : s.Vacant a) (h : step inet_ntoa inet_ntop s a = some s') :
    Inv s' := by
  cases a with
  | onNewConnection t peer addr buf ret => exact onNewConnection_inv inv h
  | addConnection t => exact addConnection_inv inv vacant h
  | runInLoopEn t => exact runInLoopEn_inv inv h
  | start c => exact start_inv inv h
  | close c => exact close_inv inv h
  | onClose c => exact onClose_inv inv h
  | freeConnection c addr => exact freeConnection_inv inv h

/-- A connection whose key is taken does not become an entry. -/
theorem step_unowned {a : Action T} (inv : Inv s) (taken : ¬ s.Vacant a)
    (h : step inet_ntoa inet_ntop s a = some s') : ¬ Registered s' := by
  cases a with
  | addConnection t =>
    obtain ⟨c,x,accepting,found,stage,rfl⟩ := addConnection_some h
    have present : s.connMap.lookup x.infoKey ≠ none := by
      simpa [Vacant,atHand,accepting,found,stage] using taken
    obtain ⟨inside,_⟩ := List.getElem?_eq_some_iff.mp found
    have fresh := (inv.sessions c x found).unstarted (by simp [stage])
    intro registered
    obtain ⟨key,entry⟩ := registered.owned c {x with stage := .added} (by simp [inside]) (by simp) (by simp [fresh])
    rw [ConnMap.insertNew_present present] at entry
    obtain ⟨y,at_c,added,_⟩ := inv.entries key c entry
    rw [found] at at_c
    cases at_c
    exact added stage
  | _ => exact absurd trivial taken

/-- Over every run, every connection that was added stays an entry until its close
callback runs, and freeConnection removes its own entry only, exactly if no connection
is added while there is an entry under its key. -/
theorem registered_iff (inet_ntoa : (Fin 4 → UInt8) → List UInt8) (inet_ntop : (Fin 16 → UInt8) → List UInt8)
    (actions : List (Action T)) (s : ConnectionManager T)
    (run : Transition.run (step inet_ntoa inet_ntop) init actions = some s) :
    Transition.Along (step inet_ntoa inet_ntop) Registered init actions ↔
      Transition.Meets (step inet_ntoa inet_ntop) Vacant init actions :=
  Transition.along_iff_meets (fun _ => Inv.registered) (fun _ _ _ => step_inv) (fun _ _ _ => step_unowned)
    init_inv run

instance vacantDecidable (s : ConnectionManager T) : (a : Action T) → Decidable (s.Vacant a)
  | .addConnection t => inferInstanceAs (Decidable (∀ p ∈ s.atHand t .accepted, s.connMap.lookup p.2.infoKey = none))
  | .onNewConnection _ _ _ _ _ | .runInLoopEn _ | .start _ | .close _ | .onClose _ | .freeConnection _ _ => isTrue trivial

/-- A client is accepted, added and read from. getpeername answers, on a clean stack. -/
def serve (peer : Peer) (c : Nat) : List (Action Unit) :=
  [.onNewConnection () peer (uvTcpGetpeername peer fun _ => 0) ⟨none,0,0⟩ 0,.addConnection (),.runInLoopEn (),.start c]

def leave (c : Nat) : List (Action Unit) := [.close c,.onClose c,.freeConnection c fun _ => 0]

theorem registered_iff_later : Transition.Along (step dotted fun _ => []) Registered init
    (serve (loopback 40000) 0 ++ leave 0 ++ serve (loopback 40000) 1) := by
  obtain ⟨s,run⟩ := Option.isSome_iff_exists.mp (show (Transition.run (step dotted fun _ => []) init
    (serve (loopback 40000) 0 ++ leave 0 ++ serve (loopback 40000) 1)).isSome by decide +kernel)
  exact (registered_iff dotted (fun _ => []) _ s run).mpr (by decide +kernel)

omit [DecidableEq T] in
/-- Connection 1 is open and no entry. -/
theorem lost_of_seen (seen : (s.conns[1]?.any fun x => x.stage ≠ .accepted ∧ x.tcp.remoteTcp.phase ≠ .closed) &&
    s.connMap.entries.all fun e => e.2 ≠ 1) : ¬ Registered s := by
  obtain ⟨running,unowned⟩ := (Bool.and_eq_true _ _).mp seen
  obtain ⟨x,found,running⟩ := (Option.any_eq_true _ _).mp running
  intro registered
  simp only [decide_eq_true_eq] at running
  obtain ⟨key,entry⟩ := registered.owned 1 x found running.1 running.2
  simpa using List.all_eq_true.mp unowned _ (AList.mem_lookup_iff.mp entry)

/-- A client comes back between uv_close and the close callback: its new connection is
no entry. -/
theorem early_peer_lost : ∃ s, Transition.run (step dotted fun _ => []) init
    (serve (loopback 40000) 0 ++ [.close 0] ++ serve (loopback 40000) 1) = some s ∧ ¬ Registered s := by
  have seen : (Transition.run (step dotted fun _ => []) init
      (serve (loopback 40000) 0 ++ [.close 0] ++ serve (loopback 40000) 1)).any fun s =>
    (s.conns[1]?.any fun x => x.stage ≠ .accepted ∧ x.tcp.remoteTcp.phase ≠ .closed) &&
      s.connMap.entries.all fun e => e.2 ≠ 1 := by decide +kernel
  obtain ⟨s,run,seen⟩ := (Option.any_eq_true _ _).mp seen
  exact ⟨s,run,lost_of_seen seen⟩

/-- The keys of ::1 and ::2 at one port are the same, and the second is no entry while both
are connected. -/
theorem second_peer_lost : ∃ s, Transition.run (step dotted fun _ => []) init
    (serve (loopback6 50000) 0 ++ serve (.v6 ![0,0,0,0,0,0,0,0,0,0,0,0,0,0,0,2] 50000 0 0) 1) = some s ∧
      ¬ Registered s := by
  have seen : (Transition.run (step dotted fun _ => []) init
      (serve (loopback6 50000) 0 ++ serve (.v6 ![0,0,0,0,0,0,0,0,0,0,0,0,0,0,0,2] 50000 0 0) 1)).any fun s =>
    (s.conns[1]?.any fun x => x.stage ≠ .accepted ∧ x.tcp.remoteTcp.phase ≠ .closed) &&
      s.connMap.entries.all fun e => e.2 ≠ 1 := by decide +kernel
  obtain ⟨s,run,seen⟩ := (Option.any_eq_true _ _).mp seen
  exact ⟨s,run,lost_of_seen seen⟩

end ConnectionManager
end UvRpc
