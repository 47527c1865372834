import Mathlib.Data.List.Basic

/-! What a stream socket makes of its writes. The bytes of the accepted ones are sent in the
order of acceptance and some at a time, a write has succeeded only when all its bytes are
sent, and nothing is sent any more once a write has failed. -/
namespace UvRpc

/-- The accepted writes with their numbers, and how many bytes of all of them are sent. -/
structure Socket where
  writes : List (Nat × List UInt8)
  sent : Nat
  broken : Bool
  deriving DecidableEq, Repr

namespace Socket

def fresh : Socket := ⟨[],0,false⟩

def bytesOf (writes : List (Nat × List UInt8)) : List UInt8 := (writes.map Prod.snd).flatten

def bytes (k : Socket) : List UInt8 := bytesOf k.writes

def arrived (k : Socket) : List UInt8 := k.bytes.take k.sent

def accept (k : Socket) (n : Nat) (bytes : List UInt8) : Socket := {k with writes := k.writes ++ [(n,bytes)]}

def transmit (k : Socket) (n : Nat) : Option Socket :=
  if k.broken = false ∧ k.sent + n ≤ k.bytes.length then some {k with sent := k.sent + n} else none

def endOf (n : Nat) : List (Nat × List UInt8) → Option Nat
  | [] => none
  | (m,bytes) :: rest => if m = n then some bytes.length else (endOf n rest).map (bytes.length + ·)

/-- All bytes up to the end of the write `n` are sent. -/
def done (k : Socket) (n : Nat) : Bool := (endOf n k.writes).any (· ≤ k.sent)

def fail (k : Socket) (n : Nat) : Socket := {k with broken := k.broken || (endOf n k.writes).isSome}

theorem endOf_split {n e : Nat} {writes : List (Nat × List UInt8)} (ends : endOf n writes = some e) :
    ∃ front bytes back, writes = front ++ (n,bytes) :: back ∧ (bytesOf (front ++ [(n,bytes)])).length = e := by
  induction writes generalizing e with
  | nil => cases ends
  | cons first rest ih =>
    obtain ⟨m,bytes⟩ := first
    simp only [endOf] at ends
    split at ends
    · rename_i here
      subst here
      exact ⟨[],bytes,rest,rfl,by simpa [bytesOf] using Option.some.inj ends⟩
    · obtain ⟨later,found,rfl⟩ := Option.map_eq_some_iff.mp ends
      obtain ⟨front,there,back,rfl,length⟩ := ih found
      exact ⟨(m,bytes) :: front,there,back,rfl,by rw [← length]; simp [bytesOf]⟩

theorem endOf_append {n e : Nat} {writes : List (Nat × List UInt8)} (ends : endOf n writes = some e)
    (more : List (Nat × List UInt8)) : endOf n (writes ++ more) = some e := by
  induction writes generalizing e with
  | nil => cases ends
  | cons first rest ih =>
    simp only [endOf,List.cons_append] at ends ⊢
    split at ends
    · rename_i here
      rw [if_pos here]
      exact ends
    · rename_i other
      obtain ⟨later,found,same⟩ := Option.map_eq_some_iff.mp ends
      rw [if_neg other,ih found,Option.map_some,same]

theorem done_arrived {k : Socket} {n : Nat} (finished : k.done n) :
    ∃ front bytes back, k.writes = front ++ (n,bytes) :: back ∧ bytesOf (front ++ [(n,bytes)]) <+: k.arrived := by
  obtain ⟨e,ends,sent⟩ := (Option.any_eq_true _ _).mp finished
  obtain ⟨front,bytes,back,split,length⟩ := endOf_split ends
  refine ⟨front,bytes,back,split,List.prefix_take_iff.mpr ⟨?_,by rw [length]; simpa using sent⟩⟩
  rw [Socket.bytes,split]
  exact ⟨bytesOf back,by simp [bytesOf]⟩

/-- What has happened on a socket stays. -/
structure Grows (k k' : Socket) : Prop where
  writes : k.writes <+: k'.writes
  sent : k.sent ≤ k'.sent

theorem Grows.refl (k : Socket) : Grows k k := ⟨List.prefix_rfl,Nat.le_refl _⟩

theorem Grows.done {k k' : Socket} {n : Nat} (grows : Grows k k') (finished : k.done n) : k'.done n := by
  obtain ⟨e,ends,sent⟩ := (Option.any_eq_true _ _).mp finished
  obtain ⟨more,split⟩ := grows.writes
  refine (Option.any_eq_true _ _).mpr ⟨e,by rw [← split]; exact endOf_append ends more,?_⟩
  have := grows.sent
  simp only [decide_eq_true_eq] at sent ⊢
  omega

theorem accept_grows (k : Socket) (n : Nat) (bytes : List UInt8) : Grows k (k.accept n bytes) :=
  ⟨List.prefix_append _ _,Nat.le_refl _⟩

theorem fail_grows (k : Socket) (n : Nat) : Grows k (k.fail n) := ⟨List.prefix_rfl,Nat.le_refl _⟩

theorem transmit_some {k k' : Socket} {n : Nat} (taken : k.transmit n = some k') :
    k'.writes = k.writes ∧ Grows k k' := by
  simp only [transmit,Option.ite_none_right_eq_some] at taken
  obtain ⟨_,⟨⟩⟩ := taken
  exact ⟨rfl,List.prefix_rfl,Nat.le_add_right _ _⟩

end Socket
end UvRpc
