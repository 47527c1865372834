import UvRpc.Vectors

/-! What the vectors are for: each is a list of bytes, and a method that answers true does
to the list what its name says, while one that answers false does nothing at all. -/
namespace UvRpc
open CharVector

def Call.Effect : Call → List UInt8 → List UInt8 → Prop
  | .push_back ch, before, after => after = before ++ [ch]
  | .append buf, before, after => after = before ++ buf
  | .reserve _, before, after => after = before
  | .resize n, before, after => after.length = n ∧
      after.take (min before.length n) = before.take (min before.length n)
  | .clear, _, after => after = []

def Op.Effect : Op → List (List UInt8) → List (List UInt8) → Prop
  | .new, before, after => after = before ++ [[]]
  | .ofSize _, before, after => after = before ++ [[]]
  | .call i c, before, after =>
    ∃ old new, before[i]? = some old ∧ c.Effect old new ∧ after = before.set i new
  | .copyTo i j, before, after => ∃ source, before[i]? = some source ∧ after = before.set j source

def Call.requested (v : CharVector) : Call → Nat
  | .push_back _ => v.len + 1
  | .append buf => v.len + buf.length
  | .reserve n => n
  | .resize n => n
  | .clear => 0

/-- The room that the method promises beyond what the new contents need. -/
def Call.room : Call → Nat
  | .reserve n => n
  | _ => 0

def Op.Sized (s : Vectors) : Op → Prop
  | .new => True
  | .ofSize n => n < 2 ^ 63
  | .call i c => ∃ v ∈ s.vecs[i]?, c.requested v < 2 ^ 63
  | .copyTo i j => j < s.vecs.length ∧ ∃ v ∈ s.vecs[i]?, v.len < 2 ^ 63

instance (s : Vectors) : (op : Op) → Decidable (op.Sized s)
  | .new => inferInstanceAs (Decidable True)
  | .ofSize n => inferInstanceAs (Decidable (n < 2 ^ 63))
  | .call i c => inferInstanceAs (Decidable (∃ v ∈ s.vecs[i]?, c.requested v < 2 ^ 63))
  | .copyTo i j => inferInstanceAs (Decidable (j < s.vecs.length ∧ ∃ v ∈ s.vecs[i]?, v.len < 2 ^ 63))

def Vectors.lists (s : Vectors) : List (List UInt8) := s.vecs.map contents

/-- An operation seen from outside: sizes, capacities, contents and the answer. -/
structure Refines (s : Vectors) (op : Op) (t : Vectors) : Prop where
  size_le : ∀ v ∈ t.vecs, v.len ≤ v.cap
  cap_mono : ∀ (i : Nat) (v : CharVector), s.vecs[i]? = some v →
    ∃ w : CharVector, t.vecs[i]? = some w ∧ v.cap ≤ w.cap
  done : t.ok = true → op.Effect s.lists t.lists
  room : t.ok = true → ∀ i c, op = .call i c → ∃ w : CharVector, t.vecs[i]? = some w ∧ c.room ≤ w.cap
  failed : t.ok = false → t.vecs = s.vecs

namespace CharVector

theorem resized {v : CharVector} {n : Nat} (valid : v.Valid) (fits : n ≤ v.cap) :
    {v with len := n}.Valid ∧ {v with len := n}.contents.length = n ∧
      {v with len := n}.contents.take (min v.contents.length n) =
        v.contents.take (min v.contents.length n) := by
  have kept : {v with len := n}.Valid := ⟨fits,valid.block⟩
  refine ⟨kept,kept.contents_length,?_⟩
  rw [valid.contents_length]
  change (v.bytes.take n).take (min v.len n) = (v.bytes.take v.len).take (min v.len n)
  rw [List.take_take,List.take_take]
  congr 1
  omega

theorem resize_outcome {h : Heap} {v : CharVector} {n : Nat} (valid : v.Valid) (small : n ≤ growable) :
    ∃ r, v.resize h n = some r ∧ Outcome v (fun w => w.contents.length = n ∧
      w.contents.take (min v.contents.length n) = v.contents.take (min v.contents.length n)) r ∧ r.Granted h := by
  unfold resize
  by_cases grows : n > v.cap
  · rw [if_pos grows]
    apply reserve_then (fun w => {w with len := n}) valid small
    intro v' grown
    obtain ⟨kept,length,front⟩ := resized grown.valid grown.room
    rw [grown.contents] at front
    exact ⟨kept,rfl,length,front⟩
  · rw [if_neg grows]
    obtain ⟨kept,same⟩ := resized valid (Nat.le_of_not_gt grows)
    refine ⟨_,rfl,⟨kept,Nat.le_refl _,fun _ => same,fun failed => ?_⟩,fun succeeds => ⟨rfl,succeeds⟩⟩
    cases failed

theorem reserve_outcome {h : Heap} {v : CharVector} {n : Nat} (valid : v.Valid) (small : n ≤ growable) :
    ∃ r, v.reserve h n = some r ∧ Outcome v (fun w => w.contents = v.contents ∧ n ≤ w.cap) r ∧ r.Granted h := by
  have nothing_more : v.reserve h n =
      (v.reserve h n).map fun r => if r.ok then {r with vec := r.vec} else r := by simp
  rw [nothing_more]
  apply reserve_then (fun w => w) valid small
  intro w grown
  exact ⟨grown.valid,rfl,grown.contents,grown.room⟩

end CharVector

/-- Every method has the effect on its vector that it has on the list. -/
theorem call_outcome {h : Heap} {v : CharVector} (valid : v.Valid) (c : Call)
    (small : c.requested v < 2 ^ 63) : ∃ r, c.run h v = some r ∧
      Outcome v (fun w => c.Effect v.contents w.contents ∧ c.room ≤ w.cap) r := by
  have bounded : c.requested v ≤ growable := by unfold growable; omega
  cases c with
  | push_back ch =>
    have bound : v.len < 2 ^ 63 + 2 ^ 62 := by
      change v.len + 1 < 2 ^ 63 at small
      omega
    obtain ⟨r,answered,outcome,_⟩ := push_back_outcome (h := h) valid ch bound
    exact ⟨r,answered,outcome.mono fun w shown => ⟨shown.2,Nat.zero_le _⟩⟩
  | append buf =>
    obtain ⟨r,answered,outcome,_⟩ := append_outcome (h := h) valid buf bounded
    exact ⟨r,answered,outcome.mono fun w shown => ⟨shown.2,Nat.zero_le _⟩⟩
  | reserve n =>
    obtain ⟨r,answered,outcome,_⟩ := reserve_outcome (h := h) valid bounded
    exact ⟨r,answered,outcome⟩
  | resize n =>
    obtain ⟨r,answered,outcome,_⟩ := resize_outcome (h := h) valid bounded
    exact ⟨r,answered,outcome.mono fun w shown => ⟨shown,Nat.zero_le _⟩⟩
  | clear =>
    refine ⟨_,rfl,valid.clear,Nat.le_refl _,fun _ => ⟨clear_contents v,Nat.zero_le _⟩,?_⟩
    intro failed
    cases failed

namespace Vectors

theorem put_refines {s : Vectors} {i : Nat} {v : CharVector} {r : Result} {op : Op}
    {effect : CharVector → Prop} (valid : ∀ w ∈ s.vecs, w.Valid) (found : s.vecs[i]? = some v)
    (outcome : Outcome v effect r)
    (done : effect r.vec → op.Effect s.lists (s.lists.set i r.vec.contents))
    (room : effect r.vec → ∀ j c, op = .call j c → j = i ∧ c.room ≤ r.vec.cap) :
    (∀ w ∈ (s.put i r).vecs, w.Valid) ∧ Refines s op (s.put i r) := by
  have inside : i < s.vecs.length := (List.getElem?_eq_some_iff.mp found).1
  have placed : (s.put i r).vecs[i]? = some r.vec := List.getElem?_set_self inside
  have all : ∀ w ∈ (s.put i r).vecs, w.Valid := by
    intro w member
    rcases List.mem_or_eq_of_mem_set member with old | rfl
    · exact valid w old
    · exact outcome.valid
  refine ⟨all,fun w member => (all w member).size_le,?_,?_,?_,?_⟩
  · intro j w at_j
    by_cases same : i = j
    · subst same
      cases found.symm.trans at_j
      exact ⟨r.vec,placed,outcome.cap_mono⟩
    · exact ⟨w,(List.getElem?_set_ne same).trans at_j,Nat.le_refl _⟩
  · intro ok
    rw [show (s.put i r).lists = s.lists.set i r.vec.contents from List.map_set]
    exact done (outcome.done ok)
  · intro ok j c called
    obtain ⟨rfl,enough⟩ := room (outcome.done ok) j c called
    exact ⟨r.vec,placed,enough⟩
  · intro refused
    change s.vecs.set i r.vec = s.vecs
    rw [outcome.failed refused]
    obtain ⟨_,rfl⟩ := List.getElem?_eq_some_iff.mp found
    exact List.set_getElem_self inside

/-- A constructor adds an empty vector, also when it finds no memory. -/
theorem build_refines {s : Vectors} {n : Nat} (op : Op) (valid : ∀ w ∈ s.vecs, w.Valid)
    (small : n ≤ growable) (built : op.Effect s.lists (s.lists ++ [[]]))
    (constructs : ∀ j c, op ≠ .call j c) :
    ∃ r, null.reserve s.heap n = some r ∧ (∀ w ∈ (s.build r).vecs, w.Valid) ∧ Refines s op (s.build r) := by
  obtain ⟨r,answered,outcome,_⟩ := reserve_outcome (h := s.heap) null_valid small
  have empty : r.vec.contents = [] := by
    cases ok : r.ok with
    | true => exact (outcome.done ok).1
    | false => rw [outcome.failed ok]; rfl
  have all : ∀ w ∈ (s.build r).vecs, w.Valid := by
    intro w member
    rcases List.mem_append.mp member with old | new
    · exact valid w old
    · rw [List.mem_singleton.mp new]
      exact outcome.valid
  refine ⟨r,answered,all,fun w member => (all w member).size_le,?_,?_,?_,?_⟩
  · intro j w at_j
    exact ⟨w,(List.getElem?_append_left (List.getElem?_eq_some_iff.mp at_j).1).trans at_j,Nat.le_refl _⟩
  · intro _
    rw [show (s.build r).lists = s.lists ++ [[]] by simp [lists,build,empty]]
    exact built
  · intro _ j c called
    exact absurd called (constructs j c)
  · intro refused
    cases refused

theorem step_refines {s : Vectors} {op : Op} (valid : ∀ w ∈ s.vecs, w.Valid) (sized : op.Sized s) :
    ∃ t, step s op = some t ∧ (∀ w ∈ t.vecs, w.Valid) ∧ Refines s op t := by
  cases op with
  | new =>
    obtain ⟨r,answered,refines⟩ := build_refines (n := 1024) .new valid (by decide) rfl (by simp)
    exact ⟨s.build r,by rw [step,CharVector.new,answered]; rfl,refines⟩
  | ofSize n =>
    have small : n ≤ growable := Nat.le_trans (Nat.le_of_lt sized) (by decide)
    obtain ⟨r,answered,refines⟩ := build_refines (.ofSize n) valid small rfl (by simp)
    exact ⟨s.build r,by rw [step,CharVector.ofSize,answered]; rfl,refines⟩
  | call i c =>
    obtain ⟨v,found,small⟩ := sized
    obtain ⟨r,answered,outcome⟩ := call_outcome (h := s.heap) (valid v (List.mem_of_getElem? found)) c small
    refine ⟨s.put i r,by rw [step,found,Option.bind_some,answered]; rfl,
      put_refines valid found outcome (fun effect => ?_) fun effect j d called => ?_⟩
    · exact ⟨v.contents,r.vec.contents,by rw [lists,List.getElem?_map,found]; rfl,effect.1,rfl⟩
    · cases called
      exact ⟨rfl,effect.2⟩
  | copyTo i j =>
    obtain ⟨inside,v,found,small⟩ := sized
    have target := List.getElem?_eq_getElem inside
    obtain ⟨r,answered,outcome,_⟩ := copyTo_outcome (h := s.heap) (valid v (List.mem_of_getElem? found))
      (valid _ (List.getElem_mem inside)) (Nat.le_trans (Nat.le_of_lt small) (by decide))
    refine ⟨s.put j r,by rw [step,found,target,Option.bind_some,Option.bind_some,answered]; rfl,
      put_refines valid target outcome (fun effect => ?_) fun _ _ _ called => by cases called⟩
    exact ⟨v.contents,by rw [lists,List.getElem?_map,found]; rfl,by rw [effect.2]⟩

end Vectors

/-- Whatever the allocator answers, the vectors of a program are lists of bytes. -/
theorem vectors_refine_byte_lists (h : Heap) (ops : List Op)
    (sized : Transition.Meets Vectors.step (fun s op => op.Sized s) (Vectors.start h) ops) :
    Transition.Steps Vectors.step Refines (Vectors.start h) ops :=
  Transition.steps_of_meets (fun _ _ valid sized => Vectors.step_refines valid sized)
    (fun _ member => by cases member) sized

def scarce : Heap := ⟨fun k => if k % 3 = 0 then some ⟨k,fun _ => 0⟩ else none,0⟩

theorem vectors_refine_byte_lists_scarce :
    Transition.Steps Vectors.step Refines (Vectors.start scarce)
      [.ofSize 0,.call 0 (.append [1,2]),.ofSize 0,.call 1 (.push_back 3),.copyTo 0 1,.call 0 (.resize 100)] :=
  vectors_refine_byte_lists _ _ (by decide +kernel)

end UvRpc
