import UvRpc.CharVector
import UvRpc.Transition

/-! The vectors of one program: built one after another over a single heap, then used
through their methods in any order. A step answers none when a growth loop never ends
or the named vector does not exist. -/
namespace UvRpc
open CharVector

inductive Call
  | push_back (ch : UInt8)
  | append (buf : List UInt8)
  | reserve (n : Nat)
  | resize (n : Nat)
  | clear
  deriving DecidableEq, Repr

def Call.run (h : Heap) (v : CharVector) : Call → Option Result
  | .push_back ch => v.push_back h ch
  | .append buf => v.append h buf
  | .reserve n => v.reserve h n
  | .resize n => v.resize h n
  | .clear => some ⟨true,v.clear,h⟩

inductive Op
  | new
  | ofSize (n : Nat)
  | call (i : Nat) (c : Call)
  /-- `vecs[i].copyTo(vecs[j])` -/
  | copyTo (i j : Nat)
  deriving DecidableEq, Repr

/-- `ok` is what the last operation answered. -/
structure Vectors where
  vecs : List CharVector
  heap : Heap
  ok : Bool

namespace Vectors

def start (h : Heap) : Vectors := ⟨[],h,true⟩

/-- A constructor does not tell whether its `reserve` found memory. -/
def build (s : Vectors) (r : Result) : Vectors := ⟨s.vecs ++ [r.vec],r.heap,true⟩

def put (s : Vectors) (i : Nat) (r : Result) : Vectors := ⟨s.vecs.set i r.vec,r.heap,r.ok⟩

def step (s : Vectors) : Op → Option Vectors
  | .new => (CharVector.new s.heap).map s.build
  | .ofSize n => (CharVector.ofSize s.heap n).map s.build
  | .call i c => s.vecs[i]?.bind fun v => (c.run s.heap v).map (s.put i)
  | .copyTo i j =>
    s.vecs[i]?.bind fun v => s.vecs[j]?.bind fun other => (v.copyTo s.heap other).map (s.put j)

theorem step_cases {s t : Vectors} {op : Op} (taken : step s op = some t) :
    (∃ r n, null.reserve s.heap n = some r ∧ t = s.build r) ∨
    (∃ i v c r, op = .call i c ∧ s.vecs[i]? = some v ∧ c.run s.heap v = some r ∧ t = s.put i r) ∨
    ∃ i j v other r, op = .copyTo i j ∧ s.vecs[i]? = some v ∧ s.vecs[j]? = some other ∧
      v.copyTo s.heap other = some r ∧ t = s.put j r := by
  cases op with
  | new =>
    simp only [step,Option.map_eq_some_iff] at taken
    obtain ⟨r,built,rfl⟩ := taken
    exact .inl ⟨r,1024,built,rfl⟩
  | ofSize n =>
    simp only [step,Option.map_eq_some_iff] at taken
    obtain ⟨r,built,rfl⟩ := taken
    exact .inl ⟨r,n,built,rfl⟩
  | call i c =>
    obtain ⟨v,found,taken⟩ := Option.bind_eq_some_iff.mp taken
    obtain ⟨r,answered,rfl⟩ := Option.map_eq_some_iff.mp taken
    exact .inr (.inl ⟨i,v,c,r,rfl,found,answered,rfl⟩)
  | copyTo i j =>
    obtain ⟨v,found,taken⟩ := Option.bind_eq_some_iff.mp taken
    obtain ⟨other,found',taken⟩ := Option.bind_eq_some_iff.mp taken
    obtain ⟨r,answered,rfl⟩ := Option.map_eq_some_iff.mp taken
    exact .inr (.inr ⟨i,j,v,other,r,rfl,found,found',answered,rfl⟩)

/-- What every constructor and every method gives its vector holds of all vectors. -/
theorem all_preserved {P : CharVector → Prop} (built : ∀ {h n r}, null.reserve h n = some r → P r.vec)
    (called : ∀ {h v c r}, P v → Call.run h v c = some r → P r.vec)
    (copied : ∀ {h v other r}, P v → P other → v.copyTo h other = some r → P r.vec)
    {s t : Vectors} {op : Op} (all : ∀ v ∈ s.vecs, P v) (taken : step s op = some t) :
    ∀ v ∈ t.vecs, P v := by
  have replaced : ∀ {i : Nat} {r : Result}, P r.vec → ∀ v ∈ (s.put i r).vecs, P v := by
    intro i r new v member
    rcases List.mem_or_eq_of_mem_set member with old | rfl
    · exact all v old
    · exact new
  rcases step_cases taken with ⟨r,n,answered,rfl⟩ | ⟨i,v,c,r,_,found,answered,rfl⟩ |
    ⟨i,j,v,other,r,_,found,found',answered,rfl⟩
  · intro v member
    rcases List.mem_append.mp member with old | new
    · exact all v old
    · rw [List.mem_singleton.mp new]
      exact built answered
  · exact replaced (called (all v (List.mem_of_getElem? found)) answered)
  · exact replaced (copied (all v (List.mem_of_getElem? found))
      (all other (List.mem_of_getElem? found')) answered)

end Vectors
end UvRpc
