import UvRpc.Ring
import UvRpc.Transition

/-! The macros of Queue.h, statement by statement: each assignment reads what the ones
before it have written. -/
namespace UvRpc.Queue

variable {α : Type*} [DecidableEq α]

def init (l : Links α) (q : α) : Links α := (l.setNext q q).setPrev q q

def empty (l : Links α) (q : α) : Bool := q = l.next q

def head (l : Links α) (q : α) : α := l.next q

def add (l : Links α) (h n : α) : Links α :=
  let l := l.setNext (l.prev h) (l.next n)
  let l := l.setPrev (l.next n) (l.prev h)
  let l := l.setPrev h (l.prev n)
  l.setNext (l.prev h) h

def split (l : Links α) (h q n : α) : Links α :=
  let l := l.setPrev n (l.prev h)
  let l := l.setNext (l.prev n) n
  let l := l.setNext n q
  let l := l.setPrev h (l.prev q)
  let l := l.setNext (l.prev h) h
  l.setPrev q n

def move (l : Links α) (h n : α) : Links α :=
  if empty l h then init l n else split l h (head l h) n

def insertHead (l : Links α) (h q : α) : Links α :=
  let l := l.setNext q (l.next h)
  let l := l.setPrev q h
  let l := l.setPrev (l.next q) q
  l.setNext h q

def insertTail (l : Links α) (h q : α) : Links α :=
  let l := l.setNext q h
  let l := l.setPrev q (l.prev h)
  let l := l.setNext (l.prev q) q
  l.setPrev h q

def remove (l : Links α) (q : α) : Links α :=
  let l := l.setNext (l.prev q) (l.next q)
  l.setPrev (l.next q) (l.prev q)

/-- QUEUE_FOREACH with a body that only looks: the nodes visited, if the loop ends. -/
def foreach (l : Links α) (h : α) : Nat → α → Option (List α)
  | 0, _ => none
  | rounds + 1, q => if q ≠ h then (foreach l h rounds (l.next q)).map (q :: ·) else some []

/-! What each macro does to a ring. -/

variable {l : Links α} {h n q : α} {xs ys : List α}

theorem init_ring (l : Links α) (q : α) : (init l q).Ring q [] :=
  Links.ring_nil_iff.mpr (by simp [init])

theorem insertTail_ring (ring : l.Ring h xs) (fresh : q ∉ h :: xs) : (insertTail l h q).Ring h (xs ++ [q]) := by
  have last := ring.path.mem_last
  have apart : l.prev h ≠ q := fun same => fresh (same ▸ last)
  have other : q ≠ h := fun same => fresh (by simp [same])
  have old : ∀ x ∈ h :: xs, x ≠ q := fun x member same => fresh (same ▸ member)
  have kept : (insertTail l h q).Path h (l.prev h) (h :: xs) := by
    refine ring.path.keep (fun x member inner => ?_) fun x member inner => ?_
    · simp [insertTail,inner,old x member]
    · simp [insertTail,inner,old x member]
  refine .of_path (kept.join (Links.path_single _ q) ?_ (by simpa using fresh)) ?_
  · constructor <;> simp [insertTail,other]
  · constructor <;> simp [insertTail,apart.symm]

theorem insertHead_ring (ring : l.Ring h xs) (fresh : q ∉ h :: xs) : (insertHead l h q).Ring h (q :: xs) := by
  have other : q ≠ h := fun same => fresh (by simp [same])
  cases xs with
  | nil =>
    obtain ⟨next,prev⟩ := Links.ring_nil_iff.mp ring
    refine .of_path ((Links.path_single _ h).join (Links.path_single _ q) ?_ (by simpa using other)) ?_
    · constructor <;> simp [insertHead,next,other]
    · constructor <;> simp [insertHead,next,other]
  | cons x rest =>
    obtain ⟨⟨next,_⟩,back⟩ := ring.path.tail
    obtain ⟨once,_⟩ := List.nodup_cons.mp ring.path.once
    have later : h ≠ x := fun same => once (by simp [same])
    have new : q ≠ x := fun same => fresh (by simp [same])
    have head : ∀ y ∈ x :: rest, y ≠ h := fun y member same => once (same ▸ member)
    have old : ∀ y ∈ x :: rest, y ≠ q := fun y member same => fresh (by simp [← same,member])
    have kept : (insertHead l h q).Path x (l.prev h) (x :: rest) := by
      refine back.keep (fun y member inner => ?_) fun y member inner => ?_
      · simp [insertHead,head y member,old y member]
      · simp [insertHead,next,inner,old y member]
    have last := kept.mem_last
    have pushed := (Links.path_single _ q).join kept
      (by constructor <;> simp [insertHead,next,other]) (by simpa [new] using fun h => fresh (by simp [h]))
    refine .of_path ((Links.path_single _ h).join pushed ?_ ?_) ?_
    · constructor <;> simp [insertHead,next,new]
    · simpa [other.symm] using once
    · constructor
      · simp [insertHead,head _ last,old _ last,ring.closed]
      · simp [insertHead,next,other.symm,later]

theorem remove_ring (ring : l.Ring h (xs ++ q :: ys)) : (remove l q).Ring h (xs ++ ys) := by
  obtain ⟨a,q',front,back,⟨_,before⟩,apart⟩ :=
    (show l.Path h _ ((h :: xs) ++ q :: ys) from ring.path).cut (by simp) (by simp)
  cases back.first
  have here : a ≠ q := fun same => apart front.mem_last (by simp [same])
  cases ys with
  | nil =>
    have last : l.prev h = q := (Option.some.inj back.last).symm
    have next : l.next q = h := last ▸ ring.closed
    have kept : (remove l q).Path h a (h :: xs) := by
      refine front.keep (fun x member inner => ?_) fun x member inner => ?_
      · simp [remove,before,inner]
      · simp [remove,before,next,here.symm,inner]
    rw [List.append_nil]
    refine .of_path kept ?_
    constructor <;> simp [remove,before,next,here.symm]
  | cons y rest =>
    obtain ⟨⟨next,_⟩,tail⟩ := back.tail
    have front_kept : (remove l q).Path h a (h :: xs) := by
      refine front.keep (fun x member inner => ?_) fun x member inner => ?_
      · simp [remove,before,inner]
      · have : x ≠ y := fun same => apart member (by simp [same])
        simp [remove,before,next,here.symm,this]
    have tail_kept : (remove l q).Path y (l.prev h) (y :: rest) := by
      refine tail.keep (fun x member inner => ?_) fun x member inner => ?_
      · have : x ≠ a := fun same => apart (same ▸ front.mem_last) (List.mem_cons_of_mem _ member)
        simp [remove,before,this]
      · simp [remove,before,next,here.symm,inner]
    refine .of_path (front_kept.join tail_kept ?_ fun x here there => apart here (by simp [there])) ?_
    · constructor <;> simp [remove,before,next,here.symm]
    · have last : l.prev h ≠ a := fun same =>
        apart (same ▸ front.mem_last) (List.mem_cons_of_mem _ tail.mem_last)
      have head : h ≠ y := fun same => apart front.mem_first (by simp [same])
      constructor <;> simp [remove,before,next,here.symm,last,head,ring.closed]

/-- All of `n` is put behind `h`, and `n` itself is left out. -/
theorem add_ring (ring : l.Ring h xs) (more : l.Ring n ys) (apart : (h :: xs).Disjoint (n :: ys)) :
    (add l h n).Ring h (xs ++ ys) := by
  have last := ring.path.mem_last
  have other : l.prev h ≠ n := fun same => apart last (by simp [same])
  cases ys with
  | nil =>
    obtain ⟨next,prev⟩ := Links.ring_nil_iff.mp more
    rw [List.append_nil]
    refine ring.frame fun x member => ?_
    have old : x ≠ n := fun same => apart member (by simp [same])
    constructor
    · by_cases here : x = l.prev h
      · simp [add,next,other.symm,here,ring.closed]
      · simp [add,next,other.symm,here]
    · by_cases here : x = h <;> simp [add,next,other.symm,old,here]
  | cons y rest =>
    obtain ⟨⟨next,_⟩,tail⟩ := more.path.tail
    have inside : ∀ x ∈ y :: rest, x ∈ n :: y :: rest := fun x member => List.mem_cons_of_mem _ member
    have joint : h ≠ y := fun same => apart (a := h) (by simp) (by simp [same])
    have new_joint : n ≠ y := (List.nodup_cons.mp more.path.once).1 ∘ fun same => by simp [same]
    have front_kept : (add l h n).Path h (l.prev h) (h :: xs) := by
      refine ring.path.keep (fun x member inner => ?_) fun x member inner => ?_
      · have : x ≠ l.prev n := fun same => apart member (same ▸ inside _ tail.mem_last)
        simp [add,next,other.symm,new_joint,inner,this]
      · have : x ≠ y := fun same => apart member (by simp [same])
        simp [add,next,other.symm,inner,this]
    have tail_kept : (add l h n).Path y (l.prev n) (y :: rest) := by
      refine tail.keep (fun x member inner => ?_) fun x member inner => ?_
      · have : x ≠ l.prev h := fun same => apart (same ▸ last) (inside _ member)
        simp [add,next,other.symm,new_joint,inner,this]
      · have : x ≠ h := fun same => apart (a := x) (by simp [same]) (inside _ member)
        simp [add,next,other.symm,inner,this]
    have ends : l.prev h ≠ l.prev n := fun same => apart (same ▸ last) (inside _ tail.mem_last)
    refine .of_path (front_kept.join tail_kept ?_ fun x here there => apart here (inside x there)) ?_
    · constructor
      · simp [add,next,other.symm,new_joint,ends]
      · simp [add,next,other.symm,joint.symm]
    · constructor <;> simp [add,next,other.symm,new_joint]

/-- From `q` on the nodes go to `n`, whatever `n` was before. -/
theorem split_ring (ring : l.Ring h (xs ++ q :: ys)) (fresh : n ∉ h :: (xs ++ q :: ys)) :
    (split l h q n).Ring h xs ∧ (split l h q n).Ring n (q :: ys) := by
  obtain ⟨a,q',front,back,⟨_,before⟩,apart⟩ :=
    (show l.Path h _ ((h :: xs) ++ q :: ys) from ring.path).cut (by simp) (by simp)
  cases back.first
  have new : ∀ x ∈ (h :: xs) ++ q :: ys, x ≠ n := fun x member same => fresh (same ▸ member)
  have left : ∀ x ∈ h :: xs, x ≠ n := fun x member => new x (List.mem_append_left _ member)
  have right : ∀ x ∈ q :: ys, x ≠ n := fun x member => new x (List.mem_append_right _ member)
  have seam : ∀ x ∈ h :: xs, ∀ y ∈ q :: ys, x ≠ y := fun x hx y hy same => apart hx (same ▸ hy)
  have hq := seam h (by simp) q (by simp)
  have hn := left h (by simp)
  have qn := right q (by simp)
  have az := seam a front.mem_last _ back.mem_last
  have an := left a front.mem_last
  have zn := right _ back.mem_last
  have nexts : (split l h q n).next =
      Function.update (Function.update (Function.update l.next (l.prev h) n) n q) a h := by
    simp [split,before,qn]; rfl
  have prevs : (split l h q n).prev =
      Function.update (Function.update (Function.update l.prev n (l.prev h)) h a) q n := by
    simp [split,before,qn]; rfl
  constructor
  · have kept : (split l h q n).Path h a (h :: xs) := by
      refine front.keep (fun x member inner => ?_) fun x member inner => ?_
      · simp [nexts,inner,left x member,seam x member _ back.mem_last]
      · simp [prevs,inner,left x member,seam x member q (by simp)]
    refine .of_path kept ?_
    constructor <;> simp [nexts,prevs,hq]
  · have kept : (split l h q n).Path q (l.prev h) (q :: ys) := by
      refine back.keep (fun x member inner => ?_) fun x member inner => ?_
      · simp [nexts,inner,right x member,(seam a front.mem_last x member).symm]
      · simp [prevs,inner,right x member,(seam h (by simp) x member).symm]
    refine .of_path ((Links.path_single _ n).join kept ?_ fun x here there => ?_) ?_
    · constructor <;> simp [nexts,prevs,an.symm]
    · exact right x there (List.mem_singleton.mp here)
    · constructor <;> simp [nexts,prevs,hn.symm,qn.symm,az.symm,zn]

theorem empty_ring (ring : l.Ring h xs) : empty l h = xs.isEmpty := by
  cases xs with
  | nil => simp [empty,(Links.ring_nil_iff.mp ring).1]
  | cons x rest =>
    obtain ⟨⟨next,_⟩,_⟩ := ring.path.tail
    have once := (List.nodup_cons.mp ring.path.once).1
    have : h ≠ x := fun same => once (by simp [same])
    simp [empty,next,this]

theorem move_ring (ring : l.Ring h xs) (fresh : n ∉ h :: xs) : (move l h n).Ring h [] ∧ (move l h n).Ring n xs := by
  cases xs with
  | nil =>
    have other : h ≠ n := fun same => fresh (by simp [same])
    rw [move,empty_ring ring]
    refine ⟨ring.frame fun x member => ?_,init_ring l n⟩
    rw [List.mem_singleton.mp member]
    simp [init,other]
  | cons x rest =>
    have first : head l h = x := ring.path.tail.1.1
    rw [move,empty_ring ring,first]
    exact split_ring (show l.Ring h ([] ++ x :: rest) from ring) fresh

theorem foreach_path {z : α} {rounds : Nat} (path : l.Path q z (q :: ys)) (closed : l.next z = h) (apart : h ∉ q :: ys)
    (enough : ys.length + 1 < rounds) : foreach l h rounds q = some (q :: ys) := by
  induction ys generalizing q rounds with
  | nil =>
    obtain ⟨r,rfl⟩ : ∃ r, rounds = r + 2 := ⟨rounds - 2,by simp at enough; omega⟩
    have last : q = z := Option.some.inj path.last
    have : q ≠ h := fun same => apart (by simp [same])
    simp [foreach,this,last ▸ closed]
  | cons y rest ih =>
    obtain ⟨r,rfl⟩ : ∃ r, rounds = r + 1 := ⟨rounds - 1,by omega⟩
    obtain ⟨⟨next,_⟩,tail⟩ := path.tail
    have : q ≠ h := fun same => apart (by simp [same])
    have later := ih tail (fun member => apart (List.mem_cons_of_mem _ member)) (by simp at enough; omega)
    simp [foreach,this,next,later]

/-- The loop visits the nodes in order and comes back to the head. -/
theorem foreach_ring {rounds : Nat} (ring : l.Ring h xs) (enough : xs.length < rounds) :
    foreach l h rounds (l.next h) = some xs := by
  cases xs with
  | nil =>
    obtain ⟨r,rfl⟩ : ∃ r, rounds = r + 1 := ⟨rounds - 1,by simp at enough; omega⟩
    simp [foreach,(Links.ring_nil_iff.mp ring).1]
  | cons x rest =>
    obtain ⟨⟨next,_⟩,tail⟩ := ring.path.tail
    rw [next]
    exact foreach_path tail ring.closed (List.nodup_cons.mp ring.path.once).1 (by simpa using enough)

/-! A node that is inserted a second time while it is the last one: the way forward from
the head no longer comes back to it, but ends in a loop at that node. -/

structure Lasso (l : Links α) (h : α) (xs : List α) (q : α) : Prop where
  path : ∃ z, l.Path h z (h :: xs) ∧ l.next z = q
  loop : l.next q = q
  back : l.prev q = q ∨ l.prev q = h
  off : q ∉ h :: xs

theorem insertTail_twice (ring : l.Ring h (xs ++ [q])) : Lasso (insertTail l h q) h xs q := by
  obtain ⟨z,q',front,back,⟨next,_⟩,apart⟩ :=
    (show l.Path h _ ((h :: xs) ++ [q]) from ring.path).cut (by simp) (by simp)
  cases back.first
  have last : l.prev h = q := (Option.some.inj back.last).symm
  have off : ∀ x ∈ h :: xs, x ≠ q := fun x member same => apart member (by simp [same])
  refine ⟨⟨z,front.keep (fun x member inner => ?_) fun x member inner => ?_,?_⟩,?_,.inl ?_,fun member => off q member rfl⟩
  · simp [insertTail,last,off x member]
  · simp [insertTail,last,off x member,inner]
  · simp [insertTail,last,off z front.mem_last,next]
  · simp [insertTail,last]
  · simp [insertTail,last,(off h (by simp)).symm]

theorem Lasso.remove_first {y : α} (lasso : Lasso l h (y :: xs) q) : head l h = y ∧ Lasso (remove l y) h xs q := by
  obtain ⟨⟨z,path,closed⟩,loop,back,off⟩ := lasso
  obtain ⟨⟨first,before⟩,tail⟩ := path.tail
  obtain ⟨once,_⟩ := List.nodup_cons.mp path.once
  have here : y ≠ h := fun same => once (by simp [same])
  have head : q ≠ h := fun same => off (by simp [same])
  refine ⟨first,?_⟩
  cases xs with
  | nil =>
    have last : y = z := Option.some.inj tail.last
    have next : l.next y = q := last ▸ closed
    refine ⟨⟨h,Links.path_single _ h,?_⟩,?_,.inr ?_,by simpa using head⟩
    · simp [remove,before,next]
    · simp [remove,before,head,loop]
    · simp [remove,before,next,here]
  | cons w rest =>
    obtain ⟨⟨next,_⟩,later⟩ := tail.tail
    have ne : ∀ x ∈ w :: rest, x ≠ h := fun x member same => once (by simp [← same,member])
    have apart : q ≠ w := fun same => off (by simp [same])
    have kept : (remove l y).Path w z (w :: rest) := by
      refine later.keep (fun x member inner => ?_) fun x member inner => ?_
      · simp [remove,before,ne x member]
      · simp [remove,before,next,here,inner]
    refine ⟨⟨z,(Links.path_single _ h).join kept ?_ fun x at_head member => ne x member (by simpa using at_head),?_⟩,?_,?_,
      fun member => off (by simp only [List.mem_cons] at member ⊢; tauto)⟩
    · constructor <;> simp [remove,before,next,here]
    · simp [remove,before,ne z kept.mem_last,closed]
    · simp [remove,before,head,loop]
    · simpa [remove,before,next,here,apart] using back

theorem Lasso.remove_loop (lasso : Lasso l h [] q) : head l h = q ∧ remove l q = l := by
  obtain ⟨⟨z,path,closed⟩,loop,back,off⟩ := lasso
  have last : h = z := Option.some.inj path.last
  have first : l.next h = q := last ▸ closed
  refine ⟨first,?_⟩
  have forth : l.setNext (l.prev q) (l.next q) = l := by
    have before : l.next (l.prev q) = l.next q := by
      rcases back with same | same
      · rw [same]
      · rw [same,first,loop]
    rw [Links.setNext,← before,Function.update_eq_self]
  rw [remove,forth,loop,Links.setPrev,Function.update_eq_self]

/-! Many queues in one memory: a macro writes to the rings it is given and to no other. -/

def Same (l l' : Links α) (x : α) : Prop := l'.next x = l.next x ∧ l'.prev x = l.prev x

variable {x : α}

theorem init_far (off : x ≠ q) : Same l (init l q) x := by simp [Same,init,off]

theorem insertTail_far (ring : l.Ring h xs) (off : x ∉ h :: xs) (other : x ≠ q) : Same l (insertTail l h q) x := by
  have last : x ≠ l.prev h := fun same => off (same ▸ ring.path.mem_last)
  have head : x ≠ h := fun same => off (by simp [same])
  simp [Same,insertTail,last,head,other]

theorem insertHead_far (ring : l.Ring h xs) (off : x ∉ h :: xs) (other : x ≠ q) : Same l (insertHead l h q) x := by
  have first : x ≠ l.next h := fun same => off (same ▸ ring.next_mem (by simp))
  have head : x ≠ h := fun same => off (by simp [same])
  simp [Same,insertHead,first,head,other]

theorem remove_far (ring : l.Ring h xs) (member : q ∈ h :: xs) (off : x ∉ h :: xs) : Same l (remove l q) x := by
  have before : x ≠ l.prev q := fun same => off (same ▸ ring.prev_mem member)
  have after : x ≠ l.next q := fun same => off (same ▸ ring.next_mem member)
  have next : (l.setNext (l.prev q) (l.next q)).next q = l.next q := by
    by_cases self : q = l.prev q
    · simp [← self]
    · simp [self]
  simp only [Same,remove,next]
  simp [before,after]

theorem add_far (ring : l.Ring h xs) (more : l.Ring n ys) (apart : (h :: xs).Disjoint (n :: ys)) (off : x ∉ h :: xs)
    (off' : x ∉ n :: ys) : Same l (add l h n) x := by
  have last : x ≠ l.prev h := fun same => off (same ▸ ring.path.mem_last)
  have head : x ≠ h := fun same => off (by simp [same])
  have last' : x ≠ l.prev n := fun same => off' (same ▸ more.path.mem_last)
  have first' : x ≠ l.next n := fun same => off' (same ▸ more.next_mem (by simp))
  have other : n ≠ l.prev h := fun same => apart ring.path.mem_last (by simp [same])
  have head' : x ≠ n := fun same => off' (by simp [same])
  by_cases self : n = l.next n
  · simp [Same,add,other,← self,head,last,head']
  · simp [Same,add,other,self,head,last,last',first']

theorem split_far (ring : l.Ring h (xs ++ q :: ys)) (fresh : n ∉ h :: (xs ++ q :: ys))
    (off : x ∉ h :: (xs ++ q :: ys)) (other : x ≠ n) : Same l (split l h q n) x := by
  have last : x ≠ l.prev h := fun same => off (same ▸ ring.path.mem_last)
  have head : x ≠ h := fun same => off (by simp [same])
  have before : x ≠ l.prev q := fun same => off (same ▸ ring.prev_mem (by simp))
  have here : x ≠ q := fun same => off (by simp [same])
  have new : q ≠ n := fun same => fresh (by simp [same])
  simp [Same,split,last,head,before,here,new,other]

theorem move_far (ring : l.Ring h xs) (fresh : n ∉ h :: xs) (off : x ∉ h :: xs) (other : x ≠ n) :
    Same l (move l h n) x := by
  cases xs with
  | nil => rw [move,empty_ring ring]; exact init_far other
  | cons y rest =>
    have first : head l h = y := ring.path.tail.1.1
    rw [move,empty_ring ring,first]
    exact split_far (show l.Ring h ([] ++ y :: rest) from ring) fresh off other

abbrev Queues (α : Type*) := α → Option (List α)

/-- The node is in no queue. It may be a head, whose queue then ends. -/
def Free (s : Queues α) (q : α) : Prop := ∀ h xs, s h = some xs → q ∉ xs

inductive Call (α : Type*)
  | init (q : α) | add (h n : α) | split (h q n : α) | move (h n : α)
  | insertHead (h q : α) | insertTail (h q : α)
  /-- `h` is the queue that `q` is in. The macro is not told. -/
  | remove (h q : α)
  deriving DecidableEq, Repr

def perform (l : Links α) : Call α → Links α
  | .init q => init l q
  | .add h n => add l h n
  | .split h q n => split l h q n
  | .move h n => move l h n
  | .insertHead h q => insertHead l h q
  | .insertTail h q => insertTail l h q
  | .remove _ q => remove l q

/-- What a call is for, and when it may be made. -/
inductive Spec : Queues α → Call α → Queues α → Prop
  | init {s : Queues α} {q : α} (free : Free s q) : Spec s (.init q) (Function.update s q (some []))
  | add {s : Queues α} {h n : α} {xs ys : List α} (front : s h = some xs) (back : s n = some ys) (other : h ≠ n) :
      Spec s (.add h n) (Function.update (Function.update s n none) h (some (xs ++ ys)))
  | split {s : Queues α} {h q n : α} {xs ys : List α} (queue : s h = some (xs ++ q :: ys)) (free : Free s n)
      (other : n ≠ h) : Spec s (.split h q n) (Function.update (Function.update s h (some xs)) n (some (q :: ys)))
  | move {s : Queues α} {h n : α} {xs : List α} (queue : s h = some xs) (free : Free s n) (other : n ≠ h) :
      Spec s (.move h n) (Function.update (Function.update s h (some [])) n (some xs))
  | insertHead {s : Queues α} {h q : α} {xs : List α} (queue : s h = some xs) (free : Free s q) (other : q ≠ h) :
      Spec s (.insertHead h q) (Function.update (Function.update s q none) h (some (q :: xs)))
  | insertTail {s : Queues α} {h q : α} {xs : List α} (queue : s h = some xs) (free : Free s q) (other : q ≠ h) :
      Spec s (.insertTail h q) (Function.update (Function.update s q none) h (some (xs ++ [q])))
  | remove {s : Queues α} {h q : α} {xs ys : List α} (queue : s h = some (xs ++ q :: ys)) :
      Spec s (.remove h q) (Function.update s h (some (xs ++ ys)))

inductive Specs : Queues α → List (Call α) → Queues α → Prop
  | nil (s : Queues α) : Specs s [] s
  | cons {s t u : Queues α} {c : Call α} {calls : List (Call α)} (first : Spec s c t) (later : Specs t calls u) :
      Specs s (c :: calls) u

/-- The memory keeps every queue in a ring of its own. -/
structure Holds (l : Links α) (s : Queues α) : Prop where
  ring : ∀ {h xs}, s h = some xs → l.Ring h xs
  apart : ∀ {h k xs zs x}, s h = some xs → s k = some zs → x ∈ h :: xs → x ∈ k :: zs → h = k

variable {s t : Queues α} {l' : Links α}

omit [DecidableEq α] in
theorem Free.fresh (free : Free s n) (queue : s h = some xs) (other : n ≠ h) : n ∉ h :: xs := by
  rw [List.mem_cons]
  rintro (same | member)
  · exact other same
  · exact free h xs queue member

theorem update_cases {a b k : α} {as zs : List α} {o : Option (List α)}
    (queue : Function.update (Function.update s b o) a (some as) k = some zs) :
    (k = a ∧ zs = as) ∨ (k ≠ a ∧ k = b ∧ o = some zs) ∨ (k ≠ a ∧ k ≠ b ∧ s k = some zs) := by
  by_cases ha : k = a
  · subst ha
    exact .inl ⟨rfl,by simpa using queue.symm⟩
  by_cases hb : k = b
  · subst hb
    exact .inr (.inl ⟨ha,rfl,by simpa [ha] using queue⟩)
  · exact .inr (.inr ⟨ha,hb,by simpa [ha,hb] using queue⟩)

/-- A step that leaves a ring at `a` and one or none at `b`, and writes to no other queue. -/
theorem Holds.change {a b : α} {as : List α} {o : Option (List α)} (holds : Holds l s) (ring : l'.Ring a as)
    (ring' : ∀ ys, o = some ys → l'.Ring b ys)
    (far : ∀ k zs, s k = some zs → k ≠ a → k ≠ b → ∀ x ∈ k :: zs,
      Same l l' x ∧ x ∉ a :: as ∧ ∀ ys, o = some ys → x ∉ b :: ys)
    (cross : ∀ ys, o = some ys → (a :: as).Disjoint (b :: ys)) :
    Holds l' (Function.update (Function.update s b o) a (some as)) := by
  constructor
  · intro h xs queue
    rcases update_cases queue with ⟨rfl,rfl⟩ | ⟨_,rfl,made⟩ | ⟨ha,hb,old⟩
    · exact ring
    · exact ring' xs made
    · exact (holds.ring old).frame fun x member => (far h xs old ha hb x member).1
  · intro h k xs zs x queue queue' member member'
    rcases update_cases queue with ⟨rfl,rfl⟩ | ⟨_,rfl,made⟩ | ⟨ha,hb,old⟩
    · rcases update_cases queue' with ⟨rfl,_⟩ | ⟨_,rfl,made'⟩ | ⟨ha',hb',old'⟩
      · rfl
      · exact absurd member' (cross zs made' member)
      · exact absurd member (far k zs old' ha' hb' x member').2.1
    · rcases update_cases queue' with ⟨rfl,rfl⟩ | ⟨_,rfl,_⟩ | ⟨ha',hb',old'⟩
      · exact absurd member (cross xs made member')
      · rfl
      · exact absurd member ((far k zs old' ha' hb' x member').2.2 xs made)
    · rcases update_cases queue' with ⟨rfl,rfl⟩ | ⟨_,rfl,made'⟩ | ⟨ha',hb',old'⟩
      · exact absurd member' (far h xs old ha hb x member).2.1
      · exact absurd member' ((far h xs old ha hb x member).2.2 zs made')
      · exact holds.apart old old' member member'

omit [DecidableEq α] in
theorem Holds.off (holds : Holds l s) {k : α} {zs : List α} (queue : s h = some xs) (queue' : s k = some zs)
    (other : k ≠ h) (member : x ∈ k :: zs) : x ∉ h :: xs :=
  fun member' => other (holds.apart queue' queue member member')

omit [DecidableEq α] in
theorem Free.off (free : Free s n) {k : α} {zs : List α} (queue : s k = some zs) (other : k ≠ n)
    (member : x ∈ k :: zs) : x ≠ n := by
  rintro rfl
  exact free.fresh queue other.symm member

theorem step_holds {c : Call α} (holds : Holds l s) (spec : Spec s c t) : Holds (perform l c) t := by
  cases spec with
  | @init q free =>
    have made := holds.change (b := q) (o := none) (init_ring l q) (by simp) (fun k zs old hq _ x member => ?_) (by simp)
    · rwa [Function.update_idem] at made
    · have new := free.off old hq member
      exact ⟨init_far new,by simpa using new,by simp⟩
  | @add h n xs ys front back other =>
    have apart : (h :: xs).Disjoint (n :: ys) := fun x here there => other (holds.apart front back here there)
    refine holds.change (add_ring (holds.ring front) (holds.ring back) apart) (by simp) (fun k zs old hk hn x member => ?_)
      (by simp)
    have off := holds.off front old hk member
    have off' := holds.off back old hn member
    exact ⟨add_far (holds.ring front) (holds.ring back) apart off off',by simp_all,by simp⟩
  | @split h q n xs ys queue free other =>
    have fresh := free.fresh queue other
    have ring := holds.ring queue
    obtain ⟨front,back⟩ := split_ring ring fresh
    refine holds.change back (fun ys made => Option.some.inj made ▸ front) (fun k zs old hn hk x member => ?_) ?_
    · have off := holds.off queue old hk member
      have new := free.off old hn member
      exact ⟨split_far ring fresh off new,by simp_all,by simp_all⟩
    · rintro zs ⟨⟩ x here there
      have once := ring.path.once
      rw [← List.cons_append,List.nodup_append'] at once
      rcases List.mem_cons.mp here with rfl | here
      · exact fresh (by simp only [List.mem_cons,List.mem_append] at there ⊢; tauto)
      · exact once.2.2 there here
  | @move h n xs queue free other =>
    have fresh := free.fresh queue other
    have ring := holds.ring queue
    obtain ⟨front,back⟩ := move_ring ring fresh
    refine holds.change back (fun ys made => Option.some.inj made ▸ front) (fun k zs old hn hk x member => ?_) ?_
    · have off := holds.off queue old hk member
      have new := free.off old hn member
      exact ⟨move_far ring fresh off new,by simp_all,by simp_all⟩
    · rintro zs ⟨⟩ x here there
      obtain rfl := List.mem_singleton.mp there
      rcases List.mem_cons.mp here with same | member
      · exact other same.symm
      · exact (List.nodup_cons.mp ring.path.once).1 member
  | @insertHead h q xs queue free other =>
    have fresh := free.fresh queue other
    refine holds.change (insertHead_ring (holds.ring queue) fresh) (by simp) (fun k zs old hk hq x member => ?_) (by simp)
    have off := holds.off queue old hk member
    have new := free.off old hq member
    exact ⟨insertHead_far (holds.ring queue) off new,by simp_all,by simp⟩
  | @insertTail h q xs queue free other =>
    have fresh := free.fresh queue other
    refine holds.change (insertTail_ring (holds.ring queue) fresh) (by simp) (fun k zs old hk hq x member => ?_) (by simp)
    have off := holds.off queue old hk member
    have new := free.off old hq member
    exact ⟨insertTail_far (holds.ring queue) off new,by simp_all,by simp⟩
  | @remove h q xs ys queue =>
    have ring := holds.ring queue
    have made := holds.change (b := h) (o := none) (remove_ring ring) (by simp) (fun k zs old hk _ x member => ?_) (by simp)
    · rwa [Function.update_idem] at made
    · have off := holds.off queue old hk member
      exact ⟨remove_far ring (by simp) off,by simp_all,by simp⟩

theorem run_holds {calls : List (Call α)} (holds : Holds l s) (specs : Specs s calls t) :
    Holds (calls.foldl perform l) t := by
  induction specs generalizing l with
  | nil => exact holds
  | cons first _ ih => exact ih (step_holds holds first)

/-- Whatever the memory held before, any calls made as they may be leave each queue with
its nodes in order: the loop visits them and ends, and QUEUE_EMPTY and QUEUE_HEAD are right. -/
theorem queues_kept (l : Links α) (calls : List (Call α)) (s : Queues α) (specs : Specs (fun _ => none) calls s)
    (h : α) (xs : List α) (queue : s h = some xs) (rounds : Nat) (enough : xs.length < rounds) :
    foreach (calls.foldl perform l) h rounds ((calls.foldl perform l).next h) = some xs ∧
      (empty (calls.foldl perform l) h = xs.isEmpty) ∧ head (calls.foldl perform l) h = xs.headD h := by
  have start : Holds l (fun _ => none) := ⟨by simp,by simp⟩
  have ring := (run_holds start specs).ring queue
  exact ⟨foreach_ring ring enough,empty_ring ring,ring.next_head⟩

def joined : List (Call Nat) := [.init 0,.init 1,.insertTail 0 2,.insertTail 1 3,.insertHead 0 4,.remove 0 2,.add 0 1,.move 0 5]

theorem queues_kept_joined : foreach (joined.foldl perform ⟨fun _ => 9,fun _ => 9⟩) 5 3
      ((joined.foldl perform ⟨fun _ => 9,fun _ => 9⟩).next 5) = some [4,3] ∧
    empty (joined.foldl perform ⟨fun _ => 9,fun _ => 9⟩) 5 = false ∧
    head (joined.foldl perform ⟨fun _ => 9,fun _ => 9⟩) 5 = 4 := by
  refine queues_kept ⟨fun _ => 9,fun _ => 9⟩ joined _ (.cons (.init ?_) (.cons (.init ?_) (.cons (.insertTail rfl ?_ (by decide))
    (.cons (.insertTail rfl ?_ (by decide)) (.cons (.insertHead rfl ?_ (by decide)) (.cons (.remove (show _ = some ([4] ++ 2 :: []) from rfl))
    (.cons (.add rfl rfl (by decide)) (.cons (.move rfl ?_ (by decide)) (.nil _))))))))) 5 [4,3] rfl 3 (by decide)
  all_goals
    intro h xs queue
    simp only [Function.update_apply] at queue
    grind

end UvRpc.Queue
