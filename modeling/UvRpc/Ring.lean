import Mathlib

/-! Nodes that point at a next and a previous node, as intrusive queues keep them. A
ring is a path from its head that closes there. Paths are cut and joined at their ends,
and a write to a pointer disturbs no path that does not use it. -/

structure Links (α : Type*) where
  next : α → α
  prev : α → α

namespace Links

variable {α : Type*}

@[simps] def setNext [DecidableEq α] (l : Links α) (a b : α) : Links α := {l with next := Function.update l.next a b}
@[simps] def setPrev [DecidableEq α] (l : Links α) (a b : α) : Links α := {l with prev := Function.update l.prev a b}

def Joined (l : Links α) (a b : α) : Prop := l.next a = b ∧ l.prev b = a

/-- From `a` through the nodes to `z`, each of them once. -/
structure Path (l : Links α) (a z : α) (nodes : List α) : Prop where
  chain : nodes.IsChain l.Joined
  first : nodes.head? = some a
  last : nodes.getLast? = some z
  once : nodes.Nodup

/-- From `h` through `xs` back to `h`. -/
structure Ring (l : Links α) (h : α) (xs : List α) : Prop where
  path : l.Path h (l.prev h) (h :: xs)
  closed : l.next (l.prev h) = h

variable {l l' : Links α} {a b h q y z : α} {nodes xs ys : List α}

theorem Path.mem_first (p : l.Path a z nodes) : a ∈ nodes := List.mem_of_mem_head? p.first
theorem Path.mem_last (p : l.Path a z nodes) : z ∈ nodes := List.mem_of_getLast? p.last

theorem path_single (l : Links α) (a : α) : l.Path a a [a] :=
  ⟨List.isChain_singleton a,rfl,rfl,List.nodup_singleton a⟩

/-- A path reads the next pointers of all nodes but the last, and the previous pointers
of all but the first. -/
theorem Path.keep (p : l.Path a z nodes) (next : ∀ x ∈ nodes, x ≠ z → l'.next x = l.next x)
    (prev : ∀ x ∈ nodes, x ≠ a → l'.prev x = l.prev x) : l'.Path a z nodes := by
  refine ⟨?_,p.first,p.last,p.once⟩
  have chain := p.chain
  rw [List.isChain_iff_forall_rel_of_append_cons_cons] at chain ⊢
  intro x y front back split
  obtain ⟨forth,back'⟩ := chain split
  have once := p.once
  have first := p.first
  have last := p.last
  rw [split] at once first last
  have not_last : x ≠ z := by
    rintro rfl
    have : x ∈ y :: back := List.mem_of_getLast? (by simpa using last)
    grind
  have not_first : y ≠ a := by
    rintro rfl
    cases front with
    | nil => simp_all
    | cons w rest => simp_all
  exact ⟨(next x (by rw [split]; simp) not_last).trans forth,(prev y (by rw [split]; simp) not_first).trans back'⟩

theorem Path.frame (p : l.Path a z nodes) (same : ∀ x ∈ nodes, l'.next x = l.next x ∧ l'.prev x = l.prev x) :
    l'.Path a z nodes :=
  p.keep (fun x member _ => (same x member).1) fun x member _ => (same x member).2

theorem Path.join (p : l.Path a z xs) (p' : l.Path b y ys) (joined : l.Joined z b) (apart : xs.Disjoint ys) :
    l.Path a y (xs ++ ys) := by
  refine ⟨p.chain.append p'.chain ?_,?_,?_,p.once.append p'.once apart⟩
  · intro x last w first
    rw [p.last] at last
    rw [p'.first] at first
    cases last
    cases first
    exact joined
  · rw [List.head?_append,p.first]; rfl
  · rw [List.getLast?_append,p'.last]; rfl

theorem Path.cut (p : l.Path a z (xs ++ ys)) (front : xs ≠ []) (back : ys ≠ []) :
    ∃ y b, l.Path a y xs ∧ l.Path b z ys ∧ l.Joined y b ∧ xs.Disjoint ys := by
  obtain ⟨x,xs',rfl⟩ := List.exists_cons_of_ne_nil front
  obtain ⟨b,ys',rfl⟩ := List.exists_cons_of_ne_nil back
  have chain := List.isChain_append.mp p.chain
  have once := List.nodup_append'.mp p.once
  have first := p.first
  have last := p.last
  obtain ⟨y,ends⟩ : ∃ y, (x :: xs').getLast? = some y := ⟨_,List.getLast?_eq_some_getLast (by simp)⟩
  refine ⟨y,b,⟨chain.1,by simpa using first,ends,once.1⟩,⟨chain.2.1,rfl,?_,once.2.1⟩,
    chain.2.2 y ends b rfl,once.2.2⟩
  rw [List.getLast?_append] at last
  cases e : (b :: ys').getLast? with
  | none => simp at e
  | some w => rw [e] at last; exact last

theorem Path.tail (p : l.Path a z (a :: y :: ys)) : l.Joined a y ∧ l.Path y z (y :: ys) := by
  obtain ⟨w,b,front,back,joined,_⟩ := (show l.Path a z ([a] ++ y :: ys) from p).cut (by simp) (by simp)
  cases front.last
  cases back.first
  exact ⟨joined,back⟩

theorem Ring.frame (ring : l.Ring h xs) (same : ∀ x ∈ h :: xs, l'.next x = l.next x ∧ l'.prev x = l.prev x) :
    l'.Ring h xs := by
  have back := (same h (by simp)).2
  have path := ring.path.frame same
  rw [← back] at path
  exact ⟨path,by rw [back,(same _ ring.path.mem_last).1,ring.closed]⟩

theorem Ring.of_path (path : l.Path h z (h :: xs)) (joined : l.Joined z h) : l.Ring h xs := by
  obtain ⟨forth,rfl⟩ := joined
  exact ⟨path,forth⟩

/-- An empty ring is a node that points at itself. -/
theorem ring_nil_iff : l.Ring h [] ↔ l.next h = h ∧ l.prev h = h := by
  constructor
  · intro ring
    have self : l.prev h = h := (Option.some.inj ring.path.last).symm
    exact ⟨by simpa [self] using ring.closed,self⟩
  · exact fun self => .of_path (path_single l h) self

theorem Ring.next_head (ring : l.Ring h xs) : l.next h = xs.headD h := by
  cases xs with
  | nil => exact (ring_nil_iff.mp ring).1
  | cons x rest => exact (List.isChain_cons_cons.mp ring.path.chain).1.1

theorem Path.next_mem (p : l.Path a z nodes) {x : α} (member : x ∈ nodes) (inner : x ≠ z) : l.next x ∈ nodes := by
  obtain ⟨front,back,rfl⟩ := List.append_of_mem member
  cases back with
  | nil => exact absurd (by simpa using p.last) inner
  | cons y rest =>
    have joined := (List.isChain_append_cons_cons.mp p.chain).2.1
    simp [joined.1]

theorem Path.prev_mem (p : l.Path a z nodes) {x : α} (member : x ∈ nodes) (inner : x ≠ a) : l.prev x ∈ nodes := by
  obtain ⟨front,back,rfl⟩ := List.append_of_mem member
  rcases List.eq_nil_or_concat front with rfl | ⟨rest,y,rfl⟩
  · exact absurd (by simpa using p.first) inner
  · have chain := p.chain
    rw [List.concat_eq_append,List.append_assoc,List.singleton_append] at chain
    have joined := (List.isChain_append_cons_cons.mp chain).2.1
    simp [joined.2]

theorem Ring.next_mem (ring : l.Ring h xs) {x : α} (member : x ∈ h :: xs) : l.next x ∈ h :: xs := by
  by_cases last : x = l.prev h
  · rw [last,ring.closed]; simp
  · exact ring.path.next_mem member last

theorem Ring.prev_mem (ring : l.Ring h xs) {x : α} (member : x ∈ h :: xs) : l.prev x ∈ h :: xs := by
  by_cases first : x = h
  · rw [first]; exact ring.path.mem_last
  · exact ring.path.prev_mem member first

end Links
