import Mathlib

/-! Cutting packets off a stream that arrives in pieces. A cutter that needs no
more than a prefix of its input gives the same packets for every way of splitting
the stream, provided that what it could not cut is kept for the next piece. -/
namespace Incremental

/-- `shrinks` makes parsing terminate. `stable` says that a packet, once complete, is
not changed by what follows it. -/
structure Cutter (α β : Type*) where
  cut : List α → Option (β × List α)
  shrinks : ∀ {xs b rest}, cut xs = some (b,rest) → rest.length < xs.length
  stable : ∀ {xs b rest} (ys : List α), cut xs = some (b,rest) → cut (xs ++ ys) = some (b,rest ++ ys)

variable {α β : Type*}

def Cutter.parseWith (c : Cutter α β) : Nat → List α → List β × List α
  | 0, xs => ([],xs)
  | fuel + 1, xs =>
    match c.cut xs with
    | none => ([],xs)
    | some (b,rest) => (b :: (c.parseWith fuel rest).1,(c.parseWith fuel rest).2)

variable (c : Cutter α β)

/-- Cut packets off while there are complete ones. Each cut shortens the input, so
its length bounds the number of rounds. -/
def Cutter.parse (xs : List α) : List β × List α := c.parseWith xs.length xs

theorem Cutter.parseWith_enough {fuel more : Nat} (xs : List α) (enough : xs.length ≤ fuel)
    (le : fuel ≤ more) : c.parseWith more xs = c.parseWith fuel xs := by
  induction fuel generalizing more xs with
  | zero =>
    have empty : xs = [] := List.eq_nil_of_length_eq_zero (by omega)
    subst xs
    cases more with
    | zero => rfl
    | succ more =>
      have stuck : c.cut [] = none := by
        cases h : c.cut [] with
        | none => rfl
        | some p => exact absurd (c.shrinks h) (by simp)
      simp [parseWith,stuck]
  | succ fuel ih =>
    obtain ⟨more,rfl⟩ : ∃ m, more = m + 1 := ⟨more - 1, by omega⟩
    simp only [parseWith]
    cases h : c.cut xs with
    | none => rfl
    | some p =>
      have shorter := c.shrinks h
      simp only [ih p.2 (by omega) (by omega : fuel ≤ more)]

theorem Cutter.parse_stuck {xs : List α} (h : c.cut xs = none) : c.parse xs = ([],xs) := by
  unfold parse
  cases xs.length <;> simp [parseWith,h]

theorem Cutter.parse_cut {xs rest : List α} {b : β} (h : c.cut xs = some (b,rest)) :
    c.parse xs = (b :: (c.parse rest).1,(c.parse rest).2) := by
  have shorter := c.shrinks h
  obtain ⟨n,hn⟩ : ∃ n, xs.length = n + 1 := ⟨xs.length - 1, by omega⟩
  have same := c.parseWith_enough rest (Nat.le_refl _) (show rest.length ≤ n by omega)
  simp only [parse,hn,parseWith,h,same]

theorem Cutter.parse_induction {P : List α → Prop} (stuck : ∀ xs, c.cut xs = none → P xs)
    (cut : ∀ xs b rest, c.cut xs = some (b,rest) → P rest → P xs) (xs : List α) : P xs := by
  induction hn : xs.length using Nat.strong_induction_on generalizing xs with
  | _ n ih =>
    cases h : c.cut xs with
    | none => exact stuck xs h
    | some p => exact cut xs p.1 p.2 h (ih _ (hn ▸ c.shrinks h) p.2 rfl)

theorem Cutter.parse_rest (xs : List α) : c.cut (c.parse xs).2 = none := by
  induction xs using c.parse_induction with
  | stuck xs h => rw [c.parse_stuck h]; exact h
  | cut xs b rest h ih => rw [c.parse_cut h]; exact ih

/-- What holds of every packet that can be cut off holds of all packets of the input. -/
theorem Cutter.parse_forall {P : β → Prop} (each : ∀ xs b rest, c.cut xs = some (b,rest) → P b)
    (xs : List α) : ∀ b ∈ (c.parse xs).1, P b := by
  induction xs using c.parse_induction with
  | stuck xs h => simp [c.parse_stuck h]
  | cut xs b rest h ih =>
    rw [c.parse_cut h]
    exact List.forall_mem_cons.mpr ⟨each xs b rest h,ih⟩

theorem Cutter.parse_append (xs ys : List α) :
    c.parse (xs ++ ys) =
      ((c.parse xs).1 ++ (c.parse ((c.parse xs).2 ++ ys)).1,(c.parse ((c.parse xs).2 ++ ys)).2) := by
  induction xs using c.parse_induction with
  | stuck xs h => simp [c.parse_stuck h]
  | cut xs b rest h ih => rw [c.parse_cut (c.stable ys h),ih,c.parse_cut h]; rfl

/-- A receiver answers one piece with the packets of what it kept followed by the piece,
and keeps the rest. `Out s s' bs` says that it gave out `bs` on its way from `s` to `s'`. -/
structure Cutter.Receives {σ : Type*} (step : σ → List α → Option σ) (Good : σ → Prop)
    (kept : σ → List α) (Out : σ → σ → List β → Prop) : Prop where
  silent : ∀ s, Out s s []
  joins : ∀ {s t u bs more}, Out s t bs → Out t u more → Out s u (bs ++ more)
  stuck : ∀ {s}, Good s → c.cut (kept s) = none
  piece : ∀ {s} (xs : List α), Good s → ∃ t, step s xs = some t ∧ Good t ∧
    kept t = (c.parse (kept s ++ xs)).2 ∧ Out s t (c.parse (kept s ++ xs)).1

variable {c} in
theorem Cutter.Receives.pieces {σ : Type*} {step : σ → List α → Option σ} {Good : σ → Prop}
    {kept : σ → List α} {Out : σ → σ → List β → Prop} (r : c.Receives step Good kept Out)
    {s : σ} (good : Good s) (pieces : List (List α)) :
    ∃ t, pieces.foldlM step s = some t ∧ Good t ∧
      kept t = (c.parse (kept s ++ pieces.flatten)).2 ∧
      Out s t (c.parse (kept s ++ pieces.flatten)).1 := by
  induction pieces generalizing s with
  | nil =>
    have none_cut := c.parse_stuck (r.stuck good)
    rw [List.flatten_nil,List.append_nil,none_cut]
    exact ⟨s,rfl,good,rfl,r.silent s⟩
  | cons xs rest ih =>
    obtain ⟨t,first,good_t,kept_t,out_t⟩ := r.piece xs good
    obtain ⟨u,later,good_u,kept_u,out_u⟩ := ih good_t
    have whole := c.parse_append (kept s ++ xs) rest.flatten
    rw [List.append_assoc,← kept_t] at whole
    rw [List.flatten_cons,whole]
    exact ⟨u,by simp only [List.foldlM_cons,first]; exact later,good_u,kept_u,r.joins out_t out_u⟩

/-- A stream written packet by packet is read back packet by packet, and then what follows. -/
theorem Cutter.parse_written {γ : Type*} (write : γ → List α) (read : γ → β) (items : List γ)
    (reads : ∀ i ∈ items, ∀ rest, c.cut (write i ++ rest) = some (read i,rest)) (rest : List α) :
    c.parse ((items.map write).flatten ++ rest) = (items.map read ++ (c.parse rest).1,(c.parse rest).2) := by
  induction items with
  | nil => rfl
  | cons i items ih =>
    have later := ih (fun j hj => reads j (List.mem_cons_of_mem _ hj))
    simp only [List.map_cons,List.flatten_cons,List.append_assoc]
    rw [c.parse_cut (reads i (by simp) _),later,List.cons_append]

/-- The beginning of such a stream gives its first packets. The others are what is kept,
followed by what is still to come. -/
theorem Cutter.parse_begun {γ : Type*} (write : γ → List α) (read : γ → β) (items : List γ)
    (reads : ∀ i ∈ items, ∀ rest, c.cut (write i ++ rest) = some (read i,rest)) {xs ys : List α}
    (whole : xs ++ ys = (items.map write).flatten) :
    ∃ front back, items = front ++ back ∧ (c.parse xs).1 = front.map read ∧
      (c.parse xs).2 ++ ys = (back.map write).flatten := by
  induction xs using c.parse_induction generalizing items with
  | stuck xs h => exact ⟨[],items,rfl,by rw [c.parse_stuck h]; rfl,by rw [c.parse_stuck h]; exact whole⟩
  | cut xs b rest h ih =>
    cases items with
    | nil =>
      have empty : xs = [] := (List.append_eq_nil_iff.mp whole).1
      subst empty
      exact absurd (c.shrinks h) (by simp)
    | cons i items =>
      have first := c.stable ys h
      rw [whole,List.map_cons,List.flatten_cons,reads i (by simp)] at first
      obtain ⟨rfl,later⟩ := Prod.mk.inj (Option.some.inj first)
      obtain ⟨front,back,rfl,cut,left⟩ := ih items (fun j hj => reads j (List.mem_cons_of_mem _ hj)) later.symm
      exact ⟨i :: front,back,rfl,by rw [c.parse_cut h,cut]; rfl,by rw [c.parse_cut h]; exact left⟩

/-- When packets can be glued back, the packets and the rest are the whole input. -/
theorem Cutter.parse_glue (glue : β → List α)
    (lossless : ∀ xs b rest, c.cut xs = some (b,rest) → xs = glue b ++ rest) (xs : List α) :
    ((c.parse xs).1.map glue).flatten ++ (c.parse xs).2 = xs := by
  induction xs using c.parse_induction with
  | stuck xs h => simp [c.parse_stuck h]
  | cut xs b rest h ih =>
    rw [c.parse_cut h,List.map_cons,List.flatten_cons,List.append_assoc,ih]
    exact (lossless xs b rest h).symm

/-- Packets at the front of the parse lie at the front of the input, and the parse goes
on behind them. -/
theorem Cutter.parse_front (glue : β → List α)
    (lossless : ∀ xs b rest, c.cut xs = some (b,rest) → xs = glue b ++ rest) {front : List β}
    {xs : List α} (leads : front <+: (c.parse xs).1) :
    ∃ rest, xs = (front.map glue).flatten ++ rest ∧ (c.parse xs).1 = front ++ (c.parse rest).1 := by
  induction front generalizing xs with
  | nil => exact ⟨xs,rfl,rfl⟩
  | cons b front ih =>
    cases h : c.cut xs with
    | none =>
      rw [c.parse_stuck h] at leads
      exact absurd leads (by simp)
    | some p =>
      rw [c.parse_cut h] at leads ⊢
      obtain ⟨rfl,later⟩ := List.cons_prefix_cons.mp leads
      obtain ⟨rest,whole,parsed⟩ := ih later
      refine ⟨rest,?_,by rw [parsed]; rfl⟩
      rw [lossless xs p.1 p.2 h,whole,List.map_cons,List.flatten_cons,List.append_assoc]

end Incremental
