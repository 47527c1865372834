import UvRpc.Transition

/-! A queue whose items are taken in batches and submitted one by one, where what fails
goes back to the tail. It is asked when items are submitted in the order in which they
were first pushed, and when the last submission of an item comes before that of every
item pushed after it. -/
namespace RetryQueue

/-- A submission that has been accepted. It is `doomed` when one accepted before it has
failed in the meantime, or was just failing. -/
structure Flight (α : Type*) where
  item : α
  submission : Nat
  doomed : Bool
  deriving DecidableEq, Repr

/-- `holding` says that a submission of the batch was refused, so that the rest of it
goes back too. `returning` has failed and is not yet back in the queue. -/
structure State (α : Type*) where
  que : List α
  batch : List α
  holding : Bool
  inFlight : List (Flight α)
  returning : List α
  dropped : Bool
  nextTicket : Nat
  nextSubmission : Nat
  pushed : List α
  submitted : List (Flight α)
  written : List (Flight α)
  failed : Bool
  deriving Repr

inductive Action (α : Type*) where
  | push (a : α)
  | take
  | submit (submission : Nat)
  | refuse
  | hold
  | complete (i : Nat) (ok : Bool)
  | giveBack
  | drop
  deriving DecidableEq, Repr

variable {α : Type*}

def doom (failed f : Flight α) : Flight α :=
  if failed.submission < f.submission then {f with doomed := true} else f

/-- `ticket` numbers the items in the order of their first push. -/
def step (ticket : α → Nat) (q : State α) : Action α → Option (State α)
  | .push a =>
    if q.nextTicket ≤ ticket a ∧ q.dropped = false then
      some {q with que := q.que ++ [a], pushed := q.pushed ++ [a], nextTicket := ticket a + 1}
    else none
  | .take =>
    if q.batch = [] then some {q with batch := q.que, que := [], holding := false} else none
  | .submit k =>
    match q.batch, q.holding with
    | a :: rest, false =>
      if q.nextSubmission ≤ k then
        let f : Flight α := ⟨a,k,!q.returning.isEmpty⟩
        some {q with
          batch := rest
          inFlight := q.inFlight ++ [f]
          submitted := q.submitted ++ [f]
          nextSubmission := k + 1}
      else none
    | _, _ => none
  | .refuse =>
    match q.batch, q.holding with
    | a :: rest, false => some {q with que := q.que ++ [a], batch := rest, holding := true, failed := true}
    | _, _ => none
  | .hold =>
    match q.batch, q.holding with
    | a :: rest, true => some {q with que := q.que ++ [a], batch := rest}
    | _, _ => none
  | .complete i ok =>
    q.inFlight[i]?.map fun f =>
      if ok then {q with inFlight := q.inFlight.eraseIdx i, written := q.written ++ [f]}
      else {q with
        inFlight := (q.inFlight.eraseIdx i).map (doom f)
        returning := q.returning ++ [f.item]
        failed := true}
  | .giveBack =>
    match q.returning, q.batch with
    | a :: rest, [] => some {q with que := q.que ++ [a], returning := rest}
    | _, _ => none
  | .drop => some {q with que := [], dropped := true}

/-- Nothing in the queue was pushed after `a`. -/
def NoneNewer (ticket : α → Nat) (q : State α) (a : α) : Prop := ∀ b ∈ q.que, ¬ ticket a < ticket b

/-- An item goes back only when nothing newer is waiting in the queue, and submissions
fail as those of one stream do: what is accepted after a failing one fails too, and
nothing newer than a doomed one is accepted for good. -/
def Guard (ticket : α → Nat) (q : State α) : Action α → Prop
  | .submit _ => ∀ a ∈ q.batch.head?, q.returning = [] →
      ∀ f ∈ q.inFlight, f.doomed → ¬ ticket f.item < ticket a
  | .refuse => ∀ a ∈ q.batch.head?, NoneNewer ticket q a
  | .hold => ∀ a ∈ q.batch.head?, NoneNewer ticket q a
  | .complete i ok => ∀ f ∈ q.inFlight[i]?,
      if ok then f.doomed = false else ∀ g ∈ q.written, g.submission < f.submission
  | .giveBack => ∀ a ∈ q.returning.head?, NoneNewer ticket q a
  | _ => True

/-- No item overtook another on its last submission. -/
def Ordered (ticket : α → Nat) (q : State α) : Prop :=
  ∀ f ∈ q.written, ∀ g ∈ q.written, ticket f.item < ticket g.item → f.submission < g.submission

def start : State α := ⟨[],[],false,[],[],false,0,0,[],[],[],false⟩

variable {ticket : α → Nat} {q q' : State α}

def Waits (q : State α) (a : α) : Prop := a ∈ q.batch ∨ a ∈ q.que ∨ a ∈ q.returning

/-- Written, or in flight and not doomed. -/
def Good (q : State α) (f : Flight α) : Prop := f ∈ q.written ∨ f ∈ q.inFlight ∧ f.doomed = false

/-- What keeps the order: queue and batch are sorted by tickets, and so are the good
flights by submission; the good ones are older than all that waits and than all doomed
ones that were submitted later. -/
structure Inv (ticket : α → Nat) (q : State α) : Prop where
  que : q.que.Pairwise (ticket · ≤ ticket ·)
  batch : q.batch.Pairwise (ticket · ≤ ticket ·)
  batch_first : q.holding = false → ∀ a ∈ q.batch, ∀ b ∈ q.que, ticket a ≤ ticket b
  good : ∀ f g, Good q f → Good q g → f.submission ≤ g.submission → ticket f.item ≤ ticket g.item
  live_doomed : ∀ f ∈ q.inFlight, f.doomed = false → ∀ d ∈ q.inFlight, d.doomed = true →
    ticket f.item ≤ ticket d.item
  written_doomed : ∀ f ∈ q.written, ∀ d ∈ q.inFlight, d.doomed = true →
    f.submission ≤ d.submission → ticket f.item ≤ ticket d.item
  good_waits : ∀ f, Good q f → ∀ a, Waits q a → ticket f.item ≤ ticket a
  tickets : ∀ a, Waits q a → ticket a < q.nextTicket
  flights : ∀ f, f ∈ q.inFlight ∨ f ∈ q.written →
    ticket f.item < q.nextTicket ∧ f.submission < q.nextSubmission

theorem Inv.ordered (inv : Inv ticket q) : Ordered ticket q := by
  intro f hf g hg newer
  by_contra later
  have := inv.good g f (.inl hg) (.inl hf) (by omega)
  omega

theorem start_inv : Inv ticket (start : State α) := by
  constructor <;> simp [start,Good,Waits]

theorem Good.flies {f : Flight α} (good : Good q f) : f ∈ q.inFlight ∨ f ∈ q.written := by
  rcases good with written | ⟨flying,_⟩
  · exact .inr written
  · exact .inl flying

theorem Inv.requeue (inv : Inv ticket q) (inFlight : q'.inFlight = q.inFlight) (written : q'.written = q.written)
    (submissions : q'.nextSubmission = q.nextSubmission) (nextTicket : q.nextTicket ≤ q'.nextTicket)
    (waits : ∀ a, Waits q' a → Waits q a ∨ q.nextTicket ≤ ticket a ∧ ticket a < q'.nextTicket)
    (que : q'.que.Pairwise (ticket · ≤ ticket ·)) (batch : q'.batch.Pairwise (ticket · ≤ ticket ·))
    (batch_first : q'.holding = false → ∀ a ∈ q'.batch, ∀ b ∈ q'.que, ticket a ≤ ticket b) : Inv ticket q' := by
  have good : ∀ f, Good q' f → Good q f := by
    intro f
    rw [Good,Good,inFlight,written]
    exact id
  refine ⟨que,batch,batch_first,?_,?_,?_,?_,?_,?_⟩
  · intro f g hf hg
    exact inv.good f g (good f hf) (good g hg)
  · rw [inFlight]
    exact inv.live_doomed
  · rw [inFlight,written]
    exact inv.written_doomed
  · intro f hf a waiting
    rcases waits a waiting with old | ⟨newer,_⟩
    · exact inv.good_waits f (good f hf) a old
    · have := (inv.flights f (good f hf).flies).1
      omega
  · intro a waiting
    rcases waits a waiting with old | ⟨_,below⟩
    · exact Nat.lt_of_lt_of_le (inv.tickets a old) nextTicket
    · exact below
  · intro f flying
    rw [inFlight,written] at flying
    obtain ⟨known,number⟩ := inv.flights f flying
    exact ⟨Nat.lt_of_lt_of_le known nextTicket,by rw [submissions]; exact number⟩

/-- The queue stays sorted when nothing in it is newer than what is put at its tail. -/
theorem Inv.snoc (inv : Inv ticket q) {a : α} (newest : ∀ b ∈ q.que, ticket b ≤ ticket a) :
    (q.que ++ [a]).Pairwise (ticket · ≤ ticket ·) := by
  refine List.pairwise_append.mpr ⟨inv.que,List.pairwise_singleton _ _,fun b old c new => ?_⟩
  rw [List.mem_singleton.mp new]
  exact newest b old

theorem NoneNewer.le {a : α} (guard : NoneNewer ticket q a) : ∀ b ∈ q.que, ticket b ≤ ticket a :=
  fun b member => Nat.le_of_not_lt (guard b member)

theorem push_inv (inv : Inv ticket q) {a : α} (h : step ticket q (.push a) = some q') : Inv ticket q' := by
  simp only [step,Option.ite_none_right_eq_some] at h
  obtain ⟨⟨fresh,_⟩,⟨⟩⟩ := h
  have newest : ∀ b, Waits q b → ticket b ≤ ticket a := by
    intro b waiting
    have := inv.tickets b waiting
    omega
  refine inv.requeue rfl rfl rfl (Nat.le_succ_of_le fresh) (fun b waiting => ?_)
    (inv.snoc fun b member => newest b (.inr (.inl member))) inv.batch fun holding b first c member => ?_
  · rcases waiting with batch | member | returning
    · exact .inl (.inl batch)
    · rcases List.mem_append.mp member with old | new
      · exact .inl (.inr (.inl old))
      · rw [List.mem_singleton.mp new]
        exact .inr ⟨fresh,Nat.lt_succ_self _⟩
    · exact .inl (.inr (.inr returning))
  · rcases List.mem_append.mp member with old | new
    · exact inv.batch_first holding b first c old
    · rw [List.mem_singleton.mp new]
      exact newest b (.inl first)

theorem take_inv (inv : Inv ticket q) (h : step ticket q .take = some q') : Inv ticket q' := by
  simp only [step,Option.ite_none_right_eq_some] at h
  obtain ⟨_,⟨⟩⟩ := h
  refine inv.requeue rfl rfl rfl (Nat.le_refl _) (fun a waiting => .inl ?_) .nil inv.que fun _ _ _ b none => by cases none
  rcases waiting with taken | none | returning
  · exact .inr (.inl taken)
  · cases none
  · exact .inr (.inr returning)

/-- A waiting item is submitted: it is younger than the good flights, and if the new flight
is not doomed itself, no younger than what is doomed or still waits. -/
theorem Inv.accept (inv : Inv ticket q) {new : Flight α} {rest : List α} (front : Waits q new.item)
    (number : q.nextSubmission ≤ new.submission) (stays : ∀ b ∈ rest, b ∈ q.batch)
    (batch : rest.Pairwise (ticket · ≤ ticket ·))
    (behind : new.doomed = false → ∀ d ∈ q.inFlight, d.doomed = true → ticket new.item ≤ ticket d.item)
    (oldest : new.doomed = false → ∀ b, b ∈ rest ∨ b ∈ q.que ∨ b ∈ q.returning → ticket new.item ≤ ticket b) :
    Inv ticket {q with
      batch := rest
      inFlight := q.inFlight ++ [new]
      submitted := q.submitted ++ [new]
      nextSubmission := new.submission + 1} := by
  have older : ∀ f, Good q f → ticket f.item ≤ ticket new.item := fun f good => inv.good_waits f good _ front
  have earlier : ∀ f, f ∈ q.inFlight ∨ f ∈ q.written → f.submission < new.submission := by
    intro f flying
    have := (inv.flights f flying).2
    omega
  have flies : ∀ f, f ∈ q.inFlight ++ [new] → f ∈ q.inFlight ∨ f = new := by simp
  have waits : ∀ b, b ∈ rest ∨ b ∈ q.que ∨ b ∈ q.returning → Waits q b := by
    rintro b (later | waiting)
    · exact .inl (stays b later)
    · exact .inr waiting
  have good : ∀ f, f ∈ q.written ∨ f ∈ q.inFlight ++ [new] ∧ f.doomed = false →
      Good q f ∨ f = new ∧ new.doomed = false := by
    rintro f (written | ⟨flying,lives⟩)
    · exact .inl (.inl written)
    · rcases flies f flying with old | rfl
      · exact .inl (.inr ⟨old,lives⟩)
      · exact .inr ⟨rfl,lives⟩
  constructor
  case que => exact inv.que
  case batch => exact batch
  case batch_first =>
    intro holding b later
    exact inv.batch_first holding b (stays b later)
  case good =>
    intro f g hf hg order
    rcases good f hf with old | ⟨rfl,_⟩ <;> rcases good g hg with old' | ⟨rfl,_⟩
    · exact inv.good f g old old' order
    · exact older f old
    · have := earlier g old'.flies
      omega
    · exact Nat.le_refl _
  case live_doomed =>
    intro f hf lives d hd doomed
    rcases flies f hf with old | rfl <;> rcases flies d hd with old' | rfl
    · exact inv.live_doomed f old lives d old' doomed
    · exact older f (.inr ⟨old,lives⟩)
    · exact behind lives d old' doomed
    · exact Nat.le_refl _
  case written_doomed =>
    intro f written d hd doomed order
    rcases flies d hd with old | rfl
    · exact inv.written_doomed f written d old doomed order
    · exact older f (.inl written)
  case good_waits =>
    intro f hf b waiting
    rcases good f hf with old | ⟨rfl,lives⟩
    · exact inv.good_waits f old b (waits b waiting)
    · exact oldest lives b waiting
  case tickets => exact fun b waiting => inv.tickets b (waits b waiting)
  case flights =>
    have old : ∀ f, f ∈ q.inFlight ∨ f ∈ q.written →
        ticket f.item < q.nextTicket ∧ f.submission < new.submission + 1 :=
      fun f flying => ⟨(inv.flights f flying).1,Nat.lt_succ_of_lt (earlier f flying)⟩
    rintro f (flying | written)
    · rcases flies f flying with here | rfl
      · exact old f (.inl here)
      · exact ⟨inv.tickets _ front,Nat.lt_succ_self _⟩
    · exact old f (.inr written)

/-- The front of the batch is the oldest that waits, and the guard keeps it from being
accepted for good behind a doomed older one. -/
theorem submit_inv (inv : Inv ticket q) {k : Nat} (guard : Guard ticket q (.submit k))
    (h : step ticket q (.submit k) = some q') : Inv ticket q' := by
  simp only [step] at h
  split at h
  · rename_i a rest batch_eq holding
    split at h
    · rename_i number
      cases h
      have batch := inv.batch
      rw [batch_eq,List.pairwise_cons] at batch
      have first : a ∈ q.batch := by rw [batch_eq]; exact List.mem_cons_self
      have live : (!q.returning.isEmpty) = false → q.returning = [] := by simp
      refine inv.accept (.inl first) number (fun b later => ?_) batch.2 (fun lives d flying doomed => ?_)
        fun lives b waiting => ?_
      · rw [batch_eq]
        exact List.mem_cons_of_mem _ later
      · exact Nat.le_of_not_lt (guard a (by simp [batch_eq]) (live lives) d flying doomed)
      · rcases waiting with later | waiting | returning
        · exact batch.1 b later
        · exact inv.batch_first holding a first b waiting
        · rw [live lives] at returning
          cases returning
    · cases h
  · cases h

theorem back_inv (inv : Inv ticket q) {a : α} {rest : List α} (failed : Bool) (batch_eq : q.batch = a :: rest)
    (guard : NoneNewer ticket q a) :
    Inv ticket {q with que := q.que ++ [a], batch := rest, holding := true, failed := failed} := by
  have batch := inv.batch
  rw [batch_eq,List.pairwise_cons] at batch
  refine inv.requeue rfl rfl rfl (Nat.le_refl _) (fun b waiting => .inl ?_) (inv.snoc guard.le) batch.2
    fun holding => by cases holding
  rcases waiting with later | member | returning
  · exact .inl (by rw [batch_eq]; exact List.mem_cons_of_mem _ later)
  · rcases List.mem_append.mp member with old | new
    · exact .inr (.inl old)
    · exact .inl (by rw [batch_eq,List.mem_singleton.mp new]; exact List.mem_cons_self)
  · exact .inr (.inr returning)

theorem refuse_inv (inv : Inv ticket q) (guard : Guard ticket q .refuse) (h : step ticket q .refuse = some q') :
    Inv ticket q' := by
  simp only [step] at h
  split at h
  · rename_i a rest batch_eq holding
    cases h
    exact back_inv inv true batch_eq (guard a (by simp [batch_eq]))
  · cases h

theorem hold_inv (inv : Inv ticket q) (guard : Guard ticket q .hold) (h : step ticket q .hold = some q') :
    Inv ticket q' := by
  simp only [step] at h
  split at h
  · rename_i a rest batch_eq holding
    cases h
    have := back_inv inv q.failed batch_eq (guard a (by simp [batch_eq]))
    rwa [← holding] at this
  · cases h

theorem written_inv (inv : Inv ticket q) {i : Nat} {f : Flight α} (found : q.inFlight[i]? = some f)
    (live : f.doomed = false) :
    Inv ticket {q with inFlight := q.inFlight.eraseIdx i, written := q.written ++ [f]} := by
  have member : f ∈ q.inFlight := List.mem_of_getElem? found
  have fewer : ∀ g ∈ q.inFlight.eraseIdx i, g ∈ q.inFlight := fun g => List.mem_of_mem_eraseIdx
  have written : ∀ g, g ∈ q.written ++ [f] → g ∈ q.written ∨ g = f := by simp
  have good : ∀ g, g ∈ q.written ++ [f] ∨ g ∈ q.inFlight.eraseIdx i ∧ g.doomed = false → Good q g := by
    rintro g (done | ⟨flying,lives⟩)
    · rcases written g done with old | rfl
      · exact .inl old
      · exact .inr ⟨member,live⟩
    · exact .inr ⟨fewer g flying,lives⟩
  refine ⟨inv.que,inv.batch,inv.batch_first,fun g g' hg hg' => inv.good g g' (good g hg) (good g' hg'),
    fun g flying lives d hd => inv.live_doomed g (fewer g flying) lives d (fewer d hd),?_,
    fun g hg => inv.good_waits g (good g hg),inv.tickets,?_⟩
  · intro g done d flying doomed order
    rcases written g done with old | rfl
    · exact inv.written_doomed g old d (fewer d flying) doomed order
    · exact inv.live_doomed g member live d (fewer d flying) doomed
  · rintro g (flying | done)
    · exact inv.flights g (.inl (fewer g flying))
    · exact inv.flights g (good g (.inl done)).flies

theorem doom_mem {f g : Flight α} {l : List (Flight α)} (member : g ∈ l.map (doom f)) :
    (g ∈ l ∧ g.submission ≤ f.submission) ∨
      (g.doomed = true ∧ ∃ b, ⟨g.item,g.submission,b⟩ ∈ l ∧ f.submission < g.submission) := by
  obtain ⟨o,ho,rfl⟩ := List.mem_map.mp member
  unfold doom
  split
  · rename_i later
    exact .inr ⟨rfl,o.doomed,ho,later⟩
  · rename_i earlier
    exact .inl ⟨ho,by omega⟩

/-- Of the good flights only those submitted before the failed one are left. -/
theorem doom_left {f : Flight α} {l : List (Flight α)} {i : Nat} :
    ∀ g ∈ (l.eraseIdx i).map (doom f), g.doomed = false → g ∈ l ∧ g.submission ≤ f.submission := by
  intro g hg live
  rcases doom_mem hg with ⟨old,earlier⟩ | ⟨doomed,_⟩
  · exact ⟨List.mem_of_mem_eraseIdx old,earlier⟩
  · rw [live] at doomed
    cases doomed

theorem doom_doomed {f : Flight α} {l : List (Flight α)} {i : Nat} :
    ∀ g ∈ (l.eraseIdx i).map (doom f), g.doomed = true →
      g ∈ l ∨ (⟨g.item,g.submission,false⟩ ∈ l ∧ f.submission < g.submission) := by
  intro g hg doomed
  rcases doom_mem hg with ⟨old,_⟩ | ⟨_,b,old,later⟩
  · exact .inl (List.mem_of_mem_eraseIdx old)
  · have old := List.mem_of_mem_eraseIdx old
    cases b with
    | false => exact .inr ⟨old,later⟩
    | true => exact .inl (by rw [← doomed] at old; exact old)

theorem Inv.older (inv : Inv ticket q) {f : Flight α} (member : f ∈ q.inFlight)
    (guard : ∀ g ∈ q.written, g.submission < f.submission) :
    ∀ g, g ∈ q.written ∨ (g ∈ q.inFlight ∧ g.doomed = false ∧ g.submission ≤ f.submission) →
      ticket g.item ≤ ticket f.item := by
  rintro g (written | ⟨flying,lives,earlier⟩)
  · cases lost : f.doomed with
    | false => exact inv.good g f (.inl written) (.inr ⟨member,lost⟩) (Nat.le_of_lt (guard g written))
    | true => exact inv.written_doomed g written f member lost (Nat.le_of_lt (guard g written))
  · cases lost : f.doomed with
    | false => exact inv.good g f (.inr ⟨flying,lives⟩) (.inr ⟨member,lost⟩) earlier
    | true => exact inv.live_doomed g flying lives f member lost

/-- What was submitted after the failed one is doomed now; of the good ones only those
submitted before it are left, and they are older. -/
theorem failed_inv (inv : Inv ticket q) {i : Nat} {f : Flight α} (found : q.inFlight[i]? = some f)
    (guard : ∀ g ∈ q.written, g.submission < f.submission) :
    Inv ticket {q with
      inFlight := (q.inFlight.eraseIdx i).map (doom f)
      returning := q.returning ++ [f.item]
      failed := true} := by
  have member : f ∈ q.inFlight := List.mem_of_getElem? found
  have older := inv.older member guard
  have left := doom_left (f := f) (l := q.inFlight) (i := i)
  have doomed := doom_doomed (f := f) (l := q.inFlight) (i := i)
  generalize (q.inFlight.eraseIdx i).map (doom f) = flying at left doomed
  have good : ∀ g, g ∈ q.written ∨ g ∈ flying ∧ g.doomed = false → Good q g := by
    rintro g (written | ⟨flies,lives⟩)
    · exact .inl written
    · exact .inr ⟨(left g flies lives).1,lives⟩
  have waits : ∀ a, a ∈ q.batch ∨ a ∈ q.que ∨ a ∈ q.returning ++ [f.item] → Waits q a ∨ a = f.item := by
    rintro a (batch | waiting | returning)
    · exact .inl (.inl batch)
    · exact .inl (.inr (.inl waiting))
    · rcases List.mem_append.mp returning with old | new
      · exact .inl (.inr (.inr old))
      · exact .inr (List.mem_singleton.mp new)
  constructor
  case que => exact inv.que
  case batch => exact inv.batch
  case batch_first => exact inv.batch_first
  case good => exact fun g g' hg hg' => inv.good g g' (good g hg) (good g' hg')
  case live_doomed =>
    intro g flies lives d flies' lost
    obtain ⟨flew,earlier⟩ := left g flies lives
    rcases doomed d flies' lost with old | ⟨lived,later⟩
    · exact inv.live_doomed g flew lives d old lost
    · exact inv.good g ⟨d.item,d.submission,false⟩ (.inr ⟨flew,lives⟩) (.inr ⟨lived,rfl⟩)
        (Nat.le_of_lt (Nat.lt_of_le_of_lt earlier later))
  case written_doomed =>
    intro g written d flies lost order
    rcases doomed d flies lost with old | ⟨lived,_⟩
    · exact inv.written_doomed g written d old lost order
    · exact inv.good g ⟨d.item,d.submission,false⟩ (.inl written) (.inr ⟨lived,rfl⟩) order
  case good_waits =>
    intro g hg a waiting
    rcases waits a waiting with old | rfl
    · exact inv.good_waits g (good g hg) a old
    · rcases hg with written | ⟨flies,lives⟩
      · exact older g (.inl written)
      · obtain ⟨flew,earlier⟩ := left g flies lives
        exact older g (.inr ⟨flew,lives,earlier⟩)
  case tickets =>
    intro a waiting
    rcases waits a waiting with old | rfl
    · exact inv.tickets a old
    · exact (inv.flights f (.inl member)).1
  case flights =>
    rintro g (flies | written)
    · cases lost : g.doomed with
      | false => exact inv.flights g (.inl (left g flies lost).1)
      | true =>
        rcases doomed g flies lost with old | ⟨lived,_⟩
        · exact inv.flights g (.inl old)
        · exact inv.flights ⟨g.item,g.submission,false⟩ (.inl lived)
    · exact inv.flights g (.inr written)

theorem complete_inv (inv : Inv ticket q) {i : Nat} {ok : Bool} (guard : Guard ticket q (.complete i ok))
    (h : step ticket q (.complete i ok) = some q') : Inv ticket q' := by
  simp only [step] at h
  obtain ⟨f,found,same⟩ := Option.map_eq_some_iff.mp h
  have guard := guard f found
  cases ok with
  | true =>
    rw [← same]
    exact written_inv inv found (by simpa using guard)
  | false =>
    rw [← same]
    exact failed_inv inv found (by simpa using guard)

theorem giveBack_inv (inv : Inv ticket q) (guard : Guard ticket q .giveBack)
    (h : step ticket q .giveBack = some q') : Inv ticket q' := by
  simp only [step] at h
  split at h
  · rename_i a rest returning empty
    cases h
    have guard : NoneNewer ticket q a := guard a (by simp [returning])
    refine inv.requeue rfl rfl rfl (Nat.le_refl _) (fun b waiting => .inl ?_) (inv.snoc guard.le) inv.batch
      fun _ b first => ?_
    · rcases waiting with batch | member | later
      · exact .inl batch
      · rcases List.mem_append.mp member with old | new
        · exact .inr (.inl old)
        · exact .inr (.inr (by rw [returning,List.mem_singleton.mp new]; exact List.mem_cons_self))
      · exact .inr (.inr (by rw [returning]; exact List.mem_cons_of_mem _ later))
    · rw [empty] at first
      cases first
  · cases h

theorem drop_inv (inv : Inv ticket q) (h : step ticket q .drop = some q') : Inv ticket q' := by
  cases h
  refine inv.requeue rfl rfl rfl (Nat.le_refl _) (fun a waiting => .inl ?_) .nil inv.batch
    fun _ _ _ b none => by cases none
  rcases waiting with batch | none | returning
  · exact .inl batch
  · cases none
  · exact .inr (.inr returning)

theorem step_inv {a : Action α} (inv : Inv ticket q) (guard : Guard ticket q a)
    (h : step ticket q a = some q') : Inv ticket q' := by
  cases a with
  | push a => exact push_inv inv h
  | take => exact take_inv inv h
  | submit k => exact submit_inv inv guard h
  | refuse => exact refuse_inv inv guard h
  | hold => exact hold_inv inv guard h
  | complete i ok => exact complete_inv inv guard h
  | giveBack => exact giveBack_inv inv guard h
  | drop => exact drop_inv inv h

theorem run_ordered {actions : List (Action α)}
    (meets : Transition.Meets (step ticket) (Guard ticket) start actions)
    (h : Transition.run (step ticket) start actions = some q) : Ordered ticket q :=
  (Transition.run_invariant (fun _ _ _ inv guard => step_inv inv guard) start_inv meets h).ordered

/-- While nothing has failed, what was pushed is what was submitted, then the batch, then
the queue, unless the queue was dropped. -/
structure InTurn (q : State α) : Prop where
  holding : q.failed = false → q.holding = false
  returning : q.failed = false → q.returning = []
  whole : q.failed = false → q.dropped = false → q.pushed = q.submitted.map Flight.item ++ q.batch ++ q.que
  front : q.failed = false → q.submitted.map Flight.item ++ q.batch ++ q.que <+: q.pushed

theorem step_inTurn {a : Action α} (inv : InTurn q) (h : step ticket q a = some q') : InTurn q' := by
  obtain ⟨holding,returning,whole,front⟩ := inv
  cases a with
  | push a =>
    simp only [step] at h
    split at h
    · rename_i enabled
      cases h
      have same (good : q.failed = false) := whole good enabled.2
      refine ⟨holding,returning,fun good _ => ?_,fun good => ?_⟩ <;> simp [same good]
    · cases h
  | take =>
    simp only [step] at h
    split at h
    · rename_i empty
      cases h
      refine ⟨fun _ => rfl,returning,fun good kept => ?_,fun good => ?_⟩
      · simpa [empty] using whole good kept
      · simpa [empty] using front good
    · cases h
  | submit k =>
    simp only [step] at h
    split at h
    · rename_i a rest batch_eq _
      split at h
      · cases h
        refine ⟨holding,returning,fun good kept => ?_,fun good => ?_⟩
        · simpa [batch_eq] using whole good kept
        · simpa [batch_eq] using front good
      · cases h
    · cases h
  | refuse =>
    simp only [step] at h
    split at h
    · cases h
      exact ⟨by simp,by simp,by simp,by simp⟩
    · cases h
  | hold =>
    simp only [step] at h
    split at h
    · rename_i held
      cases h
      refine ⟨holding,returning,fun good => ?_,fun good => ?_⟩
      · rw [holding good] at held; cases held
      · rw [holding good] at held; cases held
    · cases h
  | complete i ok =>
    simp only [step] at h
    obtain ⟨f,_,rfl⟩ := Option.map_eq_some_iff.mp h
    cases ok with
    | true => exact ⟨holding,returning,whole,front⟩
    | false => exact ⟨by simp,by simp,by simp,by simp⟩
  | giveBack =>
    simp only [step] at h
    split at h
    · rename_i a rest back _
      cases h
      have nothing (good : q.failed = false) : False := by
        rw [returning good] at back; cases back
      exact ⟨fun good => (nothing good).elim,fun good => (nothing good).elim,
        fun good => (nothing good).elim,fun good => (nothing good).elim⟩
    · cases h
  | drop =>
    cases h
    refine ⟨holding,returning,fun _ kept => by simp at kept,fun good => ?_⟩
    exact (List.prefix_append_right_inj _ |>.mpr (List.nil_prefix)).trans (front good)

/-- As long as nothing has failed, items are submitted in the order of their pushes. -/
theorem run_inTurn {actions : List (Action α)} (h : Transition.run (step ticket) start actions = some q) : InTurn q :=
  Transition.run_invariant_all (fun _ _ _ inv => step_inTurn inv)
    ⟨fun _ => rfl,fun _ => rfl,fun _ _ => rfl,fun _ => List.prefix_rfl⟩ h

theorem InTurn.submitted (inTurn : InTurn q) (good : q.failed = false) : q.submitted.map Flight.item <+: q.pushed :=
  ((List.prefix_append _ _).trans (List.prefix_append _ _)).trans (inTurn.front good)

structure Known (q : State α) : Prop where
  que : ∀ a ∈ q.que, a ∈ q.pushed
  batch : ∀ a ∈ q.batch, a ∈ q.pushed
  inFlight : ∀ f ∈ q.inFlight, f.item ∈ q.pushed
  returning : ∀ a ∈ q.returning, a ∈ q.pushed
  submitted : ∀ f ∈ q.submitted, f.item ∈ q.pushed

theorem step_known {a : Action α} (known : Known q) (h : step ticket q a = some q') : Known q' := by
  obtain ⟨que,batch,inFlight,returning,submitted⟩ := known
  cases a with
  | push a =>
    simp only [step] at h
    split at h
    · cases h
      refine ⟨?_,fun b hb => ?_,fun f hf => ?_,fun b hb => ?_,fun f hf => ?_⟩
      · grind
      · exact List.mem_append_left _ (batch b hb)
      · exact List.mem_append_left _ (inFlight f hf)
      · exact List.mem_append_left _ (returning b hb)
      · exact List.mem_append_left _ (submitted f hf)
    · cases h
  | take =>
    simp only [step] at h
    split at h
    · cases h
      exact ⟨by simp,que,inFlight,returning,submitted⟩
    · cases h
  | submit k =>
    simp only [step] at h
    split at h
    · rename_i a rest batch_eq _
      split at h
      · cases h
        have front : a ∈ q.pushed := batch a (by simp [batch_eq])
        exact ⟨que,fun b hb => batch b (by simp [batch_eq,hb]),by grind,returning,by grind⟩
      · cases h
    · cases h
  | refuse =>
    simp only [step] at h
    split at h
    · rename_i a rest batch_eq _
      cases h
      exact ⟨by grind,by grind,inFlight,returning,submitted⟩
    · cases h
  | hold =>
    simp only [step] at h
    split at h
    · rename_i a rest batch_eq _
      cases h
      exact ⟨by grind,by grind,inFlight,returning,submitted⟩
    · cases h
  | complete i ok =>
    simp only [step] at h
    obtain ⟨f,found,rfl⟩ := Option.map_eq_some_iff.mp h
    have others (g) (hg : g ∈ q.inFlight.eraseIdx i) : g.item ∈ q.pushed := inFlight g (List.mem_of_mem_eraseIdx hg)
    cases ok with
    | true => exact ⟨que,batch,others,returning,submitted⟩
    | false =>
      refine ⟨que,batch,fun g hg => ?_,?_,submitted⟩
      · obtain ⟨e,he,rfl⟩ := List.mem_map.mp hg
        rw [show (doom f e).item = e.item by unfold doom; split <;> rfl]
        exact others e he
      · have failed := inFlight f (List.mem_of_getElem? found)
        grind
  | giveBack =>
    simp only [step] at h
    split at h
    · cases h
      exact ⟨by grind,by grind,inFlight,by grind,submitted⟩
    · cases h
  | drop =>
    cases h
    exact ⟨by simp,batch,inFlight,returning,submitted⟩

theorem run_known {actions : List (Action α)} (h : Transition.run (step ticket) start actions = some q) : Known q :=
  Transition.run_invariant_all (fun _ _ _ known => step_known known)
    ⟨by simp [start],by simp [start],by simp [start],by simp [start],by simp [start]⟩ h

/-- Submissions are numbered upwards. What flies or was written was submitted, and while
nothing has failed all that was submitted flies or was written. -/
structure Recorded (q : State α) : Prop where
  below : ∀ f ∈ q.submitted, f.submission < q.nextSubmission
  numbered : q.submitted.Pairwise (·.submission < ·.submission)
  inFlight : ∀ f ∈ q.inFlight, ∃ g ∈ q.submitted, g.item = f.item ∧ g.submission = f.submission
  written : ∀ f ∈ q.written, ∃ g ∈ q.submitted, g.item = f.item ∧ g.submission = f.submission
  accounted : q.failed = false → ∀ f ∈ q.submitted, f ∈ q.inFlight ∨ f ∈ q.written

theorem Recorded.submit (recorded : Recorded q) {new : Flight α} {rest : List α}
    (number : q.nextSubmission ≤ new.submission) :
    Recorded {q with
      batch := rest
      inFlight := q.inFlight ++ [new]
      submitted := q.submitted ++ [new]
      nextSubmission := new.submission + 1} := by
  obtain ⟨below,numbered,inFlight,written,accounted⟩ := recorded
  have earlier (f : Flight α) (member : f ∈ q.submitted) : f.submission < new.submission := by
    have := below f member
    omega
  refine ⟨fun f member => ?_,?_,fun f member => ?_,fun f member => ?_,fun good f member => ?_⟩
  · rcases List.mem_append.mp member with old | here
    · exact Nat.lt_succ_of_lt (earlier f old)
    · rw [List.mem_singleton.mp here]
      exact Nat.lt_succ_self _
  · refine List.pairwise_append.mpr ⟨numbered,List.pairwise_singleton _ _,fun f old g here => ?_⟩
    rw [List.mem_singleton.mp here]
    exact earlier f old
  · rcases List.mem_append.mp member with old | here
    · obtain ⟨g,submitted,same⟩ := inFlight f old
      exact ⟨g,List.mem_append_left _ submitted,same⟩
    · exact ⟨f,List.mem_append_right _ here,rfl,rfl⟩
  · obtain ⟨g,submitted,same⟩ := written f member
    exact ⟨g,List.mem_append_left _ submitted,same⟩
  · rcases List.mem_append.mp member with old | here
    · exact (accounted good f old).imp (List.mem_append_left _) id
    · exact .inl (List.mem_append_right _ here)

theorem Recorded.complete (recorded : Recorded q) {i : Nat} {ok : Bool}
    (h : step ticket q (.complete i ok) = some q') : Recorded q' := by
  obtain ⟨below,numbered,inFlight,written,accounted⟩ := recorded
  simp only [step] at h
  obtain ⟨f,found,rfl⟩ := Option.map_eq_some_iff.mp h
  have others (g) (member : g ∈ q.inFlight.eraseIdx i) := inFlight g (List.mem_of_mem_eraseIdx member)
  cases ok with
  | true =>
    refine ⟨below,numbered,others,fun g member => ?_,fun good g member => ?_⟩
    · rcases List.mem_append.mp member with old | here
      · exact written g old
      · rw [List.mem_singleton.mp here]
        exact inFlight f (List.mem_of_getElem? found)
    · rcases accounted good g member with flying | old
      · obtain ⟨j,there⟩ := List.mem_iff_getElem?.mp flying
        by_cases same : j = i
        · subst same
          rw [found] at there
          exact .inr (List.mem_append_right _ (List.mem_singleton.mpr (Option.some.inj there).symm))
        · exact .inl (List.mem_eraseIdx_iff_getElem?.mpr ⟨j,same,there⟩)
      · exact .inr (List.mem_append_left _ old)
  | false =>
    refine ⟨below,numbered,fun g member => ?_,written,fun good => by cases good⟩
    obtain ⟨e,flying,rfl⟩ := List.mem_map.mp member
    rw [show (doom f e).item = e.item by unfold doom; split <;> rfl,
      show (doom f e).submission = e.submission by unfold doom; split <;> rfl]
    exact others e flying

theorem step_recorded {a : Action α} (recorded : Recorded q) (h : step ticket q a = some q') : Recorded q' := by
  -- only submit and complete touch what is recorded, and a refusal counts as a failure
  have same : q'.nextSubmission = q.nextSubmission → q'.submitted = q.submitted → q'.inFlight = q.inFlight →
      q'.written = q.written → (q'.failed = false → q.failed = false) → Recorded q' := by
    intro next submitted inFlight written failed
    obtain ⟨below,numbered,flying,finished,accounted⟩ := recorded
    constructor <;> simp only [next,submitted,inFlight,written]
    · exact below
    · exact numbered
    · exact flying
    · exact finished
    · exact fun good => accounted (failed good)
  cases a with
  | submit k =>
    simp only [step] at h
    split at h
    · split at h
      · rename_i number
        cases h
        exact recorded.submit number
      · cases h
    · cases h
  | complete i ok => exact recorded.complete h
  | drop => cases h; exact same rfl rfl rfl rfl id
  | push a =>
    simp only [step,Option.ite_none_right_eq_some] at h
    obtain ⟨_,⟨⟩⟩ := h
    exact same rfl rfl rfl rfl id
  | take =>
    simp only [step,Option.ite_none_right_eq_some] at h
    obtain ⟨_,⟨⟩⟩ := h
    exact same rfl rfl rfl rfl id
  | refuse =>
    simp only [step] at h
    split at h
    · cases h
      exact same rfl rfl rfl rfl (by simp)
    · cases h
  | hold =>
    simp only [step] at h
    split at h
    · cases h
      exact same rfl rfl rfl rfl id
    · cases h
  | giveBack =>
    simp only [step] at h
    split at h
    · cases h
      exact same rfl rfl rfl rfl id
    · cases h

theorem run_recorded {actions : List (Action α)} (h : Transition.run (step ticket) start actions = some q) :
    Recorded q :=
  Transition.run_invariant_all (fun _ _ _ recorded => step_recorded recorded)
    ⟨by simp [start],.nil,by simp [start],by simp [start],by simp [start]⟩ h

end RetryQueue
