import UvRpc.CharVector
import UvRpc.Decimal
import UvRpc.Registry

/-! GlobalConfig: the defaults, of which the last one set counts, the tables by name, of
which the first entry counts, and what init does to the size of libuv's thread pool. -/
namespace UvRpc

/-- Dispatchers, encoders and works are numbers; a shared pointer to one may be null. -/
structure GlobalConfig where
  msgDispatcher : Option Nat
  msgEncoder : Option Nat
  workMap : String → Option (Option Nat)
  dispatcherMap : String → Option (Option Nat)
  encoderMap : String → Option (Option Nat)

namespace GlobalConfig

def make : GlobalConfig := ⟨none,none,fun _ => none,fun _ => none,fun _ => none⟩

def setMsgDispatcher (g : GlobalConfig) (dispatcher : Option Nat) : GlobalConfig := {g with msgDispatcher := dispatcher}
def getMsgDispatcher (g : GlobalConfig) : Option Nat := g.msgDispatcher
def setEncoder (g : GlobalConfig) (encoder : Option Nat) : GlobalConfig := {g with msgEncoder := encoder}
def getEncoder (g : GlobalConfig) : Option Nat := g.msgEncoder

def addDispatcher (g : GlobalConfig) (name : String) (dispatcher : Option Nat) : GlobalConfig :=
  {g with dispatcherMap := (Registry.add g.dispatcherMap name dispatcher).2}

def getMsgDispatcherOf (g : GlobalConfig) (name : String) : Option Nat := (g.dispatcherMap name).join

def setEncoderOf (g : GlobalConfig) (name : String) (encoder : Option Nat) : GlobalConfig :=
  {g with encoderMap := (Registry.add g.encoderMap name encoder).2}

def getEncoderOf (g : GlobalConfig) (name : String) : Option Nat := (g.encoderMap name).join

def addWorkType (g : GlobalConfig) (name : String) (work : Option Nat) : Bool × GlobalConfig :=
  let (added,workMap) := Registry.add g.workMap name work
  (added,{g with workMap := workMap})

def getWorkType (g : GlobalConfig) (name : String) : Option Nat := (g.workMap name).join

inductive Call
  | setMsgDispatcher (dispatcher : Option Nat) | setEncoder (encoder : Option Nat)
  | addDispatcher (name : String) (dispatcher : Option Nat) | setEncoderOf (name : String) (encoder : Option Nat)
  | addWorkType (name : String) (work : Option Nat)
  deriving DecidableEq, Repr

def perform (g : GlobalConfig) : Call → GlobalConfig
  | .setMsgDispatcher dispatcher => g.setMsgDispatcher dispatcher
  | .setEncoder encoder => g.setEncoder encoder
  | .addDispatcher name dispatcher => g.addDispatcher name dispatcher
  | .setEncoderOf name encoder => g.setEncoderOf name encoder
  | .addWorkType name work => (g.addWorkType name work).2

def Call.dispatcher : Call → Option (String × Option Nat)
  | .addDispatcher name dispatcher => some (name,dispatcher)
  | _ => none

def Call.encoder : Call → Option (String × Option Nat)
  | .setEncoderOf name encoder => some (name,encoder)
  | _ => none

def Call.work : Call → Option (String × Option Nat)
  | .addWorkType name work => some (name,work)
  | _ => none

def Call.defaultDispatcher : Call → Option (Option Nat)
  | .setMsgDispatcher dispatcher => some dispatcher
  | _ => none

def Call.defaultEncoder : Call → Option (Option Nat)
  | .setEncoder encoder => some encoder
  | _ => none

/-- The tables have what came first, and the defaults what came last. -/
structure Configured (calls : List Call) (g : GlobalConfig) : Prop where
  works : Registry.Filled (calls.filterMap Call.work) g.workMap
  dispatchers : Registry.Filled (calls.filterMap Call.dispatcher) g.dispatcherMap
  encoders : Registry.Filled (calls.filterMap Call.encoder) g.encoderMap
  msgDispatcher : g.msgDispatcher = (calls.filterMap Call.defaultDispatcher).getLast?.join
  msgEncoder : g.msgEncoder = (calls.filterMap Call.defaultEncoder).getLast?.join

theorem make_configured : Configured [] make := ⟨fun _ => rfl,fun _ => rfl,fun _ => rfl,rfl,rfl⟩

theorem filterMap_silent {α β : Type*} {f : α → Option β} {a : α} (silent : f a = none) (l : List α) :
    (l ++ [a]).filterMap f = l.filterMap f := by
  simp [silent]

variable {calls : List Call} {c : Call} {g : GlobalConfig}

theorem Configured.perform (configured : Configured calls g) (c : Call) : Configured (calls ++ [c]) (g.perform c) where
  works := by
    cases c with
    | addWorkType name work => rw [List.filterMap_append]; exact configured.works.add name work
    | _ => rw [filterMap_silent (f := Call.work) rfl]; exact configured.works
  dispatchers := by
    cases c with
    | addDispatcher name dispatcher => rw [List.filterMap_append]; exact configured.dispatchers.add name dispatcher
    | _ => rw [filterMap_silent (f := Call.dispatcher) rfl]; exact configured.dispatchers
  encoders := by
    cases c with
    | setEncoderOf name encoder => rw [List.filterMap_append]; exact configured.encoders.add name encoder
    | _ => rw [filterMap_silent (f := Call.encoder) rfl]; exact configured.encoders
  msgDispatcher := by
    cases c with
    | setMsgDispatcher dispatcher => simp [Call.defaultDispatcher,GlobalConfig.perform,GlobalConfig.setMsgDispatcher]
    | _ => rw [filterMap_silent (f := Call.defaultDispatcher) rfl]; exact configured.msgDispatcher
  msgEncoder := by
    cases c with
    | setEncoder encoder => simp [Call.defaultEncoder,GlobalConfig.perform,GlobalConfig.setEncoder]
    | _ => rw [filterMap_silent (f := Call.defaultEncoder) rfl]; exact configured.msgEncoder

theorem run_configured (calls : List Call) : Configured calls (calls.foldl perform make) := by
  induction calls using List.reverseRecOn with
  | nil => exact make_configured
  | append_singleton before c ih =>
    rw [List.foldl_append]
    exact ih.perform c

/-- What the getters answer, and whether another work is added. -/
structure Answers (calls : List Call) (g : GlobalConfig) : Prop where
  msgDispatcher : g.getMsgDispatcher = (calls.filterMap Call.defaultDispatcher).getLast?.join
  encoder : g.getEncoder = (calls.filterMap Call.defaultEncoder).getLast?.join
  msgDispatcherOf : ∀ name, g.getMsgDispatcherOf name = (Registry.first (calls.filterMap Call.dispatcher) name).join
  encoderOf : ∀ name, g.getEncoderOf name = (Registry.first (calls.filterMap Call.encoder) name).join
  workType : ∀ name, g.getWorkType name = (Registry.first (calls.filterMap Call.work) name).join
  added : ∀ name work, (g.addWorkType name work).1 = true ↔ Registry.first (calls.filterMap Call.work) name = none

theorem Configured.answers (configured : Configured calls g) : Answers calls g where
  msgDispatcher := configured.msgDispatcher
  encoder := configured.msgEncoder
  msgDispatcherOf name := congrArg Option.join (configured.dispatchers name)
  encoderOf name := congrArg Option.join (configured.encoders name)
  workType name := congrArg Option.join (configured.works name)
  added name work := configured.works.added_iff name work

/-- After any calls the getters answer the default that was set last, and what was added
first under a name. -/
theorem calls_answered (calls : List Call) : Answers calls (calls.foldl perform make) := (run_configured calls).answers

/-! init: the environment that libuv reads the size of its thread pool from. -/

/-- An entry of environ points to memory of its own or to the local array of init. -/
inductive EnvString
  | own (bytes : List UInt8) | buffer
  deriving DecidableEq, Repr

structure Process where
  environ : List EnvString
  exeDir : List UInt8

/-- The process in a call of init, whose local array has 260 bytes. -/
structure Running extends Process where
  buffer : List UInt8

/-- The bytes up to the zero byte. -/
def cstr (mem : List UInt8) : List UInt8 := mem.takeWhile (· ≠ 0)

def Running.bytes (p : Running) : EnvString → List UInt8
  | .own bytes => bytes
  | .buffer => cstr p.buffer

def valueOf (name entry : List UInt8) : Option (List UInt8) :=
  if (name ++ [61]).isPrefixOf entry then some (entry.drop (name.length + 1)) else none

/-- getenv while init runs. -/
def Running.getenv (p : Running) (name : List UInt8) : Option (List UInt8) :=
  (p.environ.map p.bytes).findSome? (valueOf name)

/-- getenv at any other time. It reads memory that is gone when an entry points to the array
of an init that has returned, and then nothing is said of its answer. -/
def Process.getenv (p : Process) (name : List UInt8) : Option (Option (List UInt8)) :=
  if .buffer ∈ p.environ then none else some (Running.getenv ⟨p,[]⟩ name)

def Running.replace (p : Running) (e : EnvString) : Running :=
  let name := (p.bytes e).takeWhile (· ≠ 61)
  {p with environ := p.environ.filter (fun old => (valueOf name (p.bytes old)).isNone) ++ [e]}

/-- `_putenv` of Windows copies the string, and `putenv` of POSIX takes the string itself. -/
def Running.putenv (posix : Bool) (p : Running) : Running :=
  p.replace (if posix then .buffer else .own (cstr p.buffer))

/-- "UV_THREADPOOL_SIZE" -/
def threadpoolSize : List UInt8 := [85,86,95,84,72,82,69,65,68,80,79,79,76,95,83,73,90,69]

/-- `path.substr(0, path.rfind(slash))`, all of it when there is no slash. -/
def dirOf (slash : UInt8) (path : List UInt8) : List UInt8 :=
  if slash ∈ path then (path.reverse.dropWhile (· ≠ slash)).tail.reverse else path

/-- init up to its return. `exepath` is what uv_exepath finds, if it does not fail. -/
def initBody (posix : Bool) (n : Int) (exepath : Option (List UInt8)) (p : Running) : Running :=
  let n := if n < 4 then 4 else n
  let text := (threadpoolSize ++ 61 :: Decimal.print n.toNat).take 99 ++ [0]
  let p := Running.putenv posix {p with buffer := memcpy p.buffer 0 text}
  let buffer := memcpy p.buffer 0 [0]
  let buffer := exepath.elim buffer fun path => memcpy buffer 0 (path.take 259 ++ [0])
  {p with
    buffer := buffer
    exeDir := dirOf (if posix then 47 else 92) (cstr buffer)}

/-- The array has any bytes at first, and is gone at the return. -/
def init (posix : Bool) (n : Int) (exepath : Option (List UInt8)) (uninit : List UInt8) (p : Process) : Process :=
  (initBody posix n exepath ⟨p,uninit⟩).toProcess

theorem valueOf_some_iff {name entry v : List UInt8} : valueOf name entry = some v ↔ entry = name ++ 61 :: v := by
  rw [valueOf]
  split
  · rename_i leads
    obtain ⟨rest,rfl⟩ := List.isPrefixOf_iff_prefix.mp leads
    simp [List.append_assoc]
  · rename_i other
    simp only [reduceCtorEq,false_iff]
    rintro rfl
    exact other (List.isPrefixOf_iff_prefix.mpr ⟨v,by simp⟩)

/-- Names have no `=`, so an entry has a value for one name only. -/
theorem valueOf_other {name other entry v : List UInt8} (plain : 61 ∉ name) (plain' : 61 ∉ other) (differ : other ≠ name)
    (found : valueOf name entry = some v) : valueOf other entry = none := by
  by_contra has
  obtain ⟨w,also⟩ := Option.ne_none_iff_exists'.mp has
  rw [valueOf_some_iff] at found also
  have taken {xs : List UInt8} (ys : List UInt8) (plain : 61 ∉ xs) : (xs ++ 61 :: ys).takeWhile (· ≠ 61) = xs := by
    rw [List.takeWhile_append_of_pos (fun b member => by simpa using ne_of_mem_of_not_mem member plain)]
    simp
  exact differ (by rw [← taken w plain',← also,found,taken v plain])

theorem cstr_text {text rest : List UInt8} (no_zero : 0 ∉ text) : cstr (text ++ 0 :: rest) = text := by
  rw [cstr,List.takeWhile_append_of_pos (fun b member => by simpa using ne_of_mem_of_not_mem member no_zero)]
  simp

theorem findSome_filter {name other : List UInt8} (plain : 61 ∉ name) (plain' : 61 ∉ other)
    (differ : other ≠ name) (strings : List (List UInt8)) :
    (strings.filter fun e => (valueOf name e).isNone).findSome? (valueOf other) = strings.findSome? (valueOf other) := by
  induction strings with
  | nil => rfl
  | cons e rest ih =>
    cases has : valueOf name e with
    | none => rw [List.filter_cons_of_pos (by simp [has]),List.findSome?_cons,List.findSome?_cons,ih]
    | some v =>
      rw [List.filter_cons_of_neg (by simp [has]),List.findSome?_cons,valueOf_other plain plain' differ has,ih]

theorem findSome_removed (name : List UInt8) (strings : List (List UInt8)) :
    (strings.filter fun e => (valueOf name e).isNone).findSome? (valueOf name) = none := by
  rw [List.findSome?_eq_none_iff]
  intro e member
  simpa using (List.mem_filter.mp member).2

theorem bytes_own {p q : Running} {e : EnvString} (own : e ≠ .buffer) : p.bytes e = q.bytes e := by
  cases e with
  | own bytes => rfl
  | buffer => exact absurd rfl own

theorem getenv_own {p : Process} (own : .buffer ∉ p.environ) {buffer buffer' name : List UInt8} :
    Running.getenv ⟨p,buffer⟩ name = Running.getenv ⟨p,buffer'⟩ name := by
  rw [Running.getenv,Running.getenv]
  refine congrArg (List.findSome? (valueOf name)) (List.map_congr_left fun old member => ?_)
  exact bytes_own fun here => own (here ▸ member)

/-- What init does to the environment: `running` is the process at the end of its body, and
`after` the one after its return. -/
structure Initialised (posix : Bool) (n : Int) (before : Process) (running : Running) (after : Process) : Prop where
  size : running.getenv threadpoolSize = if posix then none else some (Decimal.print (max n 4).toNat)
  others : ∀ name, 61 ∉ name → name.head? ≠ some 47 → name ≠ threadpoolSize →
    before.getenv name = some (running.getenv name)
  returned : ∀ name, after.getenv name = if posix then none else some (running.getenv name)

theorem threadpoolSize_plain : 61 ∉ threadpoolSize ∧ 0 ∉ threadpoolSize := by decide

/-- What init prints fits the first 100 bytes of the buffer and has no zero byte. -/
theorem printed_text {n : Int} (fits : n < 2 ^ 31) :
    (threadpoolSize ++ 61 :: Decimal.print (max n 4).toNat).take 99 = threadpoolSize ++ 61 :: Decimal.print (max n 4).toNat ∧
      0 ∉ threadpoolSize ++ 61 :: Decimal.print (max n 4).toNat := by
  have digits := Decimal.print_length_le (n := (max n 4).toNat) (k := 10) (by decide) (by omega)
  refine ⟨List.take_of_length_le ?_,?_⟩
  · rw [List.length_append,List.length_cons]
    have name : threadpoolSize.length = 18 := rfl
    omega
  · intro member
    rw [List.mem_append,List.mem_cons] at member
    rcases member with name | sign | number
    · exact threadpoolSize_plain.2 name
    · exact absurd sign (by decide)
    · have := Decimal.print_bytes number
      simp at this

theorem getenv_replaced {p q : Running} {e : EnvString} (own : .buffer ∉ p.environ)
    (environ : q.environ = p.environ.filter (fun old => (valueOf threadpoolSize (p.bytes old)).isNone) ++ [e])
    {name : List UInt8} (plain : 61 ∉ name) :
    q.getenv name = if name = threadpoolSize then valueOf name (q.bytes e)
      else (p.getenv name).or (valueOf name (q.bytes e)) := by
  have strings : q.environ.map q.bytes =
      (p.environ.map p.bytes).filter (fun e => (valueOf threadpoolSize e).isNone) ++ [q.bytes e] := by
    rw [environ,List.map_append,List.filter_map]
    congr 1
    refine List.map_congr_left fun old member => ?_
    exact bytes_own fun same => own (same ▸ (List.mem_filter.mp member).1)
  have last : [q.bytes e].findSome? (valueOf name) = valueOf name (q.bytes e) := by simp
  rw [Running.getenv,Running.getenv,strings,List.findSome?_append,last]
  split
  · rename_i same
    subst same
    rw [findSome_removed,Option.none_or]
  · rename_i differ
    rw [findSome_filter threadpoolSize_plain.1 plain differ]

/-- The buffer has the path of the program, or nothing. -/
theorem path_no_variable {name path rest : List UInt8} {v : List UInt8} (absolute : path.head? = some 47)
    (relative : name.head? ≠ some 47) : cstr (path ++ rest) ≠ name ++ 61 :: v := by
  intro same
  obtain ⟨tail,rfl⟩ := List.head?_eq_some_iff.mp absolute
  rw [List.cons_append,cstr,List.takeWhile_cons_of_pos (by decide)] at same
  cases name with
  | nil => exact absurd (List.cons.inj same).1 (by decide)
  | cons b name => exact relative (by rw [List.head?_cons,(List.cons.inj same).1])

/-- The environment at the end of the body: the entries of before without the variable, and
the entry that init adds. -/
theorem initBody_environ (posix : Bool) {n : Int} (exepath : Option (List UInt8)) {p : Running} {text : List UInt8}
    (text_eq : text = threadpoolSize ++ 61 :: Decimal.print (max n 4).toNat) (whole : text.take 99 = text) (no_zero : 0 ∉ text)
    (own : .buffer ∉ p.environ) :
    (initBody posix n exepath p).environ = p.environ.filter (fun old => (valueOf threadpoolSize (p.bytes old)).isNone) ++
      [if posix then .buffer else .own text] := by
  have at_least : (if n < 4 then 4 else n) = max n 4 := by omega
  obtain ⟨p1,p1_eq⟩ : ∃ p1 : Running, p1 = {p with buffer := memcpy p.buffer 0 (text ++ [0])} := ⟨_,rfl⟩
  have printed : cstr p1.buffer = text := by
    rw [p1_eq]
    change cstr (memcpy p.buffer 0 (text ++ [0])) = text
    rw [memcpy,List.take_zero,List.nil_append,List.append_assoc]
    exact cstr_text no_zero
  have variable_name : text.takeWhile (· ≠ 61) = threadpoolSize := by
    rw [text_eq]
    rw [List.takeWhile_append_of_pos (fun b member => by simpa using ne_of_mem_of_not_mem member threadpoolSize_plain.1)]
    simp
  have entry : p1.bytes (if posix then .buffer else .own text) = text := by split <;> simp [Running.bytes,printed]
  have same : (p1.environ.filter fun old => (valueOf threadpoolSize (p1.bytes old)).isNone) =
      p.environ.filter fun old => (valueOf threadpoolSize (p.bytes old)).isNone := by
    rw [p1_eq]
    refine List.filter_congr fun old member => ?_
    rw [bytes_own fun here => own (here ▸ member)]
  rw [initBody,at_least,← text_eq,whole,← p1_eq,Running.putenv,printed,Running.replace,entry,variable_name]
  exact congrArg (· ++ _) same

/-- After the path has been written over it, the entry of POSIX is no variable any more. -/
theorem initBody_entry {n : Int} {exepath : Option (List UInt8)} {p : Running}
    (absolute : ∀ path ∈ exepath, path.head? = some 47) {name : List UInt8} (relative : name.head? ≠ some 47) :
    valueOf name (cstr (initBody true n exepath p).buffer) = none := by
  by_contra has
  obtain ⟨v,found⟩ := Option.ne_none_iff_exists'.mp has
  rw [valueOf_some_iff] at found
  cases exepath with
  | none => simp [initBody,memcpy,cstr] at found
  | some path =>
    simp only [initBody,Option.elim_some] at found
    rw [memcpy,List.take_zero,List.nil_append,List.append_assoc] at found
    refine path_no_variable ?_ relative found
    rw [List.head?_take,if_neg (by decide)]
    exact absolute path rfl

/-- init sets the size of the thread pool on Windows only. On POSIX the entry it adds is its
own array, which then gets the path of the program: at the end of the body the size is not
set, also when it was before, and after the return the entry points to memory that is gone. -/
theorem init_initialised (posix : Bool) (n : Int) (fits : n < 2 ^ 31) (exepath : Option (List UInt8))
    (absolute : posix → ∀ path ∈ exepath, path.head? = some 47) (uninit : List UInt8) (p : Process)
    (own : .buffer ∉ p.environ) :
    Initialised posix n p (initBody posix n exepath ⟨p,uninit⟩) (init posix n exepath uninit p) := by
  obtain ⟨whole,no_zero⟩ := printed_text fits
  obtain ⟨text,text_eq⟩ : ∃ text, text = threadpoolSize ++ 61 :: Decimal.print (max n 4).toNat := ⟨_,rfl⟩
  rw [← text_eq] at whole no_zero
  have environ := initBody_environ posix exepath (p := ⟨p,uninit⟩) text_eq whole no_zero own
  have first (name) : p.getenv name = some (Running.getenv ⟨p,uninit⟩ name) := by
    rw [Process.getenv,if_neg own,getenv_own own]
  have value (name) (relative : name.head? ≠ some 47) :
      valueOf name ((initBody posix n exepath ⟨p,uninit⟩).bytes (if posix then .buffer else .own text)) =
        if posix then none else valueOf name text := by
    cases posix with
    | false => rfl
    | true => exact initBody_entry (absolute rfl) relative
  refine ⟨?_,fun name plain relative differ => ?_,fun name => ?_⟩
  · rw [getenv_replaced own environ threadpoolSize_plain.1,if_pos rfl,value _ (by decide)]
    rw [valueOf_some_iff.mpr text_eq]
  · have absent : valueOf name text = none := valueOf_other threadpoolSize_plain.1 plain differ (valueOf_some_iff.mpr text_eq)
    rw [first,getenv_replaced own environ plain,if_neg differ,value name relative,absent]
    split <;> rw [Option.or_none]
  · rw [init,Process.getenv,environ]
    cases posix with
    | true => simp
    | false =>
      have still : .buffer ∉ (initBody false n exepath ⟨p,uninit⟩).environ := by
        rw [environ]
        simp [own]
      rw [← environ,if_neg still,getenv_own still]
      rfl

/-- The variable was set to 64 before, and init is asked for 8. -/
theorem init_initialised_eight :
    let before : Process := ⟨[.own (threadpoolSize ++ 61 :: [54,52])],[]⟩
    Initialised true 8 before (initBody true 8 (some [47,97,47,98]) ⟨before,List.replicate 260 7⟩)
      (init true 8 (some [47,97,47,98]) (List.replicate 260 7) before) :=
  init_initialised true 8 (by decide) (some [47,97,47,98]) (by simp) _ _ (by simp)

end GlobalConfig
end UvRpc
