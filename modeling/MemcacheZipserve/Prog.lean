/-
# Request programs over shared state

Each request runs `TrueGet` in its own handler, but two pieces of state are
shared between requests: memcache, across every instance of the application,
and the class-level `zipfile_cache` of opened archives. A request is modelled
as a program over the calls it makes on them; each call is one atomic
operation, and the rest of the program may depend on its answer. Running a
program against a world is the sequential semantics. The server module
interleaves the calls of many programs instead.

`Sat` is a weakest-precondition style predicate: on every path along which the
shared state answers as an invariant permits, each call the program makes is
allowed and its result satisfies a postcondition. Invariants of whole runs are
derived from it once, in `run_sat`.
-/

import MemcacheZipserve.Text

namespace MemcacheZipserve

/-- A value memcache holds: the handler stores file contents (a `str`) and the
integer `-1` that marks a negative-cache entry. -/
inductive CacheValue
  | str (data : Str)
  | int (value : Int)
  deriving DecidableEq

/-- An opened zip archive: its members in the order the archive lists them,
each with its contents. -/
structure Archive where
  members : List (Str × Str)
  deriving DecidableEq

/-- `ZipFile.read(name)`: the contents of the member of that name, the last one
when the archive repeats it (the name table keeps the last entry); `none` is the
`KeyError` of a missing member. -/
def Archive.read (archive : Archive) (name : Str) : Option Str :=
  (archive.members.reverse.find? (·.1 = name)).map (·.2)

/-- The exceptions the handler raises and does not catch. -/
inductive PyError
  | indexError
  | stopIteration
  | valueError
  | typeError
  deriving DecidableEq

/-- The state requests share: memcache by key, and `zipfile_cache` by archive
name. -/
structure World where
  memcache : Str → Option CacheValue
  zipfileCache : Str → Option Archive

/-- Both caches empty, as when the application starts. -/
def World.empty : World := ⟨fun _ => none, fun _ => none⟩

/-- One atomic call on the shared state. -/
inductive Op
  | cacheGet (key : Str)
  | cacheAdd (key : Str) (value : CacheValue)
  | cacheReplace (key : Str) (value : CacheValue)
  | zipfileGet (name : Str)
  | zipfileSet (name : Str) (archive : Archive)

/-- What a call answers. `add` and `replace` answer whether they stored the
value, or `none` for the `ValueError` memcache raises on an oversized value. -/
def Op.Answer : Op → Type
  | .cacheGet _ => Option CacheValue
  | .cacheAdd _ _ => Option Bool
  | .cacheReplace _ _ => Option Bool
  | .zipfileGet _ => Option Archive
  | .zipfileSet _ _ => Unit

/-- memcache's maximum item size, `1*10^6` bytes in the words of
`StoreOrUpdateInCache`. -/
def maxItemSize : Nat := 1000000

/-- The size memcache measures a value by. -/
def CacheValue.size : CacheValue → Nat
  | .str data => data.length
  | .int value => (toString value).length

/-- The world with `value` stored under `key`. -/
def World.put (w : World) (key : Str) (value : CacheValue) : World :=
  { w with memcache := fun k => if k = key then some value else w.memcache k }

/-- The world with `key` evicted from memcache. -/
def World.evict (w : World) (key : Str) : World :=
  { w with memcache := fun k => if k = key then none else w.memcache k }

@[simp] theorem World.put_zipfileCache (w : World) (key : Str) (value : CacheValue) :
    (w.put key value).zipfileCache = w.zipfileCache := rfl

@[simp] theorem World.evict_zipfileCache (w : World) (key : Str) :
    (w.evict key).zipfileCache = w.zipfileCache := rfl

/-- The world with `archive` cached under `name`. -/
def World.putZipfile (w : World) (name : Str) (archive : Archive) : World :=
  { w with zipfileCache := fun n => if n = name then some archive else w.zipfileCache n }

/-- The memcache contract: `get`; `add` stores only under an absent key;
`replace` only under a present one; both refuse oversized values. -/
def Op.perform : (op : Op) → World → op.Answer × World
  | .cacheGet key, w => (w.memcache key, w)
  | .cacheAdd key value, w =>
      if maxItemSize < value.size then (none, w)
      else if (w.memcache key).isSome then (some false, w) else (some true, w.put key value)
  | .cacheReplace key value, w =>
      if maxItemSize < value.size then (none, w)
      else if (w.memcache key).isSome then (some true, w.put key value) else (some false, w)
  | .zipfileGet name, w => (w.zipfileCache name, w)
  | .zipfileSet name archive, w => ((), w.putZipfile name archive)

/-- The memcache key a call writes, if it writes one. -/
def Op.writeKey : Op → Option Str
  | .cacheAdd key _ => some key
  | .cacheReplace key _ => some key
  | _ => none

/-- A call changes memcache at most at the key it writes. -/
theorem Op.perform_memcache_of_writeKey_ne (op : Op) (w : World) {k : Str}
    (hk : op.writeKey ≠ some k) : (op.perform w).2.memcache k = w.memcache k := by
  cases op
  case cacheAdd key value =>
    have hne : k ≠ key := fun h => hk (h ▸ rfl)
    simp only [Op.perform]
    split_ifs <;> simp [World.put, hne]
  case cacheReplace key value =>
    have hne : k ≠ key := fun h => hk (h ▸ rfl)
    simp only [Op.perform]
    split_ifs <;> simp [World.put, hne]
  all_goals rfl

/-- No call removes a memcache entry: only eviction does. -/
theorem Op.perform_isSome (op : Op) (w : World) {k : Str} (h : (w.memcache k).isSome) :
    ((op.perform w).2.memcache k).isSome := by
  cases op
  case cacheAdd key value =>
    simp only [Op.perform]
    split_ifs <;> simp [World.put, h, apply_ite]
  case cacheReplace key value =>
    simp only [Op.perform]
    split_ifs <;> simp [World.put, h, apply_ite]
  all_goals exact h

/-- A request's program: a result, an uncaught exception, or a call whose
answer chooses the rest. -/
inductive Prog (α : Type) where
  | pure (value : α)
  | raise (error : PyError)
  | call (op : Op) (next : op.Answer → Prog α)

namespace Prog

variable {α β : Type}

/-- Sequencing: the second program continues from the first one's result. -/
def bind : Prog α → (α → Prog β) → Prog β
  | pure a, f => f a
  | raise e, _ => raise e
  | call op next, f => call op fun r => (next r).bind f

instance : Monad Prog where
  pure := pure
  bind := bind

@[simp] theorem pure_bind (a : α) (f : α → Prog β) : (Pure.pure a >>= f) = f a := rfl

/-- The constructor `pure` binds as the monad's `pure` does. -/
@[simp] theorem pure_ctor_bind (a : α) (f : α → Prog β) : (Prog.pure a >>= f) = f a := rfl

@[simp] theorem raise_bind (e : PyError) (f : α → Prog β) : (raise e >>= f) = raise e := rfl

@[simp] theorem call_bind (op : Op) (next : op.Answer → Prog α) (f : α → Prog β) :
    (call op next >>= f) = call op fun r => next r >>= f := rfl

theorem bind_assoc (x : Prog α) (f : α → Prog β) {γ : Type} (g : β → Prog γ) :
    (x >>= f >>= g) = x >>= fun a => f a >>= g := by
  induction x with
  | pure a => rfl
  | raise e => rfl
  | call op next ih => exact congrArg (call op) (funext ih)

/-- The sequential semantics: the calls answered by the world in turn. -/
def run : Prog α → World → Except PyError α × World
  | pure a, w => (.ok a, w)
  | raise e, w => (.error e, w)
  | call op next, w => (next (op.perform w).1).run (op.perform w).2

/-- The program that only returns, or only raises, what a run ended with. -/
def ofExcept : Except PyError α → Prog α
  | .ok a => pure a
  | .error e => raise e

@[simp] theorem run_pure (a : α) (w : World) : (Pure.pure a : Prog α).run w = (.ok a, w) := rfl

@[simp] theorem run_raise (e : PyError) (w : World) : (raise e : Prog α).run w = (.error e, w) :=
  rfl

@[simp] theorem run_call (op : Op) (next : op.Answer → Prog α) (w : World) :
    (call op next).run w = (next (op.perform w).1).run (op.perform w).2 := rfl

theorem run_bind (x : Prog α) (f : α → Prog β) (w : World) :
    (x >>= f).run w =
      match x.run w with
      | (.ok a, w') => (f a).run w'
      | (.error e, w') => (.error e, w') := by
  induction x generalizing w with
  | pure a => rfl
  | raise e => rfl
  | call op next ih => exact ih _ _

/-- The calls a sequential run makes, in order. -/
def trace : Prog α → World → List Op
  | pure _, _ => []
  | raise _, _ => []
  | call op next, w => op :: (next (op.perform w).1).trace (op.perform w).2

@[simp] theorem trace_pure (a : α) (w : World) : (Pure.pure a : Prog α).trace w = [] := rfl

@[simp] theorem trace_raise (e : PyError) (w : World) : (raise e : Prog α).trace w = [] := rfl

@[simp] theorem trace_call (op : Op) (next : op.Answer → Prog α) (w : World) :
    (call op next).trace w = op :: (next (op.perform w).1).trace (op.perform w).2 := rfl

/-- The calls of a sequence: the first program's, then the second's from the
world the first left. -/
theorem trace_bind (x : Prog α) (f : α → Prog β) (w : World) :
    (x >>= f).trace w =
      x.trace w ++
        match x.run w with
        | (.ok a, w') => (f a).trace w'
        | (.error _, _) => [] := by
  induction x generalizing w with
  | pure a => rfl
  | raise e => rfl
  | call op next ih => exact congrArg (op :: ·) (ih _ _)

/-- A call the first program makes is a call of the sequence. -/
theorem mem_trace_bind_left {x : Prog α} {f : α → Prog β} {w : World} {op : Op}
    (h : op ∈ x.trace w) : op ∈ (x >>= f).trace w := by
  rw [trace_bind]
  exact List.mem_append_left _ h

/-- A call the second program makes, from where the first left off, is a call of
the sequence. -/
theorem mem_trace_bind_right {x : Prog α} {f : α → Prog β} {w w' : World} {a : α} {op : Op}
    (hx : x.run w = (.ok a, w')) (h : op ∈ (f a).trace w') : op ∈ (x >>= f).trace w := by
  rw [trace_bind, hx]
  exact List.mem_append_right _ h

/-- A run never removes a memcache entry. -/
theorem run_isSome (p : Prog α) {w : World} {k : Str} (h : (w.memcache k).isSome) :
    ((p.run w).2.memcache k).isSome := by
  induction p generalizing w with
  | pure a => exact h
  | raise e => exact h
  | call op next ih => exact ih _ (op.perform_isSome w h)

/-- An entry the first program leaves is still there after the sequence. -/
theorem isSome_run_bind {x : Prog α} {f : α → Prog β} {w : World} {k : Str}
    (h : ((x.run w).2.memcache k).isSome) : (((x >>= f).run w).2.memcache k).isSome := by
  rw [run_bind]
  rcases hx : x.run w with ⟨_ | a, w'⟩
  · rw [hx] at h
    exact h
  · rw [hx] at h
    exact run_isSome (f a) h

end Prog

/-- Which calls a program may make, and which answers the shared state may give
each call: what an invariant of the shared state permits. -/
structure Discipline where
  allowed : Op → Prop
  admissible : (op : Op) → op.Answer → Prop

/-- A world property kept by a discipline: every answer the world gives is
admissible, and every allowed call keeps the property. -/
def Discipline.Keeps (d : Discipline) (inv : World → Prop) : Prop :=
  ∀ op w, inv w → d.admissible op (op.perform w).1 ∧ (d.allowed op → inv (op.perform w).2)

namespace Prog

variable {α β : Type} {d : Discipline}

/-- Along every path of admissible answers, the program makes only allowed calls
and, when it returns, its result satisfies `post`. An uncaught exception
satisfies every postcondition. -/
def Sat (d : Discipline) (post : α → Prop) : Prog α → Prop
  | pure a => post a
  | raise _ => True
  | call op next => d.allowed op ∧ ∀ r, d.admissible op r → Sat d post (next r)

@[simp] theorem sat_pure (a : α) (post : α → Prop) :
    (Pure.pure a : Prog α).Sat d post ↔ post a := Iff.rfl

@[simp] theorem sat_raise (e : PyError) (post : α → Prop) : (raise e : Prog α).Sat d post :=
  trivial

@[simp] theorem sat_call (op : Op) (next : op.Answer → Prog α) (post : α → Prop) :
    (call op next).Sat d post ↔ d.allowed op ∧ ∀ r, d.admissible op r → (next r).Sat d post :=
  Iff.rfl

theorem Sat.bind {x : Prog α} {f : α → Prog β} {post : β → Prop}
    (h : x.Sat d fun a => (f a).Sat d post) : (x >>= f).Sat d post := by
  induction x with
  | pure a => exact h
  | raise e => trivial
  | call op next ih => exact ⟨h.1, fun r hr => ih r (h.2 r hr)⟩

theorem Sat.mono {p : Prog α} {post post' : α → Prop} (h : p.Sat d post)
    (hpost : ∀ a, post a → post' a) : p.Sat d post' := by
  induction p with
  | pure a => exact hpost a h
  | raise e => trivial
  | call op next ih => exact ⟨h.1, fun r hr => ih r (h.2 r hr)⟩

/-- A discipline that allows no more calls and admits no more answers keeps
every `Sat`. -/
theorem Sat.restrict {d' : Discipline} {p : Prog α} {post : α → Prop} (h : p.Sat d post)
    (hallowed : ∀ op, d.allowed op → d'.allowed op)
    (hadm : ∀ op r, d'.admissible op r → d.admissible op r) : p.Sat d' post := by
  induction p with
  | pure a => exact h
  | raise e => trivial
  | call op next ih => exact ⟨hallowed op h.1, fun r hr => ih r (h.2 r (hadm op r hr))⟩

/-- The program raises no exception, whatever the answers. -/
def NoRaise : Prog α → Prop
  | pure _ => True
  | raise _ => False
  | call _ next => ∀ r, NoRaise (next r)

theorem NoRaise.bind {x : Prog α} {f : α → Prog β} (hx : x.NoRaise) (hf : ∀ a, (f a).NoRaise) :
    (x >>= f).NoRaise := by
  induction x with
  | pure a => exact hf a
  | raise e => exact hx.elim
  | call op next ih => exact fun r => ih r (hx r)

theorem NoRaise.run_ok {p : Prog α} (hp : p.NoRaise) (w : World) : ∃ a, (p.run w).1 = .ok a := by
  induction p generalizing w with
  | pure a => exact ⟨a, rfl⟩
  | raise e => exact hp.elim
  | call op next ih => exact ih _ (hp _) _

/-- A run of a program followed by a pure step: the result mapped, the world as
the program leaves it. -/
theorem run_map (x : Prog α) (f : α → β) (w : World) :
    (x >>= fun a => Pure.pure (f a)).run w = ((x.run w).1.map f, (x.run w).2) := by
  rw [run_bind]
  rcases x.run w with ⟨_ | _, _⟩ <;> rfl

/-- Every run leaves memcache as it found it. -/
def KeepsMemcache (p : Prog α) : Prop := ∀ w, (p.run w).2.memcache = w.memcache

theorem KeepsMemcache.pure (a : α) : (Pure.pure a : Prog α).KeepsMemcache := fun _ => rfl

theorem KeepsMemcache.call {op : Op} {next : op.Answer → Prog α}
    (hop : ∀ w, (op.perform w).2.memcache = w.memcache) (hnext : ∀ r, (next r).KeepsMemcache) :
    (call op next).KeepsMemcache := fun w => (hnext _ _).trans (hop w)

theorem KeepsMemcache.bind {x : Prog α} {f : α → Prog β} (hx : x.KeepsMemcache)
    (hf : ∀ a, (f a).KeepsMemcache) : (x >>= f).KeepsMemcache := by
  intro w
  have hw := hx w
  rw [run_bind]
  rcases h : x.run w with ⟨_ | a, w'⟩
  · simpa [h] using hw
  · rw [h] at hw
    exact (hf a w').trans hw

/-- Every run changes memcache at most at the keys `keys` holds. -/
def WritesOnly (keys : Str → Prop) (p : Prog α) : Prop :=
  ∀ w k, ¬keys k → (p.run w).2.memcache k = w.memcache k

section WritesOnly

variable {keys : Str → Prop}

theorem WritesOnly.pure (a : α) : (Pure.pure a : Prog α).WritesOnly keys := fun _ _ _ => rfl

theorem WritesOnly.call {op : Op} {next : op.Answer → Prog α}
    (hop : ∀ k, op.writeKey = some k → keys k) (hnext : ∀ r, (next r).WritesOnly keys) :
    (call op next).WritesOnly keys :=
  fun w k hk => (hnext _ _ k hk).trans (op.perform_memcache_of_writeKey_ne w fun h => hk (hop k h))

theorem WritesOnly.bind {x : Prog α} {f : α → Prog β} (hx : x.WritesOnly keys)
    (hf : ∀ a, (f a).WritesOnly keys) : (x >>= f).WritesOnly keys := by
  intro w k hk
  have hw := hx w k hk
  rw [run_bind]
  rcases h : x.run w with ⟨_ | a, w'⟩
  · rw [h] at hw
    exact hw
  · rw [h] at hw
    exact (hf a w' k hk).trans hw

theorem WritesOnly.mono {keys' : Str → Prop} {p : Prog α} (h : p.WritesOnly keys)
    (hk : ∀ k, keys k → keys' k) : p.WritesOnly keys' :=
  fun w k hk' => h w k fun hkeys => hk' (hk k hkeys)

theorem KeepsMemcache.writesOnly {p : Prog α} (h : p.KeepsMemcache) : p.WritesOnly keys :=
  fun w k _ => congrFun (h w) k

end WritesOnly

/-- A sequential run from a world with a kept property ends in a world with it,
and its result, if any, satisfies the postcondition. -/
theorem run_sat {inv : World → Prop} (hk : d.Keeps inv) {p : Prog α} {post : α → Prop}
    (hp : p.Sat d post) {w : World} (hw : inv w) :
    inv (p.run w).2 ∧ ∀ a, (p.run w).1 = .ok a → post a := by
  induction p generalizing w with
  | pure a => exact ⟨hw, fun b hb => by cases hb; exact hp⟩
  | raise e => exact ⟨hw, fun b hb => by cases hb⟩
  | call op next ih =>
      obtain ⟨hadm, hkeep⟩ := hk op w hw
      exact ih _ (hp.2 _ hadm) (hkeep hp.1)

end Prog

end MemcacheZipserve
