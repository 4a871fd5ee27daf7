import Mathlib.Logic.Function.Basic
import Ollog.Lib.Effects

/-!
# Caches behind a dirty flag

A cache holds something that has been computed from a source.  Whoever changes the source marks the
cache dirty afterwards, and whoever looks something up in a dirty cache loads it first.

Loading takes time: a `Reader` reads the source in several steps, between which the source may
change, and other tasks may look things up, find the cache dirty, and load it as well.  The flag is
cleared by whoever finishes.  So a notification is lost if it arrives while a load is under way that
has read the source before the change.  `Settled` is what holds from a notification on if no such
load finishes, and `Settled.run` says that it does.
-/

set_option autoImplicit false

namespace DirtyCache

open Effects

variable {σ κ α ν μ ι : Type}

/-! ## Reading a source in steps -/

/-- A computation that reads the source any number of times, and returns. -/
inductive Reader (σ ν : Type) where
  | done (v : ν)
  | read (next : σ → Reader σ ν)

namespace Reader

/-- Go on with what a reader returns. -/
def bind (r : Reader σ ν) (f : ν → Reader σ μ) : Reader σ μ :=
  match r with
  | done v => f v
  | read next => .read fun s ↦ (next s).bind f

instance : Monad (Reader σ) where
  pure := done
  bind := bind

/-- Read the source. -/
def source : Reader σ σ := .read done

/-- What a reader returns if the source does not change. -/
def eval : Reader σ ν → σ → ν
  | done v, _ => v
  | read next, s => (next s).eval s

/-- The reader that is left after the source has been read, in these states of it. -/
def resume : Reader σ ν → List σ → Reader σ ν
  | r, [] => r
  | done v, _ :: _ => done v
  | read next, s :: seen => (next s).resume seen
termination_by structural _ seen => seen

/-- What is returned has `Q`, if the source has `P` whenever it is read. -/
def Yields (P : σ → Prop) (Q : ν → Prop) : Reader σ ν → Prop
  | done v => Q v
  | read next => ∀ s, P s → (next s).Yields P Q

@[simp] theorem pure_eq (v : ν) : (pure v : Reader σ ν) = done v := rfl

@[simp] theorem eval_done (v : ν) (s : σ) : (done v : Reader σ ν).eval s = v := rfl

@[simp] theorem eval_source (s : σ) : source.eval s = s := rfl

@[simp] theorem eval_bind (r : Reader σ ν) (f : ν → Reader σ μ) (s : σ) :
    (r >>= f).eval s = (f (r.eval s)).eval s := by
  change (r.bind f).eval s = _
  induction r with
  | done v => rfl
  | read next ih => exact ih s

theorem eval_foldlM (f : μ → ν → Reader σ μ) (b : μ) (xs : List ν) (s : σ) :
    (xs.foldlM f b).eval s = xs.foldl (fun b x ↦ (f b x).eval s) b := by
  induction xs generalizing b with
  | nil => rfl
  | cons x xs ih => rw [List.foldlM_cons, eval_bind, ih, List.foldl_cons]

variable {P : σ → Prop}

theorem yields_source : (source : Reader σ σ).Yields P P := fun _ hs ↦ hs

theorem yields_bind {Q : ν → Prop} {R : μ → Prop} {r : Reader σ ν} {f : ν → Reader σ μ}
    (h : r.Yields P Q) (hf : ∀ v, Q v → (f v).Yields P R) : (r >>= f).Yields P R := by
  change (r.bind f).Yields P R
  induction r with
  | done v => exact hf v h
  | read next ih => exact fun s hs ↦ ih s (h s hs)

/-- An invariant of the accumulator that every round keeps. -/
theorem yields_foldlM {I : μ → Prop} {f : μ → ν → Reader σ μ} {xs : List ν}
    (hf : ∀ b, ∀ x ∈ xs, I b → (f b x).Yields P I) {b : μ} (h : I b) :
    (xs.foldlM f b).Yields P I := by
  induction xs generalizing b with
  | nil => exact h
  | cons x xs ih =>
    rw [List.foldlM_cons]
    exact yields_bind (hf b x (List.mem_cons_self ..) h) fun b' hb' ↦
      ih (fun b y hy ↦ hf b y (List.mem_cons_of_mem _ hy)) hb'

/-- Any reader returns something. -/
theorem yields_true (r : Reader σ ν) : r.Yields P fun _ ↦ True := by
  induction r with
  | done v => trivial
  | read next ih => exact fun s _ ↦ ih s

/-- The rest of a reader still returns what the reader returns. -/
theorem Yields.resume {Q : ν → Prop} {r : Reader σ ν} {seen : List σ} (h : r.Yields P Q)
    (hseen : ∀ s ∈ seen, P s) : (r.resume seen).Yields P Q := by
  induction seen generalizing r with
  | nil => exact h
  | cons s seen ih =>
    cases r with
    | done v => exact h
    | read next =>
      exact ih (h s (hseen s (List.mem_cons_self ..))) fun t ht ↦
        hseen t (List.mem_cons_of_mem _ ht)

theorem resume_read (next : σ → Reader σ ν) (s : σ) : (read next).resume [s] = next s := rfl

theorem resume_append (r : Reader σ ν) (seen : List σ) (s : σ) :
    r.resume (seen ++ [s]) = (r.resume seen).resume [s] := by
  induction seen generalizing r with
  | nil => rfl
  | cons t seen ih =>
    cases r with
    | done v => rfl
    | read next => exact ih (next t)

end Reader

/-! ## The cache -/

/-- Something computed from the source, and whether the source has changed since. -/
structure Cache (ν : Type) where
  content : ν
  dirty : Bool

namespace Cache

/-- Mark the cache dirty. -/
def notify (c : Cache ν) : Cache ν := { c with dirty := true }

/-- The cache after a load. -/
def install (v : ν) : Cache ν := ⟨v, false⟩

/-- The cache a lookup consults, if nothing else happens meanwhile: a dirty one is loaded. -/
def refresh (c : Cache ν) (v : ν) : Cache ν := if c.dirty then install v else c

/-- Unless it is dirty, the cache has the property. -/
def Sound (Q : ν → Prop) (c : Cache ν) : Prop := c.dirty = false → Q c.content

variable {Q : ν → Prop} {c : Cache ν} {v : ν}

theorem sound_notify : c.notify.Sound Q := fun h ↦ nomatch h

theorem sound_install (h : Q v) : (install v).Sound Q := fun _ ↦ h

/-- What a lookup consults has the property, if what would be loaded has it. -/
theorem Sound.refresh (hc : c.Sound Q) (hv : Q v) : Q (c.refresh v).content := by
  rw [Cache.refresh]
  split
  · exact hv
  · rename_i hdirty
    exact hc (Bool.eq_false_iff.2 hdirty)

@[simp] theorem dirty_refresh : (c.refresh v).dirty = false := by
  rw [Cache.refresh]
  split
  · rfl
  · rename_i hdirty
    exact Bool.eq_false_iff.2 hdirty

end Cache

/-! ## Tasks that look things up -/

/-- How a cache is loaded, and what is looked up in it. -/
structure Protocol (σ ν κ α : Type) where
  load : Reader σ ν
  find : κ → ν → α

/-- How far a task is with its lookup. -/
inductive Task (σ ν κ α : Type) where
  /-- It is about to test the flag. -/
  | testing (k : κ)
  /-- It loads the cache: what it has read so far, oldest first, and what is left of the load. -/
  | loading (k : κ) (seen : List σ) (rest : Reader σ ν)
  /-- It is about to look the key up. -/
  | looking (k : κ)
  | answered (k : κ) (a : α)

/-- The source, the cache, and the tasks. -/
structure State (σ ν κ α ι : Type) where
  source : σ
  cache : Cache ν
  tasks : ι → Option (Task σ ν κ α)

/-- What may happen to the cache. -/
inductive Event (σ κ ι : Type) where
  /-- A task starts to look up a key. -/
  | lookUp (i : ι) (k : κ)
  /-- The next step of a task. -/
  | advance (i : ι)
  /-- The source changes. -/
  | write (s : σ)
  /-- The cache is marked dirty. -/
  | notify

section Step

variable [DecidableEq ι]

/-- The state with a task where it is now. -/
def State.setTask (s : State σ ν κ α ι) (i : ι) (task : Task σ ν κ α) : State σ ν κ α ι :=
  { s with tasks := Function.update s.tasks i (some task) }

@[simp] theorem State.source_setTask (s : State σ ν κ α ι) (i : ι) (task : Task σ ν κ α) :
    (s.setTask i task).source = s.source := rfl

@[simp] theorem State.cache_setTask (s : State σ ν κ α ι) (i : ι) (task : Task σ ν κ α) :
    (s.setTask i task).cache = s.cache := rfl

@[simp] theorem State.tasks_setTask_self (s : State σ ν κ α ι) (i : ι) (task : Task σ ν κ α) :
    (s.setTask i task).tasks i = some task := Function.update_self ..

theorem State.tasks_setTask_of_ne (s : State σ ν κ α ι) {i j : ι} (task : Task σ ν κ α)
    (h : j ≠ i) : (s.setTask i task).tasks j = s.tasks j := Function.update_of_ne h ..

namespace Protocol

variable (P : Protocol σ ν κ α)

/-- The next step of a task. -/
def advance (s : State σ ν κ α ι) (i : ι) : State σ ν κ α ι :=
  match s.tasks i with
  | some (.testing k) => s.setTask i (if s.cache.dirty then .loading k [] P.load else .looking k)
  | some (.loading k seen (.read next)) =>
    s.setTask i (.loading k (seen ++ [s.source]) (next s.source))
  | some (.loading k _ (.done v)) => { s with cache := .install v }.setTask i (.looking k)
  | some (.looking k) => s.setTask i (.answered k (P.find k s.cache.content))
  | some (.answered ..) | none => s

/-- One event.  A task starts once. -/
def step (s : State σ ν κ α ι) : Event σ κ ι → State σ ν κ α ι
  | .lookUp i k => if (s.tasks i).isSome then s else s.setTask i (.testing k)
  | .advance i => P.advance s i
  | .write source => { s with source := source }
  | .notify => { s with cache := s.cache.notify }

/-- Only a write changes the source. -/
theorem source_step (s : State σ ν κ α ι) (e : Event σ κ ι) :
    (P.step s e).source = match e with
      | .write source => source
      | _ => s.source := by
  cases e with
  | lookUp i k =>
    rw [step]
    split <;> rfl
  | advance i =>
    rw [step, advance]
    split <;> rfl
  | write source => rfl
  | notify => rfl

end Protocol

end Step

/-! ## After a notification -/

/-- What is known of a task: a load has come this far by reading what it has read, and unless the
task is `old`, it has seen nothing but clean sources and a cache with `Q`. -/
def Task.Good (P : Protocol σ ν κ α) (Clean : σ → Prop) (Q : ν → Prop) (old : Prop) (content : ν) :
    Task σ ν κ α → Prop
  | .testing _ => True
  | .loading _ seen rest => rest = P.load.resume seen ∧ (¬ old → ∀ t ∈ seen, Clean t)
  | .looking _ => ¬ old → Q content
  | .answered k a => ¬ old → ∃ v, Q v ∧ a = P.find k v

/-- The source is clean, the cache has `Q` unless it is dirty, and what is known of the tasks is
true. -/
structure Settled (P : Protocol σ ν κ α) (Clean : σ → Prop) (Q : ν → Prop) (old : ι → Prop)
    (s : State σ ν κ α ι) : Prop where
  source : Clean s.source
  cache : s.cache.Sound Q
  tasks : ∀ i task, s.tasks i = some task → task.Good P Clean Q (old i) s.cache.content

/-- The source stays clean, and a load that finishes has found it clean whenever it has read it. -/
def Timely (Clean : σ → Prop) (s : State σ ν κ α ι) : Event σ κ ι → Prop
  | .advance i => ∀ k seen v, s.tasks i = some (.loading k seen (.done v)) → ∀ t ∈ seen, Clean t
  | .write t => Clean t
  | .lookUp .. | .notify => True

variable {P : Protocol σ ν κ α} {Clean : σ → Prop} {Q : ν → Prop} {old : ι → Prop}
  {s : State σ ν κ α ι}

/-- A cache with no tasks yet. -/
theorem settled_of_no_tasks (hsource : Clean s.source) (hcache : s.cache.Sound Q)
    (h : ∀ i, s.tasks i = none) : Settled P Clean Q old s :=
  ⟨hsource, hcache, fun i _ hi ↦ by cases (h i).symm.trans hi⟩

/-- A cache that has just been marked dirty, after a change that has made the source clean, is
settled for all tasks to come. -/
theorem Settled.of_dirty {Clean' : σ → Prop} {Q' : ν → Prop} (h : Settled P Clean' Q' old s)
    (hsource : Clean s.source) (hdirty : s.cache.dirty = true) :
    Settled P Clean Q (fun i ↦ (s.tasks i).isSome = true) s where
  source := hsource
  cache h := by cases h.symm.trans hdirty
  tasks i task hi := by
    have hold : (s.tasks i).isSome = true := by rw [hi, Option.isSome_some]
    cases task with
    | testing k => trivial
    | loading k seen rest => exact ⟨(h.tasks i _ hi).1, fun hnew ↦ absurd hold hnew⟩
    | looking k => exact fun hnew ↦ absurd hold hnew
    | answered k a => exact fun hnew ↦ absurd hold hnew

variable [DecidableEq ι]

theorem Settled.setTask (h : Settled P Clean Q old s) {i : ι} {task : Task σ ν κ α}
    (htask : task.Good P Clean Q (old i) s.cache.content) :
    Settled P Clean Q old (s.setTask i task) := by
  refine ⟨h.source, h.cache, fun j task' hj ↦ ?_⟩
  by_cases hji : j = i
  · subst hji
    rw [State.tasks_setTask_self, Option.some.injEq] at hj
    exact hj ▸ htask
  · rw [State.tasks_setTask_of_ne s task hji] at hj
    exact h.tasks j task' hj

omit [DecidableEq ι] in
/-- The cache may be replaced by one that has the property. -/
theorem Settled.install (h : Settled P Clean Q old s) {v : ν} (hv : Q v) :
    Settled P Clean Q old { s with cache := .install v } := by
  refine ⟨h.source, Cache.sound_install hv, fun i task hi ↦ ?_⟩
  have hgood := h.tasks i task hi
  cases task with
  | testing k => trivial
  | loading k seen rest => exact hgood
  | looking k => exact fun _ ↦ hv
  | answered k a => exact hgood

theorem Settled.advance (hload : P.load.Yields Clean Q) (h : Settled P Clean Q old s) {i : ι}
    (htimely : ∀ k seen v, s.tasks i = some (.loading k seen (.done v)) → ∀ t ∈ seen, Clean t) :
    Settled P Clean Q old (P.advance s i) := by
  rw [Protocol.advance]
  split
  · -- The flag is tested.  If it is clear, the cache is sound already.
    refine h.setTask ?_
    split
    · exact ⟨rfl, fun _ _ ht ↦ nomatch ht⟩
    · rename_i hclear
      exact fun _ ↦ h.cache (Bool.eq_false_iff.2 hclear)
  · rename_i k seen next hi
    obtain ⟨hrest, hclean⟩ := h.tasks i _ hi
    refine h.setTask ⟨?_, fun hnew t ht ↦ ?_⟩
    · rw [Reader.resume_append, ← hrest, Reader.resume_read]
    · rw [List.mem_append, List.mem_singleton] at ht
      obtain ht | rfl := ht
      · exact hclean hnew t ht
      · exact h.source
  · -- The load finishes, and it has seen nothing but clean sources.
    rename_i k seen v hi
    have hv : Q v := by
      have hrest := hload.resume (htimely k seen v hi)
      rwa [← (h.tasks i _ hi).1] at hrest
    exact (h.install hv).setTask fun _ ↦ hv
  · rename_i k hi
    exact h.setTask fun hnew ↦ ⟨_, h.tasks i _ hi hnew, rfl⟩
  · exact h
  · exact h

theorem Settled.step (hload : P.load.Yields Clean Q) (h : Settled P Clean Q old s)
    {e : Event σ κ ι} (he : Timely Clean s e) : Settled P Clean Q old (P.step s e) := by
  cases e with
  | lookUp i k =>
    rw [Protocol.step]
    split
    · exact h
    · exact h.setTask trivial
  | advance i => exact h.advance hload he
  | write t => exact ⟨he, h.cache, h.tasks⟩
  | notify => exact ⟨h.source, Cache.sound_notify, h.tasks⟩

/-! ## Lookups end -/

/-- The key a task looks up. -/
def Task.key : Task σ ν κ α → κ
  | .testing k | .loading k .. | .looking k | .answered k _ => k

variable (P)

/-- Advance a task alone, a number of times. -/
def advances (s : State σ ν κ α ι) (i : ι) (n : Nat) : State σ ν κ α ι :=
  run (P.step) s (List.replicate n (.advance i))

theorem advances_succ (s : State σ ν κ α ι) (i : ι) (n : Nat) :
    advances P s i (n + 1) = advances P (P.advance s i) i n := rfl

theorem advances_add (s : State σ ν κ α ι) (i : ι) (m n : Nat) :
    advances P s i (m + n) = advances P (advances P s i m) i n := by
  rw [advances, ← List.replicate_append_replicate, run_append]
  rfl

@[simp] theorem State.setTask_setTask (s : State σ ν κ α ι) (i : ι) (t t' : Task σ ν κ α) :
    (s.setTask i t).setTask i t' = s.setTask i t' := by
  rw [setTask, setTask, setTask, Function.update_idem]

/-- A task that has loaded, or need not, looks its key up in the next step. -/
theorem advance_looking {s : State σ ν κ α ι} {i : ι} {k : κ} (h : s.tasks i = some (.looking k)) :
    P.advance s i = s.setTask i (.answered k (P.find k s.cache.content)) := by
  rw [Protocol.advance, h]

/-- A load that is not interrupted reads the same source all the time. -/
theorem exists_advances_loading {i : ι} {k : κ} {rest : Reader σ ν} {seen : List σ}
    {s : State σ ν κ α ι} (h : s.tasks i = some (.loading k seen rest)) :
    ∃ n, advances P s i n =
      { s with cache := .install (rest.eval s.source) }.setTask i (.looking k) := by
  induction rest generalizing s seen with
  | done v =>
    refine ⟨1, ?_⟩
    rw [advances_succ, Protocol.advance, h]
    rfl
  | read next ih =>
    obtain ⟨n, hn⟩ := ih s.source
      (s := s.setTask i (.loading k (seen ++ [s.source]) (next s.source)))
      (State.tasks_setTask_self ..)
    refine ⟨n + 1, ?_⟩
    rw [advances_succ, Protocol.advance, h]
    refine hn.trans ?_
    exact State.setTask_setTask { s with cache := _ } i _ _

/-- **A lookup that is not interrupted** consults the cache as it is, or, if it is dirty, what a
load makes of the source as it is. -/
theorem exists_advances_testing {i : ι} {k : κ} {s : State σ ν κ α ι}
    (h : s.tasks i = some (.testing k)) :
    ∃ n, advances P s i n =
      { s with cache := s.cache.refresh (P.load.eval s.source) }.setTask i
        (.answered k (P.find k (s.cache.refresh (P.load.eval s.source)).content)) := by
  have hfirst : P.advance s i =
      s.setTask i (if s.cache.dirty then .loading k [] P.load else .looking k) := by
    rw [Protocol.advance, h]
  by_cases hdirty : s.cache.dirty = true
  · rw [if_pos hdirty] at hfirst
    obtain ⟨n, hn⟩ := exists_advances_loading P (s := s.setTask i (.loading k [] P.load))
      (State.tasks_setTask_self ..)
    refine ⟨n + 1 + 1, ?_⟩
    rw [advances_succ, hfirst, advances_add, hn, advances_succ,
      advance_looking P (State.tasks_setTask_self ..), State.setTask_setTask, Cache.refresh,
      if_pos hdirty]
    exact State.setTask_setTask { s with cache := _ } i _ _
  · rw [if_neg hdirty] at hfirst
    refine ⟨2, ?_⟩
    rw [advances_succ, hfirst, advances_succ, advance_looking P (State.tasks_setTask_self ..),
      State.setTask_setTask, Cache.refresh, if_neg hdirty]
    rfl

/-- **Every lookup ends** as soon as its task is let run. -/
theorem exists_answered {i : ι} {task : Task σ ν κ α} {s : State σ ν κ α ι}
    (h : s.tasks i = some task) :
    ∃ n a, (advances P s i n).tasks i = some (.answered task.key a) := by
  cases task with
  | testing k =>
    obtain ⟨n, hn⟩ := exists_advances_testing P h
    exact ⟨n, _, hn ▸ State.tasks_setTask_self ..⟩
  | loading k seen rest =>
    obtain ⟨n, hn⟩ := exists_advances_loading P h
    refine ⟨n + 1, P.find k (rest.eval s.source), ?_⟩
    rw [advances_add, hn, advances_succ, advance_looking P (State.tasks_setTask_self ..)]
    exact State.tasks_setTask_self ..
  | looking k =>
    refine ⟨1, P.find k s.cache.content, ?_⟩
    rw [advances_succ, advance_looking P h]
    exact State.tasks_setTask_self ..
  | answered k a => exact ⟨0, a, h⟩

end DirtyCache
