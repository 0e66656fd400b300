import HighPerformanceServer.Lts
import HighPerformanceServer.Threadpool
import Mathlib.Data.List.Perm.Basic
/-!
# Runs of the C thread pool

Any number of threads call `threadpool_add`, one calls `threadpool_destroy` with
`THREADPOOL_GRACEFUL`, and the workers loop. Every `pthread` call succeeds. A step is a critical
section, the end of a task, the return of one join, or a wake-up: a signal wakes one waiting worker
when there is one, a broadcast wakes all, and any waiting worker may wake by itself.

`accepted`, `dequeued` and `finished` are history: the tasks for which `threadpool_add` returned 0,
what the workers took out, and what they ran to its end. A worker runs what it took out as the
`ticket`-th.
-/

namespace HPServer

variable {Task : Type}

inductive Worker (Task : Type) where
  /-- About to lock, at the top of the loop or with a task done. -/
  | top
  /-- In `pthread_cond_wait`. -/
  | waiting
  /-- Woken, about to lock again. -/
  | woken
  | running (ticket : Nat) (task : Option Task)
  | exited

inductive Destroyer where
  | notCalled
  /-- In `pthread_join(threads[i])`. -/
  | joining (i : Nat)
  | joined
deriving DecidableEq

structure PoolState (Task : Type) where
  pool : Threadpool Task
  worker : Nat → Worker Task
  destroyer : Destroyer
  accepted : List Task
  dequeued : List (Option Task)
  finished : List (Nat × Option Task)

inductive PoolLabel (Task : Type) where
  /-- A call of `threadpool_add`; `signalled` is the worker its signal wakes. -/
  | add (task : Task) (signalled : Option Nat)
  | spurious (w : Nat)
  /-- Worker `w` gets the lock. -/
  | turn (w : Nat)
  | finish (w : Nat)
  | destroy
  | join

namespace PoolState

def threads (s : PoolState Task) : Nat := s.pool.threadCountInPool.toNat

def isWaiting : Worker Task → Bool
  | .waiting => true
  | _ => false

def setWorker (s : PoolState Task) (w : Nat) (x : Worker Task) : PoolState Task :=
  { s with worker := Function.update s.worker w x }

/-- `pthread_cond_signal`. -/
def signal (s : PoolState Task) : Option Nat → Option (PoolState Task)
  | some w => if isWaiting (s.worker w) then some (s.setWorker w .woken) else none
  | none => if (List.range s.threads).any fun w => isWaiting (s.worker w) then none else some s

/-- `pthread_cond_broadcast`. -/
def broadcast (s : PoolState Task) : PoolState Task :=
  { s with worker := fun w => if isWaiting (s.worker w) then .woken else s.worker w }

def add (s : PoolState Task) (task : Task) (signalled : Option Nat) : Option (PoolState Task) :=
  match threadpoolAdd .succeed (some task) s.pool with
  | (0, pool) => { s with pool := pool, accepted := s.accepted ++ [task] }.signal signalled
  | (_, pool) => if signalled = none then some { s with pool := pool } else none

def turn (s : PoolState Task) (w : Nat) : Option (PoolState Task) :=
  if w < s.threads then
    match s.worker w with
    | .top | .woken =>
      match threadpoolThread s.pool with
      | (.wait, pool) => some ({ s with pool := pool }.setWorker w .waiting)
      | (.exit, pool) => some ({ s with pool := pool }.setWorker w .exited)
      | (.run task, pool) =>
        some ({ s with pool := pool, dequeued := s.dequeued ++ [task] }.setWorker w
          (.running s.dequeued.length task))
    | .waiting | .running _ _ | .exited => none
  else none

def finish (s : PoolState Task) (w : Nat) : Option (PoolState Task) :=
  match s.worker w with
  | .running ticket task =>
    some ({ s with finished := s.finished ++ [(ticket, task)] }.setWorker w .top)
  | .top | .waiting | .woken | .exited => none

def destroy (s : PoolState Task) : Option (PoolState Task) :=
  match s.destroyer, threadpoolDestroy THREADPOOL_GRACEFUL s.pool with
  | .notCalled, (0, pool) => some { s.broadcast with pool := pool, destroyer := .joining 0 }
  | _, _ => none

def isExited : Worker Task → Bool
  | .exited => true
  | _ => false

/-- The loop over the joins (threadpool.cpp:128-132). -/
def join (s : PoolState Task) : Option (PoolState Task) :=
  match s.destroyer with
  | .joining i =>
    if i < s.threads then
      if isExited (s.worker i) then some { s with destroyer := .joining (i + 1) } else none
    else some { s with destroyer := .joined }
  | .notCalled | .joined => none

def step (s : PoolState Task) : PoolLabel Task → Option (PoolState Task)
  | .add task signalled => s.add task signalled
  | .spurious w => if isWaiting (s.worker w) then some (s.setWorker w .woken) else none
  | .turn w => s.turn w
  | .finish w => s.finish w
  | .destroy => s.destroy
  | .join => s.join

/-- Behind `threadpool_create`. -/
def start (pool : Threadpool Task) : PoolState Task where
  pool := pool
  worker := fun _ => .top
  destroyer := .notCalled
  accepted := []
  dequeued := []
  finished := []

end PoolState

def threadpool (Task : Type) (threadNum queueSize : Int) : Lts (PoolState Task) (PoolLabel Task) where
  init s := ∃ pool, threadpoolCreate threadNum queueSize = some pool ∧ s = .start pool
  step := PoolState.step

/-! ## The invariant -/

/-- Every ticket is held by one worker or finished once, with the task that was taken out for it. -/
structure Tickets (worker : Nat → Worker Task) (dequeued : List (Option Task))
    (finished : List (Nat × Option Task)) : Prop where
  held : ∀ {w i t}, worker w = .running i t → dequeued[i]? = some t
  held_once : ∀ {w w' i t t'}, worker w = .running i t → worker w' = .running i t' → w = w'
  not_finished : ∀ {w i t}, worker w = .running i t → i ∉ finished.map Prod.fst
  task : ∀ p ∈ finished, dequeued[p.1]? = some p.2
  once : (finished.map Prod.fst).Nodup
  all : ∀ i < dequeued.length, (∃ w t, worker w = .running i t) ∨ i ∈ finished.map Prod.fst

structure PoolInv (s : PoolState Task) : Prop where
  ring : RingInv s.pool
  threads_pos : 0 < s.threads
  fifo : s.dequeued ++ s.pool.pending = s.accepted.map some
  notImmediate : s.pool.shutdown ≠ .immediate
  tickets : Tickets s.worker s.dequeued s.finished
  idle : ∀ w, s.threads ≤ w → s.worker w = .top
  /-- A worker leaves only a pool that is shut down and drained. -/
  drained : ∀ w, s.worker w = .exited → s.pool.shutdown = .graceful ∧ s.pool.pendingTaskCount = 0
  joins : ∀ i, s.destroyer = .joining i → i ≤ s.threads ∧ ∀ w < i, s.worker w = .exited
  joined : s.destroyer = .joined → ∀ w < s.threads, s.worker w = .exited

/-! ## Tickets -/

section Tickets

variable {worker worker' : Nat → Worker Task} {dequeued : List (Option Task)}
  {finished : List (Nat × Option Task)} {w i : Nat} {task : Option Task}

/-- Only the running workers count. -/
theorem Tickets.congr (h : Tickets worker dequeued finished)
    (hw : ∀ w i t, worker' w = .running i t ↔ worker w = .running i t) :
    Tickets worker' dequeued finished where
  held hr := h.held ((hw _ _ _).1 hr)
  held_once hr hr' := h.held_once ((hw _ _ _).1 hr) ((hw _ _ _).1 hr')
  not_finished hr := h.not_finished ((hw _ _ _).1 hr)
  task := h.task
  once := h.once
  all i hi := (h.all i hi).imp (fun ⟨w, t, hr⟩ => ⟨w, t, (hw _ _ _).2 hr⟩) id

theorem running_update {x : Worker Task} (hx : ∀ i t, x ≠ .running i t)
    (hn : ∀ i t, worker w ≠ .running i t) (w' i : Nat) (t : Option Task) :
    Function.update worker w x w' = .running i t ↔ worker w' = .running i t := by
  by_cases h : w' = w
  · subst h
    rw [Function.update_self]
    exact ⟨fun e => absurd e (hx i t), fun e => absurd e (hn i t)⟩
  · rw [Function.update_of_ne h]

theorem Tickets.lt (h : Tickets worker dequeued finished) (hr : worker w = .running i task) :
    i < dequeued.length := (List.getElem?_eq_some_iff.1 (h.held hr)).1

theorem Tickets.finished_lt (h : Tickets worker dequeued finished) (hi : i ∈ finished.map Prod.fst) :
    i < dequeued.length := by
  obtain ⟨p, hp, rfl⟩ := List.mem_map.1 hi
  exact (List.getElem?_eq_some_iff.1 (h.task p hp)).1

/-- A worker that was not running takes the next ticket. -/
theorem Tickets.take (h : Tickets worker dequeued finished) (hn : ∀ i t, worker w ≠ .running i t)
    (task : Option Task) :
    Tickets (Function.update worker w (.running dequeued.length task)) (dequeued ++ [task])
      finished where
  held {w' i t} hr := by
    by_cases hw : w' = w
    · subst hw; rw [Function.update_self] at hr; cases hr; simp
    · rw [Function.update_of_ne hw] at hr
      rw [List.getElem?_append_left (h.lt hr)]; exact h.held hr
  held_once {w₁ w₂ i t t'} h₁ h₂ := by
    by_cases e₁ : w₁ = w <;> by_cases e₂ : w₂ = w
    · rw [e₁, e₂]
    · subst e₁
      rw [Function.update_self] at h₁; rw [Function.update_of_ne e₂] at h₂
      cases h₁; exact absurd (h.lt h₂) (lt_irrefl _)
    · subst e₂
      rw [Function.update_self] at h₂; rw [Function.update_of_ne e₁] at h₁
      cases h₂; exact absurd (h.lt h₁) (lt_irrefl _)
    · rw [Function.update_of_ne e₁] at h₁; rw [Function.update_of_ne e₂] at h₂
      exact h.held_once h₁ h₂
  not_finished {w' i t} hr := by
    by_cases hw : w' = w
    · subst hw; rw [Function.update_self] at hr; cases hr
      exact fun hm => absurd (h.finished_lt hm) (lt_irrefl _)
    · rw [Function.update_of_ne hw] at hr; exact h.not_finished hr
  task p hp := by
    rw [List.getElem?_append_left (List.getElem?_eq_some_iff.1 (h.task p hp)).1]; exact h.task p hp
  once := h.once
  all i hi := by
    rw [List.length_append, List.length_singleton] at hi
    by_cases hlast : i = dequeued.length
    · exact Or.inl ⟨w, task, by rw [Function.update_self, hlast]⟩
    · rcases h.all i (by omega) with ⟨w', t, hr⟩ | hm
      · have hw : w' ≠ w := by rintro rfl; exact hn i t hr
        exact Or.inl ⟨w', t, by rw [Function.update_of_ne hw]; exact hr⟩
      · exact Or.inr hm

theorem Tickets.finish (h : Tickets worker dequeued finished) (hr : worker w = .running i task) :
    Tickets (Function.update worker w .top) dequeued (finished ++ [(i, task)]) where
  held {w' i t} h' := by
    by_cases hw : w' = w
    · subst hw; rw [Function.update_self] at h'; cases h'
    · rw [Function.update_of_ne hw] at h'; exact h.held h'
  held_once {w₁ w₂ i t t'} h₁ h₂ := by
    by_cases e₁ : w₁ = w
    · subst e₁; rw [Function.update_self] at h₁; cases h₁
    by_cases e₂ : w₂ = w
    · subst e₂; rw [Function.update_self] at h₂; cases h₂
    rw [Function.update_of_ne e₁] at h₁; rw [Function.update_of_ne e₂] at h₂
    exact h.held_once h₁ h₂
  not_finished {w' j t} h' := by
    by_cases hw : w' = w
    · subst hw; rw [Function.update_self] at h'; cases h'
    · rw [Function.update_of_ne hw] at h'
      rw [List.map_append, List.mem_append, not_or]
      refine ⟨h.not_finished h', ?_⟩
      rintro hm
      obtain rfl : j = i := by simpa using hm
      exact hw (h.held_once h' hr)
  task p hp := by
    rcases List.mem_append.1 hp with hp | hp
    · exact h.task p hp
    · obtain rfl := List.mem_singleton.1 hp; exact h.held hr
  once := by
    rw [List.map_append, List.nodup_append]
    refine ⟨h.once, by simp, ?_⟩
    intro a ha b hb e
    obtain rfl : b = i := by simpa using hb
    subst e
    exact h.not_finished hr ha
  all j hj := by
    rcases h.all j hj with ⟨w', t, h'⟩ | hm
    · by_cases hw : w' = w
      · subst hw; rw [hr] at h'; cases h'; exact Or.inr (by simp)
      · exact Or.inl ⟨w', t, by rw [Function.update_of_ne hw]; exact h'⟩
    · exact Or.inr (by rw [List.map_append, List.mem_append]; exact Or.inl hm)

end Tickets

/-! ## Every step keeps the invariant -/

theorem tickets_start : Tickets (fun _ => (.top : Worker Task)) [] [] where
  held h := by cases h
  held_once h := by cases h
  not_finished h := by cases h
  task := by simp
  once := List.nodup_nil
  all i hi := by cases hi

theorem poolInv_start {threadNum queueSize : Int} {pool : Threadpool Task}
    (h : threadpoolCreate threadNum queueSize = some pool) : PoolInv (.start pool) := by
  obtain ⟨hring, hempty, hrun, hthreads⟩ := ringInv_create h
  exact
    { ring := hring
      threads_pos := by show 0 < pool.threadCountInPool.toNat; omega
      fifo := by simp [PoolState.start, hempty]
      notImmediate := by simp [PoolState.start, hrun]
      tickets := tickets_start
      idle := fun _ _ => rfl
      drained := by intro w hw; cases hw
      joins := by intro i hi; cases hi
      joined := by intro hj; cases hj }

/-- Waking a waiting worker changes nothing that counts. -/
theorem PoolInv.wake {s : PoolState Task} (h : PoolInv s) {worker : Nat → Worker Task}
    (hw : ∀ w, worker w = s.worker w ∨ (s.worker w = .waiting ∧ worker w = .woken)) :
    PoolInv { s with worker := worker } := by
  have same : ∀ w x, x ≠ .waiting → x ≠ .woken → (worker w = x ↔ s.worker w = x) := by
    intro w x h1 h2
    rcases hw w with e | ⟨e, e'⟩
    · rw [e]
    · rw [e, e']; exact ⟨fun h => absurd h.symm h2, fun h => absurd h.symm h1⟩
  refine ⟨h.ring, h.threads_pos, h.fifo, h.notImmediate, h.tickets.congr fun w i t => same w _ (by simp) (by simp),
    fun w hle => (same w _ (by simp) (by simp)).2 (h.idle w hle),
    fun w hx => h.drained w ((same w _ (by simp) (by simp)).1 hx),
    fun i hi => ⟨(h.joins i hi).1, fun w hlt => (same w _ (by simp) (by simp)).2 ((h.joins i hi).2 w hlt)⟩,
    fun hj w hlt => (same w _ (by simp) (by simp)).2 (h.joined hj w hlt)⟩

theorem PoolInv.signal {s s' : PoolState Task} (h : PoolInv s) {choice : Option Nat}
    (hs : s.signal choice = some s') : PoolInv s' := by
  cases choice with
  | none =>
    simp only [PoolState.signal] at hs
    split at hs
    · cases hs
    · cases hs; exact h
  | some w =>
    simp only [PoolState.signal] at hs
    split at hs
    · rename_i hwait
      cases hs
      refine h.wake fun w' => ?_
      by_cases hw : w' = w
      · subst hw
        refine Or.inr ⟨?_, Function.update_self ..⟩
        cases hx : s.worker w' <;> simp [PoolState.isWaiting, hx] at hwait ⊢
      · exact Or.inl (Function.update_of_ne hw _ _)
    · cases hs

/-- One worker, not gone yet, goes to `x`, while the pool goes on as it was: the parts of the
invariant that have to be shown. -/
theorem PoolInv.place {s s' : PoolState Task} (h : PoolInv s) {w : Nat} {x : Worker Task}
    (hlt : w < s.threads) (hne : s.worker w ≠ .exited) (hw : s'.worker = Function.update s.worker w x)
    (hdest : s'.destroyer = s.destroyer) (hthreads : s'.threads = s.threads)
    (hdown : s'.pool.shutdown = s.pool.shutdown)
    (hcount : s.pool.pendingTaskCount = 0 → s'.pool.pendingTaskCount = 0)
    (hexit : x = .exited → s.pool.shutdown = .graceful ∧ s'.pool.pendingTaskCount = 0)
    (ring : RingInv s'.pool) (fifo : s'.dequeued ++ s'.pool.pending = s'.accepted.map some)
    (tickets : Tickets s'.worker s'.dequeued s'.finished) : PoolInv s' := by
  have other : ∀ w', w' ≠ w → s'.worker w' = s.worker w' := fun w' hne => by
    rw [hw]; exact Function.update_of_ne hne _ _
  have gone : ∀ w', s.worker w' = .exited → s'.worker w' = .exited := fun w' hx => by
    have hne' : w' ≠ w := by rintro rfl; exact hne hx
    rw [other w' hne']; exact hx
  refine ⟨ring, by rw [hthreads]; exact h.threads_pos, fifo, by rw [hdown]; exact h.notImmediate,
    tickets, ?_, ?_, ?_, ?_⟩
  · intro w' hle
    rw [hthreads] at hle
    rw [other w' (by omega)]; exact h.idle w' hle
  · intro w' hx
    rw [hdown]
    by_cases he : w' = w
    · subst he
      rw [hw, Function.update_self] at hx
      exact hexit hx
    · rw [other w' he] at hx
      exact ⟨(h.drained w' hx).1, hcount (h.drained w' hx).2⟩
  · intro i hi
    rw [hdest] at hi
    rw [hthreads]
    exact ⟨(h.joins i hi).1, fun w' hw' => gone w' ((h.joins i hi).2 w' hw')⟩
  · intro hj w' hw'
    rw [hdest] at hj
    rw [hthreads] at hw'
    exact gone w' (h.joined hj w' hw')

theorem PoolInv.add {s s' : PoolState Task} (h : PoolInv s) {task : Task} {signalled : Option Nat}
    (hs : s.add task signalled = some s') : PoolInv s' := by
  simp only [PoolState.add] at hs
  rcases threadpoolAdd_cases h.ring task with ha | ⟨-, ha⟩ | ⟨pool', hrun, ha, hring, hpending, hdown, hcount⟩
  · rw [ha] at hs
    simp only [THREADPOOL_QUEUE_FULL] at hs
    split at hs
    · cases hs; exact h
    · cases hs
  · rw [ha] at hs
    simp only [THREADPOOL_SHUTDOWN] at hs
    split at hs
    · cases hs; exact h
    · cases hs
  · rw [ha] at hs
    refine PoolInv.signal ?_ hs
    have hthreads : ∀ accepted, ({ s with pool := pool', accepted := accepted } : PoolState Task).threads =
        s.threads := fun _ => congrArg Int.toNat hcount
    refine ⟨hring, by rw [hthreads]; exact h.threads_pos, ?_, by rw [hdown]; exact h.notImmediate,
      h.tickets, ?_, ?_, ?_, ?_⟩
    · dsimp only
      rw [hpending, ← List.append_assoc, h.fifo, List.map_append]; rfl
    · intro w hle; rw [hthreads] at hle; exact h.idle w hle
    · intro w hx
      have := (h.drained w hx).1
      rw [hrun] at this; cases this
    · intro i hi; rw [hthreads]; exact h.joins i hi
    · intro hj w hlt; rw [hthreads] at hlt; exact h.joined hj w hlt

/-- A worker that gets the lock was not running, and waits, leaves, or takes a task. -/
theorem PoolState.turn_cases {s s' : PoolState Task} {w : Nat} (hs : s.turn w = some s') :
    w < s.threads ∧ (s.worker w = .top ∨ s.worker w = .woken) ∧
    ((∃ pool, threadpoolThread s.pool = (.wait, pool) ∧
        s' = { s with pool := pool }.setWorker w .waiting) ∨
      (∃ pool, threadpoolThread s.pool = (.exit, pool) ∧
        s' = { s with pool := pool }.setWorker w .exited) ∨
      ∃ task pool, threadpoolThread s.pool = (.run task, pool) ∧
        s' = { s with pool := pool, dequeued := s.dequeued ++ [task] }.setWorker w
          (.running s.dequeued.length task)) := by
  obtain ⟨hlt, hs⟩ := Option.ite_none_right_eq_some.1 hs
  refine ⟨hlt, ?_⟩
  split at hs
  case h_1 | h_2 =>
    rename_i hw
    refine ⟨by simp [hw], ?_⟩
    split at hs <;> rename_i ht <;> cases hs
    · exact Or.inl ⟨_, ht, rfl⟩
    · exact Or.inr (Or.inl ⟨_, ht, rfl⟩)
    · exact Or.inr (Or.inr ⟨_, _, ht, rfl⟩)
  all_goals cases hs

theorem PoolInv.turn {s s' : PoolState Task} (h : PoolInv s) {w : Nat} (hs : s.turn w = some s') :
    PoolInv s' := by
  obtain ⟨hlt, hready, hturn⟩ := PoolState.turn_cases hs
  have hnr : ∀ i t, s.worker w ≠ .running i t := by
    intro i t; rcases hready with e | e <;> rw [e] <;> simp
  have hne : s.worker w ≠ .exited := by rcases hready with e | e <;> rw [e] <;> simp
  rcases threadpoolThread_cases h.ring with ⟨-, ht⟩ | ⟨hdown, hempty, ht⟩ |
    ⟨task, pool', himm, ht, hring, hpending, hdown, hcount⟩ <;> rw [ht] at hturn
  · obtain ⟨pool, e, rfl⟩ | ⟨_, e, -⟩ | ⟨_, _, e, -⟩ := hturn <;> cases e
    exact h.place (x := .waiting) hlt hne rfl rfl rfl rfl id (by simp) h.ring h.fifo
      (h.tickets.congr (running_update (by simp) hnr))
  · obtain ⟨_, e, -⟩ | ⟨pool, e, rfl⟩ | ⟨_, _, e, -⟩ := hturn <;> cases e
    have hzero := hempty h.notImmediate
    have hgrace : s.pool.shutdown = .graceful := by
      cases hd : s.pool.shutdown with
      | running => exact absurd hd hdown
      | immediate => exact absurd hd h.notImmediate
      | graceful => rfl
    exact h.place (x := .exited) hlt hne rfl rfl rfl rfl id (fun _ => ⟨hgrace, hzero⟩)
      ⟨h.ring.size, h.ring.head, h.ring.tail, h.ring.count, h.ring.wrap⟩ h.fifo
      (h.tickets.congr (running_update (by simp) hnr))
  · obtain ⟨_, e, -⟩ | ⟨_, e, -⟩ | ⟨_, _, e, rfl⟩ := hturn <;> cases e
    refine h.place (x := .running s.dequeued.length task) hlt hne rfl rfl
      (congrArg Int.toNat hcount) hdown ?_ (by simp) hring ?_ (h.tickets.take hnr task)
    · intro hzero
      have : s.pool.pending = [] := by simp [Threadpool.pending, hzero]
      rw [this] at hpending; cases hpending
    · show (s.dequeued ++ [task]) ++ pool'.pending = _
      rw [List.append_assoc, List.singleton_append, ← hpending, h.fifo]; rfl

theorem PoolInv.finish {s s' : PoolState Task} (h : PoolInv s) {w : Nat} (hs : s.finish w = some s') :
    PoolInv s' := by
  simp only [PoolState.finish] at hs
  cases hx : s.worker w with
  | running i t =>
    rw [hx] at hs; cases hs
    have hlt : w < s.threads := by
      by_contra hle
      have := h.idle w (by omega)
      rw [hx] at this; cases this
    exact h.place (x := .top) hlt (by rw [hx]; simp) rfl rfl rfl rfl id (by simp) h.ring h.fifo
      (h.tickets.finish hx)
  | top => rw [hx] at hs; cases hs
  | waiting => rw [hx] at hs; cases hs
  | woken => rw [hx] at hs; cases hs
  | exited => rw [hx] at hs; cases hs

/-- The shutdown: no worker can have left before it. -/
theorem PoolInv.destroy {s s' : PoolState Task} (h : PoolInv s) (hs : s.destroy = some s') :
    PoolInv s' := by
  simp only [PoolState.destroy, threadpoolDestroy] at hs
  by_cases hrun : s.pool.shutdown = .running
  · rw [if_neg (by simp [hrun])] at hs
    cases hd : s.destroyer with
    | notCalled =>
      rw [hd] at hs; cases hs
      have hb : PoolInv s.broadcast := h.wake fun w => by
        cases hx : s.worker w <;> simp [PoolState.isWaiting]
      have hnone : ∀ w, s.broadcast.worker w ≠ .exited := by
        intro w hx
        have hdown : s.pool.shutdown = .graceful := (hb.drained w hx).1
        rw [hrun] at hdown; cases hdown
      refine ⟨⟨h.ring.size, h.ring.head, h.ring.tail, h.ring.count, h.ring.wrap⟩, h.threads_pos,
        h.fifo, ?_, hb.tickets, hb.idle, fun w hx => absurd hx (hnone w), ?_, by simp⟩
      · show (if THREADPOOL_GRACEFUL &&& THREADPOOL_GRACEFUL ≠ 0 then Shutdown.graceful
          else Shutdown.immediate) ≠ .immediate
        decide
      · intro i hi
        cases hi
        exact ⟨Nat.zero_le _, by omega⟩
    | joining i => rw [hd] at hs; cases hs
    | joined => rw [hd] at hs; cases hs
  · rw [if_pos hrun] at hs
    cases hd : s.destroyer <;> rw [hd] at hs <;> cases hs

theorem PoolInv.join {s s' : PoolState Task} (h : PoolInv s) (hs : s.join = some s') :
    PoolInv s' := by
  simp only [PoolState.join] at hs
  cases hd : s.destroyer with
  | notCalled => rw [hd] at hs; cases hs
  | joined => rw [hd] at hs; cases hs
  | joining i =>
    rw [hd] at hs
    obtain ⟨hle, hgone⟩ := h.joins i hd
    dsimp only at hs
    split at hs
    · rename_i hlt
      split at hs
      · rename_i hexit
        cases hs
        refine ⟨h.ring, h.threads_pos, h.fifo, h.notImmediate, h.tickets, h.idle, h.drained, ?_, by simp⟩
        intro j hj
        cases hj
        refine ⟨hlt, fun w hw => ?_⟩
        by_cases he : w = i
        · subst he
          cases hx : s.worker w <;> simp [PoolState.isExited, hx] at hexit ⊢
        · exact hgone w (by omega)
      · cases hs
    · cases hs
      exact ⟨h.ring, h.threads_pos, h.fifo, h.notImmediate, h.tickets, h.idle, h.drained, by simp,
        fun _ w hw => hgone w (by
          have : w < s.threads := hw
          omega)⟩

theorem PoolInv.step {s s' : PoolState Task} {label : PoolLabel Task} (h : PoolInv s)
    (hs : s.step label = some s') : PoolInv s' := by
  cases label with
  | add task signalled => exact h.add hs
  | turn w => exact h.turn hs
  | finish w => exact h.finish hs
  | destroy => exact h.destroy hs
  | join => exact h.join hs
  | spurious w =>
    simp only [PoolState.step] at hs
    split at hs
    · rename_i hwait
      have hwake : s.signal (some w) = some s' := by rw [PoolState.signal, if_pos hwait]; exact hs
      exact h.signal hwake
    · cases hs

theorem poolInv_reachable {threadNum queueSize : Int} {s : PoolState Task}
    (h : (threadpool Task threadNum queueSize).Reachable s) : PoolInv s :=
  h.invariant (fun _ ⟨_, hpool, e⟩ => e ▸ poolInv_start hpool) fun _ _ _ hi _ hs => hi.step hs

/-! ## The queue is first in, first out, and the shutdown drains it -/

/-- Once the joins are over, nothing is queued and nothing is running. -/
theorem PoolInv.drained_all {s : PoolState Task} (h : PoolInv s)
    (hj : s.destroyer = .joined) :
    s.dequeued = s.accepted.map some ∧ (s.finished.map Prod.fst).Perm (List.range s.accepted.length) ∧
      ∀ p ∈ s.finished, p.2 = s.accepted[p.1]? := by
  have hempty : s.pool.pending = [] := by
    simp [Threadpool.pending, (h.drained 0 (h.joined hj 0 h.threads_pos)).2]
  have hfifo := h.fifo
  rw [hempty, List.append_nil] at hfifo
  have hlen : s.dequeued.length = s.accepted.length := by rw [hfifo, List.length_map]
  have hidle : ∀ w i t, s.worker w ≠ .running i t := by
    intro w i t hr
    by_cases hlt : w < s.threads
    · rw [h.joined hj w hlt] at hr; cases hr
    · rw [h.idle w (by omega)] at hr; cases hr
  refine ⟨hfifo, ?_, fun p hp => ?_⟩
  · rw [List.perm_ext_iff_of_nodup h.tickets.once List.nodup_range]
    intro i
    rw [List.mem_range, ← hlen]
    refine ⟨h.tickets.finished_lt, fun hi => ?_⟩
    rcases h.tickets.all i hi with ⟨w, t, hr⟩ | hm
    · exact absurd hr (hidle w i t)
    · exact hm
  · have hp' := h.tickets.task p hp
    rw [hfifo, List.getElem?_map] at hp'
    obtain ⟨t, ht, he⟩ := Option.map_eq_some_iff.1 hp'
    rw [ht, ← he]

/-- **The C thread pool** in any run: the indices stay inside the ring, what has been dequeued and
what is queued make up the accepted tasks in their order, and when the joins of a graceful shutdown
are over every accepted task has been run to its end once. -/
theorem pool_fifo_drained {threadNum queueSize : Int} {s : PoolState Task}
    (h : (threadpool Task threadNum queueSize).Reachable s) :
    (0 ≤ s.pool.head ∧ s.pool.head < s.pool.queueSize) ∧
    (0 ≤ s.pool.tail ∧ s.pool.tail < s.pool.queueSize) ∧
    (0 ≤ s.pool.pendingTaskCount ∧ s.pool.pendingTaskCount ≤ s.pool.queueSize) ∧
    s.pool.tail = (s.pool.head + s.pool.pendingTaskCount) % s.pool.queueSize ∧
    s.dequeued ++ s.pool.pending = s.accepted.map some ∧
    (s.destroyer = .joined →
      (s.finished.map Prod.fst).Perm (List.range s.accepted.length) ∧
        ∀ p ∈ s.finished, p.2 = s.accepted[p.1]?) := by
  have hinv := poolInv_reachable h
  exact ⟨hinv.ring.head, hinv.ring.tail, hinv.ring.count, hinv.ring.wrap, hinv.fifo,
    fun hj => (hinv.drained_all hj).2⟩

/-- One worker, one slot, two tasks: the second is accepted when the first has been taken. -/
def twoTasks : List (PoolLabel Nat) :=
  [.turn 0, .add 7 (some 0), .turn 0, .add 8 none, .destroy, .finish 0, .turn 0, .finish 0, .turn 0,
    .join, .join]

theorem twoTasks_drained : ∃ s, (threadpool Nat 1 1).Reachable s ∧ s.destroyer = .joined ∧
    s.accepted = [7, 8] ∧ (s.finished.map Prod.fst).Perm (List.range s.accepted.length) := by
  have hreach : (threadpool Nat 1 1).Reachable _ :=
    Lts.reach_of_replay twoTasks (.init ⟨_, rfl, rfl⟩) rfl
  exact ⟨_, hreach, rfl, rfl, ((pool_fifo_drained hreach).2.2.2.2.2 rfl).1⟩

end HPServer
