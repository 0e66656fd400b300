import HighPerformanceServer.ThreadpoolLock
/-!
# The C thread pool outlives its workers

While `threadpool_create` starts workers (`Building`) no other thread knows the pool, and nobody
shuts it down. Behind it (`Built`) `active_thread_num` counts the workers that have not left their
loop, and a `threadpool_destroy` that has joined without error has seen every worker exit.
-/

namespace HPServer

open Function Monitor

variable {Task : Type}

/-! ## Workers that have left -/

/-- Out of the loop, and counted down. -/
def ThreadPc.left : ThreadPc Task → Bool
  | .leaving | .exited => true
  | _ => false

def leftCount (worker : Nat → ThreadPc Task) (n : Nat) : Nat :=
  (List.range n).countP fun w => (worker w).left

section LeftCount

variable {worker worker' : Nat → ThreadPc Task} {n w : Nat} {x : ThreadPc Task}

theorem leftCount_congr (h : ∀ w < n, (worker' w).left = (worker w).left) :
    leftCount worker' n = leftCount worker n := by
  apply List.countP_congr
  intro w hw
  rw [h w (List.mem_range.1 hw)]

theorem leftCount_none (h : ∀ w, (worker w).left = false) : leftCount worker n = 0 := by
  simp [leftCount, h]

theorem leftCount_all (h : ∀ w < n, (worker w).left = true) : leftCount worker n = n := by
  have hall : leftCount worker n = (List.range n).length := by
    apply List.countP_eq_length.2
    intro w hw
    exact h w (List.mem_range.1 hw)
  rw [hall, List.length_range]

theorem leftCount_succ (worker : Nat → ThreadPc Task) (n : Nat) :
    leftCount worker (n + 1) = leftCount worker n + if (worker n).left then 1 else 0 := by
  unfold leftCount
  rw [List.range_succ, List.countP_append, List.countP_singleton]

theorem leftCount_leave (hw : w < n) (hstay : (worker w).left = false) (hx : x.left = true) :
    leftCount (update worker w x) n = leftCount worker n + 1 := by
  induction n with
  | zero => omega
  | succ n ih =>
    rw [leftCount_succ, leftCount_succ]
    by_cases hwn : w = n
    · subst hwn
      have hbelow : leftCount (update worker w x) w = leftCount worker w :=
        leftCount_congr fun v hv => by rw [update_of_ne (by omega)]
      rw [hbelow, update_self, hstay, hx]
      rfl
    · rw [ih (by omega), update_of_ne (Ne.symm hwn)]
      omega

end LeftCount

/-! ## What the functions under the lock leave alone -/

/-- The fields the lifetime of the pool hangs on. -/
def Threadpool.SameThreads (pool pool' : Threadpool Task) : Prop :=
  pool'.threadCountInPool = pool.threadCountInPool ∧ pool'.activeThreadNum = pool.activeThreadNum

theorem enqueue_frame (task : Task) (signal : Bool) (pool : Threadpool Task) :
    pool.SameThreads (enqueue task signal pool).2 ∧
    (enqueue task signal pool).2.shutdown = pool.shutdown := by
  unfold enqueue
  dsimp only
  split
  · exact ⟨⟨rfl, rfl⟩, rfl⟩
  · split
    · exact ⟨⟨rfl, rfl⟩, rfl⟩
    · exact ⟨⟨rfl, rfl⟩, rfl⟩

theorem threadpoolThread_turns (pool : Threadpool Task) :
    (pool.shutdown = .running ∧ threadpoolThread pool = (.wait, pool)) ∨
    (pool.shutdown ≠ .running ∧
      threadpoolThread pool = (.exit, { pool with activeThreadNum := pool.activeThreadNum - 1 })) ∨
    ∃ task pool', pool.shutdown ≠ .immediate ∧ threadpoolThread pool = (.run task, pool') ∧
      pool.SameThreads pool' ∧ pool'.shutdown = pool.shutdown := by
  unfold threadpoolThread
  split
  · rename_i hwait
    exact Or.inl ⟨hwait.2, rfl⟩
  · split
    · rename_i hexit
      refine Or.inr (Or.inl ⟨?_, rfl⟩)
      rcases hexit with h | ⟨h, -⟩ <;> rw [h] <;> exact fun e => by cases e
    · rename_i hrun
      exact Or.inr (Or.inr ⟨_, _, fun h => hrun (Or.inl h), rfl, ⟨rfl, rfl⟩, rfl⟩)

namespace CPool

variable {s s' : CPool Task} {c w n : Nat} {x : CallerPc Task} {z : ThreadPc Task}

theorem step_caller (hs : s.step n (.caller c) = some s') : s.callerStep c = some s' :=
  (Option.ite_none_left_eq_some.1 hs).2

theorem step_add {signalled : Option Nat} (hs : s.step n (.add c signalled) = some s') :
    s.addStep n c signalled = some s' :=
  (Option.ite_none_left_eq_some.1 hs).2

theorem step_pthreadJoin {joined : Bool} (hs : s.step n (.pthreadJoin c joined) = some s') :
    s.pthreadJoin c joined = some s' :=
  (Option.ite_none_left_eq_some.1 hs).2

theorem addStep_cases {signalled : Option Nat} (hs : s.addStep n c signalled = some s') :
    ∃ task pool worker err, s.caller c = .adding task ∧ s.pool.SameThreads pool ∧
      pool.shutdown = s.pool.shutdown ∧ Woken ThreadPc.wake s.worker worker ∧
      s' = { s.withPool pool with worker := worker }.setCaller c (.addUnlocking err) := by
  unfold addStep at hs
  split at hs
  · rename_i task hc
    obtain ⟨hsame, hshutdown⟩ := enqueue_frame task true s.pool
    split at hs <;> rename_i heq <;> rw [heq] at hsame hshutdown
    · obtain ⟨worker, hsignal, hs⟩ := Option.bind_eq_some_iff.1 hs
      exact ⟨task, _, worker, 0, hc, hsame, hshutdown, signal_woken hsignal, (Option.some.inj hs).symm⟩
    · split at hs
      · exact ⟨task, _, s.worker, _, hc, hsame, hshutdown, fun _ => Or.inl rfl,
          (Option.some.inj hs).symm⟩
      · cases hs
  · cases hs

/-- What a step of worker `w` can do: leave the loop, or leave both counts alone. -/
theorem threadStep_cases (hs : s.threadStep w = some s') :
    ∃ pool lock z dequeued,
      s' = { s with
        pool := pool
        lock := lock
        worker := update s.worker w z
        dequeued := dequeued } ∧
      s.worker w ≠ .unborn ∧ s.worker w ≠ .exited ∧ z ≠ .unborn ∧ pool.shutdown = s.pool.shutdown ∧
      ((s.pool.SameThreads pool ∧ z.left = (s.worker w).left) ∨
        (s.pool.shutdown ≠ .running ∧ (s.worker w).left = false ∧ z.left = true ∧
          pool = { s.pool with activeThreadNum := s.pool.activeThreadNum - 1 })) ∧
      LockMove s.lock lock (.worker w) (s.worker w).inside z.inside ∧
      (s.pool.shutdown = .immediate → dequeued = s.dequeued) := by
  unfold threadStep at hs
  split at hs <;> rename_i hw <;> rw [hw]
  case h_1 | h_2 =>
    split at hs <;> cases hs
    rename_i hfree
    exact ⟨s.pool, _, _, _, rfl, nofun, nofun, nofun, rfl, Or.inl ⟨⟨rfl, rfl⟩, rfl⟩,
      Or.inl ⟨hfree, rfl, trivial⟩, fun _ => rfl⟩
  case h_3 =>
    obtain ⟨-, ht⟩ | ⟨hdown, ht⟩ | ⟨task, pool, hrun, ht, hsame, hshutdown⟩ :=
      threadpoolThread_turns s.pool <;> rw [ht] at hs <;> cases hs
    · exact ⟨_, _, _, _, rfl, nofun, nofun, nofun, rfl, Or.inl ⟨⟨rfl, rfl⟩, rfl⟩,
        Or.inr (Or.inl ⟨trivial, id, rfl⟩), fun _ => rfl⟩
    · exact ⟨_, s.lock, _, _, rfl, nofun, nofun, nofun, rfl, Or.inr ⟨hdown, rfl, rfl, rfl⟩,
        Or.inr (Or.inr ⟨rfl, Iff.rfl⟩), fun _ => rfl⟩
    · exact ⟨_, s.lock, _, _, rfl, nofun, nofun, nofun, hshutdown, Or.inl ⟨hsame, rfl⟩,
        Or.inr (Or.inr ⟨rfl, Iff.rfl⟩), fun h => absurd h hrun⟩
  case h_4 | h_6 =>
    cases hs
    exact ⟨s.pool, _, _, _, rfl, nofun, nofun, nofun, rfl, Or.inl ⟨⟨rfl, rfl⟩, rfl⟩,
      Or.inr (Or.inl ⟨trivial, id, rfl⟩), fun _ => rfl⟩
  case h_5 =>
    cases hs
    exact ⟨s.pool, s.lock, _, _, rfl, nofun, nofun, nofun, rfl, Or.inl ⟨⟨rfl, rfl⟩, rfl⟩,
      Or.inr (Or.inr ⟨rfl, Iff.rfl⟩), fun _ => rfl⟩
  all_goals cases hs

end CPool

/-! ## The invariant -/

section Wake

variable {worker worker' : Nat → ThreadPc Task} {w : Nat} {z z' : ThreadPc Task}

theorem ThreadPc.wake_eq (h : z.wake = some z') : z = .asleep ∧ z' = .woken := by
  cases z <;> cases h
  exact ⟨rfl, rfl⟩

theorem woken_left (h : Woken ThreadPc.wake worker worker') (w : Nat) :
    (worker' w).left = (worker w).left := by
  rcases h w with e | e
  · rw [e]
  · obtain ⟨hw, hw'⟩ := ThreadPc.wake_eq e
    rw [hw, hw']
    rfl

theorem woken_unborn (h : Woken ThreadPc.wake worker worker') (w : Nat) :
    worker' w = .unborn ↔ worker w = .unborn := by
  rcases h w with e | e
  · rw [e]
  · obtain ⟨hw, hw'⟩ := ThreadPc.wake_eq e
    rw [hw, hw']
    exact ⟨nofun, nofun⟩

theorem woken_exited (h : Woken ThreadPc.wake worker worker') (hw : worker w = .exited) :
    worker' w = .exited := by
  rcases h w with e | e
  · rw [e, hw]
  · rw [hw] at e
    cases e

end Wake

/-- With no error so far, the workers joined are those that have exited. -/
def CallerPc.Sound (n : Nat) (worker : Nat → ThreadPc Task) : CallerPc Task → Prop
  | .joining i err => err = 0 → ∀ w < i, worker w = .exited
  | .freeing => ∀ w < n, worker w = .exited
  | _ => True

theorem CallerPc.Sound.mono {n : Nat} {worker worker' : Nat → ThreadPc Task} {x : CallerPc Task}
    (h : x.Sound n worker) (hexited : ∀ w, worker w = .exited → worker' w = .exited) :
    x.Sound n worker' := by
  cases x with
  | joining i err => exact fun he w hw => hexited w (h he w hw)
  | freeing => exact fun w hw => hexited w (h w hw)
  | _ => trivial

namespace CPool

structure Building (born counted active : Nat) (s : CPool Task) : Prop where
  count : s.pool.threadCountInPool = counted
  active : s.pool.activeThreadNum = active
  born : ∀ w, s.worker w = .unborn ↔ born ≤ w
  stay : ∀ w, (s.worker w).left = false
  running : s.pool.shutdown = .running
  callers : ∀ c, s.caller c = .returned none
  live : s.freed = false

structure Built (n : Nat) (s : CPool Task) : Prop where
  count : s.pool.threadCountInPool = n
  active : s.pool.activeThreadNum + leftCount s.worker n = n
  born : ∀ w, s.worker w = .unborn ↔ n ≤ w
  callers : ∀ c, (s.caller c).Sound n s.worker
  freed : s.freed = true → ∀ w < n, s.worker w = .exited

def LifeOk (s : CPool Task) : Prop :=
  match s.creator with
  | .creating i => Building i i i s
  | .counting i => Building (i + 1) i i s
  | .reading i => Building (i + 1) (i + 1) i s
  | .writing i read => read = i ∧ Building (i + 1) (i + 1) i s
  | .created | .failed => ∃ n, Built n s

variable {s s' : CPool Task} {c w n : Nat} {x : CallerPc Task} {z : ThreadPc Task}
  {born counted active : Nat}

/-- A step that is not the creator's. -/
theorem LifeOk.lift (h : LifeOk s) (hcreator : s'.creator = s.creator)
    (hbuilding : ∀ born counted active, Building born counted active s →
      Building born counted active s')
    (hbuilt : ∀ n, Built n s → Built n s') : LifeOk s' := by
  unfold LifeOk at h ⊢
  rw [hcreator]
  cases hc : s.creator <;> rw [hc] at h <;> dsimp only at h ⊢
  case creating i => exact hbuilding _ _ _ h
  case counting i => exact hbuilding _ _ _ h
  case reading i => exact hbuilding _ _ _ h
  case writing i read => exact ⟨h.1, hbuilding _ _ _ h.2⟩
  all_goals
    obtain ⟨n, hn⟩ := h
    exact ⟨n, hbuilt n hn⟩

/-! ### The workers -/

theorem Building.threadStep (h : Building born counted active s) (hs : s.threadStep w = some s') :
    Building born counted active s' := by
  obtain ⟨pool, lock, z, dequeued, rfl, hborn, -, hz, hshutdown, hleft, -, -⟩ := threadStep_cases hs
  obtain ⟨⟨hcount, hactive⟩, hstay⟩ | ⟨hdown, -⟩ := hleft
  · refine ⟨hcount.trans h.count, hactive.trans h.active, ?_, ?_, hshutdown.trans h.running, h.callers,
      h.live⟩
    · intro v
      by_cases hv : v = w
      · subst hv
        dsimp only
        rw [update_self, ← h.born]
        exact ⟨fun e => absurd e hz, fun e => absurd e hborn⟩
      · dsimp only
        rw [update_of_ne hv]
        exact h.born v
    · exact (forall_update_iff _ fun _ (z : ThreadPc Task) => z.left = false).2
        ⟨hstay.trans (h.stay w), fun v _ => h.stay v⟩
  · exact absurd h.running hdown

theorem Built.threadStep (h : Built n s) (hs : s.threadStep w = some s') : Built n s' := by
  obtain ⟨pool, lock, z, dequeued, rfl, hborn, hlive, hz, hshutdown, hleft, -, -⟩ := threadStep_cases hs
  have hw : w < n := by
    by_contra hge
    exact hborn ((h.born w).2 (by omega))
  have hexited : ∀ v, s.worker v = .exited → update s.worker w z v = .exited := by
    intro v hv
    have hne : v ≠ w := by
      rintro rfl
      exact hlive hv
    rw [update_of_ne hne]
    exact hv
  refine ⟨?_, ?_, ?_, fun c => (h.callers c).mono hexited, fun hf v hv => hexited v (h.freed hf v hv)⟩
  · obtain ⟨⟨hcount, -⟩, -⟩ | ⟨-, -, -, rfl⟩ := hleft
    · exact hcount.trans h.count
    · exact h.count
  · have hactive := h.active
    obtain ⟨⟨-, hsame⟩, hstay⟩ | ⟨-, hstay, hgone, rfl⟩ := hleft
    · have hcount : leftCount (update s.worker w z) n = leftCount s.worker n := by
        apply leftCount_congr
        intro v _
        by_cases hv : v = w
        · subst hv
          rw [update_self, hstay]
        · rw [update_of_ne hv]
      dsimp only
      rw [hcount, hsame]
      exact hactive
    · dsimp only
      rw [leftCount_leave hw hstay hgone]
      omega
  · intro v
    by_cases hv : v = w
    · subst hv
      dsimp only
      rw [update_self]
      exact ⟨fun e => absurd e hz, fun hge => by omega⟩
    · dsimp only
      rw [update_of_ne hv]
      exact h.born v

/-- Workers wake, and the rest is the caller's. -/
theorem Built.moveCaller (h : Built n s) (hpool : s.pool.SameThreads s'.pool)
    (hwoken : Woken ThreadPc.wake s.worker s'.worker) (hcaller : s'.caller = update s.caller c x)
    (hx : x.Sound n s.worker) (hfreed : s'.freed = true → ∀ w < n, s.worker w = .exited) :
    Built n s' where
  count := hpool.1.trans h.count
  active := by
    rw [hpool.2, leftCount_congr fun w _ => woken_left hwoken w]
    exact h.active
  born w := (woken_unborn hwoken w).trans (h.born w)
  callers := by
    rw [hcaller]
    exact (forall_update_iff _ fun _ (y : CallerPc Task) => y.Sound n s'.worker).2
      ⟨hx.mono fun w => woken_exited hwoken, fun c _ => (h.callers c).mono fun w => woken_exited hwoken⟩
  freed hf w hw := woken_exited hwoken (hfreed hf w hw)

/-! ### The callers -/

/-- A caller that neither frees the pool nor touches it. -/
theorem Built.setCaller (h : Built n s) (hx : x.Sound n s.worker) : Built n (s.setCaller c x) :=
  h.moveCaller ⟨rfl, rfl⟩ (fun _ => Or.inl rfl) rfl hx h.freed

theorem Built.acquire (h : Built n s) (hx : x.Sound n s.worker) (hs : s.acquire c x = some s') :
    Built n s' := by
  unfold CPool.acquire at hs
  split at hs <;> cases hs
  exact h.moveCaller ⟨rfl, rfl⟩ (fun _ => Or.inl rfl) rfl hx h.freed

theorem callerStep_destroying {flags : Nat} (hc : s.caller c = .destroying flags)
    (hs : s.callerStep c = some s') :
    (s.pool.shutdown = .running ∧ ∃ shutdown, shutdown ≠ .running ∧
      s' = (s.withPool { s.pool with shutdown := shutdown }).setCaller c .broadcasting) ∨
    (s.pool.shutdown ≠ .running ∧ s' = s.setCaller c (.returned (some THREADPOOL_SHUTDOWN))) := by
  simp only [callerStep, hc, threadpoolDestroy] at hs
  by_cases hrunning : s.pool.shutdown = .running
  · rw [if_neg (not_not.2 hrunning)] at hs
    refine Or.inl ⟨hrunning, _, ?_, (Option.some.inj hs).symm⟩
    split <;> exact fun e => by cases e
  · rw [if_pos hrunning] at hs
    exact Or.inr ⟨hrunning, (Option.some.inj hs).symm⟩

theorem Built.callerStep (h : Built n s) (hs : s.callerStep c = some s') : Built n s' := by
  cases hc : s.caller c
  case destroying flags =>
    obtain ⟨-, shutdown, -, rfl⟩ | ⟨-, rfl⟩ := callerStep_destroying hc hs
    · exact h.moveCaller ⟨rfl, rfl⟩ (fun _ => Or.inl rfl) rfl trivial h.freed
    · exact h.setCaller trivial
  all_goals simp only [CPool.callerStep, hc] at hs
  case addLocking task => exact h.acquire (x := .adding task) trivial hs
  case addUnlocking err =>
    cases hs
    exact h.moveCaller ⟨rfl, rfl⟩ (fun _ => Or.inl rfl) rfl trivial h.freed
  case destroyLocking flags => exact h.acquire (x := .destroying flags) trivial hs
  case broadcasting =>
    cases hs
    exact h.moveCaller ⟨rfl, rfl⟩ (broadcast_woken _ _) rfl trivial h.freed
  case destroyUnlocking =>
    cases hs
    exact h.moveCaller ⟨rfl, rfl⟩ (fun _ => Or.inl rfl) rfl (fun _ w hw => by omega) h.freed
  case joining i err =>
    have hjoined := h.callers c
    rw [hc] at hjoined
    have hcount := h.count
    split at hs
    · cases hs
    · split at hs <;> cases hs
      · rename_i hall herr
        exact h.setCaller fun w hw => hjoined herr w (by omega)
      · exact h.setCaller trivial
  case freeing =>
    have hexited := h.callers c
    rw [hc] at hexited
    split at hs <;> cases hs
    · exact h.setCaller trivial
    · exact h.moveCaller ⟨rfl, rfl⟩ (fun _ => Or.inl rfl) rfl trivial fun _ => hexited
  case freed =>
    split at hs <;> cases hs
    exact h.setCaller trivial
  all_goals cases hs

theorem Built.addStep {k : Nat} {signalled : Option Nat} (h : Built n s)
    (hs : s.addStep k c signalled = some s') : Built n s' := by
  obtain ⟨task, pool, worker, err, -, hsame, -, hwoken, rfl⟩ := addStep_cases hs
  exact h.moveCaller hsame hwoken rfl trivial h.freed

theorem Built.pthreadJoin {joined : Bool} (h : Built n s) (hs : s.pthreadJoin c joined = some s') :
    Built n s' := by
  unfold CPool.pthreadJoin at hs
  split at hs
  · rename_i i err hc
    have hjoined := h.callers c
    rw [hc] at hjoined
    split at hs
    · split at hs
      · split at hs <;> cases hs
        rename_i hexited
        apply h.setCaller
        intro herr w hw
        by_cases hwi : w = i
        · subst hwi
          cases hpc : s.worker w <;> rw [hpc] at hexited <;> first | rfl | cases hexited
        · exact hjoined herr w (by omega)
      · cases hs
        apply h.setCaller
        intro herr
        cases herr
    · cases hs
  · cases hs

/-! ### The creator -/

/-- While workers are being started, no other thread has a step of its own. -/
theorem Building.noCaller (h : Building born counted active s) :
    s.callerStep c = none ∧ (∀ k signalled, s.addStep k c signalled = none) ∧
    ∀ joined, s.pthreadJoin c joined = none := by
  have hc := h.callers c
  refine ⟨?_, fun k signalled => ?_, fun joined => ?_⟩
  · simp only [callerStep, hc]
  · simp only [CPool.addStep, hc]
  · simp only [CPool.pthreadJoin, hc]

/-- Behind the loop every worker started has been counted twice. -/
theorem Building.built (h : Building n n n s) : Built n s where
  count := h.count
  active := by
    rw [leftCount_none h.stay, h.active]
    omega
  born := h.born
  callers c := by
    rw [h.callers c]
    trivial
  freed hf := by
    rw [h.live] at hf
    cases hf

theorem Built.goCreator (h : Built n s) (pc : CreatorPc) : Built n (s.goCreator pc) :=
  ⟨h.count, h.active, h.born, h.callers, h.freed⟩

theorem LifeOk.pthreadCreate {k : Nat} {started : Bool} (h : LifeOk s)
    (hs : s.pthreadCreate k started = some s') : LifeOk s' := by
  unfold CPool.pthreadCreate at hs
  split at hs
  · rename_i i hcreator
    have hb : Building i i i s := by
      unfold LifeOk at h
      rw [hcreator] at h
      exact h
    split at hs
    · split at hs <;> cases hs
      · show Building (i + 1) i i _
        refine ⟨hb.count, hb.active, ?_, ?_, hb.running, hb.callers, hb.live⟩
        · intro w
          show update s.worker i .locking w = .unborn ↔ i + 1 ≤ w
          by_cases hw : w = i
          · subst hw
            rw [update_self]
            exact ⟨nofun, fun h => by omega⟩
          · rw [update_of_ne hw, hb.born]
            omega
        · exact (forall_update_iff _ fun _ (z : ThreadPc Task) => z.left = false).2
            ⟨rfl, fun w _ => hb.stay w⟩
      · exact ⟨i, (hb.built.setCaller (x := .destroyLocking 0) trivial).goCreator .failed⟩
    · cases hs
  · cases hs

theorem LifeOk.creatorStep {k : Nat} (h : LifeOk s) (hs : s.creatorStep k = some s') : LifeOk s' := by
  unfold CPool.creatorStep at hs
  unfold LifeOk at h
  split at hs <;> rename_i hcreator <;> rw [hcreator] at h <;> dsimp only at h
  · split at hs <;> cases hs
    exact ⟨_, h.built.goCreator .created⟩
  · cases hs
    refine ⟨?_, h.active, h.born, h.stay, h.running, h.callers, h.live⟩
    show s.pool.threadCountInPool + 1 = _
    rw [h.count]
    omega
  · cases hs
    exact ⟨h.active, h.count, h.active, h.born, h.stay, h.running, h.callers, h.live⟩
  · cases hs
    obtain ⟨rfl, h⟩ := h
    refine ⟨h.count, ?_, h.born, h.stay, h.running, h.callers, h.live⟩
    show (_ : Int) + 1 = _
    omega
  all_goals cases hs

/-! ### The runs -/

theorem LifeOk.start (pool : Threadpool Task) (h : pool.shutdown = .running) :
    LifeOk (CPool.start pool) :=
  show Building 0 0 0 _ from
    ⟨rfl, rfl, fun _ => ⟨fun _ => Nat.zero_le _, fun _ => rfl⟩, fun _ => rfl, h, fun _ => rfl, rfl⟩

/-- What only a caller does happens behind the loop of `threadpool_create`. -/
theorem LifeOk.byCaller (h : LifeOk s) (hcreator : s'.creator = s.creator)
    (hnone : ∀ born counted active, ¬Building born counted active s)
    (hbuilt : ∀ n, Built n s → Built n s') : LifeOk s' :=
  h.lift hcreator (fun _ _ _ hb => absurd hb (hnone _ _ _)) hbuilt

theorem LifeOk.call (h : LifeOk s) (hcreator : s.creator = .created) (hx : ∀ n, x.Sound n s.worker) :
    LifeOk (s.setCaller c x) := by
  unfold LifeOk at h ⊢
  rw [hcreator] at h
  obtain ⟨n, hn⟩ := h
  rw [show (s.setCaller c x).creator = .created from hcreator]
  exact ⟨n, hn.setCaller (hx n)⟩

/-- A caller does not move the creator, takes no task, and does not take a shutdown back. -/
theorem callerStep_frame (hs : s.callerStep c = some s') :
    s'.creator = s.creator ∧ s'.dequeued = s.dequeued ∧
    (s.pool.shutdown = .immediate → s'.pool.shutdown = .immediate) := by
  cases hc : s.caller c
  case destroying flags =>
    obtain ⟨hrunning, shutdown, -, rfl⟩ | ⟨-, rfl⟩ := callerStep_destroying hc hs
    · exact ⟨rfl, rfl, fun h => by rw [hrunning] at h; cases h⟩
    · exact ⟨rfl, rfl, id⟩
  all_goals simp only [callerStep, CPool.acquire, hc] at hs
  case addLocking | destroyLocking | freed =>
    split at hs <;> cases hs
    exact ⟨rfl, rfl, id⟩
  case addUnlocking | broadcasting | destroyUnlocking =>
    cases hs
    exact ⟨rfl, rfl, id⟩
  case joining =>
    split at hs
    · cases hs
    · split at hs <;> cases hs <;> exact ⟨rfl, rfl, id⟩
  case freeing => split at hs <;> cases hs <;> exact ⟨rfl, rfl, id⟩
  all_goals cases hs

theorem callAdd_cases {task : Option Task} (hs : s.callAdd c task = some s') :
    ∃ x, s.creator = .created ∧ (∃ ret, s.caller c = .returned ret) ∧ ¬x.inside ∧
      (∀ n worker, x.Sound n worker) ∧ s' = s.setCaller c x := by
  unfold callAdd at hs
  split at hs
  · rename_i hcreator _ hc
    split at hs <;> cases hs
    · exact ⟨.addLocking _, hcreator, ⟨_, hc⟩, id, fun _ _ => trivial, rfl⟩
    · exact ⟨.returned _, hcreator, ⟨_, hc⟩, id, fun _ _ => trivial, rfl⟩
  · cases hs

theorem callDestroy_cases {flags : Nat} (hs : s.callDestroy c flags = some s') :
    s.creator = .created ∧ (∃ ret, s.caller c = .returned ret) ∧
      s' = s.setCaller c (.destroyLocking flags) := by
  unfold callDestroy at hs
  split at hs
  · rename_i hcreator _ hc
    cases hs
    exact ⟨hcreator, ⟨_, hc⟩, rfl⟩
  · cases hs

theorem pthreadJoin_cases {joined : Bool} (hs : s.pthreadJoin c joined = some s') :
    ∃ i err x, s.caller c = .joining i err ∧ ¬x.inside ∧ s' = s.setCaller c x := by
  unfold CPool.pthreadJoin at hs
  split at hs
  · rename_i i err hc
    split at hs
    · split at hs
      · split at hs <;> cases hs
        exact ⟨i, err, _, hc, id, rfl⟩
      · cases hs
        exact ⟨i, err, _, hc, id, rfl⟩
    · cases hs
  · cases hs

theorem LifeOk.spurious (h : LifeOk s) (hs : s.spurious w = some s') : LifeOk s' := by
  obtain ⟨z, hz, rfl⟩ := Option.map_eq_some_iff.1 hs
  have hwoken : Woken ThreadPc.wake s.worker (update s.worker w z) := woken_update hz
  refine h.lift (show (s.setWorker w z).creator = s.creator from rfl) ?_ ?_
  · intro born counted active hb
    exact ⟨hb.count, hb.active, fun v => (woken_unborn hwoken v).trans (hb.born v),
      fun v => (woken_left hwoken v).trans (hb.stay v), hb.running, hb.callers, hb.live⟩
  · intro n hn
    refine hn.moveCaller ⟨rfl, rfl⟩ hwoken (c := 0) (x := s.caller 0) ?_ (hn.callers 0) hn.freed
    exact (update_eq_self 0 s.caller).symm

theorem LifeOk.step {k : Nat} {a : CPoolStep Task} (h : LifeOk s) (hs : s.step k a = some s') :
    LifeOk s' := by
  cases a with
  | pthreadCreate started => exact h.pthreadCreate hs
  | create => exact h.creatorStep hs
  | callAdd c task =>
    obtain ⟨x, hcreator, -, -, hx, rfl⟩ := callAdd_cases hs
    exact h.call hcreator fun n => hx n _
  | callDestroy c flags =>
    obtain ⟨hcreator, -, rfl⟩ := callDestroy_cases hs
    exact h.call hcreator fun _ => trivial
  | caller c =>
    have hs := step_caller hs
    refine h.byCaller (callerStep_frame hs).1 (fun _ _ _ hb => ?_) fun n hn => hn.callerStep hs
    rw [hb.noCaller.1] at hs
    cases hs
  | add c signalled =>
    have hs := step_add hs
    have hcreator : s'.creator = s.creator := by
      obtain ⟨_, _, _, _, -, -, -, -, rfl⟩ := addStep_cases hs
      rfl
    refine h.byCaller hcreator (fun _ _ _ hb => ?_) fun n hn => hn.addStep hs
    rw [hb.noCaller.2.1] at hs
    cases hs
  | pthreadJoin c joined =>
    have hs := step_pthreadJoin hs
    have hcreator : s'.creator = s.creator := by
      obtain ⟨_, _, _, -, -, rfl⟩ := pthreadJoin_cases hs
      rfl
    refine h.byCaller hcreator (fun _ _ _ hb => ?_) fun n hn => hn.pthreadJoin hs
    rw [hb.noCaller.2.2] at hs
    cases hs
  | thread w =>
    have hcreator : s'.creator = s.creator := by
      obtain ⟨_, _, _, _, rfl, -⟩ := threadStep_cases hs
      rfl
    exact h.lift hcreator (fun _ _ _ hb => hb.threadStep hs) fun n hn => hn.threadStep hs
  | spurious w => exact h.spurious hs

theorem LifeOk.reach {threadNum queueSize : Int} (h : (cPool Task threadNum queueSize).Reachable s) :
    LifeOk s := by
  apply h.invariant
  · rintro s ⟨pool, hpool, rfl⟩
    exact .start pool (ringInv_create hpool).2.2.1
  · exact fun s a s' h _ hs => h.step hs

/-- Every worker that was started has taken its last step, and the pool has counted them all out. -/
def Deserted (s : CPool Task) : Prop :=
  (∀ w, s.worker w ≠ .unborn → s.worker w = .exited) ∧ s.pool.activeThreadNum = 0 ∧
  ∀ w, s.threadStep w = none ∧ s.spurious w = none

theorem LifeOk.deserted (h : LifeOk s) (hfreed : s.freed = true) : s.Deserted := by
  have hbuilding : ∀ {born counted active}, ¬Building born counted active s := fun hb => by
    have hlive := hb.live
    rw [hfreed] at hlive
    cases hlive
  obtain ⟨n, hn⟩ : ∃ n, Built n s := by
    unfold LifeOk at h
    split at h
    · exact absurd h hbuilding
    · exact absurd h hbuilding
    · exact absurd h hbuilding
    · exact absurd h.2 hbuilding
    · exact h
    · exact h
  have hexited := hn.freed hfreed
  have hgone : ∀ w, s.worker w = .unborn ∨ s.worker w = .exited := by
    intro w
    by_cases hw : w < n
    · exact Or.inr (hexited w hw)
    · exact Or.inl ((hn.born w).2 (by omega))
  refine ⟨fun w hw => (hgone w).resolve_left hw, ?_, fun w => ?_⟩
  · have hactive := hn.active
    rw [leftCount_all fun w hw => by rw [hexited w hw]; rfl] at hactive
    omega
  · rcases hgone w with e | e <;> simp [CPool.threadStep, CPool.spurious, e, ThreadPc.wake]

/-! ## An immediate shutdown -/

theorem immediate_step {k : Nat} {a : CPoolStep Task} (h : s.pool.shutdown = .immediate)
    (hs : s.step k a = some s') : s'.pool.shutdown = .immediate ∧ s'.dequeued = s.dequeued := by
  cases a with
  | pthreadCreate started =>
    simp only [CPool.step, CPool.pthreadCreate] at hs
    split at hs
    · split at hs
      · split at hs <;> cases hs <;> exact ⟨h, rfl⟩
      · cases hs
    · cases hs
  | create =>
    simp only [CPool.step, CPool.creatorStep] at hs
    split at hs
    · split at hs <;> cases hs
      exact ⟨h, rfl⟩
    all_goals first | (cases hs; exact ⟨h, rfl⟩) | cases hs
  | callAdd c task =>
    obtain ⟨_, -, -, -, -, rfl⟩ := callAdd_cases hs
    exact ⟨h, rfl⟩
  | callDestroy c flags =>
    obtain ⟨-, -, rfl⟩ := callDestroy_cases hs
    exact ⟨h, rfl⟩
  | caller c =>
    obtain ⟨-, hdequeued, hshutdown⟩ := callerStep_frame (step_caller hs)
    exact ⟨hshutdown h, hdequeued⟩
  | add c signalled =>
    obtain ⟨_, _, _, _, -, -, hshutdown, -, rfl⟩ := addStep_cases (step_add hs)
    exact ⟨hshutdown.trans h, rfl⟩
  | pthreadJoin c joined =>
    obtain ⟨_, _, _, -, -, rfl⟩ := pthreadJoin_cases (step_pthreadJoin hs)
    exact ⟨h, rfl⟩
  | thread w =>
    obtain ⟨_, _, _, _, rfl, -, -, -, hshutdown, -, -, hdequeued⟩ := threadStep_cases hs
    exact ⟨hshutdown.trans h, hdequeued h⟩
  | spurious w =>
    obtain ⟨_, -, rfl⟩ := Option.map_eq_some_iff.1 hs
    exact ⟨h, rfl⟩

theorem immediate_run {threadNum queueSize : Int} (as : List (CPoolStep Task))
    (h : s.pool.shutdown = .immediate) (hs : (cPool Task threadNum queueSize).replay s as = some s') :
    s'.dequeued = s.dequeued := by
  induction as generalizing s with
  | nil =>
    cases hs
    rfl
  | cons a as ih =>
    obtain ⟨s₁, hstep, hs⟩ := Option.bind_eq_some_iff.1 hs
    obtain ⟨hshutdown, hdequeued⟩ := immediate_step h hstep
    exact (ih hshutdown hs).trans hdequeued

/-- **The pool outlives its workers, and an immediate shutdown starts nothing new**: whoever calls
`threadpool_destroy`, with whatever flags, and whichever `pthread_create` and `pthread_join` fail. -/
theorem pool_outlivesWorkers {threadNum queueSize : Int} {s : CPool Task}
    (h : (cPool Task threadNum queueSize).Reachable s) :
    (s.freed = true → s.Deserted) ∧
    (s.pool.shutdown = .immediate → ∀ as s',
      (cPool Task threadNum queueSize).replay s as = some s' → s'.dequeued = s.dequeued) :=
  ⟨(LifeOk.reach h).deserted, fun hi as _ hs => immediate_run as hi hs⟩

/-- The second `pthread_create` fails: the creator joins the one worker there is, and frees the pool. -/
def halfBuilt : List (CPoolStep Nat) :=
  [.pthreadCreate true, .create, .create, .create, .pthreadCreate false,
   .thread 0, .thread 0, .caller 0, .caller 0, .caller 0, .caller 0,
   .thread 0, .thread 0, .thread 0, .pthreadJoin 0 true, .caller 0, .caller 0]

theorem halfBuilt_deserted : ∃ s, (cPool Nat 2 1).Reachable s ∧ s.freed = true ∧ s.Deserted := by
  have hstart : (cPool Nat 2 1).Reachable
      (.start ⟨fun _ => none, 2, 1, 0, 0, 0, .running, 2⟩) := .init ⟨_, rfl, rfl⟩
  have hreach : (cPool Nat 2 1).Reachable _ := Lts.reach_of_replay halfBuilt hstart rfl
  exact ⟨_, hreach, rfl, (pool_outlivesWorkers hreach).1 rfl⟩

end CPool

end HPServer
