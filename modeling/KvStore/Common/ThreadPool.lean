/-
KvStore.Common.ThreadPool — `ThreadPool` of `common/thread_pool.h`, the
fixed set of workers to which `TCPServer::AcceptLoop` hands every accepted
connection, as a state machine over every interleaving of its threads.

The state is what `mutex_` guards (`tasks_`, `stop_`), where each thread of
`workers_` is in `WorkerLoop`, and the notifications still owed: a `Submit`
that has queued its task but not yet called `cond_.notify_one()`, and a
destructor that has set `stop_` but not yet called `cond_.notify_all()`.
One `Step` is one critical section or one notification. `cond_.wait(lock,
pred)` is the loop `while (!pred()) wait(lock)`: a worker that finds the
predicate false goes to sleep, and one that wakes, notified or spuriously,
takes `mutex_` and tests it again.

## Results

* `started_append_tasks`: on every run from `ThreadPool(n)`, the tasks the
  workers have started, followed by the queue, are the tasks `Submit`
  accepted, in order. No task is lost, none runs twice, and tasks start in
  the order they were submitted.
* `Inv`, kept by every step (`Inv.step`): a worker asleep in `cond_.wait`
  while there is work has another worker awake or a notification on its
  way (no lost wakeup), and a worker returns from `WorkerLoop` only with
  `stop_` set and the queue empty.
* `quiet_or_done_or_step`: every reachable state is quiet (queue empty,
  every worker asleep), done (every worker returned), or some thread can
  move without a new call and without a spurious wakeup.
* `length_internal_run`: such moves cannot go on forever: every run of them
  from `p` is at most `p.bound` steps long.
* `maximal_internal_run_settles`, from the two above: once no new call
  arrives the pool settles, quiet or done, and a run that begins after
  `~ThreadPool` has set `stop_` ends with every worker returned, so the
  joins return.
* `joined_started_all`: when every worker of a pool with at least one thread
  has returned, every task `Submit` accepted has been started: the
  destructor runs the queued tasks, it does not discard them.

Tasks are opaque (`τ`); a running task returns at some later step
(`finish`). Left out: `PendingTasks()`, which only reads the queue length.
-/
import Mathlib.Data.List.Basic
import Mathlib.Algebra.Order.Ring.Nat

namespace KvStore.Common

/-- Where a thread of `workers_` is in `WorkerLoop`. -/
inductive Worker (τ : Type) where
  /-- About to take `mutex_` and test the wait predicate: the thread has
  just started, has been woken, or its task has returned. -/
  | ready
  /-- Blocked in `cond_.wait`, `mutex_` released. -/
  | sleeping
  /-- Running `task()` outside the lock. -/
  | running (task : τ)
  /-- Returned from `WorkerLoop`, so its `join()` returns. -/
  | exited
  deriving DecidableEq, Repr

/-- The pool: its threads, the fields `mutex_` guards, and the notifications
owed by `Submit` calls (`notifying`) and by the destructor (`notifyingAll`)
that have left their critical section. -/
structure ThreadPool (τ : Type) where
  workers : List (Worker τ)
  tasks : List τ
  stop : Bool
  notifying : Nat
  notifyingAll : Bool
  deriving DecidableEq, Repr

variable {τ : Type}

namespace ThreadPool

/-- `ThreadPool(num_threads)`: every thread enters `WorkerLoop`. -/
def new (numThreads : Nat) : ThreadPool τ :=
  ⟨List.replicate numThreads .ready, [], false, 0, false⟩

/-- The critical section of `Submit`: throw on a stopped pool, otherwise
queue the task (the `notify_one` that follows is owed). -/
def submit (p : ThreadPool τ) (task : τ) : Except String (ThreadPool τ) :=
  if p.stop then .error "Submit on stopped ThreadPool"
  else .ok { p with tasks := p.tasks ++ [task], notifying := p.notifying + 1 }

theorem submit_eq_ok {p q : ThreadPool τ} {task : τ} :
    p.submit task = .ok q ↔
      p.stop = false ∧ q = { p with tasks := p.tasks ++ [task], notifying := p.notifying + 1 } := by
  unfold submit
  cases p.stop <;> simp [eq_comm]

theorem submit_eq_error {p : ThreadPool τ} {task : τ} {msg : String} :
    p.submit task = .error msg ↔ p.stop = true ∧ msg = "Submit on stopped ThreadPool" := by
  unfold submit
  cases p.stop <;> simp [eq_comm]

end ThreadPool

/-- The critical section of `WorkerLoop`, for a thread holding `mutex_`:
with the wait predicate `stop_ || !tasks_.empty()` false it sleeps in
`cond_.wait`; otherwise it returns if `stop_ && tasks_.empty()` (with the
predicate true, an empty queue means `stop_`), or pops the front task to
run it. The new state of the thread, and the queue. -/
def workerLoop (stop : Bool) (tasks : List τ) : Worker τ × List τ :=
  if !(stop || !tasks.isEmpty) then (.sleeping, tasks)
  else match tasks with
    | [] => (.exited, [])
    | task :: rest => (.running task, rest)

/-- What `workerLoop` can do. -/
theorem workerLoop_cases (stop : Bool) (tasks : List τ) :
    (stop = false ∧ tasks = [] ∧ workerLoop stop tasks = (.sleeping, [])) ∨
    (stop = true ∧ tasks = [] ∧ workerLoop stop tasks = (.exited, [])) ∨
    ∃ task rest, tasks = task :: rest ∧ workerLoop stop tasks = (.running task, rest) := by
  unfold workerLoop
  cases stop <;> cases tasks <;> simp

/-- A thread that `cond_.notify_all()` reaches: a sleeping one wakes. -/
def Worker.wake : Worker τ → Worker τ
  | .sleeping => .ready
  | w => w

/-- A thread that will test the wait predicate again without a notify. -/
def Worker.awake : Worker τ → Bool
  | .ready | .running _ => true
  | _ => false

/-- The task a thread is running. -/
def Worker.task? : Worker τ → Option τ
  | .running task => some task
  | _ => none

/-- One step of the pool, as it shows from outside. -/
inductive Event (τ : Type) where
  /-- `Submit` queued the task. -/
  | submit (task : τ)
  /-- `Submit` threw: the pool was stopped. -/
  | reject (task : τ)
  /-- A `Submit` made its `cond_.notify_one()`. -/
  | notifyOne
  /-- `~ThreadPool` set `stop_`. -/
  | shutdown
  /-- `~ThreadPool` made its `cond_.notify_all()`. -/
  | notifyAll
  /-- Thread `i` ran the critical section of `WorkerLoop` and is now `next`. -/
  | check (i : Nat) (next : Worker τ)
  /-- The task of thread `i` returned. -/
  | finish (i : Nat)
  /-- Thread `i` woke in `cond_.wait` with no notify. -/
  | spurious (i : Nat)
  deriving DecidableEq, Repr

namespace Event

/-- The task a step queued. -/
def queued : Event τ → Option τ
  | .submit task => some task
  | _ => none

/-- The task a step started. -/
def started : Event τ → Option τ
  | .check _ next => next.task?
  | _ => none

/-- A step some thread owes without a new call and without a spurious
wakeup: a notification, a worker's critical section, a task returning. -/
def internal : Event τ → Bool
  | .notifyOne | .notifyAll | .check _ _ | .finish _ => true
  | _ => false

end Event

/-- The tasks accepted over a run, in order. -/
def submitted (evs : List (Event τ)) : List τ := evs.filterMap Event.queued

/-- The tasks started over a run, in order. -/
def started (evs : List (Event τ)) : List τ := evs.filterMap Event.started

/-- One step of one thread of the pool or of a call into it. -/
inductive Step : ThreadPool τ → Event τ → ThreadPool τ → Prop
  | submit {p q : ThreadPool τ} {task : τ} (h : p.submit task = .ok q) :
      Step p (.submit task) q
  | reject {p : ThreadPool τ} {task : τ} {msg : String} (h : p.submit task = .error msg) :
      Step p (.reject task) p
  /-- `notify_one` wakes one thread blocked in `cond_.wait`, if there is one. -/
  | wakeOne {p : ThreadPool τ} {i : Nat} (hn : 0 < p.notifying)
      (hi : p.workers[i]? = some .sleeping) :
      Step p .notifyOne { p with workers := p.workers.set i .ready, notifying := p.notifying - 1 }
  | wakeNone {p : ThreadPool τ} (hn : 0 < p.notifying) (hs : .sleeping ∉ p.workers) :
      Step p .notifyOne { p with notifying := p.notifying - 1 }
  /-- The destructor runs once, and only it sets `stop_`. -/
  | shutdown {p : ThreadPool τ} (hs : p.stop = false) :
      Step p .shutdown { p with stop := true, notifyingAll := true }
  | wakeAll {p : ThreadPool τ} (hn : p.notifyingAll = true) :
      Step p .notifyAll { p with workers := p.workers.map Worker.wake, notifyingAll := false }
  | check {p : ThreadPool τ} {i : Nat} {next : Worker τ} {rest : List τ}
      (hi : p.workers[i]? = some .ready) (h : workerLoop p.stop p.tasks = (next, rest)) :
      Step p (.check i next) { p with workers := p.workers.set i next, tasks := rest }
  | finish {p : ThreadPool τ} {i : Nat} {task : τ} (hi : p.workers[i]? = some (.running task)) :
      Step p (.finish i) { p with workers := p.workers.set i .ready }
  | spurious {p : ThreadPool τ} {i : Nat} (hi : p.workers[i]? = some .sleeping) :
      Step p (.spurious i) { p with workers := p.workers.set i .ready }

/-- A run: the steps taken from `p`, in order, ending in `r`. -/
inductive Run : ThreadPool τ → List (Event τ) → ThreadPool τ → Prop
  | nil (p : ThreadPool τ) : Run p [] p
  | cons {p q r : ThreadPool τ} {e : Event τ} {evs : List (Event τ)} :
      Step p e q → Run q evs r → Run p (e :: evs) r

namespace ThreadPool

/-- Every worker blocked in `cond_.wait` with nothing to do. -/
def Quiet (p : ThreadPool τ) : Prop :=
  p.tasks = [] ∧ p.stop = false ∧ p.notifying = 0 ∧ ∀ w ∈ p.workers, w = .sleeping

/-- Every worker returned from `WorkerLoop`: the destructor's joins return. -/
def Done (p : ThreadPool τ) : Prop := ∀ w ∈ p.workers, w = .exited

end ThreadPool

/-! ## 1. Every task starts once, in submission order -/

section Queue

variable {p q r : ThreadPool τ} {e : Event τ} {evs : List (Event τ)}

theorem workerLoop_queue (stop : Bool) (tasks : List τ) :
    (workerLoop stop tasks).1.task?.toList ++ (workerLoop stop tasks).2 = tasks := by
  rcases workerLoop_cases stop tasks with ⟨-, rfl, h⟩ | ⟨-, rfl, h⟩ | ⟨task, rest, rfl, h⟩ <;>
    simp [h, Worker.task?]

/-- A step starts the task it takes off the front of the queue, and queues
at the back the task it accepts. -/
theorem Step.queue (h : Step p e q) : e.started.toList ++ q.tasks = p.tasks ++ e.queued.toList := by
  cases h with
  | submit h => obtain ⟨-, rfl⟩ := ThreadPool.submit_eq_ok.mp h; rfl
  | check _ h =>
    simpa [Event.started, Event.queued, h] using workerLoop_queue p.stop p.tasks
  | _ => simp [Event.started, Event.queued]

theorem Run.queue (h : Run p evs q) : started evs ++ q.tasks = p.tasks ++ submitted evs := by
  induction h with
  | nil => simp [started, submitted]
  | @cons p q r e evs hs _ ih =>
    calc started (e :: evs) ++ r.tasks
        = e.started.toList ++ (started evs ++ r.tasks) := by
          rw [started, List.filterMap_cons]; cases e.started <;> rfl
      _ = (e.started.toList ++ q.tasks) ++ submitted evs := by rw [ih, List.append_assoc]
      _ = p.tasks ++ submitted (e :: evs) := by
          rw [hs.queue, submitted, submitted, List.filterMap_cons, List.append_assoc]
          cases e.queued <;> rfl

/-- On every run from `ThreadPool(n)`, the started tasks followed by the
queue are the accepted tasks, in order. -/
theorem started_append_tasks {n : Nat} (h : Run (ThreadPool.new n) evs q) :
    started evs ++ q.tasks = submitted evs := by
  simpa [ThreadPool.new] using h.queue

/-- A one-thread pool: two tasks submitted, the first started. -/
theorem run_two_submits : Run (ThreadPool.new 1 : ThreadPool Nat)
    [.submit 1, .notifyOne, .submit 2, .check 0 (.running 1)] ⟨[.running 1], [2], false, 1, false⟩ :=
  .cons (.submit rfl) (.cons (.wakeNone (by decide) (by decide))
    (.cons (.submit rfl) (.cons (.check rfl rfl) (.nil _))))

theorem started_append_tasks_two :
    started [.submit 1, .notifyOne, .submit 2, .check 0 (.running 1)] ++ [2] =
      submitted [Event.submit 1, .notifyOne, .submit 2, .check 0 (.running 1)] :=
  started_append_tasks run_two_submits

end Queue

/-! ## 2. No lost wakeup -/

section Invariant

variable {p q : ThreadPool τ} {e : Event τ} {evs : List (Event τ)}

theorem mem_set_of_getElem? {l : List (Worker τ)} {i : Nat} {a : Worker τ} (b : Worker τ)
    (h : l[i]? = some a) : b ∈ l.set i b :=
  List.mem_set l i (List.getElem?_eq_some.mp h).1 b

theorem mem_of_mem_set {l : List (Worker τ)} {i : Nat} {a b : Worker τ} (h : a ∈ l.set i b)
    (hne : a ≠ b) : a ∈ l :=
  (List.mem_or_eq_of_mem_set h).resolve_right hne

theorem sleeping_not_mem_map_wake (l : List (Worker τ)) : .sleeping ∉ l.map Worker.wake := by
  simp only [List.mem_map, not_exists, not_and]
  intro w _
  cases w <;> simp [Worker.wake]

theorem exited_mem_map_wake {l : List (Worker τ)} : .exited ∈ l.map Worker.wake ↔ .exited ∈ l := by
  simp only [List.mem_map]
  constructor
  · rintro ⟨w, hw, h⟩
    cases w <;> simp_all [Worker.wake]
  · exact fun h => ⟨_, h, rfl⟩

/-- What every reachable state keeps. -/
structure Inv (p : ThreadPool τ) : Prop where
  /-- `notify_all` is owed only once `stop_` is set. -/
  notifyingAll_stop : p.notifyingAll = true → p.stop = true
  /-- Once `notify_all` is made no worker sleeps: with `stop_` set the wait
  predicate holds, so none goes back to sleep. -/
  stop_awake : p.stop = true → p.notifyingAll = false → .sleeping ∉ p.workers
  /-- A sleeping worker is never stranded while there is work: another one
  is awake, or a notification is on its way. -/
  no_lost_wakeup : (p.tasks ≠ [] ∨ p.stop = true) → .sleeping ∈ p.workers →
    (∃ w ∈ p.workers, w.awake) ∨ 0 < p.notifying ∨ p.notifyingAll = true
  /-- A worker returns only once `stop_` is set and the queue is drained. -/
  exited_drained : .exited ∈ p.workers → p.stop = true ∧ p.tasks = []

theorem inv_new (n : Nat) : Inv (ThreadPool.new n : ThreadPool τ) where
  notifyingAll_stop := by simp [ThreadPool.new]
  stop_awake := by simp [ThreadPool.new]
  no_lost_wakeup := by simp [ThreadPool.new]
  exited_drained := by simp [ThreadPool.new, List.mem_replicate]

/-- A worker waking (notified, spuriously, or its task returning) keeps the
invariant, whatever becomes of the owed `notify_one`s. -/
theorem Inv.set_ready {i : Nat} {a : Worker τ} (hi : Inv p) (ha : p.workers[i]? = some a)
    (n : Nat) : Inv { p with workers := p.workers.set i .ready, notifying := n } where
  notifyingAll_stop := hi.notifyingAll_stop
  stop_awake hs ha' hw := hi.stop_awake hs ha' (mem_of_mem_set hw (by simp))
  no_lost_wakeup _ _ := .inl ⟨_, mem_set_of_getElem? _ ha, rfl⟩
  exited_drained hw := hi.exited_drained (mem_of_mem_set hw (by simp))

/-- A worker's critical section keeps the invariant. -/
theorem Inv.check {i : Nat} {next : Worker τ} {rest : List τ} (hi : Inv p)
    (hr : p.workers[i]? = some .ready) (h : workerLoop p.stop p.tasks = (next, rest)) :
    Inv { p with workers := p.workers.set i next, tasks := rest } := by
  rcases workerLoop_cases p.stop p.tasks with
    ⟨hs, ht, hw⟩ | ⟨hs, ht, hw⟩ | ⟨task, rest', ht, hw⟩ <;>
    rw [hw, Prod.mk.injEq] at h <;> obtain ⟨rfl, rfl⟩ := h
  case inl =>
    exact ⟨hi.notifyingAll_stop, by simp [hs], by simp [hs],
      fun hw => ⟨(hi.exited_drained (mem_of_mem_set hw (by simp))).1, rfl⟩⟩
  case inr.inl =>
    have asleep : Worker.sleeping ∈ p.workers.set i .exited → p.notifyingAll = true := fun hw => by
      cases ha : p.notifyingAll
      · exact absurd (mem_of_mem_set hw (by simp)) (hi.stop_awake hs ha)
      · rfl
    exact ⟨hi.notifyingAll_stop, fun _ ha hw => by simp [asleep hw] at ha,
      fun _ hw => .inr (.inr (asleep hw)), fun _ => ⟨hs, rfl⟩⟩
  case inr.inr =>
    refine ⟨hi.notifyingAll_stop, fun hs ha hw => hi.stop_awake hs ha (mem_of_mem_set hw (by simp)),
      fun _ _ => .inl ⟨_, mem_set_of_getElem? _ hr, rfl⟩, fun hw => ?_⟩
    simp [hi.exited_drained (mem_of_mem_set hw (by simp))] at ht

/-- Every step keeps the invariant. -/
theorem Inv.step (hi : Inv p) (h : Step p e q) : Inv q := by
  cases h with
  | submit h =>
    obtain ⟨hs, rfl⟩ := ThreadPool.submit_eq_ok.mp h
    exact ⟨hi.notifyingAll_stop, by simp [hs], fun _ _ => .inr (.inl (Nat.succ_pos _)),
      fun hw => by simp [(hi.exited_drained hw).1] at hs⟩
  | reject => exact hi
  | wakeOne _ hs => exact hi.set_ready hs _
  | wakeNone _ hs =>
    exact ⟨hi.notifyingAll_stop, hi.stop_awake, fun _ h => absurd h hs, hi.exited_drained⟩
  | shutdown =>
    exact ⟨fun _ => rfl, by simp, fun _ _ => .inr (.inr rfl),
      fun hw => ⟨rfl, (hi.exited_drained hw).2⟩⟩
  | wakeAll =>
    exact ⟨by simp, fun _ _ => sleeping_not_mem_map_wake _,
      fun _ hw => absurd hw (sleeping_not_mem_map_wake _),
      fun hw => hi.exited_drained (exited_mem_map_wake.mp hw)⟩
  | check hr h => exact hi.check hr h
  | finish hr => exact hi.set_ready hr _
  | spurious hr => exact hi.set_ready hr _

theorem Run.inv (h : Run p evs q) (hi : Inv p) : Inv q := by
  induction h with
  | nil => exact hi
  | cons hs _ ih => exact ih (hi.step hs)

theorem Step.length_workers (h : Step p e q) : q.workers.length = p.workers.length := by
  cases h with
  | submit h => obtain ⟨-, rfl⟩ := ThreadPool.submit_eq_ok.mp h; rfl
  | _ => simp

theorem Run.length_workers (h : Run p evs q) : q.workers.length = p.workers.length := by
  induction h with
  | nil => rfl
  | cons hs _ ih => rw [ih, hs.length_workers]

end Invariant

/-! ## 3. The pool never gets stuck -/

section Progress

variable {p : ThreadPool τ} {evs : List (Event τ)}

theorem Worker.eq_of_awake_eq_false {w : Worker τ} (h : w.awake = false) :
    w = .sleeping ∨ w = .exited := by
  cases w <;> simp_all [Worker.awake]

/-- From a state of the invariant, a thread can move on its own unless the
pool is quiet or done. -/
theorem Inv.progress (hi : Inv p) :
    p.Quiet ∨ p.Done ∨ ∃ e q, e.internal = true ∧ Step p e q := by
  by_cases ha : ∃ w ∈ p.workers, w.awake
  · obtain ⟨w, hw, ha⟩ := ha
    obtain ⟨i, hi'⟩ := List.mem_iff_getElem?.mp hw
    cases w with
    | ready => exact .inr (.inr ⟨.check i _, _, rfl, .check hi' Prod.mk.eta.symm⟩)
    | running _ => exact .inr (.inr ⟨.finish i, _, rfl, .finish hi'⟩)
    | sleeping | exited => simp [Worker.awake] at ha
  push_neg at ha
  have asleep : ∀ w ∈ p.workers, w = .sleeping ∨ w = .exited := fun w hw =>
    Worker.eq_of_awake_eq_false (by simpa using ha w hw)
  by_cases hn : 0 < p.notifying
  · by_cases hs : .sleeping ∈ p.workers
    · obtain ⟨i, hi'⟩ := List.mem_iff_getElem?.mp hs
      exact .inr (.inr ⟨.notifyOne, _, rfl, .wakeOne hn hi'⟩)
    · exact .inr (.inr ⟨.notifyOne, _, rfl, .wakeNone hn hs⟩)
  by_cases hall : p.notifyingAll = true
  · exact .inr (.inr ⟨.notifyAll, _, rfl, .wakeAll hall⟩)
  by_cases hs : .sleeping ∈ p.workers
  · have idle : p.tasks = [] ∧ p.stop = false := by
      by_contra hwork
      rcases hi.no_lost_wakeup (by simpa [or_iff_not_imp_left] using hwork) hs with
        ⟨w, hw, haw⟩ | h | h
      · simp [ha w hw] at haw
      · exact hn h
      · simp [hall] at h
    refine .inl ⟨idle.1, idle.2, by omega, fun w hw => (asleep w hw).resolve_right ?_⟩
    rintro rfl
    simp [(hi.exited_drained hw).1] at idle
  · exact .inr (.inl fun w hw => (asleep w hw).resolve_left (by rintro rfl; exact hs hw))

/-- Every state reachable from `ThreadPool(n)` is quiet, done, or has a
thread that can move without a new call and without a spurious wakeup. -/
theorem quiet_or_done_or_step {n : Nat} (h : Run (ThreadPool.new n) evs p) :
    p.Quiet ∨ p.Done ∨ ∃ e q, e.internal = true ∧ Step p e q :=
  (h.inv (inv_new n)).progress

theorem quiet_or_done_or_step_two :
    (⟨[.running 1], [2], false, 1, false⟩ : ThreadPool Nat).Quiet ∨
      (⟨[.running 1], [2], false, 1, false⟩ : ThreadPool Nat).Done ∨
      ∃ e q, e.internal = true ∧ Step ⟨[.running 1], [2], false, 1, false⟩ e q :=
  quiet_or_done_or_step run_two_submits

end Progress

/-! ## 4. The pool's own steps run out -/

section Bound

variable {p q : ThreadPool τ} {e : Event τ} {evs : List (Event τ)}

/-- What a thread can still do on its own: test the predicate, finish its
task and test it again. -/
def Worker.weight : Worker τ → Nat
  | .ready => 1
  | .running _ => 2
  | _ => 0

/-- A bound on the steps the pool's threads can take with no new call and no
spurious wakeup: each queued task is popped, run and followed by a test of
the predicate; each owed `notify_one` is made and wakes at most one thread;
the owed `notify_all` wakes at most every thread. -/
def ThreadPool.bound (p : ThreadPool τ) : Nat :=
  4 * p.tasks.length + (p.workers.map Worker.weight).sum + 2 * p.notifying +
    if p.notifyingAll then p.workers.length + 1 else 0

theorem sum_weight_set {l : List (Worker τ)} {i : Nat} {a : Worker τ} (b : Worker τ)
    (h : l[i]? = some a) : ((l.set i b).map Worker.weight).sum + a.weight =
      (l.map Worker.weight).sum + b.weight := by
  induction l generalizing i with
  | nil => simp at h
  | cons w l ih =>
    cases i with
    | zero =>
      simp only [List.getElem?_cons_zero, Option.some.injEq] at h
      subst h
      simp only [List.set_cons_zero, List.map_cons, List.sum_cons]
      omega
    | succ i =>
      have := ih (by simpa using h)
      simp only [List.set_cons_succ, List.map_cons, List.sum_cons]
      omega

theorem sum_weight_wake (l : List (Worker τ)) :
    ((l.map Worker.wake).map Worker.weight).sum ≤ (l.map Worker.weight).sum + l.length := by
  induction l with
  | nil => simp
  | cons w l ih =>
    simp only [List.map_cons, List.sum_cons, List.length_cons]
    cases w <;> simp only [Worker.wake, Worker.weight] <;> omega

/-- Every step a thread takes on its own lowers the bound. -/
theorem Step.bound_lt (h : Step p e q) (he : e.internal = true) : q.bound < p.bound := by
  cases h with
  | submit | reject | shutdown | spurious => simp [Event.internal] at he
  | wakeOne hn hs =>
    have := sum_weight_set .ready hs
    simp only [ThreadPool.bound, List.length_set, Worker.weight] at this ⊢
    omega
  | wakeNone hn => simp only [ThreadPool.bound]; omega
  | wakeAll hn =>
    have := sum_weight_wake p.workers
    simp only [ThreadPool.bound, hn, List.length_map, Bool.false_eq_true, if_false, if_true]
    omega
  | @check i next rest hr h =>
    have := sum_weight_set next hr
    simp only [ThreadPool.bound, List.length_set]
    rcases workerLoop_cases p.stop p.tasks with
      ⟨-, ht, hw⟩ | ⟨-, ht, hw⟩ | ⟨task, rest', ht, hw⟩ <;>
      rw [hw, Prod.mk.injEq] at h <;> obtain ⟨rfl, rfl⟩ := h <;>
      simp only [ht, Worker.weight, List.length_cons] at this ⊢ <;> omega
  | finish hr =>
    have := sum_weight_set .ready hr
    simp only [ThreadPool.bound, List.length_set, Worker.weight] at this ⊢
    omega

theorem Run.length_add_bound_le (h : Run p evs q) (he : ∀ e ∈ evs, e.internal = true) :
    evs.length + q.bound ≤ p.bound := by
  induction h with
  | nil => simp
  | cons hs _ ih =>
    have := hs.bound_lt (he _ (List.mem_cons_self _ _))
    have := ih fun e h => he e (List.mem_cons_of_mem _ h)
    simp only [List.length_cons]
    omega

/-- Every run of steps the threads take on their own, from any state, is at
most `p.bound` steps long. -/
theorem length_internal_run (h : Run p evs q) (he : ∀ e ∈ evs, e.internal = true) :
    evs.length ≤ p.bound :=
  Nat.le_of_add_right_le (h.length_add_bound_le he)

/-- The pool of `run_two_submits` settles on its own: the owed notify finds no
sleeper, the second task runs, and the thread goes to sleep. -/
theorem run_settle : Run (⟨[.running 1], [2], false, 1, false⟩ : ThreadPool Nat)
    [.notifyOne, .finish 0, .check 0 (.running 2), .finish 0, .check 0 .sleeping]
    ⟨[.sleeping], [], false, 0, false⟩ :=
  .cons (.wakeNone (by decide) (by decide)) (.cons (.finish rfl) (.cons (.check rfl rfl)
    (.cons (.finish rfl) (.cons (.check rfl rfl) (.nil _)))))

theorem length_internal_run_settle :
    [Event.notifyOne, .finish 0, .check 0 (.running 2), .finish 0, .check 0 .sleeping].length ≤
      (⟨[.running 1], [2], false, 1, false⟩ : ThreadPool Nat).bound :=
  length_internal_run run_settle (by decide)

/-- Only the destructor touches `stop_`, and it only sets it. -/
theorem Step.stop_of_stop (h : Step p e q) (hs : p.stop = true) : q.stop = true := by
  cases h <;> simp_all [ThreadPool.submit_eq_ok]

theorem Run.stop_of_stop (h : Run p evs q) : p.stop = true → q.stop = true := by
  induction h with
  | nil => exact id
  | cons hs _ ih => exact fun h => ih (hs.stop_of_stop h)

/-- A pool whose workers have all returned and that owes no notification
has no step left of its own. -/
theorem ThreadPool.Done.no_internal_step (hd : p.Done) (hn : p.notifying = 0)
    (ha : p.notifyingAll = false) : ¬ ∃ e q, e.internal = true ∧ Step p e q := by
  rintro ⟨e, q, he, hs⟩
  cases hs with
  | wakeOne hn' | wakeNone hn' => omega
  | wakeAll hall => simp [ha] at hall
  | check hr _ | finish hr => cases hd _ (List.mem_iff_getElem?.mpr ⟨_, hr⟩)
  | submit | reject | shutdown | spurious => simp [Event.internal] at he

/-- Once calls stop the pool settles, and once `stop_` is set it shuts down:
a run of the pool's own steps from a reachable state that no such step can
extend is at most `p.bound` long and ends quiet or with every worker
returned, and with every worker returned when `stop_` was set at its
start. -/
theorem maximal_internal_run_settles {n : Nat} {evs' : List (Event τ)}
    (h : Run (ThreadPool.new n) evs p) (hr : Run p evs' q) (he : ∀ e ∈ evs', e.internal = true)
    (hmax : ¬ ∃ e r, e.internal = true ∧ Step q e r) :
    evs'.length ≤ p.bound ∧ (q.Quiet ∨ q.Done) ∧ (p.stop = true → q.Done) := by
  have hq : q.Quiet ∨ q.Done :=
    (hr.inv (h.inv (inv_new n))).progress.imp_right (·.resolve_right hmax)
  refine ⟨Nat.le_of_add_right_le (hr.length_add_bound_le he), hq, fun hs => hq.resolve_left ?_⟩
  exact fun hquiet => absurd (hr.stop_of_stop hs) (by simp [hquiet.2.1])

/-- A one-thread pool destroyed with a task still queued. -/
theorem run_shutdown : Run (ThreadPool.new 1 : ThreadPool Nat) [.submit 7, .notifyOne, .shutdown]
    ⟨[.ready], [7], true, 0, true⟩ :=
  .cons (.submit rfl) (.cons (.wakeNone (by decide) (by decide)) (.cons (.shutdown rfl) (.nil _)))

/-- Its threads then wind down on their own: the task runs and the worker returns. -/
theorem run_wind_down : Run (⟨[.ready], [7], true, 0, true⟩ : ThreadPool Nat)
    [.notifyAll, .check 0 (.running 7), .finish 0, .check 0 .exited] ⟨[.exited], [], true, 0, false⟩ :=
  .cons (.wakeAll rfl) (.cons (.check rfl rfl) (.cons (.finish rfl) (.cons (.check rfl rfl) (.nil _))))

theorem maximal_internal_run_settles_wind_down :
    ¬ (∃ e r, e.internal = true ∧ Step (⟨[.exited], [], true, 0, false⟩ : ThreadPool Nat) e r) ∧
    [Event.notifyAll, .check 0 (.running 7), .finish 0, .check 0 .exited].length ≤
      (⟨[.ready], [7], true, 0, true⟩ : ThreadPool Nat).bound ∧
    ((⟨[.exited], [], true, 0, false⟩ : ThreadPool Nat).Quiet ∨
      (⟨[.exited], [], true, 0, false⟩ : ThreadPool Nat).Done) ∧
    ((⟨[.ready], [7], true, 0, true⟩ : ThreadPool Nat).stop = true →
      (⟨[.exited], [], true, 0, false⟩ : ThreadPool Nat).Done) :=
  have hmax := ThreadPool.Done.no_internal_step (by simp [ThreadPool.Done]) rfl rfl
  ⟨hmax, maximal_internal_run_settles run_shutdown run_wind_down (by decide) hmax⟩

end Bound

/-! ## 5. The destructor drains the queue -/

/-- When every worker of a pool with at least one thread has returned, every
task `Submit` accepted has been started. -/
theorem joined_started_all {n : Nat} {evs : List (Event τ)} {q : ThreadPool τ}
    (h : Run (ThreadPool.new n) evs q) (hn : 0 < n) (hd : q.Done) :
    started evs = submitted evs := by
  have hlen : 0 < q.workers.length := by
    rw [h.length_workers]; simpa [ThreadPool.new] using hn
  obtain ⟨w, hw⟩ := List.exists_mem_of_length_pos hlen
  have hex := (h.inv (inv_new n)).exited_drained (hd w hw ▸ hw)
  simpa [hex.2, ThreadPool.new] using h.queue

/-- A one-thread pool destroyed with a task still queued: the worker runs it
before it returns. -/
theorem run_drain : Run (ThreadPool.new 1 : ThreadPool Nat)
    [.submit 7, .notifyOne, .shutdown, .notifyAll, .check 0 (.running 7), .finish 0,
      .check 0 .exited] ⟨[.exited], [], true, 0, false⟩ :=
  .cons (.submit rfl) (.cons (.wakeNone (by decide) (by decide)) (.cons (.shutdown rfl)
    (.cons (.wakeAll rfl) (.cons (.check rfl rfl) (.cons (.finish rfl)
      (.cons (.check rfl rfl) (.nil _)))))))

theorem joined_started_all_drain :
    started [.submit 7, .notifyOne, .shutdown, .notifyAll, .check 0 (.running 7), .finish 0,
      .check 0 .exited] =
      submitted [Event.submit 7, .notifyOne, .shutdown, .notifyAll, .check 0 (.running 7),
        .finish 0, .check 0 .exited] :=
  joined_started_all run_drain (by decide) (by simp [ThreadPool.Done])

end KvStore.Common
