import MesquitteClient.Lib.Rest
import Mathlib.Data.List.MinMax

/-!
# Locks taken in an order

Tasks take locks, to read or to write, and give them back innermost first, as
the guards of nested scopes are. If every task takes a lock only inside locks of
lower rank, then the tasks never wait for each other in a circle: while one is
not done, one can go on (`exists_ready`), and the number of steps is bounded
(`steps_le_size`).
-/

namespace LockOrder

/-- What a task does with locks. -/
inductive Scope (ℓ : Type*)
  | done
  | take (write : Bool) (lock : ℓ) (body next : Scope ℓ)

/-- A lock that is held, and what follows when it has been given back. -/
structure Held (ℓ : Type*) where
  write : Bool
  lock : ℓ
  next : Scope ℓ

structure Task (ℓ : Type*) where
  current : Scope ℓ := .done
  /-- innermost first -/
  held : List (Held ℓ) := []

inductive Event (ω : Type*)
  /-- another task -/
  | spawn
  | start (i : Nat) (op : ω)
  | run (i : Nat)

variable {ℓ ω : Type*}

namespace Scope

/-- One scope after the other. -/
def append : Scope ℓ → Scope ℓ → Scope ℓ
  | done, after => after
  | take write lock body next, after => take write lock body (next.append after)

/-- The scopes one after the other. -/
def seq : List (Scope ℓ) → Scope ℓ
  | [] => done
  | scope :: scopes => scope.append (seq scopes)

def size : Scope ℓ → Nat
  | done => 0
  | take _ _ body next => body.size + next.size + 2

/-- Each lock has at least this rank, and those inside it have a higher one. -/
def Ordered (rank : ℓ → Nat) : Nat → Scope ℓ → Prop
  | _, done => True
  | bound, take _ lock body next =>
    bound ≤ rank lock ∧ body.Ordered rank (rank lock + 1) ∧ next.Ordered rank bound

theorem Ordered.append {rank : ℓ → Nat} {bound : Nat} {scope after : Scope ℓ}
    (h : scope.Ordered rank bound) (ha : after.Ordered rank bound) :
    (scope.append after).Ordered rank bound := by
  induction scope with
  | done => exact ha
  | take _ lock body next _ ih => exact ⟨h.1, h.2.1, ih h.2.2⟩

theorem Ordered.seq {rank : ℓ → Nat} {bound : Nat} {scopes : List (Scope ℓ)}
    (h : ∀ scope ∈ scopes, scope.Ordered rank bound) : (seq scopes).Ordered rank bound := by
  induction scopes with
  | nil => trivial
  | cons scope scopes ih =>
    exact (h scope List.mem_cons_self).append
      (ih fun scope hm => h scope (List.mem_cons_of_mem _ hm))

theorem Ordered.mono {rank : ℓ → Nat} {bound bound' : Nat} {scope : Scope ℓ}
    (h : scope.Ordered rank bound) (hb : bound' ≤ bound) : scope.Ordered rank bound' := by
  induction scope with
  | done => trivial
  | take _ lock body next _ ih => exact ⟨hb.trans h.1, h.2.1, ih h.2.2⟩

end Scope

namespace Task

/-- The lock that the task takes next. -/
def wants (task : Task ℓ) : Option (Bool × ℓ) :=
  match task.current with
  | .done => none
  | .take write lock _ _ => some (write, lock)

def idle (task : Task ℓ) : Prop := task.current = .done ∧ task.held = []

/-- The next step, if locks are had as `grants` says. -/
def run (grants : Bool → ℓ → Bool) (task : Task ℓ) : Option (Task ℓ) :=
  match task.current, task.held with
  | .take write lock body next, held =>
    if grants write lock then some ⟨body, ⟨write, lock, next⟩ :: held⟩ else none
  | .done, h :: held => some ⟨h.next, held⟩
  | .done, [] => none

end Task

def heldSize : List (Held ℓ) → Nat
  | [] => 0
  | h :: held => h.next.size + 1 + heldSize held

/-- How many steps the tasks have still to take. -/
def size : List (Task ℓ) → Nat
  | [] => 0
  | task :: tasks => task.current.size + heldSize task.held + size tasks

/-- What is taken next has at least this rank. -/
def bound (rank : ℓ → Nat) : List (Held ℓ) → Nat
  | [] => 0
  | h :: _ => rank h.lock + 1

def HeldOk (rank : ℓ → Nat) : List (Held ℓ) → Prop
  | [] => True
  | h :: held => bound rank held ≤ rank h.lock ∧ h.next.Ordered rank (bound rank held) ∧
      HeldOk rank held

/-- The task holds its locks in order, and goes on so. -/
structure Task.Ok (rank : ℓ → Nat) (task : Task ℓ) : Prop where
  current : task.current.Ordered rank (bound rank task.held)
  held : HeldOk rank task.held

section

variable {rank : ℓ → Nat} {task task' : Task ℓ} {held : List (Held ℓ)} {grants : Bool → ℓ → Bool}

theorem HeldOk.rank_lt (h : HeldOk rank held) (hm : x ∈ held) :
    rank x.lock < bound rank held := by
  induction held with
  | nil => cases hm
  | cons y held ih =>
    obtain ⟨hy, -, h⟩ := h
    rcases List.mem_cons.mp hm with rfl | hm
    · exact Nat.lt_succ_self _
    · exact (ih h hm).trans_le (hy.trans (Nat.le_succ _))

/-- What a task waits for is above what it holds. -/
theorem Task.Ok.wants_above (h : task.Ok rank) (hw : task.wants = some (write, lock))
    (hm : x ∈ task.held) : rank x.lock < rank lock := by
  obtain ⟨current, held⟩ := task
  cases current with
  | done => cases hw
  | take write' lock' body next =>
    cases hw
    exact (h.held.rank_lt hm).trans_le h.current.1

theorem Task.Ok.run (h : task.Ok rank) (hr : task.run grants = some task') : task'.Ok rank := by
  obtain ⟨current, held⟩ := task
  cases current with
  | take write lock body next =>
    obtain ⟨-, hr⟩ := Option.ite_none_right_eq_some.mp hr
    cases hr
    exact ⟨h.current.2.1, h.current.1, h.current.2.2, h.held⟩
  | done =>
    cases held with
    | nil => cases hr
    | cons x held =>
      cases hr
      exact ⟨h.held.2.1, h.held.2.2⟩

theorem Task.size_run (hr : task.run grants = some task') :
    task'.current.size + heldSize task'.held < task.current.size + heldSize task.held := by
  obtain ⟨current, held⟩ := task
  cases current with
  | take write lock body next =>
    obtain ⟨-, hr⟩ := Option.ite_none_right_eq_some.mp hr
    cases hr
    simp only [heldSize, Scope.size]
    omega
  | done =>
    cases held with
    | nil => cases hr
    | cons x held =>
      cases hr
      simp only [heldSize, Scope.size]
      omega

theorem Task.wants_of_run_eq_none (hr : task.run grants = none) (hi : ¬ task.idle) :
    ∃ write lock, task.wants = some (write, lock) ∧ grants write lock = false := by
  obtain ⟨current, held⟩ := task
  cases current with
  | take write lock body next =>
    refine ⟨write, lock, rfl, ?_⟩
    simpa [Task.run] using hr
  | done =>
    cases held with
    | nil => exact absurd ⟨rfl, rfl⟩ hi
    | cons x held => cases hr

theorem Task.run_mono {grants' : Bool → ℓ → Bool}
    (hg : ∀ write lock, grants write lock → grants' write lock)
    (hr : (task.run grants).isSome) : (task.run grants').isSome := by
  obtain ⟨current, held⟩ := task
  cases current with
  | take write lock body next =>
    cases h : grants write lock with
    | false => simp [Task.run, h] at hr
    | true => simp [Task.run, hg write lock h]
  | done =>
    cases held with
    | nil => cases hr
    | cons x held => rfl

theorem size_set {tasks : List (Task ℓ)} (hi : tasks[i]? = some task)
    (hlt : task'.current.size + heldSize task'.held < task.current.size + heldSize task.held) :
    size (tasks.set i task') < size tasks := by
  induction tasks generalizing i with
  | nil => simp at hi
  | cons first tasks ih =>
    cases i with
    | zero =>
      rw [List.getElem?_cons_zero, Option.some.injEq] at hi
      subst hi
      simp only [List.set_cons_zero, size]
      omega
    | succ i =>
      have hrest := ih hi
      simp only [List.set_cons_succ, size]
      omega

end

variable [DecidableEq ℓ]

def holds (task : Task ℓ) (lock : ℓ) : Bool := task.held.any fun h => h.lock = lock

def holdsToWrite (task : Task ℓ) (lock : ℓ) : Bool :=
  task.held.any fun h => h.write && h.lock = lock

/-- A lock can be had to write if nobody holds it, and to read if nobody holds
it to write. A task that holds it itself is no exception. -/
def grants (tasks : List (Task ℓ)) (write : Bool) (lock : ℓ) : Bool :=
  tasks.all fun task => !(if write then holds task lock else holdsToWrite task lock)

/-- The same where a reader also waits for those who wait to write. -/
def grantsInTurn (tasks : List (Task ℓ)) (write : Bool) (lock : ℓ) : Bool :=
  grants tasks write lock && (write || tasks.all fun task => task.wants ≠ some (true, lock))

def step (scope : ω → Scope ℓ) (tasks : List (Task ℓ)) : Event ω → Option (List (Task ℓ))
  | .spawn => some (tasks ++ [{}])
  | .start i op =>
    match tasks[i]? with
    | some ⟨.done, []⟩ => some (tasks.set i ⟨scope op, []⟩)
    | _ => none
  | .run i =>
    (tasks[i]?).bind fun task => (task.run (grants tasks)).map fun task' => tasks.set i task'

/-- The task can go on, also where readers wait for those who wait to write. -/
def Ready (tasks : List (Task ℓ)) (i : Nat) : Prop :=
  ∃ task, tasks[i]? = some task ∧ (task.run (grantsInTurn tasks)).isSome

variable {rank : ℓ → Nat} {scope : ω → Scope ℓ} {tasks tasks' : List (Task ℓ)} {task : Task ℓ}

theorem ok_step (hscope : ∀ op, (scope op).Ordered rank 0) (h : ∀ task ∈ tasks, task.Ok rank)
    (hs : step scope tasks e = some tasks') : ∀ task ∈ tasks', task.Ok rank := by
  have hset {i : Nat} {new : Task ℓ} (hn : new.Ok rank) :
      ∀ task ∈ tasks.set i new, task.Ok rank := by
    intro task hm
    rcases List.mem_or_eq_of_mem_set hm with hm | rfl
    · exact h task hm
    · exact hn
  cases e with
  | spawn =>
    cases hs
    intro task hm
    rcases List.mem_append.mp hm with hm | hm
    · exact h task hm
    · cases List.mem_singleton.mp hm
      exact ⟨trivial, trivial⟩
  | start i op =>
    rw [step] at hs
    split at hs
    · cases hs
      exact hset ⟨hscope op, trivial⟩
    · cases hs
  | run i =>
    obtain ⟨task, hi, hs⟩ := Option.bind_eq_some_iff.mp hs
    obtain ⟨task', hr, rfl⟩ := Option.map_eq_some_iff.mp hs
    exact hset ((h task (List.mem_of_getElem? hi)).run hr)

theorem ok (hscope : ∀ op, (scope op).Ordered rank 0)
    (hr : Lts.Run (step scope) Lts.anything [] h tasks) : ∀ task ∈ tasks, task.Ok rank :=
  hr.invariant (P := fun _ tasks => ∀ task ∈ tasks, task.Ok rank) (fun _ hm => by cases hm)
    fun _ hok _ hs => ok_step hscope hok hs

theorem not_holds_of_max (h : ∀ task ∈ tasks, task.Ok rank)
    (hwaits : ∀ task ∈ tasks, ¬ task.idle → ∃ write lock, task.wants = some (write, lock) ∧
      rank lock ≤ rank top) : ∀ task ∈ tasks, holds task top = false := by
  intro task hm
  rw [← Bool.not_eq_true]
  intro hh
  obtain ⟨x, hx, hlock⟩ := List.any_eq_true.mp hh
  have hlock : x.lock = top := of_decide_eq_true hlock
  obtain ⟨write, lock, hw, hle⟩ := hwaits task hm fun hi => by
    rw [hi.2] at hx
    cases hx
  have hlt := (h task hm).wants_above hw hx
  rw [hlock] at hlt
  omega

theorem grants_of_free (hfree : ∀ task ∈ tasks, holds task lock = false) (write : Bool) :
    grants tasks write lock = true := by
  refine List.all_eq_true.mpr fun task hm => ?_
  cases write with
  | true => simp [hfree task hm]
  | false =>
    have hh := List.any_eq_false.mp (hfree task hm)
    have hwrite : holdsToWrite task lock = false :=
      List.any_eq_false.mpr fun x hx hw => hh x hx (Bool.and_eq_true_iff.mp hw).2
    simp [hwrite]

/-- Somebody waits for a lock of the highest rank that is waited for. Whoever
held it would wait for one of a higher rank, so nobody does. -/
theorem exists_ready (h : ∀ task ∈ tasks, task.Ok rank) (hm : task ∈ tasks) (hi : ¬ task.idle) :
    ∃ i, Ready tasks i := by
  by_contra hno
  have hstuck : ∀ task ∈ tasks, ¬ task.idle → ∃ write lock, task.wants = some (write, lock) ∧
      grantsInTurn tasks write lock = false := by
    intro task hm hi
    refine Task.wants_of_run_eq_none ?_ hi
    rw [← Option.not_isSome_iff_eq_none]
    obtain ⟨i, hget⟩ := List.mem_iff_getElem?.mp hm
    exact fun hs => hno ⟨i, task, hget, hs⟩
  let waits (task : Task ℓ) : Nat := task.wants.elim 0 fun x => rank x.2 + 1
  obtain ⟨first, hfirst⟩ : ∃ first, tasks.argmax waits = some first :=
    Option.ne_none_iff_exists'.mp (mt List.argmax_eq_none.mp (List.ne_nil_of_mem hm))
  have hmax (task : Task ℓ) (hm : task ∈ tasks) : waits task ≤ waits first :=
    List.le_of_mem_argmax hm hfirst
  obtain ⟨write₀, lock₀, hw₀, _⟩ := hstuck task hm hi
  obtain ⟨⟨write, top⟩, hw⟩ : ∃ x, first.wants = some x := by
    refine Option.ne_none_iff_exists'.mp fun hnone => ?_
    have hle := hmax task hm
    simp [waits, hw₀, hnone] at hle
  have hfree := not_holds_of_max h fun task hm hi => by
    obtain ⟨write', lock', hw', _⟩ := hstuck task hm hi
    have hle := hmax task hm
    simp only [waits, hw', hw, Option.elim_some] at hle
    exact ⟨write', lock', hw', Nat.le_of_succ_le_succ hle⟩
  have hwaiting (write : Bool) {task : Task ℓ} (hm : task ∈ tasks)
      (hw : task.wants = some (write, top)) : grantsInTurn tasks write top = false := by
    obtain ⟨_, _, hw', hg⟩ := hstuck task hm fun hi => by
      simp [Task.wants, hi.1] at hw
    cases hw.symm.trans hw'
    exact hg
  -- so a task that waits to write `top` could go on, and without one `first` could
  have hwriters (task : Task ℓ) (hm : task ∈ tasks) : task.wants ≠ some (true, top) := by
    intro hw
    have hg := hwaiting true hm hw
    rw [grantsInTurn, grants_of_free hfree] at hg
    cases hg
  have hg := hwaiting write (List.argmax_mem hfirst) hw
  rw [grantsInTurn, grants_of_free hfree, List.all_eq_true.mpr fun task hm =>
    decide_eq_true (hwriters task hm)] at hg
  simp at hg

/-- A task goes on. -/
def onward : Event ω → Bool
  | .run _ => true
  | _ => false

theorem size_step (he : onward e) (hs : step scope tasks e = some tasks') :
    size tasks' < size tasks := by
  cases e with
  | spawn | start _ _ => cases he
  | run i =>
    obtain ⟨task, hi, hs⟩ := Option.bind_eq_some_iff.mp hs
    obtain ⟨task', hr, rfl⟩ := Option.map_eq_some_iff.mp hs
    exact size_set hi (Task.size_run hr)

theorem steps_le_size (hs : Lts.Steps (step scope) onward n tasks tasks') : n ≤ size tasks :=
  Lts.steps_le_rank size_step hs

theorem Ready.step (hr : Ready tasks i) (scope : ω → Scope ℓ) :
    (LockOrder.step scope tasks (.run i)).isSome := by
  obtain ⟨task, hi, hrun⟩ := hr
  have hrun' : (task.run (grants tasks)).isSome :=
    Task.run_mono (fun _ _ hg => (Bool.and_eq_true_iff.mp hg).1) hrun
  simp [LockOrder.step, hi, hrun']

end LockOrder
