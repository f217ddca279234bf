import Mathlib.Data.Int.Basic
import Mathlib.Data.Option.Basic
import Mathlib.Order.Lattice

/-!
# The task of a process on Darwin

`get_task_info` asks the kernel about the task of a process and about each of its
threads.  It gives up where an answer is missing.  The answers about the threads go to
memory that `malloc` has returned, and where `thread_info` fails the code goes on with
what was in that memory before.

`getTaskInfo_cases` says what it leaves: the minimum of the orders of the threads and
the sum of their shares, as the loop has seen them (`seen`).
-/

namespace Darwin

def STATE_MAX : Nat := 7

/-- The values of `run_state`. -/
inductive ThState
  | RUNNING | STOPPED | WAITING | UNINTERRUPTIBLE | HALTED
  | other (runState : Int32)
  deriving DecidableEq

/-- Scheduling policies. -/
inductive Policy
  | TIMESHARE | RR | FIFO
  | other (policy : Int32)
  deriving DecidableEq

structure TimeValue where
  seconds : Int32
  microseconds : Int32

/-- The members of `struct thread_basic_info` that are read. -/
structure ThreadBasicInfo where
  cpuUsage : Int32
  policy : Policy
  runState : ThState
  sleepTime : Int32

/-- The priorities of a policy. -/
structure PolicyInfo where
  basePriority : Int32
  curPriority : Int32

/-- What the kernel answers about a thread, `none` where `thread_info` fails. -/
structure Thread where
  basicInfo : Option ThreadBasicInfo
  schedInfo : Policy → Option PolicyInfo

/-- The members of `struct task_basic_info` that are read. -/
structure TaskBasicInfo where
  virtualSize : UInt64
  residentSize : UInt64
  userTime : TimeValue
  systemTime : TimeValue
  policy : Policy

structure TaskThreadTimesInfo where
  userTime : TimeValue
  systemTime : TimeValue

/-- What `vm_region_64` answers about the shared text segment. -/
structure Region where
  reserved : Bool
  size : UInt64

/-- What the kernel answers about a task, `none` where a call fails, and whether there is
memory for the answers about its threads. -/
structure Task where
  basicInfo : Option TaskBasicInfo
  region : Option Region
  threadTimes : Option TaskThreadTimesInfo
  schedInfo : Policy → Option PolicyInfo
  threads : Option (List Thread)
  thval : Bool

/-- The members of `KINFO` that `OS_get_table` reads. -/
structure Kinfo where
  state : Nat
  cpuUsage : Int32
  curpri : Int32
  tasksInfo : TaskBasicInfo
  times : TaskThreadTimesInfo

/-- The structure behind `memset`. -/
def Kinfo.cleared : Kinfo :=
  ⟨0, 0, 0, ⟨0, 0, ⟨0, 0⟩, ⟨0, 0⟩, .other 0⟩, ⟨⟨0, 0⟩, ⟨0, 0⟩⟩⟩

/-- The sizes of the segments that the split libraries take. -/
structure SharedRegion where
  textSize : UInt64
  dataSize : UInt64

/-- `mach_state_order` -/
def machStateOrder (s : ThState) (sleepTime : Int32) : Nat :=
  match s with
  | .RUNNING => 1
  | .UNINTERRUPTIBLE => 2
  | .WAITING => if 20 < sleepTime then 4 else 3
  | .STOPPED => 5
  | .HALTED => 6
  | .other _ => 7

/-- `thread_schedinfo`: the priority of a thread, if it is above that found so far. -/
def threadSchedinfo (ki : Kinfo) (thread : Thread) (pol : Policy) : Kinfo :=
  let raise (priority : Int32) : Kinfo :=
    if ki.curpri < priority then { ki with curpri := priority } else ki
  match pol, thread.schedInfo pol with
  | .TIMESHARE, some info => raise info.curPriority
  | .FIFO, some info => raise info.basePriority
  | .RR, some info => raise info.basePriority
  | _, _ => ki

/-- The place of a thread in `mach_state_order`. -/
def ThreadBasicInfo.order (tb : ThreadBasicInfo) : Nat := machStateOrder tb.runState tb.sleepTime

/-- One turn of the loop over the threads, with what stands in `thval[j].tb`. -/
def threadTurn (ki : Kinfo) (thread : Thread) (tb : ThreadBasicInfo) : Kinfo :=
  let ki := threadSchedinfo ki thread tb.policy
  let ki := { ki with cpuUsage := ki.cpuUsage + tb.cpuUsage }
  if tb.order < ki.state then { ki with state := tb.order } else ki

/-- The loop, with what the memory for the answers holds before them from the current
element on. -/
def threadLoop (fresh : Nat → ThreadBasicInfo) (ki : Kinfo) : List Thread → Kinfo
  | [] => ki
  | thread :: threads =>
      threadLoop (fun j => fresh (j + 1))
        (threadTurn ki thread (thread.basicInfo.getD (fresh 0))) threads

/-- The size without the split libraries, where they are mapped in. -/
def virtualSize (shared : SharedRegion) (region : Option Region) (info : TaskBasicInfo) : UInt64 :=
  match region with
  | none => info.virtualSize
  | some region =>
      if region.reserved ∧ region.size = shared.textSize ∧
          shared.textSize + shared.dataSize < info.virtualSize then
        info.virtualSize - (shared.textSize + shared.dataSize)
      else info.virtualSize

/-- The `switch` over the policy of the task: its priority, `none` where the call fails. -/
def taskPriority (curpri : Int32) (pol : Policy) (answer : Option PolicyInfo) : Option Int32 :=
  match pol with
  | .TIMESHARE => answer.map PolicyInfo.curPriority
  | .RR => answer.map PolicyInfo.basePriority
  | .FIFO => answer.map PolicyInfo.basePriority
  | .other _ => some curpri

/-- The calls before `task_threads`: what they fill in, and whether none of them fails. -/
def taskInfos (shared : SharedRegion) (task : Task) : Kinfo × Bool :=
  match task.basicInfo with
  | none => (Kinfo.cleared, false)
  | some info =>
      let info := { info with virtualSize := virtualSize shared task.region info }
      let ki := { Kinfo.cleared with tasksInfo := info }
      match task.threadTimes with
      | none => (ki, false)
      | some times =>
          let ki := { ki with times := times }
          match taskPriority ki.curpri info.policy (task.schedInfo info.policy) with
          | none => (ki, false)
          | some curpri => ({ ki with curpri := curpri }, true)

/-- `get_task_info`, from a cleared structure.  There is no task where `task_for_pid`
fails. -/
def getTaskInfo (shared : SharedRegion) (fresh : Nat → ThreadBasicInfo) (task : Option Task) :
    Kinfo :=
  match task with
  | none => Kinfo.cleared
  | some task =>
      match taskInfos shared task with
      | (ki, false) => ki
      | (ki, true) =>
          let ki := { ki with cpuUsage := 0 }
          match task.threads with
          | none => ki
          | some threads =>
              let ki := { ki with state := STATE_MAX }
              if task.thval then threadLoop fresh ki threads else ki

/-! ### What the loop has seen -/

/-- What stands in `thval[j].tb` for each of the threads. -/
def seen (fresh : Nat → ThreadBasicInfo) : List Thread → List ThreadBasicInfo
  | [] => []
  | thread :: threads =>
      thread.basicInfo.getD (fresh 0) :: seen (fun j => fresh (j + 1)) threads

/-- What was obtained about them. -/
def obtained (threads : List Thread) : List ThreadBasicInfo := threads.filterMap Thread.basicInfo

section

variable {fresh : Nat → ThreadBasicInfo} {threads : List Thread} {tb : ThreadBasicInfo}

/-- What was seen was obtained, or stood in the memory before. -/
theorem mem_seen (h : tb ∈ seen fresh threads) : tb ∈ obtained threads ∨ ∃ j, tb = fresh j := by
  induction threads generalizing fresh with
  | nil => cases h
  | cons thread threads ih =>
      obtain ⟨basicInfo, schedInfo⟩ := thread
      rcases List.mem_cons.mp h with rfl | hrest
      · cases basicInfo with
        | none => exact Or.inr ⟨0, rfl⟩
        | some tb => exact Or.inl (List.mem_filterMap.mpr ⟨_, List.mem_cons_self, rfl⟩)
      · rcases ih hrest with hobtained | ⟨j, hj⟩
        · obtain ⟨thread, hthread, htb⟩ := List.mem_filterMap.mp hobtained
          exact Or.inl (List.mem_filterMap.mpr ⟨thread, List.mem_cons_of_mem _ hthread, htb⟩)
        · exact Or.inr ⟨j + 1, hj⟩

theorem mem_seen_of_obtained (fresh : Nat → ThreadBasicInfo) (h : tb ∈ obtained threads) :
    tb ∈ seen fresh threads := by
  induction threads generalizing fresh with
  | nil => cases h
  | cons thread threads ih =>
      obtain ⟨thread', hthread, htb⟩ := List.mem_filterMap.mp h
      rcases List.mem_cons.mp hthread with rfl | hrest
      · apply List.mem_cons.mpr
        left
        rw [htb]
        rfl
      · exact List.mem_cons_of_mem _ (ih _ (List.mem_filterMap.mpr ⟨thread', hrest, htb⟩))

/-- Where everything was obtained, nothing else was seen. -/
theorem seen_eq (fresh : Nat → ThreadBasicInfo) (h : ∀ thread ∈ threads, thread.basicInfo ≠ none) :
    seen fresh threads = obtained threads := by
  induction threads generalizing fresh with
  | nil => rfl
  | cons thread threads ih =>
      obtain ⟨tb, htb⟩ := Option.ne_none_iff_exists'.mp (h thread List.mem_cons_self)
      have hrest := ih (fun j => fresh (j + 1)) fun t ht => h t (List.mem_cons_of_mem _ ht)
      rw [seen, hrest, obtained, obtained, List.filterMap_cons_some htb, htb]
      rfl

/-- Where an answer is missing, the loop sees what was in the memory. -/
theorem mem_seen_of_missing (tb : ThreadBasicInfo)
    (h : ∃ thread ∈ threads, thread.basicInfo = none) : tb ∈ seen (fun _ => tb) threads := by
  induction threads with
  | nil =>
      obtain ⟨thread, hmem, -⟩ := h
      cases hmem
  | cons thread threads ih =>
      obtain ⟨thread', hmem, hnone⟩ := h
      rcases List.mem_cons.mp hmem with rfl | hrest
      · apply List.mem_cons.mpr
        left
        rw [hnone]
        rfl
      · exact List.mem_cons_of_mem _ (ih ⟨thread', hrest, hnone⟩)

end

/-! ### What the loop leaves -/

@[simp] theorem threadSchedinfo_state (ki : Kinfo) (thread : Thread) (pol : Policy) :
    (threadSchedinfo ki thread pol).state = ki.state := by
  unfold threadSchedinfo
  grind

@[simp] theorem threadSchedinfo_cpuUsage (ki : Kinfo) (thread : Thread) (pol : Policy) :
    (threadSchedinfo ki thread pol).cpuUsage = ki.cpuUsage := by
  unfold threadSchedinfo
  grind

/-- One turn takes the minimum of the orders, and adds up the shares. -/
theorem threadTurn_eq (ki : Kinfo) (thread : Thread) (tb : ThreadBasicInfo) :
    (threadTurn ki thread tb).state = min ki.state tb.order ∧
      (threadTurn ki thread tb).cpuUsage = ki.cpuUsage + tb.cpuUsage := by
  unfold threadTurn
  dsimp only
  rw [threadSchedinfo_state, threadSchedinfo_cpuUsage]
  split
  · next hlt => exact ⟨(min_eq_right hlt.le).symm, rfl⟩
  · next hle => exact ⟨(min_eq_left (Nat.not_lt.mp hle)).symm, rfl⟩

/-- **The run of the loop.** -/
theorem threadLoop_eq (fresh : Nat → ThreadBasicInfo) (ki : Kinfo) (threads : List Thread) :
    (threadLoop fresh ki threads).state =
        ((seen fresh threads).map ThreadBasicInfo.order).foldl min ki.state ∧
      (threadLoop fresh ki threads).cpuUsage =
        ((seen fresh threads).map ThreadBasicInfo.cpuUsage).foldl (· + ·) ki.cpuUsage := by
  induction threads generalizing fresh ki with
  | nil => exact ⟨rfl, rfl⟩
  | cons thread threads ih =>
      obtain ⟨hstate, husage⟩ := ih (fun j => fresh (j + 1))
        (threadTurn ki thread (thread.basicInfo.getD (fresh 0)))
      obtain ⟨hmin, hadd⟩ := threadTurn_eq ki thread (thread.basicInfo.getD (fresh 0))
      rw [threadLoop, hstate, husage, hmin, hadd, seen]
      exact ⟨rfl, rfl⟩

/-- The threads that `get_task_info` gets to, when no call fails before them. -/
def Task.reached (shared : SharedRegion) (task : Task) : Option (List Thread) :=
  if (taskInfos shared task).2 then task.threads else none

theorem taskInfos_fst (shared : SharedRegion) (task : Task) :
    (taskInfos shared task).1.state = 0 ∧ (taskInfos shared task).1.cpuUsage = 0 := by
  unfold taskInfos
  cases task.basicInfo with
  | none => exact ⟨rfl, rfl⟩
  | some info =>
      cases task.threadTimes with
      | none => exact ⟨rfl, rfl⟩
      | some times =>
          dsimp only
          split
          · exact ⟨rfl, rfl⟩
          · exact ⟨rfl, rfl⟩

/-- **What `get_task_info` leaves**: nothing about threads that it does not get to. -/
theorem getTaskInfo_cases (shared : SharedRegion) (fresh : Nat → ThreadBasicInfo)
    (task : Option Task) :
    (task.bind (Task.reached shared) = none ∧ (getTaskInfo shared fresh task).state = 0 ∧
        (getTaskInfo shared fresh task).cpuUsage = 0) ∨
      ∃ t threads, task = some t ∧ t.reached shared = some threads ∧
        (t.thval = false → (getTaskInfo shared fresh task).state = STATE_MAX ∧
          (getTaskInfo shared fresh task).cpuUsage = 0) ∧
        (t.thval = true → (getTaskInfo shared fresh task).state =
            ((seen fresh threads).map ThreadBasicInfo.order).foldl min STATE_MAX ∧
          (getTaskInfo shared fresh task).cpuUsage =
            ((seen fresh threads).map ThreadBasicInfo.cpuUsage).foldl (· + ·) 0) := by
  cases task with
  | none => exact Or.inl ⟨rfl, rfl, rfl⟩
  | some task =>
      obtain ⟨hstate, husage⟩ := taskInfos_fst shared task
      unfold getTaskInfo
      rw [Option.bind_some]
      unfold Task.reached
      dsimp only
      cases hinfos : taskInfos shared task with
      | mk ki found =>
          rw [hinfos] at hstate husage
          cases found with
          | false => exact Or.inl ⟨if_neg Bool.noConfusion, hstate, husage⟩
          | true =>
              cases hthreads : task.threads with
              | none => exact Or.inl ⟨if_pos rfl, hstate, rfl⟩
              | some threads =>
                  refine Or.inr ⟨task, threads, rfl, ?_, fun hthval => ?_, fun hthval => ?_⟩
                  · rw [if_pos (congrArg Prod.snd hinfos), hthreads]
                  · dsimp only
                    rw [hthval, if_neg Bool.noConfusion]
                    exact ⟨rfl, rfl⟩
                  · dsimp only
                    rw [hthval, if_pos rfl]
                    exact threadLoop_eq fresh _ threads

end Darwin
