import MiningClient.App.World

namespace MiningClient.App
open Session
variable {σ : Type}

def nextDue (w : App σ) : Option Nat :=
  ((w.deliveries.filter fun d => w.now < d.due).map (·.due)).min?

theorem nextDue_eq_some {w : App σ} {time : Nat} (h : w.nextDue = some time) :
    w.now < time ∧ ∃ d ∈ w.deliveries, d.due = time := by
  obtain ⟨d, hd, rfl⟩ := List.mem_map.1 (List.min?_mem h)
  obtain ⟨mem, later⟩ := List.mem_filter.1 hd
  exact ⟨of_decide_eq_true later, d, mem, rfl⟩

/-- Moves the time on. The tasks whose fetches arrive queue up, all but the `awaited` one. -/
def moveTo (w : App σ) (awaited : Option Task) (time : Nat) : App σ :=
  let arrived := w.deliveries.filter fun d =>
    w.now < d.due && d.due ≤ time && some d.task != awaited
  { w with
    now := time
    queue := w.queue ++ (arrived.map (·.task)).eraseDups.map Job.go }

/-- No more arrivals than this are to come before everything that is going on has ended. -/
def arrivals (w : App σ) : Nat :=
  w.deliveries.length + 4 * (w.queue.length + w.machine.runs.length) + w.machine.loads.length + 1

/-- Waits for a time; the number bounds the arrivals until then. While the main task waits, the other
tasks run; when none of them can go on, the time moves on to the next arrival. Where the main task's own
time comes together with an arrival, the main task goes first. -/
def waitUntil (deadline : Nat) : Nat → App σ → App σ
  | 0, w => w.moveTo none deadline
  | fuel + 1, w =>
    if deadline ≤ w.now then w
    else
      let w := w.drain
      match w.nextDue with
      | none => w.moveTo none deadline
      | some time =>
        if time < deadline then waitUntil deadline fuel (w.moveTo none time)
        else w.moveTo none deadline

theorem waitUntil_keeps {P : App σ → Prop} {deadline : Nat} (drains : ∀ w, P w → P w.drain)
    (moves : ∀ w time, P w → time = deadline ∨ w.now < time ∧ time < deadline →
      P (w.moveTo none time))
    (fuel : Nat) {w : App σ} (h : P w) : P (waitUntil deadline fuel w) := by
  induction fuel generalizing w with
  | zero => exact moves w deadline h (.inl rfl)
  | succ fuel ih =>
    have drained := drains w h
    unfold waitUntil
    split
    · exact h
    · dsimp only
      split
      · exact moves _ deadline drained (.inl rfl)
      · rename_i time next
        split
        · rename_i early
          exact ih (moves _ time drained (.inr ⟨(nextDue_eq_some next).1, early⟩))
        · exact moves _ deadline drained (.inl rfl)

def sleep (w : App σ) (duration : Nat) : App σ := waitUntil (w.now + duration) w.arrivals w

/-- Makes a call and waits for its result; nothing when there never is one. -/
def call {β : Type} (w : App σ) : Call β → Option (Except Error β × App σ)
  | .refused e => some (.error e, w)
  | .sent request finish =>
    let w := { w with requests := w.requests ++ [request] }
    let answer := w.network w.requests
    answer.delay.map fun delay => (finish answer.exchange, w.sleep delay)

def ending? (w : App σ) (task : Nat) : Option Ending := w.endings.lookup task

def awaitRun (id : Nat) : Nat → App σ → Option (Except Error Outcome × App σ)
  | 0, _ => none
  | fuel + 1, w =>
    match w.ending? id with
    | some (.run result) => some (result, w)
    | _ =>
      let w := w.drain
      match w.nextDue with
      | none => none
      | some time =>
        let w := w.moveTo (some (.run id)) time
        let arrived := w.deliveries.any fun d => d.task == .run id && d.due ≤ w.now
        awaitRun id fuel (if arrived then w.go (.run id) else w)

def loadFirstScreen (w : App σ) : Option (Except Error Outcome × App σ) :=
  let id := w.machine.nextTask
  let w := w.start
  awaitRun id w.arrivals w

/-- Waits until both loads are settled, or until the deadline, which gives nothing. -/
def awaitLoads (id deadline : Nat) : Nat → App σ → Option Loads × App σ
  | 0, w => (none, w)
  | fuel + 1, w =>
    match w.ending? id with
    | some (.locations loads) => (some loads, w)
    | _ =>
      if deadline ≤ w.now then (none, { w with machine := w.machine.dropWaiter id })
      else
        let w := w.drain
        let w := w.perform (w.machine.pollWaiter id)
        if (w.ending? id).isSome then awaitLoads id deadline fuel w
        else
          awaitLoads id deadline fuel (w.moveTo none ((w.nextDue.getD deadline).min deadline))

def waitForLocations (w : App σ) : Option Loads × App σ :=
  let id := w.machine.nextTask
  let w := w.perform (w.machine.await .locations)
  awaitLoads id (w.now + w.patience) (w.arrivals + 2) w

end MiningClient.App
