import OnChainEventIndexer.Indexer.Run

/-!
# The whole system

Model of `main.rs`: any number of workers around one database, each in its `worker_loop`, and the
API that creates jobs. A step is one SQL statement or one request of one worker, so workers
interleave between any two statements of a job run; what a call does is `step` of
`Indexer/Machine.lean`. `Concurrency/Serial.lean` and `Concurrency/Turns.lean` say when statements
that overlap may be taken for such steps.

* `worker_loop` polls: a claim that finds nothing, or fails, leaves its worker where it is.
* `claim` is `claim_pending_job` executed alone. `claimRaced` is one that overlaps other claims: its
  sub-select has read an older snapshot, so it may take a pending job although the address has an
  indexing one by now (`Concurrency/JobClaims.lean`).
* The answer to a statement may be lost although it was executed: the connection breaks, and the
  caller gets an error (`createLost`, `claimLost`, `callLost`). The call of a job run goes on as
  after a statement that failed.
* A worker may stop at any time (`crash`) and start anew (`restart`); a panic of its task stops it
  too. A restart of the process is the crash of all its workers, and their restarts. One that stops
  while a statement is on its way stops before it, or after its answer was lost.

`Assigned` is what holds between workers and jobs in every run: a worker that executes a job has it
indexing, alone. With it, what the others do to the job's row is nothing (`others_step`), so that
a job's run inside the system is a run of `Indexer/Run.lean` (`local_run`).
-/

namespace OnChainEventIndexer

open Keyed Lts

/-- A task that executes `worker_loop`. -/
inductive Worker
  /-- Waiting for a job, in the inner loop of `worker_loop`. -/
  | idle
  /-- In `process_claimed_job`, before the call `pc`. -/
  | running (job : ClaimedJob) (pc : Pc)
  | dead

/-- The database, its clock, and the workers by their id. -/
structure Sys where
  db : Db
  now : Int
  workers : Nat → Worker

/-- Empty tables, every worker idle. -/
def Sys.init (now : Int) : Sys := ⟨Db.empty, now, fun _ => .idle⟩

/-- What may happen next. -/
inductive Act
  /-- Time passes. -/
  | tick (d : Nat)
  /-- `create_processing_job` in `POST /analyze` -/
  | create (address : String) (txLimit requestedHours : Int16)
  /-- ...and the handler gets an error although the row is there. -/
  | createLost (address : String) (txLimit requestedHours : Int16)
  /-- `claim_pending_job`, executed alone -/
  | claim (w : Nat)
  /-- ...that overlaps others and takes this job. -/
  | claimRaced (w jobId : Nat)
  /-- ...that takes this job, alone or not, and the worker gets an error. -/
  | claimLost (w jobId : Nat)
  /-- The call that a job run is about to make, with its answer. -/
  | call (w : Nat) (a : Answer)
  /-- ...whose statement is executed, and the run gets an error. -/
  | callLost (w : Nat) (chosen : List String)
  | crash (w : Nat)
  | restart (w : Nat)

/-- A statement is executed and its answer is lost. -/
def Act.isLost : Act → Bool
  | .createLost _ _ _ => true
  | .claimLost _ _ => true
  | .callLost _ _ => true
  | _ => false

/-- The worker after a call of the job run: back in the loop, its task gone, or before the next
call. -/
def Worker.after (job : ClaimedJob) : Pc → Worker
  | .returned => .idle
  | .panicked => .dead
  | pc => .running job pc

namespace Sys

/-- The state with worker `w` replaced. -/
def setWorker (s : Sys) (w : Nat) (x : Worker) : Sys :=
  { s with workers := fun v => if v = w then x else s.workers v }

@[simp] theorem setWorker_self (s : Sys) (w : Nat) (x : Worker) : (s.setWorker w x).workers w = x :=
  if_pos rfl

theorem setWorker_of_ne (s : Sys) {v w : Nat} (x : Worker) (h : v ≠ w) :
    (s.setWorker w x).workers v = s.workers v := if_neg h

/-- The worker starts on the job whose row is now `j'`. -/
def take (s : Sys) (w : Nat) (j' : ProcessingData) : Sys :=
  { s with db := s.db.setJob j' }.setWorker w (.after j'.claimed (Pc.start j'.claimed))

variable [External]

/-- **One step of the system.** -/
def step (api : HeliusApi) (s : Sys) : Act → Option Sys
  | .tick d => some { s with now := s.now + d }
  | .create address txLimit requestedHours =>
    some { s with db := (s.db.createProcessingJob address txLimit requestedHours s.now).2 }
  | .createLost address txLimit requestedHours =>
    some { s with db := (s.db.createProcessingJob address txLimit requestedHours s.now).2 }
  | .claim w =>
    match s.workers w with
    | .idle =>
      match s.db.claimPendingJob w s.now with
      | .ok (some job, db) =>
        some ({ s with db }.setWorker w (.after job (Pc.start job)))
      | _ => some s
    | _ => none
  | .claimRaced w jobId =>
    match s.workers w, s.db.processingData.find? jobId with
    | .idle, some j =>
      if j.status = .pending then (claimSet w s.now j).map (s.take w) else none
    | _, _ => none
  | .claimLost w jobId =>
    match s.workers w, s.db.processingData.find? jobId with
    | .idle, some j =>
      if j.status = .pending then
        (claimSet w s.now j).map fun j' => { s with db := s.db.setJob j' }
      else none
    | _, _ => none
  | .call w a =>
    match s.workers w with
    | .running job pc =>
      (OnChainEventIndexer.step api job s.now s.db pc a).map fun p =>
        { s with db := p.1 }.setWorker w (.after job p.2)
    | _ => none
  | .callLost w chosen =>
    match s.workers w with
    | .running job pc =>
      if pc.issuesStatement then
        (OnChainEventIndexer.step api job s.now s.db pc (.done chosen)).map fun p =>
          { s with db := p.1 }.setWorker w (.after job pc.afterDbError)
      else none
    | _ => none
  | .crash w =>
    match s.workers w with
    | .dead => none
    | _ => some (s.setWorker w .dead)
  | .restart w =>
    match s.workers w with
    | .dead => some (s.setWorker w .idle)
    | _ => none

/-- The steps as a relation. -/
def Step (api : HeliusApi) (s : Sys) (a : Act) (s' : Sys) : Prop := step api s a = some s'

/-- Everything a step can do. -/
inductive Next (api : HeliusApi) (s : Sys) : Act → Sys → Prop
  | ticked {d} : Next api s (.tick d) { s with now := s.now + d }
  | created {a address txLimit requestedHours}
      (ha : a = .create address txLimit requestedHours ∨
        a = .createLost address txLimit requestedHours) :
      Next api s a
        { s with db := (s.db.createProcessingJob address txLimit requestedHours s.now).2 }
  | foundNothing {w} (hw : s.workers w = .idle) : Next api s (.claim w) s
  | claimed {w a j j'} (ha : (a = .claim w ∧ s.db.nextJob = some j) ∨ a = .claimRaced w j.id)
      (hw : s.workers w = .idle)
      (hj : j ∈ s.db.processingData) (hp : j.status = .pending)
      (hset : claimSet w s.now j = some j') : Next api s a (s.take w j')
  | lostClaim {w j j'} (hw : s.workers w = .idle) (hj : j ∈ s.db.processingData)
      (hp : j.status = .pending) (hset : claimSet w s.now j = some j') :
      Next api s (.claimLost w j.id) { s with db := s.db.setJob j' }
  | called {w a job pc db' pc'} (hw : s.workers w = .running job pc)
      (hn : OnChainEventIndexer.Next api job s.now s.db pc a db' pc') :
      Next api s (.call w a) ({ s with db := db' }.setWorker w (.after job pc'))
  | lostCall {w chosen job pc db' pc'} (hw : s.workers w = .running job pc)
      (hi : pc.issuesStatement = true)
      (hn : OnChainEventIndexer.Next api job s.now s.db pc (.done chosen) db' pc') :
      Next api s (.callLost w chosen)
        ({ s with db := db' }.setWorker w (.after job pc.afterDbError))
  | crashed {w} (hw : s.workers w ≠ .dead) : Next api s (.crash w) (s.setWorker w .dead)
  | restarted {w} (hw : s.workers w = .dead) : Next api s (.restart w) (s.setWorker w .idle)

variable {api : HeliusApi} {s s' : Sys} {a : Act}

/-- **The inversion of a step.** -/
theorem step_next (h : Step api s a s') : Next api s a s' := by
  unfold Step at h
  cases a with
  | tick d => exact Option.some.inj h ▸ .ticked
  | create address txLimit requestedHours => exact Option.some.inj h ▸ .created (Or.inl rfl)
  | createLost address txLimit requestedHours => exact Option.some.inj h ▸ .created (Or.inr rfl)
  | claim w =>
    simp only [step] at h
    split at h
    · rename_i hw
      split at h
      · rename_i job db hc
        rcases Db.claimPendingJob_cases hc with ⟨hnone, -, -⟩ | ⟨j, j', hnext, hset, hjob, rfl⟩
        · exact absurd hnone (by simp)
        · obtain rfl := Option.some.inj hjob
          obtain ⟨hj, hcl⟩ := Db.nextJob_eq_some hnext
          exact Option.some.inj h ▸
            .claimed (Or.inl ⟨rfl, hnext⟩) hw hj (Db.claimable_eq_true.mp hcl).1 hset
      · exact Option.some.inj h ▸ .foundNothing hw
    · exact absurd h (by simp)
  | claimRaced w jobId =>
    simp only [step] at h
    split at h
    · rename_i j hw hj
      obtain ⟨hj, hid⟩ := Table.find?_eq_some.mp hj
      split at h
      · rename_i hp
        obtain ⟨j', hset, rfl⟩ := Option.map_eq_some_iff.mp h
        exact .claimed (Or.inr (by rw [hid])) hw hj hp hset
      · exact absurd h (by simp)
    · exact absurd h (by simp)
  | claimLost w jobId =>
    simp only [step] at h
    split at h
    · rename_i j hw hfind
      obtain ⟨hj, rfl⟩ := Table.find?_eq_some.mp hfind
      split at h
      · rename_i hp
        obtain ⟨j', hset, rfl⟩ := Option.map_eq_some_iff.mp h
        exact .lostClaim hw hj hp hset
      · exact absurd h (by simp)
    · exact absurd h (by simp)
  | call w a =>
    simp only [step] at h
    split at h
    · rename_i job pc hw
      obtain ⟨p, hp, rfl⟩ := Option.map_eq_some_iff.mp h
      exact .called hw (OnChainEventIndexer.step_next hp)
    · exact absurd h (by simp)
  | callLost w chosen =>
    simp only [step] at h
    split at h
    · rename_i job pc hw
      split at h
      · rename_i hi
        obtain ⟨p, hp, rfl⟩ := Option.map_eq_some_iff.mp h
        exact .lostCall hw hi (OnChainEventIndexer.step_next hp)
      · exact absurd h (by simp)
    · exact absurd h (by simp)
  | crash w =>
    simp only [step] at h
    split at h
    · exact absurd h (by simp)
    · rename_i hw
      exact Option.some.inj h ▸ .crashed hw
  | restart w =>
    simp only [step] at h
    split at h
    · rename_i hw
      exact Option.some.inj h ▸ .restarted hw
    · exact absurd h (by simp)

/-- **Rows stay.** -/
theorem Next.le (h : Next api s a s') : s.db.Le s'.db := by
  cases h with
  | ticked => exact .refl _
  | created ha => exact Db.le_createProcessingJob _ _ _ _ _
  | foundNothing hw => exact .refl _
  | claimed ha hw hj hp hset => exact Db.le_setJob hj (Db.claimSet_sameJob hset)
  | lostClaim hw hj hp hset => exact Db.le_setJob hj (Db.claimSet_sameJob hset)
  | called hw hn => exact hn.le
  | lostCall hw hi hn => exact hn.le
  | crashed hw => exact .refl _
  | restarted hw => exact .refl _

end Sys

end OnChainEventIndexer
