import OnChainEventIndexer.Indexer.Machine
import OnChainEventIndexer.Lib.Run
import OnChainEventIndexer.Lib.Paging

/-!
# Runs of one job among others

`LocalStep api job rely` is the run of one job as its worker sees it: before each of its steps the
database may change, within `rely`, by what the others do, and time may pass. Its labels are the
time of a step and the answer its call gets; `pages`, `batches` and `dbFailures` read off a trace
what was asked of the RPC and which database calls failed.

`SameAddress` is the strongest reliance used: nobody else touches the rows of the address.
-/

namespace OnChainEventIndexer

open Keyed Lts

/-- A run between two of its calls. -/
structure Local where
  db : Db
  now : Int
  pc : Pc

/-- The time of a step and the answer to the call. -/
abbrev Event := Int × Answer

/-- One step of the run, after the others have moved. -/
def LocalStep [External] (api : HeliusApi) (job : ClaimedJob) (rely : Db → Db → Prop) (s : Local)
    (e : Event) (s' : Local) : Prop :=
  ∃ db, rely s.db db ∧ s.now ≤ e.1 ∧ s'.now = e.1 ∧ step api job e.1 db s.pc e.2 = some (s'.db, s'.pc)

/-- A step with nobody else around, as a function. -/
def localStep [External] (api : HeliusApi) (job : ClaimedJob) (s : Local) (e : Event) :
    Option Local :=
  if s.now ≤ e.1 then (step api job e.1 s.db s.pc e.2).map fun p => ⟨p.1, e.1, p.2⟩ else none

theorem localStep_of_eq [External] {api : HeliusApi} {job : ClaimedJob} {rely : Db → Db → Prop}
    (hrely : ∀ db, rely db db) (s : Local) (e : Event) (s' : Local)
    (h : localStep api job s e = some s') : LocalStep api job rely s e s' := by
  unfold localStep at h
  split at h
  · rename_i hnow
    obtain ⟨p, hp, rfl⟩ := Option.map_eq_some_iff.mp h
    exact ⟨s.db, hrely s.db, hnow, rfl, hp⟩
  · exact absurd h (by simp)

/-- The trace of a run. -/
abbrev Trace := List (Local × Event)

/-! ## What a trace records -/

/-- The request for a page of signatures made in a step: cursor, answers and the wall clock. -/
def page? : Local × Event → Option (Option String × Replies × Int)
  | (⟨_, _, .fetchPage cur _⟩, (_, .signatures reply nowTs)) => some (cur, reply, nowTs)
  | _ => none

/-- The batch of transactions asked for in a step: the signatures and the answers. -/
def batch? : Local × Event → Option (List String × (Nat → Replies))
  | (⟨_, _, .getTransaction signatures⟩, (_, .transactions reply)) => some (signatures, reply)
  | _ => none

/-- The call of a step whose statement failed. -/
def dbFailure? : Local × Event → Option Pc
  | (⟨_, _, pc⟩, (_, .dbError)) => some pc
  | _ => none

/-- The pages that a run fetches, with their answers. -/
def pages (tr : Trace) := tr.filterMap page?

/-- The batches that it fetches. -/
def batches (tr : Trace) := tr.filterMap batch?

/-- The calls whose statement fails. -/
def dbFailures (tr : Trace) := tr.filterMap dbFailure?

theorem dbFailure?_eq_some {db : Db} {n now : Int} {pc p : Pc} {a : Answer}
    (h : dbFailure? (⟨db, n, pc⟩, (now, a)) = some p) : a = .dbError ∧ p = pc := by
  cases a with
  | dbError => exact ⟨rfl, (Option.some.inj h).symm⟩
  | _ => exact absurd h (by simp [dbFailure?])

theorem filterMap_snoc {α β : Type} (f : α → Option β) (l : List α) (x : α) :
    (l ++ [x]).filterMap f = l.filterMap f ++ (f x).toList := by
  rw [List.filterMap_append]
  cases h : f x <;> simp [h]

theorem pages_snoc (tr : Trace) (x : Local × Event) :
    pages (tr ++ [x]) = pages tr ++ (page? x).toList := filterMap_snoc page? tr x

theorem batches_snoc (tr : Trace) (x : Local × Event) :
    batches (tr ++ [x]) = batches tr ++ (batch? x).toList := filterMap_snoc batch? tr x

theorem dbFailures_snoc (tr : Trace) (x : Local × Event) :
    dbFailures (tr ++ [x]) = dbFailures tr ++ (dbFailure? x).toList := filterMap_snoc dbFailure? tr x

theorem pages_snoc_of_none {tr : Trace} {x : Local × Event} (h : page? x = none) :
    pages (tr ++ [x]) = pages tr := by
  rw [pages_snoc, h, Option.toList_none, List.append_nil]

theorem batches_snoc_of_none {tr : Trace} {x : Local × Event} (h : batch? x = none) :
    batches (tr ++ [x]) = batches tr := by
  rw [batches_snoc, h, Option.toList_none, List.append_nil]

/-! ## The history behind the pages -/

/-- A list the RPC can have for an address: each signature once, newest first. -/
structure History (history : List Signature) : Prop where
  nodup : (history.map (·.signature)).Nodup
  newestFirst : history.Pairwise fun e e' => ∀ ts ∈ e.blockTime, ∀ ts' ∈ e'.blockTime, ts' ≤ ts

/-- The entries behind a cursor. -/
abbrev behind (history : List Signature) (cur : Option String) : List Signature :=
  Paging.after (·.signature) history cur

theorem History.newestFirst_behind {history : List Signature} (h : History history)
    (cur : Option String) : (behind history cur).Pairwise fun e e' =>
      ∀ ts ∈ e.blockTime, ∀ ts' ∈ e'.blockTime, ts' ≤ ts :=
  h.newestFirst.sublist Paging.after_suffix.sublist

/-- Each page that arrives holds the next entries behind its cursor, and is shorter than 1000 only
at the end of the history. -/
def HonestPages [External] (history : List Signature) (tr : Trace) : Prop :=
  ∀ p ∈ pages tr, ∀ k result, signaturesOf (p.2.1 k) = some result →
    Paging.Page 1000 (behind history p.1) result

/-! ## The rows of an address -/

/-- The same signatures, transactions and transfers of the address. -/
structure Db.SameRows (address : String) (db db' : Db) : Prop where
  sigs : ∀ r, r.ownerAddress = address → (r ∈ db.signatures ↔ r ∈ db'.signatures)
  txs : ∀ r, r.ownerAddress = address → (r ∈ db.transactions ↔ r ∈ db'.transactions)
  transfers : ∀ r, r.trackedOwner = address → (r ∈ db.tokenTransfers ↔ r ∈ db'.tokenTransfers)

/-- The same rows of the address in all tables. -/
structure Db.SameAddress (address : String) (db db' : Db) : Prop
    extends Db.SameRows address db db' where
  jobs : ∀ j, j.address = address → (j ∈ db.processingData ↔ j ∈ db'.processingData)

/-- The same row of the job. -/
def Db.SameJobRow (jobId : Nat) (db db' : Db) : Prop :=
  ∀ j, j.id = jobId → (j ∈ db.processingData ↔ j ∈ db'.processingData)

theorem Db.SameJobRow.refl (jobId : Nat) (db : Db) : Db.SameJobRow jobId db db := fun _ _ => Iff.rfl

theorem Db.SameRows.of_eq {address : String} {db db' : Db} (hs : db'.signatures = db.signatures)
    (ht : db'.transactions = db.transactions) (hr : db'.tokenTransfers = db.tokenTransfers) :
    Db.SameRows address db db' :=
  ⟨fun r _ => by rw [hs], fun r _ => by rw [ht], fun r _ => by rw [hr]⟩

theorem Db.SameAddress.refl (address : String) (db : Db) : Db.SameAddress address db db :=
  ⟨.of_eq rfl rfl rfl, fun _ _ => Iff.rfl⟩

/-- The ready guard reads the signatures of the job's address only. -/
theorem Db.unprocessedInWindow_congr {db db' : Db} {j j' : ProcessingData} (hj : j.SameJob j')
    (h : ∀ r, r.ownerAddress = j.address → (r ∈ db.signatures ↔ r ∈ db'.signatures)) :
    db'.unprocessedInWindow j' = db.unprocessedInWindow j := by
  rw [Bool.eq_iff_iff, ← Bool.not_eq_false, ← Bool.not_eq_false, not_iff_not,
    Db.unprocessedInWindow_eq_false, Db.unprocessedInWindow_eq_false]
  constructor
  · intro hp r hr ha hw
    exact hp r ((h r ha).mp hr) (ha.trans hj.2.1.symm) ((hj.inWindow _).mpr hw)
  · intro hp r hr ha hw
    have ha' : r.ownerAddress = j.address := ha.trans hj.2.1
    exact hp r ((h r ha').mpr hr) ha' ((hj.inWindow _).mp hw)

/-! ## A sample job

The job the sample runs are about: for one hour of `"A"`, created at second 10000. -/

/-- No retries; warnings are written. -/
def sampleApi : HeliusApi := ⟨0, true⟩

/-- A job of one hour and ten transactions. -/
def sampleJob : ClaimedJob := ⟨1, "A", 1, 10⟩

/-- The job alone, claimed by worker 1 at second `t`. -/
def sampleDb (t : Int) : Db :=
  (Db.empty.createProcessingJob "A" 10 1 10000000000).2.setJob
    ⟨1, "A", .indexing, 10000000000, t * 1000000, some 1, 10, 1⟩

/-- The run of the job starts at second `t`. -/
def sampleStart (t : Int) : Local := ⟨sampleDb t, t * 1000000, Pc.start sampleJob⟩

/-- The only page of a run, read off its labels. -/
theorem pages_of_labels {tr : Trace} {cur : Option String} {reply : Replies} {nowTs : Int}
    (hcur : (pages tr).map Prod.fst = [cur])
    (hlab : ∀ now r n, (now, Answer.signatures r n) ∈ tr.map Prod.snd → r = reply ∧ n = nowTs) :
    pages tr = [(cur, reply, nowTs)] := by
  obtain ⟨⟨cur', r, n⟩, hp, rfl⟩ := List.map_eq_singleton_iff.mp hcur
  have hmem : (cur', r, n) ∈ pages tr := by rw [hp]; exact List.mem_singleton_self _
  obtain ⟨⟨⟨db, n0, pc⟩, now, a⟩, hx, hpage⟩ := List.mem_filterMap.mp hmem
  have ha : a = .signatures r n := by
    unfold page? at hpage
    split at hpage
    · rename_i he
      obtain ⟨-, he⟩ := Prod.mk.inj he
      obtain ⟨-, rfl⟩ := Prod.mk.inj he
      obtain ⟨-, hr⟩ := Prod.mk.inj (Option.some.inj hpage)
      obtain ⟨rfl, rfl⟩ := Prod.mk.inj hr
      rfl
    · exact absurd hpage (by simp)
  obtain ⟨rfl, rfl⟩ := hlab now r n (List.mem_map.mpr ⟨_, hx, by rw [ha]⟩)
  exact hp

/-- A history that fits on one page is served honestly. -/
theorem honestPages_of_single {history : List Signature} {signatures : List String} {nowTs : Int}
    {tr : Trace} (h : pages tr = [(none, servePage history, nowTs)]) :
    letI : External := smallNetwork [history] signatures
    HonestPages history tr := by
  let : External := smallNetwork [history] signatures
  intro p hp k result hres
  rw [h] at hp
  obtain rfl := List.mem_singleton.mp hp
  obtain rfl := Option.some.inj ((signaturesOf_servePage history signatures k).symm.trans hres)
  exact ⟨List.prefix_refl _, fun _ => rfl⟩

theorem sampleDb_job (t : Int) :
    ∃ j ∈ (sampleDb t).processingData, j.claimed = sampleJob ∧ j.status = .indexing :=
  ⟨_, Db.mem_setJob.mpr (Or.inr ⟨rfl, List.mem_singleton_self 1⟩), rfl, rfl⟩

end OnChainEventIndexer
