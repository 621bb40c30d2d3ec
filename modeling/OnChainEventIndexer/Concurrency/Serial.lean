import OnChainEventIndexer.Concurrency.Leases
import OnChainEventIndexer.Lib.CommitOrder

/-!
# The statements on signatures, one after the other

Statements that overlap (`Concurrency/Leases.lean`) against statements executed alone
(`Db/Signatures.lean`), which is what the steps of `System/Machine.lean` are.

* **`commits_alone`**: statements that overlap do and return what the same statements do and return
  one after the other, in the order of their commits. Only a claim may take fewer signatures than it
  could, as one with a smaller limit would.
* **`commits_alone_exact`**: where no two statements for one address overlap, it takes as many as it
  can.
-/

namespace OnChainEventIndexer.Leases

open Keyed ReadCommitted Lts

/-- A statement that has been executed, with what it returned. -/
inductive Executed
  | claimed (address : String) (limit : Nat) (now : Int) (chosen : List String)
  | marked (address : String) (signatures : List String) (count : Nat)
  | written (signatures : RpcResponse) (address : String) (count : Nat)
deriving DecidableEq

/-- A statement executed alone. A claim may stop before its limit. -/
inductive Alone (db : Db) : Executed → Db → Prop
  | claimed {address limit now chosen n} (hn : n ≤ limit) (hc : db.IsClaim address n now chosen) :
      Alone db (.claimed address limit now chosen) (db.getUnprocessedSignatures address now chosen).2
  | marked {address signatures} :
      Alone db (.marked address signatures (db.markSignaturesProcessed address signatures).1)
        (db.markSignaturesProcessed address signatures).2
  | written {signatures address} :
      Alone db (.written signatures address (db.writeSignatures signatures address).1)
        (db.writeSignatures signatures address).2

/-- A claim takes as many signatures as it may. -/
def TakesAll (db : Db) : Executed → Prop
  | .claimed address limit now chosen => db.IsClaim address limit now chosen
  | _ => True

/-- What a step executes: a statement is executed when it commits. -/
def executed : Sigs × Act → Option Executed
  | (s, .commit t) => (s.opened.find? t).map fun o =>
    match o.op with
    | .claim address limit now => .claimed address limit now (o.held.map Prod.snd)
    | .mark address signatures => .marked address signatures o.held.length
  | (s, .write signatures address) =>
    some (.written signatures address
      (s.rows.inserted (signatures.result.map (Db.signatureRow address))))
  | _ => none

/-- The database with these signatures. -/
def onRows (db : Db) (s : Sigs) : Db := { db with signatures := s.rows }

/-- The address that the statement is about. -/
def Stmt.address : Stmt → String
  | .claim address _ _ => address
  | .mark address _ => address

/-- The statement is `mark_signatures_processed`. -/
def Stmt.IsMark : Stmt → Prop
  | .claim _ _ _ => False
  | .mark _ _ => True

/-- A mark names rows that are there: those a claim has returned, and no row is ever deleted. -/
def MarksThere (s : Sigs) : Act → Prop
  | .begin _ (.mark address signatures) _ => ∀ x ∈ signatures, (address, x) ∈ s.rows.keys
  | _ => True

/-- No two statements for one address overlap. -/
def OnePerAddress (s : Sigs) : Act → Prop
  | .begin _ o _ => ∀ x ∈ s.opened, x.op.address ≠ o.address
  | .write _ address => ∀ x ∈ s.opened, x.op.address ≠ address
  | _ => True

instance (s : Sigs) (a : Act) : Decidable (MarksThere s a) := by
  unfold MarksThere
  split <;> infer_instance

instance (s : Sigs) (a : Act) : Decidable (OnePerAddress s a) := by
  unfold OnePerAddress
  split <;> infer_instance

/-- A step of a locking statement. -/
def Act.label : Act → Option (Label Stmt SignatureRow (String × String))
  | .begin t o todo => some (.begin t o todo)
  | .visit t => some (.visit t)
  | .commit t => some (.commit t)
  | .abort t => some (.abort t)
  | .write _ _ => none

variable {s s' : Sigs} {a : Act} {o : Open Stmt (String × String)} {db : Db}

theorem label_step {b : Label Stmt SignatureRow (String × String)} (hb : a.label = some b)
    (h : Step s a s') : ReadCommitted.step sem s b = some s' := by
  cases a with
  | write signatures address => exact absurd hb (by simp [Act.label])
  | _ => obtain rfl := Option.some.inj hb; exact h

/-! ## What the statements see -/

theorem cond_address {op : Stmt} {r : SignatureRow} (h : sem.cond op r = true) :
    r.ownerAddress = op.address := by
  cases op with
  | claim address limit now => exact (SignatureRow.claimable_eq_true.mp h).1
  | mark address signatures =>
    simp only [sem, Bool.and_eq_true] at h
    exact (Db.ownedIn_eq_true.mp h.1).1

/-- **No commit brings a row into the clause of another statement.** -/
theorem cond_of_set {op op' : Stmt} {r r' : SignatureRow} (hc : sem.cond op r = true)
    (hset : sem.set op r = some r') (hc' : sem.cond op' r' = true) : sem.cond op' r = true := by
  cases op with
  | claim address limit now =>
    obtain rfl := Option.some.inj hset
    cases op' with
    | mark address' signatures => exact hc'
    | claim address' limit' now' =>
      obtain ⟨ha, hp, hs⟩ := SignatureRow.claimable_eq_true.mp hc'
      refine SignatureRow.claimable_eq_true.mpr ⟨ha, hp, ?_⟩
      -- the lease it takes has expired by `now'`, all the more the one before
      have hlt : now < now' - fiveMinutes := by
        rcases hs with hi | hs
        · exact absurd hi (by simp [SignatureRow.claim])
        · exact hs now rfl
      have hpos : (0 : Int) ≤ fiveMinutes := by decide
      obtain ⟨-, -, hi | hs⟩ := SignatureRow.claimable_eq_true.mp hc
      · exact Or.inl hi
      · exact Or.inr fun started hst => by
          have := hs started hst
          omega
  | mark address signatures =>
    obtain rfl := Option.some.inj hset
    cases op' with
    | mark address' signatures' => exact absurd hc' (by simp [sem, SignatureRow.mark])
    | claim address' limit' now' =>
      exact absurd (SignatureRow.claimable_eq_true.mp hc').2.1 (by simp [SignatureRow.mark])

/-- What is known of the open statements, and of those of a kind that they see every row. -/
structure Serial (P : Stmt → Prop) (s : Sigs) : Prop where
  locks : Locks sem s
  fresh : ∀ o ∈ s.opened, Fresh o
  limits : ∀ o ∈ s.opened, ∀ n, sem.limit o.op = some n → o.held.length ≤ n
  sees : ∀ o ∈ s.opened, P o.op → Sees sem s.rows o

variable {P : Stmt → Prop}

theorem serial_init (rows : Table SignatureRow.key) : Serial P (init rows) :=
  ⟨locks_init rows, fun o ho => absurd ho (Table.not_mem_empty o),
    fun o ho => absurd ho (Table.not_mem_empty o), fun o ho => absurd ho (Table.not_mem_empty o)⟩

/-- **One step.** What could be overlooked are rows that are passed over, and new ones. -/
theorem serial_step (hi : Serial P s) (h : Step s a s')
    (hskip : ∀ o ∈ s.opened, P o.op → sem.skipLocked o.op = true →
      ∀ k, o.todo.head? = some k → lockedByOther s o.tid k = false)
    (hnew : ∀ signatures address, a = .write signatures address → ∀ o ∈ s.opened, P o.op →
      ∀ e ∈ signatures.result, (address, e.signature) ∉ s.rows.keys →
        sem.cond o.op (Db.signatureRow address e) = false) : Serial P s' := by
  cases hb : a.label with
  | some b =>
    have hstep := label_step hb h
    refine ⟨locks_step hi.locks hstep, fresh_step hi.fresh hstep, held_le_limit hi.limits hstep,
      sees_step hi.locks hi.sees hstep fun o ho hp hover => ?_⟩
    cases b with
    | insert r => cases a <;> exact absurd hb (by simp [Act.label])
    | begin t op todo => exact hover
    | visit t =>
      obtain ⟨rfl, hs, k, hk, hlock⟩ := hover
      rw [hskip o ho hp hs k hk] at hlock
      exact absurd hlock (by simp)
    | commit t =>
      obtain ⟨x, -, -, -, r, -, r', hc, hset, hfalse, htrue⟩ := hover
      rw [cond_of_set hc hset htrue] at hfalse
      exact absurd hfalse (by simp)
    | abort t => exact hover
  | none =>
    cases a with
    | write signatures address =>
      obtain rfl := Option.some.inj h
      refine ⟨locks_written hi.locks signatures address, hi.fresh, hi.limits, fun o ho hp =>
        (hi.sees o ho hp).of_rows fun r hr hc => ?_⟩
      rcases Table.of_mem_insertAll hr with hr | ⟨hr, hk⟩
      · exact hr
      · obtain ⟨e, he, rfl⟩ := List.mem_map.mp hr
        rw [hnew signatures address rfl o ho hp e he hk] at hc
        exact absurd hc (by simp)
    | _ => exact absurd hb (by simp [Act.label])

/-! ## What a commit does -/

/-- The early return of `mark_signatures_processed` makes no difference. -/
theorem markSignaturesProcessed_eq (db : Db) (address : String) (signatures : List String) :
    db.markSignaturesProcessed address signatures =
      (db.signatures.affected (sem.cond (.mark address signatures)),
        { db with
          signatures := db.signatures.update (sem.cond (.mark address signatures)) SignatureRow.mark
            SignatureRow.mark_key }) := by
  unfold Db.markSignaturesProcessed
  split
  · rename_i he
    have hno : ∀ r, sem.cond (.mark address signatures) r = false := by
      intro r
      simp [sem, Db.ownedIn, List.isEmpty_iff.mp he]
    have hsame : db.signatures.update (sem.cond (.mark address signatures)) SignatureRow.mark
        SignatureRow.mark_key = db.signatures := by
      refine Table.eq_of_rows (List.map_id'' (fun r => ?_) _)
      rw [hno, if_neg (by simp)]
    rw [hsame, Table.affected_eq_zero.mpr fun r _ => hno r]
  · rfl

/-- A mark. -/
theorem commit_mark (db : Db) (hi : Serial P s) (ho : o ∈ s.opened) (hp : P o.op)
    (hdone : o.todo = [])
    {address : String} {signatures : List String} (hop : o.op = .mark address signatures) :
    (onRows db s).markSignaturesProcessed address signatures =
      (o.held.length, { db with signatures := setRows sem o.op o.held s.rows }) := by
  have hsees := hi.sees o ho hp
  have hcount := length_held hi.locks ho (hi.fresh o ho) hsees hdone
  have hrows := setRows_eq hi.locks ho hsees hdone SignatureRow.mark_key fun r => by
    rw [hop]
    rfl
  rw [markSignaturesProcessed_eq, hcount, hrows, hop]
  rfl

/-- The keys a claim holds are those of its signatures. -/
theorem held_claim (hl : Locks sem s) (ho : o ∈ s.opened) {address : String} {limit : Nat} {now : Int}
    (hop : o.op = .claim address limit now) {r : SignatureRow} :
    r.key ∈ o.held ↔ Db.ownedIn address (o.held.map Prod.snd) r = true := by
  have haddress : ∀ k ∈ o.held, k.1 = address := fun k hk => by
    obtain ⟨x, -, rfl, hc⟩ := hl.cond o ho k hk
    rw [hop] at hc
    exact cond_address hc
  rw [Db.ownedIn_eq_true]
  constructor
  · intro hk
    exact ⟨haddress _ hk, List.mem_map.mpr ⟨r.key, hk, rfl⟩⟩
  · rintro ⟨ha, hs⟩
    obtain ⟨k, hk, he⟩ := List.mem_map.mp hs
    have hkey : r.key = k := Prod.ext (ha.trans (haddress k hk).symm) he.symm
    rw [hkey]
    exact hk

/-- **A claim** returns claimable signatures, and these are the ones it claims. -/
theorem commit_claim (db : Db) (hi : Serial P s) (ho : o ∈ s.opened) {address : String}
    {limit : Nat} {now : Int} (hop : o.op = .claim address limit now) :
    ((o.held.map Prod.snd).Nodup ∧
      (∀ x ∈ o.held.map Prod.snd, x ∈ (onRows db s).claimableSignatures address now) ∧
      o.held.length ≤ limit) ∧
    ((onRows db s).getUnprocessedSignatures address now (o.held.map Prod.snd)).2 =
      { db with signatures := setRows sem o.op o.held s.rows } := by
  have hrow : ∀ k ∈ o.held, ∃ r ∈ s.rows, r.key = k ∧ r.claimable address now = true := fun k hk => by
    obtain ⟨r, hr, hk, hc⟩ := hi.locks.cond o ho k hk
    rw [hop] at hc
    exact ⟨r, hr, hk, hc⟩
  refine ⟨⟨?_, fun x hx => ?_, ?_⟩, ?_⟩
  · refine (List.nodup_map_iff_inj_on (List.nodup_append.mp (hi.fresh o ho)).2.1).mpr ?_
    intro k hk k' hk' he
    obtain ⟨r, -, rfl, hc⟩ := hrow k hk
    obtain ⟨r', -, rfl, hc'⟩ := hrow k' hk'
    refine Prod.ext ?_ he
    exact (SignatureRow.claimable_eq_true.mp hc).1.trans
      (SignatureRow.claimable_eq_true.mp hc').1.symm
  · obtain ⟨k, hk, rfl⟩ := List.mem_map.mp hx
    obtain ⟨r, hr, rfl, hc⟩ := hrow k hk
    exact Db.mem_claimableSignatures.mpr ⟨r, hr, hc, rfl⟩
  · exact hi.limits o ho limit (by rw [hop]; rfl)
  · have hrows : setRows sem o.op o.held s.rows =
        s.rows.update (Db.ownedIn address (o.held.map Prod.snd)) (SignatureRow.claim now)
          (SignatureRow.claim_key now) :=
      setRows_eq_update _ (fun r _ => held_claim hi.locks ho hop) fun r => by
        rw [hop]
        rfl
    rw [hrows]
    rfl

/-- Signatures that a claim with some smaller limit may return. -/
theorem isClaim_of_claimable {address : String} {now : Int} {chosen : List String}
    (hnd : chosen.Nodup) (hc : ∀ x ∈ chosen, x ∈ db.claimableSignatures address now) :
    db.IsClaim address chosen.length now chosen :=
  ⟨hnd, hc, (Nat.min_eq_left (List.subperm_of_subset hnd hc).length_le).symm⟩

/-- A claim that has overlooked nothing takes as many signatures as it may. -/
theorem commit_claim_all (db : Db) (hi : Serial P s) (ho : o ∈ s.opened) (hp : P o.op)
    (hmay : MayCommit sem s o) {address : String} {limit : Nat} {now : Int}
    (hop : o.op = .claim address limit now) :
    (onRows db s).IsClaim address limit now (o.held.map Prod.snd) := by
  obtain ⟨⟨hnd, hc, hlimit⟩, -⟩ := commit_claim db hi ho hop
  have hle : o.held.length ≤ ((onRows db s).claimableSignatures address now).length := by
    have := (List.subperm_of_subset hnd hc).length_le
    rwa [List.length_map] at this
  refine ⟨hnd, hc, ?_⟩
  rw [List.length_map]
  rcases hmay.1 with hdone | hfull
  · have hcount := length_held hi.locks ho (hi.fresh o ho) (hi.sees o ho hp) hdone
    have hall : ((onRows db s).claimableSignatures address now).length = o.held.length := by
      rw [hcount, hop]
      unfold Db.claimableSignatures Table.affected
      rw [List.length_map, List.countP_eq_length_filter]
      rfl
    omega
  · have : limit ≤ o.held.length := by
      unfold full at hfull
      rw [hop] at hfull
      simpa [sem] using hfull
    omega

/-- **What a step does** is what the statement that it executes does alone. -/
theorem alone_step (hi : Serial P s) (hmark : ∀ o ∈ s.opened, o.op.IsMark → P o.op)
    (h : Step s a s') :
    (onRows db s' = onRows db s ∧ executed (s, a) = none) ∨
      ∃ e, Alone (onRows db s) e (onRows db s') ∧ executed (s, a) = some e ∧
        ((∀ o ∈ s.opened, P o.op) → TakesAll (onRows db s) e) := by
  cases a with
  | begin t op todo =>
    obtain ⟨-, -, rfl⟩ := begin_inv (label_step rfl h)
    exact Or.inl ⟨rfl, rfl⟩
  | visit t =>
    obtain ⟨o, k, rest, -, -, -, -, rfl | ⟨r, -, -, -, -, rfl⟩⟩ := visit_inv (label_step rfl h) <;>
      exact Or.inl ⟨rfl, rfl⟩
  | abort t =>
    obtain rfl := abort_inv (label_step rfl h)
    exact Or.inl ⟨rfl, rfl⟩
  | write signatures address =>
    obtain rfl := Option.some.inj h
    refine Or.inr ⟨.written signatures address _, ?_, rfl, fun _ => trivial⟩
    have heq := Db.writeSignatures_eq (onRows db s) signatures address
    have hcount := congrArg Prod.fst heq
    have hdb := congrArg Prod.snd heq
    simp only at hcount hdb
    have halone : Alone (onRows db s) (.written signatures address _) _ := .written
    rw [hcount, hdb] at halone
    exact halone
  | commit t =>
    obtain ⟨o, ho, rfl, hmay, rfl⟩ := commit_inv (label_step rfl h)
    have hfind : s.opened.find? o.tid = some o := Table.find?_of_mem ho
    refine Or.inr ?_
    simp only [executed, hfind, Option.map_some, Option.some.injEq]
    cases hop : o.op with
    | claim address limit now =>
      obtain ⟨⟨hnd, hc, hlimit⟩, hdb⟩ := commit_claim db hi ho hop
      have halone : Alone (onRows db s) (.claimed address limit now (o.held.map Prod.snd)) _ :=
        .claimed (by rw [List.length_map]; exact hlimit) (isClaim_of_claimable hnd hc)
      rw [hdb, hop] at halone
      exact ⟨_, halone, rfl, fun hall => commit_claim_all db hi ho (hall o ho) hmay hop⟩
    | mark address signatures =>
      have hdone : o.todo = [] := hmay.1.resolve_right (by rw [full, hop]; simp [sem])
      have hdb := commit_mark db hi ho (hmark o ho (by rw [hop]; trivial)) hdone hop
      have halone : Alone (onRows db s) (.marked address signatures _) _ := .marked
      rw [hdb, hop] at halone
      exact ⟨_, halone, rfl, fun _ => trivial⟩

/-! ## Runs -/

/-- The statements that are open after a step were open before, or begin with it. -/
theorem opened_step (h : Step s a s') : ∀ o' ∈ s'.opened,
    (a = .begin o'.tid o'.op o'.todo ∧ Scan sem s o'.op o'.todo) ∨
      ∃ o ∈ s.opened, o.tid = o'.tid ∧ o.op = o'.op ∧ ∀ k ∈ o'.todo, k ∈ o.todo := by
  intro o' ho'
  cases hb : a.label with
  | some b =>
    rcases opened_next (label_step hb h) o' ho' with ⟨rfl, hscan⟩ | hbefore
    · refine Or.inl ⟨?_, hscan⟩
      cases a with
      | begin t op todo =>
        obtain ⟨rfl, rfl, rfl⟩ := Label.begin.inj (Option.some.inj hb)
        rfl
      | _ => exact absurd hb (by simp [Act.label])
    · exact Or.inr hbefore
  | none =>
    cases a with
    | write signatures address =>
      obtain rfl := Option.some.inj h
      exact Or.inr ⟨o', ho', rfl, rfl, fun _ hk => hk⟩
    | _ => exact absurd hb (by simp [Act.label])

/-- An open mark names rows that are there. -/
def NamesThere (s : Sigs) : Prop :=
  ∀ o ∈ s.opened, ∀ address signatures, o.op = .mark address signatures →
    ∀ x ∈ signatures, (address, x) ∈ s.rows.keys

theorem namesThere_step (hl : Locks sem s) (hn : NamesThere s) (h : Guarded Step MarksThere s a s') :
    NamesThere s' := by
  have hkeys : ∀ k ∈ s.rows.keys, k ∈ s'.rows.keys := fun k hk => by
    obtain ⟨r, hr, rfl⟩ := Table.mem_keys.mp hk
    obtain ⟨r', hr', hs⟩ := (step_rows hl h.1).2 r hr
    exact Table.mem_keys.mpr ⟨r', hr', hs.key_eq⟩
  intro o' ho' address signatures hop x hx
  refine hkeys _ ?_
  rcases opened_step h.1 o' ho' with ⟨rfl, -⟩ | ⟨o, ho, -, he, -⟩
  · have hthere := h.2
    rw [hop] at hthere
    exact hthere x hx
  · exact hn o ho address signatures (he.trans hop) x hx

/-- **Statements that overlap** do and return what they would do and return one after the other, in
the order of their commits, a claim with its limit or a smaller one. -/
theorem commits_alone (db : Db) {tr : List (Sigs × Act)}
    (h : Run (Guarded Step MarksThere) (init db.signatures) tr s) :
    ∃ l, Run Alone db l (onRows db s) ∧ l.map Prod.snd = tr.filterMap executed := by
  have hkeep : ∀ t a u, Serial Stmt.IsMark t ∧ NamesThere t → Guarded Step MarksThere t a u →
      Serial Stmt.IsMark u ∧ NamesThere u := by
    rintro t a u ⟨hi, hn⟩ hstep
    refine ⟨serial_step hi hstep.1 (fun o ho hm hskip => ?_)
      (fun signatures address _ o ho hm e he hk => ?_),
      namesThere_step hi.locks hn hstep⟩
    · -- a mark waits for the rows that others have locked
      cases hop : o.op with
      | claim address limit now => rw [hop] at hm; exact hm.elim
      | mark address signatures => rw [hop] at hskip; exact absurd hskip (by simp [sem])
    · -- a new row is none of those it names
      cases hop : o.op with
      | claim address limit now => rw [hop] at hm; exact hm.elim
      | mark owner names =>
        refine Bool.eq_false_iff.mpr fun hc => hk ?_
        simp only [sem, Bool.and_eq_true] at hc
        obtain ⟨ha, hs⟩ := Db.ownedIn_eq_true.mp hc.1
        have hthere := hn o ho owner names hop e.signature hs
        rw [← ha] at hthere
        exact hthere
  obtain ⟨l, hl, hobs⟩ := h.simulates (onRows db) executed some hkeep
    (fun t a u hI hstep => (alone_step hI.1 (fun _ _ hm => hm) hstep.1).imp id
      fun ⟨e, he, hex, _⟩ => ⟨e, he, hex.symm⟩)
    ⟨serial_init _, fun o ho => absurd ho (Table.not_mem_empty o)⟩
  exact ⟨l, hl, by rw [← hobs, ← List.filterMap_eq_map]; rfl⟩

/-- Two claims for one address overlap: each passes over the signature that the other has locked. -/
def overlapping : List Act :=
  [.write ⟨[⟨some 5, "s"⟩, ⟨some 6, "t"⟩]⟩ "A",
    .begin 1 (.claim "A" 100 0) [("A", "s"), ("A", "t")], .visit 1,
    .begin 2 (.claim "A" 100 0) [("A", "s"), ("A", "t")], .visit 2, .visit 2, .visit 1,
    .commit 2, .commit 1, .begin 3 (.mark "A" ["s"]) [("A", "s")], .visit 3, .commit 3]

theorem commits_alone_overlapping : ∃ tr s l, Run (Guarded Step MarksThere) (init Table.empty) tr s ∧
    Run Alone Db.empty l (onRows Db.empty s) ∧ l.map Prod.snd =
      [.written ⟨[⟨some 5, "s"⟩, ⟨some 6, "t"⟩]⟩ "A" 2, .claimed "A" 100 0 ["t"],
        .claimed "A" 100 0 ["s"], .marked "A" ["s"] 1] := by
  obtain ⟨tr, s, hr, -, htest⟩ := exists_run_of_exec step (init Table.empty) overlapping
    (fun tr _ => decide (∀ x ∈ tr, MarksThere x.1 x.2) && decide (tr.filterMap executed =
      [.written ⟨[⟨some 5, "s"⟩, ⟨some 6, "t"⟩]⟩ "A" 2, .claimed "A" 100 0 ["t"],
        .claimed "A" 100 0 ["s"], .marked "A" ["s"] 1])) (by decide)
  rw [Bool.and_eq_true, decide_eq_true_eq, decide_eq_true_eq] at htest
  have hg := Run.guarded_iff.mpr ⟨hr, htest.1⟩
  obtain ⟨l, hl, he⟩ := commits_alone Db.empty hg
  exact ⟨tr, s, l, hg, hl, he.trans htest.2⟩

/-! ## One statement for each address -/

/-- No two open statements are for one address, and each visits rows of its own. -/
structure Separate (s : Sigs) : Prop where
  apart : ∀ o ∈ s.opened, ∀ x ∈ s.opened, o.op.address = x.op.address → o.tid = x.tid
  own : ∀ o ∈ s.opened, ∀ k ∈ o.todo, k.1 = o.op.address

theorem separate_step (hs : Separate s) (h : Guarded Step OnePerAddress s a s') : Separate s' := by
  -- nothing begins for an address that an open statement is for
  have hnew : ∀ (o' : Open Stmt (String × String)) todo, a = .begin o'.tid o'.op todo →
      ∀ x' ∈ s'.opened, x'.tid ≠ o'.tid → o'.op.address ≠ x'.op.address := by
    intro o' todo ha x' hx' hne heq
    rcases opened_step h.1 x' hx' with ⟨hb, -⟩ | ⟨x, hx, -, hxe, -⟩
    · exact hne (Act.begin.inj (hb.symm.trans ha)).1
    · have hother := h.2
      rw [ha] at hother
      exact hother x hx (by rw [hxe, heq])
  constructor
  · intro o' ho' x' hx' heq
    by_contra hne
    rcases opened_step h.1 o' ho' with ⟨ha, -⟩ | ⟨o, ho, hid, he, -⟩
    · exact hnew o' _ ha x' hx' (fun hid => hne hid.symm) heq
    · rcases opened_step h.1 x' hx' with ⟨ha, -⟩ | ⟨x, hx, hxid, hxe, -⟩
      · exact hnew x' _ ha o' ho' hne heq.symm
      · refine hne (hid.symm.trans ((hs.apart o ho x hx ?_).trans hxid))
        rw [he, hxe, heq]
  · intro o' ho' k hk
    rcases opened_step h.1 o' ho' with ⟨-, hscan⟩ | ⟨o, ho, -, he, htodo⟩
    · obtain ⟨r, hr, rfl⟩ := List.mem_map.mp (hscan.1.mem_iff.mp hk)
      exact cond_address (List.mem_filter.mp hr).2
    · rw [← he]
      exact hs.own o ho k (htodo k hk)

/-- What a statement visits is locked by no other. -/
theorem Separate.not_locked (hs : Separate s) (hl : Locks sem s) (ho : o ∈ s.opened)
    {k : String × String} (hk : k ∈ o.todo) : lockedByOther s o.tid k = false := by
  refine Bool.eq_false_iff.mpr fun hlocked => ?_
  obtain ⟨x, hx, hne, hheld⟩ := lockedByOther_eq_true.mp hlocked
  obtain ⟨r, -, rfl, hc⟩ := hl.cond x hx k hheld
  exact hne (hs.apart o ho x hx ((hs.own o ho _ hk).symm.trans (cond_address hc))).symm

/-- **Where the statements for one address do not overlap**, a claim takes as many signatures as it
may: the statements may be taken for atomic. -/
theorem commits_alone_exact (db : Db) {tr : List (Sigs × Act)}
    (h : Run (Guarded Step OnePerAddress) (init db.signatures) tr s) :
    ∃ l, Run (Guarded Alone TakesAll) db l (onRows db s) ∧
    l.map Prod.snd = tr.filterMap executed := by
  have hkeep : ∀ t a u, Serial (fun _ => True) t ∧ Separate t → Guarded Step OnePerAddress t a u →
      Serial (fun _ => True) u ∧ Separate u := by
    rintro t a u ⟨hi, hs⟩ hstep
    refine ⟨serial_step hi hstep.1 (fun o ho _ _ k hk => ?_)
      (fun signatures address ha o ho _ e _ _ => ?_),
      separate_step hs hstep⟩
    · exact hs.not_locked hi.locks ho (List.mem_of_mem_head? hk)
    · refine Bool.eq_false_iff.mpr fun hc => ?_
      have hother := hstep.2
      rw [ha] at hother
      exact hother o ho (cond_address hc).symm
  obtain ⟨l, hl, hobs⟩ : ∃ l, Run (Guarded Alone TakesAll) db l (onRows db s) ∧
      l.filterMap (fun x => some x.2) = tr.filterMap executed :=
        h.simulates (onRows db) executed some hkeep
    (fun t a u hI hstep => (alone_step hI.1 (fun _ _ _ => trivial) hstep.1).imp id
      fun ⟨e, he, hex, hall⟩ => ⟨e, ⟨he, hall fun _ _ => trivial⟩, hex.symm⟩)
    ⟨serial_init _, fun o ho => absurd ho (Table.not_mem_empty o),
      fun o ho => absurd ho (Table.not_mem_empty o)⟩
  exact ⟨l, hl, by rw [← hobs, ← List.filterMap_eq_map]; rfl⟩

/-- Claims for two addresses overlap, with a write for one of them in between. -/
def sideBySide : List Act :=
  [.write ⟨[⟨some 5, "s"⟩]⟩ "A", .write ⟨[⟨some 6, "t"⟩]⟩ "B",
    .begin 1 (.claim "A" 100 0) [("A", "s")], .begin 2 (.claim "B" 100 0) [("B", "t")], .visit 2,
    .visit 1, .commit 1, .write ⟨[⟨some 7, "u"⟩]⟩ "A", .commit 2]

theorem commits_alone_exact_sideBySide : ∃ tr s l,
    Run (Guarded Step OnePerAddress) (init Table.empty) tr s ∧
    Run (Guarded Alone TakesAll) Db.empty l (onRows Db.empty s) ∧ l.map Prod.snd =
      [.written ⟨[⟨some 5, "s"⟩]⟩ "A" 1, .written ⟨[⟨some 6, "t"⟩]⟩ "B" 1, .claimed "A" 100 0 ["s"],
        .written ⟨[⟨some 7, "u"⟩]⟩ "A" 1, .claimed "B" 100 0 ["t"]] := by
  obtain ⟨tr, s, hr, -, htest⟩ := exists_run_of_exec step (init Table.empty) sideBySide
    (fun tr _ => decide (∀ x ∈ tr, OnePerAddress x.1 x.2) && decide (tr.filterMap executed =
      [.written ⟨[⟨some 5, "s"⟩]⟩ "A" 1, .written ⟨[⟨some 6, "t"⟩]⟩ "B" 1, .claimed "A" 100 0 ["s"],
        .written ⟨[⟨some 7, "u"⟩]⟩ "A" 1, .claimed "B" 100 0 ["t"]])) (by decide)
  rw [Bool.and_eq_true, decide_eq_true_eq, decide_eq_true_eq] at htest
  have hg := Run.guarded_iff.mpr ⟨hr, htest.1⟩
  obtain ⟨l, hl, he⟩ := commits_alone_exact Db.empty hg
  exact ⟨tr, s, l, hg, hl, he.trans htest.2⟩

end OnChainEventIndexer.Leases
