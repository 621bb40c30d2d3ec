import OnChainEventIndexer.Indexer.Window

/-!
# What `fetch_signatures` collects

The first part of a run: pages are read from a finite history and written until the loop breaks.
The RPC answers every request with the next 1000 entries behind its cursor (`ServesHistory`), no
statement fails, the wall clock of the pages is fixed, and the others only add signatures rows.

The invariant (`FetchInv`) splits the history at the cursor: what was written is exactly what is
recent in the front part, in its order. `fetches_iff`: the call collects what it should and ends,
for every address that `mask_addr` does not panic on.
-/

namespace OnChainEventIndexer

open Keyed Lts Paging

/-! ## The filter on a sorted list -/

/-- The entry has a block time, at or after the cut-off. -/
def Signature.recent (cutoff : Int) (e : Signature) : Bool :=
  e.blockTime.any fun ts => decide (cutoff ≤ ts)

theorem Signature.recent_eq_true {cutoff : Int} {e : Signature} :
    e.recent cutoff = true ↔ ∃ ts, e.blockTime = some ts ∧ cutoff ≤ ts := by
  unfold Signature.recent
  rw [Option.any_eq_true]
  simp only [decide_eq_true_eq]

/-- Newest first. -/
def Sorted (l : List Signature) : Prop :=
  l.Pairwise fun e e' => ∀ ts ∈ e.blockTime, ∀ ts' ∈ e'.blockTime, ts' ≤ ts

/-- Behind an entry older than the cut-off nothing is recent. -/
theorem filter_recent_eq_nil {cutoff : Int} {x : Signature} {tx : Int} (hx : x.blockTime = some tx)
    (htx : tx < cutoff) {l : List Signature}
    (hl : ∀ e ∈ l, ∀ ts ∈ x.blockTime, ∀ ts' ∈ e.blockTime, ts' ≤ ts) :
    l.filter (·.recent cutoff) = [] := by
  refine List.filter_eq_nil_iff.mpr fun e he hr => ?_
  obtain ⟨ts, hts, hc⟩ := Signature.recent_eq_true.mp hr
  have := hl e he tx hx ts hts
  omega

/-- **On a sorted list the `break` keeps every recent entry.** -/
theorem takeRecent_eq_filter {cutoff : Int} {l : List Signature} (hl : Sorted l) :
    (takeRecent cutoff l).signatures = l.filter (·.recent cutoff) := by
  induction l with
  | nil => rfl
  | cons x xs ih =>
    obtain ⟨hx, hxs⟩ := List.pairwise_cons.mp hl
    simp only [takeRecent]
    cases hb : x.blockTime with
    | none =>
      have hnot : x.recent cutoff = false := by
        unfold Signature.recent
        rw [hb]
        rfl
      rw [List.filter_cons_of_neg (by rw [hnot]; exact Bool.false_ne_true)]
      exact ih hxs
    | some tx =>
      simp only
      split
      · rename_i hc
        rw [List.filter_cons_of_pos (Signature.recent_eq_true.mpr ⟨tx, hb, hc⟩), ih hxs, ← hb]
      · rename_i hc
        have hnot : ¬x.recent cutoff = true := by
          intro hr
          obtain ⟨ts, hts, hle⟩ := Signature.recent_eq_true.mp hr
          exact hc (Option.some.inj (hb.symm.trans hts) ▸ hle)
        rw [List.filter_cons_of_neg hnot]
        exact (filter_recent_eq_nil hb (by omega) hx).symm

/-! ## One page -/

section Pages

variable {job : ClaimedJob} {history : List Signature} {nowTs : Int}

/-- The page `get_signatures` makes of what lies behind a cursor. -/
def pageBehind (history : List Signature) (job : ClaimedJob) (nowTs : Int) (cur : Option String) :
    SignaturesPage :=
  pageOf ((behind history cur).take 1000) job.requestedHours nowTs

theorem page_take (l : List Signature) : Page 1000 l (l.take 1000) := by
  refine ⟨List.take_prefix 1000 l, fun hshort => List.take_of_length_le ?_⟩
  rw [List.length_take] at hshort
  omega

/-- The signatures of the recent entries of a list. -/
def recentOf (job : ClaimedJob) (nowTs : Int) (l : List Signature) : List String :=
  (l.filter (·.recent (cutoffTs job.requestedHours nowTs))).map (·.signature)

theorem recentOf_append (job : ClaimedJob) (nowTs : Int) (l l' : List Signature) :
    recentOf job nowTs (l ++ l') = recentOf job nowTs l ++ recentOf job nowTs l' := by
  unfold recentOf
  rw [List.filter_append, List.map_append]

/-- A page carries the recent ones of the next 1000 entries. -/
theorem pageBehind_signatures (hist : History history) (cur : Option String) :
    (pageBehind history job nowTs cur).response.result.map (·.signature) =
      recentOf job nowTs ((behind history cur).take 1000) := by
  have hsorted : Sorted ((behind history cur).take 1000) :=
    (hist.newestFirst_behind cur).sublist (List.take_sublist _ _)
  exact congrArg (List.map (·.signature)) (takeRecent_eq_filter hsorted)

theorem length_pageBehind_le (history : List Signature) (job : ClaimedJob) (nowTs : Int)
    (cur : Option String) :
    (pageBehind history job nowTs cur).response.result.length ≤ 1000 := by
  have hle := length_takeRecent_le (cutoffTs job.requestedHours nowTs)
    ((behind history cur).take 1000)
  have htake := List.length_take_le 1000 (behind history cur)
  exact Nat.le_trans hle htake

/-- **Behind the last page** there is nothing recent. -/
theorem recentOf_drop_of_last (hist : History history) {cur : Option String}
    (hlast : (pageBehind history job nowTs cur).last) :
    recentOf job nowTs ((behind history cur).drop 1000) = [] := by
  unfold recentOf
  rw [List.map_eq_nil_iff, List.filter_eq_nil_iff]
  intro e he hr
  obtain ⟨ts, hts, hc⟩ := Signature.recent_eq_true.mp hr
  have hpage := mem_last_page hist (page_take _) hlast (List.mem_of_mem_drop he) hts hc
  have hnd : ((behind history cur).map (·.signature)).Nodup :=
    hist.nodup.sublist (after_suffix.sublist.map _)
  rw [← List.take_append_drop 1000 (behind history cur), List.map_append, List.nodup_append] at hnd
  exact hnd.2.2 _ (List.mem_map_of_mem (mem_takeRecent hpage).1) _ (List.mem_map_of_mem he) rfl

/-- **A page that is not the last** moves the cursor 1000 entries on. -/
theorem behind_of_not_last (hist : History history) {cur : Option String}
    (hnot : ¬(pageBehind history job nowTs cur).last) :
    behind history (pageBehind history job nowTs cur).lastSignature =
        (behind history cur).drop 1000 ∧ 1000 ≤ (behind history cur).length := by
  obtain ⟨x, hx, hcur⟩ := lastSignature_of_not_last hnot
  have hfull : ¬((behind history cur).take 1000).length < 1000 :=
    fun hlt => hnot (Or.inr (Or.inr hlt))
  rw [List.length_take] at hfull
  have hlen : 1000 ≤ (behind history cur).length := by omega
  refine ⟨?_, hlen⟩
  have hdrop := after_last hist.nodup (page_take (behind history cur)).next hx
  rw [List.length_take, Nat.min_eq_left hlen] at hdrop
  exact (congrArg (behind history) hcur).trans hdrop

/-! ## The invariant -/

/-- What holds at each call: up to the cursor, the recent entries are written and no others. -/
def FetchInv (job : ClaimedJob) (history : List Signature) (nowTs : Int) (tr : Trace) : Pc → Prop
  | .fetchPage cur sum => ∃ front, front ++ behind history cur = history ∧
      written tr = recentOf job nowTs front ∧ sum = (written tr).length ∧
      sum < max (effectiveTxLimit job.txLimit) 1
  | .writeSignatures page sum => ∃ front cur, front ++ behind history cur = history ∧
      written tr = recentOf job nowTs front ∧ page = pageBehind history job nowTs cur ∧
      sum = (written tr).length + page.response.result.length ∧
      (written tr).length < max (effectiveTxLimit job.txLimit) 1
  | .claimBatch => ∃ front, front <+: history ∧ written tr = recentOf job nowTs front ∧
      (written tr).length ≤ max (effectiveTxLimit job.txLimit) 1 + 999 ∧
      (recentOf job nowTs front = recentOf job nowTs history ∨
        effectiveTxLimit job.txLimit ≤ (written tr).length)
  | _ => False

/-- What the call has collected. -/
def Pc.collected : Pc → Nat
  | .fetchPage _ sum => sum
  | .writeSignatures _ sum => sum
  | _ => 0

theorem FetchInv.front {tr : Trace} {pc : Pc} (h : FetchInv job history nowTs tr pc) :
    ∃ front, front <+: history ∧ written tr = recentOf job nowTs front := by
  cases pc with
  | fetchPage cur sum =>
    obtain ⟨front, hf, hw, -⟩ := h
    exact ⟨front, ⟨_, hf⟩, hw⟩
  | writeSignatures page sum =>
    obtain ⟨front, cur, hf, hw, -⟩ := h
    exact ⟨front, ⟨_, hf⟩, hw⟩
  | claimBatch =>
    obtain ⟨front, hf, hw, -⟩ := h
    exact ⟨front, hf, hw⟩
  | _ => exact h.elim

/-- The loop goes on below the limit only, and a page has at most 1000 entries. -/
theorem FetchInv.collected_le {tr : Trace} {pc : Pc} (h : FetchInv job history nowTs tr pc) :
    (written tr).length ≤ max (effectiveTxLimit job.txLimit) 1 + 999 ∧
      pc.collected ≤ max (effectiveTxLimit job.txLimit) 1 + 999 := by
  cases pc with
  | fetchPage cur sum =>
    obtain ⟨front, -, -, hsum, hlt⟩ := h
    simp only [Pc.collected]
    omega
  | writeSignatures page sum =>
    obtain ⟨front, cur, -, -, rfl, hsum, hlt⟩ := h
    have hlen := length_pageBehind_le history job nowTs cur
    simp only [Pc.collected]
    omega
  | claimBatch =>
    obtain ⟨front, -, -, hle, -⟩ := h
    exact ⟨hle, Nat.zero_le _⟩
  | _ => exact h.elim

/-- The others add signatures rows. -/
def Adds (db db' : Db) : Prop := ∀ r ∈ db.signatures, r ∈ db'.signatures

theorem Adds.hasRow {db db' : Db} (h : Adds db db') {address s : String}
    (hr : db.HasRow address s) : db'.HasRow address s := by
  obtain ⟨r, hr, hk⟩ := Table.mem_keys.mp hr
  exact Table.mem_keys.mpr ⟨r, h r hr, hk⟩

theorem adds_writeSignatures (db : Db) (signatures : RpcResponse) (address : String) :
    Adds db (db.writeSignatures signatures address).2 := by
  intro r hr
  rw [Db.writeSignatures_signatures]
  exact Table.mem_insertAll_of_mem _ hr

end Pages

/-! ## The calls of `fetch_signatures` -/

section Network

variable [External]

/-- Every request is answered with the next 1000 entries behind its cursor. -/
def ServesHistory (history : List Signature) (rpc : Option String → Replies) : Prop :=
  ∀ cur k, signaturesOf (rpc cur k) = some ((behind history cur).take 1000)

/-- The answer to a call of `fetch_signatures`: the page asked for, or an executed statement. -/
def Served (rpc : Option String → Replies) (nowTs : Int) : Pc → Answer → Prop
  | .fetchPage cur _, .signatures reply n => reply = rpc cur ∧ n = nowTs
  | .writeSignatures _ _, .done _ => True
  | _, _ => False

/-- A step of `fetch_signatures`. -/
def FetchStep (api : HeliusApi) (job : ClaimedJob) (rpc : Option String → Replies) (nowTs : Int) :
    Local → Event → Local → Prop :=
  Guarded (LocalStep api job Adds) fun s e => Served rpc nowTs s.pc e.2

/-- **What `fetch_signatures` does**: it ends, having written recent entries of the history only,
each once; rows stay; and at its end every recent entry has a row, or the newest ones were
written and are at least as many as `tx_limit`. -/
structure Fetches (api : HeliusApi) (job : ClaimedJob) (history : List Signature)
    (rpc : Option String → Replies) (nowTs : Int) (s0 : Local) : Prop where
  ends : ∀ tr t, Run (FetchStep api job rpc nowTs) s0 tr t →
    tr.length ≤ 2 * (history.length / 1000 + 1)
  goesOn : ∀ tr t, Run (FetchStep api job rpc nowTs) s0 tr t →
    t.pc = .claimBatch ∨ ∀ now, t.now ≤ now → ∃ a t', FetchStep api job rpc nowTs t (now, a) t'
  wrote : ∀ tr t, Run (FetchStep api job rpc nowTs) s0 tr t → (written tr).Nodup ∧
    ∀ s ∈ written tr, t.db.HasRow job.address s ∧ ∃ e ∈ history, e.signature = s ∧
      e.recent (cutoffTs job.requestedHours nowTs) = true
  limited : ∀ tr t, Run (FetchStep api job rpc nowTs) s0 tr t →
    (written tr).length ≤ max (effectiveTxLimit job.txLimit) 1 + 999 ∧
      t.pc.collected ≤ max (effectiveTxLimit job.txLimit) 1 + 999
  kept : ∀ tr t, Run (FetchStep api job rpc nowTs) s0 tr t → Adds s0.db t.db
  complete : ∀ tr t, Run (FetchStep api job rpc nowTs) s0 tr t → t.pc = .claimBatch →
    (∀ e ∈ history, e.recent (cutoffTs job.requestedHours nowTs) = true →
      t.db.HasRow job.address e.signature) ∨
    (written tr <+: (history.filter (·.recent (cutoffTs job.requestedHours nowTs))).map
      (·.signature) ∧ effectiveTxLimit job.txLimit ≤ (written tr).length)

variable {api : HeliusApi} {job : ClaimedJob} {history : List Signature}
  {rpc : Option String → Replies} {nowTs : Int}

theorem getSignatures_eq {reply : Replies} {result : List Signature}
    (h : ∀ k, signaturesOf (reply k) = some result) {hours : Int16} :
    getSignatures api reply hours nowTs = .ok (pageOf result hours nowTs) := by
  have hfirst := h 1
  unfold signaturesOf at hfirst
  unfold getSignatures HeliusApi.attempts
  rw [List.range'_succ]
  simp only [getSignaturesLoop, getSignaturesAttempt]
  cases hr : reply 1 with
  | error e =>
    rw [hr] at hfirst
    exact absurd hfirst (by simp)
  | ok response =>
    rw [hr] at hfirst
    simp only at hfirst ⊢
    split at hfirst
    · rename_i l hd
      obtain rfl := Option.some.inj hfirst
      rw [hd]
    · exact absurd hfirst (by simp)

/-- **Everything a step of `fetch_signatures` does.** -/
theorem fetch_cases (hrpc : ServesHistory history rpc) {s s' : Local} {e : Event}
    (h : FetchStep api job rpc nowTs s e s') :
    (∃ cur sum, s.pc = .fetchPage cur sum ∧ writes (s, e) = [] ∧ Adds s.db s'.db ∧
      s'.pc = .writeSignatures (pageBehind history job nowTs cur)
        (sum + (pageBehind history job nowTs cur).response.result.length)) ∨
    ∃ page sum db, s.pc = .writeSignatures page sum ∧
      writes (s, e) = page.response.result.map (·.signature) ∧ Adds s.db db ∧
      s'.db = (db.writeSignatures page.response job.address).2 ∧ s'.pc = .afterPage job page sum := by
  obtain ⟨⟨db, hadds, -, -, hstep⟩, hserved⟩ := h
  obtain ⟨db0, n0, pc⟩ := s
  obtain ⟨db', n', pc'⟩ := s'
  obtain ⟨now, a⟩ := e
  have hn := step_next hstep
  simp only at hserved hn ⊢
  cases hn with
  | @pageFetched cur sum reply n page hpage =>
    obtain ⟨rfl, rfl⟩ := hserved
    rw [getSignatures_eq (hrpc cur)] at hpage
    obtain rfl := Except.ok.inj hpage
    exact Or.inl ⟨cur, sum, rfl, rfl, hadds, rfl⟩
  | @pageFailed cur sum reply n error herr =>
    obtain ⟨rfl, rfl⟩ := hserved
    rw [getSignatures_eq (hrpc cur)] at herr
    exact absurd herr (by simp)
  | @signaturesWritten page sum chosen =>
    exact Or.inr ⟨page, sum, db, rfl, rfl, hadds, rfl, rfl⟩
  | @dbFailed pc hi => exact absurd hserved (by cases pc <;> simp [Served])
  | _ => exact hserved.elim

/-! ## One step -/

/-- **The step lemma.** -/
theorem fetchInv_step (hist : History history) (hrpc : ServesHistory history rpc) {tr : Trace}
    {s s' : Local} {e : Event} (hi : FetchInv job history nowTs tr s.pc)
    (h : FetchStep api job rpc nowTs s e s') :
    FetchInv job history nowTs (tr ++ [(s, e)]) s'.pc := by
  rcases fetch_cases hrpc h with ⟨cur, sum, hpc, hw, -, hpc'⟩ | ⟨page, sum, db, hpc, hw, -, -, hpc'⟩
  · rw [hpc] at hi
    obtain ⟨front, hfront, hwritten, rfl, hlt⟩ := hi
    rw [hpc']
    unfold FetchInv
    rw [written_snoc_of_nil hw]
    exact ⟨front, cur, hfront, hwritten, rfl, rfl, hlt⟩
  · rw [hpc] at hi
    obtain ⟨front, cur, hfront, hwritten, rfl, rfl, hlt⟩ := hi
    have hlen := length_pageBehind_le history job nowTs cur
    -- the front part grows by the page
    have hsplit : (front ++ (behind history cur).take 1000) ++ (behind history cur).drop 1000 =
        history := by
      rw [List.append_assoc, List.take_append_drop, hfront]
    have hwritten' : written (tr ++ [(s, e)]) =
        recentOf job nowTs (front ++ (behind history cur).take 1000) := by
      rw [written_snoc, hw, hwritten, recentOf_append, pageBehind_signatures hist]
    have hcount : (written (tr ++ [(s, e)])).length = (written tr).length +
        (pageBehind history job nowTs cur).response.result.length := by
      rw [written_snoc, hw, List.length_append, List.length_map]
    rw [hpc', ← hcount]
    unfold Pc.afterPage
    cases hstop : stopsPaging job (pageBehind history job nowTs cur)
        (written (tr ++ [(s, e)])).length with
    | true =>
      rw [if_pos rfl]
      refine ⟨_, ⟨_, hsplit⟩, hwritten', by omega, ?_⟩
      refine (last_of_stopsPaging hstop).imp_left fun hlast => ?_
      have hrest := recentOf_drop_of_last hist hlast
      have hall := recentOf_append job nowTs
        (front ++ (behind history cur).take 1000) ((behind history cur).drop 1000)
      rw [hsplit, hrest, List.append_nil] at hall
      exact hall.symm
    | false =>
      rw [if_neg Bool.false_ne_true]
      obtain ⟨hnot, hsum⟩ := not_last_of_goes_on hstop
      refine ⟨_, ?_, hwritten', rfl, by omega⟩
      rw [(behind_of_not_last hist hnot).1]
      exact hsplit

theorem adds_step (hrpc : ServesHistory history rpc) {s s' : Local} {e : Event}
    (h : FetchStep api job rpc nowTs s e s') : Adds s.db s'.db := by
  rcases fetch_cases hrpc h with ⟨cur, sum, -, -, hadds, -⟩ | ⟨page, sum, db, -, -, hadds, hdb, -⟩
  · exact hadds
  · intro r hr
    rw [hdb]
    exact adds_writeSignatures db page.response job.address r (hadds r hr)

/-- What is written has a row. -/
theorem rows_step (hrpc : ServesHistory history rpc) {tr : Trace} {s s' : Local} {e : Event}
    (hi : ∀ x ∈ written tr, s.db.HasRow job.address x) (h : FetchStep api job rpc nowTs s e s') :
    ∀ x ∈ written (tr ++ [(s, e)]), s'.db.HasRow job.address x := by
  intro x hx
  rw [written_snoc] at hx
  rcases List.mem_append.mp hx with hx | hx
  · exact (adds_step hrpc h).hasRow (hi x hx)
  · rcases fetch_cases hrpc h with ⟨cur, sum, -, hw, -, -⟩ | ⟨page, sum, db, -, hw, -, hdb, -⟩
    · rw [hw] at hx
      exact absurd hx List.not_mem_nil
    · rw [hw] at hx
      obtain ⟨e', he', rfl⟩ := List.mem_map.mp hx
      rw [hdb]
      exact Db.hasRow_of_write he'

/-! ## The end -/

/-- A bound on the steps left. -/
def pagesLeft (history : List Signature) : Pc → Nat
  | .fetchPage cur _ => 2 * ((behind history cur).length / 1000 + 1)
  | .writeSignatures page _ =>
    if page.last then 1 else 2 * ((behind history page.lastSignature).length / 1000 + 1) + 1
  | _ => 0

theorem pagesLeft_lt (hist : History history) (hrpc : ServesHistory history rpc) {s s' : Local}
    {e : Event} (h : FetchStep api job rpc nowTs s e s') :
    pagesLeft history s'.pc < pagesLeft history s.pc := by
  rcases fetch_cases hrpc h with ⟨cur, sum, hpc, -, -, hpc'⟩ | ⟨page, sum, db, hpc, -, -, -, hpc'⟩
  · rw [hpc, hpc']
    simp only [pagesLeft]
    split
    · omega
    · rename_i hnot
      obtain ⟨hbehind, hlen⟩ := behind_of_not_last hist hnot
      rw [hbehind, List.length_drop]
      omega
  · rw [hpc, hpc']
    unfold Pc.afterPage
    cases hstop : stopsPaging job page sum with
    | true =>
      rw [if_pos rfl]
      simp only [pagesLeft]
      split <;> omega
    | false =>
      rw [if_neg Bool.false_ne_true]
      simp only [pagesLeft]
      rw [if_neg (not_last_of_goes_on hstop).1]
      omega

theorem fetchInv_run (hist : History history) (hrpc : ServesHistory history rpc) {s0 t : Local}
    (h0 : s0.pc = .fetchPage none 0) {tr : Trace} (hrun : Run (FetchStep api job rpc nowTs) s0 tr t) :
    FetchInv job history nowTs tr t.pc ∧ ∀ x ∈ written tr, t.db.HasRow job.address x := by
  refine hrun.invariant_trace (I := fun tr t => FetchInv job history nowTs tr t.pc ∧
    ∀ x ∈ written tr, t.db.HasRow job.address x) ⟨?_, fun _ hx => absurd hx List.not_mem_nil⟩
    fun _ _ _ _ _ hi hs => ⟨fetchInv_step hist hrpc hi.1 hs, rows_step hrpc hi.2 hs⟩
  rw [h0]
  exact ⟨[], rfl, rfl, rfl, Nat.lt_of_lt_of_le Nat.zero_lt_one (Nat.le_max_right _ _)⟩

/-- **`fetch_signatures` is never stuck.** -/
theorem fetch_goesOn (hrpc : ServesHistory history rpc) {tr : Trace} {t : Local}
    (hi : FetchInv job history nowTs tr t.pc) :
    t.pc = .claimBatch ∨ ∀ now, t.now ≤ now → ∃ a t', FetchStep api job rpc nowTs t (now, a) t' := by
  obtain ⟨db, n, pc⟩ := t
  cases pc with
  | fetchPage cur sum =>
    refine Or.inr fun now hnow => ⟨.signatures (rpc cur) nowTs, ⟨db, now, .writeSignatures
      (pageBehind history job nowTs cur)
      (sum + (pageBehind history job nowTs cur).response.result.length)⟩,
      ⟨db, fun _ h => h, hnow, rfl, ?_⟩, rfl, rfl⟩
    simp only [step, getSignatures_eq (hrpc cur)]
    rfl
  | writeSignatures page sum =>
    exact Or.inr fun now hnow => ⟨.done [], ⟨_, now, _⟩, ⟨db, fun _ h => h, hnow, rfl, rfl⟩, trivial⟩
  | claimBatch => exact Or.inl rfl
  | _ => exact hi.elim

/-- A call that panics at its start does nothing. -/
theorem fetch_run_of_mask {s0 t : Local} {tr : Trace} (hstart : s0.pc = Pc.start job)
    (hnone : maskAddr job.address = none) (hrun : Run (FetchStep api job rpc nowTs) s0 tr t) :
    tr = [] ∧ t = s0 ∧ t.pc = .panicked := by
  have hpc : s0.pc = .panicked := by
    rw [hstart]
    unfold Pc.start
    rw [hnone]
  induction hrun with
  | refl => exact ⟨rfl, rfl, hpc⟩
  | @tail tr s u e _ hstep ih =>
    obtain ⟨-, -, hpanicked⟩ := ih
    have hnot : Served rpc nowTs s.pc e.2 := hstep.2
    rw [hpanicked] at hnot
    exact hnot.elim

theorem not_fetches_of_mask {s0 : Local} (hstart : s0.pc = Pc.start job)
    (hnone : maskAddr job.address = none) : ¬Fetches api job history rpc nowTs s0 := by
  intro h
  have hrefl : Run (FetchStep api job rpc nowTs) s0 [] s0 := Run.refl
  have hpc := (fetch_run_of_mask hstart hnone hrefl).2.2
  rcases h.goesOn [] s0 Run.refl with hc | hgo
  · exact absurd (hpc.symm.trans hc) (by simp)
  · obtain ⟨a, t', hstep⟩ := hgo s0.now (Int.le_refl _)
    exact absurd (fetch_run_of_mask hstart hnone (Run.single hstep)).1 (by simp)

/-- **Paging loses nothing and duplicates nothing.** For every finite history, `tx_limit`, hours
and clock: `fetch_signatures` collects what it should if and only if the address can be masked. -/
theorem fetches_iff (hist : History history) (hrpc : ServesHistory history rpc) {s0 : Local}
    (hstart : s0.pc = Pc.start job) :
    Fetches api job history rpc nowTs s0 ↔ maskAddr job.address ≠ none := by
  constructor
  · exact fun h hnone => not_fetches_of_mask hstart hnone h
  · intro hmask
    have h0 : s0.pc = .fetchPage none 0 := by
      rw [hstart]
      unfold Pc.start
      split
      · rename_i hnone
        exact absurd hnone hmask
      · rfl
    have hinv : ∀ {tr t}, Run (FetchStep api job rpc nowTs) s0 tr t →
        FetchInv job history nowTs tr t.pc := fun hrun => (fetchInv_run hist hrpc h0 hrun).1
    have hrows : ∀ {tr t}, Run (FetchStep api job rpc nowTs) s0 tr t →
        ∀ x ∈ written tr, t.db.HasRow job.address x := fun hrun => (fetchInv_run hist hrpc h0 hrun).2
    refine ⟨fun tr t hrun => ?_, fun tr t hrun => fetch_goesOn hrpc (hinv hrun), fun tr t hrun => ?_,
      fun tr t hrun => (hinv hrun).collected_le, fun tr t hrun => ?_, fun tr t hrun hc => ?_⟩
    · have hlen := Run.length_add_measure_le (I := fun _ => True) (fun s => pagesLeft history s.pc)
        (fun _ _ _ _ _ => trivial) (fun _ _ _ _ hs => pagesLeft_lt hist hrpc hs) hrun trivial
      rw [h0] at hlen
      exact Nat.le_trans (Nat.le_add_right _ _) hlen
    · obtain ⟨front, hf, hw⟩ := (hinv hrun).front
      refine ⟨?_, fun x hx => ⟨hrows hrun x hx, ?_⟩⟩
      · rw [hw]
        exact hist.nodup.sublist ((List.filter_sublist.trans hf.sublist).map _)
      · rw [hw] at hx
        obtain ⟨e, he, rfl⟩ := List.mem_map.mp hx
        obtain ⟨hm, hr⟩ := List.mem_filter.mp he
        exact ⟨e, hf.mem hm, rfl, hr⟩
    · exact hrun.relation (R := fun s t => Adds s.db t.db) (fun _ _ h => h)
        (fun h h' r hr => h' r (h r hr)) fun _ _ _ hs => adds_step hrpc hs
    · have hi := hinv hrun
      rw [hc] at hi
      obtain ⟨front, hf, hw, -, hall | hlimit⟩ := hi
      · refine Or.inl fun e he hr => hrows hrun _ ?_
        rw [hw, hall]
        exact List.mem_map_of_mem (List.mem_filter.mpr ⟨he, hr⟩)
      · refine Or.inr ⟨?_, hlimit⟩
        rw [hw]
        exact (hf.filter _).map _

end Network

/-- Two entries, the older one outside the window. -/
def twoEntries : List Signature := [⟨some 9000, "s1"⟩, ⟨some 5000, "s2"⟩]

theorem fetches_twoEntries :
    letI : External := smallNetwork [twoEntries, [⟨some 5000, "s2"⟩], []] []
    Fetches sampleApi sampleJob twoEntries (fun cur => servePage (behind twoEntries cur)) 10100
      (sampleStart 10100) := by
  let : External := smallNetwork [twoEntries, [⟨some 5000, "s2"⟩], []] []
  refine (fetches_iff ⟨by decide, by decide⟩ (fun cur k => ?_) rfl).mpr (by decide)
  have hpage : behind twoEntries cur ∈ [twoEntries, [⟨some 5000, "s2"⟩], []] := by
    cases cur with
    | none => exact List.mem_cons_self
    | some c =>
      by_cases h1 : c = "s1"
      · subst h1
        decide
      · by_cases h2 : c = "s2"
        · subst h2
          decide
        · simp [behind, after, twoEntries, Ne.symm h1, Ne.symm h2]
  have hlen : (behind twoEntries cur).length ≤ 1000 :=
    Nat.le_trans after_suffix.length_le (by decide)
  rw [signaturesOf_servePage_of_mem (by decide) hpage, List.take_of_length_le hlen]

/-- **A call that panics before its first request**: the address of seven letters `é`, two bytes
each, cannot be masked; its only signature, of this very second, gets no row. -/
theorem not_fetches_accented :
    letI : External := smallNetwork [[⟨some 0, "s1"⟩], []] []
    let job : ClaimedJob := ⟨1, "ééééééé", 1, 10⟩
    let history : List Signature := [⟨some 0, "s1"⟩]
    let rpc := fun cur => servePage (behind history cur)
    let s0 : Local := ⟨Db.empty, 0, Pc.start job⟩
    History history ∧ ServesHistory history rpc ∧ ¬Fetches sampleApi job history rpc 0 s0 ∧
      ∀ tr t, Run (FetchStep sampleApi job rpc 0) s0 tr t → ¬t.db.HasRow "ééééééé" "s1" := by
  let : External := smallNetwork [[⟨some 0, "s1"⟩], []] []
  have hnone : maskAddr "ééééééé" = none := by decide
  refine ⟨⟨by decide, List.pairwise_singleton _ _⟩, fun cur k => ?_, not_fetches_of_mask rfl hnone,
    fun tr t hrun hrow => ?_⟩
  · have hpage : behind [⟨some 0, "s1"⟩] cur ∈ [[⟨some 0, "s1"⟩], ([] : List Signature)] := by
      cases cur with
      | none => exact List.mem_cons_self
      | some c =>
        by_cases h1 : c = "s1"
        · subst h1
          decide
        · simp [behind, after, Ne.symm h1]
    have hlen : (behind [⟨some 0, "s1"⟩] cur).length ≤ 1000 :=
      Nat.le_trans after_suffix.length_le (by decide)
    rw [signaturesOf_servePage_of_mem (by decide) hpage, List.take_of_length_le hlen]
  · obtain ⟨-, rfl, -⟩ := fetch_run_of_mask rfl hnone hrun
    exact absurd hrow List.not_mem_nil

end OnChainEventIndexer
