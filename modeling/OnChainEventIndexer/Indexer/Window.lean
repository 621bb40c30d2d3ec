import OnChainEventIndexer.Indexer.Outcome

/-!
# What a ready job has covered

Two windows meet in a job: its own, from `created_at - requested_hours` to `created_at`, which the
ready guard and `get_job_info` compute in SQL, and that of the fetch, which drops what is older
than `requested_hours` before the wall clock of each page. `window_covered_iff` says what is left
between them: a job that ends ready has processed its window just when the entries the last page
dropped for their age, though they lie in the job's window, have rows from elsewhere: from before
the run, or from others, who may add rows and process signatures meanwhile (`Grows`).
-/

namespace OnChainEventIndexer

open Keyed Lts Paging

/-- There is a row for the signature. -/
def Db.HasRow (db : Db) (address s : String) : Prop := (address, s) ∈ db.signatures.keys

/-- The block times in the rows of the address are those of the history. -/
def Db.AgreesWith (history : List Signature) (address : String) (db : Db) : Prop :=
  ∀ r ∈ db.signatures, r.ownerAddress = address → ∀ e ∈ history, e.signature = r.signature →
    r.blockTime = e.blockTime

/-- What the others may do: rows stay, the job's row is left alone, and new rows of the address
carry the block times of the history. -/
structure Grows (history : List Signature) (job : ClaimedJob) (db db' : Db) : Prop where
  le : db.Le db'
  jobs : Db.SameJobRow job.jobId db db'
  agrees : db.AgreesWith history job.address → db'.AgreesWith history job.address

theorem Grows.refl (history : List Signature) (job : ClaimedJob) (db : Db) :
    Grows history job db db := ⟨.refl db, .refl _ db, id⟩

namespace Db

variable {db db' : Db} {address s : String}

theorem HasRow.mono (h : db.HasRow address s) (hle : db.Le db') : db'.HasRow address s := by
  obtain ⟨r, hr, hk⟩ := Table.mem_keys.mp h
  obtain ⟨r', hr', hk', -, -⟩ := hle.sigs r hr
  exact Table.mem_keys.mpr ⟨r', hr', hk'.trans hk⟩

theorem Processed.hasRow (h : db.Processed address s) : db.HasRow address s := by
  obtain ⟨r, hr, hk, -⟩ := h
  exact Table.mem_keys.mpr ⟨r, hr, hk⟩

/-- A written signature has a row. -/
theorem hasRow_of_write {signatures : RpcResponse} {e : Signature} (he : e ∈ signatures.result) :
    (db.writeSignatures signatures address).2.HasRow address e.signature := by
  unfold HasRow
  rw [writeSignatures_signatures]
  exact Table.mem_keys_insertAll.mpr (Or.inr ⟨_, List.mem_map_of_mem he, rfl⟩)

/-- Writing entries of the history keeps the block times. -/
theorem AgreesWith.write {history : List Signature} (hnd : (history.map (·.signature)).Nodup)
    (h : db.AgreesWith history address) {signatures : RpcResponse}
    (hs : ∀ e ∈ signatures.result, e ∈ history) :
    (db.writeSignatures signatures address).2.AgreesWith history address := by
  intro r hr ha e he hsig
  rcases write_cases hr with hr | ⟨e', he', rfl⟩
  · exact h r hr ha e he hsig
  · rw [List.inj_on_of_nodup_map hnd he (hs e' he') hsig]
    rfl

/-- The statements that leave the signatures' keys and block times alone. -/
theorem AgreesWith.of_later {history : List Signature} (h : db.AgreesWith history address)
    (hl : ∀ r' ∈ db'.signatures, ∃ r ∈ db.signatures, r.Later r') :
    db'.AgreesWith history address := by
  intro r' hr' ha e he hsig
  obtain ⟨r, hr, hk, hb, -⟩ := hl r' hr'
  obtain ⟨hka, hks⟩ := Prod.mk.inj hk
  rw [hb]
  exact h r hr (hka.symm.trans ha) e he (hsig.trans hks)

theorem claim_later {now : Int} {chosen : List String} :
    ∀ r' ∈ (db.getUnprocessedSignatures address now chosen).2.signatures,
      ∃ r ∈ db.signatures, r.Later r' := by
  intro r' hr'
  obtain ⟨r, hr, rfl⟩ := mem_getUnprocessedSignatures.mp hr'
  refine ⟨r, hr, ?_⟩
  split
  · exact ⟨rfl, rfl, id⟩
  · exact .refl r

theorem mark_later {signatures : List String} :
    ∀ r' ∈ (db.markSignaturesProcessed address signatures).2.signatures,
      ∃ r ∈ db.signatures, r.Later r' := by
  intro r' hr'
  rcases mark_cases hr' with hr | ⟨r, hr, -, -, rfl⟩
  · exact ⟨r', hr, .refl r'⟩
  · exact ⟨r, hr, rfl, rfl, fun _ => rfl⟩

end Db

/-! ## Who writes which rows -/

/-- The signatures whose rows the run writes in a step. -/
def writes : Local × Event → List String
  | (⟨_, _, .writeSignatures page _⟩, (_, .done _)) => page.response.result.map (·.signature)
  | _ => []

/-- The signatures whose rows the run writes. -/
def written (tr : Trace) : List String := tr.flatMap writes

/-- Others write the row of `s` during the run: it comes about in a step that does not write it. -/
def OthersWrite (address s : String) (tr : Trace) (t : Local) : Prop :=
  ∃ m ∈ moves tr t, ¬m.1.1.db.HasRow address s ∧ m.2.db.HasRow address s ∧ s ∉ writes m.1

theorem written_snoc (tr : Trace) (x : Local × Event) :
    written (tr ++ [x]) = written tr ++ writes x := by
  unfold written
  rw [List.flatMap_append, List.flatMap_singleton]

theorem written_snoc_of_nil {tr : Trace} {x : Local × Event} (h : writes x = []) :
    written (tr ++ [x]) = written tr := by
  rw [written_snoc, h, List.append_nil]

/-- **Every row has an author.** -/
theorem hasRow_origin {step : Local → Event → Local → Prop} {s0 t : Local} {tr : Trace}
    (hrun : Run step s0 tr t) {address s : String} (h : t.db.HasRow address s) :
    s0.db.HasRow address s ∨ s ∈ written tr ∨ OthersWrite address s tr t := by
  by_cases h0 : s0.db.HasRow address s
  · exact Or.inl h0
  · obtain ⟨m, hm, hbefore, hafter⟩ :=
      hrun.comes_about (P := fun t => t.db.HasRow address s) h0 h
    by_cases hw : s ∈ writes m.1
    · exact Or.inr (Or.inl (List.mem_flatMap.mpr ⟨m.1, mem_of_mem_moves hm, hw⟩))
    · exact Or.inr (Or.inr ⟨m, hm, hbefore, hafter, hw⟩)

/-! ## One page -/

/-- The entries before the cursor that have a block time have rows. -/
def CoveredBefore (history : List Signature) (address : String) (db : Db) (cur : Option String) :
    Prop :=
  ∀ e ∈ history, e.blockTime ≠ none → e ∈ behind history cur ∨ db.HasRow address e.signature

theorem CoveredBefore.mono {history : List Signature} {address : String} {db db' : Db}
    {cur : Option String} (h : CoveredBefore history address db cur) (hle : db.Le db') :
    CoveredBefore history address db' cur := fun e he hb =>
  (h e he hb).imp_right fun hr => hr.mono hle

/-- The run has written none of the entries behind the cursor. -/
def Ahead (history : List Signature) (tr : Trace) (cur : Option String) : Prop :=
  ∀ e ∈ behind history cur, e.signature ∉ written tr

/-- The paging loop stops for another reason than `tx_limit`. -/
def SignaturesPage.last (page : SignaturesPage) : Prop :=
  page.reachedCutoff = true ∨ page.lastSignature = none ∨ page.rawCount < 1000

instance (page : SignaturesPage) : Decidable page.last := inferInstanceAs (Decidable (_ ∨ _ ∨ _))

theorem last_of_stopsPaging {job : ClaimedJob} {page : SignaturesPage} {sum : Nat}
    (h : stopsPaging job page sum = true) : page.last ∨ effectiveTxLimit job.txLimit ≤ sum := by
  unfold stopsPaging at h
  simp only [Bool.or_eq_true, decide_eq_true_eq, Option.isNone_iff_eq_none] at h
  rcases h with ((h | h) | h) | h
  · exact Or.inl (Or.inl h)
  · exact Or.inl (Or.inr (Or.inl h))
  · exact Or.inl (Or.inr (Or.inr h))
  · exact Or.inr h

theorem not_last_of_goes_on {job : ClaimedJob} {page : SignaturesPage} {sum : Nat}
    (h : stopsPaging job page sum = false) : ¬page.last ∧ sum < effectiveTxLimit job.txLimit := by
  unfold stopsPaging at h
  simp only [Bool.or_eq_false_iff, decide_eq_false_iff_not, Option.isNone_eq_false_iff] at h
  obtain ⟨⟨⟨hcut, hsome⟩, hcount⟩, hsum⟩ := h
  refine ⟨?_, by omega⟩
  rintro (h | h | h)
  · rw [hcut] at h
    exact Bool.false_ne_true h
  · rw [h] at hsome
    exact absurd hsome (by simp)
  · exact hcount h

variable {history : List Signature} {cur : Option String} {result : List Signature}
  {hours : Int16} {nowTs : Int}

/-- **The last page** holds every entry behind its cursor that is not older than its cut-off. -/
theorem mem_last_page (hist : History history) (hp : Page 1000 (behind history cur) result)
    (hlast : (pageOf result hours nowTs).last) {e : Signature} (he : e ∈ behind history cur)
    {ts : Int} (hb : e.blockTime = some ts) (hts : cutoffTs hours nowTs ≤ ts) :
    e ∈ (pageOf result hours nowTs).response.result := by
  have hsorted := hist.newestFirst_behind cur
  by_cases hmem : e ∈ result
  · exact takeRecent_complete (hsorted.sublist hp.next.sublist) hmem hb hts
  · have hlong : ¬result.length < 1000 := fun hshort => hmem (hp.short hshort ▸ he)
    obtain ⟨rest, hrest⟩ := hp.next
    rcases hlast with hcut | hnone | hcount
    · -- an older entry of the page stands before `e`
      obtain ⟨x, hx, tx, hxb, hxc⟩ := takeRecent_reachedCutoff.mp hcut
      rw [← hrest] at hsorted he
      have herest : e ∈ rest := (List.mem_append.mp he).resolve_left hmem
      have := (List.pairwise_append.mp hsorted).2.2 x hx e herest tx hxb ts hb
      omega
    · have : result = [] := by
        simpa [pageOf] using hnone
      rw [this] at hlong
      exact absurd (by decide) hlong
    · exact absurd hcount hlong

/-- A page that is not the last hands on its last entry as the cursor. -/
theorem lastSignature_of_not_last (hnot : ¬(pageOf result hours nowTs).last) :
    ∃ x, result.getLast? = some x ∧ (pageOf result hours nowTs).lastSignature = some x.signature := by
  obtain ⟨x, hx⟩ : ∃ x, result.getLast? = some x :=
    Option.ne_none_iff_exists'.mp fun h => hnot (Or.inr (Or.inl (by simp [pageOf, h])))
  exact ⟨x, hx, by simp [pageOf, hx]⟩

/-- **A page that is not the last** holds every entry up to its cursor. -/
theorem covered_next (hist : History history) (hp : Page 1000 (behind history cur) result)
    (hnot : ¬(pageOf result hours nowTs).last) {address : String} {db : Db}
    (hc : CoveredBefore history address db cur) :
    CoveredBefore history address
      (db.writeSignatures (pageOf result hours nowTs).response address).2
      (pageOf result hours nowTs).lastSignature := by
  obtain ⟨x, hx, hcur⟩ := lastSignature_of_not_last hnot
  have hle := Db.le_writeSignatures db (pageOf result hours nowTs).response address
  intro e he hb
  rcases hc e he hb with hbehind | hrow
  · rw [hcur]
    rcases mem_page_or_after hist.nodup hp.next hx hbehind with hpage | hrest
    · obtain ⟨ts, hts⟩ := Option.ne_none_iff_exists'.mp hb
      have hrecent : cutoffTs hours nowTs ≤ ts := by
        by_contra hlt
        exact hnot (Or.inl (takeRecent_reachedCutoff.mpr ⟨e, hpage, ts, hts, by omega⟩))
      have hsorted := (hist.newestFirst_behind cur).sublist hp.next.sublist
      exact Or.inr (Db.hasRow_of_write (takeRecent_complete hsorted hpage hts hrecent))
    · exact Or.inl hrest
  · exact Or.inr (hrow.mono hle)

/-- The entries behind a page are none of the page. -/
theorem ahead_next (hist : History history) (hp : Page 1000 (behind history cur) result)
    {tr : Trace} (ha : Ahead history tr cur) {x : Signature} (hx : result.getLast? = some x)
    {e : Signature} (he : e ∈ behind history (some x.signature)) :
    e.signature ∉ written tr ∧
      e.signature ∉ (pageOf result hours nowTs).response.result.map (·.signature) := by
  have hdrop : e ∈ (behind history cur).drop result.length := by
    rw [← after_last hist.nodup hp.next hx]
    exact he
  refine ⟨ha e (List.mem_of_mem_drop hdrop), fun hmem => ?_⟩
  obtain ⟨e', he', hsig⟩ := List.mem_map.mp hmem
  have hresult : e' ∈ result := (mem_takeRecent he').1
  obtain ⟨rest, hrest⟩ := hp.next
  have hnd : ((behind history cur).map (·.signature)).Nodup :=
    hist.nodup.sublist (after_suffix.sublist.map _)
  rw [← hrest, List.drop_left] at hdrop
  rw [← hrest, List.map_append, List.nodup_append] at hnd
  exact hnd.2.2 _ (List.mem_map_of_mem hresult) _ (List.mem_map_of_mem hdrop) hsig

/-- What is older than the cut-off is not on the page. -/
theorem old_not_written (hist : History history) (hp : Page 1000 (behind history cur) result)
    {e : Signature} (he : e ∈ behind history cur)
    (hold : ∀ ts ∈ e.blockTime, ts < cutoffTs hours nowTs) :
    e.signature ∉ (pageOf result hours nowTs).response.result.map (·.signature) := by
  intro hmem
  obtain ⟨e', he', hsig⟩ := List.mem_map.mp hmem
  obtain ⟨hresult, ts, hts, hcut⟩ := mem_takeRecent he'
  have hhist : e' ∈ history := after_suffix.mem (hp.next.mem hresult)
  obtain rfl := List.inj_on_of_nodup_map hist.nodup hhist (after_suffix.mem he) hsig
  have := hold ts hts
  omega

/-! ## The invariant of a run -/

section Network

variable [External] {api : HeliusApi} {job : ClaimedJob}

/-- The fetch is over: the entries before the last cursor have rows, and so have those behind it
that the last page did not drop; what it dropped for its age the run has not written. -/
def FetchDone (api : HeliusApi) (job : ClaimedJob) (history : List Signature) (tr : Trace) (db : Db) :
    Prop :=
  ∃ ps cur reply nowTs page, pages tr = ps ++ [(cur, reply, nowTs)] ∧
    getSignatures api reply job.requestedHours nowTs = .ok page ∧
    CoveredBefore history job.address db cur ∧
    (page.last → ∀ e ∈ behind history cur, ∀ ts ∈ e.blockTime,
      cutoffTs job.requestedHours nowTs ≤ ts → db.HasRow job.address e.signature) ∧
    ∀ e ∈ behind history cur, (∀ ts ∈ e.blockTime, ts < cutoffTs job.requestedHours nowTs) →
      e.signature ∉ written tr

/-- The page in hand is the last one asked for. -/
def PageInHand (api : HeliusApi) (job : ClaimedJob) (history : List Signature) (tr : Trace) (db : Db)
    (page : SignaturesPage) : Prop :=
  ∃ ps cur reply nowTs result, pages tr = ps ++ [(cur, reply, nowTs)] ∧
    getSignatures api reply job.requestedHours nowTs = .ok page ∧
    page = pageOf result job.requestedHours nowTs ∧ Page 1000 (behind history cur) result ∧
    CoveredBefore history job.address db cur ∧ Ahead history tr cur

/-- What holds at each call of a run. -/
def Sweep (api : HeliusApi) (job : ClaimedJob) (history : List Signature) (tr : Trace) (db : Db)
    (j : ProcessingData) : Pc → Prop
  | .fetchPage cur _ =>
    j.status = .indexing ∧ CoveredBefore history job.address db cur ∧ Ahead history tr cur
  | .writeSignatures page _ => j.status = .indexing ∧ PageInHand api job history tr db page
  | .updateError => j.status = .indexing
  | .returned =>
    j.status = .ready → FetchDone api job history tr db ∧ db.unprocessedInWindow j = false
  | .panicked => True
  | _ => j.status = .indexing ∧ FetchDone api job history tr db

theorem FetchDone.mono {tr tr' : Trace} {db db' : Db} (h : FetchDone api job history tr db)
    (hp : pages tr' = pages tr) (hw : written tr' = written tr) (hle : db.Le db') :
    FetchDone api job history tr' db' := by
  obtain ⟨ps, cur, reply, nowTs, page, hlast, hget, hc, hrest, hdropped⟩ := h
  exact ⟨ps, cur, reply, nowTs, page, hp.trans hlast, hget, hc.mono hle, fun hl e he ts hts hcut =>
    (hrest hl e he ts hts hcut).mono hle, hw ▸ hdropped⟩

/-- Until the run is over, rows that are added do not matter. -/
theorem Sweep.mono {tr : Trace} {db db' : Db} {j : ProcessingData} {pc : Pc}
    (h : Sweep api job history tr db j pc) (hf : pc.final = false) (hle : db.Le db') :
    Sweep api job history tr db' j pc := by
  cases pc with
  | fetchPage cur sum => exact ⟨h.1, h.2.1.mono hle, h.2.2⟩
  | writeSignatures page sum =>
    obtain ⟨hs, ps, cur, reply, nowTs, result, hlast, hget, hpage, hp, hc, ha⟩ := h
    exact ⟨hs, ps, cur, reply, nowTs, result, hlast, hget, hpage, hp, hc.mono hle, ha⟩
  | updateError => exact h
  | returned => exact absurd hf (by simp [Pc.final])
  | panicked => exact absurd hf (by simp [Pc.final])
  | claimBatch => exact ⟨h.1, h.2.mono rfl rfl hle⟩
  | getTransaction signatures => exact ⟨h.1, h.2.mono rfl rfl hle⟩
  | writeTransactionInfo batch => exact ⟨h.1, h.2.mono rfl rfl hle⟩
  | writeTokenTransfers batch => exact ⟨h.1, h.2.mono rfl rfl hle⟩
  | markProcessed batch => exact ⟨h.1, h.2.mono rfl rfl hle⟩
  | updateReady => exact ⟨h.1, h.2.mono rfl rfl hle⟩

/-! ## One call -/

section Calls

variable {tr : Trace} {db db0 : Db} {n0 now : Int} {j : ProcessingData} {chosen : List String}
  {page : SignaturesPage} {sum : Nat}

theorem Sweep.pageFetched {reply : Replies} {nowTs : Int} {sum' : Nat}
    (h : Sweep api job history tr db j (.fetchPage cur sum))
    (hpage : getSignatures api reply job.requestedHours nowTs = .ok page)
    (hpages : HonestPages history
      (tr ++ [(⟨db0, n0, .fetchPage cur sum⟩, (now, .signatures reply nowTs))])) :
    Sweep api job history (tr ++ [(⟨db0, n0, .fetchPage cur sum⟩, (now, .signatures reply nowTs))])
      db j (.writeSignatures page sum') := by
  obtain ⟨hs, hc, ha⟩ := h
  have hlast : pages (tr ++ [(⟨db0, n0, Pc.fetchPage cur sum⟩, (now, .signatures reply nowTs))]) =
      pages tr ++ [(cur, reply, nowTs)] := pages_snoc tr _
  obtain ⟨k, result, hres, he⟩ := getSignatures_ok hpage
  have hp := hpages (cur, reply, nowTs) (by rw [hlast]; simp) k result hres
  have hwritten : written (tr ++ [(⟨db0, n0, Pc.fetchPage cur sum⟩,
      (now, .signatures reply nowTs))]) = written tr := written_snoc_of_nil rfl
  exact ⟨hs, pages tr, cur, reply, nowTs, result, hlast, hpage, he, hp, hc, fun e he =>
    hwritten ▸ ha e he⟩

/-- **The last page is written**: what it dropped is not. -/
theorem PageInHand.fetchDone (hist : History history) (h : PageInHand api job history tr db page)
    (hle : db.Le (db.writeSignatures page.response job.address).2) :
    FetchDone api job history (tr ++ [(⟨db0, n0, .writeSignatures page sum⟩, (now, .done chosen))])
      (db.writeSignatures page.response job.address).2 := by
  obtain ⟨ps, cur, reply, nowTs, result, hlast, hget, rfl, hp, hc, ha⟩ := h
  refine ⟨ps, cur, reply, nowTs, _, (pages_snoc_of_none rfl).trans hlast, hget, hc.mono hle,
    fun hl e he ts hts hcut => Db.hasRow_of_write (mem_last_page hist hp hl he hts hcut),
    fun e he hold hmem => ?_⟩
  rw [written_snoc] at hmem
  rcases List.mem_append.mp hmem with hmem | hmem
  · exact ha e he hmem
  · exact old_not_written hist hp he hold hmem

/-- **Another page is written**, and the cursor moves behind it. -/
theorem PageInHand.goesOn (hist : History history) (h : PageInHand api job history tr db page)
    (hnot : ¬page.last) :
    CoveredBefore history job.address (db.writeSignatures page.response job.address).2
        page.lastSignature ∧
      Ahead history (tr ++ [(⟨db0, n0, .writeSignatures page sum⟩, (now, .done chosen))])
        page.lastSignature := by
  obtain ⟨ps, cur, reply, nowTs, result, hlast, hget, rfl, hp, hc, ha⟩ := h
  refine ⟨covered_next hist hp hnot hc, fun e he hmem => ?_⟩
  obtain ⟨x, hx, hcur⟩ := lastSignature_of_not_last hnot
  rw [hcur] at he
  obtain ⟨hold, hnew⟩ := ahead_next hist hp ha hx he
  rw [written_snoc] at hmem
  exact (List.mem_append.mp hmem).elim hold hnew

theorem Sweep.signaturesWritten (hist : History history)
    (h : Sweep api job history tr db j (.writeSignatures page sum))
    (hle : db.Le (db.writeSignatures page.response job.address).2) :
    Sweep api job history (tr ++ [(⟨db0, n0, .writeSignatures page sum⟩, (now, .done chosen))])
      (db.writeSignatures page.response job.address).2 j (.afterPage job page sum) := by
  obtain ⟨hs, hpage⟩ := h
  unfold Pc.afterPage
  split
  · exact ⟨hs, hpage.fetchDone hist hle⟩
  · rename_i hstop
    have hnot := (not_last_of_goes_on (Bool.eq_false_iff.mpr hstop)).1
    exact ⟨hs, hpage.goesOn hist hnot⟩

/-- The guard looks at the window. -/
theorem Sweep.readyUpdated (h : Sweep api job history tr db j .updateReady)
    (hle : db.Le (db.updateProcessingStatusByJobId j.id .ready now).2)
    (hmay : db.mayUpdateStatus j.id .ready j = true) :
    Sweep api job history (tr ++ [(⟨db0, n0, .updateReady⟩, (now, .done chosen))])
      (db.updateProcessingStatusByJobId j.id .ready now).2 (Db.statusSet .ready now j) .returned := by
  refine fun _ => ⟨h.2.mono (pages_snoc_of_none rfl) (written_snoc_of_nil rfl) hle, ?_⟩
  rw [Db.unprocessedInWindow_statusSet]
  exact (Db.mayUpdateStatus_eq_true.mp hmay).2.2 rfl

/-- After a failed statement the job is still being indexed, or the run was over. -/
theorem Sweep.dbFailed {pc : Pc} (h : Sweep api job history tr db j pc)
    (hi : pc.issuesStatement = true) :
    Sweep api job history (tr ++ [(⟨db0, n0, pc⟩, (now, .dbError))]) db j pc.afterDbError := by
  have stay : j.status = .indexing → Sweep api job history
      (tr ++ [(⟨db0, n0, pc⟩, (now, Answer.dbError))]) db j pc.afterDbError := by
    intro hs
    cases pc <;> first | exact hs | exact fun hr => absurd (hs.symm.trans hr) (by simp)
  cases pc <;>
    first | exact stay h.1 | exact stay h | exact absurd hi (by simp [Pc.issuesStatement])

end Calls

/-- **The step lemma.** -/
theorem sweep_next (hist : History history) {tr : Trace} {db0 db db' : Db} {n0 now : Int}
    {j : ProcessingData} {pc pc' : Pc} {a : Answer} (hj : j ∈ db.processingData)
    (hcl : j.claimed = job) (h : Sweep api job history tr db j pc)
    (hn : Next api job now db pc a db' pc')
    (hpages : HonestPages history (tr ++ [(⟨db0, n0, pc⟩, (now, a))])) :
    ∃ j' ∈ db'.processingData, j'.claimed = job ∧
      Sweep api job history (tr ++ [(⟨db0, n0, pc⟩, (now, a))]) db' j' pc' := by
  have hid : job.jobId = j.id := hcl ▸ rfl
  have hle := hn.le
  -- the calls between the fetch and the status update
  have keep : db'.processingData = db.processingData →
      page? (⟨db0, n0, pc⟩, (now, a)) = none → writes (⟨db0, n0, pc⟩, (now, a)) = [] →
      (j.status = .indexing ∧ FetchDone api job history tr db) →
      ∃ j' ∈ db'.processingData, j'.claimed = job ∧ (j'.status = .indexing ∧
        FetchDone api job history (tr ++ [(⟨db0, n0, pc⟩, (now, a))]) db') := fun hpd hp hw h =>
    ⟨j, hpd ▸ hj, hcl, h.1, h.2.mono (pages_snoc_of_none hp) (written_snoc_of_nil hw) hle⟩
  cases hn with
  | pageFetched hpage => exact ⟨j, hj, hcl, h.pageFetched hpage hpages⟩
  | pageFailed herr => exact ⟨j, hj, hcl, h.1⟩
  | signaturesWritten => exact ⟨j, by simpa using hj, hcl, h.signaturesWritten hist hle⟩
  | nothingClaimed hc => exact keep rfl rfl rfl h
  | batchClaimed hc hne => exact keep rfl rfl rfl h
  | batchFetched hb => exact keep rfl rfl rfl h
  | batchPanicked hb => exact ⟨j, hj, hcl, trivial⟩
  | infoWritten => exact keep (by simp) rfl rfl h
  | transfersWritten => exact keep (by simp) rfl rfl h
  | batchMarked =>
    unfold Pc.afterBatch
    split
    · exact keep (by simp) rfl rfl h
    · exact ⟨j, by simpa using hj, hcl, h.1⟩
  | readyUpdated hone =>
    rw [hid] at hone hle ⊢
    have hmay := (Db.updateStatus_eq_one hj).mp hone
    exact ⟨_, Db.mem_updateStatus_of_may hj hmay, hcl, h.readyUpdated hle hmay⟩
  | readyBlocked hzero =>
    rw [hid] at hzero ⊢
    have hmay := (Db.updateStatus_eq_zero hj).mp hzero
    exact ⟨j, Db.mem_updateStatus_of_not hj hmay, hcl, h.1⟩
  | errorUpdated =>
    rw [hid]
    have hs : j.status = .indexing := h
    have hmay := Db.mayUpdateStatus_error db hs
    exact ⟨Db.statusSet .error now j, Db.mem_updateStatus_of_may hj hmay, hcl, fun hr =>
      absurd hr (by simp [Db.statusSet])⟩
  | dbFailed hi => exact ⟨j, hj, hcl, h.dbFailed hi⟩

/-- A run writes entries of the history only. -/
theorem agrees_next (hist : History history) {tr : Trace} {db db' : Db} {now : Int}
    {j : ProcessingData} {pc pc' : Pc} {a : Answer} (h : Sweep api job history tr db j pc)
    (hn : Next api job now db pc a db' pc') (hag : db.AgreesWith history job.address) :
    db'.AgreesWith history job.address := by
  cases hn with
  | @signaturesWritten page sum chosen =>
    obtain ⟨-, ps, cur, reply, nowTs, result, -, -, rfl, hp, -, -⟩ := h
    refine hag.write hist.nodup fun e he => ?_
    have hresult : e ∈ result := (mem_takeRecent he).1
    exact after_suffix.mem (hp.next.mem hresult)
  | nothingClaimed hc => exact hag.of_later Db.claim_later
  | batchClaimed hc hne => exact hag.of_later Db.claim_later
  | batchMarked => exact hag.of_later Db.mark_later
  | infoWritten =>
    unfold Db.AgreesWith
    rw [Db.writeTransactionInfo_signatures]
    exact hag
  | transfersWritten =>
    unfold Db.AgreesWith
    rw [Db.writeTokenTransfers_signatures]
    exact hag
  | pageFetched hpage => exact hag
  | pageFailed herr => exact hag
  | batchFetched hb => exact hag
  | batchPanicked hb => exact hag
  | readyUpdated hone => exact hag
  | readyBlocked hzero => exact hag
  | errorUpdated => exact hag
  | dbFailed hi => exact hag

/-! ## Every run -/

theorem sweep_run (hist : History history) {s0 t : Local} {tr : Trace}
    (hrun : Run (LocalStep api job (Grows history job)) s0 tr t) (hstart : s0.pc = Pc.start job)
    (hjob : ∃ j ∈ s0.db.processingData, j.claimed = job ∧ j.status = .indexing)
    (hag : s0.db.AgreesWith history job.address) (hpages : HonestPages history tr) :
    t.db.AgreesWith history job.address ∧
      ∃ j ∈ t.db.processingData, j.claimed = job ∧ Sweep api job history tr t.db j t.pc := by
  refine hrun.invariant_trace (I := fun tr t => HonestPages history tr →
    t.db.AgreesWith history job.address ∧
      ∃ j ∈ t.db.processingData, j.claimed = job ∧ Sweep api job history tr t.db j t.pc) ?_ ?_ hpages
  · rintro -
    obtain ⟨j, hj, hcl, hs⟩ := hjob
    refine ⟨hag, j, hj, hcl, ?_⟩
    rw [hstart]
    unfold Pc.start
    split
    · trivial
    · exact ⟨hs, fun e he _ => Or.inl he, fun _ _ => List.not_mem_nil⟩
  · rintro tr ⟨db0, n0, pc⟩ ⟨now, a⟩ ⟨db', n', pc'⟩ - ih ⟨db, hgrows, -, -, hstep⟩ hpages
    have hpages' : HonestPages history tr := fun p hp => hpages p (by
      rw [pages_snoc]
      exact List.mem_append_left _ hp)
    obtain ⟨hag, j, hj, hcl, hsweep⟩ := ih hpages'
    have hn := step_next hstep
    have hid : j.id = job.jobId := hcl ▸ rfl
    have hsweep' := hsweep.mono hn.not_final hgrows.le
    exact ⟨agrees_next hist hsweep' hn (hgrows.agrees hag),
      sweep_next hist ((hgrows.jobs j hid).mp hj) hcl hsweep' hn hpages⟩

theorem LocalStep.le {s s' : Local} {e : Event} (h : LocalStep api job (Grows history job) s e s') :
    s.db.Le s'.db := by
  obtain ⟨db, hgrows, -, -, hstep⟩ := h
  exact hgrows.le.trans (step_next hstep).le

/-- A row from elsewhere is there at the end. -/
theorem hasRow_of_elsewhere {s0 t : Local} {tr : Trace}
    (hrun : Run (LocalStep api job (Grows history job)) s0 tr t) {address s : String}
    (h : s0.db.HasRow address s ∨ OthersWrite address s tr t) : t.db.HasRow address s := by
  rcases h with h | ⟨m, hm, -, h, -⟩
  · exact h.mono (hrun.relation (R := fun s t => s.db.Le t.db) (fun _ => .refl _)
      (fun h h' => h.trans h') fun _ _ _ hstep => hstep.le)
  · exact h.mono (hrun.relation_moves (R := fun s t => s.db.Le t.db) (fun _ => .refl _)
      (fun h h' => h.trans h') (fun _ _ _ hstep => hstep.le) m hm)

/-- **What a ready job has covered.** Whatever the waiting times and whatever the others add: when
a run that did not stop at `tx_limit` returns with its job ready, every signature of the history in
the job's window has a processed row if and only if those behind the last page's cursor that are
older than its cut-off have rows from elsewhere, from before the run or written by others during
it. -/
theorem window_covered_iff (hist : History history) {s0 t : Local} {tr : Trace}
    (hrun : Run (LocalStep api job (Grows history job)) s0 tr t) (hstart : s0.pc = Pc.start job)
    (hjob : ∃ j ∈ s0.db.processingData, j.claimed = job ∧ j.status = .indexing)
    (hag : s0.db.AgreesWith history job.address) (hpages : HonestPages history tr)
    (hret : t.pc = .returned) {j : ProcessingData} (hj : j ∈ t.db.processingData)
    (hcl : j.claimed = job) (hready : j.status = .ready)
    {ps : List (Option String × Replies × Int)} {cur : Option String} {reply : Replies} {nowTs : Int}
    (hlast : pages tr = ps ++ [(cur, reply, nowTs)])
    (hstop : ∀ page, getSignatures api reply job.requestedHours nowTs = .ok page → page.last) :
    (∀ e ∈ history, j.InWindow e.blockTime → t.db.Processed job.address e.signature) ↔
      ∀ e ∈ behind history cur, j.InWindow e.blockTime →
        (∀ ts ∈ e.blockTime, ts < cutoffTs job.requestedHours nowTs) →
        s0.db.HasRow job.address e.signature ∨ OthersWrite job.address e.signature tr t := by
  obtain ⟨hagree, j', hj', hcl', hsweep⟩ := sweep_run hist hrun hstart hjob hag hpages
  have hadd : j.address = job.address := hcl ▸ rfl
  have hid : j.id = j'.id := (congrArg ClaimedJob.jobId (hcl.trans hcl'.symm) : _)
  obtain rfl := Table.eq_of_key hj hj' hid
  rw [hret] at hsweep
  obtain ⟨⟨ps', cur', reply', nowTs', page, hlast', hget, hc, hrest, hdropped⟩, hwindow⟩ :=
    hsweep hready
  obtain ⟨-, he⟩ := List.append_inj' (hlast.symm.trans hlast') rfl
  obtain ⟨rfl, hreply⟩ := Prod.mk.inj (List.cons.inj he).1
  obtain ⟨rfl, rfl⟩ := Prod.mk.inj hreply
  constructor
  · intro h e he hw hold
    rcases hasRow_origin hrun (h e (after_suffix.mem he) hw).hasRow with h0 | hwritten | hothers
    · exact Or.inl h0
    · exact absurd hwritten (hdropped e he hold)
    · exact Or.inr hothers
  · intro h e he hw
    have hrow : t.db.HasRow job.address e.signature := by
      have ⟨ts, hts, _⟩ := hw
      rcases hc e he (by rw [hts]; simp) with hbehind | hrow
      · by_cases hcut : cutoffTs job.requestedHours nowTs ≤ ts
        · exact hrest (hstop page hget) e hbehind ts hts hcut
        · refine hasRow_of_elsewhere hrun (h e hbehind hw fun ts' hts' => ?_)
          rw [Option.mem_def.mp hts] at hts'
          have : ts = ts' := Option.some.inj hts'
          omega
      · exact hrow
    obtain ⟨r, hr, hk⟩ := Table.mem_keys.mp hrow
    obtain ⟨ha, hs⟩ := Prod.mk.inj hk
    have hb : r.blockTime = e.blockTime := hagree r hr ha e he hs.symm
    exact ⟨r, hr, hk, Db.unprocessedInWindow_eq_false.mp hwindow r hr (ha.trans hadd.symm)
      (hb ▸ hw)⟩

end Network

/-- Of the last two hours one signature that an earlier job of the address has processed, and a newer
one. -/
def twoSignatures : List Signature := [⟨some 9000, "s1"⟩, ⟨some 6450, "s0"⟩]

/-- The job waits 100 seconds. The row of the older signature is there. -/
def twoSignaturesStart : Local :=
  let db := ((sampleDb 10100).writeSignatures ⟨[⟨some 6450, "s0"⟩]⟩ "A").2
  ⟨(db.markSignaturesProcessed "A" ["s0"]).2, 10100 * 1000000, Pc.start sampleJob⟩

/-- The older signature is dropped from the page, the newer one is written and processed. -/
def oneSignature : List Event :=
  let t : Int := 10100 * 1000000
  [(t, .signatures (servePage twoSignatures) 10100), (t, .done []), (t, .done ["s1"]),
    (t, .transactions fun _ => serveTransaction "s1"), (t, .done []), (t, .done []), (t, .done []),
    (t, .done []), (t, .done [])]

theorem window_covered_iff_oneSignature :
    letI : External := smallNetwork [twoSignatures] ["s1"]
    ∃ tr t j, Run (LocalStep sampleApi sampleJob (Grows twoSignatures sampleJob))
        twoSignaturesStart tr t ∧
      tr.map Prod.snd = oneSignature ∧ j ∈ t.db.processingData ∧ j.status = .ready ∧
      j.InWindow (some 6450) ∧ 6450 < cutoffTs 1 10100 ∧
      ((∀ e ∈ twoSignatures, j.InWindow e.blockTime → t.db.Processed "A" e.signature) ↔
        ∀ e ∈ behind twoSignatures none, j.InWindow e.blockTime →
          (∀ ts ∈ e.blockTime, ts < cutoffTs 1 10100) →
          twoSignaturesStart.db.HasRow "A" e.signature ∨ OthersWrite "A" e.signature tr t) := by
  let : External := smallNetwork [twoSignatures] ["s1"]
  obtain ⟨tr, t, hrun, hlab, htest⟩ := exists_run_of_exec (localStep sampleApi sampleJob)
    twoSignaturesStart oneSignature (fun tr t => t.pc.isReturned &&
      decide ((pages tr).map Prod.fst = [none]) &&
      decide (∃ j ∈ t.db.processingData, j.claimed = sampleJob ∧ j.status = .ready ∧
        j.InWindow (some 6450)))
    (by decide +kernel)
  simp only [Bool.and_eq_true, decide_eq_true_eq] at htest
  obtain ⟨⟨hret, hcur⟩, j, hj, hcl, hready, hw⟩ := htest
  have hrun := hrun.imp (localStep_of_eq (Grows.refl twoSignatures sampleJob))
  have hpages : pages tr = [] ++ [(none, servePage twoSignatures, 10100)] :=
    pages_of_labels hcur (by rw [hlab]; simp [oneSignature])
  refine ⟨tr, t, j, hrun, hlab, hj, hready, hw, by decide, window_covered_iff ?_ hrun rfl
    (sampleDb_job 10100) ?_ ?_ (Pc.eq_returned hret) hj hcl hready hpages ?_⟩
  · exact ⟨by decide, by decide⟩
  · intro r hr
    revert r
    decide +kernel
  · exact honestPages_of_single hpages
  · intro page hpage
    obtain ⟨k, result, hres, rfl⟩ := getSignatures_ok hpage
    obtain rfl := Option.some.inj ((signaturesOf_servePage _ _ k).symm.trans hres)
    exact Or.inr (Or.inr (by decide))

/-- The job waits 100 seconds; the only signature is 50 seconds younger than the start of its
window and 50 seconds older than the cut-off. -/
def droppedSignature : List Event :=
  let t : Int := 10100 * 1000000
  [(t, .signatures (servePage [⟨some 6450, "s1"⟩]) 10100), (t, .done []), (t, .done []),
    (t, .done [])]

/-- **A ready job that has not covered its window.** -/
theorem not_covered_droppedSignature :
    letI : External := smallNetwork [[⟨some 6450, "s1"⟩]] []
    let history : List Signature := [⟨some 6450, "s1"⟩]
    ∃ tr t j, Run (LocalStep sampleApi sampleJob (Grows history sampleJob)) (sampleStart 10100) tr t ∧
      tr.map Prod.snd = droppedSignature ∧ History history ∧ HonestPages history tr ∧
      t.pc = .returned ∧ j ∈ t.db.processingData ∧ j.claimed = sampleJob ∧ j.status = .ready ∧
      ¬∀ e ∈ history, j.InWindow e.blockTime → t.db.Processed "A" e.signature := by
  let : External := smallNetwork [[⟨some 6450, "s1"⟩]] []
  obtain ⟨tr, t, hrun, hlab, htest⟩ := exists_run_of_exec (localStep sampleApi sampleJob)
    (sampleStart 10100) droppedSignature (fun tr t => t.pc.isReturned &&
      decide ((pages tr).map Prod.fst = [none]) && t.db.signatures.rows.isEmpty &&
      decide (∃ j ∈ t.db.processingData, j.claimed = sampleJob ∧ j.status = .ready ∧
        j.InWindow (some 6450))) (by decide +kernel)
  simp only [Bool.and_eq_true, decide_eq_true_eq] at htest
  obtain ⟨⟨⟨hret, hcur⟩, hempty⟩, j, hj, hcl, hready, hw⟩ := htest
  have hpages : pages tr = [(none, servePage [⟨some 6450, "s1"⟩], 10100)] :=
    pages_of_labels hcur (by rw [hlab]; simp [droppedSignature])
  refine ⟨tr, t, j, hrun.imp (localStep_of_eq (Grows.refl _ sampleJob)), hlab,
    ⟨by decide, List.pairwise_singleton _ _⟩, honestPages_of_single hpages, Pc.eq_returned hret, hj,
    hcl, hready, fun h => ?_⟩
  obtain ⟨r, hr, -, -⟩ := h ⟨some 6450, "s1"⟩ (List.mem_singleton_self _) hw
  rw [← Table.mem_rows, List.isEmpty_iff.mp hempty] at hr
  exact absurd hr List.not_mem_nil

end OnChainEventIndexer
