import OnChainEventIndexer.Indexer.PageBound
import OnChainEventIndexer.Indexer.Recovery

/-!
# What the paging loop leaves behind

The pages of a run in which every call succeeds: each is the next piece of the history behind its
cursor, and is filtered by the wall clock it arrives at, not later than `nowTs`. Rows of the
address may be there already, and others may add some.

The invariant is `Listed`: the entries up to the cursor have rows, and are counted. When the loop is
left, the newest `tx_limit` entries that are recent at `nowTs` have rows (`listed_next`).
-/

namespace OnChainEventIndexer

open Keyed Paging

/-! ## Counting entries -/

theorem timed_append (l l' : List Signature) : timed (l ++ l') = timed l + timed l' :=
  List.countP_append

/-- A later clock keeps less. -/
theorem cutoffTs_mono (hours : Int16) {n nowTs : Int} (h : n ≤ nowTs) :
    cutoffTs hours n ≤ cutoffTs hours nowTs := by
  unfold cutoffTs
  omega

/-- Where something recent follows, every entry with a block time is recent. -/
theorem length_recentOf {job : ClaimedJob} {nowTs : Int} {front rest : List Signature}
    (hsorted : Sorted (front ++ rest)) (hne : recentOf job nowTs rest ≠ []) :
    (recentOf job nowTs front).length = timed front := by
  obtain ⟨x, hx⟩ := List.exists_mem_of_ne_nil _ hne
  obtain ⟨y, hy, -⟩ := List.mem_map.mp hx
  obtain ⟨hy, hrecent⟩ := List.mem_filter.mp hy
  obtain ⟨ty, hty, hcut⟩ := Signature.recent_eq_true.mp hrecent
  unfold recentOf timed
  rw [List.length_map, ← List.countP_eq_length_filter]
  refine List.countP_congr fun e he => ?_
  constructor
  · intro hr
    obtain ⟨ts, hts, -⟩ := Signature.recent_eq_true.mp hr
    rw [hts]
    rfl
  · intro hsome
    obtain ⟨ts, hts⟩ := Option.isSome_iff_exists.mp hsome
    have hle : ty ≤ ts := (List.pairwise_append.mp hsorted).2.2 e he y hy ts hts ty hty
    exact Signature.recent_eq_true.mpr ⟨ts, hts, by omega⟩

/-- The newest `limit` recent entries are among the first ones, if there are so many of these. -/
theorem mem_front_of_take {job : ClaimedJob} {nowTs : Int} {front rest : List Signature} {limit : Nat}
    (hsorted : Sorted (front ++ rest)) (hlimit : limit ≤ timed front) {s : String}
    (hs : s ∈ (recentOf job nowTs (front ++ rest)).take limit) : s ∈ recentOf job nowTs front := by
  rw [recentOf_append] at hs
  by_cases hne : recentOf job nowTs rest = []
  · rw [hne, List.append_nil] at hs
    exact List.mem_of_mem_take hs
  · rw [List.take_append_of_le_length (by rwa [length_recentOf hsorted hne])] at hs
    exact List.mem_of_mem_take hs

theorem mem_recentOf {job : ClaimedJob} {nowTs : Int} {l : List Signature} {s : String} :
    s ∈ recentOf job nowTs l ↔
      ∃ e ∈ l, e.signature = s ∧ ∃ ts, e.blockTime = some ts ∧
      cutoffTs job.requestedHours nowTs ≤ ts := by
  unfold recentOf
  constructor
  · intro h
    obtain ⟨e, he, hs⟩ := List.mem_map.mp h
    obtain ⟨he, hr⟩ := List.mem_filter.mp he
    exact ⟨e, he, hs, Signature.recent_eq_true.mp hr⟩
  · rintro ⟨e, he, hs, hr⟩
    exact List.mem_map.mpr ⟨e, List.mem_filter.mpr ⟨he, Signature.recent_eq_true.mpr hr⟩, hs⟩

/-! ## The invariant -/

/-- The newest `tx_limit` of the recent entries have rows. -/
def NewestListed (job : ClaimedJob) (history : List Signature) (nowTs : Int) (db : Db) : Prop :=
  ∀ s ∈ (recentOf job nowTs history).take (effectiveTxLimit job.txLimit), db.HasRow job.address s

/-- Up to the cursor the entries with a block time have rows, and there are `sum` of them. -/
def ListedTo (job : ClaimedJob) (history : List Signature) (db : Db) (cur : Option String)
    (sum : Nat) : Prop :=
  CoveredBefore history job.address db cur ∧ sum + timed (behind history cur) = timed history

/-- What holds at each call. -/
def Listed (job : ClaimedJob) (history : List Signature) (nowTs : Int) (db : Db) : Pc → Prop
  | .fetchPage cur sum => ListedTo job history db cur sum
  | .writeSignatures page sum => ∃ cur result n before, Page 1000 (behind history cur) result ∧
      n ≤ nowTs ∧ page = pageOf result job.requestedHours n ∧
      sum = before + page.response.result.length ∧ ListedTo job history db cur before
  | _ => NewestListed job history nowTs db

variable {job : ClaimedJob} {history : List Signature} {nowTs : Int} {db db' : Db}

theorem NewestListed.mono (h : NewestListed job history nowTs db) (hle : db.Le db') :
    NewestListed job history nowTs db' := fun s hs => (h s hs).mono hle

theorem Listed.mono {pc : Pc} (h : Listed job history nowTs db pc) (hle : db.Le db') :
    Listed job history nowTs db' pc := by
  cases pc with
  | fetchPage cur sum => exact ⟨h.1.mono hle, h.2⟩
  | writeSignatures page sum =>
    obtain ⟨cur, result, n, before, hp, hn, hpage, hsum, hc, hb⟩ := h
    exact ⟨cur, result, n, before, hp, hn, hpage, hsum, hc.mono hle, hb⟩
  | _ => exact NewestListed.mono h hle

theorem listed_start (job : ClaimedJob) (history : List Signature) (nowTs : Int) (db : Db) :
    Listed job history nowTs db (.fetchPage none 0) :=
  ⟨fun _ he _ => Or.inl he, Nat.zero_add _⟩

/-! ## One page -/

/-- **A page that is not the last** takes the cursor on. -/
theorem listedTo_next (hist : History history) {cur : Option String} {result : List Signature}
    {n : Int} {before : Nat} (hp : Page 1000 (behind history cur) result)
    (hnot : ¬(pageOf result job.requestedHours n).last) (h : ListedTo job history db cur before) :
    ListedTo job history
      (db.writeSignatures (pageOf result job.requestedHours n).response job.address).2
      (pageOf result job.requestedHours n).lastSignature
      (before + (pageOf result job.requestedHours n).response.result.length) := by
  refine ⟨covered_next hist hp hnot h.1, ?_⟩
  obtain ⟨x, hx, hcur⟩ := lastSignature_of_not_last hnot
  have hrest : behind history (some x.signature) = (behind history cur).drop result.length :=
    after_last hist.nodup hp.next hx
  have hkept : (pageOf result job.requestedHours n).response.result.length = timed result :=
    length_takeRecent_of_goesOn (Bool.eq_false_iff.mpr fun hcut => hnot (Or.inl hcut))
  obtain ⟨rest, hsplit⟩ := hp.next
  have hcount := h.2
  rw [← hsplit, timed_append] at hcount
  rw [hcur, hrest, ← hsplit, List.drop_left, hkept]
  omega

/-- Behind the last page nothing recent is left. -/
theorem newestListed_of_last (hist : History history) {cur : Option String} {result : List Signature}
    {n : Int} (hn : n ≤ nowTs) (hp : Page 1000 (behind history cur) result)
    (hlast : (pageOf result job.requestedHours n).last)
    (hc : CoveredBefore history job.address db cur) : NewestListed job history nowTs
      (db.writeSignatures (pageOf result job.requestedHours n).response job.address).2 := by
  intro s hs
  obtain ⟨e, he, rfl, ts, hts, hcut⟩ := mem_recentOf.mp (List.mem_of_mem_take hs)
  rcases hc e he (by rw [hts]; simp) with hbehind | hrow
  · have hle := cutoffTs_mono job.requestedHours hn
    exact Db.hasRow_of_write (mem_last_page hist hp hlast hbehind hts (by omega))
  · exact hrow.mono (Db.le_writeSignatures db _ _)

/-- `tx_limit` entries are the newest ones. -/
theorem newestListed_of_limit (hist : History history) {cur : Option String} {sum : Nat}
    (h : ListedTo job history db cur sum) (hlimit : effectiveTxLimit job.txLimit ≤ sum) :
    NewestListed job history nowTs db := by
  obtain ⟨front, hfront⟩ : behind history cur <:+ history := after_suffix
  have hcount := h.2
  have hsorted : Sorted (front ++ behind history cur) := by
    rw [hfront]
    exact hist.newestFirst
  have hnd : ((front ++ behind history cur).map (·.signature)).Nodup := by
    rw [hfront]
    exact hist.nodup
  have htotal : timed history = timed front + timed (behind history cur) := by
    rw [← timed_append, hfront]
  intro s hs
  have hs' : s ∈ (recentOf job nowTs (front ++ behind history cur)).take
      (effectiveTxLimit job.txLimit) := by rwa [hfront]
  obtain ⟨e, he, rfl, ts, hts, -⟩ := mem_recentOf.mp (mem_front_of_take hsorted (by omega) hs')
  have hmem : e ∈ history := hfront ▸ List.mem_append_left _ he
  refine (h.1 e hmem (by rw [hts]; simp)).resolve_left fun hbehind => ?_
  rw [List.map_append, List.nodup_append] at hnd
  exact hnd.2.2 _ (List.mem_map_of_mem he) _ (List.mem_map_of_mem hbehind) rfl

/-! ## One call -/

variable [External] {api : HeliusApi}

/-- **The step lemma.** -/
theorem listed_next (hist : History history) {now : Int} {pc pc' : Pc} {a : Answer}
    (h : Listed job history nowTs db pc) (hs : Succeeds api job history pc a)
    (hclock : ∀ reply n, a = .signatures reply n → n ≤ nowTs)
    (hn : Next api job now db pc a db' pc') : Listed job history nowTs db' pc' := by
  have hle := hn.le
  cases hn with
  | @pageFetched cur sum reply n page hpage =>
    obtain ⟨k, result, hres, rfl⟩ := getSignatures_ok hpage
    exact ⟨cur, result, n, sum, hs.2 k result hres, hclock reply n rfl, rfl, rfl, h⟩
  | pageFailed herr =>
    obtain ⟨⟨page, hpage⟩, -⟩ := hs
    exact absurd (herr.symm.trans hpage) (by simp)
  | @signaturesWritten page sum chosen =>
    obtain ⟨cur, result, n, before, hp, hn, rfl, rfl, hto⟩ := h
    unfold Pc.afterPage
    by_cases hlast : (pageOf result job.requestedHours n).last
    · have hall := newestListed_of_last hist hn hp hlast hto.1
      split
      · exact hall
      · rename_i hgo
        exact absurd hlast (not_last_of_goes_on (Bool.eq_false_iff.mpr hgo)).1
    · have hnext := listedTo_next hist hp hlast hto
      split
      · rename_i hstop
        exact newestListed_of_limit hist hnext ((last_of_stopsPaging hstop).resolve_left hlast)
      · exact hnext
  | @batchMarked batch chosen =>
    unfold Pc.afterBatch
    split <;> exact NewestListed.mono h hle
  | dbFailed hi => exact absurd hs (by cases pc <;> simp [Succeeds])
  | _ => exact NewestListed.mono h hle

end OnChainEventIndexer
