import OnChainEventIndexer.Db.Statements
import OnChainEventIndexer.Indexer.Fetch
import Mathlib.Algebra.BigOperators.Group.Finset.Basic
import Mathlib.Algebra.Order.BigOperators.Group.Finset

/-!
# How long the paging loop runs

`fetch_signatures` against a server that answers every request with a page, of whatever entries:
the `i`-th request gets `rpc i`, whose entries are `result i`, at the time `clock i`
(`AnsweredBy`). Nothing is assumed of the cursors, and the others may do anything to the database. A
page is written if PostgreSQL takes its INSERT; any call may fail.

The loop counts the entries it keeps, and an entry without a block time is not kept. So a full page
need not bring it closer to `tx_limit`.

* `pageInv_step`: the pages asked for so far have not ended the loop, but perhaps the last one.
* `exists_rounds`: while no page ends it, it goes on.
* **`paging_ends_iff`**: the loop is left after `max 1 tx_limit` pages if and only if one of them
  is short or reaches the cut-off, or its INSERT is refused, or they carry `tx_limit` entries with a
  block time.
-/

namespace OnChainEventIndexer

open Keyed Lts Finset

/-! ## The entries a page keeps -/

/-- The entries with a block time. -/
def timed (result : List Signature) : Nat := result.countP (·.blockTime.isSome)

theorem length_takeRecent_le_timed (c : Int) (l : List Signature) :
    (takeRecent c l).signatures.length ≤ timed l := by
  unfold timed
  induction l with
  | nil => exact Nat.le_refl _
  | cons x xs ih =>
    simp only [takeRecent]
    cases hb : x.blockTime with
    | none => simpa [hb] using ih
    | some ts =>
      simp only
      split
      · simpa [hb] using ih
      · exact Nat.zero_le _

/-- Without a `break` every entry with a block time is kept. -/
theorem takeRecent_of_goesOn {c : Int} {l : List Signature}
    (h : (takeRecent c l).reachedCutoff = false) :
    (takeRecent c l).signatures = l.filter (·.blockTime.isSome) := by
  induction l with
  | nil => rfl
  | cons x xs ih =>
    simp only [takeRecent] at h ⊢
    cases hb : x.blockTime with
    | none =>
      rw [hb] at h
      rw [List.filter_cons_of_neg (by simp [hb])]
      exact ih h
    | some ts =>
      rw [hb] at h
      simp only at h ⊢
      split at h
      · rename_i hc
        rw [if_pos hc, List.filter_cons_of_pos (by simp [hb]), ← hb]
        exact congrArg (x :: ·) (ih h)
      · exact absurd h (by simp)

theorem length_takeRecent_of_goesOn {c : Int} {l : List Signature}
    (h : (takeRecent c l).reachedCutoff = false) : (takeRecent c l).signatures.length = timed l := by
  rw [takeRecent_of_goesOn h]
  exact List.countP_eq_length_filter.symm

/-! ## The loop and its server -/

/-- The `i`-th request for a page is answered with `rpc i`, at the time `clock i`. -/
def AnsweredBy (rpc : Nat → Replies) (clock : Nat → Int) (tr : Trace) : Prop :=
  ∀ i p, (pages tr)[i]? = some p → p.2 = (rpc i, clock i)

/-- A call of the paging loop. -/
def Pc.paging : Pc → Bool
  | .fetchPage _ _ => true
  | .writeSignatures _ _ => true
  | _ => false

section Pages

variable [External]

/-- What is executed is what PostgreSQL takes. `fetch_signatures` has masked the address. -/
def Taken (job : ClaimedJob) : Pc → Answer → Prop
  | .writeSignatures page _, .done _ =>
    (DbCall.writeSignatures page.response job.address).rejected = false
  | _, _ => True

/-- A step while the others do what they like. -/
abbrev AnyStep (api : HeliusApi) (job : ClaimedJob) : Local → Event → Local → Prop :=
  Guarded (LocalStep api job fun _ _ => True) fun s e => Taken job s.pc e.2

/-- **The loop is left** after `limit` pages: every run from its start asks for so many pages at
most, is in the loop for two calls a page, and goes on as long as it is. -/
structure PagingEnds (api : HeliusApi) (job : ClaimedJob) (rpc : Nat → Replies) (clock : Nat → Int)
    (limit : Nat) : Prop where
  bounded : ∀ s tr t, s.pc = .fetchPage none 0 → Run (AnyStep api job) s tr t →
    AnsweredBy rpc clock tr → (pages tr).length ≤ limit
  leaves : ∀ s tr t, s.pc = .fetchPage none 0 → Run (AnyStep api job) s tr t →
    AnsweredBy rpc clock tr → t.pc.paging = true → tr.length < 2 * limit
  goesOn : ∀ s tr t, s.pc = .fetchPage none 0 → Run (AnyStep api job) s tr t →
    AnsweredBy rpc clock tr → t.pc.paging = true → ∀ now, t.now ≤ now →
      ∃ a t', AnyStep api job t (now, a) t' ∧ AnsweredBy rpc clock (tr ++ [(t, (now, a))])

/-- Among the first `n` pages one is short or reaches the cut-off, or PostgreSQL does not take the
INSERT of its entries with a block time, or they carry `limit` entries with a block time. -/
def PagesSuffice (job : ClaimedJob) (limit : Nat) (result : Nat → List Signature)
    (clock : Nat → Int) (n : Nat) : Prop :=
  (∃ i < n, (result i).length < 1000 ∨
      (∃ e ∈ result i, ∃ ts, e.blockTime = some ts ∧
        ts < cutoffTs job.requestedHours (clock i)) ∨
      (DbCall.writeSignatures ⟨(result i).filter (·.blockTime.isSome)⟩ job.address).rejected = true) ∨
    limit ≤ ∑ i ∈ range n, timed (result i)

end Pages

variable {api : HeliusApi} {job : ClaimedJob} {rpc : Nat → Replies} {clock : Nat → Int}
  {result : Nat → List Signature} {n : Nat}

theorem AnsweredBy.init {tr : Trace} {x : Local × Event} (h : AnsweredBy rpc clock (tr ++ [x])) :
    AnsweredBy rpc clock tr := by
  intro i p hp
  refine h i p ?_
  rw [pages_snoc, List.getElem?_append_left (List.getElem?_eq_some_iff.mp hp).1]
  exact hp

theorem AnsweredBy.last {tr : Trace} {x : Local × Event} {p : Option String × Replies × Int}
    (h : AnsweredBy rpc clock (tr ++ [x])) (hx : page? x = some p) :
    p.2 = (rpc (pages tr).length, clock (pages tr).length) := by
  refine h _ p ?_
  rw [pages_snoc, hx]
  exact List.getElem?_concat_length

theorem AnsweredBy.snoc {tr : Trace} {x : Local × Event} (h : AnsweredBy rpc clock tr)
    (hx : ∀ p, page? x = some p → p.2 = (rpc (pages tr).length, clock (pages tr).length)) :
    AnsweredBy rpc clock (tr ++ [x]) := by
  intro i p hp
  rw [pages_snoc] at hp
  cases hpage : page? x with
  | none =>
    rw [hpage, Option.toList_none, List.append_nil] at hp
    exact h i p hp
  | some q =>
    rw [hpage, Option.toList_some] at hp
    have hi := (List.getElem?_eq_some_iff.mp hp).1
    rw [List.length_append, List.length_singleton] at hi
    rcases Nat.lt_succ_iff_lt_or_eq.mp hi with hlt | rfl
    · rw [List.getElem?_append_left hlt] at hp
      exact h i p hp
    · rw [List.getElem?_concat_length] at hp
      obtain rfl := Option.some.inj hp
      exact hx q hpage

/-- The `i`-th page. -/
def pageAt (job : ClaimedJob) (result : Nat → List Signature) (clock : Nat → Int) (i : Nat) :
    SignaturesPage :=
  pageOf (result i) job.requestedHours (clock i)

/-- What the first `n` pages keep. -/
def kept (job : ClaimedJob) (result : Nat → List Signature) (clock : Nat → Int) (n : Nat) : Nat :=
  ∑ i ∈ range n, (pageAt job result clock i).response.result.length

/-- The `i`-th page stops the loop. -/
def stopsAt (job : ClaimedJob) (result : Nat → List Signature) (clock : Nat → Int) (i : Nat) : Bool :=
  stopsPaging job (pageAt job result clock i) (kept job result clock (i + 1))

theorem kept_succ (n : Nat) : kept job result clock (n + 1) =
    kept job result clock n + (pageAt job result clock n).response.result.length :=
  sum_range_succ _ n

theorem kept_le_timed (n : Nat) :
    kept job result clock n ≤ ∑ i ∈ range n, timed (result i) :=
  sum_le_sum fun _ _ => length_takeRecent_le_timed _ _

/-- A page that is short, or reaches the cut-off. -/
theorem stopsAt_of_page {i : Nat} (h : (result i).length < 1000 ∨ ∃ e ∈ result i, ∃ ts,
    e.blockTime = some ts ∧ ts < cutoffTs job.requestedHours (clock i)) :
    stopsAt job result clock i = true := by
  unfold stopsAt stopsPaging pageAt pageOf takeRecentSignaturesAt
  rcases h with hshort | hcut
  · simp [hshort]
  · simp [takeRecent_reachedCutoff.mpr hcut]

theorem not_page_of_goesOn {i : Nat} (h : stopsAt job result clock i = false) :
    1000 ≤ (result i).length ∧
      (takeRecent (cutoffTs job.requestedHours (clock i)) (result i)).reachedCutoff = false ∧
      kept job result clock (i + 1) < effectiveTxLimit job.txLimit := by
  unfold stopsAt stopsPaging pageAt pageOf takeRecentSignaturesAt at h
  simp only [Bool.or_eq_false_iff, decide_eq_false_iff_not, Nat.not_lt, Nat.not_le] at h
  exact ⟨h.1.2, h.1.1.1, h.2⟩

/-- A full page that reaches no cut-off stops the loop by the entries kept so far. -/
theorem le_kept_of_stopsAt {i : Nat} (hlen : ¬(result i).length < 1000)
    (hcut : (takeRecent (cutoffTs job.requestedHours (clock i)) (result i)).reachedCutoff = false)
    (hstop : stopsAt job result clock i = true) :
    effectiveTxLimit job.txLimit ≤ kept job result clock (i + 1) := by
  have hne : result i ≠ [] := by
    intro he
    rw [he] at hlen
    exact hlen (by simp)
  unfold stopsAt stopsPaging pageAt pageOf takeRecentSignaturesAt at hstop
  simpa only [hcut, Bool.false_or, Bool.or_eq_true, decide_eq_true_eq, hlen, false_or,
    Option.isNone_iff_eq_none, Option.map_eq_none_iff, List.getLast?_eq_none_iff, hne] using hstop

/-- A page without a `break` is written whole, but for the entries without a block time. -/
theorem pageAt_response {i : Nat}
    (hcut : (takeRecent (cutoffTs job.requestedHours (clock i)) (result i)).reachedCutoff = false) :
    (pageAt job result clock i).response = ⟨(result i).filter (·.blockTime.isSome)⟩ :=
  congrArg RpcResponse.mk (takeRecent_of_goesOn hcut)

section Loop

variable [External]

/-- The `i`-th page ends the loop: it stops it, or it is not written. -/
def endsAt (job : ClaimedJob) (result : Nat → List Signature) (clock : Nat → Int) (i : Nat) : Bool :=
  stopsAt job result clock i ||
    (DbCall.writeSignatures (pageAt job result clock i).response job.address).rejected

theorem endsAt_eq_false {i : Nat} : endsAt job result clock i = false ↔
    stopsAt job result clock i = false ∧
      (DbCall.writeSignatures (pageAt job result clock i).response job.address).rejected = false :=
  Bool.or_eq_false_iff

/-- **Which page ends the loop**, in terms of the entries. -/
theorem ends_iff (hn : 0 < n) : (∃ i < n, endsAt job result clock i = true) ↔
    PagesSuffice job (effectiveTxLimit job.txLimit) result clock n := by
  unfold PagesSuffice
  constructor
  · rintro ⟨i, hi, hend⟩
    by_cases hpage : (result i).length < 1000 ∨ ∃ e ∈ result i, ∃ ts,
        e.blockTime = some ts ∧ ts < cutoffTs job.requestedHours (clock i)
    · exact Or.inl ⟨i, hi, hpage.imp_right Or.inl⟩
    · obtain ⟨hlen, hcut⟩ := not_or.mp hpage
      have hreached : (takeRecent (cutoffTs job.requestedHours (clock i)) (result i)).reachedCutoff =
          false := Bool.eq_false_iff.mpr fun h => hcut (takeRecent_reachedCutoff.mp h)
      rcases Bool.or_eq_true_iff.mp hend with hstop | hrejected
      · refine Or.inr ?_
        calc effectiveTxLimit job.txLimit
            ≤ kept job result clock (i + 1) := le_kept_of_stopsAt hlen hreached hstop
          _ ≤ ∑ j ∈ range (i + 1), timed (result j) := kept_le_timed _
          _ ≤ ∑ j ∈ range n, timed (result j) := sum_le_sum_of_subset (range_subset_range.mpr hi)
      · rw [pageAt_response hreached] at hrejected
        exact Or.inl ⟨i, hi, Or.inr (Or.inr hrejected)⟩
  · intro h
    by_contra hno
    have hgoes : ∀ i < n, endsAt job result clock i = false := fun i hi =>
      Bool.eq_false_iff.mpr fun h => hno ⟨i, hi, h⟩
    rcases h with ⟨i, hi, hshort | hcut | hrejected⟩ | hsum
    · exact hno ⟨i, hi, Bool.or_eq_true_iff.mpr (Or.inl (stopsAt_of_page (Or.inl hshort)))⟩
    · exact hno ⟨i, hi, Bool.or_eq_true_iff.mpr (Or.inl (stopsAt_of_page (Or.inr hcut)))⟩
    · obtain ⟨hstops, htaken⟩ := endsAt_eq_false.mp (hgoes i hi)
      rw [pageAt_response (not_page_of_goesOn hstops).2.1, hrejected] at htaken
      exact absurd htaken (by simp)
    · have hkept : kept job result clock n = ∑ i ∈ range n, timed (result i) :=
        sum_congr rfl fun i hi => length_takeRecent_of_goesOn
          (not_page_of_goesOn (endsAt_eq_false.mp (hgoes i (mem_range.mp hi))).1).2.1
      have hlt := (not_page_of_goesOn (endsAt_eq_false.mp (hgoes (n - 1) (by omega))).1).2.2
      rw [Nat.sub_add_cancel hn, hkept] at hlt
      omega

/-! ## The invariant -/

/-- Where the loop stands: no page but the last one asked for can have ended it. -/
def PageInv (job : ClaimedJob) (result : Nat → List Signature) (clock : Nat → Int) (tr : Trace) :
    Pc → Prop
  | .fetchPage _ sum => sum = kept job result clock (pages tr).length ∧
      (∀ i < (pages tr).length, endsAt job result clock i = false) ∧
      tr.length = 2 * (pages tr).length
  | .writeSignatures page sum => ∃ m, (pages tr).length = m + 1 ∧ page = pageAt job result clock m ∧
      sum = kept job result clock (m + 1) ∧ (∀ i < m, endsAt job result clock i = false) ∧
      tr.length = 2 * m + 1
  | _ => ∀ i, i + 1 < (pages tr).length → endsAt job result clock i = false

theorem PageInv.goesOn {tr : Trace} {pc : Pc} (h : PageInv job result clock tr pc) :
    ∀ i, i + 1 < (pages tr).length → endsAt job result clock i = false := by
  cases pc with
  | fetchPage cur sum => exact fun i hi => h.2.1 i (Nat.lt_of_succ_lt hi)
  | writeSignatures page sum =>
    obtain ⟨m, hm, -, -, hgoes, -⟩ := h
    exact fun i hi => hgoes i (by omega)
  | _ => exact h

/-- Outside the loop nothing more is asked for. -/
theorem PageInv.leave {tr : Trace} {x : Local × Event} {pc pc' : Pc}
    (h : PageInv job result clock tr pc) (hx : page? x = none) (hpc : pc'.paging = false) :
    PageInv job result clock (tr ++ [x]) pc' := by
  have hgoes := h.goesOn
  rw [← pages_snoc_of_none hx] at hgoes
  cases pc' with
  | fetchPage cur sum => exact absurd hpc (by simp [Pc.paging])
  | writeSignatures page sum => exact absurd hpc (by simp [Pc.paging])
  | _ => exact hgoes

/-- The responses are successful. -/
def Successful (api : HeliusApi) (job : ClaimedJob) (rpc : Nat → Replies) (clock : Nat → Int)
    (result : Nat → List Signature) : Prop :=
  ∀ i, getSignatures api (rpc i) job.requestedHours (clock i) = .ok (pageAt job result clock i)

/-- **The step lemma.** -/
theorem pageInv_step (hok : Successful api job rpc clock result) {tr : Trace} {s s' : Local}
    {e : Event} (hi : PageInv job result clock tr s.pc) (hs : AnyStep api job s e s')
    (ha : AnsweredBy rpc clock (tr ++ [(s, e)])) :
    PageInv job result clock (tr ++ [(s, e)]) s'.pc := by
  obtain ⟨⟨db, -, -, -, hstep⟩, htaken⟩ := hs
  obtain ⟨db0, n0, pc⟩ := s
  obtain ⟨db', n', pc'⟩ := s'
  obtain ⟨now, a⟩ := e
  have hn := step_next hstep
  simp only at hi hn htaken ⊢
  cases hn with
  | @pageFetched cur sum reply nowTs page hpage =>
    have hreply := ha.last (x := (⟨db0, n0, .fetchPage cur sum⟩, (now, .signatures reply nowTs))) rfl
    obtain ⟨hr, hc⟩ := Prod.mk.inj hreply
    obtain ⟨rfl, hgoes, hlen⟩ := hi
    rw [hr, hc, hok] at hpage
    obtain rfl := Except.ok.inj hpage
    refine ⟨(pages tr).length, ?_, rfl, (kept_succ _).symm, hgoes, ?_⟩
    · rw [pages_snoc, List.length_append]
      rfl
    · rw [List.length_append, hlen]
      rfl
  | @pageFailed cur sum reply nowTs error herr =>
    have hreply := ha.last (x := (⟨db0, n0, .fetchPage cur sum⟩, (now, .signatures reply nowTs))) rfl
    obtain ⟨hr, hc⟩ := Prod.mk.inj hreply
    rw [hr, hc, hok] at herr
    exact absurd herr (by simp)
  | @signaturesWritten page sum chosen =>
    obtain ⟨m, hm, rfl, rfl, hgoes, hlen⟩ := hi
    have hpages : pages (tr ++ [(⟨db0, n0, .writeSignatures (pageAt job result clock m)
        (kept job result clock (m + 1))⟩, (now, .done chosen))]) = pages tr := pages_snoc_of_none rfl
    unfold Pc.afterPage
    cases hstop : stopsPaging job (pageAt job result clock m) (kept job result clock (m + 1)) with
    | true =>
      intro i hi
      rw [hpages, hm] at hi
      exact hgoes i (by omega)
    | false =>
      rw [if_neg Bool.false_ne_true]
      refine ⟨by rw [hpages, hm], fun i hi => ?_, ?_⟩
      · rw [hpages, hm] at hi
        rcases Nat.lt_succ_iff_lt_or_eq.mp hi with hi | rfl
        · exact hgoes i hi
        · exact endsAt_eq_false.mpr ⟨hstop, htaken⟩
      · rw [hpages, hm, List.length_append, hlen, List.length_singleton]
        omega
  | batchMarked =>
    refine hi.leave rfl ?_
    unfold Pc.afterBatch
    split <;> rfl
  | @dbFailed pc hissues => exact hi.leave (by cases pc <;> rfl) (by cases pc <;> rfl)
  | _ => exact hi.leave rfl rfl

theorem pageInv_run (hok : Successful api job rpc clock result) {s t : Local} {tr : Trace}
    (h0 : s.pc = .fetchPage none 0) (hrun : Run (AnyStep api job) s tr t)
    (ha : AnsweredBy rpc clock tr) : PageInv job result clock tr t.pc := by
  induction hrun with
  | refl =>
    rw [h0]
    exact ⟨rfl, fun i hi => absurd hi (Nat.not_lt_zero i), rfl⟩
  | tail _ hs ih => exact pageInv_step hok (ih ha.init) hs ha

/-! ## Going on -/

/-- One round of the loop. -/
theorem page_step (hok : Successful api job rpc clock result) {tr : Trace} {t : Local}
    {cur : Option String} {sum : Nat} (hpc : t.pc = .fetchPage cur sum) {now : Int}
    (hnow : t.now ≤ now) (ha : AnsweredBy rpc clock tr) :
    ∃ x t', x.1 = now ∧ AnyStep api job t x t' ∧ AnsweredBy rpc clock (tr ++ [(t, x)]) ∧
      (pages (tr ++ [(t, x)])).length = (pages tr).length + 1 ∧
      t'.pc = .writeSignatures (pageAt job result clock (pages tr).length)
        (sum + (pageAt job result clock (pages tr).length).response.result.length) := by
  obtain ⟨db, n, pc⟩ := t
  obtain rfl : pc = .fetchPage cur sum := hpc
  refine ⟨(now, .signatures (rpc (pages tr).length) (clock (pages tr).length)), ⟨db, now, _⟩, rfl,
    ⟨⟨db, trivial, hnow, rfl, ?_⟩, trivial⟩, ha.snoc fun p hp => ?_, ?_, rfl⟩
  · simp only [step]
    rw [hok (pages tr).length]
  · obtain rfl := Option.some.inj hp
    rfl
  · rw [pages_snoc, List.length_append]
    rfl

theorem write_step (api : HeliusApi) {tr : Trace} {t : Local} {page : SignaturesPage} {sum : Nat}
    (hpc : t.pc = .writeSignatures page sum)
    (htaken : (DbCall.writeSignatures page.response job.address).rejected = false) {now : Int}
    (hnow : t.now ≤ now) (ha : AnsweredBy rpc clock tr) :
    ∃ x t', x.1 = now ∧ AnyStep api job t x t' ∧ AnsweredBy rpc clock (tr ++ [(t, x)]) ∧
      pages (tr ++ [(t, x)]) = pages tr ∧ t'.pc = .afterPage job page sum := by
  obtain ⟨db, n, pc⟩ := t
  obtain rfl : pc = .writeSignatures page sum := hpc
  exact ⟨(now, .done []), ⟨_, now, _⟩, rfl, ⟨⟨db, trivial, hnow, rfl, rfl⟩, htaken⟩,
    ha.snoc fun p hp => absurd hp (by simp [page?]), pages_snoc_of_none rfl, rfl⟩

/-- A page without entries is not refused: there is no statement. -/
theorem issuesStatement_of_rejected {page : SignaturesPage} {sum : Nat}
    (h : (DbCall.writeSignatures page.response job.address).rejected = true) :
    (Pc.writeSignatures page sum).issuesStatement = true := by
  have hne : page.response.result ≠ [] := by
    intro he
    simp [DbCall.rejected, DbCall.parameters, DbCall.limit, DbCall.bound, insertParameters, he] at h
  simpa [Pc.issuesStatement] using hne

/-- A page PostgreSQL does not take is an error. -/
theorem refuse_step (api : HeliusApi) {tr : Trace} {t : Local} {page : SignaturesPage} {sum : Nat}
    (hpc : t.pc = .writeSignatures page sum)
    (hrejected : (DbCall.writeSignatures page.response job.address).rejected = true) {now : Int}
    (hnow : t.now ≤ now) (ha : AnsweredBy rpc clock tr) :
    ∃ t', AnyStep api job t (now, .dbError) t' ∧
      AnsweredBy rpc clock (tr ++ [(t, (now, .dbError))]) := by
  obtain ⟨db, n, pc⟩ := t
  obtain rfl : pc = .writeSignatures page sum := hpc
  exact ⟨⟨db, now, .updateError⟩, ⟨⟨db, trivial, hnow, rfl,
    if_pos (issuesStatement_of_rejected hrejected)⟩, trivial⟩,
    ha.snoc fun p hp => absurd hp (by simp [page?])⟩

theorem paging_goesOn (hok : Successful api job rpc clock result) {tr : Trace} {t : Local}
    (ha : AnsweredBy rpc clock tr) (hpaging : t.pc.paging = true) {now : Int} (hnow : t.now ≤ now) :
    ∃ a t', AnyStep api job t (now, a) t' ∧ AnsweredBy rpc clock (tr ++ [(t, (now, a))]) := by
  cases hpc : t.pc with
  | fetchPage cur sum =>
    obtain ⟨⟨now', a⟩, t', rfl, hs, ha', -⟩ := page_step hok hpc hnow ha
    exact ⟨a, t', hs, ha'⟩
  | writeSignatures page sum =>
    cases htaken : (DbCall.writeSignatures page.response job.address).rejected with
    | false =>
      obtain ⟨⟨now', a⟩, t', rfl, hs, ha', -⟩ := write_step api hpc htaken hnow ha
      exact ⟨a, t', hs, ha'⟩
    | true =>
      obtain ⟨t', hs, ha'⟩ := refuse_step api hpc htaken hnow ha
      exact ⟨.dbError, t', hs, ha'⟩
  | _ => rw [hpc] at hpaging; exact absurd hpaging (by simp [Pc.paging])

/-- **While no page ends it the loop goes on.** -/
theorem exists_rounds (hok : Successful api job rpc clock result) {s : Local}
    (h0 : s.pc = .fetchPage none 0) (n : Nat)
    (hgoes : ∀ i < n, endsAt job result clock i = false) :
    ∃ tr t cur, Run (AnyStep api job) s tr t ∧ AnsweredBy rpc clock tr ∧
      (pages tr).length = n ∧ tr.length = 2 * n ∧
      t.pc = .fetchPage cur (kept job result clock n) := by
  induction n with
  | zero =>
    exact ⟨[], s, none, Run.refl, fun i p hp => absurd hp (by simp [pages]), rfl, rfl, h0⟩
  | succ n ih =>
    obtain ⟨tr, t, cur, hrun, ha, hpages, hlen, hpc⟩ := ih fun i hi => hgoes i (Nat.lt_succ_of_lt hi)
    obtain ⟨x, u, -, hs, ha', hpages', hpc'⟩ := page_step hok hpc (Int.le_refl _) ha
    obtain ⟨hstop, htaken⟩ := endsAt_eq_false.mp (hgoes n (Nat.lt_succ_self n))
    rw [hpages] at hpc'
    obtain ⟨y, v, -, hs', ha'', hpages'', hpc''⟩ := write_step api hpc' htaken (Int.le_refl _) ha'
    unfold stopsAt at hstop
    rw [← kept_succ] at hpc''
    unfold Pc.afterPage at hpc''
    rw [hstop, if_neg Bool.false_ne_true] at hpc''
    refine ⟨_, v, _, (hrun.tail hs).tail hs', ha'', ?_, ?_, hpc''⟩
    · rw [hpages'', hpages', hpages]
    · simp only [List.length_append, List.length_singleton, hlen]
      omega

/-! ## The bound -/

theorem pagingEnds_of_ends (hok : Successful api job rpc clock result)
    (h : ∃ i < n, endsAt job result clock i = true) : PagingEnds api job rpc clock n := by
  obtain ⟨i, hi, hstop⟩ := h
  have hnot : ∀ m, (∀ j < m, endsAt job result clock j = false) → m ≤ i := by
    intro m hm
    by_contra hlt
    exact absurd (hstop.symm.trans (hm i (by omega))) (by simp)
  refine ⟨fun s tr t h0 hrun ha => ?_, fun s tr t h0 hrun ha hpaging => ?_,
    fun s tr t _ _ ha hpaging now hnow => paging_goesOn hok ha hpaging hnow⟩
  · have hle := hnot ((pages tr).length - 1) fun j hj =>
      (pageInv_run hok h0 hrun ha).goesOn j (by omega)
    omega
  · have hinv := pageInv_run hok h0 hrun ha
    cases hpc : t.pc with
    | fetchPage cur sum =>
      rw [hpc] at hinv
      have hle := hnot _ hinv.2.1
      have hlen := hinv.2.2
      omega
    | writeSignatures page sum =>
      rw [hpc] at hinv
      obtain ⟨m, -, -, -, hgoes, hlen⟩ := hinv
      have hle := hnot m hgoes
      omega
    | _ => rw [hpc] at hpaging; exact absurd hpaging (by simp [Pc.paging])

theorem ends_of_pagingEnds (hok : Successful api job rpc clock result)
    (h : PagingEnds api job rpc clock n) : ∃ i < n, endsAt job result clock i = true := by
  by_contra hno
  obtain ⟨tr, t, cur, hrun, ha, -, hlen, hpc⟩ := exists_rounds hok
    (s := ⟨Db.empty, 0, .fetchPage none 0⟩) rfl n
    fun i hi => Bool.eq_false_iff.mpr fun hstop => hno ⟨i, hi, hstop⟩
  have hlt := h.leaves _ tr t rfl hrun ha (by rw [hpc]; rfl)
  omega

/-- **The paging loop ends.** Against successful responses of whatever entries it is left after
`max 1 tx_limit` pages if and only if one of these is short or reaches the cut-off, or PostgreSQL
does not take the INSERT of its entries with a block time, or they carry `tx_limit` such entries. -/
theorem paging_ends_iff (hok : Successful api job rpc clock result) :
    PagingEnds api job rpc clock (max 1 (effectiveTxLimit job.txLimit)) ↔
      PagesSuffice job (effectiveTxLimit job.txLimit) result clock
        (max 1 (effectiveTxLimit job.txLimit)) := by
  rw [← ends_iff (Nat.lt_of_lt_of_le Nat.zero_lt_one (Nat.le_max_left 1 _))]
  exact ⟨ends_of_pagingEnds hok, pagingEnds_of_ends hok⟩

end Loop

/-- Pages that are served whole. -/
theorem successful_servePage (l : List Signature) (clock : Nat → Int) :
    letI : External := smallNetwork [l] []
    Successful sampleApi sampleJob (fun _ => servePage l) clock fun _ => l := by
  let : External := smallNetwork [l] []
  exact fun i => getSignatures_eq fun k => signaturesOf_servePage l [] k

/-- A full page of entries within the window, before one from before the cut-off. -/
def straddlingPage : List Signature :=
  (List.range 999).map (fun n => ⟨some 9000, String.ofList (List.replicate n 's')⟩) ++
    [⟨some 6000, "old"⟩]

/-- Full pages with entries on both sides of the cut-off. -/
theorem paging_ends_iff_straddling : letI : External := smallNetwork [straddlingPage] []
    PagingEnds sampleApi sampleJob (fun _ => servePage straddlingPage) (fun _ => 10100) 10 := by
  let : External := smallNetwork [straddlingPage] []
  refine (paging_ends_iff (successful_servePage straddlingPage fun _ => 10100)).mpr (Or.inl
    ⟨0, by decide, Or.inr (Or.inl ⟨⟨some 6000, "old"⟩, ?_, 6000, rfl, by decide⟩)⟩)
  exact List.mem_append_right _ (List.mem_singleton_self _)

/-- **A loop that is not left**: the server repeats a full page of entries without a block time. -/
theorem not_pagingEnds_null : letI : External := smallNetwork [List.replicate 1000 ⟨none, "s1"⟩] []
    ¬∃ n, PagingEnds sampleApi sampleJob (fun _ => servePage (List.replicate 1000 ⟨none, "s1"⟩))
      (fun _ => 10100) n := by
  let : External := smallNetwork [List.replicate 1000 ⟨none, "s1"⟩] []
  rintro ⟨n, h⟩
  obtain ⟨i, hi, hend⟩ := ends_of_pagingEnds (successful_servePage _ fun _ => 10100) h
  have hlimit : effectiveTxLimit sampleJob.txLimit = 10 := by decide
  have hnone : ∀ e ∈ List.replicate 1000 (⟨none, "s1"⟩ : Signature), e.blockTime = none :=
    fun e he => by rw [(List.mem_replicate.mp he).2]
  rcases (ends_iff (Nat.lt_of_le_of_lt (Nat.zero_le i) hi)).mp ⟨i, hi, hend⟩ with
    ⟨j, -, hshort | ⟨e, he, ts, hts, -⟩ | hrejected⟩ | hsum
  · rw [List.length_replicate] at hshort
    omega
  · rw [hnone e he] at hts
    exact absurd hts (by simp)
  · rw [List.filter_eq_nil_iff.mpr fun e he => by simp [hnone e he]] at hrejected
    exact absurd hrejected (by decide)
  · have hzero : timed (List.replicate 1000 ⟨none, "s1"⟩) = 0 :=
      List.countP_eq_zero.mpr fun e he => by simp [hnone e he]
    rw [hlimit, sum_eq_zero fun i _ => hzero] at hsum
    omega

end OnChainEventIndexer
