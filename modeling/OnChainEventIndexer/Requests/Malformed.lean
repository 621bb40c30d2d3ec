import OnChainEventIndexer.Requests.Decode
import OnChainEventIndexer.Requests.Extraction

/-!
# A malformed payload

What the `parsed` member of one instruction can do to the rest of its transaction. `editParsed`
replaces or removes it; `modifyInstruction` reaches the instruction at a place of a JSON value, as
the decoders do.

* `decode_modifyInstruction`: if the edited instruction decodes, the transaction does, and differs
  in that instruction only.
* `located_setInstruction`: so does the list of instructions visited.
* **`malformed_parsed_frame`**: the changes of all other instructions are the same, in the same
  order.
-/

namespace OnChainEventIndexer

open Value

/-! ## Editing one instruction -/

/-- What is done to a `parsed` member. -/
inductive ParsedEdit
  | replace (v : Value)
  | remove

namespace Value

/-- The `parsed` member is the one of that name, or the first item. -/
def editParsed : ParsedEdit → Value → Value
  | .replace v, .object members => .object (("parsed", v) :: members.filter (·.1 ≠ "parsed"))
  | .remove, .object members => .object (members.filter (·.1 ≠ "parsed"))
  | .replace v, .array items => .array (v :: items.tail)
  | .remove, .array items => .array items.tail
  | _, v => v

/-- Apply `f` to the instruction at a place. -/
def modifyInstruction : Place → (Value → Value) → Value → Value
  | .outer i, f =>
    modifyField TransactionInfo.fields "transaction" <|
      modifyField Transaction.fields "message" <|
        modifyField AccountKeys.fields "instructions" (modifyItem i f)
  | .inner g j, f =>
    modifyField TransactionInfo.fields "meta" <|
      modifyField Meta.fields "innerInstructions" <|
        modifyItem g (modifyField InnerInstructions.fields "instructions" (modifyItem j f))

end Value

namespace TransactionInfo

/-- The instruction at a place. -/
def instruction? (info : TransactionInfo) : Place → Option Instruction
  | .outer i => info.transaction.message.instructions[i]?
  | .inner g j => (info.meta.innerInstructions[g]?).bind fun inner => inner.instructions[j]?

/-- Put an instruction at a place. -/
def setInstruction (info : TransactionInfo) (p : Place) (ins : Instruction) : TransactionInfo :=
  match p with
  | .outer i =>
    let message := info.transaction.message
    { info with transaction := { info.transaction with
      message := { message with instructions := message.instructions.set i ins } } }
  | .inner g j => { info with «meta» := { info.meta with
      innerInstructions := info.meta.innerInstructions.modify g fun inner =>
        { inner with instructions := inner.instructions.set j ins } } }

end TransactionInfo

/-! ## The edited instruction decodes -/

theorem lookup_filter_ne (members : List (String × Value)) {name name' : String}
    (h : name' ≠ name) : (members.filter (·.1 ≠ name)).lookup name' = members.lookup name' := by
  induction members with
  | nil => rfl
  | cons p members ih =>
    obtain ⟨k, x⟩ := p
    by_cases hk : k = name
    · rw [List.filter_cons_of_neg (by simp [hk]), ih, List.lookup_cons,
        beq_eq_false_iff_ne.mpr (hk ▸ h)]
    · rw [List.filter_cons_of_pos (by simp [hk]), List.lookup_cons, List.lookup_cons, ih]

/-- The other members are read as before; where the first item of an array is removed, the third
one takes the place of the second. -/
theorem fields_editParsed (e : ParsedEdit) {x : Value} {r : Fields}
    (h : x.fields Instruction.fields = some r) :
    ∃ r', (x.editParsed e).fields Instruction.fields = some r' ∧
      ((r'.get "program" = r.get "program" ∧ r'.get "programId" = r.get "programId") ∨
        (r'.get "program" = r.get "programId" ∧ r'.get "programId" = none)) := by
  cases x with
  | object members =>
    obtain rfl := Option.some.inj h
    cases e with
    | replace v =>
      exact ⟨_, rfl, Or.inl ⟨lookup_filter_ne members (by decide),
        lookup_filter_ne members (by decide)⟩⟩
    | remove =>
      exact ⟨_, rfl, Or.inl ⟨lookup_filter_ne members (by decide),
        lookup_filter_ne members (by decide)⟩⟩
  | array items =>
    have hlen : items.length ≤ 3 := by
      by_contra hgt
      exact absurd h (by simp [Value.fields, Instruction.fields, hgt])
    rw [Value.fields, if_pos (show items.length ≤ Instruction.fields.length from hlen)] at h
    obtain rfl := Option.some.inj h
    cases e with
    | replace v =>
      have hlen' : (v :: items.tail).length ≤ 3 := by
        rw [List.length_cons, List.length_tail]
        omega
      exact ⟨_, if_pos hlen', Or.inl ⟨List.getElem?_tail (i := 0), List.getElem?_tail (i := 1)⟩⟩
    | remove =>
      have hlen' : items.tail.length ≤ 3 := by
        rw [List.length_tail]
        omega
      refine ⟨_, if_pos hlen', Or.inr ⟨List.getElem?_tail (i := 1), ?_⟩⟩
      exact (List.getElem?_tail (i := 2)).trans (List.getElem?_eq_none hlen)
  | _ => exact absurd h (by simp [Value.fields])

/-- **`parsed` is lenient**: the instruction decodes whatever it is. -/
theorem decode_editParsed (e : ParsedEdit) {x : Value} {ins : Instruction}
    (h : Instruction.decode x = some ins) :
    ∃ ins', Instruction.decode (x.editParsed e) = some ins' := by
  obtain ⟨r, hr, -, hprogram, hid⟩ := Instruction.decode_eq_some.mp h
  obtain ⟨r', hr', ⟨hp, hi⟩ | ⟨hp, hi⟩⟩ := fields_editParsed e hr
  · refine ⟨⟨_, ins.program, ins.programId⟩, Instruction.decode_eq_some.mpr ⟨r', hr', rfl, ?_, ?_⟩⟩
    · rw [Fields.orDefault_congr hp, hprogram]
    · rw [Fields.orDefault_congr hi, hid]
  · refine ⟨⟨_, ins.programId, none⟩, Instruction.decode_eq_some.mpr ⟨r', hr', rfl, ?_, ?_⟩⟩
    · rw [Fields.orDefault_congr hp, hid]
    · unfold Fields.orDefault
      rw [hi]

/-! ## Up to the transaction -/

/-- One item of an array is edited. -/
theorem decodeVec_modifyItem {α : Type} {decode : Value → Option α} {v : Value} {l : List α}
    (h : v.decodeVec decode = some l) {i : Nat} {y : α} (hi : l[i]? = some y) {f : Value → Value}
    {P : α → Prop} (hf : ∀ x, decode x = some y → ∃ y', decode (f x) = some y' ∧ P y') :
    ∃ y', (v.modifyItem i f).decodeVec decode = some (l.set i y') ∧ P y' := by
  cases v with
  | array items =>
    have hitems : items.mapM decode = some l := h
    clear h
    change ∃ y', (items.modify i f).mapM decode = some (l.set i y') ∧ P y'
    induction items generalizing l i with
    | nil =>
      obtain rfl : [] = l := Option.some.inj hitems
      exact absurd hi (by simp)
    | cons x items ih =>
      rw [List.mapM_cons] at hitems
      obtain ⟨z, hz, hitems⟩ := Option.bind_eq_some_iff.mp hitems
      obtain ⟨zs, hzs, hitems⟩ := Option.bind_eq_some_iff.mp hitems
      obtain rfl : z :: zs = l := Option.some.inj hitems
      cases i with
      | zero =>
        obtain rfl : z = y := Option.some.inj hi
        obtain ⟨y', hy', hP⟩ := hf x hz
        refine ⟨y', ?_, hP⟩
        rw [List.modify_zero_cons, List.mapM_cons, hy', hzs]
        rfl
      | succ i =>
        obtain ⟨y', hy', hP⟩ := ih (l := zs) (i := i) hi hzs
        refine ⟨y', ?_, hP⟩
        rw [List.modify_succ_cons, List.mapM_cons, hz, hy']
        rfl
  | _ => exact absurd h (by simp [decodeVec])

theorem AccountKeys.decode_instructions {v : Value} {s : AccountKeys}
    (h : AccountKeys.decode v = some s) (hne : s.instructions ≠ []) :
    ∃ x, decodeVec Instruction.decode x = some s.instructions ∧ ∀ f l,
      decodeVec Instruction.decode (f x) = some l →
        AccountKeys.decode (v.modifyField AccountKeys.fields "instructions" f) =
          some { s with instructions := l } := by
  obtain ⟨r, hr, hkeys, hins, hheader⟩ := AccountKeys.decode_eq_some.mp h
  cases hx : r.get "instructions" with
  | none =>
    unfold Fields.orDefault at hins
    rw [hx] at hins
    exact absurd (Option.some.inj hins).symm hne
  | some x =>
    unfold Fields.orDefault at hins
    rw [hx] at hins
    refine ⟨x, hins, fun f l hl => AccountKeys.decode_eq_some.mpr ?_⟩
    obtain ⟨r', hr', -, hget, hother⟩ :=
      fields_modifyField (show "instructions" ∈ AccountKeys.fields by decide) f hr
    refine ⟨r', hr', ?_, ?_, ?_⟩
    · rw [Fields.required_congr (hother _ (by decide)), hkeys]
    · unfold Fields.orDefault
      rw [hget, hx]
      exact hl
    · rw [Fields.orDefault_congr (hother _ (by decide)), hheader]

theorem Transaction.decode_message {v : Value} {s : Transaction} (h : Transaction.decode v = some s) :
    ∃ x, AccountKeys.decode x = some s.message ∧ ∀ f m, AccountKeys.decode (f x) = some m →
      Transaction.decode (v.modifyField Transaction.fields "message" f) =
        some { s with message := m } := by
  obtain ⟨r, hr, hsigs, hmessage⟩ := Transaction.decode_eq_some.mp h
  obtain ⟨x, hx, hd⟩ := Option.bind_eq_some_iff.mp hmessage
  refine ⟨x, hd, fun f m hm => Transaction.decode_eq_some.mpr ?_⟩
  obtain ⟨r', hr', -, hget, hother⟩ :=
    fields_modifyField (show "message" ∈ Transaction.fields by decide) f hr
  refine ⟨r', hr', ?_, ?_⟩
  · rw [Fields.required_congr (hother _ (by decide)), hsigs]
  · unfold Fields.required
    rw [hget, hx]
    exact hm

theorem InnerInstructions.decode_instructions {v : Value} {s : InnerInstructions}
    (h : InnerInstructions.decode v = some s) :
    ∃ x, decodeVec Instruction.decode x = some s.instructions ∧ ∀ f l,
      decodeVec Instruction.decode (f x) = some l →
        InnerInstructions.decode (v.modifyField InnerInstructions.fields "instructions" f) =
          some { s with instructions := l } := by
  obtain ⟨r, hr, hindex, hins⟩ := InnerInstructions.decode_eq_some.mp h
  obtain ⟨x, hx, hd⟩ := Option.bind_eq_some_iff.mp hins
  refine ⟨x, hd, fun f l hl => InnerInstructions.decode_eq_some.mpr ?_⟩
  obtain ⟨r', hr', -, hget, hother⟩ :=
    fields_modifyField (show "instructions" ∈ InnerInstructions.fields by decide) f hr
  refine ⟨r', hr', ?_, ?_⟩
  · rw [Fields.required_congr (hother _ (by decide)), hindex]
  · unfold Fields.required
    rw [hget, hx]
    exact hl

theorem Meta.decode_innerInstructions {v : Value} {s : Meta} (h : Meta.decode v = some s)
    (hne : s.innerInstructions ≠ []) :
    ∃ x, decodeVec InnerInstructions.decode x = some s.innerInstructions ∧ ∀ f l,
      decodeVec InnerInstructions.decode (f x) = some l →
        Meta.decode (v.modifyField Meta.fields "innerInstructions" f) =
          some { s with innerInstructions := l } := by
  obtain ⟨r, hr, h1, h2, h3, h4, hinner, h6, h7⟩ := Meta.decode_eq_some.mp h
  cases hx : r.get "innerInstructions" with
  | none =>
    unfold Fields.orDefault at hinner
    rw [hx] at hinner
    exact absurd (Option.some.inj hinner).symm hne
  | some x =>
    unfold Fields.orDefault at hinner
    rw [hx] at hinner
    refine ⟨x, hinner, fun f l hl => Meta.decode_eq_some.mpr ?_⟩
    obtain ⟨r', hr', -, hget, hother⟩ :=
      fields_modifyField (show "innerInstructions" ∈ Meta.fields by decide) f hr
    refine ⟨r', hr', ?_, ?_, ?_, ?_, ?_, ?_, ?_⟩
    · rw [Fields.required_congr (hother _ (by decide)), h1]
    · rw [Fields.required_congr (hother _ (by decide)), h2]
    · rw [Fields.orDefault_congr (hother _ (by decide)), h3]
    · rw [Fields.orDefault_congr (hother _ (by decide)), h4]
    · unfold Fields.orDefault
      rw [hget, hx]
      exact hl
    · rw [Fields.required_congr (hother _ (by decide)), h6]
    · rw [Fields.required_congr (hother _ (by decide)), h7]

theorem TransactionInfo.decode_transaction {v : Value} {s : TransactionInfo}
    (h : TransactionInfo.decode v = some s) :
    ∃ x, Transaction.decode x = some s.transaction ∧ ∀ f t, Transaction.decode (f x) = some t →
      TransactionInfo.decode (v.modifyField TransactionInfo.fields "transaction" f) =
        some { s with transaction := t } := by
  obtain ⟨r, hr, htime, hmeta, htx, hslot⟩ := TransactionInfo.decode_eq_some.mp h
  obtain ⟨x, hx, hd⟩ := Option.bind_eq_some_iff.mp htx
  refine ⟨x, hd, fun f t ht => TransactionInfo.decode_eq_some.mpr ?_⟩
  obtain ⟨r', hr', -, hget, hother⟩ :=
    fields_modifyField (show "transaction" ∈ TransactionInfo.fields by decide) f hr
  refine ⟨r', hr', ?_, ?_, ?_, ?_⟩
  · rw [Fields.required_congr (hother _ (by decide)), htime]
  · rw [Fields.required_congr (hother _ (by decide)), hmeta]
  · unfold Fields.required
    rw [hget, hx]
    exact ht
  · rw [Fields.required_congr (hother _ (by decide)), hslot]

theorem TransactionInfo.decode_meta {v : Value} {s : TransactionInfo}
    (h : TransactionInfo.decode v = some s) :
    ∃ x, Meta.decode x = some s.meta ∧ ∀ f m, Meta.decode (f x) = some m →
      TransactionInfo.decode (v.modifyField TransactionInfo.fields "meta" f) =
        some { s with «meta» := m } := by
  obtain ⟨r, hr, htime, hmeta, htx, hslot⟩ := TransactionInfo.decode_eq_some.mp h
  obtain ⟨x, hx, hd⟩ := Option.bind_eq_some_iff.mp hmeta
  refine ⟨x, hd, fun f m hm => TransactionInfo.decode_eq_some.mpr ?_⟩
  obtain ⟨r', hr', -, hget, hother⟩ :=
    fields_modifyField (show "meta" ∈ TransactionInfo.fields by decide) f hr
  refine ⟨r', hr', ?_, ?_, ?_, ?_⟩
  · rw [Fields.required_congr (hother _ (by decide)), htime]
  · unfold Fields.required
    rw [hget, hx]
    exact hm
  · rw [Fields.required_congr (hother _ (by decide)), htx]
  · rw [Fields.required_congr (hother _ (by decide)), hslot]

/-- **An edited instruction** that decodes is all that changes in its transaction. -/
theorem decode_modifyInstruction {v : Value} {info : TransactionInfo}
    (h : TransactionInfo.decode v = some info) {p : Place} {ins : Instruction}
    (hp : info.instruction? p = some ins) {f : Value → Value}
    (hf : ∀ x, Instruction.decode x = some ins → ∃ ins', Instruction.decode (f x) = some ins') :
    ∃ ins', TransactionInfo.decode (v.modifyInstruction p f) = some (info.setInstruction p ins') := by
  have hf' : ∀ x, Instruction.decode x = some ins →
      ∃ ins', Instruction.decode (f x) = some ins' ∧ True :=
    fun x hx => (hf x hx).imp fun _ h => ⟨h, trivial⟩
  cases p with
  | outer i =>
    obtain ⟨x, hx, htx⟩ := TransactionInfo.decode_transaction h
    obtain ⟨y, hy, hmessage⟩ := Transaction.decode_message hx
    have hne : info.transaction.message.instructions ≠ [] := by
      intro he
      simp [TransactionInfo.instruction?, he] at hp
    obtain ⟨z, hz, hins⟩ := AccountKeys.decode_instructions hy hne
    obtain ⟨ins', hset, -⟩ := decodeVec_modifyItem hz hp hf'
    exact ⟨ins', htx _ _ (hmessage _ _ (hins _ _ hset))⟩
  | inner g j =>
    obtain ⟨inner, hg, hj⟩ := Option.bind_eq_some_iff.mp hp
    obtain ⟨x, hx, hmeta⟩ := TransactionInfo.decode_meta h
    have hne : info.meta.innerInstructions ≠ [] := by
      intro he
      simp [he] at hg
    obtain ⟨y, hy, hinner⟩ := Meta.decode_innerInstructions hx hne
    have hgroup : ∀ z, InnerInstructions.decode z = some inner → ∃ inner',
        InnerInstructions.decode (z.modifyField InnerInstructions.fields "instructions"
          (modifyItem j f)) = some inner' ∧
        ∃ ins', inner' = { inner with instructions := inner.instructions.set j ins' } := by
      intro z hz
      obtain ⟨w, hw, hins⟩ := InnerInstructions.decode_instructions hz
      obtain ⟨ins', hset, -⟩ := decodeVec_modifyItem hw hj hf'
      exact ⟨_, hins _ _ hset, ins', rfl⟩
    obtain ⟨inner', hset, ins', rfl⟩ := decodeVec_modifyItem hy hg hgroup
    refine ⟨ins', ?_⟩
    have hmodify : info.meta.innerInstructions.set g
        { inner with instructions := inner.instructions.set j ins' } =
          info.meta.innerInstructions.modify g fun inner =>
            { inner with instructions := inner.instructions.set j ins' } := by
      rw [List.modify_eq_set_getElem?, hg]
      rfl
    rw [hmodify] at hset
    exact hmeta _ _ (hinner _ _ hset)

/-! ## The instructions visited -/

/-- Put an instruction at a place of the list. -/
def Located.set (p : Place) (ins : Instruction) (l : Located) : Located :=
  if l.place = p then { l with instruction := ins } else l

theorem zipIdx_modify {α : Type} (l : List α) (i : Nat) (f : α → α) :
    (l.modify i f).zipIdx = l.zipIdx.map fun p => (if p.2 = i then f p.1 else p.1, p.2) := by
  refine List.ext_getElem? fun k => ?_
  rw [List.getElem?_map, List.getElem?_zipIdx, List.getElem?_zipIdx, List.getElem?_modify]
  cases l[k]? with
  | none => rfl
  | some x => simp [eq_comm (a := i)]

theorem zipIdx_set {α : Type} (l : List α) (i : Nat) (x : α) :
    (l.set i x).zipIdx = l.zipIdx.map fun p => (if p.2 = i then x else p.1, p.2) := by
  rw [List.set_eq_modify, zipIdx_modify]

theorem map_set_of_ne {p : Place} {ins : Instruction} {ls : List Located}
    (h : ∀ l ∈ ls, l.place ≠ p) : ls.map (Located.set p ins) = ls := by
  have hset : ls.map (Located.set p ins) = ls.map id :=
    List.map_congr_left fun l hl => if_neg (h l hl)
  rw [hset, List.map_id]

theorem place_outer {info : TransactionInfo} {l : Located} (h : l ∈ info.locatedOuter) :
    ∃ i, l.place = .outer i := by
  obtain ⟨q, -, rfl⟩ := List.mem_map.mp h
  exact ⟨q.2, rfl⟩

theorem place_inner {info : TransactionInfo} {l : Located} (h : l ∈ info.locatedInner) :
    ∃ g j, l.place = .inner g j := by
  obtain ⟨q, -, h⟩ := List.mem_flatMap.mp h
  obtain ⟨q', -, rfl⟩ := List.mem_map.mp h
  exact ⟨q.2, q'.2, rfl⟩

/-- **Only the instruction at the place is another one.** -/
theorem located_setInstruction (info : TransactionInfo) (p : Place) (ins : Instruction) :
    (info.setInstruction p ins).located = info.located.map (Located.set p ins) := by
  unfold TransactionInfo.located
  rw [List.map_append]
  cases p with
  | outer i =>
    refine congrArg₂ (· ++ ·) ?_ (map_set_of_ne fun l hl => ?_).symm
    · unfold TransactionInfo.locatedOuter TransactionInfo.setInstruction
      simp only [zipIdx_set, List.map_map]
      refine List.map_congr_left fun q _ => ?_
      simp only [Function.comp, Located.set, Place.outer.injEq]
      split <;> rfl
    · obtain ⟨g, j, hl⟩ := place_inner hl
      rw [hl]
      simp
  | inner g j =>
    refine congrArg₂ (· ++ ·) (map_set_of_ne fun l hl => ?_).symm ?_
    · obtain ⟨i, hl⟩ := place_outer hl
      rw [hl]
      simp
    · unfold TransactionInfo.locatedInner TransactionInfo.setInstruction
      simp only [zipIdx_modify, List.flatMap_map, List.map_flatMap, List.map_map]
      refine congrArg (fun f => List.flatMap f _) (funext fun q => ?_)
      by_cases hq : q.2 = g
      · simp only [hq, if_true, zipIdx_set, List.map_map]
        refine List.map_congr_left fun q' _ => ?_
        simp only [Function.comp, Located.set, Place.inner.injEq, true_and]
        split <;> rfl
      · simp only [hq, if_false]
        refine List.map_congr_left fun q' _ => ?_
        simp [Function.comp, Located.set, hq]

/-- No two instructions are at the same place. -/
theorem places_nodup (info : TransactionInfo) : (info.located.map (·.place)).Nodup := by
  have hsnd : ∀ {α : Type} (l : List α), (l.zipIdx.map Prod.snd).Nodup := by
    intro α l
    rw [List.zipIdx_map_snd]
    exact List.nodup_range'
  unfold TransactionInfo.located
  rw [List.map_append]
  refine List.Nodup.append ?_ ?_ (List.disjoint_left.mpr fun p hp hp' => ?_)
  · unfold TransactionInfo.locatedOuter
    rw [List.map_map]
    have := (hsnd info.transaction.message.instructions).map fun _ _ h => Place.outer.inj h
    rwa [List.map_map] at this
  · unfold TransactionInfo.locatedInner
    rw [List.map_flatMap]
    refine List.nodup_flatMap.mpr ⟨fun q _ => ?_, ?_⟩
    · rw [List.map_map]
      have := (hsnd q.1.instructions).map fun _ _ h => (Place.inner.inj (h : Place.inner q.2 _ = _)).2
      rwa [List.map_map] at this
    · refine (List.pairwise_map.mp (hsnd info.meta.innerInstructions)).imp fun hne => ?_
      refine List.disjoint_left.mpr fun p hp hp' => ?_
      obtain ⟨l, hl, rfl⟩ := List.mem_map.mp hp
      obtain ⟨l', hl', he⟩ := List.mem_map.mp hp'
      obtain ⟨q, -, rfl⟩ := List.mem_map.mp hl
      obtain ⟨q', -, rfl⟩ := List.mem_map.mp hl'
      exact hne (Place.inner.inj he).1.symm
  · obtain ⟨l, hl, rfl⟩ := List.mem_map.mp hp
    obtain ⟨l', hl', he⟩ := List.mem_map.mp hp'
    obtain ⟨i, hi⟩ := place_outer hl
    obtain ⟨g, j, hj⟩ := place_inner hl'
    rw [hi, hj] at he
    exact absurd he (by simp)

/-! ## The changes by their places -/

section Network

variable [External]

/-- The changes of a transaction, each with the place of its instruction. -/
def TransactionInfo.extracted (info : TransactionInfo) : List (Place × TokenTransferChange) :=
  info.located.filterMap fun l =>
    (changeAt (TransactionResult.mk info []).tokenAccountMetaMap l).map fun c => (l.place, c)

theorem changes_extracted (info : TransactionInfo) :
    (TransactionResult.mk info []).calculateTokenTransfer.tokenTransferChanges =
      info.extracted.map Prod.snd := by
  rw [changes_eq]
  unfold TransactionInfo.extracted
  rw [List.map_filterMap]
  refine congrArg (fun f => List.filterMap f _) (funext fun l => ?_)
  rw [Option.map_map]
  exact (Option.map_id' ..).symm

/-- An instruction has one change at most. -/
theorem extracted_at (info : TransactionInfo) (p : Place) :
    (info.extracted.filter fun x => x.1 = p).length ≤ 1 := by
  have hsub : ∀ ls : List Located, ((ls.filterMap fun l =>
      (changeAt (TransactionResult.mk info []).tokenAccountMetaMap l).map fun c => (l.place, c)).map
        Prod.fst).Sublist (ls.map (·.place)) := by
    intro ls
    induction ls with
    | nil => exact .slnil
    | cons l ls ih =>
      cases hc : changeAt (TransactionResult.mk info []).tokenAccountMetaMap l with
      | none =>
        rw [List.filterMap_cons_none (by rw [hc]; rfl)]
        exact ih.cons _
      | some c =>
        rw [List.filterMap_cons_some (by rw [hc]; rfl)]
        exact ih.cons_cons _
  have hnd : (info.extracted.map Prod.fst).Nodup := (hsub info.located).nodup (places_nodup info)
  have hcount := List.nodup_iff_count_le_one.mp hnd p
  rw [List.count, List.countP_map, List.countP_eq_length_filter] at hcount
  exact hcount

/-- **Elsewhere nothing changes.** -/
theorem extracted_setInstruction (info : TransactionInfo) (p : Place) (ins : Instruction) :
    (info.setInstruction p ins).extracted.filter (fun x => x.1 ≠ p) =
      info.extracted.filter fun x => x.1 ≠ p := by
  have hmap : (TransactionResult.mk (info.setInstruction p ins) []).tokenAccountMetaMap =
      (TransactionResult.mk info []).tokenAccountMetaMap := by
    cases p <;> rfl
  unfold TransactionInfo.extracted
  rw [located_setInstruction, hmap, List.filterMap_map, List.filter_filterMap, List.filter_filterMap]
  refine congrArg (fun f => List.filterMap f _) (funext fun l => ?_)
  simp only [Function.comp, Located.set]
  by_cases hl : l.place = p
  · rw [if_pos hl]
    have hnone : ∀ o : Option TokenTransferChange,
        (o.map fun c => (l.place, c)).filter (fun x => decide (x.1 ≠ p)) = none := by
      intro o
      cases o <;> simp [hl]
    rw [hnone, hnone]
  · rw [if_neg hl]

/-- **A malformed payload stays where it is.** For every value that decodes as a transaction and
every instruction of it: with its `parsed` member replaced by any value, or removed, the transaction
decodes to one that differs in this instruction only; it yields the same changes at all other
places, in the same order, and one at most at this place. -/
theorem malformed_parsed_frame {v : Value} {info : TransactionInfo}
    (h : TransactionInfo.decode v = some info) {p : Place} (hp : (info.instruction? p).isSome)
    (e : ParsedEdit) :
    ∃ info', TransactionInfo.decode (v.modifyInstruction p (editParsed e)) = some info' ∧
      (∃ ins', info' = info.setInstruction p ins') ∧
      (TransactionResult.mk info' []).calculateTokenTransfer.tokenTransferChanges =
        info'.extracted.map Prod.snd ∧
      info'.extracted.filter (fun x => x.1 ≠ p) = info.extracted.filter (fun x => x.1 ≠ p) ∧
      (info'.extracted.filter fun x => x.1 = p).length ≤ 1 := by
  obtain ⟨ins, hins⟩ := Option.isSome_iff_exists.mp hp
  obtain ⟨ins', hdecode⟩ := decode_modifyInstruction h hins fun x hx => decode_editParsed e hx
  exact ⟨_, hdecode, ⟨ins', rfl⟩, changes_extracted _, extracted_setInstruction info p ins',
    extracted_at _ p⟩

end Network

/-- An instruction that transfers lamports from `"A"` to `"B"`. -/
def transferValue (lamports : Nat) : Value :=
  .object [("program", .string "system"),
    ("parsed", .object [("type", .string "transfer"),
      ("info", .object [("lamports", .number (.posInt lamports)),
        ("source", .string "A"), ("destination", .string "B")])])]

/-- A transaction with two instructions, the first of which has called another one. -/
def nestedValue : Value :=
  .object [("blockTime", .number (.posInt 100)),
    ("meta", .object [("computeUnitsConsumed", .number (.posInt 150)),
      ("fee", .number (.posInt 5000)), ("err", .null),
      ("innerInstructions", .array [.object [("index", .number (.posInt 0)),
        ("instructions", .array [transferValue 3])]]),
      ("preTokenBalances", .array []), ("postTokenBalances", .array [])]),
    ("transaction", .object [("signatures", .array [.string "s1"]),
      ("message", .object [("accountKeys", .array [.string "A", .string "B"]),
        ("instructions", .array [transferValue 1, transferValue 2])])]),
    ("slot", .number (.posInt 7))]

/-- A text in the place of the payload of the second one of its three instructions. -/
theorem malformed_parsed_frame_text : letI : External := smallNetwork [] []
    let edit := modifyInstruction (.outer 1) (editParsed (.replace (.string "unparsed")))
    ∃ info info', TransactionInfo.decode nestedValue = some info ∧
      TransactionInfo.decode (edit nestedValue) = some info' ∧
      (∃ ins', info' = info.setInstruction (.outer 1) ins') ∧
      (TransactionResult.mk info' []).calculateTokenTransfer.tokenTransferChanges =
        info'.extracted.map Prod.snd ∧
      info'.extracted.filter (fun x => x.1 ≠ .outer 1) =
        info.extracted.filter (fun x => x.1 ≠ .outer 1) ∧
      info.extracted.map Prod.fst = [.outer 0, .outer 1, .inner 0 0] ∧
      (info'.extracted.filter fun x => x.1 ≠ .outer 1).map Prod.fst = [.outer 0, .inner 0 0] := by
  let : External := smallNetwork [] []
  obtain ⟨info, hdecode⟩ : ∃ info, TransactionInfo.decode nestedValue = some info := ⟨_, rfl⟩
  have hplaces : (TransactionInfo.decode nestedValue).map (fun i => i.extracted.map Prod.fst) =
      some [.outer 0, .outer 1, .inner 0 0] := rfl
  have hkept : (TransactionInfo.decode nestedValue).map (fun i =>
      (i.extracted.filter fun x => x.1 ≠ .outer 1).map Prod.fst) =
      some [.outer 0, .inner 0 0] := rfl
  have hthere : ((TransactionInfo.decode nestedValue).bind fun i =>
      i.instruction? (.outer 1)).isSome = true := rfl
  rw [hdecode] at hplaces hkept hthere
  obtain ⟨info', h, hset, hchanges, hsame, -⟩ :=
    malformed_parsed_frame hdecode (p := .outer 1) hthere (.replace (.string "unparsed"))
  exact ⟨info, info', hdecode, h, hset, hchanges, hsame, Option.some.inj hplaces,
    hsame ▸ Option.some.inj hkept⟩

end OnChainEventIndexer
