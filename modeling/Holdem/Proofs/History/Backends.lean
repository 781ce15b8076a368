import Holdem.History.Row
import Holdem.Proofs.Except
import Holdem.Proofs.Record.RoundTrip

/-!
# Two ways to keep records, one history

A `Call` asks a history to store a record, to find one, or to list all of them. What has to be
answered depends on the calls before it alone (`History.reply`): of the records offered to it the
history has the first with each identifier, in the order in which they came (`firsts`).

`Keeps R Has` says that in a state of which `Has kept` holds a repository has the records `kept`,
and stores, finds and lists them as such. Records kept as they are do so with the records
themselves as state (`memory_keeps`), and records kept in a table with their rows in it
(`table_keeps`): every text of a row is read back, and no two identifiers have one text.

Of a database no more is relied on than `HandTable.Lawful` says: that texts come back as they were
inserted, that the identifier is a primary key, and that row numbers are in the order of insertion.
A list of rows is such a table (`HandTable.rows_lawful`).

Result: **`backends_agree`**, that all of them give the same answers to any calls, and these are the
ones that the calls before ask for.
-/

namespace Holdem

/-! ## Tables -/

/-- **What is relied on of a database.** `contents` are the rows that were inserted, in the order in
which they were. -/
structure HandTable.Lawful {δ : Type} (T : HandTable δ) (contents : δ → List Row) : Prop where
  /-- The identifier is the primary key: a second row with its text violates a constraint, and is
  not inserted. -/
  key : ∀ row s, row.id ∈ (contents s).map Row.id → ∃ e s',
    T.insert row s = (.error e, s') ∧ e.code = some .constraintViolation ∧ contents s' = contents s
  /-- Any other row is inserted with its texts as they are. -/
  verbatim : ∀ row s, row.id ∉ (contents s).map Row.id → ∃ s',
    T.insert row s = (.ok (), s') ∧ contents s' = contents s ++ [row]
  /-- Row numbers are in the order of insertion. -/
  order : ∀ s, T.selectAll s = .ok (contents s)
  /-- A row is selected by its identifier text. -/
  select : ∀ id s, T.selectId id s = .ok ((contents s).find? (·.id = id))

/-- **A list of rows** is a table. -/
theorem HandTable.rows_lawful : HandTable.rows.Lawful fun rows => rows where
  key row rows hid := by
    refine ⟨⟨some .constraintViolation, _⟩, rows, if_pos ?_, rfl, rfl⟩
    simpa using hid
  verbatim row rows hid := by
    refine ⟨rows ++ [row], if_neg ?_, rfl⟩
    simpa using hid
  order _ := rfl
  select _ _ := rfl

namespace History

/-- What a history is asked. -/
inductive Call
  | store (record : HandRecord)
  | find (id : Uuid)
  | all

/-- What a history answers: with a record, or with records. -/
inductive Reply
  | one (result : Except HistoryError HandRecord)
  | many (result : Except HistoryError (List HandRecord))

/-- The record that a call offers. -/
def Call.record? : Call → Option HandRecord
  | store record => some record
  | _ => none

/-- The records that some calls offer. -/
def offered (calls : List Call) : List HandRecord := calls.filterMap Call.record?

/-- The first record with each identifier, in order. -/
def firsts : List HandRecord → List HandRecord
  | [] => []
  | r :: rs => r :: (firsts rs).filter (·.id ≠ r.id)

/-- **What is answered** after some calls. A record is stored unless one with its identifier was
offered before, the record found is the first that was offered, and all records are the first ones
in order. -/
def reply (before : List Call) : Call → Reply
  | .store record =>
    .one (if record.id ∈ (offered before).map HandRecord.id then .error (.duplicate record.id)
      else .ok record)
  | .find id =>
    .one (match (offered before).find? (·.id = id) with
      | some record => .ok record
      | none => .error (.notFound id))
  | .all => .many (.ok (firsts (offered before)))

/-- What is answered to some calls after others. -/
def replies (before : List Call) : List Call → List Reply
  | [] => []
  | call :: calls => reply before call :: replies (before ++ [call]) calls

/-! ## First records -/

variable {l : List HandRecord} {id : Uuid}

theorem mem_ids_firsts : id ∈ (firsts l).map HandRecord.id ↔ id ∈ l.map HandRecord.id := by
  induction l with
  | nil => exact Iff.rfl
  | cons r l ih =>
    simp only [firsts, List.map_cons, List.mem_cons, List.mem_map, List.mem_filter,
      decide_eq_true_eq] at ih ⊢
    rw [← ih]
    constructor
    · rintro (h | ⟨a, ⟨ha, -⟩, rfl⟩)
      · exact Or.inl h
      · exact Or.inr ⟨a, ha, rfl⟩
    · rintro (h | ⟨a, ha, rfl⟩)
      · exact Or.inl h
      · by_cases heq : a.id = r.id
        · exact Or.inl heq
        · exact Or.inr ⟨a, ⟨ha, heq⟩, rfl⟩

theorem find?_firsts (l : List HandRecord) (id : Uuid) :
    (firsts l).find? (·.id = id) = l.find? (·.id = id) := by
  induction l with
  | nil => rfl
  | cons r l ih =>
    unfold firsts
    by_cases h : r.id = id
    · rw [List.find?_cons_of_pos (by simp [h]), List.find?_cons_of_pos (by simp [h])]
    · -- the records that are left out are none of those that are looked for
      have hother : ((firsts l).filter (·.id ≠ r.id)).find? (·.id = id) =
          (firsts l).find? (·.id = id) := by
        rw [List.find?_filter]
        congr 1
        funext a
        by_cases ha : a.id = id
        · simp [ha, Ne.symm h]
        · simp [ha]
      rw [List.find?_cons_of_neg (by simp [h]), List.find?_cons_of_neg (by simp [h]), hother, ih]

/-- Of the records offered after others, those with a new identifier count. -/
theorem firsts_append_singleton (l : List HandRecord) (r : HandRecord) :
    firsts (l ++ [r]) = firsts l ++ if r.id ∈ l.map HandRecord.id then [] else [r] := by
  induction l with
  | nil => rfl
  | cons a l ih =>
    rw [List.cons_append, firsts, ih, firsts, List.filter_append, List.cons_append]
    by_cases ha : r.id = a.id
    · have hmem : r.id ∈ (a :: l).map HandRecord.id := by simp [ha]
      rw [if_pos hmem]
      split
      · rfl
      · simp [ha]
    · by_cases hmem : r.id ∈ l.map HandRecord.id
      · have hlater : r.id ∈ (a :: l).map HandRecord.id := by
          rw [List.map_cons]
          exact List.mem_cons_of_mem _ hmem
        rw [if_pos hmem, if_pos hlater]
        rfl
      · have hnone : r.id ∉ (a :: l).map HandRecord.id := by
          rw [List.map_cons, List.mem_cons, not_or]
          exact ⟨ha, hmem⟩
        rw [if_neg hmem, if_neg hnone]
        simp [ha]

theorem firsts_subset (l : List HandRecord) : firsts l ⊆ l := by
  induction l with
  | nil => exact fun _ h => h
  | cons r l ih =>
    intro a ha
    rcases List.mem_cons.mp ha with rfl | ha
    · exact List.mem_cons_self
    · exact List.mem_cons_of_mem r (ih (List.mem_of_mem_filter ha))

/-! ## Keeping records -/

variable {σ δ : Type} {R : Repository σ} {Has : List HandRecord → σ → Prop} {T : HandTable δ}
  {contents : δ → List Row} {kept : List HandRecord} {s : σ}

/-- The answer to a call, and the state after it. -/
def answer (R : Repository σ) (s : σ) : Call → Reply × σ
  | .store record => (.one (R.store record s).1, (R.store record s).2)
  | .find id => (.one (R.find id s), s)
  | .all => (.many (R.all s), s)

/-- The answers to some calls, one after the other. -/
def answers (R : Repository σ) : List Call → σ → List Reply
  | [], _ => []
  | call :: calls, s => (answer R s call).1 :: answers R calls (answer R s call).2

/-- A repository that, in a state of which `Has kept` holds, has the records `kept`. -/
structure Keeps (R : Repository σ) (Has : List HandRecord → σ → Prop) : Prop where
  refuse : ∀ {kept record s}, Has kept s → record.id ∈ kept.map HandRecord.id → ∃ s',
    R.store record s = (.error (.duplicate record.id), s') ∧ Has kept s'
  store : ∀ {kept record s}, Has kept s → record.id ∉ kept.map HandRecord.id → ∃ s',
    R.store record s = (.ok record, s') ∧ Has (kept ++ [record]) s'
  find : ∀ {kept s} id, Has kept s → (∀ r ∈ kept, r.Fits) → R.find id s =
    match kept.find? (·.id = id) with
    | some record => .ok record
    | none => .error (.notFound id)
  all : ∀ {kept s}, Has kept s → (∀ r ∈ kept, r.Fits) → R.all s = .ok kept

/-- A record with a new identifier is added to those that are kept. -/
theorem store_memory {record : HandRecord} (h : record.id ∉ kept.map HandRecord.id) :
    Repository.memory.store record kept = (.ok record, kept ++ [record]) :=
  if_neg (by simpa using h)

/-- **Records kept as they are** are the state. -/
theorem memory_keeps : Keeps .memory fun kept s => s = kept where
  refuse {kept record s} h hid := by
    subst h
    exact ⟨s, if_pos (by simpa using hid), rfl⟩
  store {kept record s} h hid := by
    subst h
    exact ⟨s ++ [record], store_memory hid, rfl⟩
  find _ h _ := h ▸ rfl
  all h _ := h ▸ rfl

/-- **A record is read back** from its row. -/
theorem toRecord_ofRecord {r : HandRecord} (h : r.Fits) : (Row.ofRecord r).toRecord = .ok r := by
  have hread : ∀ {α : Type} {reader : Json.Reader α} {j : Json} {a : α}, Json.Decodes reader j a →
      Row.column reader j.compact = .ok a := by
    intro α reader j a hdecodes
    exact mapError_eq_ok.mpr (Json.parse_of_decodes hdecodes).1
  have hid : (Row.ofRecord r).readId = .ok r.id := by
    simp only [Row.readId, Row.ofRecord, Uuid.ofText?_text]
  unfold Row.toRecord
  rw [hid]
  simp only [Row.ofRecord, hread (Instant.decodes _), hread (Stacks.decodes h.stackSettings),
    hread (Roles.decodes _), hread (HoleCards.decodes _), hread (Stacks.decodes h.winnings)]
  rfl

theorem text_eq_iff {u v : Uuid} : u.text = v.text ↔ u = v :=
  ⟨Uuid.text_injective, fun h => h ▸ rfl⟩

/-- Two records have one identifier if their rows have one identifier text. -/
theorem mem_ids_ofRecord {record : HandRecord} :
    (Row.ofRecord record).id ∈ (kept.map Row.ofRecord).map Row.id ↔
      record.id ∈ kept.map HandRecord.id := by
  rw [List.map_map, List.mem_map, List.mem_map]
  exact exists_congr fun r => and_congr_right fun _ => text_eq_iff

/-- The rows of some records are read. -/
theorem mapM_toRecord (h : ∀ r ∈ kept, r.Fits) :
    (kept.map Row.ofRecord).mapM Row.toRecord = .ok kept := by
  induction kept with
  | nil => rfl
  | cons r kept ih =>
    rw [List.forall_mem_cons] at h
    rw [List.map_cons, List.mapM_cons, toRecord_ofRecord h.1, ih h.2]
    rfl

/-- The row of a record with a new identifier text is added to any rows of a table. -/
theorem exists_store_table (hT : T.Lawful contents) {record : HandRecord} {s : δ}
    (h : record.id.text ∉ (contents s).map Row.id) : ∃ s',
      (Repository.table T).store record s = (.ok record, s') ∧
        contents s' = contents s ++ [Row.ofRecord record] := by
  obtain ⟨s', hinsert, hcontents⟩ := hT.verbatim (Row.ofRecord record) s h
  refine ⟨s', ?_, hcontents⟩
  unfold Repository.table
  simp only [hinsert]

/-- A record is read from the row that is selected. -/
theorem find_table (hT : T.Lawful contents) (id : Uuid) (s : δ) : (Repository.table T).find id s =
    match (contents s).find? (·.id = id.text) with
    | some row => row.toRecord
    | none => .error (.notFound id) := by
  unfold Repository.table
  dsimp only
  rw [hT.select]
  rfl

/-- **Records kept in a table** are its rows. -/
theorem table_keeps (hT : T.Lawful contents) :
    Keeps (.table T) fun kept s => contents s = kept.map Row.ofRecord where
  refuse {kept record s} h hid := by
    obtain ⟨e, s', hinsert, hcode, hcontents⟩ :=
      hT.key (Row.ofRecord record) s (h ▸ mem_ids_ofRecord.mpr hid)
    refine ⟨s', ?_, hcontents.trans h⟩
    unfold Repository.table StatementError.onInsert
    simp only [hinsert, hcode]
  store {kept record s} h hid := by
    have hnew : record.id.text ∉ (contents s).map Row.id :=
      h ▸ fun hmem => hid (mem_ids_ofRecord.mp hmem)
    obtain ⟨s', hstore, hcontents⟩ := exists_store_table hT hnew
    refine ⟨s', hstore, ?_⟩
    rw [hcontents, h, List.map_append]
    rfl
  find {kept s} id h hfits := by
    have hfind : (contents s).find? (·.id = id.text) =
        (kept.find? (·.id = id)).map Row.ofRecord := by
      rw [h, List.find?_map]
      congr 2
      funext r
      exact decide_eq_decide.mpr text_eq_iff
    rw [find_table hT, hfind]
    cases hr : kept.find? (·.id = id) with
    | none => rfl
    | some r => exact toRecord_ofRecord (hfits r (List.mem_of_find?_eq_some hr))
  all {kept s} h hfits := by
    unfold Repository.table
    dsimp only
    rw [hT.order, h]
    exact mapM_toRecord hfits

/-! ## Runs -/

theorem offered_append_singleton (before : List Call) (call : Call) :
    offered (before ++ [call]) = offered before ++ call.record?.toList := by
  unfold offered
  rw [List.filterMap_append, List.filterMap_cons]
  cases call.record? <;> rfl

/-- **One call** is answered as the calls before it ask for, and the first records are kept. -/
theorem Keeps.exists_answer (hR : Keeps R Has) {before : List Call}
    (hs : Has (firsts (offered before)) s) (hfits : ∀ r ∈ offered before, r.Fits) (call : Call) :
    ∃ s', answer R s call = (reply before call, s') ∧
      Has (firsts (offered (before ++ [call]))) s' := by
  have hkept : ∀ r ∈ firsts (offered before), r.Fits := fun r hr => hfits r (firsts_subset _ hr)
  rw [offered_append_singleton]
  cases call with
  | store record =>
    have hmem : record.id ∈ (firsts (offered before)).map HandRecord.id ↔
        record.id ∈ (offered before).map HandRecord.id := mem_ids_firsts
    by_cases h : record.id ∈ (offered before).map HandRecord.id
    · obtain ⟨s', hstore, hs'⟩ := hR.refuse hs (hmem.mpr h)
      refine ⟨s', ?_, ?_⟩
      · simp only [answer, hstore, reply, if_pos h]
      · simpa only [Call.record?, Option.toList_some, firsts_append_singleton, if_pos h,
          List.append_nil] using hs'
    · obtain ⟨s', hstore, hs'⟩ := hR.store hs fun hin => h (hmem.mp hin)
      refine ⟨s', ?_, ?_⟩
      · simp only [answer, hstore, reply, if_neg h]
      · simpa only [Call.record?, Option.toList_some, firsts_append_singleton, if_neg h] using hs'
  | find id =>
    refine ⟨s, ?_, ?_⟩
    · simp only [answer, hR.find id hs hkept, reply, find?_firsts]
    · simpa only [Call.record?, Option.toList_none, List.append_nil] using hs
  | all =>
    refine ⟨s, ?_, ?_⟩
    · simp only [answer, hR.all hs hkept, reply]
    · simpa only [Call.record?, Option.toList_none, List.append_nil] using hs

/-- **A run of calls** on a repository that keeps records. -/
theorem Keeps.answers_eq (hR : Keeps R Has) {before calls : List Call}
    (hs : Has (firsts (offered before)) s) (hfits : ∀ r ∈ offered (before ++ calls), r.Fits) :
    answers R calls s = replies before calls := by
  induction calls generalizing before s with
  | nil => rfl
  | cons call calls ih =>
    have hbefore : ∀ r ∈ offered before, r.Fits := by
      intro r hr
      refine hfits r ?_
      unfold offered at hr ⊢
      rw [List.filterMap_append]
      exact List.mem_append_left _ hr
    obtain ⟨s', hanswer, hs'⟩ := hR.exists_answer hs hbefore call
    rw [List.append_cons] at hfits
    rw [answers, hanswer, replies, ih hs' hfits]

/-- **All backends agree** on every sequence of calls whose amounts have 64 signed bits, from an
empty history on: records kept as they are, as a list of rows, and in any table of which holds what
is relied on. Each answer is the one that the calls before it ask for. -/
theorem backends_agree (calls : List Call) (hfits : ∀ r, .store r ∈ calls → r.Fits) :
    answers .memory calls [] = replies [] calls ∧ answers .rows calls [] = replies [] calls ∧
      ∀ {δ : Type} (T : HandTable δ) (contents : δ → List Row), T.Lawful contents →
        ∀ s, contents s = [] → answers (.table T) calls s = replies [] calls := by
  have hoffered : ∀ r ∈ offered ([] ++ calls), r.Fits := by
    intro r hr
    obtain ⟨call, hcall, hrecord⟩ := List.mem_filterMap.mp hr
    cases call with
    | store record =>
      cases hrecord
      exact hfits r hcall
    | find id => cases hrecord
    | all => cases hrecord
  exact ⟨memory_keeps.answers_eq rfl hoffered,
    (table_keeps HandTable.rows_lawful).answers_eq rfl hoffered,
    fun T contents hT s hs => (table_keeps hT).answers_eq hs hoffered⟩

/-- A record with the identifier of the extreme one and nothing else in common with it. -/
def otherRecord : HandRecord :=
  { extremeRecord with
    stackSettings := .empty, playerRoles := .empty, holeCards := .empty, actionSequence := "f"
    winnings := .empty }

/-- The second record with an identifier violates the key of the table, and the first one is
found. -/
theorem backends_agree_second_record :
    answers .rows [.store extremeRecord, .store otherRecord, .find otherRecord.id, .all] [] =
      [.one (.ok extremeRecord), .one (.error (.duplicate extremeRecord.id)),
        .one (.ok extremeRecord), .many (.ok [extremeRecord])] := by
  have hfits : ∀ r, .store r ∈ [Call.store extremeRecord, .store otherRecord,
      .find otherRecord.id, .all] → r.Fits := by
    intro r hr
    simp only [List.mem_cons, Call.store.injEq, reduceCtorEq, List.not_mem_nil, or_false] at hr
    rcases hr with rfl | rfl
    · exact ⟨by decide, by decide⟩
    · exact ⟨by decide, by decide⟩
  exact (backends_agree _ hfits).2.2 .rows (fun rows => rows) HandTable.rows_lawful [] rfl

end History

end Holdem
