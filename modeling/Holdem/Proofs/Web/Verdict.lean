import Holdem.Proofs.History.Backends
import Holdem.Proofs.Settlement.Dealing
import Holdem.Proofs.Settlement.Shortcut
import Holdem.Proofs.Web.Ledger

/-!
# The reply to a hand

A hand that is posted is created or turned away, and the first check that it fails decides how
(`Verdict`). `Decides` says of a body, as far as it could be decoded, what becomes of it: whether it
is a hand, whether its entries are right on their own (`HandInput.Sound`), whether its text is a
sequence, whether its maps describe one table (`HandInput.Consistent`), and whether its replay is
refused or left unfinished. It mentions no check of the program. `Rejection.ReportedBy` is a reply
to a hand that is turned away.

* The checks overlap: the input is checked for more than the entries were, after the sequence. What
  is sound passes it if it is consistent (`checkInput_eq_ok_iff_consistent`).
* Every body has a verdict (`exists_decides`), and is answered by it (`reported_of_decides`,
  `created_of_decides`).
* Replies of two verdicts can be told apart, by their codes and stages
  (`Rejection.ReportedBy.unique`), so the reply shows the verdict.

Result: **`reply_decided`**, for a history of any kind, and with no error of the server for one in
memory and a new identifier.
-/

namespace Holdem

/-! ## Two parts of a check -/

/-- Every entry of a hand is right on its own. -/
structure HandInput.Sound (input : HandInput) : Prop where
  pos : ∀ stack ∈ input.stackSettings.values, 0 < stack
  cards : ∀ cards ∈ input.holeCards.values, cards.length = 2

/-- The maps of a hand describe one table. -/
structure HandInput.Consistent (input : HandInput) : Prop where
  two : 2 ≤ input.stackSettings.size
  players : input.holeCards.keys.Perm input.stackSettings.keys
  fits : Chips.total input.stackSettings.values ≤ Chips.most

namespace HandInput

variable {input : HandInput}

theorem check_eq_ok_iff : input.check = .ok () ↔ input.Sound := by
  unfold check checkEntries
  constructor
  · intro h
    split at h
    · cases h
    · rename_i hstacks
      exact ⟨checkStacks_eq_ok_iff.mp hstacks, checkHoleCounts_eq_ok_iff.mp h⟩
  · intro h
    have hstacks : checkStacks input.stackSettings.entries = .ok () :=
      checkStacks_eq_ok_iff.mpr h.pos
    rw [hstacks]
    exact checkHoleCounts_eq_ok_iff.mpr h.cards

/-- Of the input of a hand whose entries are right, the rest is left to be checked. -/
theorem checkInput_eq_ok_iff_consistent (h : input.Sound) :
    checkInput input.stackSettings input.holeCards = .ok () ↔ input.Consistent := by
  rw [checkInput_eq_ok_iff]
  exact ⟨fun ha => ⟨ha.two, ha.players, ha.fits⟩,
    fun hc => ⟨hc.two, hc.players, h.pos, hc.fits, h.cards⟩⟩

theorem Consistent.admissible (hc : input.Consistent) (h : input.Sound) :
    Admissible input.stackSettings input.holeCards :=
  checkInput_eq_ok_iff.mp ((checkInput_eq_ok_iff_consistent h).mpr hc)

end HandInput

/-! ## Error bodies -/

namespace Json

/-- After two strings in quotes that make the same text, the same follows. -/
theorem quoted_append_inj {s s' : String} {rest rest' : List Char}
    (h : quoted s ++ rest = quoted s' ++ rest') : s = s' ∧ rest = rest' := by
  have hread := string_quoted gap_nil s rest
  have hread' := string_quoted gap_nil s' rest'
  rw [List.nil_append] at hread hread'
  rw [h, hread'] at hread
  exact Prod.mk.inj (Except.ok.inj hread).symm

end Json

namespace ErrorBody

/-- How a body ends, after the message. -/
def ending : Option Json → List Char
  | none => ['\x7d']
  | some details => ',' :: (Json.quoted "details" ++ ':' :: (details.render .compact 1 ++ ['\x7d']))

theorem toList_compact (b : ErrorBody) : b.toJson.compact.toList =
    '\x7b' :: (Json.quoted "error" ++ ':' :: (Json.quoted b.error ++
      ',' :: (Json.quoted "message" ++ ':' :: (Json.quoted b.message ++ ending b.details)))) := by
  obtain ⟨error, message, details⟩ := b
  cases details <;>
    simp [toJson, Json.compact, Json.render, Json.renderMembers, Json.bracket,
      Json.Layout.compact, ending]

/-- **The code and the details** can be read off a body. -/
theorem compact_inj {b b' : ErrorBody} (h : b.toJson.compact = b'.toJson.compact) :
    b.error = b'.error ∧ ending b.details = ending b'.details := by
  have htext := congrArg String.toList h
  rw [toList_compact, toList_compact] at htext
  obtain ⟨-, hafter⟩ := Json.quoted_append_inj (List.cons.inj htext).2
  obtain ⟨herror, hafter⟩ := Json.quoted_append_inj (List.cons.inj hafter).2
  obtain ⟨-, hafter⟩ := Json.quoted_append_inj (List.cons.inj hafter).2
  exact ⟨herror, (Json.quoted_append_inj (List.cons.inj hafter).2).2⟩

end ErrorBody

/-- The details that name a stage. -/
def Stage.details (stage : Stage) : Json := .obj [("stage", .str stage.code)]

theorem Stage.eq_of_ending {a b : Stage}
    (h : ErrorBody.ending (some a.details) = ErrorBody.ending (some b.details)) : a = b := by
  cases a <;> cases b <;> first | rfl | exact absurd h (by decide)

namespace Service

/-! ## Verdicts -/

/-- The check that a posted hand fails first. -/
inductive Rejection
  /-- It is no hand. -/
  | request
  /-- A stack or a hole is wrong on its own. -/
  | hand
  | sequence
  /-- Stacks and holes describe no table. -/
  | input
  /-- The replay is refused or not complete. -/
  | action (stage : Stage)

/-- What becomes of a posted hand. -/
inductive Verdict
  | rejected (cause : Rejection)
  | created

namespace Rejection

def status : Rejection → Nat
  | action _ => 422
  | _ => 400

def code : Rejection → String
  | request => "invalid_request"
  | hand => "invalid_hand"
  | sequence => "invalid_action_sequence"
  | input => "inconsistent_hand"
  | action _ => "illegal_action"

/-- The details that are given: of a body that is no hand some, and of a replay its stage. -/
def Details : Rejection → Option Json → Prop
  | request, details => details.isSome
  | action stage, details => details = some stage.details
  | _, details => details = none

/-- A reply that a hand is turned away for a cause. -/
def ReportedBy (cause : Rejection) (r : Response) : Prop :=
  r.status = cause.status ∧ ∃ message details, cause.Details details ∧
    r.body = (ErrorBody.toJson ⟨cause.code, message, details⟩).compact

/-- The code says what was wrong, if not at which stage. -/
theorem eq_of_code {cause cause' : Rejection} (h : cause.code = cause'.code) :
    cause = cause' ∨ ∃ stage stage', cause = action stage ∧ cause' = action stage' := by
  cases cause <;> cases cause' <;> simp [code] at h ⊢

/-- **Two causes are never reported alike.** -/
theorem ReportedBy.unique {r : Response} {cause cause' : Rejection} (h : cause.ReportedBy r)
    (h' : cause'.ReportedBy r) : cause = cause' := by
  obtain ⟨-, message, details, hdetails, hbody⟩ := h
  obtain ⟨-, message', details', hdetails', hbody'⟩ := h'
  obtain ⟨hcode, hending⟩ := ErrorBody.compact_inj (hbody.symm.trans hbody')
  rcases eq_of_code hcode with rfl | ⟨stage, stage', rfl, rfl⟩
  · rfl
  · obtain rfl : details = some stage.details := hdetails
    obtain rfl : details' = some stage'.details := hdetails'
    rw [Stage.eq_of_ending hending]

end Rejection

/-- A reply that a hand is created. -/
def Created (r : Response) : Prop := ∃ record, r = ⟨201, (HandRecord.toJson record).compact⟩

/-- **What becomes of a posted hand**, by the first check that it fails. -/
inductive Decides : Except Json.Misread HandInput → Verdict → Prop
  | unreadable (cause : Json.Misread) : Decides (.error cause) (.rejected .request)
  | unsound (input : HandInput) (unsound : ¬ input.Sound) :
      Decides (.ok input) (.rejected .hand)
  | invalid (input : HandInput) (sound : input.Sound) (cause : SequenceError)
      (text : ActionSequence.ofText input.actionSequence = .error cause) :
      Decides (.ok input) (.rejected .sequence)
  | inconsistent (input : HandInput) (sound : input.Sound) (sequence : ActionSequence)
      (text : ActionSequence.ofText input.actionSequence = .ok sequence)
      (inconsistent : ¬ input.Consistent) : Decides (.ok input) (.rejected .input)
  /-- The table refuses an action or a board card. -/
  | refused (input : HandInput) (sound : input.Sound) (sequence : ActionSequence)
      (text : ActionSequence.ofText input.actionSequence = .ok sequence)
      (consistent : input.Consistent) (replayed : ¬ FoldedOut input.stackSettings.size sequence)
      (cause : SettleError) (conduct : Settlement.conduct Deck.defaultSeed input.stackSettings
        input.holeCards sequence.streets = .error cause) :
      Decides (.ok input) (.rejected (.action .actionProcessing))
  /-- The hand is not complete when the sequence ends. -/
  | unfinished (input : HandInput) (sound : input.Sound) (sequence : ActionSequence)
      (text : ActionSequence.ofText input.actionSequence = .ok sequence)
      (consistent : input.Consistent) (replayed : ¬ FoldedOut input.stackSettings.size sequence)
      (t : Table) (conduct : Settlement.conduct Deck.defaultSeed input.stackSettings
        input.holeCards sequence.streets = .ok t) (incomplete : t.phase ≠ .complete) :
      Decides (.ok input) (.rejected (.action .payoffExtraction))
  | foldedOut (input : HandInput) (sound : input.Sound) (sequence : ActionSequence)
      (text : ActionSequence.ofText input.actionSequence = .ok sequence)
      (consistent : input.Consistent) (folded : FoldedOut input.stackSettings.size sequence) :
      Decides (.ok input) .created
  | finished (input : HandInput) (sound : input.Sound) (sequence : ActionSequence)
      (text : ActionSequence.ofText input.actionSequence = .ok sequence)
      (consistent : input.Consistent) (replayed : ¬ FoldedOut input.stackSettings.size sequence)
      (t : Table) (conduct : Settlement.conduct Deck.defaultSeed input.stackSettings
        input.holeCards sequence.streets = .ok t) (complete : t.phase = .complete) :
      Decides (.ok input) .created

variable {σ : Type} {R : Repository σ} {s : σ} {stamp : Stamp} {input : HandInput}
  {decoded : Except Json.Misread HandInput}

/-- **Every body has a verdict.** -/
theorem exists_decides (decoded : Except Json.Misread HandInput) : ∃ v, Decides decoded v := by
  cases decoded with
  | error cause => exact ⟨_, .unreadable cause⟩
  | ok input =>
    by_cases hsound : input.Sound
    · cases htext : ActionSequence.ofText input.actionSequence with
      | error cause => exact ⟨_, .invalid input hsound cause htext⟩
      | ok sequence =>
        by_cases hconsistent : input.Consistent
        · by_cases hfolded : FoldedOut input.stackSettings.size sequence
          · exact ⟨_, .foldedOut input hsound sequence htext hconsistent hfolded⟩
          · cases hconduct : Settlement.conduct Deck.defaultSeed input.stackSettings
                input.holeCards sequence.streets with
            | error cause =>
              exact ⟨_, .refused input hsound sequence htext hconsistent hfolded cause hconduct⟩
            | ok t =>
              by_cases hphase : t.phase = .complete
              · exact ⟨_, .finished input hsound sequence htext hconsistent hfolded t hconduct
                  hphase⟩
              · exact ⟨_, .unfinished input hsound sequence htext hconsistent hfolded t hconduct
                  hphase⟩
        · exact ⟨_, .inconsistent input hsound sequence htext hconsistent⟩
    · exact ⟨_, .unsound input hsound⟩

/-! ## Settling what is decoded -/

theorem replyTo_of_error {e : ServiceError}
    (h : (recordDecoded R stamp decoded s).result = .error e) :
    replyTo R stamp decoded s = ⟨e.report.status, e.report.body.toJson.compact⟩ := by
  unfold replyTo Recording.answer
  rw [h]
  rfl

theorem replyTo_of_ok {record : HandRecord}
    (h : (recordDecoded R stamp decoded s).result = .ok record) :
    replyTo R stamp decoded s = ⟨201, record.toJson.compact⟩ := by
  unfold replyTo Recording.answer
  rw [h]
  rfl

theorem recordDecoded_of_sound (h : input.Sound) :
    recordDecoded R stamp (.ok input) s = settle R stamp input s := by
  unfold recordDecoded
  simp only [HandInput.check_eq_ok_iff.mpr h]

theorem result_of_unsettled {e : SettleError} (h : input.Sound)
    (he : input.settle.result = .error e) :
    (recordDecoded R stamp (.ok input) s).result = .error (.settle e) := by
  rw [recordDecoded_of_sound h]
  unfold settle HandInput.process
  simp only [he]
  rfl

theorem result_of_settled {winnings : Winnings} (h : input.Sound)
    (hw : input.settle.result = .ok winnings) : (recordDecoded R stamp (.ok input) s).result =
      (store R (input.toRecord stamp winnings) s).result := by
  rw [recordDecoded_of_sound h]
  unfold settle HandInput.process
  simp only [hw]
  rfl

/-! ## Verdicts of the settlement -/

/-- The settlement of a consistent hand that is not folded out is its replay. -/
theorem answer_of_conduct {sequence : ActionSequence} (hsound : input.Sound)
    (htext : ActionSequence.ofText input.actionSequence = .ok sequence)
    (hconsistent : input.Consistent) (h : ¬ FoldedOut input.stackSettings.size sequence) :
    Settlement.answer Deck.defaultSeed input.stackSettings input.holeCards input.actionSequence =
      (Settlement.conduct Deck.defaultSeed input.stackSettings input.holeCards sequence.streets >>=
        Settlement.results input.stackSettings) := by
  refine Settlement.answer_of_replayed htext
    ((HandInput.checkInput_eq_ok_iff_consistent hsound).mpr hconsistent) ?_
  rw [← Option.not_isSome_iff_eq_none, Settlement.shortcut?_isSome_iff]
  exact h

theorem exists_settled_of_folded {sequence : ActionSequence} (hsound : input.Sound)
    (htext : ActionSequence.ofText input.actionSequence = .ok sequence)
    (hconsistent : input.Consistent) (h : FoldedOut input.stackSettings.size sequence) :
    ∃ winnings, input.settle.result = .ok winnings := by
  obtain ⟨winnings, hshort⟩ :=
    Option.isSome_iff_exists.mp (Settlement.shortcut?_isSome_iff.mpr h)
  have hsettled := Settlement.settleOn_of_shortcut (Table.engine Deck.defaultSeed) .vacant htext
    ((HandInput.checkInput_eq_ok_iff_consistent hsound).mpr hconsistent) hshort
  exact ⟨winnings, congrArg Settled.result hsettled⟩

/-- Winnings are read off a complete hand, and off no other. -/
theorem results_eq (chips : Stacks) (t : Table) : Settlement.results chips t =
    if t.phase = .complete then .ok (.ofList (chips.keys.zip (t.seats.map (·.payoff))))
    else .error (.engine .payoffExtraction .handNotComplete) := by
  unfold Settlement.results Table.payoffs Table.isComplete
  by_cases h : t.phase = .complete
  · simp only [h, decide_true, if_true]
    rfl
  · simp only [h, decide_false, Bool.false_eq_true, if_false]
    rfl

theorem settle_eq (input : HandInput) : input.settle.result =
    Settlement.answer Deck.defaultSeed input.stackSettings input.holeCards input.actionSequence :=
  settle_result _ _ _

/-- A hand that is turned away is settled with this error. -/
theorem reported_of_unsettled {cause : Rejection} {e : SettleError} (h : input.Sound)
    (he : Settlement.answer Deck.defaultSeed input.stackSettings input.holeCards
      input.actionSequence = .error e) (hstatus : e.report.status = cause.status)
    (hcode : e.report.body.error = cause.code) (hdetails : cause.Details e.report.body.details) :
    cause.ReportedBy (replyTo R stamp (.ok input) s) := by
  rw [replyTo_of_error (result_of_unsettled h ((settle_eq input).trans he))]
  refine ⟨hstatus, e.report.body.message, e.report.body.details, hdetails, ?_⟩
  rw [← hcode]
  rfl

/-- **A hand that is turned away** is answered as its verdict says, whatever the history. -/
theorem reported_of_decides {cause : Rejection} (h : Decides decoded (.rejected cause)) :
    cause.ReportedBy (replyTo R stamp decoded s) := by
  cases h with
  | unreadable cause =>
    have hresult : (recordDecoded R stamp (.error cause) s).result = .error (.malformed cause) :=
      rfl
    rw [replyTo_of_error hresult]
    refine ⟨rfl, _, _, ?_, rfl⟩
    rfl
  | unsound input hunsound =>
    obtain ⟨e, he⟩ := exists_error fun _ hok => hunsound (HandInput.check_eq_ok_iff.mp hok)
    have hresult : (recordDecoded R stamp (.ok input) s).result = .error (.invalid e) := by
      unfold recordDecoded
      simp only [he]
    rw [replyTo_of_error hresult]
    exact ⟨rfl, _, _, rfl, rfl⟩
  | invalid input hsound e htext =>
    refine reported_of_unsettled hsound (e := .sequence e) ?_ rfl rfl rfl
    unfold Settlement.answer
    rw [htext]
    rfl
  | inconsistent input hsound sequence htext hinconsistent =>
    obtain ⟨e, he⟩ := exists_error fun _ hok =>
      hinconsistent ((HandInput.checkInput_eq_ok_iff_consistent hsound).mp hok)
    refine reported_of_unsettled hsound (e := .input e) ?_ rfl rfl rfl
    unfold Settlement.answer
    rw [htext, he]
    rfl
  | refused input hsound sequence htext hconsistent hreplayed e hconduct =>
    obtain ⟨cause, rfl⟩ := Settlement.late_of_conduct (hconsistent.admissible hsound) hconduct
    refine reported_of_unsettled hsound (e := .engine .actionProcessing cause) ?_ rfl rfl rfl
    rw [answer_of_conduct hsound htext hconsistent hreplayed, hconduct]
    rfl
  | unfinished input hsound sequence htext hconsistent hreplayed t hconduct hphase =>
    refine reported_of_unsettled hsound (e := .engine .payoffExtraction .handNotComplete) ?_ rfl
      rfl rfl
    rw [answer_of_conduct hsound htext hconsistent hreplayed, hconduct]
    exact (results_eq _ t).trans (if_neg hphase)

/-- **A hand that is to be created** is settled. -/
theorem settled_of_decides (h : Decides decoded .created) :
    ∃ input winnings, decoded = .ok input ∧ input.Sound ∧ input.settle.result = .ok winnings := by
  cases h with
  | foldedOut input hsound sequence htext hconsistent hfolded =>
    obtain ⟨winnings, hsettled⟩ := exists_settled_of_folded hsound htext hconsistent hfolded
    exact ⟨input, winnings, rfl, hsound, hsettled⟩
  | finished input hsound sequence htext hconsistent hreplayed t hconduct hphase =>
    refine ⟨input, .ofList (input.stackSettings.keys.zip (t.seats.map (·.payoff))), rfl, hsound, ?_⟩
    rw [settle_eq, answer_of_conduct hsound htext hconsistent hreplayed, hconduct]
    exact (results_eq _ t).trans (if_pos hphase)

theorem result_of_decides (h : Decides decoded .created) (R : Repository σ) (stamp : Stamp)
    (s : σ) : ∃ record, record.id = stamp.id ∧
      (recordDecoded R stamp decoded s).result = (store R record s).result := by
  obtain ⟨input, winnings, rfl, hsound, hsettle⟩ := settled_of_decides h
  exact ⟨input.toRecord stamp winnings, rfl, result_of_settled hsound hsettle⟩

/-! ## The reply shows the verdict -/

/-- It is created if the history takes it. -/
theorem created_of_decides (h : Decides decoded .created)
    (hstore : ∀ record : HandRecord, record.id = stamp.id →
      ∃ stored s', R.store record s = (.ok stored, s')) : Created (replyTo R stamp decoded s) := by
  obtain ⟨record, hid, hresult⟩ := result_of_decides h R stamp s
  obtain ⟨stored, s', hstored⟩ := hstore record hid
  refine ⟨stored, replyTo_of_ok ?_⟩
  rw [hresult]
  unfold store
  rw [hstored]

/-- If the history does not take it, no fault of the hand is reported. -/
theorem not_reported_of_decides (h : Decides decoded .created) (cause : Rejection) :
    ¬ cause.ReportedBy (replyTo R stamp decoded s) := by
  rintro ⟨hstatus, -⟩
  obtain ⟨record, -, hresult⟩ := result_of_decides h R stamp s
  unfold store at hresult
  split at hresult
  · rename_i e _ _
    rw [replyTo_of_error hresult] at hstatus
    cases cause <;> cases e <;> cases hstatus
  · rw [replyTo_of_ok hresult] at hstatus
    cases cause <;> cases hstatus

theorem not_created_of_reported {r : Response} {cause : Rejection} (h : cause.ReportedBy r) :
    ¬ Created r := by
  rintro ⟨record, rfl⟩
  obtain ⟨hstatus, -⟩ := h
  cases cause <;> cases hstatus

theorem reported_iff (R : Repository σ) (s : σ) (cause : Rejection) :
    cause.ReportedBy (replyTo R stamp decoded s) ↔ Decides decoded (.rejected cause) := by
  refine ⟨fun hreported => ?_, reported_of_decides⟩
  obtain ⟨v, hv⟩ := exists_decides decoded
  cases v with
  | rejected cause' => rwa [hreported.unique (reported_of_decides hv)]
  | created => exact absurd hreported (not_reported_of_decides hv cause)

theorem created_iff (hstore : ∀ record : HandRecord, record.id = stamp.id →
      ∃ stored s', R.store record s = (.ok stored, s')) :
    Created (replyTo R stamp decoded s) ↔ Decides decoded .created := by
  refine ⟨fun hcreated => ?_, fun h => created_of_decides h hstore⟩
  obtain ⟨v, hv⟩ := exists_decides decoded
  cases v with
  | rejected cause => exact absurd hcreated (not_created_of_reported (reported_of_decides hv))
  | created => exact hv

/-- No body has two verdicts, as they are answered differently. -/
theorem decides_unique (stamp : Stamp) {v v' : Verdict} (h : Decides decoded v)
    (h' : Decides decoded v') : v = v' := by
  have hreported : ∀ {cause}, Decides decoded (.rejected cause) →
      cause.ReportedBy (replyTo .memory stamp decoded []) := reported_of_decides
  cases v with
  | rejected cause =>
    cases v' with
    | rejected cause' => rw [(hreported h).unique (hreported h')]
    | created => exact absurd (hreported h) (not_reported_of_decides h' cause)
  | created =>
    cases v' with
    | rejected cause' => exact absurd (hreported h') (not_reported_of_decides h cause')
    | created => rfl

/-! ## Requests -/

/-- **A body that the route accepts** is decoded, and answered. -/
theorem serve_post {request : Request} {body : ByteArray} (hmethod : request.method = "POST")
    (hpath : Request.segments (Request.path request.target.toList) = ["hands"])
    (hbody : request.body = some body) (hsize : body.size ≤ Request.maxBodyBytes)
    (decode : Decoder) (R : Repository σ) (stamp : Stamp) (s : σ) :
    (serve decode R stamp request s).response = replyTo R stamp (decode body) s := by
  have hroute : request.route = .ok (.create body) := by
    unfold Request.route
    rw [hpath]
    simp only [hmethod, hbody, Request.create, if_neg (Nat.not_lt.mpr hsize)]
    rfl
  unfold serve
  rw [hroute]
  rfl

theorem status_refusal_lt (refusal : Refusal) : refusal.status < 500 := by
  cases refusal <;> decide

theorem Rejection.status_lt (cause : Rejection) : cause.status < 500 := by
  unfold status
  split <;> decide

/-- A hand that is looked up in memory is there or is missing. -/
theorem find_status_lt (kept : List HandRecord) (id : String) :
    (respond 200 HandRecord.toJson (find .memory id kept)).1.status < 500 := by
  unfold find Repository.memory
  cases Uuid.ofText? id with
  | none => exact (by decide : 404 < 500)
  | some u =>
    dsimp only
    cases kept.find? (·.id = u) with
    | none => exact (by decide : 404 < 500)
    | some record => exact (by decide : 200 < 500)

/-- **No error of the server** is the answer of a history in memory. -/
theorem serve_status_lt {kept : List HandRecord} (hnew : stamp.id ∉ kept.map HandRecord.id)
    (decode : Decoder) (request : Request) :
    (serve decode .memory stamp request kept).response.status < 500 := by
  unfold serve
  cases request.route with
  | error refusal => exact status_refusal_lt refusal
  | ok endpoint =>
    cases endpoint with
    | health => exact (by decide : 200 < 500)
    | list => exact (by decide : 200 < 500)
    | fetch id => exact find_status_lt kept id
    | create body =>
      show (replyTo .memory stamp (decode body) kept).status < 500
      obtain ⟨v, hv⟩ := exists_decides (decode body)
      cases v with
      | rejected cause =>
        rw [(reported_of_decides hv).1]
        exact cause.status_lt
      | created =>
        obtain ⟨record, hreply⟩ := created_of_decides hv fun record hid =>
          ⟨_, _, History.store_memory (hid ▸ hnew)⟩
        rw [hreply]
        exact (by decide : 201 < 500)

/-- **The reply to a posted hand is decided by the first check that it fails.** A body of any bytes
is taken for what it is decoded to, by any decoder.
* It has one verdict.
* With any history it is turned away for a cause, with the status, the code and the details of that
  cause, just if this is its verdict. The stage of a replay is one of actions, or of payoffs.
* With a history that takes a new record, it is created just if that is its verdict.
* This is what is answered to a request that posts a body of a size which the route accepts.
* With a history in memory and a new identifier, no request is answered by an error of the
  server. -/
theorem reply_decided (stamp : Stamp) (decoded : Except Json.Misread HandInput) :
    (∃! v, Decides decoded v) ∧
    (∀ {σ : Type} (R : Repository σ) (s : σ) (cause : Rejection),
      cause.ReportedBy (replyTo R stamp decoded s) ↔ Decides decoded (.rejected cause)) ∧
    (∀ {σ : Type} (R : Repository σ) (s : σ),
      (∀ record : HandRecord, record.id = stamp.id →
        ∃ stored s', R.store record s = (.ok stored, s')) →
      (Created (replyTo R stamp decoded s) ↔ Decides decoded .created)) ∧
    (∀ (decode : Decoder) (request : Request) (body : ByteArray), request.method = "POST" →
      Request.segments (Request.path request.target.toList) = ["hands"] →
      request.body = some body → body.size ≤ Request.maxBodyBytes → decode body = decoded →
      ∀ {σ : Type} (R : Repository σ) (s : σ),
        (serve decode R stamp request s).response = replyTo R stamp decoded s) ∧
    ∀ kept : List HandRecord, stamp.id ∉ kept.map HandRecord.id →
      (Created (replyTo .memory stamp decoded kept) ↔ Decides decoded .created) ∧
      ∀ (decode : Decoder) (request : Request),
        (serve decode .memory stamp request kept).response.status < 500 := by
  refine ⟨?_, reported_iff, fun R s => created_iff, ?_, fun kept hnew => ⟨?_, serve_status_lt hnew⟩⟩
  · obtain ⟨v, hv⟩ := exists_decides decoded
    exact ⟨v, hv, fun v' hv' => decides_unique stamp hv' hv⟩
  · rintro decode request body hmethod hpath hbody hsize rfl σ R s
    exact serve_post hmethod hpath hbody hsize decode R stamp s
  · exact created_iff fun record hid => ⟨_, _, History.store_memory (hid ▸ hnew)⟩

/-- Two players, of whom only one has acted. -/
def openHand : HandInput := ⟨crosswiseChips, .empty, crosswiseHoles, "c"⟩

/-- The hand is not complete, so there are no payoffs to be read, and the reply says so. -/
theorem reply_decided_unfinished :
    let body := openHand.toJson.compact.toUTF8
    body.size ≤ Request.maxBodyBytes ∧
      Request.segments (Request.path "/hands/?now".toList) = ["hands"] ∧
      Decoder.text body = .ok openHand ∧
      Decides (.ok openHand) (.rejected (.action .payoffExtraction)) ∧
      ¬ Created (replyTo .memory postedStamp (.ok openHand) []) ∧
      (Rejection.action .payoffExtraction).ReportedBy
        (serve .text .memory postedStamp ⟨"POST", "/hands/?now", some body⟩ []).response := by
  intro body
  have hsize : body.size ≤ Request.maxBodyBytes := by decide +kernel
  have hpath : Request.segments (Request.path "/hands/?now".toList) = ["hands"] := by
    decide +kernel
  have hread : Decoder.text body = .ok openHand := by
    rw [Decoder.text_toUTF8]
    decide +kernel
  have hsound : openHand.Sound := HandInput.check_eq_ok_iff.mp (by decide +kernel)
  have hconsistent : openHand.Consistent :=
    (HandInput.checkInput_eq_ok_iff_consistent hsound).mp (by decide +kernel)
  have hphase : (Settlement.conduct Deck.defaultSeed openHand.stackSettings openHand.holeCards
      [.betting [.checkOrCall]]).map Table.phase = .ok .betting := by decide +kernel
  obtain ⟨t, hconduct, hbetting⟩ := map_eq_ok.mp hphase
  have hverdict : Decides (.ok openHand) (.rejected (.action .payoffExtraction)) :=
    .unfinished openHand hsound ⟨[.betting [.checkOrCall]]⟩ (by decide +kernel) hconsistent
      (fun h => absurd h.three (by decide)) t hconduct (by rw [hbetting]; decide)
  obtain ⟨hunique, hreported, hcreated, hserve, -⟩ := reply_decided postedStamp (.ok openHand)
  have hother : ¬ Created (replyTo .memory postedStamp (.ok openHand) []) := fun h => by
    have hcreate := (hcreated .memory [] fun record _ =>
      ⟨_, _, History.store_memory List.not_mem_nil⟩).mp h
    cases hunique.unique hverdict hcreate
  refine ⟨hsize, hpath, hread, hverdict, hother, ?_⟩
  rw [hserve .text ⟨"POST", "/hands/?now", some body⟩ body rfl hpath rfl hsize hread .memory []]
  exact (hreported .memory [] _).mpr hverdict

end Service

end Holdem
