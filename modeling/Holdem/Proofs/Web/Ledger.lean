import Holdem.Proofs.Record.Amounts
import Holdem.Proofs.Text.Cut
import Holdem.Web.Service

/-!
# The history and the replies

A service answers requests one after the other, each on the history that the one before left
(`Service.replies`, `Service.after`). Whoever sees the replies knows the history: those with status
201 return its records (`created`).

The bodies are any bytes. Of what the decoder makes of them no more is relied on than that the
amounts of a hand have 64 signed bits (`Decoder.Bounded`).

One request either makes one record, which it returns and appends, or returns no record and leaves
the history alone (`Service.served`). So after any requests the history has the records that were
returned, in order (`Service.after_eq`), and no two with one identifier (`Service.nodup_after`).

Result: **`Service.history_of_replies`**, that at any time the list of hands is that of the records
returned before, and a hand is found, by any spelling of its identifier, exactly if it was returned
before.
-/

namespace Holdem

/-! ## Bodies -/

namespace Decoder

/-- **What is relied on of a decoder**: that the amounts of a hand have 64 signed bits. -/
def Bounded (decode : Decoder) : Prop := ∀ body input, decode body = .ok input → input.Fits

/-- A text is decoded as what it is read as. -/
theorem text_toUTF8 (t : String) :
    text t.toUTF8 = (Json.parse HandInput.reader t).mapError Json.Fault.unplaced := by
  have ht : String.fromUTF8? t.toUTF8 = some t := dif_pos t.isValidUTF8
  unfold text
  rw [ht]

theorem text_bounded : Bounded text := by
  intro body input h
  unfold text at h
  split at h
  · exact HandInput.fits_of_parse (mapError_eq_ok.mp h)
  · cases h

end Decoder

/-! ## Replies -/

namespace Response

/-- The record that a reply returns, if it says that one was created. -/
def created? (r : Response) : Option HandRecord :=
  if r.status = 201 then (Json.parse HandRecord.reader r.body).toOption else none

/-- Whether a reply says that there is no such hand. -/
def HandNotFound (r : Response) : Prop :=
  r.status = 404 ∧
    ∃ message, r.body = (ErrorBody.toJson ⟨"hand_not_found", message, none⟩).compact

/-- **A record that is returned** can be read from the reply. -/
theorem created?_record {record : HandRecord} (h : record.Fits) :
    created? ⟨201, record.toJson.compact⟩ = some record := by
  unfold created?
  rw [if_pos rfl, (Json.parse_of_decodes (HandRecord.decodes h)).1]
  rfl

theorem created?_other {r : Response} (h : r.status ≠ 201) : r.created? = none := if_neg h

end Response

/-- The records that some replies return, in order. -/
def created (replies : List Response) : List HandRecord := replies.filterMap Response.created?

namespace Service

variable {σ : Type} {decode : Decoder} {R : Repository σ} {s : σ}

/-- The replies to some requests, one after the other. A record that the request makes is stamped
as given with it. -/
def replies (decode : Decoder) (R : Repository σ) (s : σ) : List (Stamp × Request) → List Response
  | [] => []
  | (stamp, request) :: requests =>
    let a := serve decode R stamp request s
    a.response :: replies decode R a.state requests

/-- The history after some requests. -/
def after (decode : Decoder) (R : Repository σ) (s : σ) : List (Stamp × Request) → σ
  | [] => s
  | (stamp, request) :: requests => after decode R (serve decode R stamp request s).state requests

theorem length_replies (requests : List (Stamp × Request)) :
    (replies decode R s requests).length = requests.length := by
  induction requests generalizing s with
  | nil => rfl
  | cons e requests ih => exact congrArg (· + 1) ih

theorem after_append (earlier later : List (Stamp × Request)) :
    after decode R s (earlier ++ later) = after decode R (after decode R s earlier) later := by
  induction earlier generalizing s with
  | nil => rfl
  | cons e earlier ih => exact ih

/-- The replies so far are those to the requests so far. -/
theorem take_replies (requests : List (Stamp × Request)) (i : Nat) :
    (replies decode R s requests).take i = replies decode R s (requests.take i) := by
  induction requests generalizing s i with
  | nil => rw [List.take_nil, replies, List.take_nil]
  | cons e requests ih =>
    cases i with
    | zero => rfl
    | succ i => exact congrArg _ (ih i)

/-- Each request is answered on the history that the requests before it left. -/
theorem getElem?_replies (requests : List (Stamp × Request)) (i : Nat) :
    (replies decode R s requests)[i]? = requests[i]?.map fun e =>
      (serve decode R e.1 e.2 (after decode R s (requests.take i))).response := by
  induction requests generalizing s i with
  | nil => rfl
  | cons e requests ih =>
    cases i with
    | zero => rfl
    | succ i => exact ih i

/-! ## New records -/

variable {kept : List HandRecord}

/-- **An attempt to store a record** adds one with a new identifier to those that were kept, and
answers it, or it fails and adds nothing. -/
inductive Recorded (kept : List HandRecord) : Recording (List HandRecord) → Prop
  | added (record : HandRecord) (fits : record.Fits) (new : record.id ∉ kept.map HandRecord.id)
      (log : List LogLine) : Recorded kept ⟨.ok record, kept ++ [record], log⟩
  | failed (e : ServiceError) (log : List LogLine) : Recorded kept ⟨.error e, kept, log⟩

/-- A record is stored unless there is one with its identifier. -/
theorem recorded_store {record : HandRecord} (h : record.Fits) (kept : List HandRecord) :
    Recorded kept (store .memory record kept) := by
  unfold store Repository.memory
  dsimp only
  by_cases hid : kept.any (·.id = record.id) = true
  · rw [if_pos hid]
    exact .failed _ _
  · rw [if_neg hid]
    refine .added record h ?_ _
    simpa using hid

/-- A hand whose settlement fails is not stored. -/
theorem recorded_settle {input : HandInput} (hinput : input.Fits) (stamp : Stamp)
    (kept : List HandRecord) : Recorded kept (settle .memory stamp input kept) := by
  have hfits : ∀ record, (input.process stamp).1 = .ok record → record.Fits :=
    fun _ => HandRecord.fits_of_process hinput
  unfold settle
  generalize input.process stamp = processed at hfits ⊢
  obtain ⟨_ | record, log⟩ := processed
  · exact .failed _ _
  · have hstored := recorded_store (hfits record rfl) kept
    dsimp only
    generalize store .memory record kept = stored at hstored ⊢
    cases hstored with
    | added record fits new log => exact .added record fits new _
    | failed e log => exact .failed e _

/-- A body that is no hand, or a hand that fails its check, is not settled. -/
theorem recorded_record (hdecode : decode.Bounded) (stamp : Stamp) (body : ByteArray)
    (kept : List HandRecord) : Recorded kept (record decode .memory stamp body kept) := by
  unfold record recordDecoded
  cases hread : decode body with
  | error e => exact .failed _ _
  | ok input =>
    dsimp only
    cases input.check with
    | error e => exact .failed _ _
    | ok _ => exact recorded_settle (hdecode body input hread) stamp kept

/-! ## One request -/

/-- **What a request does to a history**: it makes a record with a new identifier and returns it, or
it returns none and changes nothing. -/
inductive Served (kept : List HandRecord) : Answer (List HandRecord) → Prop
  | created (record : HandRecord) (fits : record.Fits) (new : record.id ∉ kept.map HandRecord.id)
      (log : List LogLine) : Served kept ⟨⟨201, record.toJson.compact⟩, kept ++ [record], log⟩
  | other (response : Response) (status : response.status ≠ 201) (log : List LogLine) :
      Served kept ⟨response, kept, log⟩

/-- No error is reported as a creation. -/
theorem report_status_ne (e : ServiceError) : e.report.status ≠ 201 := by
  intro h
  cases e with
  | settle cause => cases cause <;> cases h
  | history cause => cases cause <;> cases h
  | _ => cases h

/-- Looking something up creates nothing. -/
theorem served_respond {α : Type} (write : α → Json) (result : Except ServiceError α) :
    Served kept (let (response, log) := respond 200 write result; ⟨response, kept, log⟩) := by
  cases result with
  | ok a => exact .other _ (fun h => by cases h) _
  | error e => exact .other _ (report_status_ne e) _

/-- **One request.** -/
theorem served (hdecode : decode.Bounded) (stamp : Stamp) (request : Request)
    (kept : List HandRecord) : Served kept (serve decode .memory stamp request kept) := by
  unfold serve
  cases request.route with
  | error refusal => exact .other _ (fun h => by cases refusal <;> cases h) _
  | ok endpoint =>
    cases endpoint with
    | health => exact .other _ (fun h => by cases h) _
    | list =>
      exact served_respond HandRecord.listToJson ((Repository.memory.all kept).mapError .history)
    | fetch id => exact served_respond _ _
    | create body =>
      have hrecorded := recorded_record hdecode stamp body kept
      unfold answer Recording.answer
      dsimp only
      generalize record decode .memory stamp body kept = recorded at hrecorded ⊢
      cases hrecorded with
      | added record fits new log => exact .created record fits new _
      | failed e log => exact .other _ (report_status_ne e) _

variable {a : Answer (List HandRecord)}

/-- A reply with status 201 returns a record. -/
theorem Served.exists_record (h : Served kept a) (hstatus : a.response.status = 201) :
    ∃ record, a.response.created? = some record ∧ a.response.body = record.toJson.compact := by
  cases h with
  | created record fits new log => exact ⟨record, Response.created?_record fits, rfl⟩
  | other response status log => exact absurd hstatus status

/-- Any other reply leaves the history alone. -/
theorem Served.state_eq (h : Served kept a) (hstatus : a.response.status ≠ 201) :
    a.state = kept := by
  cases h with
  | created record fits new log => exact absurd rfl hstatus
  | other response status log => rfl

/-! ## All requests -/

variable {requests : List (Stamp × Request)}

/-- **The history is known from the replies**: to what was kept, the records that are returned are
added in order. -/
theorem after_eq (hdecode : decode.Bounded) (requests : List (Stamp × Request))
    (kept : List HandRecord) : after decode .memory kept requests =
      kept ++ created (replies decode .memory kept requests) := by
  induction requests generalizing kept with
  | nil => exact (List.append_nil kept).symm
  | cons e requests ih =>
    obtain ⟨stamp, request⟩ := e
    have h := served hdecode stamp request kept
    unfold after replies
    generalize serve decode .memory stamp request kept = a at h ⊢
    rw [ih]
    cases h with
    | created record fits new log =>
      unfold created
      rw [List.filterMap_cons_some (Response.created?_record fits), List.append_assoc]
      rfl
    | other response status log =>
      unfold created
      rw [List.filterMap_cons_none (Response.created?_other status)]

/-- No two records that are kept have one identifier. -/
theorem nodup_after (hdecode : decode.Bounded) (requests : List (Stamp × Request))
    {kept : List HandRecord} (h : (kept.map HandRecord.id).Nodup) :
    ((after decode .memory kept requests).map HandRecord.id).Nodup := by
  induction requests generalizing kept with
  | nil => exact h
  | cons e requests ih =>
    obtain ⟨stamp, request⟩ := e
    have hserved := served hdecode stamp request kept
    unfold after
    refine ih ?_
    generalize serve decode .memory stamp request kept = a at hserved ⊢
    cases hserved with
    | created record fits new log =>
      rw [List.map_append]
      exact List.nodup_append.mpr ⟨h, List.nodup_singleton _, fun id hid id' hid' heq =>
        new (List.mem_singleton.mp hid' ▸ heq ▸ hid)⟩
    | other response status log => exact h

/-! ## Requests for hands -/

/-- A hand is found if there is one record with the identifier. -/
theorem find_eq (hnodup : (kept.map HandRecord.id).Nodup) {record : HandRecord}
    (hrecord : record ∈ kept) {id : String} (hid : Uuid.ofText? id = some record.id) :
    find .memory id kept = .ok record := by
  have hfound : kept.find? (·.id = record.id) = some record := by
    cases hr : kept.find? (·.id = record.id) with
    | none => simpa using List.find?_eq_none.mp hr record hrecord
    | some r =>
      have hrid : r.id = record.id := by simpa using List.find?_some hr
      rw [List.inj_on_of_nodup_map hnodup (List.mem_of_find?_eq_some hr) hrecord hrid]
  unfold find Repository.memory
  rw [hid]
  dsimp only
  rw [hfound]
  rfl

theorem find_eq_error {id : String} {u : Uuid} (hid : Uuid.ofText? id = some u)
    (h : ∀ record ∈ kept, record.id ≠ u) :
    find .memory id kept = .error (.history (.notFound u)) := by
  have hnone : kept.find? (·.id = u) = none :=
    List.find?_eq_none.mpr fun record hrecord => by simpa using h record hrecord
  unfold find Repository.memory
  rw [hid]
  dsimp only
  rw [hnone]
  rfl

end Service

namespace Request

/-- Whether a request gets what is at a path of some segments. -/
def Gets (r : Request) (pieces : List String) : Prop :=
  r.method = "GET" ∧ segments (path r.target.toList) = pieces

variable {r : Request}

theorem Gets.route_hands (h : r.Gets ["hands"]) : r.route = .ok .list := by
  unfold route
  rw [h.2]
  exact if_pos h.1

theorem Gets.route_hand {id : String} (h : r.Gets ["hands", id]) (hid : id ≠ "") :
    r.route = .ok (.fetch id) := by
  unfold route
  rw [h.2]
  exact (if_neg hid).trans (if_pos h.1)

/-- The target of one hand: the text of its identifier after `/hands/`. -/
theorem gets_hand {id : String} (hid : id ≠ "")
    (hplain : ∀ c ∈ id.toList, c ≠ '/' ∧ c ≠ '?' ∧ c ≠ '#') (body : Option ByteArray) :
    Gets ⟨"GET", "/hands/" ++ id, body⟩ ["hands", id] := by
  refine ⟨rfl, ?_⟩
  have htarget : ("/hands/" ++ id).toList = '/' :: ("hands".toList ++ '/' :: id.toList) := by
    rw [String.toList_append]
    rfl
  have hquery : untilQuery ('/' :: ("hands".toList ++ '/' :: id.toList)) =
      '/' :: ("hands".toList ++ '/' :: id.toList) := by
    unfold untilQuery
    rw [List.takeWhile_eq_self_iff]
    intro c hc
    have hfront : ('/' :: "hands".toList).all (fun c => c != '?' && c != '#') = true := by decide
    rw [← List.cons_append, List.mem_append] at hc
    rcases hc with hc | hc
    · exact List.all_eq_true.mp hfront c hc
    · rcases List.mem_cons.mp hc with rfl | hc
      · rfl
      · simp [(hplain c hc).2]
  have hcut : Text.CutAt '/' ("hands".toList ++ '/' :: id.toList) ["hands".toList, id.toList] := by
    refine ⟨List.cons_ne_nil _ _, ?_, by simp [List.intercalate]⟩
    rw [List.forall_mem_cons, List.forall_mem_singleton]
    exact ⟨by decide, fun hslash => (hplain _ hslash).1 rfl⟩
  have hlast : id.toList ≠ [] := fun h => hid (String.toList_eq_nil_iff.mp h)
  show segments (path ("/hands/" ++ id).toList) = _
  unfold path
  rw [htarget, hquery]
  show segments ('/' :: ("hands".toList ++ '/' :: id.toList)) = _
  unfold segments
  rw [List.drop_one, List.tail_cons, ← Text.cutAt_iff.mp hcut]
  dsimp only
  rw [if_neg (by simpa using hlast)]
  simp

end Request

/-- **What is answered to a request for hands**, if some records were returned before. -/
structure Expected (past : List HandRecord) (request : Request) (reply : Response) : Prop where
  all : request.Gets ["hands"] → reply = ⟨200, (HandRecord.listToJson past).compact⟩
  /-- The record with the identifier, in whatever spelling it is asked for. -/
  found : ∀ id record, request.Gets ["hands", id] → Uuid.ofText? id = some record.id →
    record ∈ past → reply = ⟨200, record.toJson.compact⟩
  missing : ∀ id u, request.Gets ["hands", id] → Uuid.ofText? id = some u →
    (∀ record ∈ past, record.id ≠ u) → reply.HandNotFound
  unknown : ∀ id, request.Gets ["hands", id] → id ≠ "" → Uuid.ofText? id = none →
    reply.HandNotFound

namespace Service

variable {kept : List HandRecord}

theorem expected_serve (decode : Decoder) (hnodup : (kept.map HandRecord.id).Nodup)
    (stamp : Stamp) (request : Request) :
    Expected kept request (serve decode .memory stamp request kept).response where
  all h := by
    unfold serve
    rw [h.route_hands]
    rfl
  found id record h hid hrecord := by
    have hne : id ≠ "" := by
      rintro rfl
      cases hid
    unfold serve
    rw [h.route_hand hne]
    unfold answer
    dsimp only
    rw [find_eq hnodup hrecord hid]
    rfl
  missing id u h hid hnone := by
    have hne : id ≠ "" := by
      rintro rfl
      cases hid
    unfold serve
    rw [h.route_hand hne]
    unfold answer
    dsimp only
    rw [find_eq_error hid hnone]
    exact ⟨rfl, _, rfl⟩
  unknown id h hne hid := by
    unfold serve
    rw [h.route_hand hne]
    unfold answer find
    dsimp only
    rw [hid]
    exact ⟨rfl, _, rfl⟩

/-- **The replies tell the history.** A service starts with no records and answers some requests in
order, each by one reply. Their bodies may be any bytes. Then it has the records that the replies
with status 201 return, in their order; each of these replies returns a record, and no other reply
changes the records. What is answered to a request for hands is known from the replies before it. -/
theorem history_of_replies (hdecode : decode.Bounded) (requests : List (Stamp × Request)) :
    (replies decode .memory [] requests).length = requests.length ∧
    after decode .memory [] requests = created (replies decode .memory [] requests) ∧
    (∀ reply ∈ replies decode .memory [] requests, reply.status = 201 →
      ∃ record, reply.created? = some record ∧ reply.body = record.toJson.compact) ∧
    ∀ i stamp request reply, requests[i]? = some (stamp, request) →
      (replies decode .memory [] requests)[i]? = some reply →
        (reply.status ≠ 201 → after decode .memory [] (requests.take (i + 1)) =
          after decode .memory [] (requests.take i)) ∧
        Expected (created ((replies decode .memory [] requests).take i)) request reply := by
  have hserved : ∀ i reply, (replies decode .memory [] requests)[i]? = some reply →
      ∃ stamp request, requests[i]? = some (stamp, request) ∧
        reply = (serve decode .memory stamp request
          (after decode .memory [] (requests.take i))).response := by
    intro i reply hi
    rw [getElem?_replies] at hi
    obtain ⟨⟨stamp, request⟩, hrequest, rfl⟩ := Option.map_eq_some_iff.mp hi
    exact ⟨stamp, request, hrequest, rfl⟩
  refine ⟨length_replies requests, after_eq hdecode requests [], fun reply hmem hstatus => ?_,
    fun i stamp request reply hrequest hi => ?_⟩
  · obtain ⟨i, hi⟩ := List.mem_iff_getElem?.mp hmem
    obtain ⟨stamp, request, -, rfl⟩ := hserved i reply hi
    exact (served hdecode stamp request _).exists_record hstatus
  · obtain ⟨stamp', request', hrequest', rfl⟩ := hserved i reply hi
    cases hrequest.symm.trans hrequest'
    constructor
    · intro hstatus
      rw [List.take_add_one, hrequest, Option.toList_some, after_append]
      exact (served hdecode stamp request _).state_eq hstatus
    · have hpast : created ((replies decode .memory [] requests).take i) =
          after decode .memory [] (requests.take i) := by
        rw [take_replies, after_eq hdecode, List.nil_append]
      have hnodup : (([] : List HandRecord).map HandRecord.id).Nodup := List.nodup_nil
      rw [hpast]
      exact expected_serve decode (nodup_after hdecode _ hnodup) stamp request

/-- A hand in which seat 1 loses to seat 2 by the shortcut. -/
def postedHand : HandInput := ⟨shortChips, .empty, shortHoles, "c c c f"⟩

def postedStamp : Stamp where
  id := Uuid.random 10
  createdAt := ⟨⟨2024, 2, 29⟩, ⟨12, 0, 0, 0⟩, by decide, by decide⟩

/-- Its record. -/
def postedRecord : HandRecord :=
  postedHand.toRecord postedStamp ⟨[("A", 0), ("B", -20), ("C", 20)], by decide⟩

/-- Its identifier in capitals and braces. -/
def postedSpelling : String := "\x7b00000000-0000-4000-8000-00000000000A\x7d"

/-- A hand is created, then a body that is no text is refused, and then the hand is listed, and
found by another spelling of its identifier. -/
def postedRequests : List (Stamp × Request) :=
  [(postedStamp, ⟨"POST", "/hands", some postedHand.toJson.compact.toUTF8⟩),
    (postedStamp, ⟨"POST", "/hands", some ⟨#[0xFF]⟩⟩),
    (postedStamp, ⟨"GET", "/hands/?all", none⟩),
    (postedStamp, ⟨"GET", "/hands/" ++ postedSpelling, none⟩)]

theorem history_of_replies_posted :
    Decoder.text.Bounded ∧ after .text .memory [] postedRequests = [postedRecord] ∧
      (replies .text .memory [] postedRequests)[2]? =
        some ⟨200, (HandRecord.listToJson [postedRecord]).compact⟩ ∧
      (replies .text .memory [] postedRequests)[3]? = some ⟨200, postedRecord.toJson.compact⟩ := by
  obtain ⟨hlength, -, -, hreplies⟩ := history_of_replies Decoder.text_bounded postedRequests
  have hreply : ∀ i < 4, ∃ reply, (replies .text .memory [] postedRequests)[i]? = some reply :=
    fun i hi => ⟨_, List.getElem?_eq_getElem (hlength.symm ▸ hi)⟩
  have hcreated : ∀ i, after .text .memory [] (postedRequests.take i) = [postedRecord] →
      created ((replies .text .memory [] postedRequests).take i) = [postedRecord] := by
    intro i hi
    rw [take_replies,
      ← (history_of_replies Decoder.text_bounded (postedRequests.take i)).2.1, hi]
  -- the hand is created and the second body refused, which nothing that follows changes
  have htwo : after .text .memory [] (postedRequests.take 2) = [postedRecord] := by decide +kernel
  obtain ⟨listed, hlisted⟩ := hreply 2 (by decide)
  obtain ⟨hsame, hexpected⟩ := hreplies 2 _ _ _ rfl hlisted
  have hall := hexpected.all ⟨rfl, by decide⟩
  rw [hcreated 2 htwo] at hall
  have hthree := (hsame (by rw [hall]; decide)).trans htwo
  obtain ⟨found, hfound⟩ := hreply 3 (by decide)
  obtain ⟨hsame, hexpected⟩ := hreplies 3 _ _ _ rfl hfound
  rw [hcreated 3 hthree] at hexpected
  have hplain : postedSpelling.toList.all (fun c => c ≠ '/' ∧ c ≠ '?' ∧ c ≠ '#') = true := by decide
  have hgets : Request.Gets ⟨"GET", "/hands/" ++ postedSpelling, none⟩ ["hands", postedSpelling] :=
    Request.gets_hand (by decide) (by simpa using hplain) none
  have hone := hexpected.found _ postedRecord hgets (by decide) List.mem_cons_self
  exact ⟨Decoder.text_bounded, (hsame (by rw [hone]; decide)).trans hthree, by rw [hlisted, hall],
    by rw [hfound, hone]⟩

end Service

end Holdem
