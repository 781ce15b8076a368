import Holdem.Command.Run
import Holdem.Proofs.Disk.Saved
import Holdem.Proofs.History.Backends
import Holdem.Proofs.Web.Ledger

/-!
# The two front ends agree

A hand comes in as the body of a request (`record_hand`), or as the input of the command `settle`
(`handle_settle_command`): in a file, or on the standard input if the input is named `-`. Both front
ends settle it and store its record.

* A text is settled (`Settles`) if it is read as a hand, each entry of it is right, and the hand has
  winnings. Both front ends make the record of that hand and differ in the stamp only
  (`Settles.settleText`, `Settles.record`); of any other text they make none
  (`exists_settleText_error`, `exists_record_error`). That the decoder of the service reads a text
  as the command does is relied on (`Decoder.ReadsTexts`).
* The command goes step by step: it reads (`readInput_on`), it stops at a text that is not settled
  (`settling_of_error`) or a record that is not stored (`settling_of_refused`), and what it stored
  it prints (**`stored_before_printed`**). A command that fails has printed nothing
  (**`silent_of_error`**).
* `Agree` says what it means that both attempts come to the same: each of them adds its record to
  the history, and the command prints it, or each of them fails, the history is as it was, and
  nothing is printed. A history takes both records (`agree_of_taken`) or neither
  (`agree_of_refused`).
* `Dry` compares a command without a history to one with a history (`dry_of_aside`).

Result: **`front_ends_agree`**, for records kept as they are, in a table, or in a file on a disk,
and for a history that takes none.
-/

namespace Holdem

variable {σ τ α β : Type} {decode : Decoder} {R : Repository σ} {s s' : σ} {w w' : World σ}
  {stamp stamp' : Stamp} {input text : String} {hand : HandInput} {winnings : Winnings}

/-! ## The record of a text -/

/-- A text of a hand that is settled. -/
structure Settles (text : String) (hand : HandInput) (winnings : Winnings) : Prop where
  read : Json.parse HandInput.reader text = .ok hand
  checked : hand.check = .ok ()
  settled : hand.settle.result = .ok winnings

theorem Settles.process (h : Settles text hand winnings) (stamp : Stamp) :
    (hand.process stamp).1 = .ok (hand.toRecord stamp winnings) := by
  unfold HandInput.process
  simp only [h.settled]
  rfl

theorem Settles.fits (h : Settles text hand winnings) (stamp : Stamp) :
    (hand.toRecord stamp winnings).Fits :=
  HandRecord.fits_of_process (HandInput.fits_of_parse h.read) (h.process stamp)

theorem Settles.settleText (h : Settles text hand winnings) (stamp : Stamp) (input : String) :
    Command.settleText stamp input text = .ok (hand.toRecord stamp winnings) := by
  have hread : Command.readHand input text = .ok hand := by
    unfold Command.readHand
    simp only [h.read, h.checked]
  unfold Command.settleText
  rw [hread]
  exact mapError_eq_ok.mpr (h.process stamp)

/-- The command makes no record of any other text. -/
theorem exists_settleText_error (h : ∀ hand winnings, ¬ Settles text hand winnings)
    (stamp : Stamp) (input : String) : ∃ e, Command.settleText stamp input text = .error e := by
  refine exists_error fun record hrecord => ?_
  obtain ⟨hand, hhand, hprocess⟩ := bind_eq_ok.mp hrecord
  obtain ⟨winnings, hwinnings, -⟩ := map_eq_ok.mp (mapError_eq_ok.mp hprocess)
  unfold Command.readHand at hhand
  split at hhand
  · cases hhand
  · rename_i read hread
    split at hhand
    · cases hhand
    · rename_i hcheck
      cases hhand
      exact h hand winnings ⟨hread, hcheck, hwinnings⟩

/-- **What is relied on of a decoder**: that a text is decoded as the hand that is read in it. What
is said of a text without a hand is left open. -/
def Decoder.ReadsTexts (decode : Decoder) : Prop :=
  ∀ (t : String) (hand : HandInput),
    decode t.toUTF8 = .ok hand ↔ Json.parse HandInput.reader t = .ok hand

theorem Decoder.text_readsTexts : Decoder.text.ReadsTexts := by
  intro t hand
  rw [Decoder.text_toUTF8]
  exact mapError_eq_ok

/-- The service offers the record to the history. -/
theorem Settles.record (hdecode : decode.ReadsTexts) (h : Settles text hand winnings)
    (R : Repository σ) (stamp : Stamp) (s : σ) :
    ∃ log, Service.record decode R stamp text.toUTF8 s =
      { Service.store R (hand.toRecord stamp winnings) s with log := log } := by
  have hread : decode text.toUTF8 = .ok hand := (hdecode text hand).mpr h.read
  unfold Service.record Service.recordDecoded Service.settle HandInput.process
  simp only [hread, h.checked, h.settled]
  exact ⟨_, rfl⟩

/-- The service makes no record of any other text. -/
theorem exists_record_error (hdecode : decode.ReadsTexts)
    (h : ∀ hand winnings, ¬ Settles text hand winnings) (R : Repository σ) (stamp : Stamp) (s : σ) :
    ∃ e log, Service.record decode R stamp text.toUTF8 s = ⟨.error e, s, log⟩ := by
  unfold Service.record Service.recordDecoded
  split
  · exact ⟨_, _, rfl⟩
  · rename_i hand hread
    split
    · exact ⟨_, _, rfl⟩
    · rename_i hcheck
      cases hsettle : hand.settle.result with
      | ok winnings =>
        exact absurd ⟨(hdecode text hand).mp hread, hcheck, hsettle⟩ (h hand winnings)
      | error e =>
        unfold Service.settle HandInput.process
        simp only [hsettle]
        exact ⟨_, _, rfl⟩

/-! ## Steps of a command -/

/-- What a task comes to in a world, and the world after it. -/
abbrev Command.Task.on (task : Command.Task (StateM (World σ)) α) (w : World σ) :
    Except CommandError α × World σ :=
  task.run.run w

theorem on_bind_ok {x : Command.Task (StateM (World σ)) α}
    {f : α → Command.Task (StateM (World σ)) β} {a : α} (h : x.on w = (.ok a, w')) :
    Command.Task.on (x >>= f) w = (f a).on w' := by
  unfold Command.Task.on at h ⊢
  rw [ExceptT.run_bind, StateT.run_bind, h]
  rfl

theorem on_bind_error {x : Command.Task (StateM (World σ)) α}
    {f : α → Command.Task (StateM (World σ)) β} {e : CommandError} (h : x.on w = (.error e, w')) :
    Command.Task.on (x >>= f) w = (.error e, w') := by
  unfold Command.Task.on at h ⊢
  rw [ExceptT.run_bind, StateT.run_bind, h]
  rfl

namespace World

/-- What reading an input comes to: a dash is the standard input, all else is a file. -/
def offered (w : World σ) (input : String) : Except FileError String :=
  if input = "-" then w.input else w.disk.readText input

/-- The world after an input is read. -/
def read (w : World σ) (input : String) : World σ :=
  if input = "-" then { w with input := .ok "" } else w

@[simp]
theorem read_out (w : World σ) (input : String) : (w.read input).out = w.out := by
  unfold read
  split <;> rfl

@[simp]
theorem read_closed (w : World σ) (input : String) : (w.read input).closed = w.closed := by
  unfold read
  split <;> rfl

@[simp]
theorem read_disk (w : World σ) (input : String) : (w.read input).disk = w.disk := by
  unfold read
  split <;> rfl

@[simp]
theorem read_history (w : World σ) (input : String) : (w.read input).history = w.history := by
  unfold read
  split <;> rfl

end World

namespace Command

theorem attempt_on {ε : Type} (f : ε → CommandError) (step : StateM (World σ) (Except ε α))
    (w : World σ) : (attempt f step).on w = ((step w).1.mapError f, (step w).2) := rfl

theorem readInput_on (w : World σ) (input : String) : (readInput World.console input).on w =
    ((w.offered input).mapError fun e =>
      .input ("Failed to read " ++ input ++ ": " ++ e.message), w.read input) := by
  unfold readInput World.offered World.read
  split <;> rfl

theorem readInput_on_ok (h : w.offered input = .ok text) :
    (readInput World.console input).on w = (.ok text, w.read input) := by
  rw [readInput_on, h]
  rfl

theorem print_on (h : w.closed = none) (text : String) :
    (print World.console text).on w = (.ok (), { w with out := w.out ++ text }) := by
  unfold print World.console
  rw [attempt_on]
  simp only [h]
  rfl

theorem print_on_closed {cause : String} (h : w.closed = some cause) (text : String) :
    (print World.console text).on w = (.error (.io cause), w) := by
  unfold print World.console
  rw [attempt_on]
  simp only [h]
  rfl

/-- Nothing is printed where printing fails. -/
theorem eq_of_print_error {e : CommandError}
    (h : (print World.console text).on w = (.error e, w')) : w' = w := by
  cases hclosed : w.closed with
  | none =>
    rw [print_on hclosed] at h
    cases h
  | some cause =>
    rw [print_on_closed hclosed] at h
    cases h
    rfl

end Command

/-! ## The command -/

/-- A way to store a record that leaves the standard output alone. -/
structure Aside (store : Storing (StateM (World σ))) : Prop where
  out : ∀ record w, (store record w).2.out = w.out
  closed : ∀ record w, (store record w).2.closed = w.closed

/-- A history outside of the files is kept aside. -/
theorem Repository.storing_aside (R : Repository σ) : Aside R.storing where
  out _ _ := rfl
  closed _ _ := rfl

variable {record stored : HandRecord} {store : Storing (StateM (World σ))}

namespace Command

/-- The command `settle` in a world: what it comes to, and the world after it. -/
def settling (store : Option (Storing (StateM (World σ)))) (stamp : Stamp) (input : String)
    (w : World σ) : Except CommandError Unit × World σ :=
  (settleIn World.console store stamp input).on w

theorem keep_on_ok (h : store record w = (.ok stored, w')) :
    (keep record (some store)).on w = (.ok (), w') := by
  refine on_bind_ok (a := stored) ?_
  rw [attempt_on, h]
  rfl

theorem keep_on_error {e : HistoryError} (h : store record w = (.error e, w')) :
    (keep record (some store)).on w = (.error (.history e), w') := by
  refine on_bind_error ?_
  rw [attempt_on, h]
  rfl

/-- An input that is not read is not settled. -/
theorem settling_of_unread {e : FileError} (h : w.offered input = .error e)
    (store : Option (Storing (StateM (World σ)))) (stamp : Stamp) : settling store stamp input w =
      (.error (.input ("Failed to read " ++ input ++ ": " ++ e.message)), w.read input) := by
  refine on_bind_error ?_
  rw [readInput_on, h]
  rfl

section Offered

variable (h : w.offered input = .ok text)

include h

/-- A text that is not settled stops the command. -/
theorem settling_of_error {e : CommandError} (he : settleText stamp input text = .error e)
    (store : Option (Storing (StateM (World σ)))) :
    settling store stamp input w = (.error e, w.read input) := by
  refine (on_bind_ok (readInput_on_ok h)).trans (on_bind_error ?_)
  rw [he]
  rfl

/-- Of a text that is settled the record is left to be stored and printed. -/
theorem settling_of_record (hrecord : settleText stamp input text = .ok record)
    (store : Option (Storing (StateM (World σ)))) : settling store stamp input w =
      Task.on (keep record store >>= fun _ => print World.console (printed record))
        (w.read input) := by
  refine (on_bind_ok (readInput_on_ok h)).trans (on_bind_ok ?_)
  rw [hrecord]
  rfl

/-- Without a history the record is printed. -/
theorem settling_none (hrecord : settleText stamp input text = .ok record) :
    settling none stamp input w = (print World.console (printed record)).on (w.read input) :=
  (settling_of_record h hrecord none).trans (on_bind_ok rfl)

/-- A record that is not stored stops the command. -/
theorem settling_of_refused {e : HistoryError} (hrecord : settleText stamp input text = .ok record)
    (hstore : store record (w.read input) = (.error e, w')) :
    settling (some store) stamp input w = (.error (.history e), w') :=
  (settling_of_record h hrecord _).trans (on_bind_error (keep_on_error hstore))

/-- A record that is stored is printed in the world in which it is stored. -/
theorem settling_of_stored (hrecord : settleText stamp input text = .ok record)
    (hstore : store record (w.read input) = (.ok stored, w')) :
    settling (some store) stamp input w = (print World.console (printed record)).on w' :=
  (settling_of_record h hrecord _).trans (on_bind_ok (keep_on_ok hstore))

/-- **A record is stored before it is printed.** If nothing can be printed then, it is stored all
the same. -/
theorem stored_before_printed (hrecord : settleText stamp input text = .ok record)
    (hstore : store record (w.read input) = (.ok stored, w')) :
    settling (some store) stamp input w = match w'.closed with
      | none => (.ok (), { w' with out := w'.out ++ printed record })
      | some cause => (.error (.io cause), w') := by
  rw [settling_of_stored h hrecord hstore]
  split
  · rename_i hclosed
    exact print_on hclosed _
  · rename_i cause hclosed
    exact print_on_closed hclosed _

end Offered

/-- **A command that fails has printed nothing.** -/
theorem silent_of_error {store : Option (Storing (StateM (World σ)))}
    (haside : ∀ s ∈ store, Aside s) {e : CommandError}
    (h : settling store stamp input w = (.error e, w')) : w'.out = w.out := by
  cases hoffered : w.offered input with
  | error cause =>
    rw [settling_of_unread hoffered] at h
    cases h
    exact w.read_out input
  | ok text =>
    cases hrecord : settleText stamp input text with
    | error cause =>
      rw [settling_of_error hoffered hrecord] at h
      cases h
      exact w.read_out input
    | ok record =>
      cases store with
      | none =>
        rw [settling_none hoffered hrecord] at h
        rw [eq_of_print_error h, World.read_out]
      | some store =>
        have hout := (haside store rfl).out record (w.read input)
        rw [World.read_out] at hout
        rcases hstore : store record (w.read input) with ⟨cause | stored, world⟩
        · rw [settling_of_refused hoffered hrecord hstore] at h
          cases h
          rwa [hstore] at hout
        · rw [settling_of_stored hoffered hrecord hstore] at h
          rw [eq_of_print_error h]
          rwa [hstore] at hout

/-- **A record that is printed** is read back: the end of the line is no part of it. -/
theorem parse_printed (h : record.Fits) :
    Json.parse HandRecord.reader (printed record) = .ok record := by
  have hends : Json.Ends ['\n'] := by
    intro c hc
    obtain rfl : '\n' = c := Option.some.inj hc
    decide
  have hread := ((HandRecord.decodes h) .indented Json.airy_indented 0).read [] ['\n'] Json.gap_nil
    hends
  unfold printed Json.parse Json.indented
  rw [String.toList_append, String.toList_ofList]
  rw [List.nil_append] at hread
  show (HandRecord.reader (_ ++ ['\n']) >>= _) = _
  rw [hread]
  rfl

end Command

/-! ## Agreement -/

/-- **Two attempts that come to the same**, one of the service on a history `s` and one of the
command in a world `w`. `Added` and `Added'` say of the history after it, and of the disk and the
history of the world after it, that a record is what was added. -/
inductive Agree (stamp stamp' : Stamp) (s : σ) (w : World τ) (Added : HandRecord → σ → Prop)
    (Added' : HandRecord → Disk → τ → Prop) :
    Service.Recording σ → Except CommandError Unit × World τ → Prop
  /-- Each adds its record of the same hand, and what the command prints is read as its record. -/
  | both (hand : HandInput) (winnings : Winnings) (log : List LogLine) (s' : σ) (w' : World τ)
      (text : String) (added : Added (hand.toRecord stamp winnings) s')
      (added' : Added' (hand.toRecord stamp' winnings) w'.disk w'.history)
      (printed : w'.out = w.out ++ text)
      (read : Json.parse HandRecord.reader text = .ok (hand.toRecord stamp' winnings)) :
      Agree stamp stamp' s w Added Added'
        ⟨.ok (hand.toRecord stamp winnings), s', log⟩ (.ok (), w')
  /-- Both fail, no history is changed, and nothing is printed. -/
  | neither (e : ServiceError) (log : List LogLine) (e' : CommandError) (w' : World τ)
      (disk : w'.disk = w.disk) (history : w'.history = w.history) (silent : w'.out = w.out) :
      Agree stamp stamp' s w Added Added' ⟨.error e, s, log⟩ (.error e', w')

section Agreement

variable {w w' : World τ} {store : Storing (StateM (World τ))} {Added : HandRecord → σ → Prop}
  {Added' : HandRecord → Disk → τ → Prop} (hdecode : decode.ReadsTexts)
  (h : w.offered input = .ok text)

include hdecode h

/-- **Two attempts agree** if they do so on a text that is settled. Any other text stops both. -/
theorem agree_of_settles (hsettled : ∀ hand winnings, Settles text hand winnings →
      Agree stamp stamp' s w Added Added' (Service.record decode R stamp text.toUTF8 s)
        (Command.settling (some store) stamp' input w)) :
    Agree stamp stamp' s w Added Added' (Service.record decode R stamp text.toUTF8 s)
      (Command.settling (some store) stamp' input w) := by
  by_cases hex : ∃ hand winnings, Settles text hand winnings
  · obtain ⟨hand, winnings, hsettles⟩ := hex
    exact hsettled hand winnings hsettles
  · push Not at hex
    obtain ⟨e, log, hrecord⟩ := exists_record_error hdecode hex R stamp s
    obtain ⟨e', he'⟩ := exists_settleText_error hex stamp' input
    rw [hrecord, Command.settling_of_error h he']
    exact .neither e log e' _ (w.read_disk input) (w.read_history input) (w.read_out input)

/-- **A history that takes both records.** -/
theorem agree_of_taken (hopen : w.closed = none) (haside : Aside store)
    (hstore : ∀ record : HandRecord, record.id = stamp.id → ∃ s',
      R.store record s = (.ok record, s') ∧ Added record s')
    (hstore' : ∀ record : HandRecord, record.id = stamp'.id → ∃ w',
      store record (w.read input) = (.ok record, w') ∧ Added' record w'.disk w'.history) :
    Agree stamp stamp' s w Added Added' (Service.record decode R stamp text.toUTF8 s)
      (Command.settling (some store) stamp' input w) := by
  refine agree_of_settles hdecode h fun hand winnings hsettles => ?_
  obtain ⟨log, hrecord⟩ := hsettles.record hdecode R stamp s
  obtain ⟨s', hs', hadded⟩ := hstore (hand.toRecord stamp winnings) rfl
  obtain ⟨w', hw', hadded'⟩ := hstore' (hand.toRecord stamp' winnings) rfl
  have hout : w'.out = w.out := by
    simpa only [hw', World.read_out] using haside.out (hand.toRecord stamp' winnings) (w.read input)
  have hclosed : w'.closed = none := by
    simpa only [hw', World.read_closed, hopen] using
      haside.closed (hand.toRecord stamp' winnings) (w.read input)
  have hcommand := Command.stored_before_printed h (hsettles.settleText stamp' input) hw'
  rw [hclosed] at hcommand
  rw [hrecord, hcommand]
  unfold Service.store
  rw [hs']
  exact .both hand winnings log s' _ _ hadded hadded' (congrArg (· ++ _) hout)
    (Command.parse_printed (hsettles.fits stamp'))

/-- **A history that takes no record.** -/
theorem agree_of_refused (haside : Aside store)
    (hstore : ∀ record, ∃ e, R.store record s = (.error e, s))
    (hstore' : ∀ record, ∃ e w', store record (w.read input) = (.error e, w') ∧
      w'.disk = w.disk ∧ w'.history = w.history) :
    Agree stamp stamp' s w Added Added' (Service.record decode R stamp text.toUTF8 s)
      (Command.settling (some store) stamp' input w) := by
  refine agree_of_settles hdecode h fun hand winnings hsettles => ?_
  obtain ⟨log, hrecord⟩ := hsettles.record hdecode R stamp s
  obtain ⟨e, he⟩ := hstore (hand.toRecord stamp winnings)
  obtain ⟨e', w', he', hdisk, hhistory⟩ := hstore' (hand.toRecord stamp' winnings)
  have hcommand := Command.settling_of_refused h (hsettles.settleText stamp' input) he'
  rw [hrecord, hcommand]
  unfold Service.store
  rw [he]
  exact .neither _ log _ w' hdisk hhistory
    (Command.silent_of_error (fun _ hs => Option.some.inj hs ▸ haside) hcommand)

end Agreement

/-- **One way to keep records** for both front ends. -/
theorem agree_of_storing {Added : HandRecord → σ → Prop} (hdecode : decode.ReadsTexts)
    (h : w.offered input = .ok text) (hopen : w.closed = none)
    (hstore : ∀ record : HandRecord, record.id = stamp.id ∨ record.id = stamp'.id → ∃ s',
      R.store record w.history = (.ok record, s') ∧ Added record s') :
    Agree stamp stamp' w.history w Added (fun record disk s' => disk = w.disk ∧ Added record s')
      (Service.record decode R stamp text.toUTF8 w.history)
      (Command.settling (some R.storing) stamp' input w) := by
  refine agree_of_taken hdecode h hopen R.storing_aside (fun record hid => hstore record (.inl hid))
    fun record hid => ?_
  obtain ⟨s', hs', hadded⟩ := hstore record (.inr hid)
  refine ⟨{ w.read input with history := s' }, ?_, w.read_disk input, hadded⟩
  unfold Repository.storing
  rw [World.read_history, hs']

/-- **A command without a history** beside one with a history, in the same world. -/
structure Dry (w : World σ) (full dry : Except CommandError Unit × World σ) : Prop where
  disk : dry.2.disk = w.disk
  history : dry.2.history = w.history
  /-- It prints what the other one prints, which is the record that that one stored. -/
  printed : full.1 = .ok () → dry.1 = .ok () ∧ dry.2.out = full.2.out
  /-- If it fails, the other one fails for the same cause. -/
  refused : ∀ e, dry.1 = .error e → full.1 = .error e ∧ dry.2.out = w.out

/-- Without a history the same is printed as with one, and nothing is stored. -/
theorem dry_of_aside (haside : Aside store) (hopen : w.closed = none) (stamp : Stamp)
    (input : String) : Dry w (Command.settling (some store) stamp input w)
      (Command.settling none stamp input w) := by
  cases hoffered : w.offered input with
  | error cause =>
    rw [Command.settling_of_unread hoffered, Command.settling_of_unread hoffered]
    exact ⟨w.read_disk input, w.read_history input, (fun h => by cases h),
      fun e h => ⟨h, w.read_out input⟩⟩
  | ok text =>
    cases hrecord : Command.settleText stamp input text with
    | error cause =>
      rw [Command.settling_of_error hoffered hrecord, Command.settling_of_error hoffered hrecord]
      exact ⟨w.read_disk input, w.read_history input, (fun h => by cases h),
        fun e h => ⟨h, w.read_out input⟩⟩
    | ok record =>
      rw [Command.settling_none hoffered hrecord,
        Command.print_on ((w.read_closed input).trans hopen)]
      refine ⟨w.read_disk input, w.read_history input, fun hfull => ⟨rfl, ?_⟩,
        fun e h => by cases h⟩
      have hout := haside.out record (w.read input)
      have hclosed := haside.closed record (w.read input)
      rcases hstore : store record (w.read input) with ⟨cause | stored, world⟩
      · rw [Command.settling_of_refused hoffered hrecord hstore] at hfull
        cases hfull
      · rw [hstore] at hout hclosed
        rw [Command.settling_of_stored hoffered hrecord hstore,
          Command.print_on (hclosed.trans ((w.read_closed input).trans hopen))]
        exact congrArg (· ++ _) hout.symm

/-! ## Histories on a disk -/

section Disk

variable {env : Resolved.Variables} {d' : Disk} {path : String} {rows : List Row}
  {resolved : Resolved}

theorem storeAt_aside (env : Resolved.Variables) (path : String) (rows : List Row) :
    Aside (Command.storeAt (World.host env) path rows : Storing (StateM (World σ))) where
  out record _ := by
    unfold Command.storeAt
    rcases Repository.rows.store record rows with ⟨_ | _, _⟩ <;> rfl
  closed record _ := by
    unfold Command.storeAt
    rcases Repository.rows.store record rows with ⟨_ | _, _⟩ <;> rfl

/-- A record that the rows take is stored as far as they can be saved with it. -/
theorem storeAt_of_stored {rows' : List Row}
    (h : Repository.rows.store record rows = (.ok stored, rows')) :
    Command.storeAt (World.host env) path rows record w =
      ((w.disk.saveHistory path rows').1.map fun _ => stored,
        { w with disk := (w.disk.saveHistory path rows').2 }) := by
  unfold Command.storeAt
  rw [h]
  rfl

/-- A record with a new identifier is saved with the rows that are there. -/
theorem storeAt_of_saved (hnew : record.id.text ∉ rows.map Row.id)
    (hsave : w.disk.saveHistory path (rows ++ [Row.ofRecord record]) = (.ok (), d')) :
    Command.storeAt (World.host env) path rows record w = (.ok record, { w with disk := d' }) := by
  obtain ⟨rows', hstore, rfl⟩ := History.exists_store_table HandTable.rows_lawful hnew
  have hrows : Repository.rows.store record rows = _ := hstore
  rw [storeAt_of_stored hrows, hsave]
  rfl

/-- Where the history is only read, no record is stored, be it a second one or a new one. -/
theorem exists_storeAt_error (hfixed : Disk.ReadOnly path) (env : Resolved.Variables)
    (rows : List Row) (record : HandRecord) (w : World σ) :
    ∃ e, Command.storeAt (World.host env) path rows record w = (.error e, w) := by
  rcases hstore : Repository.rows.store record rows with ⟨e | stored, rows'⟩
  · refine ⟨e, ?_⟩
    unfold Command.storeAt
    rw [hstore]
    rfl
  · refine ⟨.storage ("cannot open " ++ path), ?_⟩
    rw [storeAt_of_stored hstore, Disk.saveHistory_of_readOnly hfixed]
    rfl

/-- The program opens the history and goes on with the command. -/
theorem perform_settle (h : w.disk.openHistory resolved.settings.database = (.ok rows, w.disk)) :
    (Command.perform (World.host env) stamp resolved (.settle input true)).on w =
      Command.settling (some (Command.storeAt (World.host env) resolved.settings.database rows))
        stamp input w := by
  refine on_bind_ok (a := rows) ?_
  unfold Command.openAt
  rw [Command.attempt_on]
  show ((w.disk.openHistory _).1.mapError _, { w with disk := (w.disk.openHistory _).2 }) = _
  rw [h]
  rfl

/-- **A history on a disk** that may be changed. -/
theorem agree_on_disk (hdecode : decode.ReadsTexts) (h : w.offered input = .ok text)
    (hopen : w.closed = none) (hholds : w.disk.Holds resolved.settings.database rows)
    (hnew : stamp.id.text ∉ rows.map Row.id) (hnew' : stamp'.id.text ∉ rows.map Row.id) :
    Agree stamp stamp' rows w (fun record rows' => rows' = rows ++ [Row.ofRecord record])
      (fun record disk s' => disk.Holds resolved.settings.database (rows ++ [Row.ofRecord record]) ∧
        s' = w.history)
      (Service.record decode .rows stamp text.toUTF8 rows)
      ((Command.perform (World.host env) stamp' resolved (.settle input true)).on w) := by
  rw [perform_settle hholds.openHistory]
  refine agree_of_taken hdecode h hopen (storeAt_aside env _ rows) (fun record hid => ?_)
    fun record hid => ?_
  · exact History.exists_store_table HandTable.rows_lawful (hid ▸ hnew)
  · obtain ⟨d', hsave, hholds'⟩ := hholds.exists_saved (rows ++ [Row.ofRecord record])
    rw [← w.read_disk input] at hsave
    exact ⟨_, storeAt_of_saved (hid ▸ hnew') hsave, hholds', w.read_history input⟩

/-- **A history on a disk** that is only read. -/
theorem agree_on_readOnly {cause : HistoryError} {Added : HandRecord → Unit → Prop}
    {Added' : HandRecord → Disk → σ → Prop} (hdecode : decode.ReadsTexts)
    (h : w.offered input = .ok text)
    (hrows : w.disk.openHistory resolved.settings.database = (.ok rows, w.disk))
    (hfixed : Disk.ReadOnly resolved.settings.database) :
    Agree stamp stamp' () w Added Added'
      (Service.record decode (.failing cause) stamp text.toUTF8 ())
      ((Command.perform (World.host env) stamp' resolved (.settle input true)).on w) := by
  rw [perform_settle hrows]
  refine agree_of_refused hdecode h (storeAt_aside env _ rows) (fun _ => ⟨cause, rfl⟩)
    fun record => ?_
  obtain ⟨e, he⟩ := exists_storeAt_error hfixed env rows record (w.read input)
  exact ⟨e, _, he, w.read_disk input, w.read_history input⟩

end Disk

/-! ## The whole -/

/-- **The two front ends agree** on every text, be it in a file or on the standard input. The
service and the command, on one history and with stamps of new identifiers, both add one record of
the same hand and winnings, each with its own stamp, and the command prints a text of the record
that it adds; or both fail, leave the history as it was, and nothing is printed. So it is
* with records that are kept as they are, whatever is kept there;
* with records in any table of which holds what is relied on;
* with a history that takes no record;
* with the program on a disk. If the disk holds a history that may be changed, it holds one row more
  afterwards. If the history is only read, the program does as the service does if nothing can be
  stored.
Without a history the command prints what it prints with one, of whatever kind, and stores
nothing. -/
theorem front_ends_agree (hdecode : decode.ReadsTexts) (stamp stamp' : Stamp)
    (input text : String) :
    (∀ w : World (List HandRecord), w.offered input = .ok text → w.closed = none →
      stamp.id ∉ w.history.map HandRecord.id → stamp'.id ∉ w.history.map HandRecord.id →
      Agree stamp stamp' w.history w (fun record kept => kept = w.history ++ [record])
        (fun record disk kept => disk = w.disk ∧ kept = w.history ++ [record])
        (Service.record decode .memory stamp text.toUTF8 w.history)
        (Command.settling (some Repository.memory.storing) stamp' input w)) ∧
    (∀ {δ : Type} (T : HandTable δ) (contents : δ → List Row), T.Lawful contents →
      ∀ w : World δ, w.offered input = .ok text → w.closed = none →
      stamp.id.text ∉ (contents w.history).map Row.id →
      stamp'.id.text ∉ (contents w.history).map Row.id →
      Agree stamp stamp' w.history w
        (fun record s => contents s = contents w.history ++ [Row.ofRecord record])
        (fun record disk s =>
          disk = w.disk ∧ contents s = contents w.history ++ [Row.ofRecord record])
        (Service.record decode (.table T) stamp text.toUTF8 w.history)
        (Command.settling (some (Repository.table T).storing) stamp' input w)) ∧
    (∀ cause (w : World Unit), w.offered input = .ok text →
      Agree stamp stamp' () w (fun _ _ => False) (fun _ _ _ => False)
        (Service.record decode (.failing cause) stamp text.toUTF8 ())
        (Command.settling (some (Repository.failing cause).storing) stamp' input w)) ∧
    (∀ {σ : Type} (w : World σ), w.closed = none → ∀ store, Aside store →
      Dry w (Command.settling (some store) stamp' input w)
        (Command.settling none stamp' input w)) ∧
    ∀ {σ : Type} (env : Resolved.Variables) (w : World σ) (resolved : Resolved) (rows : List Row),
      w.offered input = .ok text → w.closed = none →
      let performed := fun store =>
        (Command.perform (World.host env) stamp' resolved (.settle input store)).on w
      (w.disk.Holds resolved.settings.database rows →
        stamp.id.text ∉ rows.map Row.id → stamp'.id.text ∉ rows.map Row.id →
        Agree stamp stamp' rows w (fun record rows' => rows' = rows ++ [Row.ofRecord record])
            (fun record disk s' =>
              disk.Holds resolved.settings.database (rows ++ [Row.ofRecord record]) ∧
                s' = w.history)
            (Service.record decode .rows stamp text.toUTF8 rows) (performed true) ∧
          Dry w (performed true) (performed false)) ∧
      (Disk.ReadOnly resolved.settings.database →
        w.disk.openHistory resolved.settings.database = (.ok rows, w.disk) →
        (∀ cause, Agree stamp stamp' () w (fun _ _ => False) (fun _ _ _ => False)
            (Service.record decode (.failing cause) stamp text.toUTF8 ()) (performed true)) ∧
          Dry w (performed true) (performed false)) := by
  refine ⟨fun w h hopen hnew hnew' => agree_of_storing hdecode h hopen ?_,
    fun T contents hT w h hopen hnew hnew' => agree_of_storing hdecode h hopen ?_,
    fun cause w h => ?_, fun w hopen store haside => dry_of_aside haside hopen stamp' input,
    fun env w resolved rows h hopen => ?_⟩
  · rintro record (hid | hid)
    · exact ⟨_, History.store_memory (hid ▸ hnew), rfl⟩
    · exact ⟨_, History.store_memory (hid ▸ hnew'), rfl⟩
  · rintro record (hid | hid)
    · exact History.exists_store_table hT (hid ▸ hnew)
    · exact History.exists_store_table hT (hid ▸ hnew')
  · exact agree_of_refused hdecode h (Repository.storing_aside _) (fun _ => ⟨cause, rfl⟩)
      fun _ => ⟨cause, _, rfl, w.read_disk input, w.read_history input⟩
  · have hdry : ∀ {rows}, w.disk.openHistory resolved.settings.database = (.ok rows, w.disk) →
        Dry w ((Command.perform (World.host env) stamp' resolved (.settle input true)).on w)
          ((Command.perform (World.host env) stamp' resolved (.settle input false)).on w) := by
      intro rows hrows
      rw [perform_settle hrows]
      exact dry_of_aside (storeAt_aside env _ rows) hopen stamp' input
    exact ⟨fun hholds hnew hnew' => ⟨agree_on_disk hdecode h hopen hholds hnew hnew',
      hdry hholds.openHistory⟩, fun hfixed hrows => ⟨fun cause =>
        agree_on_readOnly hdecode h hrows hfixed, hdry hrows⟩⟩

/-- A disk with a history that has a record of another hand. -/
def postedDisk : Disk := ⟨[(["handledger.db"], .history [Row.ofRecord extremeRecord])]⟩

/-- The hand is on the standard input. -/
def postedWorld : World Unit where
  disk := postedDisk
  input := .ok Service.postedHand.toJson.compact
  history := ()

/-- The stamp of the second front end. -/
def printedStamp : Stamp := ⟨Uuid.random 11, Service.postedStamp.createdAt⟩

/-- The hand is stored by both front ends, and the history has two rows in the end. -/
theorem front_ends_agree_posted :
    let text := Service.postedHand.toJson.compact
    let rows := [Row.ofRecord extremeRecord]
    let resolved : Resolved := ⟨.standard, .standard, .standard⟩
    let env : Resolved.Variables := fun _ => none
    Decoder.text.ReadsTexts ∧ postedWorld.offered "-" = .ok text ∧ postedWorld.closed = none ∧
      postedWorld.disk.Holds resolved.settings.database rows ∧
      Service.postedStamp.id.text ∉ rows.map Row.id ∧ printedStamp.id.text ∉ rows.map Row.id ∧
      Agree Service.postedStamp printedStamp rows postedWorld
        (fun record rows' => rows' = rows ++ [Row.ofRecord record])
        (fun record disk s' =>
          disk.Holds resolved.settings.database (rows ++ [Row.ofRecord record]) ∧ s' = ())
        (Service.record .text .rows Service.postedStamp text.toUTF8 rows)
        ((Command.perform (World.host env) printedStamp resolved (.settle "-" true)).on
          postedWorld) ∧
      (Service.record .text .rows Service.postedStamp text.toUTF8 rows).state.length = 2 := by
  intro text rows resolved env
  have hoffered : postedWorld.offered "-" = .ok text := rfl
  have hholds : postedWorld.disk.Holds resolved.settings.database rows :=
    ⟨⟨some "handledger.db", true, true⟩, "handledger.db", ["handledger.db"], by decide +kernel, rfl,
      rfl, by decide +kernel⟩
  have hnew : Service.postedStamp.id.text ∉ rows.map Row.id := by decide +kernel
  have hnew' : printedStamp.id.text ∉ rows.map Row.id := by decide +kernel
  obtain ⟨-, -, -, -, hdisk⟩ :=
    front_ends_agree Decoder.text_readsTexts Service.postedStamp printedStamp "-" text
  obtain ⟨hagree, -⟩ := (hdisk env postedWorld resolved rows hoffered rfl).1 hholds hnew hnew'
  refine ⟨Decoder.text_readsTexts, hoffered, rfl, hholds, hnew, hnew', hagree, ?_⟩
  unfold Service.record
  rw [Decoder.text_toUTF8]
  decide +kernel

end Holdem
