import Kdive.Debug.Attribution
import Kdive.Lib.Contracts

/-!
What `attachment.execution` says about the guest. A resume takes place where gdb accepts it among the
records of its answer, or where it is left without one; a `*stopped` record that follows tells of a
stop. Every write is answered with the reply to its own command, and with whatever else gdb has to
say, or not at all. The engine takes a stop that comes with the answer to a resume for the stop of
that resume, wherever in the answer it stands. But for this the guest is `running` if and only if it
has been resumed since its last stop, whatever is requested of the session and wherever the requests
fail.
-/
namespace Kdive.Debug
open Console (Text Bytes)

section Heard

abbrev GdbCall := Dialogue.Call Text GdbRecord

def stops (records : List GdbRecord) : Bool := (recordsFrom records).any MiRecord.isStop

def GdbRecord.isError : GdbRecord → Bool
  | .result .error _ => true
  | _ => false

def refuses (records : List GdbRecord) : Bool := records.any GdbRecord.isError

def resumes (command : Text) : Bool :=
  [Verb.continue, .step, .next, .stepInstruction, .finish].any (fun verb => verb.text = command)

/-- `resume` says whether the records answer a resume, which takes place where gdb accepts it. -/
def toldBy (resume resumed : Bool) (record : GdbRecord) : Bool :=
  if (MiRecord.fromRaw record).isStop then false
  else resumed || (resume && record.isReply && !record.isError)

def resumedAfter (resumed : Bool) : GdbCall → Bool
  | .wrote command none => resumed || resumes command
  | .wrote command (some records) => records.foldl (toldBy (resumes command)) resumed
  | .heard records => records.foldl (toldBy false) resumed

/-- What the engine makes of it: the records of one call are taken together, and a stop anywhere in
them counts. -/
def takenAfter (resumed : Bool) : GdbCall → Bool
  | .wrote command none => resumed || resumes command
  | .wrote command (some records) =>
    !stops records && (resumed || (resumes command && !refuses records))
  | .heard records => !stops records && resumed

def stopsIn : GdbCall → Bool
  | .wrote _ answer => answer.any stops
  | .heard records => stops records

def failsIn : GdbCall → Bool
  | .wrote _ none => true
  | .wrote _ (some records) => refuses records
  | .heard _ => false

def Own : GdbCall → Prop
  | .wrote _ (some records) => (records.filter GdbRecord.isReply).length = 1
  | _ => True

instance : DecidablePred Own
  | .wrote _ (some _) => inferInstanceAs (Decidable (_ = _))
  | .wrote _ none => isTrue trivial
  | .heard _ => isTrue trivial

theorem foldl_toldBy_stop {resume : Bool} {records : List GdbRecord} (told : stops records = true)
    (resumed : Bool) :
    records.foldl (toldBy resume) resumed = records.foldl (toldBy resume) false := by
  induction records generalizing resumed with
  | nil => cases told
  | cons record records ih =>
    rw [List.foldl_cons, List.foldl_cons]
    cases stop : (MiRecord.fromRaw record).isStop with
    | true => simp [toldBy, stop]
    | false =>
      have later : stops records = true := by
        simpa [stops, recordsFrom, stop] using told
      rw [ih later, ih later (toldBy resume false record)]

theorem foldl_toldBy_silent {resume : Bool} {records : List GdbRecord} (told : stops records = false)
    (resumed : Bool) :
    records.foldl (toldBy resume) resumed =
      (resumed || (resume && (records.filter GdbRecord.isReply).any (!·.isError))) := by
  induction records generalizing resumed with
  | nil => simp
  | cons record records ih =>
    have both : (MiRecord.fromRaw record).isStop = false ∧ stops records = false := by
      simpa [stops, recordsFrom] using told
    rw [List.foldl_cons, ih both.2, toldBy, if_neg (by simp [both.1])]
    cases reply : record.isReply with
    | true => simp [reply, Bool.or_assoc, Bool.and_or_distrib_left]
    | false => simp [reply]

theorem isReply_of_isError {record : GdbRecord} (error : record.isError = true) :
    record.isReply = true := by
  cases record with
  | result kind payload => rfl
  | notice kind message payload => cases error

theorem accepted_of_own {command : Text} {records : List GdbRecord}
    (own : Own (.wrote command (some records))) :
    (records.filter GdbRecord.isReply).any (!·.isError) = !refuses records := by
  obtain ⟨reply, single⟩ := List.length_eq_one_iff.mp own
  have errors : refuses records = (records.filter GdbRecord.isReply).any GdbRecord.isError := by
    rw [refuses, List.any_filter]
    congr 1
    funext record
    cases error : record.isError with
    | true => rw [isReply_of_isError error]; rfl
    | false => rw [Bool.and_false]
  rw [errors, single]
  simp

theorem resumedAfter_silent {call : GdbCall} (told : stopsIn call = false) :
    ∃ accepted, ∀ resumed, resumedAfter resumed call = (resumed || accepted) := by
  cases call with
  | heard records => exact ⟨_, foldl_toldBy_silent told⟩
  | wrote command answer =>
    cases answer with
    | none => exact ⟨resumes command, fun _ => rfl⟩
    | some records => exact ⟨_, foldl_toldBy_silent told⟩

/-- A call without a stop is taken as gdb tells it. -/
theorem takenAfter_silent {call : GdbCall} (own : Own call) (told : stopsIn call = false)
    (resumed : Bool) : takenAfter resumed call = resumedAfter resumed call := by
  cases call with
  | heard records =>
    have told : stops records = false := told
    rw [resumedAfter, foldl_toldBy_silent told, takenAfter, told]
    simp
  | wrote command answer =>
    cases answer with
    | none => rfl
    | some records =>
      have told : stops records = false := told
      rw [resumedAfter, foldl_toldBy_silent told, accepted_of_own own, takenAfter, told]
      simp

theorem takenAfter_stop {call : GdbCall} (told : stopsIn call = true) (resumed : Bool) :
    takenAfter resumed call = false ∧ resumedAfter resumed call = resumedAfter false call := by
  cases call with
  | heard records =>
    have told : stops records = true := told
    exact ⟨by rw [takenAfter, told]; rfl, foldl_toldBy_stop told resumed⟩
  | wrote command answer =>
    cases answer with
    | none => cases told
    | some records =>
      have told : stops records = true := told
      exact ⟨by rw [takenAfter, told]; rfl, foldl_toldBy_stop told resumed⟩

/-- gdb tells of a stop in the answer to a resume, and only then that it has resumed the guest. -/
def Early (call : GdbCall) : Prop := stopsIn call = true ∧ resumedAfter false call = true

/-- The last stop was told in the answer to a resume, before gdb accepted that resume. -/
def Overtaken (log : List GdbCall) : Prop :=
  ∃ earlier call later, log = earlier ++ call :: later ∧ Early call ∧ ∀ c ∈ later, stopsIn c = false

theorem resumed_of_taken {log : List GdbCall} (own : ∀ call ∈ log, Own call) :
    (log.foldl takenAfter false = true → log.foldl resumedAfter false = true) ∧
    (log.foldl takenAfter false = false → log.foldl resumedAfter false = true → Overtaken log) := by
  induction log using List.reverseRecOn with
  | nil => exact ⟨id, fun _ resumed => by cases resumed⟩
  | append_singleton log call ih =>
    obtain ⟨taken, overtaken⟩ := ih (fun c member => own c (List.mem_append_left _ member))
    rw [List.foldl_concat, List.foldl_concat]
    cases told : stopsIn call with
    | true =>
      obtain ⟨idle, again⟩ := takenAfter_stop told (log.foldl resumedAfter false)
      refine ⟨fun runs => ?_, fun _ resumed => ?_⟩
      · rw [(takenAfter_stop told _).1] at runs
        cases runs
      · rw [again] at resumed
        exact ⟨log, call, [], rfl, ⟨told, resumed⟩, fun c member => by cases member⟩
    | false =>
      have own := own call (List.mem_append_right _ (List.mem_singleton_self _))
      obtain ⟨accepted, after⟩ := resumedAfter_silent told
      rw [takenAfter_silent own told, after, after]
      cases accepted with
      | true => exact ⟨fun _ => Bool.or_true _, fun idle => by rw [Bool.or_true] at idle; cases idle⟩
      | false =>
        rw [Bool.or_false, Bool.or_false]
        refine ⟨taken, fun idle resumed => ?_⟩
        obtain ⟨earlier, stop, later, rfl, early, quiet⟩ := overtaken idle resumed
        refine ⟨earlier, stop, later ++ [call], by simp, early, fun c member => ?_⟩
        rcases List.mem_append.mp member with before | last
        · exact quiet c before
        · rw [List.mem_singleton.mp last]
          exact told

/-- What the line says of the guest, and whether it has said `*stopped` in this operation. -/
structure Seen where
  resumed : Bool
  stopped : Bool

def Seen.next (seen : Seen) (call : GdbCall) : Seen :=
  ⟨takenAfter seen.resumed call, seen.stopped || stopsIn call⟩

def observer : Dialogue.Observer Text GdbRecord Seen := ⟨Seen.next, Own⟩

theorem foldl_seen (seen : Seen) (log : List GdbCall) :
    log.foldl Seen.next seen = ⟨log.foldl takenAfter seen.resumed, seen.stopped || log.any stopsIn⟩ := by
  induction log generalizing seen with
  | nil => simp
  | cons call log ih => rw [List.foldl_cons, ih]; simp [Seen.next, Bool.or_assoc]

theorem firstResult_error {records : List GdbRecord}
    (single : (records.filter GdbRecord.isReply).length ≤ 1) :
    (MiRecord.firstResult (recordsFrom records)).any (·.message == some "error".toList) =
      refuses records := by
  induction records with
  | nil => rfl
  | cons record records ih =>
    cases record with
    | notice kind message payload =>
      have other : (kind.text == "result".toList) = false := by cases kind <;> rfl
      have skipped : MiRecord.firstResult (recordsFrom (.notice kind message payload :: records)) =
          MiRecord.firstResult (recordsFrom records) :=
        List.find?_cons_of_neg (Bool.eq_false_iff.mp other)
      rw [skipped, ih single]
      rfl
    | result kind payload =>
      have zero : (records.filter GdbRecord.isReply).length + 1 ≤ 1 := single
      have none : records.filter GdbRecord.isReply = [] := List.eq_nil_of_length_eq_zero (by omega)
      have calm : refuses records = false := by
        refine List.any_eq_false.mpr fun r member error => ?_
        have notice := List.filter_eq_nil_iff.mp none r member
        cases r with
        | result _ _ => exact notice rfl
        | notice _ _ _ => cases error
      have first : refuses (.result kind payload :: records) =
          (GdbRecord.result kind payload).isError := by
        rw [refuses, List.any_cons, ← refuses, calm, Bool.or_false]
      rw [first]
      cases kind <;> rfl

theorem replyOrError_own (engine : Engine) (command : Text) {records : List GdbRecord}
    (own : Own (.wrote command (some records))) :
    (refuses records = true → ∃ payload, replyOrError engine command (recordsFrom records) =
      .error (.categorized (commandFailed engine command payload))) ∧
    (refuses records = false →
      replyOrError engine command (recordsFrom records) = .ok (recordsFrom records)) := by
  rw [← firstResult_error (Nat.le_of_eq own), replyOrError]
  cases MiRecord.firstResult (recordsFrom records) with
  | none => exact ⟨nofun, fun _ => rfl⟩
  | some result =>
    by_cases error : result.message = some "error".toList
    · exact ⟨fun _ => ⟨result.payload, if_pos error⟩,
        fun other => absurd (beq_iff_eq.mpr error) (Bool.eq_false_iff.mp other)⟩
    · exact ⟨fun other => absurd (beq_iff_eq.mp other) error, fun _ => if_neg error⟩

theorem not_resumes_of_looks {command : Text} (looks : Looks command) : resumes command = false := by
  refine List.any_eq_false.mpr fun verb _ same => looks.2 ?_
  rw [← of_decide_eq_true same]
  cases verb <;> rfl

end Heard

section Conditions

variable {α β : Type} {P : Attachment → Seen → Prop}

def Calm (s : Attachment) (seen : Seen) : Prop :=
  s.execution ≠ .running ∧ seen.resumed = false ∧ (seen.stopped = true → s.execution = .halted)

def Halted (s : Attachment) (seen : Seen) : Prop := s.execution = .halted ∧ seen.resumed = false

def Running (s : Attachment) (seen : Seen) : Prop :=
  s.execution = .running ∧ seen.resumed = true ∧ seen.stopped = false

theorem Halted.calm {s : Attachment} {seen : Seen} (halted : Halted s seen) : Calm s seen :=
  ⟨by rw [halted.1]; exact nofun, halted.2, fun _ => halted.1⟩

abbrev Meets (P : Attachment → Seen → Prop) (op : Op α)
    (Q : Except Raised α → Attachment → Seen → Prop) : Prop :=
  Dialogue.Meets observer P op Q

theorem meets_write (command : Text) :
    Meets P (write command) (fun r s seen => ∃ before, P s before ∧
      ((r = .error (.categorized (timeoutError command)) ∧
        seen = before.next (.wrote command none)) ∨
      ∃ raw, r = .ok (recordsFrom raw) ∧ Own (.wrote command (some raw)) ∧
        seen = before.next (.wrote command (some raw)))) := by
  refine Dialogue.meets_bind (Dialogue.meets_write command) ?_ ?_
  · intro answer
    cases answer with
    | some raw =>
      refine Dialogue.meets_pure ?_
      rintro s seen ⟨answer, before, same, own, pre, rfl⟩
      obtain rfl := Except.ok.inj same
      exact ⟨before, pre, .inr ⟨raw, rfl, own, rfl⟩⟩
    | none =>
      refine Dialogue.meets_throw ?_
      rintro s seen ⟨answer, before, same, own, pre, rfl⟩
      obtain rfl := Except.ok.inj same
      exact ⟨before, pre, .inl ⟨rfl, rfl⟩⟩
  · rintro e s seen ⟨answer, before, same, _⟩
    cases same

theorem meets_written {command : Text} {k : List MiRecord → Op β}
    {R : Except Raised β → Attachment → Seen → Prop}
    (answered : ∀ raw, Own (.wrote command (some raw)) →
      Meets (fun s seen => ∃ before, P s before ∧ seen = before.next (.wrote command (some raw)))
        (k (recordsFrom raw)) R)
    (timedOut : ∀ s before, P s before → R (.error (.categorized (timeoutError command))) s
      (before.next (.wrote command none))) : Meets P (write command >>= k) R := by
  refine Dialogue.meets_bind (meets_write command) (fun records => ?_) ?_
  · rintro s seen log r s' ⟨before, pre, ⟨same, -⟩ | ⟨raw, same, own, rfl⟩⟩ runs fair
    · cases same
    · obtain rfl := Except.ok.inj same
      exact answered raw own s _ log r s' ⟨before, pre, rfl⟩ runs fair
  · rintro e s seen ⟨before, pre, ⟨same, rfl⟩ | ⟨raw, same, -⟩⟩
    · obtain rfl := Except.error.inj same
      exact timedOut s before pre
    · cases same

theorem meets_ofExcept {γ : Type} {o : Dialogue.Observer Text GdbRecord γ}
    {P : Attachment → γ → Prop} (value : Except Raised α) :
    Dialogue.Meets o P (ofExcept value) (fun r s g => r = value ∧ P s g) := by
  cases value with
  | ok a => exact Dialogue.meets_pure (fun _ _ pre => ⟨rfl, pre⟩)
  | error e => exact Dialogue.meets_throw (fun _ _ pre => ⟨rfl, pre⟩)

theorem meets_except {γ : Type} {o : Dialogue.Observer Text GdbRecord γ} {P : Attachment → γ → Prop}
    {op : Op α} {handler : CategorizedError → Op α} {Q R : Except Raised α → Attachment → γ → Prop}
    (first : Dialogue.Meets o P op Q)
    (second : ∀ e, Dialogue.Meets o (Q (.error (.categorized e))) (handler e) R)
    (passed : ∀ a s g, Q (.ok a) s g → R (.ok a) s g)
    (raised : ∀ s g, Q (.error .valueError) s g → R (.error .valueError) s g) :
    Dialogue.Meets o P (except op handler) R := by
  refine Dialogue.meets_tryCatch first (fun e => ?_) passed
  cases e with
  | categorized e => exact second e
  | valueError =>
    exact Dialogue.meets_throw raised

variable (engine : Engine)

theorem meets_looking {command : Text} (looks : Looks command) :
    Meets Calm (executeMiCommand engine command) (fun _ => Halted) := by
  refine Dialogue.meets_modifying (R := Halted) ?_ ?_
  · intro s seen calm
    split
    · exact ⟨rfl, calm.2.1⟩
    · rename_i other
      refine ⟨?_, calm.2.1⟩
      cases h : s.execution with
      | attachHalted => exact absurd h other
      | halted => rfl
      | running => exact absurd h calm.1
  · have none := not_resumes_of_looks looks
    refine meets_written (fun raw own => ?_) ?_
    · refine (meets_ofExcept _).post ?_
      rintro r s seen ⟨-, before, halted, rfl⟩
      exact ⟨halted.1, by simp [Seen.next, takenAfter, halted.2, none]⟩
    · intro s before halted
      exact ⟨halted.1, by simp [Seen.next, takenAfter, halted.2, none]⟩

theorem meets_built {R : Raised → Prop} {op : Op α} (built : Built engine R op) :
    Meets Calm op (fun _ => Calm) := by
  induction built with
  | pure a => exact Dialogue.meets_pure (fun _ _ pre => pre)
  | throw e own => exact Dialogue.meets_throw (fun _ _ pre => pre)
  | get => exact Dialogue.meets_get.post (fun _ _ _ post => post.2)
  | modify f kept =>
    refine (Dialogue.meets_modify (R := Calm) f ?_).post (fun _ _ _ post => post.2)
    intro s seen calm
    rw [Calm, kept s]
    exact calm
  | command command looks =>
    exact (meets_looking engine looks).post (fun _ _ _ post => post.calm)
  | bind first second ihFirst ihSecond =>
    exact Dialogue.meets_bind ihFirst ihSecond (fun _ _ _ post => post)
  | except first passed second failed ihFirst ihSecond ihFailed =>
    exact meets_except ihFirst ihFailed (fun _ _ _ post => post) (fun _ _ post => post)
  | rescued command looks failed ihFailed =>
    exact meets_except ((meets_looking engine looks).post (fun _ _ _ post => post.calm)) ihFailed
      (fun _ _ _ post => post) (fun _ _ post => post)

end Conditions

section Failing

variable {α : Type} (engine : Engine)

/-- Whether a command has failed: gdb has not answered it in time, or has answered with an error. -/
def failures : Dialogue.Observer Text GdbRecord Bool :=
  ⟨fun failed call => failed || failsIn call, Own⟩

theorem foldl_failures (failed : Bool) (log : List GdbCall) :
    log.foldl failures.sees failed = (failed || log.any failsIn) := by
  induction log generalizing failed with
  | nil => simp
  | cons call log ih => rw [List.foldl_cons, ih, List.any_cons, ← Bool.or_assoc]; rfl

theorem meets_failed (op : Op α) : Dialogue.Meets failures (fun _ failed => failed = true) op
    (fun _ _ failed => failed = true) := by
  intro s failed log r s' holds _ _
  rw [foldl_failures, holds, Bool.true_or]

theorem fails_executeMiCommand (command : Text) :
    Dialogue.Meets failures (fun _ _ => True) (executeMiCommand engine command)
      (fun r _ failed => ∀ e, r = .error e → failed = true) := by
  refine Dialogue.meets_modifying (R := fun _ _ => True) (fun _ _ _ => trivial) ?_
  refine Dialogue.meets_bind (Q := fun r _ failed => (∀ e, r = .error e → failed = true) ∧
    ∀ records, r = .ok records → ∃ raw, records = recordsFrom raw ∧ Own (.wrote command (some raw)) ∧
      (refuses raw = true → failed = true)) ?_ (fun records => ?_) (fun e _ _ post => ?_)
  · refine Dialogue.meets_bind (Dialogue.meets_write command) (fun answer => ?_) ?_
    · cases answer with
      | some raw =>
        refine Dialogue.meets_pure ?_
        rintro s failed ⟨answer, before, same, own, -, rfl⟩
        obtain rfl := Except.ok.inj same
        refine ⟨fun e raised => (by cases raised), fun records same => ⟨raw, ?_, own, fun refused => ?_⟩⟩
        · exact (Except.ok.inj same).symm
        · exact (congrArg (before || ·) refused).trans (Bool.or_true _)
      | none =>
        refine Dialogue.meets_throw ?_
        rintro s failed ⟨answer, before, same, own, -, rfl⟩
        obtain rfl := Except.ok.inj same
        exact ⟨fun e _ => Bool.or_true _, fun records same => (by cases same)⟩
    · rintro e s failed ⟨answer, before, same, -⟩
      cases same
  · refine (meets_ofExcept _).post ?_
    rintro r s failed ⟨rfl, -, answered⟩ e raised
    obtain ⟨raw, rfl, own, failing⟩ := answered records rfl
    cases refused : refuses raw with
    | true => exact failing refused
    | false =>
      rw [(replyOrError_own engine command own).2 refused] at raised
      cases raised
  · exact fun e' same => post.1 e' same

theorem fails_built {R : Raised → Prop} {op : Op α} (built : Built engine R op) :
    Dialogue.Meets failures (fun _ _ => True) op
      (fun r _ failed => ∀ e, r = .error e → failed = true ∨ R e) := by
  induction built with
  | pure a => exact Dialogue.meets_pure (fun _ _ _ e same => (by cases same))
  | throw e own =>
    refine Dialogue.meets_throw (fun _ _ _ e' same => .inr ?_)
    obtain rfl := Except.error.inj same
    exact own
  | get =>
    refine Dialogue.meets_get.post ?_
    rintro r s failed ⟨rfl, -⟩ e same
    cases same
  | modify f kept =>
    refine (Dialogue.meets_modify (R := fun _ _ => True) f (fun _ _ _ => trivial)).post ?_
    rintro r s failed ⟨rfl, -⟩ e same
    cases same
  | command command looks =>
    exact (fails_executeMiCommand engine command).post (fun _ _ _ post e same => .inl (post e same))
  | bind first second ihFirst ihSecond =>
    refine Dialogue.meets_bind ihFirst (fun a => (ihSecond a).pre (fun _ _ _ => trivial)) ?_
    intro e s failed post e' same
    obtain rfl := Except.error.inj same
    exact post e rfl
  | except first passed second failed ihFirst ihSecond ihFailed =>
    refine meets_except ihFirst (fun e => ?_) ?_ ?_
    · intro s already log r s' met ran fair
      rcases met _ rfl with failing | own
      · exact fun e' _ => .inl (meets_failed _ s already log r s' failing ran fair)
      · exact ihSecond e own s already log r s' trivial ran fair
    · exact fun a s g _ e same => (by cases same)
    · intro s already met e same
      obtain rfl := Except.error.inj same
      exact (met _ rfl).imp_right passed
  | rescued command looks failed ihFailed =>
    refine meets_except (fails_executeMiCommand engine command) (fun e => ?_) ?_ ?_
    · exact (meets_failed _).imp (fun _ _ post => post _ rfl) (fun _ _ _ post e' _ => .inl post)
    · exact fun a s g _ e same => (by cases same)
    · intro s g post e same
      exact .inl (post _ rfl)

end Failing

section Stopping

variable (engine : Engine)

def Fails (e : Raised) (s : Attachment) (seen : Seen) : Prop :=
  Running s seen ∨ (Calm s seen ∧ ¬ Says e)

def Sought (P : Attachment → Seen → Prop) :
    Except Raised (Option StopRecord) → Attachment → Seen → Prop
  | .ok none => P
  | .ok (some _) => Halted
  | .error e => fun s seen => Halted s seen ∧ ¬ Says e

def Came : Except Raised (Option StopRecord) → Attachment → Seen → Prop
  | .ok none => Running
  | .ok (some _) => Halted
  | .error e => Fails e

theorem came_of_sought {r : Except Raised (Option StopRecord)} {s : Attachment} {seen : Seen}
    (sought : Sought Running r s seen) : Came r s seen := by
  cases r with
  | ok stop => cases stop <;> exact sought
  | error e => exact .inr ⟨sought.1.calm, sought.2⟩

theorem framed_error {fields : Dict} {stop : Option Frame → StopRecord} {e : Raised}
    (raised : (do let frame ← some <$> frameFrom engine fields; pure (stop frame)) = .error e) :
    ¬ Says e := by
  cases read : frameFrom engine fields with
  | ok frame =>
    rw [read] at raised
    cases raised
  | error other =>
    rw [read] at raised
    obtain rfl := Except.error.inj raised
    exact unsaid_frameFrom engine fields _ read

/-- A stop that cannot be read is not told as a stall or as a running guest. -/
theorem stopRecordFrom_error {record : MiRecord} {e : Raised}
    (raised : stopRecordFrom engine record = .error e) : ¬ Says e := by
  rw [stopRecordFrom] at raised
  dsimp only at raised
  split at raised
  · split at raised
    · obtain rfl := Except.error.inj raised
      exact (by decide : ¬ Says (.categorized ⟨[], .debugAttachFailure, [code "session_exited"]⟩))
    · split at raised
      · cases raised
      · exact framed_error engine raised
  · split at raised
    · cases raised
    · exact framed_error engine raised

theorem meets_stopFromRecords {P : Attachment → Seen → Prop} (raw : List GdbRecord) :
    Meets (fun s seen => if stops raw then seen.resumed = false else P s seen)
      (stopFromRecords engine (recordsFrom raw)) (Sought P) := by
  rw [stopFromRecords]
  cases found : (recordsFrom raw).find? MiRecord.isStop with
  | none =>
    have silent : stops raw = false := by
      rw [stops, List.any_eq_false]
      exact fun record member => List.find?_eq_none.mp found record member
    refine Dialogue.meets_pure (fun s seen pre => ?_)
    rw [silent] at pre
    exact pre
  | some stop =>
    have told : stops raw = true :=
      List.any_eq_true.mpr ⟨stop, List.mem_of_find?_eq_some found, List.find?_some found⟩
    refine Dialogue.meets_modifying (R := Halted) ?_ ?_
    · intro s seen pre
      rw [told] at pre
      exact ⟨rfl, pre⟩
    · refine Dialogue.meets_bind (meets_ofExcept _) (fun record => ?_) ?_
      · exact Dialogue.meets_pure (fun _ _ pre => pre.2)
      · rintro e s seen ⟨raised, halted⟩
        exact ⟨halted, stopRecordFrom_error engine raised.symm⟩

theorem Running.next {s : Attachment} {before : Seen} {call : GdbCall} {raw : List GdbRecord}
    (running : Running s before) (after : takenAfter true call = !stops raw)
    (same : stopsIn call = stops raw) :
    if stops raw then (before.next call).resumed = false else Running s (before.next call) := by
  obtain ⟨execution, resumed, unstopped⟩ := running
  rw [Seen.next, resumed, unstopped, after, same]
  cases told : stops raw with
  | true => exact rfl
  | false => exact ⟨execution, rfl, rfl⟩

/-- The line is read until a stop is heard, if what was read before does not matter to `P`. -/
theorem meets_pollForStop {P : Attachment → Seen → Prop}
    (reads : ∀ s before raw, P s before →
      if stops raw then (before.next (.heard raw)).resumed = false else P s (before.next (.heard raw)))
    (slices : Nat) : Meets P (pollForStop engine slices) (Sought P) := by
  induction slices with
  | zero =>
    exact Dialogue.meets_pure (fun _ _ pre => pre)
  | succ slices ih =>
    refine Dialogue.meets_bind Dialogue.meets_read (fun raw => ?_) ?_
    · refine Dialogue.meets_bind ((meets_stopFromRecords engine raw).pre ?_)
        (fun stop => ?_) (fun e s seen post => post)
      · rintro s seen ⟨records, before, same, -, holds, rfl⟩
        obtain rfl := Except.ok.inj same
        exact reads s before raw holds
      · cases stop with
        | none => exact ih
        | some stop =>
          exact Dialogue.meets_pure (fun _ _ pre => pre)
    · rintro e s seen ⟨records, before, same, -⟩
      cases same

theorem Running.heard (s : Attachment) (before : Seen) (raw : List GdbRecord)
    (running : Running s before) : if stops raw then (before.next (.heard raw)).resumed = false
      else Running s (before.next (.heard raw)) :=
  running.next (by simp [takenAfter]) rfl

theorem Calm.heard (s : Attachment) (before : Seen) (raw : List GdbRecord) (calm : Calm s before) :
    if stops raw then (before.next (.heard raw)).resumed = false
      else Calm s (before.next (.heard raw)) := by
  obtain ⟨idle, resumed, halted⟩ := calm
  cases told : stops raw with
  | true => simp [Seen.next, takenAfter, told]
  | false => simpa [Calm, Seen.next, takenAfter, stopsIn, told, resumed] using ⟨idle, halted⟩

theorem Running.interrupted {s : Attachment} {before : Seen} (running : Running s before) :
    Running s (before.next (.wrote "-exec-interrupt".toList none)) ∧
      ∀ raw, if stops raw then
          (before.next (.wrote "-exec-interrupt".toList (some raw))).resumed = false
        else Running s (before.next (.wrote "-exec-interrupt".toList (some raw))) := by
  constructor
  · exact ⟨running.1, by simp [Seen.next, takenAfter, running.2.1],
      by simp [Seen.next, stopsIn, running.2.2]⟩
  · exact fun raw => running.next (by simp [takenAfter]) rfl

theorem meets_interruptStop : Meets Running (interruptStop engine) Came := by
  refine meets_written (fun raw own => ?_) ?_
  · refine Dialogue.meets_bind ((meets_stopFromRecords (P := Running) engine raw).pre ?_)
      (fun stop => ?_) (fun e s seen post => .inr ⟨post.1.calm, post.2⟩)
    · rintro s seen ⟨before, running, rfl⟩
      exact running.interrupted.2 raw
    · cases stop with
      | some stop =>
        exact Dialogue.meets_pure (fun _ _ pre => pre)
      | none =>
        refine Dialogue.meets_ite (fun _ => ?_) (fun _ => ?_)
        · exact Dialogue.meets_throw (fun _ _ pre => .inl pre)
        · refine Dialogue.meets_bind (meets_pollForStop engine Running.heard _) (fun stop => ?_)
            (fun e s seen post => .inr ⟨post.1.calm, post.2⟩)
          refine Dialogue.meets_pure (fun s seen pre => ?_)
          cases stop <;> exact pre
  · intro s before running
    exact .inl running.interrupted.1

end Stopping

section Resuming

variable (engine : Engine)

def Fresh (s : Attachment) (seen : Seen) : Prop := Calm s seen ∧ seen.stopped = false

def Resuming (s : Attachment) (seen : Seen) : Prop :=
  s.execution = .running ∧ seen.resumed = false ∧ seen.stopped = false

/-- A resume that is written to a halted guest: refused, resumed, or not answered in time. -/
theorem meets_resuming (verb : Verb) :
    Meets Resuming (executeMiCommand engine verb.text) (fun r s seen => match r with
      | .ok records => ∃ raw, records = recordsFrom raw ∧
          if stops raw then seen.resumed = false else Running s seen
      | .error e => (e = .categorized (timeoutError verb.text) ∧ Running s seen) ∨
          (∃ payload, e = .categorized (commandFailed engine verb.text payload)) ∧
            s.execution = .running ∧ seen.resumed = false) := by
  have isResume : resumes verb.text = true := by cases verb <;> decide
  refine Dialogue.meets_modifying (R := Resuming) ?_ ?_
  · intro s seen resuming
    split
    · rename_i other
      exact absurd (other.symm.trans resuming.1) nofun
    · exact resuming
  · refine meets_written (fun raw own => ?_) ?_
    · obtain ⟨error, reply⟩ := replyOrError_own engine verb.text own
      refine (meets_ofExcept _).post ?_
      rintro _ s seen ⟨rfl, before, ⟨running, resumed, unstopped⟩, rfl⟩
      cases refused : refuses raw with
      | true =>
        obtain ⟨payload, failed⟩ := error refused
        rw [failed]
        exact .inr ⟨⟨payload, rfl⟩, running,
          by simp [Seen.next, takenAfter, resumed, refused]⟩
      | false =>
        rw [reply refused]
        refine ⟨raw, rfl, ?_⟩
        cases told : stops raw with
        | true => simp [Seen.next, takenAfter, told]
        | false =>
          exact ⟨running, by simp [Seen.next, takenAfter, told, isResume, refused],
            by simp [Seen.next, stopsIn, told, unstopped]⟩
    · intro s before resuming
      exact .inl ⟨rfl, resuming.1, by simp [Seen.next, takenAfter, isResume],
        by simp [Seen.next, stopsIn, resuming.2.2]⟩

theorem meets_refused_timeout (verb : Text) :
    Meets Running (refused engine verb (timeoutError verb)) (fun r s seen => ∃ e, r = .error e ∧
      Running s seen) := by
  refine Dialogue.meets_bind (Q := fun _ => Running) ?_ (fun _ => ?_) ?_
  · exact Dialogue.meets_pure (fun _ _ pre => pre)
  · exact Dialogue.meets_throw (fun _ _ pre => ⟨_, rfl, pre⟩)
  · exact fun e _ _ pre => ⟨e, rfl, pre⟩

/-- The error of a refused resume says why gdb refused it, and nothing of the link or the guest. -/
theorem not_says_refused (verb : Text) (payload : Option Value) :
    ¬ Says (.categorized ((watchpointInsertFailure engine (commandFailed engine verb payload) verb).getD
      (commandFailed engine verb payload))) := by
  rw [watchpointInsertFailure, if_neg (by exact fun other => other rfl)]
  cases (commandFailed engine verb payload).gdbMessage.bind (insertFailed engine) with
  | none => exact (by decide : ¬ (none = some "transport_stall".toList ∨
      (none : Option Text) = some "inferior_running".toList))
  | some number => exact (by decide :
      ¬ (some "watchpoint_insert_failed".toList = some "transport_stall".toList ∨
        some "watchpoint_insert_failed".toList = some "inferior_running".toList))

theorem meets_refused_failed (verb : Text) (payload : Option Value) :
    Meets (fun _ seen => seen.resumed = false)
      (refused engine verb (commandFailed engine verb payload))
      (fun r s seen => ∃ e, r = .error e ∧ Halted s seen ∧ ¬ Says e) := by
  refine Dialogue.meets_modifying (R := Halted) (fun _ _ pre => ⟨rfl, pre⟩) ?_
  exact Dialogue.meets_throw (fun _ _ pre => ⟨_, rfl, pre, not_says_refused engine verb payload⟩)

/-- A resume leaves the guest running or, if gdb refused it or has told of a stop, halted. -/
theorem meets_start (verb : Verb) : Meets Fresh (start engine verb.text) Came := by
  refine Dialogue.meets_modifying (R := Resuming) (fun s seen fresh => ⟨rfl, fresh.1.2.1, fresh.2⟩) ?_
  refine Dialogue.meets_bind (Q := fun r s seen => match r with
      | .ok records => ∃ raw, records = recordsFrom raw ∧
          if stops raw then seen.resumed = false else Running s seen
      | .error e => Fails e s seen)
    (meets_except (meets_resuming engine verb) ?_ (fun _ _ _ pre => pre) ?_) ?_
    (fun e s seen pre => pre)
  · rintro e s seen log r s' (⟨same, running⟩ | ⟨⟨payload, same⟩, -, idle⟩) runs fair
    · obtain rfl := Raised.categorized.inj same
      obtain ⟨e, rfl, running⟩ := meets_refused_timeout engine verb.text s seen log r s' running runs fair
      exact .inl running
    · obtain rfl := Raised.categorized.inj same
      obtain ⟨e, rfl, halted, quiet⟩ :=
        meets_refused_failed engine verb.text payload s seen log r s' idle runs fair
      exact .inr ⟨halted.calm, quiet⟩
  · rintro s seen (⟨same, -⟩ | ⟨⟨payload, same⟩, -⟩)
    · cases same
    · cases same
  · rintro records s seen log r s' ⟨raw, rfl, pre⟩ runs fair
    exact came_of_sought (meets_stopFromRecords engine raw s seen log r s' pre runs fair)

end Resuming

section Operations

variable (engine : Engine) {α : Type}

def Starts (s : Attachment) (seen : Seen) : Prop := Fresh s seen ∨ Running s seen

theorem Starts.running {s : Attachment} {seen : Seen} (starts : Starts s seen)
    (runs : s.execution = .running) : Running s seen :=
  starts.elim (fun fresh => absurd runs fresh.1.1) id

theorem Starts.fresh {s : Attachment} {seen : Seen} (starts : Starts s seen)
    (idle : s.execution ≠ .running) : Fresh s seen :=
  starts.elim id (fun running => absurd running.1 idle)

def Ends : Except Raised α → Attachment → Seen → Prop
  | .ok _ => fun s seen => Calm s seen ∨ Running s seen
  | .error e => Fails e

theorem meets_resumeBackground : Meets Starts (resumeBackground engine) Came := by
  refine Dialogue.meets_getting (fun now => Dialogue.meets_ite (fun runs => ?_) (fun idle => ?_))
  · refine Dialogue.meets_pure ?_
    rintro s seen ⟨rfl, starts⟩
    exact starts.running runs
  · refine Dialogue.meets_bind ((meets_start engine .continue).pre ?_)
      (fun stop => Dialogue.meets_pure (fun s seen came => ?_)) (fun _ _ _ post => post)
    · rintro s seen ⟨rfl, starts⟩
      exact starts.fresh idle
    · cases stop <;> exact came

theorem meets_stopAfter (verb : Text) (stop : Option StopRecord) (bounded : Int) :
    Meets (Came (.ok stop)) (stopAfter engine verb stop bounded) Ends := by
  refine Dialogue.meets_bind (Q := Came) ?_ (fun found => ?_) (fun _ _ _ post => post)
  · cases stop with
    | some stop => exact Dialogue.meets_pure (fun _ _ pre => pre)
    | none =>
      exact (meets_pollForStop engine Running.heard _).post (fun _ _ _ post => came_of_sought post)
  · cases found with
    | some found => exact Dialogue.meets_pure (fun _ _ pre => .inl (Halted.calm pre))
    | none =>
      refine Dialogue.meets_bind (meets_interruptStop engine) (fun stop => ?_) (fun _ _ _ post => post)
      cases stop with
      | none => exact Dialogue.meets_throw (fun _ _ pre => .inl pre)
      | some stop => exact Dialogue.meets_pure (fun _ _ pre => .inl (Halted.calm pre))

theorem meets_resume (verb : Verb) (timeoutSec : Option ℚ) :
    Meets Starts (resume engine verb timeoutSec) Ends := by
  have bad : Meets Starts (raise badResumeTimeout : Op StopRecord) Ends := by
    refine Dialogue.meets_throw ?_
    rintro s seen (fresh | running)
    · exact .inr ⟨fresh.1, by decide⟩
    · exact .inl running
  unfold resume
  cases timeoutSec with
  | none => exact bad
  | some timeout =>
    refine Dialogue.meets_ite (fun _ => bad) (fun _ => Dialogue.meets_getting (fun now => ?_))
    refine Dialogue.meets_ite (fun idle => ?_) (fun other => ?_)
    · refine Dialogue.meets_bind ((meets_start engine verb).pre ?_)
        (fun stop => meets_stopAfter engine verb.text stop _) (fun _ _ _ post => post)
      rintro s seen ⟨rfl, starts⟩
      exact starts.fresh idle
    · have runs : now.execution = .running := not_not.mp other
      refine Dialogue.meets_ite (fun _ => ?_) (fun _ => ?_)
      · refine (meets_stopAfter engine verb.text none _).pre ?_
        rintro s seen ⟨rfl, starts⟩
        exact starts.running runs
      · refine Dialogue.meets_throw ?_
        rintro s seen ⟨rfl, starts⟩
        exact .inl (starts.running runs)

theorem meets_interrupt : Meets Starts (interrupt engine) Ends := by
  refine Dialogue.meets_getting (fun now => ?_)
  cases execution : now.execution with
  | attachHalted =>
    refine Dialogue.meets_modifying (R := Halted) ?_ ?_
    · rintro s seen ⟨rfl, starts⟩
      exact ⟨rfl, (starts.fresh (by rw [execution]; exact nofun)).1.2.1⟩
    · exact Dialogue.meets_pure (fun _ _ pre => .inl pre.calm)
  | halted =>
    refine Dialogue.meets_pure ?_
    rintro s seen ⟨rfl, starts⟩
    exact .inl (starts.fresh (by rw [execution]; exact nofun)).1
  | running =>
    refine Dialogue.meets_bind ((meets_interruptStop engine).pre ?_)
      (fun stop => ?_) (fun _ _ _ post => post)
    · rintro s seen ⟨rfl, starts⟩
      exact starts.running execution
    · cases stop with
      | none => exact Dialogue.meets_throw (fun _ _ pre => .inl pre)
      | some stop => exact Dialogue.meets_pure (fun _ _ pre => .inl (Halted.calm pre))

theorem meets_waitForStop (timeoutSec : ℚ) : Meets Starts (waitForStop engine timeoutSec) Ends := by
  rintro s seen log r s' (fresh | running) runs fair
  · have sought := meets_pollForStop engine Calm.heard _ s seen log r s' fresh.1 runs fair
    cases r with
    | ok stop =>
      cases stop with
      | none => exact .inl sought
      | some stop => exact .inl (Halted.calm sought)
    | error e => exact .inr ⟨sought.1.calm, sought.2⟩
  · have came := came_of_sought
      (meets_pollForStop engine Running.heard _ s seen log r s' running runs fair)
    cases r with
    | ok stop =>
      cases stop with
      | none => exact .inr came
      | some stop => exact .inl (Halted.calm came)
    | error e => exact came

end Operations

section Sessions

variable (engine : Engine)

/-- `DebugEngineRuntime.reap`, as far as it talks to gdb: whether the guest is known to be halted. -/
def reap : Op Bool := do
  if (← get).execution = .running then
    tryCatch (do let _ ← interrupt engine; pure true) (fun _ => pure false)
  else pure true

inductive Requested where
  | operation (op : Operation)
  | detach

inductive Answer where
  | result (result : Result)
  | detached (halted : Bool)

def serve : Requested → Op Answer
  | .operation op => .result <$> attachAndRun engine op
  | .detach => .detached <$> reap engine

/-- A request that was made of an attachment, the calls that it made, and what it came to. -/
structure Served where
  requested : Requested
  before : Attachment
  log : List GdbCall
  outcome : Except Raised Answer
  after : Attachment

inductive Serves : Attachment → List Served → Attachment → Prop where
  | nil (a : Attachment) : Serves a [] a
  | cons {t : Served} {turns : List Served} {last : Attachment}
      (ran : Dialogue.Runs ((serve engine t.requested).run.run t.before) t.log (t.outcome, t.after))
      (rest : Serves t.after turns last) : Serves t.before (t :: turns) last

def Requested.executes : Requested → Bool
  | .operation op => !op.looks
  | .detach => true

def Requested.maySend : Requested → Bool
  | .operation (.resume .continue _) => true
  | .operation .continueBackground => true
  | .operation .interrupt => true
  | .operation _ => false
  | .detach => true

def sendsIn : GdbCall → Bool
  | .wrote _ _ => true
  | .heard _ => false

def Requested.unresolved : Requested → Option CategorizedError
  | .operation op => op.unresolved
  | .detach => none

/-- The session says that the guest is running or that the link is stalled. -/
def Served.Reports (t : Served) : Prop :=
  (t.requested = .operation .continueBackground ∧ t.outcome = .ok (.result (.maybeStop none))) ∨
    ∃ e, t.outcome = .error e ∧ Says e

/-- What is told is not the state of the guest but the failure of a command that looks at a halted one:
gdb has not answered it in time, or refused it. (The resolver's own error is passed on as it is.) -/
def Served.Excused (t : Served) : Prop :=
  t.requested.executes = false ∧ t.before.execution ≠ .running ∧
    ((∃ call ∈ t.log, failsIn call = true) ∨
      ∃ error, t.requested.unresolved = some error ∧ t.outcome = .error (.categorized error))

/-- The request leaves the attachment true to the guest, `said` being all that was said before. -/
structure Served.Sound (t : Served) (said : List GdbCall) : Prop where
  halted : t.after.execution ≠ .running → (said ++ t.log).foldl resumedAfter false = true →
    Overtaken (said ++ t.log)
  running : t.after.execution = .running → (said ++ t.log).foldl resumedAfter false = true
  silent : t.before.execution = .running → t.requested.maySend = false →
    ∀ call ∈ t.log, sendsIn call = false
  stopped : (∃ call ∈ t.log, stopsIn call = true) → t.after.execution = .halted
  reports : t.Reports → t.after.execution = .running ∨ t.Excused

/-- What the request would leave if a stop that gdb tells of before it accepts a resume, and a command
that fails on a halted guest, did not matter. -/
structure Served.Exact (t : Served) (said : List GdbCall) : Prop where
  halted : t.after.execution ≠ .running → (said ++ t.log).foldl resumedAfter false = false
  silent : t.before.execution = .running → t.requested.maySend = false →
    ∀ call ∈ t.log, sendsIn call = false
  stopped : (∃ call ∈ t.log, stopsIn call = true) → t.after.execution = .halted
  reports : t.Reports → t.after.execution = .running

theorem meets_reap : Meets Starts (reap engine)
    (fun r s seen => (Calm s seen ∨ Running s seen) ∧ ∃ halted, r = .ok halted) := by
  refine Dialogue.meets_getting (fun now => Dialogue.meets_ite (fun runs => ?_) (fun idle => ?_))
  · refine Dialogue.meets_tryCatch (Q := Ends) ?_ (fun e => Dialogue.meets_pure ?_) ?_
    · refine Dialogue.meets_bind ((meets_interrupt engine).pre (fun _ _ pre => pre.2))
        (fun _ => Dialogue.meets_pure (fun _ _ pre => pre))
        (fun _ _ _ post => post)
    · rintro s seen (running | ⟨calm, -⟩)
      · exact ⟨.inr running, _, rfl⟩
      · exact ⟨.inl calm, _, rfl⟩
    · exact fun halted s seen ends => ⟨ends, halted, rfl⟩
  · refine Dialogue.meets_pure ?_
    rintro s seen ⟨rfl, starts⟩
    exact ⟨.inl (starts.fresh idle).1, _, rfl⟩

theorem whileRunning_of_looks {operation : Operation} (looks : operation.looks = true) :
    operation.whileRunning = false := by
  cases operation <;> first | rfl | cases looks

theorem Fails.accords {e : Raised} {s : Attachment} {seen : Seen} (fails : Fails e s seen) :
    (Calm s seen ∨ Running s seen) ∧ (Says e → Running s seen) := by
  obtain running | ⟨calm, quiet⟩ := fails
  · exact ⟨.inr running, fun _ => running⟩
  · exact ⟨.inl calm, fun told => absurd told quiet⟩

def Accords (asked : Requested) (r : Except Raised Answer) (s : Attachment) (seen : Seen) : Prop :=
  (Calm s seen ∨ Running s seen) ∧
    ((asked = .operation .continueBackground ∧ r = .ok (.result (.maybeStop none))) ∨
      (asked.executes = true ∧ ∃ e, r = .error e ∧ Says e) → Running s seen)

theorem accords_error {asked : Requested} {e : Raised} {s : Attachment} {seen : Seen}
    (fails : Fails e s seen) : Accords asked (.error e) s seen := by
  refine ⟨fails.accords.1, ?_⟩
  rintro (⟨-, same⟩ | ⟨-, e', same, told⟩)
  · cases same
  · obtain rfl := Except.error.inj same
    exact fails.accords.2 told

theorem accords_ok {asked : Requested} {answer : Answer} {s : Attachment} {seen : Seen}
    (ends : Calm s seen ∨ Running s seen) (other : asked ≠ .operation .continueBackground) :
    Accords asked (.ok answer) s seen := by
  refine ⟨ends, ?_⟩
  rintro (⟨same, -⟩ | ⟨-, e, same, -⟩)
  · exact absurd same other
  · cases same

def OperationAccords (op : Operation) (r : Except Raised Result) : Attachment → Seen → Prop :=
  Accords (.operation op) (Answer.result <$> r)

theorem meets_execution {α : Type} {op : Operation} {body : Op α} {wrap : α → Result}
    (meets : Meets Starts body Ends) (other : op ≠ .continueBackground) :
    Meets Starts (wrap <$> body) (OperationAccords op) := by
  refine Dialogue.meets_map meets (fun _ _ _ ends => accords_ok ends ?_)
    (fun _ _ _ fails => accords_error fails)
  exact fun same => other (Requested.operation.inj same)

theorem meets_background :
    Meets Starts (Result.maybeStop <$> resumeBackground engine) (OperationAccords .continueBackground) := by
  refine Dialogue.meets_map (meets_resumeBackground engine) ?_ (fun _ _ _ fails => accords_error fails)
  intro stop s seen came
  cases stop with
  | none => exact ⟨.inr came, fun _ => came⟩
  | some stop =>
    refine ⟨.inl (Halted.calm came), ?_⟩
    rintro (⟨-, same⟩ | ⟨-, e, same, -⟩)
    · cases same
    · cases same

theorem meets_looked {op : Operation} (looks : op.looks = true) :
    Meets Fresh (perform engine op) (OperationAccords op) := by
  refine (meets_built engine (built_perform engine looks)).imp (fun _ _ fresh => fresh.1) ?_
  intro r s seen calm
  refine ⟨.inl calm, ?_⟩
  rintro (⟨same, -⟩ | ⟨executes, -⟩)
  · obtain rfl := Requested.operation.inj same
    cases looks
  · rw [Requested.executes, looks] at executes
    cases executes

theorem meets_perform (op : Operation) :
    Meets (fun s seen => Starts s seen ∧ (op.looks = true → s.execution ≠ .running))
      (perform engine op) (OperationAccords op) := by
  cases looks : op.looks with
  | true =>
    refine (meets_looked engine looks).pre ?_
    rintro s seen ⟨starts, idle⟩
    exact starts.fresh (idle rfl)
  | false =>
    refine Dialogue.Meets.pre (P := Starts) ?_ (fun _ _ pre => pre.1)
    cases op with
    | resume verb timeoutSec => exact meets_execution (meets_resume engine verb timeoutSec) nofun
    | continueBackground => exact meets_background engine
    | interrupt => exact meets_execution (meets_interrupt engine) nofun
    | waitForStop timeoutSec => exact meets_execution (meets_waitForStop engine timeoutSec) nofun
    | _ => cases looks

theorem meets_serve (asked : Requested) : Meets Starts (serve engine asked) (Accords asked) := by
  cases asked with
  | detach =>
    refine Dialogue.meets_map (meets_reap engine) ?_ ?_
    · exact fun halted s seen post => accords_ok post.1 nofun
    · rintro e s seen ⟨-, halted, same⟩
      cases same
  | operation op =>
    refine Dialogue.meets_map (Q := OperationAccords op) ?_ (fun _ _ _ accords => accords)
      (fun _ _ _ accords => accords)
    refine Dialogue.meets_getting (fun now => Dialogue.meets_ite (fun gated => ?_) (fun free => ?_))
    · refine Dialogue.meets_throw ?_
      rintro s seen ⟨rfl, starts⟩
      exact accords_error (.inl (starts.running gated.1))
    · refine (meets_perform engine op).pre ?_
      rintro s seen ⟨rfl, starts⟩
      refine ⟨starts, fun looks runs => free ⟨runs, ?_⟩⟩
      rw [whileRunning_of_looks looks]
      rfl

theorem serve_gated {op : Operation} (gated : op.whileRunning = false) {before after : Attachment}
    {log : List GdbCall} {r : Except Raised Answer} (runs : before.execution = .running)
    (ran : Dialogue.Runs ((serve engine (.operation op)).run.run before) log (r, after)) :
    log = [] ∧ after = before := by
  have refused : (attachAndRun engine op).run.run before =
      .done (.error (.categorized (inferiorIsRunning [])), before) := by
    change ((if before.execution = .running ∧ !op.whileRunning then raise (inferiorIsRunning [])
      else perform engine op : Op Result)).run.run before = _
    rw [if_pos ⟨runs, by rw [gated]; rfl⟩]
    rfl
  obtain ⟨first, second, ended, rfl, early, late⟩ :=
    Dialogue.runs_bind (p := (attachAndRun engine op).run.run before) ran
  rw [refused] at early
  cases early
  cases late
  exact ⟨rfl, rfl⟩

def sender : Dialogue.Observer Text GdbRecord Bool :=
  ⟨fun sent call => sent || sendsIn call, fun _ => True⟩

theorem foldl_sender (sent : Bool) (log : List GdbCall) :
    log.foldl sender.sees sent = (sent || log.any sendsIn) := by
  induction log generalizing sent with
  | nil => simp
  | cons call log ih => rw [List.foldl_cons, ih, List.any_cons, ← Bool.or_assoc]; rfl

abbrev Unsent (_ : Attachment) (sent : Bool) : Prop := sent = false

theorem unsent_stopFromRecords (records : List MiRecord) :
    Dialogue.Meets sender Unsent (stopFromRecords engine records) (fun _ => Unsent) := by
  rw [stopFromRecords]
  split
  · exact Dialogue.meets_pure (fun _ _ pre => pre)
  · refine Dialogue.meets_modifying (R := Unsent) (fun _ _ pre => pre) ?_
    refine Dialogue.meets_bind (meets_ofExcept _) (fun record => ?_) (fun _ _ _ post => post.2)
    exact Dialogue.meets_pure (fun _ _ pre => pre.2)

theorem unsent_pollForStop (slices : Nat) :
    Dialogue.Meets sender Unsent (pollForStop engine slices) (fun _ => Unsent) := by
  induction slices with
  | zero => exact Dialogue.meets_pure (fun _ _ pre => pre)
  | succ slices ih =>
    refine Dialogue.meets_bind (Q := fun _ => Unsent) ?_ (fun raw => ?_) (fun _ _ _ post => post)
    · refine Dialogue.meets_read.imp (P := Unsent) (fun _ _ pre => pre) ?_
      rintro r s sent ⟨records, before, -, -, pre, rfl⟩
      exact (congrArg (· || false) pre)
    · refine Dialogue.meets_bind (unsent_stopFromRecords engine _) (fun stop => ?_)
        (fun _ _ _ post => post)
      cases stop with
      | none => exact ih
      | some stop => exact Dialogue.meets_pure (fun _ _ pre => pre)

variable {engine}

theorem serve_silent {t : Served} (runs : t.before.execution = .running)
    (other : t.requested.maySend = false)
    (ran : Dialogue.Runs ((serve engine t.requested).run.run t.before) t.log (t.outcome, t.after)) :
    ∀ call ∈ t.log, sendsIn call = false := by
  obtain ⟨asked, before, log, outcome, after⟩ := t
  have gate : ∀ op, asked = .operation op → op.whileRunning = false → log = [] := by
    rintro op rfl gated
    exact (serve_gated engine gated runs ran).1
  have empty : log = [] → ∀ call ∈ log, sendsIn call = false := by
    rintro rfl call member
    exact absurd member List.not_mem_nil
  cases asked with
  | detach => cases other
  | operation op =>
    cases op with
    | continueBackground => cases other
    | interrupt => cases other
    | resume verb timeoutSec =>
      cases verb with
      | «continue» => cases other
      | _ => exact empty (gate _ rfl rfl)
    | waitForStop timeoutSec =>
      have unsent : Dialogue.Meets sender Unsent
          (serve engine (.operation (.waitForStop timeoutSec))) (fun _ => Unsent) := by
        refine Dialogue.meets_map (Q := fun _ => Unsent) ?_ (fun _ _ _ post => post)
          (fun _ _ _ post => post)
        refine Dialogue.meets_getting (fun now => Dialogue.meets_ite (fun gated => ?_) (fun _ => ?_))
        · exact absurd gated.2 nofun
        · exact Dialogue.meets_map ((unsent_pollForStop engine _).pre (fun _ _ pre => pre.2))
            (fun _ _ _ post => post) (fun _ _ _ post => post)
      have quiet : log.foldl sender.sees false = false :=
        unsent before false log outcome after rfl ran (fun _ _ => trivial)
      rw [foldl_sender, Bool.false_or] at quiet
      exact fun call member => Bool.eq_false_iff.mpr (List.any_eq_false.mp quiet call member)
    | _ => exact empty (gate _ rfl rfl)

theorem serve_looking {t : Served} (runs : t.before.execution = .running)
    (looking : t.requested.executes = false)
    (ran : Dialogue.Runs ((serve engine t.requested).run.run t.before) t.log (t.outcome, t.after)) :
    t.after = t.before := by
  obtain ⟨asked, before, log, outcome, after⟩ := t
  cases asked with
  | detach => cases looking
  | operation op =>
    have looks : op.looks = true := by simpa [Requested.executes] using looking
    exact (serve_gated engine (whileRunning_of_looks looks) runs ran).2

theorem serve_excused {t : Served} (idle : t.before.execution ≠ .running)
    (looking : t.requested.executes = false)
    (ran : Dialogue.Runs ((serve engine t.requested).run.run t.before) t.log (t.outcome, t.after))
    (own : ∀ call ∈ t.log, Own call) {e : Raised} (raised : t.outcome = .error e) (tells : Says e) :
    t.Excused := by
  obtain ⟨asked, before, log, outcome, after⟩ := t
  refine ⟨looking, idle, ?_⟩
  cases asked with
  | detach => cases looking
  | operation op =>
    have looks : op.looks = true := by simpa [Requested.executes] using looking
    have fails : Dialogue.Meets failures (fun s _ => s.execution ≠ .running)
        (serve engine (.operation op)) (fun r _ failed => ∀ e, r = .error e → failed = true ∨ op.Owns e) := by
      refine Dialogue.meets_map (Q := fun r _ failed => ∀ e, r = .error e → failed = true ∨ op.Owns e)
        ?_ (fun _ _ _ _ e same => (by cases same)) ?_
      · refine Dialogue.meets_getting (fun now => Dialogue.meets_ite (fun gated => ?_) (fun _ => ?_))
        · rintro s failed log r s' ⟨rfl, idle⟩ _ _
          exact absurd gated.1 idle
        · exact (fails_built engine (built_perform engine looks)).pre (fun _ _ _ => trivial)
      · intro e s failed post e' same
        obtain rfl := Except.error.inj same
        exact post e rfl
    have met := fails before false log outcome after idle ran own e raised
    rw [foldl_failures, Bool.false_or] at met
    rcases met with failed | unsaid | ⟨error, unresolved, rfl⟩
    · exact .inl (List.any_eq_true.mp failed)
    · exact absurd tells unsaid
    · exact .inr ⟨error, unresolved, raised⟩

theorem served_sound {t : Served} {said : List GdbCall} (before : ∀ call ∈ said, Own call)
    (starts : Starts t.before ⟨said.foldl takenAfter false, false⟩)
    (ran : Dialogue.Runs ((serve engine t.requested).run.run t.before) t.log (t.outcome, t.after))
    (own : ∀ call ∈ t.log, Own call) :
    t.Sound said ∧ Starts t.after ⟨(said ++ t.log).foldl takenAfter false, false⟩ := by
  have accords := meets_serve engine t.requested t.before ⟨said.foldl takenAfter false, false⟩ t.log
    t.outcome t.after starts ran own
  change Accords t.requested t.outcome t.after
    (t.log.foldl Seen.next ⟨said.foldl takenAfter false, false⟩) at accords
  rw [foldl_seen, ← List.foldl_append] at accords
  obtain ⟨left, reported⟩ := accords
  have all : ∀ call ∈ said ++ t.log, Own call := fun call member =>
    (List.mem_append.mp member).elim (before call) (own call)
  obtain ⟨resumed, overtaken⟩ := resumed_of_taken all
  refine ⟨⟨?_, ?_, fun runs other => serve_silent runs other ran, ?_, ?_⟩, ?_⟩
  · intro idle
    obtain calm | running := left
    · exact overtaken calm.2.1
    · exact absurd running.1 idle
  · intro runs
    obtain calm | running := left
    · exact absurd runs calm.1
    · exact resumed running.2.1
  · intro heard
    have told : t.log.any stopsIn = true := List.any_eq_true.mpr heard
    obtain calm | running := left
    · exact calm.2.2 (by rw [told]; rfl)
    · have untold : t.log.any stopsIn = false := running.2.2
      rw [told] at untold
      cases untold
  · rintro (background | ⟨e, raised, tells⟩)
    · exact .inl (reported (.inl background)).1
    · cases executes : t.requested.executes with
      | true => exact .inl (reported (.inr ⟨executes, e, raised, tells⟩)).1
      | false =>
        by_cases runs : t.before.execution = .running
        · exact .inl (by rw [serve_looking runs executes ran, runs])
        · exact .inr (serve_excused runs executes ran own raised tells)
  · obtain calm | running := left
    · exact .inl ⟨⟨calm.1, calm.2.1, fun stopped => (by cases stopped)⟩, rfl⟩
    · exact .inr ⟨running.1, running.2.1, rfl⟩

theorem serves_sound {start last : Attachment} {turns : List Served}
    (serves : Serves engine start turns last) (own : ∀ t ∈ turns, ∀ call ∈ t.log, Own call)
    {said : List GdbCall} (before : ∀ call ∈ said, Own call)
    (starts : Starts start ⟨said.foldl takenAfter false, false⟩) :
    ∀ earlier t later, turns = earlier ++ t :: later →
      t.Sound (said ++ earlier.flatMap Served.log) := by
  induction serves generalizing said with
  | nil a =>
    intro earlier t later same
    exact absurd same.symm (List.append_ne_nil_of_right_ne_nil earlier (List.cons_ne_nil t later))
  | @cons t turns last ran rest ih =>
    have mine := own t List.mem_cons_self
    obtain ⟨sound, next⟩ := served_sound before starts ran mine
    have all : ∀ call ∈ said ++ t.log, Own call := fun call member =>
      (List.mem_append.mp member).elim (before call) (mine call)
    have each := ih (fun t member => own t (List.mem_cons_of_mem _ member)) all next
    intro earlier t' later same
    cases earlier with
    | nil =>
      obtain ⟨rfl, -⟩ := List.cons.inj same
      rw [List.flatMap_nil, List.append_nil]
      exact sound
    | cons first earlier =>
      obtain ⟨rfl, split⟩ := List.cons.inj same
      rw [List.flatMap_cons, ← List.append_assoc]
      exact each earlier t' later split

theorem attach_execution {request : AttachRequest} {calls : List GdbCall} {start : Attachment}
    (attached : Dialogue.Runs ((attach engine request).run.run {}) calls (.ok (), start)) :
    start.execution = .attachHalted := by
  have ends : Dialogue.Meets sender (fun _ _ => True) (attach engine request)
      (fun r s _ => r = .ok () → s.execution = .attachHalted) := by
    refine Dialogue.meets_bind (Q := fun _ _ _ => True) ?_ (fun _ => ?_) ?_
    · exact fun _ _ _ _ _ _ _ _ => trivial
    · exact (Dialogue.meets_modify (R := fun s _ => s.execution = .attachHalted) _
        (fun _ _ _ => rfl)).post (fun _ _ _ post _ => post.2)
    · exact fun e _ _ _ same => (by cases same)
  exact ends {} false calls _ _ trivial attached (fun _ _ => trivial) rfl

/-- From the attach on, whatever is requested and whatever gdb says or fails to say in time, every
request is sound. -/
theorem execution_sound {request : AttachRequest} {calls : List GdbCall}
    {start last : Attachment} {turns : List Served}
    (attached : Dialogue.Runs ((attach engine request).run.run {}) calls (.ok (), start))
    (serves : Serves engine start turns last) (own : ∀ t ∈ turns, ∀ call ∈ t.log, Own call) :
    ∀ earlier t later, turns = earlier ++ t :: later → t.Sound (earlier.flatMap Served.log) := by
  have halted := attach_execution attached
  have starts : Starts start ⟨([] : List GdbCall).foldl takenAfter false, false⟩ := by
    refine .inl ⟨⟨?_, rfl, fun stopped => (by cases stopped)⟩, rfl⟩
    rw [halted]
    decide
  have unsaid : ∀ call ∈ ([] : List GdbCall), Own call := fun _ member => (by cases member)
  exact serves_sound serves own unsaid starts

def attachLog : List GdbCall :=
  [.wrote "-gdb-set confirm off".toList (some [.result .done none]),
    .wrote "-gdb-set pagination off".toList (some [.result .done none]),
    .wrote "-gdb-set mi-async on".toList (some [.result .done none]),
    .wrote "-file-exec-and-symbols /boot/vmlinux".toList (some [.result .done none]),
    .wrote "-gdb-set remotetimeout 30".toList (some [.result .done none]),
    .wrote "-target-select remote 127.0.0.1:1234".toList (some [.result .connected none])]

theorem attachLog_runs : Dialogue.Runs ((attach plain localGuest).run.run {}) attachLog
    (.ok (), { execution := .attachHalted }) := by
  have followed : (Dialogue.follow ((attach plain localGuest).run.run {}) attachLog).map
      (fun ended => (ended.1.toOption, ended.2)) =
        some (some (), { execution := .attachHalted }) := by decide +kernel
  obtain ⟨⟨outcome, after⟩, found, same⟩ := Option.map_eq_some_iff.mp followed
  obtain ⟨value, rfl⟩ := Prod.mk.inj same
  cases outcome with
  | ok a => exact Dialogue.runs_of_follow found
  | error e => cases value

def resumedTurn : Served where
  requested := .operation .continueBackground
  before := { execution := .attachHalted }
  log := [.wrote "-exec-continue".toList (some [.result .running none])]
  outcome := .ok (.result (.maybeStop none))
  after := { execution := .running }

def gatedTurn : Served where
  requested := .operation (.readMemory 0x1000 4)
  before := { execution := .running }
  log := []
  outcome := .error (.categorized (inferiorIsRunning []))
  after := { execution := .running }

def detachTurn : Served where
  requested := .detach
  before := { execution := .running }
  log := [.wrote "-exec-interrupt".toList
    (some [.result .done none, .notice .notify (some "stopped".toList) none])]
  outcome := .ok (.detached true)
  after := { execution := .halted }

/-- A guest that is resumed, cannot be looked at, and is stopped by the detach. -/
theorem brief_serves : Serves plain resumedTurn.before [resumedTurn, gatedTurn, detachTurn]
    { execution := .halted } := by
  refine .cons (t := resumedTurn) (.write (.done _)) (.cons (t := gatedTurn) (.done _) ?_)
  exact .cons (t := detachTurn) (.write (.done _)) (.nil _)

theorem brief_session_sound :
    resumedTurn.Sound [] ∧ gatedTurn.Sound resumedTurn.log ∧ detachTurn.Sound resumedTurn.log := by
  have own : ∀ t ∈ [resumedTurn, gatedTurn, detachTurn], ∀ call ∈ t.log, Own call := by
    decide +kernel
  have sound := execution_sound attachLog_runs brief_serves own
  exact ⟨sound [] _ _ rfl, sound [resumedTurn] _ _ rfl, sound [resumedTurn, gatedTurn] _ _ rfl⟩

def staleTurn : Served where
  requested := .operation .continueBackground
  before := { execution := .attachHalted }
  log := [.wrote "-exec-continue".toList
    (some [.notice .notify (some "stopped".toList) none, .result .running none])]
  outcome := .ok (.result (.maybeStop (some (redactStop plain ⟨none, none, none, none, none, false⟩))))
  after := { execution := .halted }

def stoppedTurn : Served where
  requested := .operation .continueBackground
  before := { execution := .attachHalted }
  log := [.wrote "-exec-continue".toList
    (some [.result .running none, .notice .notify (some "stopped".toList) none])]
  outcome := .ok (.result (.maybeStop (some (redactStop plain ⟨none, none, none, none, none, false⟩))))
  after := { execution := .halted }

def slowTurn : Served where
  requested := .operation (.readMemory 0x1000 4)
  before := { execution := .halted }
  log := [.wrote "-data-read-memory-bytes 0x1000 4".toList none]
  outcome := .error (.categorized (timeoutError "-data-read-memory-bytes 0x1000 4".toList))
  after := { execution := .halted }

/-- A stop that is told before the resume is accepted leaves the attachment halted, and a command that
times out on a halted guest is told as a stalled link. -/
theorem early_stop_and_slow_read :
    (Serves plain { execution := .attachHalted } [staleTurn] { execution := .halted } ∧
      (∀ call ∈ staleTurn.log, Own call) ∧ ¬ staleTurn.Exact []) ∧
    (Serves plain { execution := .attachHalted } [stoppedTurn, slowTurn] { execution := .halted } ∧
      (∀ t ∈ [stoppedTurn, slowTurn], ∀ call ∈ t.log, Own call) ∧ ¬ slowTurn.Exact stoppedTurn.log) := by
  refine ⟨⟨.cons (t := staleTurn) (.write (.done _)) (.nil _), by decide +kernel, fun exact => ?_⟩,
    .cons (t := stoppedTurn) (.write (.done _)) (.cons (t := slowTurn) (.write (.done _)) (.nil _)),
    by decide +kernel, fun exact => ?_⟩
  · have resumed : staleTurn.log.foldl resumedAfter false = true := by decide +kernel
    have idle := exact.halted (by decide)
    rw [List.nil_append, resumed] at idle
    cases idle
  · have told := exact.reports (.inr ⟨_, rfl, by decide +kernel⟩)
    cases told

end Sessions

end Kdive.Debug
