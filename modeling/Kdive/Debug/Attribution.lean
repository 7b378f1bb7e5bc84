import Kdive.Debug.Built

/-!
Whose reply an operation takes. The engine writes its commands without a token and takes the first
result record of a write for the reply, so a reply that is still to come when its command times out
is taken for the reply to the next command. A session in which every command is written with no such
reply outstanding is attributed throughout.
-/
namespace Kdive.Debug
open Console (Text Bytes)

variable (engine : Engine)

section Reads

variable {α β : Type}

def Quiet (op : Op α) : Prop :=
  ∀ attachment, Dialogue.ReadsNotices GdbRecord.isReply (op.run.run attachment)

theorem quiet_pure (a : α) : Quiet (pure a : Op α) := fun _ => Dialogue.readsNotices_pure _

theorem quiet_raise (e : CategorizedError) : Quiet (raise e : Op α) :=
  fun _ => Dialogue.readsNotices_pure _

theorem quiet_ofExcept (e : Except Raised α) : Quiet (ofExcept e) := by
  cases e with
  | ok a => exact fun _ => Dialogue.readsNotices_pure _
  | error e => exact fun _ => Dialogue.readsNotices_pure _

theorem quiet_get : Quiet (get : Op Attachment) := fun _ => Dialogue.readsNotices_pure _

theorem quiet_modify (f : Attachment → Attachment) : Quiet (modify f : Op Unit) :=
  fun _ => Dialogue.readsNotices_pure _

theorem quiet_bind {op : Op α} {k : α → Op β} (first : Quiet op) (second : ∀ a, Quiet (k a)) :
    Quiet (op >>= k) := by
  intro attachment
  refine Dialogue.readsNotices_bind (first attachment) ?_
  intro ended
  obtain ⟨outcome, attachment'⟩ := ended
  cases outcome with
  | ok a => exact second a attachment'
  | error e => exact Dialogue.readsNotices_pure _

theorem quiet_map {op : Op α} (f : α → β) (first : Quiet op) : Quiet (f <$> op) :=
  quiet_bind first (fun a => quiet_pure (f a))

theorem quiet_except {op : Op α} {handler : CategorizedError → Op α} (first : Quiet op)
    (second : ∀ e, Quiet (handler e)) : Quiet (except op handler) := by
  intro attachment
  refine Dialogue.readsNotices_bind (first attachment) ?_
  intro ended
  obtain ⟨outcome, attachment'⟩ := ended
  cases outcome with
  | ok a => exact Dialogue.readsNotices_pure _
  | error e =>
    cases e with
    | categorized e => exact second e attachment'
    | valueError => exact Dialogue.readsNotices_pure _

theorem quiet_ite {c : Prop} [Decidable c] {op op' : Op α} (first : c → Quiet op)
    (second : ¬c → Quiet op') : Quiet (if c then op else op') := by
  by_cases holds : c
  · simpa [holds] using first holds
  · simpa [holds] using second holds

theorem quiet_write (command : Text) : Quiet (write command) := by
  intro attachment answer
  cases answer with
  | none => exact quiet_raise _ attachment
  | some raw => exact quiet_pure _ attachment

theorem quiet_executeMiCommand (command : Text) : Quiet (executeMiCommand engine command) := by
  unfold executeMiCommand
  apply quiet_bind (quiet_modify _)
  intro _
  apply quiet_bind (quiet_write command)
  intro records
  exact quiet_ofExcept _

theorem quiet_of_built {P : Raised → Prop} {op : Op α} (built : Built engine P op) : Quiet op := by
  induction built with
  | pure a => exact quiet_pure a
  | throw e own => exact fun _ => Dialogue.readsNotices_pure _
  | get => exact quiet_get
  | modify f kept => exact quiet_modify f
  | command command looks => exact quiet_executeMiCommand engine command
  | bind first second ihFirst ihSecond => exact quiet_bind ihFirst ihSecond
  | except first passed second failed ihFirst ihSecond ihFailed => exact quiet_except ihFirst ihFailed
  | rescued command looks failed ihFailed =>
    exact quiet_except (quiet_executeMiCommand engine command) ihFailed

end Reads

section Execution

theorem quiet_stopFromRecords (records : List MiRecord) : Quiet (stopFromRecords engine records) := by
  unfold stopFromRecords
  split
  · exact quiet_pure _
  · apply quiet_bind (quiet_modify _)
    intro _
    exact quiet_map _ (quiet_ofExcept _)

theorem isStop_of_reply {record : GdbRecord} (reply : record.isReply = true) :
    (MiRecord.fromRaw record).isStop = false := by
  cases record with
  | result kind payload => cases kind <;> rfl
  | notice kind message payload => cases reply

theorem find_isStop_notices (raw : List GdbRecord) :
    (recordsFrom (raw.filter (!·.isReply))).find? MiRecord.isStop =
      (recordsFrom raw).find? MiRecord.isStop := by
  unfold recordsFrom
  induction raw with
  | nil => rfl
  | cons record rest ih =>
    by_cases reply : record.isReply
    · simp [reply, isStop_of_reply reply, ih]
    · simp only [reply, Bool.not_false, List.filter_cons_of_pos, List.map_cons, List.find?_cons, ih]

theorem stopFromRecords_notices {some others : List GdbRecord}
    (same : some.filter (!·.isReply) = others.filter (!·.isReply)) :
    stopFromRecords engine (recordsFrom some) = stopFromRecords engine (recordsFrom others) := by
  unfold stopFromRecords
  rw [← find_isStop_notices some, ← find_isStop_notices others, same]

theorem quiet_pollForStop (slices : Nat) : Quiet (pollForStop engine slices) := by
  induction slices with
  | zero => exact quiet_pure _
  | succ slices ih =>
    intro attachment
    constructor
    · intro some others same
      change ExceptT.run (stopFromRecords engine (recordsFrom some) >>= _) _ =
        ExceptT.run (stopFromRecords engine (recordsFrom others) >>= _) _
      rw [stopFromRecords_notices engine same]
    · intro records
      refine quiet_bind (quiet_stopFromRecords engine (recordsFrom records)) ?_ attachment
      intro stop
      cases stop with
      | none => exact ih
      | some stop => exact quiet_pure _

theorem quiet_interruptStop : Quiet (interruptStop engine) := by
  unfold interruptStop
  apply quiet_bind (quiet_write _)
  intro records
  apply quiet_bind (quiet_stopFromRecords engine _)
  intro stop
  cases stop with
  | some stop => exact quiet_pure _
  | none =>
    apply quiet_ite (fun _ => quiet_raise _)
    intro _
    apply quiet_bind (quiet_pollForStop engine _)
    intro stop
    exact quiet_pure _

theorem quiet_interrupt : Quiet (interrupt engine) := by
  unfold interrupt
  apply quiet_bind quiet_get
  intro attachment
  split
  · apply quiet_bind (quiet_modify _)
    intro _
    exact quiet_pure _
  · exact quiet_pure _
  · apply quiet_bind (quiet_interruptStop engine)
    intro stop
    cases stop with
    | none => exact quiet_raise _
    | some stop => exact quiet_pure _

theorem quiet_start (verb : Text) : Quiet (start engine verb) := by
  unfold start
  apply quiet_bind (quiet_modify _)
  intro _
  apply quiet_bind
  · apply quiet_except (quiet_executeMiCommand engine _)
    intro e
    unfold refused
    apply quiet_bind
    · exact quiet_ite (fun _ => quiet_modify _) (fun _ => quiet_pure _)
    · intro _
      exact quiet_raise _
  · intro resumed
    exact quiet_stopFromRecords engine _

theorem quiet_resumeBackground : Quiet (resumeBackground engine) := by
  unfold resumeBackground
  apply quiet_bind quiet_get
  intro attachment
  apply quiet_ite (fun _ => quiet_pure _)
  intro _
  apply quiet_bind (quiet_start engine _)
  intro stop
  exact quiet_pure _

theorem quiet_stopAfter (verb : Text) (stop : Option StopRecord) (bounded : Int) :
    Quiet (stopAfter engine verb stop bounded) := by
  unfold stopAfter
  apply quiet_bind
  · unfold stopOrWait
    cases stop with
    | none => exact quiet_pollForStop engine _
    | some stop => exact quiet_pure _
  · intro stop
    cases stop with
    | some stop => exact quiet_pure _
    | none =>
      apply quiet_bind (quiet_interruptStop engine)
      intro stop
      cases stop with
      | none => exact quiet_raise _
      | some stop => exact quiet_pure _

theorem quiet_resume (verb : Verb) (timeoutSec : Option ℚ) :
    Quiet (resume engine verb timeoutSec) := by
  unfold resume
  cases timeoutSec with
  | none => exact quiet_raise _
  | some timeout =>
    apply quiet_ite (fun _ => quiet_raise _)
    intro _
    apply quiet_bind quiet_get
    intro attachment
    apply quiet_ite
    · intro _
      apply quiet_bind (quiet_start engine _)
      intro stop
      exact quiet_stopAfter engine _ _ _
    · intro _
      exact quiet_ite (fun _ => quiet_stopAfter engine _ _ _) (fun _ => quiet_raise _)

theorem quiet_connectWithRetry (command : Text) (attempts : Nat) :
    Quiet (connectWithRetry engine command attempts) := by
  have once : Quiet (do let _ ← executeMiCommand engine command) := by
    apply quiet_bind (quiet_executeMiCommand engine _)
    intro _
    exact quiet_pure _
  induction attempts using connectWithRetry.induct with
  | case1 => exact quiet_raise _
  | case2 =>
    apply quiet_bind (quiet_except (quiet_executeMiCommand engine _) (fun e => quiet_raise _))
    intro _
    exact quiet_pure _
  | case3 attempts ih =>
    unfold connectWithRetry
    exact quiet_except once (fun _ => ih)

theorem quiet_attach (request : AttachRequest) : Quiet (attach engine request) := by
  unfold attach
  apply quiet_bind
  · refine quiet_except ?_ (fun e => quiet_raise _)
    unfold attachCommands
    apply quiet_bind (quiet_executeMiCommand engine _)
    intro _
    apply quiet_bind (quiet_executeMiCommand engine _)
    intro _
    apply quiet_bind (quiet_executeMiCommand engine _)
    intro _
    apply quiet_bind (quiet_ofExcept _)
    intro path
    apply quiet_bind (quiet_executeMiCommand engine _)
    intro _
    apply quiet_bind
    · unfold setArchitecture
      split
      · apply quiet_bind (quiet_executeMiCommand engine _)
        intro _
        exact quiet_pure _
      · exact quiet_pure _
    · intro _
      apply quiet_bind (quiet_executeMiCommand engine _)
      intro _
      exact quiet_connectWithRetry engine _ _
  · intro _
    exact quiet_modify _

theorem quiet_perform (operation : Operation) : Quiet (perform engine operation) := by
  by_cases looks : operation.looks = true
  · exact quiet_of_built engine (built_perform engine looks)
  · cases operation with
    | resume verb timeoutSec => exact quiet_map _ (quiet_resume engine _ _)
    | continueBackground => exact quiet_map _ (quiet_resumeBackground engine)
    | interrupt => exact quiet_map _ (quiet_interrupt engine)
    | waitForStop timeoutSec => exact quiet_map _ (quiet_pollForStop engine _)
    | _ => exact absurd rfl looks

end Execution

section Sessions

theorem program_readsNotices (operation : Operation) (attachment : Option Attachment) :
    Dialogue.ReadsNotices GdbRecord.isReply (program engine operation attachment) := by
  cases attachment with
  | none => trivial
  | some attachment =>
    have quiet : Quiet (attachAndRun engine operation) := by
      unfold attachAndRun
      apply quiet_bind quiet_get
      intro attachment
      exact quiet_ite (fun _ => quiet_raise _) (fun _ => quiet_perform engine operation)
    exact Dialogue.readsNotices_bind (quiet attachment) (fun _ => Dialogue.readsNotices_pure _)

theorem opening_readsNotices (request : AttachRequest) :
    Dialogue.ReadsNotices GdbRecord.isReply (opening engine request) := by
  refine Dialogue.readsNotices_bind (quiet_attach engine request {}) ?_
  intro ended
  obtain ⟨outcome, attachment⟩ := ended
  cases outcome <;> exact Dialogue.readsNotices_pure _

/-- In every session whose commands are all written with no stale reply unread, every reply an
operation takes answers a command that it sent and that did not time out, and its outcome and the
attachment it leaves are what they would be had no other reply been sent. -/
theorem replies_attributed (request : AttachRequest) (events : List Event)
    (clear : Trace.Along (step engine) Dialogue.Clear (opened engine request) events) :
    (Trace.run (step engine) (opened engine request) events).Attributed :=
  Dialogue.attributed_of_clear (program_readsNotices engine) (opening_readsNotices engine request)
    clear

def plain : Engine where
  isDigit := Char.isDigit
  isDecimal := Char.isDigit
  isWord := fun c => c.isAlphanum || c == '_'
  int := fun t => some (t.foldl (fun n c => 10 * n + (c.toNat - '0'.toNat : Nat)) 0)
  repr := fun t => "'".toList ++ t ++ "'".toList
  str := fun _ => "None".toList
  redactText := id
  redactValue := id

def localGuest : AttachRequest where
  host := "127.0.0.1".toList
  port := 1234
  vmlinux := "/boot/vmlinux".toList
  architecture := none

def attachCalls : List Event :=
  List.replicate 5 (.call [.result .done none]) ++ [.call [.result .connected none]]

def memoryReply (contents : String) : GdbRecord :=
  .result .done (some (.dict [("memory".toList,
    .list [.dict [("contents".toList, .text contents.toList)]])]))

def promptSession : List Event :=
  attachCalls ++ [.start (.readMemory 0x1000 4), .call [memoryReply "00112233"],
    .start (.readMemory 0x2000 4), .call [memoryReply "44556677"],
    .start (.resume .continue (some 5)), .call [.result .running none],
    .call [.notice .notify (some "stopped".toList) none]]

theorem prompt_session_attributed :
    (Trace.run (step plain) (opened plain localGuest) promptSession).Attributed :=
  replies_attributed plain localGuest promptSession (by decide +kernel)

/-- The reply to the first read comes while the second waits for its own; then an error of the
second read comes while a resume waits. -/
def lateSession : List Event :=
  attachCalls ++ [.start (.readMemory 0x1000 4), .call [],
    .start (.readMemory 0x2000 4), .call [memoryReply "00112233"],
    .start .continueBackground, .call [.result .error none]]

def Outcome.bytes : Outcome → Option Bytes
  | .ok (.bytes blob) => some blob
  | _ => none

/-- The second read returns the bytes of the first one's address, and the resume that gdb has not
answered is taken for refused. -/
theorem late_reply_taken :
    let late := Trace.run (step plain) (opened plain localGuest) lateSession
    late.ended[2]?.bind (fun read => Outcome.bytes read.value.1) = some [0x00, 0x11, 0x22, 0x33] ∧
    late.state = some { execution := .halted } ∧ late.line.unread = [8] ∧ ¬ late.Attributed := by
  refine ⟨by decide +kernel, by decide +kernel, by decide +kernel, ?_⟩
  intro attributed
  have own := fun e member => (attributed.ended e member).replies
  revert own
  decide +kernel

end Sessions

end Kdive.Debug
