import Kdive.Lib.Trace

/-!
Operations that talk to a peer over one line. The peer answers the commands in the order it got
them, as late as it likes, and may say other things in between. A write hands back whatever has
arrived since the last read, or times out when nothing has; nothing on the line says which command
a reply answers.

The line remembers it, for the statements only: a reply is stale for an operation if it answers a
command of an earlier operation, or one that timed out.
-/
namespace Dialogue

inductive Program (Command Record α : Type) where
  | done (value : α)
  | write (command : Command) (next : Option (List Record) → Program Command Record α)
  | read (next : List Record → Program Command Record α)

section Programs

variable {Command Record α β : Type}

def bind : Program Command Record α → (α → Program Command Record β) →
    Program Command Record β
  | .done a, k => k a
  | .write command next, k => .write command (fun answer => bind (next answer) k)
  | .read next, k => .read (fun records => bind (next records) k)

instance : Monad (Program Command Record) where
  pure := .done
  bind := bind

def write (command : Command) : Program Command Record (Option (List Record)) :=
  .write command .done

def read : Program Command Record (List Record) := .read .done

def ReadsNotices (isReply : Record → Bool) : Program Command Record α → Prop
  | .done _ => True
  | .write _ next => ∀ answer, ReadsNotices isReply (next answer)
  | .read next => (∀ some others, some.filter (!isReply ·) = others.filter (!isReply ·) →
      next some = next others) ∧ ∀ records, ReadsNotices isReply (next records)

variable {isReply : Record → Bool}

theorem readsNotices_pure (a : α) :
    ReadsNotices isReply (pure a : Program Command Record α) := trivial

theorem readsNotices_bind {p : Program Command Record α} {k : α → Program Command Record β}
    (first : ReadsNotices isReply p) (second : ∀ a, ReadsNotices isReply (k a)) :
    ReadsNotices isReply (p >>= k) := by
  change ReadsNotices isReply (bind p k)
  induction p with
  | done a => exact second a
  | write command next ih =>
    intro answer
    exact ih answer (first answer)
  | read next ih =>
    constructor
    · intro some others same
      change bind (next some) k = bind (next others) k
      rw [first.1 some others same]
    · intro records
      exact ih records (first.2 records)

end Programs

section Answered

variable {Command Record α β : Type} (peer : Command → Option (List Record))

/-- What a program comes to with a peer that answers each command at once, or never, and the
commands that it writes. -/
def answered : Program Command Record α → α × List Command
  | .done a => (a, [])
  | .write command next =>
    let rest := answered (next (peer command))
    (rest.1, command :: rest.2)
  | .read next => answered (next [])

theorem answered_bind (p : Program Command Record α) (k : α → Program Command Record β) :
    answered peer (p >>= k) = ((answered peer (k (answered peer p).1)).1,
      (answered peer p).2 ++ (answered peer (k (answered peer p).1)).2) := by
  change answered peer (bind p k) = _
  induction p with
  | done a => rfl
  | write command next ih => simp [bind, answered, ih]
  | read next ih => simp [bind, answered, ih]

end Answered

section Line

variable {Command Record α σ Operation : Type}

structure Heard (Record : Type) where
  record : Record
  answers : Option Nat

/-- Commands are numbered as they are written. `arrived` has not been read yet. -/
structure Line (Record : Type) where
  sent : Nat := 0
  unanswered : List Nat := []
  arrived : List (Heard Record) := []
  timedOut : List Nat := []

def Line.deliver (isReply : Record → Bool) (line : Line Record) (record : Record) : Line Record :=
  if isReply record then
    match line.unanswered with
    | [] => line
    | n :: rest =>
      { line with unanswered := rest, arrived := line.arrived ++ [⟨record, some n⟩] }
  else { line with arrived := line.arrived ++ [⟨record, none⟩] }

def Line.deliverAll (isReply : Record → Bool) (line : Line Record) (said : List Record) :
    Line Record :=
  said.foldl (Line.deliver isReply) line

def Line.send (line : Line Record) : Line Record :=
  { line with sent := line.sent + 1, unanswered := line.unanswered ++ [line.sent] }

def Line.unread (line : Line Record) : List Nat :=
  line.arrived.filterMap Heard.answers ++ line.unanswered

structure Exchange (Record : Type) where
  line : Line Record
  writes : Bool
  heard : Option (List (Heard Record))

/-- An operation on its way: `whole` is its program, `rest` what is left of it, `first` the number
its first command gets. -/
structure Turn (Command Record α : Type) where
  whole : Program Command Record α
  first : Nat
  log : List (Exchange Record) := []
  rest : Program Command Record α

structure Ended (Command Record α : Type) where
  whole : Program Command Record α
  first : Nat
  log : List (Exchange Record)
  value : α

structure Session (Command Record α σ : Type) where
  line : Line Record
  state : σ
  turn : Option (Turn Command Record (α × σ))
  ended : List (Ended Command Record (α × σ)) := []

inductive Event (Operation Record : Type) where
  | start (operation : Operation)
  | call (said : List Record)

/-- An operation with nothing left to do is over, and the session keeps its state. -/
def Session.settle (s : Session Command Record α σ) (turn : Turn Command Record (α × σ)) :
    Session Command Record α σ :=
  match turn.rest with
  | .done value =>
    let ended : Ended Command Record (α × σ) := ⟨turn.whole, turn.first, turn.log, value⟩
    { s with state := value.2, turn := none, ended := s.ended ++ [ended] }
  | _ => { s with turn := some turn }

def Session.begin (s : Session Command Record α σ) (p : Program Command Record (α × σ)) :
    Session Command Record α σ :=
  s.settle { whole := p, first := s.line.sent, rest := p }

/-- The operations of a session follow each other. In a call the peer says what it has to say, and
then the call returns. -/
def step (isReply : Record → Bool) (program : Operation → σ → Program Command Record (α × σ))
    (s : Session Command Record α σ) : Event Operation Record → Session Command Record α σ
  | .start operation =>
    match s.turn with
    | none => s.begin (program operation s.state)
    | some _ => s
  | .call said =>
    match s.turn with
    | none => s
    | some turn =>
      match turn.rest with
      | .done _ => s
      | .write _ next =>
        let line := s.line.send.deliverAll isReply said
        match line.arrived with
        | [] =>
          let log := turn.log ++ [⟨s.line, true, none⟩]
          { s with line := { line with timedOut := line.timedOut ++ [s.line.sent] } }.settle
            { turn with log, rest := next none }
        | heard =>
          let log := turn.log ++ [⟨s.line, true, some heard⟩]
          { s with line := { line with arrived := [] } }.settle
            { turn with log, rest := next (some (heard.map Heard.record)) }
      | .read next =>
        let line := s.line.deliverAll isReply said
        let log := turn.log ++ [⟨s.line, false, some line.arrived⟩]
        { s with line := { line with arrived := [] } }.settle
          { turn with log, rest := next (line.arrived.map Heard.record) }

def opened (state : σ) (opening : Program Command Record (α × σ)) : Session Command Record α σ :=
  ({ line := {}, state, turn := none } : Session Command Record α σ).begin opening

end Line

section Attribution

variable {Command Record α σ Operation : Type}

def Mine (first : Nat) (line : Line Record) (n : Nat) : Prop := first ≤ n ∧ n ∉ line.timedOut

instance (first : Nat) (line : Line Record) (n : Nat) : Decidable (Mine first line n) :=
  inferInstanceAs (Decidable (_ ∧ _))

def Heard.mine (first : Nat) (line : Line Record) (h : Heard Record) : Bool :=
  h.answers.all (fun n => decide (Mine first line n))

def Exchange.own (first : Nat) (e : Exchange Record) : Option (List Record) :=
  e.heard.map (fun heard => (heard.filter (Heard.mine first e.line)).map Heard.record)

def OwnReplies (first : Nat) (log : List (Exchange Record)) : Prop :=
  ∀ e ∈ log, e.writes → ∀ h ∈ e.heard.getD [], h.mine first e.line

instance (first : Nat) (log : List (Exchange Record)) : Decidable (OwnReplies first log) :=
  inferInstanceAs (Decidable (∀ e ∈ log, _))

def replay : Program Command Record α → List (Option (List Record)) → Program Command Record α
  | .done a, _ => .done a
  | p, [] => p
  | .write _ next, answer :: rest => replay (next answer) rest
  | .read next, answer :: rest => replay (next (answer.getD [])) rest

/-- The operation heard nothing but its own replies where it asked for them, and has come to the
same as if the stale ones had never been sent. -/
structure Attributed (first : Nat) (log : List (Exchange Record))
    (whole rest : Program Command Record α) : Prop where
  replies : OwnReplies first log
  outcome : replay whole (log.map (Exchange.own first)) = rest

structure Session.Attributed (s : Session Command Record α σ) : Prop where
  ended : ∀ e ∈ s.ended, Dialogue.Attributed e.first e.log e.whole (.done e.value)
  turn : ∀ t, s.turn = some t → Dialogue.Attributed t.first t.log t.whole t.rest

def Program.writes : Program Command Record α → Bool
  | .write _ _ => true
  | _ => false

def Clear (s : Session Command Record α σ) : Event Operation Record → Prop
  | .start _ => True
  | .call _ => ∀ t ∈ s.turn, t.rest.writes = true → ∀ n ∈ s.line.unread, Mine t.first s.line n

instance (s : Session Command Record α σ) : (e : Event Operation Record) → Decidable (Clear s e)
  | .start _ => isTrue trivial
  | .call _ =>
    match shape : s.turn with
    | none => isTrue (by simp [Clear, shape])
    | some t => decidable_of_iff
        (t.rest.writes = true → ∀ n ∈ s.line.unread, Mine t.first s.line n) (by simp [Clear, shape])

theorem replay_append (p : Program Command Record α) (first second : List (Option (List Record))) :
    replay p (first ++ second) = replay (replay p first) second := by
  induction first generalizing p with
  | nil => cases p <;> simp [replay]
  | cons answer rest ih =>
    cases p with
    | done a => cases second <;> simp [replay]
    | write command next => exact ih (next answer)
    | read next => exact ih (next (answer.getD []))

variable {isReply : Record → Bool} {line : Line Record}

def Line.Told (isReply : Record → Bool) (line : Line Record) : Prop :=
  ∀ h ∈ line.arrived, isReply h.record = h.answers.isSome

structure Line.Later (isReply : Record → Bool) (line line' : Line Record) : Prop where
  sent : line'.sent = line.sent
  timedOut : line'.timedOut = line.timedOut
  unread : line'.unread ⊆ line.unread
  told : line.Told isReply → line'.Told isReply

theorem Line.later_deliver (record : Record) : line.Later isReply (line.deliver isReply record) := by
  unfold Line.deliver
  by_cases reply : isReply record
  · simp only [reply, if_true]
    cases waiting : line.unanswered with
    | nil => exact ⟨rfl, rfl, fun n member => member, fun told => told⟩
    | cons n rest =>
      refine ⟨rfl, rfl, ?_, ?_⟩
      · intro m member
        simpa [Line.unread, List.filterMap_append, waiting, or_assoc] using member
      · intro told h member
        simp only [List.mem_append, List.mem_singleton] at member
        rcases member with old | rfl
        · exact told h old
        · simpa using reply
  · simp only [reply]
    refine ⟨rfl, rfl, ?_, ?_⟩
    · intro m member
      simpa [Line.unread, List.filterMap_append] using member
    · intro told h member
      simp only [Bool.false_eq_true, if_false, List.mem_append, List.mem_singleton] at member
      rcases member with old | rfl
      · exact told h old
      · simpa using reply

theorem Line.later_deliverAll (isReply : Record → Bool) (line : Line Record) (said : List Record) :
    line.Later isReply (line.deliverAll isReply said) := by
  unfold Line.deliverAll
  induction said generalizing line with
  | nil => exact ⟨rfl, rfl, fun n member => member, fun told => told⟩
  | cons record rest ih =>
    have first : line.Later isReply (line.deliver isReply record) := later_deliver record
    have others := @ih (line.deliver isReply record)
    exact ⟨others.sent.trans first.sent, others.timedOut.trans first.timedOut,
      List.Subset.trans others.unread first.unread, fun told => others.told (first.told told)⟩

structure Kept (isReply : Record → Bool) (s : Session Command Record α σ) : Prop where
  attributed : s.Attributed
  told : s.line.Told isReply
  timedOut : ∀ n ∈ s.line.timedOut, n < s.line.sent
  begun : ∀ t, s.turn = some t → t.first ≤ s.line.sent
  reads : ∀ t, s.turn = some t → ReadsNotices isReply t.rest

theorem Kept.settle {s : Session Command Record α σ} {t : Turn Command Record (α × σ)}
    (ended : ∀ e ∈ s.ended, Attributed e.first e.log e.whole (.done e.value))
    (told : s.line.Told isReply) (timedOut : ∀ n ∈ s.line.timedOut, n < s.line.sent)
    (turn : Attributed t.first t.log t.whole t.rest) (begun : t.first ≤ s.line.sent)
    (reads : ReadsNotices isReply t.rest) : Kept isReply (s.settle t) := by
  unfold Session.settle
  split
  · rename_i value finished
    rw [finished] at turn
    refine ⟨⟨?_, ?_⟩, told, timedOut, ?_, ?_⟩
    · intro e member
      simp only [List.mem_append, List.mem_singleton] at member
      rcases member with old | rfl
      · exact ended e old
      · exact turn
    all_goals
      intro t none
      cases none
  · refine ⟨⟨ended, ?_⟩, told, timedOut, ?_, ?_⟩
    all_goals
      intro t' same
      cases same
      assumption

theorem Kept.begin {s : Session Command Record α σ} {p : Program Command Record (α × σ)}
    (ended : ∀ e ∈ s.ended, Attributed e.first e.log e.whole (.done e.value))
    (told : s.line.Told isReply) (timedOut : ∀ n ∈ s.line.timedOut, n < s.line.sent)
    (reads : ReadsNotices isReply p) : Kept isReply (s.begin p) := by
  refine Kept.settle ended told timedOut ⟨?_, ?_⟩ (Nat.le_refl _) reads
  · intro e member
    cases member
  · cases p <;> rfl

/-- One more call keeps the attribution if its answer is what is left without stale replies. -/
theorem Attributed.call {first : Nat} {log : List (Exchange Record)}
    {whole rest rest' : Program Command Record α} (before : Attributed first log whole rest)
    (e : Exchange Record)
    (replies : e.writes → ∀ h ∈ e.heard.getD [], h.mine first e.line)
    (outcome : replay rest [e.own first] = rest') :
    Attributed first (log ++ [e]) whole rest' := by
  constructor
  · intro e' member
    simp only [List.mem_append, List.mem_singleton] at member
    rcases member with old | rfl
    · exact before.replies e' old
    · exact replies
  · rw [List.map_append, replay_append, before.outcome]
    exact outcome

theorem replay_nil (p : Program Command Record α) : replay p [] = p := by
  cases p <;> rfl

theorem mine_of_clear {first : Nat} {said : List Record} (begun : first ≤ line.sent)
    (timedOut : ∀ n ∈ line.timedOut, n < line.sent) (clear : ∀ n ∈ line.unread, Mine first line n) :
    ∀ h ∈ (line.send.deliverAll isReply said).arrived, h.mine first line := by
  intro h member
  cases answers : h.answers with
  | none => simp [Heard.mine, answers]
  | some n =>
    have waiting : n ∈ line.send.unread := by
      apply (Line.later_deliverAll isReply line.send said).unread
      exact List.mem_append_left _ (List.mem_filterMap.mpr ⟨h, member, answers⟩)
    have cases : n ∈ line.unread ∨ n = line.sent := by
      simpa [Line.send, Line.unread, or_assoc] using waiting
    simp only [Heard.mine, answers, Option.all_some, decide_eq_true_eq]
    rcases cases with old | rfl
    · exact clear n old
    · refine ⟨begun, ?_⟩
      intro late
      exact Nat.lt_irrefl _ (timedOut _ late)

theorem notices_of_own (told : line.Told isReply) (first : Nat) (before : Line Record) :
    ((line.arrived.filter (Heard.mine first before)).map Heard.record).filter (!isReply ·)
      = (line.arrived.map Heard.record).filter (!isReply ·) := by
  rw [List.filter_map, List.filter_map, List.filter_filter]
  congr 1
  apply List.filter_congr
  intro h member
  have known := told h member
  cases answers : h.answers with
  | none => simp [Heard.mine, answers]
  | some n => simp [known, answers]

variable {program : Operation → σ → Program Command Record (α × σ)}

theorem Kept.call {s : Session Command Record α σ} (kept : Kept isReply s) {said : List Record}
    (clear : Clear s (.call said : Event Operation Record)) :
    Kept isReply (step isReply program s (.call said)) := by
  unfold step
  cases here : s.turn with
  | none => simpa [here] using kept
  | some t =>
    have turn := kept.attributed.turn t here
    have reads := kept.reads t here
    have begun := kept.begun t here
    have clear := clear t here
    cases left : t.rest with
    | done value => simpa [here, left] using kept
    | write command next =>
      simp only [left]
      rw [left] at turn reads clear
      have later := Line.later_deliverAll isReply s.line.send said
      have sent : (s.line.send.deliverAll isReply said).sent = s.line.sent + 1 := later.sent
      have same : (s.line.send.deliverAll isReply said).timedOut = s.line.timedOut := later.timedOut
      split
      · rename_i silent
        refine Kept.settle kept.attributed.ended ?_ ?_ ?_ ?_ (reads none)
        · intro h member
          change h ∈ (s.line.send.deliverAll isReply said).arrived at member
          rw [silent] at member
          cases member
        · intro n late
          change n ∈ (s.line.send.deliverAll isReply said).timedOut ++ [s.line.sent] at late
          change n < (s.line.send.deliverAll isReply said).sent
          rw [same, List.mem_append, List.mem_singleton] at late
          rw [sent]
          rcases late with old | rfl
          · have := kept.timedOut n old
            omega
          · omega
        · refine turn.call _ ?_ (replay_nil _)
          intro _ h none
          cases none
        · change t.first ≤ (s.line.send.deliverAll isReply said).sent
          omega
      · rename_i heard _
        have mine : ∀ h ∈ (s.line.send.deliverAll isReply said).arrived, h.mine t.first s.line :=
          mine_of_clear begun kept.timedOut (clear rfl)
        refine Kept.settle kept.attributed.ended ?_ ?_ ?_ ?_ (reads _)
        · intro h member
          cases member
        · intro n late
          change n ∈ (s.line.send.deliverAll isReply said).timedOut at late
          change n < (s.line.send.deliverAll isReply said).sent
          have := kept.timedOut n (same ▸ late)
          omega
        · refine turn.call _ ?_ ?_
          · intro _ h member
            exact mine h member
          · rw [Exchange.own, Option.map_some, List.filter_eq_self.mpr mine]
            exact replay_nil _
        · change t.first ≤ (s.line.send.deliverAll isReply said).sent
          omega
    | read next =>
      simp only [left]
      rw [left] at turn reads
      have later := Line.later_deliverAll isReply s.line said
      refine Kept.settle kept.attributed.ended ?_ ?_ ?_ ?_ (reads.2 _)
      · intro h member
        cases member
      · intro n late
        change n ∈ (s.line.deliverAll isReply said).timedOut at late
        change n < (s.line.deliverAll isReply said).sent
        rw [later.timedOut] at late
        rw [later.sent]
        exact kept.timedOut n late
      · refine turn.call _ ?_ ?_
        · intro writes
          cases writes
        · rw [replay, replay_nil]
          exact reads.1 _ _ (notices_of_own (later.told kept.told) t.first s.line)
      · change t.first ≤ (s.line.deliverAll isReply said).sent
        rw [later.sent]
        exact begun

theorem Kept.step (reads : ∀ operation state, ReadsNotices isReply (program operation state))
    {s : Session Command Record α σ} (kept : Kept isReply s) {e : Event Operation Record}
    (clear : Clear s e) : Kept isReply (step isReply program s e) := by
  cases e with
  | start operation =>
    unfold Dialogue.step
    cases here : s.turn with
    | none => exact Kept.begin kept.attributed.ended kept.told kept.timedOut (reads operation s.state)
    | some t => simpa [here] using kept
  | call said => exact kept.call clear

/-- Along every session whose commands are written on a clear line, every operation has its own
replies. -/
theorem attributed_of_clear (reads : ∀ operation state, ReadsNotices isReply (program operation state))
    {state : σ} {opening : Program Command Record (α × σ)} (opens : ReadsNotices isReply opening)
    {events : List (Event Operation Record)}
    (clear : Trace.Along (step isReply program) Clear (opened state opening) events) :
    (Trace.run (step isReply program) (opened state opening) events).Attributed := by
  have start : Kept isReply (opened state opening) := by
    refine Kept.begin ?_ ?_ ?_ opens
    all_goals
      intro x member
      cases member
  exact (@Trace.invariant_along _ _ _ (Kept isReply) Clear
    (fun s e kept clear => kept.step reads clear) _ _ start clear).attributed

end Attribution

end Dialogue
