import Kdive.Debug.Answered
import Kdive.Debug.Attribution

/-!
The walk over the guest's module list. A walk that the list leads back to its head accounts for every
node, and one that the limit ends says so; a walk that ends at a next pointer which cannot be read,
or which leads to its own node, does not say that it stopped.
-/
namespace Kdive.Debug
open Console (Text)

structure GuestModules where
  offset : Nat
  head : Nat
  nodes : List Nat
  distinct : nodes.Nodup
  apart : head ∉ nodes

def GuestModules.first (guest : GuestModules) (rest : List Nat) : Nat := rest.head?.getD guest.head

section Reading

variable (engine : Engine) (peer : Peer) (guest : GuestModules)

/-- What the debugger answers is so in the guest; a node may also be seen to point to itself. -/
structure Presents : Prop where
  offset : ∀ v, requiredAt engine peer "&((struct module *)0)->list" = .ok v → v = guest.offset
  head : ∀ v, requiredAt engine peer "&modules" = .ok v → v = guest.head
  first : ∀ v, requiredAt engine peer "modules.next" = .ok v → v = guest.first guest.nodes
  next : ∀ before node rest, guest.nodes = before ++ node :: rest →
    ∀ v, nextAt engine peer node = .ok (some v) → v = node ∨ v = guest.first rest

def DeadEnd (node : Nat) : Prop :=
  nextAt engine peer node = .ok none ∨ nextAt engine peer node = .ok (some node)

def Leads (node : Nat) : Prop := ∃ v, nextAt engine peer node = .ok (some v) ∧ v ≠ node

def rowsAt (offset : Nat) : String → List Nat → Except Raised (List (Option ModuleRow))
  | _, [] => .ok []
  | baseField, node :: rest =>
    rowAt engine peer offset baseField node >>= fun row =>
      rowsAt offset row.2 rest >>= fun rows => .ok (row.1 :: rows)

/-- The walk ends at this node without having been led back to the head. -/
structure Stops (limit : Nat) (before : List Nat) (node : Nat) (rest : List Nat) : Prop where
  whole : guest.nodes = before ++ node :: rest
  led : ∀ m ∈ before, Leads engine peer m
  stops : before.length = limit ∨ before.length < limit ∧ DeadEnd engine peer node

structure Reports (limit : Int) (list : ModuleList) : Prop where
  bounded : list.modules.length + list.decodeErrors ≤ limit.toNat
  complete : list.truncated = false → ∃ rows, rowsAt engine peer guest.offset "" guest.nodes =
    .ok rows ∧ list.decodeErrors = rows.count none ∧
      list.modules.map (fun m => (m.name, m.baseAddress)) = (rows.filterMap id).map
        (fun row => (engine.redactText row.1, engine.redactText (hex row.2.1)))
  visible : ∀ before node rest, Stops engine peer guest limit.toNat before node rest →
    list.truncated = true ∨ list.decodeErrors ≠ 0

/-- `list_modules` raises a categorized error or accounts for the guest's modules. -/
def Accounts (limit : Int) (outcome : Except Raised ModuleList) : Prop :=
  (∃ e, outcome = .error (.categorized e)) ∨ ∃ list, outcome = .ok list ∧
    Reports engine peer guest limit list

/-- The walk gets to a node before the limit whose next pointer is of no use, and nothing in the
listing will tell. -/
structure Hidden (limit : Int) (before : List Nat) (node : Nat) (rest : List Nat) : Prop where
  whole : guest.nodes = before ++ node :: rest
  led : ∀ m ∈ before, Leads engine peer m
  within : before.length < limit.toNat
  deadEnd : DeadEnd engine peer node
  read : ∃ rows, rowsAt engine peer guest.offset "" (before ++ [node]) = .ok rows ∧
    (rest = [] → none ∉ rows)

def HeadReadable : Prop :=
  requiredAt engine peer "&((struct module *)0)->list" = .ok guest.offset ∧
    requiredAt engine peer "&modules" = .ok guest.head ∧
    requiredAt engine peer "modules.next" = .ok (guest.first guest.nodes)

end Reading

section Walking

variable {engine : Engine} {peer : Peer} {guest : GuestModules}

def Categorized {α : Type} (value : Except Raised α) : Prop :=
  ∀ e, value = .error e → ∃ c, e = .categorized c

theorem categorized_bind {α β : Type} {value : Except Raised α} {next : α → Except Raised β}
    (first : Categorized value) (second : ∀ x, Categorized (next x)) :
    Categorized (value >>= next) := by
  cases value with
  | ok x => exact second x
  | error e =>
    intro f raised
    obtain rfl := Except.error.inj raised
    exact first e rfl

theorem categorized_reply (command : Text) : Categorized (reply engine peer command) := by
  intro e failed
  rw [reply] at failed
  split at failed
  · rw [replyOrError] at failed
    split at failed
    · split at failed
      · exact ⟨_, (Except.error.inj failed).symm⟩
      · cases failed
    · cases failed
  · exact ⟨_, (Except.error.inj failed).symm⟩

theorem categorized_handled {α : Type} {value : Except Raised α}
    {handler : CategorizedError → Except Raised α} (first : Categorized value)
    (second : ∀ e, Categorized (handler e)) : Categorized (handled value handler) := by
  cases value with
  | ok x => exact first
  | error e =>
    obtain ⟨c, rfl⟩ := first e rfl
    exact second c

theorem categorized_error {α : Type} (e : CategorizedError) :
    Categorized (.error (.categorized e) : Except Raised α) :=
  fun _ raised => ⟨e, (Except.error.inj raised).symm⟩

theorem categorized_ok {α : Type} (x : α) : Categorized (.ok x : Except Raised α) :=
  fun _ raised => absurd raised nofun

theorem categorized_requiredAt (expr : String) : Categorized (requiredAt engine peer expr) := by
  refine categorized_bind (categorized_handled (categorized_reply _)
    (fun e => categorized_error _)) (fun records => ?_)
  split
  · exact categorized_ok _
  · exact categorized_error _

theorem categorized_decodedAt {α : Type} (expr : Text) (decode : Text → Option α) :
    Categorized (decodedAt engine peer expr decode) := by
  refine categorized_handled (categorized_bind (categorized_reply _) (fun _ => categorized_ok _)) ?_
  intro e
  split
  · exact categorized_error _
  · exact categorized_ok _

theorem categorized_firstBaseAt (modulePtr : Nat) (candidates : List String) :
    Categorized (firstBaseAt engine peer modulePtr candidates) := by
  induction candidates with
  | nil => exact categorized_error _
  | cons candidate rest ih =>
    refine categorized_bind (categorized_decodedAt _ _) (fun base => ?_)
    cases base with
    | some base => exact categorized_ok _
    | none => exact ih

theorem categorized_rowAt (offset : Nat) (baseField : String) (node : Nat) :
    Categorized (rowAt engine peer offset baseField node) := by
  refine categorized_bind (categorized_decodedAt _ _) (fun name => ?_)
  refine categorized_bind ?_ (fun base => categorized_ok _)
  rw [baseAt]
  split
  · exact categorized_bind (categorized_decodedAt _ _) (fun _ => categorized_ok _)
  · exact categorized_firstBaseAt _ _

theorem categorized_walkFrom (offset head left node : Nat) (baseField : String) (walk : Walk) :
    Categorized (walkFrom engine peer offset head left node baseField walk) := by
  induction left generalizing node baseField walk with
  | zero => exact categorized_ok _
  | succ left ih =>
    rw [walkFrom]
    split
    · exact categorized_ok _
    · refine categorized_bind (categorized_rowAt _ _ _) (fun row => ?_)
      refine categorized_bind (categorized_decodedAt _ _) (fun next => ?_)
      cases next with
      | none => exact categorized_ok _
      | some next =>
        dsimp only
        split
        · exact categorized_ok _
        · exact ih _ _ _

theorem categorized_walkAt (limit : Nat) : Categorized (walkAt engine peer limit) := by
  refine categorized_bind (categorized_requiredAt _) (fun offset => ?_)
  refine categorized_bind (categorized_requiredAt _) (fun head => ?_)
  refine categorized_bind (categorized_requiredAt _) (fun node => ?_)
  exact categorized_walkFrom _ _ _ _ _ _

@[simp] theorem Walk.put_rows (walk : Walk) (row : Option ModuleRow) :
    (walk.put row).rows = walk.rows ++ row.toList := by
  cases row with
  | none => exact (List.append_nil _).symm
  | some row => rfl

@[simp] theorem Walk.put_truncated (walk : Walk) (row : Option ModuleRow) :
    (walk.put row).truncated = walk.truncated := by
  cases row <;> rfl

@[simp] theorem Walk.put_decodeErrors (walk : Walk) (row : Option ModuleRow) :
    (walk.put row).decodeErrors = walk.decodeErrors + [row].count none := by
  cases row <;> rfl

theorem rowsAt_cons {offset : Nat} {baseField : String} {node : Nat} {rest : List Nat}
    {rows : List (Option ModuleRow)} :
    rowsAt engine peer offset baseField (node :: rest) = .ok rows ↔
      ∃ row later, rowAt engine peer offset baseField node = .ok row ∧
        rowsAt engine peer offset row.2 rest = .ok later ∧ rows = row.1 :: later := by
  rw [rowsAt]
  cases first : rowAt engine peer offset baseField node with
  | error e => exact ⟨fun read => absurd read nofun, fun ⟨_, _, read, _⟩ => absurd read nofun⟩
  | ok row =>
    change (rowsAt engine peer offset row.2 rest >>= fun rows => .ok (row.1 :: rows)) = .ok rows ↔ _
    cases tail : rowsAt engine peer offset row.2 rest with
    | error e =>
      refine ⟨fun read => absurd read nofun, ?_⟩
      rintro ⟨row', _, same, read, -⟩
      obtain rfl := Except.ok.inj same
      rw [tail] at read
      cases read
    | ok later =>
      constructor
      · intro read
        exact ⟨row, later, rfl, tail, (Except.ok.inj read).symm⟩
      · rintro ⟨row', later', same, read, rfl⟩
        obtain rfl := Except.ok.inj same
        rw [tail] at read
        rw [← Except.ok.inj read]
        rfl

theorem filterMap_id_cons (row : Option ModuleRow) (rows : List (Option ModuleRow)) :
    (row :: rows).filterMap id = row.toList ++ rows.filterMap id := by
  cases row <;> rfl

theorem count_none_cons (row : Option ModuleRow) (rows : List (Option ModuleRow)) :
    (row :: rows).count none = [row].count none + rows.count none := by
  rw [← List.singleton_append, List.count_append]

structure Walked (engine : Engine) (peer : Peer) (offset : Nat) (baseField : String) (left : Nat)
    (walk w : Walk) (taken missed : List Nat) (rows : List (Option ModuleRow)) : Prop where
  read : rowsAt engine peer offset baseField taken = .ok rows
  kept : w.rows = walk.rows ++ rows.filterMap id
  errors : w.decodeErrors = walk.decodeErrors + rows.count none
  bounded : taken.length ≤ left
  ending : (missed = [] ∧ w.truncated = false ∧ ∀ m ∈ taken, Leads engine peer m) ∨
    (missed ≠ [] ∧ w.truncated = true) ∨
    (w.truncated = false ∧ ∃ before node, taken = before ++ [node] ∧ DeadEnd engine peer node ∧
      ∀ m ∈ before, Leads engine peer m)

theorem Walked.one {offset left node : Nat} {baseField : String} {walk : Walk}
    {row : Option ModuleRow × String} {rest : List Nat}
    (read : rowAt engine peer offset baseField node = .ok row) (open' : walk.truncated = false)
    (dead : DeadEnd engine peer node) :
    Walked engine peer offset baseField (left + 1) walk (walk.put row.1) [node] rest [row.1] := by
  refine ⟨?_, ?_, ?_, ?_, .inr (.inr ⟨?_, [], node, rfl, dead, ?_⟩)⟩
  · exact rowsAt_cons.mpr ⟨row, [], read, rfl, rfl⟩
  · rw [Walk.put_rows, filterMap_id_cons]
    simp
  · exact Walk.put_decodeErrors walk row.1
  · simp
  · rw [Walk.put_truncated, open']
  · exact fun m member => absurd member List.not_mem_nil

theorem Walked.cons {offset left node : Nat} {baseField : String} {walk w : Walk}
    {row : Option ModuleRow × String} {taken missed : List Nat} {rows : List (Option ModuleRow)}
    (read : rowAt engine peer offset baseField node = .ok row) (leads : Leads engine peer node)
    (walked : Walked engine peer offset row.2 left (walk.put row.1) w taken missed rows) :
    Walked engine peer offset baseField (left + 1) walk w (node :: taken) missed (row.1 :: rows) := by
  refine ⟨rowsAt_cons.mpr ⟨row, rows, read, walked.read, rfl⟩, ?_, ?_, ?_, ?_⟩
  · rw [walked.kept, Walk.put_rows, filterMap_id_cons, List.append_assoc]
  · rw [walked.errors, Walk.put_decodeErrors, count_none_cons row.1 rows, Nat.add_assoc]
  · have := walked.bounded
    rw [List.length_cons]
    omega
  · rcases walked.ending with ⟨all, open', led⟩ | limited | ⟨open', before, last, rfl, dead, led⟩
    · exact .inl ⟨all, open', List.forall_mem_cons.mpr ⟨leads, led⟩⟩
    · exact .inr (.inl limited)
    · exact .inr (.inr ⟨open', node :: before, last, rfl, dead,
        List.forall_mem_cons.mpr ⟨leads, led⟩⟩)

theorem first_eq_head (rest : List Nat) {before : List Nat}
    (whole : guest.nodes = before ++ rest) : guest.first rest = guest.head ↔ rest = [] := by
  cases rest with
  | nil => exact iff_of_true rfl rfl
  | cons node rest =>
    refine iff_of_false ?_ nofun
    intro same
    have member : guest.first (node :: rest) ∈ guest.nodes := by
      rw [whole]
      exact List.mem_append_right _ List.mem_cons_self
    rw [same] at member
    exact guest.apart member

theorem walkFrom_ok (presents : Presents engine peer guest) {offset left : Nat}
    {before rest : List Nat} {baseField : String} {walk w : Walk}
    (whole : guest.nodes = before ++ rest) (open' : walk.truncated = false)
    (done : walkFrom engine peer offset guest.head left (guest.first rest) baseField walk = .ok w) :
    ∃ taken missed rows, rest = taken ++ missed ∧
      Walked engine peer offset baseField left walk w taken missed rows := by
  induction left generalizing before rest baseField walk with
  | zero =>
    rw [walkFrom, Except.ok.injEq] at done
    subst done
    refine ⟨[], rest, [], rfl, rfl, by simp, by simp, le_rfl, ?_⟩
    by_cases empty : rest = []
    · refine .inl ⟨empty, ?_, fun m member => absurd member List.not_mem_nil⟩
      exact decide_eq_false (not_not.mpr ((first_eq_head rest whole).mpr empty))
    · exact .inr (.inl ⟨empty, decide_eq_true
        (fun same => empty ((first_eq_head rest whole).mp same))⟩)
  | succ left ih =>
    rw [walkFrom] at done
    cases rest with
    | nil =>
      rw [if_pos (show guest.first [] = guest.head from rfl), Except.ok.injEq] at done
      subst done
      exact ⟨[], [], [], rfl, rfl, by simp, by simp, Nat.zero_le _,
        .inl ⟨rfl, open', fun m member => absurd member List.not_mem_nil⟩⟩
    | cons node rest =>
      rw [if_neg (fun same => by cases (first_eq_head _ whole).mp same)] at done
      change (rowAt engine peer offset baseField node >>= _) = _ at done
      cases read : rowAt engine peer offset baseField node with
      | error e =>
        rw [read] at done
        cases done
      | ok row =>
        rw [read] at done
        change (nextAt engine peer node >>= _) = _ at done
        cases next : nextAt engine peer node with
        | error e =>
          rw [next] at done
          cases done
        | ok found =>
          rw [next] at done
          cases found with
          | none =>
            obtain rfl := Except.ok.inj done
            exact ⟨[node], rest, [row.1], rfl, .one read open' (.inl next)⟩
          | some v =>
            dsimp only [bind, Except.bind] at done
            split at done
            · rename_i itself
              obtain rfl := Except.ok.inj done
              rw [show guest.first (node :: rest) = node from rfl] at itself
              rw [itself] at next
              exact ⟨[node], rest, [row.1], rfl, .one read open' (.inr next)⟩
            · rename_i other
              have on : v = guest.first rest :=
                (presents.next before node rest whole v next).resolve_left other
              rw [on] at done
              have later : guest.nodes = (before ++ [node]) ++ rest := by
                rw [whole, List.append_assoc, List.singleton_append]
              obtain ⟨taken, missed, rows, rfl, walked⟩ :=
                ih later (by rw [Walk.put_truncated, open']) done
              exact ⟨node :: taken, missed, row.1 :: rows, rfl, walked.cons read ⟨v, next, other⟩⟩

theorem walkFrom_deadEnd (presents : Presents engine peer guest) {offset left node : Nat}
    {front before rest : List Nat} {baseField : String} {walk : Walk}
    {rows : List (Option ModuleRow)} (whole : guest.nodes = front ++ (before ++ node :: rest))
    (led : ∀ m ∈ before, Leads engine peer m) (within : before.length < left)
    (dead : DeadEnd engine peer node)
    (read : rowsAt engine peer offset baseField (before ++ [node]) = .ok rows) :
    ∃ w, walkFrom engine peer offset guest.head left (guest.first (before ++ node :: rest))
        baseField walk = .ok w ∧ w.truncated = walk.truncated ∧
      w.rows = walk.rows ++ rows.filterMap id ∧
      w.decodeErrors = walk.decodeErrors + rows.count none := by
  obtain ⟨left, rfl⟩ : ∃ k, left = k + 1 := ⟨left - 1, by omega⟩
  rw [walkFrom, if_neg (fun same => by simpa using (first_eq_head _ whole).mp same)]
  induction before generalizing front left baseField walk rows with
  | nil =>
    obtain ⟨row, later, first, none', rfl⟩ := rowsAt_cons.mp read
    obtain rfl := Except.ok.inj none'
    refine ⟨walk.put row.1, ?_, Walk.put_truncated walk row.1, ?_, Walk.put_decodeErrors walk row.1⟩
    · change (rowAt engine peer offset baseField node >>= _) = _
      rw [first]
      change (nextAt engine peer node >>= _) = _
      rcases dead with unread | itself
      · rw [unread]
        rfl
      · rw [itself]
        exact if_pos rfl
    · rw [Walk.put_rows, filterMap_id_cons]
      simp
  | cons m before ih =>
    obtain ⟨row, later, first, tail, rfl⟩ := rowsAt_cons.mp read
    obtain ⟨v, next, other⟩ := led m List.mem_cons_self
    have on : v = guest.first (before ++ node :: rest) :=
      (presents.next front m (before ++ node :: rest) whole v next).resolve_left other
    have later' : guest.nodes = (front ++ [m]) ++ (before ++ node :: rest) := by
      rw [whole, List.append_assoc]
      rfl
    obtain ⟨left, rfl⟩ : ∃ k, left = k + 1 := by
      rw [List.length_cons] at within
      exact ⟨left - 1, by omega⟩
    obtain ⟨w, ran, open', kept, errors⟩ := @ih (front ++ [m]) row.2 (walk.put row.1) later later'
      (fun x member => led x (List.mem_cons_of_mem m member)) tail left
      (by rw [List.length_cons] at within; omega)
    refine ⟨w, ?_, open'.trans (Walk.put_truncated walk row.1), ?_, ?_⟩
    · change (rowAt engine peer offset baseField m >>= _) = _
      rw [first]
      change (nextAt engine peer m >>= _) = _
      rw [next]
      change (if v = m then _ else walkFrom engine peer offset guest.head (left + 1) v row.2
        (walk.put row.1)) = _
      rw [if_neg other, on, walkFrom,
        if_neg (fun same => by simpa using (first_eq_head _ later').mp same)]
      exact ran
    · rw [kept, Walk.put_rows, filterMap_id_cons, List.append_assoc]
    · rw [errors, Walk.put_decodeErrors, count_none_cons row.1 later, Nat.add_assoc]

theorem walkAt_readable (presents : Presents engine peer guest) {limit : Nat} {w : Walk}
    (done : walkAt engine peer limit = .ok w) : HeadReadable engine peer guest ∧
      walkFrom engine peer guest.offset guest.head limit (guest.first guest.nodes) "" {} = .ok w := by
  rw [walkAt] at done
  cases offset : requiredAt engine peer "&((struct module *)0)->list" with
  | error e =>
    rw [offset] at done
    cases done
  | ok o =>
    cases head : requiredAt engine peer "&modules" with
    | error e =>
      rw [offset, head] at done
      cases done
    | ok h =>
      cases first : requiredAt engine peer "modules.next" with
      | error e =>
        rw [offset, head, first] at done
        cases done
      | ok f =>
        obtain rfl := presents.offset o offset
        obtain rfl := presents.head h head
        obtain rfl := presents.first f first
        rw [offset, head, first] at done
        exact ⟨⟨offset, head, first⟩, done⟩

theorem walkAt_of_readable {limit : Nat} (readable : HeadReadable engine peer guest) :
    walkAt engine peer limit =
      walkFrom engine peer guest.offset guest.head limit (guest.first guest.nodes) "" {} := by
  obtain ⟨offset, head, first⟩ := readable
  rw [walkAt, offset, head, first]
  rfl

theorem listed_modules (loaded : List Text) (walk : Walk) :
    (listed engine loaded walk).modules.map (fun m => (m.name, m.baseAddress)) =
      walk.rows.map (fun row => (engine.redactText row.1, engine.redactText (hex row.2.1))) := by
  rw [listed, List.map_map]
  rfl

theorem length_rowsAt {offset : Nat} {nodes : List Nat} {baseField : String}
    {rows : List (Option ModuleRow)}
    (read : rowsAt engine peer offset baseField nodes = .ok rows) : rows.length = nodes.length := by
  induction nodes generalizing baseField rows with
  | nil =>
    obtain rfl := Except.ok.inj read
    rfl
  | cons node rest ih =>
    obtain ⟨row, later, -, tail, rfl⟩ := rowsAt_cons.mp read
    rw [List.length_cons, List.length_cons, ih tail]

theorem length_rows (rows : List (Option ModuleRow)) :
    (rows.filterMap id).length + rows.count none = rows.length := by
  induction rows with
  | nil => rfl
  | cons row rows ih =>
    rw [filterMap_id_cons, count_none_cons row rows, List.length_append, List.length_cons]
    cases row with
    | none =>
      simp only [Option.toList_none, List.length_nil, List.count_singleton_self]
      omega
    | some row =>
      have other : [some row].count none = 0 := by simp
      simp only [Option.toList_some, List.length_singleton, other]
      omega

theorem Leads.not_deadEnd {node : Nat} (leads : Leads engine peer node) :
    ¬ DeadEnd engine peer node := by
  obtain ⟨v, next, other⟩ := leads
  rintro (unread | itself)
  · rw [next] at unread
    exact absurd (Except.ok.inj unread) nofun
  · rw [next] at itself
    exact other (Option.some.inj (Except.ok.inj itself))

end Walking

section Listing

variable {engine : Engine} {peer : Peer} {guest : GuestModules}

theorem listed_length {loaded : List Text} {w : Walk} {rows : List (Option ModuleRow)}
    (kept : w.rows = rows.filterMap id) (errors : w.decodeErrors = rows.count none) :
    (listed engine loaded w).modules.length + (listed engine loaded w).decodeErrors =
      rows.length := by
  rw [← length_rows rows, ← kept, ← errors, listed, List.length_map]

theorem reports_of_walked {limit : Int} {loaded : List Text} {w : Walk} {taken missed : List Nat}
    {rows : List (Option ModuleRow)} (whole : guest.nodes = taken ++ missed)
    (walked : Walked engine peer guest.offset "" limit.toNat {} w taken missed rows)
    (seen : ∀ before node rest, ¬ Hidden engine peer guest limit before node rest) :
    Reports engine peer guest limit (listed engine loaded w) := by
  have kept : w.rows = rows.filterMap id := walked.kept
  have errors : w.decodeErrors = rows.count none := by
    rw [walked.errors]
    exact Nat.zero_add _
  have complete (all : missed = []) : ∃ rows, rowsAt engine peer guest.offset "" guest.nodes =
      .ok rows ∧ (listed engine loaded w).decodeErrors = rows.count none ∧
        (listed engine loaded w).modules.map (fun m => (m.name, m.baseAddress)) =
          (rows.filterMap id).map
            (fun row => (engine.redactText row.1, engine.redactText (hex row.2.1))) := by
    refine ⟨rows, ?_, errors, ?_⟩
    · rw [whole, all, List.append_nil]
      exact walked.read
    · rw [listed_modules, kept]
  -- a dead end that is not hidden is the last node, and something before it was not decoded
  have tells (before : List Nat) (node : Nat) (split : taken = before ++ [node])
      (dead : DeadEnd engine peer node) (led : ∀ m ∈ before, Leads engine peer m) :
      missed = [] ∧ none ∈ rows := by
    have within : before.length < limit.toNat := by
      have := walked.bounded
      rw [split, List.length_append] at this
      exact this
    have here : guest.nodes = before ++ node :: missed := by
      rw [whole, split, List.append_assoc]
      rfl
    by_contra unseen
    refine seen before node missed ⟨here, led, within, dead, rows, split ▸ walked.read, ?_⟩
    intro all member
    exact unseen ⟨all, member⟩
  refine ⟨?_, ?_, ?_⟩
  · rw [listed_length kept errors, length_rowsAt walked.read]
    exact walked.bounded
  · intro open'
    rcases walked.ending with ⟨all, -, -⟩ | ⟨-, limited⟩ | ⟨-, before, node, split, dead, led⟩
    · exact complete all
    · exact absurd (open'.symm.trans limited) nofun
    · exact complete (tells before node split dead led).1
  · intro before node rest stop
    rcases walked.ending with ⟨all, -, led⟩ | ⟨-, limited⟩ | ⟨-, front, last, split, dead, led⟩
    · rw [all, List.append_nil] at whole
      have member : node ∈ taken := by
        rw [← whole, stop.whole]
        exact List.mem_append_right _ List.mem_cons_self
      rcases stop.stops with reached | ⟨-, deadEnd⟩
      · have size := walked.bounded
        rw [← whole, stop.whole, List.length_append, List.length_cons] at size
        omega
      · exact absurd deadEnd (led node member).not_deadEnd
    · exact .inl limited
    · right
      have member := (tells front last split dead led).2
      change w.decodeErrors ≠ 0
      rw [errors]
      exact Nat.pos_iff_ne_zero.mp (List.count_pos_iff.mpr member)

/-- A listing accounts for the guest's modules exactly when the walk is not ended by a next pointer
of no use that nothing in the listing shows. -/
theorem listModules_accounts_iff (engine : Engine) (peer : Peer) (guest : GuestModules) (limit : Int)
    (a : Attachment) (presents : Presents engine peer guest) :
    Accounts engine peer guest limit (Op.on peer (listModules engine limit) a).1.1 ↔
      ¬ (HeadReadable engine peer guest ∧
        ∃ before node rest, Hidden engine peer guest limit before node rest) := by
  obtain ⟨a', commands, came, -⟩ := @listModules_on engine peer limit a
  rw [came]
  dsimp only
  constructor
  · rintro accounts ⟨readable, before, node, rest, hidden⟩
    obtain ⟨rows, read, quiet⟩ := hidden.read
    obtain ⟨w, ran, open', kept, errors⟩ := @walkFrom_deadEnd engine peer guest presents _ _ _ []
      before rest "" {} rows hidden.whole hidden.led hidden.within hidden.deadEnd read
    rw [← hidden.whole, ← walkAt_of_readable readable] at ran
    rw [ran] at accounts
    have kept' : w.rows = rows.filterMap id := kept
    have errors' : w.decodeErrors = rows.count none := by
      rw [errors]
      exact Nat.zero_add _
    have size := @listed_length engine a.loadedModules w rows kept' errors'
    rcases accounts with ⟨e, raised⟩ | ⟨list, returned, reports⟩
    · cases raised
    obtain rfl := Except.ok.inj returned
    obtain ⟨all, readAll, errorsAll, modulesAll⟩ := reports.complete open'
    have sizeAll : (listed engine a.loadedModules w).modules.length +
        (listed engine a.loadedModules w).decodeErrors = guest.nodes.length := by
      have modules := congrArg List.length modulesAll
      rw [List.length_map, List.length_map] at modules
      rw [modules, errorsAll, length_rows, length_rowsAt readAll]
    have last : rest = [] := by
      rw [sizeAll, hidden.whole, length_rowsAt read] at size
      simp only [List.length_append, List.length_cons, List.length_nil] at size
      exact List.eq_nil_of_length_eq_zero (by omega)
    rcases reports.visible before node rest ⟨hidden.whole, hidden.led, .inr ⟨hidden.within,
      hidden.deadEnd⟩⟩ with truncated | undecoded
    · exact absurd (open'.symm.trans truncated) nofun
    · refine undecoded ?_
      change w.decodeErrors = 0
      rw [errors', List.count_eq_zero]
      exact quiet last
  · intro seen
    cases walked : walkAt engine peer limit.toNat with
    | error e =>
      obtain ⟨c, rfl⟩ := categorized_walkAt _ e walked
      exact .inl ⟨c, rfl⟩
    | ok w =>
      obtain ⟨readable, ran⟩ := walkAt_readable presents walked
      obtain ⟨taken, missed, rows, whole, done⟩ :=
        @walkFrom_ok engine peer guest presents _ _ [] guest.nodes "" {} w rfl rfl ran
      refine .inr ⟨_, rfl, reports_of_walked whole done ?_⟩
      intro before node rest hidden
      exact seen ⟨readable, before, node, rest, hidden⟩

end Listing

section Samples

def valueReply (value : String) : List GdbRecord :=
  [.result .done (some (.dict [("value".toList, .text value.toList)]))]

def memoryError : List GdbRecord :=
  [.result .error (some (.dict [("msg".toList, .text "Cannot access memory".toList)]))]

def evaluates (values : List (String × String)) : Peer := fun command =>
  match values.find? (fun v => evalCommand v.1.toList = command) with
  | some v => some (valueReply v.2)
  | none => some memoryError

def twoModules : GuestModules where
  offset := 8
  head := 0x100
  nodes := [0x208, 0x308]
  distinct := by decide
  apart := by decide

def twoModulesValues : List (String × String) :=
  [("&((struct module *)0)->list", "(struct list_head *) 0x8"),
    ("&modules", "(struct list_head *) 0x100 <modules>"),
    ("modules.next", "(struct list_head *) 0x208"),
    ("((struct module *)0x200)->name", "\"ext4\""),
    ("((struct module *)0x200)->mem[0].base", "(void *) 0xf000"),
    ("((struct module *)0x300)->name", "\"e1000\""),
    ("((struct module *)0x300)->mem[0].base", "(void *) 0xf400"),
    ("((struct list_head *)0x308)->next", "(struct list_head *) 0x100 <modules>")]

def wholeList : Peer :=
  evaluates (("((struct list_head *)0x208)->next", "(struct list_head *) 0x308") :: twoModulesValues)

def brokenList : Peer := evaluates twoModulesValues

theorem eq_ok_of_toOption {α : Type} {value : Except Raised α} {x : α}
    (found : value.toOption = some x) : value = .ok x := by
  cases value with
  | ok y => exact congrArg Except.ok (Option.some.inj found)
  | error e => cases found

theorem twoModules_presents {peer : Peer}
    (offset : (requiredAt plain peer "&((struct module *)0)->list").toOption = some 8)
    (head : (requiredAt plain peer "&modules").toOption = some 0x100)
    (first : (requiredAt plain peer "modules.next").toOption = some 0x208)
    (next : (nextAt plain peer 0x208).toOption = some none ∨
      (nextAt plain peer 0x208).toOption = some (some 0x308))
    (last : (nextAt plain peer 0x308).toOption = some (some 0x100)) :
    Presents plain peer twoModules := by
  refine ⟨fun v read => ?_, fun v read => ?_, fun v read => ?_, ?_⟩
  · rw [eq_ok_of_toOption offset] at read
    exact (Except.ok.inj read).symm
  · rw [eq_ok_of_toOption head] at read
    exact (Except.ok.inj read).symm
  · rw [eq_ok_of_toOption first] at read
    exact (Except.ok.inj read).symm
  · intro before node rest whole v read
    match before with
    | [] =>
      obtain ⟨rfl, rfl⟩ := List.cons.inj whole
      rcases next with unread | next
      · rw [eq_ok_of_toOption unread] at read
        exact absurd (Except.ok.inj read) nofun
      · rw [eq_ok_of_toOption next] at read
        exact .inr (Option.some.inj (Except.ok.inj read)).symm
    | [a] =>
      obtain ⟨-, whole⟩ := List.cons.inj whole
      obtain ⟨rfl, rfl⟩ := List.cons.inj whole
      rw [eq_ok_of_toOption last] at read
      exact .inr (Option.some.inj (Except.ok.inj read)).symm
    | a :: b :: more =>
      have size := congrArg List.length whole
      simp only [twoModules, List.length_cons, List.length_nil, List.length_append] at size
      omega

theorem wholeList_presents : Presents plain wholeList twoModules :=
  twoModules_presents (by decide +kernel) (by decide +kernel) (by decide +kernel)
    (.inr (by decide +kernel)) (by decide +kernel)

/-- Every node leads on, so the listing of both modules accounts for the guest's. -/
theorem wholeList_accounts :
    Accounts plain wholeList twoModules 512
      (Op.on wholeList (listModules plain 512) {}).1.1 := by
  refine (listModules_accounts_iff plain wholeList twoModules 512 {} wholeList_presents).mpr ?_
  rintro ⟨-, before, node, rest, hidden⟩
  have leads : ∀ m ∈ twoModules.nodes, Leads plain wholeList m := by
    intro m member
    rcases List.mem_cons.mp member with rfl | member
    · exact ⟨0x308, eq_ok_of_toOption (by decide +kernel), by decide⟩
    · rw [List.mem_singleton.mp member]
      exact ⟨0x100, eq_ok_of_toOption (by decide +kernel), by decide⟩
  have member : node ∈ twoModules.nodes := by
    rw [hidden.whole]
    exact List.mem_append_right _ List.mem_cons_self
  exact (leads node member).not_deadEnd hidden.deadEnd

/-- The next pointer of the first of two nodes cannot be read: one module is listed, the listing is
not truncated and nothing is counted as undecoded. -/
theorem brokenList_unaccounted :
    Presents plain brokenList twoModules ∧
    (Op.on brokenList (listModules plain 512) {}).1.1 = .ok
      { modules := [{ name := "ext4".toList, baseAddress := "0xf000".toList, symbolsLoaded := false }]
        truncated := false
        decodeErrors := 0 } ∧
    ¬ Accounts plain brokenList twoModules 512
      (Op.on brokenList (listModules plain 512) {}).1.1 := by
  have outcome : (Op.on brokenList (listModules plain 512) {}).1.1 = .ok
      { modules := [{ name := "ext4".toList, baseAddress := "0xf000".toList, symbolsLoaded := false }]
        truncated := false
        decodeErrors := 0 } := eq_ok_of_toOption (by decide +kernel)
  refine ⟨twoModules_presents (by decide +kernel) (by decide +kernel) (by decide +kernel)
    (.inl (by decide +kernel)) (by decide +kernel), outcome, ?_⟩
  rw [outcome]
  rintro (⟨e, raised⟩ | ⟨list, returned, reports⟩)
  · cases raised
  obtain rfl := Except.ok.inj returned
  obtain ⟨rows, read, errors, modules⟩ := reports.complete rfl
  have size := length_rows rows
  have modules' := congrArg List.length modules
  rw [length_rowsAt read] at size
  rw [List.length_map, List.length_map] at modules'
  rw [← modules', ← errors] at size
  exact absurd size (by decide)

end Samples

end Kdive.Debug
