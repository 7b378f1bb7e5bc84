import Kdive.Images.Catalog
import Kdive.Lib.Keyset
import Kdive.Mcp.Cursor

/-!
`images.list`: the rows a caller sees, a page at a time in the order of provider, name and
architecture. The order of texts is the database's, and it is free to return rows that share these
three in any order.
-/
namespace Kdive.Images
open JsonText (Str str Interpreter)
open Mcp (CursorError encodeCursor decodeCursor clampListLimit paginate)

structure StoredCatalog where
  catalog : Catalog
  objectPresent : ∀ row ∈ catalog.rows, row.state = .defined → row.objectKey = none
  privateOwner : ∀ row ∈ catalog.rows, row.visibility = .privateImage ↔ row.owner.isSome
  privateExpiry : ∀ row ∈ catalog.rows, row.visibility = .privateImage ↔ row.expiresAt.isSome
  publicationAttempt : ∀ row ∈ catalog.rows, row.state = .pending ↔ row.attempt.isSome
  onePublic : ∀ a ∈ catalog.rows, ∀ b ∈ catalog.rows, a.state = .registered →
    b.state = .registered → a.visibility = .publicImage → b.visibility = .publicImage →
    a.provider = b.provider → a.name = b.name → a.arch = b.arch → a.id = b.id
  onePrivate : ∀ a ∈ catalog.rows, ∀ b ∈ catalog.rows, a.state = .registered →
    b.state = .registered → a.visibility = .privateImage → b.visibility = .privateImage →
    a.owner = b.owner → a.provider = b.provider → a.name = b.name → a.id = b.id
  oneDefined : ∀ a ∈ catalog.rows, ∀ b ∈ catalog.rows, a.state = .defined →
    b.state = .defined → a.visibility = .publicImage → b.visibility = .publicImage →
    a.provider = b.provider → a.name = b.name → a.arch = b.arch → a.id = b.id
  /-- A text column holds no NUL. -/
  noNul : ∀ row ∈ catalog.rows, ∀ text ∈ [row.provider, row.name, row.arch], 0 ∉ str text

inductive ImageListScope
  | visible
  | publicBaseline
  deriving DecidableEq

structure ImagesListRequest where
  scope : ImageListScope := .visible
  limit : Int := Mcp.defaultListLimit
  cursor : Option Str := none

/-- `_VISIBLE_PREDICATE` and `_PUBLIC_BASELINE_PREDICATE`. -/
def CatalogRow.listed (projects : List String) (row : CatalogRow) : ImageListScope → Bool
  | .visible => row.visibility == .publicImage ||
      row.visibility == .privateImage && row.owner.any (fun owner => decide (owner ∈ projects))
  | .publicBaseline => row.visibility == .publicImage

def StoredCatalog.visible (stored : StoredCatalog) (projects : List String)
    (scope : ImageListScope) : List CatalogRow :=
  stored.catalog.rows.filter (fun row => row.listed projects scope)

def Collated (_ : LinearOrder Str) : Type := Str

instance (collation : LinearOrder Str) : LinearOrder (Collated collation) := collation

abbrev SortKey (collation : LinearOrder Str) : Type :=
  Collated collation ×ₗ Collated collation ×ₗ Collated collation

def listTag : Str := str "images.list"

def CatalogRow.keyParts (row : CatalogRow) : List Str :=
  [str row.provider, str row.name, str row.arch]

structure Page where
  items : List CatalogRow
  truncated : Bool
  nextCursor : Option Str

inductive ListResponse
  | page (page : Page)
  | invalidCursor

/-- The stack is used up, or the driver refuses a parameter that is no text of the database. -/
inductive ListFailure
  | recursionError
  | badParameter
  deriving DecidableEq

section Listing

variable (collation : LinearOrder Str)

def rowKey (provider name arch : Str) : SortKey collation := toLex (provider, toLex (name, arch))

def CatalogRow.sortKey (row : CatalogRow) : SortKey collation :=
  rowKey collation (str row.provider) (str row.name) (str row.arch)

def sendable (text : Str) : Bool := text.all (fun c => decide (c ≠ 0 ∧ JsonText.Scalar c))

def afterParts (interpreter : Interpreter) : Option Str → Except CursorError (Option (List Str))
  | none => .ok none
  | some [] => .ok none
  | some cursor => (decodeCursor interpreter listTag cursor 3).map some

def afterKey : List Str → Except ListFailure (SortKey collation)
  | [p, n, a] =>
    if sendable p && sendable n && sendable a then .ok (rowKey collation p n a)
    else .error .badParameter
  | _ => .error .badParameter

def nextCursor (kept : List CatalogRow) (truncated : Bool) : Option Str :=
  if truncated then kept.getLast?.map (fun row => encodeCursor listTag row.keyParts) else none

def respond (capped : Nat) (rows : List CatalogRow) : Page :=
  let kept := (paginate rows capped).1
  let truncated := (paginate rows capped).2
  ⟨kept, truncated, nextCursor kept truncated⟩

variable (interpreter : Interpreter)
  (arrangement : Keyset.Arrangement (CatalogRow.sortKey collation)) (stored : StoredCatalog)
  (projects : List String)

def selectPage (scope : ImageListScope) (after : Option (SortKey collation)) (capped : Nat) :
    List CatalogRow :=
  Keyset.fetch (CatalogRow.sortKey collation) arrangement (stored.visible projects scope) capped
    after

def listImages (request : ImagesListRequest) : Except ListFailure ListResponse :=
  let capped := clampListLimit request.limit
  match afterParts interpreter request.cursor with
  | .error .invalidCursor => .ok .invalidCursor
  | .error .recursionError => .error .recursionError
  | .ok none =>
    .ok (.page (respond capped (selectPage collation arrangement stored projects request.scope none
      capped)))
  | .ok (some parts) => do
    let after ← afterKey collation parts
    return .page (respond capped (selectPage collation arrangement stored projects request.scope
      (some after) capped))

def follow (scope : ImageListScope) (limit : Int) : Nat → Option Str → Option (List CatalogRow)
  | 0, _ => none
  | turns + 1, cursor =>
    match listImages collation interpreter arrangement stored projects ⟨scope, limit, cursor⟩ with
    | .ok (.page page) =>
      match page.nextCursor with
      | none => some page.items
      | some next => (follow scope limit turns (some next)).map (page.items ++ ·)
    | _ => none

variable {collation interpreter arrangement stored projects}

theorem encodeCursor_ne_nil {toolTag : Str} {parts : List Str} (tag : Mcp.Plain toolTag)
    (plain : ∀ part ∈ parts, Mcp.Plain part) : encodeCursor toolTag parts ≠ [] := by
  intro empty
  have read := Mcp.decodeCursor_encodeCursor ⟨2, Nat.le_refl 2⟩ tag plain
  rw [empty] at read
  cases read

theorem CatalogRow.plain_keyParts (row : CatalogRow) : ∀ part ∈ row.keyParts, Mcp.Plain part := by
  intro part inside
  simp only [keyParts, List.mem_cons, List.not_mem_nil, or_false] at inside
  rcases inside with rfl | rfl | rfl <;> exact Mcp.plain_of_string _

theorem afterParts_keyParts (row : CatalogRow) :
    afterParts interpreter (some (encodeCursor listTag row.keyParts)) = .ok (some row.keyParts) := by
  have tag : Mcp.Plain listTag := Mcp.plain_of_string "images.list"
  have read := Mcp.decodeCursor_encodeCursor interpreter tag row.plain_keyParts
  have filled := encodeCursor_ne_nil tag row.plain_keyParts
  unfold afterParts
  split
  · simp_all
  · simp_all
  · rename_i cursor _ same
    rw [← Option.some.inj same]
    rw [show row.keyParts.length = 3 from rfl] at read
    rw [read]
    rfl

theorem sendable_str {s : String} (noNul : 0 ∉ str s) : sendable (str s) = true := by
  unfold sendable
  rw [List.all_eq_true]
  intro c inside
  rw [decide_eq_true_eq]
  refine ⟨?_, Mcp.plain_of_string s c inside⟩
  rintro rfl
  exact noNul inside

theorem afterKey_keyParts {row : CatalogRow} (member : row ∈ stored.catalog.rows) :
    afterKey collation row.keyParts = .ok (row.sortKey collation) := by
  have plain := stored.noNul row member
  have p := sendable_str (plain row.provider (by simp))
  have n := sendable_str (plain row.name (by simp))
  have a := sendable_str (plain row.arch (by simp))
  simp [CatalogRow.keyParts, afterKey, p, n, a, CatalogRow.sortKey]

def cursorBehind (last : Option CatalogRow) : Option Str :=
  last.map (fun row => encodeCursor listTag row.keyParts)

theorem listImages_behind {last : Option CatalogRow}
    (member : ∀ row ∈ last, row ∈ stored.catalog.rows) (scope : ImageListScope) (limit : Int) :
    listImages collation interpreter arrangement stored projects
        ⟨scope, limit, cursorBehind last⟩ =
      .ok (.page (respond (clampListLimit limit) (selectPage collation arrangement stored projects
        scope (last.map (CatalogRow.sortKey collation)) (clampListLimit limit)))) := by
  cases last with
  | none => rfl
  | some row =>
    have here : afterKey collation row.keyParts = .ok (row.sortKey collation) :=
      afterKey_keyParts (member row rfl)
    simp only [listImages, cursorBehind, Option.map_some, afterParts_keyParts, here]
    rfl

theorem mem_of_selected {scope : ImageListScope} {after : Option (SortKey collation)} {capped : Nat}
    {row : CatalogRow}
    (inside : row ∈ selectPage collation arrangement stored projects scope after capped) :
    row ∈ stored.catalog.rows := by
  have seen := (arrangement.perm _ _).subset (List.mem_of_mem_take inside)
  have visible : row ∈ stored.visible projects scope := by
    cases after with
    | none => exact seen
    | some _ => exact List.mem_of_mem_filter seen
  exact List.mem_of_mem_filter visible

theorem follow_eq_walk (scope : ImageListScope) (limit : Int) :
    ∀ (turns : Nat) {last : Option CatalogRow}, (∀ row ∈ last, row ∈ stored.catalog.rows) →
      follow collation interpreter arrangement stored projects scope limit turns
          (cursorBehind last) =
        Keyset.walk (CatalogRow.sortKey collation) arrangement (stored.visible projects scope)
          (clampListLimit limit) turns (last.map (CatalogRow.sortKey collation)) := by
  intro turns
  induction turns with
  | zero => intro last _; rfl
  | succ turns ih =>
    intro last member
    by_cases more : clampListLimit limit < (Keyset.fetch (CatalogRow.sortKey collation) arrangement
        (stored.visible projects scope) (clampListLimit limit)
        (last.map (CatalogRow.sortKey collation))).length
    · obtain ⟨row, picked⟩ := Keyset.exists_getLast?_take (Mcp.clampListLimit_pos limit) more
      have stays : ∀ r ∈ some row, r ∈ stored.catalog.rows := by
        intro r same
        obtain rfl := Option.some.inj same
        exact mem_of_selected (List.mem_of_mem_take (List.mem_of_getLast? picked))
      have next := ih stays
      simp only [cursorBehind, Option.map_some] at next
      rw [Keyset.walk_more turns more picked, follow, listImages_behind member, ← next]
      simp only [respond, paginate, nextCursor, selectPage, more, decide_true, if_true, picked,
        Option.map_some]
    · rw [Keyset.walk_last turns more, follow, listImages_behind member]
      simp only [respond, paginate, nextCursor, selectPage, more, decide_false, if_false,
        Bool.false_eq_true]

theorem follow_lists (scope : ImageListScope) (limit : Int) :
    ∃ listed, follow collation interpreter arrangement stored projects scope limit
        ((stored.visible projects scope).length + 1) none = some listed ∧
      (listed.Perm (stored.visible projects scope) ↔
        Keyset.Apart (CatalogRow.sortKey collation) (stored.visible projects scope)
          (clampListLimit limit)) := by
  have enough : (Keyset.behind (CatalogRow.sortKey collation) (stored.visible projects scope)
      none).length < (stored.visible projects scope).length + 1 := Nat.lt_succ_self _
  obtain ⟨listed, walked, _, iff⟩ := Keyset.walk_lists (Mcp.clampListLimit_pos limit) enough
  have no_row : ∀ row ∈ (none : Option CatalogRow), row ∈ stored.catalog.rows := by simp
  exact ⟨listed, (follow_eq_walk scope limit _ no_row).trans walked, iff⟩

theorem follow_succ {scope : ImageListScope} {limit : Int} : ∀ {turns : Nat} {cursor : Option Str}
    {listed : List CatalogRow},
    follow collation interpreter arrangement stored projects scope limit turns cursor = some listed →
      follow collation interpreter arrangement stored projects scope limit (turns + 1) cursor =
        some listed := by
  intro turns
  induction turns with
  | zero => intro cursor listed ended; cases ended
  | succ turns ih =>
    intro cursor listed ended
    rw [follow] at ended ⊢
    split at ended
    · rename_i page _
      cases next : page.nextCursor with
      | none => rw [next] at ended; exact ended
      | some token =>
        rw [next] at ended
        obtain ⟨others, rest, rfl⟩ := Option.map_eq_some_iff.1 ended
        simp only [ih rest, Option.map_some]
    · cases ended

theorem follow_unique {scope : ImageListScope} {limit : Int} {turns more : Nat}
    {cursor : Option Str} {listed others : List CatalogRow}
    (first : follow collation interpreter arrangement stored projects scope limit turns cursor =
      some listed)
    (second : follow collation interpreter arrangement stored projects scope limit more cursor =
      some others) : listed = others := by
  have later : ∀ {turns listed} (extra : Nat),
      follow collation interpreter arrangement stored projects scope limit turns cursor =
        some listed →
      follow collation interpreter arrangement stored projects scope limit (turns + extra) cursor =
        some listed := by
    intro turns listed extra ended
    induction extra with
    | zero => exact ended
    | succ extra ih => exact follow_succ ih
  have one := later more first
  have two := later turns second
  rw [Nat.add_comm, one] at two
  exact Option.some.inj two

theorem StoredCatalog.visible_nodup (stored : StoredCatalog) (projects : List String)
    (scope : ImageListScope) : (stored.visible projects scope).Nodup :=
  (List.Nodup.of_map _ stored.catalog.distinct).filter _

/-- Following the cursors from the first page to the end lists every visible row once exactly if no
page ends inside the rows that share provider, name and architecture. -/
theorem listed_once_iff_apart (scope : ImageListScope) (limit : Int) :
    (∃ turns listed, follow collation interpreter arrangement stored projects scope limit turns
        none = some listed ∧ listed.Nodup ∧
        ∀ row, row ∈ listed ↔ row ∈ stored.visible projects scope) ↔
      Keyset.Apart (CatalogRow.sortKey collation) (stored.visible projects scope)
        (clampListLimit limit) := by
  obtain ⟨listed, ended, iff⟩ := @follow_lists collation interpreter arrangement stored projects
    scope limit
  have once : listed.Nodup ∧ (∀ row, row ∈ listed ↔ row ∈ stored.visible projects scope) ↔
      listed.Perm (stored.visible projects scope) := by
    have distinct := stored.visible_nodup projects scope
    constructor
    · rintro ⟨nodup, same⟩
      exact (List.perm_ext_iff_of_nodup nodup distinct).2 same
    · intro same
      exact ⟨same.nodup_iff.2 distinct, fun row => same.mem_iff⟩
  rw [← iff, ← once]
  constructor
  · rintro ⟨turns, others, reached, complete⟩
    rw [follow_unique ended reached]
    exact complete
  · intro complete
    exact ⟨_, listed, ended, complete⟩

end Listing

section Shared

def fedora (id : Uuid) (owner : Option String) : CatalogRow where
  id := id
  provider := "local-libvirt"
  name := "fedora"
  arch := "x86_64"
  format := "qcow2"
  rootDevice := "/dev/vda"
  objectKey := some ⟨"local-libvirt", "fedora", "x86_64", none, .qcow2⟩
  kernelConfigKey := none
  digest := none
  capabilities := []
  provenance := "{}"
  visibility := if owner.isSome then .privateImage else .publicImage
  owner := owner
  expiresAt := if owner.isSome then some 9 else none
  state := .registered
  sizeBytes := 0
  attempt := none
  principal := none
  pendingSince := 0
  createdAt := 0

def sharedName : StoredCatalog where
  catalog := ⟨[fedora 1 none, fedora 2 (some "demo")], by decide⟩
  objectPresent := by decide
  privateOwner := by decide
  privateExpiry := by decide
  publicationAttempt := by decide
  onePublic := by decide
  onePrivate := by decide
  oneDefined := by decide
  noNul := by decide

abbrev codePoints : LinearOrder Str := inferInstance

theorem follow_sharedName :
    follow codePoints ⟨2, Nat.le_refl 2⟩ (Keyset.Arrangement.stable _) sharedName ["demo"] .visible 1
      3 none = some [fedora 1 none] := by
  decide +kernel

theorem sharedName_skips :
    ¬ ∃ turns listed, follow codePoints ⟨2, Nat.le_refl 2⟩ (Keyset.Arrangement.stable _) sharedName
        ["demo"] .visible 1 turns none = some listed ∧ listed.Nodup ∧
        ∀ row, row ∈ listed ↔ row ∈ sharedName.visible ["demo"] .visible := by
  rintro ⟨turns, listed, ended, _, complete⟩
  obtain rfl := follow_unique follow_sharedName ended
  have skipped : fedora 2 (some "demo") ∉ [fedora 1 none] := by decide
  exact skipped ((complete _).2 (by decide))

end Shared

end Kdive.Images
