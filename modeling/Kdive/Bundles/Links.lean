import Kdive.Bundles.Scan

/-!
The symbolic links of an accepted module tree, resolved as a kernel does: component by component, a
link replaced by its target where it is met, and `..` taken from the directory that was reached. The
scan looks at the text of each target alone, so a `..` behind a component that is itself a link is
checked against the wrong directory.
-/
namespace Kdive.Bundles
open PosixPath (Str str components joined descend dot dotdot)

attribute [local instance] PosixPath.lawful

section Accepted

variable {tools : Inspection} {members : List TarInfo} {s s' : ScanState} {m : TarInfo}

theorem startsWith_iff {p start : Str} : startsWith p start = true ↔ start <+: p :=
  List.isPrefixOf_iff_prefix

theorem relative_of_startsWith {p : Str} (relative : startsWith p (str "/") = false) :
    p.head? ≠ some PosixPath.slash := by
  intro head
  obtain ⟨rest, rfl⟩ : ∃ rest, p = PosixPath.slash :: rest := by
    cases p with
    | nil => cases head
    | cons x rest => exact ⟨rest, by rw [Option.some.inj head]⟩
  exact absurd relative (by simp [startsWith, str, PosixPath.slash])

theorem canonicalTarPath_names {path : Str} (canonical : canonicalTarPath tools m = .ok path) :
    ∀ c ∈ components path, PosixPath.IsName c := by
  rw [canonicalTarPath] at canonical
  dsimp only at canonical
  split at canonical
  · cases canonical
  rename_i plain
  split at canonical
  · cases canonical
  rename_i normal
  split at canonical
  · cases canonical
  obtain rfl := Except.ok.inj canonical
  simp only [not_or] at plain normal
  have same : PosixPath.normpath (trimmedName m) = trimmedName m := not_not.mp normal.1
  have inside : PosixPath.leaves (trimmedName m) = false := by
    rw [same] at normal
    have front : startsWith (trimmedName m) (str "../") = false :=
      Bool.not_eq_true _ ▸ normal.2.2.2
    have same : str "../" = dotdot ++ [PosixPath.slash] := by decide
    rw [startsWith, same] at front
    simp only [PosixPath.leaves, normal.2.2.1, front, false_or, Bool.false_eq_true, decide_false]
  refine PosixPath.names_of_normpath ?_ same (same ▸ normal.2.1) inside
  exact relative_of_startsWith (Bool.not_eq_true _ ▸ plain.2.1)

theorem eq_partitioned {text : Str} (separator : (partitioned text).2.1 = true) :
    text = (partitioned text).1 ++ PosixPath.slash :: (partitioned text).2.2 := by
  let head := text.takeWhile (fun x => x ≠ PosixPath.slash)
  have whole : head ++ text.dropWhile (fun x => x ≠ PosixPath.slash) = text :=
    List.takeWhile_append_dropWhile
  have longer : head.length < text.length := of_decide_eq_true separator
  cases tail : text.dropWhile (fun x => x ≠ PosixPath.slash) with
  | nil =>
    rw [tail, List.append_nil] at whole
    exact absurd longer (by rw [whole]; exact Nat.lt_irrefl _)
  | cons x rest =>
    have first : x = PosixPath.slash := by
      have stops := List.head?_dropWhile_not (fun x => x ≠ PosixPath.slash) text
      rw [tail] at stops
      simpa using stops
    have after : text.drop (head.length + 1) = rest := by
      conv_lhs => rw [← whole, tail]
      simp
    change text = head ++ PosixPath.slash :: text.drop (head.length + 1)
    rw [after, ← first, ← tail, whole]

theorem moduleMemberPath_suffix {path release relative : Str}
    (found : moduleMemberPath path m = .ok (some (release, relative))) (below : relative ≠ []) :
    ∃ front, path = front ++ PosixPath.slash :: relative := by
  rw [moduleMemberPath] at found
  split at found
  · split at found <;> cases found
  split at found
  · cases found
  rename_i inside
  have inside : startsWith path modulesMemberPrefix = true := Bool.not_eq_false _ ▸ inside
  obtain ⟨rest, rfl⟩ := startsWith_iff.mp inside
  rw [List.drop_left] at found
  have parts := @eq_partitioned rest
  generalize partitioned rest = divided at found parts
  obtain ⟨head, separator, tail⟩ := divided
  dsimp only at found parts
  split at found
  · obtain ⟨-, empty⟩ := Prod.mk.inj (Option.some.inj (Except.ok.inj found))
    exact absurd empty.symm below
  split at found
  · cases found
  rename_i divides
  obtain ⟨-, rfl⟩ := Prod.mk.inj (Option.some.inj (Except.ok.inj found))
  simp only [not_or, Bool.not_eq_false] at divides
  refine ⟨modulesMemberPrefix ++ head, ?_⟩
  rw [parts divides.2.1, List.append_assoc]

structure Checked (e : ModuleEntry) : Prop where
  names : ∀ c ∈ components e.path, PosixPath.IsName c
  target : ∀ target, e.kind = .symlink target → startsWith target (str "/") = false ∧
    PosixPath.leaves (resolvedTarget e.path target) = false

theorem moduleManifestEntry_sound {relative : Str} {e : ModuleEntry}
    (names : ∀ c ∈ components relative, PosixPath.IsName c)
    (made : moduleManifestEntry tools m relative = .ok (some e)) : Checked e := by
  rw [moduleManifestEntry] at made
  split at made
  · obtain rfl := Option.some.inj (Except.ok.inj made)
    exact ⟨names, nofun⟩
  · obtain rfl := Option.some.inj (Except.ok.inj made)
    exact ⟨names, nofun⟩
  · dsimp only at made
    split at made
    · cases made
    split at made
    · cases made
    split at made
    · cases made
    split at made
    · cases made
    rename_i inside
    obtain rfl := Option.some.inj (Except.ok.inj made)
    refine ⟨names, ?_⟩
    rintro target ⟨rfl⟩
    simpa [not_or] using inside
  · cases made

theorem scanModule_sound {release relative : Str} (sound : ∀ e ∈ s.entries, Checked e)
    (names : relative ≠ [] → ∀ c ∈ components relative, PosixPath.IsName c)
    (scanned : scanModule tools m release relative s = .ok s') : ∀ e ∈ s'.entries, Checked e := by
  have noted : (noteRelease release s).entries = s.entries := by
    rw [noteRelease]
    split <;> rfl
  rw [scanModule] at scanned
  dsimp only at scanned
  split at scanned
  · obtain rfl := Except.ok.inj scanned
    rw [noted]
    exact sound
  rename_i below
  have counted : ∀ t : ScanState, (if m.isreg then
      { t with moduleBytes := t.moduleBytes + m.size } else t).entries = t.entries := by
    intro t
    split <;> rfl
  split at scanned
  · cases scanned
  · obtain rfl := Except.ok.inj scanned
    rw [counted, noted]
    exact sound
  · rename_i entry made
    obtain rfl := Except.ok.inj scanned
    intro e member
    dsimp only at member
    rw [counted, noted] at member
    rcases List.mem_append.mp member with held | own
    · exact sound e held
    · obtain rfl := List.mem_singleton.mp own
      exact moduleManifestEntry_sound (names below) made

theorem scanBoot_entries (scanned : scanBoot tools m s = .ok s') : s'.entries = s.entries := by
  rw [scanBoot] at scanned
  split at scanned
  · cases scanned
  split at scanned
  · cases scanned
  split at scanned
  · cases scanned
  · obtain rfl := Except.ok.inj scanned
    rfl

theorem scanNamed_sound {path : Str} (scanned : scanNamed tools m path s = .ok s')
    (sound : ∀ e ∈ s.entries, Checked e) (names : ∀ c ∈ components path, PosixPath.IsName c) :
    ∀ e ∈ s'.entries, Checked e := by
  rw [scanNamed] at scanned
  split at scanned
  · rw [scanBoot_entries scanned]
    exact sound
  split at scanned
  · cases scanned
  · obtain rfl := Except.ok.inj scanned
    exact sound
  · rename_i release relative found
    refine scanModule_sound sound ?_ scanned
    intro below c member
    obtain ⟨front, rfl⟩ := moduleMemberPath_suffix found below
    refine names c ?_
    rw [PosixPath.components_append]
    exact List.mem_append_right _ member

theorem scanMember_sound (sound : ∀ e ∈ s.entries, Checked e)
    (scanned : scanMember tools m s = .ok s') : ∀ e ∈ s'.entries, Checked e := by
  rw [scanMember] at scanned
  split at scanned
  · cases scanned
  split at scanned
  · cases scanned
  rename_i path canonical
  split at scanned
  · cases scanned
  split at scanned
  · cases scanned
  exact scanNamed_sound scanned sound (canonicalTarPath_names canonical)

theorem scan_sound {scanned : Scanned}
    (accepted : scanExternalBootArchive tools members = .ok scanned) :
    ∀ e ∈ scanned.entries, Checked e := by
  rw [scanExternalBootArchive] at accepted
  cases ran : Sweep.run (scanMember tools) members {} with
  | error e =>
    rw [ran] at accepted
    cases accepted
  | ok s =>
    have sound : ∀ e ∈ s.entries, Checked e :=
      Sweep.run_keeps (fun s => ∀ e ∈ s.entries, Checked e)
        (fun _ _ _ _ moved sound => scanMember_sound sound moved) ran nofun
    rw [ran] at accepted
    have accepted : scanEnd s = .ok scanned := accepted
    rw [scanEnd] at accepted
    split at accepted
    · cases accepted
    split at accepted
    · split at accepted
      · cases accepted
      split at accepted
      · cases accepted
      split at accepted
      · cases accepted
      split at accepted
      · obtain rfl := Except.ok.inj accepted
        intro e member
        exact sound e ((List.mem_insertionSort byPath).mp member)
      · cases accepted
    · cases accepted

end Accepted

section Walking

variable {entries : List ModuleEntry}

/-- What is found under a path of the tree; the directories above an entry need no entry. -/
inductive Node where
  | dir | file
  | link (target : Str)

def nodeAt (entries : List ModuleEntry) (path : List Str) : Option Node :=
  match entries.find? (fun e => components e.path = path) with
  | some e =>
    match e.kind with
    | .dir => some .dir
    | .file _ _ _ => some .file
    | .symlink target => some (.link target)
  | none => if entries.any (fun e => path.isPrefixOf (components e.path)) then some .dir else none

/-- A resolution under way: the directory reached and the components left. -/
structure Walk where
  cwd : List Str
  rest : List Str
  deriving DecidableEq

inductive Outcome where
  | walking (walk : Walk)
  | stopped
  | escaped
  deriving DecidableEq

def step (entries : List ModuleEntry) (w : Walk) : Outcome :=
  match w.rest with
  | [] => .stopped
  | c :: rest =>
    if c = [] ∨ c = dot then .walking ⟨w.cwd, rest⟩
    else if c = dotdot then
      if w.cwd = [] then .escaped else .walking ⟨w.cwd.dropLast, rest⟩
    else
      match nodeAt entries (w.cwd ++ [c]) with
      | some .dir => .walking ⟨w.cwd ++ [c], rest⟩
      | some (.link target) =>
        if startsWith target (str "/") then .escaped
        else .walking ⟨w.cwd, components target ++ rest⟩
      | some .file => .stopped
      | none => .stopped

def resolve (entries : List ModuleEntry) : Nat → Walk → Outcome
  | 0, w => .walking w
  | n + 1, w =>
    match step entries w with
    | .walking w => resolve entries n w
    | ended => ended

def linkStart (e : ModuleEntry) (target : Str) : Outcome :=
  if startsWith target (str "/") then .escaped
  else .walking ⟨(components e.path).dropLast, components target⟩

def follow (entries : List ModuleEntry) (n : Nat) (e : ModuleEntry) (target : Str) : Outcome :=
  match linkStart e target with
  | .walking w => resolve entries n w
  | ended => ended

def LinksStay (entries : List ModuleEntry) : Prop :=
  ∀ e ∈ entries, ∀ target, e.kind = .symlink target → ∀ n, follow entries n e target ≠ .escaped

def isLink (entries : List ModuleEntry) (path : List Str) : Bool :=
  match nodeAt entries path with
  | some (.link _) => true
  | _ => false

/-- No `..` behind a component that names a link, as the text of a target is read from a
directory. -/
def climbsFirst (entries : List ModuleEntry) : List Str → List Str → Bool
  | _, [] => true
  | cwd, c :: rest =>
    if c = [] ∨ c = dot then climbsFirst entries cwd rest
    else if c = dotdot then climbsFirst entries cwd.dropLast rest
    else if isLink entries (cwd ++ [c]) then dotdot ∉ rest
    else climbsFirst entries (cwd ++ [c]) rest

/-- The components cannot lead out of the tree from a directory: the text stays below the top, and
behind a link nothing climbs. -/
def Contained (entries : List ModuleEntry) : List Str → List Str → Prop
  | _, [] => True
  | cwd, c :: rest =>
    if c = [] ∨ c = dot then Contained entries cwd rest
    else if c = dotdot then cwd ≠ [] ∧ Contained entries cwd.dropLast rest
    else if isLink entries (cwd ++ [c]) then dotdot ∉ rest
    else Contained entries (cwd ++ [c]) rest

theorem contained_of_descend {cwd cs : List Str} (climbs : climbsFirst entries cwd cs = true)
    (walks : (descend cwd cs).isSome) : Contained entries cwd cs := by
  induction cs generalizing cwd with
  | nil => trivial
  | cons c rest ih =>
    rw [climbsFirst] at climbs
    rw [descend] at walks
    rw [Contained]
    by_cases skipped : c = [] ∨ c = dot
    · rw [if_pos skipped] at climbs walks ⊢
      exact ih climbs walks
    rw [if_neg skipped] at climbs walks ⊢
    by_cases up : c = dotdot
    · rw [if_pos up] at climbs walks ⊢
      split at walks
      · cases walks
      · rename_i below
        exact ⟨below, ih climbs walks⟩
    rw [if_neg up] at climbs walks ⊢
    split at climbs
    · rename_i link
      rw [if_pos link]
      exact of_decide_eq_true climbs
    · rename_i plain
      rw [if_neg plain]
      exact ih climbs walks

theorem contained_of_flat {cwd cs : List Str} (flat : dotdot ∉ cs) : Contained entries cwd cs := by
  induction cs generalizing cwd with
  | nil => trivial
  | cons c rest ih =>
    have later : dotdot ∉ rest := fun member => flat (.tail c member)
    have own : c ≠ dotdot := by
      rintro rfl
      exact flat (.head rest)
    rw [Contained]
    by_cases skipped : c = [] ∨ c = dot
    · rw [if_pos skipped]
      exact ih later
    · rw [if_neg skipped, if_neg own]
      split
      · exact later
      · exact ih later

theorem Contained.append {cwd cs more : List Str} (contained : Contained entries cwd cs)
    (flat : dotdot ∉ more) : Contained entries cwd (cs ++ more) := by
  induction cs generalizing cwd with
  | nil => exact contained_of_flat flat
  | cons c rest ih =>
    rw [Contained] at contained
    rw [List.cons_append, Contained]
    by_cases skipped : c = [] ∨ c = dot
    · rw [if_pos skipped] at contained ⊢
      exact ih contained
    rw [if_neg skipped] at contained ⊢
    by_cases up : c = dotdot
    · rw [if_pos up] at contained ⊢
      exact ⟨contained.1, ih contained.2⟩
    rw [if_neg up] at contained ⊢
    split at contained
    · rename_i link
      rw [if_pos link]
      intro member
      rcases List.mem_append.mp member with inside | behind
      · exact contained inside
      · exact flat behind
    · rename_i plain
      rw [if_neg plain]
      exact ih contained

def ClimbsBeforeLinks (entries : List ModuleEntry) : Prop :=
  ∀ e ∈ entries, ∀ target, e.kind = .symlink target →
    climbsFirst entries (components e.path).dropLast (components target) = true

theorem nodeAt_link {path : List Str} {target : Str} (found : nodeAt entries path = some (.link target)) :
    ∃ e ∈ entries, components e.path = path ∧ e.kind = .symlink target := by
  rw [nodeAt] at found
  split at found
  · rename_i e here
    have same : components e.path = path := by simpa using List.find?_some here
    refine ⟨e, List.mem_of_find?_eq_some here, same, ?_⟩
    split at found
    · cases found
    · cases found
    · rename_i kind
      rw [kind, (Node.link.inj (Option.some.inj found))]
  · split at found <;> cases found

theorem contained_target (checked : ∀ e ∈ entries, Checked e) (climbs : ClimbsBeforeLinks entries)
    {e : ModuleEntry} {target : Str} (member : e ∈ entries) (kind : e.kind = .symlink target) :
    startsWith target (str "/") = false ∧
      Contained entries (components e.path).dropLast (components target) := by
  obtain ⟨relative, inside⟩ := (checked e member).target target kind
  refine ⟨relative, contained_of_descend (climbs e member target kind) ?_⟩
  exact PosixPath.descend_target (checked e member).names (relative_of_startsWith relative) inside

theorem step_contained (checked : ∀ e ∈ entries, Checked e) (climbs : ClimbsBeforeLinks entries)
    {w : Walk} (contained : Contained entries w.cwd w.rest) :
    match step entries w with
    | .walking w' => Contained entries w'.cwd w'.rest
    | .stopped => True
    | .escaped => False := by
  obtain ⟨cwd, rest⟩ := w
  cases rest with
  | nil => trivial
  | cons c rest =>
    dsimp only at contained
    rw [Contained] at contained
    simp only [step]
    by_cases skipped : c = [] ∨ c = dot
    · rw [if_pos skipped] at contained ⊢
      exact contained
    rw [if_neg skipped] at contained ⊢
    by_cases up : c = dotdot
    · rw [if_pos up] at contained ⊢
      rw [if_neg contained.1]
      exact contained.2
    rw [if_neg up] at contained ⊢
    cases found : nodeAt entries (cwd ++ [c]) with
    | none => trivial
    | some node =>
      cases node with
      | file => trivial
      | dir =>
        have plain : isLink entries (cwd ++ [c]) = false := by rw [isLink, found]
        rw [plain, if_neg Bool.false_ne_true] at contained
        exact contained
      | link target =>
        have link : isLink entries (cwd ++ [c]) = true := by rw [isLink, found]
        rw [link, if_pos rfl] at contained
        obtain ⟨e, member, path, kind⟩ := nodeAt_link found
        obtain ⟨relative, inside⟩ := contained_target checked climbs member kind
        rw [path, List.dropLast_concat] at inside
        dsimp only
        rw [relative, if_neg Bool.false_ne_true]
        exact inside.append contained

theorem resolve_contained (checked : ∀ e ∈ entries, Checked e) (climbs : ClimbsBeforeLinks entries)
    (n : Nat) {w : Walk} (contained : Contained entries w.cwd w.rest) :
    resolve entries n w ≠ .escaped := by
  induction n generalizing w with
  | zero => exact nofun
  | succ n ih =>
    have one := step_contained checked climbs contained
    rw [resolve]
    cases next : step entries w with
    | walking w' =>
      rw [next] at one
      exact ih one
    | stopped => exact nofun
    | escaped =>
      rw [next] at one
      exact absurd one id

/-- The links of an accepted tree stay inside it if no target climbs behind a link. -/
theorem accepted_links_stay (tools : Inspection) (members : List TarInfo) (scanned : Scanned)
    (accepted : scanExternalBootArchive tools members = .ok scanned)
    (climbs : ClimbsBeforeLinks scanned.entries) : LinksStay scanned.entries := by
  intro e member target kind n
  have checked := scan_sound accepted
  obtain ⟨relative, contained⟩ := contained_target checked climbs member kind
  rw [follow, linkStart, relative, if_neg Bool.false_ne_true]
  exact resolve_contained checked climbs n contained

def plainTools : Inspection where
  nfc s := s
  sha256 _ := []
  inspectBootMember _ := .ok (str "6.1")

def bootMember : TarInfo where
  name := kernelBootMember
  type := .regular

def linkMember (path target : String) : TarInfo where
  name := str ("lib/modules/6.1/" ++ path)
  type := .symlink
  linkname := str target

def moduleLink (path target : String) : ModuleEntry := ⟨str path, .symlink (str target)⟩

def linkTree (entries : List ModuleEntry) (members bytes : Nat) : Scanned :=
  ⟨str "6.1", entries, members, bytes, 0⟩

/-- A link up from its directory to a link beside it. -/
theorem climbing_link_stays :
    let entries := [moduleLink "kernel/net/a" "../b/c", moduleLink "kernel/z" "net/a"]
    scanExternalBootArchive plainTools [bootMember, linkMember "kernel/net/a" "../b/c",
      linkMember "kernel/z" "net/a"] = .ok (linkTree entries 3 0) ∧ LinksStay entries := by
  have accepted : scanExternalBootArchive plainTools [bootMember,
      linkMember "kernel/net/a" "../b/c", linkMember "kernel/z" "net/a"] =
      .ok (linkTree [moduleLink "kernel/net/a" "../b/c", moduleLink "kernel/z" "net/a"] 3 0) := by
    decide +kernel
  refine ⟨accepted, accepted_links_stay plainTools _ _ accepted ?_⟩
  intro e member target kind
  simp only [linkTree, List.mem_cons, List.not_mem_nil, or_false] at member
  rcases member with rfl | rfl
  · obtain rfl := EntryKind.symlink.inj kind
    decide +kernel
  · obtain rfl := EntryKind.symlink.inj kind
    decide +kernel

/-- A link to its own directory, and a link that climbs from there. -/
theorem link_behind_link_escapes :
    let entries := [moduleLink "l" ".", moduleLink "m" "l/.."]
    scanExternalBootArchive plainTools [bootMember, linkMember "l" ".", linkMember "m" "l/.."] =
        .ok (linkTree entries 3 0) ∧
      follow entries 3 (moduleLink "m" "l/..") (str "l/..") = .escaped ∧ ¬ LinksStay entries := by
  have escapes : follow [moduleLink "l" ".", moduleLink "m" "l/.."] 3 (moduleLink "m" "l/..")
      (str "l/..") = .escaped := by decide +kernel
  refine ⟨by decide +kernel, escapes, ?_⟩
  intro stay
  exact stay (moduleLink "m" "l/..") (by simp) (str "l/..") rfl 3 escapes

end Walking

end Kdive.Bundles
