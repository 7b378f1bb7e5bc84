import Kdive.Lib.PosixPath

/-!
What the members of a tar archive become when they are extracted one by one into an empty directory,
under the rules that `tarfile` calls the data filter: no member and no link may point outside the
directory, and only files, directories and links are made. A tree is the list of its entries by the
real path below the directory.
-/
namespace Unpack
open PosixPath (Str components dot dotdot slash)

inductive Kind where
  | regular
  | directory
  | symlink (target : Str)
  | hardLink (target : Str)
  | special
  deriving DecidableEq

structure Member where
  name : Str
  kind : Kind

inductive Node where
  | file
  | dir
  | link (target : Str)
  deriving DecidableEq

abbrev Path := List Str

abbrev Tree := List (Path × Node)

section Trees

def Tree.node (tree : Tree) (p : Path) : Option Node := if p = [] then some .dir else tree.lookup p

def Tree.put (tree : Tree) (p : Path) (node : Node) : Tree :=
  (p, node) :: tree.filter (fun entry => entry.1 != p)

def Tree.Has (tree : Tree) (name : Str) : Prop := ∃ entry ∈ tree, entry.1.getLast? = some name

def named (c : Str) : Bool := c != [] && c != dot && c != dotdot

/-- The directory reached through the links on the way, with at most `limit` steps, or nothing where
the way leads out of the top. What does not exist is taken as written. -/
def realpath (tree : Tree) : (limit : Nat) → Path → List Str → Option Path
  | _, cwd, [] => some cwd
  | 0, _, _ :: _ => none
  | limit + 1, cwd, c :: rest =>
    if c = [] ∨ c = dot then realpath tree limit cwd rest
    else if c = dotdot then if cwd = [] then none else realpath tree limit cwd.dropLast rest
    else match tree.node (cwd ++ [c]) with
      | some (.link target) => realpath tree limit cwd (components target ++ rest)
      | _ => realpath tree limit (cwd ++ [c]) rest

end Trees

variable (limit : Nat)

section Members

def dataFilter (tree : Tree) (m : Member) : Option Member :=
  let name := m.name.dropWhile (· == slash)
  let inside (target : Str) (cs : List Str) : Bool :=
    target.head? != some slash && (realpath tree limit [] cs).isSome
  if (realpath tree limit [] (components name)).isNone then none
  else match m.kind with
    | .regular => some ⟨name, .regular⟩
    | .directory => some ⟨name, .directory⟩
    | .symlink target =>
      if inside target (components (PosixPath.dirname name) ++ components target) then
        some ⟨name, .symlink (PosixPath.normpath target)⟩
      else none
    | .hardLink target =>
      if inside target (components target) then some ⟨name, .hardLink (PosixPath.normpath target)⟩
      else none
    | .special => none

def makedirs : Tree → Path → List Str → Option (Tree × Path)
  | tree, cwd, [] => some (tree, cwd)
  | tree, cwd, c :: rest =>
    if c = [] ∨ c = dot then makedirs tree cwd rest
    else if c = dotdot then if cwd = [] then none else makedirs tree cwd.dropLast rest
    else match tree.node (cwd ++ [c]) with
      | none => makedirs (tree.put (cwd ++ [c]) .dir) (cwd ++ [c]) rest
      | some .dir => makedirs tree (cwd ++ [c]) rest
      | some .file => none
      | some (.link target) =>
        match realpath tree limit cwd (components target) with
        | some p => if tree.node p = some .dir then makedirs tree p rest else none
        | none => none

def makedir (tree : Tree) (cwd : Path) (leaf : Str) : Option Tree :=
  match tree.node (cwd ++ [leaf]) with
  | none => some (tree.put (cwd ++ [leaf]) .dir)
  | some .dir => some tree
  | some .file => none
  | some (.link target) =>
    if ((realpath tree limit cwd (components target)).bind tree.node) = some .dir then some tree
    else none

def makefile (tree : Tree) (cwd : Path) (leaf : Str) : Option Tree :=
  match tree.node (cwd ++ [leaf]) with
  | none => some (tree.put (cwd ++ [leaf]) .file)
  | some .file => some tree
  | some .dir => none
  | some (.link target) =>
    match realpath tree limit cwd (components target) with
    | none => none
    | some p =>
      match tree.node p with
      | some .file => some tree
      | some _ => none
      | none => if tree.node p.dropLast = some .dir then some (tree.put p .file) else none

/-- A link takes the place of what is there, unless that is a directory. -/
def makelink (tree : Tree) (cwd : Path) (leaf : Str) (node : Node) : Option Tree :=
  if tree.node (cwd ++ [leaf]) = some .dir then none else some (tree.put (cwd ++ [leaf]) node)

def hardLink (tree : Tree) (cwd : Path) (leaf target : Str) (missing : Option Tree) : Option Tree :=
  match realpath tree limit [] (components target) with
  | none => missing
  | some p =>
    match tree.node p with
    | none => missing
    | some .file => if p = cwd ++ [leaf] then none else makelink tree cwd leaf .file
    | some _ => none

/-- A hard link whose target is not there is extracted as the last member of that name before it;
`earlier` lists these from the last to the first. -/
def linked (tree : Tree) (cwd : Path) (leaf : Str) : (earlier : List Member) → Str → Option Tree
  | [], _ => none
  | e :: before, target =>
    if PosixPath.normpath e.name ≠ PosixPath.normpath target then linked tree cwd leaf before target
    else match dataFilter limit tree e with
      | none => none
      | some found =>
        match found.kind with
        | .regular => makefile limit tree cwd leaf
        | .directory => makedir limit tree cwd leaf
        | .symlink target => makelink tree cwd leaf (.link target)
        | .hardLink target =>
          hardLink limit tree cwd leaf target (linked tree cwd leaf before target)
        | .special => none

def pathOf (name : Str) : List Str :=
  components (name.reverse.dropWhile (· == slash)).reverse

def place (earlier : List Member) (tree : Tree) (cwd : Path) (leaf : Str) : Kind → Option Tree
  | .regular => makefile limit tree cwd leaf
  | .directory => makedir limit tree cwd leaf
  | .symlink target => makelink tree cwd leaf (.link target)
  | .hardLink target => hardLink limit tree cwd leaf target (linked limit tree cwd leaf earlier target)
  | .special => none

def extractMember (earlier : List Member) (tree : Tree) (m : Member) : Option Tree := do
  let m ← dataFilter limit tree m
  let (tree, cwd) ← makedirs limit tree [] (pathOf m.name).dropLast
  let leaf := (pathOf m.name).getLast?.getD []
  if named leaf then place limit earlier tree cwd leaf m.kind
  else if m.kind = .directory then some tree
  else none

def extractFrom (keep : Member → Bool) : List Member → Tree → List Member → Option Tree
  | _, tree, [] => some tree
  | earlier, tree, m :: rest =>
    if keep m then do
      let tree ← extractMember limit earlier tree m
      extractFrom keep (m :: earlier) tree rest
    else extractFrom keep (m :: earlier) tree rest

def extractAll (keep : Member → Bool) (archive : List Member) : Option Tree :=
  extractFrom limit keep [] [] archive

def Member.path (m : Member) : List Str := pathOf (m.name.dropWhile (· == slash))

end Members

section Strays

/-- The name under which a file appears that is written where a link leads to nothing. -/
def strayName (tree : Tree) (cwd : Path) (leaf : Str) : Option Str :=
  match tree.node (cwd ++ [leaf]) with
  | some (.link target) =>
    (realpath tree limit cwd (components target)).bind fun p =>
      if tree.node p = none then p.getLast? else none
  | _ => none

def Missing (tree : Tree) (target : Str) : Prop :=
  (realpath tree limit [] (components target)).bind tree.node = none

instance (tree : Tree) (target : Str) : Decidable (Missing limit tree target) :=
  inferInstanceAs (Decidable (_ = none))

/-- Whether a hard link whose target is not there is extracted as a file. -/
def copiesFile (tree : Tree) : (earlier : List Member) → Str → Bool
  | [], _ => false
  | e :: before, target =>
    if PosixPath.normpath e.name ≠ PosixPath.normpath target then copiesFile tree before target
    else match (dataFilter limit tree e).map Member.kind with
      | some .regular => true
      | some (.hardLink target) => decide (Missing limit tree target) && copiesFile tree before target
      | _ => false

def writesFile (earlier : List Member) (tree : Tree) : Kind → Bool
  | .regular => true
  | .hardLink target => decide (Missing limit tree target) && copiesFile limit tree earlier target
  | _ => false

/-- The name that no member of the archive need have and that a member's file takes, where the member
is written through a link that the members before it have left. -/
def stray (earlier : List Member) (tree : Tree) (m : Member) : Option Str := do
  let found ← dataFilter limit tree m
  let (tree, cwd) ← makedirs limit tree [] m.path.dropLast
  let leaf := m.path.getLast?.getD []
  if named leaf && writesFile limit earlier tree found.kind then strayName limit tree cwd leaf else none

/-- A file that is written through a link, while the archive is extracted into a tree. -/
def StraysFrom (keep : Member → Bool) (earlier : List Member) (tree : Tree) (archive : List Member)
    (name : Str) : Prop :=
  ∃ before m after between, archive = before ++ m :: after ∧ keep m = true ∧
    extractFrom limit keep earlier tree before = some between ∧
    stray limit (before.reverse ++ earlier) between m = some name

def Strays (keep : Member → Bool) (archive : List Member) (name : Str) : Prop :=
  StraysFrom limit keep [] [] archive name

end Strays

section Names

variable {limit} {tree tree' : Tree} {cwd : Path} {leaf name : Str}

theorem has_put {p : Path} {node : Node} :
    (tree.put p node).Has name ↔ tree.Has name ∨ p.getLast? = some name := by
  constructor
  · rintro ⟨entry, member, last⟩
    rcases List.mem_cons.mp member with rfl | kept
    · exact .inr last
    · exact .inl ⟨entry, (List.mem_filter.mp kept).1, last⟩
  · rintro (⟨entry, member, last⟩ | last)
    · by_cases same : entry.1 = p
      · exact ⟨(p, node), List.mem_cons_self, same ▸ last⟩
      · exact ⟨entry, List.mem_cons_of_mem _ (List.mem_filter.mpr ⟨member, bne_iff_ne.mpr same⟩), last⟩
    · exact ⟨(p, node), List.mem_cons_self, last⟩

theorem has_put_concat {node : Node} :
    (tree.put (cwd ++ [leaf]) node).Has name ↔ tree.Has name ∨ name = leaf := by
  rw [has_put, List.getLast?_concat, Option.some.injEq, eq_comm (a := leaf)]

theorem mem_of_lookup {p : Path} {node : Node} (found : tree.lookup p = some node) :
    (p, node) ∈ tree := by
  induction tree with
  | nil => cases found
  | cons entry rest ih =>
    rw [List.lookup_cons] at found
    split at found
    · rename_i same
      obtain rfl := Option.some.inj found
      rw [beq_iff_eq.mp same]
      exact List.mem_cons_self
    · exact List.mem_cons_of_mem _ (ih found)

theorem has_of_node {node : Node} (found : tree.node (cwd ++ [leaf]) = some node) :
    tree.Has leaf := by
  rw [Tree.node, if_neg (by simp)] at found
  exact ⟨_, mem_of_lookup found, List.getLast?_concat⟩

theorem has_or_leaf {node : Node} (found : tree.node (cwd ++ [leaf]) = some node) :
    tree.Has name ∨ name = leaf ↔ tree.Has name := by
  refine ⟨fun either => either.elim id (fun same => ?_), .inl⟩
  rw [same]
  exact has_of_node found

theorem makedirs_has {cs : List Str} {cwd' : Path}
    (made : makedirs limit tree cwd cs = some (tree', cwd')) :
    tree'.Has name ↔ tree.Has name ∨ name ∈ cs ∧ named name = true := by
  induction cs generalizing tree cwd with
  | nil =>
    rw [makedirs, Option.some.injEq, Prod.mk.injEq] at made
    rw [← made.1]
    simp
  | cons c rest ih =>
    have skipped (unnamed : named c = false) (same : tree'.Has name ↔
        tree.Has name ∨ name ∈ rest ∧ named name = true) :
        tree'.Has name ↔ tree.Has name ∨ name ∈ c :: rest ∧ named name = true := by
      rw [same, List.mem_cons]
      constructor
      · rintro (there | ⟨later, isNamed⟩)
        · exact .inl there
        · exact .inr ⟨.inr later, isNamed⟩
      · rintro (there | ⟨rfl | later, isNamed⟩)
        · exact .inl there
        · exact absurd isNamed (by simp [unnamed])
        · exact .inr ⟨later, isNamed⟩
    have taken (isNamed : named c = true) (there : tree'.Has name ↔
        (tree.Has name ∨ name = c) ∨ name ∈ rest ∧ named name = true) :
        tree'.Has name ↔ tree.Has name ∨ name ∈ c :: rest ∧ named name = true := by
      rw [there, List.mem_cons, or_assoc]
      refine or_congr_right ?_
      constructor
      · rintro (rfl | ⟨later, others⟩)
        · exact ⟨.inl rfl, isNamed⟩
        · exact ⟨.inr later, others⟩
      · rintro ⟨rfl | later, others⟩
        · exact .inl rfl
        · exact .inr ⟨later, others⟩
    rw [makedirs] at made
    split at made
    · rename_i still
      exact skipped (by rcases still with rfl | rfl <;> decide) (ih made)
    rename_i moves
    split at made
    · rename_i up
      split at made
      · cases made
      · exact skipped (by rw [up]; decide) (ih made)
    rename_i down
    have isNamed : named c = true := by
      rw [not_or] at moves
      simp [named, moves, down]
    refine taken isNamed ?_
    split at made
    · rw [ih made, has_put_concat]
    · rename_i found
      rw [ih made, has_or_leaf found]
    · cases made
    · rename_i target found
      split at made
      · split at made
        · rw [ih made, has_or_leaf found]
        · cases made
      · cases made

theorem makedir_has (made : makedir limit tree cwd leaf = some tree') :
    tree'.Has name ↔ tree.Has name ∨ name = leaf := by
  rw [makedir] at made
  split at made
  · obtain rfl := Option.some.inj made
    exact has_put_concat
  · rename_i found
    obtain rfl := Option.some.inj made
    exact (has_or_leaf found).symm
  · cases made
  · rename_i found
    split at made
    · obtain rfl := Option.some.inj made
      exact (has_or_leaf found).symm
    · cases made

theorem makelink_has {node : Node} (made : makelink tree cwd leaf node = some tree') :
    tree'.Has name ↔ tree.Has name ∨ name = leaf := by
  rw [makelink] at made
  split at made
  · cases made
  · obtain rfl := Option.some.inj made
    exact has_put_concat

theorem makefile_has (made : makefile limit tree cwd leaf = some tree') :
    tree'.Has name ↔ (tree.Has name ∨ name = leaf) ∨ strayName limit tree cwd leaf = some name := by
  rw [makefile] at made
  rw [strayName]
  split at made
  · rename_i missing
    obtain rfl := Option.some.inj made
    simp only [missing, reduceCtorEq, or_false]
    exact has_put_concat
  · rename_i found
    obtain rfl := Option.some.inj made
    simp only [found, reduceCtorEq, or_false]
    exact (has_or_leaf found).symm
  · cases made
  · rename_i found
    simp only [found]
    rw [has_or_leaf found]
    split at made
    · cases made
    · rename_i p reached
      rw [reached, Option.bind_some]
      split at made
      · rename_i there
        obtain rfl := Option.some.inj made
        simp [there]
      · cases made
      · rename_i missing
        rw [if_pos missing]
        split at made
        · obtain rfl := Option.some.inj made
          exact has_put
        · cases made

theorem hardLink_has {target : Str} {missing : Option Tree} {files : Bool}
    (made : hardLink limit tree cwd leaf target missing = some tree')
    (fallback : missing = some tree' → (tree'.Has name ↔ (tree.Has name ∨ name = leaf) ∨
      (files = true ∧ strayName limit tree cwd leaf = some name))) :
    tree'.Has name ↔ (tree.Has name ∨ name = leaf) ∨
      ((decide (Missing limit tree target) && files) = true ∧
        strayName limit tree cwd leaf = some name) := by
  have absent (gone : Missing limit tree target) (instead : missing = some tree') :
      tree'.Has name ↔ (tree.Has name ∨ name = leaf) ∨
        ((decide (Missing limit tree target) && files) = true ∧
          strayName limit tree cwd leaf = some name) := by
    rw [decide_eq_true gone, Bool.true_and]
    exact fallback instead
  rw [hardLink] at made
  split at made
  · rename_i out
    exact absent (by rw [Missing, out, Option.bind_none]) made
  · rename_i p reached
    split at made
    · rename_i nothing
      exact absent (by rw [Missing, reached, Option.bind_some, nothing]) made
    · rename_i there
      have present : ¬Missing limit tree target := by simp [Missing, reached, there]
      rw [decide_eq_false present, Bool.false_and]
      split at made
      · cases made
      · simpa using makelink_has made
    · cases made

theorem linked_has {earlier : List Member} {target : Str}
    (made : linked limit tree cwd leaf earlier target = some tree') :
    tree'.Has name ↔ (tree.Has name ∨ name = leaf) ∨
      (copiesFile limit tree earlier target = true ∧ strayName limit tree cwd leaf = some name) := by
  induction earlier generalizing target with
  | nil => cases made
  | cons e before ih =>
    rw [linked] at made
    rw [copiesFile]
    split at made
    · rename_i other
      rw [if_pos other]
      exact ih made
    rename_i own
    rw [if_neg own]
    split at made
    · cases made
    rename_i found filtered
    rw [filtered, Option.map_some]
    split at made
    · rename_i kind
      simpa [kind] using makefile_has made
    · rename_i kind
      simpa [kind] using makedir_has made
    · rename_i kind
      simpa [kind] using makelink_has made
    · rename_i kind
      rw [kind]
      exact hardLink_has made ih
    · cases made

theorem dataFilter_name {m found : Member} (filtered : dataFilter limit tree m = some found) :
    pathOf found.name = m.path := by
  have name : found.name = m.name.dropWhile (· == slash) := by
    rw [dataFilter] at filtered
    dsimp only at filtered
    split at filtered
    · cases filtered
    split at filtered
    · exact (Option.some.inj filtered) ▸ rfl
    · exact (Option.some.inj filtered) ▸ rfl
    · split at filtered
      · exact (Option.some.inj filtered) ▸ rfl
      · cases filtered
    · split at filtered
      · exact (Option.some.inj filtered) ▸ rfl
      · cases filtered
    · cases filtered
  rw [name]
  rfl

theorem pathOf_ne_nil (name : Str) : pathOf name ≠ [] := List.splitOn_ne_nil slash _

theorem mem_pathOf {text : Str} : name ∈ pathOf text ↔
    name ∈ (pathOf text).dropLast ∨ name = (pathOf text).getLast?.getD [] := by
  have filled := pathOf_ne_nil text
  have last : (pathOf text).getLast?.getD [] = (pathOf text).getLast filled := by
    rw [List.getLast?_eq_getLast_of_ne_nil filled, Option.getD_some]
  rw [last]
  conv_lhs => rw [← List.dropLast_append_getLast filled]
  rw [List.mem_append, List.mem_singleton]

theorem place_has {earlier : List Member} {kind : Kind}
    (made : place limit earlier tree cwd leaf kind = some tree') :
    tree'.Has name ↔ (tree.Has name ∨ name = leaf) ∨
      (writesFile limit earlier tree kind = true ∧ strayName limit tree cwd leaf = some name) := by
  cases kind with
  | regular => simpa [writesFile] using makefile_has made
  | directory => simpa [writesFile] using makedir_has made
  | symlink target => simpa [writesFile] using makelink_has made
  | hardLink target => exact hardLink_has made linked_has
  | special => cases made

theorem extractMember_has {earlier : List Member} {m : Member}
    (made : extractMember limit earlier tree m = some tree') :
    tree'.Has name ↔ tree.Has name ∨ (name ∈ m.path ∧ named name = true) ∨
      stray limit earlier tree m = some name := by
  obtain ⟨found, filtered, made⟩ := Option.bind_eq_some_iff.mp made
  obtain ⟨⟨base, cwd⟩, upper, made⟩ := Option.bind_eq_some_iff.mp made
  rw [dataFilter_name filtered] at upper made
  have strays : stray limit earlier tree m =
      if named (m.path.getLast?.getD []) && writesFile limit earlier base found.kind then
        strayName limit base cwd (m.path.getLast?.getD []) else none := by
    rw [stray, filtered, Option.bind_eq_bind, Option.bind_some, upper]
    rfl
  have above := @makedirs_has limit tree base [] name _ cwd upper
  have parts : name ∈ m.path ↔ _ := mem_pathOf
  rw [strays, parts]
  dsimp only at made
  split at made
  · rename_i isNamed
    rw [place_has made, above, isNamed, Bool.true_and]
    grind [Member.path]
  · rename_i unnamed
    rw [Bool.eq_false_iff.mpr unnamed, Bool.false_and, if_neg Bool.false_ne_true]
    split at made
    · obtain rfl := Option.some.inj made
      rw [above]
      grind [Member.path]
    · cases made

theorem straysFrom_cons {keep : Member → Bool} {earlier rest : List Member} {m : Member}
    (next : ∀ before, extractFrom limit keep earlier tree (m :: before) =
      extractFrom limit keep (m :: earlier) tree' before) :
    StraysFrom limit keep earlier tree (m :: rest) name ↔
      keep m = true ∧ stray limit earlier tree m = some name ∨
        StraysFrom limit keep (m :: earlier) tree' rest name := by
  constructor
  · rintro ⟨before, e, after, between, split, keeps, ran, isStray⟩
    cases before with
    | nil =>
      obtain ⟨rfl, -⟩ := List.cons.inj split
      obtain rfl := Option.some.inj ran
      exact .inl ⟨keeps, isStray⟩
    | cons first before =>
      obtain ⟨rfl, tail⟩ := List.cons.inj split
      rw [next] at ran
      rw [List.reverse_cons, List.append_assoc] at isStray
      exact .inr ⟨before, e, after, between, tail, keeps, ran, isStray⟩
  · rintro (⟨kept, isStray⟩ | ⟨before, e, after, between, rfl, keeps, ran, isStray⟩)
    · exact ⟨[], m, rest, tree, rfl, kept, rfl, isStray⟩
    · refine ⟨m :: before, e, after, between, rfl, keeps, (next before).trans ran, ?_⟩
      rw [List.reverse_cons, List.append_assoc]
      exact isStray

/-- What extraction adds to the names of a tree: the parts of the members' paths, and the strays. -/
theorem extractFrom_has {keep : Member → Bool} {earlier archive : List Member}
    (made : extractFrom limit keep earlier tree archive = some tree') :
    tree'.Has name ↔ tree.Has name ∨
      (∃ m ∈ archive, keep m = true ∧ name ∈ m.path ∧ named name = true) ∨
      StraysFrom limit keep earlier tree archive name := by
  induction archive generalizing earlier tree with
  | nil =>
    obtain rfl := Option.some.inj made
    simp [StraysFrom]
  | cons m rest ih =>
    rw [extractFrom] at made
    split at made
    · rename_i kept
      obtain ⟨next, first, made⟩ := Option.bind_eq_some_iff.mp made
      have goes (before : List Member) : extractFrom limit keep earlier tree (m :: before) =
          extractFrom limit keep (m :: earlier) next before := by
        rw [extractFrom, if_pos kept, first]
        rfl
      rw [ih made, extractMember_has first, straysFrom_cons goes, List.exists_mem_cons_iff]
      grind
    · rename_i dropped
      rw [ih made, straysFrom_cons (fun before => by rw [extractFrom, if_neg dropped]),
        List.exists_mem_cons_iff]
      grind

end Names

/-! Where the names of a tree come from: the paths of the members and the targets of the links. -/

section Origins

variable {limit} {P : Str → Prop} {tree tree' : Tree} {cwd : Path} {leaf : Str}

def Node.Within (P : Str → Prop) (node : Node) : Prop :=
  ∀ target, node = .link target → ∀ c ∈ components target, P c

def Tree.Within (P : Str → Prop) (tree : Tree) : Prop :=
  ∀ entry ∈ tree, (∀ c ∈ entry.1, P c) ∧ entry.2.Within P

def Member.Within (P : Str → Prop) (m : Member) : Prop :=
  ∀ target, m.kind = .symlink target → ∀ c ∈ components (PosixPath.normpath target), P c

theorem within_file : Node.file.Within P := fun _ same => by cases same

theorem within_dir : Node.dir.Within P := fun _ same => by cases same

theorem within_concat (cwds : ∀ c ∈ cwd, P c) (own : P leaf) : ∀ c ∈ cwd ++ [leaf], P c := by
  intro c member
  rcases List.mem_append.mp member with above | last
  · exact cwds c above
  · rw [List.mem_singleton.mp last]
    exact own

theorem Tree.Within.put (trees : tree.Within P) {p : Path} {node : Node} (parts : ∀ c ∈ p, P c)
    (nodes : node.Within P) : (tree.put p node).Within P := by
  intro entry member
  rcases List.mem_cons.mp member with rfl | kept
  · exact ⟨parts, nodes⟩
  · exact trees entry (List.mem_filter.mp kept).1

theorem Tree.Within.link (trees : tree.Within P) {target : Str}
    (found : tree.node (cwd ++ [leaf]) = some (.link target)) : ∀ c ∈ components target, P c := by
  rw [Tree.node, if_neg (by simp)] at found
  exact (trees _ (mem_of_lookup found)).2 target rfl

theorem realpath_within (trees : tree.Within P) {limit : Nat} {cwd p : Path} {cs : List Str}
    (cwds : ∀ c ∈ cwd, P c) (parts : ∀ c ∈ cs, P c)
    (reached : realpath tree limit cwd cs = some p) : ∀ c ∈ p, P c := by
  induction limit generalizing cwd cs with
  | zero =>
    cases cs with
    | nil =>
      obtain rfl := Option.some.inj reached
      exact cwds
    | cons c rest => cases reached
  | succ limit ih =>
    cases cs with
    | nil =>
      obtain rfl := Option.some.inj reached
      exact cwds
    | cons c rest =>
      have later : ∀ d ∈ rest, P d := fun d member => parts d (List.mem_cons_of_mem _ member)
      rw [realpath] at reached
      split at reached
      · exact ih cwds later reached
      split at reached
      · split at reached
        · cases reached
        · exact ih (fun d member => cwds d (List.dropLast_subset _ member)) later reached
      split at reached
      · rename_i target found
        refine ih cwds (fun d member => ?_) reached
        rcases List.mem_append.mp member with inTarget | after
        · exact trees.link found d inTarget
        · exact later d after
      · exact ih (within_concat cwds (parts c List.mem_cons_self)) later reached

theorem makedirs_within (trees : tree.Within P) {cs : List Str} {cwd cwd' : Path}
    (cwds : ∀ c ∈ cwd, P c) (parts : ∀ c ∈ cs, P c)
    (made : makedirs limit tree cwd cs = some (tree', cwd')) :
    tree'.Within P ∧ ∀ c ∈ cwd', P c := by
  induction cs generalizing tree cwd with
  | nil =>
    obtain ⟨rfl, rfl⟩ := Prod.mk.inj (Option.some.inj made)
    exact ⟨trees, cwds⟩
  | cons c rest ih =>
    have later : ∀ d ∈ rest, P d := fun d member => parts d (List.mem_cons_of_mem _ member)
    have below := within_concat cwds (parts c List.mem_cons_self)
    rw [makedirs] at made
    split at made
    · exact ih trees cwds later made
    split at made
    · split at made
      · cases made
      · exact ih trees (fun d member => cwds d (List.dropLast_subset _ member)) later made
    split at made
    · exact ih (trees.put below within_dir) below later made
    · exact ih trees below later made
    · cases made
    · rename_i target found
      split at made
      · rename_i p reached
        split at made
        · exact ih trees (realpath_within trees cwds (trees.link found) reached) later made
        · cases made
      · cases made

section Placed

variable (trees : tree.Within P) (cwds : ∀ c ∈ cwd, P c) (own : P leaf)
include trees cwds own

theorem makedir_within (made : makedir limit tree cwd leaf = some tree') : tree'.Within P := by
  rw [makedir] at made
  split at made
  · obtain rfl := Option.some.inj made
    exact trees.put (within_concat cwds own) within_dir
  · obtain rfl := Option.some.inj made
    exact trees
  · cases made
  · split at made
    · obtain rfl := Option.some.inj made
      exact trees
    · cases made

theorem makefile_within (made : makefile limit tree cwd leaf = some tree') : tree'.Within P := by
  rw [makefile] at made
  split at made
  · obtain rfl := Option.some.inj made
    exact trees.put (within_concat cwds own) within_file
  · obtain rfl := Option.some.inj made
    exact trees
  · cases made
  · rename_i found
    split at made
    · cases made
    · rename_i p reached
      split at made
      · obtain rfl := Option.some.inj made
        exact trees
      · cases made
      · split at made
        · obtain rfl := Option.some.inj made
          exact trees.put (realpath_within trees cwds (trees.link found) reached) within_file
        · cases made

theorem makelink_within {node : Node} (nodes : node.Within P)
    (made : makelink tree cwd leaf node = some tree') : tree'.Within P := by
  rw [makelink] at made
  split at made
  · cases made
  · obtain rfl := Option.some.inj made
    exact trees.put (within_concat cwds own) nodes

theorem hardLink_within {target : Str} {missing : Option Tree}
    (fallback : missing = some tree' → tree'.Within P)
    (made : hardLink limit tree cwd leaf target missing = some tree') : tree'.Within P := by
  rw [hardLink] at made
  split at made
  · exact fallback made
  · split at made
    · exact fallback made
    · split at made
      · cases made
      · exact makelink_within trees cwds own within_file made
    · cases made

omit trees cwds own in
theorem dataFilter_within {m found : Member} (members : m.Within P) {target : Str}
    (filtered : dataFilter limit tree m = some found) (link : found.kind = .symlink target) :
    (Node.link target).Within P := by
  rw [dataFilter] at filtered
  dsimp only at filtered
  split at filtered
  · cases filtered
  split at filtered
  · cases filtered
    cases link
  · cases filtered
    cases link
  · rename_i raw kind
    split at filtered
    · obtain rfl := Option.some.inj filtered
      obtain rfl := Kind.symlink.inj link
      intro target' same
      obtain rfl := Node.link.inj same
      exact members raw kind
    · cases filtered
  · split at filtered
    · cases filtered
      cases link
    · cases filtered
  · cases filtered

theorem linked_within {earlier : List Member} (members : ∀ e ∈ earlier, e.Within P) {target : Str}
    (made : linked limit tree cwd leaf earlier target = some tree') : tree'.Within P := by
  induction earlier generalizing target with
  | nil => cases made
  | cons e before ih =>
    have others : ∀ e ∈ before, e.Within P := fun e member => members e (List.mem_cons_of_mem _ member)
    rw [linked] at made
    split at made
    · exact ih others made
    split at made
    · cases made
    rename_i found filtered
    split at made
    · exact makefile_within trees cwds own made
    · exact makedir_within trees cwds own made
    · rename_i target kind
      exact makelink_within trees cwds own
        (dataFilter_within (members e List.mem_cons_self) filtered kind) made
    · exact hardLink_within trees cwds own (ih others) made
    · cases made

theorem place_within {earlier : List Member} (others : ∀ e ∈ earlier, e.Within P) {kind : Kind}
    (links : ∀ target, kind = .symlink target → (Node.link target).Within P)
    (made : place limit earlier tree cwd leaf kind = some tree') : tree'.Within P := by
  cases kind with
  | regular => exact makefile_within trees cwds own made
  | directory => exact makedir_within trees cwds own made
  | symlink target => exact makelink_within trees cwds own (links target rfl) made
  | hardLink target =>
    exact hardLink_within trees cwds own (linked_within trees cwds own others) made
  | special => cases made

end Placed

theorem extractMember_within (trees : tree.Within P) {earlier : List Member} {m : Member}
    (others : ∀ e ∈ earlier, e.Within P) (members : m.Within P) (parts : ∀ c ∈ m.path, P c)
    (made : extractMember limit earlier tree m = some tree') : tree'.Within P := by
  obtain ⟨found, filtered, made⟩ := Option.bind_eq_some_iff.mp made
  obtain ⟨⟨base, cwd⟩, upper, made⟩ := Option.bind_eq_some_iff.mp made
  rw [dataFilter_name filtered] at upper made
  obtain ⟨bases, cwds⟩ := makedirs_within trees (by simp)
    (fun c member => parts c (List.dropLast_subset _ member)) upper
  have own : P (m.path.getLast?.getD []) := parts _ (mem_pathOf.mpr (.inr rfl))
  dsimp only at made
  split at made
  · exact place_within bases cwds own others (fun _ => dataFilter_within members filtered) made
  · split at made
    · exact Option.some.inj made ▸ bases
    · cases made

theorem extractFrom_within (trees : tree.Within P) {keep : Member → Bool}
    {earlier archive : List Member} (others : ∀ e ∈ earlier, e.Within P)
    (members : ∀ m ∈ archive, m.Within P) (parts : ∀ m ∈ archive, keep m = true → ∀ c ∈ m.path, P c)
    (made : extractFrom limit keep earlier tree archive = some tree') : tree'.Within P := by
  induction archive generalizing earlier tree with
  | nil => exact Option.some.inj made ▸ trees
  | cons m rest ih =>
    have first := members m List.mem_cons_self
    have seen : ∀ e ∈ m :: earlier, e.Within P := List.forall_mem_cons.mpr ⟨first, others⟩
    have members : ∀ m ∈ rest, m.Within P := fun m member => members m (List.mem_cons_of_mem _ member)
    have later : ∀ m ∈ rest, keep m = true → ∀ c ∈ m.path, P c :=
      fun m member => parts m (List.mem_cons_of_mem _ member)
    rw [extractFrom] at made
    split at made
    · rename_i kept
      obtain ⟨next, one, made⟩ := Option.bind_eq_some_iff.mp made
      refine ih (extractMember_within trees others first ?_ one) seen members later made
      exact parts m List.mem_cons_self kept
    · exact ih trees seen members later made

/-- A stray is named by the path of a member or by the target of a symbolic link. -/
theorem origin_of_has {keep : Member → Bool} {archive : List Member} {root : Tree} {name : Str}
    (made : extractAll limit keep archive = some root) (there : root.Has name) :
    (∃ m ∈ archive, keep m = true ∧ name ∈ m.path) ∨
      ∃ m ∈ archive, ∃ target, m.kind = .symlink target ∧
        name ∈ components (PosixPath.normpath target) := by
  obtain ⟨entry, member, last⟩ := there
  refine (extractFrom_within (P := fun c => (∃ m ∈ archive, keep m = true ∧ c ∈ m.path) ∨
    ∃ m ∈ archive, ∃ target, m.kind = .symlink target ∧
      c ∈ components (PosixPath.normpath target)) (fun e isIn => by cases isIn)
    (fun e isIn => by cases isIn) ?_ ?_ made entry member).1 name (List.mem_of_getLast? last)
  · exact fun m isIn target link c part => .inr ⟨m, isIn, target, link, part⟩
  · exact fun m isIn kept c part => .inl ⟨m, isIn, kept, part⟩

end Origins

end Unpack
