import Mathlib.Data.List.Basic

/-!
A versioned object store. Every write makes a new version, whose content never changes; a version is
known by its number. A version can be removed, and a multipart upload copies versions of other keys
into the parts of a new one.
-/
namespace ObjectStore

abbrev Bytes := List UInt8

/-- `checksum` is the SHA-256 of the content, where the writer asked the store to check one. -/
structure Object (Key Digest : Type) where
  key : Key
  content : Bytes
  checksum : Option Digest
  isDeleteMarker : Bool

structure Upload (Key : Type) where
  key : Key
  initiator : Nat
  parts : List (Nat × Bytes)

structure Store (Key Digest : Type) where
  objects : List (Object Key Digest)
  gone : List Nat
  uploads : List (Upload Key)

structure Head (Digest : Type) where
  version : Nat
  size : Nat
  checksum : Option Digest

namespace Store

variable {Key Digest : Type} [DecidableEq Key]

def empty : Store Key Digest := ⟨[], [], []⟩

def live (s : Store Key Digest) (key : Key) (version : Nat) : Option (Object Key Digest) :=
  s.objects[version]?.filter (fun o => decide (o.key = key ∧ version ∉ s.gone))

def latest (s : Store Key Digest) (key : Key) : Option Nat :=
  ((List.range s.objects.length).filter (fun v => (s.live key v).isSome)).getLast?

def find (s : Store Key Digest) (key : Key) (version : Option Nat) :
    Option (Nat × Object Key Digest) :=
  (version.or (s.latest key)).bind (fun v =>
    ((s.live key v).filter (fun o => !o.isDeleteMarker)).map (fun o => (v, o)))

def head (s : Store Key Digest) (key : Key) (version : Option Nat) : Option (Head Digest) :=
  (s.find key version).map (fun found => ⟨found.1, found.2.content.length, found.2.checksum⟩)

def getRange (s : Store Key Digest) (key : Key) (version : Option Nat) (start length : Nat) :
    Option Bytes :=
  (s.find key version).map (fun found => (found.2.content.drop start).take length)

def put (s : Store Key Digest) (o : Object Key Digest) : Store Key Digest :=
  { s with objects := s.objects ++ [o] }

def remove (s : Store Key Digest) (version : Nat) : Store Key Digest :=
  { s with gone := version :: s.gone }

def createUpload (s : Store Key Digest) (initiator : Nat) (key : Key) : Nat × Store Key Digest :=
  (s.uploads.length, { s with uploads := s.uploads ++ [⟨key, initiator, []⟩] })

def abortUpload (s : Store Key Digest) (upload : Nat) : Store Key Digest :=
  { s with uploads := s.uploads.modify upload (fun u => { u with parts := [] }) }

def copyPart (s : Store Key Digest) (key : Key) (upload part : Nat) (sourceKey : Key)
    (sourceVersion : Nat) : Option (Store Key Digest) :=
  match s.uploads[upload]?, s.find sourceKey (some sourceVersion) with
  | some u, some (_, o) =>
    if u.key = key then
      some { s with uploads := s.uploads.set upload { u with parts := (part, o.content) :: u.parts } }
    else none
  | _, _ => none

/-- The parts named become one object, in the order of their names. It has no checksum of its own. -/
def completeUpload (s : Store Key Digest) (key : Key) (upload : Nat) (parts : List Nat) :
    Option (Nat × Store Key Digest) :=
  match s.uploads[upload]? with
  | some u =>
    if u.key = key then
      (parts.mapM (fun n => u.parts.lookup n)).map (fun contents =>
        (s.objects.length, s.put ⟨key, contents.flatten, none, false⟩))
    else none
  | none => none

section Facts

variable {s : Store Key Digest} {key : Key} {version : Option Nat}

theorem find_spec {v : Nat} {o : Object Key Digest} (found : s.find key version = some (v, o)) :
    s.objects[v]? = some o ∧ o.key = key ∧ (∀ w, version = some w → v = w) := by
  rw [find, Option.bind_eq_some_iff] at found
  obtain ⟨u, chosen, found⟩ := found
  rw [Option.map_eq_some_iff] at found
  obtain ⟨o', kept, same⟩ := found
  obtain ⟨rfl, rfl⟩ := Prod.mk.inj same
  have alive := (Option.filter_eq_some_iff.mp kept).1
  rw [live, Option.filter_eq_some_iff] at alive
  obtain ⟨here, matching⟩ := alive
  refine ⟨here, (of_decide_eq_true matching).1, ?_⟩
  rintro w rfl
  exact (Option.some.inj chosen).symm

theorem head_spec {h : Head Digest} (found : s.head key version = some h) :
    ∃ o, s.objects[h.version]? = some o ∧ o.key = key ∧ h.size = o.content.length ∧
      h.checksum = o.checksum ∧ (∀ w, version = some w → h.version = w) := by
  rw [head, Option.map_eq_some_iff] at found
  obtain ⟨⟨v, o⟩, found, rfl⟩ := found
  obtain ⟨here, isKey, pinned⟩ := find_spec found
  exact ⟨o, here, isKey, rfl, rfl, pinned⟩

theorem put_spec {v : Nat} {o o' : Object Key Digest} (here : (s.put o).objects[v]? = some o') :
    s.objects[v]? = some o' ∨ (v = s.objects.length ∧ o' = o) := by
  unfold put at here
  rcases Nat.lt_trichotomy v s.objects.length with old | rfl | beyond
  · exact .inl (by simpa only [List.getElem?_append_left old] using here)
  · exact .inr ⟨rfl, by simpa using here.symm⟩
  · rw [List.getElem?_eq_none (by simp; omega)] at here
    cases here

theorem find_put_other {o : Object Key Digest} (other : o.key ≠ key) :
    (s.put o).find key none = s.find key none := by
  have same : ∀ v, (s.put o).live key v = s.live key v := by
    intro v
    unfold live put
    rcases Nat.lt_trichotomy v s.objects.length with old | rfl | beyond
    · rw [List.getElem?_append_left old]
    · simp [other]
    · rw [List.getElem?_eq_none (by simp; omega), List.getElem?_eq_none (by omega)]
  have latest : (s.put o).latest key = s.latest key := by
    have fresh : s.live key s.objects.length = none := by simp [live]
    unfold latest
    simp only [same]
    simp [put, List.range_succ, List.filter_append, fresh]
  simp only [find, latest, same]

theorem find_remove_other {v : Nat} {o : Object Key Digest} (here : s.objects[v]? = some o)
    (other : o.key ≠ key) : (s.remove v).find key none = s.find key none := by
  have same : ∀ w, (s.remove v).live key w = s.live key w := by
    intro w
    by_cases gone : w = v
    · subst gone
      simp [live, remove, here, other, Option.filter]
    · simp [live, remove, gone]
  have latest : (s.remove v).latest key = s.latest key := by
    unfold latest
    simp only [same]
    rfl
  simp only [find, latest, same]

end Facts

end Store

end ObjectStore
