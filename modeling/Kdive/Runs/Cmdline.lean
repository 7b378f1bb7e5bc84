import Mathlib.Data.List.TakeWhile
import Kdive.Lib.KernelArgs
import Kdive.Lib.Utf8
import Kdive.Lib.Words

/-!
The check that an operator's command line names no parameter that the platform sets itself, beside
the kernel's own reading of that line. The check splits text where Python sees white space; the
kernel splits bytes, and there `0xA0` is a space also where it ends another character.
-/
namespace Kdive.Runs
open Utf8 KernelArgs Words

attribute [local instance] Utf8.lawful

def isSpace (c : Char) : Bool :=
  let n := c.toNat
  (9 ≤ n && n ≤ 13) || (28 ≤ n && n ≤ 32) || n == 0x85 || n == 0xA0 || n == 0x1680 ||
    (0x2000 ≤ n && n ≤ 0x200A) || n == 0x2028 || n == 0x2029 || n == 0x202F || n == 0x205F ||
    n == 0x3000

def platformOwnedCmdlineTokens : List (List Char) :=
  ["root=".toList, "console=".toList, "crashkernel=".toList, "fadump=".toList]

def crashkernelToken : List Char := "crashkernel=".toList

def parameterName (word : List Char) : List Char :=
  (if word.head? = some '"' then word.tail else word).takeWhile (fun c => c ≠ '=')

def parameterNames (cmdline : List Char) : List (List Char) :=
  (words isSpace cmdline).map parameterName

def removeEquals (token : List Char) : List Char :=
  if token.getLast? = some '=' then token.dropLast else token

def platformOwnedCmdlineToken (cmdline : Option (List Char)) : Option (List Char) :=
  match cmdline with
  | none => none
  | some [] => none
  | some text => platformOwnedCmdlineTokens.find? (fun token =>
      if token = crashkernelToken then token <:+: text
      else removeEquals token ∈ parameterNames text)

def ownedNames : List (List Char) := ["root".toList, "console".toList, "fadump".toList]

def cString (bytes : List UInt8) : List UInt8 := bytes.takeWhile (fun b => b ≠ 0)

def NothingOwned (bytes : List UInt8) : Prop :=
  (∀ a ∈ arguments [] (cString bytes), a.param ∉ ownedNames.map encode) ∧
    ¬ encode crashkernelToken <:+: bytes

/-- The argument comes right after a character other than a no-break space whose last byte is
`0xA0`. -/
def AfterTail (a : Argument) : Prop :=
  a.before.getLast? = some 0xA0 ∧ ¬ encode ['\u00a0'] <:+ a.before

def QuotedName (a : Argument) : Prop :=
  a.quoted = true ∧ a.equals = none ∧ a.body = a.param ++ [quote]

section Reading

variable {text front back : List Char}

theorem isSpace_toChar {b : UInt8} (isBreak : space b = true) (ascii : b ≠ 0xA0) :
    encode [toChar b] = [b] ∧ isSpace (toChar b) = true := by
  have every : ∀ n < 256, space (UInt8.ofNat n) = true → UInt8.ofNat n ≠ 0xA0 →
      encode [toChar (UInt8.ofNat n)] = [UInt8.ofNat n] ∧
        isSpace (toChar (UInt8.ofNat n)) = true := by decide +kernel
  have here := every b.toNat b.toNat_lt
  rw [UInt8.ofNat_toNat] at here
  exact here isBreak ascii

theorem text_breaks_before {a : Argument} (apart : ¬ AfterTail a)
    (starts : a.before = [] ∨ ∃ front b, a.before = front ++ [b] ∧ space b = true)
    (same : encode front = a.before) :
    front = [] ∨ ∃ before c, front = before ++ [c] ∧ isSpace c = true := by
  have ends {c : Char} {bytes : List UInt8} (isBreak : isSpace c = true)
      (last : encode front = bytes ++ encode [c]) :
      ∃ before c, front = before ++ [c] ∧ isSpace c = true := by
    rw [← List.append_nil (encode [c])] at last
    obtain ⟨before, after, rfl, -, empty⟩ := split_of_encode (by simp) last
    have none' := eq_nil_of_length_encode (by rw [empty]; rfl : (encode after).length = 0)
    subst none'
    exact ⟨before, c, rfl, isBreak⟩
  rcases starts with empty | ⟨bytes, b, whole, isBreak⟩
  · left
    rw [empty] at same
    exact eq_nil_of_length_encode (by rw [same]; rfl)
  · right
    by_cases latin : b = 0xA0
    · have closes : encode ['\u00a0'] <:+ a.before := by
        by_contra other
        refine apart ⟨?_, other⟩
        rw [whole, latin, List.getLast?_append]
        rfl
      obtain ⟨bytes', last⟩ := closes
      exact ends (by decide) (same.trans last.symm)
    · obtain ⟨single, isBreak'⟩ := isSpace_toChar isBreak latin
      exact ends isBreak' (by rw [same, whole, single])

theorem text_breaks_after {after : List UInt8}
    (ends : after = [] ∨ ∃ b rest, after = b :: rest ∧ space b = true)
    (same : encode back = after) :
    back = [] ∨ ∃ c rest, back = c :: rest ∧ isSpace c = true := by
  rcases ends with empty | ⟨b, rest, whole, isBreak⟩
  · left
    rw [empty] at same
    exact eq_nil_of_length_encode (by rw [same]; rfl)
  · right
    have latin : b ≠ 0xA0 := by
      rintro rfl
      cases back with
      | nil =>
        rw [whole] at same
        cases same
      | cons c more =>
        obtain ⟨lead, others, bytes, starts, -⟩ := encodeChar_shape c
        rw [encode_cons, bytes, whole, List.cons_append, List.cons.injEq] at same
        rw [same.1] at starts
        exact absurd starts (by decide)
    obtain ⟨single, isBreak'⟩ := isSpace_toChar isBreak latin
    have placed : encode back = [] ++ (encode [toChar b] ++ rest) := by
      rw [same, whole, single]
      rfl
    obtain ⟨first, rest', rfl, empty, -⟩ := split_of_encode (by simp) placed
    have none' := eq_nil_of_length_encode (by rw [empty]; rfl : (encode first).length = 0)
    subst none'
    exact ⟨toChar b, rest', rfl, isBreak'⟩

structure PlainName (name : List Char) : Prop where
  filled : name ≠ []
  unbroken : ∀ c ∈ name, isSpace c = false
  noEquals : ∀ c ∈ name, c ≠ '='
  noQuote : ∀ c ∈ name, c ≠ '"'
  bytes : quote ∉ encode name

theorem ownedNames_plain {name : List Char} (owned : name ∈ ownedNames) : PlainName name := by
  simp only [ownedNames, List.mem_cons, List.not_mem_nil, or_false] at owned
  have each {p : Char → Prop} [DecidablePred p] {text : List Char}
      (all : text.all (fun c => decide (p c)) = true) : ∀ c ∈ text, p c := by simpa using all
  rcases owned with rfl | rfl | rfl <;>
  · refine ⟨by decide +kernel, each ?_, each ?_, each ?_, ?_⟩ <;> decide +kernel

theorem parameterName_of {name rest : List Char} (plain : PlainName name) (quoted : Bool)
    (ends : rest = [] ∨ rest.head? = some '=') :
    parameterName ((if quoted then ['"'] else []) ++ (name ++ rest)) = name := by
  obtain ⟨c, others, rfl⟩ := List.exists_cons_of_ne_nil plain.filled
  have stripped : parameterName ((if quoted then ['"'] else []) ++ (c :: others ++ rest)) =
      (c :: others ++ rest).takeWhile (fun c => c ≠ '=') := by
    cases quoted with
    | true => simp [parameterName]
    | false =>
      have other := plain.noQuote c List.mem_cons_self
      simp [parameterName, other]
  have inside : ∀ x ∈ c :: others, decide (x ≠ '=') = true :=
    fun x member => decide_eq_true (plain.noEquals x member)
  rw [stripped, List.takeWhile_append_of_pos inside]
  rcases ends with rfl | sign
  · simp
  · obtain ⟨more, rfl⟩ : ∃ more, rest = '=' :: more := by
      cases rest with
      | nil => cases sign
      | cons d more =>
        rw [List.head?_cons, Option.some.injEq] at sign
        exact ⟨more, by rw [sign]⟩
    simp

theorem encode_quote (quoted : Bool) :
    encode (if quoted then ['"'] else []) = if quoted then [quote] else [] := by
  cases quoted with
  | true => rfl
  | false => rfl

/-- The check sees every argument of such a name but those it misses for the two reasons. -/
theorem name_seen {a : Argument} {after : List UInt8} {name : List Char} (plain : PlainName name)
    (placed : a.Placed (encode text) after) (named : a.param = encode name) (apart : ¬ AfterTail a)
    (bare : ¬ QuotedName a) : name ∈ parameterNames text := by
  have raw : a.raw = encode (if a.quoted then ['"'] else []) ++ a.body := by
    rw [encode_quote, Argument.raw]
    split <;> rfl
  have sign : encode ['='] = [equalsSign] := rfl
  have filled : (if a.quoted then ['"'] else []) ++ name ≠ [] := by
    simp [plain.filled]
  have unbroken : ∀ c ∈ (if a.quoted then ['"'] else []) ++ name, isSpace c = false := by
    intro c member
    rcases List.mem_append.mp member with quote' | inside
    · split at quote'
      · rw [List.mem_singleton.mp quote']
        decide
      · exact absurd quote' List.not_mem_nil
    · exact plain.unbroken c inside
  have whole := placed.whole
  rw [raw] at whole
  rcases a.param_shape with ⟨value, body⟩ | ⟨none', quoted, body⟩ | body
  · -- the name is followed by an equals sign
    have split' : encode text = a.before ++ (encode ((if a.quoted then ['"'] else []) ++ name ++ ['=']) ++
        (value ++ after)) := by
      rw [whole, body, named, encode_append, encode_append, sign]
      simp
    obtain ⟨front, back, rfl, same, -⟩ := split_of_encode (by simp) split'
    refine List.mem_map.mpr ⟨(if a.quoted then ['"'] else []) ++ (name ++ ('=' :: back.takeWhile
      (fun c => !isSpace c))), ?_, parameterName_of plain a.quoted (.inr rfl)⟩
    have text' : front ++ ((if a.quoted then ['"'] else []) ++ name ++ ['='] ++ back) = front ++
        ((if a.quoted then ['"'] else []) ++ (name ++ ('=' :: back.takeWhile (fun c => !isSpace c))) ++
          back.dropWhile (fun c => !isSpace c)) := by
      simp [List.takeWhile_append_dropWhile]
    rw [text']
    refine mem_words_of_split (by simp [plain.filled]) ?_ (text_breaks_before apart placed.starts same) ?_
    · intro c member
      rw [← List.append_assoc] at member
      rcases List.mem_append.mp member with inside | inside
      · exact unbroken c inside
      · rcases List.mem_cons.mp inside with rfl | inside
        · decide
        · simpa using List.all_eq_true.mp List.all_takeWhile c inside
    · cases rest : back.dropWhile (fun c => !isSpace c) with
      | nil => exact .inl rfl
      | cons c more =>
        have stops := List.head_dropWhile_not (fun c => !isSpace c) (l := back) (by simp [rest])
        simp only [rest, List.head_cons] at stops
        exact .inr ⟨c, more, rfl, by simpa using stops⟩
  · exact absurd ⟨quoted, none', body⟩ bare
  · have split' : encode text =
        a.before ++ (encode ((if a.quoted then ['"'] else []) ++ name) ++ after) := by
      rw [whole, body, named, encode_append]
    obtain ⟨front, back, rfl, same, tail⟩ := split_of_encode filled split'
    refine List.mem_map.mpr ⟨(if a.quoted then ['"'] else []) ++ (name ++ []), ?_,
      parameterName_of plain a.quoted (.inl rfl)⟩
    rw [List.append_nil]
    exact mem_words_of_split filled unbroken (text_breaks_before apart placed.starts same)
      (text_breaks_after placed.ends tail)

end Reading

section Checked

variable {text : List Char}

theorem platformOwnedCmdlineToken_eq_none :
    platformOwnedCmdlineToken (some text) = none ↔
      (∀ name ∈ ownedNames, name ∉ parameterNames text) ∧ ¬ crashkernelToken <:+: text := by
  have names : removeEquals "root=".toList = "root".toList ∧
      removeEquals "console=".toList = "console".toList ∧
      removeEquals "fadump=".toList = "fadump".toList := by decide
  cases text with
  | nil =>
    refine iff_of_true rfl ⟨fun name _ => ?_, by decide⟩
    exact List.not_mem_nil
  | cons c rest =>
    simp only [platformOwnedCmdlineToken, platformOwnedCmdlineTokens, List.find?_eq_none,
      List.mem_cons, List.not_mem_nil, or_false, forall_eq_or_imp, forall_eq, ownedNames]
    rw [if_neg (by decide), if_neg (by decide), if_pos (by decide), if_neg (by decide)]
    simp only [decide_eq_true_eq, names.1, names.2.1, names.2.2]
    constructor
    · rintro ⟨root, console, crash, fadump⟩
      exact ⟨⟨root, console, fadump⟩, crash⟩
    · rintro ⟨⟨root, console, fadump⟩, crash⟩
      exact ⟨root, console, crash, fadump⟩

theorem cString_encode (nulFree : '\x00' ∉ text) : cString (encode text) = encode text := by
  refine List.takeWhile_eq_self_iff.mpr ?_
  intro b member
  have nonzero : b ≠ 0 := by
    rintro rfl
    have single : encode ['\x00'] = [0] := rfl
    exact nulFree (mem_of_mem_encode single member)
  exact decide_eq_true nonzero

/-- A line that the check lets through gives the kernel nothing that the platform owns exactly when
no argument of such a name comes right after the tail of a character or is a quoted bare name. -/
theorem passed_line_nothingOwned_iff (text : List Char) (nulFree : '\x00' ∉ text)
    (passed : platformOwnedCmdlineToken (some text) = none) :
    NothingOwned (encode text) ↔
      ∀ a ∈ arguments [] (encode text), AfterTail a ∨ QuotedName a →
        a.param ∉ ownedNames.map encode := by
  obtain ⟨unseen, noCrash⟩ := platformOwnedCmdlineToken_eq_none.mp passed
  rw [NothingOwned, cString_encode nulFree]
  constructor
  · rintro ⟨clear, -⟩ a member -
    exact clear a member
  · intro missed
    refine ⟨fun a member owned => ?_, fun found => noCrash (infix_of_encode found)⟩
    obtain ⟨after, placed⟩ := arguments_placed [] (encode text) (.inl rfl) member
    obtain ⟨name, listed, same⟩ := List.mem_map.mp owned
    by_cases reason : AfterTail a ∨ QuotedName a
    · exact missed a member reason owned
    · rw [not_or] at reason
      exact unseen name listed (name_seen (ownedNames_plain listed) placed same.symm reason.1 reason.2)

def contentLine : List Char := "netconsole=@/eth0 nfsroot=/srv log=\"a b\" quiet".toList

theorem contentLine_nothingOwned : NothingOwned (encode contentLine) := by
  refine (passed_line_nothingOwned_iff contentLine (by decide) (by decide +kernel)).mpr ?_
  intro a member _
  have every : ∀ a ∈ arguments [] (encode contentLine), a.param ∉ ownedNames.map encode := by
    decide +kernel
  exact every a member

def tailLine : List Char := "\u00e0console=ttyS1".toList

theorem tailLine_owned :
    '\x00' ∉ tailLine ∧ platformOwnedCmdlineToken (some tailLine) = none ∧
    (∃ a ∈ arguments [] (cString (encode tailLine)), a.param = encode "console".toList ∧
      a.val = some (encode "ttyS1".toList)) ∧ ¬ NothingOwned (encode tailLine) := by
  have read : ∃ a ∈ arguments [] (cString (encode tailLine)), a.param = encode "console".toList ∧
      a.val = some (encode "ttyS1".toList) := by decide +kernel
  refine ⟨by decide, by decide +kernel, read, ?_⟩
  rintro ⟨clear, -⟩
  obtain ⟨a, member, named, -⟩ := read
  refine clear a member (List.mem_map.mpr ⟨"console".toList, by decide, named.symm⟩)

end Checked

end Kdive.Runs
