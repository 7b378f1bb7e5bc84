import Kdive.Capacity.Pcie

/-!
The grammar of PCIe match specs against the parser. The parser's end anchor also matches before a
newline at the end, so the one thing it accepts beyond the grammar is a spec with such a newline; a
device id then keeps the newline and names no device.
-/
namespace Kdive.Capacity

def DeviceForm (vendor device spec : List Char) : Prop :=
  vendor.length = 4 ∧ vendor.all isHex = true ∧ device.length = 4 ∧ device.all isHex = true ∧
    spec = vendor ++ ':' :: device

def ClassForm (digits spec : List Char) : Prop :=
  (digits.length = 2 ∨ digits.length = 4) ∧ digits.all isHex = true ∧
    spec = ['c', 'l', 'a', 's', 's', '='] ++ digits

def InGrammar (spec : List Char) : Prop :=
  (∃ vendor device, DeviceForm vendor device spec) ∨ ∃ digits, ClassForm digits spec

def NamesDescriptor (spec : List Char) (d : PCIeDescriptor) : Prop :=
  (∃ vendor device, DeviceForm vendor device spec ∧ d.vendorId.toList = vendor ∧
    d.deviceId.toList = device) ∨
  ∃ digits, ClassForm digits spec ∧ digits <+: d.classCode.toList

/-- The parser accepts the spec if it is in the grammar, what it accepts matches what the spec is
about, and no spec is without a match where a device it is about is present. -/
structure SpecAnswered (spec : String) : Prop where
  accepted : (∃ m, parseMatchSpec spec = .ok m) ↔ InGrammar spec.toList
  matched : ∀ m, parseMatchSpec spec = .ok m → ∀ d : PCIeDescriptor,
    descriptorMatches m d = true ↔ NamesDescriptor spec.toList d
  classified : ∀ (descriptors : List PCIeDescriptor) claims, ∀ d ∈ descriptors,
    NamesDescriptor spec.toList d → resolveMultiset [spec] descriptors claims ≠ .ok ⟨.config, []⟩

theorem isHex_newline : isHex '\n' = false := by decide

theorem newline_not_mem {text : List Char} (hex : text.all isHex = true) : '\n' ∉ text := by
  intro inside
  have bad := List.all_eq_true.1 hex '\n' inside
  rw [isHex_newline] at bad
  exact absurd bad Bool.false_ne_true

theorem InGrammar.newline_not_mem {spec : List Char} (grammar : InGrammar spec) : '\n' ∉ spec := by
  rcases grammar with ⟨vendor, device, _, vendorHex, _, deviceHex, rfl⟩ | ⟨digits, _, hex, rfl⟩
  · have := Capacity.newline_not_mem vendorHex
    have := Capacity.newline_not_mem deviceHex
    simp_all
  · have := Capacity.newline_not_mem hex
    simp_all

theorem dropFinalNewline_eq_self {text : List Char} (clean : '\n' ∉ text) :
    dropFinalNewline text = text := by
  unfold dropFinalNewline
  split
  · rename_i last
    exact absurd (List.mem_of_getLast? last) clean
  · rfl

theorem dropFinalNewline_append (text : List Char) : dropFinalNewline (text ++ ['\n']) = text := by
  simp [dropFinalNewline]

theorem dropFinalNewline_cases (text : List Char) :
    dropFinalNewline text = text ∨ text = dropFinalNewline text ++ ['\n'] := by
  unfold dropFinalNewline
  split
  · rename_i last
    right
    exact (List.dropLast_append_getLast? '\n' last).symm
  · exact .inl rfl

theorem deviceForm_iff (body : List Char) :
    (body.length = 9 ∧ (body.take 4).all isHex = true ∧ body[4]? = some ':' ∧
      (body.drop 5).all isHex = true) ↔ DeviceForm (body.take 4) (body.drop 5) body := by
  constructor
  · rintro ⟨long, vendorHex, colon, deviceHex⟩
    refine ⟨by simp [long], vendorHex, by simp [long], deviceHex, ?_⟩
    have rest : body.drop 4 = ':' :: body.drop 5 := by
      rw [List.drop_eq_getElem_cons (by omega)]
      congr 1
      rw [List.getElem?_eq_getElem (by omega)] at colon
      exact Option.some.inj colon
    rw [← rest, List.take_append_drop]
  · rintro ⟨vendorLong, vendorHex, deviceLong, deviceHex, form⟩
    have long : body.length = 9 := by
      rw [form]
      simp only [List.length_append, List.length_cons]
      omega
    refine ⟨long, vendorHex, ?_, deviceHex⟩
    rw [form, List.getElem?_append_right (by omega), vendorLong]
    rfl

theorem DeviceForm.parts {vendor device body : List Char} (form : DeviceForm vendor device body) :
    body.take 4 = vendor ∧ body.drop 5 = device := by
  obtain ⟨vendorLong, _, _, _, rfl⟩ := form
  constructor
  · rw [List.take_left' vendorLong]
  · rw [List.drop_append, vendorLong]
    simp [List.drop_of_length_le, vendorLong]

theorem afterClass_eq_some {body digits : List Char} :
    afterClass body = some digits ↔ body = ['c', 'l', 'a', 's', 's', '='] ++ digits := by
  constructor
  · intro found
    unfold afterClass at found
    split at found
    · rw [Option.some.inj found]
      rfl
    · cases found
  · rintro rfl
    rfl

theorem ClassForm.length {digits body : List Char} (form : ClassForm digits body) :
    body.length ≠ 9 := by
  obtain ⟨long, _, rfl⟩ := form
  simp only [List.length_append, List.length_cons, List.length_nil]
  omega

theorem parse_deviceForm {spec : String} {vendor device : List Char}
    (form : DeviceForm vendor device (dropFinalNewline spec.toList)) :
    parseMatchSpec spec =
      .ok (.vendorDevice (String.ofList (spec.toList.take 4)) (String.ofList (spec.toList.drop 5))) := by
  obtain ⟨taken, dropped⟩ := form.parts
  rw [← taken, ← dropped] at form
  simp only [parseMatchSpec]
  rw [if_pos ((deviceForm_iff _).2 form)]

theorem parse_classForm {spec : String} {digits : List Char}
    (form : ClassForm digits (dropFinalNewline spec.toList)) :
    parseMatchSpec spec = .ok (.classPrefix (String.ofList digits)) := by
  have other : ¬ (dropFinalNewline spec.toList).length = 9 := form.length
  obtain ⟨long, hex, same⟩ := form
  simp only [parseMatchSpec]
  rw [if_neg (fun shape => other shape.1), afterClass_eq_some.2 same]
  exact if_pos ⟨long, hex⟩

theorem grammar_of_parse {spec : String} {m : MatchSpec} (parsed : parseMatchSpec spec = .ok m) :
    InGrammar (dropFinalNewline spec.toList) := by
  simp only [parseMatchSpec] at parsed
  split at parsed
  · rename_i shape
    exact .inl ⟨_, _, (deviceForm_iff _).1 shape⟩
  · split at parsed
    · rename_i digits found
      split at parsed
      · rename_i shape
        exact .inr ⟨digits, shape.1, shape.2, afterClass_eq_some.1 found⟩
      · cases parsed
    · cases parsed

theorem parse_of_grammar {spec : String} (grammar : InGrammar (dropFinalNewline spec.toList)) :
    ∃ m, parseMatchSpec spec = .ok m := by
  rcases grammar with ⟨vendor, device, form⟩ | ⟨digits, form⟩
  · exact ⟨_, parse_deviceForm form⟩
  · exact ⟨_, parse_classForm form⟩

theorem matches_iff_names {spec : String} (grammar : InGrammar spec.toList) {m : MatchSpec}
    (parsed : parseMatchSpec spec = .ok m) (d : PCIeDescriptor) :
    descriptorMatches m d = true ↔ NamesDescriptor spec.toList d := by
  have whole := dropFinalNewline_eq_self grammar.newline_not_mem
  rcases grammar with ⟨vendor, device, form⟩ | ⟨digits, form⟩
  · obtain ⟨taken, dropped⟩ := form.parts
    rw [parse_deviceForm (whole.symm ▸ form), taken, dropped] at parsed
    obtain rfl := Except.ok.inj parsed
    simp only [descriptorMatches, Bool.and_eq_true, decide_eq_true_eq, NamesDescriptor]
    constructor
    · rintro ⟨sameVendor, sameDevice⟩
      refine .inl ⟨vendor, device, form, ?_, ?_⟩
      · rw [sameVendor, String.toList_ofList]
      · rw [sameDevice, String.toList_ofList]
    · rintro (⟨v, w, other, rfl, rfl⟩ | ⟨digits, other, _⟩)
      · obtain ⟨takenToo, droppedToo⟩ := other.parts
        rw [← taken, ← dropped, takenToo, droppedToo, String.ofList_toList, String.ofList_toList]
        exact ⟨rfl, rfl⟩
      · have long := form
        obtain ⟨vendorLong, _, deviceLong, _, same⟩ := long
        refine absurd ?_ other.length
        rw [same]
        simp only [List.length_append, List.length_cons]
        omega
  · rw [parse_classForm (whole.symm ▸ form)] at parsed
    obtain rfl := Except.ok.inj parsed
    simp only [descriptorMatches, List.isPrefixOf_iff_prefix, String.toList_ofList, NamesDescriptor]
    constructor
    · intro first
      exact .inr ⟨digits, form, first⟩
    · rintro (⟨v, w, other, _⟩ | ⟨others, other, first⟩)
      · obtain ⟨vendorLong, _, deviceLong, _, same⟩ := other
        refine absurd ?_ form.length
        rw [same]
        simp only [List.length_append, List.length_cons]
        omega
      · have same : digits = others := by
          have forms := form.2.2.symm.trans other.2.2
          exact List.append_cancel_left forms
        rw [same]
        exact first

theorem classified_of_match {spec : String} {m : MatchSpec} (parsed : parseMatchSpec spec = .ok m)
    {descriptors : List PCIeDescriptor} {d : PCIeDescriptor} (present : d ∈ descriptors)
    (isMatch : descriptorMatches m d = true) (claims : List PCIeClaim) :
    resolveMultiset [spec] descriptors claims ≠ .ok ⟨.config, []⟩ := by
  have found : descriptors.any (descriptorMatches m) = true := List.any_eq_true.2 ⟨d, present, isMatch⟩
  simp only [resolveMultiset, parseMatchSpecs, parsed, List.any_cons, List.any_nil, found]
  simp only [Bool.not_true, Bool.or_false, Bool.false_eq_true, if_false]
  split <;> simp

/-- The parser keeps to the grammar except on a spec with a newline behind it. -/
theorem specAnswered_iff (spec : String) :
    SpecAnswered spec ↔ ¬ ∃ body, InGrammar body ∧ spec.toList = body ++ ['\n'] := by
  constructor
  · rintro answered ⟨body, grammar, same⟩
    have whole : InGrammar (dropFinalNewline spec.toList) := by
      rw [same, dropFinalNewline_append]
      exact grammar
    have beyond := (answered.accepted.1 (parse_of_grammar whole)).newline_not_mem
    rw [same] at beyond
    exact beyond (by simp)
  · intro clean
    have within : ∀ m, parseMatchSpec spec = .ok m → InGrammar spec.toList := by
      intro m parsed
      rcases dropFinalNewline_cases spec.toList with same | newline
      · rw [← same]
        exact grammar_of_parse parsed
      · exact absurd ⟨_, grammar_of_parse parsed, newline⟩ clean
    have accepts : InGrammar spec.toList → ∃ m, parseMatchSpec spec = .ok m := by
      intro grammar
      apply parse_of_grammar
      rw [dropFinalNewline_eq_self grammar.newline_not_mem]
      exact grammar
    refine ⟨⟨fun ⟨m, parsed⟩ => within m parsed, accepts⟩, ?_, ?_⟩
    · intro m parsed d
      exact matches_iff_names (within m parsed) parsed d
    · intro descriptors claims d present names
      have grammar : InGrammar spec.toList := by
        rcases names with ⟨vendor, device, form, _⟩ | ⟨digits, form, _⟩
        · exact .inl ⟨vendor, device, form⟩
        · exact .inr ⟨digits, form⟩
      obtain ⟨m, parsed⟩ := accepts grammar
      exact classified_of_match parsed present ((matches_iff_names grammar parsed d).2 names) claims

def ethernetCard : PCIeDescriptor := ⟨"0000:3b:00.0", "8086", "1572", "020000", "X710"⟩

/-- A spec with a newline is accepted and matches nothing, though its card is there. -/
theorem newline_spec_matches_nothing :
    ¬ SpecAnswered "8086:1572\n" ∧
    parseMatchSpec "8086:1572\n" = .ok (.vendorDevice "8086" "1572\n") ∧
    resolveMultiset ["8086:1572\n"] [ethernetCard] [] = .ok ⟨.config, []⟩ := by
  have parsed : parseMatchSpec "8086:1572\n" = .ok (.vendorDevice "8086" "1572\n") := by
    decide +kernel
  refine ⟨?_, parsed, by decide +kernel⟩
  intro answered
  have beyond := (answered.accepted.1 ⟨_, parsed⟩).newline_not_mem
  exact beyond (by decide +kernel)

end Kdive.Capacity
