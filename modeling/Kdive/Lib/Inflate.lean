import Mathlib.Tactic.Common

/-!
A streaming decompressor: an automaton that gives out a byte, asks for one, ends or fails. A call of
it gets some input and a limit on its output; it stops before the byte that would pass the limit and
gives the input it did not look at back.
-/
namespace Inflate

abbrev Bytes := List UInt8

inductive Move (σ : Type)
  | emit (b : UInt8) (next : σ)
  | want (next : UInt8 → σ)
  | finished
  | failed

structure Machine (σ : Type) where
  start : σ
  step : σ → Move σ
  /-- There is a header to read. -/
  header : ∃ next, step start = .want next
  /-- Behind the last byte of output there is a trailer to read. -/
  trailer : ∀ {s b t}, step s = .emit b t → step t ≠ .finished

/-- How a call ended: at the limit or at the end of its input, at the end of the stream, or with an
error and nothing to return. -/
inductive Result (σ : Type)
  | paused (produced tail : Bytes) (state : σ)
  | ended (produced unused : Bytes)
  | failed

def Result.prepend {σ : Type} (b : UInt8) : Result σ → Result σ
  | .paused produced tail state => .paused (b :: produced) tail state
  | .ended produced unused => .ended (b :: produced) unused
  | .failed => .failed

variable {σ : Type}

def Machine.decompress (m : Machine σ) (limit : Nat) (data : Bytes) (s : σ) : Result σ :=
  match m.step s with
  | .emit b t =>
    match limit with
    | 0 => .paused [] data s
    | limit + 1 => (m.decompress limit data t).prepend b
  | .want next =>
    match data with
    | [] => .paused [] [] s
    | c :: data => m.decompress limit data (next c)
  | .finished => .ended [] data
  | .failed => .failed
termination_by limit + data.length

/-- The machine reads all of the input and gives out all of the output on its way. -/
inductive Runs (m : Machine σ) : σ → Bytes → Bytes → σ → Prop
  | refl (s : σ) : Runs m s [] [] s
  | emit {s t u : σ} {b : UInt8} {input output : Bytes} (gives : m.step s = .emit b t)
      (rest : Runs m t input output u) : Runs m s input (b :: output) u
  | want {s u : σ} {next : UInt8 → σ} {c : UInt8} {input output : Bytes}
      (asks : m.step s = .want next) (rest : Runs m (next c) input output u) :
      Runs m s (c :: input) output u

def Machine.Holds (m : Machine σ) (input output : Bytes) : Prop :=
  ∃ t, Runs m m.start input output t ∧ m.step t = .finished

variable {m : Machine σ}

theorem Runs.append {s t u : σ} {input output more others : Bytes}
    (first : Runs m s input output t) (second : Runs m t more others u) :
    Runs m s (input ++ more) (output ++ others) u := by
  induction first with
  | refl s => exact second
  | emit gives _ ih => exact .emit gives (ih second)
  | want asks _ ih => exact .want asks (ih second)

theorem Runs.cut {s t u : σ} {input output more whole : Bytes} (first : Runs m s input output t)
    (ended : m.step u = .finished) (all : Runs m s (input ++ more) whole u) :
    ∃ others, whole = output ++ others ∧ Runs m t more others u := by
  induction first generalizing whole with
  | refl s => exact ⟨whole, rfl, all⟩
  | @emit s t v b input output gives _ ih =>
    generalize joined : input ++ more = combined at all ih
    cases all with
    | refl => exact absurd (gives.symm.trans ended) nofun
    | emit gives' rest =>
      obtain ⟨rfl, rfl⟩ := Move.emit.inj (gives.symm.trans gives')
      obtain ⟨others, rfl, onward⟩ := ih rest
      exact ⟨others, rfl, onward⟩
    | want asks _ => exact absurd (gives.symm.trans asks) nofun
  | want asks _ ih =>
    rw [List.cons_append] at all
    cases all with
    | emit gives _ => exact absurd (asks.symm.trans gives) nofun
    | want asks' rest =>
      obtain rfl := Move.want.inj (asks.symm.trans asks')
      exact ih rest

def Machine.Waits (m : Machine σ) (s : σ) : Prop :=
  (∃ b t, m.step s = .emit b t) ∨ ∃ next, m.step s = .want next

theorem Machine.Waits.not_ended {s t : σ} {output : Bytes} (waits : m.Waits s)
    (runs : Runs m s [] output t) : m.step t ≠ .finished := by
  generalize empty : ([] : Bytes) = input at runs
  induction runs with
  | refl s =>
    intro ended
    rcases waits with ⟨b, t, gives⟩ | ⟨next, asks⟩
    · exact absurd (gives.symm.trans ended) nofun
    · exact absurd (asks.symm.trans ended) nofun
  | @emit s t u b input output gives rest ih =>
    cases step_t : m.step t with
    | emit c v => exact ih (.inl ⟨c, v, step_t⟩) empty
    | want next => exact ih (.inr ⟨next, step_t⟩) empty
    | finished => exact absurd step_t (m.trailer gives)
    | failed =>
      subst empty
      cases rest with
      | refl =>
        intro ended
        exact absurd (step_t.symm.trans ended) nofun
      | emit again _ => exact absurd (step_t.symm.trans again) nofun
  | want asks rest ih => cases empty

def Sound (m : Machine σ) (limit : Nat) (data : Bytes) (s : σ) : Result σ → Prop
  | .paused produced tail t => ∃ input, data = input ++ tail ∧ Runs m s input produced t ∧
      produced.length ≤ limit ∧ ((∃ b u, m.step t = .emit b u ∧ produced.length = limit) ∨
        ∃ next, m.step t = .want next ∧ tail = [])
  | .ended produced unused => ∃ input t, data = input ++ unused ∧ Runs m s input produced t ∧
      produced.length ≤ limit ∧ m.step t = .finished
  | .failed => ∃ input rest produced t, data = input ++ rest ∧ Runs m s input produced t ∧
      m.step t = .failed

theorem Sound.prepend {limit : Nat} {data : Bytes} {s t : σ} {b : UInt8}
    (gives : m.step s = .emit b t) {result : Result σ} (sound : Sound m limit data t result) :
    Sound m (limit + 1) data s (result.prepend b) := by
  cases result with
  | paused produced tail u =>
    obtain ⟨input, rfl, runs, small, stops⟩ := sound
    refine ⟨input, rfl, .emit gives runs, by simpa using small, ?_⟩
    rcases stops with ⟨c, v, again, full⟩ | waits
    · exact .inl ⟨c, v, again, by simpa using full⟩
    · exact .inr waits
  | ended produced unused =>
    obtain ⟨input, u, rfl, runs, small, ended⟩ := sound
    exact ⟨input, u, rfl, .emit gives runs, by simpa using small, ended⟩
  | failed =>
    obtain ⟨input, rest, produced, u, rfl, runs, failed⟩ := sound
    exact ⟨input, rest, b :: produced, u, rfl, .emit gives runs, failed⟩

theorem Sound.consume {limit : Nat} {data : Bytes} {s : σ} {c : UInt8} {next : UInt8 → σ}
    (asks : m.step s = .want next) {result : Result σ}
    (sound : Sound m limit data (next c) result) : Sound m limit (c :: data) s result := by
  cases result with
  | paused produced tail u =>
    obtain ⟨input, rfl, runs, small, stops⟩ := sound
    exact ⟨c :: input, rfl, .want asks runs, small, stops⟩
  | ended produced unused =>
    obtain ⟨input, u, rfl, runs, small, ended⟩ := sound
    exact ⟨c :: input, u, rfl, .want asks runs, small, ended⟩
  | failed =>
    obtain ⟨input, rest, produced, u, rfl, runs, failed⟩ := sound
    exact ⟨c :: input, rest, produced, u, rfl, .want asks runs, failed⟩

theorem sound_decompress (m : Machine σ) (limit : Nat) (data : Bytes) (s : σ) :
    Sound m limit data s (m.decompress limit data s) := by
  fun_induction m.decompress limit data s with
  | case1 data s b t gives => exact ⟨[], rfl, .refl s, Nat.le_refl _, .inl ⟨b, t, gives, rfl⟩⟩
  | case2 data s b t gives limit ih => exact ih.prepend gives
  | case3 limit s next asks => exact ⟨[], rfl, .refl s, Nat.zero_le _, .inr ⟨next, asks, rfl⟩⟩
  | case4 limit s next asks c data ih => exact ih.consume asks
  | case5 limit data s ended => exact ⟨[], s, rfl, .refl s, Nat.zero_le _, ended⟩
  | case6 limit data s failed => exact ⟨[], data, [], s, rfl, .refl s, failed⟩

theorem decompress_progress {limit : Nat} {data produced tail : Bytes} {s t : σ}
    (called : m.decompress limit data s = .paused produced tail t) (positive : 0 < limit)
    (some_data : data ≠ []) :
    tail.length ≤ data.length ∧ (produced ≠ [] ∨ tail.length < data.length) := by
  have sound := sound_decompress m limit data s
  rw [called] at sound
  obtain ⟨input, rfl, _, _, ⟨_, _, _, full⟩ | ⟨_, _, rfl⟩⟩ := sound
  · refine ⟨by simp, .inl ?_⟩
    rintro rfl
    simp at full
    omega
  · exact ⟨by simp, .inr (List.length_pos_iff.2 some_data)⟩

end Inflate
