import Kdive.Capacity.Records
import Kdive.Lib.Decimal

/-!
The kcu cost model and the lease windows it prices: the size-weighted rate, the guards on
sizes and windows, and the one quantizer every recorded amount passes through. Arithmetic is
that of the default decimal context (28 significant digits, half to even).
-/
namespace Kdive.Capacity
open Table

def precision : ℕ := 28

def decimal (q : ℚ) : ℚ := Decimal.significant 10 precision q

def totalSeconds (d : Duration) : ℚ := Decimal.significant 2 53 ((d : ℚ) / 1000000)

def secondsPerHour : ℚ := 3600

def kcuPlaces : ℕ := 4

def quantizeKcu (value : ℚ) : Except AllocError ℚ :=
  let rounded := Decimal.quantize kcuPlaces value
  if |rounded| * 10 ^ kcuPlaces < 10 ^ precision then .ok rounded else .error (.valueTooLarge value)

theorem quantizeKcu_idempotent {value rounded : ℚ} (first : quantizeKcu value = .ok rounded) :
    quantizeKcu rounded = .ok rounded := by
  simp only [quantizeKcu] at first
  split at first
  · rename_i fits
    cases first
    simp only [quantizeKcu, Decimal.quantize_quantize]
    rw [if_pos fits]
  · cases first

def wCpu : ℚ := 1

def wMem : ℚ := 1 / 4

def accelFactor : Option String → ℚ
  | some "tcg" => 4
  | _ => 1

def rate (coeff : ℚ) (vcpus memoryGb : Int) (accel : Option String) : ℚ :=
  decimal (decimal (coeff * accelFactor accel) *
    decimal (decimal (wCpu * vcpus) + decimal (wMem * memoryGb)))

def cost (ratePerHour hours : ℚ) : ℚ := decimal (ratePerHour * hours)

structure Selector where
  vcpus : Int
  memoryGb : Int

def int32Max : Int := 2 ^ 31 - 1

def validateSize (s : Selector) : Except AllocError Unit :=
  if s.vcpus < 1 then .error (.sizeRejected "vcpus" s.vcpus "must be ≥ 1")
  else if s.memoryGb < 0 then .error (.sizeRejected "memory_gb" s.memoryGb "must be ≥ 0")
  else if int32Max < s.vcpus then .error (.sizeRejected "vcpus" s.vcpus "must be ≤ 2147483647")
  else if int32Max < s.memoryGb then
    .error (.sizeRejected "memory_gb" s.memoryGb "must be ≤ 2147483647")
  else .ok ()

def mbPerGb : Int := 1024

def validateAgainstResource (s : Selector) (r : Resource) : Except AllocError Unit :=
  match r.vcpus, r.memoryMb with
  | some capVcpus, some capMemoryMb =>
    if (capVcpus : Int) < s.vcpus then .error (.exceedsCeiling "vcpus" s.vcpus capVcpus r.id)
    else if (capMemoryMb : Int) < s.memoryGb * mbPerGb then
      .error (.exceedsCeiling "memory_mb" (s.memoryGb * mbPerGb) capMemoryMb r.id)
    else .ok ()
  | _, _ => .error (.noSizeCeiling r.id)

def validateDiskAgainstResource (diskGb : Option Int) (r : Resource) : Except AllocError Unit :=
  match diskGb, r.diskGb with
  | some requested, some ceiling =>
    if (ceiling : Int) < requested then .error (.exceedsCeiling "disk_gb" requested ceiling r.id)
    else .ok ()
  | _, _ => .ok ()

/-- A window as it arrives: a finite number of hours, or one of the things that are not. -/
inductive WindowInput where
  | hours (q : ℚ)
  | notFinite
  | notANumber

def validateWindow : WindowInput → Except AllocError ℚ
  | .notANumber => .error (.windowRejected "is not a number")
  | .notFinite => .error (.windowRejected "must be a finite number")
  | .hours q => if q ≤ 0 then .error (.windowRejected "must be > 0") else .ok q

structure LeaseBounds where
  defaultHours : ℚ
  maxHours : ℚ

def resolveWindowHours (window : Option WindowInput) (bounds : LeaseBounds) : Except AllocError ℚ :=
  match window with
  | none => .ok bounds.defaultHours
  | some input =>
    match validateWindow input with
    | .error e => .error e
    | .ok requested => .ok (min requested bounds.maxHours)

def wholeSeconds (hours : ℚ) : Duration :=
  let seconds := decimal (hours * secondsPerHour)
  (if 0 ≤ seconds then ⌊seconds⌋ else ⌈seconds⌉) * 1000000

structure LeaseExtension where
  addedHours : ℚ
  newExpiry : Instant

/-- `Emax` of the default context. -/
def maxExponent : ℕ := 999999

def microsPerDay : Int := 86400000000

def maxDays : Int := 999999999

/-- `datetime.min` and `datetime.max` in UTC, in microseconds since 1970. -/
def minInstant : Instant := -62135596800000000

def maxInstant : Instant := 253402300799999999

/-- `timedelta(seconds=int(hours * 3600))`. The product traps an overflow of the context; what
underflows is no whole second. -/
def leaseSpan (hours : ℚ) : Except AllocError Duration :=
  if 10 ^ (maxExponent + 1) ≤ |decimal (hours * secondsPerHour)| then .error .decimalOverflow
  else if |wholeSeconds hours / microsPerDay| ≤ maxDays then .ok (wholeSeconds hours)
  else .error .overflow

def addSpan (t : Instant) (d : Duration) : Except AllocError Instant :=
  if minInstant ≤ t + d ∧ t + d ≤ maxInstant then .ok (t + d) else .error .overflow

def clampTo (currentExpiry now target ceiling : Instant) : LeaseExtension :=
  let newExpiry : Instant := min target ceiling
  let base : Instant := max now currentExpiry
  if newExpiry ≤ base then ⟨0, currentExpiry⟩
  else ⟨decimal (totalSeconds (newExpiry - base) / secondsPerHour), newExpiry⟩

def clampExtensionHours (currentExpiry : Instant) (requested : ℚ) (now : Instant)
    (bounds : LeaseBounds) : Except AllocError LeaseExtension := do
  let ceiling ← addSpan now (← leaseSpan bounds.maxHours)
  let target ← addSpan currentExpiry (← leaseSpan requested)
  return clampTo currentExpiry now target ceiling

def resolveAccel (guestArches : List (String × String)) (arch : String) :
    Except AllocError (Option String) :=
  if guestArches = [] then .ok none
  else match guestArches.lookup arch with
    | some accel => .ok (some accel)
    | none => .error (.unsupportedArch arch (guestArches.map Prod.fst))

/-- The hours between the billing stamps, zero for an allocation that never went active. -/
def activeHours (a : Allocation) : ℚ :=
  match a.activeStartedAt, a.activeEndedAt with
  | some started, some ended => decimal (totalSeconds (ended - started) / secondsPerHour)
  | _, _ => 0

end Kdive.Capacity
