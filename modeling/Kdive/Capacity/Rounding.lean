import Kdive.Capacity.Lifecycle

/-!
How far the reconciled total of an allocation is from the exact rational cost, when its active
seconds are those of the double they pass. Every amount passes the decimal context, so the total
has its relative error besides the half quantum of the one rounding to the ledger's places.
-/
namespace Kdive.Capacity
open Table Decimal

section Exact

def exactHours (a : Allocation) : ℚ :=
  match a.activeStartedAt, a.activeEndedAt with
  | some started, some ended => ((ended - started : Duration) : ℚ) / 1000000 / secondsPerHour
  | _, _ => 0

def accelOf (db : AllocDb) (a : Allocation) : Option String :=
  (db.systems.rows.find? (fun s => s.allocationId = a.id)).bind SystemRow.accel

def exactRate (coeff : ℚ) (vcpus memoryGb : Int) (accel : Option String) : ℚ :=
  coeff * accelFactor accel * (wCpu * vcpus + wMem * memoryGb)

def exactBookedRate (db : AllocDb) (a : Allocation) : ℚ :=
  match a.requestedVcpus, a.requestedMemoryGb,
      (a.resourceId.bind (find db.resources)).bind (fun r => find db.costClasses r.costClass) with
  | some vcpus, some memoryGb, some c => exactRate c.coeff vcpus memoryGb (accelOf db a)
  | _, _, _ => 0

def exactCost (db : AllocDb) (a : Allocation) : ℚ := exactBookedRate db a * exactHours a

def Allocation.Sized (a : Allocation) : Prop :=
  (∀ vcpus ∈ a.requestedVcpus, |vcpus| ≤ 2 ^ 31) ∧
    ∀ memoryGb ∈ a.requestedMemoryGb, |memoryGb| ≤ 2 ^ 31

instance (a : Allocation) : Decidable a.Sized := inferInstanceAs (Decidable (_ ∧ _))

/-- `total_seconds()` of the active interval is exact, as it is for whole seconds. -/
def Allocation.Timed (a : Allocation) : Prop :=
  ∀ started ∈ a.activeStartedAt, ∀ ended ∈ a.activeEndedAt,
    totalSeconds (ended - started) = ((ended - started : Duration) : ℚ) / 1000000

instance (a : Allocation) : Decidable a.Timed :=
  inferInstanceAs (Decidable (∀ started ∈ a.activeStartedAt, ∀ ended ∈ a.activeEndedAt, _ = _))

end Exact

section Prices

def contextError : ℚ := 5 / 10 ^ precision

theorem contextError_nonneg : 0 ≤ contextError := by norm_num [contextError, precision]

theorem decimal_near (q : ℚ) : Near contextError q (decimal q) := by
  refine (significant_near (by norm_num) precision q).mono ?_
  norm_num [contextError, precision]

theorem decimal_multiple {q : ℚ} (n : ℤ) (quarters : q = n * (1 / 4))
    (small : |n| ≤ 10 ^ 26) : decimal q = q := by
  have shifted : q = ((n * 25 : ℤ) : ℚ) * ((10 : ℕ) : ℚ) ^ (-2 : ℤ) := by
    rw [quarters]
    push_cast
    norm_num
    ring
  rw [decimal, shifted]
  refine significant_exact (by norm_num) precision (n * 25) (-2) ?_
  rw [abs_mul]
  norm_num [precision]
  omega

/-- Sizes and their weights take few digits, so only the coefficient's product is rounded. -/
theorem rate_near (coeff : ℚ) {vcpus memoryGb : Int} (accel : Option String)
    (cpus : |vcpus| ≤ 2 ^ 31) (memory : |memoryGb| ≤ 2 ^ 31) :
    Near (11 / 10 ^ 28) (exactRate coeff vcpus memoryGb accel)
      (rate coeff vcpus memoryGb accel) := by
  rw [abs_le] at cpus memory
  have cpuExact : decimal (wCpu * vcpus) = wCpu * vcpus := by
    refine decimal_multiple (4 * vcpus) ?_ (abs_le.mpr ⟨by omega, by omega⟩)
    push_cast [wCpu]
    ring
  have memoryExact : decimal (wMem * memoryGb) = wMem * memoryGb := by
    refine decimal_multiple memoryGb ?_ (abs_le.mpr ⟨by omega, by omega⟩)
    rw [wMem]
    ring
  have weightExact : decimal (wCpu * vcpus + wMem * memoryGb) = wCpu * vcpus + wMem * memoryGb := by
    refine decimal_multiple (4 * vcpus + memoryGb) ?_ (abs_le.mpr ⟨by omega, by omega⟩)
    push_cast [wCpu, wMem]
    ring
  have scaled := (decimal_near (coeff * accelFactor accel)).mul_right
    (wCpu * vcpus + wMem * memoryGb)
  have rounded := scaled.trans contextError_nonneg (decimal_near _)
  rw [rate, cpuExact, memoryExact, weightExact, exactRate]
  exact rounded.mono (by norm_num [contextError, precision])

theorem activeHours_near {a : Allocation} (timed : a.Timed) :
    Near (1 / 10 ^ 27) (exactHours a) (activeHours a) := by
  cases begun : a.activeStartedAt with
  | none => simp [exactHours, activeHours, begun, Near]
  | some started =>
    cases stopped : a.activeEndedAt with
    | none => simp [exactHours, activeHours, begun, stopped, Near]
    | some ended =>
      simp only [exactHours, activeHours, begun, stopped]
      rw [timed started begun ended stopped]
      refine (decimal_near _).mono ?_
      norm_num [contextError, precision]

theorem cost_near {rate₀ rate₁ hours₀ hours₁ : ℚ} (rates : Near (11 / 10 ^ 28) rate₀ rate₁)
    (hours : Near (1 / 10 ^ 27) hours₀ hours₁) :
    Near (3 / 10 ^ 27) (rate₀ * hours₀) (cost rate₁ hours₁) := by
  have product := rates.mul (by norm_num) hours
  have rounded := product.trans contextError_nonneg (decimal_near _)
  exact rounded.mono (by norm_num [contextError, precision])

end Prices

section Reconciled

variable {db db' : AllocDb} {a : Allocation}

theorem bookedRate_spec {perHour : ℚ} (ran : Txn.exec (bookedRate a) db = .ok (perHour, db')) :
    db' = db ∧ ∃ coeff vcpus memoryGb, a.requestedVcpus = some vcpus ∧
      a.requestedMemoryGb = some memoryGb ∧ perHour = rate coeff vcpus memoryGb (accelOf db a) ∧
      exactBookedRate db a = exactRate coeff vcpus memoryGb (accelOf db a) := by
  unfold bookedRate at ran
  unfold exactBookedRate
  cases cpus : a.requestedVcpus with
  | none => simp [cpus, Txn.throw, Txn.exec] at ran
  | some vcpus =>
    cases memory : a.requestedMemoryGb with
    | none => simp [cpus, memory, Txn.throw, Txn.exec] at ran
    | some memoryGb =>
      cases host : a.resourceId.bind (find db.resources) with
      | none => simp [cpus, memory, host, costClassOf, Txn.exec_bind, Txn.get, Txn.throw,
          Txn.exec] at ran
      | some r =>
        cases class_ : find db.costClasses r.costClass with
        | none => simp [cpus, memory, host, class_, costClassOf, resolveCoeff, Txn.exec_bind,
            Txn.get, Txn.throw, Txn.exec, pure] at ran
        | some c =>
          simp [cpus, memory, host, class_, costClassOf, resolveCoeff, systemAccel, Txn.exec_bind,
            Txn.get, Txn.exec, pure] at ran
          refine ⟨ran.2.symm, c.coeff, vcpus, memoryGb, rfl, rfl, ran.1.symm, ?_⟩
          simp [class_]

theorem actualCost_near {actual : ℚ} (sized : a.Sized) (timed : a.Timed)
    (ran : Txn.exec (actualCost a) db = .ok (actual, db')) :
    db' = db ∧ Near (3 / 10 ^ 27) (exactCost db a) actual := by
  unfold actualCost at ran
  have hours := activeHours_near timed
  split at ran
  · rename_i idle
    simp only [pure, Txn.exec, Except.ok.injEq, Prod.mk.injEq] at ran
    obtain ⟨rfl, rfl⟩ := ran
    rw [idle] at hours
    have none : exactHours a = 0 := hours.zero (by norm_num)
    rw [exactCost, none, mul_zero]
    exact ⟨rfl, by simp [Near]⟩
  · obtain ⟨perHour, db₁, priced, ran⟩ := Txn.exec_bind_ok ran
    obtain ⟨same, coeff, vcpus, memoryGb, cpus, memory, rfl, exact⟩ := bookedRate_spec priced
    simp only [pure, Txn.exec, Except.ok.injEq, Prod.mk.injEq] at ran
    obtain ⟨rfl, rfl⟩ := ran
    have rates := rate_near coeff (accelOf db a) (sized.1 vcpus cpus) (sized.2 memoryGb memory)
    rw [exactCost, exact]
    exact ⟨same, cost_near rates hours⟩

def reservedTotal (db : AllocDb) (id : Uuid) : ℚ :=
  ((db.ledger.filter (fun e => e.allocationId = id ∧ e.eventType = .reserved)).map
    LedgerEntry.kcuDelta).sum

theorem writeDelta_spec {event : LedgerEventType} {delta : ℚ} {answer : Unit}
    (ran : Txn.exec (writeDelta a event delta) db = .ok (answer, db')) :
    ∃ costClass, db'.ledger =
      db.ledger ++ [⟨a.project, a.id, a.resourceId, costClass, event, delta⟩] := by
  obtain ⟨costClass, db₁, read, ran⟩ := Txn.exec_bind_ok ran
  have same : db₁ = db := by
    simp only [costClassOf, Txn.exec_bind, Txn.get, Txn.exec] at read
    split at read
    · simp only [pure, Txn.exec, Except.ok.injEq, Prod.mk.injEq] at read
      exact read.2.symm
    · cases read
  simp only [applyToSpent, Txn.exec_bind, Txn.modify, Txn.get, Txn.exec] at ran
  split at ran
  · cases ran
  · simp only [Txn.exec, Except.ok.injEq, Prod.mk.injEq] at ran
    refine ⟨costClass, ?_⟩
    rw [← ran.2, same]
    rfl

theorem reconcile_spec {delta : ℚ} (metered : (find db.budgets a.project).isSome)
    (ran : Txn.exec (reconcile a) db = .ok (delta, db')) :
    ∃ actual db₁, Txn.exec (actualCost a) db = .ok (actual, db₁) ∧
      quantizeKcu (decimal (actual - reservedTotal db a.id)) = .ok delta ∧
      ∃ costClass, db'.ledger =
        db₁.ledger ++ [⟨a.project, a.id, a.resourceId, costClass, .reconciled, delta⟩] := by
  obtain ⟨b, present⟩ := Option.isSome_iff_exists.mp metered
  obtain ⟨db₀, s₀, got, charged⟩ := Txn.exec_bind_ok ran
  obtain ⟨rfl, rfl⟩ : db₀ = db ∧ s₀ = db := by
    simp only [Txn.get, Txn.exec, Except.ok.injEq, Prod.mk.injEq] at got
    exact ⟨got.1.symm, got.2.symm⟩
  simp only [present] at charged
  obtain ⟨reserved, s₁, summed, afterSum⟩ := Txn.exec_bind_ok charged
  obtain ⟨actual, s₂, priced, afterPrice⟩ := Txn.exec_bind_ok afterSum
  obtain ⟨rounded, s₃, quantized, afterRounding⟩ := Txn.exec_bind_ok afterPrice
  obtain ⟨answer, s₄, written, answered⟩ := Txn.exec_bind_ok afterRounding
  simp only [pure, Txn.exec, Except.ok.injEq, Prod.mk.injEq] at answered
  obtain ⟨rfl, rfl⟩ := answered
  obtain ⟨rfl, rfl⟩ : reserved = reservedTotal s₀ a.id ∧ s₁ = s₀ := by
    simp only [reservedSum, Txn.exec_bind, Txn.get, pure, Txn.exec, Except.ok.injEq,
      Prod.mk.injEq] at summed
    exact ⟨summed.1.symm, summed.2.symm⟩
  have settled : quantizeKcu (decimal (actual - reservedTotal s₁ a.id)) = .ok rounded ∧
      s₃ = s₂ := by
    cases outcome : quantizeKcu (decimal (actual - reservedTotal s₁ a.id)) with
    | error e =>
      rw [outcome] at quantized
      cases quantized
    | ok value =>
      rw [outcome] at quantized
      simp only [liftExcept, pure, Txn.exec, Except.ok.injEq, Prod.mk.injEq] at quantized
      exact ⟨congrArg _ quantized.1, quantized.2.symm⟩
  obtain ⟨costClass, ledger⟩ := writeDelta_spec written
  exact ⟨actual, s₂, priced, settled.1, costClass, by rw [ledger, settled.2]⟩

def entriesTotal (db : AllocDb) (id : Uuid) : ℚ :=
  ((entriesOf db id).map LedgerEntry.kcuDelta).sum

theorem entriesTotal_reserved (fresh : ∀ e ∈ entriesOf db a.id, e.eventType = .reserved) :
    entriesTotal db a.id = reservedTotal db a.id := by
  have same : db.ledger.filter (fun e => e.allocationId = a.id ∧ e.eventType = .reserved) =
      entriesOf db a.id := by
    refine List.filter_congr fun e member => ?_
    by_cases own : e.allocationId = a.id
    · have kind := fresh e (List.mem_filter.mpr ⟨member, by simpa using own⟩)
      simp [own, kind]
    · simp [own]
  rw [entriesTotal, reservedTotal, same]

theorem entriesTotal_append {entry : LedgerEntry} (own : entry.allocationId = a.id)
    (ledger : db'.ledger = db.ledger ++ [entry]) :
    entriesTotal db' a.id = entriesTotal db a.id + entry.kcuDelta := by
  simp [entriesTotal, entriesOf, ledger, own]

theorem quantizeKcu_eq {value rounded : ℚ} (fits : quantizeKcu value = .ok rounded) :
    rounded = quantize kcuPlaces value := by
  simp only [quantizeKcu] at fits
  split at fits
  · exact (Except.ok.inj fits).symm
  · cases fits

end Reconciled

section Sample

def billedRow (micros : Duration) : Allocation where
  id := 1
  createdAt := 0
  principal := "alice"
  project := "demo"
  resourceId := some 7
  state := .releasing
  leaseExpiry := some 3600000000
  requestedVcpus := some 1
  requestedMemoryGb := some 0
  requestedDiskGb := none
  requestedArch := none
  shape := none
  pcieClaim := []
  requestedPcieSpecs := []
  requestedKind := none
  requestedResourceId := none
  requestedPool := none
  activeStartedAt := some 0
  activeEndedAt := some micros
  failureCategory := none

def billedDb (coeff : ℚ) (reservations : List ℚ) : AllocDb :=
  { sampleDb 10 with
    costClasses := Table.insert Table.empty ⟨"local", coeff⟩
    ledger := reservations.map (fun delta => ⟨"demo", 1, some 7, "local", .reserved, delta⟩) }

/-- Fifteen hundred-thousandths less one in the 34th place. -/
def longCoefficient : ℚ := 15 / 10 ^ 5 - 1 / 10 ^ 34

def renewedDb : AllocDb :=
  billedDb (33333 / 100000) [3333 / 10000, 3333 / 10000, 3333 / 10000]

end Sample

end Kdive.Capacity
