import Kdive.Capacity.Operations

/-!
The statements of the allocation services that only read: gates, pricing, replays, placement
and guards. Whatever a transaction is required to keep, they keep.
-/
namespace Kdive.Capacity
open Table Txn

theorem reads_liftExcept {α : Type} (answer : Except AllocError α) :
    Reads (liftExcept answer) := by
  cases answer with
  | ok a => exact reads_pure a
  | error e => exact reads_throw e

theorem reads_getAllocation (id : Uuid) : Reads (getAllocation id) :=
  reads_bind reads_get fun _ => reads_pure _

theorem reads_costClassOf (a : Allocation) : Reads (costClassOf a) := by
  refine reads_bind reads_get fun db => ?_
  split
  · exact reads_pure _
  · exact reads_throw _

theorem reads_resolveCoeff (costClass : String) : Reads (resolveCoeff costClass) := by
  refine reads_bind reads_get fun db => ?_
  split
  · exact reads_pure _
  · exact reads_throw _

theorem reads_bookedRate (a : Allocation) : Reads (bookedRate a) := by
  unfold bookedRate
  split
  · refine reads_bind (reads_costClassOf a) fun costClass => ?_
    refine reads_bind (reads_resolveCoeff costClass) fun coeff => ?_
    exact reads_bind (reads_bind reads_get fun _ => reads_pure _) fun _ => reads_pure _
  · exact reads_throw _

theorem reads_actualCost (a : Allocation) : Reads (actualCost a) := by
  unfold actualCost
  split
  · exact reads_pure _
  · exact reads_bind (reads_bookedRate a) fun _ => reads_pure _

theorem reads_extensionEstimate (a : Allocation) (hours : ℚ) :
    Reads (extensionEstimate a hours) :=
  reads_bind (reads_bookedRate a) fun _ => reads_liftExcept _

theorem reads_resolveReplay (principal key kind : String) :
    Reads (resolveReplay principal key kind) := by
  refine reads_bind reads_get fun db => ?_
  split
  · exact reads_pure _
  · refine reads_bind (reads_getAllocation _) fun found => ?_
    cases found with
    | none => exact reads_throw _
    | some a => exact reads_pure _

theorem reads_replayIfSent (principal kind : String) (key : Option String) :
    Reads (replayIfSent principal key kind) := by
  cases key with
  | none => exact reads_pure _
  | some k => exact reads_resolveReplay principal k kind

theorem reads_priceWindowAndEstimate (bounds : LeaseBounds) (request : AllocationRequest) :
    Reads (priceWindowAndEstimate bounds request) := by
  refine reads_bind (reads_liftExcept _) fun hours => ?_
  refine reads_bind (reads_liftExcept _) fun _ => ?_
  refine reads_bind (reads_liftExcept _) fun _ => ?_
  refine reads_bind (reads_liftExcept _) fun _ => ?_
  refine reads_bind (reads_resolveCoeff _) fun coeff => ?_
  refine reads_bind (reads_liftExcept _) fun accel => ?_
  exact reads_bind (reads_liftExcept _) fun _ => reads_pure _

theorem reads_withinBudget (project : String) (estimate : ℚ) :
    Reads (withinBudget project estimate) := by
  refine reads_bind reads_get fun db => ?_
  split <;> exact reads_pure _

theorem reads_quotaStatus (project : String) : Reads (quotaStatus project) := by
  refine reads_bind reads_get fun db => ?_
  exact reads_bind (reads_bind reads_get fun _ => reads_pure _) fun _ => reads_pure _

theorem reads_withinAllocQuota (project : String) : Reads (withinAllocQuota project) := by
  refine reads_bind (reads_quotaStatus project) fun status => ?_
  split <;> exact reads_pure _

theorem reads_hostCapCheck (r : Resource) (project : String) : Reads (hostCapCheck r project) := by
  unfold hostCapCheck
  split
  · exact reads_throw _
  · refine reads_bind (reads_bind reads_get fun _ => reads_pure _) fun occupancy => ?_
    split <;> exact reads_pure _

theorem reads_resolvePcieClaim (request : AllocationRequest) :
    Reads (resolvePcieClaim request) := by
  unfold resolvePcieClaim
  split
  · exact reads_pure _
  · refine reads_bind (reads_bind reads_get fun _ => reads_pure _) fun claims => ?_
    refine reads_bind (reads_liftExcept _) fun resolution => ?_
    split <;> exact reads_pure _

theorem reads_admissionGate (request : AllocationRequest) (estimate : ℚ) :
    Reads (admissionGate request estimate) := by
  unfold admissionGate
  split
  · exact reads_pure _
  · refine reads_bind (reads_withinAllocQuota _) fun quota => ?_
    split
    · exact reads_pure _
    · refine reads_bind (reads_withinBudget _ _) fun budget => ?_
      split
      · exact reads_pure _
      · refine reads_bind (reads_hostCapCheck _ _) fun host => ?_
        cases host with
        | some denial => exact reads_pure _
        | none => exact reads_resolvePcieClaim request

theorem reads_withinPendingQuota (project : String) : Reads (withinPendingQuota project) := by
  refine reads_bind reads_get fun db => ?_
  split
  · exact reads_pure _
  · exact reads_bind reads_get fun _ => reads_pure _

theorem reads_enrichFundingDenial (project : String) (estimate : ℚ) (denial : Denial) :
    Reads (enrichFundingDenial project estimate denial) := by
  unfold enrichFundingDenial
  split
  · refine reads_bind (reads_bind (reads_quotaStatus project) fun status => ?_)
      fun _ => reads_pure _
    refine reads_bind (reads_bind (reads_bind reads_get fun _ => reads_pure _) fun snapshot => ?_)
      fun _ => reads_pure _
    split
    · exact reads_pure _
    · dsimp only
      split <;> exact reads_pure _
  · exact reads_pure _

theorem reads_withFreeDevices (specs : List String) (hosts : List Resource) :
    Reads (withFreeDevices specs hosts) := by
  induction hosts with
  | nil => exact reads_pure _
  | cons r rest ih =>
    refine reads_bind (reads_bind reads_get fun _ => reads_pure _) fun claims => ?_
    refine reads_bind (reads_liftExcept _) fun resolution => ?_
    exact reads_bind ih fun _ => reads_pure _

theorem reads_candidateHosts (a : Allocation) : Reads (candidateHosts a) := by
  unfold candidateHosts
  split
  · exact reads_pure _
  · refine reads_bind reads_get fun db => ?_
    split
    · exact reads_pure _
    · exact reads_withFreeDevices _ _

theorem reads_lockSystems (systems : List Uuid) : Reads (lockSystems systems) := by
  induction systems with
  | nil => exact reads_pure _
  | cons id rest ih => exact reads_bind (reads_acquire _) fun _ => ih

theorem reads_guardExternalBootRelease (boot : BootGuard) (id : Uuid) :
    Reads (guardExternalBootRelease boot id) := by
  refine reads_bind reads_get fun db => ?_
  exact reads_bind (reads_lockSystems _) fun _ => reads_pure _

theorem reads_releaseRefused (boot : BootGuard) (id : Uuid) : Reads (releaseRefused boot id) := by
  refine reads_bind (reads_guardExternalBootRelease boot id) fun refused => ?_
  cases refused <;> exact reads_pure _

end Kdive.Capacity
