import Wall.Lib.Largest

/-!
# Health

`monitoring/health_status.cpp`: a status for each component, and the overall status, which is the worst of them: an
unavailable component outweighs a degraded one, that one a component of unknown status, and that one a healthy
component.
-/

namespace Wall

open Largest

inductive RuntimeComponent
  | ingestion
  | marketData
  | risk
  | execution
  deriving DecidableEq, Repr

inductive HealthStatus
  | unknown
  | healthy
  | degraded
  | unavailable
  deriving DecidableEq, Inhabited, Repr

def RuntimeComponent.componentIndex : RuntimeComponent → Fin 4
  | .ingestion => 0
  | .marketData => 1
  | .risk => 2
  | .execution => 3

private theorem RuntimeComponent.componentIndex_injective {c c' : RuntimeComponent}
    (h : c.componentIndex = c'.componentIndex) : c = c' := by
  revert h
  cases c <;> cases c' <;> decide

private theorem RuntimeComponent.exists_componentIndex (i : Fin 4) : ∃ c : RuntimeComponent, c.componentIndex = i := by
  match i with
  | 0 => exact ⟨.ingestion, rfl⟩
  | 1 => exact ⟨.marketData, rfl⟩
  | 2 => exact ⟨.risk, rfl⟩
  | 3 => exact ⟨.execution, rfl⟩

structure RuntimeHealthStatus where
  componentStatuses : Vector HealthStatus 4 := .replicate 4 .unknown
  deriving DecidableEq, Repr

namespace RuntimeHealthStatus

def setStatus (health : RuntimeHealthStatus) (component : RuntimeComponent) (status : HealthStatus) :
    RuntimeHealthStatus where
  componentStatuses := health.componentStatuses.set component.componentIndex status

def getStatus (health : RuntimeHealthStatus) (component : RuntimeComponent) : HealthStatus :=
  health.componentStatuses[component.componentIndex]

/-- The loop of `overall_status`, with its two flags. -/
def scanStatuses : List HealthStatus → Bool → Bool → HealthStatus
  | [], hasUnknown, hasDegraded =>
    if hasDegraded then .degraded
    else if hasUnknown then .unknown
    else .healthy
  | status :: statuses, hasUnknown, hasDegraded =>
    if status = .unavailable then .unavailable
    else
      scanStatuses statuses (hasUnknown || status = .unknown) (hasDegraded || status = .degraded)

def overallStatus (health : RuntimeHealthStatus) : HealthStatus :=
  scanStatuses health.componentStatuses.toList false false

theorem getStatus_setStatus (health : RuntimeHealthStatus) (component other : RuntimeComponent)
    (status : HealthStatus) : (health.setStatus component status).getStatus other =
      if component = other then status else health.getStatus other := by
  unfold getStatus setStatus
  by_cases h : component = other
  · subst h
    simp
  · rw [if_neg h]
    have hne : (component.componentIndex : Nat) ≠ other.componentIndex := fun heq =>
      h (RuntimeComponent.componentIndex_injective (Fin.ext heq))
    simp [Vector.getElem_set_ne, hne]

theorem getStatus_initial (component : RuntimeComponent) :
    ({} : RuntimeHealthStatus).getStatus component = .unknown := by
  cases component <;> rfl

end RuntimeHealthStatus

namespace HealthStatus

/-- How bad a status is. -/
def severity : HealthStatus → Nat
  | healthy => 0
  | unknown => 1
  | degraded => 2
  | unavailable => 3

private theorem severity_injective {status status' : HealthStatus} (h : status.severity = status'.severity) :
    status = status' := by
  revert h
  cases status <;> cases status' <;> decide

end HealthStatus

namespace RuntimeHealthStatus

/-- The loop answers with the worst of what it has seen. -/
private theorem severity_scanStatuses (statuses : List HealthStatus) (hasUnknown hasDegraded : Bool) :
    (scanStatuses statuses hasUnknown hasDegraded).severity =
      largest (if hasDegraded then 2 else if hasUnknown then 1 else 0) (statuses.map HealthStatus.severity) := by
  induction statuses generalizing hasUnknown hasDegraded with
  | nil => cases hasUnknown <;> cases hasDegraded <;> rfl
  | cons status statuses ih =>
    rw [scanStatuses, List.map_cons, largest_cons]
    split
    · rename_i hunavailable
      rw [hunavailable]
      refine (max_eq_left (largest_le_iff.2 ⟨?_, ?_⟩)).symm
      · cases hasUnknown <;> cases hasDegraded <;> decide
      · intro severity hseverity
        obtain ⟨status, -, rfl⟩ := List.mem_map.1 hseverity
        cases status <;> decide
    · rw [ih, ← largest_max]
      congr 1
      cases status <;> cases hasUnknown <;> cases hasDegraded <;> first | rfl | contradiction

private theorem mem_componentStatuses (health : RuntimeHealthStatus) (status : HealthStatus) :
    status ∈ health.componentStatuses.toList ↔ ∃ component, health.getStatus component = status := by
  rw [Vector.mem_toList_iff, Vector.mem_iff_getElem]
  constructor
  · rintro ⟨i, hi, rfl⟩
    obtain ⟨component, hcomponent⟩ := RuntimeComponent.exists_componentIndex ⟨i, hi⟩
    exact ⟨component, by simp [getStatus, hcomponent]⟩
  · rintro ⟨component, rfl⟩
    exact ⟨component.componentIndex, component.componentIndex.isLt, rfl⟩

/-- The overall status is the worst status of a component. -/
theorem overallStatus_worst (health : RuntimeHealthStatus) :
    (∃ component, health.getStatus component = health.overallStatus) ∧
      ∀ component, (health.getStatus component).severity ≤ health.overallStatus.severity := by
  have hseverity : health.overallStatus.severity =
      largest 0 (health.componentStatuses.toList.map HealthStatus.severity) := severity_scanStatuses _ false false
  have hle : ∀ component, (health.getStatus component).severity ≤ health.overallStatus.severity := by
    intro component
    rw [hseverity]
    exact le_largest (List.mem_map_of_mem ((health.mem_componentStatuses _).2 ⟨component, rfl⟩))
  refine ⟨?_, hle⟩
  rcases largest_mem 0 (health.componentStatuses.toList.map HealthStatus.severity) with hzero | hmem
  · have hleast := hle .ingestion
    rw [hseverity, hzero, Nat.le_zero] at hleast
    exact ⟨.ingestion, HealthStatus.severity_injective (by rw [hseverity, hzero, hleast])⟩
  · obtain ⟨status, hstatus, heq⟩ := List.mem_map.1 hmem
    obtain ⟨component, hcomponent⟩ := (health.mem_componentStatuses _).1 hstatus
    exact ⟨component, HealthStatus.severity_injective (by rw [hcomponent, heq, hseverity])⟩

end RuntimeHealthStatus

end Wall
