import Mathlib.Data.List.Dedup
import Mathlib.Data.String.Basic
import SupportOps.Python.Models

/-!
# Seed data

What `seed_demo_data` stores in an empty database, with events of its two categories, and the
assets that a workload brings along.
-/
namespace SupportOps.Python

open Library

def demoAssets : Table Asset :=
  ⟨[⟨1, "PUMP-101", "unknown"⟩, ⟨2, "GATEWAY-7", "unknown"⟩, ⟨3, "SENSOR-44", "unknown"⟩],
    by decide⟩

def demoRules : Table AutomationRule :=
  ⟨[⟨1, "Offline device triage", "offline", 70, 20, "create_ticket", true⟩,
    ⟨2, "Battery warning escalation", "battery_low", 80, 60, "notify_owner", true⟩], by decide⟩

/-- The database after `seed_demo_data`. -/
def demo : Store := Store.seeded demoAssets demoRules

/-- `sorted({…})`. -/
def sortedSet (texts : List String) : List String :=
  texts.dedup.mergeSort fun a b => decide (a ≤ b)

/-- New assets in one flush, in order. -/
def Store.addAssets (s : Store) (externalIds : List String) : Store :=
  externalIds.foldl (fun s externalId =>
    { s with assets := s.assets.insert ⟨s.assets.nextId, externalId, "unknown"⟩ }) s

/-- An event of the pump that the first rule matches. -/
def pumpOffline : EventCreate where
  assetExternalId := "PUMP-101"
  source := "monitor"
  category := "offline"
  severity := 90
  message := "No heartbeat"
  accepted := by decide

/-- An event of the pump that the second rule matches. -/
def pumpBatteryLow : EventCreate where
  assetExternalId := "PUMP-101"
  source := "monitor"
  category := "battery_low"
  severity := 90
  message := "Battery at 4 percent"
  accepted := by decide

/-- The pump's event with an idempotency key. -/
def keyedOffline : EventCreate :=
  { pumpOffline.toEventBody with
    idempotencyKey := some "pump-101-offline"
    accepted := by decide }

/-- The same event of another asset. -/
def gatewayOffline : EventCreate :=
  { pumpOffline.toEventBody with assetExternalId := "GATEWAY-7", accepted := by decide }

end SupportOps.Python
