/-
  Borehole.Server.PortMgr

  Port pool for tunnel assignment (crates/server/src/port_mgr.rs).

  The pool knows only the free ports.  Each method is one critical section of
  the source; the random choice of `acquire` is an argument, checked against
  what the pool could have chosen.
-/

import Mathlib.Data.Finset.Basic
import Mathlib.Data.List.Range
import Mathlib.Data.Finset.Dedup

namespace Borehole

/-- Manages the set of currently-free ports within an inclusive range. -/
structure PortManager where
  available : Finset UInt16
  range : UInt16 × UInt16
  deriving DecidableEq

namespace PortManager

/-- Every port in `[start, stop]`. -/
def ports (start stop : UInt16) : Finset UInt16 :=
  ((List.range' start.toNat (stop.toNat + 1 - start.toNat)).map UInt16.ofNat).toFinset

/-- A pool with every port in `[start, stop]` (inclusive) free. -/
def new (start stop : UInt16) : PortManager where
  available := ports start stop
  range := (start, stop)

/-- Whether `port` falls within the configured inclusive range. -/
def inRange (pm : PortManager) (port : UInt16) : Bool :=
  pm.range.1 ≤ port && port ≤ pm.range.2

/-- `acquire` returning `chosen`: any free port, and `None` only from an empty
    pool. -/
def acquire (pm : PortManager) : Option UInt16 → Option PortManager
  | none => if pm.available = ∅ then some pm else none
  | some port =>
      if port ∈ pm.available then some { pm with available := pm.available.erase port } else none

/-- Assigns a specific port if it is within range and currently free. -/
def acquireSpecific (pm : PortManager) (port : UInt16) : Option UInt16 × PortManager :=
  if !pm.inRange port then (none, pm)
  else if port ∈ pm.available then
    (some port, { pm with available := pm.available.erase port })
  else (none, pm)

/-- Returns a port to the pool.  Ports outside the range are ignored. -/
def release (pm : PortManager) (port : UInt16) : PortManager :=
  if !pm.inRange port then pm
  else { pm with available := insert port pm.available }

/-! ## Specifications of the methods -/

theorem mem_ports {start stop port : UInt16} :
    port ∈ ports start stop ↔ start ≤ port ∧ port ≤ stop := by
  simp only [ports, List.mem_toFinset, List.mem_map, List.mem_range', UInt16.le_iff_toNat_le]
  constructor
  · rintro ⟨n, ⟨i, hi, rfl⟩, rfl⟩
    have hlt : start.toNat + 1 * i < 2 ^ 16 := by
      have := stop.toNat_lt
      omega
    rw [UInt16.toNat_ofNat_of_lt' hlt]
    omega
  · rintro ⟨h₁, h₂⟩
    exact ⟨port.toNat, ⟨port.toNat - start.toNat, by omega, by omega⟩, UInt16.ofNat_toNat⟩

theorem inRange_iff {pm : PortManager} {port : UInt16} :
    pm.inRange port = true ↔ pm.range.1 ≤ port ∧ port ≤ pm.range.2 := by
  simp [inRange]

theorem acquire_some {pm pm' : PortManager} {port : UInt16}
    (h : pm.acquire (some port) = some pm') :
    port ∈ pm.available ∧ pm' = { pm with available := pm.available.erase port } := by
  simp only [acquire] at h
  split at h
  · exact ⟨‹_›, (Option.some.inj h).symm⟩
  · cases h

theorem acquire_none {pm pm' : PortManager} (h : pm.acquire none = some pm') :
    pm.available = ∅ ∧ pm' = pm := by
  simp only [acquire] at h
  split at h
  · exact ⟨‹_›, (Option.some.inj h).symm⟩
  · cases h

theorem acquireSpecific_some {pm : PortManager} {port p : UInt16}
    (h : (pm.acquireSpecific port).1 = some p) :
    p = port ∧ port ∈ pm.available ∧
      (pm.acquireSpecific port).2 = { pm with available := pm.available.erase port } := by
  by_cases hr : pm.inRange port = true
  · by_cases hm : port ∈ pm.available
    · simp only [acquireSpecific, hr, hm, Bool.not_true, Bool.false_eq_true, if_false, if_true,
        Option.some.injEq] at h ⊢
      exact ⟨h.symm, trivial, trivial⟩
    · simp [acquireSpecific, hr, hm] at h
  · simp [acquireSpecific, hr] at h

theorem acquireSpecific_none {pm : PortManager} {port : UInt16}
    (h : (pm.acquireSpecific port).1 = none) :
    (pm.inRange port = false ∨ port ∉ pm.available) ∧ (pm.acquireSpecific port).2 = pm := by
  by_cases hr : pm.inRange port = true
  · by_cases hm : port ∈ pm.available
    · simp [acquireSpecific, hr, hm] at h
    · simp [acquireSpecific, hr, hm]
  · simp [acquireSpecific, hr]

@[simp] theorem release_range (pm : PortManager) (port : UInt16) :
    (pm.release port).range = pm.range := by
  unfold release
  split <;> rfl

theorem release_available {pm : PortManager} {port : UInt16} (h : pm.inRange port = true) :
    (pm.release port).available = insert port pm.available := by
  simp [release, h]

end PortManager
end Borehole
