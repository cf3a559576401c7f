/-
  Borehole.Server.NodeManager

  In-memory registry of the edge nodes currently connected to the server
  (crates/server/src/node_manager.rs), keyed by `node_id`.

  Each method is one critical section of the source.  `pick` iterates a hash
  map, so which of several least-loaded nodes it returns is unspecified: the
  model takes the result as an argument and says which results are possible.
-/

import Mathlib.Data.Finmap

namespace Borehole

/-- A task of the server.  The id of a control session also names the writer of
    its control stream, which other tasks may hold a clone of. -/
abbrev Tid := Nat

/-- A registered edge node and the bookkeeping needed to route tunnels to it. -/
structure NodeInfo where
  nodeId : String
  name : String
  host : String
  dataPort : UInt16
  tunnelCount : Nat
  /-- Writer to the node's control stream. -/
  tx : Tid
  deriving DecidableEq, Repr

/-- Registry of connected nodes. -/
structure NodeManager where
  nodes : Finmap (fun _ : String => NodeInfo)

namespace NodeManager

/-- No node is registered. -/
def new : NodeManager := ⟨∅⟩

/-- Registers a new node under its server-generated `node_id`. -/
def register (nm : NodeManager) (info : NodeInfo) : NodeManager :=
  ⟨nm.nodes.insert info.nodeId info⟩

/-- Removes a disconnected node.  No-op if `nodeId` is unknown. -/
def remove (nm : NodeManager) (nodeId : String) : NodeManager :=
  ⟨nm.nodes.erase nodeId⟩

/-- `name = some _` restricts the choice to nodes with that name. -/
def candidate (name : Option String) (info : NodeInfo) : Bool :=
  name.all (info.name == ·)

/-- The results `pick name` may have: a candidate with the fewest tunnels, and
    `None` only if there is no candidate. -/
def picks (nm : NodeManager) (name : Option String) : Option NodeInfo → Prop
  | none => ∀ id ∈ nm.nodes.keys, ∀ info ∈ nm.nodes.lookup id, candidate name info = false
  | some info =>
      nm.nodes.lookup info.nodeId = some info ∧ candidate name info = true ∧
      ∀ id ∈ nm.nodes.keys, ∀ other ∈ nm.nodes.lookup id,
        candidate name other = true → info.tunnelCount ≤ other.tunnelCount

instance (nm : NodeManager) (name : Option String) (got : Option NodeInfo) :
    Decidable (nm.picks name got) := by
  cases got <;> unfold picks <;> infer_instance

/-- Rewrites the entry of `nodeId`.  No-op if unknown. -/
def modify (nm : NodeManager) (nodeId : String) (f : NodeInfo → NodeInfo) : NodeManager :=
  match nm.nodes.lookup nodeId with
  | some info => ⟨nm.nodes.insert nodeId (f info)⟩
  | none => nm

/-- Increments the active-tunnel counter for `nodeId`. -/
def incrementTunnels (nm : NodeManager) (nodeId : String) : NodeManager :=
  nm.modify nodeId fun info => { info with tunnelCount := info.tunnelCount + 1 }

/-- Decrements the active-tunnel counter for `nodeId`, saturating at zero. -/
def decrementTunnels (nm : NodeManager) (nodeId : String) : NodeManager :=
  nm.modify nodeId fun info => { info with tunnelCount := info.tunnelCount - 1 }

/-! ## What each method leaves in the registry -/

theorem lookup_register {nm : NodeManager} {info : NodeInfo} {id : String} :
    (nm.register info).nodes.lookup id =
      if id = info.nodeId then some info else nm.nodes.lookup id := by
  unfold register
  split
  · subst id
    exact Finmap.lookup_insert _
  · exact Finmap.lookup_insert_of_ne _ ‹_›

theorem lookup_remove {nm : NodeManager} {nodeId id : String} :
    (nm.remove nodeId).nodes.lookup id = if id = nodeId then none else nm.nodes.lookup id := by
  unfold remove
  split
  · subst id
    exact Finmap.lookup_erase _ _
  · exact Finmap.lookup_erase_ne ‹_›

theorem lookup_modify {nm : NodeManager} {nodeId id : String} {f : NodeInfo → NodeInfo} :
    (nm.modify nodeId f).nodes.lookup id =
      if id = nodeId then (nm.nodes.lookup id).map f else nm.nodes.lookup id := by
  unfold modify
  split
  · rename_i info h
    split
    · subst id
      rw [h]
      exact Finmap.lookup_insert _
    · exact Finmap.lookup_insert_of_ne _ ‹_›
  · rename_i h
    split
    · subst id
      rw [h]
      rfl
    · rfl

end NodeManager
end Borehole
