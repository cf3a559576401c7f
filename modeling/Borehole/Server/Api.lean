/-
  Borehole.Server.Api

  `GET /api/devices` (crates/server/src/api/devices.rs) beside the server's
  tasks.

  The handler locks `active_tunnels` to count the tunnels of each hostname, lets
  go, and then locks `devices` to make one row for each device.  Between the two
  reads tunnels come and go, but a device stays, so what was counted is shown.
-/

import Borehole.Server.Devices
import Mathlib.Algebra.GroupWithZero.Nat

namespace Borehole

/-- Public device view returned by `GET /api/devices`. -/
structure DeviceInfo where
  id : String
  hostname : String
  lastSeenAt : DateTime
  /-- Active tunnels for this device. -/
  tunnelCount : Nat
  deriving DecidableEq, Repr

namespace DevicesList

/-- Where a request stands. -/
inductive Pc where
  /-- About to read `active_tunnels`. -/
  | count
  /-- About to read `devices`.  The map from hostnames to positive counts is a
      multiset of hostnames. -/
  | rows (counts : Multiset String)
  | answered (rows : List DeviceInfo)
  deriving DecidableEq

/-- How many active tunnels each hostname has. -/
def counts (tunnels : Finmap fun _ : String => TunnelEntry) : Multiset String :=
  tunnels.keys.val.filterMap fun id => (tunnels.lookup id).bind TunnelEntry.hostname

/-- One row for each device. -/
def rows (counts : Multiset String) (devices : List DeviceRecord) : List DeviceInfo :=
  devices.map fun device =>
    { id := device.id
      hostname := device.hostname
      lastSeenAt := device.lastSeenAt
      tunnelCount := counts.count device.hostname }

end DevicesList

/-- The server and the requests to its device endpoint. -/
structure Listed where
  server : Server
  request : Nat → DevicesList.Pc

/-- A step of the server, or the next read of a request. -/
inductive DevicesList.Label where
  | server (t : Tid) (op : Op)
  | list (r : Nat)

open DevicesList in
/-- A step of the server, or the next read of a request. -/
def Listed.step (cfg : ServerConfig) (s : Listed) : DevicesList.Label → Option Listed
  | .server t op => ((Borehole.server cfg).step s.server (t, op)).map fun c =>
      { s with server := c }
  | .list r =>
      match s.request r with
      | .count =>
          some { s with request :=
            Function.update s.request r (.rows (counts s.server.shared.activeTunnels)) }
      | .rows counts =>
          some { s with request :=
            Function.update s.request r (.answered (rows counts s.server.shared.devices)) }
      | .answered _ => none

/-- Every interleaving of the server's tasks and any number of requests. -/
def listed (cfg : ServerConfig) : Conc.Lts Listed DevicesList.Label where
  init := ⟨Server.start cfg, fun _ => .count⟩
  step := Listed.step cfg

/-! ## Tunnels by hostname -/

/-- The tunnels of a hostname. -/
def tunnelsOf (tunnels : Finmap fun _ : String => TunnelEntry) (hostname : String) :
    Finset String :=
  tunnels.keys.filter fun id => (tunnels.lookup id).bind TunnelEntry.hostname = some hostname

/-- The tunnels that have a hostname. -/
def namedTunnels (tunnels : Finmap fun _ : String => TunnelEntry) : Finset String :=
  tunnels.keys.filter fun id => ((tunnels.lookup id).bind TunnelEntry.hostname).isSome = true

/-- The rows show each tunnel that has a hostname once, in the row of that
    hostname. -/
structure Accounts (tunnels : Finmap fun _ : String => TunnelEntry) (rows : List DeviceInfo) :
    Prop where
  unique : (rows.map DeviceInfo.hostname).Nodup
  shown : ∀ id e hostname, tunnels.lookup id = some e → e.hostname = some hostname →
    ∃ row ∈ rows, row.hostname = hostname
  counted : ∀ row ∈ rows, row.tunnelCount = (tunnelsOf tunnels row.hostname).card
  total : (rows.map DeviceInfo.tunnelCount).sum = (namedTunnels tunnels).card

namespace DevicesList

variable {tunnels : Finmap fun _ : String => TunnelEntry} {devices : List DeviceRecord}
  {hostname : String}

theorem count_filterMap {α : Type} (f : α → Option String) (s : Multiset α) :
    (s.filterMap f).count hostname = (s.filter fun a => f a = some hostname).card := by
  induction s using Multiset.induction_on with
  | empty => rfl
  | cons a s ih =>
      rw [Multiset.filterMap_cons, Multiset.filter_cons, Multiset.count_add, Multiset.card_add, ih]
      cases hf : f a with
      | none => simp
      | some b =>
          by_cases hb : b = hostname
          · simp [hb]
          · simp [hb, Ne.symm hb]

theorem card_filterMap {α : Type} (f : α → Option String) (s : Multiset α) :
    (s.filterMap f).card = (s.filter fun a => (f a).isSome = true).card := by
  induction s using Multiset.induction_on with
  | empty => rfl
  | cons a s ih =>
      rw [Multiset.filterMap_cons, Multiset.filter_cons, Multiset.card_add, Multiset.card_add, ih]
      cases hf : f a <;> simp

theorem count_counts : (counts tunnels).count hostname = (tunnelsOf tunnels hostname).card :=
  count_filterMap _ _

theorem card_counts : (counts tunnels).card = (namedTunnels tunnels).card :=
  card_filterMap _ _

theorem mem_counts : hostname ∈ counts tunnels ↔
    ∃ id e, tunnels.lookup id = some e ∧ e.hostname = some hostname := by
  rw [counts, Multiset.mem_filterMap]
  constructor
  · rintro ⟨id, _, hid⟩
    obtain ⟨e, he, hn⟩ := Option.bind_eq_some_iff.mp hid
    exact ⟨id, e, he, hn⟩
  · rintro ⟨id, e, he, hn⟩
    exact ⟨id, Finmap.mem_keys.mpr (Finmap.mem_of_lookup_eq_some he),
      Option.bind_eq_some_iff.mpr ⟨e, he, hn⟩⟩

theorem rows_hostnames (counts : Multiset String) :
    (rows counts devices).map DeviceInfo.hostname = hostnames devices := by
  simp [rows, hostnames, Function.comp_def]

/-- The rows of a list that has the device of every counted tunnel. -/
theorem accounts_rows (hnd : (hostnames devices).Nodup)
    (hsub : ∀ hostname ∈ counts tunnels, hostname ∈ hostnames devices) :
    Accounts tunnels (rows (counts tunnels) devices) := by
  refine ⟨?_, fun id e hostname he hn => ?_, fun row hrow => ?_, ?_⟩
  · rw [rows_hostnames]
    exact hnd
  · have hmem := hsub hostname (mem_counts.mpr ⟨id, e, he, hn⟩)
    rw [← rows_hostnames (counts tunnels)] at hmem
    exact List.mem_map.mp hmem
  · obtain ⟨device, _, rfl⟩ := List.mem_map.mp hrow
    exact count_counts
  · have hsum : (rows (counts tunnels) devices).map DeviceInfo.tunnelCount =
        (hostnames devices).map fun hostname => (counts tunnels).count hostname := by
      simp [rows, hostnames, Function.comp_def]
    rw [hsum, ← List.sum_toFinset _ hnd, ← card_counts]
    refine Multiset.sum_count_eq_card fun hostname hh => ?_
    exact List.mem_toFinset.mpr (hsub hostname hh)

end DevicesList

/-! ## Runs -/

section Runs

variable {cfg : ServerConfig} {ls : List DevicesList.Label} {s s' : Listed}
  {a : DevicesList.Label} {r : Nat}

/-- A step of the server inside. -/
def DevicesList.Label.server? : DevicesList.Label → Option (Tid × Op)
  | .server t op => some (t, op)
  | .list _ => none

open DevicesList in
/-- What a step does: the server moves, or a request makes one of its two reads. -/
theorem listed_step (h : (listed cfg).step s a = some s') :
    (∃ t op, a = .server t op ∧ (server cfg).step s.server (t, op) = some s'.server ∧
      s'.request = s.request) ∨
    (∃ r, a = .list r ∧ s'.server = s.server ∧ s.request r = .count ∧
      s'.request =
        Function.update s.request r (.rows (counts s.server.shared.activeTunnels))) ∨
    ∃ r counts, a = .list r ∧ s'.server = s.server ∧ s.request r = .rows counts ∧
      s'.request =
        Function.update s.request r (.answered (rows counts s.server.shared.devices)) := by
  cases a with
  | server t op =>
      obtain ⟨c, hc, rfl⟩ := Option.map_eq_some_iff.mp h
      exact Or.inl ⟨t, op, rfl, hc, rfl⟩
  | list r =>
      refine Or.inr ?_
      change Listed.step cfg s (.list r) = some s' at h
      rw [Listed.step] at h
      split at h
      · rename_i hr
        cases h
        exact Or.inl ⟨r, rfl, rfl, hr, rfl⟩
      · rename_i counts hr
        cases h
        exact Or.inr ⟨r, counts, rfl, rfl, hr, rfl⟩
      · cases h

/-- The server's part of a run is a run of the server. -/
theorem listed_server : Conc.Projection (listed cfg) (server cfg) Listed.server
    DevicesList.Label.server? where
  init := rfl
  own := by
    intro s a s' b h hb
    obtain ⟨t, op, rfl, hs, _⟩ | ⟨r, rfl, _⟩ | ⟨r, _, rfl, _⟩ := listed_step h
    · cases hb
      exact hs
    · cases hb
    · cases hb
  other := by
    intro s a s' h hb
    obtain ⟨t, op, rfl, hs, _⟩ | ⟨r, rfl, hs, _⟩ | ⟨r, _, rfl, hs, _⟩ := listed_step h
    · cases hb
    · exact hs
    · exact hs

/-- No step loses or renames a record. -/
theorem listed_names (h : (listed cfg).step s a = some s') :
    s.server.shared.devices.map DeviceRecord.name <+:
      s'.server.shared.devices.map DeviceRecord.name := by
  obtain ⟨t, op, _, hs, _⟩ | ⟨_, _, hs, _⟩ | ⟨_, _, _, hs, _⟩ := listed_step h
  · exact server_step_names hs
  · rw [hs]
  · rw [hs]

theorem listed_grow {ls' : List DevicesList.Label} (h : (listed cfg).runFrom s ls' = some s') :
    s.server.shared.devices.map DeviceRecord.name <+:
      s'.server.shared.devices.map DeviceRecord.name := by
  refine Conc.Lts.runFrom_induct
    (P := fun _ s' => s.server.shared.devices.map DeviceRecord.name <+:
      s'.server.shared.devices.map DeviceRecord.name) List.prefix_rfl ?_ h
  intro _ s₁ a s₂ _ hi hs
  exact hi.trans (listed_names hs)

/-- What a request has read of the tunnels after `ls`, where it read it. -/
def CountedAt (cfg : ServerConfig) (ls : List DevicesList.Label) (r : Nat)
    (tunnels : Finmap fun _ : String => TunnelEntry) : Prop :=
  ∃ pre post s, ls = pre ++ .list r :: post ∧ (listed cfg).Run pre s ∧ s.request r = .count ∧
    s.server.shared.activeTunnels = tunnels

theorem CountedAt.snoc {tunnels : Finmap fun _ : String => TunnelEntry}
    (h : CountedAt cfg ls r tunnels) : CountedAt cfg (ls ++ [a]) r tunnels := by
  obtain ⟨pre, post, s, rfl, hs⟩ := h
  exact ⟨pre, post ++ [a], s, by simp, hs⟩

/-- What requests have read and answered. -/
structure ListInv (cfg : ServerConfig) (ls : List DevicesList.Label) (s : Listed) : Prop where
  rows : ∀ r counts, s.request r = .rows counts → ∃ tunnels, CountedAt cfg ls r tunnels ∧
    counts = DevicesList.counts tunnels ∧
    ∀ hostname ∈ counts, hostname ∈ hostnames s.server.shared.devices
  answered : ∀ r rows, s.request r = .answered rows → ∃ tunnels, CountedAt cfg ls r tunnels ∧
    Accounts tunnels rows

theorem listInv_step (hr : (listed cfg).Run ls s) (hi : ListInv cfg ls s)
    (h : (listed cfg).step s a = some s') : ListInv cfg (ls ++ [a]) s' := by
  have hserver := deviceInv (listed_server.run hr)
  have hsub := hostnames_subset (listed_names h)
  -- what a request has read it has still read, and the devices are still there
  have hkept : ∀ r' counts, s.request r' = .rows counts → ∃ tunnels,
      CountedAt cfg (ls ++ [a]) r' tunnels ∧ counts = DevicesList.counts tunnels ∧
      ∀ hostname ∈ counts, hostname ∈ hostnames s'.server.shared.devices := by
    intro r' counts hr'
    obtain ⟨tunnels, hc, he, hm⟩ := hi.rows r' counts hr'
    exact ⟨tunnels, hc.snoc, he, fun hostname hh => hsub (hm hostname hh)⟩
  have hdone : ∀ r' rows, s.request r' = .answered rows → ∃ tunnels,
      CountedAt cfg (ls ++ [a]) r' tunnels ∧ Accounts tunnels rows := by
    intro r' rows hr'
    obtain ⟨tunnels, hc, ha⟩ := hi.answered r' rows hr'
    exact ⟨tunnels, hc.snoc, ha⟩
  obtain ⟨t, op, rfl, hs, hreq⟩ | ⟨r, rfl, hs, hcount, hreq⟩ | ⟨r, counts, rfl, hs, hrows, hreq⟩ :=
    listed_step h
  · refine ⟨fun r' counts hr' => ?_, fun r' rows hr' => ?_⟩
    · rw [hreq] at hr'
      exact hkept r' counts hr'
    · rw [hreq] at hr'
      exact hdone r' rows hr'
  · refine ⟨fun r' counts hr' => ?_, fun r' rows hr' => ?_⟩
    · rw [hreq, Function.update_apply] at hr'
      split at hr'
      · rename_i hrr
        subst hrr
        cases hr'
        refine ⟨_, ⟨ls, [], s, rfl, hr, hcount, rfl⟩, rfl, fun hostname hh => ?_⟩
        obtain ⟨id, e, he, hn⟩ := DevicesList.mem_counts.mp hh
        rw [hs]
        exact hserver.tunnel id e hostname he hn
      · exact hkept r' counts hr'
    · rw [hreq, Function.update_apply] at hr'
      split at hr'
      · cases hr'
      · exact hdone r' rows hr'
  · refine ⟨fun r' counts' hr' => ?_, fun r' rows hr' => ?_⟩
    · rw [hreq, Function.update_apply] at hr'
      split at hr'
      · cases hr'
      · exact hkept r' counts' hr'
    · rw [hreq, Function.update_apply] at hr'
      split at hr'
      · rename_i hrr
        subst hrr
        cases hr'
        obtain ⟨tunnels, hc, rfl, hm⟩ := hi.rows r' counts hrows
        exact ⟨tunnels, hc.snoc, DevicesList.accounts_rows hserver.unique hm⟩
      · exact hdone r' rows hr'

theorem listInv (h : (listed cfg).Run ls s) : ListInv cfg ls s := by
  refine Conc.Lts.Run.induct (P := ListInv cfg) ?_ ?_ h
  · refine ⟨fun r _ hr => ?_, fun r _ hr => ?_⟩
    · cases hr
    · cases hr
  · intro ls s a s' hr hi hs
    exact listInv_step hr hi hs

/-- One record for each hostname, no record lost or renamed, and each answer
    accounts for the tunnels that the request has read. -/
theorem devices_account (h : (listed cfg).Run ls s) :
    (hostnames s.server.shared.devices).Nodup ∧
    (∀ pre post s₀, ls = pre ++ post → (listed cfg).Run pre s₀ →
      s₀.server.shared.devices.map DeviceRecord.name <+:
        s.server.shared.devices.map DeviceRecord.name) ∧
    ∀ r rows, s.request r = .answered rows →
      ∃ tunnels, CountedAt cfg ls r tunnels ∧ Accounts tunnels rows := by
  refine ⟨(deviceInv (listed_server.run h)).unique, ?_, (listInv h).answered⟩
  rintro pre post s₀ rfl hr₀
  obtain ⟨s₁, hr₁, hpost⟩ := Conc.Lts.run_append.mp h
  rw [hr₀.functional hr₁]
  exact listed_grow hpost

/-- A request that counts a tunnel which closes before the devices are read. -/
def listedRun : List DevicesList.Label :=
  [.server 1 (.connect "10.0.0.1" (some (some (.register laptop)))), .server 1 .compute,
   .server 1 (.now 10), .server 1 (.upsertDevice "laptop" 10 "d"),
   .server 1 (.acquire (some 7000)), .server 1 (.uuid "t"), .server 1 (.pick none none),
   .server 1 (.bind 7000 true), .server 1 (.send 1 (ServeCliDirect.registeredMsg ⟨"t", 7000⟩) true),
   .server 1 (.now 11),
   .server 1 (.insertTunnel "t" (ServeCliDirect.entry ⟨1, laptop⟩ ⟨"t", 7000⟩ 11)), .list 0,
   .server 1 (.publish (ServeCliDirect.opened ⟨1, laptop⟩ ⟨"t", 7000⟩ 11)),
   .server 1 (.readLine none),
   .server 1 (.removeTunnel "t" (some (ServeCliDirect.entry ⟨1, laptop⟩ ⟨"t", 7000⟩ 11))),
   .list 0]

theorem devices_account_closed : ∃ s, (listed onePort).Run listedRun s ∧
    s.request 0 = .answered [⟨"d", "laptop", 10, 1⟩] ∧
    ∃ tunnels, CountedAt onePort listedRun 0 tunnels ∧
      Accounts tunnels [⟨"d", "laptop", 10, 1⟩] := by
  obtain ⟨s, hs, h⟩ : ∃ s, (listed onePort).Run listedRun s ∧
      s.request 0 = .answered [⟨"d", "laptop", 10, 1⟩] := Conc.Lts.exists_run (by decide)
  exact ⟨s, hs, h, (devices_account hs).2.2 0 _ h⟩

end Runs

end Borehole
