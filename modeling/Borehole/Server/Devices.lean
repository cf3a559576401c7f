/-
  Borehole.Server.Devices

  The device list: who is in it, when each device was last seen, and what
  `GET /api/devices` (crates/server/src/api/devices.rs) answers.

  A session records its device before it asks for a port, and nothing removes a
  record, so the device of every tunnel in `active_tunnels` is in the list.  The
  endpoint reads the tunnels first and the devices later, in that order, and so
  finds a row for each tunnel it has counted.
-/

import Borehole.Conc.Network
import Borehole.Server.Records
import Mathlib.Algebra.Order.BigOperators.Group.Finset
import Mathlib.Order.Bounds.Basic

namespace Borehole

/-! ## The list -/

section List

variable {hostname : String} {now : DateTime} {id : String} {ds : List DeviceRecord}

/-- The hostnames of a device list. -/
def hostnames (ds : List DeviceRecord) : List String :=
  ds.map DeviceRecord.hostname

/-- What a record never changes. -/
def DeviceRecord.name (d : DeviceRecord) : String × String :=
  (d.id, d.hostname)

/-- A call for a known hostname adds no record, any other adds one at the end. -/
theorem upsertDevice_names :
    (upsertDevice hostname now id ds).map DeviceRecord.name =
      if hostname ∈ hostnames ds then ds.map DeviceRecord.name
      else ds.map DeviceRecord.name ++ [(id, hostname)] := by
  induction ds with
  | nil => rfl
  | cons d ds ih =>
      by_cases hd : d.hostname = hostname
      · simp [upsertDevice, hostnames, DeviceRecord.name, hd]
      · have hmem : hostname ∈ hostnames (d :: ds) ↔ hostname ∈ hostnames ds := by
          simp [hostnames, Ne.symm hd]
        rw [upsertDevice, if_neg hd, List.map_cons, ih, List.map_cons]
        by_cases hm : hostname ∈ hostnames ds
        · rw [if_pos hm, if_pos (hmem.mpr hm)]
        · rw [if_neg hm, if_neg (mt hmem.mp hm), List.cons_append]

theorem hostnames_eq (ds : List DeviceRecord) :
    hostnames ds = (ds.map DeviceRecord.name).map Prod.snd := by
  simp [hostnames, DeviceRecord.name, Function.comp_def]

theorem upsertDevice_hostnames :
    hostnames (upsertDevice hostname now id ds) =
      if hostname ∈ hostnames ds then hostnames ds else hostnames ds ++ [hostname] := by
  rw [hostnames_eq, upsertDevice_names, hostnames_eq]
  split <;> simp

/-- No record is lost or renamed. -/
theorem upsertDevice_prefix :
    ds.map DeviceRecord.name <+: (upsertDevice hostname now id ds).map DeviceRecord.name := by
  rw [upsertDevice_names]
  split
  · exact List.prefix_rfl
  · exact List.prefix_append _ _

theorem upsertDevice_nodup (h : (hostnames ds).Nodup) :
    (hostnames (upsertDevice hostname now id ds)).Nodup := by
  rw [upsertDevice_hostnames]
  split
  · exact h
  · rename_i hn
    refine List.nodup_append.mpr ⟨h, List.nodup_singleton _, ?_⟩
    intro a ha b hb hab
    rw [List.mem_singleton.mp hb] at hab
    exact hn (hab ▸ ha)

theorem mem_upsertDevice : hostname ∈ hostnames (upsertDevice hostname now id ds) := by
  rw [upsertDevice_hostnames]
  split
  · assumption
  · exact List.mem_append_right _ (List.mem_singleton_self _)

/-- `last_seen_at` of the device called `hostname`. -/
def lastSeen (hostname : String) (ds : List DeviceRecord) : Option DateTime :=
  (ds.find? fun d => d.hostname = hostname).map DeviceRecord.lastSeenAt

theorem lastSeen_cons (d : DeviceRecord) :
    lastSeen hostname (d :: ds) =
      if d.hostname = hostname then some d.lastSeenAt else lastSeen hostname ds := by
  rw [lastSeen, List.find?_cons]
  by_cases hd : d.hostname = hostname
  · simp [hd]
  · simp [hd, lastSeen]

/-- A call sets the time of its own hostname and of no other. -/
theorem lastSeen_upsertDevice (h : String) :
    lastSeen h (upsertDevice hostname now id ds) =
      if h = hostname then some now else lastSeen h ds := by
  induction ds with
  | nil =>
      rw [upsertDevice, lastSeen_cons]
      simp only [eq_comm (a := hostname)]
  | cons d ds ih =>
      by_cases hd : d.hostname = hostname
      · rw [upsertDevice, if_pos hd, lastSeen_cons, lastSeen_cons]
        by_cases hh : h = hostname
        · rw [if_pos hh, if_pos (hd.trans hh.symm)]
        · have hdh : d.hostname ≠ h := fun he => hh (he.symm.trans hd)
          rw [if_neg hh, if_neg hdh, if_neg hdh]
      · rw [upsertDevice, if_neg hd, lastSeen_cons, lastSeen_cons, ih]
        by_cases hh : h = hostname
        · rw [if_pos hh, if_pos hh, if_neg fun he => hd (he.trans hh)]
        · rw [if_neg hh, if_neg hh]

/-- With one record for each hostname, the time of a hostname is that of its record. -/
theorem lastSeen_eq_some (hnd : (hostnames ds).Nodup) {τ : DateTime} :
    lastSeen hostname ds = some τ ↔ ∃ d ∈ ds, d.hostname = hostname ∧ d.lastSeenAt = τ := by
  induction ds with
  | nil => simp [lastSeen]
  | cons d ds ih =>
      obtain ⟨hd, hnd⟩ := List.nodup_cons.mp hnd
      rw [lastSeen_cons]
      split
      · rename_i hh
        constructor
        · intro he
          exact ⟨d, List.mem_cons_self, hh, Option.some.inj he⟩
        · rintro ⟨d', hd', hh', rfl⟩
          obtain rfl | hd' := List.mem_cons.mp hd'
          · rfl
          · exact absurd (List.mem_map.mpr ⟨d', hd', hh'.trans hh.symm⟩) hd
      · rename_i hh
        rw [ih hnd]
        constructor
        · rintro ⟨d', hd', h⟩
          exact ⟨d', List.mem_cons_of_mem d hd', h⟩
        · rintro ⟨d', hd', hh', h⟩
          obtain rfl | hd' := List.mem_cons.mp hd'
          · exact absurd hh' hh
          · exact ⟨d', hd', hh', h⟩

end List

/-! ## What the server does to the list -/

/-- Whether an operation changes the device list. -/
def Op.onDevices : Op → Bool
  | .upsertDevice _ _ _ => true
  | _ => false

theorem ServerState.exec_devices {s s' : ServerState} {t : Tid} {op : Op}
    (h : s.exec t op = some s') (hop : op.onDevices = false) : s'.devices = s.devices := by
  revert h
  fun_cases ServerState.exec s t op
  case case2 got =>
      intro h
      obtain ⟨pm, _, rfl⟩ := Option.map_eq_some_iff.mp h
      rfl
  all_goals
    intro h
    cases h
    all_goals first | rfl | cases hop

theorem ServerState.exec_upsertDevice {s s' : ServerState} {t : Tid} {hostname id : String}
    {now : DateTime} (h : s.exec t (.upsertDevice hostname now id) = some s') :
    s'.devices = Borehole.upsertDevice hostname now id s.devices := by
  rw [← Option.some.inj h]

/-- The hostname that a session has recorded. -/
def ServerTask.recorded? : ServerTask → Option String
  | .cli _ .validate | .cli _ (.reject _) | .cli _ (.deviceNow _) | .cli _ (.device _ _) |
    .cli _ (.done none) => none
  | .cli register _ => register.hostname
  | _ => none

/-- The hostname that a session is about to record is the one it registered with. -/
def ServerTask.Named : ServerTask → Prop
  | .cli register (.deviceNow hostname) | .cli register (.device hostname _) =>
      register.hostname = some hostname
  | _ => True

section Steps

variable {tokens : List String} {t : Tid} {k k' : ServerTask} {op : Op}

theorem ServerTask.Step.named (h : Step tokens t k op k') (hk : k.Named) : k'.Named := by
  cases h with
  | @connect peer first =>
      have hd := handleClient_dispatched peer first
      generalize handleClient peer first = k' at hd ⊢
      cases hd <;> trivial
  | cli h =>
      cases h with
      | hostname _ hn => exact hn
      | deviceNow => exact hk
      | _ => trivial
  | _ => trivial

/-- A session has recorded its hostname before, or does so now. -/
theorem ServerTask.Step.recorded {hostname : String} (h : Step tokens t k op k') (hk : k.Named)
    (hr : k'.recorded? = some hostname) :
    k.recorded? = some hostname ∨ ∃ now id, op = .upsertDevice hostname now id := by
  cases h with
  | @connect peer first =>
      have hd := handleClient_dispatched peer first
      generalize handleClient peer first = k' at hd hr
      cases hd <;> cases hr
  | cli h =>
      rename_i register _ _
      cases h with
      | badToken | hostname | rejected | deviceNow | taken | exhausted => cases hr
      | anonymous _ hn =>
          have hr : register.hostname = some hostname := hr
          rw [show register.hostname = none from hn] at hr
          cases hr
      | device =>
          have hr : register.hostname = some hostname := hr
          rw [show register.hostname = some _ from hk] at hr
          cases hr
          exact Or.inr ⟨_, _, rfl⟩
      | _ => exact Or.inl hr
  | _ => cases hr

/-- A session that adds a tunnel has recorded the hostname of the tunnel. -/
theorem ServerTask.Step.insert_recorded {id : String} {e : TunnelEntry}
    (h : Step tokens t k (.insertTunnel id e) k') : k.recorded? = e.hostname := by
  cases h with
  | cli h =>
      cases h with
      | direct h =>
          cases h with
          | record => rfl
          | serve h => cases h
      | directRet h =>
          cases h with
          | served h => cases h
      | viaNode h =>
          cases h with
          | record => rfl
          | fallback h =>
              cases h with
              | record => rfl
              | serve h => cases h
          | fellBack h =>
              cases h with
              | served h => cases h
      | viaNodeRet h => cases h
  | node h =>
      cases h with
      | forward h | forwarded h => cases h
  | visitor h | dataConn h | close h => cases h

end Steps

/-- Every session past `upsert_device`, and every tunnel, has a device. -/
structure DeviceInv (c : Server) : Prop where
  unique : (hostnames c.shared.devices).Nodup
  named : ∀ t, (c.task t).Named
  session : ∀ t hostname, (c.task t).recorded? = some hostname →
    hostname ∈ hostnames c.shared.devices
  tunnel : ∀ id e hostname, c.shared.activeTunnels.lookup id = some e →
    e.hostname = some hostname → hostname ∈ hostnames c.shared.devices

section Runs

variable {cfg : ServerConfig} {ls : List (Tid × Op)} {c c' : Server} {t : Tid} {op : Op}

/-- What a step does to the device list. -/
theorem server_step_devices (h : (server cfg).step c (t, op) = some c') :
    c'.shared.devices = c.shared.devices ∨ ∃ hostname now id,
      op = .upsertDevice hostname now id ∧
        c'.shared.devices = upsertDevice hostname now id c.shared.devices := by
  have hx := server_step_exec h
  cases hop : op.onDevices with
  | false => exact Or.inl (ServerState.exec_devices hx hop)
  | true =>
      cases op with
      | upsertDevice hostname now id =>
          exact Or.inr ⟨hostname, now, id, rfl, ServerState.exec_upsertDevice hx⟩
      | _ => cases hop

theorem server_step_names (h : (server cfg).step c (t, op) = some c') :
    c.shared.devices.map DeviceRecord.name <+: c'.shared.devices.map DeviceRecord.name := by
  obtain he | ⟨_, _, _, _, he⟩ := server_step_devices h
  · rw [he]
  · rw [he]
    exact upsertDevice_prefix

theorem hostnames_subset {ds ds' : List DeviceRecord}
    (h : ds.map DeviceRecord.name <+: ds'.map DeviceRecord.name) :
    hostnames ds ⊆ hostnames ds' := by
  rw [hostnames_eq, hostnames_eq]
  exact List.map_subset _ h.subset

theorem deviceInv_step (hi : DeviceInv c) (h : (server cfg).step c (t, op) = some c') :
    DeviceInv c' := by
  have hself := server_step_self h
  have hx := server_step_exec h
  -- No host name leaves the store.
  have hsub : hostnames c.shared.devices ⊆ hostnames c'.shared.devices :=
    hostnames_subset (server_step_names h)
  refine ⟨?_, fun u => ?_, fun u hostname hu => ?_, fun id e hostname he hn => ?_⟩
  · obtain he | ⟨_, _, _, _, he⟩ := server_step_devices h
    · rw [he]
      exact hi.unique
    · rw [he]
      exact upsertDevice_nodup hi.unique
  · by_cases hut : u = t
    · subst hut
      exact hself.named (hi.named u)
    · obtain he | ⟨_, ha⟩ := server_step_other h hut
      · rw [he]
        exact hi.named u
      · generalize c.task u = k at ha
        generalize c'.task u = k' at ha
        cases ha <;> trivial
  · by_cases hut : u = t
    · subst hut
      obtain hu | ⟨now, id, rfl⟩ := hself.recorded (hi.named u) hu
      · exact hsub (hi.session u hostname hu)
      · rw [ServerState.exec_upsertDevice hx]
        exact mem_upsertDevice
    · rw [server_step_attr (f := ServerTask.recorded?) (fun _ _ => rfl) h hut] at hu
      exact hsub (hi.session u hostname hu)
  · obtain rfl | he := ServerState.exec_entry hx he
    · have hr := hself.insert_recorded
      exact hsub (hi.session t hostname (hr.trans hn))
    · exact hsub (hi.tunnel id e hostname he hn)

theorem deviceInv (h : (server cfg).Run ls c) : DeviceInv c := by
  refine Conc.Lts.Run.induct (P := fun _ c => DeviceInv c) ?_ ?_ h
  · refine ⟨List.nodup_nil, fun _ => trivial, fun t _ ht => ?_, fun id e _ he _ => ?_⟩
    · cases ht
    · exact absurd he (by simp [server, Conc.Tasks.lts, Server.start, ServerState.new])
  · rintro _ c ⟨t, op⟩ c' - hi hs
    exact deviceInv_step hi hs

/-- Records are only added, and keep their ids and hostnames. -/
theorem devices_grow {ls' : List (Tid × Op)} (h : (server cfg).runFrom c ls' = some c') :
    c.shared.devices.map DeviceRecord.name <+: c'.shared.devices.map DeviceRecord.name := by
  refine Conc.Lts.runFrom_induct
    (P := fun _ c' => c.shared.devices.map DeviceRecord.name <+:
      c'.shared.devices.map DeviceRecord.name) List.prefix_rfl ?_ h
  rintro _ s ⟨t, op⟩ s' - hi hs
  exact hi.trans (server_step_names hs)

end Runs

/-! ## When a device was last seen

  A call of `upsert_device` reads the clock and then locks the list, so the
  times of two calls may be stored in the opposite order. -/

/-- The hostname for which a session is about to read the clock. -/
def ServerTask.reading? : ServerTask → Option String
  | .cli _ (.deviceNow hostname) => some hostname
  | _ => none

/-- The time that a call of `upsert_device` has read and not stored yet. -/
def ServerTask.seeing? : ServerTask → Option (String × DateTime)
  | .cli _ (.device hostname now) => some (hostname, now)
  | _ => none

/-- A call for `hostname` has read the time `τ`. -/
def SeenAt (cfg : ServerConfig) (ls : List (Tid × Op)) (hostname : String) (τ : DateTime) : Prop :=
  ∃ pre t post c, ls = pre ++ (t, .now τ) :: post ∧ (server cfg).Run pre c ∧
    (c.task t).reading? = some hostname

/-- Whoever stores a time for a hostname leaves behind no call that has read an
    earlier one: the calls take the lock in the order of their times. -/
def StoresInOrder (c : Server) (a : Tid × Op) : Prop :=
  ∀ hostname now id, a.2 = .upsertDevice hostname now id →
    ∀ u now', (c.task u).seeing? = some (hostname, now') → now ≤ now'

/-- `last_seen_at` of a device never decreases, and once no call for its
    hostname is between its two steps it is the greatest time that any has read. -/
structure LastSeenKept (cfg : ServerConfig) (ls : List (Tid × Op)) (c : Server) : Prop where
  mono : ∀ pre post c₀ d, ls = pre ++ post → (server cfg).Run pre c₀ → d ∈ c₀.shared.devices →
    ∃ d' ∈ c.shared.devices, d'.name = d.name ∧ d.lastSeenAt ≤ d'.lastSeenAt
  latest : ∀ hostname, (∀ t now, (c.task t).seeing? ≠ some (hostname, now)) → ∀ τ,
    (∃ d ∈ c.shared.devices, d.hostname = hostname ∧ d.lastSeenAt = τ) ↔
      IsGreatest {now | SeenAt cfg ls hostname now} τ

/-- What a step does to the time that a session has read. -/
inductive SeenStep (k : ServerTask) (op : Op) (k' : ServerTask) : Prop where
  | reads {hostname now} : op = .now now → k.reading? = some hostname → k.seeing? = .none →
      k'.seeing? = some (hostname, now) → SeenStep k op k'
  | stores {hostname now id} : op = .upsertDevice hostname now id → k.reading? = .none →
      k.seeing? = some (hostname, now) → k'.seeing? = .none → SeenStep k op k'
  | none : op.onDevices = false → k.reading? = .none → k.seeing? = .none → k'.seeing? = .none →
      SeenStep k op k'

section LastSeen

variable {cfg : ServerConfig} {ls : List (Tid × Op)} {c c' : Server} {t : Tid} {op : Op}
  {hostname : String} {τ : DateTime}

theorem ServeTunnel.Step.not_onDevices {s : SessionCtx} {ctx : TunnelCtx} {pc : Pc} {f : Flow Pc}
    (h : Step s ctx pc op f) : op.onDevices = false := by
  cases h <;> rfl

theorem ServeCliDirect.Step.not_onDevices {s : SessionCtx} {ctx : TunnelCtx} {pc : Pc}
    {f : Flow Pc} (h : Step s ctx pc op f) : op.onDevices = false := by
  cases h with
  | serve h | served h => exact h.not_onDevices
  | _ => rfl

theorem ServeCliViaNode.Step.not_onDevices {s : SessionCtx} {ctx : TunnelCtx} {node : NodeInfo}
    {pc : Pc} {f : Flow Pc} (h : Step s ctx node pc op f) : op.onDevices = false := by
  cases h with
  | fallback h | fellBack h => exact h.not_onDevices
  | _ => rfl

theorem ServerTask.Step.seen {tokens : List String} {k k' : ServerTask}
    (h : Step tokens t k op k') : SeenStep k op k' := by
  cases h with
  | @connect peer first =>
      have hd := handleClient_dispatched peer first
      generalize handleClient peer first = k' at hd ⊢
      cases hd <;> exact .none rfl rfl rfl rfl
  | cli h =>
      cases h with
      | deviceNow => exact .reads rfl rfl rfl rfl
      | device => exact .stores rfl rfl rfl rfl
      | direct h | directRet h => exact .none h.not_onDevices rfl rfl rfl
      | viaNode h | viaNodeRet h => exact .none h.not_onDevices rfl rfl rfl
      | _ => exact .none rfl rfl rfl rfl
  | node h =>
      cases h with
      | forward h | forwarded h => cases h <;> exact .none rfl rfl rfl rfl
      | _ => exact .none rfl rfl rfl rfl
  | visitor h | dataConn h | close h => cases h <;> exact .none rfl rfl rfl rfl
  | _ => exact .none rfl rfl rfl rfl

/-- What a call has read is on the clock. -/
theorem SeenAt.mem_clock (h : SeenAt cfg ls hostname τ) : τ ∈ clock ls := by
  obtain ⟨pre, t, post, _, rfl, _, _⟩ := h
  rw [clock, List.filterMap_append, List.mem_append]
  exact Or.inr List.mem_cons_self

theorem SeenAt.snoc (h : SeenAt cfg ls hostname τ) : SeenAt cfg (ls ++ [(t, op)]) hostname τ := by
  obtain ⟨pre, u, post, c, rfl, hr, hc⟩ := h
  exact ⟨pre, u, post ++ [(t, op)], c, by simp, hr, hc⟩

theorem seenAt_now (hr : (server cfg).Run ls c) (hk : (c.task t).reading? = some hostname) :
    SeenAt cfg (ls ++ [(t, .now τ)]) hostname τ :=
  ⟨ls, t, [], c, rfl, hr, hk⟩

/-- A reading is an old one, or the one of the last step. -/
theorem seenAt_snoc (hr : (server cfg).Run ls c) (h : SeenAt cfg (ls ++ [(t, op)]) hostname τ) :
    SeenAt cfg ls hostname τ ∨ op = .now τ ∧ (c.task t).reading? = some hostname := by
  obtain ⟨pre, u, post, c₀, he, hr₀, hk⟩ := h
  obtain rfl | ⟨post, a, rfl⟩ := List.eq_nil_or_concat post
  · obtain ⟨hpre, ha⟩ := List.append_inj' he rfl
    cases ha
    subst hpre
    rw [hr.functional hr₀]
    exact Or.inr ⟨rfl, hk⟩
  · rw [List.concat_eq_append, ← List.cons_append, ← List.append_assoc] at he
    obtain ⟨hls, _⟩ := List.append_inj' he rfl
    exact Or.inl ⟨pre, u, post, c₀, hls, hr₀, hk⟩

/-- A stored time is one that was read, no outstanding one is earlier, and every
    time that was read is outstanding or not later than the stored one. -/
structure SeenInv (cfg : ServerConfig) (ls : List (Tid × Op)) (c : Server) : Prop where
  outstanding : ∀ t hostname τ, (c.task t).seeing? = some (hostname, τ) → SeenAt cfg ls hostname τ
  stored : ∀ hostname τ, lastSeen hostname c.shared.devices = some τ → SeenAt cfg ls hostname τ ∧
    ∀ t τ', (c.task t).seeing? = some (hostname, τ') → τ ≤ τ'
  covered : ∀ hostname τ, SeenAt cfg ls hostname τ →
    (∃ t, (c.task t).seeing? = some (hostname, τ)) ∨
      ∃ τ', lastSeen hostname c.shared.devices = some τ' ∧ τ ≤ τ'

/-- A stored time is replaced by later ones only. -/
theorem SeenInv.le (hi : SeenInv cfg ls c) (h : (server cfg).step c (t, op) = some c')
    (hs : lastSeen hostname c.shared.devices = some τ) :
    ∃ τ', lastSeen hostname c'.shared.devices = some τ' ∧ τ ≤ τ' := by
  obtain he | ⟨h', now, id, rfl, he⟩ := server_step_devices h
  · exact ⟨τ, he ▸ hs, le_rfl⟩
  · rw [he, lastSeen_upsertDevice]
    split
    · rename_i hh
      subst hh
      refine ⟨now, rfl, (hi.stored hostname τ hs).2 t now ?_⟩
      cases (server_step_self h).seen with
      | reads hop => cases hop
      | stores hop _ hk _ => cases hop; exact hk
      | none hop => cases hop
    · exact ⟨τ, hs, le_rfl⟩

theorem seenInv_step (hr : (server cfg).Run ls c) (hi : SeenInv cfg ls c)
    (hclock : (clock (ls ++ [(t, op)])).Pairwise (· ≤ ·)) (hok : StoresInOrder c (t, op))
    (h : (server cfg).step c (t, op) = some c') : SeenInv cfg (ls ++ [(t, op)]) c' := by
  have hothers : ∀ u, u ≠ t → (c'.task u).seeing? = (c.task u).seeing? := fun u hu =>
    server_step_attr (f := ServerTask.seeing?) (fun _ _ => rfl) h hu
  cases (server_step_self h).seen with
  | @reads h₀ now hop hk hb ha =>
      subst hop
      have hdev : c'.shared.devices = c.shared.devices :=
        ServerState.exec_devices (server_step_exec h) rfl
      refine ⟨fun u hostname τ hu => ?_, fun hostname τ hs => ?_, fun hostname τ hs => ?_⟩
      · by_cases hut : u = t
        · rw [hut, ha] at hu
          cases hu
          exact seenAt_now hr hk
        · rw [hothers u hut] at hu
          exact (hi.outstanding u hostname τ hu).snoc
      · rw [hdev] at hs
        obtain ⟨hseen, hle⟩ := hi.stored hostname τ hs
        refine ⟨hseen.snoc, fun u τ' hu => ?_⟩
        by_cases hut : u = t
        · rw [hut, ha] at hu
          cases hu
          -- the clock does not go back behind what is stored
          exact (readBefore_now hseen.mem_clock rfl).le hclock
        · rw [hothers u hut] at hu
          exact hle u τ' hu
      · rw [hdev]
        obtain hs | ⟨hop, hk'⟩ := seenAt_snoc hr hs
        · obtain ⟨u, hu⟩ | hle := hi.covered hostname τ hs
          · have hut : u ≠ t := by
              rintro rfl
              rw [hb] at hu
              cases hu
            exact Or.inl ⟨u, (hothers u hut).trans hu⟩
          · exact Or.inr hle
        · cases hop
          rw [hk] at hk'
          cases hk'
          exact Or.inl ⟨t, ha⟩
  | @stores h₀ now id hop hk hb ha =>
      have hle : ∀ {hostname τ}, lastSeen hostname c.shared.devices = some τ →
          ∃ τ', lastSeen hostname c'.shared.devices = some τ' ∧ τ ≤ τ' := fun hs => hi.le h hs
      subst hop
      have hdev := ServerState.exec_upsertDevice (server_step_exec h)
      refine ⟨fun u hostname τ hu => ?_, fun hostname τ hs => ?_, fun hostname τ hs => ?_⟩
      · have hut : u ≠ t := by
          rintro rfl
          rw [ha] at hu
          cases hu
        rw [hothers u hut] at hu
        exact (hi.outstanding u hostname τ hu).snoc
      · have hrest : ∀ u τ', (c'.task u).seeing? = some (hostname, τ') →
            (c.task u).seeing? = some (hostname, τ') := by
          intro u τ' hu
          have hut : u ≠ t := by
            rintro rfl
            rw [ha] at hu
            cases hu
          rw [← hothers u hut]
          exact hu
        rw [hdev, lastSeen_upsertDevice] at hs
        split at hs
        · rename_i hh
          subst hh
          cases hs
          exact ⟨(hi.outstanding t hostname now hb).snoc,
            fun u τ' hu => hok hostname now id rfl u τ' (hrest u τ' hu)⟩
        · obtain ⟨hseen, hmin⟩ := hi.stored hostname τ hs
          exact ⟨hseen.snoc, fun u τ' hu => hmin u τ' (hrest u τ' hu)⟩
      · obtain hs | ⟨hop, _⟩ := seenAt_snoc hr hs
        · obtain ⟨u, hu⟩ | ⟨τ₁, hs₁, hle₁⟩ := hi.covered hostname τ hs
          · by_cases hut : u = t
            · rw [hut, hb] at hu
              cases hu
              rw [hdev, lastSeen_upsertDevice, if_pos rfl]
              exact Or.inr ⟨now, rfl, le_rfl⟩
            · exact Or.inl ⟨u, (hothers u hut).trans hu⟩
          · obtain ⟨τ₂, hs₂, hle₂⟩ := hle hs₁
            exact Or.inr ⟨τ₂, hs₂, hle₁.trans hle₂⟩
        · cases hop
  | none hop hk hb ha =>
      have hdev : c'.shared.devices = c.shared.devices :=
        ServerState.exec_devices (server_step_exec h) hop
      have hall : ∀ u, (c'.task u).seeing? = (c.task u).seeing? := by
        intro u
        by_cases hut : u = t
        · rw [hut, ha, hb]
        · exact hothers u hut
      refine ⟨fun u hostname τ hu => ?_, fun hostname τ hs => ?_, fun hostname τ hs => ?_⟩
      · rw [hall] at hu
        exact (hi.outstanding u hostname τ hu).snoc
      · rw [hdev] at hs
        obtain ⟨hseen, hmin⟩ := hi.stored hostname τ hs
        exact ⟨hseen.snoc, fun u τ' hu => hmin u τ' (hall u ▸ hu)⟩
      · rw [hdev]
        obtain hs | ⟨_, hk'⟩ := seenAt_snoc hr hs
        · exact (hi.covered hostname τ hs).imp_left fun ⟨u, hu⟩ => ⟨u, (hall u).trans hu⟩
        · rw [hk] at hk'
          cases hk'

theorem clock_pairwise_of_append {ls' : List (Tid × Op)}
    (h : (clock (ls ++ ls')).Pairwise (· ≤ ·)) : (clock ls).Pairwise (· ≤ ·) := by
  rw [clock, List.filterMap_append] at h
  exact (List.pairwise_append.mp h).1

theorem seenInv (hr : (server cfg).Run ls c) (hok : (server cfg).Along StoresInOrder ls)
    (hclock : (clock ls).Pairwise (· ≤ ·)) : SeenInv cfg ls c := by
  refine Conc.Lts.Run.induct_along
    (P := fun ls c => (clock ls).Pairwise (· ≤ ·) → SeenInv cfg ls c) ?_ ?_ hr hok hclock
  · intro _
    refine ⟨fun t _ _ ht => ?_, fun hostname τ hs => ?_, fun hostname τ hs => ?_⟩
    · cases ht
    · cases hs
    · exact absurd hs.mem_clock List.not_mem_nil
  · rintro ls c ⟨t, op⟩ c' hr hi hok hs hclock
    exact seenInv_step hr (hi (clock_pairwise_of_append hclock)) hclock hok hs

/-- What was stored after a part of a run is replaced by later times only. -/
theorem lastSeen_mono {pre post : List (Tid × Op)} {c₀ : Server}
    (hr : (server cfg).Run (pre ++ post) c)
    (hok : (server cfg).Along StoresInOrder (pre ++ post))
    (hclock : (clock (pre ++ post)).Pairwise (· ≤ ·)) (hr₀ : (server cfg).Run pre c₀)
    (hs : lastSeen hostname c₀.shared.devices = some τ) :
    ∃ τ', lastSeen hostname c.shared.devices = some τ' ∧ τ ≤ τ' := by
  induction post using List.reverseRecOn generalizing c with
  | nil =>
      rw [List.append_nil] at hr
      rw [hr.functional hr₀]
      exact ⟨τ, hs, le_rfl⟩
  | append_singleton post a ih =>
      obtain ⟨t, op⟩ := a
      rw [← List.append_assoc] at hr hok hclock
      obtain ⟨c₁, hr₁, hstep⟩ := Conc.Lts.run_snoc.mp hr
      have hok₁ := ((Conc.Lts.alongFrom_snoc hr₁).mp hok).1
      have hclock₁ := clock_pairwise_of_append hclock
      obtain ⟨τ₁, hs₁, hle₁⟩ := ih hr₁ hok₁ hclock₁
      obtain ⟨τ₂, hs₂, hle₂⟩ := (seenInv hr₁ hok₁ hclock₁).le hstep hs₁
      exact ⟨τ₂, hs₂, hle₁.trans hle₂⟩

/-- Where the calls for a hostname take the lock in the order in which they have
    read the clock, `last_seen_at` follows the clock. -/
theorem lastSeen_kept (hr : (server cfg).Run ls c) (hclock : (clock ls).Pairwise (· ≤ ·))
    (hok : (server cfg).Along StoresInOrder ls) : LastSeenKept cfg ls c := by
  have hi := seenInv hr hok hclock
  have hnd := (deviceInv hr).unique
  refine ⟨fun pre post c₀ d hls hr₀ hd => ?_, fun hostname hquiet τ => ?_⟩
  · subst hls
    -- A record stays, and its time only grows.
    obtain ⟨c₁, hr₁, hpost⟩ := Conc.Lts.run_append.mp hr
    have hname : d.name ∈ c.shared.devices.map DeviceRecord.name := by
      refine (devices_grow hpost).subset ?_
      rw [hr₁.functional hr₀]
      exact List.mem_map_of_mem hd
    obtain ⟨d', hd', hn⟩ := List.mem_map.mp hname
    have hhost : d'.hostname = d.hostname := congrArg Prod.snd hn
    have hs := (lastSeen_eq_some (deviceInv hr₀).unique).mpr ⟨d, hd, rfl, rfl⟩
    have hs' := (lastSeen_eq_some hnd).mpr ⟨d', hd', hhost, rfl⟩
    obtain ⟨τ', ht', hle⟩ := lastSeen_mono hr hok hclock hr₀ hs
    rw [hs'] at ht'
    cases ht'
    exact ⟨d', hd', hn, hle⟩
  · rw [← lastSeen_eq_some hnd]
    -- With no upsert in flight, every time at which the host was seen is covered.
    have hmax : ∀ {τ}, lastSeen hostname c.shared.devices = some τ →
        IsGreatest {now | SeenAt cfg ls hostname now} τ := by
      intro τ hs
      refine ⟨(hi.stored hostname τ hs).1, fun now hnow => ?_⟩
      obtain ⟨t, ht⟩ | ⟨τ', hs', hle⟩ := hi.covered hostname now hnow
      · exact absurd ht (hquiet t now)
      · rw [hs] at hs'
        cases hs'
        exact hle
    refine ⟨hmax, fun hg => ?_⟩
    obtain ⟨t, ht⟩ | ⟨τ', hs', _⟩ := hi.covered hostname τ hg.1
    · exact absurd ht (hquiet t τ)
    · rw [hs', hg.unique (hmax hs')]

/-- The order of the calls, checked on the tasks that a run has started. -/
theorem storesInOrder_among {ts : List Tid} {now : DateTime} {id : String}
    (hr : (server cfg).Run ls c) (hls : ∀ a ∈ ls, a.1 ∈ ts ∧ a.2.child = none)
    (hts : ∀ u ∈ ts, ∀ p ∈ (c.task u).seeing?.toList, p.1 = hostname → now ≤ p.2) :
    StoresInOrder c (t, .upsertDevice hostname now id) := by
  intro hostname' now₁ id' hop u now' hu
  cases hop
  by_cases hut : u ∈ ts
  · exact hts u hut _ (Option.mem_toList.mpr hu) rfl
  · rw [server_idle hr hls hut] at hu
    cases hu

/-- Steps that store no time meet the condition. -/
theorem storesInOrder_quiet (hr : (server cfg).Run ls c)
    (hls : ∀ a ∈ ls, a.2.onDevices = false) : (server cfg).Along StoresInOrder ls := by
  refine hr.along fun pre a post s he _ hostname now id hop => ?_
  have ha : a ∈ ls := by
    rw [he]
    exact List.mem_append_right _ List.mem_cons_self
  have hq := hls a ha
  rw [hop] at hq
  cases hq

/-- A `Register` from a device with a name. -/
def laptop : Register := { anyPort with hostname := some "laptop" }

/-- Two sessions of one host have read the clock, session 1 first. -/
def bothRead : List (Tid × Op) :=
  [(1, .connect "10.0.0.1" (some (some (.register laptop)))), (1, .compute),
   (2, .connect "10.0.0.1" (some (some (.register laptop)))), (2, .compute),
   (1, .now 10), (2, .now 11)]

theorem lastSeen_kept_inOrder : ∃ c,
    (server onePort).Run (bothRead ++ [(1, .upsertDevice "laptop" 10 "d")] ++
      [(2, .upsertDevice "laptop" 11 "e")]) c ∧
    LastSeenKept onePort (bothRead ++ [(1, .upsertDevice "laptop" 10 "d")] ++
      [(2, .upsertDevice "laptop" 11 "e")]) c := by
  obtain ⟨c, hc, -⟩ : ∃ c, (server onePort).Run (bothRead ++ [(1, .upsertDevice "laptop" 10 "d")] ++
      [(2, .upsertDevice "laptop" 11 "e")]) c ∧ True := Conc.Lts.exists_run (by decide)
  obtain ⟨c₁, hc₁, h₁⟩ :
      ∃ c, (server onePort).Run (bothRead ++ [(1, .upsertDevice "laptop" 10 "d")]) c ∧
      ∀ u ∈ ([1, 2] : List Tid), ∀ p ∈ (c.task u).seeing?.toList, p.1 = "laptop" → 11 ≤ p.2 :=
    Conc.Lts.exists_run (by decide)
  obtain ⟨c₀, hc₀, h₀⟩ : ∃ c, (server onePort).Run bothRead c ∧
      ∀ u ∈ ([1, 2] : List Tid), ∀ p ∈ (c.task u).seeing?.toList, p.1 = "laptop" → 10 ≤ p.2 :=
    Conc.Lts.exists_run (by decide)
  refine ⟨c, hc, lastSeen_kept hc (by decide) ?_⟩
  refine (Conc.Lts.alongFrom_snoc hc₁).mpr ⟨(Conc.Lts.alongFrom_snoc hc₀).mpr ⟨?_, ?_⟩, ?_⟩
  · exact storesInOrder_quiet hc₀ (by decide)
  · exact storesInOrder_among hc₀ (by decide) h₀
  · exact storesInOrder_among hc₁ (by decide) h₁

/-- The later call takes the lock first, and the earlier one sets the time back. -/
theorem lastSeen_set_back : ¬ ∀ cfg ls c, (server cfg).Run ls c →
    (clock ls).Pairwise (· ≤ ·) → LastSeenKept cfg ls c := by
  intro hall
  obtain ⟨c₁, hc₁, h₁⟩ :
      ∃ c, (server onePort).Run (bothRead ++ [(2, .upsertDevice "laptop" 11 "d")]) c ∧
      c.shared.devices = [⟨"d", "laptop", 11⟩] := Conc.Lts.exists_run (by decide)
  obtain ⟨c, hc, h⟩ : ∃ c, (server onePort).Run (bothRead ++ [(2, .upsertDevice "laptop" 11 "d")] ++
      [(1, .upsertDevice "laptop" 10 "e")]) c ∧ c.shared.devices = [⟨"d", "laptop", 10⟩] :=
    Conc.Lts.exists_run (by decide)
  have hkept := hall onePort _ c hc (by decide)
  obtain ⟨d, hd, _, hle⟩ :=
      hkept.mono _ _ c₁ ⟨"d", "laptop", 11⟩ rfl hc₁ (by rw [h₁]; exact List.mem_cons_self)
  rw [h, List.mem_singleton] at hd
  rw [hd] at hle
  exact absurd hle (by decide)

end LastSeen

end Borehole
