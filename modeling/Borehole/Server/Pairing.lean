/-
  Borehole.Server.Pairing

  What the rendezvous of visitors and data connections guarantees.

  That a socket meets one visitor, of the `conn_id` it announced, and that no
  entry outlives its visitor, holds of any rendezvous.  What is particular to
  the server is who takes entries out: a data connection that announced the key,
  the visitor itself once its wait is over, or the loop that could not send the
  notice.
-/

import Borehole.Server.Pages
import Borehole.Server.Visitors

namespace Borehole

open Conc Tasks

/-! ## Announcements and keys -/

/-- The first frame of data connection `d` named `connId`. -/
def Announced (ls : List (Tid × Op)) (d : Tid) (connId : String) : Prop :=
  (d, .readFrame (some (some (.dataConn ⟨connId⟩)))) ∈ ls

/-- The `conn_id` that a data connection has announced. -/
def HandleDataConn.Pc.announced? : HandleDataConn.Pc → Option String
  | .readFrame => none
  | .claim connId | .deliver connId _ => some connId
  | .done connId => connId

/-- The `conn_id` that a data connection announced. -/
def ServerTask.announced? : ServerTask → Option String
  | .dataConn pc => pc.announced?
  | _ => none

/-- The handling of a visitor has come to its end: it was spliced, or given up. -/
def VisitorTask.Pc.over : VisitorTask.Pc → Bool
  | .accepted | .notifying | .waiting _ | .removePending => false
  | .proxying _ _ | .endedAt _ _ | .record _ _ _ | .done _ => true

theorem ServerTask.announced_of_looked {k : ServerTask} {id : String}
    (h : k.call.looked? = some id) : k.announced? = some id := by
  cases k with
  | dataConn pc => cases pc <;> first | exact h | cases h
  | _ => cases h

theorem ServerTask.visitor_of_offered {k : ServerTask} {id : String}
    (h : k.place.offered? = some id) : ∃ vis pc, k = .visitor vis pc ∧ vis.connId = id := by
  cases k with
  | visitor vis pc =>
      refine ⟨vis, pc, rfl, ?_⟩
      rcases pc with _ | _ | _ | _ | _ | _ | _ | _ | _ <;>
        first | exact Option.some.inj h | cases h
  | _ => cases h

theorem ServerTask.ident_of_offered {k : ServerTask} {id : String}
    (h : k.place.offered? = some id) : k.ident? = some id := by
  obtain ⟨vis, pc, rfl, rfl⟩ := visitor_of_offered h
  rfl

theorem ServerTask.waits_of_place {k : ServerTask} {id : String} (h : k.place = .offered id) :
    ∃ vis pc, k = .visitor vis pc ∧ vis.connId = id ∧ pc.over = false := by
  obtain ⟨vis, pc, rfl, hid⟩ := visitor_of_offered (k := k) (by rw [h]; rfl)
  refine ⟨vis, pc, rfl, hid, ?_⟩
  rcases pc with _ | _ | _ | _ | _ | _ | _ | _ | _ <;> first | rfl | cases h

section Steps

variable {tokens : List String} {s : SessionCtx} {ctx : TunnelCtx} {node : NodeInfo}
  {t : Tid} {op : Op} {k k' : ServerTask}

/-- A data connection keeps what it announced. -/
theorem ServerTask.Step.announced (h : Step tokens t k op k') :
    k'.announced? = k.announced? ∨ ∃ id, k'.announced? = some id ∧ k.announced? = none ∧
      op = .readFrame (some (some (.dataConn ⟨id⟩))) := by
  cases h with
  | @connect peer first =>
      have hd := handleClient_dispatched peer first
      generalize handleClient peer first = k' at hd ⊢
      cases hd <;> exact Or.inl rfl
  | dataConn h =>
      cases h with
      | announced => exact Or.inr ⟨_, rfl, rfl, rfl⟩
      | _ => exact Or.inl rfl
  | _ => exact Or.inl rfl

theorem ServeTunnel.Step.notice {pc : Pc} {f : Flow Pc} {w : Tid} {n : NewConn} {ok : Bool}
    (h : Step s ctx pc op f) (hop : op = .send w (.newConn n) ok) :
    w = s.task ∧ ∃ v vis, pc.handling? = some (.noticing v vis) ∧ n = ⟨vis.connId, none, none⟩ := by
  cases h with
  | notified | notifyFailed => cases hop; exact ⟨rfl, _, _, rfl, rfl⟩
  | _ => cases hop

theorem ServeCliDirect.Step.notice {pc : Pc} {f : Flow Pc} {w : Tid} {n : NewConn} {ok : Bool}
    (h : Step s ctx pc op f) (hop : op = .send w (.newConn n) ok) :
    w = s.task ∧ ∃ v vis, pc.handling? = some (.noticing v vis) ∧ n = ⟨vis.connId, none, none⟩ := by
  cases h with
  | serve h | served h => exact h.notice hop
  | _ => cases hop

theorem ServeCliViaNode.Step.notice {pc : Pc} {f : Flow Pc} {w : Tid} {n : NewConn} {ok : Bool}
    (h : Step s ctx node pc op f) (hop : op = .send w (.newConn n) ok) :
    w = s.task ∧ ∃ v vis, pc.handling? = some (.noticing v vis) ∧ n = ⟨vis.connId, none, none⟩ := by
  cases h with
  | fallback h | fellBack h => exact h.notice hop
  | _ => cases hop

/-- A `NewConn` through an exclusive borrow is the notice of a serving loop, on the
    stream of its session. -/
theorem ServerTask.Step.notice {w : Tid} {n : NewConn} {ok : Bool}
    (h : Step tokens t k op k') (hop : op = .send w (.newConn n) ok) :
    w = t ∧ ∃ v vis, k.handling? = some (.noticing v vis) ∧ n = ⟨vis.connId, none, none⟩ := by
  cases h with
  | cli h =>
      cases h with
      | direct h | directRet h => exact h.notice hop
      | viaNode h | viaNodeRet h => exact h.notice hop
      | _ => cases hop
  | node h =>
      cases h with
      | forward h | forwarded h => cases h <;> cases hop
      | _ => cases hop
  | visitor h => cases h <;> cases hop
  | dataConn h => cases h <;> cases hop
  | close h => cases h <;> cases hop
  | _ => cases hop

end Steps

section Server

variable {cfg : ServerConfig} {ls ls' : List (Tid × Op)} {c c' : Server} {t u v d : Tid} {op : Op}
  {k : String}

theorem announced_of_task (h : (server cfg).Run ls c) (hd : (c.task d).announced? = some k) :
    Announced ls d k := by
  refine Lts.Run.induct
    (P := fun ls c => ∀ d k, (c.task d).announced? = some k → Announced ls d k) ?_ ?_ h d k hd
  · intro d k hd
    cases hd
  · rintro ls c ⟨t, op⟩ c' - hi hs d k hd
    rw [Announced, List.mem_append]
    by_cases hdt : d = t
    · subst hdt
      obtain he | ⟨id, hid, _, hop⟩ := (server_step_self hs).announced
      · exact Or.inl (hi d k (he ▸ hd))
      · rw [hid] at hd
        rw [← Option.some.inj hd, hop]
        exact Or.inr (List.mem_singleton.mpr rfl)
    · rw [server_step_attr (f := ServerTask.announced?) (fun _ _ => rfl) hs hdt] at hd
      exact Or.inl (hi d k hd)

/-! ## Entries and their visitors -/

/-- Whoever is listed in `pending` is a visitor of that `conn_id` that waits. -/
theorem pending_waits (h : (server cfg).Run ls c) (hk : c.shared.pending.lookup k = some v) :
    ∃ vis pc, c.task v = .visitor vis pc ∧ vis.connId = k ∧ pc.over = false :=
  ServerTask.waits_of_place ((visitorInv h).tidy k v hk)

theorem visitor_step_over {vis : Visitor} {pc : VisitorTask.Pc}
    (h : (server cfg).step c (t, op) = some c') (hv : c.task v = .visitor vis pc)
    (hover : pc.over = true) : ∃ pc', c'.task v = .visitor vis pc' ∧ pc'.over = true := by
  by_cases hvt : v = t
  · subst hvt
    have hself := server_step_self h
    rw [hv] at hself
    generalize c'.task v = kv at hself ⊢
    cases hself with
    | visitor h => cases h <;> first | exact ⟨_, rfl, rfl⟩ | cases hover
  · obtain he | ⟨_, ha⟩ := server_step_other h hvt
    · exact ⟨pc, he.trans hv, hover⟩
    · rw [hv] at ha
      generalize c'.task v = kv at ha ⊢
      cases ha <;> cases hover

/-- The `conn_id` of a visitor whose handling is over never comes back. -/
theorem pending_gone {vis : Visitor} {pc : VisitorTask.Pc}
    (h : (server cfg).Run ls c) (hv : c.task v = .visitor vis pc) (hover : pc.over = true)
    (hrun : (server cfg).runFrom c ls' = some c') (hnd : (uuids (ls ++ ls')).Nodup) :
    c'.shared.pending.lookup vis.connId = none := by
  have hall : (server cfg).Run (ls ++ ls') c' := Lts.run_append.mpr ⟨c, h, hrun⟩
  have hstay : ∃ pc', c'.task v = .visitor vis pc' ∧ pc'.over = true := by
    refine Lts.runFrom_induct
      (P := fun _ c' => ∃ pc', c'.task v = .visitor vis pc' ∧ pc'.over = true)
      ⟨pc, hv, hover⟩ ?_ hrun
    rintro ls c ⟨t, op⟩ c' - ⟨pc, hv, hover⟩ hs
    exact visitor_step_over hs hv hover
  obtain ⟨pc', hv', hover'⟩ := hstay
  rw [Option.eq_none_iff_forall_ne_some]
  intro v' hl
  obtain ⟨vis'', pc'', hv'', hid, hwaits⟩ := pending_waits hall hl
  have hvv : v' = v :=
    ident_unique hall hnd (by rw [hv'']; exact congrArg some hid) (by rw [hv']; rfl)
  rw [hvv, hv'] at hv''
  cases hv''
  rw [hover'] at hwaits
  cases hwaits

/-! ## Splices -/

/-- The visitor and the data connection that an operation splices. -/
def splice? (a : Tid × Op) : Option (Tid × Tid) :=
  match a.2 with
  | .received d => some (a.1, d)
  | _ => none

/-- The splices of a run, in order. -/
def splices (ls : List (Tid × Op)) : List (Tid × Tid) :=
  ls.filterMap splice?

theorem splices_snoc (ls : List (Tid × Op)) (a : Tid × Op) :
    splices (ls ++ [a]) = splices ls ++ (splice? a).toList := by
  rw [splices, List.filterMap_append, splices]
  cases h : splice? a <;> simp [h]

theorem Meeting.met {r r' : Rendezvous String Tid Tid} (h : Meeting r r')
    (hv : r.waiter v = .met k d) : r'.waiter v = .met k d := by
  cases h with
  | apart he => rwa [he]
  | event _ h => exact h.met hv
  | leave _ h => exact h.met hv

theorem Meeting.newly_offered {r r' : Rendezvous String Tid Tid} (h : Meeting r r')
    (hv : (r'.waiter v).offered? = some k) :
    (r.waiter v).offered? = some k ∨ r'.table k = some v := by
  cases h with
  | apart he => exact Or.inl (he ▸ hv)
  | event _ h => exact h.newly_offered hv
  | leave _ h => exact h.newly_offered hv

theorem Meeting.newly_taken {r r' : Rendezvous String Tid Tid} (h : Meeting r r')
    (ht : r'.Taken v d) :
    r.Taken v d ∨ ∃ k, r.socket d = .announced k ∧ r'.socket d = .holding k v := by
  cases h with
  | apart he => exact Or.inl (he ▸ ht)
  | event _ h => exact h.newly_taken ht
  | leave _ h => exact h.newly_taken ht

theorem Meeting.looked {r r' : Rendezvous String Tid Tid} (h : Meeting r r')
    (hd : (r.socket d).looked? = some k) : (r'.socket d).looked? = some k := by
  cases h with
  | apart he => rwa [he]
  | event _ h => exact h.looked hd
  | leave _ h => exact h.looked hd

theorem Meeting.offered {r r' : Rendezvous String Tid Tid} (h : Meeting r r')
    (hv : (r.waiter v).offered? = some k) : (r'.waiter v).offered? = some k := by
  cases h with
  | apart he => rwa [he]
  | event _ h => exact h.offered hv
  | leave _ h => exact h.offered hv

/-- A visitor that takes its data socket has been waiting for it. -/
theorem received_step (h : (server cfg).step c (v, .received d) = some c') :
    ∃ k, c.rendezvous.waiter v = .offered k ∧ c.rendezvous.box v = some d ∧
      c'.rendezvous.waiter v = .met k d := by
  have hbox := (ServerState.exec_received (server_step_exec h)).1
  cases (server_step_self h).meets with
  | loop hs _ _ =>
      generalize (c.task v).handling? = o at hs
      generalize (c'.task v).handling? = o' at hs
      cases hs with
      | quiet hop => cases hop
  | @visitor vis pc pc' hk hk' hs =>
      cases hs
      exact ⟨vis.connId, congrArg ServerTask.place hk, hbox, congrArg ServerTask.place hk'⟩
  | dataConn _ _ hs => cases hs

/-- Splices pair each visitor and each data connection once. -/
structure SpliceInv (ls : List (Tid × Op)) (c : Server) : Prop where
  met : ∀ v d, (v, d) ∈ splices ls → ∃ k, c.rendezvous.waiter v = .met k d
  visitors : ((splices ls).map Prod.fst).Nodup
  sockets : ((splices ls).map Prod.snd).Nodup

theorem spliceInv_step (hi : SpliceInv ls c) (hv : VisitorInv c)
    (h : (server cfg).step c (t, op) = some c') : SpliceInv (ls ++ [(t, op)]) c' := by
  have hmeet := server_step_meeting hv.loop h
  have hold : ∀ v d, (v, d) ∈ splices ls → ∃ k, c'.rendezvous.waiter v = .met k d := by
    intro v d hm
    obtain ⟨k, hk⟩ := hi.met v d hm
    exact ⟨k, hmeet.met hk⟩
  cases hop : splice? (t, op) with
  | none =>
      have he : splices (ls ++ [(t, op)]) = splices ls := by
        rw [splices_snoc, hop, Option.toList_none, List.append_nil]
      constructor
      case met =>
        rwa [he]
      case visitors =>
        rw [he]; exact hi.visitors
      case sockets =>
        rw [he]; exact hi.sockets
  | some p =>
      have hrec : ∃ d, op = .received d ∧ p = (t, d) := by
        cases op with
        | received d => exact ⟨d, rfl, (Option.some.inj hop).symm⟩
        | _ => cases hop
      obtain ⟨d, rfl, rfl⟩ := hrec
      obtain ⟨k, hwaits, hbox, hmet⟩ := received_step h
      have he : splices (ls ++ [(t, .received d)]) = splices ls ++ [(t, d)] := by
        rw [splices_snoc, hop, Option.toList_some]
      -- whoever has been spliced before is not waiting any more
      have hv' : t ∉ (splices ls).map Prod.fst := by
        rw [List.mem_map]
        rintro ⟨⟨v, d'⟩, hm, rfl⟩
        obtain ⟨k, hk⟩ := hi.met v d' hm
        rw [hwaits] at hk
        cases hk
      have hd' : d ∉ (splices ls).map Prod.snd := by
        rw [List.mem_map]
        rintro ⟨⟨v, d'⟩, hm, rfl⟩
        obtain ⟨k, hk⟩ := hi.met v d' hm
        have hvt : v = t := hv.exclusive.waiter v t d' (.met hk) (.box hbox)
        rw [hvt, hwaits] at hk
        cases hk
      constructor
      case met =>
        intro v d' hm
        rw [he, List.mem_append] at hm
        obtain hm | hm := hm
        · exact hold v d' hm
        · cases List.mem_singleton.mp hm
          exact ⟨_, hmet⟩
      case visitors =>
        rw [he, List.map_append, List.nodup_append]
        refine ⟨hi.visitors, List.nodup_singleton _, ?_⟩
        intro v hm v' hm' hvv
        rw [List.map_singleton, List.mem_singleton] at hm'
        rw [hvv, hm'] at hm
        exact hv' hm
      case sockets =>
        rw [he, List.map_append, List.nodup_append]
        refine ⟨hi.sockets, List.nodup_singleton _, ?_⟩
        intro s hm s' hm' hss
        rw [List.map_singleton, List.mem_singleton] at hm'
        rw [hss, hm'] at hm
        exact hd' hm

theorem spliceInv (h : (server cfg).Run ls c) : SpliceInv ls c := by
  refine Lts.Run.induct (P := fun ls c => SpliceInv ls c) ?_ ?_ h
  · exact ⟨nofun, List.nodup_nil, List.nodup_nil⟩
  · rintro ls c ⟨t, op⟩ c' hr hi hs
    exact spliceInv_step hi (visitorInv hr) hs

/-- A spliced visitor met a socket that had announced its `conn_id`. -/
theorem spliced_announced (h : (server cfg).Run ls c) (hm : (v, d) ∈ splices ls) :
    ∃ vis pc, c.task v = .visitor vis pc ∧ pc.over = true ∧ Announced ls d vis.connId := by
  obtain ⟨k, hk⟩ := (spliceInv h).met v d hm
  obtain ⟨k', hoff, hlook⟩ := (visitorInv h).exclusive.taken v d (.met hk)
  have hkk : k' = k := by
    rw [hk] at hoff
    exact (Option.some.inj hoff).symm
  subst hkk
  obtain ⟨vis, pc, hv, rfl⟩ := ServerTask.visitor_of_offered hoff
  refine ⟨vis, pc, hv, ?_, announced_of_task h (ServerTask.announced_of_looked hlook)⟩
  have hplace : (c.task v).place = .met vis.connId d := hk
  rw [hv] at hplace
  rcases pc with _ | _ | _ | _ | _ | _ | _ | _ | _ <;> first | rfl | cases hplace

/-! ## Who takes entries out -/

/-- A data connection takes a visitor's sender by finding its entry. -/
theorem taken_step (h : (server cfg).Run ls c) (hs : (server cfg).step c (t, op) = some c')
    (ht : c'.rendezvous.Taken v d) :
    c.rendezvous.Taken v d ∨
      t = d ∧ ∃ k, c.task d = .dataConn (.claim k) ∧ op = .removePending k (some v) := by
  obtain ht | ⟨k, hann, hhold⟩ := (server_step_meeting (visitorInv h).loop hs).newly_taken ht
  · exact Or.inl ht
  · change (c.task d).call = .announced k at hann
    change (c'.task d).call = .holding k v at hhold
    by_cases hdt : d = t
    · subst hdt
      have hself := server_step_self hs
      generalize c.task d = kd at hself hann ⊢
      generalize c'.task d = kd' at hself hhold
      cases hself with
      | dataConn hself =>
          cases hself with
          | claimed =>
              cases hhold
              exact Or.inr ⟨rfl, _, rfl, rfl⟩
          | unknown => cases hhold
          | _ => cases hann
      | _ => cases hann
    · rw [server_step_attr (f := ServerTask.call) (fun _ _ => rfl) hs hdt, hann] at hhold
      cases hhold

/-- A data connection changes `pending` only by taking out the entry that it
    announced. -/
theorem dataConn_pending {pc : HandleDataConn.Pc} (h : (server cfg).Run ls c)
    (hd : c.task d = .dataConn pc) (hs : (server cfg).step c (d, op) = some c') :
    c'.shared.pending = c.shared.pending ∨
      ∃ k v, Announced ls d k ∧ c.shared.pending.lookup k = some v ∧
        op = .removePending k (some v) := by
  have hx := server_step_exec hs
  have hself := server_step_self hs
  rw [hd] at hself
  generalize c'.task d = k' at hself
  cases hself with
  | dataConn hs =>
      cases hs with
      | claimed =>
          have hk := announced_of_task h (d := d) (by rw [hd]; rfl)
          exact Or.inr ⟨_, _, hk, (ServerState.exec_removePending hx).1, rfl⟩
      | unknown => exact Or.inl (ServerState.exec_removePending_none hx)
      | _ => exact Or.inl (ServerState.exec_pending hx rfl)

/-- Where the generated ids are distinct, two visitors of one `conn_id` are the
    same visitor. -/
theorem offered_unique {v' : Tid} (h : (server cfg).Run ls c) (hnd : (uuids ls).Nodup)
    (hv : (c.rendezvous.waiter v).offered? = some k)
    (hv' : (c.rendezvous.waiter v').offered? = some k) : v = v' :=
  ident_unique h hnd (ServerTask.ident_of_offered hv) (ServerTask.ident_of_offered hv')

/-- A visitor whose sender was put into `pending` is listed there until someone
    takes it out. -/
theorem listed_or_removed (h : (server cfg).Run ls c) (hnd : (uuids ls).Nodup)
    (hv : (c.rendezvous.waiter v).offered? = some k) :
    c.shared.pending.lookup k = some v ∨ ∃ t, (t, .removePending k (some v)) ∈ ls := by
  refine Lts.Run.induct (P := fun ls c => (uuids ls).Nodup → ∀ v k,
    (c.rendezvous.waiter v).offered? = some k →
      c.shared.pending.lookup k = some v ∨ ∃ t, (t, .removePending k (some v)) ∈ ls)
    ?_ ?_ h hnd v k hv
  · intro _ v k hv
    cases hv
  · rintro ls c ⟨t, op⟩ c' hr hi hs hnd v k hv
    have hr' : (server cfg).Run (ls ++ [(t, op)]) c' := Lts.run_snoc.mpr ⟨c, hr, hs⟩
    obtain hold | hnew := (server_step_meeting (visitorInv hr).loop hs).newly_offered hv
    · obtain hl | ⟨u, hu⟩ := hi (nodup_of_snoc hnd).1 v k hold
      · obtain hl' | rfl | ⟨v', rfl⟩ := ServerState.exec_pendingGone (server_step_exec hs) hl
        · exact Or.inl hl'
        · exact Or.inr ⟨t, List.mem_append_right _ (List.mem_singleton.mpr rfl)⟩
        -- only this visitor is listed under its `conn_id`
        · have hl' : c'.shared.pending.lookup k = some v' := by
            rw [ServerState.exec_insertPending (server_step_exec hs), if_pos rfl]
          have hv' := ((visitorInv hr').exclusive.entry k v' hl').1
          rw [offered_unique hr' hnd hv hv']
          exact Or.inl hl'
      · exact Or.inr ⟨u, List.mem_append_left _ hu⟩
    · exact Or.inl hnew

/-- The wait of visitor `v` is over: it was spliced or has left, or the loop
    that accepted it is giving it up. -/
def WaitOver (c : Server) (v : Tid) : Prop :=
  (∃ vis pc, c.task v = .visitor vis pc ∧ pc.over = true) ∨
    ∃ t, (c.task t).handling? = some (.dropping v)

theorem WaitOver.step (h : (server cfg).step c (t, op) = some c')
    (hv : WaitOver c v) : WaitOver c' v := by
  obtain ⟨vis, pc, hv, hover⟩ | ⟨u, hu⟩ := hv
  · obtain ⟨pc', hv', hover'⟩ := visitor_step_over h hv hover
    exact Or.inl ⟨vis, pc', hv', hover'⟩
  · by_cases hut : u = t
    · subst hut
      cases (server_step_self h).meets with
      | loop hs _ _ =>
          rw [hu] at hs
          generalize hk : (c'.task u).handling? = o at hs
          cases hs with
          | drop =>
              obtain ⟨_, ha⟩ := server_step_child h rfl
              refine Or.inl ?_
              generalize c.task v = kv at ha
              generalize c'.task v = kv' at ha ⊢
              cases ha
              exact ⟨_, _, rfl, rfl⟩
          | quiet => exact Or.inr ⟨u, hk⟩
      | visitor hk _ _ => rw [hk] at hu; cases hu
      | dataConn hk _ _ => rw [hk] at hu; cases hu
    · rw [← server_step_attr (f := ServerTask.handling?) (fun _ _ => rfl) h hut] at hu
      exact Or.inr ⟨u, hu⟩

/-- Whoever takes a visitor's entry out is a data connection that announced its
    `conn_id`, or ends the visitor's wait. -/
theorem removes_step (h : (server cfg).Run ls c) (hnd : (uuids ls).Nodup)
    (hs : (server cfg).step c (t, .removePending k (some v)) = some c') :
    (c'.rendezvous.socket t).looked? = some k ∨ WaitOver c' v := by
  have hl := (ServerState.exec_removePending (server_step_exec hs)).1
  have hv := ((visitorInv h).exclusive.entry k v hl).1
  cases (server_step_self hs).meets with
  | loop hloop _ _ =>
      have hhas := (visitorInv h).loop.has t
      generalize (c.task t).handling? = o at hloop hhas
      generalize hk : (c'.task t).handling? = o' at hloop
      cases hloop with
      | @removePending v₀ vis =>
          -- A handler takes out the entry of the visitor in its hands, and then drops it.
          have hv₀ : (c.rendezvous.waiter v₀).offered? = some vis.connId := by
            have hhas : Handling.Has (.removing v₀ vis) (c.task v₀) := hhas _ rfl
            change (c.task v₀).place.offered? = _
            generalize c.task v₀ = kv at hhas ⊢
            cases hhas
            rfl
          rw [offered_unique h hnd hv hv₀]
          exact Or.inr (Or.inr ⟨t, hk⟩)
      | quiet hop => cases hop
  | @visitor vis pc pc' hk hk' hvis =>
      cases hvis with
      | removePending =>
          -- A visitor's task takes out its own entry, since its wait is over.
          have ht : (c.rendezvous.waiter t).offered? = some vis.connId := by
            change (c.task t).place.offered? = _
            rw [hk]
            rfl
          rw [offered_unique h hnd hv ht]
          exact Or.inr (Or.inl ⟨vis, _, hk', rfl⟩)
  | dataConn _ hk' hd =>
      cases hd with
      | claimed =>
          -- A data connection has been sent the id, and looks it up.
          refine Or.inl ?_
          change (c'.task t).call.looked? = _
          rw [hk']
          rfl

theorem removed_by (h : (server cfg).Run ls c) (hnd : (uuids ls).Nodup)
    (hm : (t, .removePending k (some v)) ∈ ls) :
    (c.rendezvous.socket t).looked? = some k ∨ WaitOver c v := by
  refine Lts.Run.induct (P := fun ls c => (uuids ls).Nodup → ∀ t k v,
    (t, .removePending k (some v)) ∈ ls →
      (c.rendezvous.socket t).looked? = some k ∨ WaitOver c v) ?_ ?_ h hnd t k v hm
  · intro _ t k v hm
    cases hm
  · rintro ls c ⟨u, op⟩ c' hr hi hs hnd t k v hm
    have hnd' := (nodup_of_snoc hnd).1
    rw [List.mem_append] at hm
    obtain hm | hm := hm
    · obtain hlook | hover := hi hnd' t k v hm
      · exact Or.inl ((server_step_meeting (visitorInv hr).loop hs).looked hlook)
      · exact Or.inr (hover.step hs)
    · cases List.mem_singleton.mp hm
      exact removes_step hr hnd' hs

/-- A notice is sent for a visitor whose sender is, or has been, in `pending`. -/
theorem noticed_offered {w : Tid} {ok : Bool} (h : (server cfg).Run ls c)
    (hm : (t, .send w (.newConn ⟨k, none, none⟩) ok) ∈ ls) :
    ∃ v, (c.rendezvous.waiter v).offered? = some k := by
  refine Lts.Run.induct (P := fun ls c => ∀ t, (t, .send w (.newConn ⟨k, none, none⟩) ok) ∈ ls →
    ∃ v, (c.rendezvous.waiter v).offered? = some k) ?_ ?_ h t hm
  · intro t hm
    cases hm
  · rintro ls c ⟨u, op⟩ c' hr hi hs t' hm
    have hmeet := server_step_meeting (visitorInv hr).loop hs
    rw [List.mem_append] at hm
    obtain hm | hm := hm
    · obtain ⟨v, hv⟩ := hi t' hm
      exact ⟨v, hmeet.offered hv⟩
    · cases List.mem_singleton.mp hm
      obtain ⟨-, v, vis, hk, hn⟩ := (server_step_self hs).notice rfl
      have hhas : Handling.Has (.noticing v vis) (c.task v) := (visitorInv hr).loop.has u _ hk
      refine ⟨v, hmeet.offered ?_⟩
      change (c.task v).place.offered? = _
      generalize c.task v = kv at hhas ⊢
      cases hhas
      rw [NewConn.mk.injEq] at hn
      exact congrArg some hn.1.symm

/-- A `DataConn` in answer to a notice finds its visitor, unless the visitor's
    wait is over or another data connection has answered before. -/
theorem dataConn_finds {got : Option Tid} {w : Tid} {ok : Bool} (h : (server cfg).Run ls c)
    (hnd : (uuids ls).Nodup) (hd : c.task d = .dataConn (.claim k))
    (hm : (t, .send w (.newConn ⟨k, none, none⟩) ok) ∈ ls)
    (hs : (server cfg).step c (d, .removePending k got) = some c') :
    ∃ v, (c.task v).ident? = some k ∧
      (got = some v ∨ WaitOver c v ∨
        ∃ d', d' ≠ d ∧ Announced ls d' k ∧ (d', .removePending k (some v)) ∈ ls) := by
  obtain ⟨v, hv⟩ := noticed_offered h hm
  refine ⟨v, ServerTask.ident_of_offered hv, ?_⟩
  obtain hl | ⟨d', hd'⟩ := listed_or_removed h hnd hv
  · rw [(ServerState.exec_removePending (server_step_exec hs)).1] at hl
    exact Or.inl hl
  · obtain hlook | hover := removed_by h hnd hd'
    · have hann := announced_of_task h (ServerTask.announced_of_looked hlook)
      refine Or.inr (Or.inr ⟨d', ?_, hann, hd'⟩)
      -- this data connection has not looked its key up yet
      rintro rfl
      change (c.task d').call.looked? = some k at hlook
      rw [hd] at hlook
      cases hlook
    · exact Or.inr (Or.inl hover)

/-! ## Records -/

/-- A loop that spawns a visitor has just read the clock. -/
theorem spawning_now (h : (server cfg).Run ls c) {now : DateTime}
    (hu : (c.task u).handling? = some (.spawning v now)) : (u, .now now) ∈ ls := by
  refine Lts.Run.induct (P := fun ls c => ∀ u, (c.task u).handling? = some (.spawning v now) →
    (u, .now now) ∈ ls) ?_ ?_ h u hu
  · intro u hu
    cases hu
  · rintro ls c ⟨t, op⟩ c' - hi hs u hu
    rw [List.mem_append]
    by_cases hut : u = t
    · subst hut
      cases (server_step_self hs).meets with
      | loop hloop _ _ =>
          have hold := hi u
          rw [hu] at hloop
          generalize (c.task u).handling? = o at hloop hold
          cases hloop with
          | connectedAt => exact Or.inr (List.mem_singleton.mpr rfl)
          | quiet => exact Or.inl (hold rfl)
      | visitor _ hk' _ => rw [hk'] at hu; cases hu
      | dataConn _ hk' _ => rw [hk'] at hu; cases hu
    · rw [server_step_attr (f := ServerTask.handling?) (fun _ _ => rfl) hs hut] at hu
      exact Or.inl (hi u hu)

/-- A serving loop read `connectedAt` off the clock and spawned `v` with it. -/
def Spawned (ls : List (Tid × Op)) (v : Tid) (connectedAt : DateTime) : Prop :=
  ∃ u, (u, .now connectedAt) ∈ ls ∧ (u, .spawn v connectedAt) ∈ ls

/-- What a visitor's task has done, by where it is; `S` holds of the times that
    it may have been spawned with. -/
inductive VisitorTask.Trace (vis : Visitor) (S : DateTime → Prop) : Pc → List Op → Prop where
  | accepted : Trace vis S .accepted []
  | notifying : Trace vis S .notifying []
  | dropped : Trace vis S (.done none) []
  | waiting {t : DateTime} : S t → Trace vis S (.waiting t) []
  | elapsed : Trace vis S .removePending [.elapsed]
  | left {got : Option Tid} :
      Trace vis S (.done none) [.elapsed, .removePending vis.connId got]
  | proxying {d : Tid} {t : DateTime} : S t → Trace vis S (.proxying d t) [.received d]
  | endedAt {d : Tid} {t : DateTime} : S t → Trace vis S (.endedAt d t) [.received d, .proxied]
  | record {d : Tid} {t t' : DateTime} : S t →
      Trace vis S (.record d t t') [.received d, .proxied, .now t']
  | recorded {d : Tid} {t t' : DateTime} : S t → Trace vis S (.done (some d))
      [.received d, .proxied, .now t', .recordConnection (history vis t t')]

theorem VisitorTask.Trace.mono {vis : Visitor} {S S' : DateTime → Prop} {pc : Pc} {ops : List Op}
    (h : Trace vis S pc ops) (hS : ∀ t, S t → S' t) : Trace vis S' pc ops := by
  cases h <;> constructor
  all_goals
    apply hS
    assumption

theorem VisitorTask.Step.trace {vis : Visitor} {S : DateTime → Prop} {pc pc' : Pc} {ops : List Op}
    (h : Step vis pc op pc') (ht : Trace vis S pc ops) : Trace vis S pc' (ops ++ [op]) := by
  cases h <;> cases ht <;> constructor
  all_goals assumption

/-- A task that has not started has done nothing. -/
theorem idle_no_ops (h : (server cfg).Run ls c) (hv : c.task v = .idle) : opsOf v ls = [] := by
  refine run_history (P := fun _ ops k => k = .idle → ops = []) h (fun _ _ => rfl) ?_ ?_ v hv
  · exact fun t ops k op k' _ hs hidle => absurd hidle (next_step hs).not_idle
  · rintro t u ops k op k' _ _ ha rfl
    cases adopt_step ha

theorem visitor_trace (h : (server cfg).Run ls c) {vis : Visitor} {pc : VisitorTask.Pc}
    (hv : c.task v = .visitor vis pc) : VisitorTask.Trace vis (Spawned ls v) pc (opsOf v ls) := by
  refine Lts.Run.induct (P := fun ls c => ∀ v vis pc, c.task v = .visitor vis pc →
    VisitorTask.Trace vis (Spawned ls v) pc (opsOf v ls)) ?_ ?_ h v vis pc hv
  · intro v vis pc hv
    cases hv
  · rintro ls c ⟨t, op⟩ c' hr hi hs v vis pc hv
    have hmono : ∀ at', Spawned ls v at' → Spawned (ls ++ [(t, op)]) v at' := by
      rintro at' ⟨u, hnow, hspawn⟩
      exact ⟨u, List.mem_append_left _ hnow, List.mem_append_left _ hspawn⟩
    by_cases hvt : v = t
    · subst hvt
      -- The task's own step is appended to its trace.
      rw [opsOf_append, opsOf_singleton_self]
      have hself := server_step_self hs
      rw [hv] at hself
      generalize hk : c.task v = kv at hself
      generalize hk' : ServerTask.visitor vis pc = k' at hself
      cases hself with
      | @connect peer first =>
          have hd := handleClient_dispatched peer first
          generalize handleClient peer first = k' at hd hk'
          cases hd <;> cases hk'
      | visitor hstep =>
          cases hk'
          exact (hstep.trace (hi v vis _ hk)).mono hmono
      | _ => cases hk'
    · rw [opsOf_append, opsOf_singleton_ne _ (Ne.symm hvt), List.append_nil]
      obtain he | ⟨hc, ha⟩ := server_step_other hs hvt
      · exact (hi v vis pc (he ▸ hv)).mono hmono
      -- what the loop does with the visitor is not an operation of its task
      · have hold := hi v
        have hspawns : ∀ now, op = .spawn v now → Spawned (ls ++ [(t, op)]) v now := by
          rintro now rfl
          have hu : (c.task t).handling? = some (.spawning v now) := by
            cases (server_step_self hs).meets with
            | loop hloop _ _ =>
                generalize (c.task t).handling? = o at hloop ⊢
                generalize (c'.task t).handling? = o' at hloop
                cases hloop with
                | spawn => rfl
                | quiet hop => cases hop
            | visitor _ _ hstep => cases hstep
            | dataConn _ _ hstep => cases hstep
          exact ⟨t, List.mem_append_left _ (spawning_now hr hu),
            List.mem_append_right _ (List.mem_singleton.mpr rfl)⟩
        rw [hv] at ha
        generalize hk : c.task v = kv at ha hold
        cases ha with
        | accept =>
            rw [idle_no_ops hr hk]
            exact .accepted
        | @spawn u now _ =>
            -- It starts at the time that the loop has read for it.
            have hu : u = v := Option.some.inj hc
            have ht := hold vis _ rfl
            generalize opsOf v ls = ops at ht ⊢
            cases ht
            exact .waiting (hspawns now (by rw [hu]))
        | insertPending | drop =>
            have ht := hold vis _ rfl
            generalize opsOf v ls = ops at ht ⊢
            cases ht
            constructor

/-- A serving loop accepted visitor `v`, who is `vis`. -/
def Accepted (ls : List (Tid × Op)) (v : Tid) (vis : Visitor) : Prop :=
  ∃ u, (u, .accept (some (v, vis))) ∈ ls

/-- A visitor's task is that of an accepted connection. -/
theorem visitor_accepted (h : (server cfg).Run ls c) {vis : Visitor} {pc : VisitorTask.Pc}
    (hv : c.task v = .visitor vis pc) : Accepted ls v vis := by
  refine Lts.Run.induct (P := fun ls c => ∀ pc, c.task v = .visitor vis pc → Accepted ls v vis)
    ?_ ?_ h pc hv
  · intro pc hv
    cases hv
  · rintro ls c ⟨t, op⟩ c' - hi hs pc hv
    have hold : ∀ pc, c.task v = .visitor vis pc → Accepted (ls ++ [(t, op)]) v vis := by
      intro pc hv
      obtain ⟨u, hu⟩ := hi pc hv
      exact ⟨u, List.mem_append_left _ hu⟩
    by_cases hvt : v = t
    · subst hvt
      have hself := server_step_self hs
      rw [hv] at hself
      generalize hk : c.task v = k at hself
      generalize hk' : ServerTask.visitor vis pc = k' at hself
      cases hself with
      | @connect peer first =>
          have hd := handleClient_dispatched peer first
          generalize handleClient peer first = k' at hd hk'
          cases hd <;> cases hk'
      | visitor hstep =>
          cases hk'
          exact hold _ hk
      | _ => cases hk'
    · obtain he | ⟨hc, ha⟩ := server_step_other hs hvt
      · exact hold pc (he ▸ hv)
      · rw [hv] at ha
        generalize hk : c.task v = k at ha
        cases ha with
        | @accept u _ =>
            have hu : u = v := Option.some.inj hc
            exact ⟨t, List.mem_append_right _ (List.mem_singleton.mpr (by rw [hu]))⟩
        | insertPending | spawn | drop => exact hold _ hk

/-- The connections archived in a run, in order. -/
def connections (ls : List (Tid × Op)) : List ConnectionHistory :=
  ls.filterMap fun a =>
    match a.2 with
    | .recordConnection h => some h
    | _ => none

/-- Only visitors' tasks archive connections. -/
theorem recordConnection_step {x : ConnectionHistory}
    (h : (server cfg).step c (t, .recordConnection x) = some c') :
    ∃ vis pc, c'.task t = .visitor vis pc := by
  cases (server_step_self h).meets with
  | visitor _ hk' _ => exact ⟨_, _, hk'⟩
  | dataConn _ _ hs => cases hs
  | loop hs _ _ =>
      generalize (c.task t).handling? = o at hs
      generalize (c'.task t).handling? = o' at hs
      cases hs with
      | quiet hop => cases hop

theorem server_step_visitor {vis : Visitor} {pc : VisitorTask.Pc}
    (h : (server cfg).step c (t, op) = some c') (hv : c.task v = .visitor vis pc) :
    ∃ pc', c'.task v = .visitor vis pc' := by
  by_cases hvt : v = t
  · subst hvt
    have hself := server_step_self h
    rw [hv] at hself
    generalize c'.task v = kv at hself ⊢
    cases hself with
    | visitor _ => exact ⟨_, rfl⟩
  · obtain he | ⟨_, ha⟩ := server_step_other h hvt
    · exact ⟨pc, he.trans hv⟩
    · rw [hv] at ha
      generalize c'.task v = kv at ha ⊢
      cases ha <;> exact ⟨_, rfl⟩

/-- Whoever has archived a connection is a visitor that was spliced. -/
theorem recorded_spliced {x : ConnectionHistory} (h : (server cfg).Run ls c)
    (hm : (v, .recordConnection x) ∈ ls) :
    ∃ vis d, c.task v = .visitor vis (.done (some d)) := by
  have hv : ∃ vis pc, c.task v = .visitor vis pc := by
    refine Lts.Run.induct (P := fun ls c => (v, .recordConnection x) ∈ ls →
      ∃ vis pc, c.task v = .visitor vis pc) nofun ?_ h hm
    rintro ls c ⟨t, op⟩ c' - hi hs hm
    rw [List.mem_append] at hm
    obtain hm | hm := hm
    · obtain ⟨vis, pc, hv⟩ := hi hm
      obtain ⟨pc', hv'⟩ := server_step_visitor hs hv
      exact ⟨vis, pc', hv'⟩
    · cases List.mem_singleton.mp hm
      exact recordConnection_step hs
  obtain ⟨vis, pc, hv⟩ := hv
  have ht := visitor_trace h hv
  have hm' := mem_opsOf.mpr hm
  generalize opsOf v ls = ops at ht hm'
  rcases ht with _ | _ | _ | _ | _ | _ | _ | _ | _ | _
  case recorded d _ _ _ => exact ⟨vis, d, hv⟩
  all_goals simp at hm'

/-- A visitor whose proxy has ended gets its record: nothing that other tasks do
    can keep its task from the last two operations. -/
theorem proxied_records {vis : Visitor} {t' t'' : DateTime}
    (hv : c.task v = .visitor vis (.endedAt d t')) :
    ∃ c', (server cfg).runFrom c
      [(v, .now t''), (v, .recordConnection (VisitorTask.history vis t' t''))] = some c' := by
  have hnow : (server cfg).step c (v, .now t'') =
      some ⟨c.shared, Function.update c.task v (.visitor vis (.record d t' t''))⟩ := by
    simp [server, Tasks.lts, Tasks.step, serverTasks, ServerTask.next, hv, visitorTask,
      ServerState.exec, Op.child]
  simp only [Lts.runFrom, hnow, Option.bind_some]
  simp [server, Tasks.lts, Tasks.step, serverTasks, ServerTask.next, visitorTask,
    ServerState.exec, Op.child]

/-- The dashboard sees the newest of what the run archived. -/
theorem history_connections (h : (server cfg).Run ls c) :
    c.shared.history.connections = (connections ls).rtake maxConnections := by
  rw [(history_recorded h).connections]
  congr 1
  refine List.filterMap_congr fun a _ => ?_
  cases a.2 <;> rfl

end Server

/-- The rendezvous of visitors and data connections on the server, in every
    reachable state. -/
theorem rendezvous {cfg : ServerConfig} {ls : List (Tid × Op)} {c : Server}
    (h : (server cfg).Run ls c) :
    -- a listed visitor waits, and is never listed again once it does not
    (∀ k v, c.shared.pending.lookup k = some v →
      ∃ vis pc, c.task v = .visitor vis pc ∧ vis.connId = k ∧ pc.over = false) ∧
    (∀ v vis pc ls' c', c.task v = .visitor vis pc → pc.over = true →
      (server cfg).runFrom c ls' = some c' → (uuids (ls ++ ls')).Nodup →
      c'.shared.pending.lookup vis.connId = none) ∧
    -- splices are one to one, and go by the announced `conn_id`
    ((splices ls).map Prod.fst).Nodup ∧ ((splices ls).map Prod.snd).Nodup ∧
    (∀ v d, (v, d) ∈ splices ls →
      ∃ vis pc, c.task v = .visitor vis pc ∧ pc.over = true ∧ Announced ls d vis.connId) ∧
    -- a data connection takes out nothing but the entry it announced
    (∀ d pc op c', c.task d = .dataConn pc → (server cfg).step c (d, op) = some c' →
      c'.shared.pending = c.shared.pending ∨
        ∃ k v, Announced ls d k ∧ c.shared.pending.lookup k = some v ∧
          op = .removePending k (some v)) ∧
    -- the answer to a notice finds its visitor
    ((uuids ls).Nodup → ∀ t w k ok d got c',
      (t, .send w (.newConn ⟨k, none, none⟩) ok) ∈ ls → c.task d = .dataConn (.claim k) →
      (server cfg).step c (d, .removePending k got) = some c' →
      ∃ v, (c.task v).ident? = some k ∧
        (got = some v ∨ WaitOver c v ∨
          ∃ d', d' ≠ d ∧ Announced ls d' k ∧ (d', .removePending k (some v)) ∈ ls)) ∧
    -- one record for each spliced visitor whose proxy has ended, and the dashboard sees it
    (∀ v vis d, c.task v = .visitor vis (.done (some d)) → Accepted ls v vis ∧
      ∃ t t', Spawned ls v t ∧ opsOf v ls = [.received d, .proxied, .now t',
        .recordConnection ⟨vis.tunnelId, vis.connId, vis.addr.ip, vis.addr.port, t,
          ((t' - t).tdiv 1000000000).toNat⟩]) ∧
    (∀ v x, (v, .recordConnection x) ∈ ls →
      ∃ vis d, c.task v = .visitor vis (.done (some d))) ∧
    (∀ v vis d t t', c.task v = .visitor vis (.endedAt d t) → ∃ c', (server cfg).runFrom c
      [(v, .now t'), (v, .recordConnection ⟨vis.tunnelId, vis.connId, vis.addr.ip, vis.addr.port,
        t, ((t' - t).tdiv 1000000000).toNat⟩)] = some c') ∧
    c.shared.history.connections = (connections ls).rtake maxConnections := by
  have hsplice := spliceInv h
  refine ⟨fun k v hk => pending_waits h hk, ?_, hsplice.visitors, hsplice.sockets,
    fun v d hm => spliced_announced h hm, fun d pc op c' hd hs => dataConn_pending h hd hs, ?_, ?_,
    fun v x hm => recorded_spliced h hm, fun v vis d t t' hv => proxied_records hv,
    history_connections h⟩
  · exact fun v vis pc ls' c' hv hover hrun hnd => pending_gone h hv hover hrun hnd
  · exact fun hnd t w k ok d got c' hm hd hs => dataConn_finds h hnd hd hm hs
  · intro v vis d hv
    refine ⟨visitor_accepted h hv, ?_⟩
    have ht := visitor_trace h hv
    generalize opsOf v ls = ops at ht ⊢
    cases ht with
    | @recorded _ t t' hS => exact ⟨t, t', hS, rfl⟩

/-- A tunnel that the server serves itself. -/
def directServed : List (Tid × Op) :=
  [(1, .connect "10.0.0.1" (some (some (.register anyPort)))), (1, .compute),
   (1, .acquire (some 7000)), (1, .uuid "t"), (1, .pick none none), (1, .bind 7000 true),
   (1, .send 1 (.registered ⟨7000, none, none⟩) true), (1, .now 10),
   (1, .insertTunnel "t" ⟨.tcp, 3000, 7000, none, none, 10, none, 1⟩),
   (1, .publish (.tunnelOpened "t" "tcp" 3000 7000 "" 10))]

/-- Its first visitor. -/
def firstVisitor : Visitor := ⟨"t", "c", ⟨"10.0.0.5", 40000⟩⟩

/-- The visitor is announced and meets a data connection; a second one that
    names the same `conn_id` comes too late. -/
def visitorServed : List (Tid × Op) :=
  [(1, .accept (some (5, firstVisitor))), (1, .insertPending "c" 5),
   (1, .send 1 (.newConn ⟨"c", none, none⟩) true),
   (6, .dataConnect), (6, .readFrame (some (some (.dataConn ⟨"c"⟩)))),
   (7, .dataConnect), (7, .readFrame (some (some (.dataConn ⟨"c"⟩)))),
   (6, .removePending "c" (some 5)), (7, .removePending "c" none), (6, .deliver 5 true),
   (1, .now 11), (1, .spawn 5 11), (5, .received 6), (5, .proxied), (5, .now 14),
   (5, .recordConnection (VisitorTask.history firstVisitor 11 14))]

theorem rendezvous_served :
    ∃ c, (server onePort).Run (directServed ++ visitorServed) c ∧
      ((splices (directServed ++ visitorServed)).map Prod.fst).Nodup ∧
      (∃ t t', Spawned (directServed ++ visitorServed) 5 t ∧
        opsOf 5 (directServed ++ visitorServed) = [.received 6, .proxied, .now t',
          .recordConnection ⟨"t", "c", "10.0.0.5", 40000, t,
            ((t' - t).tdiv 1000000000).toNat⟩]) ∧
      c.shared.history.connections = [⟨"t", "c", "10.0.0.5", 40000, 11, 0⟩] := by
  obtain ⟨c, h, hv⟩ : ∃ c, (server onePort).Run (directServed ++ visitorServed) c ∧
      c.task 5 = .visitor firstVisitor (.done (some 6)) := ⟨_, rfl, rfl⟩
  obtain ⟨_, _, hvisitors, _, _, _, _, hrecord, _, _, hhistory⟩ := rendezvous h
  exact ⟨c, h, hvisitors, (hrecord 5 firstVisitor 6 hv).2, hhistory.trans (by decide)⟩

end Borehole
