/-
  Borehole.Server.Handshake

  What the first frame on a control stream is.

  A CLI session answers its `Register` with `Registered`, a node session its
  `RegisterNode` with `NodeRegistered`.  Both publish their writer before they
  answer (in `active_tunnels` and in the node registry), so other sessions may
  reach the writer's mutex first.  The answer comes first on every stream whose
  mutex no other task takes while its session is exposed in this way.
-/

import Borehole.Server.Routes

namespace Borehole

/-! ## Messages of a stream -/

/-- A session's positive answer. -/
def Message.isGreeting : Message → Bool
  | .registered _ | .nodeRegistered _ => true
  | _ => false

/-- A session's answer. -/
def Message.isVerdict : Message → Bool
  | .registered _ | .nodeRegistered _ | .error _ => true
  | _ => false

/-- Every message is an answer or comes after a positive one. -/
def Polite (ms : List Message) : Prop :=
  ∀ pre m post, ms = pre ++ m :: post → m.isVerdict = true ∨ ∃ g ∈ pre, g.isGreeting = true

theorem polite_nil : Polite [] := by
  intro pre m post h
  simp at h

theorem polite_snoc {ms : List Message} {m : Message} (hms : Polite ms)
    (hm : m.isVerdict = true ∨ ∃ g ∈ ms, g.isGreeting = true) : Polite (ms ++ [m]) := by
  intro pre m' post h
  rcases List.eq_nil_or_concat post with rfl | ⟨post, x, rfl⟩
  · obtain ⟨rfl, hlast⟩ := List.append_inj' h rfl
    cases hlast
    exact hm
  · rw [List.concat_eq_append, ← List.cons_append, ← List.append_assoc] at h
    exact hms pre m' post (List.append_inj' h rfl).1

/-- The messages that belong on the stream of a task. -/
def ServerTask.Admits (tokens : List String) : ServerTask → Message → Prop
  | .cli .., .registered _ | .cli .., .newConn _ | .cli .., .error _ => True
  | .node .., .nodeRegistered _ | .node .., .openTunnel _ | .node .., .closeTunnel _ => True
  | .node _ reg _, .error _ => reg.token ∉ tokens
  | .refuse _, .error _ | .gone, .error _ => True
  | _, _ => False

/-! ## Where a session stands with its answer -/

/-- Nothing has been written to the CLI on the direct path yet. -/
def ServeCliDirect.Pc.silent : ServeCliDirect.Pc → Bool
  | .bind | .reject | .registered => true
  | _ => false

/-- Nothing has been written to the CLI yet, whose tunnel is to go through a node. -/
def ServeCliViaNode.Pc.silent : ServeCliViaNode.Pc → Bool
  | .lockNode | .openTunnel | .lockFallback | .startedAt | .record _ | .increment _ | .publish _
  | .lockCli | .registered => true
  | .fallback pc => pc.silent
  | _ => false

/-- Nothing has been written to the CLI yet. -/
def HandleCli.Pc.silent : HandleCli.Pc → Bool
  | .validate | .reject _ | .deviceNow _ | .device _ _ | .acquire | .tunnelId _ | .pick _ => true
  | .direct _ pc => pc.silent
  | .viaNode _ _ pc => pc.silent
  | _ => false

/-- Nothing has been written to the node yet. -/
def HandleNode.Pc.silent : HandleNode.Pc → Bool
  | .validate | .reject _ | .nodeId | .register _ | .lockAck _ | .ack _ => true
  | _ => false

/-- A task that has written nothing on its own stream. -/
def ServerTask.silent : ServerTask → Bool
  | .gone => false
  | .cli _ pc => pc.silent
  | .node _ _ pc => pc.silent
  | _ => true

/-- A session that other tasks can find and that has yet to lock its writer for
    its answer. -/
def ServerTask.exposed : ServerTask → Bool
  | .cli _ (.viaNode _ _ (.increment _)) | .cli _ (.viaNode _ _ (.publish _))
  | .cli _ (.viaNode _ _ .lockCli) | .node _ _ (.lockAck _) => true
  | _ => false

/-- A session that holds its writer to answer. -/
def ServerTask.greeting : ServerTask → Bool
  | .cli _ (.viaNode _ _ .registered) | .node _ _ (.ack _) => true
  | _ => false

/-- A session that serves its tunnel itself, and so has answered. -/
def ServeCliDirect.Pc.greeted : ServeCliDirect.Pc → Bool
  | .bind | .reject | .registered => false
  | _ => true

/-- The task serves a CLI that has been sent its `Registered`. -/
def ServerTask.greeted : ServerTask → Bool
  | .cli _ (.direct _ pc) | .cli _ (.viaNode _ _ (.fallback pc)) => pc.greeted
  | _ => false

/-- The stream of another session that a task may write on. -/
def ServerTask.refs? (k : ServerTask) : Option Tid :=
  k.routed?.map NodeInfo.tx <|> k.route?.map TunnelRoute.writer

section Steps

variable {tokens : List String} {s : SessionCtx} {ctx : TunnelCtx} {info node : NodeInfo}
  {t w : Tid} {k k' : ServerTask} {op : Op} {m : Message}

/-- A task writes on another session's stream through that session's mutex. -/
theorem ServerTask.frame_other (h : k.frame? t = some (w, m)) (hw : w ≠ t) :
    k.holds? t = some w ∧ k.refs? = some w := by
  have hdirect : ∀ {register : Register} {ctx : TunnelCtx} {pc : ServeCliDirect.Pc},
      pc.frame? ⟨t, register⟩ ctx = some (w, m) → w = t := by
    intro register ctx pc h
    cases pc with
    | serve pc => cases pc <;> cases h; rfl
    | _ => cases h <;> rfl
  cases k with
  | refuse reason => cases h; exact absurd rfl hw
  | cli register pc =>
      cases pc with
      | reject reason => cases h; exact absurd rfl hw
      | direct ctx pc => exact absurd (hdirect h) hw
      | viaNode ctx node pc =>
          cases pc with
          | openTunnel | closeTunnel => cases h; exact ⟨rfl, rfl⟩
          | fallback pc => exact absurd (hdirect h) hw
          | registered => cases h; exact absurd rfl hw
          | _ => cases h
      | _ => cases h
  | node host reg pc =>
      cases pc with
      | reject reason => cases h; exact absurd rfl hw
      | ack id => cases h; exact absurd rfl hw
      | forward id report pc =>
          cases pc with
          | send route => cases h; exact ⟨rfl, rfl⟩
          | _ => cases h
      | _ => cases h
  | _ => cases h

/-- The answer of a session ends its silence, and so does any other frame it
    writes on its own stream. -/
theorem ServeCliDirect.Step.silent {pc pc' : Pc} (h : Step s ctx pc op (.at pc'))
    (hs : pc'.silent = true) : pc.silent = true ∧ op.frame? = none := by
  cases h with
  | bound | bindFailed => exact ⟨rfl, rfl⟩
  | _ => cases hs

theorem HandleCli.Step.silent {pc pc' : Pc} (h : Step tokens s pc op pc') (hs : pc'.silent = true)
    (hnode : ∀ info, ServerTask.routed? (.cli s.register pc) = some info → info.tx ≠ s.task) :
    pc.silent = true ∧ op.messageOn s.task = none := by
  cases h with
  | direct h => exact (ServeCliDirect.Step.silent h hs).imp_right Op.messageOn_none
  | viaNode h =>
      cases h with
      | fallback h => exact (ServeCliDirect.Step.silent h hs).imp_right Op.messageOn_none
      | opened | unreachable =>
          refine ⟨rfl, ?_⟩
          simp [Op.messageOn, Op.frame?, hnode _ rfl]
      | fellBack | registered | closed | disconnected | ignored | lockClose | closeTunnel =>
          cases hs
      | _ => exact ⟨rfl, rfl⟩
  | badToken | hostname | anonymous | deviceNow | device | acquireSpecific | taken | acquire
  | exhausted | tunnelId | picked | noNode => exact ⟨rfl, rfl⟩
  | _ => cases hs

theorem HandleNode.Step.silent {host : String} {reg : RegisterNode} {pc pc' : Pc}
    (h : Step tokens t host reg pc op pc') (hs : pc'.silent = true) :
    pc.silent = true ∧ op.frame? = none := by
  cases h with
  | badToken | accepted | nodeId | register | lockAck => exact ⟨rfl, rfl⟩
  | _ => cases hs

theorem ServerTask.Step.silent (h : Step tokens t k op k') (hs : k'.silent = true)
    (hnode : ∀ info, k.routed? = some info → info.tx ≠ t) :
    k.silent = true ∧ op.messageOn t = none := by
  cases h with
  | connect => exact ⟨rfl, rfl⟩
  | dataConnect => exact ⟨rfl, rfl⟩
  | delete => exact ⟨rfl, rfl⟩
  | refused => cases hs
  | cli h => exact HandleCli.Step.silent h hs hnode
  | node h => exact (HandleNode.Step.silent h hs).imp_right Op.messageOn_none
  | visitor h => cases h <;> exact ⟨rfl, rfl⟩
  | dataConn h => cases h <;> exact ⟨rfl, rfl⟩
  | close h => cases h <;> exact ⟨rfl, rfl⟩

/-- A frame on the session's own stream is its answer or comes after it. -/
theorem ServerTask.frame_self (h : k.frame? t = some (t, m))
    (href : k.refs? ≠ some t) : m.isVerdict = true ∨ k.greeted = true := by
  have hdirect : ∀ {register : Register} {ctx : TunnelCtx} {pc : ServeCliDirect.Pc},
      pc.frame? ⟨t, register⟩ ctx = some (t, m) → m.isVerdict = true ∨ pc.greeted = true := by
    intro register ctx pc h
    cases pc with
    | reject | registered => cases h; exact Or.inl rfl
    | serve pc => exact Or.inr rfl
    | _ => cases h
  cases k with
  | refuse reason => cases h; exact Or.inl rfl
  | cli register pc =>
      cases pc with
      | reject reason => cases h; exact Or.inl rfl
      | direct ctx pc => exact hdirect h
      | viaNode ctx node pc =>
          cases pc with
          | openTunnel | closeTunnel =>
              refine absurd ?_ href
              simp only [frame?, HandleCli.Pc.frame?, ServeCliViaNode.Pc.frame?, Option.some.injEq,
                Prod.mk.injEq] at h
              simp [refs?, routed?, h.1]
          | fallback pc => exact hdirect h
          | registered => cases h; exact Or.inl rfl
          | _ => cases h
      | _ => cases h
  | node host reg pc =>
      cases pc with
      | reject reason | ack id => cases h; exact Or.inl rfl
      | forward id report pc =>
          cases pc with
          | send route =>
              refine absurd ?_ href
              simp only [frame?, HandleNode.Pc.frame?, Option.some.injEq, Prod.mk.injEq] at h
              simp [refs?, routed?, route?, h.1]
          | _ => cases h
      | _ => cases h
  | _ => cases h

/-- A session serves its tunnel itself only after its answer. -/
theorem ServerTask.Step.greeted (h : Step tokens t k op k') (hg : k'.greeted = true) :
    k.greeted = true ∨ ∃ m, op.messageOn t = some m ∧ m.isGreeting = true := by
  have hdirect : ∀ {s : SessionCtx} {ctx : TunnelCtx} {pc pc' : ServeCliDirect.Pc},
      ServeCliDirect.Step s ctx pc op (.at pc') → pc'.greeted = true →
      pc.greeted = true ∨ ∃ m, op.messageOn s.task = some m ∧ m.isGreeting = true := by
    intro s ctx pc pc' h hg
    cases h with
    | bound | bindFailed => cases hg
    | registered => exact Or.inr ⟨_, Op.messageOn_some.mpr ⟨_, rfl⟩, rfl⟩
    | _ => exact Or.inl rfl
  cases h with
  | @connect peer first =>
      have hd := handleClient_dispatched peer first
      generalize handleClient peer first = k' at hd hg
      cases hd <;> cases hg
  | cli h =>
      cases h with
      | direct h => exact hdirect h hg
      | viaNode h =>
          cases h with
          | fallback h => exact hdirect h hg
          | _ => cases hg
      | _ => cases hg
  | _ => cases hg

/-- An exposed session locks its writer, and then it answers. -/
theorem ServerTask.Step.exposed (h : Step tokens t k op k') (he : k.exposed = true) :
    k'.exposed = true ∨ k'.greeting = true := by
  cases h with
  | cli h =>
      cases h with
      | viaNode h =>
          cases h with
          | increment | publish => exact Or.inl rfl
          | lockCli => exact Or.inr rfl
          | _ => cases he
      | viaNodeRet h => cases h <;> cases he
      | _ => cases he
  | node h =>
      cases h with
      | lockAck => exact Or.inr rfl
      | _ => cases he
  | _ => cases he

theorem ServerTask.Step.greeting (h : Step tokens t k op k') (hg : k.greeting = true) :
    ∃ m, op.messageOn t = some m ∧ m.isGreeting = true := by
  cases h with
  | cli h =>
      cases h with
      | viaNode h =>
          cases h with
          | registered => exact ⟨_, Op.messageOn_some.mpr ⟨_, rfl⟩, rfl⟩
          | _ => cases hg
      | viaNodeRet h => cases h <;> cases hg
      | _ => cases hg
  | node h =>
      cases h with
      | acked | ackFailed => exact ⟨_, Op.messageOn_some.mpr ⟨_, rfl⟩, rfl⟩
      | _ => cases hg
  | _ => cases hg

/-- A task that holds another session's writer got it through a handle. -/
theorem ServerTask.refs_of_holds (h : k.holds? t = some w) (hw : w ≠ t) : k.refs? = some w := by
  cases k with
  | cli register pc =>
      cases pc with
      | viaNode ctx node pc =>
          cases pc with
          | openTunnel | closeTunnel => cases h; rfl
          | fallback | unlockFallback | registered => cases h; exact absurd rfl hw
          | _ => cases h
      | _ => cases h
  | node host reg pc =>
      cases pc with
      | ack id | ackFailed id | unlockFailed id => cases h; exact absurd rfl hw
      | forward id report pc =>
          cases pc with
          | send route => cases h; rfl
          | _ => cases h
      | _ => cases h
  | _ => cases h

theorem ServerTask.refs_iff :
    k.refs? = some w ↔
      (∃ info, k.routed? = some info ∧ info.tx = w) ∨ ∃ r, k.route? = some r ∧ r.writer = w := by
  cases hn : k.routed? with
  | none => simp [refs?, hn]
  | some info =>
      have hr : k.route? = none := by
        cases k with
        | cli register pc => rfl
        | _ => cases hn
      simp [refs?, hn, hr]

/-- A handle comes from the registry or from `active_tunnels`. -/
theorem ServerTask.Step.refs (h : Step tokens t k op k') (hk : k'.refs? = some w) :
    k.refs? = some w ∨ (∃ name info, op = .pick name (some info) ∧ info.tx = w) ∨
      ∃ id r, op = .getRoute id (some r) ∧ r.writer = w := by
  obtain ⟨info, hi, rfl⟩ | ⟨r, hr, rfl⟩ := ServerTask.refs_iff.mp hk
  · obtain hk | ⟨_, name, rfl⟩ := h.routed hi
    · exact Or.inl (ServerTask.refs_iff.mpr (Or.inl ⟨info, hk, rfl⟩))
    · exact Or.inr (Or.inl ⟨name, info, rfl, rfl⟩)
  · obtain hk | ⟨id, rfl⟩ := h.route hr
    · exact Or.inl (ServerTask.refs_iff.mpr (Or.inr ⟨r, hk, rfl⟩))
    · exact Or.inr (Or.inr ⟨id, r, rfl, rfl⟩)

/-- A session that publishes its writer is exposed from then on. -/
theorem ServerTask.Step.exposes (h : Step tokens t k op k')
    (hop : (∃ info, op = .registerNode info) ∨
      ∃ id e r, op = .insertTunnel id e ∧ e.route = some r) : k'.exposed = true := by
  cases h with
  | cli h =>
      obtain ⟨info, rfl⟩ | ⟨id, e, r, rfl, hr⟩ := hop
      · exact absurd rfl h.not_registers
      · cases h with
        | viaNode h =>
            cases h with
            | record => rfl
            | fallback h | fellBack h => rw [h.inserts rfl] at hr; cases hr
        | viaNodeRet h => cases h
        | direct h | directRet h => rw [h.inserts rfl] at hr; cases hr
  | node h =>
      cases h with
      | register => rfl
      | forward h | forwarded h => cases h <;> simp at hop
      | _ => simp at hop
  | visitor h => cases h <;> simp at hop
  | dataConn h => cases h <;> simp at hop
  | close h => cases h <;> simp at hop
  | _ => simp at hop

end Steps

/-! ## The invariant of one stream -/

/-- No other task takes the mutex of writer `w` while session `w` is exposed. -/
def Calm (w : Tid) (c : Server) : Tid × Op → Prop
  | (t, .lockWriter w') => w' = w → t ≠ w → (c.task w).exposed = false
  | _ => True

instance (w : Tid) (c : Server) (a : Tid × Op) : Decidable (Calm w c a) := by
  unfold Calm
  split <;> infer_instance

/-- Session `w` has answered. -/
def Greeted (w : Tid) (ls : List (Tid × Op)) : Prop :=
  ∃ m ∈ messages w ls, m.isGreeting = true

/-- Other tasks can find session `w` only if it has answered or is about to. -/
def Found (w : Tid) (ls : List (Tid × Op)) (c : Server) : Prop :=
  (c.task w).exposed = true ∨ (c.task w).greeting = true ∨ Greeted w ls

/-- How far the handshake on the connection of task `w` is. -/
structure GreetInv (w : Tid) (ls : List (Tid × Op)) (c : Server) : Prop where
  order : Polite (messages w ls)
  silent : (c.task w).silent = true → messages w ls = []
  greeted : (c.task w).greeted = true → Greeted w ls
  registry : ∀ id info, c.shared.nodeManager.nodes.lookup id = some info → info.tx = w →
    Found w ls c
  entry : ∀ id e r, c.shared.activeTunnels.lookup id = some e → e.route = some r →
    r.writer = w → Found w ls c
  refs : ∀ t, t ≠ w → (c.task t).refs? = some w → Found w ls c
  holds : ∀ t, t ≠ w → (c.task t).holds? t = some w → Greeted w ls

section Invariant

variable {cfg : ServerConfig} {ls : List (Tid × Op)} {c c' : Server} {t w : Tid} {op : Op}

theorem Greeted.snoc (h : Greeted w ls) (a : Tid × Op) : Greeted w (ls ++ [a]) := by
  obtain ⟨m, hm, hg⟩ := h
  exact ⟨m, mem_messages_snoc.mpr (Or.inl hm), hg⟩

theorem greeted_snoc {m : Message} (h : op.messageOn w = some m) (hg : m.isGreeting = true) :
    Greeted w (ls ++ [(t, op)]) :=
  ⟨m, mem_messages_snoc.mpr (Or.inr (Op.messageOn_some.mp h)), hg⟩

/-- A session is not routed through itself. -/
theorem RouteInv.refs_ne (hi : RouteInv c) : (c.task w).refs? ≠ some w := by
  intro h
  obtain ⟨info, hk, rfl⟩ | ⟨r, hk, rfl⟩ := ServerTask.refs_iff.mp h
  · obtain ⟨reg, hn, _⟩ := hi.routed _ info hk
    cases hw : c.task info.tx with
    | node host reg pc => rw [hw] at hk; cases hk
    | _ => rw [hw] at hn; cases hn
  · have hn := hi.forward _ r hk
    cases hw : c.task r.writer with
    | cli register pc => rw [hw] at hk; cases hk
    | _ => rw [hw] at hn; cases hn

theorem Found.step (hi : Found w ls c) (h : (server cfg).step c (t, op) = some c') :
    Found w (ls ++ [(t, op)]) c' := by
  by_cases htw : t = w
  · subst htw
    have hself := server_step_self h
    obtain he | hg | hg := hi
    · obtain he | hg := hself.exposed he
      · exact Or.inl he
      · exact Or.inr (Or.inl hg)
    · obtain ⟨m, hm, hg⟩ := hself.greeting hg
      exact Or.inr (Or.inr (greeted_snoc hm hg))
    · exact Or.inr (Or.inr (hg.snoc _))
  · rw [Found, server_step_attr (f := ServerTask.exposed) (fun _ _ => rfl) h (Ne.symm htw),
      server_step_attr (f := ServerTask.greeting) (fun _ _ => rfl) h (Ne.symm htw)]
    exact hi.imp_right (Or.imp_right fun hg => hg.snoc _)

/-- Whatever the tables and the tasks point to after a step can be found. -/
theorem GreetInv.found_step (hi : GreetInv w ls c) (h : (server cfg).step c (t, op) = some c') :
    (∀ id info, c'.shared.nodeManager.nodes.lookup id = some info → info.tx = w →
      Found w (ls ++ [(t, op)]) c') ∧
    (∀ id e r, c'.shared.activeTunnels.lookup id = some e → e.route = some r → r.writer = w →
      Found w (ls ++ [(t, op)]) c') ∧
    (∀ u, u ≠ w → (c'.task u).refs? = some w → Found w (ls ++ [(t, op)]) c') := by
  have hx := server_step_exec h
  have hself := server_step_self h
  refine ⟨?_, ?_, ?_⟩
  · intro id info hl htx
    obtain rfl | ⟨n, hl⟩ := ServerState.exec_registry hx hl
    · rw [(hself.registers rfl).1] at htx
      subst htx
      exact Or.inl (hself.exposes (Or.inl ⟨info, rfl⟩))
    · exact (hi.registry id _ hl htx).step h
  · intro id e r hl hr hw
    obtain rfl | hl := ServerState.exec_entry hx hl
    · obtain ⟨_, _, info, _, rfl⟩ := hself.inserts rfl hr
      subst hw
      exact Or.inl (hself.exposes (Or.inr ⟨id, e, _, rfl, hr⟩))
    · exact (hi.entry id e r hl hr hw).step h
  · intro u hu hk
    by_cases hut : u = t
    · subst hut
      obtain hk | ⟨name, info, rfl, htx⟩ | ⟨id, r, rfl, hr⟩ := hself.refs hk
      · exact (hi.refs u hu hk).step h
      · exact (hi.registry _ info (ServerState.exec_pick hx) htx).step h
      · obtain ⟨e, he, hroute⟩ := Option.bind_eq_some_iff.mp (ServerState.exec_getRoute hx).1
        exact (hi.entry id e r he hroute hr).step h
    · rw [server_step_attr (f := ServerTask.refs?) (fun _ _ => rfl) h hut] at hk
      exact (hi.refs u hu hk).step h

/-- Another task that gets hold of the writer does so after the answer. -/
theorem GreetInv.holds_step (hr : (server cfg).Run ls c) (hi : GreetInv w ls c)
    (hcalm : Calm w c (t, op)) (h : (server cfg).step c (t, op) = some c') :
    ∀ u, u ≠ w → (c'.task u).holds? u = some w → Greeted w (ls ++ [(t, op)]) := by
  intro u hu hk
  have hold : (c.task u).holds? u = some w → Greeted w (ls ++ [(t, op)]) :=
    fun hk => (hi.holds u hu hk).snoc _
  by_cases hut : u = t
  · subst hut
    have hself := server_step_self h
    have hw := hself.writer
    cases op with
    | lockWriter w' =>
        rw [hw.2] at hk
        cases hk
        obtain hk | ⟨_, _, hop, _⟩ | ⟨_, _, hop, _⟩ :=
          hself.refs (ServerTask.refs_of_holds hw.2 (Ne.symm hu))
        · obtain he | hg | hg := hi.refs u hu hk
          · rw [hcalm rfl hu] at he
            cases he
          -- the session holds the mutex itself, so nobody else can take it
          · have hheld : (c.task w).holds? w = some w := by
              cases hk' : c.task w with
              | cli register pc =>
                  rw [hk'] at hg
                  simp only [ServerTask.greeting] at hg
                  split at hg <;> simp_all [ServerTask.holds?, HandleCli.Pc.holds?,
                    ServeCliViaNode.Pc.holds?]
              | node host reg pc =>
                  rw [hk'] at hg
                  simp only [ServerTask.greeting] at hg
                  split at hg <;> simp_all [ServerTask.holds?, HandleNode.Pc.holds?]
              | _ => rw [hk'] at hg; cases hg
            have hlocked := (writerInv hr w w).mpr hheld
            rw [(ServerState.exec_lockWriter (server_step_exec h)).1] at hlocked
            cases hlocked
          · exact hg.snoc _
        · cases hop
        · cases hop
    | unlockWriter w' | sendUnlock w' m ok => rw [hw.2] at hk; cases hk
    | _ => exact hold (hw ▸ hk)
  · rw [server_step_attr (f := ServerTask.holds? u) (fun _ _ => rfl) h hut] at hk
    exact hold hk

theorem greetInv_step (hr : (server cfg).Run ls c) (hi : GreetInv w ls c)
    (hcalm : Calm w c (t, op)) (h : (server cfg).step c (t, op) = some c') :
    GreetInv w (ls ++ [(t, op)]) c' := by
  have hself := server_step_self h
  obtain ⟨hregistry, hentry, hrefs⟩ := hi.found_step h
  have hframe : ∀ m, op.messageOn w = some m → (c.task t).frame? t = some (w, m) := by
    intro m hm
    obtain ⟨ok, hf⟩ := Op.messageOn_some.mp hm
    exact hself.frame hf
  -- another task writes on the stream only after the answer
  have hafter : ∀ m, t ≠ w → op.messageOn w = some m → Greeted w ls := fun m htw hm =>
    hi.holds t htw (ServerTask.frame_other (hframe m hm) (Ne.symm htw)).1
  refine ⟨?_, ?_, ?_, hregistry, hentry, hrefs, hi.holds_step hr hcalm h⟩
  · rw [messages_snoc]
    cases hm : op.messageOn w with
    | none => simpa using hi.order
    | some m =>
        refine polite_snoc hi.order ?_
        by_cases htw : t = w
        · subst htw
          exact (ServerTask.frame_self (hframe m hm) (routeInv hr).refs_ne).imp_right hi.greeted
        · exact Or.inr (hafter m htw hm)
  · intro hs
    rw [messages_snoc]
    by_cases htw : t = w
    · subst htw
      obtain ⟨hs, hm⟩ := hself.silent hs fun info hk htx =>
        (routeInv hr).refs_ne (ServerTask.refs_iff.mpr (Or.inl ⟨info, hk, htx⟩))
      rw [hi.silent hs, hm]
      rfl
    · rw [server_step_attr (f := ServerTask.silent) (fun _ _ => rfl) h (Ne.symm htw)] at hs
      have hnil := hi.silent hs
      cases hm : op.messageOn w with
      | none => rw [hnil]; rfl
      | some m =>
          obtain ⟨g, hg, _⟩ := hafter m htw hm
          rw [hnil] at hg
          cases hg
  · intro hg
    by_cases htw : t = w
    · subst htw
      obtain hg | ⟨m, hm, hg⟩ := hself.greeted hg
      · exact (hi.greeted hg).snoc _
      · exact greeted_snoc hm hg
    · rw [server_step_attr (f := ServerTask.greeted) (fun _ _ => rfl) h (Ne.symm htw)] at hg
      exact (hi.greeted hg).snoc _

/-- Every message on a calm stream is an answer or comes after a positive one. -/
theorem greetInv (h : (server cfg).Run ls c) (hcalm : (server cfg).Along (Calm w) ls) :
    GreetInv w ls c := by
  refine Conc.Lts.Run.induct_along (P := GreetInv w) ?_
    (fun _ _ _ _ hr hi hok hs => greetInv_step hr hi hok hs) h hcalm
  refine ⟨polite_nil, fun _ => rfl, ?_, ?_, ?_, ?_, ?_⟩
  · intro h
    cases h
  · intro id info hl
    cases hl
  · intro id e r hl
    cases hl
  · intro t _ hk
    cases hk
  · intro t _ hk
    cases hk

end Invariant

/-! ## What a stream carries -/

section Admits

variable {cfg : ServerConfig} {ls : List (Tid × Op)} {c c' : Server} {tokens : List String}
  {t w : Tid} {k k' : ServerTask} {op : Op} {m : Message}

theorem ServerTask.Step.admits (h : Step tokens t k op k') (hm : k.Admits tokens m) :
    k'.Admits tokens m := by
  cases h with
  | connect | dataConnect | delete => cases m <;> cases hm
  | visitor | dataConn | close => cases m <;> cases hm
  | refused => cases m <;> trivial
  | cli h => cases m <;> trivial
  | node h => cases m <;> exact hm

/-- A node session that is about to refuse got a bad token. -/
def ServerTask.Refuses (tokens : List String) : ServerTask → Prop
  | .node _ reg (.reject _) => reg.token ∉ tokens
  | _ => True

theorem ServerTask.Step.refuses (h : Step tokens t k op k') : k'.Refuses tokens := by
  cases h with
  | @connect peer first =>
      have hd := handleClient_dispatched peer first
      generalize handleClient peer first = k' at hd ⊢
      cases hd <;> trivial
  | node h =>
      cases h with
      | badToken ht => exact ht
      | _ => trivial
  | _ => trivial

theorem refuses (h : (server cfg).Run ls c) (t : Tid) : (c.task t).Refuses cfg.tokens := by
  refine Conc.Lts.Run.induct (P := fun _ c => ∀ t, (c.task t).Refuses cfg.tokens)
    (fun _ => trivial) ?_ h t
  intro ls c a c' _ hi hs u
  by_cases hu : u = a.1
  · subst hu
    exact (server_step_self hs).refuses
  · rw [server_step_attr (f := ServerTask.Refuses cfg.tokens) (fun _ _ => rfl) hs hu]
    exact hi u

/-- A task writes on its own stream only what belongs there. -/
theorem ServerTask.admits_frame (h : k.frame? t = some (t, m)) (href : k.refs? ≠ some t)
    (hrej : k.Refuses tokens) : k.Admits tokens m := by
  -- What is written while serving directly is for a CLI.
  have hdirect : ∀ {register : Register} {ctx : TunnelCtx} {pc : ServeCliDirect.Pc},
      pc.frame? ⟨t, register⟩ ctx = some (t, m) →
        (ServerTask.cli register .validate).Admits tokens m := by
    intro register ctx pc h
    cases pc with
    | serve pc => cases pc <;> cases h; trivial
    | _ => cases h <;> trivial
  cases k with
  | refuse reason => cases h; trivial
  | cli register pc =>
      cases pc with
      | reject reason => cases h; trivial
      | direct ctx pc =>
          have := hdirect h
          cases m <;> exact this
      | viaNode ctx node pc =>
          cases pc with
          | openTunnel | closeTunnel =>
              -- These go to a node's stream, which this one would have to refer to.
              refine absurd ?_ href
              simp only [frame?, HandleCli.Pc.frame?, ServeCliViaNode.Pc.frame?, Option.some.injEq,
                Prod.mk.injEq] at h
              simp [refs?, routed?, h.1]
          | fallback pc =>
              have := hdirect h
              cases m <;> exact this
          | registered => cases h; trivial
          | _ => cases h
      | _ => cases h
  | node host reg pc =>
      cases pc with
      | reject reason => cases h; exact hrej
      | ack id => cases h; trivial
      | forward id report pc =>
          cases pc with
          | send route =>
              refine absurd ?_ href
              simp only [frame?, HandleNode.Pc.frame?, Option.some.injEq, Prod.mk.injEq] at h
              simp [refs?, routed?, route?, h.1]
          | _ => cases h
      | _ => cases h
  | _ => cases h

/-- On another session's stream it writes what belongs there too. -/
theorem RouteInv.admits_frame (hi : RouteInv c) (h : (c.task t).frame? t = some (w, m))
    (hw : w ≠ t) : (c.task w).Admits cfg.tokens m := by
  have hk := (ServerTask.frame_other h hw).2
  obtain ⟨info, hn, rfl⟩ | ⟨r, hn, rfl⟩ := ServerTask.refs_iff.mp hk
  -- A CLI session writes orders on the stream of its node's session.
  · obtain ⟨reg, hnode, _⟩ := hi.routed t info hn
    have hm : (∃ o, m = .openTunnel o) ∨ ∃ o, m = .closeTunnel o := by
      cases ht : c.task t with
      | cli register pc =>
          rw [ht] at h hn
          cases pc with
          | viaNode ctx node pc =>
              cases pc with
              | openTunnel => exact Or.inl ⟨_, (congrArg Prod.snd (Option.some.inj h)).symm⟩
              | closeTunnel => exact Or.inr ⟨_, (congrArg Prod.snd (Option.some.inj h)).symm⟩
              | fallback pc =>
                  cases pc with
                  | serve pc => cases pc <;> cases h; exact absurd rfl hw
                  | _ => cases h <;> exact absurd rfl hw
              | registered => cases h; exact absurd rfl hw
              | _ => cases h
          | _ => cases hn
      | _ => rw [ht] at hn; cases hn
    cases hw : c.task info.tx with
    | node host reg pc => obtain ⟨o, rfl⟩ | ⟨o, rfl⟩ := hm <;> trivial
    | _ => rw [hw] at hnode; cases hnode
  -- A node session writes `NewConn` on the stream of the tunnel's CLI session.
  · have hcli := hi.forward t r hn
    have hm : ∃ o, m = .newConn o := by
      cases ht : c.task t with
      | node host reg pc =>
          rw [ht] at h hn
          cases pc with
          | forward id report pc =>
              cases pc with
              | send route => exact ⟨_, (congrArg Prod.snd (Option.some.inj h)).symm⟩
              | _ => cases h
          | _ => cases hn
      | _ => rw [ht] at hn; cases hn
    cases hw : c.task r.writer with
    | cli register pc => obtain ⟨o, rfl⟩ := hm; trivial
    | _ => rw [hw] at hcli; cases hcli

/-- A control stream carries only the messages of its kind. -/
theorem admits (h : (server cfg).Run ls c) :
    ∀ m ∈ messages w ls, (c.task w).Admits cfg.tokens m := by
  refine Conc.Lts.Run.induct
    (P := fun ls c => ∀ m ∈ messages w ls, (c.task w).Admits cfg.tokens m) ?_ ?_ h
  · intro m hm
    cases hm
  · intro ls c a c' hr hi hs m hm
    have hstep : (c.task w).Admits cfg.tokens m → (c'.task w).Admits cfg.tokens m := by
      intro ha
      by_cases hu : w = a.1
      · subst hu
        exact (server_step_self hs).admits ha
      · rw [server_step_attr (f := fun k => k.Admits cfg.tokens m) _ hs hu]
        · exact ha
        · intro _ _
          cases m <;> rfl
    refine hstep ?_
    obtain hm | ⟨ok, hf⟩ := mem_messages_snoc.mp hm
    · exact hi m hm
    · have hframe := (server_step_self hs).frame hf
      by_cases hu : w = a.1
      · subst hu
        exact ServerTask.admits_frame hframe (routeInv hr).refs_ne (refuses hr _)
      · exact (routeInv hr).admits_frame hframe hu

end Admits

/-! ## Runs with and without an early frame

  A node `n` (session 2) registers, and a CLI (session 1) opens tunnel `t`
  through it.  The runs consist of the same pieces in different orders. -/

section Runs

/-- A node in Frankfurt. -/
def fra : NodeInfo := ⟨"n", "fra", "10.0.0.9", 7001, 0, 2⟩

/-- The node is in the registry, and its session about to lock its writer. -/
def nodeVisible : List (Tid × Op) :=
  [(2, .connect "10.0.0.9" (some (some (.registerNode ⟨"secret", "fra", 7001⟩)))), (2, .compute),
   (2, .uuid "n"), (2, .registerNode fra)]

/-- The server acknowledges the node. -/
def nodeAnswered : List (Tid × Op) :=
  [(2, .lockWriter 2), (2, .sendUnlock 2 (.nodeRegistered ⟨"n"⟩) true),
   (2, .publish (.nodeConnected "n" "fra"))]

/-- The session picks the node and orders it to open the port. -/
def cliOrdered : List (Tid × Op) :=
  [(1, .connect "10.0.0.1" (some (some (.register anyPort)))), (1, .compute),
   (1, .acquire (some 7000)), (1, .uuid "t"), (1, .pick none (some fra)), (1, .lockWriter 2),
   (1, .sendUnlock 2 (.openTunnel ⟨"t", 7000⟩) true)]

/-- The session publishes the tunnel. -/
def cliExposed : List (Tid × Op) :=
  [(1, .now 0), (1, .insertTunnel "t" (ServeCliViaNode.entry ⟨1, anyPort⟩ ⟨"t", 7000⟩ fra 0))]

/-- The server answers a CLI whose tunnel goes through the node. -/
def cliAnswered : List (Tid × Op) :=
  [(1, .incrementTunnels "n"),
   (1, .publish (ServeCliViaNode.opened ⟨1, anyPort⟩ ⟨"t", 7000⟩ fra 0)),
   (1, .lockWriter 1), (1, .sendUnlock 1 (ServeCliViaNode.registeredMsg ⟨"t", 7000⟩ fra) true)]

/-- The node reports a visitor, and its session forwards the report. -/
def visitorForwarded : List (Tid × Op) :=
  [(2, .readLine (some (some (.visitorConn ⟨"t", "c"⟩)))),
   (2, .getRoute "t" (some ⟨1, "10.0.0.9", 7001⟩)), (2, .lockWriter 1),
   (2, .sendUnlock 1 (.newConn ⟨"c", some "10.0.0.9", some 7001⟩) true)]

/-- The CLI's answer comes first. -/
def lateVisitor : List (Tid × Op) :=
  nodeVisible ++ nodeAnswered ++ cliOrdered ++ cliExposed ++ cliAnswered ++ visitorForwarded

/-- A visitor arrives before the CLI's answer. -/
def earlyVisitor : List (Tid × Op) :=
  nodeVisible ++ nodeAnswered ++ cliOrdered ++ cliExposed ++ visitorForwarded ++ cliAnswered

/-- An order is written before the node's answer. -/
def earlyOrder : List (Tid × Op) :=
  nodeVisible ++ cliOrdered ++ nodeAnswered

end Runs

/-! ## The two handshakes -/

/-- The order of frames that a CLI relies on. -/
def CliHandshake (ms : List Message) : Prop :=
  (∀ m ∈ ms.head?, (∃ r, m = .registered r) ∨ ∃ e, m = .error e) ∧
  ∀ pre n post, ms = pre ++ .newConn n :: post → ∃ r, .registered r ∈ pre

/-- The order of frames that a node relies on. -/
def NodeHandshake (ms : List Message) : Prop :=
  (∀ m ∈ ms.head?, ∃ r, m = .nodeRegistered r) ∧
  ∀ pre m post, ms = pre ++ m :: post → (∃ o, m = .openTunnel o) ∨ (∃ o, m = .closeTunnel o) →
    ∃ r, .nodeRegistered r ∈ pre

section Handshakes

variable {cfg : ServerConfig} {ls : List (Tid × Op)} {c : Server} {w : Tid}

theorem Polite.head {ms : List Message} {m : Message} (h : Polite ms) (hm : m ∈ ms.head?) :
    m.isVerdict = true := by
  cases ms with
  | nil => cases hm
  | cons m' ms =>
      cases hm
      obtain hv | ⟨g, hg, _⟩ := h [] m ms rfl
      · exact hv
      · cases hg

/-- A CLI's control stream starts with `Registered` or `Error`, and `NewConn`
    comes after `Registered`, if nobody else takes the writer between the
    publication of the tunnel and the answer. -/
theorem cli_handshake {register : Register} (h : (server cfg).Run ls c)
    (hcli : (c.task w).cli? = some register) (hcalm : (server cfg).Along (Calm w) ls) :
    CliHandshake (messages w ls) := by
  have hpolite := (greetInv h hcalm).order
  have hadmits : ∀ m ∈ messages w ls,
      (∃ r, m = .registered r) ∨ (∃ n, m = .newConn n) ∨ ∃ e, m = .error e := by
    intro m hm
    have ha := admits h m hm
    cases hw : c.task w with
    | cli register pc => rw [hw] at ha; cases m <;> first | cases ha; done | simp
    | _ => rw [hw] at hcli; cases hcli
  constructor
  · intro m hm
    have hv := hpolite.head hm
    obtain hr | ⟨n, rfl⟩ | he := hadmits m (List.mem_of_mem_head? hm)
    · exact Or.inl hr
    · cases hv
    · exact Or.inr he
  · intro pre n post hms
    obtain hv | ⟨g, hg, hgr⟩ := hpolite pre _ post hms
    · cases hv
    · obtain ⟨r, rfl⟩ | ⟨n, rfl⟩ | ⟨e, rfl⟩ := hadmits g (by rw [hms]; simp [hg])
      · exact ⟨r, hg⟩
      · cases hgr
      · cases hgr

theorem cli_handshake_lateVisitor : CliHandshake (messages 1 lateVisitor) := by
  obtain ⟨c, hc, hcli⟩ :
      ∃ c, (server onePort).Run lateVisitor c ∧ (c.task 1).cli? = some anyPort :=
    Conc.Lts.exists_run (by decide)
  exact cli_handshake hc hcli (by decide)

/-- A visitor that arrives between the publication and the answer breaks it. -/
theorem cli_handshake_earlyVisitor :
    ∃ c, (server onePort).Run earlyVisitor c ∧ (c.task 1).cli? = some anyPort ∧
      ¬ CliHandshake (messages 1 earlyVisitor) := by
  obtain ⟨c, hc, hcli⟩ :
      ∃ c, (server onePort).Run earlyVisitor c ∧ (c.task 1).cli? = some anyPort :=
    Conc.Lts.exists_run (by decide)
  refine ⟨c, hc, hcli, fun hh => ?_⟩
  have hhead : messages 1 earlyVisitor =
      [] ++ .newConn ⟨"c", some "10.0.0.9", some 7001⟩ ::
        [ServeCliViaNode.registeredMsg ⟨"t", 7000⟩ fra] := by decide
  obtain ⟨r, hr⟩ := hh.2 _ _ _ hhead
  cases hr

/-- The control stream of a node whose token is accepted starts with
    `NodeRegistered`, if nobody else takes the writer between the registration
    and the acknowledgement. -/
theorem node_handshake {host : String} {reg : RegisterNode} (h : (server cfg).Run ls c)
    (hnode : (c.task w).node? = some (host, reg)) (htoken : reg.token ∈ cfg.tokens)
    (hcalm : (server cfg).Along (Calm w) ls) : NodeHandshake (messages w ls) := by
  have hpolite := (greetInv h hcalm).order
  have hadmits : ∀ m ∈ messages w ls,
      (∃ r, m = .nodeRegistered r) ∨ (∃ o, m = .openTunnel o) ∨ ∃ o, m = .closeTunnel o := by
    intro m hm
    have ha := admits h m hm
    cases hw : c.task w with
    | node host reg pc =>
        rw [hw] at ha hnode
        cases hnode
        cases m with
        | error e => exact absurd htoken ha
        | nodeRegistered | openTunnel | closeTunnel => simp
        | _ => cases ha
    | _ => rw [hw] at hnode; cases hnode
  constructor
  · intro m hm
    have hv := hpolite.head hm
    obtain hr | ⟨o, rfl⟩ | ⟨o, rfl⟩ := hadmits m (List.mem_of_mem_head? hm)
    · exact hr
    · cases hv
    · cases hv
  · intro pre m post hms hm
    obtain hv | ⟨g, hg, hgr⟩ := hpolite pre m post hms
    · obtain ⟨o, rfl⟩ | ⟨o, rfl⟩ := hm <;> cases hv
    · obtain hr | ⟨o, rfl⟩ | ⟨o, rfl⟩ := hadmits g (by rw [hms]; simp [hg])
      · obtain ⟨r, rfl⟩ := hr
        exact ⟨r, hg⟩
      · cases hgr
      · cases hgr

theorem node_handshake_lateVisitor : NodeHandshake (messages 2 lateVisitor) := by
  obtain ⟨c, hc, hnode⟩ : ∃ c, (server onePort).Run lateVisitor c ∧
      (c.task 2).node? = some ("10.0.0.9", ⟨"secret", "fra", 7001⟩) :=
    Conc.Lts.exists_run (by decide)
  exact node_handshake hc hnode (by decide) (by decide)

/-- An order that is written between the registration and the acknowledgement
    breaks it. -/
theorem node_handshake_earlyOrder :
    ∃ c, (server onePort).Run earlyOrder c ∧
      (c.task 2).node? = some ("10.0.0.9", ⟨"secret", "fra", 7001⟩) ∧
      ¬ NodeHandshake (messages 2 earlyOrder) := by
  obtain ⟨c, hc, hnode⟩ : ∃ c, (server onePort).Run earlyOrder c ∧
      (c.task 2).node? = some ("10.0.0.9", ⟨"secret", "fra", 7001⟩) :=
    Conc.Lts.exists_run (by decide)
  refine ⟨c, hc, hnode, fun hh => ?_⟩
  have hhead : messages 2 earlyOrder = .openTunnel ⟨"t", 7000⟩ :: [.nodeRegistered ⟨"n"⟩] := by
    decide
  obtain ⟨r, hr⟩ := hh.1 (.openTunnel ⟨"t", 7000⟩) (by rw [hhead]; rfl)
  cases hr

end Handshakes

end Borehole
