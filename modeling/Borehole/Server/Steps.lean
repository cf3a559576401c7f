/-
  Borehole.Server.Steps

  Inversion of the server's transition functions.

  For each function of `Borehole.Server.Control` there is a relation with one
  named rule per transition, and a theorem that the function takes no other.
  Every invariant is proved by cases on these rules, so a changed transition of
  the source changes one rule and the cases of that name.
-/

import Borehole.Server.Control
import Borehole.Server.Exec

namespace Borehole

variable {tokens : List String} {s : SessionCtx} {ctx : TunnelCtx} {node : NodeInfo} {op : Op}

/-- What a caller made of its callee's step. -/
theorem Flow.resume_some {Pc Pc' : Type} {o : Option (Flow Pc)} {wrap : Pc → Pc'} {back f : Pc'}
    (h : o.map (Flow.resume wrap back) = some f) :
    (∃ pc, o = some (.at pc) ∧ f = wrap pc) ∨ (o = some .ret ∧ f = back) := by
  obtain ⟨f', ho, rfl⟩ := Option.map_eq_some_iff.mp h
  cases f' with
  | «at» pc => exact Or.inl ⟨pc, ho, rfl⟩
  | ret => exact Or.inr ⟨ho, rfl⟩

/-! ## Functions of the CLI session -/

/-- The transitions of `serve_tunnel`. -/
inductive ServeTunnel.Step (s : SessionCtx) (ctx : TunnelCtx) : Pc → Op → Flow Pc → Prop where
  | closed : Step s ctx .select .notified .ret
  | acceptError : Step s ctx .select (.accept none) (.at .select)
  | accept {v vis} : vis.tunnelId = ctx.tunnelId →
      Step s ctx .select (.accept (some (v, vis))) (.at (.insertPending v vis))
  | disconnected : Step s ctx .select (.readLine none) .ret
  | ignored {line} : Step s ctx .select (.readLine (some line)) (.at .select)
  | insertPending {v vis} :
      Step s ctx (.insertPending v vis) (.insertPending vis.connId v) (.at (.notify v vis))
  | notified {v vis} :
      Step s ctx (.notify v vis) (.send s.task (notice vis) true) (.at (.connectedAt v))
  | notifyFailed {v vis} :
      Step s ctx (.notify v vis) (.send s.task (notice vis) false) (.at (.removePending v vis))
  | removePending {v vis got} :
      Step s ctx (.removePending v vis) (.removePending vis.connId got) (.at (.drop v))
  | drop {v} : Step s ctx (.drop v) (.dropVisitor v) .ret
  | connectedAt {v t} : Step s ctx (.connectedAt v) (.now t) (.at (.spawn v t))
  | spawn {v t} : Step s ctx (.spawn v t) (.spawn v t) (.at .select)

theorem serveTunnel_step {pc : ServeTunnel.Pc} {f : Flow ServeTunnel.Pc}
    (h : serveTunnel s ctx pc op = some f) : ServeTunnel.Step s ctx pc op f := by
  revert h
  fun_cases serveTunnel s ctx pc op
  all_goals
    intro h
    cases h
    all_goals try casesm* _ ∧ _
    all_goals subst_vars
    all_goals constructor
    all_goals assumption

/-- The transitions of `serve_cli_direct`. -/
inductive ServeCliDirect.Step (s : SessionCtx) (ctx : TunnelCtx) : Pc → Op → Flow Pc → Prop where
  | bound : Step s ctx .bind (.bind ctx.port true) (.at .registered)
  | bindFailed : Step s ctx .bind (.bind ctx.port false) (.at .reject)
  | rejected {ok} :
      Step s ctx .reject (.send s.task (.error ⟨"failed to open tunnel port"⟩) ok) .ret
  | registered : Step s ctx .registered (.send s.task (registeredMsg ctx) true) (.at .startedAt)
  | registerFailed : Step s ctx .registered (.send s.task (registeredMsg ctx) false) .ret
  | startedAt {t} : Step s ctx .startedAt (.now t) (.at (.record t))
  | record {t} :
      Step s ctx (.record t) (.insertTunnel ctx.tunnelId (entry s ctx t)) (.at (.publish t))
  | publish {t} : Step s ctx (.publish t) (.publish (opened s ctx t)) (.at (.serve .select))
  | serve {pc op pc'} : ServeTunnel.Step s ctx pc op (.at pc') →
      Step s ctx (.serve pc) op (.at (.serve pc'))
  | served {pc op} : ServeTunnel.Step s ctx pc op .ret → Step s ctx (.serve pc) op .ret

theorem serveCliDirect_step {pc : ServeCliDirect.Pc} {f : Flow ServeCliDirect.Pc}
    (h : serveCliDirect s ctx pc op = some f) : ServeCliDirect.Step s ctx pc op f := by
  revert h
  fun_cases serveCliDirect s ctx pc op
  case case16 pc =>
      intro h
      obtain ⟨pc', hs, rfl⟩ | ⟨hs, rfl⟩ := Flow.resume_some h
      · exact .serve (serveTunnel_step hs)
      · exact .served (serveTunnel_step hs)
  all_goals
    intro h
    cases h
    all_goals try casesm* _ ∧ _
    all_goals subst_vars
    all_goals constructor

/-- The transitions of `serve_cli_via_node`. -/
inductive ServeCliViaNode.Step (s : SessionCtx) (ctx : TunnelCtx) (node : NodeInfo) :
    Pc → Op → Flow Pc → Prop where
  | lockNode : Step s ctx node .lockNode (.lockWriter node.tx) (.at .openTunnel)
  | opened : Step s ctx node .openTunnel (.sendUnlock node.tx (openMsg ctx) true) (.at .startedAt)
  | unreachable :
      Step s ctx node .openTunnel (.sendUnlock node.tx (openMsg ctx) false) (.at .lockFallback)
  | lockFallback : Step s ctx node .lockFallback (.lockWriter s.task) (.at (.fallback .bind))
  | fallback {pc op pc'} : ServeCliDirect.Step s ctx pc op (.at pc') →
      Step s ctx node (.fallback pc) op (.at (.fallback pc'))
  | fellBack {pc op} : ServeCliDirect.Step s ctx pc op .ret →
      Step s ctx node (.fallback pc) op (.at .unlockFallback)
  | unlockFallback : Step s ctx node .unlockFallback (.unlockWriter s.task) .ret
  | startedAt {t} : Step s ctx node .startedAt (.now t) (.at (.record t))
  | record {t} :
      Step s ctx node (.record t) (.insertTunnel ctx.tunnelId (entry s ctx node t))
        (.at (.increment t))
  | increment {t} :
      Step s ctx node (.increment t) (.incrementTunnels node.nodeId) (.at (.publish t))
  | publish {t} : Step s ctx node (.publish t) (.publish (opened s ctx node t)) (.at .lockCli)
  | lockCli : Step s ctx node .lockCli (.lockWriter s.task) (.at .registered)
  | registered {ok} :
      Step s ctx node .registered (.sendUnlock s.task (registeredMsg ctx node) ok) (.at .select)
  | closed : Step s ctx node .select .notified (.at .lockClose)
  | disconnected : Step s ctx node .select (.readLine none) (.at .lockClose)
  | ignored {line} : Step s ctx node .select (.readLine (some line)) (.at .select)
  | lockClose : Step s ctx node .lockClose (.lockWriter node.tx) (.at .closeTunnel)
  | closeTunnel {ok} :
      Step s ctx node .closeTunnel (.sendUnlock node.tx (closeMsg ctx) ok) (.at .decrement)
  | decrement : Step s ctx node .decrement (.decrementTunnels node.nodeId) .ret

theorem serveCliViaNode_step {pc : ServeCliViaNode.Pc} {f : Flow ServeCliViaNode.Pc}
    (h : serveCliViaNode s ctx node pc op = some f) : ServeCliViaNode.Step s ctx node pc op f := by
  revert h
  fun_cases serveCliViaNode s ctx node pc op
  case case9 pc =>
      intro h
      obtain ⟨pc', hs, rfl⟩ | ⟨hs, rfl⟩ := Flow.resume_some h
      · exact .fallback (serveCliDirect_step hs)
      · exact .fellBack (serveCliDirect_step hs)
  all_goals
    intro h
    cases h
    all_goals try casesm* _ ∧ _
    all_goals subst_vars
    all_goals constructor

/-- The transitions of `handle_cli`. -/
inductive HandleCli.Step (tokens : List String) (s : SessionCtx) : Pc → Op → Pc → Prop where
  | badToken : s.register.token ∉ tokens →
      Step tokens s .validate .compute (.reject "invalid token")
  | hostname {hostname} : s.register.token ∈ tokens → s.register.hostname = some hostname →
      Step tokens s .validate .compute (.deviceNow hostname)
  | anonymous : s.register.token ∈ tokens → s.register.hostname = none →
      Step tokens s .validate .compute .acquire
  | rejected {reason ok} :
      Step tokens s (.reject reason) (.send s.task (.error ⟨reason⟩) ok) (.done none)
  | deviceNow {hostname t} : Step tokens s (.deviceNow hostname) (.now t) (.device hostname t)
  | device {hostname t id} :
      Step tokens s (.device hostname t) (.upsertDevice hostname t id) .acquire
  | acquireSpecific {port p} : s.register.remotePort = some port →
      Step tokens s .acquire (.acquireSpecific port (some p)) (.tunnelId p)
  | taken {port} : s.register.remotePort = some port →
      Step tokens s .acquire (.acquireSpecific port none) (.reject "no port available")
  | acquire {p} : s.register.remotePort = none →
      Step tokens s .acquire (.acquire (some p)) (.tunnelId p)
  | exhausted : s.register.remotePort = none →
      Step tokens s .acquire (.acquire none) (.reject "no port available")
  | tunnelId {port id} : Step tokens s (.tunnelId port) (.uuid id) (.pick ⟨id, port⟩)
  | picked {ctx : TunnelCtx} {node : NodeInfo} :
      Step tokens s (.pick ctx) (.pick s.register.node (some node)) (.viaNode ctx node .lockNode)
  | noNode {ctx : TunnelCtx} :
      Step tokens s (.pick ctx) (.pick s.register.node none) (.direct ctx .bind)
  | direct {ctx : TunnelCtx} {pc op pc'} : ServeCliDirect.Step s ctx pc op (.at pc') →
      Step tokens s (.direct ctx pc) op (.direct ctx pc')
  | directRet {ctx : TunnelCtx} {pc op} : ServeCliDirect.Step s ctx pc op .ret →
      Step tokens s (.direct ctx pc) op (.remove ctx)
  | viaNode {ctx : TunnelCtx} {node : NodeInfo} {pc op pc'} :
      ServeCliViaNode.Step s ctx node pc op (.at pc') →
      Step tokens s (.viaNode ctx node pc) op (.viaNode ctx node pc')
  | viaNodeRet {ctx : TunnelCtx} {node : NodeInfo} {pc op} :
      ServeCliViaNode.Step s ctx node pc op .ret →
      Step tokens s (.viaNode ctx node pc) op (.remove ctx)
  | removed {ctx : TunnelCtx} {entry} :
      Step tokens s (.remove ctx) (.removeTunnel ctx.tunnelId (some entry)) (.endedAt ctx entry)
  | notRecorded {ctx : TunnelCtx} :
      Step tokens s (.remove ctx) (.removeTunnel ctx.tunnelId none) (.release ctx)
  | endedAt {ctx : TunnelCtx} {entry t} :
      Step tokens s (.endedAt ctx entry) (.now t) (.archive ctx entry t)
  | archive {ctx : TunnelCtx} {entry t} :
      Step tokens s (.archive ctx entry t) (.recordTunnel (history ctx entry t)) (.closed ctx)
  | closed {ctx : TunnelCtx} :
      Step tokens s (.closed ctx) (.publish (.tunnelClosed ctx.tunnelId)) (.release ctx)
  | release {ctx : TunnelCtx} : Step tokens s (.release ctx) (.release ctx.port) (.done (some ctx))

theorem handleCli_step {pc pc' : HandleCli.Pc} (h : handleCli tokens s pc op = some pc') :
    HandleCli.Step tokens s pc op pc' := by
  revert h
  fun_cases handleCli tokens s pc op
  case case1 ht => intro h; cases h; exact .badToken ht
  case case2 ht _ hn => intro h; cases h; exact .hostname (not_not.mp ht) hn
  case case3 ht hn => intro h; cases h; exact .anonymous (not_not.mp ht) hn
  case case22 pc =>
      intro h
      obtain ⟨pc', hs, rfl⟩ | ⟨hs, rfl⟩ := Flow.resume_some h
      · exact .direct (serveCliDirect_step hs)
      · exact .directRet (serveCliDirect_step hs)
  case case23 pc =>
      intro h
      obtain ⟨pc', hs, rfl⟩ | ⟨hs, rfl⟩ := Flow.resume_some h
      · exact .viaNode (serveCliViaNode_step hs)
      · exact .viaNodeRet (serveCliViaNode_step hs)
  all_goals
    intro h
    cases h
    all_goals try casesm* _ ∧ _
    all_goals subst_vars
    all_goals constructor
    all_goals assumption

/-! ## Functions of the node session -/

/-- The transitions of `forward_visitor`. -/
inductive ForwardVisitor.Step (report : VisitorConn) : Pc → Op → Flow Pc → Prop where
  | routed {route} :
      Step report .lookup (.getRoute report.tunnelId (some route)) (.at (.lockCli route))
  | unknown : Step report .lookup (.getRoute report.tunnelId none) .ret
  | lockCli {route} : Step report (.lockCli route) (.lockWriter route.writer) (.at (.send route))
  | send {route ok} :
      Step report (.send route) (.sendUnlock route.writer (notice report.connId route) ok) .ret

theorem forwardVisitor_step {report : VisitorConn} {pc : ForwardVisitor.Pc}
    {f : Flow ForwardVisitor.Pc} (h : forwardVisitor report pc op = some f) :
    ForwardVisitor.Step report pc op f := by
  revert h
  fun_cases forwardVisitor report pc op
  all_goals
    intro h
    cases h
    all_goals try casesm* _ ∧ _
    all_goals subst_vars
    all_goals constructor

/-- The transitions of `handle_node`. -/
inductive HandleNode.Step (tokens : List String) (t : Tid) (host : String) (reg : RegisterNode) :
    Pc → Op → Pc → Prop where
  | badToken : reg.token ∉ tokens →
      Step tokens t host reg .validate .compute (.reject "invalid token")
  | accepted : reg.token ∈ tokens → Step tokens t host reg .validate .compute .nodeId
  | rejected {reason ok} :
      Step tokens t host reg (.reject reason) (.send t (.error ⟨reason⟩) ok) (.done none)
  | nodeId {id} : Step tokens t host reg .nodeId (.uuid id) (.register id)
  | register {id} :
      Step tokens t host reg (.register id) (.registerNode (info t host reg id)) (.lockAck id)
  | lockAck {id} : Step tokens t host reg (.lockAck id) (.lockWriter t) (.ack id)
  | acked {id} :
      Step tokens t host reg (.ack id) (.sendUnlock t (.nodeRegistered ⟨id⟩) true) (.connected id)
  | ackFailed {id} :
      Step tokens t host reg (.ack id) (.send t (.nodeRegistered ⟨id⟩) false) (.ackFailed id)
  | unregister {id} :
      Step tokens t host reg (.ackFailed id) (.removeNode id) (.unlockFailed id)
  | unlockFailed {id} :
      Step tokens t host reg (.unlockFailed id) (.unlockWriter t) (.done (some id))
  | connected {id} :
      Step tokens t host reg (.connected id) (.publish (.nodeConnected id reg.name)) (.read id)
  | disconnected {id} : Step tokens t host reg (.read id) (.readLine none) (.remove id)
  | report {id report} :
      Step tokens t host reg (.read id) (.readLine (some (some (.visitorConn report))))
        (.forward id report .lookup)
  | ignored {id line} : (∀ report, line ≠ some (.visitorConn report)) →
      Step tokens t host reg (.read id) (.readLine (some line)) (.read id)
  | forward {id report pc op pc'} : ForwardVisitor.Step report pc op (.at pc') →
      Step tokens t host reg (.forward id report pc) op (.forward id report pc')
  | forwarded {id report pc op} : ForwardVisitor.Step report pc op .ret →
      Step tokens t host reg (.forward id report pc) op (.read id)
  | remove {id} : Step tokens t host reg (.remove id) (.removeNode id) (.left id)
  | left {id} : Step tokens t host reg (.left id) (.publish (.nodeLeft id)) (.done (some id))

theorem handleNode_step {t : Tid} {host : String} {reg : RegisterNode} {pc pc' : HandleNode.Pc}
    (h : handleNode tokens t host reg pc op = some pc') :
    HandleNode.Step tokens t host reg pc op pc' := by
  revert h
  fun_cases handleNode tokens t host reg pc op
  case case1 ht => intro h; cases h; exact .badToken ht
  case case2 ht => intro h; cases h; exact .accepted (not_not.mp ht)
  case case22 hl => intro h; cases h; exact .ignored hl
  case case23 =>
      intro h
      obtain ⟨pc', hs, rfl⟩ | ⟨hs, rfl⟩ := Flow.resume_some h
      · exact .forward (forwardVisitor_step hs)
      · exact .forwarded (forwardVisitor_step hs)
  all_goals
    intro h
    cases h
    all_goals try casesm* _ ∧ _
    all_goals subst_vars
    all_goals constructor

/-! ## The other tasks -/

/-- The transitions of the task that `serve_tunnel` spawns for a visitor. -/
inductive VisitorTask.Step (vis : Visitor) : Pc → Op → Pc → Prop where
  | received {d t} : Step vis (.waiting t) (.received d) (.proxying d t)
  | elapsed {t} : Step vis (.waiting t) .elapsed .removePending
  | proxied {d t} : Step vis (.proxying d t) .proxied (.endedAt d t)
  | endedAt {d t t'} : Step vis (.endedAt d t) (.now t') (.record d t t')
  | record {d t t'} :
      Step vis (.record d t t') (.recordConnection (history vis t t')) (.done (some d))
  | removePending {got} : Step vis .removePending (.removePending vis.connId got) (.done none)

theorem visitorTask_step {vis : Visitor} {pc pc' : VisitorTask.Pc}
    (h : visitorTask vis pc op = some pc') : VisitorTask.Step vis pc op pc' := by
  revert h
  fun_cases visitorTask vis pc op
  all_goals
    intro h
    cases h
    all_goals constructor

/-- The transitions of `handle_data_conn`. -/
inductive HandleDataConn.Step : Pc → Op → Pc → Prop where
  | announced {connId} :
      Step .readFrame (.readFrame (some (some (.dataConn ⟨connId⟩)))) (.claim connId)
  | unexpected {frame} : (∀ m, frame ≠ some (some (.dataConn m))) →
      Step .readFrame (.readFrame frame) (.done none)
  | claimed {connId v} :
      Step (.claim connId) (.removePending connId (some v)) (.deliver connId v)
  | unknown {connId} : Step (.claim connId) (.removePending connId none) (.done (some connId))
  | deliver {connId v ok} : Step (.deliver connId v) (.deliver v ok) (.done (some connId))

theorem handleDataConn_step {pc pc' : HandleDataConn.Pc} (h : handleDataConn pc op = some pc') :
    HandleDataConn.Step pc op pc' := by
  revert h
  fun_cases handleDataConn pc op
  case case2 frame hf => intro h; cases h; exact .unexpected hf
  all_goals
    intro h
    cases h
    all_goals constructor

/-- The transitions of the DELETE handler. -/
inductive Close.Step : Pc → Op → Pc → Prop where
  | found {id w} : Step (.lookup id) (.getClose id (some w)) (.notify id w)
  | notFound {id} : Step (.lookup id) (.getClose id none) (.answered id false)
  | notify {id w} : Step (.notify id w) (.notifyOne w) (.answered id true)

theorem tunnelsClose_step {pc pc' : Close.Pc} (h : tunnelsClose pc op = some pc') :
    Close.Step pc op pc' := by
  revert h
  fun_cases tunnelsClose pc op
  all_goals
    intro h
    cases h
    all_goals constructor

/-- The transitions of a task. -/
inductive ServerTask.Step (tokens : List String) (t : Tid) :
    ServerTask → Op → ServerTask → Prop where
  | connect {peer first} : Step tokens t .idle (.connect peer first) (handleClient peer first)
  | dataConnect : Step tokens t .idle .dataConnect (.dataConn .readFrame)
  | delete {id} : Step tokens t .idle (.delete id) (.close (.lookup id))
  | refused {reason ok} : Step tokens t (.refuse reason) (.send t (.error ⟨reason⟩) ok) .gone
  | cli {register pc op pc'} : HandleCli.Step tokens ⟨t, register⟩ pc op pc' →
      Step tokens t (.cli register pc) op (.cli register pc')
  | node {host reg pc op pc'} : HandleNode.Step tokens t host reg pc op pc' →
      Step tokens t (.node host reg pc) op (.node host reg pc')
  | visitor {vis pc op pc'} : VisitorTask.Step vis pc op pc' →
      Step tokens t (.visitor vis pc) op (.visitor vis pc')
  | dataConn {pc op pc'} : HandleDataConn.Step pc op pc' →
      Step tokens t (.dataConn pc) op (.dataConn pc')
  | close {pc op pc'} : Close.Step pc op pc' → Step tokens t (.close pc) op (.close pc')

theorem next_step {t : Tid} {k k' : ServerTask} (h : ServerTask.next tokens t k op = some k') :
    ServerTask.Step tokens t k op k' := by
  revert h
  fun_cases ServerTask.next tokens t k op <;> intro h
  case case6 =>
      obtain ⟨pc', hs, rfl⟩ := Option.map_eq_some_iff.mp h
      exact .cli (handleCli_step hs)
  case case7 =>
      obtain ⟨pc', hs, rfl⟩ := Option.map_eq_some_iff.mp h
      exact .node (handleNode_step hs)
  case case8 =>
      obtain ⟨pc', hs, rfl⟩ := Option.map_eq_some_iff.mp h
      exact .visitor (visitorTask_step hs)
  case case9 =>
      obtain ⟨pc', hs, rfl⟩ := Option.map_eq_some_iff.mp h
      exact .dataConn (handleDataConn_step hs)
  case case10 =>
      obtain ⟨pc', hs, rfl⟩ := Option.map_eq_some_iff.mp h
      exact .close (tunnelsClose_step hs)
  all_goals
    cases h
    all_goals try casesm* _ ∧ _
    all_goals subst_vars
    all_goals constructor

/-- The tasks of control connections of which no more than the first frame is read. -/
inductive ServerTask.Dispatched : ServerTask → Prop where
  | gone : Dispatched .gone
  | refuse {reason} : Dispatched (.refuse reason)
  | cli {register} : Dispatched (.cli register .validate)
  | node {host reg} : Dispatched (.node host reg .validate)

theorem handleClient_dispatched (peer : String) (first : Option Line) :
    (handleClient peer first).Dispatched := by
  fun_cases handleClient peer first <;> constructor

theorem handleClient_not_idle (peer : String) (first : Option Line) :
    handleClient peer first ≠ .idle := by
  have hd := handleClient_dispatched peer first
  generalize handleClient peer first = k at hd ⊢
  cases hd <;> nofun

theorem ServerTask.Step.not_idle {t : Tid} {k k' : ServerTask} (h : Step tokens t k op k') :
    k' ≠ .idle := by
  cases h with
  | connect => exact handleClient_not_idle _ _
  | _ => nofun

/-- What an operation of another task does to a visitor. -/
inductive ServerTask.Adopt : Op → ServerTask → ServerTask → Prop where
  | accept {v vis} : Adopt (.accept (some (v, vis))) .idle (.visitor vis .accepted)
  | insertPending {connId v vis} :
      Adopt (.insertPending connId v) (.visitor vis .accepted) (.visitor vis .notifying)
  | spawn {v t vis} : Adopt (.spawn v t) (.visitor vis .notifying) (.visitor vis (.waiting t))
  | drop {v vis} : Adopt (.dropVisitor v) (.visitor vis .notifying) (.visitor vis (.done none))

theorem adopt_step {k k' : ServerTask} (h : ServerTask.adopt op k = some k') :
    ServerTask.Adopt op k k' := by
  revert h
  fun_cases ServerTask.adopt op k
  all_goals
    intro h
    cases h
    all_goals constructor

/-! ## Steps of the server -/

section Step

variable {cfg : ServerConfig} {c c' : Server} {t u : Tid}

/-- The step of the task that a step of the server belongs to. -/
theorem server_step_self (h : (server cfg).step c (t, op) = some c') :
    ServerTask.Step cfg.tokens t (c.task t) op (c'.task t) :=
  next_step (Conc.Tasks.step_next h)

theorem server_step_exec (h : (server cfg).step c (t, op) = some c') :
    c.shared.exec t op = some c'.shared :=
  Conc.Tasks.step_exec h

/-- Another task stays where it is, unless it is the visitor the step is about. -/
theorem server_step_other (h : (server cfg).step c (t, op) = some c') (hu : u ≠ t) :
    c'.task u = c.task u ∨ op.child = some u ∧ ServerTask.Adopt op (c.task u) (c'.task u) := by
  obtain rfl | ⟨_, hc, ha⟩ | ⟨_, _, he⟩ := Conc.Tasks.step_task h u
  · exact absurd rfl hu
  · exact Or.inr ⟨hc, adopt_step ha⟩
  · exact Or.inl he

/-- What visitors do not have, a step changes only for the task that takes it. -/
theorem server_step_attr {α : Type} {f : ServerTask → α}
    (hf : ∀ vis pc, f (.visitor vis pc) = f .idle)
    (h : (server cfg).step c (t, op) = some c') (hu : u ≠ t) : f (c'.task u) = f (c.task u) := by
  obtain he | ⟨_, ha⟩ := server_step_other h hu
  · rw [he]
  · generalize c.task u = k at ha
    generalize c'.task u = k' at ha
    cases ha <;> simp only [hf]

theorem server_step_child {v : Tid} (h : (server cfg).step c (t, op) = some c')
    (hc : op.child = some v) : v ≠ t ∧ ServerTask.Adopt op (c.task v) (c'.task v) := by
  obtain ⟨hne, ha⟩ := Conc.Tasks.step_child h hc
  exact ⟨hne, adopt_step ha⟩

/-- A task that has started does not go back to where it had not. -/
theorem server_not_idle (h : (server cfg).step c (t, op) = some c') (hu : c.task u ≠ .idle) :
    c'.task u ≠ .idle := by
  by_cases hut : u = t
  · subst hut
    exact (server_step_self h).not_idle
  · obtain he | ⟨_, ha⟩ := server_step_other h hut
    · rw [he]
      exact hu
    · generalize c.task u = k at ha
      generalize c'.task u = k' at ha ⊢
      cases ha <;> nofun

/-- A task that a run has not started. -/
theorem server_idle {ls : List (Tid × Op)} {ts : List Tid} (hr : (server cfg).Run ls c)
    (hls : ∀ a ∈ ls, a.1 ∈ ts ∧ a.2.child = none) (hu : u ∉ ts) : c.task u = .idle := by
  refine Conc.Tasks.run_untouched hr fun a ha => ⟨fun hau => hu (hau ▸ (hls a ha).1), ?_⟩
  change a.2.child ≠ some u
  rw [(hls a ha).2]
  nofun

end Step

end Borehole
