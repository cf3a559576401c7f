/-
  Borehole.Server.Pages

  Reading the history (crates/server/src/history.rs and api/history.rs).

  Each call of `History` is one critical section, so an interleaving of calls is
  a sequence of them.  A dashboard that walks through the closed tunnels page by
  page is one more caller.
-/

import Borehole.Common.Recent
import Borehole.Conc.Network
import Borehole.Server.Steps

namespace Borehole

open Conc

/-- A capped queue that holds the newest entries of a log does so after a push. -/
theorem pushCapped_rtake {α : Type} {cap : Nat} (hcap : 0 < cap) (log : List α) (entry : α) :
    pushCapped cap (log.rtake cap) entry = (log ++ [entry]).rtake cap := by
  rw [pushCapped, List.rtake, List.rtake, List.length_drop, List.length_append,
    List.length_singleton, List.drop_append_of_le_length (by omega)]
  congr 1
  split
  · rw [List.drop_drop]
    congr 1
    omega
  · congr 1
    omega

namespace History

/-- Most-recent-first page of closed tunnels. -/
def tunnelsPage (h : History) (limit offset : Nat) : List TunnelHistory :=
  (h.tunnels.reverse.drop offset).take limit

/-- Most-recent-first connections, optionally filtered by tunnel. -/
def connectionsPage (h : History) (tunnelId : Option String) (limit : Nat) :
    List ConnectionHistory :=
  (h.connections.reverse.filter fun conn => tunnelId.all (conn.tunnelId == ·)).take limit

/-- The calls of `History`, with what they return. -/
inductive Call where
  | recordTunnel (entry : TunnelHistory)
  | recordConnection (entry : ConnectionHistory)
  | tunnels (limit offset : Nat) (page : List TunnelHistory)
  | connections (tunnelId : Option String) (limit : Nat) (page : List ConnectionHistory)

/-- What a call does; `none` if it cannot return what it carries. -/
def exec (h : History) : Call → Option History
  | .recordTunnel entry => some (h.recordTunnel entry)
  | .recordConnection entry => some (h.recordConnection entry)
  | .tunnels limit offset page => if h.tunnelsPage limit offset = page then some h else none
  | .connections tunnelId limit page =>
      if h.connectionsPage tunnelId limit = page then some h else none

/-- Every sequence of calls. -/
def calls : Lts History Call where
  init := History.new
  step := exec

/-- The tunnel that a call records. -/
def Call.tunnel? : Call → Option TunnelHistory
  | .recordTunnel entry => some entry
  | _ => none

/-- The connection that a call records. -/
def Call.connection? : Call → Option ConnectionHistory
  | .recordConnection entry => some entry
  | _ => none

/-- The rings hold the newest entries of the logs. -/
structure Recorded (tunnels : List TunnelHistory) (connections : List ConnectionHistory)
    (h : History) : Prop where
  tunnels : h.tunnels = tunnels.rtake maxTunnels
  connections : h.connections = connections.rtake maxConnections

section Calls

variable {h h' : History} {c : Call} {cs : List Call} {tunnels : List TunnelHistory}
  {connections : List ConnectionHistory}

theorem Recorded.exec (hi : Recorded tunnels connections h) (hx : h.exec c = some h') :
    Recorded (tunnels ++ c.tunnel?.toList) (connections ++ c.connection?.toList) h' := by
  obtain ⟨htunnels, hconnections⟩ := hi
  cases c with
  | recordTunnel entry =>
      cases hx
      refine ⟨?_, ?_⟩
      · change pushCapped maxTunnels h.tunnels entry = _
        rw [htunnels, pushCapped_rtake (by decide)]
        rfl
      · change h.connections = (connections ++ []).rtake maxConnections
        rw [List.append_nil, hconnections]
  | recordConnection entry =>
      cases hx
      refine ⟨?_, ?_⟩
      · change h.tunnels = (tunnels ++ []).rtake maxTunnels
        rw [List.append_nil, htunnels]
      · change pushCapped maxConnections h.connections entry = _
        rw [hconnections, pushCapped_rtake (by decide)]
        rfl
  -- reading changes nothing
  | tunnels | connections =>
      obtain ⟨_, hx⟩ := Option.ite_none_right_eq_some.mp hx
      cases hx
      change Recorded (tunnels ++ []) (connections ++ []) h
      rw [List.append_nil, List.append_nil]
      exact ⟨htunnels, hconnections⟩

/-- Whoever calls, the rings hold the newest entries of what has been recorded. -/
theorem recorded (hr : calls.Run cs h) :
    Recorded (cs.filterMap Call.tunnel?) (cs.filterMap Call.connection?) h := by
  refine Lts.Run.induct (P := fun cs h =>
    Recorded (cs.filterMap Call.tunnel?) (cs.filterMap Call.connection?) h) ⟨rfl, rfl⟩ ?_ hr
  intro cs h c h' _ hi hx
  have hnew := hi.exec hx
  rw [List.filterMap_append, List.filterMap_append]
  cases ht : c.tunnel? <;> cases hc : c.connection? <;> simpa [ht, hc] using hnew

end Calls

end History

open History

/-- The calls that the server's tasks make. -/
def Op.call? : Op → Option Call
  | .recordTunnel entry => some (.recordTunnel entry)
  | .recordConnection entry => some (.recordConnection entry)
  | _ => none

/-- The server's tasks use the history through its calls. -/
theorem history_calls (cfg : ServerConfig) : Projection (server cfg) History.calls
    (fun c => c.shared.history) (fun a => a.2.call?) where
  init := rfl
  own := by
    rintro c ⟨t, op⟩ c' call h hcall
    have hx := server_step_exec h
    cases op with
    | recordTunnel entry =>
        cases hcall
        rw [ServerState.exec_recordTunnel hx]
        rfl
    | recordConnection entry =>
        cases hcall
        rw [ServerState.exec_recordConnection hx]
        rfl
    | _ => cases hcall
  other := by
    rintro c ⟨t, op⟩ c' h hcall
    refine ServerState.exec_history (server_step_exec h) ?_
    cases op with
    | recordTunnel | recordConnection => cases hcall
    | _ => rfl

/-- What the dashboard is shown of a run: the newest entries of what its tasks
    have recorded. -/
theorem history_recorded {cfg : ServerConfig} {ls : List (Tid × Op)} {c : Server}
    (h : (server cfg).Run ls c) :
    Recorded (ls.filterMap fun a => a.2.call?.bind Call.tunnel?)
      (ls.filterMap fun a => a.2.call?.bind Call.connection?) c.shared.history := by
  have hrec := recorded ((history_calls cfg).run h)
  rwa [List.filterMap_filterMap, List.filterMap_filterMap] at hrec

/-! ## A dashboard that walks through the closed tunnels -/

/-- The history and a reader that asks for one page after the other. -/
structure Browsing where
  history : History
  offset : Nat
  pages : List (List TunnelHistory)
  finished : Bool

namespace Browsing

/-- A call of anybody, or the reader's next page. -/
inductive Label where
  | call (c : Call)
  | page

/-- The reader asks for offsets 0, `k`, 2`k`, ... until a page is shorter than `k`. -/
def step (k : Nat) (s : Browsing) : Label → Option Browsing
  | .call c => (s.history.exec c).map fun h => { s with history := h }
  | .page =>
      if s.finished then none
      else some
        { s with
          offset := s.offset + k
          pages := s.pages ++ [s.history.tunnelsPage k s.offset]
          finished := (s.history.tunnelsPage k s.offset).length < k }

end Browsing

open Browsing

/-- Every interleaving of the calls with the reads of a reader with page size `k`. -/
def browsing (k : Nat) : Lts Browsing Label where
  init := ⟨History.new, 0, [], false⟩
  step := Browsing.step k

/-- All tunnels that have been recorded. -/
def tunnelLog (ls : List Label) : List TunnelHistory :=
  ls.filterMap fun
    | .call c => c.tunnel?
    | .page => none

/-- All connections that have been recorded. -/
def connectionLog (ls : List Label) : List ConnectionHistory :=
  ls.filterMap fun
    | .call c => c.connection?
    | .page => none

/-- What had been recorded at each read of the reader: the log so far, and the
    logs at its reads. -/
def Browsing.Label.note (s : List TunnelHistory × List (List TunnelHistory)) :
    Label → List TunnelHistory × List (List TunnelHistory)
  | .call c => (s.1 ++ c.tunnel?.toList, s.2)
  | .page => (s.1, s.2 ++ [s.1])

/-- What the reads of a run have found, oldest first. -/
def readLogs (ls : List Label) : List (List TunnelHistory) :=
  (ls.foldl Label.note ([], [])).2

/-! ## Runs -/

section Runs

variable {k : Nat} {ls : List Label} {l : Label} {s s' : Browsing}

theorem tunnelLog_call (c : Call) :
    tunnelLog (ls ++ [.call c]) = tunnelLog ls ++ c.tunnel?.toList := by
  rw [tunnelLog, List.filterMap_append, tunnelLog]
  cases h : c.tunnel? <;> simp [h]

theorem tunnelLog_page : tunnelLog (ls ++ [.page]) = tunnelLog ls := by
  rw [tunnelLog, List.filterMap_append, tunnelLog]
  exact List.append_nil _

theorem connectionLog_call (c : Call) :
    connectionLog (ls ++ [.call c]) = connectionLog ls ++ c.connection?.toList := by
  rw [connectionLog, List.filterMap_append, connectionLog]
  cases h : c.connection? <;> simp [h]

theorem connectionLog_page : connectionLog (ls ++ [.page]) = connectionLog ls := by
  rw [connectionLog, List.filterMap_append, connectionLog]
  exact List.append_nil _

theorem note_log (ls : List Label) : (ls.foldl Label.note ([], [])).1 = tunnelLog ls := by
  induction ls using List.reverseRecOn with
  | nil => rfl
  | append_singleton ls l ih =>
      rw [List.foldl_append]
      cases l with
      | call c => rw [tunnelLog_call, ← ih]; rfl
      | page => rw [tunnelLog_page, ← ih]; rfl

theorem readLogs_call (c : Call) : readLogs (ls ++ [.call c]) = readLogs ls := by
  rw [readLogs, List.foldl_append]
  rfl

theorem readLogs_page : readLogs (ls ++ [.page]) = readLogs ls ++ [tunnelLog ls] := by
  rw [readLogs, List.foldl_append, ← note_log]
  rfl

/-- The rings hold the newest entries of the logs, and the reader's pages are
    those of the logs at its reads. -/
structure PagesInv (k : Nat) (ls : List Label) (s : Browsing) : Prop where
  recorded : Recorded (tunnelLog ls) (connectionLog ls) s.history
  offset : s.offset = (readLogs ls).length * k
  pages : s.pages = (readLogs ls).mapIdx fun i log => recentPage maxTunnels k i log
  grow : (readLogs ls).Pairwise (· <+: ·)
  past : ∀ log ∈ readLogs ls, log <+: tunnelLog ls
  finished : s.finished = true → ∃ page, s.pages.getLast? = some page ∧ page.length < k

theorem PagesInv.call {c : Call} {h : History} (hi : PagesInv k ls s)
    (hx : s.history.exec c = some h) : PagesInv k (ls ++ [.call c]) { s with history := h } := by
  -- A call changes one log at most, and none of what the pages have shown.
  refine ⟨?_, ?_, ?_, ?_, fun log hlog => ?_, hi.finished⟩
  · rw [tunnelLog_call, connectionLog_call]
    exact hi.recorded.exec hx
  · rw [readLogs_call]
    exact hi.offset
  · rw [readLogs_call]
    exact hi.pages
  · rw [readLogs_call]
    exact hi.grow
  · rw [readLogs_call] at hlog
    rw [tunnelLog_call]
    exact (hi.past log hlog).trans (List.prefix_append _ _)

/-- The reader's next page is that of the log. -/
theorem PagesInv.next (hi : PagesInv k ls s) : s.history.tunnelsPage k s.offset =
    recentPage maxTunnels k (readLogs ls).length (tunnelLog ls) := by
  rw [tunnelsPage, hi.recorded.tunnels, hi.offset, recentPage]

theorem PagesInv.page (hi : PagesInv k ls s) (h : (browsing k).step s .page = some s') :
    PagesInv k (ls ++ [.page]) s' := by
  obtain ⟨_, h⟩ := Option.ite_none_left_eq_some.mp h
  cases h
  refine ⟨?_, ?_, ?_, ?_, fun log hlog => ?_, fun hf => ?_⟩
  · rw [tunnelLog_page, connectionLog_page]
    exact hi.recorded
  · rw [readLogs_page, List.length_append, List.length_singleton, Nat.succ_mul, ← hi.offset]
  · rw [readLogs_page, List.mapIdx_concat, ← hi.pages, ← hi.next]
  · rw [readLogs_page]
    refine List.pairwise_append.mpr ⟨hi.grow, List.pairwise_singleton _ _, ?_⟩
    intro log hlog last hlast
    rw [List.mem_singleton.mp hlast]
    exact hi.past log hlog
  · rw [readLogs_page, List.mem_append, List.mem_singleton] at hlog
    rw [tunnelLog_page]
    obtain hlog | rfl := hlog
    · exact hi.past log hlog
    · exact List.prefix_rfl
  · exact ⟨_, List.getLast?_concat, of_decide_eq_true hf⟩

theorem pagesInv (hr : (browsing k).Run ls s) : PagesInv k ls s := by
  refine Lts.Run.induct (P := PagesInv k) ?_ ?_ hr
  · refine ⟨⟨rfl, rfl⟩, (Nat.zero_mul k).symm, rfl, List.Pairwise.nil, fun log hlog => ?_, nofun⟩
    exact absurd hlog List.not_mem_nil
  · intro ls s l s' _ hi hs
    cases l with
    | call c =>
        obtain ⟨h, hx, rfl⟩ := Option.map_eq_some_iff.mp hs
        exact hi.call hx
    | page => exact hi.page hs

/-- The reader that has finished has met every entry that was recorded at its
    first read and is still kept at its last. -/
theorem PagesInv.complete (hi : PagesInv k ls s) (hf : s.finished = true)
    {first last : List TunnelHistory} (hfirst : (readLogs ls).head? = some first)
    (hlast : (readLogs ls).getLast? = some last) {p : Nat} {e : TunnelHistory}
    (hp : first[p]? = some e) (hkept : last.length ≤ p + maxTunnels) :
      ∃ page ∈ s.pages, e ∈ page := by
  obtain ⟨short, hshort, hlen⟩ := hi.finished hf
  generalize hlogs : readLogs ls = logs at *
  have hpages := hi.pages
  have hgrow := hi.grow
  rw [hlogs] at hpages hgrow
  have hne : 0 < logs.length := by
    cases logs with
    | nil => cases hfirst
    | cons => exact Nat.succ_pos _
  have hat : ∀ i (hlt : i < logs.length), recentPage maxTunnels k i logs[i] ∈ s.pages := by
    intro i hlt
    rw [hpages]
    exact List.mem_mapIdx.mpr ⟨i, hlt, rfl⟩
  rw [List.getLast?_eq_getElem?] at hlast hshort
  rw [hpages, List.length_mapIdx, List.getElem?_mapIdx, hlast] at hshort
  cases hshort
  -- The logs that the pages were cut from only grow.
  have hnext : ∀ i < logs.length - 1, logs[i]?.getD [] <+: logs[i + 1]?.getD [] := by
    intro i hi'
    have hlt : i + 1 < logs.length := by omega
    rw [List.getElem?_eq_getElem hlt, List.getElem?_eq_getElem (Nat.lt_of_succ_lt hlt)]
    exact List.pairwise_iff_getElem.mp hgrow i (i + 1) _ hlt (Nat.lt_succ_self i)
  have hstart : (logs[0]?.getD [])[p]? = some e := by
    rw [← List.head?_eq_getElem?, hfirst]
    exact hp
  have hstop : logs[logs.length - 1]?.getD [] = last := by rw [hlast, Option.getD_some]
  obtain ⟨i, hin, hmem⟩ := @recentPages_complete _ maxTunnels k p e (logs.length - 1)
    (fun i => logs[i]?.getD []) hnext (hstop ▸ hlen) hstart (hstop ▸ hkept)
  have hlt : i < logs.length := by omega
  simp only [List.getElem?_eq_getElem hlt, Option.getD_some] at hmem
  exact ⟨_, hat i hlt, hmem⟩

/-- Reads return what the newest entries of unbounded logs would, and a reader
    that walks through the tunnels misses none that stays. -/
theorem history_pages (hr : (browsing k).Run ls s) :
    (∀ pre post limit offset page, ls = pre ++ .call (.tunnels limit offset page) :: post →
      page = (((tunnelLog pre).rtake maxTunnels).reverse.drop offset).take limit) ∧
    (∀ pre post tunnelId limit page,
      ls = pre ++ .call (.connections tunnelId limit page) :: post →
      page = (((connectionLog pre).rtake maxConnections).reverse.filter fun conn =>
        tunnelId.all (conn.tunnelId == ·)).take limit) ∧
    (s.finished = true → ∀ first last, (readLogs ls).head? = some first →
      (readLogs ls).getLast? = some last → ∀ p e, first[p]? = some e →
      last.length ≤ p + maxTunnels → ∃ page ∈ s.pages, e ∈ page) := by
  refine ⟨?_, ?_, fun hf first last hfirst hlast p e hp hkept =>
    (pagesInv hr).complete hf hfirst hlast hp hkept⟩
  · rintro pre post limit offset page rfl
    obtain ⟨s₁, hr₁, hrest⟩ := Lts.run_append.mp hr
    obtain ⟨s₂, hs, _⟩ := Option.bind_eq_some_iff.mp hrest
    obtain ⟨h, hx, _⟩ := Option.map_eq_some_iff.mp hs
    have hpage := (Option.ite_none_right_eq_some.mp hx).1
    rw [← hpage, tunnelsPage, (pagesInv hr₁).recorded.tunnels]
  · rintro pre post tunnelId limit page rfl
    obtain ⟨s₁, hr₁, hrest⟩ := Lts.run_append.mp hr
    obtain ⟨s₂, hs, _⟩ := Option.bind_eq_some_iff.mp hrest
    obtain ⟨h, hx, _⟩ := Option.map_eq_some_iff.mp hs
    have hpage := (Option.ite_none_right_eq_some.mp hx).1
    rw [← hpage, connectionsPage, (pagesInv hr₁).recorded.connections]

/-- A closed tunnel. -/
def closedTunnel (id : String) : TunnelHistory := ⟨id, "tcp", 3000, 7000, none, 0, 1, 1⟩

/-- A tunnel closes between the first and the second page. -/
def walk : List Label :=
  [.call (.recordTunnel (closedTunnel "a")), .call (.recordTunnel (closedTunnel "b")),
   .call (.recordTunnel (closedTunnel "c")), .page, .call (.recordTunnel (closedTunnel "d")),
   .page, .page]

theorem history_pages_walk : ∃ s, (browsing 2).Run walk s ∧
    ∃ page ∈ s.pages, closedTunnel "a" ∈ page := by
  obtain ⟨s, hs, hf⟩ : ∃ s, (browsing 2).Run walk s ∧ s.finished = true :=
    Lts.exists_run (by decide)
  have hlogs : (readLogs walk).head? = some (["a", "b", "c"].map closedTunnel) ∧
      (readLogs walk).getLast? = some (["a", "b", "c", "d"].map closedTunnel) := by decide
  exact ⟨s, hs, (history_pages hs).2.2 hf _ _ hlogs.1 hlogs.2 0 (closedTunnel "a") rfl (by decide)⟩

end Runs

end Borehole
