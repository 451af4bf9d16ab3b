import Pickleback.Lib.Membership
import Pickleback.ServerSessions
import Pickleback.ServerTime

/-!
# The events of a server

The server opens sessions in one place and ends them in three. Each of them but one tells the
application of it: a client that `disconnect_client` removes leaves without an event. As long as
that does not happen, the events say exactly who is connected.

## Main definitions

* `Server.Moves` — what a call does to the connected clients and the events
* `Watched` — a server and all its events
* `Watched.Mirrors` — the events say who is connected

## Main results

* `Server.step_moves` — every call that does not disconnect a client
* `Watched.mirrors_iff` — in which runs the events say who is connected
-/

namespace Pickleback

open Membership

/-- The client that an event is about, and whether it has joined. -/
def ServerEvent.entry : ServerEvent → UInt64 × Bool
  | .clientConnected id => (id, true)
  | .clientDisconnected id _ => (id, false)

namespace Server

/-- The ids of the connected clients. -/
def connectedIds (s : Server) : List UInt64 := s.connectedClients.map ConnectedClient.xorSalt

/-- What a call does to the connected clients and the events: some clients leave, or one joins, and
the events say so. -/
inductive Moves (s s' : Server) : Prop
  | leave (gone : List UInt64) (reason : DisconnectReason)
    (hids : s.connectedIds.Perm (gone ++ s'.connectedIds))
    (hevents : s'.serverEvents = s.serverEvents ++ gone.map fun id => .clientDisconnected id reason)
  | join (id : UInt64) (hids : s'.connectedIds = s.connectedIds ++ [id])
    (hevents : s'.serverEvents = s.serverEvents ++ [.clientConnected id])

section Steps

variable {s s' : Server}

/-- No one moves. -/
theorem moves_of_ids (hids : s'.connectedIds = s.connectedIds)
    (hevents : s'.serverEvents = s.serverEvents) :
    s.Moves s' :=
  .leave [] .normal (by rw [hids]; exact .refl _) (by rw [hevents, List.map_nil, List.append_nil])

/-- The id of a client stays when the client is replaced by itself, changed in other fields. -/
theorem connectedIds_replace {before after : List ConnectedClient} {cc cc' : ConnectedClient}
    (h : s.connectedClients = before ++ cc :: after)
    (h' : s'.connectedClients = before ++ cc' :: after)
    (hsalt : cc'.xorSalt = cc.xorSalt) : s'.connectedIds = s.connectedIds := by
  rw [connectedIds, connectedIds, h, h', List.map_append, List.map_append,
    List.map_cons, List.map_cons, hsalt]

theorem Receives.moves {addr : SocketAddr} {rest : List UInt8} {packet : ProtocolPacket}
    {r : Except PicklebackError Unit} (h : s.Receives addr rest packet s' r) : s.Moves s' := by
  cases h with
  | nothing => exact moves_of_ids rfl rfl
  | denied hwrite => exact moves_of_ids rfl rfl
  | requestAgain hpending haddr hp => exact moves_of_ids rfl rfl
  | request hp => exact moves_of_ids rfl rfl
  | lost hpending htake haddr => exact moves_of_ids rfl rfl
  | response hpending htake haddr hxor hp hp' => exact .join _ List.map_append rfl
  | responseAgain hconnected htake hfind hp =>
    refine moves_of_ids (connectedIds_replace hconnected rfl ?_) rfl
    rfl
  | heard hconnected haddr hp =>
    refine moves_of_ids (connectedIds_replace hconnected rfl ?_) rfl
    rfl
  | @left _ xorSalt cc before after hconnected haddr hsalt =>
    refine .leave [xorSalt] .normal ?_ rfl
    rw [connectedIds, hconnected, List.map_append, List.map_cons,
      hsalt, connectedIds, List.map_append]
    exact List.perm_middle

/-- What was removed and what is left make up the list. -/
theorem perm_of_removeAll {α : Type} {as removed left : List α} {is : List ℕ}
    (h : removeAll as is = .ok (removed, left)) : as.Perm (removed ++ left) := by
  induction is generalizing as removed with
  | nil =>
    cases h
    exact .refl _
  | cons i is ih =>
    simp only [removeAll] at h
    split at h
    · cases h
    · next a ha =>
      obtain ⟨⟨removed', left'⟩, hrest, heq⟩ := exists_of_map_eq_ok h
      cases heq
      obtain ⟨hi, rfl⟩ := List.getElem?_eq_some_iff.mp ha
      exact (List.getElem_cons_eraseIdx_perm hi).symm.trans ((ih hrest).cons _)

theorem moves_update {dt : Time} (hcall : s.update dt = .ok s') : s.Moves s' := by
  simp only [update] at hcall
  split at hcall
  · cases hcall
  · next s₁ hs₁ =>
    simp only [processPendingClients] at hs₁
    split at hs₁
    · cases hs₁
    · obtain ⟨r, -, rfl⟩ := exists_of_map_eq_ok hs₁
      simp only [processConnectedClients] at hcall
      split at hcall
      · cases hcall
      · next removed left hremove =>
        obtain ⟨⟨ccs, us⟩, heach, rfl⟩ := exists_of_map_eq_ok hcall
        have hids : ccs.map ConnectedClient.xorSalt = left.map ConnectedClient.xorSalt := by
          refine map_callOnEach ?_ heach
          intro cc cc' u hprocess
          obtain ⟨cc'', hprocess', hsame⟩ := cc.exists_process (s.time + dt) dt
          obtain rfl : cc' = cc'' :=
            congrArg Prod.fst (Except.ok.inj (hprocess.symm.trans hprocess'))
          rw [hsame]
        refine .leave (removed.map ConnectedClient.xorSalt) .timedOut ?_ ?_
        · show (s.connectedClients.map ConnectedClient.xorSalt).Perm
            (_ ++ ccs.map ConnectedClient.xorSalt)
          rw [hids, ← List.map_append]
          exact (perm_of_removeAll hremove).map _
        · rw [List.map_map]
          rfl

theorem moves_visitPacketsToSend {sent : List (SocketAddr × List UInt8)}
    (hcall : s.visitPacketsToSend = .ok (s', sent)) : s.Moves s' := by
  simp only [visitPacketsToSend] at hcall
  split at hcall
  · cases hcall
  · obtain ⟨⟨ccs, packets⟩, heach, heq⟩ := exists_of_map_eq_ok hcall
    cases heq
    refine moves_of_ids (map_callOnEach ?_ heach) rfl
    intro cc cc' bs hvisit
    obtain ⟨r, -, heq⟩ := exists_of_map_eq_ok hvisit
    cases heq
    rfl

theorem xorSalt_sendMessage {cc cc' : ConnectedClient} {channel : UInt8} {payload : List UInt8}
    {r : Except PicklebackError MessageId} (hcall : cc.sendMessage channel payload = .ok (cc', r)) :
    cc'.xorSalt = cc.xorSalt := by
  obtain ⟨r', -, heq⟩ := exists_of_map_eq_ok hcall
  cases heq
  rfl

theorem moves_sendMessage {id : UInt64} {channel : UInt8} {payload : List UInt8}
    {r : Except PicklebackError MessageId}
    (hcall : s.sendMessage id channel payload = .ok (s', r)) :
    s.Moves s' := by
  obtain ⟨r', hfirst, heq⟩ := exists_of_map_eq_ok hcall
  cases r' with
  | none =>
    cases heq
    exact moves_of_ids rfl rfl
  | some found =>
    cases heq
    exact moves_of_ids (map_callOnFirst xorSalt_sendMessage hfirst) rfl

theorem moves_broadcastMessage {channel : UInt8} {payload : List UInt8}
    (hcall : s.broadcastMessage channel payload = .ok s') : s.Moves s' := by
  obtain ⟨⟨ccs, rs⟩, heach, rfl⟩ := exists_of_map_eq_ok hcall
  exact moves_of_ids (map_callOnEach xorSalt_sendMessage heach) rfl

theorem moves_clientSendMessage {n : ℕ} {channel : UInt8} {payload : List UInt8}
    (hcall : s.clientSendMessage n channel payload = .ok s') : s.Moves s' := by
  simp only [clientSendMessage] at hcall
  split at hcall
  · cases hcall
    exact moves_of_ids rfl rfl
  · next cc hcc =>
    obtain ⟨⟨cc', r⟩, hsend, rfl⟩ := exists_of_map_eq_ok hcall
    refine moves_of_ids ?_ rfl
    obtain ⟨hn, rfl⟩ := List.getElem?_eq_some_iff.mp hcc
    rw [connectedIds, connectedIds, List.map_set, xorSalt_sendMessage hsend,
      ← List.getElem_map ConnectedClient.xorSalt (h := by rwa [List.length_map]),
        List.set_getElem_self]

/-- A change of one client that keeps its id. -/
theorem moves_modify (n : ℕ) (f : ConnectedClient → ConnectedClient)
    (hf : ∀ cc, (f cc).xorSalt = cc.xorSalt) :
    s.Moves { s with connectedClients := s.connectedClients.modify n f } := by
  have hmap : ∀ (ccs : List ConnectedClient) (n : ℕ),
      (ccs.modify n f).map ConnectedClient.xorSalt = ccs.map ConnectedClient.xorSalt := by
    intro ccs
    induction ccs with
    | nil => intro n; rw [List.modify_nil]
    | cons cc ccs ih =>
      intro n
      cases n with
      | zero => rw [List.modify_zero_cons, List.map_cons, List.map_cons, hf]
      | succ n => rw [List.modify_succ_cons, List.map_cons, List.map_cons, ih]
  exact moves_of_ids (hmap _ n) rfl

/-- A client that is not connected is not disconnected. -/
theorem disconnectClient_of_not_mem {id : UInt64} (h : id ∉ s.connectedIds) :
    s.disconnectClient id = .ok s := by
  rw [disconnectClient, callOnFirst_none]
  intro cc hcc
  rw [beq_eq_false_iff_ne]
  rintro rfl
  exact h (List.mem_map_of_mem hcc)

/-- **Every call** but the draining of events moves clients and says so, if no client is
disconnected. -/
theorem step_moves {call : Call} (hcall : s.step call = .ok s') (hdrain : call ≠ .drainServerEvents)
    (hkick : ∀ id, call = .disconnectClient id → id ∉ s.connectedIds) : s.Moves s' := by
  cases call with
  | receive salt bytes addr =>
    obtain ⟨⟨s₁, r⟩, hreceive, rfl⟩ := exists_of_map_eq_ok hcall
    obtain ⟨rfl, -⟩ | ⟨packet, rest, -, h⟩ := receive_cases hreceive
    · exact moves_of_ids rfl rfl
    · exact h.moves
  | update dt => exact moves_update hcall
  | visitPacketsToSend =>
    obtain ⟨⟨s₁, sent⟩, hvisit, rfl⟩ := exists_of_map_eq_ok hcall
    exact moves_visitPacketsToSend hvisit
  | disconnectClient id =>
    rw [step, disconnectClient_of_not_mem (hkick id rfl)] at hcall
    cases hcall
    exact moves_of_ids rfl rfl
  | sendMessage id channel payload =>
    obtain ⟨⟨s₁, r⟩, hsend, rfl⟩ := exists_of_map_eq_ok hcall
    exact moves_sendMessage hsend
  | broadcastMessage channel payload => exact moves_broadcastMessage hcall
  | drainServerEvents => exact absurd rfl hdrain
  | clientSendMessage n channel payload => exact moves_clientSendMessage hcall
  | getMessages n channel =>
    cases hcall
    exact moves_modify n (fun cc => { cc with pickleback :=
      (cc.pickleback.drainReceivedMessages channel).1 })
      fun _ => rfl
  | drainAcks n channel =>
    cases hcall
    exact moves_modify n (fun cc => { cc with pickleback :=
      (cc.pickleback.drainMessageAcks channel).1 })
      fun _ => rfl

/-- **A client is disconnected**, and nothing says so. -/
theorem exists_disconnectClient (s : Server) (id : UInt64) :
    ∃ s', s.disconnectClient id = .ok s' ∧ id ∉ s'.connectedIds ∧
      s'.serverEvents = s.serverEvents := by
  have hcall : ∀ cc : ConnectedClient, ∃ r,
      ((cc.pickleback.sendControl .disconnect fun header => .disconnect header id).map
        fun r => ({ cc with pickleback := r.1 }, ())) = .ok r := by
    intro cc
    obtain ⟨p, r, hp⟩ := cc.pickleback.exists_sendControl .disconnect
      (fun header => .disconnect header id) fun _ => ⟨_, rfl⟩
    rw [hp]
    exact ⟨_, rfl⟩
  obtain ⟨r, hr⟩ := exists_callOnFirst (fun cc => cc.xorSalt == id) s.connectedClients fun cc _ =>
    hcall cc
  rw [disconnectClient, hr]
  cases r with
  | none =>
    refine ⟨s, rfl, fun hmem => ?_, rfl⟩
    obtain ⟨cc, hcc, rfl⟩ := List.mem_map.mp hmem
    exact List.find?_eq_none.mp (find?_of_callOnFirst_none hr) cc hcc (beq_self_eq_true _)
  | some r =>
    refine ⟨_, rfl, fun hmem => ?_, rfl⟩
    obtain ⟨cc, hcc, rfl⟩ := List.mem_map.mp hmem
    simpa using List.of_mem_filter hcc

end Steps

end Server

/-! ### Runs with a record of the events -/

/-- A server, and the events that were drained from it. -/
structure Watched where
  server : Server
  drained : List ServerEvent

namespace Watched

/-- A new server. -/
def start (overflowChecks : Bool) (time : Time) (config : PicklebackConfig) : Watched where
  server := Server.new overflowChecks time config
  drained := []

/-- All events, in order. -/
def history (w : Watched) : List ServerEvent := w.drained ++ w.server.serverEvents

/-- What has been drained after a call. -/
def drainedBy (w : Watched) : Server.Call → List ServerEvent
  | .drainServerEvents => w.history
  | _ => w.drained

/-- One call. -/
def step (w : Watched) (call : Server.Call) : Except Panic Watched :=
  (w.server.step call).map fun s => ⟨s, w.drainedBy call⟩

/-- A series of calls. -/
def run (w : Watched) (calls : List Server.Call) : Except Panic Watched := calls.foldlM step w

/-- For each id the events are `ClientConnected` and `ClientDisconnected` in turn, beginning with
the first, and the last of them is `ClientConnected` exactly for the connected clients. -/
def Mirrors (w : Watched) : Prop :=
  Membership.Mirrors (w.history.map ServerEvent.entry) w.server.connectedIds

variable {w w' : Watched}

theorem mirrors_start (overflowChecks : Bool) (time : Time) (config : PicklebackConfig) :
    (start overflowChecks time config).Mirrors := mirrors_nil

/-- Clients move, and the events say so. -/
theorem Mirrors.moves (h : w.Mirrors) (hids : w.server.connectedIds.Nodup) {s : Server}
    (hids' : s.connectedIds.Nodup) (hmoves : w.server.Moves s) : Mirrors ⟨s, w.drained⟩ := by
  cases hmoves with
  | leave gone reason hperm hevents =>
    have hgone : Membership.Mirrors (w.history.map ServerEvent.entry) (gone ++ s.connectedIds) :=
      h.congr fun k => hperm.mem_iff.symm
    have hleave := hgone.leaveAll (hperm.nodup_iff.mp hids)
    rw [Mirrors, history, hevents, ← List.append_assoc, List.map_append, List.map_map]
    exact hleave
  | join id hids₁ hevents =>
    have hnot : id ∉ w.server.connectedIds := by
      rw [hids₁] at hids'
      exact fun hmem => (List.disjoint_of_nodup_append hids') hmem (List.mem_singleton_self id)
    rw [Mirrors, history, hevents, ← List.append_assoc, List.map_append, hids₁]
    exact h.join hnot

/-- **One call** keeps the events right, unless it disconnects a client. -/
theorem Mirrors.step (h : w.Mirrors) {call : Server.Call} (hstep : w.step call = .ok w')
    (hids : w.server.connectedIds.Nodup) (hids' : w'.server.connectedIds.Nodup)
    (hkick : ∀ id, call = .disconnectClient id → id ∉ w.server.connectedIds) : w'.Mirrors := by
  obtain ⟨s, hs, rfl⟩ := exists_of_map_eq_ok hstep
  by_cases hdrain : call = .drainServerEvents
  · subst hdrain
    cases hs
    rw [Mirrors, history, drainedBy, Server.drainServerEvents, List.append_nil]
    exact h
  · have hdrained : w.drainedBy call = w.drained := by
      cases call with
      | drainServerEvents => exact absurd rfl hdrain
      | _ => rfl
    rw [hdrained]
    exact h.moves hids hids' (Server.step_moves hs hdrain hkick)

/-- **Events and sessions.** In a run in which the connected clients have distinct ids, the events
mirror the connected clients after every call if and only if no call of `disconnect_client` ever
names one of them. -/
theorem mirrors_iff {overflowChecks : Bool} {time : Time} {config : PicklebackConfig}
    {calls : List Server.Call}
    (hids : ∀ n w, (start overflowChecks time config).run (calls.take n) = .ok w →
      w.server.connectedIds.Nodup) :
    (∀ n w, (start overflowChecks time config).run (calls.take n) = .ok w → w.Mirrors) ↔
      ∀ n w id, (start overflowChecks time config).run (calls.take n) = .ok w →
        calls[n]? = some (.disconnectClient id) → id ∉ w.server.connectedIds := by
  constructor
  · intro hmirrors n w id hrun hcall hmem
    obtain ⟨s, hs, hnot, hevents⟩ := w.server.exists_disconnectClient id
    have hrun' : (start overflowChecks time config).run (calls.take (n + 1)) =
      .ok ⟨s, w.drained⟩ := by
      rw [List.take_add_one, hcall, run, Option.toList_some, List.foldlM_append, ← run, hrun]
      show List.foldlM Watched.step w [.disconnectClient id] = _
      rw [List.foldlM_cons, Watched.step, Server.step, hs]
      rfl
    have hnext := hmirrors (n + 1) _ hrun'
    rw [Mirrors, history, hevents] at hnext
    exact (hmirrors n w hrun).not_of_silent_leave hmem hnot hnext
  · intro hkick n
    induction n with
    | zero =>
      intro w hrun
      cases hrun
      exact mirrors_start overflowChecks time config
    | succ n ih =>
      intro w hrun
      rw [List.take_add_one] at hrun
      cases hcall : calls[n]? with
      | none =>
        rw [hcall, Option.toList_none, List.append_nil] at hrun
        exact ih w hrun
      | some call =>
        have hids' := hids (n + 1) w (by rwa [List.take_add_one])
        rw [hcall, Option.toList_some] at hrun
        obtain ⟨w₁, hinit, hlast⟩ := exists_of_foldlM_concat hrun
        refine (ih w₁ hinit).step hlast (hids n w₁ hinit) hids' fun id heq => hkick n w₁ id hinit ?_
        rw [hcall, heq]

/-- A client asks for a connection and answers the challenge. -/
def connecting : List Server.Call :=
  [.receive 5 (Server.requestBytes 1 7) (.v4 1 1), .receive 0 (Server.responseBytes 2 2) (.v4 1 1)]

theorem mirrors_connecting : (∃ w, (start true 0 .default).run connecting = .ok w ∧
      w.history = [.clientConnected 2] ∧ w.server.connectedIds = [2]) ∧
    ∀ n w, (start true 0 .default).run (connecting.take n) = .ok w → w.Mirrors := by
  constructor
  · obtain ⟨w, hrun, htest⟩ :=
      exists_of_any_toOption (show ((start true 0 .default).run connecting).toOption.any
      (fun w => decide (w.history = [.clientConnected 2] ∧ w.server.connectedIds = [2])) = true by
        decide +kernel)
    exact ⟨w, hrun, of_decide_eq_true htest⟩
  · have hall :
      (connecting.inits.all fun calls => ((start true 0 .default).run calls).toOption.all fun w =>
        decide w.server.connectedIds.Nodup) = true := by decide +kernel
    refine (mirrors_iff fun n w hrun => ?_).mpr fun n w id _ hcall => ?_
    · have htake :=
        List.all_eq_true.mp hall _ ((List.mem_inits _ _).mpr (List.take_prefix n connecting))
      rw [hrun] at htake
      exact of_decide_eq_true htake
    · rcases n with _ | _ | n <;> cases hcall

/-- A client that `disconnect_client` removes leaves without an event. -/
theorem not_mirrors : ∃ w, (start true 0 .default).run
    (connecting ++ [.disconnectClient 2]) = .ok w ∧
    w.history = [.clientConnected 2] ∧ w.server.connectedIds = [] ∧ ¬ w.Mirrors := by
  obtain ⟨w, hrun, htest⟩ := exists_of_any_toOption
    (show ((start true 0 .default).run (connecting ++ [.disconnectClient 2])).toOption.any
      (fun w => decide (w.history = [.clientConnected 2] ∧ w.server.connectedIds = [])) = true by
        decide +kernel)
  obtain ⟨hhistory, hids⟩ := of_decide_eq_true htest
  refine ⟨w, hrun, hhistory, hids, fun hmirrors => ?_⟩
  have hmem := (hmirrors.present_iff 2).mp (by rw [hhistory]; rfl)
  rw [hids] at hmem
  cases hmem

end Watched

end Pickleback
