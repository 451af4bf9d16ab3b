import Mathlib.Data.List.Forall2
import Pickleback.ClientStates
import Pickleback.Server

/-!
# Timeouts of the server

`update` collects the indices of the clients that have timed out and then removes them one after
another, without adjusting the indices on the way. So one timed-out client in a list is removed as
it should be; of two, the second stays, and a client behind it is removed in its place, or there is
none and `Vec::remove` panics.

## Main definitions

* `PendingClient.timedOut`, `ConnectedClient.timedOut` — what the loops of `update` test
* `Server.RemovesTimedOut` — what an update should do to the clients

## Main results

* `removeAll_flagged`, `countP_le_one_of_removeAll` — which removals are right
* `Server.update_removesTimedOut_iff` — exactly those with at most one timed-out client in each list
-/

namespace Pickleback

/-! ### Removals by index -/

section Removals

variable {α β : Type} {f : α → Bool} {as removed left : List α}

theorem flaggedIndices_cons (b : Bool) (flags : List Bool) : flaggedIndices (b :: flags) =
    if b then 0 :: (flaggedIndices flags).map (· + 1) else (flaggedIndices flags).map (· + 1) := by
  have hshift : ((flags.zipIdx 1).filter fun e => e.1).map Prod.snd =
    (flaggedIndices flags).map (· + 1) := by
    rw [flaggedIndices, List.zipIdx_succ, List.filter_map, List.map_map, List.map_map]
    rfl
  rw [flaggedIndices, List.zipIdx_cons, List.filter_cons]
  cases b
  · exact hshift
  · exact congrArg (List.cons 0) hshift

theorem flaggedIndices_eq_nil (h : ∀ a ∈ as, f a = false) : flaggedIndices (as.map f) = [] := by
  induction as with
  | nil => rfl
  | cons a as ih =>
    rw [List.map_cons, flaggedIndices_cons, h a (List.mem_cons_self ..),
      ih fun b hb => h b (List.mem_cons_of_mem _ hb)]
    rfl

/-- Removals behind the first entry are removals from the rest. -/
theorem removeAll_cons_succ (a : α) (is : List ℕ) : removeAll (a :: as) (is.map (· + 1)) =
    (removeAll as is).map fun r => (r.1, a :: r.2) := by
  induction is generalizing as with
  | nil => rfl
  | cons i is ih =>
    rw [List.map_cons, removeAll, removeAll, List.getElem?_cons_succ]
    cases as[i]? with
    | none => rfl
    | some b =>
      dsimp only
      rw [List.eraseIdx_cons_succ, ih]
      cases removeAll (as.eraseIdx i) is <;> rfl

/-- **One removal** is right. -/
theorem removeAll_flagged (h : as.countP f ≤ 1) :
    removeAll as (flaggedIndices (as.map f)) = .ok (as.filter f, as.filter fun a => !f a) := by
  induction as with
  | nil => rfl
  | cons a as ih =>
    rw [List.map_cons, flaggedIndices_cons, List.filter_cons, List.filter_cons]
    cases hf : f a
    · rw [List.countP_cons_of_neg (by simp [hf])] at h
      rw [if_neg Bool.false_ne_true, removeAll_cons_succ, ih h]
      rfl
    · rw [List.countP_cons_of_pos hf] at h
      have hnone : ∀ b ∈ as, f b = false := by
        have hzero : as.countP f = 0 := by omega
        simpa [List.countP_eq_zero] using hzero
      rw [flaggedIndices_eq_nil hnone, List.filter_eq_nil_iff.mpr fun b hb => by simp [hnone b hb],
        List.filter_eq_self.mpr fun b hb => by simp [hnone b hb]]
      rfl

/-- With the indices one too high, the first flagged entry stays. -/
theorem forall_of_removeAll_succ
    (h : removeAll as ((flaggedIndices (as.map f)).map (· + 1)) = .ok (removed, left))
    (hleft : ∀ a ∈ left, f a = false) : ∀ a ∈ as, f a = false := by
  induction as generalizing removed left with
  | nil => exact fun a ha => (by cases ha)
  | cons a as ih =>
    rw [List.map_cons, removeAll_cons_succ] at h
    obtain ⟨⟨removed', left'⟩, hrest, heq⟩ := exists_of_map_eq_ok h
    cases heq
    rw [List.forall_mem_cons] at hleft ⊢
    rw [flaggedIndices_cons, hleft.1, if_neg Bool.false_ne_true] at hrest
    exact ⟨hleft.1, ih hrest hleft.2⟩

/-- **Only one removal** is right: after more of them, a flagged entry is left. -/
theorem countP_le_one_of_removeAll
    (h : removeAll as (flaggedIndices (as.map f)) = .ok (removed, left))
    (hleft : ∀ a ∈ left, f a = false) : as.countP f ≤ 1 := by
  induction as generalizing removed left with
  | nil => exact Nat.zero_le 1
  | cons a as ih =>
    rw [List.map_cons, flaggedIndices_cons] at h
    cases hf : f a
    · rw [hf, if_neg Bool.false_ne_true, removeAll_cons_succ] at h
      obtain ⟨⟨removed', left'⟩, hrest, heq⟩ := exists_of_map_eq_ok h
      cases heq
      rw [List.countP_cons_of_neg (by simp [hf])]
      exact ih hrest fun b hb => hleft b (List.mem_cons_of_mem _ hb)
    · rw [hf, if_pos rfl] at h
      obtain ⟨⟨removed', left'⟩, hrest, heq⟩ := exists_of_map_eq_ok (h : (removeAll as _).map _ = _)
      cases heq
      have hnone := forall_of_removeAll_succ hrest hleft
      rw [List.countP_cons_of_pos hf, List.countP_eq_zero.mpr fun b hb => by simp [hnone b hb]]

/-- A call on every entry that never panics, with what it says of each entry. -/
theorem exists_callOnEach (call : α → Except Panic (α × β)) {g : α → β} {R : α → α → Prop}
    (hcall : ∀ a, ∃ a', call a = .ok (a', g a) ∧ R a a') (as : List α) :
    ∃ as', callOnEach call as = .ok (as', as.map g) ∧ List.Forall₂ R as as' := by
  induction as with
  | nil => exact ⟨[], rfl, .nil⟩
  | cons a as ih =>
    obtain ⟨a', ha, hR⟩ := hcall a
    obtain ⟨as', has, hall⟩ := ih
    refine ⟨a' :: as', ?_, .cons hR hall⟩
    rw [callOnEach, ha]
    dsimp only
    rw [has]
    rfl

/-- Related lists have the same flags. -/
theorem map_of_forall₂ {R : α → α → Prop} {as' : List α} (h : List.Forall₂ R as as')
    (hR : ∀ a a', R a a' → f a' = f a) : as'.map f = as.map f := by
  induction h with
  | nil => rfl
  | cons hrel _ ih => rw [List.map_cons, List.map_cons, hR _ _ hrel, ih]

/-- Related lists stay related when they are filtered by tests that agree. -/
theorem forall₂_filter {R : α → α → Prop} {as' : List α} (h : List.Forall₂ R as as')
    (hR : ∀ a a', R a a' → f a' = f a) : List.Forall₂ R (as.filter f) (as'.filter f) := by
  induction h with
  | nil => exact .nil
  | cons hrel _ ih =>
    rw [List.filter_cons, List.filter_cons, hR _ _ hrel]
    split
    · exact .cons hrel ih
    · exact ih

/-- What a filtered list has lost, a related list does not have either. -/
theorem forall_of_forall₂_filter {R : α → α → Prop} {as' : List α}
    (h : List.Forall₂ R (as.filter fun a => !f a) as') (hR : ∀ a a', R a a' → f a' = f a) :
    ∀ a ∈ as', f a = false := by
  intro a ha
  have hmem := List.mem_map_of_mem (f := f) ha
  rw [map_of_forall₂ h hR] at hmem
  obtain ⟨b, hb, heq⟩ := List.mem_map.mp hmem
  rw [← heq]
  simpa using List.of_mem_filter hb

end Removals

/-! ### One client -/

/-- `time - first_requested_time > CONNECTION_TIMEOUT`. -/
def PendingClient.timedOut (time : Time) (pc : PendingClient) : Bool :=
  decide (time - pc.firstRequestedTime > connectionTimeout)

/-- `time - last_received_time > CONNECTION_TIMEOUT`. -/
def ConnectedClient.timedOut (time : Time) (cc : ConnectedClient) : Bool :=
  decide (time - cc.lastReceivedTime > connectionTimeout)

/-- A packet that is not made of messages is sent, or there is an error, but no panic. -/
theorem Endpoint.exists_sendControl (p : Endpoint) (packetType : PacketType)
    (build : ProtocolPacketHeader → ProtocolPacket)
    (hbuild : ∀ header, ∃ bytes, (build header).bytes = .ok bytes) :
    ∃ p' r, p.sendControl packetType build = .ok (p', r) := by
  obtain ⟨r, hnext⟩ := exists_nextPacketHeader p packetType
  rw [sendControl, hnext]
  cases r with
  | error e => exact ⟨_, _, rfl⟩
  | ok header =>
    obtain ⟨bytes, hbytes⟩ := hbuild header
    obtain ⟨p', r, hsend, -⟩ := exists_sendPacket { p with sequenceId := p.sequenceId + 1 } hbytes
    exact ⟨p', r, hsend⟩

/-- The same pending client, with another endpoint and another time of the last challenge. -/
def PendingClient.Same (pc pc' : PendingClient) : Prop :=
  pc' = { pc with lastChallengedAt := pc'.lastChallengedAt, pickleback := pc'.pickleback }

/-- The same connected client, with another endpoint. -/
def ConnectedClient.Same (cc cc' : ConnectedClient) : Prop :=
  cc' = { cc with pickleback := cc'.pickleback }

theorem PendingClient.exists_process (time dt : Time) (pc : PendingClient) :
    ∃ pc', pc.process time dt = .ok (pc', pc.timedOut time) ∧ pc.Same pc' := by
  rw [PendingClient.process, PendingClient.timedOut]
  dsimp only
  by_cases hexpired : time - pc.firstRequestedTime > connectionTimeout
  · rw [if_pos hexpired, decide_eq_true hexpired]
    exact ⟨_, rfl, rfl⟩
  · rw [if_neg hexpired, decide_eq_false hexpired]
    split
    · obtain ⟨p, r, hp⟩ := (pc.pickleback.update dt).exists_sendControl .connectionChallenge
        (fun header => .connectionChallenge header pc.clientSalt pc.serverSalt) fun _ => ⟨_, rfl⟩
      rw [hp]
      exact ⟨_, rfl, rfl⟩
    · exact ⟨_, rfl, rfl⟩

theorem PendingClient.Same.timedOut {pc pc' : PendingClient} (h : pc.Same pc') (time : Time) :
    pc'.timedOut time = pc.timedOut time := by
  rw [h]
  rfl

theorem ConnectedClient.Same.timedOut {cc cc' : ConnectedClient} (h : cc.Same cc') (time : Time) :
    cc'.timedOut time = cc.timedOut time := by
  rw [h]
  rfl

theorem ConnectedClient.exists_process (time dt : Time) (cc : ConnectedClient) :
    ∃ cc', cc.process time dt = .ok (cc', ()) ∧ cc.Same cc' := by
  rw [ConnectedClient.process]
  dsimp only
  split
  · obtain ⟨p, r, hp⟩ := (cc.pickleback.update dt).exists_sendControl .keepAlive
      (fun header => .keepAlive header cc.xorSalt (cc.clientIndex.getD 0)) fun _ => ⟨_, rfl⟩
    rw [ConnectedClient.keepAlive]
    dsimp only
    rw [hp]
    exact ⟨_, rfl, rfl⟩
  · exact ⟨_, rfl, rfl⟩

/-! ### Updates -/

namespace Server

/-- What an update should do: of the pending and of the connected clients exactly those that have
not timed out are left, in order, each with what the update did to its endpoint; and there is one
event for each connected client that is gone. -/
structure RemovesTimedOut (s : Server) (dt : Time) (s' : Server) : Prop where
  pending : List.Forall₂ (fun pc pc' => pc.Same pc' ∧
    pc.process (s.time + dt) dt = .ok (pc', false))
    (s.pendingClients.filter fun pc => !pc.timedOut (s.time + dt)) s'.pendingClients
  connected : List.Forall₂ (fun cc cc' => cc.Same cc' ∧ cc.process (s.time + dt) dt = .ok (cc', ()))
    (s.connectedClients.filter fun cc => !cc.timedOut (s.time + dt)) s'.connectedClients
  events : s'.serverEvents = s.serverEvents ++
    (s.connectedClients.filter fun cc => cc.timedOut (s.time + dt)).map fun cc =>
      .clientDisconnected cc.xorSalt .timedOut

variable {s s' : Server} {dt : Time}

/-- Clients that were updated time out when they did before. -/
theorem map_timedOut {time dt : Time} {pcs pcs' : List PendingClient}
    (h : List.Forall₂ (fun pc pc' => pc.Same pc' ∧ pc.process time dt = .ok (pc', pc.timedOut time))
      pcs pcs') :
    pcs'.map (PendingClient.timedOut time) = pcs.map (PendingClient.timedOut time) :=
  map_of_forall₂ h fun _ _ hrel => hrel.1.timedOut time

theorem countP_timedOut {time dt : Time} {pcs pcs' : List PendingClient}
    (h : List.Forall₂ (fun pc pc' => pc.Same pc' ∧ pc.process time dt = .ok (pc', pc.timedOut time))
      pcs pcs') :
    pcs'.countP (PendingClient.timedOut time) = pcs.countP (PendingClient.timedOut time) := by
  have hmap := congrArg (List.countP id) (map_timedOut h)
  rwa [List.countP_map, List.countP_map] at hmap

/-- The pending clients before the removals: all of them, updated. -/
theorem exists_processEachPending (time dt : Time) (pcs : List PendingClient) :
    ∃ pcs', callOnEach (PendingClient.process time dt) pcs = .ok
    (pcs', pcs'.map (PendingClient.timedOut time)) ∧
      List.Forall₂ (fun pc pc' => pc.Same pc' ∧ pc.process time dt = .ok (pc', pc.timedOut time))
        pcs pcs' := by
  obtain ⟨pcs', heach, hall⟩ := exists_callOnEach (PendingClient.process time dt)
    (g := PendingClient.timedOut time)
    (R := fun pc pc' => pc.Same pc' ∧ pc.process time dt = .ok (pc', pc.timedOut time)) (by
      intro pc
      obtain ⟨pc', hprocess, hsame⟩ := pc.exists_process time dt
      exact ⟨pc', hprocess, hsame, hprocess⟩) pcs
  exact ⟨pcs', by rw [heach, map_timedOut hall], hall⟩

theorem exists_processEachConnected (time dt : Time) (ccs : List ConnectedClient) :
    ∃ ccs' us, callOnEach (ConnectedClient.process time dt) ccs = .ok (ccs', us) ∧
      List.Forall₂ (fun cc cc' => cc.Same cc' ∧ cc.process time dt = .ok (cc', ())) ccs ccs' := by
  obtain ⟨ccs', heach, hall⟩ := exists_callOnEach (ConnectedClient.process time dt)
    (g := fun _ => ())
    (R := fun cc cc' => cc.Same cc' ∧ cc.process time dt = .ok (cc', ())) (by
      intro cc
      obtain ⟨cc', hprocess, hsame⟩ := cc.exists_process time dt
      exact ⟨cc', hprocess, hsame, hprocess⟩) ccs
  exact ⟨ccs', _, heach, hall⟩

/-- What `processPendingClients` does, after the updates. -/
theorem processPendingClients_eq {pcs' : List PendingClient} {expired : List Bool}
    (h : callOnEach (PendingClient.process s.time dt) s.pendingClients = .ok (pcs', expired)) :
    s.processPendingClients dt =
      (removeAll pcs' (flaggedIndices expired)).map fun r => { s with pendingClients := r.2 } := by
  rw [processPendingClients, h]

/-- What `processConnectedClients` does, after the removals. -/
theorem processConnectedClients_eq {removed left : List ConnectedClient}
    (h : removeAll s.connectedClients
      (flaggedIndices (s.connectedClients.map (ConnectedClient.timedOut s.time)))
      = .ok (removed, left)) :
    s.processConnectedClients dt = (callOnEach (ConnectedClient.process s.time dt) left).map
      fun r =>
      { s with
        connectedClients := r.1
        serverEvents := s.serverEvents ++ removed.map fun cc =>
          .clientDisconnected cc.xorSalt .timedOut } := by
  rw [processConnectedClients]
  simp only [show (fun cc : ConnectedClient =>
    decide (s.time - cc.lastReceivedTime > connectionTimeout))
    = ConnectedClient.timedOut s.time from rfl, h]

/-- **Few timeouts** are handled as they should be. -/
theorem exists_update
    (hpending : s.pendingClients.countP (PendingClient.timedOut (s.time + dt)) ≤ 1)
    (hconnected : s.connectedClients.countP (ConnectedClient.timedOut (s.time + dt)) ≤ 1) :
    ∃ s', s.update dt = .ok s' ∧ s.RemovesTimedOut dt s' := by
  obtain ⟨pcs', heach, hall⟩ := exists_processEachPending (s.time + dt) dt s.pendingClients
  rw [← countP_timedOut hall] at hpending
  obtain ⟨ccs', us, heach', hall'⟩ := exists_processEachConnected (s.time + dt) dt
    (s.connectedClients.filter fun cc => !cc.timedOut (s.time + dt))
  have hupdate : s.update dt = .ok { s with
      time := s.time + dt
      pendingClients := pcs'.filter fun pc => !pc.timedOut (s.time + dt)
      connectedClients := ccs'
      serverEvents := s.serverEvents ++
        (s.connectedClients.filter fun cc => cc.timedOut (s.time + dt)).map fun cc =>
          .clientDisconnected cc.xorSalt .timedOut } := by
    rw [update, processPendingClients_eq (s := { s with time := s.time + dt }) heach,
      removeAll_flagged hpending]
    dsimp only [Except.map]
    rw [processConnectedClients_eq (s := { s with
      time := s.time + dt
      pendingClients := pcs'.filter fun pc => !pc.timedOut (s.time + dt) })
        (removeAll_flagged hconnected)]
    dsimp only
    rw [heach']
    rfl
  refine ⟨_, hupdate, ⟨?_, hall', rfl⟩⟩
  · have hfilter := forall₂_filter (f := fun pc => !pc.timedOut (s.time + dt)) hall
      fun _ _ hrel => by rw [hrel.1.timedOut]
    have hwaiting := (List.forall₂_and_left _ _).mpr ⟨fun pc hpc => List.of_mem_filter hpc, hfilter⟩
    refine hwaiting.imp fun pc pc' hrel => ⟨hrel.2.1, ?_⟩
    have hfalse : pc.timedOut (s.time + dt) = false := by simpa using hrel.1
    rw [← hfalse]
    exact hrel.2.2

/-- **Many timeouts** are not. -/
theorem countP_le_one_of_update (hupdate : s.update dt = .ok s') (h : s.RemovesTimedOut dt s') :
    s.pendingClients.countP (PendingClient.timedOut (s.time + dt)) ≤ 1 ∧
      s.connectedClients.countP (ConnectedClient.timedOut (s.time + dt)) ≤ 1 := by
  obtain ⟨pcs', heach, hall⟩ := exists_processEachPending (s.time + dt) dt s.pendingClients
  rw [update, processPendingClients_eq (s := { s with time := s.time + dt }) heach] at hupdate
  split at hupdate
  · cases hupdate
  · next s₁ hs₁ =>
    obtain ⟨⟨removed, left⟩, hremove, rfl⟩ := exists_of_map_eq_ok hs₁
    simp only [processConnectedClients] at hupdate
    split at hupdate
    · cases hupdate
    · next removed' left' hremove' =>
      obtain ⟨⟨ccs', us⟩, heach', rfl⟩ := exists_of_map_eq_ok hupdate
      constructor
      · rw [← countP_timedOut hall]
        exact countP_le_one_of_removeAll hremove
          (forall_of_forall₂_filter h.pending fun _ _ hrel => hrel.1.timedOut _)
      · refine countP_le_one_of_removeAll hremove' fun cc hcc => ?_
        obtain ⟨ccs'', us', heach'', hall'⟩ := exists_processEachConnected (s.time + dt) dt left'
        obtain rfl : ccs' = ccs'' := congrArg Prod.fst (Except.ok.inj (heach'.symm.trans heach''))
        have hmem := List.mem_map_of_mem (f := ConnectedClient.timedOut (s.time + dt)) hcc
        rw [← map_of_forall₂ hall' fun _ _ hrel => hrel.1.timedOut _] at hmem
        obtain ⟨cc', hcc', heq⟩ := List.mem_map.mp hmem
        rw [← heq]
        exact forall_of_forall₂_filter h.connected (fun _ _ hrel => hrel.1.timedOut _) cc' hcc'

/-- **Timeouts.** An update removes exactly the clients that have timed out if and only if there is
at most one of them among the pending and at most one among the connected clients. -/
theorem update_removesTimedOut_iff (s : Server) (dt : Time) :
    (∃ s', s.update dt = .ok s' ∧ s.RemovesTimedOut dt s') ↔
      s.pendingClients.countP (PendingClient.timedOut (s.time + dt)) ≤ 1 ∧
        s.connectedClients.countP (ConnectedClient.timedOut (s.time + dt)) ≤ 1 := by
  constructor
  · rintro ⟨s', hupdate, h⟩
    exact countP_le_one_of_update hupdate h
  · rintro ⟨hpending, hconnected⟩
    exact exists_update hpending hconnected

/-- Of two pending clients that time out together, the second is looked for past the end of the
list. -/
theorem not_removesTimedOut : ∃ s, (Server.new true 0 .default).run
      [.receive 5 (requestBytes 1 7) (.v4 1 1), .receive 6 (requestBytes 1 8) (.v4 1 2)] = .ok s ∧
    s.update 6 = .error .removeOutOfRange := by
  obtain ⟨s, hrun, htest⟩ := exists_of_any_toOption (show ((Server.new true 0 .default).run
      [.receive 5 (requestBytes 1 7) (.v4 1 1),
        .receive 6 (requestBytes 1 8) (.v4 1 2)]).toOption.any
        (fun s => decide ((s.update 6).map (fun _ => ()) = .error .removeOutOfRange)) = true by
          decide +kernel)
  exact ⟨s, hrun, eq_error_of_map_eq_error (of_decide_eq_true htest)⟩

end Server

end Pickleback
